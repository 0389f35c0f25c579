import Feat.Web.HttpServer

/- The order in which the responses of pipelined requests come out (`Channel.step`).

   A request that is not active gets a private transport, which is to keep what it
   writes until it is activated. But it never keeps anything: `write`, `finish` and
   `_make_error` all begin with `_write_headers`, which switches the request to the
   transport of the channel, active or not. So whatever a request writes is on the
   transport of the channel at once (`Ordered.heard`), and the order is kept only as
   long as no request writes before its turn: `in_order_iff`. -/
namespace Feat.Web.HttpServer
open Hash Transition Turns

variable (env : Env)

/-! ## What the methods of a request do -/

namespace Request

/-- Whether the response is complete and the connection goes on after it. -/
def passes (r : Request) : Bool := r.finished && r.persistent

/-- A request as one that speaks in turn. -/
def turn (r : Request) : Turn Char := ⟨r.produced, r.passes⟩

/-- What holds of a request at any time: the private transport is empty, and a request that has
sent its head is on the transport of the channel. -/
structure Ok (r : Request) : Prop where
  switched : r.transportActivated = true → r.transport = .channel
  empty : ∀ value, r.transport = .buffer value → value = []
  sent : r.writing = true → r.transportActivated = true
  spoken : r.writing = true ↔ r.produced ≠ []
  complete : r.finished = true → r.writing = true

/-- A method leaves a request as it should be and puts on the transport what it has the request
write. -/
structure Says (r r' : Request) (out : Bytes) : Prop where
  ok : r'.Ok
  produced : r'.produced = r.produced ++ out

variable {r : Request}

theorem new_ok (info : RequestInfo) (active : Bool) : (new env info active).Ok where
  switched h := by cases h
  empty value h := by
    cases active
    · exact (Transport.buffer.inj h).symm
    · cases h
  sent h := by cases h
  spoken := by simp [new]
  complete h := by cases h

theorem setHeader_eq (r : Request) (name value : Bytes) :
    ∃ headers, r.setHeader name value = { r with headers := headers } := by
  unfold setHeader
  dsimp only
  split
  · exact ⟨_, rfl⟩
  · exact ⟨_, rfl⟩

theorem settle_eq (r : Request) : ∃ headers persistent, (persistent = true → r.persistent = true) ∧
    r.settle = { r with headers := headers, persistent := persistent } := by
  unfold settle
  dsimp only
  have hclosing : ∃ persistent, (persistent = true → r.persistent = true) ∧
      (if r.length = none then { r with persistent := false } else r) =
        { r with persistent := persistent } := by
    split
    · exact ⟨_, fun h => (by cases h), rfl⟩
    · exact ⟨_, id, rfl⟩
  obtain ⟨persistent, hkept, hpersistent⟩ := hclosing
  rw [hpersistent]
  have hset : ∀ name value, ∃ headers, { r with persistent := persistent }.setHeader name value =
      { r with headers := headers, persistent := persistent } := fun name value =>
    setHeader_eq { r with persistent := persistent } name value
  split
  · split
    · exact ⟨r.headers, persistent, hkept, rfl⟩
    · obtain ⟨headers, hheaders⟩ := hset "connection".toList "close".toList
      exact ⟨headers, persistent, hkept, hheaders⟩
  · split
    · obtain ⟨headers, hheaders⟩ := hset "connection".toList "Keep-Alive".toList
      exact ⟨headers, persistent, hkept, hheaders⟩
    · exact ⟨r.headers, persistent, hkept, rfl⟩

/-- To prepare the head changes nothing but the head. -/
theorem prepare_eq (r : Request) (p : Preparation) :
    ∃ headers cookies length code message, r.prepare env p =
      { r with headers := headers, cookies := cookies, length := length, statusCode := code,
               statusMessage := message } := by
  unfold prepare
  split
  · exact ⟨_, _, _, _, _, rfl⟩
  · cases p with
    | setHeader name value =>
      obtain ⟨headers, h⟩ := setHeader_eq r name value
      exact ⟨headers, _, _, _, _, h⟩
    | setLength length =>
      obtain ⟨headers, h⟩ := setHeader_eq { r with length := some length } "content-length".toList
        (toString length).toList
      exact ⟨headers, _, _, _, _, h⟩
    | clearHeaders => exact ⟨_, _, _, _, _, rfl⟩
    | removeHeader name => exact ⟨_, _, _, _, _, rfl⟩
    | setResponseCode code message => exact ⟨_, _, _, _, _, rfl⟩
    | addCookie name payload => exact ⟨_, _, _, _, _, rfl⟩

/-- To prepare the head keeps what holds of a request. -/
theorem prepare_says (h : r.Ok) (p : Preparation) :
    Says r (r.prepare env p) [] ∧ (r.prepare env p).passes = r.passes := by
  obtain ⟨headers, cookies, length, code, message, heq⟩ := prepare_eq env r p
  rw [heq]
  exact ⟨⟨⟨h.switched, h.empty, h.sent, h.spoken, h.complete⟩, (List.append_nil _).symm⟩, rfl⟩

/-- The private transport has nothing to hand over. -/
theorem activateTransport_eq (hswitched : r.transportActivated = true → r.transport = .channel)
    (hempty : ∀ value, r.transport = .buffer value → value = []) : r.activateTransport =
      ({ r with transport := .channel, transportActivated := true }, []) := by
  unfold activateTransport
  cases hactive : r.transportActivated with
  | true => simp [← hactive, ← hswitched hactive]
  | false =>
    simp only [Bool.false_eq_true, if_false]
    cases htransport : r.transport with
    | none => rfl
    | channel => rfl
    | buffer value => rw [hempty value htransport]

theorem head_ne_nil (r : Request) : r.head env ≠ [] := by
  unfold head
  exact List.append_ne_nil_of_right_ne_nil _ (by decide)

/-- The head is sent on the transport of the channel. -/
theorem writeHeaders_eq (hswitched : r.transportActivated = true → r.transport = .channel)
    (hempty : ∀ value, r.transport = .buffer value → value = []) (hnone : r.produced = [])
    (hw : r.writing = false) : ∃ headers persistent head, head ≠ [] ∧
    (persistent = true → r.persistent = true) ∧ r.writeHeaders env =
      ({ r with headers := headers, persistent := persistent, writing := true,
                transport := .channel, transportActivated := true, produced := head }, head) := by
  obtain ⟨headers, persistent, hkept, hsettle⟩ := settle_eq r
  have hactivate : { r.settle with writing := true }.activateTransport =
      ({ r with headers := headers, persistent := persistent, writing := true,
                transport := .channel, transportActivated := true }, []) := by
    rw [hsettle]
    exact activateTransport_eq hswitched hempty
  refine ⟨headers, persistent, _, head_ne_nil env
    { r with headers := headers, persistent := persistent, writing := true, transport := .channel,
             transportActivated := true }, hkept, ?_⟩
  unfold writeHeaders
  rw [hw]
  simp only [Bool.false_eq_true, if_false, hactivate, put, hnone, List.nil_append]

theorem Ok.unsent (h : r.Ok) (hw : r.writing = false) : r.produced = [] := by
  by_contra hne
  rw [h.spoken.mpr hne] at hw
  cases hw

theorem Ok.on_channel (h : r.Ok) (hw : r.writing = true) : r.transport = .channel :=
  h.switched (h.sent hw)

/-- A request that has sent its head on the transport of the channel is as it should be. -/
theorem ok_of_sent (hactive : r.transportActivated = true) (htransport : r.transport = .channel)
    (hw : r.writing = true) (hspoken : r.produced ≠ []) : r.Ok where
  switched _ := htransport
  empty value h := by
    rw [htransport] at h
    cases h
  sent _ := hactive
  spoken := ⟨fun _ => hspoken, fun _ => hw⟩
  complete _ := hw

theorem Ok.unfinished (h : r.Ok) (hw : r.writing = false) : r.finished = false := by
  by_contra hf
  rw [h.complete (by simpa using hf)] at hw
  cases hw

/-- Whether a call of `write` puts bytes on a transport: the head or the data. -/
def writes (r : Request) (data : Bytes) : Prop :=
  data ≠ [] ∧ (r.writing = false ∨
    ¬ r.length.any fun length : Int => length < data.length + r.bytesSent)

instance (r : Request) (data : Bytes) : Decidable (r.writes data) :=
  inferInstanceAs (Decidable (_ ∧ _))

theorem write_says (h : r.Ok) (data : Bytes) :
    Says r (r.write env data).1 (r.write env data).2 ∧ (r.write env data).1.passes = r.passes ∧
      ((r.write env data).2 ≠ [] ↔ r.writes data) := by
  unfold write
  by_cases hdata : data = []
  · rw [if_pos hdata]
    exact ⟨⟨h, (List.append_nil _).symm⟩, rfl, by simp [writes, hdata]⟩
  · rw [if_neg hdata]
    cases hw : r.writing with
    | true =>
      have hhead : r.writeHeaders env = (r, []) := by
        unfold writeHeaders
        rw [if_pos hw]
      rw [hhead]
      dsimp only
      split
      · rename_i hlong
        exact ⟨⟨h, (List.append_nil _).symm⟩, rfl, by simp [writes, hw, hlong]⟩
      · rename_i hfits
        have hput : { r with bytesSent := r.bytesSent + data.length }.put data =
            ({ r with bytesSent := r.bytesSent + data.length, produced := r.produced ++ data },
              data) := by
          simp only [put, h.on_channel hw]
        rw [hput]
        refine ⟨⟨⟨h.switched, h.empty, h.sent, ?_, h.complete⟩, rfl⟩, rfl, ?_⟩
        · exact ⟨fun _ => by simp [hdata], fun _ => hw⟩
        · simp [writes, hdata, hfits]
    | false =>
      obtain ⟨headers, persistent, head, hne, _, hhead⟩ :=
        writeHeaders_eq env h.switched h.empty (h.unsent hw) hw
      have hfinished : r.finished = false := h.unfinished hw
      rw [hhead]
      dsimp only
      split
      · refine ⟨⟨ok_of_sent rfl rfl rfl hne, ?_⟩, ?_, ?_⟩
        · rw [h.unsent hw, List.nil_append]
        · simp [passes, hfinished]
        · simp [writes, hdata, hw, hne]
      · simp only [put]
        refine ⟨⟨ok_of_sent rfl rfl rfl (by simp [hne]), ?_⟩, ?_, ?_⟩
        · rw [h.unsent hw, List.nil_append]
        · simp [passes, hfinished]
        · simp [writes, hdata, hw, hne]

theorem Says.leaving {r' : Request} {out : Bytes} (h : Says r r' out) (leaving : Bool) :
    Says r { r' with leaving := leaving } out :=
  ⟨⟨h.ok.switched, h.ok.empty, h.ok.sent, h.ok.spoken, h.ok.complete⟩, h.produced⟩

theorem finish_of_finished (hfinished : r.finished = true) : r.finish env = (r, []) := by
  unfold finish
  rw [if_pos hfinished]

theorem finish_says (h : r.Ok) : Says r (r.finish env).1 (r.finish env).2 ∧
    ((r.finish env).2 ≠ [] ↔ r.writing = false) := by
  by_cases hfinished : r.finished = true
  · rw [finish_of_finished env hfinished]
    exact ⟨⟨h, (List.append_nil _).symm⟩, by simp [h.complete hfinished]⟩
  · unfold finish
    rw [if_neg hfinished]
    dsimp only
    generalize (r.persistent && (r.bodyLength.getD 0 == 0 || r.received)) = kept
    rcases Bool.eq_false_or_eq_true r.writing with hw | hw
    · have hhead : { r with finished := true, persistent := kept }.writeHeaders env =
          ({ r with finished := true, persistent := kept }, []) := by
        unfold writeHeaders
        rw [if_pos hw]
      have htells : Says r { r with finished := true, persistent := kept } [] :=
        ⟨ok_of_sent (h.sent hw) (h.on_channel hw) hw (h.spoken.mp hw), (List.append_nil _).symm⟩
      rw [hhead]
      refine ⟨?_, by simp [hw]⟩
      dsimp only
      split
      · exact htells.leaving true
      · exact htells
    · obtain ⟨headers, persistent, head, hne, _, hhead⟩ :=
        writeHeaders_eq env (r := { r with finished := true, persistent := kept }) h.switched
          h.empty (h.unsent hw) hw
      rw [hhead]
      refine ⟨?_, by simp [hne, hw]⟩
      have htells : Says r { r with
          finished := true, headers := headers, persistent := persistent, writing := true,
          transport := .channel, transportActivated := true, produced := head } head :=
        ⟨ok_of_sent rfl rfl rfl hne, by rw [h.unsent hw, List.nil_append]⟩
      dsimp only
      split
      · exact htells.leaving true
      · exact htells

/-- A connection that is not to be kept when the response is finished is not kept. -/
theorem finish_persistent (h : r.Ok) (hp : r.persistent = false) :
    (r.finish env).1.persistent = false := by
  by_cases hfinished : r.finished = true
  · rw [finish_of_finished env hfinished]
    exact hp
  · unfold finish
    rw [if_neg hfinished, hp]
    simp only [Bool.false_and]
    rcases Bool.eq_false_or_eq_true r.writing with hw | hw
    · unfold writeHeaders
      rw [if_pos hw]
      dsimp only
      split <;> rfl
    · obtain ⟨headers, persistent, head, -, hkept, hhead⟩ :=
        writeHeaders_eq env (r := { r with finished := true, persistent := false }) h.switched
          h.empty (h.unsent hw) hw
      have hdropped : persistent = false := by
        by_contra hne
        cases hkept (by simpa using hne)
      rw [hhead]
      dsimp only
      split <;> exact hdropped

theorem Ok.dropped (h : r.Ok) : { r with persistent := false }.Ok :=
  ⟨h.switched, h.empty, h.sent, h.spoken, h.complete⟩

theorem makeError_says (h : r.Ok) (code : Nat) (message : Option Bytes) :
    Says r (r.makeError env code message).1 (r.makeError env code message).2 ∧
      (r.makeError env code message).1.passes = false ∧
      ((r.makeError env code message).2 ≠ [] ↔ r.writing = false) := by
  unfold makeError
  dsimp only
  split
  · rename_i hfinished
    refine ⟨⟨h.dropped, (List.append_nil _).symm⟩, Bool.and_false _, ?_⟩
    simp [h.complete hfinished]
  · split
    · have hfinish := finish_says env h.dropped
      refine ⟨⟨hfinish.1.ok, hfinish.1.produced⟩, ?_, hfinish.2⟩
      unfold passes
      rw [finish_persistent env h.dropped rfl, Bool.and_false]
    · have hblank : { { r with persistent := false }.setResponseCode env code message with
          headers := ∅ }.Ok := ⟨h.switched, h.empty, h.sent, h.spoken, h.complete⟩
      have hfinish := finish_says env hblank
      refine ⟨⟨hfinish.1.ok, hfinish.1.produced⟩, ?_, hfinish.2⟩
      unfold passes
      rw [finish_persistent env hblank rfl, Bool.and_false]

theorem activate_says (h : r.Ok) : Says r r.activate.1 r.activate.2 ∧
    r.activate.1.passes = r.passes ∧ r.activate.2 = [] := by
  unfold activate
  split
  · exact ⟨⟨h, (List.append_nil _).symm⟩, rfl, rfl⟩
  · dsimp only
    rw [activateTransport_eq (r := { r with activated := true }) h.switched h.empty]
    have htells : Says r { r with
        activated := true, transport := .channel, transportActivated := true } [] :=
      ⟨⟨fun _ => rfl, fun _ hb => (by cases hb), fun _ => rfl, h.spoken, h.complete⟩,
        (List.append_nil _).symm⟩
    dsimp only
    split
    · exact ⟨htells.leaving true, rfl, rfl⟩
    · exact ⟨htells, rfl, rfl⟩

theorem initiated_says (h : r.Ok) : Says r r.initiated.1 r.initiated.2 ∧
    r.initiated.1.passes = r.passes ∧ r.initiated.2 = [] := by
  unfold initiated
  split
  · exact activate_says h
  · exact ⟨⟨h, (List.append_nil _).symm⟩, rfl, rfl⟩

theorem allContentReceived_says (h : r.Ok) : Says r r.allContentReceived [] ∧
    r.allContentReceived.passes = r.passes := by
  unfold allContentReceived
  split
  · exact ⟨⟨h, (List.append_nil _).symm⟩, rfl⟩
  · exact ⟨⟨⟨h.switched, h.empty, h.sent, h.spoken, h.complete⟩, (List.append_nil _).symm⟩, rfl⟩

end Request

/-! ## The order on the transport -/

/-- The requests as parties that speak in turn. -/
def turns (requests : List Request) : List (Turn Char) := requests.map Request.turn

/-- What holds as long as no request has written out of turn: the transport has all that was
written, in the order of the requests. -/
structure Ordered (requests : List Request) (transport : List (Nat × Char)) : Prop where
  ok : ∀ r ∈ requests, r.Ok
  heard : Heard transport (turns requests)
  whole : transport = transcript (turns requests)

/-- No request after this one has sent anything. -/
def Quiet (requests : List Request) (i : Nat) : Prop :=
  ∀ r ∈ requests.drop (i + 1), r.writing = false

/-- All requests before this one are answered, and the connection goes on. -/
def Passed (requests : List Request) (i : Nat) : Prop :=
  ∀ r ∈ requests.take i, r.passes = true

instance (requests : List Request) (i : Nat) : Decidable (Quiet requests i) :=
  inferInstanceAs (Decidable (∀ r ∈ _, _))

instance (requests : List Request) (i : Nat) : Decidable (Passed requests i) :=
  inferInstanceAs (Decidable (∀ r ∈ _, _))

section Act
variable {requests : List Request} {transport : List (Nat × Char)} {i : Nat} {r r' : Request}
  {out : Bytes}

theorem turns_set (requests : List Request) (i : Nat) (r' : Request) :
    turns (requests.set i r') = (turns requests).set i r'.turn := List.map_set

theorem turns_get (hr : requests[i]? = some r) : (turns requests)[i]? = some r.turn := by
  unfold turns
  rw [List.getElem?_map, hr]
  rfl

/-- Who has sent nothing has said nothing. -/
theorem quiet_iff (hok : ∀ r ∈ requests, r.Ok) (i : Nat) :
    Quiet requests i ↔ ∀ t ∈ (turns requests).drop (i + 1), t.said = [] := by
  unfold turns
  rw [← List.map_drop, List.forall_mem_map]
  refine forall₂_congr fun r hr => ?_
  have hspoken := (hok r (List.mem_of_mem_drop hr)).spoken
  cases hw : r.writing
  · simp [Request.turn, (hok r (List.mem_of_mem_drop hr)).unsent hw]
  · simpa [Request.turn] using hspoken.mp hw

theorem passed_iff (requests : List Request) (i : Nat) :
    Passed requests i ↔ ∀ t ∈ (turns requests).take i, t.passes = true := by
  unfold turns
  rw [← List.map_take, List.forall_mem_map]
  rfl

theorem Ordered.set_ok (h : Ordered requests transport) (htells : Request.Says r r' out) :
    ∀ q ∈ requests.set i r', q.Ok := by
  intro q hq
  rcases List.mem_or_eq_of_mem_set hq with hq | rfl
  · exact h.ok q hq
  · exact htells.ok

theorem Ordered.begins (h : Ordered requests transport) :
    transport <+: transcript (turns requests) := ⟨[], (List.append_nil _).trans h.whole⟩

/-- A method of a request keeps the order if it writes in turn only, and if it does not drop the
connection when later requests have written. -/
theorem Ordered.act (h : Ordered requests transport) (hr : requests[i]? = some r)
    (htells : Request.Says r r' out) (hturn : out ≠ [] → Passed requests i ∧ Quiet requests i)
    (hdrop : r.passes = true → r'.passes = false → Quiet requests i) :
    Ordered (requests.set i r') (transport ++ tagged i out) := by
  have hget := turns_get hr
  have hsaid : r'.turn.said = r.turn.said ++ out := htells.produced
  refine ⟨h.set_ok htells, ?_, ?_⟩
  · rw [turns_set]
    exact h.heard.said hget hsaid
  · rw [turns_set]
    by_cases hsame : out = [] ∧ r'.passes = r.passes
    · obtain ⟨rfl, hpasses⟩ := hsame
      have hturns : r'.turn = r.turn := by
        unfold Request.turn
        rw [htells.produced, List.append_nil, hpasses]
      have hset : (turns requests).set i r'.turn = turns requests := by
        obtain ⟨hlt, hval⟩ := List.getElem?_eq_some_iff.mp hget
        rw [hturns, ← hval]
        exact List.set_getElem_self hlt
      rw [hset, tagged_nil, List.append_nil]
      exact h.whole
    · have hquiet : Quiet requests i := by
        by_cases hout : out = []
        · cases hp : r.passes with
          | true =>
            refine hdrop hp ?_
            by_contra hp'
            exact hsame ⟨hout, by rw [hp]; simpa using hp'⟩
          | false =>
            exact (quiet_iff h.ok i).mpr (h.heard.silent_after h.begins hget hp)
        · exact (hturn hout).2
      have htranscript := transcriptFrom_said (n := 0) hget hsaid
        (fun hne => (passed_iff requests i).mp (hturn hne).1) ((quiet_iff h.ok i).mp hquiet)
      rw [Nat.zero_add] at htranscript
      unfold transcript
      rw [htranscript, h.whole, transcript]

/-- A request that joins has written nothing. -/
theorem Ordered.joined (h : Ordered requests transport) (info : RequestInfo) (active : Bool) :
    Ordered (requests ++ [.new env info active]) transport := by
  have hturns : turns (requests ++ [.new env info active]) =
      turns requests ++ [(Request.new env info active).turn] := List.map_append
  refine ⟨?_, ?_, ?_⟩
  · intro r hr
    rcases List.mem_append.mp hr with hr | hr
    · exact h.ok r hr
    · rw [List.mem_singleton.mp hr]
      exact Request.new_ok env info active
  · rw [hturns]
    intro k t ht b hb
    by_cases hk : k < (turns requests).length
    · rw [List.getElem?_append_left hk] at ht
      exact h.heard k t ht b hb
    · rw [List.getElem?_append_right (by omega)] at ht
      rw [List.mem_singleton.mp (List.mem_of_getElem? ht)] at hb
      cases hb
  · rw [hturns, transcript, transcriptFrom_joined _ rfl]
    exact h.whole

/-- Who writes and keeps the order does so in turn. -/
theorem Ordered.in_turn (h : Ordered requests transport) (hout : out ≠ [])
    (horder : transport ++ tagged i out <+: transcript (turns (requests.set i r'))) :
    Passed requests i ∧ Quiet requests i := by
  rw [turns_set] at horder
  obtain ⟨hpassed, hsilent⟩ := said_in_turn h.heard horder hout
  exact ⟨(passed_iff requests i).mpr hpassed, (quiet_iff h.ok i).mpr hsilent⟩

/-- Who drops the connection and keeps the order does so before later requests write. -/
theorem Ordered.in_time (h : Ordered requests transport) (hr : requests[i]? = some r)
    (hp : r'.passes = false)
    (horder : transport ++ tagged i out <+: transcript (turns (requests.set i r'))) :
    Quiet requests i := by
  rw [turns_set] at horder
  have hbefore : transport <+: transcript ((turns requests).set i r'.turn) :=
    (List.prefix_append _ _).trans horder
  exact (quiet_iff h.ok i).mpr (still_passing h.heard hbefore (turns_get hr) hp)

end Act

/-! ## Runs -/

/-- The bytes on the transport are those of the responses in the order of the requests, as far as
the connection is kept, and none is missing when no activation is due. -/
structure InOrder (s : Channel) : Prop where
  order : s.transport <+: transcript (turns s.requests)
  complete : s.initiating = false → (∀ r ∈ s.requests, r.leaving = false) →
    s.transport = transcript (turns s.requests)

/-- A request that sends its head or data does so in its turn, and an error that drops the
connection comes before later requests send anything. -/
def InTurn (s : Channel) : Event → Prop
  | .write i data =>
    ∀ r ∈ s.requests[i]?, r.writes data → Passed s.requests i ∧ Quiet s.requests i
  | .finish i =>
    ∀ r ∈ s.requests[i]?, r.writing = false → Passed s.requests i ∧ Quiet s.requests i
  | .makeError i _ _ =>
    ∀ r ∈ s.requests[i]?, (r.writing = false → Passed s.requests i ∧ Quiet s.requests i) ∧
      (r.passes = true → Quiet s.requests i)
  | _ => True

instance (s : Channel) (e : Event) : Decidable (InTurn s e) := by
  cases e <;> unfold InTurn <;> infer_instance

namespace Channel
variable {s t u : Channel}

theorem act_eq {i : Nat} {f : Request → Request × Bytes} (h : s.act i f = some t) :
    ∃ r, s.requests[i]? = some r ∧ t = { s with
      requests := s.requests.set i (f r).1, transport := s.transport ++ tagged i (f r).2 } := by
  obtain ⟨r, hr, rfl⟩ := Option.map_eq_some_iff.mp h
  exact ⟨r, hr, rfl⟩

/-- A method that writes nothing and does not drop the connection keeps the order. -/
theorem act_silent {i : Nat} {f : Request → Request × Bytes} (h : Ordered s.requests s.transport)
    (hf : ∀ r, r.Ok → Request.Says r (f r).1 (f r).2 ∧ (f r).1.passes = r.passes ∧ (f r).2 = [])
    (hact : s.act i f = some t) : Ordered t.requests t.transport := by
  obtain ⟨r, hr, rfl⟩ := act_eq hact
  obtain ⟨htells, hpasses, hout⟩ := hf r (h.ok r (List.mem_of_getElem? hr))
  refine h.act hr htells (fun hne => absurd hout hne) fun hp hp' => ?_
  rw [hpasses, hp] at hp'
  cases hp'

theorem cleanup_ordered {i : Nat} (h : Ordered s.requests s.transport)
    (hstep : s.cleanup i = some t) : Ordered t.requests t.transport := by
  unfold cleanup at hstep
  split at hstep
  · cases hstep
  · split at hstep
    · cases hstep
    · obtain ⟨u, hact, hrest⟩ := Option.bind_eq_some_iff.mp hstep
      have hu : Ordered u.requests u.transport := act_silent h (fun r hr =>
        ⟨Request.Says.leaving ⟨hr, (List.append_nil _).symm⟩ false, rfl, rfl⟩) hact
      split at hrest
      · unfold activateNext at hrest
        split at hrest
        · split at hrest
          · exact act_silent (s := { u with done := u.done + 1 }) hu
              (fun r hr => Request.activate_says hr) hrest
          · cases hrest
            exact hu
        · cases hrest
          exact hu
      · cases hrest
        exact hu

/-- Every event that is in turn keeps the order. -/
theorem step_ordered {e : Event} (h : Ordered s.requests s.transport) (hturn : InTurn s e)
    (hstep : s.step env e = some t) : Ordered t.requests t.transport := by
  cases e with
  | bodyStart info =>
    simp only [step, processBodyStart] at hstep
    split at hstep
    · cases hstep
    · cases hstep
      exact h.joined env info _
  | initiated =>
    simp only [step] at hstep
    split at hstep
    · exact act_silent (s := { s with initiating := false }) h
        (fun r hr => Request.initiated_says hr) hstep
    · cases hstep
  | allContentReceived =>
    simp only [step] at hstep
    split at hstep
    · cases hstep
    · exact act_silent h (fun r hr =>
        ⟨(Request.allContentReceived_says hr).1, (Request.allContentReceived_says hr).2, rfl⟩) hstep
  | prepare i p =>
    exact act_silent h (fun r hr =>
      ⟨(Request.prepare_says env hr p).1, (Request.prepare_says env hr p).2, rfl⟩) hstep
  | write i data =>
    obtain ⟨r, hr, rfl⟩ := act_eq hstep
    obtain ⟨htells, hpasses, hwrites⟩ :=
      Request.write_says env (h.ok r (List.mem_of_getElem? hr)) data
    refine h.act hr htells (fun hne => hturn r hr (hwrites.mp hne)) fun hp hp' => ?_
    rw [hpasses, hp] at hp'
    cases hp'
  | finish i =>
    obtain ⟨r, hr, rfl⟩ := act_eq hstep
    obtain ⟨htells, hsent⟩ := Request.finish_says env (h.ok r (List.mem_of_getElem? hr))
    refine h.act hr htells (fun hne => hturn r hr (hsent.mp hne)) fun hp hp' => ?_
    have hfinished : r.finished = true := (Bool.and_eq_true_iff.mp hp).1
    rw [Request.finish_of_finished env hfinished, hp] at hp'
    cases hp'
  | makeError i code message =>
    simp only [step] at hstep
    split at hstep
    · cases hstep
    · obtain ⟨r, hr, rfl⟩ := act_eq hstep
      obtain ⟨htells, -, hsent⟩ :=
        Request.makeError_says env (h.ok r (List.mem_of_getElem? hr)) code message
      exact h.act hr htells (fun hne => (hturn r hr).1 (hsent.mp hne)) fun hp _ => (hturn r hr).2 hp
  | cleanup i => exact cleanup_ordered h hstep

/-- An event that is out of turn loses the order. -/
theorem step_lost {e : Event} (h : Ordered s.requests s.transport) (hturn : ¬ InTurn s e)
    (hstep : s.step env e = some t) : ¬ InOrder t := by
  intro horder
  refine hturn ?_
  cases e with
  | bodyStart info => trivial
  | initiated => trivial
  | allContentReceived => trivial
  | prepare i p => trivial
  | cleanup i => trivial
  | write i data =>
    obtain ⟨r, hr, rfl⟩ := act_eq hstep
    intro r' hr' hwrites
    cases hr.symm.trans hr'
    have htells := Request.write_says env (h.ok r (List.mem_of_getElem? hr)) data
    exact h.in_turn (htells.2.2.mpr hwrites) horder.order
  | finish i =>
    obtain ⟨r, hr, rfl⟩ := act_eq hstep
    intro r' hr' hw
    cases hr.symm.trans hr'
    have htells := Request.finish_says env (h.ok r (List.mem_of_getElem? hr))
    exact h.in_turn (htells.2.mpr hw) horder.order
  | makeError i code message =>
    simp only [step] at hstep
    split at hstep
    · cases hstep
    · obtain ⟨r, hr, rfl⟩ := act_eq hstep
      intro r' hr'
      cases hr.symm.trans hr'
      obtain ⟨-, hpasses, hsent⟩ :=
        Request.makeError_says env (h.ok r (List.mem_of_getElem? hr)) code message
      exact ⟨fun hw => h.in_turn (hsent.mpr hw) horder.order,
        fun _ => h.in_time hr hpasses horder.order⟩

theorem new_ordered : Ordered Channel.new.requests Channel.new.transport :=
  ⟨fun r hr => (by cases hr), fun k t ht => (by cases ht), rfl⟩

/-- The responses come out whole and in the order of the requests throughout a run if and only if
no request sends anything before its turn and no error drops the connection under a response. -/
theorem in_order_iff {es : List Event} :
    Run (Guarded InTurn (Defined (step env))) .new es t ↔
      Run (Ending InOrder (Defined (step env))) .new es t :=
  have himp : ∀ s : Channel, Ordered s.requests s.transport → InOrder s :=
    fun _ h => ⟨h.begins, fun _ _ => h.whole⟩
  run_guarded_iff himp (fun _ _ _ h hturn hstep => step_ordered env h hturn hstep)
    (fun _ _ _ h hturn hstep => step_lost env h hturn hstep) new_ordered

/-- Two requests with bodies of one byte: the second is answered first, and its response is on the
transport before the one of the first. -/
theorem later_response_first :
    let env : Env := ⟨fun _ => some "OK".toList, .stored⟩
    let info : RequestInfo := ⟨.HTTP11, none, none⟩
    let events : List Event :=
      [.bodyStart info, .initiated, .bodyStart info, .initiated, .prepare 1 (.setLength 1),
        .write 1 ['b'], .finish 1, .prepare 0 (.setLength 1), .write 0 ['a'], .finish 0, .cleanup 0,
        .cleanup 1]
    ∃ t, Run (Defined (step env)) .new events t ∧
      (∀ r ∈ t.requests, r.finished = true ∧ r.persistent = true) ∧ t.done = 2 ∧
      t.transport.head? = some (1, 'H') ∧ t.transport.getLast? = some (0, 'a') ∧ ¬ InOrder t := by
  intro env info events
  obtain ⟨t, ht, h⟩ : ∃ t, events.foldlM (step env) .new = some t ∧
      decide ((∀ r ∈ t.requests, r.finished = true ∧ r.persistent = true) ∧ t.done = 2 ∧
        t.transport.head? = some (1, 'H') ∧ t.transport.getLast? = some (0, 'a') ∧
        ¬ t.transport <+: transcript (turns t.requests)) = true := by
    apply Option.map_eq_some_iff.mp
    decide +kernel
  obtain ⟨hpersistent, hdone, hfirst, hlast, hlost⟩ := of_decide_eq_true h
  exact ⟨t, run_defined ht, hpersistent, hdone, hfirst, hlast, fun horder => hlost horder.order⟩

end Channel
end Feat.Web.HttpServer
