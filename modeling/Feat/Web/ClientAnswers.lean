import Mathlib.Data.List.Range
import Feat.Web.ClientProtocol

/- Each request of an HTTP client gets its own answer once.

   Between two events the requests that were taken from the queue are the ones before those that
   wait, and all of them are answered but the one whose response is received (`Core`). A response
   is received with a decoder (`Tied`), so the loss of the connection puts it away.

   `answered_once_iff`: a run keeps to this if and only if no request is cancelled while the
   response of another one is received, no status line is accepted for a request that does not
   stand at its position, and the connection is not lost in the head of a response. -/
namespace Feat.Web.Http.Client
open HttpServer (Bytes HeaderValue Protocols)
open Raising (bind_of_ok bind_of_error get_bind)
open Transition

/-- The answer is one of the request: the response at its position, with all of its head, or an
error of its own. -/
def Rightful (i : Nat) : Answer → Prop
  | .response r => r.position = i ∧ r.whole = true
  | .cancelled j | .timedOut j => j = i
  | .failed _ | .connectionReset => True

/-- Each request has at most one answer, which is one of its own, the response that is received is
the one at the position of its request, and no request is without an answer when the connection
is gone. -/
structure Right (c : Connection) : Prop where
  once : (c.answers.map Prod.fst).Nodup
  own : ∀ i a, (i, a) ∈ c.answers → Rightful i a
  receiving : ∀ r, c.response = some r → r.response.position = r.request
  all : c.requests = none → ∀ i < c.sent, c.Answered i

/-- The response that is received is for a request that waits for it. -/
def Connection.Awaited (c : Connection) (r : Receiving) : Prop :=
  c.response = some r ∧ ¬ c.Answered r.request

/-- The condition on an event in the state it happens in. -/
def Orderly (p : Protocol Connection) : Event → Prop
  | .cancel i => p.sub.Answered i ∨ ∀ r, p.sub.Awaited r → r.request = i
  | .line line _ => p.state = .reqline → (parseResponseStatus line).isSome →
      ∀ i rest, p.sub.requests = some (i :: rest) → i = p.sub.heads
  | .lost => p.state = .headers → p.bodyDecoder = some (.identity none) → ∀ r, ¬ p.sub.Awaited r
  | _ => True

/-! ## The connection -/

/-- The first `k` requests were taken from the queue, and all of them are answered but the one
whose response is received. -/
structure Core (k : Nat) (c : Connection) : Prop where
  bound : k ≤ c.sent
  queue : ∀ waiting, c.requests = some waiting → waiting = List.range' k (c.sent - k)
  gone : c.requests = none → k = c.sent ∧ c.response = none
  decoded : ∀ i, i ∈ c.decoded ↔ i < k ∧ ∀ r, c.response = some r → r.request ≠ i
  receiving : ∀ r, c.response = some r → r.request < k
  answered : ∀ i ∈ c.decoded, c.Answered i
  known : ∀ i, c.Answered i → i < c.sent
  once : (c.answers.map Prod.fst).Nodup
  own : ∀ i a, (i, a) ∈ c.answers → Rightful i a

/-- A response is received with a decoder, after its status line, which is the one at the position
of the request. -/
structure Tied (p : Protocol Connection) : Prop where
  decoder : p.sub.response.isSome → p.bodyDecoder.isSome ∧ p.state ≠ .reqline
  position : ∀ r, p.sub.response = some r → r.response.position = r.request
  body : p.sub.requests.isSome → p.lineMode = false → p.state = .body
  started : p.sub.started = false → p.sub.response = none

/-- What holds between two events. -/
def Sound (p : Protocol Connection) : Prop := (∃ k, Core k p.sub) ∧ Tied p

section
variable {c : Connection} {p q : Protocol Connection} {k : Nat} {maxHeaders : Nat}

/-- No request is without an answer when the connection is gone. -/
theorem Core.all (h : Core k c) (hgone : c.requests = none) : ∀ i < c.sent, c.Answered i := by
  intro i hi
  obtain ⟨rfl, hnone⟩ := h.gone hgone
  refine h.answered i ((h.decoded i).mpr ⟨hi, fun r hr => ?_⟩)
  rw [hnone] at hr
  cases hr

/-- Another answer. -/
theorem answers_add {i : Nat} {a : Answer} (hnot : ¬ c.Answered i)
    (honce : (c.answers.map Prod.fst).Nodup) (hown : ∀ j b, (j, b) ∈ c.answers → Rightful j b)
    (ha : Rightful i a) :
    ((c.answers ++ [(i, a)]).map Prod.fst).Nodup ∧
      ∀ j b, (j, b) ∈ c.answers ++ [(i, a)] → Rightful j b := by
  constructor
  · rw [List.map_append, List.nodup_append]
    refine ⟨honce, by simp, fun j hj j' hj' => ?_⟩
    have hj' : j' = i := by simpa using hj'
    rintro rfl
    exact hnot (hj' ▸ hj)
  · intro j b hmem
    rcases List.mem_append.mp hmem with hold | hnew
    · exact hown j b hold
    · cases List.mem_singleton.mp hnew
      exact ha

theorem answered_add {i j : Nat} {a : Answer} :
    ({ c with answers := c.answers ++ [(i, a)] } : Connection).Answered j ↔
      c.Answered j ∨ j = i := by
  simp [Connection.Answered]

theorem answered_settle {i j : Nat} {a : Answer} :
    (c.settle i a).Answered j ↔ c.Answered j ∨ j = i := by
  unfold Connection.Answered Connection.settle
  split
  · rename_i hin
    exact ⟨.inl, fun h => h.elim id fun h => h ▸ hin⟩
  · simp

/-- The answers after a decoder has fired. -/
theorem settle_right {i : Nat} {a : Answer} (honce : (c.answers.map Prod.fst).Nodup)
    (hown : ∀ j b, (j, b) ∈ c.answers → Rightful j b) (ha : ¬ c.Answered i → Rightful i a) :
    ((c.settle i a).answers.map Prod.fst).Nodup ∧
      ∀ j b, (j, b) ∈ (c.settle i a).answers → Rightful j b := by
  unfold Connection.settle
  dsimp only
  split
  · exact ⟨honce, hown⟩
  · rename_i hnot
    exact answers_add hnot honce hown (ha hnot)

/-- `putAway`, on the fields of the connection. -/
def Connection.putAway (c : Connection) (answer : Receiving → Answer) : Connection :=
  match c.response with
  | none => c
  | some r => { c.settle r.request (answer r) with response := none }

theorem Core.putAway (h : Core k c) {answer : Receiving → Answer}
    (ha : ∀ r, c.Awaited r → Rightful r.request (answer r)) : Core k (c.putAway answer) := by
  unfold Connection.putAway
  cases hresponse : c.response with
  | none => exact h
  | some r =>
    have hlt := h.receiving r hresponse
    obtain ⟨honce, hown⟩ := settle_right h.once h.own fun hnot => ha r ⟨hresponse, hnot⟩
    refine ⟨h.bound, h.queue, fun hgone => ⟨(h.gone hgone).1, rfl⟩, fun i => ?_,
      fun _ hr => (nomatch hr), fun i hi => ?_, fun i hi => ?_, honce, hown⟩
    · show i ∈ c.decoded ++ [r.request] ↔ i < k ∧ ∀ r' : Receiving, none = some r' → r'.request ≠ i
      rw [List.mem_append, h.decoded, List.mem_singleton]
      constructor
      · rintro (⟨hi, -⟩ | rfl)
        · exact ⟨hi, fun _ hr => by cases hr⟩
        · exact ⟨hlt, fun _ hr => by cases hr⟩
      · rintro ⟨hi, -⟩
        by_cases heq : i = r.request
        · exact .inr heq
        · refine .inl ⟨hi, fun r' hr' => ?_⟩
          rw [hresponse] at hr'
          cases hr'
          exact Ne.symm heq
    · have hi : i ∈ c.decoded ++ [r.request] := hi
      refine answered_settle.mpr ?_
      rcases List.mem_append.mp hi with hold | hnew
      · exact .inl (h.answered i hold)
      · exact .inr (List.mem_singleton.mp hnew)
    · rcases answered_settle.mp hi with hold | rfl
      · exact h.known i hold
      · exact lt_of_lt_of_le hlt h.bound

/-- The decoder of the response that is received has not fired. -/
theorem putAway_eq (h : Core k p.sub) (answer : Receiving → Answer) :
    putAway answer p = .ok () { p with sub := p.sub.putAway answer } := by
  unfold Connection.putAway
  cases hresponse : p.sub.response with
  | none =>
    show (match p.sub.response with | none => _ | some r => _ : Action Connection Unit) p = _
    rw [hresponse]
    rfl
  | some r =>
    have hnot : r.request ∉ p.sub.decoded := fun hin =>
      ((h.decoded r.request).mp hin).2 r hresponse rfl
    show (match p.sub.response with | none => _ | some r => _ : Action Connection Unit) p = _
    rw [hresponse]
    show EStateM.bind (settle r.request (answer r)) _ p = _
    have hsettle : settle r.request (answer r) p =
        .ok () { p with sub := p.sub.settle r.request (answer r) } := by
      show (if r.request ∈ p.sub.decoded then _ else _ : Action Connection Unit) p = _
      rw [if_neg hnot]
      rfl
    unfold EStateM.bind
    rw [hsettle]
    rfl

/-! ## Sound states -/

theorem Sound.right (h : Sound p) : Right p.sub := by
  obtain ⟨⟨k, hcore⟩, htied⟩ := h
  exact ⟨hcore.once, hcore.own, htied.position, hcore.all⟩

/-- No response is received before its status line. -/
theorem Sound.no_response (h : Sound p) (hstate : p.state = .reqline) : p.sub.response = none := by
  cases hr : p.sub.response with
  | none => rfl
  | some r => exact absurd hstate (h.2.decoder (by rw [hr]; rfl)).2

/-- The response that is received is put away. -/
theorem Sound.putAway (h : Sound p) {answer : Receiving → Answer}
    (ha : ∀ r, p.sub.Awaited r → Rightful r.request (answer r)) :
    Sound { p with sub := p.sub.putAway answer } ∧ (p.sub.putAway answer).response = none := by
  obtain ⟨⟨k, hcore⟩, htied⟩ := h
  have hnone : (p.sub.putAway answer).response = none := by
    unfold Connection.putAway
    cases hresponse : p.sub.response with
    | none => exact hresponse
    | some r => rfl
  have hrequests : (p.sub.putAway answer).requests = p.sub.requests := by
    unfold Connection.putAway
    cases p.sub.response <;> rfl
  have hno {r : Receiving} (hr : (p.sub.putAway answer).response = some r) : False := by
    rw [hnone] at hr
    cases hr
  refine ⟨⟨⟨k, hcore.putAway ha⟩, fun hsome => ?_, fun r hr => (hno hr).elim, fun hsome => ?_,
    fun _ => hnone⟩, hnone⟩
  · obtain ⟨r, hr⟩ := Option.isSome_iff_exists.mp hsome
    exact (hno hr).elim
  · have hsome : (p.sub.putAway answer).requests.isSome := hsome
    exact htied.body (hrequests ▸ hsome)

/-- Fields of `BaseProtocol` that a response without a decoder does not depend on. -/
theorem Sound.framed (h : Sound p) (hnone : p.sub.response = none) (framing : Framing)
    (hbody : p.sub.requests.isSome → framing.lineMode = false → framing.state = .body) :
    Sound { p with toFraming := framing } := by
  refine ⟨h.1, fun hsome => ?_, h.2.position, hbody, fun _ => hnone⟩
  have hsome : p.sub.response.isSome := hsome
  rw [hnone] at hsome
  cases hsome

/-- The marks of a connection that is closed. -/
theorem Sound.flags (h : Sound p) (closing broken : Bool) :
    Sound { p with sub := { p.sub with closing := closing, broken := broken } } := by
  obtain ⟨⟨k, hcore⟩, htied⟩ := h
  exact ⟨⟨k, hcore.bound, hcore.queue, hcore.gone, hcore.decoded, hcore.receiving, hcore.answered,
    hcore.known, hcore.once, hcore.own⟩, htied.decoder, htied.position, htied.body, htied.started⟩

theorem sound_unheaded : Unheaded Sound := by
  intro p count empty decoder hdecoder h
  refine ⟨h.1, fun hsome => ?_, h.2.position, h.2.body, h.2.started⟩
  obtain ⟨hold, hstate⟩ := h.2.decoder hsome
  refine ⟨?_, hstate⟩
  rcases hdecoder with rfl | hdecoder
  · exact hold
  · exact hdecoder

theorem withResponse_eq (f : Response → Response) : withResponse f p = match p.sub.response with
    | none => .error .assertionError p
    | some r => .ok () { p with sub := { p.sub with
        response := some { r with response := f r.response } } } := by
  show (match p.sub.response with | none => _ | some r => _ : Action Connection Unit) p = _
  cases p.sub.response <;> rfl

/-- The response that is received is changed, but for its position. -/
theorem Sound.change {r : Receiving} (h : Sound p) (hr : p.sub.response = some r)
    {response : Response} (hposition : response.position = r.response.position) :
    Sound { p with sub := { p.sub with response := some ⟨r.request, response⟩ } } := by
  obtain ⟨⟨k, hcore⟩, htied⟩ := h
  have hsome : p.sub.response.isSome := by rw [hr]; rfl
  have hsame (i : Nat) : (∀ r', p.sub.response = some r' → r'.request ≠ i) ↔
      ∀ r', some (⟨r.request, response⟩ : Receiving) = some r' → r'.request ≠ i := by
    simp [hr]
  refine ⟨⟨k, hcore.bound, hcore.queue, fun hgone => ?_, fun i => ?_, fun r' hr' => ?_,
    hcore.answered, hcore.known, hcore.once, hcore.own⟩, fun _ => htied.decoder hsome,
    fun r' hr' => ?_, htied.body, fun hnot => ?_⟩
  · rw [(hcore.gone hgone).2] at hr
    cases hr
  · exact (hcore.decoded i).trans (and_congr_right fun _ => hsame i)
  · cases hr'
    exact hcore.receiving r hr
  · cases hr'
    exact hposition.trans (htied.position r hr)
  · rw [htied.started hnot] at hr
    cases hr

/-- What is known of a response while it is received. -/
theorem keeps_withResponse {f : Response → Response} (hf : ∀ r, (f r).position = r.position) :
    Keeps Sound (withResponse f) := by
  intro p h
  unfold final
  rw [withResponse_eq]
  cases hr : p.sub.response with
  | none => exact h
  | some r => exact h.change hr (hf r.response)

/-- An error of `BaseProtocol` puts the response away. -/
theorem Sound.error (h : Sound p) (e : Raised) :
    ∃ q, Http.error hooks e p = .ok () q ∧ Sound q ∧ q.sub.response = none ∧
      q = { p with bodyDecoder := none, sub := p.sub.putAway fun _ => .failed e } := by
  obtain ⟨⟨k, hcore⟩, htied⟩ := h
  have hdropped : Client.putAway (fun _ => .failed e) { p with bodyDecoder := none } =
      .ok () { p with bodyDecoder := none, sub := p.sub.putAway fun _ => .failed e } :=
    putAway_eq (p := { p with bodyDecoder := none }) hcore _
  have hrightful : ∀ r, p.sub.Awaited r → Rightful r.request (.failed e) := fun _ _ => trivial
  obtain ⟨hput, hnone⟩ := Sound.putAway (p := p) ⟨⟨k, hcore⟩, htied⟩ hrightful
  exact ⟨_, (bind_of_ok rfl).trans hdropped, hput.framed hnone _ hput.2.body, hnone, rfl⟩

theorem keeps_error (e : Raised) : Keeps Sound (Http.error hooks e) := by
  intro p h
  obtain ⟨q, hq, hsound, -⟩ := h.error e
  unfold final
  rw [hq]
  exact hsound

/-- The hooks while the head is received. -/
theorem hooks_keep : hooks.Keep Sound where
  length n := keeps_withResponse (f := fun r => { r with length := some n }) fun _ => rfl
  extendHeader name values :=
    keeps_withResponse (f := fun r => { r with headers := extend r.headers name values })
      fun _ => rfl
  setHeader name value := keeps_withResponse (f := fun r =>
    { r with headers := r.headers.filter (·.1 ≠ name) ++ [(name, .text value)] }) fun _ => rfl
  error := keeps_error

/-- What the end of a body answers. -/
def finished (p : Protocol Connection) (r : Receiving) : Answer :=
  .response { r.response with whole := p.state = .body }

/-- `process_body_finished`. -/
theorem processBodyFinished_eq (h : Sound p) : processBodyFinished p = match p.sub.response with
    | none => .error .attributeError p
    | some _ => .ok () { p with sub := p.sub.putAway (finished p) } := by
  obtain ⟨⟨k, hcore⟩, -⟩ := h
  show (match p.sub.response with | none => _ | some r => _ : Action Connection Unit) p = _
  cases p.sub.response with
  | none => rfl
  | some r => exact putAway_eq hcore _

/-- The end of a body whose head was complete. -/
theorem Sound.gotAllContent (h : Sound p) (hwhole : ∀ r, p.sub.Awaited r → p.state = .body) :
    Sound (final (gotAllContent hooks) p) := by
  have hfinished := processBodyFinished_eq h
  unfold final Http.gotAllContent
  cases hresponse : p.sub.response with
  | none =>
    rw [hresponse] at hfinished
    rw [bind_of_error (show hooks.processBodyFinished p = _ from hfinished)]
    exact h
  | some r =>
    rw [hresponse] at hfinished
    rw [bind_of_ok (show hooks.processBodyFinished p = _ from hfinished)]
    have hright (r : Receiving) (hr : p.sub.Awaited r) : Rightful r.request (finished p r) :=
      ⟨h.2.position r hr.1, by simp [hwhole r hr]⟩
    obtain ⟨hput, hnone⟩ := h.putAway hright
    exact hput.framed hnone _ fun _ hmode => (nomatch hmode)

/-- The entry of a header that is complete. -/
theorem keeps_flushHeader : Keeps Sound (flushHeader hooks maxHeaders) :=
  hooks_keep.flushHeader sound_unheaded

/-- A state in which the body is received. -/
def Bodied (p : Protocol Connection) : Prop := Sound p ∧ p.state = .body

/-- The end of a head. -/
theorem keeps_gotAllHeaders : Keeps Sound (gotAllHeaders hooks) := by
  intro p h
  have hbody : Sound { p with state := .body } :=
    ⟨h.1, fun hsome => ⟨(h.2.decoder hsome).1, by simp⟩, h.2.position, fun _ _ => rfl, h.2.started⟩
  have heq : final (gotAllHeaders hooks) p =
      final (if p.bodyDecoder = none ∨ p.noContentFollows = true then Http.gotAllContent hooks
        else modify fun p => { p with lineMode := false }) { p with state := .body } := rfl
  rw [heq]
  split
  · exact hbody.gotAllContent fun _ _ => rfl
  · exact ⟨hbody.1, hbody.2.decoder, hbody.2.position, fun _ _ => rfl, hbody.2.started⟩

/-- The header that is continued on the next line. -/
theorem keeps_header (f : Bytes → Bytes) :
    Keeps Sound (modify fun p : Protocol Connection => { p with header := f p.header }) :=
  keeps_modify fun _ h => ⟨h.1, h.2.decoder, h.2.position, h.2.body, h.2.started⟩

theorem keeps_gotHeaderLine (line : Bytes) : Keeps Sound (gotHeaderLine hooks maxHeaders line) := by
  cases line with
  | nil =>
    exact keeps_flushHeader.bind fun _ => (keeps_header fun _ => []).bind fun _ =>
      keeps_gotAllHeaders
  | cons c rest =>
    unfold Http.gotHeaderLine
    dsimp only
    split
    · exact keeps_header fun header => header ++ '\n' :: c :: rest
    · exact keeps_flushHeader.bind fun _ => keeps_header fun _ => c :: rest

theorem keeps_bodyData (data : Bytes) : Keeps Bodied (hooks.processBodyData data) := by
  intro p h
  refine ⟨keeps_withResponse (f := fun r => { r with body := r.body ++ data }) (fun _ => rfl) p h.1,
    ?_⟩
  have heq : hooks.processBodyData data = withResponse fun r => { r with body := r.body ++ data } :=
    rfl
  unfold final
  rw [heq, withResponse_eq]
  cases p.sub.response <;> exact h.2

/-- Data of the body. -/
theorem Bodied.handleReceived (h : Bodied p) (decoding : Decoding) :
    Sound (final (Http.handleReceived hooks decoding) p) := by
  have hkeeps : Keeps Bodied (get : Action Connection _) := keeps_get
  refine hkeeps.into (fun _ h => h.1) (fun q p h => ?_) p h
  cases q.bodyDecoder with
  | none => exact h.1
  | some _ =>
    refine (Keeps.forM keeps_bodyData decoding.data).into (fun _ h => h.1) (fun _ p h => ?_) p h
    cases decoding.raises with
    | some e => exact h.1
    | none =>
      dsimp only
      split
      · exact h.1.gotAllContent fun _ _ => h.2
      · exact h.1

/-- A request is taken from the queue, for a response. -/
theorem Core.take {i : Nat} {rest : List Nat} (h : Core k c) (hnone : c.response = none)
    (hqueue : c.requests = some (i :: rest)) (response : Response) (heads : Nat) :
    Core (k + 1)
      { c with requests := some rest, response := some ⟨i, response⟩, heads := heads } := by
  have hrange := h.queue _ hqueue
  obtain ⟨n, hn⟩ : ∃ n, c.sent - k = n + 1 := by
    cases hn : c.sent - k with
    | zero =>
      rw [hn] at hrange
      cases hrange
    | succ n => exact ⟨n, rfl⟩
  rw [hn, List.range'_succ] at hrange
  injection hrange with hi hrest
  have hbound : k + 1 ≤ c.sent := by omega
  refine ⟨hbound, fun waiting hw => ?_, fun hgone => (nomatch hgone), fun j => ?_, fun r hr => ?_,
    h.answered, h.known, h.once, h.own⟩
  · cases hw
    rw [hrest]
    congr 1
    show n = c.sent - (k + 1)
    omega
  · refine (h.decoded j).trans ?_
    simp only [hnone, reduceCtorEq, false_implies, implies_true, and_true, Option.some.injEq,
      forall_eq']
    omega
  · cases hr
    show i < k + 1
    omega

/-- A status line, where no response is received. -/
theorem gotRequestLine_eq (hnone : p.sub.response = none) (line : Bytes) :
    final (gotRequestLine hooks line) p = match parseResponseStatus line, p.sub.requests with
      | none, _ => { p with state := .headers, sub := { p.sub with closing := true } }
      | some (protocol, status), some (i :: rest) => { p with
          state := .headers
          bodyDecoder := some (.identity none)
          sub := { p.sub with
            requests := some rest
            response := some ⟨i, { Response.new p.sub.heads with
              protocol := some protocol, status := some status }⟩
            heads := p.sub.heads + 1 } }
      | some _, _ => p := by
  obtain ⟨framing, requests, response, sent, heads, decoded, answers, started, closing, broken⟩ := p
  cases (hnone : response = none)
  have heq : hooks.processRequestLine line = processRequestLine line := rfl
  unfold final Http.gotRequestLine
  rw [heq]
  unfold processRequestLine
  cases parseResponseStatus line with
  | none => rfl
  | some head =>
    match requests with
    | none => rfl
    | some [] => rfl
    | some (i :: rest) => rfl

/-- A response begins. -/
theorem Sound.gotRequestLine (h : Sound p) (hstate : p.state = .reqline) (line : Bytes)
    (hord : (parseResponseStatus line).isSome → ∀ i rest, p.sub.requests = some (i :: rest) →
      i = p.sub.heads) (hstarted : p.sub.started = true) :
    Sound (final (Http.gotRequestLine hooks line) p) := by
  have hnone := h.no_response hstate
  obtain ⟨⟨k, hcore⟩, htied⟩ := h
  have hmode (hsome : p.sub.requests.isSome) (hmode : p.lineMode = false) : False := by
    have hbody := htied.body hsome hmode
    rw [hstate] at hbody
    cases hbody
  rw [gotRequestLine_eq hnone]
  split
  · have hclosing := Sound.flags ⟨⟨k, hcore⟩, htied⟩ true p.sub.broken
    exact hclosing.framed hnone _ fun hsome hraw => (hmode hsome hraw).elim
  · rename_i i rest hparse hrequests
    refine ⟨⟨k + 1, hcore.take hnone hrequests _ _⟩, fun _ => ⟨rfl, by simp⟩, fun r hr => ?_,
      fun _ hraw => (hmode (by rw [hrequests]; rfl) hraw).elim, fun hnot => ?_⟩
    · cases hr
      exact (hord (by rw [hparse]; rfl) i rest hrequests).symm
    · have hnot : p.sub.started = false := hnot
      rw [hstarted] at hnot
      cases hnot
  · exact ⟨⟨k, hcore⟩, htied⟩

/-! ## The events -/

/-- A request is sent. -/
theorem Sound.request {waiting : List Nat} (h : Sound p)
    (hrequests : p.sub.requests = some waiting) :
    Sound { p with sub := { p.sub with
      requests := some (waiting ++ [p.sub.sent]), sent := p.sub.sent + 1 } } := by
  obtain ⟨⟨k, hcore⟩, htied⟩ := h
  have hbound := hcore.bound
  refine ⟨⟨k, Nat.le_succ_of_le hbound, fun l hl => ?_, fun hgone => (nomatch hgone), hcore.decoded,
    hcore.receiving, hcore.answered, fun i hi => Nat.lt_succ_of_lt (hcore.known i hi), hcore.once,
    hcore.own⟩, htied.decoder, htied.position,
    fun _ => htied.body (by rw [hrequests]; rfl), htied.started⟩
  cases hl
  have hcount : p.sub.sent + 1 - k = p.sub.sent - k + 1 := by omega
  have hlast : k + (p.sub.sent - k) = p.sub.sent := by omega
  show waiting ++ [p.sub.sent] = List.range' k (p.sub.sent + 1 - k)
  rw [hcount, List.range'_1_concat, hcore.queue waiting hrequests, hlast]

theorem sound_received {a : Action Connection Unit} (h : Sound (final a p)) :
    Sound (received a p) := by
  unfold final at h
  unfold received
  cases hout : a p with
  | ok _ q =>
    rw [hout] at h
    exact h
  | error _ q =>
    rw [hout] at h
    exact h.flags q.sub.closing true

/-- A line is received. -/
theorem Sound.lineReceived (h : Sound p) (line : Bytes) (decoding : Decoding)
    (hord : Orderly p (.line line decoding)) :
    Sound (received (Http.lineReceived hooks maxHeaders line decoding)
      { p with sub := { p.sub with started := true } }) := by
  obtain ⟨⟨k, hcore⟩, htied⟩ := h
  have h : Sound { p with sub := { p.sub with started := true } } :=
    ⟨⟨k, hcore.bound, hcore.queue, hcore.gone, hcore.decoded, hcore.receiving, hcore.answered,
      hcore.known, hcore.once, hcore.own⟩, htied.decoder, htied.position, htied.body,
      fun hnot => (by cases hnot)⟩
  refine sound_received ?_
  unfold final Http.lineReceived
  rw [get_bind]
  dsimp only
  cases hstate : p.state with
  | reqline => exact h.gotRequestLine hstate line (hord hstate) rfl
  | headers => exact keeps_gotHeaderLine line _ h
  | body => exact Bodied.handleReceived ⟨h, hstate⟩ decoding

/-- Data are received. -/
theorem Sound.rawDataReceived (h : Sound p) (decoding : Decoding) (hsome : p.sub.requests.isSome)
    (hmode : p.lineMode = false) : Sound (received (Http.handleReceived hooks decoding) p) :=
  sound_received (Bodied.handleReceived ⟨h, h.2.body hsome hmode⟩ decoding)

/-- A request that waits is answered at once. -/
theorem Sound.takeAway {i : Nat} {rest : List Nat} {response : Response}
    {answer : Receiving → Answer} (h : Sound p) (hnone : p.sub.response = none) (hqueue : p.sub.requests = some (i :: rest))
    (ha : Rightful i (answer ⟨i, response⟩)) (closing : Bool) :
    Sound { p with sub := { p.sub.settle i (answer ⟨i, response⟩) with
      requests := some rest, response := none, closing := closing } } := by
  obtain ⟨⟨k, hcore⟩, htied⟩ := h
  have hsound : Sound { p with sub := ({ p.sub with
      requests := some rest, response := some ⟨i, response⟩ } : Connection).putAway answer } := by
    refine ⟨⟨k + 1, (hcore.take hnone hqueue response p.sub.heads).putAway fun r hr => ?_⟩, ?_⟩
    · cases hr.1
      exact ha
    · exact ⟨fun hsome => (nomatch hsome), fun r hr => (nomatch hr),
        fun _ => htied.body (by rw [hqueue]; rfl), fun _ => rfl⟩
  exact hsound.flags closing p.sub.broken

/-- `_client_error`. -/
theorem clientError_eq (h : Core k p.sub) (answer : Receiving → Answer) :
    final (clientError answer) p =
      { p with sub := { p.sub.putAway answer with closing := true } } := by
  unfold final clientError
  rw [bind_of_ok (putAway_eq h answer)]
  rfl

/-- A timeout strikes. -/
theorem Sound.timeout (h : Sound p) (hsome : p.sub.requests.isSome) :
    Sound (final processTimeout p) := by
  by_cases hstate : p.state = .reqline
  · have hnone := h.no_response hstate
    obtain ⟨waiting, hqueue⟩ := Option.isSome_iff_exists.mp hsome
    cases waiting with
    | nil =>
      have heq : final processTimeout p = { p with sub := { p.sub with closing := true } } := by
        obtain ⟨⟨state, header, count, empty, decoder, mode⟩, requests, response, sent, heads,
          decoded, answers, started, closing, broken⟩ := p
        cases (hstate : state = .reqline)
        cases (hqueue : requests = some [])
        rfl
      rw [heq]
      exact h.flags true p.sub.broken
    | cons i rest =>
      have heq : final processTimeout p = final (clientError fun _ => .timedOut i)
          { p with sub := { p.sub with
            requests := some rest, response := some ⟨i, .new p.sub.heads⟩ } } := by
        obtain ⟨⟨state, header, count, empty, decoder, mode⟩, requests, response, sent, heads,
          decoded, answers, started, closing, broken⟩ := p
        cases (hstate : state = .reqline)
        cases (hqueue : requests = some (i :: rest))
        rfl
      obtain ⟨⟨k, hcore⟩, htied⟩ := h
      rw [heq, clientError_eq (hcore.take hnone hqueue (.new p.sub.heads) p.sub.heads)]
      have hsound : Sound p := ⟨⟨k, hcore⟩, htied⟩
      exact @Sound.takeAway p i rest (.new p.sub.heads) (fun _ => .timedOut i) hsound hnone hqueue
        rfl true
  · cases hr : p.sub.response with
    | none =>
      have heq : final processTimeout p = p := by
        obtain ⟨⟨state, header, count, empty, decoder, mode⟩, requests, response, sent, heads,
          decoded, answers, started, closing, broken⟩ := p
        cases (hr : response = none)
        cases state with
        | reqline => exact absurd rfl hstate
        | headers => rfl
        | body => rfl
      rw [heq]
      exact h
    | some r =>
      have heq : final processTimeout p = final (clientError fun r => .timedOut r.request) p := by
        obtain ⟨⟨state, header, count, empty, decoder, mode⟩, requests, response, sent, heads,
          decoded, answers, started, closing, broken⟩ := p
        cases (hr : response = some r)
        cases state with
        | reqline => exact absurd rfl hstate
        | headers => rfl
        | body => rfl
      obtain ⟨⟨k, hcore⟩, htied⟩ := h
      rw [heq, clientError_eq hcore]
      have hrightful : ∀ r, p.sub.Awaited r → Rightful r.request (.timedOut r.request) :=
        fun _ _ => rfl
      obtain ⟨hput, -⟩ := Sound.putAway (p := p) ⟨⟨k, hcore⟩, htied⟩ hrightful
      exact hput.flags true _

/-- A request that is cancelled is answered before the response that is received is put away. -/
theorem Core.cancel {i : Nat} (h : Core k c) (hsent : i < c.sent) (hnot : ¬ c.Answered i) :
    Core k { c with answers := c.answers ++ [(i, .cancelled i)] } := by
  obtain ⟨honce, hown⟩ := answers_add (a := .cancelled i) hnot h.once h.own rfl
  exact ⟨h.bound, h.queue, h.gone, h.decoded, h.receiving,
    fun j hj => answered_add.mpr (.inl (h.answered j hj)),
    fun j hj => (answered_add.mp hj).elim (h.known j) fun hj => hj ▸ hsent, honce, hown⟩

theorem cancelRequest_eq {i : Nat} (h : Core k p.sub) (hsent : i < p.sub.sent)
    (hnot : ¬ p.sub.Answered i) : final (cancelRequest i) p = { p with sub :=
      { ({ p.sub with answers := p.sub.answers ++ [(i, .cancelled i)] } : Connection).putAway
        fun _ => .cancelled i with closing := true } } :=
  clientError_eq (p := { p with sub := { p.sub with
    answers := p.sub.answers ++ [(i, .cancelled i)] } }) (h.cancel hsent hnot) _

/-- A request is cancelled. -/
theorem Sound.cancel {i : Nat} (h : Sound p) (hsent : i < p.sub.sent) (hnot : ¬ p.sub.Answered i)
    (hord : ∀ r, p.sub.Awaited r → r.request = i) : Sound (final (cancelRequest i) p) := by
  obtain ⟨⟨k, hcore⟩, htied⟩ := h
  have hsound : Sound { p with sub := { p.sub with
      answers := p.sub.answers ++ [(i, .cancelled i)] } } :=
    ⟨⟨k, hcore.cancel hsent hnot⟩, htied.decoder, htied.position, htied.body, htied.started⟩
  have hrightful : ∀ r, Connection.Awaited { p.sub with
      answers := p.sub.answers ++ [(i, .cancelled i)] } r →
      Rightful r.request (.cancelled i) := fun r hr => by
    have hawaited : ¬ p.sub.Answered r.request := fun hin => hr.2 (answered_add.mpr (.inl hin))
    exact (hr.2 (answered_add.mpr (.inr (hord r ⟨hr.1, hawaited⟩)))).elim
  obtain ⟨hput, -⟩ := hsound.putAway hrightful
  rw [cancelRequest_eq hcore hsent hnot]
  exact hput.flags true _

/-- The requests that wait are answered. -/
theorem settle_waiting {waiting : List Nat} : ∀ {p : Protocol Connection} {k : Nat},
    Core k { p.sub with requests := some waiting } → p.sub.response = none →
    ∃ c n, (waiting.forM fun i => settle i .connectionReset) p = .ok () { p with sub := c } ∧
      Core n { c with requests := some [] } ∧ c.response = none := by
  induction waiting with
  | nil => exact fun {p k} h hnone => ⟨p.sub, k, rfl, h, hnone⟩
  | cons i rest ih =>
    intro p k h hnone
    have htaken := h.take hnone rfl (.new 0) p.sub.heads
    have hput := @Core.putAway _ _ htaken (fun _ => .connectionReset) fun _ _ => trivial
    have hnext : Core (k + 1) { p.sub.settle i .connectionReset with requests := some rest } := by
      have hsame : ({ p.sub.settle i .connectionReset with requests := some rest } : Connection) =
          { p.sub.settle i .connectionReset with requests := some rest, response := none } := by
        rw [← hnone]
        rfl
      rw [hsame]
      exact hput
    have hnot : i ∉ p.sub.decoded := fun hin => by
      have hlt := ((h.decoded i).mp hin).1
      have hrange := h.queue _ rfl
      have hge := (List.mem_range'_1.mp (hrange ▸ List.mem_cons_self)).1
      omega
    have hsettle : settle i .connectionReset p =
        .ok () { p with sub := p.sub.settle i .connectionReset } := by
      show (if i ∈ p.sub.decoded then _ else _ : Action Connection Unit) p = _
      rw [if_neg hnot]
      rfl
    obtain ⟨c, n, hrun, hcore, hresponse⟩ :=
      ih (p := { p with sub := p.sub.settle i .connectionReset }) hnext hnone
    exact ⟨c, n, (bind_of_ok hsettle).trans hrun, hcore, hresponse⟩

/-- No request waits after the clean-up. -/
theorem processCleanup_sound (h : Core k p.sub) (hnone : p.sub.response = none)
    (hsome : p.sub.requests.isSome) (framing : Framing) :
    Sound (final processCleanup ⟨framing, p.sub⟩) := by
  obtain ⟨waiting, hqueue⟩ := Option.isSome_iff_exists.mp hsome
  have hwaiting : Core k { p.sub with requests := some waiting } := by
    rw [← hqueue]
    exact h
  obtain ⟨c, n, hrun, hcore, hresponse⟩ :=
    settle_waiting (p := ⟨framing, p.sub⟩) hwaiting hnone
  have heq : final processCleanup ⟨framing, p.sub⟩ = ⟨framing, { c with requests := none }⟩ := by
    unfold final processCleanup
    rw [get_bind]
    dsimp only
    rw [hqueue]
    dsimp only
    rw [bind_of_ok hrun]
    rfl
  have hno (hsome : c.response.isSome) : False := by
    rw [hresponse] at hsome
    cases hsome
  rw [heq]
  refine ⟨⟨n, hcore.bound, fun _ hw => (by cases hw), fun _ => ⟨?_, hresponse⟩, hcore.decoded,
    hcore.receiving, hcore.answered, hcore.known, hcore.once, hcore.own⟩,
    fun hsome => (hno hsome).elim, fun r hr => ?_, fun hgone => (by cases hgone), fun _ => hresponse⟩
  · have hlen := congrArg List.length (hcore.queue [] rfl)
    have hbound : n ≤ c.sent := hcore.bound
    rw [List.length_range'] at hlen
    have hlen : 0 = c.sent - n := hlen
    show n = c.sent
    omega
  · have hr : c.response = some r := hr
    rw [hresponse] at hr
    cases hr

/-- What a response that is received is answered with when the connection is lost. -/
def lostAnswer (p : Protocol Connection) (r : Receiving) : Answer :=
  match p.bodyDecoder with
  | some (.identity none) => finished p r
  | _ => .failed .dataLoss

theorem putAway_none (hnone : c.response = none) (answer : Receiving → Answer) :
    c.putAway answer = c := by
  unfold Connection.putAway
  rw [hnone]

theorem error_none (hnone : p.sub.response = none) (e : Raised) :
    Http.error hooks e p = .ok () { p with bodyDecoder := none } := by
  obtain ⟨framing, requests, response, sent, heads, decoded, answers, started, closing, broken⟩ := p
  cases (hnone : response = none)
  rfl

/-- A response without a length or chunks, when the connection is lost. -/
theorem noMoreData_identity (h : Sound p) : ∃ e q framing,
    noMoreData hooks (.identity none) p = .error e q ∧ Http.error hooks e q =
      .ok () ⟨framing, p.sub.putAway (finished p)⟩ := by
  have hfinished := processBodyFinished_eq h
  cases hr : p.sub.response with
  | none =>
    rw [hr] at hfinished
    have hcontent : gotAllContent hooks p = .error .attributeError p :=
      bind_of_error (show hooks.processBodyFinished p = _ from hfinished)
    rw [putAway_none hr]
    exact ⟨_, p, _, bind_of_error hcontent, error_none hr _⟩
  | some r =>
    rw [hr] at hfinished
    have hcontent : gotAllContent hooks p = .ok ()
        ⟨{ p.toFraming.reset with lineMode := true }, p.sub.putAway (finished p)⟩ :=
      bind_of_ok (show hooks.processBodyFinished p = _ from hfinished)
    have hnone : (p.sub.putAway (finished p)).response = none := by
      unfold Connection.putAway
      rw [hr]
    exact ⟨_, _, _, bind_of_ok hcontent, error_none hnone _⟩

/-- The response that is received is put away before the requests that wait. -/
theorem connectionLost_eq (h : Sound p) : ∃ framing,
    final (connectionLost hooks) p =
      final processCleanup ⟨framing, p.sub.putAway (lostAnswer p)⟩ := by
  -- an error of a decoder that waits for more
  have hloss (decoder : Decoder) (hno : noMoreData hooks decoder p = .error .dataLoss p) :
      ∃ framing, (match noMoreData hooks decoder p with
        | .error e q => final (Http.error hooks e >>= fun _ => cleanup hooks) q
        | .ok _ q => final (hooks.processBodyFinished >>= fun _ => cleanup hooks) q) =
        final processCleanup ⟨framing, p.sub.putAway fun _ => .failed .dataLoss⟩ := by
    obtain ⟨q, hq, -, -, rfl⟩ := h.error .dataLoss
    rw [hno]
    unfold final
    dsimp only
    rw [bind_of_ok hq]
    exact ⟨_, rfl⟩
  rw [final_connectionLost]
  unfold lostAnswer
  match hdecoder : p.bodyDecoder with
  | none =>
    have hr : p.sub.response = none := by
      cases hr : p.sub.response with
      | none => rfl
      | some r =>
        have hsome := (h.2.decoder (by rw [hr]; rfl)).1
        rw [hdecoder] at hsome
        cases hsome
    rw [putAway_none hr]
    exact ⟨p.toFraming.reset, rfl⟩
  | some (.identity none) =>
    obtain ⟨e, q, framing, hno, herror⟩ := noMoreData_identity h
    dsimp only
    rw [hno]
    unfold final
    dsimp only
    rw [bind_of_ok herror]
    exact ⟨_, rfl⟩
  | some (.identity (some n)) => exact hloss (.identity (some n)) rfl
  | some .chunked => exact hloss .chunked rfl

/-- The connection is lost. -/
theorem Sound.lost (h : Sound p) (hsome : p.sub.requests.isSome) (hord : Orderly p .lost) :
    Sound (final (connectionLost hooks) p) := by
  have hright (r : Receiving) (hr : p.sub.Awaited r) : Rightful r.request (lostAnswer p r) := by
    unfold lostAnswer
    split
    · rename_i hdecoder
      have hstate : p.state = .body := by
        cases hstate : p.state with
        | reqline =>
          have hnone := hr.1
          rw [h.no_response hstate] at hnone
          cases hnone
        | headers => exact absurd hr (hord hstate hdecoder r)
        | body => rfl
      exact ⟨h.2.position r hr.1, by simp [hstate]⟩
    · trivial
  obtain ⟨framing, heq⟩ := connectionLost_eq h
  obtain ⟨⟨⟨k, hcore⟩, htied⟩, hnone⟩ := h.putAway hright
  rw [heq]
  refine processCleanup_sound (p := { p with sub := p.sub.putAway (lostAnswer p) }) hcore hnone ?_
    framing
  show (p.sub.putAway (lostAnswer p)).requests.isSome
  unfold Connection.putAway
  cases p.sub.response <;> exact hsome

/-- An answer is never taken back. -/
theorem keeps_answers (x : Nat × Answer) :
    Keeps (fun p : Protocol Connection => x ∈ p.sub.answers) processCleanup := by
  have hsettle (i : Nat) : Keeps (fun p : Protocol Connection => x ∈ p.sub.answers)
      (settle i .connectionReset) := by
    refine keeps_get.bind fun p => ?_
    split
    · exact keeps_throw _
    · refine keeps_modify fun p hx => ?_
      show x ∈ (if _ then _ else _ : List _)
      split
      · exact hx
      · exact List.mem_append_left _ hx
  refine keeps_get.bind fun p => ?_
  cases p.sub.requests with
  | none => exact keeps_throw _
  | some waiting => exact (Keeps.forM hsettle waiting).bind fun _ => keeps_modify fun _ hx => hx

/-- What the answer of a request is when it is put away. -/
theorem mem_putAway {r : Receiving} (hr : c.Awaited r) (answer : Receiving → Answer) :
    (r.request, answer r) ∈ (c.putAway answer).answers := by
  unfold Connection.putAway
  rw [hr.1]
  show _ ∈ (if _ then _ else _ : List _)
  rw [if_neg hr.2]
  exact List.mem_append_right _ (List.mem_singleton.mpr rfl)

/-- What the condition on an event is for. -/
theorem keeps_step {e : Event} (h : Sound p) (hord : Orderly p e)
    (hstep : step maxHeaders p e = some q) : Sound q := by
  cases e with
  | request =>
    unfold step at hstep
    dsimp only at hstep
    split at hstep
    · rename_i waiting hqueue
      obtain ⟨-, hout⟩ := Option.ite_none_left_eq_some.mp hstep
      cases hout
      exact h.request hqueue
    · cases hstep
  | line line decoding =>
    obtain ⟨-, hout⟩ := Option.ite_none_right_eq_some.mp hstep
    cases hout
    exact h.lineReceived line decoding hord
  | data decoding =>
    obtain ⟨⟨hsome, -, hmode⟩, hout⟩ := Option.ite_none_right_eq_some.mp hstep
    cases hout
    exact h.rawDataReceived decoding hsome (by simpa using hmode)
  | timeout firstline =>
    obtain ⟨⟨hsome, -, hfirst⟩, hout⟩ := Option.ite_none_right_eq_some.mp hstep
    cases hout
    cases firstline with
    | false => exact h.timeout hsome
    | true =>
      have hnone := h.2.started (by simpa using hfirst)
      exact (h.framed hnone { p.toFraming with bodyDecoder := none } h.2.body).timeout hsome
  | cancel i =>
    obtain ⟨⟨hsent, -⟩, hout⟩ := Option.ite_none_right_eq_some.mp hstep
    split at hout
    · cases hout
      exact h
    · rename_i hnot
      cases hout
      exact h.cancel hsent hnot (hord.resolve_left hnot)
  | lost =>
    obtain ⟨hsome, hout⟩ := Option.ite_none_right_eq_some.mp hstep
    cases hout
    exact (h.lost hsome hord).flags _ false

/-- The response that a status line begins. -/
theorem response_lineReceived {i : Nat} {rest : List Nat} {line : Bytes} {decoding : Decoding}
    {protocol : Protocols} {status : Int} (hnone : p.sub.response = none)
    (hstate : p.state = .reqline) (hparse : parseResponseStatus line = some (protocol, status))
    (hqueue : p.sub.requests = some (i :: rest)) :
    (received (lineReceived hooks maxHeaders line decoding) p).sub.response =
      some ⟨i, { Response.new p.sub.heads with
        protocol := some protocol, status := some status }⟩ := by
  have hreceived (a : Action Connection Unit) :
      (received a p).sub.response = (final a p).sub.response := by
    unfold received final
    cases a p <;> rfl
  have hline : final (lineReceived hooks maxHeaders line decoding) p =
      final (gotRequestLine hooks line) p := by
    unfold final
    rw [lineReceived_reqline hstate]
  rw [hreceived, hline, gotRequestLine_eq hnone, hparse, hqueue]

theorem loses_step {e : Event} (h : Sound p) (hord : ¬ Orderly p e)
    (hstep : step maxHeaders p e = some q) : ¬ Right q.sub := by
  intro hright
  cases e with
  | request => exact hord trivial
  | data decoding => exact hord trivial
  | timeout firstline => exact hord trivial
  | line line decoding =>
    obtain ⟨-, hout⟩ := Option.ite_none_right_eq_some.mp hstep
    refine hord fun hstate hparse i rest hqueue => ?_
    obtain ⟨⟨protocol, status⟩, hparse⟩ := Option.isSome_iff_exists.mp hparse
    have hresponse : (received (lineReceived hooks maxHeaders line decoding)
        { p with sub := { p.sub with started := true } }).sub.response =
          some ⟨i, { Response.new p.sub.heads with
            protocol := some protocol, status := some status }⟩ :=
      response_lineReceived (h.no_response hstate) hstate hparse hqueue
    cases hout
    exact (hright.receiving _ hresponse).symm
  | cancel i =>
    obtain ⟨⟨hsent, -⟩, hout⟩ := Option.ite_none_right_eq_some.mp hstep
    refine hord (Classical.or_iff_not_imp_left.mpr fun hnot r hr => ?_)
    rw [if_neg hnot] at hout
    cases hout
    obtain ⟨⟨k, hcore⟩, -⟩ := h
    rw [cancelRequest_eq hcore hsent hnot] at hright
    by_contra hne
    have hmem := mem_putAway (c := { p.sub with answers := p.sub.answers ++ [(i, .cancelled i)] })
      ⟨hr.1, fun hin => (answered_add.mp hin).elim hr.2 hne⟩ fun _ => .cancelled i
    exact hne (hright.own _ _ hmem).symm
  | lost =>
    obtain ⟨hsome, hout⟩ := Option.ite_none_right_eq_some.mp hstep
    cases hout
    refine hord fun hstate hdecoder r hr => ?_
    obtain ⟨framing, heq⟩ := connectionLost_eq h
    have hmem := keeps_answers _ ⟨framing, p.sub.putAway (lostAnswer p)⟩
      (mem_putAway hr (lostAnswer p))
    rw [← heq] at hmem
    have hwhole := (hright.own _ _ hmem)
    unfold lostAnswer at hwhole
    rw [hdecoder] at hwhole
    have hbody : p.state = .body := by simpa using hwhole.2
    rw [hstate] at hbody
    cases hbody
end

/-- The response of the first request is received when the second one is cancelled. -/
def cancelledBehind : List Event :=
  [.request, .request, .line "HTTP/1.1 200 OK".toList ⟨[], none, none⟩, .cancel 1]

end Feat.Web.Http.Client
