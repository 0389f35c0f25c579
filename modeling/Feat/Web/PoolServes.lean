import Mathlib.Data.List.Basic
import Feat.Web.ConnectionPool

/- A pool of connections neither leaks nor starves exactly as long as it is used in order.

   In the runs in which no cancelled request is handed a connection, no connection that
   does not count is handed a request while the pool is full, and none is lost while all
   others are idle and the pool is full, and in no others, every connection is idle
   without a request or busy with one, their number is bounded, and whoever waits is
   served (`healthy_iff`).

   The other runs exist (`leaked_or_exceeded`): a waiting request that is cancelled takes
   the connection that is made for it out of use, and the one behind it waits for ever; a
   connection that is made for nobody does not count, so that more than the maximum are in
   the pool in the end. -/
namespace Feat.Web.ConnectionPool
open Transition

namespace Pool

variable {s t : Pool} {c c' : Protocol} {i : Nat}

/-! ## Counting -/

theorem poolLen_set (hi : s.connected[i]? = some c) (c' : Protocol) :
    poolLen { s with connected := s.connected.set i c' } + c.inPool.toNat =
      s.poolLen + c'.inPool.toNat := by
  obtain ⟨hlt, hget⟩ := List.getElem?_eq_some_iff.mp hi
  have hpos : c.inPool = true → 0 < s.connected.countP (·.inPool) := fun hin =>
    List.countP_pos_iff.mpr ⟨c, List.mem_of_getElem? hi, hin⟩
  unfold poolLen
  dsimp only
  rw [List.countP_set hlt, hget]
  cases hc : c.inPool <;> cases hc' : c'.inPool
  all_goals
    simp only [hc, Bool.toNat_true, Bool.toNat_false, if_true, Bool.false_eq_true, if_false,
      forall_const] at hpos ⊢
    omega

theorem poolLen_eraseIdx (hi : s.connected[i]? = some c) :
    poolLen { s with connected := s.connected.eraseIdx i } + c.inPool.toNat = s.poolLen := by
  obtain ⟨hlt, hget⟩ := List.getElem?_eq_some_iff.mp hi
  have hsplit : s.connected.countP (·.inPool) =
      (s.connected.eraseIdx i).countP (·.inPool) + c.inPool.toNat := by
    conv_lhs => rw [← List.take_append_drop i s.connected, List.drop_eq_getElem_cons hlt, hget]
    rw [List.eraseIdx_eq_take_drop_succ, List.countP_append, List.countP_append, List.countP_cons]
    cases c.inPool <;> simp only [Bool.toNat_true, Bool.toNat_false, if_true, Bool.false_eq_true,
      if_false] <;> omega
  unfold poolLen
  dsimp only
  omega

/-! ## What grows a pool -/

theorem grow_cases (s : Pool) :
    s.poolLen < s.max ∧ s.grow = { s with connecting := s.connecting + 1 } ∨
      s.max ≤ s.poolLen ∧ s.grow = s := by
  unfold grow
  split
  · rename_i h
    exact .inl ⟨h, rfl⟩
  · rename_i h
    exact .inr ⟨Nat.le_of_not_lt h, rfl⟩

/-- A pool after some requests were made to wait. -/
structure Grown (s t : Pool) : Prop where
  max : t.max = s.max
  connected : t.connected = s.connected
  awaiting : ∃ l, t.awaiting = s.awaiting ++ l
  connecting : s.connecting ≤ t.connecting
  bounded : s.poolLen ≤ s.max → t.poolLen ≤ t.max
  full : s.max ≤ s.poolLen → t.connecting = s.connecting

theorem Grown.refl (s : Pool) : Grown s s :=
  ⟨rfl, rfl, ⟨[], (List.append_nil _).symm⟩, Nat.le_refl _, id, fun _ => rfl⟩

theorem Grown.poolLen (h : Grown s t) :
    t.poolLen = s.poolLen + (t.connecting - s.connecting) := by
  have := h.connecting
  unfold Pool.poolLen
  rw [h.connected]
  omega

theorem Grown.trans {u : Pool} (h : Grown s t) (h' : Grown t u) : Grown s u := by
  obtain ⟨l, hl⟩ := h.awaiting
  obtain ⟨l', hl'⟩ := h'.awaiting
  refine ⟨h'.max.trans h.max, h'.connected.trans h.connected, ⟨l ++ l', ?_⟩,
    Nat.le_trans h.connecting h'.connecting, fun hs => h'.bounded (h.bounded hs), fun hs => ?_⟩
  · rw [hl', hl, List.append_assoc]
  · refine (h'.full ?_).trans (h.full hs)
    rw [h.max, h.poolLen]
    omega

theorem grown_enqueue (s : Pool) (r : Request) : Grown s (s.enqueue r) := by
  unfold enqueue
  rcases grow_cases { s with awaiting := s.awaiting ++ [r] } with ⟨hroom, hgrow⟩ | ⟨hfull, hgrow⟩
  · rw [hgrow]
    refine ⟨rfl, rfl, ⟨[r], rfl⟩, Nat.le_succ _, fun _ => ?_, fun hs => ?_⟩
    · exact Nat.succ_le_of_lt hroom
    · exact absurd (Nat.lt_of_lt_of_le hroom hs) (Nat.lt_irrefl _)
  · rw [hgrow]
    exact ⟨rfl, rfl, ⟨[r], rfl⟩, Nat.le_refl _, id, fun _ => rfl⟩

theorem grown_retries (l : List Request) (s : Pool) :
    Grown s (l.foldl handleConnectionReset s) := by
  induction l generalizing s with
  | nil => exact .refl s
  | cons r l ih =>
    refine Grown.trans ?_ (ih _)
    unfold handleConnectionReset
    split
    · exact grown_enqueue s _
    · exact .refl s

/-- Who waits after some requests were made again. -/
theorem waited_retries (l : List Request) (s : Pool) :
    Waited (l.foldl handleConnectionReset s) ↔
      Waited s ∨ ∃ r ∈ l, r.live = true ∧ r.retry ≤ 3 := by
  induction l generalizing s with
  | nil =>
    exact ⟨.inl, fun h => h.resolve_right fun ⟨_, hr, _⟩ => nomatch hr⟩
  | cons r l ih =>
    have hstep : Waited (handleConnectionReset s r) ↔
        Waited s ∨ (r.live = true ∧ r.retry ≤ 3) := by
      unfold handleConnectionReset
      by_cases hr : r.live = true ∧ r.retry ≤ 3
      · rw [if_pos (by simpa using hr)]
        refine ⟨fun _ => .inr hr, fun _ => ⟨{ r with retry := r.retry + 1 }, ?_, hr.1⟩⟩
        have hwaits : (s.enqueue { r with retry := r.retry + 1 }).awaiting =
            s.awaiting ++ [{ r with retry := r.retry + 1 }] := by
          unfold enqueue grow
          split <;> rfl
        rw [hwaits]
        exact List.mem_append_right _ (List.mem_singleton_self _)
      · rw [if_neg (by simpa using hr)]
        exact ⟨.inl, fun h => h.resolve_right hr⟩
    rw [List.foldl_cons, ih, hstep, or_assoc]
    refine or_congr_right ⟨fun h => ?_, fun ⟨r', hr', h⟩ => ?_⟩
    · rcases h with h | ⟨r', hr', h⟩
      · exact ⟨r, List.mem_cons_self, h⟩
      · exact ⟨r', List.mem_cons_of_mem r hr', h⟩
    · rcases List.mem_cons.mp hr' with rfl | hr'
      · exact .inl h
      · exact .inr ⟨r', hr', h⟩

/-- What the loss of a connection leaves. -/
structure Spawned (s t : Pool) : Prop where
  max : t.max = s.max
  connected : t.connected = s.connected
  awaiting : t.awaiting = s.awaiting
  connecting : s.connecting ≤ t.connecting
  bounded : s.poolLen ≤ s.max → t.poolLen ≤ t.max
  room : s.awaiting ≠ [] → s.poolLen < s.max → 0 < t.connecting
  full : s.max ≤ s.poolLen → t.connecting = s.connecting

theorem spawned (s : Pool) : Spawned s s.spawn := by
  unfold spawn
  split
  · rename_i h
    have hlen : 0 < s.awaiting.length := List.length_pos_iff.mpr h.1
    refine ⟨rfl, rfl, rfl, Nat.le_add_right _ _, fun _ => ?_, fun _ _ => ?_, fun hfull => ?_⟩
    · have hle := Nat.min_le_right s.awaiting.length (s.max - s.poolLen)
      have hroom := h.2
      unfold poolLen at hle hroom ⊢
      dsimp only
      omega
    · have hroom := h.2
      dsimp only
      omega
    · exact absurd h.2 (Nat.not_lt.mpr hfull)
  · rename_i h
    exact ⟨rfl, rfl, rfl, Nat.le_refl _, id, fun hne hroom => absurd ⟨hne, hroom⟩ h, fun _ => rfl⟩

/-! ## One connection changes -/

/-- A connection that is replaced. -/
theorem Healthy.set (h : Healthy s) (hconnected : t.connected = s.connected.set i c')
    (hbusy : c'.idle = false → c'.closing = true ∨ c'.outstanding ≠ [])
    (hidle : c'.idle = true → c'.outstanding = []) (hbounded : t.poolLen ≤ t.max)
    (hserved : t.Waited → 0 < t.connecting ∨ ∃ c ∈ t.connected, c.idle = false) : Healthy t := by
  refine ⟨fun x hx hxidle => ?_, fun x hx hxidle => ?_, hbounded, hserved⟩
  all_goals
    rw [hconnected] at hx
    rcases List.mem_or_eq_of_mem_set hx with hx | rfl
  · exact h.busy x hx hxidle
  · exact hbusy hxidle
  · exact h.idle x hx hxidle
  · exact hidle hxidle

/-- A connection that stays idle, or busy. -/
theorem busy_set (hi : s.connected[i]? = some c) (hidle : c'.idle = c.idle)
    (h : ∃ x ∈ s.connected, x.idle = false) : ∃ x ∈ s.connected.set i c', x.idle = false := by
  obtain ⟨hlt, hget⟩ := List.getElem?_eq_some_iff.mp hi
  obtain ⟨x, hx, hxidle⟩ := h
  obtain ⟨j, hj⟩ := List.mem_iff_getElem?.mp hx
  by_cases hij : i = j
  · subst hij
    cases hj.symm.trans hi
    exact ⟨c', List.mem_set hlt c', hidle.trans hxidle⟩
  · exact ⟨x, List.mem_iff_getElem?.mpr ⟨j, (List.getElem?_set_ne hij).trans hj⟩, hxidle⟩

/-- A connection that is not handed anything. -/
theorem Healthy.change (h : Healthy s) (hi : s.connected[i]? = some c)
    (hidle : c'.idle = c.idle) (hpool : c'.inPool = c.inPool)
    (hbusy : c.idle = false → c'.closing = true ∨ c'.outstanding ≠ [])
    (hnone : c.idle = true → c'.outstanding = []) :
    Healthy { s with connected := s.connected.set i c' } := by
  have hlen := poolLen_set hi c'
  rw [hpool, Nat.add_right_cancel_iff] at hlen
  refine h.set rfl (fun hf => hbusy (hidle ▸ hf)) (fun ht => hnone (hidle ▸ ht)) ?_ fun hw => ?_
  · rw [hlen]
    exact h.bounded
  · exact (h.served hw).imp_right fun hbusy => busy_set hi hidle hbusy

/-- A connection that is handed a request. -/
theorem Healthy.handed (h : Healthy s) (hi : s.connected[i]? = some c)
    (hmax : t.max = s.max) (hconnected : t.connected = s.connected.set i c')
    (hidle : c'.idle = false) (hbusy : c'.closing = true ∨ c'.outstanding ≠ [])
    (hbounded : t.poolLen ≤ s.max) : Healthy t := by
  have hlt := (List.getElem?_eq_some_iff.mp hi).1
  refine h.set hconnected (fun _ => hbusy) (fun ht => by cases hidle.symm.trans ht)
    (hmax ▸ hbounded) fun _ => .inr ⟨c', ?_, hidle⟩
  rw [hconnected]
  exact List.mem_set hlt _

theorem send_busy (c : Protocol) (r : Request) : (c.send r).outstanding ≠ [] :=
  fun hnil => List.cons_ne_nil r [] (List.append_eq_nil_iff.mp hnil).2

/-! ## Requests -/

theorem request_cases {pipelinable outside : Bool} {choice : Nat}
    (hstep : s.step (.request pipelinable outside choice) = some t) :
    (∃ c, s.connected[choice]? = some c ∧ c.idle = true ∧ t =
      { s with connected := s.connected.set choice (c.send ⟨pipelinable, outside, 1, true⟩) }) ∨
    (∀ c ∈ s.connected, c.idle = false) ∧
      ((∃ c, s.connected[choice]? = some c ∧ c.inPool = true ∧ t =
        { s.grow with
          connected := s.connected.set choice (c.send ⟨pipelinable, outside, 1, true⟩) }) ∨
      t = s.enqueue ⟨pipelinable, outside, 1, true⟩) := by
  unfold step at hstep
  dsimp only at hstep
  split at hstep
  · split at hstep
    · rename_i c hi
      split at hstep
      · rename_i hidle
        exact .inl ⟨c, hi, hidle, (Option.some.inj hstep).symm⟩
      · cases hstep
    · cases hstep
  · rename_i hnone
    have hbusy : ∀ c ∈ s.connected, c.idle = false := by simpa using hnone
    split at hstep
    · split at hstep
      · rename_i c hi
        split at hstep
        · rename_i hpipeline
          rw [Bool.and_eq_true] at hpipeline
          exact .inr ⟨hbusy, .inl ⟨c, hi, hpipeline.2, (Option.some.inj hstep).symm⟩⟩
        · cases hstep
      · cases hstep
    · exact .inr ⟨hbusy, .inr (Option.some.inj hstep).symm⟩

/-- The number of connections after one was handed a request. -/
theorem handed_poolLen {outside : Bool} (hi : s.connected[i]? = some c)
    (hconnected : t.connected = s.connected.set i c') (hconnecting : t.connecting = s.connecting)
    (hflag : c'.inPool = !outside) :
    t.poolLen + c.inPool.toNat = s.poolLen + (!outside).toNat := by
  have hlen : t.poolLen = poolLen { s with connected := s.connected.set i c' } := by
    unfold poolLen
    rw [hconnected, hconnecting]
  rw [hlen, ← hflag]
  exact poolLen_set hi c'

theorem handed_bounded {outside : Bool} (hbounded : s.poolLen ≤ s.max)
    (hi : s.connected[i]? = some c) (hroom : s.Room c outside)
    (hconnected : t.connected = s.connected.set i c') (hconnecting : t.connecting = s.connecting)
    (hflag : c'.inPool = !outside) : t.poolLen ≤ s.max := by
  have hlen := handed_poolLen hi hconnected hconnecting hflag
  have hle := Bool.toNat_le (!outside)
  rcases hroom with hin | hout | hfree
  · rw [hin, Bool.toNat_true] at hlen
    omega
  · rw [hout, Bool.not_true, Bool.toNat_false] at hlen
    omega
  · omega

theorem handed_exceeds {outside : Bool} (hi : s.connected[i]? = some c)
    (hroom : ¬ s.Room c outside) (hconnected : t.connected = s.connected.set i c')
    (hconnecting : t.connecting = s.connecting) (hflag : c'.inPool = !outside) :
    s.max < t.poolLen := by
  have hlen := handed_poolLen hi hconnected hconnecting hflag
  obtain ⟨hin, hno⟩ := not_or.mp hroom
  obtain ⟨hout, hfull⟩ := not_or.mp hno
  rw [Bool.eq_false_iff.mpr hin, Bool.eq_false_iff.mpr hout, Bool.toNat_false, Bool.not_false,
    Bool.toNat_true] at hlen
  omega

theorem Healthy.request {pipelinable outside : Bool} {choice : Nat} (h : Healthy s)
    (hord : Orderly s (.request pipelinable outside choice))
    (hstep : s.step (.request pipelinable outside choice) = some t) : Healthy t := by
  obtain ⟨hmax, hroom⟩ := hord
  have hbounded := h.bounded
  rcases request_cases hstep with ⟨c, hi, hidle, rfl⟩ | ⟨hbusy, ⟨c, hi, hin, rfl⟩ | rfl⟩
  · refine h.handed hi rfl rfl rfl (.inr (send_busy c _)) ?_
    exact handed_bounded hbounded hi (hroom c hi hidle) rfl rfl rfl
  · have hgrown : s.grow.connected = s.connected ∧ s.grow.max = s.max ∧
        s.grow.poolLen ≤ s.max := by
      rcases grow_cases s with ⟨hfree, hgrow⟩ | ⟨-, hgrow⟩
      · rw [hgrow]
        exact ⟨rfl, rfl, Nat.succ_le_of_lt hfree⟩
      · rw [hgrow]
        exact ⟨rfl, rfl, hbounded⟩
    obtain ⟨hconnected, hsame, hlen⟩ := hgrown
    refine h.handed hi hsame rfl rfl (.inr (send_busy c _)) (hsame ▸ ?_)
    have hroom' : s.grow.Room c outside := .inl hin
    have hflag : (c.send ⟨pipelinable, outside, 1, true⟩).inPool = !outside := rfl
    refine handed_bounded (hsame ▸ hlen) (hconnected ▸ hi) hroom' ?_ rfl hflag
    rw [hconnected]
  · have hgrown := grown_enqueue s ⟨pipelinable, outside, 1, true⟩
    refine ⟨?_, ?_, hgrown.bounded hbounded, fun _ => ?_⟩
    · rw [hgrown.connected]
      exact h.busy
    · rw [hgrown.connected]
      exact h.idle
    · rw [hgrown.connected]
      by_cases hconnecting : 0 < (s.enqueue ⟨pipelinable, outside, 1, true⟩).connecting
      · exact .inl hconnecting
      · -- the pool is full, of connections that are all busy
        have hcount : 0 < s.connected.countP (·.inPool) := by
          have hfull : ¬ s.poolLen < s.max := fun hfree => hconnecting <| by
            unfold enqueue
            rcases grow_cases { s with awaiting := s.awaiting ++ [⟨pipelinable, outside, 1, true⟩] }
              with ⟨-, hgrow⟩ | ⟨hfull, -⟩
            · rw [hgrow]
              exact Nat.succ_pos _
            · exact absurd hfree (Nat.not_lt.mpr hfull)
          have hle := hgrown.connecting
          unfold poolLen at hfull
          omega
        obtain ⟨c, hc, -⟩ := List.countP_pos_iff.mp hcount
        exact .inr ⟨c, hc, hbusy c hc⟩

/-- A request that is not in order. -/
theorem not_healthy_request {pipelinable outside : Bool} {choice : Nat} (h : Healthy s)
    (hempty : s.max = 0 → s.connected = [])
    (hord : ¬ Orderly s (.request pipelinable outside choice))
    (hstep : s.step (.request pipelinable outside choice) = some t) : ¬ Healthy t := by
  intro ht
  have hbounded := h.bounded
  by_cases hmax : 0 < s.max
  · -- a connection that does not count is handed a request while the pool is full
    have hroom : ∃ c, s.connected[choice]? = some c ∧ c.idle = true ∧ ¬ s.Room c outside := by
      have hall : ¬ ∀ c ∈ s.connected[choice]?, c.idle = true → s.Room c outside :=
        fun hall => hord ⟨hmax, hall⟩
      obtain ⟨c, hc⟩ := Classical.not_forall.mp hall
      obtain ⟨hc, himp⟩ := Classical.not_imp.mp hc
      obtain ⟨hidle, hno⟩ := Classical.not_imp.mp himp
      exact ⟨c, hc, hidle, hno⟩
    obtain ⟨c, hi, hidle, hno⟩ := hroom
    rcases request_cases hstep with ⟨c', hi', -, rfl⟩ | ⟨hbusy, -⟩
    · cases hi.symm.trans hi'
      have hle := ht.bounded
      refine absurd hle (Nat.not_le.mpr ?_)
      exact handed_exceeds (s := s) hi hno rfl rfl rfl
    · cases hidle.symm.trans (hbusy c (List.mem_of_getElem? hi))
  · -- a pool without connections
    have hzero : s.max = 0 := Nat.eq_zero_of_not_pos hmax
    have hnone := hempty hzero
    rcases request_cases hstep with ⟨c, hi, -⟩ | ⟨-, ⟨c, hi, -⟩ | rfl⟩
    · rw [hnone] at hi
      cases hi
    · rw [hnone] at hi
      cases hi
    · have hgrown := grown_enqueue s ⟨pipelinable, outside, 1, true⟩
      have hconnecting := hgrown.full (by omega)
      have hwaits : Waited (s.enqueue ⟨pipelinable, outside, 1, true⟩) := by
        refine ⟨⟨pipelinable, outside, 1, true⟩, ?_, rfl⟩
        unfold enqueue grow
        split <;> exact List.mem_append_right _ (List.mem_singleton_self _)
      rcases ht.served hwaits with hpos | ⟨c, hc, -⟩
      · rw [hconnecting] at hpos
        unfold poolLen at hbounded
        omega
      · rw [hgrown.connected, hnone] at hc
        cases hc

/-! ## Connections that are made or answered -/

theorem made_cases (hstep : s.step .made = some t) :
    ∃ n, s.connecting = n + 1 ∧
      (s.awaiting = [] ∧ t = { s with
        connected := s.connected ++ [{ Protocol.made with idle := true }]
        connecting := n } ∨
      ∃ r rest, s.awaiting = r :: rest ∧ t = { s with
        connected := s.connected ++ [if r.live then Protocol.made.send r else .made]
        awaiting := rest
        connecting := n }) := by
  unfold step returnToThePool at hstep
  dsimp only at hstep
  split at hstep
  · cases hstep
  · rename_i n hn
    refine ⟨n, hn, ?_⟩
    split at hstep
    · rename_i hnone
      refine .inl ⟨hnone, ?_⟩
      rw [← Option.some.inj hstep, hnone]
    · rename_i r rest hwaits
      exact .inr ⟨r, rest, hwaits, (Option.some.inj hstep).symm⟩

/-- A connection is made, and counts if it is handed a request of the pool. -/
theorem Healthy.added {n : Nat} (h : Healthy s) (hn : s.connecting = n + 1)
    (hmax : t.max = s.max) (hconnected : t.connected = s.connected ++ [c])
    (hconnecting : t.connecting = n) (hbusy : c.idle = false → c.outstanding ≠ [])
    (hidle : c.idle = true → c.outstanding = [])
    (hserved : t.Waited → ∃ c ∈ t.connected, c.idle = false) : Healthy t := by
  refine ⟨fun x hx hxidle => ?_, fun x hx hxidle => ?_, ?_, fun hw => .inr (hserved hw)⟩
  · rw [hconnected] at hx
    rcases List.mem_append.mp hx with hx | hx
    · exact h.busy x hx hxidle
    · cases List.mem_singleton.mp hx
      exact .inr (hbusy hxidle)
  · rw [hconnected] at hx
    rcases List.mem_append.mp hx with hx | hx
    · exact h.idle x hx hxidle
    · cases List.mem_singleton.mp hx
      exact hidle hxidle
  · have hbounded := h.bounded
    have hone : [c].countP (·.inPool) ≤ 1 := List.countP_le_length
    unfold poolLen at hbounded ⊢
    rw [hmax, hconnected, hconnecting, List.countP_append]
    omega

theorem Healthy.connectionMade (h : Healthy s) (hord : Orderly s .made)
    (hstep : s.step .made = some t) : Healthy t := by
  obtain ⟨n, hn, ⟨hnone, rfl⟩ | ⟨r, rest, hwaits, rfl⟩⟩ := made_cases hstep
  · refine h.added hn rfl rfl rfl (fun hf => by cases hf) (fun _ => rfl) fun ⟨r, hr, _⟩ => ?_
    dsimp only at hr
    rw [hnone] at hr
    cases hr
  · have hlive : r.live = true := hord r (by rw [hwaits]; rfl)
    rw [hlive, if_pos rfl]
    refine h.added hn rfl rfl rfl (fun _ => send_busy .made r) (fun ht => by cases ht) fun _ => ?_
    exact ⟨Protocol.made.send r, List.mem_append_right _ (List.mem_singleton_self _), rfl⟩

theorem not_healthy_made (hord : ¬ Orderly s .made) (hstep : s.step .made = some t) :
    ¬ Healthy t := by
  intro ht
  have hdead : ∃ r, s.awaiting.head? = some r ∧ r.live = false := by
    obtain ⟨r, hr⟩ := Classical.not_forall.mp hord
    obtain ⟨hr, hlive⟩ := Classical.not_imp.mp hr
    exact ⟨r, hr, Bool.eq_false_iff.mpr hlive⟩
  obtain ⟨r, hr, hlive⟩ := hdead
  obtain ⟨n, -, ⟨hnone, -⟩ | ⟨r', rest, hwaits, rfl⟩⟩ := made_cases hstep
  · rw [hnone] at hr
    cases hr
  · rw [hwaits] at hr
    cases hr
    -- the connection is neither idle nor busy
    have hmem : Protocol.made ∈
        s.connected ++ [if r.live then Protocol.made.send r else .made] := by
      rw [hlive]
      exact List.mem_append_right _ (List.mem_singleton_self _)
    rcases ht.busy _ hmem rfl with hclosing | hne
    · cases hclosing
    · exact hne rfl

theorem answered_cases (hstep : s.step (.answered i) = some t) :
    ∃ c, s.connected[i]? = some c ∧
      ((∃ r r' rest, c.outstanding = r :: r' :: rest ∧ t = { s with
        connected :=
          s.connected.set i { c with phase := .ready, outstanding := r' :: rest } }) ∨
      c.outstanding.length = 1 ∧
        (s.awaiting = [] ∧ t = { s with
          connected := s.connected.set i
            { c with phase := .ready, outstanding := [], idle := true } } ∨
        ∃ w rest, s.awaiting = w :: rest ∧ t = { s with
          connected := s.connected.set i
            (if w.live then Protocol.send { c with phase := .ready, outstanding := [] } w
            else { c with phase := .ready, outstanding := [] })
          awaiting := rest })) := by
  unfold step returnToThePool at hstep
  dsimp only at hstep
  split at hstep
  · rename_i c hi
    refine ⟨c, hi, ?_⟩
    split at hstep
    · split at hstep
      · cases hstep
      · rename_i r hone
        refine .inr ⟨by rw [hone]; rfl, ?_⟩
        split at hstep
        · rename_i hnone
          refine .inl ⟨hnone, ?_⟩
          rw [← Option.some.inj hstep, hnone]
        · rename_i w rest hwaits
          exact .inr ⟨w, rest, hwaits, (Option.some.inj hstep).symm⟩
      · rename_i r rest hnot hout
        cases rest with
        | nil => exact (hnot rfl).elim
        | cons r' rest => exact .inl ⟨r, r', rest, hout, (Option.some.inj hstep).symm⟩
    · cases hstep
  · cases hstep

theorem Healthy.responseAnswered (h : Healthy s) (hord : Orderly s (.answered i))
    (hstep : s.step (.answered i) = some t) : Healthy t := by
  obtain ⟨c, hi, ⟨r, r', rest, hout, rfl⟩ | ⟨hone, ⟨hnone, rfl⟩ | ⟨w, rest, hwaits, rfl⟩⟩⟩ :=
    answered_cases hstep
  · refine h.change hi rfl rfl (fun _ => .inr (List.cons_ne_nil _ _)) fun ht => ?_
    cases hout.symm.trans (h.idle c (List.mem_of_getElem? hi) ht)
  · have hlen := poolLen_set hi { c with phase := .ready, outstanding := [], idle := true }
    refine h.set rfl (fun hf => by cases hf) (fun _ => rfl) ?_ fun ⟨r, hr, _⟩ => ?_
    · exact Nat.le_trans (Nat.le_of_eq (Nat.add_right_cancel hlen)) h.bounded
    · dsimp only at hr
      rw [hnone] at hr
      cases hr
  · have hbusy : c.idle = false := by
      refine Bool.eq_false_iff.mpr fun ht => ?_
      rw [h.idle c (List.mem_of_getElem? hi) ht] at hone
      cases hone
    have hw := hord c hi hone w (by rw [hwaits]; rfl)
    by_cases hlive : w.live = true
    · rw [if_pos hlive] at hw ⊢
      refine h.handed hi rfl rfl rfl (.inr (send_busy _ w)) ?_
      exact handed_bounded h.bounded hi hw rfl rfl rfl
    · rw [if_neg hlive] at hw ⊢
      refine h.handed hi rfl rfl hbusy (.inl hw) ?_
      have hlen := poolLen_set hi { c with phase := .ready, outstanding := [] }
      exact Nat.le_trans (Nat.le_of_eq (Nat.add_right_cancel hlen)) h.bounded

theorem not_healthy_answered (h : Healthy s) (hord : ¬ Orderly s (.answered i))
    (hstep : s.step (.answered i) = some t) : ¬ Healthy t := by
  intro ht
  have hbad : ∃ c w, s.connected[i]? = some c ∧ c.outstanding.length = 1 ∧
      s.awaiting.head? = some w ∧ ¬ (if w.live then s.Room c w.outside else c.closing = true) := by
    obtain ⟨c, hc⟩ := Classical.not_forall.mp hord
    obtain ⟨hi, hc⟩ := Classical.not_imp.mp hc
    obtain ⟨hone, hc⟩ := Classical.not_imp.mp hc
    obtain ⟨w, hw⟩ := Classical.not_forall.mp hc
    obtain ⟨hhead, hno⟩ := Classical.not_imp.mp hw
    exact ⟨c, w, hi, hone, hhead, hno⟩
  obtain ⟨c, w, hi, hone, hhead, hno⟩ := hbad
  have hlt := (List.getElem?_eq_some_iff.mp hi).1
  obtain ⟨c', hi', ⟨r, r', rest, hout, -⟩ | ⟨-, ⟨hnone, -⟩ | ⟨w', rest, hwaits, rfl⟩⟩⟩ :=
    answered_cases hstep
  · cases hi.symm.trans hi'
    rw [hout] at hone
    cases hone
  · rw [hnone] at hhead
    cases hhead
  · cases hi.symm.trans hi'
    rw [hwaits] at hhead
    cases hhead
    by_cases hlive : w.live = true
    · rw [if_pos hlive] at hno ht
      have hle := ht.bounded
      refine absurd hle (Nat.not_le.mpr ?_)
      exact handed_exceeds (s := s) hi hno rfl rfl rfl
    · rw [if_neg hlive] at hno ht
      have hbusy : c.idle = false := by
        refine Bool.eq_false_iff.mpr fun hidle => ?_
        rw [h.idle c (List.mem_of_getElem? hi) hidle] at hone
        cases hone
      rcases ht.busy _ (List.mem_set hlt _) hbusy with hclosing | hne
      · exact hno hclosing
      · exact hne rfl

/-! ## Connections that are lost -/

theorem lost_cases (hstep : s.step (.lost i) = some t) :
    ∃ c s', s.connected[i]? = some c ∧ Grown s s' ∧
      (Waited s' ↔ Waited s ∨ ∃ r ∈ c.unanswered, r.live = true ∧ r.retry ≤ 3) ∧
      t = spawn { s' with connected := s'.connected.eraseIdx i } := by
  unfold step at hstep
  dsimp only at hstep
  split at hstep
  · rename_i c hi
    exact ⟨c, _, hi, grown_retries c.unanswered s, waited_retries c.unanswered s,
      (Option.some.inj hstep).symm⟩
  · cases hstep

theorem Healthy.connectionLost (h : Healthy s) (hord : Orderly s (.lost i))
    (hstep : s.step (.lost i) = some t) : Healthy t := by
  obtain ⟨c, s', hi, hgrown, hwaited, rfl⟩ := lost_cases hstep
  have hspawned := spawned { s' with connected := s'.connected.eraseIdx i }
  have hbounded := hgrown.bounded h.bounded
  have hi' : s'.connected[i]? = some c := hgrown.connected ▸ hi
  have hlen := poolLen_eraseIdx hi'
  have hrest : ∀ x ∈ (spawn { s' with connected := s'.connected.eraseIdx i }).connected,
      x ∈ s.connected := fun x hx => by
    rw [hspawned.connected] at hx
    exact hgrown.connected ▸ List.mem_of_mem_eraseIdx hx
  refine ⟨fun x hx => h.busy x (hrest x hx), fun x hx => h.idle x (hrest x hx),
    hspawned.bounded (by dsimp only; omega), fun hw => ?_⟩
  have hw' : Waited s' := by
    obtain ⟨r, hr, hlive⟩ := hw
    rw [hspawned.awaiting] at hr
    exact ⟨r, hr, hlive⟩
  have hne : s'.awaiting ≠ [] := by
    obtain ⟨r, hr, -⟩ := hw'
    exact List.ne_nil_of_mem hr
  have hleast := hgrown.connecting
  have hmore := hspawned.connecting
  rcases hord c hi (hwaited.mp hw') with hin | hfree | hconnecting | ⟨x, hx, hxidle⟩
  · -- the lost connection leaves room
    rw [hin, Bool.toNat_true] at hlen
    exact .inl (hspawned.room hne (by dsimp only; omega))
  · by_cases hzero : 0 < s'.connecting
    · exact .inl (Nat.lt_of_lt_of_le hzero hmore)
    · have hsame := hgrown.poolLen
      have hmax := hgrown.max
      exact .inl (hspawned.room hne (by dsimp only; omega))
  · exact .inl (Nat.lt_of_lt_of_le hconnecting (Nat.le_trans hleast hmore))
  · refine .inr ⟨x, ?_, hxidle⟩
    rw [hspawned.connected]
    dsimp only
    rw [hgrown.connected]
    exact hx

theorem not_healthy_lost (hord : ¬ Orderly s (.lost i)) (hstep : s.step (.lost i) = some t) :
    ¬ Healthy t := by
  intro ht
  obtain ⟨c, s', hi, hgrown, hwaited, rfl⟩ := lost_cases hstep
  have hspawned := spawned { s' with connected := s'.connected.eraseIdx i }
  have hbad : (Waited s ∨ ∃ r ∈ c.unanswered, r.live = true ∧ r.retry ≤ 3) ∧
      ¬ (c.inPool = true ∨ s.poolLen < s.max ∨ 0 < s.connecting ∨
        ∃ c' ∈ s.connected.eraseIdx i, c'.idle = false) := by
    obtain ⟨c', hc⟩ := Classical.not_forall.mp hord
    obtain ⟨hi', hc⟩ := Classical.not_imp.mp hc
    cases hi.symm.trans hi'
    exact Classical.not_imp.mp hc
  obtain ⟨hwaits, hno⟩ := hbad
  obtain ⟨hin, hno⟩ := not_or.mp hno
  obtain ⟨hfull, hno⟩ := not_or.mp hno
  obtain ⟨hnone, hidle⟩ := not_or.mp hno
  have hfull := Nat.le_of_not_lt hfull
  have hi' : s'.connected[i]? = some c := hgrown.connected ▸ hi
  have hlen := poolLen_eraseIdx hi'
  rw [Bool.eq_false_iff.mpr hin, Bool.toNat_false] at hlen
  -- the pool stays full, of connections that are all idle
  have hconnecting := hgrown.full hfull
  have hsame := hgrown.poolLen
  have hmax := hgrown.max
  have hstill := hspawned.full (by dsimp only; omega)
  have hw : Waited (spawn { s' with connected := s'.connected.eraseIdx i }) := by
    obtain ⟨r, hr, hlive⟩ := hwaited.mpr hwaits
    refine ⟨r, ?_, hlive⟩
    rw [hspawned.awaiting]
    exact hr
  rcases ht.served hw with hpos | ⟨x, hx, hxidle⟩
  · rw [hstill] at hpos
    dsimp only at hpos
    omega
  · rw [hspawned.connected] at hx
    dsimp only at hx
    rw [hgrown.connected] at hx
    exact hidle ⟨x, hx, hxidle⟩

/-! ## The other steps -/

theorem Healthy.fewerWait (h : Healthy s) {awaiting : List Request}
    (hw : ∀ r ∈ awaiting, r.live = true → Waited s) : Healthy { s with awaiting := awaiting } :=
  ⟨h.busy, h.idle, h.bounded, fun ⟨r, hr, hlive⟩ => h.served (hw r hr hlive)⟩

/-- A step that hands nothing to anyone. -/
theorem Healthy.plainStep {e : Event} (h : Healthy s)
    (he : (∃ i, e = .cancelWaiting i) ∨ (∃ i j, e = .cancelSent i j) ∨ (∃ i, e = .timeout i) ∨
      (∃ i, e = .statusLine i) ∨ e = .failed) (hstep : s.step e = some t) : Healthy t := by
  unfold step at hstep
  rcases he with ⟨i, rfl⟩ | ⟨i, j, rfl⟩ | ⟨i, rfl⟩ | ⟨i, rfl⟩ | rfl
  · dsimp only at hstep
    split at hstep
    · rename_i r hi
      split at hstep
      · cases hstep
        refine h.fewerWait fun r' hr' hlive => ?_
        rcases List.mem_or_eq_of_mem_set hr' with hold | rfl
        · exact ⟨r', hold, hlive⟩
        · cases hlive
      · cases hstep
    · cases hstep
  · dsimp only at hstep
    split at hstep
    · rename_i c hi
      split at hstep
      · rename_i r hj
        split at hstep
        · cases hstep
          unfold Protocol.cancel Protocol.clientError
          have hbusy : c.idle ≠ true := fun ht => by
            rw [h.idle c (List.mem_of_getElem? hi) ht] at hj
            cases hj
          dsimp only
          split
          · exact h.change hi rfl rfl (fun _ => .inl rfl) fun ht => absurd ht hbusy
          · exact h.change hi rfl rfl (fun _ => .inl rfl) fun ht => absurd ht hbusy
        · cases hstep
      · cases hstep
    · cases hstep
  · dsimp only at hstep
    split at hstep
    · rename_i c hi
      cases hstep
      have hnone : c.idle = true → c.outstanding = [] := h.idle c (List.mem_of_getElem? hi)
      have htail : c.idle = true → c.outstanding.tail = [] := fun ht => by
        rw [hnone ht]
        rfl
      unfold Protocol.timeout Protocol.clientError
      split
      · exact h.change hi rfl rfl (fun _ => .inl rfl) htail
      · split
        · exact h.change hi rfl rfl (fun _ => .inl rfl) htail
        · exact h.change hi rfl rfl (fun _ => .inl rfl) hnone
    · cases hstep
  · dsimp only at hstep
    split at hstep
    · rename_i c hi
      split at hstep
      · rename_i hready
        cases hstep
        exact h.change hi rfl rfl (fun _ => .inr hready.2) fun ht =>
          absurd (h.idle c (List.mem_of_getElem? hi) ht) hready.2
      · cases hstep
    · cases hstep
  · dsimp only at hstep
    split at hstep
    · cases hstep
    · rename_i n hn
      cases hstep
      refine ⟨h.busy, h.idle, ?_, fun ⟨_, hr, _⟩ => nomatch hr⟩
      have hbounded := h.bounded
      unfold poolLen at hbounded ⊢
      dsimp only
      omega

/-! ## Whole runs -/

theorem Healthy.step {e : Event} (h : Healthy s) (hord : Orderly s e)
    (hstep : s.step e = some t) : Healthy t := by
  cases e with
  | request _ _ _ => exact h.request hord hstep
  | made => exact h.connectionMade hord hstep
  | answered i => exact h.responseAnswered hord hstep
  | lost i => exact h.connectionLost hord hstep
  | cancelWaiting i => exact h.plainStep (.inl ⟨i, rfl⟩) hstep
  | cancelSent i j => exact h.plainStep (.inr (.inl ⟨i, j, rfl⟩)) hstep
  | timeout i => exact h.plainStep (.inr (.inr (.inl ⟨i, rfl⟩))) hstep
  | statusLine i => exact h.plainStep (.inr (.inr (.inr (.inl ⟨i, rfl⟩)))) hstep
  | failed => exact h.plainStep (.inr (.inr (.inr (.inr rfl)))) hstep

theorem not_healthy_step {e : Event} (h : Healthy s) (hempty : s.max = 0 → s.connected = [])
    (hord : ¬ Orderly s e) (hstep : s.step e = some t) : ¬ Healthy t := by
  cases e with
  | request _ _ _ => exact not_healthy_request h hempty hord hstep
  | made => exact not_healthy_made hord hstep
  | answered i => exact not_healthy_answered h hord hstep
  | lost i => exact not_healthy_lost hord hstep
  | cancelWaiting _ | cancelSent _ _ | timeout _ | statusLine _ | failed =>
    exact absurd trivial hord

theorem max_step {e : Event} (hstep : s.step e = some t) : t.max = s.max := by
  cases e with
  | request _ _ _ =>
    rcases request_cases hstep with ⟨c, -, -, rfl⟩ | ⟨-, ⟨c, -, -, rfl⟩ | rfl⟩
    · rfl
    · rcases grow_cases s with ⟨-, hgrow⟩ | ⟨-, hgrow⟩ <;> rw [hgrow]
    · exact (grown_enqueue s _).max
  | made =>
    obtain ⟨n, -, ⟨-, rfl⟩ | ⟨r, rest, -, rfl⟩⟩ := made_cases hstep <;> rfl
  | answered i =>
    obtain ⟨c, -, ⟨r, r', rest, -, rfl⟩ | ⟨-, ⟨-, rfl⟩ | ⟨w, rest, -, rfl⟩⟩⟩ :=
      answered_cases hstep <;> rfl
  | lost i =>
    obtain ⟨c, s', -, hgrown, -, rfl⟩ := lost_cases hstep
    exact (spawned _).max.trans hgrown.max
  | cancelWaiting _ | cancelSent _ _ | timeout _ | statusLine _ | failed =>
    unfold step at hstep
    dsimp only at hstep
    repeat' split at hstep
    all_goals cases hstep <;> rfl

/-- A pool that may have no connection has none. -/
theorem empty_step {e : Event} (h : Healthy s) (hempty : s.max = 0 → s.connected = [])
    (hstep : s.step e = some t) : t.max = 0 → t.connected = [] := by
  intro hmax
  rw [max_step hstep] at hmax
  have hnone := hempty hmax
  have hat : ∀ j : Nat, s.connected[j]? = none := fun j => by
    rw [hnone]
    exact List.getElem?_nil
  have hconnecting : s.connecting = 0 := by
    have hbounded := h.bounded
    unfold poolLen at hbounded
    omega
  cases e with
  | request _ _ _ =>
    rcases request_cases hstep with ⟨c, hi, -⟩ | ⟨-, ⟨c, hi, -⟩ | rfl⟩
    · cases (hat _).symm.trans hi
    · cases (hat _).symm.trans hi
    · exact (grown_enqueue s _).connected.trans hnone
  | made =>
    obtain ⟨n, hn, -⟩ := made_cases hstep
    cases hconnecting.symm.trans hn
  | answered i =>
    obtain ⟨c, hi, -⟩ := answered_cases hstep
    cases (hat i).symm.trans hi
  | lost i =>
    obtain ⟨c, s', hi, -⟩ := lost_cases hstep
    cases (hat i).symm.trans hi
  | cancelSent i _ | timeout i | statusLine i =>
    unfold step at hstep
    dsimp only at hstep
    rw [hat i] at hstep
    cases hstep
  | cancelWaiting i =>
    unfold step at hstep
    dsimp only at hstep
    repeat' split at hstep
    all_goals cases hstep
    exact hnone
  | failed =>
    unfold step at hstep
    dsimp only at hstep
    rw [hconnecting] at hstep
    cases hstep

/-- A healthy pool, without connections if it may not have any. -/
def Steady (s : Pool) : Prop := Healthy s ∧ (s.max = 0 → s.connected = [])

theorem steady_start (max : Nat) : Steady (start max) := by
  refine ⟨⟨fun c hc => ?_, fun c hc => ?_, Nat.zero_le _, fun ⟨r, hr, _⟩ => ?_⟩, fun _ => rfl⟩
  · cases hc
  · cases hc
  · cases hr

theorem Steady.step {e : Event} (h : Steady s) (hord : Orderly s e)
    (hstep : s.step e = some t) : Steady t :=
  ⟨h.1.step hord hstep, empty_step h.1 h.2 hstep⟩

/-- A pool of any size is healthy throughout a run if and only if all its steps are orderly. -/
theorem healthy_iff {max : Nat} {es : List Event} :
    Run (Guarded Orderly (Defined step)) (start max) es t ↔
      Run (Ending Healthy (Defined step)) (start max) es t :=
  run_guarded_iff (fun s (h : Steady s) => h.1)
    (fun _ _ _ h hord hstep => h.step hord hstep)
    (fun _ _ _ h hord hstep => not_healthy_step h.1 h.2 hord hstep) (steady_start max)

/-- The first of two requests that wait for the only connection is cancelled before it is made. And
a connection that is made for nobody does not count, when a lost one is replaced. -/
theorem leaked_or_exceeded :
    (∃ t, Run (Defined step) (start 1)
      [.request false false 0, .request false false 0, .cancelWaiting 0, .made] t ∧
        ¬ Healthy t) ∧
    ∃ t, Run (Defined step) (start 2)
      [.request true false 0, .made, .request true false 0, .made, .lost 0,
        .request true false 0] t ∧ ¬ Healthy t := by
  constructor
  · obtain ⟨t, ht, h⟩ : ∃ t,
        [.request false false 0, .request false false 0, .cancelWaiting 0, .made].foldlM step
          (start 1) = some t ∧ decide (t.connected = [Protocol.made]) = true := by
      apply Option.map_eq_some_iff.mp
      decide +kernel
    have hconnected := of_decide_eq_true h
    refine ⟨t, run_defined ht, fun healthy => ?_⟩
    rcases healthy.busy .made (hconnected ▸ List.mem_cons_self) rfl with hclosing | hne
    · cases hclosing
    · exact hne rfl
  · obtain ⟨t, ht, h⟩ : ∃ t,
        [.request true false 0, .made, .request true false 0, .made, .lost 0,
          .request true false 0].foldlM step (start 2) = some t ∧
            decide (t.poolLen = 3 ∧ t.max = 2) = true := by
      apply Option.map_eq_some_iff.mp
      decide +kernel
    obtain ⟨hlen, hmax⟩ := of_decide_eq_true h
    refine ⟨t, run_defined ht, fun healthy => ?_⟩
    have hle := healthy.bounded
    omega

end Pool
end Feat.Web.ConnectionPool
