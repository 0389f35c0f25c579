import Feat.Agencies.Task
import Feat.Lib.Run

/- A task ends once, and its state tells how.

   An outcome comes when `initiate` returns a result or fails, when the task is terminated or
   failed, when its timeout fires, when the `cancel` handler ends, and when a cleanup comes to its
   end. What holds is `Lawful`: the state is that of the outcome that came first, and the finish
   notification is fired once, with that outcome.

   The code keeps to it only while nothing else comes (`lawful_throughout_iff`). `terminate`,
   `fail` and an error set the state whatever came before; neither a cancellation nor a cleanup
   sets it; and an `initiate` that fails with an exception that is taken for the cancellation of
   the call leaves the task performing (`swallowed_stays_performing`). -/
namespace Feat.Agencies

open Transition

/-- Whether a call is part of an expiry. -/
def TaskJob.OfExpiry (job : TaskJob) : Prop := job.call = .expire ∨ job.call = .expired

namespace AgencyTask
variable {V E : Type}

/-! ## Outcomes -/

inductive Outcome (V E : Type) where
  | completed (result : TaskResult V E)
  | failed (error : TaskError E)
  | expired
  | cancelled (result : TaskResult V E)
  | cleaned

/-- Whether a state tells of an outcome. Nothing is said of the state of a task that was cancelled
    or cleaned up, but that it does not perform. -/
def Outcome.Told (state : TaskState) : Outcome V E → Prop
  | .completed _ => state = .completed
  | .failed _ => state = .error
  | .expired => state = .expired
  | .cancelled _ | .cleaned => state ≠ .performing

/-- What the finish notification is fired with. -/
def Outcome.result (f : TaskFactory) : Outcome V E → TaskResult V E
  | .completed result => result
  | .failed error => .failure error
  | .expired => .failure (timeoutError f)
  | .cancelled result => result
  | .cleaned => .failure (forcedError f)

/-- The outcome of a call that ends. That of an expiry came when it began. -/
def callOutcome : TaskCall → TaskEnd V E → Option (Outcome V E)
  | .initiate, .returned (.value .notDoneYet) => none
  | .initiate, .returned result => some (.completed result)
  | .initiate, .raised error => some (.failed error)
  | .cancel, .returned result => some (.cancelled result)
  | .cancel, .raised error =>
    some (if swallowed error then .cancelled (.value .none) else .failed error)
  | .expire, _ | .expired, _ => none

/-- The outcome that comes with an event. -/
def outcome (s : AgencyTask V E) : Event V E → Option (Outcome V E)
  | .ended i how => s.jobs[i]?.bind fun job => callOutcome job.call how
  | .terminate arg => some (.completed arg)
  | .fail error => some (.failed error)
  | .timeout => some .expired
  | .next => match s.cleanups with
    | [] :: _ => some .cleaned
    | (.cancel :: _) :: _ => some (.cancelled (.value .none))
    | _ => none
  | .start _ | .cancel | .cleanup => none

/-- Whether `initiate` fails with an event. -/
def initiateFails (s : AgencyTask V E) : Event V E → Bool
  | .ended i (.raised _) => s.jobs[i]?.any (·.call = .initiate)
  | _ => false

/-- A task, the outcome that came first, whether its expiry has begun and whether `initiate` has
    failed. -/
structure Watched (V E : Type) where
  task : AgencyTask V E
  first : Option (Outcome V E)
  expiring : Bool
  failed : Bool

/-- A task that has just been initiated. -/
def Watched.start (f : TaskFactory) : Watched V E := ⟨AgencyTask.start f, none, false, false⟩

def Watched.step (f : TaskFactory) (w : Watched V E) (e : Event V E) : Option (Watched V E) :=
  (w.task.step f e).map fun task =>
    { task
      first := w.first.or (w.task.outcome e)
      expiring := w.expiring || e matches .timeout
      failed := w.failed || w.task.initiateFails e }

/-! ## The law -/

/-- Something is left to do for an expiry that has begun. -/
def Pending (s : AgencyTask V E) : Prop :=
  (∃ job ∈ s.jobs, job.OfExpiry) ∨ s.cleanups ≠ []

/-- What first came is told by the state and notified once. -/
structure Lawful (f : TaskFactory) (w : Watched V E) : Prop where
  performing : w.first = none → w.task.state = .performing
  told : ∀ x, w.first = some x → x.Told w.task.state
  once : w.task.fired = w.task.result.toList
  first : ∀ r, w.task.result = some r → ∃ x, w.first = some x ∧ r = x.result f
  due : ∀ x, w.first = some x → w.task.finalized ∨ x = .expired ∧ w.task.Pending
  finished : w.task.finished ↔ w.task.finalized ∨ w.expiring
  failed : w.failed → w.task.finished

/-- A call may end so: an error that is not taken for a cancellation before the task ends or after
    an error, and one that is not in `initiate` while it performs; `cancel` once the task is
    finalized, or with the error of an expiry that has begun. -/
def EndsInOrder (f : TaskFactory) (s : AgencyTask V E) : TaskCall → TaskEnd V E → Prop
  | call, .raised error =>
    if swallowed error then match call with
      | .initiate => s.state ≠ .performing
      | .cancel => s.finalized
      | .expire | .expired => True
    else s.state = .performing ∨ s.state = .error
  | .cancel, .returned result =>
    s.finalized ∨ s.state = .expired ∧ result = .failure (timeoutError f)
  | _, .returned _ => True

/-- The condition on a step: no outcome comes after one of another state, and neither a
    cancellation nor a cleanup finalizes the task. -/
def InOrder (f : TaskFactory) (w : Watched V E) : Event V E → Prop
  | .ended i how => ∀ job, w.task.jobs[i]? = some job → EndsInOrder f w.task job.call how
  | .terminate _ => w.task.state = .performing ∨ w.task.state = .completed
  | .fail _ => w.task.state = .performing ∨ w.task.state = .error
  | .next => match w.task.cleanups with
    | [] :: _ | (.cancel :: _) :: _ => w.task.finalized
    | _ => True
  | .start _ | .cancel | .cleanup | .timeout => True

/-! ## What the operations do -/

section
variable {s : AgencyTask V E} {result : TaskResult V E} {f : TaskFactory}

theorem finalize_of (h : s.finalized = true) : s.finalize result = s := if_pos h

/-- The first call of `finalize`. -/
theorem finalize_eq (h : s.result = none) : s.finalize result =
    { s with
      result := some result
      fired := s.fired ++ [result]
      timeout := false
      jobs := s.jobs.filter (·.underWay) } := by
  rw [finalize, finalized, h]
  rfl

@[simp] theorem finalize_state : (s.finalize result).state = s.state := by
  unfold finalize
  split <;> rfl

theorem not_finalized : s.finalized = false ↔ s.result = none := Option.isSome_eq_false_iff.trans
  Option.isNone_iff_eq_none

theorem finalize_result (h : s.finalized = false) : (s.finalize result).result = some result := by
  rw [finalize_eq (not_finalized.mp h)]

theorem finalize_finalized : (s.finalize result).finalized = true := by
  unfold finalize
  split
  · assumption
  · rfl

/-- An error is taken for a cancellation, or ends the task. -/
theorem errorHandler_eq {error : TaskError E} (h : swallowed error = false) :
    s.errorHandler error = (s.setState .error).finalize (.failure error) := by
  rw [errorHandler, h]
  rfl

theorem createExpiredError_ne {msg msg' : String} (hmsg : msg ≠ "") (hmsg' : msg' ≠ "")
    (hne : msg ≠ msg') :
    (createExpiredError f msg : TaskError E) ≠ createExpiredError f msg' := by
  intro h
  unfold createExpiredError at h
  dsimp only at h
  rw [if_neg hmsg, if_neg hmsg'] at h
  have heq := TaskError.protocolExpired.inj h
  exact hne ((String.append_right_inj _).mp heq)

/-- A cleanup does not fail as an expiry does. -/
theorem forcedError_ne : (forcedError f : TaskError E) ≠ timeoutError f := by
  have hfirst : ∀ msg : String, "Timeout of " ++ msg ≠ "Forced expiration" := by
    intro msg h
    have hlist := congrArg (fun s => s.toList.head?) h
    rw [String.toList_append] at hlist
    cases hlist
  have hempty : ∀ msg : String, "Timeout of " ++ msg ≠ "" := by
    intro msg h
    have hlist := congrArg (fun s => s.toList.head?) h
    rw [String.toList_append] at hlist
    cases hlist
  refine createExpiredError_ne (by decide) ?_ ?_ <;> rw [String.append_assoc]
  · exact hempty _
  · exact (hfirst _).symm

end

/-- What is left of a list without one of its members. -/
theorem exists_mem_eraseIdx {P : TaskJob → Prop} {jobs : List TaskJob} {i : Nat} {job : TaskJob}
    (hjob : jobs[i]? = some job) (hnot : ¬ P job) (h : ∃ job ∈ jobs, P job) :
    ∃ job ∈ jobs.eraseIdx i, P job := by
  obtain ⟨other, hother, hP⟩ := h
  obtain ⟨j, hj⟩ := List.mem_iff_getElem?.mp hother
  refine ⟨other, List.mem_eraseIdx_iff_getElem?.mpr ⟨j, ?_, hj⟩, hP⟩
  rintro rfl
  rw [hjob] at hj
  cases hj
  exact hnot hP

theorem exists_mem_set {P : TaskJob → Prop} {jobs : List TaskJob} {i : Nat} {job next : TaskJob}
    (hjob : jobs[i]? = some job) (hnext : P job → P next) (h : ∃ job ∈ jobs, P job) :
    ∃ job ∈ jobs.set i next, P job := by
  obtain ⟨other, hother, hP⟩ := h
  obtain ⟨j, hj⟩ := List.mem_iff_getElem?.mp hother
  have hlength : i < jobs.length := (List.getElem?_eq_some_iff.mp hjob).1
  by_cases hij : i = j
  · cases hij
    rw [hjob] at hj
    cases hj
    exact ⟨next, List.mem_set hlength next, hnext hP⟩
  · exact ⟨other, List.mem_iff_getElem?.mpr ⟨j, by rw [List.getElem?_set_ne hij, hj]⟩, hP⟩

/-! ## The invariant -/

/-- The law, with what holds of a task that has kept to it. -/
structure Inv (f : TaskFactory) (w : Watched V E) : Prop extends Lawful f w where
  timeout : w.task.timeout → w.first = none
  queued : ∀ job ∈ w.task.jobs, job.call = .expire → job.underWay = false
  expiry : ∀ job ∈ w.task.jobs, job.OfExpiry → w.first = some .expired
  cleaning : ∀ calls ∈ w.task.cleanups, .expired ∈ calls → w.first = some .expired
  expiring : w.expiring ↔ w.first = some .expired
  kind : ∀ x, w.first = some x → (∃ r, x = .completed r) ∨ (∃ e, x = .failed e) ∨ x = .expired

section
variable {f : TaskFactory} {w : Watched V E} {t : AgencyTask V E} {x : Outcome V E}
  {expiring failed : Bool}

theorem inv_start (f : TaskFactory) : Inv f (Watched.start f : Watched V E) where
  performing _ := rfl
  told _ h := nomatch h
  once := rfl
  first _ h := nomatch h
  due _ h := nomatch h
  finished := by simp [Watched.start, AgencyTask.start, finished, finalized]
  failed h := nomatch h
  timeout _ := rfl
  queued job hjob hcall := by
    cases List.mem_singleton.mp hjob
    cases hcall
  expiry job hjob hexpiry := by
    cases List.mem_singleton.mp hjob
    rcases hexpiry with h | h <;> cases h
  cleaning _ h := nomatch h
  expiring := by simp [Watched.start]
  kind _ h := nomatch h

namespace Inv

/-- A task that performs has no outcome. -/
theorem first_of_performing (h : Inv f w) (hstate : w.task.state = .performing) :
    w.first = none := by
  cases hfirst : w.first with
  | none => rfl
  | some x =>
    have htold := h.told x hfirst
    rcases h.kind x hfirst with ⟨r, rfl⟩ | ⟨e, rfl⟩ | rfl <;> cases hstate.symm.trans htold

/-- A task that is not finalized performs, or expires. -/
theorem unfinished (h : Inv f w) (hnot : w.task.finalized = false) :
    w.first = none ∨ w.first = some .expired := by
  cases hfirst : w.first with
  | none => exact .inl rfl
  | some x =>
    rcases h.due x hfirst with hdone | ⟨rfl, _⟩
    · rw [hnot] at hdone
      cases hdone
    · exact .inr rfl

theorem not_finalized_of_none (h : Inv f w) (hnone : w.first = none) : w.task.result = none := by
  cases hresult : w.task.result with
  | none => rfl
  | some r =>
    obtain ⟨x, hx, _⟩ := h.first r hresult
    rw [hnone] at hx
    cases hx

/-- What is told of by one state is not told of by another. -/
theorem told_unique (h : Inv f w) (hfirst : w.first = some x) {state : TaskState}
    (htold : x.Told state) : state = w.task.state := by
  have hstate := h.told x hfirst
  rcases h.kind x hfirst with ⟨r, rfl⟩ | ⟨e, rfl⟩ | rfl <;> exact htold.trans hstate.symm

/-- A step that only changes jobs. -/
theorem kept (h : Inv f w) (hstate : t.state = w.task.state) (hresult : t.result = w.task.result)
    (hfired : t.fired = w.task.fired) (htimeout : t.timeout → w.task.timeout)
    (hqueued : ∀ job ∈ t.jobs, job.call = .expire → job.underWay = false)
    (hexpiry : ∀ job ∈ t.jobs, job.OfExpiry → w.first = some .expired)
    (hcleaning : ∀ calls ∈ t.cleanups, .expired ∈ calls → w.first = some .expired)
    (hpending : w.task.finalized = false → w.task.Pending → t.Pending)
    (hfailed : failed → w.task.finished ∨ w.failed) :
    Inv f ⟨t, w.first, w.expiring, failed⟩ := by
  have hfinished : t.finished = w.task.finished := by rw [finished, finished, hstate]
  have hfinalized : t.finalized = w.task.finalized := by rw [finalized, finalized, hresult]
  exact
    { performing := fun hnone => hstate.trans (h.performing hnone)
      told := fun x hx => by rw [hstate]; exact h.told x hx
      once := by rw [hfired, hresult]; exact h.once
      first := fun r hr => h.first r (hresult.symm.trans hr)
      due := fun x hx => by
        rw [hfinalized]
        cases hdone : w.task.finalized with
        | true => exact .inl rfl
        | false =>
          rcases h.due x hx with hdone' | ⟨rfl, hpend⟩
          · rw [hdone] at hdone'
            cases hdone'
          · exact .inr ⟨rfl, hpending hdone hpend⟩
      finished := by rw [hfinished, hfinalized]; exact h.finished
      failed := fun hf => by
        rw [hfinished]
        exact (hfailed hf).elim id h.failed
      timeout := fun ht => h.timeout (htimeout ht)
      queued := hqueued
      expiry := hexpiry
      cleaning := hcleaning
      expiring := h.expiring
      kind := h.kind }

/-- The notification is fired with what came first. -/
theorem ends (h : Inv f w) (hresult : w.task.result = none)
    (hfirst : w.first = none ∧ ((∃ r, x = .completed r) ∨ ∃ e, x = .failed e) ∨
      w.first = some .expired ∧ x = .expired)
    (htold : x.Told t.state) (hdone : t.result = some (x.result f))
    (hfired : t.fired = w.task.fired ++ [x.result f]) (htimeout : t.timeout = false)
    (hjobs : ∀ job ∈ t.jobs, job ∈ w.task.jobs)
    (hcleaning : ∀ calls ∈ t.cleanups, .expired ∈ calls → w.first = some .expired) :
    Inv f ⟨t, some x, w.expiring, failed⟩ := by
  have hnil : w.task.fired = [] := by rw [h.once, hresult]; rfl
  have hperforming : t.state ≠ .performing := by
    intro hstate
    rw [hstate] at htold
    rcases hfirst with ⟨_, ⟨r, rfl⟩ | ⟨e, rfl⟩⟩ | ⟨_, rfl⟩ <;> cases htold
  have hfinished : t.finished = true := decide_eq_true hperforming
  have hfinalized : t.finalized = true := by rw [finalized, hdone]; rfl
  have hexpired : w.first = some .expired → x = .expired := by
    rcases hfirst with ⟨hnone, _⟩ | ⟨_, rfl⟩
    · intro hx
      rw [hnone] at hx
      cases hx
    · exact fun _ => rfl
  have hkind : (∃ r, x = .completed r) ∨ (∃ e, x = .failed e) ∨ x = .expired := by
    rcases hfirst with ⟨_, hx | hx⟩ | ⟨_, hx⟩
    · exact .inl hx
    · exact .inr (.inl hx)
    · exact .inr (.inr hx)
  exact
    { performing := fun hnone => nomatch hnone
      told := fun y hy => by cases hy; exact htold
      once := by rw [hfired, hnil, hdone]; rfl
      first := fun r hr => ⟨x, rfl, by rw [hdone] at hr; cases hr; rfl⟩
      due := fun y hy => .inl hfinalized
      finished := iff_of_true hfinished (.inl hfinalized)
      failed := fun _ => hfinished
      timeout := fun ht => by rw [htimeout] at ht; cases ht
      queued := fun job hjob => h.queued job (hjobs job hjob)
      expiry := fun job hjob hof => by rw [hexpired (h.expiry job (hjobs job hjob) hof)]
      cleaning := fun calls hcalls hmem => by rw [hexpired (hcleaning calls hcalls hmem)]
      expiring := h.expiring.trans ⟨fun hx => by rw [hexpired hx], fun hx => by
        cases hx
        rcases hfirst with ⟨_, ⟨r, hx⟩ | ⟨e, hx⟩⟩ | ⟨hx, _⟩
        · cases hx
        · cases hx
        · exact hx⟩
      kind := fun y hy => by cases hy; exact hkind }

/-- A call ends, with no effect on the task. -/
theorem erased (h : Inv f w) {i : Nat} {job : TaskJob} (hjob : w.task.jobs[i]? = some job)
    (hnot : w.task.finalized = false → ¬ job.OfExpiry)
    (hfailed : failed → w.task.finished ∨ w.failed) :
    Inv f ⟨{ w.task with jobs := w.task.jobs.eraseIdx i }, w.first, w.expiring, failed⟩ := by
  refine h.kept rfl rfl rfl id (fun job' hjob' => h.queued job' (List.mem_of_mem_eraseIdx hjob'))
    (fun job' hjob' => h.expiry job' (List.mem_of_mem_eraseIdx hjob')) h.cleaning ?_ hfailed
  rintro hdone (hpending | hcleaning)
  · exact .inl (exists_mem_eraseIdx hjob (hnot hdone) hpending)
  · exact .inr hcleaning

/-- The state is set and the task finalized, as the first or again. -/
theorem sets (h : Inv f w) {jobs : List TaskJob} (hjobs : ∀ job ∈ jobs, job ∈ w.task.jobs)
    {state : TaskState} (hkind : (∃ r, x = .completed r) ∨ ∃ e, x = .failed e)
    (htold : x.Told state) (hstate : w.task.state = .performing ∨ w.task.state = state) :
    Inv f ⟨({ w.task with jobs }.setState state).finalize (x.result f), w.first.or (some x),
      w.expiring, failed⟩ := by
  by_cases hperforming : w.task.state = .performing
  · have hnone := h.first_of_performing hperforming
    have hresult := h.not_finalized_of_none hnone
    have hset : (({ w.task with jobs } : AgencyTask V E).setState state).result = none := hresult
    rw [hnone, Option.none_or, finalize_eq hset]
    exact h.ends hresult (.inl ⟨hnone, hkind⟩) htold rfl rfl rfl
      (fun job hjob => hjobs job (List.mem_of_mem_filter hjob)) h.cleaning
  · have hstate := hstate.resolve_left hperforming
    have hfinalized : w.task.finalized = true := by
      cases hdone : w.task.finalized with
      | true => rfl
      | false =>
        rcases h.unfinished hdone with hnone | hexpired
        · exact absurd (h.performing hnone) hperforming
        · have hexpired := h.told _ hexpired
          rcases hkind with ⟨r, rfl⟩ | ⟨e, rfl⟩ <;>
            cases htold.symm.trans (hstate.symm.trans hexpired)
    have hor : w.first.or (some x) = w.first := by
      cases hfirst : w.first with
      | none => exact absurd (h.performing hfirst) hperforming
      | some y => rfl
    have hset : (({ w.task with jobs } : AgencyTask V E).setState state).finalized = true :=
      hfinalized
    rw [hor, finalize_of hset]
    refine h.kept hstate.symm rfl rfl id (fun job hjob => h.queued job (hjobs job hjob))
      (fun job hjob => h.expiry job (hjobs job hjob)) h.cleaning ?_
      fun _ => .inl (decide_eq_true hperforming)
    intro hdone
    rw [hfinalized] at hdone
    cases hdone

/-- The notification of an expiry. -/
theorem expires (h : Inv f w) (hnot : w.task.finalized = false) (hfirst : w.first = some .expired)
    {jobs : List TaskJob} (hjobs : ∀ job ∈ jobs, job ∈ w.task.jobs)
    {cleanups : List (List TaskCall)}
    {result : TaskResult V E} (hresult : result = .failure (timeoutError f)) :
    Inv f ⟨{ ({ w.task with jobs } : AgencyTask V E).finalize result with cleanups }, w.first,
      w.expiring, failed⟩ := by
  have hnone := not_finalized.mp hnot
  have hjobless : ({ w.task with jobs } : AgencyTask V E).result = none := hnone
  rw [finalize_eq hjobless]
  cases hresult
  have hends : Inv f ⟨_, some .expired, w.expiring, failed⟩ := h.ends
    (t := { ({ w.task with jobs } : AgencyTask V E) with
      result := some (.failure (timeoutError f))
      fired := w.task.fired ++ [.failure (timeoutError f)]
      timeout := false
      jobs := jobs.filter (·.underWay)
      cleanups })
    hnone (.inr ⟨hfirst, rfl⟩) (h.told _ hfirst) rfl rfl rfl
    (fun job hjob => hjobs job (List.mem_of_mem_filter hjob)) fun _ _ _ => hfirst
  rw [← hfirst] at hends
  exact hends

/-- A call ends with an error that ends the task too. -/
theorem handled (h : Inv f w) {i : Nat} {error : TaskError E} (hreal : swallowed error = false)
    (hstate : w.task.state = .performing ∨ w.task.state = .error) (call : TaskCall) :
    Inv f ⟨w.task.ended f i call (.raised error), w.first.or (some (.failed error)), w.expiring,
      failed⟩ := by
  have hfollow : w.task.ended f i call (.raised error) =
      (({ w.task with jobs := w.task.jobs.eraseIdx i } : AgencyTask V E).setState .error).finalize
        (.failure error) := by
    unfold ended
    dsimp only
    rw [errorHandler_eq hreal]
    cases call with
    | initiate => rfl
    | expire => rfl
    | cancel => exact finalize_of finalize_finalized
    | expired => exact finalize_of finalize_finalized
  rw [hfollow]
  exact h.sets (fun job hjob => List.mem_of_mem_eraseIdx hjob) (.inr ⟨error, rfl⟩) rfl hstate

/-- `initiate` returns. -/
theorem initiated (h : Inv f w) {i : Nat} {result : TaskResult V E}
    (hjob : w.task.jobs[i]? = some ⟨.initiate, true⟩) :
    Inv f ⟨w.task.ended f i .initiate (.returned result),
      w.first.or (callOutcome .initiate (.returned result)), w.expiring, w.failed⟩ := by
  have hnot : ¬ TaskJob.OfExpiry ⟨.initiate, true⟩ := by
    rintro (h | h) <;> cases h
  have herased : Inv f ⟨{ w.task with jobs := w.task.jobs.eraseIdx i }, w.first, w.expiring,
      w.failed⟩ := h.erased hjob (fun _ => hnot) .inr
  have hcompleted : ∀ r, callOutcome .initiate (.returned r) = some (Outcome.completed r) →
      Inv f ⟨if w.task.state = .performing then
          (({ w.task with jobs := w.task.jobs.eraseIdx i } : AgencyTask V E).setState
            .completed).finalize r
        else { w.task with jobs := w.task.jobs.eraseIdx i },
        w.first.or (callOutcome .initiate (.returned r)), w.expiring, w.failed⟩ := by
    intro r hr
    rw [hr]
    by_cases hstate : w.task.state = .performing
    · rw [if_pos hstate]
      exact h.sets (fun job hjob => List.mem_of_mem_eraseIdx hjob) (.inl ⟨r, rfl⟩) rfl (.inl hstate)
    · rw [if_neg hstate]
      cases hfirst : w.first with
      | none => exact absurd (h.performing hfirst) hstate
      | some x =>
        rw [hfirst] at herased
        exact herased
  cases result with
  | failure error => exact hcompleted _ rfl
  | value value =>
    cases value with
    | notDoneYet =>
      rw [callOutcome, Option.or_none]
      exact herased
    | none => exact hcompleted _ rfl
    | other v => exact hcompleted _ rfl

/-- A call whose end finalizes the task, which is finalized or is notified of its expiry. -/
theorem follows (h : Inv f w) {i : Nat} {job : TaskJob} (hjob : w.task.jobs[i]? = some job)
    {result : TaskResult V E} (hnot : w.task.finalized = false →
      w.first = some .expired ∧ result = .failure (timeoutError f))
    (hfailed : failed → w.task.finished ∨ w.failed) :
    Inv f ⟨({ w.task with jobs := w.task.jobs.eraseIdx i } : AgencyTask V E).finalize result,
      w.first, w.expiring, failed⟩ := by
  cases hdone : w.task.finalized with
  | true =>
    have herased : ({ w.task with jobs := w.task.jobs.eraseIdx i } : AgencyTask V E).finalized =
        true := hdone
    rw [finalize_of herased]
    exact h.erased hjob (fun hfalse => by rw [hdone] at hfalse; cases hfalse) hfailed
  | false =>
    obtain ⟨hfirst, hresult⟩ := hnot hdone
    have heq : { ({ w.task with jobs := w.task.jobs.eraseIdx i } : AgencyTask V E).finalize result
        with cleanups := w.task.cleanups } =
        ({ w.task with jobs := w.task.jobs.eraseIdx i } : AgencyTask V E).finalize result := by
      unfold finalize
      split <;> rfl
    rw [← heq]
    exact h.expires hdone hfirst (fun job hjob => List.mem_of_mem_eraseIdx hjob) hresult

/-- A call ends as it may. -/
theorem ended (h : Inv f w) {i : Nat} {call : TaskCall} {how : TaskEnd V E}
    (hjob : w.task.jobs[i]? = some ⟨call, true⟩) (horder : EndsInOrder f w.task call how) :
    Inv f ⟨w.task.ended f i call how, w.first.or (callOutcome call how), w.expiring,
      w.failed || w.task.initiateFails (.ended i how)⟩ := by
  have hfinished : w.task.state ≠ .performing → w.task.finished = true := decide_eq_true
  have hexpired : call = .expired → w.first = some .expired := fun hcall =>
    h.expiry _ (List.mem_of_getElem? hjob) (.inr hcall)
  have hexpire : call ≠ .expire := by
    rintro rfl
    cases h.queued _ (List.mem_of_getElem? hjob) rfl
  cases how with
  | returned result =>
    have hfails : w.task.initiateFails (.ended i (.returned result)) = false := rfl
    rw [hfails, Bool.or_false]
    cases call with
    | initiate => exact h.initiated hjob
    | expire => exact absurd rfl hexpire
    | cancel =>
      have hor : w.first.or (callOutcome .cancel (.returned result)) = w.first := by
        cases hfirst : w.first with
        | some x => rfl
        | none =>
          rcases horder with hdone | ⟨hstate, _⟩
          · rw [not_finalized.mpr (h.not_finalized_of_none hfirst)] at hdone
            cases hdone
          · cases (h.performing hfirst).symm.trans hstate
      rw [hor]
      refine h.follows hjob (fun hnot => ?_) .inr
      rcases horder with hdone | ⟨hstate, hresult⟩
      · rw [hnot] at hdone
        cases hdone
      · refine ⟨(h.unfinished hnot).resolve_left fun hnone => ?_, hresult⟩
        cases (h.performing hnone).symm.trans hstate
    | expired =>
      rw [callOutcome, Option.or_none]
      exact h.follows hjob (fun _ => ⟨hexpired rfl, rfl⟩) .inr
  | raised error =>
    cases hreal : swallowed error with
    | false =>
      rw [EndsInOrder.eq_def] at horder
      simp only [hreal] at horder
      have hhandled : ∀ failed, Inv f ⟨w.task.ended f i call (.raised error),
          w.first.or (some (.failed error)), w.expiring, failed⟩ :=
        fun _ => h.handled hreal horder call
      cases call with
      | initiate => exact hhandled _
      | expire => exact absurd rfl hexpire
      | cancel =>
        rw [callOutcome, hreal]
        exact hhandled _
      | expired =>
        have hlate := hhandled (w.failed || w.task.initiateFails (.ended i (.raised error)))
        rw [hexpired rfl] at hlate ⊢
        exact hlate
    | true =>
      have hswallowed : ∀ s : AgencyTask V E, s.errorHandler error = s := fun s => by
        rw [errorHandler, if_pos hreal]
      rw [EndsInOrder.eq_def] at horder
      simp only [hreal, if_true] at horder
      unfold AgencyTask.ended
      simp only [hswallowed]
      cases call with
      | initiate =>
        have hor : w.first.or (callOutcome .initiate (.raised error)) = w.first := by
          cases hfirst : w.first with
          | some x => rfl
          | none => exact absurd (h.performing hfirst) horder
        rw [hor]
        refine h.erased hjob (fun _ => ?_) fun _ => .inl (hfinished horder)
        rintro (h | h) <;> cases h
      | expire => exact absurd rfl hexpire
      | cancel =>
        have hor : w.first.or (callOutcome .cancel (.raised error)) = w.first := by
          cases hfirst : w.first with
          | some x => rfl
          | none =>
            rw [not_finalized.mpr (h.not_finalized_of_none hfirst)] at horder
            cases horder
        have hfails : w.task.initiateFails (.ended i (.raised error)) = false := by
          rw [initiateFails, hjob]
          rfl
        rw [hor, hfails, Bool.or_false]
        refine h.follows hjob (fun hnot => ?_) .inr
        rw [hnot] at horder
        cases horder
      | expired =>
        have hfails : w.task.initiateFails (.ended i (.raised error)) = false := by
          rw [initiateFails, hjob]
          rfl
        rw [callOutcome, Option.or_none, hfails, Bool.or_false]
        exact h.follows hjob (fun _ => ⟨hexpired rfl, rfl⟩) .inr

/-- A queued call is made. -/
theorem make (h : Inv f w) {i : Nat} {call : TaskCall}
    (hjob : w.task.jobs[i]? = some ⟨call, false⟩) :
    Inv f ⟨w.task.make i call, w.first, w.expiring, w.failed⟩ := by
  -- the job is replaced by another
  have hset : ∀ next : TaskJob, (next.call = .expire → next.underWay = false) →
      (next.OfExpiry ↔ TaskJob.OfExpiry ⟨call, false⟩) →
      Inv f ⟨{ w.task with jobs := w.task.jobs.set i next }, w.first, w.expiring, w.failed⟩ := by
    intro next hqueued hof
    refine h.kept rfl rfl rfl id (fun job hmem => ?_) (fun job hmem hexpiry => ?_) h.cleaning
      (fun _ hpending => ?_) .inr
    · rcases List.mem_or_eq_of_mem_set hmem with hmem | rfl
      · exact h.queued job hmem
      · exact hqueued
    · rcases List.mem_or_eq_of_mem_set hmem with hmem | rfl
      · exact h.expiry job hmem hexpiry
      · exact h.expiry _ (List.mem_of_getElem? hjob) (hof.mp hexpiry)
    · exact hpending.imp (exists_mem_set hjob hof.mpr) id
  cases call with
  | initiate => exact hset ⟨.initiate, true⟩ (fun h => nomatch h) Iff.rfl
  | cancel => exact hset ⟨.cancel, true⟩ (fun h => nomatch h) Iff.rfl
  | expired => exact hset ⟨.expired, true⟩ (fun h => nomatch h) Iff.rfl
  | expire =>
    have hfirst := h.expiry _ (List.mem_of_getElem? hjob) (.inl rfl)
    have hstate : w.task.state = .expired := h.told _ hfirst
    rw [AgencyTask.make, if_pos hstate]
    exact hset ⟨.expired, false⟩ (fun h => nomatch h) (iff_of_true (.inr rfl) (.inl rfl))

/-- `cancel` only queues a call. -/
theorem cancel (h : Inv f w) : Inv f ⟨w.task.cancel f, w.first, w.expiring, w.failed⟩ := by
  unfold AgencyTask.cancel
  split
  · exact h
  · split
    · exact h
    · refine h.kept rfl rfl rfl id (fun job hmem => ?_) (fun job hmem hexpiry => ?_) h.cleaning
        (fun _ hpending => ?_) .inr
      · rcases List.mem_append.mp hmem with hmem | hmem
        · exact h.queued job hmem
        · cases List.mem_singleton.mp hmem
          exact fun hcall => nomatch hcall
      · rcases List.mem_append.mp hmem with hmem | hmem
        · exact h.expiry job hmem hexpiry
        · cases List.mem_singleton.mp hmem
          rcases hexpiry with hcall | hcall <;> cases hcall
      · exact hpending.imp (fun ⟨job, hjob, hof⟩ => ⟨job, List.mem_append_left _ hjob, hof⟩) id

/-- A cleanup begins. -/
theorem cleanup (h : Inv f w) : Inv f ⟨w.task.cleanup, w.first, w.expiring, w.failed⟩ := by
  refine h.kept rfl rfl rfl (fun htimeout => nomatch htimeout)
    (fun job hmem => h.queued job (List.mem_of_mem_filter hmem))
    (fun job hmem => h.expiry job (List.mem_of_mem_filter hmem)) ?_
    (fun _ _ => .inr (List.cons_ne_nil _ _)) .inr
  intro calls hcalls hexpired
  rcases List.mem_cons.mp hcalls with rfl | hcalls
  · obtain ⟨job, hjob, hcall⟩ := List.mem_map.mp hexpired
    exact h.expiry job (List.mem_of_mem_filter hjob) (.inr hcall)
  · exact h.cleaning calls hcalls hexpired

/-- The timeout fires. -/
theorem timedOut (h : Inv f w) (htimeout : w.task.timeout = true) :
    Inv f ⟨w.task.timedOut, w.first.or (some .expired), true, w.failed⟩ := by
  have hnone := h.timeout htimeout
  have hresult := h.not_finalized_of_none hnone
  have hfinished : w.task.timedOut.finished = true := rfl
  rw [hnone]
  exact
    { performing := fun h => nomatch h
      told := fun x hx => by cases hx; rfl
      once := h.once
      first := fun r hr => by cases hresult.symm.trans hr
      due := fun x hx => by
        cases hx
        have hmem : ⟨.expire, false⟩ ∈ w.task.timedOut.jobs :=
          List.mem_append_right _ (List.mem_singleton.mpr rfl)
        exact .inr ⟨rfl, .inl ⟨_, hmem, .inl rfl⟩⟩
      finished := iff_of_true hfinished (.inr rfl)
      failed := fun _ => hfinished
      timeout := fun h => nomatch h
      queued := fun job hmem => by
        rcases List.mem_append.mp hmem with hmem | hmem
        · exact h.queued job hmem
        · cases List.mem_singleton.mp hmem
          exact fun _ => rfl
      expiry := fun _ _ _ => rfl
      cleaning := fun _ _ _ => rfl
      expiring := iff_of_true rfl rfl
      kind := fun x hx => by cases hx; exact .inr (.inr rfl) }

/-- A cleanup goes on. -/
theorem next (h : Inv f w) {t : AgencyTask V E} (horder : InOrder f w .next)
    (hstep : w.task.next f = some t) :
    Inv f ⟨t, w.first.or (w.task.outcome .next), w.expiring, w.failed⟩ := by
  have hor : w.task.finalized = true → ∀ o, w.first.or o = w.first := by
    intro hdone o
    cases hfirst : w.first with
    | some x => rfl
    | none =>
      rw [not_finalized.mpr (h.not_finalized_of_none hfirst)] at hdone
      cases hdone
  -- the calls that are left to cancel
  have hrest : ∀ rest : List (List TaskCall),
      (∀ calls ∈ rest, .expired ∈ calls → w.first = some .expired) →
      (w.task.finalized = false → rest ≠ []) →
      Inv f ⟨{ w.task with cleanups := rest }, w.first, w.expiring, w.failed⟩ := by
    intro rest hcleaning hne
    exact h.kept rfl rfl rfl id h.queued h.expiry hcleaning (fun hdone _ => .inr (hne hdone)) .inr
  unfold AgencyTask.next at hstep
  unfold InOrder at horder
  unfold outcome
  cases hcleanups : w.task.cleanups with
  | nil =>
    rw [hcleanups] at hstep
    cases hstep
  | cons calls cleanups =>
    rw [hcleanups] at hstep horder
    have hleft : ∀ calls ∈ cleanups, .expired ∈ calls → w.first = some .expired := fun c hc =>
      h.cleaning c (by rw [hcleanups]; exact List.mem_cons_of_mem _ hc)
    cases calls with
    | nil =>
      cases hstep
      dsimp only at horder ⊢
      rw [finalize_of horder, hor horder]
      exact hrest _ hleft fun hfalse => by rw [horder] at hfalse; cases hfalse
    | cons call calls =>
      cases hstep
      have hleft : ∀ c ∈ calls :: cleanups, .expired ∈ c → w.first = some .expired := by
        intro c hc hmem
        rcases List.mem_cons.mp hc with rfl | hc
        · exact h.cleaning (call :: c) (by rw [hcleanups]; exact List.mem_cons_self)
            (List.mem_cons_of_mem _ hmem)
        · exact hleft c hc hmem
      cases call with
      | initiate =>
        rw [Option.or_none]
        exact hrest _ hleft fun _ => List.cons_ne_nil _ _
      | expire =>
        rw [Option.or_none]
        exact hrest _ hleft fun _ => List.cons_ne_nil _ _
      | cancel =>
        dsimp only at horder ⊢
        rw [follow, finalize_of horder, hor horder]
        exact hrest _ hleft fun _ => List.cons_ne_nil _ _
      | expired =>
        have hfirst : w.first = some .expired :=
          h.cleaning _ (by rw [hcleanups]; exact List.mem_cons_self) List.mem_cons_self
        rw [Option.or_none, follow]
        cases hdone : w.task.finalized with
        | true =>
          rw [finalize_of hdone]
          exact hrest _ hleft fun _ => List.cons_ne_nil _ _
        | false => exact h.expires hdone hfirst (fun _ hjob => hjob) rfl

/-- A step in order keeps to the law. -/
theorem step {e : Event V E} {v : Watched V E} (h : Inv f w) (horder : InOrder f w e)
    (hstep : w.step f e = some v) : Inv f v := by
  obtain ⟨t, ht, rfl⟩ := Option.map_eq_some_iff.mp hstep
  cases e with
  | start i =>
    simp only [AgencyTask.step] at ht
    split at ht
    · next call hjob =>
      split at ht
      · cases ht
        simpa [outcome, initiateFails] using h.make hjob
      · cases ht
    · cases ht
  | ended i how =>
    simp only [AgencyTask.step] at ht
    split at ht
    · next call hjob =>
      cases ht
      have hended := h.ended hjob (horder _ hjob)
      have houtcome : w.task.outcome (.ended i how) = callOutcome call how := by
        rw [outcome, hjob]
        rfl
      rw [houtcome, Bool.or_false]
      exact hended
    · cases ht
  | terminate arg =>
    cases ht
    have hfails : w.task.initiateFails (.terminate arg) = false := rfl
    rw [Bool.or_false, hfails, Bool.or_false]
    exact h.sets (fun _ hjob => hjob) (.inl ⟨arg, rfl⟩) rfl horder
  | fail error =>
    cases ht
    have hfails : w.task.initiateFails (.fail error) = false := rfl
    rw [Bool.or_false, hfails, Bool.or_false]
    exact h.sets (fun _ hjob => hjob) (.inr ⟨error, rfl⟩) rfl horder
  | cancel =>
    cases ht
    simpa [outcome, initiateFails] using h.cancel
  | cleanup =>
    cases ht
    simpa [outcome, initiateFails] using h.cleanup
  | timeout =>
    simp only [AgencyTask.step] at ht
    split at ht
    · next htimeout =>
      cases ht
      simpa [outcome, initiateFails] using h.timedOut htimeout.1
    · cases ht
  | next =>
    have hfails : w.task.initiateFails .next = false := rfl
    rw [Bool.or_false, hfails, Bool.or_false]
    exact h.next horder ht

/-! ## Steps out of order -/

/-- The state that tells of what came first is set to another. -/
theorem displaced (h : Inv f w) {state : TaskState} {o : Option (Outcome V E)}
    (hperforming : w.task.state ≠ .performing) (hstate : w.task.state ≠ state)
    (ht : t.state = state) : ¬ Lawful f ⟨t, w.first.or o, expiring, failed⟩ := by
  intro hlawful
  cases hfirst : w.first with
  | none => exact hperforming (h.performing hfirst)
  | some x =>
    have htold := hlawful.told x (by rw [hfirst]; rfl)
    exact hstate ((h.told_unique hfirst htold).symm.trans ht)

/-- A task that is finalized by what sets no state. -/
theorem unsettled (h : Inv f w) {r : TaskResult V E} (hnot : w.task.finalized = false)
    (hstate : t.state = w.task.state) (hresult : t.result = some r)
    (hx : ¬ x.Told .performing) (hr : w.task.state = .expired → r ≠ .failure (timeoutError f)) :
    ¬ Lawful f ⟨t, w.first.or (some x), expiring, failed⟩ := by
  intro hlawful
  rcases h.unfinished hnot with hfirst | hfirst
  · have htold := hlawful.told x (by rw [hfirst]; rfl)
    rw [hstate, h.performing hfirst] at htold
    exact hx htold
  · obtain ⟨y, hy, hry⟩ := hlawful.first r hresult
    rw [hfirst] at hy
    cases hy
    exact hr (h.told _ hfirst) hry

/-- A call ends otherwise. -/
theorem ended_loses (h : Inv f w) {i : Nat} {call : TaskCall} {how : TaskEnd V E}
    (hjob : w.task.jobs[i]? = some ⟨call, true⟩) (horder : ¬ EndsInOrder f w.task call how) :
    ¬ Lawful f ⟨w.task.ended f i call how, w.first.or (callOutcome call how), expiring,
      failed⟩ := by
  cases how with
  | returned result =>
    cases call with
    | initiate => exact absurd trivial horder
    | expire => exact absurd trivial horder
    | expired => exact absurd trivial horder
    | cancel =>
      have hnot : w.task.finalized = false := by
        cases hdone : w.task.finalized with
        | false => rfl
        | true => exact absurd (.inl hdone) horder
      refine h.unsettled hnot (finalize_state ..) (finalize_result hnot) (fun hx => hx rfl) ?_
      exact fun hstate hresult => horder (.inr ⟨hstate, hresult⟩)
  | raised error =>
    rw [EndsInOrder.eq_def] at horder
    cases hreal : swallowed error with
    | false =>
      have horder : ¬ (w.task.state = .performing ∨ w.task.state = .error) := by
        simpa only [hreal, Bool.false_eq_true, if_false] using horder
      obtain ⟨hperforming, hstate⟩ := not_or.mp horder
      refine h.displaced hperforming hstate ?_
      unfold AgencyTask.ended
      dsimp only
      rw [errorHandler_eq hreal]
      cases call <;> simp [follow, setState]
    | true =>
      simp only [hreal, if_true] at horder
      have hswallowed : ∀ s : AgencyTask V E, s.errorHandler error = s := fun s => by
        rw [errorHandler, if_pos hreal]
      unfold AgencyTask.ended
      simp only [hswallowed]
      cases call with
      | initiate =>
        have hstate : w.task.state = .performing := Classical.byContradiction horder
        rw [h.first_of_performing hstate]
        intro hlawful
        have htold : w.task.state = .error := hlawful.told _ rfl
        cases hstate.symm.trans htold
      | cancel =>
        have hnot : w.task.finalized = false := by simpa using horder
        rw [callOutcome, hreal]
        exact h.unsettled hnot (finalize_state ..) (finalize_result hnot) (fun hx => hx rfl)
          fun _ hr => nomatch hr
      | expire => exact absurd trivial horder
      | expired => exact absurd trivial horder

/-- A step out of order breaks the law. -/
theorem step_loses {e : Event V E} {v : Watched V E} (h : Inv f w) (horder : ¬ InOrder f w e)
    (hstep : w.step f e = some v) : ¬ Lawful f v := by
  obtain ⟨t, ht, rfl⟩ := Option.map_eq_some_iff.mp hstep
  cases e with
  | start i => exact absurd trivial horder
  | cancel => exact absurd trivial horder
  | cleanup => exact absurd trivial horder
  | timeout => exact absurd trivial horder
  | ended i how =>
    simp only [AgencyTask.step] at ht
    split at ht
    · next call hjob =>
      cases ht
      have houtcome : w.task.outcome (.ended i how) = callOutcome call how := by
        rw [outcome, hjob]
        rfl
      rw [houtcome]
      refine h.ended_loses hjob fun hends => horder fun job hjob' => ?_
      rw [hjob] at hjob'
      cases hjob'
      exact hends
    · cases ht
  | terminate arg =>
    cases ht
    obtain ⟨hperforming, hstate⟩ := not_or.mp horder
    exact h.displaced hperforming hstate (finalize_state ..)
  | fail error =>
    cases ht
    obtain ⟨hperforming, hstate⟩ := not_or.mp horder
    exact h.displaced hperforming hstate (finalize_state ..)
  | next =>
    simp only [AgencyTask.step] at ht
    unfold AgencyTask.next at ht
    unfold InOrder at horder
    unfold outcome
    cases hcleanups : w.task.cleanups with
    | nil =>
      rw [hcleanups] at ht
      cases ht
    | cons calls cleanups =>
      rw [hcleanups] at ht horder
      cases calls with
      | nil =>
        cases ht
        have hnot : w.task.finalized = false := by simpa using horder
        exact h.unsettled hnot (finalize_state ..) (finalize_result hnot) (fun hx => hx rfl)
          fun _ hr => forcedError_ne (TaskResult.failure.inj hr)
      | cons call calls =>
        cases ht
        cases call with
        | cancel =>
          have hnot : w.task.finalized = false := by simpa using horder
          exact h.unsettled hnot (finalize_state ..) (finalize_result hnot) (fun hx => hx rfl)
            fun _ hr => nomatch hr
        | initiate => exact absurd trivial horder
        | expire => exact absurd trivial horder
        | expired => exact absurd trivial horder

end Inv

end

/-- In a run the state tells of what came first, and it is notified once, throughout if and only
    if all steps are in order. -/
theorem lawful_throughout_iff (f : TaskFactory) (es : List (Event V E)) (w : Watched V E) :
    Run (Guarded (InOrder f) (Defined (Watched.step f))) (Watched.start f) es w ↔
      Run (Ending (Lawful f) (Defined (Watched.step f))) (Watched.start f) es w := by
  refine run_guarded_iff (fun w (h : Inv f w) => h.toLawful) ?_ ?_ (inv_start f)
  · exact fun w e v h horder hstep => h.step horder hstep
  · exact fun w e v h horder hstep => h.step_loses horder hstep

/-- `initiate` fails with a `CancelledError`: the task goes on performing. -/
theorem swallowed_stays_performing : ¬ ∀ (f : TaskFactory) (es : List (Event Nat Nat))
    (w : Watched Nat Nat), Run (Defined (Watched.step f)) (Watched.start f) es w → Lawful f w := by
  intro h
  let f : TaskFactory := ⟨true, none, "task-medium-factory", "agent", "id"⟩
  have hrun : Run (Defined (Watched.step f)) (Watched.start f : Watched Nat Nat)
      [.start 0, .ended 0 (.raised .cancelled)] _ := run_defined rfl
  have hfinished := (h f _ _ hrun).failed rfl
  cases hfinished

end AgencyTask

end Feat.Agencies
