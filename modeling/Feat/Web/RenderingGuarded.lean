import Feat.Web.WebServer

/- Nothing is rendered by the web server without authentication and authorization.

   `Reaches` and `ReachesLeaf` follow a request through the resources whose authenticators admit
   it, as the documentation of authenticators and authorizers has it; `Admitted` and `Refused` are
   the two ends of its way. `rendering_guarded_iff`: only what is admitted is rendered, and a
   request that is refused is not looked at further and ends with an error, if and only if no
   authenticator raises `NotAuthorizedError` at once and what a request is refused with is reported
   as an error (`Fair`). -/
namespace Feat.Web.WebServer
open Raising

section
variable {κ : Type}

/-! ## The way of a request -/

/-- The credentials that an authenticator admits a request with. -/
def admits (authenticator : Option (Authenticator κ)) (log : List (Event κ))
    (credentials : Option κ) (loc : Path) : Option (Option κ) :=
  match authenticator with
  | none => some credentials
  | some authenticate =>
    match (authenticate log credentials loc).result with
    | .ok .nothing => some credentials
    | .ok (.credentials c) => some (some c)
    | _ => none

/-- What was asked, with the question to an authenticator. -/
def asked (authenticator : Option (Authenticator κ)) (name : String) (log : List (Event κ))
    (credentials : Option κ) (loc : Path) : List (Event κ) :=
  match authenticator with
  | none => log
  | some _ => log ++ [.authenticate name credentials loc]

/-- What the refusal of an authenticator is reported with. One that raises `NotAuthorizedError` at
once is passed over. -/
def refusal (authenticator : Option (Authenticator κ)) (log : List (Event κ))
    (credentials : Option κ) (loc : Path) : Option Exc :=
  match authenticator with
  | none => none
  | some authenticate =>
    match authenticate log credentials loc with
    | .returns (.challenge header) | .fires (.challenge header) =>
      some (.notAuthorized (some header))
    | .fails (.notAuthorized challenge) => some (.notAuthorized challenge)
    | .raises (.notAuthorized _) => none
    | _ => some (.httpError 500)

/-- What an authorizer forbids a request with, if it does not answer a true value. -/
def forbids (authorizer : Option (Authorizer κ)) (log : List (Event κ)) (credentials : Option κ)
    (loc : Path) : Option Exc :=
  match authorizer with
  | none => none
  | some authorize =>
    match authorize log credentials loc with
    | .returns authorized | .fires authorized => if authorized then none else some (.httpError 403)
    | .fails _ => some (.httpError 500)
    | .raises e => some e

/-- What `locate_resource` leads to. -/
def leads (resource : Info κ) (log : List (Event κ)) (loc rem : Path) :
    Except Exc (Nat × Path × Path) :=
  match (resource.locate log loc rem).result with
  | .ok result => resourceLocated result loc rem
  | .error e => .error e

variable (server : Server κ) (credentials : Option κ) (location : Path)

/-- The effective authenticator. -/
def authenticatorOf (resource : Info κ) : Option (Authenticator κ) :=
  resource.authenticator <|> server.authenticator

/-- The effective authorizer. -/
def authorizerOf (resource : Info κ) : Option (Authorizer κ) :=
  resource.authorizer <|> server.authorizer

/-- A request comes to a resource, by way of resources that admitted it. -/
inductive Reaches :
    List (Info κ) → List (Event κ) → Resource κ → Option κ → Path → Path → Prop where
  | root {remaining : Path} (h : location = "" :: remaining) :
      Reaches [] [] server.resource credentials [""] remaining
  | child {way : List (Info κ)} {log : List (Event κ)} {resource : Info κ}
      {child : Nat → Resource κ} {old new : Option κ} {loc rem newLoc newRem : Path} {i : Nat}
      (h : Reaches way log (.node resource child) old loc rem)
      (hadmits : admits (authenticatorOf server resource) log old loc = some new)
      (hleads : leads resource (asked (authenticatorOf server resource) resource.name log old loc)
        loc rem = .ok (i, newLoc, newRem))
      (hrem : newRem ≠ []) :
      Reaches (resource :: way)
        (asked (authenticatorOf server resource) resource.name log old loc ++
          [.locate resource.name loc rem]) (child i) new newLoc newRem

/-- A request comes to the leaf, by way of resources that admitted it. -/
inductive ReachesLeaf : List (Info κ) → List (Event κ) → Info κ → Option κ → Path → Prop where
  | leaf {way : List (Info κ)} {log : List (Event κ)} {resource : Info κ}
      {child grandchild : Nat → Resource κ} {old new : Option κ} {loc rem newLoc : Path} {i : Nat}
      {leaf : Info κ}
      (h : Reaches server credentials location way log (.node resource child) old loc rem)
      (hadmits : admits (authenticatorOf server resource) log old loc = some new)
      (hleads : leads resource (asked (authenticatorOf server resource) resource.name log old loc)
        loc rem = .ok (i, newLoc, []))
      (hleaf : child i = .node leaf grandchild) :
      ReachesLeaf (resource :: way)
        (asked (authenticatorOf server resource) resource.name log old loc ++
          [.locate resource.name loc rem]) leaf new newLoc

/-- The leaf admits the request, and its authorizer answers a true value for the credentials. -/
def Admitted (name : String) (loc : Path) : Prop :=
  ∃ way log leaf old new, ReachesLeaf server credentials location way log leaf old loc ∧
    leaf.name = name ∧ admits (authenticatorOf server leaf) log old loc = some new ∧
    forbids (authorizerOf server leaf)
      (asked (authenticatorOf server leaf) leaf.name log old loc) new loc = none

/-- A resource on the way refuses the request, or the leaf or its authorizer does, after what was
asked until then. The reason is what the refusal is reported with; where an authenticator is passed
over, this is for the authorizer of the leaf to give. -/
inductive Refused : List (Info κ) → List (Event κ) → Option Exc → Prop where
  | passing {way : List (Info κ)} {log : List (Event κ)} {resource : Info κ}
      {child : Nat → Resource κ} {old : Option κ} {loc rem : Path}
      (h : Reaches server credentials location way log (.node resource child) old loc rem)
      (hrefuses : admits (authenticatorOf server resource) log old loc = none) :
      Refused (resource :: way) (asked (authenticatorOf server resource) resource.name log old loc)
        (refusal (authenticatorOf server resource) log old loc)
  | leaf {way : List (Info κ)} {log : List (Event κ)} {leaf : Info κ} {old : Option κ} {loc : Path}
      (h : ReachesLeaf server credentials location way log leaf old loc)
      (hrefuses : admits (authenticatorOf server leaf) log old loc = none) :
      Refused (leaf :: way) (asked (authenticatorOf server leaf) leaf.name log old loc)
        (refusal (authenticatorOf server leaf) log old loc <|>
          forbids (authorizerOf server leaf)
            (asked (authenticatorOf server leaf) leaf.name log old loc) old loc)
  | authorizer {way : List (Info κ)} {log : List (Event κ)} {leaf : Info κ} {old new : Option κ}
      {loc : Path} {e : Exc} (h : ReachesLeaf server credentials location way log leaf old loc)
      (hadmits : admits (authenticatorOf server leaf) log old loc = some new)
      (hforbids : forbids (authorizerOf server leaf)
        (asked (authenticatorOf server leaf) leaf.name log old loc) new loc = some e) :
      Refused (leaf :: way)
        (asked (authenticatorOf server leaf) leaf.name log old loc ++
          [.authorize leaf.name new loc]) (some e)

/-- What is asked after a refusal. -/
def Event.Consults : Event κ → Prop
  | .locate .. | .render .. => False
  | .authenticate .. | .authorize .. => True

/-- Only what is admitted is rendered, and after a refusal nothing is located or rendered, and the
request ends with an error. -/
structure Guarded (r : Response κ) : Prop where
  rendered : ∀ name loc, .render name loc ∈ r.log →
    Admitted server credentials location name loc
  refused : ∀ way log reason, Refused server credentials location way log reason →
    (∃ rest, r.log = log ++ rest ∧ ∀ e ∈ rest, e.Consults) ∧ isError r.status

/-- An error without a challenge is left to the end of the request, or is replaced. -/
def Left : List (Info κ) → Prop
  | [] => True
  | resource :: way =>
    match (resource.renderError (.notAuthorized none)).result with
    | .ok .error => Left way
    | .ok _ => False
    | .error e => way ≠ [] ∨ e.val.statusCode.isSome

/-- What is raised is reported as an error by the resources of the way. -/
def Reported (way : List (Info κ)) (e : Exc) : Prop :=
  e.Erroneous ∨ e = .notAuthorized none ∧ Left way

/-- No refusal is passed over, and the reason is reported as an error. -/
def Fair : Prop :=
  ∀ way log reason, Refused server credentials location way log reason →
    ∃ e, reason = some e ∧ Reported way e
end

/-! ## The calls of the server -/

section
variable {κ : Type} {server : Server κ} {resource : Info κ} {old new : Option κ} {loc : Path}
  {k : Option κ → Action κ Unit} {r : Response κ}

/-- An authenticator admits a request, refuses it, or is passed over. -/
theorem authenticateResource_eq : authenticateResource server resource old loc k r =
    match admits (authenticatorOf server resource) r.log old loc,
      refusal (authenticatorOf server resource) r.log old loc with
    | some new, _ => k new
        { r with log := asked (authenticatorOf server resource) resource.name r.log old loc }
    | none, some e => .error e
        { r with log := asked (authenticatorOf server resource) resource.name r.log old loc }
    | none, none => k old
        { r with log := asked (authenticatorOf server resource) resource.name r.log old loc } := by
  unfold authenticateResource authenticatorOf
  cases resource.authenticator <|> server.authenticator with
  | none => rfl
  | some authenticate =>
    dsimp only
    rw [get_bind, record, modify_bind]
    unfold admits refusal asked
    dsimp only
    cases authenticate r.log old loc with
    | returns answer => cases answer <;> rfl
    | raises e => cases e <;> rfl
    | fires answer => cases answer <;> rfl
    | fails e => cases e <;> rfl

/-- An authorizer admits a request, or forbids it. -/
theorem authorizeRendering_eq : authorizeRendering server resource old loc r =
    match authorizerOf server resource, forbids (authorizerOf server resource) r.log old loc with
    | none, _ => renderResource resource loc r
    | some _, none => renderResource resource loc
        { r with log := r.log ++ [.authorize resource.name old loc] }
    | some _, some e => .error e { r with log := r.log ++ [.authorize resource.name old loc] } := by
  unfold authorizeRendering authorizerOf
  cases resource.authorizer <|> server.authorizer with
  | none => rfl
  | some authorize =>
    dsimp only
    rw [get_bind, record, modify_bind]
    unfold forbids
    dsimp only
    cases authorize r.log old loc with
    | returns authorized => cases authorized <;> rfl
    | raises e => rfl
    | fires authorized => cases authorized <;> rfl
    | fails e => rfl

theorem authorize_forbidden {e : Exc}
    (h : forbids (authorizerOf server resource) r.log old loc = some e) :
    authorizeRendering server resource old loc r =
      .error e { r with log := r.log ++ [.authorize resource.name old loc] } := by
  rw [authorizeRendering_eq, h]
  cases hauth : authorizerOf server resource with
  | none =>
    rw [hauth] at h
    cases h
  | some authorize => rfl

/-- A rendering is recorded, and nothing else is. -/
theorem renderResource_log : (final (renderResource resource loc) r).log =
    r.log ++ [.render resource.name loc] := by
  unfold final renderResource
  rw [get_bind, record, modify_bind]
  dsimp only
  rw [modify_bind]
  cases (resource.render r.log loc).2 <;> rfl

/-- What `locate_resource` leads to. -/
theorem locateResource_eq {rem : Path} : locateResource resource loc rem r =
    match leads resource r.log loc rem with
    | .ok located => .ok located { r with log := r.log ++ [.locate resource.name loc rem] }
    | .error e => .error e { r with log := r.log ++ [.locate resource.name loc rem] } := by
  unfold leads locateResource
  rw [get_bind, record, modify_bind]
  cases resource.locate r.log loc rem with
  | returns result =>
    dsimp only [Call.result]
    cases resourceLocated result loc rem <;> rfl
  | raises e => rfl
  | fires result =>
    dsimp only [Call.result]
    cases resourceLocated result loc rem <;> rfl
  | fails e => rfl
end

/-! ## Errors on the way -/

/-- A program of the last resource, within the error paths of the way and of the request. -/
def within {κ : Type} : List (Info κ) → Action κ Unit → Action κ Unit
  | [], a => tryCatch a emergencyTermination
  | resource :: way, a => within way (handling resource a)

section
variable {κ : Type} {way : List (Info κ)} {resource : Info κ} {a b : Action κ Unit}
  {r t : Response κ} {e : Exc}

theorem within_congr (h : a r = b t) : within way a r = within way b t := by
  induction way generalizing a b with
  | nil => exact tryCatch_congr h
  | cons resource way ih => exact ih (tryCatch_congr h)

/-- The status that an exception is reported with. -/
def reportedStatus (e : Exc) (status : Nat) : Nat :=
  match e with
  | .notAuthorized challenge => if challenge.isSome then 401 else status
  | .notAcceptable | .unicodeEncode => 406
  | .notAllowed => 405
  | .movedPermanently => 301
  | .httpError status => status
  | .cancelled => status
  | .other => 500

/-- An exception that is no error. -/
def Exc.resolved (e : Exc) (started : Bool) : Bool :=
  match e with
  | .movedPermanently => !started
  | .httpError status => !isError status
  | .cancelled => true
  | _ => false

/-- The response after an exception was prepared. -/
def Response.prepared (r : Response κ) (e : Exc) : Response κ :=
  { r with
    status := if r.started then r.status else reportedStatus e r.status
    cancelled := r.cancelled || decide (e = .cancelled) }

theorem prepareError_eq : prepareError e r =
    .ok (if e.resolved r.started then none else some e) (r.prepared e) := by
  obtain ⟨log, status, started, cancelled⟩ := r
  cases e with
  | notAuthorized challenge => cases challenge <;> cases started <;> cases cancelled <;> rfl
  | httpError status =>
    refine (bind_of_ok (t := if started then _ else _) rfl).trans ?_
    show EStateM.Result.ok (if isError status then _ else _) _ =
      EStateM.Result.ok (if !isError status then _ else _) _
    cases isError status <;> cases started <;> cases cancelled <;> rfl
  | _ => cases started <;> cases cancelled <;> rfl

theorem processFailure_eq : processFailure resource e r =
    if e.resolved r.started || r.started then .ok () (r.prepared e)
    else match (resource.renderError e).result with
      | .ok .error => .error e (r.prepared e)
      | .ok _ => .ok () (r.prepared e)
      | .error e' => .error e'.val (r.prepared e) := by
  unfold processFailure
  rw [bind_of_ok prepareError_eq]
  cases e.resolved r.started with
  | true => rfl
  | false =>
    have hstarted : (r.prepared e).started = r.started := rfl
    show renderError resource e (r.prepared e) = _
    unfold renderError
    rw [get_bind, hstarted]
    cases r.started with
    | true => rfl
    | false =>
      simp only [Bool.false_eq_true, if_false, Bool.or_self]
      cases resource.renderError e with
      | returns shown => cases shown <;> rfl
      | raises e' => rfl
      | fires shown => cases shown <;> rfl
      | fails e' => rfl

/-- What is done with an error leaves what was asked as it is. -/
theorem processFailure_log : (final (processFailure resource e) r).log = r.log := by
  unfold final
  rw [processFailure_eq]
  cases e.resolved r.started || r.started with
  | true => rfl
  | false =>
    cases (resource.renderError e).result with
    | ok shown => cases shown <;> rfl
    | error e' => rfl

theorem emergencyTermination_log : (final (emergencyTermination e) r).log = r.log := by
  obtain ⟨log, status, started, cancelled⟩ := r
  cases e <;> cases started <;> rfl

theorem within_log : (final (within way a) r).log = (final a r).log := by
  induction way generalizing a with
  | nil =>
    unfold within final
    cases hout : a r with
    | ok _ t => rw [tryCatch_of_ok hout]
    | error e t =>
      rw [tryCatch_of_error hout]
      exact emergencyTermination_log
  | cons resource way ih =>
    refine ih.trans ?_
    unfold handling final
    cases hout : a r with
    | ok _ t => rw [tryCatch_of_ok hout]
    | error e t =>
      rw [tryCatch_of_error hout]
      exact processFailure_log

theorem within_of_ok (h : a r = .ok () t) : within way a r = .ok () t := by
  induction way generalizing a with
  | nil => exact tryCatch_of_ok h
  | cons resource way ih => exact ih (tryCatch_of_ok h)

/-- The end of a request that something is raised for on its way. -/
theorem within_throw_cons : final (within (resource :: way) (throw e)) r =
    if e.resolved r.started || r.started then r.prepared e
    else match (resource.renderError e).result with
      | .ok .error => final (within way (throw e)) (r.prepared e)
      | .ok _ => r.prepared e
      | .error e' => final (within way (throw e'.val)) (r.prepared e) := by
  have hfailure : handling resource (throw e) r = processFailure resource e r :=
    tryCatch_of_error rfl
  rw [processFailure_eq] at hfailure
  have hends (h : handling resource (throw e) r = .ok () (r.prepared e)) :
      final (within way (handling resource (throw e))) r = r.prepared e := by
    unfold final
    rw [within_of_ok h]
  have hraises {e' : Exc} (h : handling resource (throw e) r = .error e' (r.prepared e)) :
      final (within way (handling resource (throw e))) r =
        final (within way (throw e')) (r.prepared e) := final_of_eq (within_congr h)
  have hwithin :
      within (resource :: way) (throw e) = within way (handling resource (throw e)) := rfl
  rw [hwithin]
  cases hdone : e.resolved r.started || r.started with
  | true =>
    rw [hdone] at hfailure
    exact hends hfailure
  | false =>
    rw [hdone] at hfailure
    cases hresult : (resource.renderError e).result with
    | ok shown =>
      rw [hresult] at hfailure
      cases shown with
      | error => exact hraises hfailure
      | response => exact hends hfailure
      | data => exact hends hfailure
    | error e' =>
      rw [hresult] at hfailure
      exact hraises hfailure

theorem erroneous_status (he : e.Erroneous) (status : Nat) :
    isError (reportedStatus e status) = true := by
  cases e with
  | notAuthorized challenge =>
    cases challenge with
    | none => cases he
    | some header => rfl
  | httpError status => exact he
  | movedPermanently => cases he
  | cancelled => cases he
  | _ => rfl

theorem erroneous_resolved (he : e.Erroneous) (started : Bool) : e.resolved started = false := by
  cases e with
  | httpError status =>
    have he : isError status = true := he
    show (!isError status) = false
    rw [he]
    rfl
  | movedPermanently => cases he
  | cancelled => cases he
  | _ => rfl

/-- An error sets an error status, and so do those that replace it. -/
theorem erroneous_cons (hway : ∀ (e : Exc) (r : Response κ), e.Erroneous → r.started = false →
      isError r.status = true → isError (final (within way (throw e)) r).status = true)
    (he : e.Erroneous) (hstarted : r.started = false) :
    isError (final (within (resource :: way) (throw e)) r).status = true := by
  have hstatus : isError (r.prepared e).status = true := by
    unfold Response.prepared
    rw [hstarted]
    exact erroneous_status he r.status
  rw [within_throw_cons, erroneous_resolved he, hstarted]
  cases (resource.renderError e).result with
  | ok shown =>
    cases shown with
    | error => exact hway e (r.prepared e) he hstarted hstatus
    | response => exact hstatus
    | data => exact hstatus
  | error e' => exact hway e'.val (r.prepared e) e'.property hstarted hstatus

/-- Errors keep an error status. -/
theorem within_erroneous (he : e.Erroneous) (hstarted : r.started = false)
    (hstatus : isError r.status = true) :
    isError (final (within way (throw e)) r).status = true := by
  induction way generalizing e r with
  | nil =>
    obtain ⟨log, status, started, cancelled⟩ := r
    cases (hstarted : started = false)
    cases e with
    | httpError status => exact he
    | movedPermanently => cases he
    | cancelled => cases he
    | unicodeEncode => exact hstatus
    | other => exact hstatus
    | _ => rfl
  | cons resource way ih => exact erroneous_cons (fun _ _ => ih) he hstarted

/-- The last error of a request, where no status was set for it. -/
theorem within_nil_iff (he : e.Erroneous) (hstarted : r.started = false)
    (hstatus : isError r.status = false) :
    isError (final (within [] (throw e)) r).status = true ↔ e.statusCode.isSome = true := by
  obtain ⟨log, status, started, cancelled⟩ := r
  cases (hstarted : started = false)
  have hstatus : isError status = false := hstatus
  have hother : isError status = true ↔ (none : Option Nat).isSome = true := by simp [hstatus]
  cases e with
  | httpError status => exact iff_of_true he rfl
  | movedPermanently => cases he
  | cancelled => cases he
  | unicodeEncode => exact hother
  | other => exact hother
  | _ => exact iff_of_true rfl rfl

/-- An error without a challenge. -/
theorem within_left (hstarted : r.started = false) (hstatus : isError r.status = false) :
    isError (final (within way (throw (.notAuthorized none))) r).status = true ↔ Left way := by
  induction way generalizing r with
  | nil =>
    obtain ⟨log, status, started, cancelled⟩ := r
    cases (hstarted : started = false)
    exact iff_of_true rfl trivial
  | cons resource way ih =>
    have hprepared : (r.prepared (.notAuthorized none)).status = r.status := by
      unfold Response.prepared
      rw [hstarted]
      rfl
    have hkept : isError (r.prepared (.notAuthorized none)).status = false := by
      rw [hprepared]
      exact hstatus
    rw [within_throw_cons, hstarted]
    unfold Left
    show isError (match (resource.renderError (.notAuthorized none)).result with
      | .ok .error => _
      | .ok _ => _
      | .error e' => _ : Response κ).status = true ↔ _
    cases (resource.renderError (.notAuthorized none)).result with
    | ok shown =>
      cases shown with
      | error => exact ih hstarted hkept
      | response => simp [hkept]
      | data => simp [hkept]
    | error e' =>
      cases way with
      | nil =>
        refine (within_nil_iff (r := r.prepared (.notAuthorized none)) e'.property hstarted
          hkept).trans ?_
        simp
      | cons next way =>
        exact iff_of_true (erroneous_cons (fun _ _ => within_erroneous) e'.property hstarted)
          (.inl (List.cons_ne_nil next way))

/-- What is no error ends the request at once. -/
theorem within_resolved (hresolved : e.resolved false = true) (hstarted : r.started = false) :
    (final (within (resource :: way) (throw e)) r).status = reportedStatus e r.status := by
  rw [within_throw_cons, hstarted, hresolved]
  show (if r.started then _ else _) = _
  rw [hstarted]
  rfl

/-- When a request ends with an error. -/
theorem reported_iff (hstarted : r.started = false) (hstatus : isError r.status = false) :
    isError (final (within (resource :: way) (throw e)) r).status = true ↔
      Reported (resource :: way) e := by
  by_cases he : e.Erroneous
  · exact iff_of_true (erroneous_cons (fun _ _ => within_erroneous) he hstarted) (.inl he)
  · have hnone (hresolved : e.resolved false = true)
        (hreported : isError (reportedStatus e r.status) = false) (hne : e ≠ .notAuthorized none) :
        isError (final (within (resource :: way) (throw e)) r).status = true ↔
          Reported (resource :: way) e := by
      rw [within_resolved hresolved hstarted, hreported]
      exact iff_of_false Bool.false_ne_true fun h => h.elim he fun h => hne h.1
    cases e with
    | notAuthorized challenge =>
      cases challenge with
      | none =>
        refine (within_left hstarted hstatus).trans ?_
        exact ⟨fun h => .inr ⟨rfl, h⟩, fun h => (h.resolve_left he).2⟩
      | some header => exact absurd rfl he
    | httpError status =>
      have hstatus : isError status = false := by simpa [Exc.Erroneous] using he
      exact hnone (by simp [Exc.resolved, hstatus]) hstatus (by simp)
    | movedPermanently => exact hnone rfl rfl (by simp)
    | cancelled => exact hnone rfl hstatus (by simp)
    | _ => exact absurd trivial he

end

/-! ## The way of a request, as the server has it -/

section
variable {κ : Type} {server : Server κ} {credentials : Option κ} {location : Path}
  {way : List (Info κ)} {log : List (Event κ)} {resource : Resource κ} {leaf : Info κ}
  {old : Option κ} {loc rem : Path}

/-- What a resource that admitted a request goes on with. -/
def located (server : Server κ) (info : Info κ) (child : Nat → Resource κ) (loc rem : Path)
    (credentials : Option κ) : Action κ Unit := do
  let located ← locateResource info loc rem
  if located.2.2 ≠ [] then
    processResource server (child located.1) credentials located.2.1 located.2.2
  else match child located.1 with
    | .missing => throw (.httpError 404)
    | .node leaf _ => startRendering server leaf credentials located.2.1

theorem processResource_node {info : Info κ} {child : Nat → Resource κ} :
    processResource server (.node info child) old loc rem =
      handling info
        (authenticateResource server info old loc (located server info child loc rem)) := rfl

theorem located_of_ok {info : Info κ} {child : Nat → Resource κ} {i : Nat} {newLoc newRem : Path}
    (hleads : leads info log loc rem = .ok (i, newLoc, newRem)) :
    located server info child loc rem old ⟨log, 200, false, false⟩ =
      (if newRem ≠ [] then processResource server (child i) old newLoc newRem
        else match child i with
          | .missing => throw (.httpError 404)
          | .node leaf _ => startRendering server leaf old newLoc)
      ⟨log ++ [.locate info.name loc rem], 200, false, false⟩ := by
  have hlocate : locateResource info loc rem ⟨log, 200, false, false⟩ =
      .ok (i, newLoc, newRem) ⟨log ++ [.locate info.name loc rem], 200, false, false⟩ := by
    rw [locateResource_eq, hleads]
  exact bind_of_ok hlocate

theorem located_of_error {info : Info κ} {child : Nat → Resource κ} {e : Exc}
    (hleads : leads info log loc rem = .error e) :
    located server info child loc rem old ⟨log, 200, false, false⟩ =
      .error e ⟨log ++ [.locate info.name loc rem], 200, false, false⟩ := by
  have hlocate : locateResource info loc rem ⟨log, 200, false, false⟩ =
      .error e ⟨log ++ [.locate info.name loc rem], 200, false, false⟩ := by
    rw [locateResource_eq, hleads]
  exact bind_of_error hlocate

theorem processRequest_root : processRequest server credentials ("" :: rem) =
    tryCatch (processResource server server.resource credentials [""] rem)
      emergencyTermination := by
  unfold processRequest
  dsimp only
  rw [if_neg (by simp)]

/-- What the request ends with is what the resource it has come to ends with, within its way. -/
theorem Reaches.eq (h : Reaches server credentials location way log resource old loc rem) :
    response server credentials location =
      final (within way (processResource server resource old loc rem))
        ⟨log, 200, false, false⟩ := by
  induction h with
  | root h =>
    cases h
    unfold response
    rw [processRequest_root]
    rfl
  | child h hadmits hleads hrem ih =>
    refine ih.trans (final_of_eq (within_congr (tryCatch_congr ?_)))
    rw [authenticateResource_eq, hadmits]
    refine (located_of_ok hleads).trans ?_
    rw [if_pos hrem]

/-- What the request ends with is what the leaf ends with. -/
theorem ReachesLeaf.eq (h : ReachesLeaf server credentials location way log leaf old loc) :
    response server credentials location =
      final (within way (startRendering server leaf old loc)) ⟨log, 200, false, false⟩ := by
  cases h with
  | leaf h hadmits hleads hleaf =>
    refine h.eq.trans (final_of_eq (within_congr (tryCatch_congr ?_)))
    rw [authenticateResource_eq, hadmits]
    refine (located_of_ok hleads).trans ?_
    rw [hleaf]
    rfl

/-- A request that is refused ends with what is raised for the refusal. -/
theorem Refused.ends {e : Exc} (h : Refused server credentials location way log (some e)) :
    ∃ rest, (∀ x ∈ rest, x.Consults) ∧ response server credentials location =
      final (within way (throw e)) ⟨log ++ rest, 200, false, false⟩ := by
  generalize hreason : some e = reason at h
  cases h with
  | passing h hrefuses =>
    refine ⟨[], by simp, h.eq.trans (final_of_eq (within_congr (tryCatch_congr ?_)))⟩
    rw [authenticateResource_eq, hrefuses, ← hreason, List.append_nil]
    rfl
  | @leaf way log leaf old loc h hrefuses =>
    cases hrefusal : refusal (authenticatorOf server leaf) log old loc with
    | some e' =>
      rw [hrefusal] at hreason
      cases hreason
      refine ⟨[], by simp, h.eq.trans (final_of_eq (within_congr (tryCatch_congr ?_)))⟩
      rw [authenticateResource_eq, hrefuses, hrefusal, List.append_nil]
      rfl
    | none =>
      rw [hrefusal] at hreason
      refine ⟨[.authorize leaf.name old loc], by simp [Event.Consults],
        h.eq.trans (final_of_eq (within_congr (tryCatch_congr ?_)))⟩
      rw [authenticateResource_eq, hrefuses, hrefusal]
      exact authorize_forbidden hreason.symm
  | authorizer h hadmits hforbids =>
    cases hreason
    refine ⟨[], by simp, h.eq.trans (final_of_eq (within_congr (tryCatch_congr ?_)))⟩
    rw [authenticateResource_eq, hadmits, List.append_nil]
    exact authorize_forbidden hforbids

/-! ## What was asked is not forgotten -/

/-- What was asked starts with something. -/
def Response.After (prior : List (Event κ)) (r : Response κ) : Prop := prior <+: r.log

theorem keeps_record {prior : List (Event κ)} (x : Event κ) :
    Keeps (Response.After prior) (record x) :=
  keeps_modify fun _ hr => List.IsPrefix.trans hr (List.prefix_append _ _)

theorem grows_authenticate {prior : List (Event κ)} {info : Info κ} {k : Option κ → Action κ Unit}
    (hk : ∀ c, Keeps (Response.After prior) (k c)) :
    Keeps (Response.After prior) (authenticateResource server info old loc k) := by
  have hgot (newcred : Answer κ) :
      Keeps (Response.After prior) (gotAuthenticationResult newcred old k) := by
    cases newcred with
    | nothing => exact hk old
    | challenge header => exact keeps_throw _
    | credentials c => exact hk (some c)
    | other => exact keeps_throw _
  have hfailed (e : Exc) : Keeps (Response.After prior) (authenticationFailed e) := by
    cases e <;> first | exact keeps_pure _ | exact keeps_throw _
  unfold authenticateResource
  cases info.authenticator <|> server.authenticator with
  | none => exact hk old
  | some authenticate =>
    refine keeps_get.bind fun r => (keeps_record _).bind fun _ => ?_
    cases authenticate r.log old loc with
    | returns newcred => exact hgot newcred
    | raises e => exact (hfailed e).bind fun _ => hk old
    | fires newcred => exact hgot newcred
    | fails e => exact (hfailed e).bind fun _ => keeps_throw _

theorem grows_handling {prior : List (Event κ)} {info : Info κ} {a : Action κ Unit}
    (h : Keeps (Response.After prior) a) : Keeps (Response.After prior) (handling info a) :=
  h.tryCatch fun _ r hr => by
    unfold Response.After
    rw [processFailure_log]
    exact hr

theorem grows_renderResource {prior : List (Event κ)} :
    Keeps (Response.After prior) (renderResource leaf loc) := fun r hr => by
  unfold Response.After
  rw [renderResource_log]
  exact List.IsPrefix.trans hr (List.prefix_append _ _)

theorem grows_startRendering {prior : List (Event κ)} :
    Keeps (Response.After prior) (startRendering server leaf old loc) := by
  refine grows_handling (grows_authenticate fun c => ?_)
  have hgot (authorized : Bool) :
      Keeps (Response.After prior) (gotAuthorization authorized leaf loc) := by
    cases authorized with
    | true => exact grows_renderResource
    | false => exact keeps_throw _
  unfold authorizeRendering
  cases leaf.authorizer <|> server.authorizer with
  | none => exact grows_renderResource
  | some authorize =>
    refine keeps_get.bind fun r => (keeps_record _).bind fun _ => ?_
    cases authorize r.log c loc with
    | returns authorized => exact hgot authorized
    | raises e => exact keeps_throw _
    | fires authorized => exact hgot authorized
    | fails e => exact keeps_throw _

theorem grows_processResource (prior : List (Event κ)) :
    Keeps (Response.After prior) (processResource server resource old loc rem) := by
  induction resource generalizing old loc rem with
  | missing => exact keeps_throw _
  | node info child ih =>
    rw [processResource_node]
    refine grows_handling (grows_authenticate fun c => ?_)
    have hlocate : Keeps (Response.After prior) (locateResource info loc rem) := fun r hr => by
      unfold final
      rw [locateResource_eq]
      cases leads info r.log loc rem <;> exact List.IsPrefix.trans hr (List.prefix_append _ _)
    refine hlocate.bind fun located => ?_
    split
    · exact ih located.1
    · cases child located.1 with
      | missing => exact keeps_throw _
      | node leaf _ => exact grows_startRendering

/-- What is asked for a request that has come to a resource. -/
theorem Reaches.log_eq {info : Info κ} {child : Nat → Resource κ}
    (h : Reaches server credentials location way log (.node info child) old loc rem) :
    (response server credentials location).log =
      (final (authenticateResource server info old loc (located server info child loc rem))
        ⟨log, 200, false, false⟩).log := by
  rw [h.eq]
  exact @within_log _ (info :: way) _ _

theorem ReachesLeaf.log_eq
    (h : ReachesLeaf server credentials location way log leaf old loc) :
    (response server credentials location).log =
      (final (authenticateResource server leaf old loc fun credentials =>
        authorizeRendering server leaf credentials loc) ⟨log, 200, false, false⟩).log := by
  rw [h.eq]
  exact @within_log _ (leaf :: way) _ _

/-- A leaf whose authorizer allows the request is rendered. -/
theorem authorize_allowed (h : forbids (authorizerOf server leaf) log old loc = none) :
    ∃ rest, (∀ x ∈ rest, x.Consults) ∧
      (final (authorizeRendering server leaf old loc) ⟨log, 200, false, false⟩).log =
        log ++ rest ++ [.render leaf.name loc] := by
  cases hauthorizer : authorizerOf server leaf with
  | none =>
    have hgoes : authorizeRendering server leaf old loc ⟨log, 200, false, false⟩ =
        renderResource leaf loc ⟨log, 200, false, false⟩ := by
      rw [authorizeRendering_eq, hauthorizer]
    refine ⟨[], by simp, ?_⟩
    rw [final_of_eq (b := renderResource leaf loc) hgoes, renderResource_log, List.append_nil]
  | some authorize =>
    have hgoes : authorizeRendering server leaf old loc ⟨log, 200, false, false⟩ =
        renderResource leaf loc ⟨log ++ [.authorize leaf.name old loc], 200, false, false⟩ := by
      rw [authorizeRendering_eq, h, hauthorizer]
    refine ⟨[.authorize leaf.name old loc], by simp [Event.Consults], ?_⟩
    rw [final_of_eq (b := renderResource leaf loc) hgoes, renderResource_log]

/-- A resource that is located is asked for. -/
theorem located_after {info : Info κ} {child : Nat → Resource κ} :
    (final (located server info child loc rem old) ⟨log, 200, false, false⟩).After
      (log ++ [.locate info.name loc rem]) := by
  cases hleads : leads info log loc rem with
  | ok next =>
    obtain ⟨i, newLoc, newRem⟩ := next
    rw [final_of_eq (located_of_ok hleads)]
    split
    · exact grows_processResource _ _ (List.prefix_refl _)
    · cases child i with
      | missing => exact List.prefix_refl _
      | node leaf _ => exact grows_startRendering _ (List.prefix_refl _)
  | error e =>
    unfold final
    rw [located_of_error hleads]
    exact List.prefix_refl _

/-- A refusal that is passed over goes on. -/
theorem Refused.passed (h : Refused server credentials location way log none) :
    ∃ rest, (response server credentials location).log = log ++ rest ∧
      ∃ x ∈ rest, ¬ x.Consults := by
  generalize hreason : none = reason at h
  cases h with
  | @passing way log info child old loc rem h hrefuses =>
    have hgoes : authenticateResource server info old loc (located server info child loc rem)
        ⟨log, 200, false, false⟩ = located server info child loc rem old
          ⟨asked (authenticatorOf server info) info.name log old loc, 200, false, false⟩ := by
      rw [authenticateResource_eq, hrefuses, ← hreason]
    have hafter : (final (located server info child loc rem old)
        ⟨asked (authenticatorOf server info) info.name log old loc, 200, false, false⟩).After
          (asked (authenticatorOf server info) info.name log old loc ++
            [.locate info.name loc rem]) := located_after
    obtain ⟨more, hmore⟩ := hafter
    refine ⟨.locate info.name loc rem :: more, ?_, _, List.mem_cons_self, id⟩
    rw [h.log_eq, final_of_eq hgoes, ← hmore, List.append_assoc]
    rfl
  | @leaf way log leaf old loc h hrefuses =>
    cases hrefusal : refusal (authenticatorOf server leaf) log old loc with
    | some e =>
      rw [hrefusal] at hreason
      cases hreason
    | none =>
      rw [hrefusal] at hreason
      have hgoes : authenticateResource server leaf old loc
          (fun credentials => authorizeRendering server leaf credentials loc)
          ⟨log, 200, false, false⟩ = authorizeRendering server leaf old loc
            ⟨asked (authenticatorOf server leaf) leaf.name log old loc, 200, false, false⟩ := by
        rw [authenticateResource_eq, hrefuses, hrefusal]
      have hallowed : forbids (authorizerOf server leaf)
          (asked (authenticatorOf server leaf) leaf.name log old loc) old loc = none :=
        hreason.symm
      obtain ⟨rest, -, hrest⟩ := authorize_allowed hallowed
      refine ⟨rest ++ [.render leaf.name loc], ?_, _,
        List.mem_append_right _ List.mem_cons_self, id⟩
      rw [h.log_eq, final_of_eq hgoes, hrest, List.append_assoc]
  | authorizer h hadmits hforbids => cases hreason

/-- What was asked for a request that is refused. -/
theorem Refused.log_eq {e : Exc} (h : Refused server credentials location way log (some e)) :
    ∃ rest, (∀ x ∈ rest, x.Consults) ∧
      (response server credentials location).log = log ++ rest := by
  obtain ⟨rest, hrest, hends⟩ := h.ends
  refine ⟨rest, hrest, ?_⟩
  rw [hends, within_log]
  rfl

/-- Nothing was rendered. -/
def Unrendered (log : List (Event κ)) : Prop := ∀ name loc, .render name loc ∉ log

theorem Unrendered.append (h : Unrendered log) {rest : List (Event κ)}
    (hrest : ∀ name loc, .render name loc ∉ rest) : Unrendered (log ++ rest) := fun name loc hmem =>
  (List.mem_append.mp hmem).elim (h name loc) (hrest name loc)

theorem Unrendered.asked (h : Unrendered log) (authenticator : Option (Authenticator κ))
    (name : String) : Unrendered (asked authenticator name log old loc) := by
  unfold WebServer.asked
  split
  · exact h
  · exact h.append (by simp)

theorem Refused.unrendered {reason : Option Exc} (hfair : Fair server credentials location)
    (h : Refused server credentials location way log reason) (hlog : Unrendered log) :
    Unrendered (response server credentials location).log := by
  obtain ⟨e, rfl, -⟩ := hfair way log reason h
  obtain ⟨rest, hrest, heq⟩ := h.log_eq
  rw [heq]
  exact hlog.append fun name loc hmem => hrest _ hmem

/-- What is rendered for a request that has come to the leaf is admitted. -/
theorem ReachesLeaf.admitted (hfair : Fair server credentials location)
    (h : ReachesLeaf server credentials location way log leaf old loc) (hlog : Unrendered log)
    {name : String} {place : Path}
    (hmem : .render name place ∈ (response server credentials location).log) :
    Admitted server credentials location name place := by
  cases hadmits : admits (authenticatorOf server leaf) log old loc with
  | none =>
    have hrefused := Refused.leaf h hadmits
    exact absurd hmem (hrefused.unrendered hfair (hlog.asked _ _) name place)
  | some new =>
    cases hforbids : forbids (authorizerOf server leaf)
        (asked (authenticatorOf server leaf) leaf.name log old loc) new loc with
    | some e =>
      have hrefused := Refused.authorizer h hadmits hforbids
      exact absurd hmem (hrefused.unrendered hfair ((hlog.asked _ _).append (by simp)) name place)
    | none =>
      have hgoes : authenticateResource server leaf old loc
          (fun credentials => authorizeRendering server leaf credentials loc)
          ⟨log, 200, false, false⟩ = authorizeRendering server leaf new loc
            ⟨asked (authenticatorOf server leaf) leaf.name log old loc, 200, false, false⟩ := by
        rw [authenticateResource_eq, hadmits]
      obtain ⟨rest, hrest, hlast⟩ := authorize_allowed hforbids
      rw [h.log_eq, final_of_eq hgoes, hlast] at hmem
      rcases List.mem_append.mp hmem with hmem | hmem
      · have hnot :
            Unrendered (asked (authenticatorOf server leaf) leaf.name log old loc ++ rest) :=
          (hlog.asked _ _).append fun name loc hmem => hrest _ hmem
        exact absurd hmem (hnot name place)
      · cases List.mem_singleton.mp hmem
        exact ⟨way, log, leaf, old, new, h, rfl, hadmits, hforbids⟩

/-- What is rendered for a request that has come to a resource is admitted. -/
theorem Reaches.admitted (hfair : Fair server credentials location)
    (h : Reaches server credentials location way log resource old loc rem) (hlog : Unrendered log)
    {name : String} {place : Path}
    (hmem : .render name place ∈ (response server credentials location).log) :
    Admitted server credentials location name place := by
  induction resource generalizing way log old loc rem with
  | missing =>
    rw [h.eq, within_log] at hmem
    exact absurd hmem (hlog name place)
  | node info child ih =>
    cases hadmits : admits (authenticatorOf server info) log old loc with
    | none =>
      have hrefused := Refused.passing h hadmits
      exact absurd hmem (hrefused.unrendered hfair (hlog.asked _ _) name place)
    | some new =>
      have hnext : Unrendered (asked (authenticatorOf server info) info.name log old loc ++
          [.locate info.name loc rem]) := (hlog.asked _ _).append (by simp)
      cases hleads : leads info (asked (authenticatorOf server info) info.name log old loc)
          loc rem with
      | ok next =>
        obtain ⟨i, newLoc, newRem⟩ := next
        by_cases hrem : newRem = []
        · subst hrem
          cases hleaf : child i with
          | missing =>
            have hgoes : authenticateResource server info old loc
                (located server info child loc rem) ⟨log, 200, false, false⟩ =
                .error (.httpError 404)
                ⟨asked (authenticatorOf server info) info.name log old loc ++
                  [.locate info.name loc rem], 200, false, false⟩ := by
              rw [authenticateResource_eq, hadmits]
              refine (located_of_ok hleads).trans ?_
              rw [hleaf]
              rfl
            rw [h.log_eq] at hmem
            unfold final at hmem
            rw [hgoes] at hmem
            exact absurd hmem (hnext name place)
          | node leaf grandchild =>
            exact (ReachesLeaf.leaf h hadmits hleads hleaf).admitted hfair hnext hmem
        · exact ih i (.child h hadmits hleads hrem) hnext
      | error e =>
        have hgoes : authenticateResource server info old loc (located server info child loc rem)
            ⟨log, 200, false, false⟩ = .error e
              ⟨asked (authenticatorOf server info) info.name log old loc ++
                [.locate info.name loc rem], 200, false, false⟩ := by
          rw [authenticateResource_eq, hadmits]
          exact located_of_error hleads
        rw [h.log_eq] at hmem
        unfold final at hmem
        rw [hgoes] at hmem
        exact absurd hmem (hnext name place)

theorem Refused.way_cons {reason : Option Exc}
    (h : Refused server credentials location way log reason) :
    ∃ info passed, way = info :: passed := by
  cases h <;> exact ⟨_, _, rfl⟩

/-- The status of a request that is refused. -/
theorem Refused.status_iff {e : Exc} (h : Refused server credentials location way log (some e)) :
    isError (response server credentials location).status = true ↔ Reported way e := by
  obtain ⟨rest, -, hends⟩ := h.ends
  obtain ⟨info, passed, rfl⟩ := h.way_cons
  rw [hends]
  exact reported_iff rfl rfl

/-- A request for no path is not looked at. -/
theorem log_of_no_root (h : ∀ rem, location ≠ "" :: rem) :
    (response server credentials location).log = [] := by
  have hbad : processRequest server credentials location = tryCatch (throw (.httpError 400))
      emergencyTermination := by
    unfold processRequest
    cases location with
    | nil => rfl
    | cons first rem =>
      have hfirst : first ≠ "" := fun heq => h rem (by rw [heq])
      dsimp only
      rw [if_pos hfirst]
  unfold response
  rw [hbad]
  rfl
end

/-- Only requests that authenticators and authorizers admit are rendered, and the others are not
looked at after the refusal and end with an error, if and only if no authenticator raises
`NotAuthorizedError` at once and refusals are reported as errors. -/
theorem rendering_guarded_iff {κ : Type} (server : Server κ) (credentials : Option κ)
    (location : Path) :
    Guarded server credentials location (response server credentials location) ↔
      Fair server credentials location := by
  constructor
  · intro h way log reason hrefused
    obtain ⟨⟨rest, hlog, hrest⟩, hstatus⟩ := h.refused way log reason hrefused
    cases reason with
    | none =>
      obtain ⟨rest', hlog', x, hx, hnot⟩ := hrefused.passed
      rw [hlog'] at hlog
      exact absurd (hrest x (List.append_cancel_left hlog ▸ hx)) hnot
    | some e => exact ⟨e, rfl, hrefused.status_iff.mp hstatus⟩
  · intro hfair
    refine ⟨fun name loc hmem => ?_, fun way log reason hrefused => ?_⟩
    · by_cases hroot : ∃ rem, location = "" :: rem
      · obtain ⟨rem, rfl⟩ := hroot
        exact (Reaches.root rfl).admitted hfair (fun _ _ hin => (nomatch hin)) hmem
      · rw [log_of_no_root fun rem heq => hroot ⟨rem, heq⟩] at hmem
        cases hmem
    · obtain ⟨e, rfl, hreported⟩ := hfair way log reason hrefused
      obtain ⟨rest, hrest, hlog⟩ := hrefused.log_eq
      exact ⟨⟨rest, hlog, hrest⟩, hrefused.status_iff.mpr hreported⟩

/-- A resource that answers with its child. -/
def openResource (name : String) : Info Unit where
  name := name
  authenticator := none
  authorizer := none
  locate _ _ _ := .returns (.leaf 0)
  render _ _ := (false, .returns ())
  renderError _ := .returns .error

/-- A server with a leaf whose authenticator raises `NotAuthorizedError` at once. -/
def raisingServer : Server Unit where
  resource := .node (openResource "root") fun _ => .node { openResource "secret" with
    authenticator := some fun _ _ _ => .raises (.notAuthorized none) } fun _ => .missing
  authenticator := none
  authorizer := none

/-- The leaf is rendered, although its authenticator has refused the request. -/
theorem renders_refused :
    .render "secret" ["", "secret"] ∈ (response raisingServer none ["", "secret"]).log ∧
      ¬ Guarded raisingServer none ["", "secret"] (response raisingServer none ["", "secret"]) := by
  have hroot : Reaches raisingServer none ["", "secret"] [] [] raisingServer.resource none [""]
      ["secret"] := .root rfl
  have hleaf := ReachesLeaf.leaf hroot rfl rfl rfl
  have hrefused : Refused raisingServer none ["", "secret"] _ _ none := .leaf hleaf rfl
  constructor
  · rw [hleaf.log_eq]
    exact List.mem_append_right _ List.mem_cons_self
  · intro h
    obtain ⟨⟨rest, hlog, hrest⟩, -⟩ := h.refused _ _ _ hrefused
    obtain ⟨rest', hlog', x, hx, hnot⟩ := hrefused.passed
    rw [hlog'] at hlog
    exact hnot (hrest x (List.append_cancel_left hlog ▸ hx))

end Feat.Web.WebServer
