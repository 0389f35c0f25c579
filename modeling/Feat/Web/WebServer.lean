import Mathlib.Tactic.Common
import Feat.Lib.Raising

/- The rendering of a request by the web server (`feat.web.webserver`: `Server._process_request`
   and what it calls).

   The resources that a request can meet are a tree: `locate_resource` answers with one of the
   children, and a resource that answers with itself has a child that behaves as it does. What
   resources, authenticators and authorizers do may depend on all that has been asked before (the
   `log`). They answer at once or through a Deferred (`Call`): a Deferred is followed where it
   is returned, as nothing else acts on a request meanwhile.

   `render_error` answers with the error, with the response or with data, or raises an error of
   its own, one that is reported with an error status. The status it may set, the headers, and
   what is written are left out, as are connections that close before the end of the request. -/
namespace Feat.Web.WebServer

abbrev Path : Type := List String

/-- What is raised. An `HTTPError` has a status, and its subclasses have their own. -/
inductive Exc where
  | notAuthorized (challenge : Option String)
  | notAcceptable
  | notAllowed
  | movedPermanently
  | httpError (status : Nat)
  | unicodeEncode
  | cancelled
  | other
  deriving DecidableEq, Repr

/-- `Status.is_error`. -/
def isError (status : Nat) : Bool := 400 ≤ status

/-- `status_code` of an `HTTPError`. -/
def Exc.statusCode : Exc → Option Nat
  | .notAuthorized _ => some 401
  | .notAcceptable => some 406
  | .notAllowed => some 405
  | .movedPermanently => some 301
  | .httpError status => some status
  | .unicodeEncode | .cancelled | .other => none

/-- The exceptions that are reported with an error status. -/
def Exc.Erroneous : Exc → Prop
  | .notAuthorized challenge => challenge.isSome
  | .httpError status => isError status
  | .movedPermanently | .cancelled => False
  | .notAcceptable | .notAllowed | .unicodeEncode | .other => True

/-- A call of code of the application. -/
inductive Call (ε α : Type) where
  | returns (a : α)
  | raises (e : ε)
  | fires (a : α)
  | fails (e : ε)

/-- What a call comes to. -/
def Call.result {ε α : Type} : Call ε α → Except ε α
  | .returns a | .fires a => .ok a
  | .raises e | .fails e => .error e

/-- What an authenticator answers: None, a challenge with its header, credentials, or something
else. -/
inductive Answer (κ : Type) where
  | nothing
  | challenge (header : String)
  | credentials (c : κ)
  | other

/-- What `locate_resource` answers: no resource, a leaf, a resource with the remaining path, a
resource with a location and the remaining path, or a tuple of another length. -/
inductive Found where
  | nothing
  | leaf (child : Nat)
  | remaining (child : Nat) (rem : Path)
  | relocated (child : Nat) (loc rem : Path)
  | invalid

/-- What `render_error` answers. -/
inductive Shown where
  | error
  | response
  | data

/-- What is asked of the application for a request. -/
inductive Event (κ : Type) where
  | authenticate (resource : String) (credentials : Option κ) (loc : Path)
  | locate (resource : String) (loc rem : Path)
  | authorize (resource : String) (credentials : Option κ) (loc : Path)
  | render (resource : String) (loc : Path)

abbrev Authenticator (κ : Type) : Type :=
  List (Event κ) → Option κ → Path → Call Exc (Answer κ)

abbrev Authorizer (κ : Type) : Type := List (Event κ) → Option κ → Path → Call Exc Bool

/-- A resource, without its children. `render` says too whether the response is written without a
cache from then on. -/
structure Info (κ : Type) where
  name : String
  authenticator : Option (Authenticator κ)
  authorizer : Option (Authorizer κ)
  locate : List (Event κ) → Path → Path → Call Exc Found
  render : List (Event κ) → Path → Bool × Call Exc Unit
  renderError : Exc → Call {e : Exc // e.Erroneous} Shown

/-- A resource with those that it locates, or none. -/
inductive Resource (κ : Type) where
  | missing
  | node (info : Info κ) (child : Nat → Resource κ)

/-- `Server`: its resource, authenticator and authorizer. -/
structure Server (κ : Type) where
  resource : Resource κ
  authenticator : Option (Authenticator κ)
  authorizer : Option (Authorizer κ)

/-- A response, with what was asked for its request. -/
structure Response (κ : Type) where
  log : List (Event κ)
  status : Nat
  started : Bool
  cancelled : Bool

abbrev Action (κ α : Type) : Type := EStateM Exc (Response κ) α

section
variable {κ : Type}

/-- `set_status`, where `can_update_headers`. -/
def setStatus (status : Nat) : Action κ Unit :=
  modify fun r => if r.started then r else { r with status := status }

def record (e : Event κ) : Action κ Unit := modify fun r => { r with log := r.log ++ [e] }

/-! ## Errors -/

/-- `_prepare_error`. -/
def prepareError (exception : Exc) : Action κ (Option Exc) := do
  match exception with
  | .notAuthorized challenge => do
    if challenge.isSome then setStatus 401
    pure (some exception)
  | .notAcceptable => do
    setStatus 406
    pure (some exception)
  | .notAllowed => do
    setStatus 405
    pure (some exception)
  | .movedPermanently => do
    setStatus 301
    pure (if (← get).started then some exception else none)
  | .httpError status => do
    setStatus status
    pure (if isError status then some exception else none)
  | .unicodeEncode => do
    setStatus 406
    pure (some exception)
  | .cancelled => do
    modify fun r => { r with cancelled := true }
    pure none
  | .other => do
    setStatus 500
    pure (some exception)

/-- `_error_rendered`. Data that cannot be written are errors of `render_error`. -/
def errorRendered (shown : Shown) (error : Exc) : Action κ Unit :=
  match shown with
  | .error => throw error
  | .response | .data => pure ()

/-- `_render_error`. -/
def renderError (resource : Info κ) (error : Exc) : Action κ Unit := do
  if (← get).started then pure ()
  else match resource.renderError error with
    | .returns shown | .fires shown => errorRendered shown error
    | .raises e | .fails e => throw e.val

/-- `_process_failure`. -/
def processFailure (resource : Info κ) (failure : Exc) : Action κ Unit := do
  match ← prepareError failure with
  | none => pure ()
  | some error => renderError resource error

/-- The error path of `_process_resource` and `_start_rendering`, at once or through the
Deferred. -/
def handling (resource : Info κ) (a : Action κ Unit) : Action κ Unit :=
  tryCatch a (processFailure resource)

/-- `_emergency_termination`. -/
def emergencyTermination (failure : Exc) : Action κ Unit :=
  match failure with
  | .cancelled => throw failure
  | _ => match failure.statusCode with
    | some code => setStatus code
    | none => pure ()

/-! ## Authentication -/

/-- `_authentication_failed`, which returns the failure of a request that is not authorized. -/
def authenticationFailed (failure : Exc) : Action κ Exc :=
  match failure with
  | .notAuthorized _ => pure failure
  | _ => throw (.httpError 500)

/-- `_got_authentication_result`. -/
def gotAuthenticationResult (newcred : Answer κ) (oldcred : Option κ)
    (continuation : Option κ → Action κ Unit) : Action κ Unit :=
  match newcred with
  | .nothing => continuation oldcred
  | .challenge header => throw (.notAuthorized (some header))
  | .credentials credentials => continuation (some credentials)
  | .other => throw (.httpError 500)

/-- `_authenticate_resource`. -/
def authenticateResource (server : Server κ) (resource : Info κ) (credentials : Option κ)
    (location : Path) (continuation : Option κ → Action κ Unit) : Action κ Unit :=
  match resource.authenticator <|> server.authenticator with
  | none => continuation credentials
  | some authenticate => do
    let log := (← get).log
    record (.authenticate resource.name credentials location)
    match authenticate log credentials location with
    | .fires newcred => gotAuthenticationResult newcred credentials continuation
    | .fails e => do
      let failure ← authenticationFailed e
      throw failure
    | .raises e => do
      -- the failure that is returned is dropped
      let _ ← authenticationFailed e
      continuation credentials
    | .returns newcred => gotAuthenticationResult newcred credentials continuation

/-! ## Rendering -/

/-- `_render_resource`. -/
def renderResource (resource : Info κ) (location : Path) : Action κ Unit := do
  let log := (← get).log
  record (.render resource.name location)
  let (started, call) := resource.render log location
  modify fun r => { r with started := started }
  match call with
  | .returns _ | .fires _ => pure ()
  | .raises e | .fails e => throw e

/-- `_got_authorization`. -/
def gotAuthorization (authorized : Bool) (resource : Info κ) (location : Path) : Action κ Unit :=
  if authorized then renderResource resource location else throw (.httpError 403)

/-- `_authorize_rendering`. -/
def authorizeRendering (server : Server κ) (resource : Info κ) (credentials : Option κ)
    (location : Path) : Action κ Unit :=
  match resource.authorizer <|> server.authorizer with
  | none => renderResource resource location
  | some authorize => do
    let log := (← get).log
    record (.authorize resource.name credentials location)
    match authorize log credentials location with
    | .fires authorized => gotAuthorization authorized resource location
    -- `_authorization_failed`
    | .fails _ => throw (.httpError 500)
    | .raises e => throw e
    | .returns authorized => gotAuthorization authorized resource location

/-- `_start_rendering`. -/
def startRendering (server : Server κ) (resource : Info κ) (credentials : Option κ)
    (location : Path) : Action κ Unit :=
  handling resource (authenticateResource server resource credentials location fun credentials =>
    authorizeRendering server resource credentials location)

/-! ## Location -/

/-- What `_resource_located` goes on with: a child, its location and the remaining path. -/
def resourceLocated (result : Found) (oldLoc oldRem : Path) : Except Exc (Nat × Path × Path) :=
  match result with
  | .nothing => .error (.httpError 404)
  | .leaf child => .ok (child, oldLoc ++ oldRem, [])
  | .remaining child newRem =>
    .ok (child, oldLoc ++ oldRem.take (oldRem.length - newRem.length), newRem)
  | .relocated child newLoc newRem => .ok (child, newLoc, newRem)
  | .invalid => .error (.httpError 500)

/-- `_locate_resource`, up to what `_resource_located` goes on with. -/
def locateResource (resource : Info κ) (location remaining : Path) :
    Action κ (Nat × Path × Path) := do
  let log := (← get).log
  record (.locate resource.name location remaining)
  match resource.locate log location remaining with
  | .returns result | .fires result =>
    match resourceLocated result location remaining with
    | .ok located => pure located
    | .error e => throw e
  | .raises e | .fails e => throw e

/-- `_process_resource`. -/
def processResource (server : Server κ) :
    Resource κ → Option κ → Path → Path → Action κ Unit
  | .missing, _, _, _ => throw (.httpError 404)
  | .node resource child, credentials, location, remaining =>
    handling resource (authenticateResource server resource credentials location
      fun credentials => do
        let located ← locateResource resource location remaining
        -- still not a leaf where a path remains
        if located.2.2 ≠ [] then
          processResource server (child located.1) credentials located.2.1 located.2.2
        else match child located.1 with
          | .missing => throw (.httpError 404)
          | .node leaf _ => startRendering server leaf credentials located.2.1)

/-- The response of a request that was not looked at. -/
def Response.new : Response κ := ⟨[], 200, false, false⟩

/-- `_process_request`. -/
def processRequest (server : Server κ) (credentials : Option κ) (location : Path) :
    Action κ Unit :=
  tryCatch
    (match location with
      | [] => throw (.httpError 400)
      | first :: remaining =>
        if first ≠ "" then throw (.httpError 400)
        else processResource server server.resource credentials [""] remaining)
    emergencyTermination

/-- The response that a request ends with. -/
def response (server : Server κ) (credentials : Option κ) (location : Path) : Response κ :=
  Raising.final (processRequest server credentials location) .new
end

end Feat.Web.WebServer
