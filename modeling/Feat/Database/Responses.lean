import Mathlib.Data.List.Infix
import Mathlib.Order.Basic

/- Responses of the database server and their parsers (`feat.database.driver`:
   `apply_parsers`, `parse_response`, `parse_binary`, `parse_view_result`).

   A parser takes a response, or what the parser before it made of one, and gives a
   value or a failure. It may also raise, which is `none` here: the caller of
   `apply_parsers` gets the exception. `parse_view_result` raises on JSON that does
   not look like the rows of a view.

   The results of a caller's own parser are written as JSON too. `loads` stands for
   `json.loads`, `repr` for the way a value is shown in a message. -/
namespace Feat.Database.Driver

inductive Json where
  | null
  | bool (b : Bool)
  | num (n : Int)
  | str (s : String)
  | arr (items : List Json)
  | obj (fields : List (String × Json))

namespace Json

/-- `key in j`. -/
def contains (key : String) : Json → Option Bool
  | .obj fields => some (fields.any (·.1 = key))
  | .arr items => some (items.any fun | .str s => s = key | _ => false)
  | .str s => some (decide (key.toList <:+: s.toList))
  | _ => none

/-- `j[key]`. -/
def getItem (key : String) : Json → Option Json
  | .obj fields => (fields.find? (·.1 = key)).map Prod.snd
  | _ => none

/-- What a loop over `j` runs over. -/
def iter : Json → Option (List Json)
  | .arr items => some items
  | .obj fields => some (fields.map fun f => .str f.1)
  | .str s => some (s.toList.map fun c => .str (String.singleton c))
  | _ => none

end Json

/-- The failures a request can end with. -/
inductive Failure where
  | notFound (msg : String)
  | conflict (msg : String)
  | database (msg : String)
  -- the connection was refused, lost, timed out
  | transport (cause : String)
  deriving DecidableEq

/-- What a Deferred is fired with. -/
inductive Outcome where
  | value (j : Json)
  | failure (f : Failure)

/-- A response of the server. -/
structure Http where
  status : Nat
  statusName : String
  etag : Option String
  contentType : Option String
  body : String
  deriving DecidableEq

/-- `response.headers.get('etag')`, when it counts as true. -/
def Http.entityTag (r : Http) : Option String := r.etag.filter (· ≠ "")

/-- A parser that takes what another one returned. -/
abbrev Parser := Json → String → Option Outcome

/-- A tuple of parsers: the first takes the response. -/
structure Parsers where
  first : Http → String → Option Outcome
  rest : List Parser

/-- The parsers after the first, until one fails. -/
def applyRest (tag : String) : List Parser → Outcome → Option Outcome
  | _, .failure f => some (.failure f)
  | [], .value j => some (.value j)
  | parser :: parsers, .value j => (parser j tag).bind (applyRest tag parsers)

/-- `apply_parsers`. -/
def applyParsers (response : Http) (parsers : Parsers) (tag : String) : Option Outcome :=
  (parsers.first response tag).bind (applyRest tag parsers.rest)

/-- The message of an error status. -/
def statusMessage (response : Http) (tag : String) : String :=
  tag ++ " gave " ++ response.statusName ++ " status with body: " ++ response.body

section
variable (loads : String → Option Json)

/-- `parse_response`. -/
def parseResponse (response : Http) (tag : String) : Option Outcome :=
  if response.status < 300 then
    if response.contentType = some "application/json" then
      match loads response.body with
      | some j => some (.value j)
      | none => some (.failure (.database "Json parse error"))
    else some (.value (.str response.body))
  else if response.status = 404 then some (.failure (.notFound (statusMessage response tag)))
  else if response.status = 409 then some (.failure (.conflict (statusMessage response tag)))
  else some (.failure (.database (statusMessage response tag)))

end

/-- `parse_binary`. -/
def parseBinary (response : Http) (tag : String) : Option Outcome :=
  if response.status < 300 then some (.value (.str response.body))
  else if response.status = 404 then some (.failure (.notFound (statusMessage response tag)))
  else some (.failure (.database (statusMessage response tag)))

/-- One row of a view: a tuple. -/
def parseRow (row : Json) : Option Json := do
  if ← row.contains "id" then
    if ← row.contains "doc" then
      return .arr [← row.getItem "key", ← row.getItem "value", ← row.getItem "id", ← row.getItem "doc"]
    else return .arr [← row.getItem "key", ← row.getItem "value", ← row.getItem "id"]
  else return .arr [← row.getItem "key", ← row.getItem "value"]

/-- `parse_view_result`. -/
def parseViewResult (repr : Json → String) : Parser := fun resp _ => do
  if ← resp.contains "rows" then
    let rows ← (← resp.getItem "rows").iter
    return .value (.arr (← rows.mapM parseRow))
  else
    return .failure (.database ("The response didn't have the \"rows\" key.\n" ++ repr resp))

end Feat.Database.Driver
