import SharedStages.Json.Literal
import SharedStages.Json.Value

/-! Records in JSON: an object with the record's fields among its members, or an array of exactly
the fields in order. -/

namespace SharedStages.Json

/-- The text of a string. -/
def text? : Json → Option String
  | string s => (Literal.decode s).map String.ofList
  | _ => none

def texts? : Json → Option (List String)
  | array vs => vs.mapM text?
  | _ => none

def bool? : Json → Option Bool
  | bool b => some b
  | _ => none

/-- A column that may be missing or null. -/
def optional (read : Json → Option α) : Option Json → Option (Option α)
  | none => some none
  | some null => some none
  | some v => (read v).map some

/-- A column that must be there. -/
def required (read : Json → Option α) : Option Json → Option α
  | none => none
  | some v => read v

/-- The members with their names as text. -/
def named? (ms : List (List Char × Json)) : Option (List (List Char × Json)) :=
  ms.mapM fun m => (Literal.decode m.1).map (·, m.2)

/-- The one member of a name, `some none` where there is none; a name that comes twice is
refused. -/
def column? (ms : List (List Char × Json)) (name : String) : Option (Option Json) :=
  match ms.filter (·.1 = name.toList) with
  | [] => some none
  | [m] => some (some m.2)
  | _ => none

/-- The values of a record's fields, in the order of `names`. Members with other names are
passed over. -/
def columns? (names : List String) : Json → Option (List (Option Json))
  | object ms => (named? ms).bind fun ms => names.mapM (column? ms)
  | array vs => if vs.length = names.length then some (vs.map some) else none
  | _ => none

/-- A text as a JSON string. -/
def ofString (s : String) : Json := string (Literal.encode s.toList)

/-- A record as an object, each field under its name. -/
def ofColumns (columns : List (String × Json)) : Json :=
  object (columns.map fun c => (Literal.encode c.1.toList, c.2))

def ofOption (write : α → Json) : Option α → Json
  | none => null
  | some a => write a

/-- The compact text as a string. -/
def print (v : Json) : String := String.ofList v.text

/-- Reads a whole text. -/
def parse? (s : String) : Option Json := read? s.toList

end SharedStages.Json
