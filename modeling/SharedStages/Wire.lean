import SharedStages.Config
import SharedStages.Json.Record
import SharedStages.Key
import SharedStages.StageId

/-! The JSON forms of ids, keys and configurations. -/

namespace SharedStages

namespace StageId

def toJson (i : StageId) : Json := .number (Text.Decimal.write i.toInt)

/-- A bare integer within 64 bits. Negative zero is no integer. -/
def ofJson? : Json → Option StageId
  | .number s => if s = ['-', '0'] then none else ofText? (String.ofList s)
  | _ => none

def json (i : StageId) : String := i.toJson.print

def parseJson? (s : String) : Option StageId := (Json.parse? s).bind ofJson?

end StageId

namespace Key

def columns : List String := ["root", "session", "context"]

def toJson (k : Key String (List String)) : Json :=
  Json.ofColumns [("root", Json.ofString k.root),
    ("session", Json.ofOption Json.ofString k.session),
    ("context", .array (k.context.map Json.ofString))]

def ofColumns? : List (Option Json) → Option (Key String (List String))
  | [root, session, context] => do
    let root ← Json.required Json.text? root
    let session ← Json.optional Json.text? session
    let context ← Json.required Json.texts? context
    return ⟨root, session, context⟩
  | _ => none

def ofJson? (v : Json) : Option (Key String (List String)) :=
  (v.columns? columns).bind ofColumns?

def json (k : Key String (List String)) : String := k.toJson.print

def parseJson? (s : String) : Option (Key String (List String)) := (Json.parse? s).bind ofJson?

end Key

namespace Config

def columns : List String := ["debug_name", "trace"]

def toJson (c : Config) : Json :=
  Json.ofColumns [("debug_name", Json.ofOption Json.ofString c.debugName), ("trace", .bool c.trace)]

def ofColumns? : List (Option Json) → Option Config
  | [name, trace] => do
    let name ← Json.optional Json.text? name
    let trace ← Json.required Json.bool? trace
    return ⟨name, trace⟩
  | _ => none

def ofJson? (v : Json) : Option Config := (v.columns? columns).bind ofColumns?

def json (c : Config) : String := c.toJson.print

def parseJson? (s : String) : Option Config := (Json.parse? s).bind ofJson?

end Config

end SharedStages
