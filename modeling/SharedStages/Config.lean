import SharedStages.Fault

/-! Configuration of a cache: the name it goes by in diagnostics, and whether it is traced. -/

namespace SharedStages

structure Config where
  debugName : Option String
  trace : Bool
  deriving DecidableEq, Repr

namespace Config

/-- No name and no tracing. -/
def default : Config := ⟨none, false⟩

instance : Inhabited Config := ⟨default⟩

def withName (c : Config) (name : String) : Config := { c with debugName := some name }

def withTrace (c : Config) (trace : Bool) : Config := { c with trace }

/-- Refuses a name with a control character; the fault holds the name in escaped form. -/
def checkNameWith (g : Text.Glyphs) (name : String) : Except Fault Unit :=
  if Text.hasControl name then
    .error (.badSetting "debug_name" (g.escape name)
      "debug_name must not contain control characters")
  else .ok ()

def checkName (name : String) : Except Fault Unit := checkNameWith Text.glyphs name

def validate (c : Config) : Except Fault Unit :=
  match c.debugName with
  | some name => checkName name
  | none => .ok ()

/-- The value of an environment variable, if it is set and is UTF-8. -/
def variableText (value : Option ByteArray) : Option String := value.bind String.fromUTF8?

/-- The configuration given by two environment variables. An empty name counts as none, and
`1` and `true` switch tracing on. -/
def ofEnvironment (name trace : Option ByteArray) : Config where
  debugName := (variableText name).filter (· ≠ "")
  trace := match variableText trace with
    | some t => t = "true" || t = "1"
    | none => false

theorem checkName_eq_ok_iff {name : String} :
    checkName name = .ok () ↔ Text.hasControl name = false := by
  cases h : Text.hasControl name <;> simp [checkName, checkNameWith, h]

end Config

end SharedStages
