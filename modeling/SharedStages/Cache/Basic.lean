import SharedStages.Cache.Event
import SharedStages.Config
import SharedStages.Store.Operations

/-! Caches: a store with a name, an instance number and an observer. -/

namespace SharedStages

structure Cache (H C : Type) [Ord H] where
  store : Store H C
  name : String
  instanceNumber : Nat
  observer : Observer

namespace Cache

variable {H C : Type} [Ord H] [Std.TransOrd H]

/-- An empty cache that is not observed. -/
def new (instanceNumber : Nat) : Cache H C := ⟨.empty, "", instanceNumber, .noop⟩

/-- An empty cache set up by a configuration, which is checked first. -/
def ofConfig (config : Config) (instanceNumber : Nat) : Except Fault (Cache H C) := do
  config.validate
  return { new instanceNumber with
    name := config.debugName.getD ""
    observer := if config.trace then .tracing else .noop }

def observedBy (c : Cache H C) (observer : Observer) : Cache H C := { c with observer }

/-- The name, or the instance where the name is empty. -/
def label (c : Cache H C) : Label :=
  if c.name = "" then .fallback c.instanceNumber else .named c.name

/-- Sets the name; a name with a control character is refused. -/
def rename (c : Cache H C) (name : String) : Except Fault (Cache H C) := do
  Config.checkName name
  return { c with name }

/-- A cache with the contents, name and observer of `c`; the store was copied for it. -/
def copy (c : Cache H C) (store : Store H C) (instanceNumber : Nat) : Cache H C :=
  { c with store, instanceNumber }

/-- `c` after taking over the contents, name and observer of `source`. -/
def copyFrom (c source : Cache H C) (store : Store H C) : Cache H C :=
  { source with store, instanceNumber := c.instanceNumber }

/-- Contents and names change places; observers and instances stay. -/
def swap (c d : Cache H C) : Cache H C × Cache H C :=
  ({ c with store := d.store, name := d.name }, { d with store := c.store, name := c.name })

/-- The one-line text of a label and a size. -/
def describeWith (g : Text.Glyphs) (u : Uuids) (label : Label) (size : Nat) : String :=
  "StageCache \x7b label: " ++ g.quote (label.textWith u) ++ ", len: " ++ toString size ++ " \x7d"

def describe (label : Label) (size : Nat) : String := describeWith Text.glyphs .numbered label size

omit [Std.TransOrd H] in
@[simp] theorem label_of_name_eq_empty {c : Cache H C} (h : c.name = "") :
    c.label = .fallback c.instanceNumber := by simp [label, h]

omit [Std.TransOrd H] in
@[simp] theorem label_of_name_ne_empty {c : Cache H C} (h : c.name ≠ "") :
    c.label = .named c.name := by simp [label, h]

end Cache

end SharedStages
