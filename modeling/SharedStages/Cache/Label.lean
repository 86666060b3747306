import SharedStages.Text.Control

/-! What a cache is called in diagnostics. The identifiers of instances are a parameter, so that
what holds of the labels does not hang on how identifiers are made. -/

namespace SharedStages

/-- The text of the identifier that each instance of a cache gets when it is made. -/
structure Uuids where
  text : Nat → String
  distinct : ∀ m n, text m = text n → m = n
  one_line : ∀ n, Text.hasControl (text n) = false

/-- Identifiers that show the number of the instance. -/
def Uuids.numbered : Uuids where
  text n := "<" ++ toString n ++ ">"
  distinct m n h := by
    rw [String.append_left_inj, String.append_right_inj] at h
    exact Text.toString_inj h
  one_line n := by
    have hstart : Text.hasControl "<" = false := by decide
    have hend : Text.hasControl ">" = false := by decide
    exact Text.hasControl_append (Text.hasControl_append hstart (Text.hasControl_toString n)) hend

/-- The name of a cache, or the number of the instance. -/
inductive Label where
  | named (name : String)
  | fallback (instanceNumber : Nat)
  deriving DecidableEq, Repr

namespace Label

def textWith (u : Uuids) : Label → String
  | named name => name
  | fallback n => "stage-cache-" ++ u.text n

def text (l : Label) : String := l.textWith .numbered

theorem fallback_textWith_inj (u : Uuids) {m n : Nat}
    (h : (fallback m).textWith u = (fallback n).textWith u) : m = n :=
  u.distinct m n ((String.append_right_inj _).1 h)

end Label

end SharedStages
