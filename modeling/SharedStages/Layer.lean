import Std.Data.ExtTreeSet

/-! Handles of layers. A layer is known by its name, and handles are compared and hashed by name;
but each handle that was made by itself has a trigger of its own, which its copies share. -/

namespace SharedStages

/-- A handle of a layer. The serial tells the handles made for one name apart, and is no part of
what they are compared by. -/
structure Layer (H : Type) where
  name : H
  serial : Nat
  deriving DecidableEq, Repr

namespace Layer

variable {H : Type} [Ord H]

/-- The order of triggers. -/
instance : Ord (Layer H) := ⟨compareLex (compareOn name) (compareOn serial)⟩

instance [Std.TransOrd H] : Std.TransOrd (Layer H) :=
  inferInstanceAs (Std.TransCmp (compareLex (compareOn name) (compareOn serial)))

instance [Std.LawfulEqOrd H] : Std.LawfulEqOrd (Layer H) where
  compare_self {l} := by
    change compareLex (compareOn name) (compareOn serial) l l = .eq
    simp [compareLex_eq_eq, compareOn]
  eq_of_compare {l m} h := by
    obtain ⟨hname, hserial⟩ := compareLex_eq_eq.1 h
    cases l
    cases m
    cases Std.LawfulEqOrd.eq_of_compare hname
    cases Std.LawfulEqOrd.eq_of_compare hserial
    rfl

/-- The handle of those who all use the same one. -/
def shared {H : Type} (name : H) : Layer H := ⟨name, 0⟩

end Layer

end SharedStages
