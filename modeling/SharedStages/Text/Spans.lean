/-! Sets of code points given as inclusive spans in ascending order. -/

namespace SharedStages.Text

/-- The inclusive spans of a set of code points, the lowest first. -/
abbrev Spans := List (Nat × Nat)

namespace Spans

/-- Membership; the search ends at the first span that lies above `n`. -/
def holds : Spans → Nat → Bool
  | [], _ => false
  | (lo, hi) :: rest, n => if n < lo then false else n ≤ hi || holds rest n

theorem holds_cons_of_mem {lo hi n : Nat} (rest : Spans) (hlo : lo ≤ n) (hhi : n ≤ hi) :
    holds ((lo, hi) :: rest) n = true := by
  simp [holds, Nat.not_lt.2 hlo, hhi]

theorem holds_cons_of_lt {lo hi n : Nat} (rest : Spans) (hlo : lo ≤ n) (hhi : hi < n) :
    holds ((lo, hi) :: rest) n = holds rest n := by
  simp [holds, Nat.not_lt.2 hlo, Nat.not_le.2 hhi]

end Spans

end SharedStages.Text
