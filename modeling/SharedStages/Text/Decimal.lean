/-! Signed decimal numbers within bounds, written and read. Reading reports the leftmost defect:
each character is first a digit or not, and then takes the value out of bounds or not. -/

namespace SharedStages.Text.Decimal

/-- What is wrong with a text that should be a number. -/
inductive Defect where
  | empty
  | invalidDigit
  | tooLarge
  | tooSmall
  deriving DecidableEq, Repr

def Defect.text : Defect → String
  | .empty => "cannot parse integer from empty string"
  | .invalidDigit => "invalid digit found in string"
  | .tooLarge => "number too large to fit in target type"
  | .tooSmall => "number too small to fit in target type"

/-- The integers from `lo` to `hi`. -/
structure Bounds where
  lo : Int
  hi : Int

def Bounds.holds (b : Bounds) (v : Int) : Bool := decide (b.lo ≤ v ∧ v ≤ b.hi)

def digit (c : Char) : Int := (c.toNat : Int) - 48

/-- Reads the digits that follow a sign; `negative` counts downwards, so that the lower bound is
reached exactly. -/
def readDigits (b : Bounds) (negative : Bool) : Int → List Char → Except Defect Int
  | v, [] => .ok v
  | v, c :: s =>
    if c.isDigit then
      let v' := if negative then 10 * v - digit c else 10 * v + digit c
      if b.holds v' then readDigits b negative v' s
      else .error (if negative then .tooSmall else .tooLarge)
    else .error .invalidDigit

/-- At least one digit. -/
def readSome (b : Bounds) (negative : Bool) : List Char → Except Defect Int
  | [] => .error .invalidDigit
  | s => readDigits b negative 0 s

/-- An optional sign, then digits. -/
def read (b : Bounds) : List Char → Except Defect Int
  | [] => .error .empty
  | '+' :: s => readSome b false s
  | '-' :: s => readSome b true s
  | s => readSome b false s

/-- The canonical text: no plus sign and no superfluous zero. -/
def write (v : Int) : List Char :=
  if v < 0 then '-' :: Nat.toDigits 10 v.natAbs else Nat.toDigits 10 v.natAbs

theorem Bounds.holds_iff {b : Bounds} {v : Int} : b.holds v = true ↔ b.lo ≤ v ∧ v ≤ b.hi := by
  simp [holds]

theorem write_of_nonneg {v : Int} (h : 0 ≤ v) : write v = Nat.toDigits 10 v.natAbs := by
  simp [write, Int.not_lt.2 h]

theorem write_of_neg {v : Int} (h : v < 0) : write v = '-' :: Nat.toDigits 10 v.natAbs := by
  simp [write, h]

end SharedStages.Text.Decimal
