import Std.Data.ExtTreeSet
import SharedStages.Fault
import SharedStages.Text.Decimal

/-! Stage ids: signed 64-bit numbers that travel as integers or as decimal text. -/

namespace SharedStages

/-- The number a cache files a stage under. -/
structure StageId where
  value : Int64
  deriving DecidableEq

namespace StageId

instance : Ord StageId := ⟨fun i j => compare i.value j.value⟩

instance : Std.TransOrd StageId where
  eq_swap {i j} := Std.OrientedOrd.eq_swap (a := i.value) (b := j.value)
  isLE_trans {i j k} := Std.TransOrd.isLE_trans (a := i.value) (b := j.value) (c := k.value)

instance : Std.LawfulEqOrd StageId where
  compare_self {i} := Std.ReflOrd.compare_self (a := i.value)
  eq_of_compare {i j} h := by
    have : i.value = j.value := Std.LawfulEqOrd.eq_of_compare h
    cases i; cases j; simp_all

def ofInt (v : Int) : StageId := ⟨Int64.ofInt v⟩

def toInt (i : StageId) : Int := i.value.toInt

/-- The id that stands for no stage. -/
def invalid : StageId := ⟨-1⟩

instance : Inhabited StageId := ⟨invalid⟩

def isValid (i : StageId) : Bool := i ≠ invalid

/-- The id of the `n`-th minting, counted from zero. -/
def ofSerial (n : Nat) : StageId := ofInt (n + 1)

def bounds : Text.Decimal.Bounds := ⟨-9223372036854775808, 9223372036854775807⟩

def text (i : StageId) : String := String.ofList (Text.Decimal.write i.toInt)

/-- Reads a sign and digits that stay within 64 bits. -/
def ofText (s : String) : Except Fault StageId :=
  match Text.Decimal.read bounds s.toList with
  | .ok v => .ok (ofInt v)
  | .error d => .error (.badId s d.text)

def ofText? (s : String) : Option StageId := (ofText s).toOption

/-- Whether `i` comes back from its text and from its integer. -/
def roundTrips (i : StageId) : Bool := ofText? i.text = some i && ofInt i.toInt = i

def sort (is : List StageId) : List StageId := is.mergeSort fun i j => (compare i j).isLE

/-- How many different ids a list holds. -/
def distinct (is : List StageId) : Nat := (Std.ExtTreeSet.ofList is).size

def max? (is : List StageId) : Option StageId := (sort is).getLast?

def min? (is : List StageId) : Option StageId := (sort is).head?

@[simp] theorem ofInt_toInt (i : StageId) : ofInt i.toInt = i := by
  simp [ofInt, toInt]

theorem toInt_ofInt {v : Int} (h : bounds.holds v = true) : (ofInt v).toInt = v := by
  have := Text.Decimal.Bounds.holds_iff.1 h
  simp only [bounds] at this
  exact Int64.toInt_ofInt_of_le (by simpa using this.1) (by omega)

theorem bounds_holds (i : StageId) : bounds.holds i.toInt = true := by
  have h := i.value.le_toInt
  have h' := i.value.toInt_lt
  exact Text.Decimal.Bounds.holds_iff.2 ⟨h, by simp only [bounds, toInt]; omega⟩

end StageId

end SharedStages
