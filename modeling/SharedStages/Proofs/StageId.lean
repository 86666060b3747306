import SharedStages.Proofs.Text.Decimal
import SharedStages.StageId

/-! The texts of ids. Read are the numerals that fit into 64 bits; of every other text, the fault
names the leftmost problem. -/

namespace SharedStages.StageId

open Text.Decimal

theorem bounds_zero : bounds.holds 0 = true := by decide

/-- A text is read if its number is, and a number within bounds is the one of the id. -/
theorem ofText_eq_ok_iff {s : String} {i : StageId} :
    ofText s = .ok i ↔ read bounds s.toList = .ok i.toInt := by
  unfold ofText
  cases h : read bounds s.toList with
  | error d => simp
  | ok v =>
    have hv := toInt_ofInt ((read_eq_ok_iff bounds_zero).1 h).2
    simp only [Except.ok.injEq]
    constructor
    · rintro rfl
      exact hv.symm
    · rintro rfl
      exact ofInt_toInt i

theorem ofText_eq_error_iff {s : String} {f : Fault} :
    ofText s = .error f ↔ ∃ d, read bounds s.toList = .error d ∧ f = .badId s d.text := by
  unfold ofText
  cases read bounds s.toList with
  | ok v => simp
  | error d => simp [eq_comm]

/-- An id is read from a text exactly if the text is a numeral, that is one sign at most and then
digits, however many, whose value is the id and fits into 64 bits. -/
theorem ofText_reads_numerals (s : String) (v : ℤ) :
    (∃ i, ofText s = .ok i ∧ i.toInt = v) ↔
      IsNumeral s.toList v ∧ -2 ^ 63 ≤ v ∧ v ≤ 2 ^ 63 - 1 := by
  have hbounds : bounds.holds v = true ↔ -2 ^ 63 ≤ v ∧ v ≤ 2 ^ 63 - 1 := Bounds.holds_iff
  rw [← hbounds, ← read_eq_ok_iff bounds_zero]
  constructor
  · rintro ⟨i, hi, rfl⟩
    exact ofText_eq_ok_iff.1 hi
  · intro h
    have hv := toInt_ofInt ((read_eq_ok_iff bounds_zero).1 h).2
    refine ⟨ofInt v, ?_, hv⟩
    rwa [ofText_eq_ok_iff, hv]

/-- The lowest id, with more zeros in front than it has digits. -/
example : (ofText "-00000000000000000000009223372036854775808").map toInt = .ok (-2 ^ 63) := by
  decide

/-- The fault of a text that is not read holds the text, and its reason is that of the leftmost
problem. The text is empty; or digits in front, a sign apart, are out of bounds, below or above them
as the sign has it, whatever follows; or else there is a character that is no digit, or no digit at
all. A text with such digits in front is never read. -/
theorem ofText_rejects_leftmost (s : String) :
    (∀ f, ofText s = .error f → ∃ reason, f = .badId s reason ∧
      (reason = "cannot parse integer from empty string" ↔ s = "") ∧
      (reason = "number too small to fit in target type" ↔
        s.toList.head? = some '-' ∧ Overflows bounds s.toList) ∧
      (reason = "number too large to fit in target type" ↔
        s.toList.head? ≠ some '-' ∧ Overflows bounds s.toList) ∧
      (reason = "invalid digit found in string" ↔ s ≠ "" ∧ ¬ Overflows bounds s.toList)) ∧
    (Overflows bounds s.toList → ∃ f, ofText s = .error f) := by
  constructor
  · intro f hf
    obtain ⟨d, hd, rfl⟩ := ofText_eq_error_iff.1 hf
    obtain ⟨hempty, hsmall, hlarge, hinvalid⟩ := defect_iff bounds_zero hd
    rw [← Defect.text_inj] at hempty hsmall hlarge hinvalid
    have hnil : s.toList = [] ↔ s = "" := String.toList_eq_nil_iff
    rw [isNegative, decide_eq_true_iff] at hsmall
    rw [isNegative, decide_eq_false_iff_not] at hlarge
    rw [hnil] at hempty
    rw [Ne, hnil] at hinvalid
    exact ⟨d.text, rfl, hempty, hsmall, hlarge, hinvalid⟩
  · intro ho
    exact ⟨_, ofText_eq_error_iff.2 ⟨_, read_of_overflows bounds_zero ho, rfl⟩⟩

/-- Twenty digits are too large before the letter after them is looked at. -/
theorem ofText_rejects_leftmost_overflow :
    ofText "99999999999999999999x" =
      .error (.badId "99999999999999999999x" "number too large to fit in target type") ∧
    Overflows bounds "99999999999999999999x".toList := by
  have hf : ofText "99999999999999999999x" =
      .error (.badId "99999999999999999999x" "number too large to fit in target type") := by decide
  obtain ⟨reason, hreason, -, -, hlarge, -⟩ := (ofText_rejects_leftmost _).1 _ hf
  cases hreason
  exact ⟨hf, (hlarge.1 rfl).2⟩

end SharedStages.StageId
