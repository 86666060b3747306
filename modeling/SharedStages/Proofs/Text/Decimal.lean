import Mathlib.Data.List.Induction
import Mathlib.Data.List.TakeWhile
import Mathlib.Data.Nat.Digits.Defs
import Mathlib.Tactic.SplitIfs
import SharedStages.Text.Decimal

/-! Signed decimal numbers, told without a reader: which texts are numerals, and what their value
is. A digit more never brings a value nearer to zero. So the reader, which checks the bounds digit
by digit, reports an overflow exactly if the digits in front are out of bounds as a whole. -/

namespace SharedStages.Text.Decimal

/-- An ASCII digit. -/
def IsDigit (c : Char) : Prop := '0' ≤ c ∧ c ≤ '9'

/-- The number that digits stand for, the first digit the highest. -/
def magnitude (ds : List Char) : ℕ := Nat.ofDigits 10 (ds.reverse.map fun c => c.toNat - '0'.toNat)

/-- The value of digits with or without a minus sign before them. -/
def value (negative : Bool) (ds : List Char) : ℤ :=
  if negative then -(magnitude ds : ℤ) else magnitude ds

/-- A sign, if any, and at least one digit, which together have the value. -/
def IsNumeral (s : List Char) (v : ℤ) : Prop :=
  ∃ sign ds, s = sign ++ ds ∧ (sign = [] ∨ sign = ['+'] ∨ sign = ['-']) ∧ ds ≠ [] ∧
    (∀ c ∈ ds, IsDigit c) ∧ v = value (sign = ['-']) ds

def isNegative (s : List Char) : Bool := s.head? = some '-'

/-- The text without one leading sign. -/
def unsigned : List Char → List Char
  | '+' :: s => s
  | '-' :: s => s
  | s => s

/-- Some digits in front have a value out of bounds, whatever follows them. -/
def Overflows (b : Bounds) (s : List Char) : Prop :=
  ∃ p, p <+: unsigned s ∧ (∀ c ∈ p, IsDigit c) ∧
    ¬ (b.lo ≤ value (isNegative s) p ∧ value (isNegative s) p ≤ b.hi)

section Values

variable {c : Char} {ds : List Char} {negative : Bool} {b : Bounds}

theorem isDigit_iff : c.isDigit = true ↔ IsDigit c := by
  simp [Char.isDigit, IsDigit, Char.le_def]

theorem all_isDigit_iff : ds.all Char.isDigit = true ↔ ∀ c ∈ ds, IsDigit c := by
  simp only [List.all_eq_true, isDigit_iff]

theorem value_nil : value negative [] = 0 := by
  cases negative <;> rfl

theorem magnitude_concat (ds : List Char) (c : Char) :
    magnitude (ds ++ [c]) = 10 * magnitude ds + (c.toNat - 48) := by
  unfold magnitude
  rw [List.reverse_append, List.reverse_singleton, List.map_append, List.map_singleton,
    List.singleton_append, Nat.ofDigits_cons]
  exact Nat.add_comm _ _

/-- One turn of the reader's loop. -/
theorem value_concat (negative : Bool) (ds : List Char) (hc : IsDigit c) :
    value negative (ds ++ [c]) =
      if negative then 10 * value negative ds - digit c else 10 * value negative ds + digit c := by
  have hge : 48 ≤ c.toNat := hc.1
  unfold value digit
  rw [magnitude_concat]
  split_ifs <;> omega

theorem magnitude_le_append (ds es : List Char) : magnitude ds ≤ magnitude (ds ++ es) := by
  induction es using List.reverseRecOn with
  | nil => rw [List.append_nil]
  | append_singleton es c ih =>
    rw [← List.append_assoc, magnitude_concat]
    omega

/-- What is within bounds with more digits is so with fewer. -/
theorem holds_of_append (h0 : b.holds 0 = true) {es : List Char}
    (h : b.holds (value negative (ds ++ es)) = true) : b.holds (value negative ds) = true := by
  have hle := magnitude_le_append ds es
  rw [Bounds.holds_iff] at h0 h ⊢
  unfold value at h ⊢
  split_ifs at h ⊢ <;> omega

end Values

section Signs

variable {c : Char} {s ds : List Char} {v : ℤ}

theorem unsigned_cons (hplus : c ≠ '+') (hminus : c ≠ '-') : unsigned (c :: s) = c :: s := by
  simp [unsigned, hplus, hminus]

theorem isNegative_cons : isNegative (c :: s) = decide (c = '-') := by
  simp [isNegative]

theorem exists_sign (s : List Char) : ∃ sign, s = sign ++ unsigned s ∧
    (sign = [] ∨ sign = ['+'] ∨ sign = ['-']) ∧ isNegative s = decide (sign = ['-']) := by
  cases s with
  | nil => exact ⟨[], rfl, .inl rfl, rfl⟩
  | cons c s =>
    by_cases hplus : c = '+'
    · subst hplus
      exact ⟨['+'], rfl, .inr (.inl rfl), rfl⟩
    by_cases hminus : c = '-'
    · subst hminus
      exact ⟨['-'], rfl, .inr (.inr rfl), rfl⟩
    · refine ⟨[], ?_, .inl rfl, ?_⟩
      · rw [unsigned_cons hplus hminus, List.nil_append]
      · simp [isNegative_cons, hminus]

/-- A digit is no sign, so it is not mistaken for one. -/
theorem unsigned_of_isDigit (hc : IsDigit c) :
    unsigned (c :: s) = c :: s ∧ isNegative (c :: s) = false := by
  have hplus : c ≠ '+' := by
    rintro rfl
    exact absurd hc.1 (by decide)
  have hminus : c ≠ '-' := by
    rintro rfl
    exact absurd hc.1 (by decide)
  exact ⟨unsigned_cons hplus hminus, by simp [isNegative_cons, hminus]⟩

theorem unsigned_of_digits (hd : ∀ c ∈ ds, IsDigit c) :
    unsigned ds = ds ∧ isNegative ds = false := by
  cases ds with
  | nil => exact ⟨rfl, rfl⟩
  | cons c ds => exact unsigned_of_isDigit (hd c List.mem_cons_self)

theorem isNumeral_iff : IsNumeral s v ↔ unsigned s ≠ [] ∧ (∀ c ∈ unsigned s, IsDigit c) ∧
    v = value (isNegative s) (unsigned s) := by
  constructor
  · rintro ⟨sign, ds, rfl, hsign, hne, hd, rfl⟩
    rcases hsign with rfl | rfl | rfl
    · obtain ⟨hself, hneg⟩ := unsigned_of_digits hd
      rw [List.nil_append, hself, hneg]
      exact ⟨hne, hd, rfl⟩
    · exact ⟨hne, hd, rfl⟩
    · exact ⟨hne, hd, rfl⟩
  · rintro ⟨hne, hd, rfl⟩
    obtain ⟨sign, hs, hsign, hneg⟩ := exists_sign s
    exact ⟨sign, unsigned s, hs, hsign, hne, hd, by rw [hneg]⟩

end Signs

section Reading

variable {b : Bounds} {negative : Bool} {s : List Char}

/-- After the digits `ds`, the reader looks at the digits that follow up to the next other
character, and only if they stay within bounds at that character. -/
theorem readDigits_eq (h0 : b.holds 0 = true) (s : List Char) {ds : List Char}
    (hds : b.holds (value negative ds) = true) : readDigits b negative (value negative ds) s =
      if b.holds (value negative (ds ++ s.takeWhile Char.isDigit)) then
        if s.all Char.isDigit then .ok (value negative (ds ++ s)) else .error .invalidDigit
      else .error (if negative then .tooSmall else .tooLarge) := by
  induction s generalizing ds with
  | nil => simp [readDigits, hds]
  | cons c s ih =>
    by_cases hc : c.isDigit = true
    · have hturn := value_concat negative ds (isDigit_iff.1 hc)
      simp only [readDigits, hc, if_true, ← hturn, List.takeWhile_cons_of_pos, List.all_cons,
        Bool.true_and]
      rw [List.append_cons ds c s, List.append_cons ds c (s.takeWhile Char.isDigit)]
      by_cases hin : b.holds (value negative (ds ++ [c])) = true
      · rw [if_pos hin, ih hin]
      · have hout : ¬ b.holds (value negative (ds ++ [c] ++ s.takeWhile Char.isDigit)) = true :=
          fun h => hin (holds_of_append h0 h)
        rw [if_neg hin, if_neg hout]
    · simp [readDigits, hc, hds]

theorem read_of_ne_nil (hs : s ≠ []) : read b s = readSome b (isNegative s) (unsigned s) := by
  obtain ⟨c, s, rfl⟩ := List.exists_cons_of_ne_nil hs
  by_cases hplus : c = '+'
  · rw [hplus]
    rfl
  by_cases hminus : c = '-'
  · rw [hminus]
    rfl
  simp [read, unsigned_cons hplus hminus, isNegative_cons, hplus, hminus]

theorem readSome_of_ne_nil (hs : s ≠ []) : readSome b negative s = readDigits b negative 0 s := by
  obtain ⟨c, s, rfl⟩ := List.exists_cons_of_ne_nil hs
  rfl

theorem read_eq (h0 : b.holds 0 = true) (hs : s ≠ []) : read b s =
    if b.holds (value (isNegative s) ((unsigned s).takeWhile Char.isDigit)) then
      if unsigned s ≠ [] ∧ (unsigned s).all Char.isDigit = true then
        .ok (value (isNegative s) (unsigned s))
      else .error .invalidDigit
    else .error (if isNegative s then .tooSmall else .tooLarge) := by
  rw [read_of_ne_nil hs]
  by_cases hd : unsigned s = []
  · simp [hd, readSome, value_nil, h0]
  · have hin : b.holds (value (isNegative s) []) = true := by rwa [value_nil]
    have hdigits := readDigits_eq h0 (unsigned s) hin
    rw [value_nil] at hdigits
    simp only [readSome_of_ne_nil hd, hdigits, List.nil_append, ne_eq, hd, not_false_eq_true,
      true_and]

theorem overflows_iff (h0 : b.holds 0 = true) : Overflows b s ↔
    b.holds (value (isNegative s) ((unsigned s).takeWhile Char.isDigit)) = false := by
  constructor
  · rintro ⟨p, ⟨t, ht⟩, hd, hout⟩
    have hspan : (unsigned s).takeWhile Char.isDigit = p ++ t.takeWhile Char.isDigit := by
      rw [← ht]
      exact List.takeWhile_append_of_pos fun c hc => isDigit_iff.2 (hd c hc)
    rw [hspan]
    refine eq_false_of_ne_true fun h => hout ?_
    exact Bounds.holds_iff.1 (holds_of_append h0 h)
  · intro h
    refine ⟨_, List.takeWhile_prefix Char.isDigit, fun c hc => ?_, fun hin => ?_⟩
    · exact all_isDigit_iff.1 List.all_takeWhile c hc
    · rw [Bounds.holds_iff.2 hin] at h
      cases h

/-- Read is what is a numeral and within bounds, with its value. -/
theorem read_eq_ok_iff (h0 : b.holds 0 = true) {v : ℤ} :
    read b s = .ok v ↔ IsNumeral s v ∧ b.holds v = true := by
  by_cases hs : s = []
  · subst hs
    simp [read, isNumeral_iff, unsigned]
  rw [read_eq h0 hs, isNumeral_iff, ← all_isDigit_iff, ← and_assoc]
  by_cases hd : unsigned s ≠ [] ∧ (unsigned s).all Char.isDigit = true
  · have hspan : (unsigned s).takeWhile Char.isDigit = unsigned s :=
      List.takeWhile_eq_self_iff.2 (List.all_eq_true.1 hd.2)
    rw [hspan, if_pos hd]
    constructor
    · intro h
      split_ifs at h with hin
      cases h
      exact ⟨⟨hd, rfl⟩, hin⟩
    · rintro ⟨⟨-, rfl⟩, hin⟩
      rw [if_pos hin]
  · rw [if_neg hd]
    constructor
    · intro h
      split_ifs at h
    · rintro ⟨⟨hd', -⟩, -⟩
      exact absurd hd' hd

theorem not_overflows_nil (h0 : b.holds 0 = true) : ¬ Overflows b [] := by
  rw [overflows_iff h0, Bool.not_eq_false]
  rwa [← value_nil] at h0

theorem read_of_overflows (h0 : b.holds 0 = true) (h : Overflows b s) :
    read b s = .error (if isNegative s then .tooSmall else .tooLarge) := by
  have hs : s ≠ [] := by
    rintro rfl
    exact not_overflows_nil h0 h
  rw [read_eq h0 hs, (overflows_iff h0).1 h]
  rfl

theorem read_of_not_overflows (h0 : b.holds 0 = true) (h : ¬ Overflows b s) (hs : s ≠ [])
    {d : Defect} (hd : read b s = .error d) : d = .invalidDigit := by
  rw [overflows_iff h0, Bool.not_eq_false] at h
  rw [read_eq h0 hs, if_pos h] at hd
  split_ifs at hd
  cases hd
  rfl

/-- The defect of a text is that of its leftmost problem: an overflow is reported wherever a
character that is no digit comes after it, and such a character if no overflow comes before it. -/
theorem defect_iff (h0 : b.holds 0 = true) {d : Defect} (hd : read b s = .error d) :
    (d = .empty ↔ s = []) ∧
    (d = .tooSmall ↔ isNegative s = true ∧ Overflows b s) ∧
    (d = .tooLarge ↔ isNegative s = false ∧ Overflows b s) ∧
    (d = .invalidDigit ↔ s ≠ [] ∧ ¬ Overflows b s) := by
  by_cases ho : Overflows b s
  · have hs : s ≠ [] := by
      rintro rfl
      exact not_overflows_nil h0 ho
    rw [read_of_overflows h0 ho] at hd
    cases hd
    cases isNegative s <;> simp [ho, hs]
  by_cases hs : s = []
  · subst hs
    cases hd
    simp [ho]
  · rw [read_of_not_overflows h0 ho hs hd]
    simp [ho, hs]

end Reading

theorem Defect.text_inj {d d' : Defect} : d.text = d'.text ↔ d = d' := by
  cases d <;> cases d' <;> decide

end SharedStages.Text.Decimal
