import Mathlib.Tactic.Common
import SharedStages.Proofs.Text.Decimal

/-! The canonical numeral of an integer. Of all numerals with a value, the written one is the only
one without a plus sign, a superfluous zero in front or a minus sign before zero. -/

namespace SharedStages.Text.Decimal

/-- A zero stands before other characters. -/
def HasSpareZero (s : List Char) : Prop := ∃ ds, ds ≠ [] ∧ unsigned s = '0' :: ds

/-- A minus sign before nothing but zeros. -/
def IsNegativeZero (s : List Char) : Prop := isNegative s = true ∧ ∀ c ∈ unsigned s, c = '0'

section Digits

variable {n : ℕ} {c : Char} {ds : List Char}

theorem magnitude_eq (ds : List Char) : magnitude ds = Nat.ofDigitChars 10 ds 0 := by
  induction ds using List.reverseRecOn with
  | nil => rfl
  | append_singleton ds c ih =>
    rw [magnitude_concat, Nat.ofDigitChars_append, ← ih, Nat.ofDigitChars_cons,
      Nat.ofDigitChars_nil]
    rfl

theorem magnitude_toDigits (n : ℕ) : magnitude (Nat.toDigits 10 n) = n := by
  rw [magnitude_eq, Nat.ofDigitChars_ten_toDigits]

theorem isDigit_of_mem_toDigits (h : c ∈ Nat.toDigits 10 n) : IsDigit c :=
  isDigit_iff.1 (Nat.isDigit_of_mem_toDigits (by decide) le_rfl h)

theorem exists_toDigits (n : ℕ) : ∃ c ds, Nat.toDigits 10 n = c :: ds :=
  List.exists_cons_of_ne_nil Nat.toDigits_ne_nil

/-- The digits of a number begin with a zero only if it is zero. -/
theorem eq_zero_of_toDigits (h : Nat.toDigits 10 n = '0' :: ds) : n = 0 := by
  induction n using Nat.strongRecOn generalizing ds with
  | _ n ih =>
    rcases Nat.lt_or_ge n 10 with hn | hn
    · rw [Nat.toDigits_of_lt_base hn] at h
      exact Nat.digitChar_eq_zero.1 (List.cons.inj h).1
    · rw [Nat.toDigits_of_base_le (by decide) hn] at h
      obtain ⟨c, es, hes⟩ := exists_toDigits (n / 10)
      rw [hes] at h
      obtain ⟨rfl, -⟩ := List.cons.inj h
      have := ih (n / 10) (by omega) hes
      omega

theorem toDigits_digit (hc : IsDigit c) : Nat.toDigits 10 (c.toNat - 48) = [c] := by
  have hge : 48 ≤ c.toNat := hc.1
  have hle : c.toNat ≤ 57 := hc.2
  have hlt : c.toNat - 48 < 10 := by omega
  rw [Nat.toDigits_of_lt_base hlt, List.singleton_inj, ← Char.toNat_inj,
    Nat.toNat_digitChar_of_lt_ten hlt]
  omega

/-- Digits without a spare zero are those of their number. -/
theorem toDigits_magnitude (hne : ds ≠ []) (hd : ∀ c ∈ ds, IsDigit c)
    (hspare : ∀ es, ds = '0' :: es → es = []) : Nat.toDigits 10 (magnitude ds) = ds := by
  induction ds using List.reverseRecOn with
  | nil => exact absurd rfl hne
  | append_singleton ds c ih =>
    obtain ⟨hds, hc⟩ := List.forall_mem_append.1 hd
    have hlast := toDigits_digit (List.forall_mem_singleton.1 hc)
    rw [magnitude_concat]
    cases ds with
    | nil => simpa [magnitude] using hlast
    | cons d ds =>
      -- a first digit before another one is no zero, so the digits before the last are no zero
      have hd0 : d ≠ '0' := by
        rintro rfl
        simpa using hspare (ds ++ [c]) rfl
      have hdigits := ih (List.cons_ne_nil d ds) hds fun es hes => absurd (List.cons.inj hes).1 hd0
      have hpos : 0 < magnitude (d :: ds) := by
        refine Nat.pos_of_ne_zero fun h0 => ?_
        rw [h0, Nat.toDigits_zero] at hdigits
        exact hd0 (List.cons.inj hdigits).1.symm
      have hlt : c.toNat - 48 < 10 := by
        have hle : c.toNat ≤ 57 := (List.forall_mem_singleton.1 hc).2
        omega
      rw [← Nat.toDigits_append_toDigits (by decide) hpos hlt, hdigits, hlast]

end Digits

section Writing

variable {s : List Char} {v : ℤ}

/-- The written text as a sign and digits. -/
theorem write_parts (v : ℤ) : unsigned (write v) = Nat.toDigits 10 v.natAbs ∧
    isNegative (write v) = decide (v < 0) := by
  by_cases hv : v < 0
  · rw [write_of_neg hv]
    exact ⟨rfl, (decide_eq_true hv).symm⟩
  · rw [write_of_nonneg (Int.not_lt.1 hv)]
    obtain ⟨hself, hneg⟩ := unsigned_of_digits fun c => isDigit_of_mem_toDigits
    exact ⟨hself, hneg.trans (decide_eq_false hv).symm⟩

theorem isNumeral_write (v : ℤ) : IsNumeral (write v) v := by
  obtain ⟨hdigits, hneg⟩ := write_parts v
  rw [isNumeral_iff, hdigits, hneg, value, magnitude_toDigits]
  refine ⟨Nat.toDigits_ne_nil, fun c => isDigit_of_mem_toDigits, ?_⟩
  split_ifs with hv
  · have := of_decide_eq_true hv
    omega
  · have := mt decide_eq_true hv
    omega

theorem mem_write {c : Char} (h : c ∈ write v) : c = '-' ∨ IsDigit c := by
  unfold write at h
  split_ifs at h with hv
  · exact (List.mem_cons.1 h).imp_right isDigit_of_mem_toDigits
  · exact .inr (isDigit_of_mem_toDigits h)

theorem not_hasSpareZero_write (v : ℤ) : ¬ HasSpareZero (write v) := by
  rintro ⟨ds, hne, h⟩
  rw [(write_parts v).1] at h
  rw [eq_zero_of_toDigits h, Nat.toDigits_zero] at h
  exact hne (List.cons.inj h).2.symm

theorem not_isNegativeZero_write (v : ℤ) : ¬ IsNegativeZero (write v) := by
  rintro ⟨hneg, hzero⟩
  obtain ⟨hdigits, hsign⟩ := write_parts v
  rw [hsign] at hneg
  rw [hdigits] at hzero
  obtain ⟨c, ds, hds⟩ := exists_toDigits v.natAbs
  obtain rfl : c = '0' := hzero c (by rw [hds]; exact List.mem_cons_self)
  have habs := eq_zero_of_toDigits hds
  have hlt := of_decide_eq_true hneg
  omega

/-- Of the numerals with a value, the written one is the one without a plus sign, a spare zero or a
sign before zero. -/
theorem IsNumeral.eq_write_iff (h : IsNumeral s v) :
    s = write v ↔ '+' ∉ s ∧ ¬ HasSpareZero s ∧ ¬ IsNegativeZero s := by
  constructor
  · rintro rfl
    refine ⟨fun hplus => ?_, not_hasSpareZero_write v, not_isNegativeZero_write v⟩
    rcases mem_write hplus with h | h
    · cases h
    · exact absurd h.1 (by decide)
  · rintro ⟨hplus, hspare, hzero⟩
    obtain ⟨hne, hd, rfl⟩ := isNumeral_iff.1 h
    have hdigits : Nat.toDigits 10 (magnitude (unsigned s)) = unsigned s :=
      toDigits_magnitude hne hd fun es hes => not_not.1 fun hne => hspare ⟨es, hne, hes⟩
    obtain ⟨sign, hs, hsign, hneg⟩ := exists_sign s
    rcases hsign with rfl | rfl | rfl
    · have hv : value (isNegative s) (unsigned s) = magnitude (unsigned s) := by
        rw [hneg]
        rfl
      rw [hv, write_of_nonneg (Int.natCast_nonneg _), Int.natAbs_natCast, hdigits]
      exact hs
    · exact absurd (hs ▸ List.mem_append_left _ (List.mem_singleton_self '+')) hplus
    · have hv : value (isNegative s) (unsigned s) = -magnitude (unsigned s) := by
        rw [hneg]
        rfl
      have hpos : magnitude (unsigned s) ≠ 0 := by
        intro h0
        rw [h0, Nat.toDigits_zero] at hdigits
        refine hzero ⟨by rw [hneg]; rfl, ?_⟩
        rw [← hdigits]
        exact List.forall_mem_singleton.2 rfl
      rw [hv, write_of_neg (by omega), Int.natAbs_neg, Int.natAbs_natCast, hdigits]
      exact hs

end Writing

end SharedStages.Text.Decimal
