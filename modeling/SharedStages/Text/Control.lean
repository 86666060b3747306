/-! Control characters, which no line of diagnostic output may hold. -/

namespace SharedStages.Text

/-- The controls are U+0000 to U+001F and U+007F to U+009F. -/
def isControl (c : Char) : Bool :=
  c.toNat < 0x20 || (0x7f ≤ c.toNat && c.toNat < 0xa0)

/-- Whether some character of `s` is a control. -/
def hasControl (s : String) : Bool := s.toList.any isControl

theorem isControl_iff {c : Char} :
    isControl c = true ↔ c.toNat < 0x20 ∨ (0x7f ≤ c.toNat ∧ c.toNat < 0xa0) := by
  simp [isControl]

theorem hasControl_eq_false_iff {s : String} :
    hasControl s = false ↔ ∀ c ∈ s.toList, isControl c = false := by
  simp [hasControl]

theorem hasControl_append {s t : String} (hs : hasControl s = false) (ht : hasControl t = false) :
    hasControl (s ++ t) = false := by
  rw [hasControl, String.toList_append, List.any_append]
  exact Bool.or_eq_false_iff.2 ⟨hs, ht⟩

theorem isControl_of_isDigit {c : Char} (h : c.isDigit = true) : isControl c = false := by
  obtain ⟨hlow, hhigh⟩ := Bool.and_eq_true_iff.1 h
  have hlow : 0x30 ≤ c.toNat := of_decide_eq_true hlow
  have hhigh : c.toNat ≤ 0x39 := of_decide_eq_true hhigh
  rw [Bool.eq_false_iff, Ne, isControl_iff]
  omega

theorem toList_toString (n : Nat) : (toString n).toList = Nat.toDigits 10 n := by
  rw [Nat.toString_eq_repr, Nat.repr_eq_ofList_toDigits, String.toList_ofList]

theorem toString_inj {m n : Nat} (h : toString m = toString n) : m = n := by
  have hdigits := congrArg String.toList h
  rw [toList_toString, toList_toString] at hdigits
  rw [← Nat.ofDigitChars_toDigits (b := 10) (n := m) (by decide) (by decide), hdigits,
    Nat.ofDigitChars_toDigits (by decide) (by decide)]

theorem hasControl_toString (n : Nat) : hasControl (toString n) = false := by
  rw [hasControl_eq_false_iff, toList_toString]
  exact fun c hc => isControl_of_isDigit (Nat.isDigit_of_mem_toDigits (by decide) (by decide) hc)

end SharedStages.Text
