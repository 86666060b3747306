import Mathlib.Tactic.Common
import SharedStages.Json.Value

/-! The grammar of JSON texts, said without a reader: how numbers and strings are spelled, and a
text as the tokens of its value with blanks around them. The scanner's automata accept exactly these
spellings. -/

namespace SharedStages.Json

/-- Nothing but digits. -/
def AllDigits (s : List Char) : Prop := ∀ c ∈ s, c.isDigit = true

/-- The whole part of a number: a lone zero, or digits of which the first is another one. -/
def IsWhole (s : List Char) : Prop :=
  s = ['0'] ∨ ∃ c ds, s = c :: ds ∧ c ≠ '0' ∧ c.isDigit = true ∧ AllDigits ds

/-- A point and digits, or nothing. -/
def IsFraction (s : List Char) : Prop :=
  s = [] ∨ ∃ ds, s = '.' :: ds ∧ ds ≠ [] ∧ AllDigits ds

/-- The letter of an exponent, perhaps a sign, and digits, or nothing at all. -/
def IsExponent (s : List Char) : Prop :=
  s = [] ∨ ∃ e sign ds, s = e :: (sign ++ ds) ∧ (e = 'e' ∨ e = 'E') ∧
    (sign = [] ∨ sign = ['+'] ∨ sign = ['-']) ∧ ds ≠ [] ∧ AllDigits ds

/-- The spelling of a number. -/
def IsNumber (s : List Char) : Prop :=
  ∃ sign whole fraction exponent, s = sign ++ (whole ++ (fraction ++ exponent)) ∧
    (sign = [] ∨ sign = ['-']) ∧ IsWhole whole ∧ IsFraction fraction ∧ IsExponent exponent

/-- What may stand between the quotes of a string. -/
inductive IsLiteral : List Char → Prop where
  | nil : IsLiteral []
  | plain {c s} : c ≠ '"' → c ≠ '\\' → 0x20 ≤ c.toNat → IsLiteral s → IsLiteral (c :: s)
  | escape {l s} : l ∈ ['"', '\\', '/', 'b', 'f', 'n', 'r', 't'] → IsLiteral s →
    IsLiteral ('\\' :: l :: s)
  | unit {hs s} : hs.length = 4 → (∀ h ∈ hs, isHexDigit h = true) → IsLiteral s →
    IsLiteral ('\\' :: 'u' :: (hs ++ s))

def Token.IsValid : Token → Prop
  | mark _ | word _ => True
  | number s => IsNumber s
  | string s => IsLiteral s

def AllBlank (s : List Char) : Prop := ∀ c ∈ s, isBlank c = true

/-- The text consists of these tokens, with any blanks before, between and after them. -/
inductive Lexed : List Token → List Char → Prop where
  | nil {s} : AllBlank s → Lexed [] s
  | cons {t ts b s} : AllBlank b → t.IsValid → Lexed ts s → Lexed (t :: ts) (b ++ (t.text ++ s))

/-- The text is one of the value. -/
def IsText (v : Json) (s : List Char) : Prop := Lexed v.tokens s

section Blanks

theorem allBlank_nil : AllBlank [] := by simp [AllBlank]

theorem AllBlank.cons {c : Char} {s : List Char} (hc : isBlank c = true) (hs : AllBlank s) :
    AllBlank (c :: s) := by
  simpa [AllBlank, hc] using hs

/-- A blank more in front is of no consequence. -/
theorem Lexed.blank {ts : List Token} {c : Char} {s : List Char} (hc : isBlank c = true)
    (h : Lexed ts s) : Lexed ts (c :: s) := by
  cases h with
  | nil hs => exact .nil (hs.cons hc)
  | cons hb ht hs => exact .cons (b := c :: _) (hb.cons hc) ht hs

theorem Lexed.token {t : Token} {ts : List Token} {s : List Char} (ht : t.IsValid)
    (h : Lexed ts s) : Lexed (t :: ts) (t.text ++ s) :=
  .cons allBlank_nil ht h

theorem Lexed.isValid {ts : List Token} {s : List Char} (h : Lexed ts s) :
    ∀ t ∈ ts, t.IsValid := by
  induction h with
  | nil hs => exact List.forall_mem_nil _
  | cons hb ht hs ih => exact List.forall_mem_cons.2 ⟨ht, ih⟩

end Blanks

section Numbers

/-- Digits, perhaps none, and then a text of the class. -/
def DigitsThen (p : List Char → Prop) (s : List Char) : Prop :=
  ∃ ds t, s = ds ++ t ∧ AllDigits ds ∧ p t

/-- At least one digit, and then a text of the class. -/
def SomeDigitsThen (p : List Char → Prop) (s : List Char) : Prop :=
  ∃ ds t, s = ds ++ t ∧ ds ≠ [] ∧ AllDigits ds ∧ p t

/-- What may follow the whole part. -/
def IsTail (s : List Char) : Prop :=
  ∃ fraction exponent, s = fraction ++ exponent ∧ IsFraction fraction ∧ IsExponent exponent

/-- What completes a number of which so much was read. -/
def Numeral.Rest : Numeral → List Char → Prop
  | sign => fun s => ∃ whole t, s = whole ++ t ∧ IsWhole whole ∧ IsTail t
  | zero => IsTail
  | whole => DigitsThen IsTail
  | point => SomeDigitsThen IsExponent
  | fraction => DigitsThen IsExponent
  | mark => fun s => ∃ sign t, s = sign ++ t ∧ (sign = [] ∨ sign = ['+'] ∨ sign = ['-']) ∧
    SomeDigitsThen (· = []) t
  | markSign => SomeDigitsThen (· = [])
  | exponent => DigitsThen (· = [])

variable {p : List Char → Prop} {c : Char} {s : List Char}

theorem allDigits_cons : AllDigits (c :: s) ↔ c.isDigit = true ∧ AllDigits s :=
  List.forall_mem_cons

theorem digitsThen_nil : DigitsThen p [] ↔ p [] := by
  constructor
  · rintro ⟨ds, t, h, -, ht⟩
    obtain ⟨-, rfl⟩ := List.append_eq_nil_iff.1 h.symm
    exact ht
  · exact fun h => ⟨[], [], rfl, List.forall_mem_nil _, h⟩

theorem digitsThen_cons :
    DigitsThen p (c :: s) ↔ c.isDigit = true ∧ DigitsThen p s ∨ p (c :: s) := by
  constructor
  · rintro ⟨ds, t, h, hds, ht⟩
    cases ds with
    | nil =>
      rw [h]
      exact .inr ht
    | cons d ds =>
      obtain ⟨rfl, rfl⟩ := List.cons.inj h
      obtain ⟨hd, hds⟩ := allDigits_cons.1 hds
      exact .inl ⟨hd, ds, t, rfl, hds, ht⟩
  · rintro (⟨hc, ds, t, rfl, hds, ht⟩ | h)
    · exact ⟨c :: ds, t, rfl, allDigits_cons.2 ⟨hc, hds⟩, ht⟩
    · exact ⟨[], c :: s, rfl, List.forall_mem_nil _, h⟩

theorem not_someDigitsThen_nil : ¬ SomeDigitsThen p [] := by
  rintro ⟨ds, t, h, hne, -⟩
  exact hne (List.append_eq_nil_iff.1 h.symm).1

theorem someDigitsThen_cons :
    SomeDigitsThen p (c :: s) ↔ c.isDigit = true ∧ DigitsThen p s := by
  constructor
  · rintro ⟨ds, t, h, hne, hds, ht⟩
    cases ds with
    | nil => exact absurd rfl hne
    | cons d ds =>
      obtain ⟨rfl, rfl⟩ := List.cons.inj h
      obtain ⟨hd, hds⟩ := allDigits_cons.1 hds
      exact ⟨hd, ds, t, rfl, hds, ht⟩
  · rintro ⟨hc, ds, t, rfl, hds, ht⟩
    exact ⟨c :: ds, t, rfl, List.cons_ne_nil c ds, allDigits_cons.2 ⟨hc, hds⟩, ht⟩

theorem isExponent_cons :
    IsExponent (c :: s) ↔ (c = 'e' ∨ c = 'E') ∧ Numeral.mark.Rest s := by
  constructor
  · rintro (h | ⟨e, sign, ds, h, he, hsign, hne, hds⟩)
    · cases h
    · obtain ⟨rfl, rfl⟩ := List.cons.inj h
      exact ⟨he, sign, ds, rfl, hsign, ds, [], (List.append_nil ds).symm, hne, hds, rfl⟩
  · rintro ⟨hc, sign, t, rfl, hsign, ds, u, rfl, hne, hds, rfl⟩
    rw [List.append_nil]
    exact .inr ⟨c, sign, ds, rfl, hc, hsign, hne, hds⟩

theorem rest_mark_cons : Numeral.mark.Rest (c :: s) ↔
    (c = '+' ∨ c = '-') ∧ Numeral.markSign.Rest s ∨ c.isDigit = true ∧ Numeral.exponent.Rest s := by
  simp only [Numeral.Rest, ← someDigitsThen_cons]
  constructor
  · rintro ⟨sign, t, h, rfl | rfl | rfl, ht⟩
    · rw [h]
      exact .inr ht
    · obtain ⟨rfl, rfl⟩ := List.cons.inj h
      exact .inl ⟨.inl rfl, ht⟩
    · obtain ⟨rfl, rfl⟩ := List.cons.inj h
      exact .inl ⟨.inr rfl, ht⟩
  · rintro (⟨rfl | rfl, ht⟩ | ht)
    · exact ⟨['+'], s, rfl, .inr (.inl rfl), ht⟩
    · exact ⟨['-'], s, rfl, .inr (.inr rfl), ht⟩
    · exact ⟨[], c :: s, rfl, .inl rfl, ht⟩

theorem isTail_nil : IsTail [] := ⟨[], [], rfl, .inl rfl, .inl rfl⟩

theorem isTail_cons :
    IsTail (c :: s) ↔ c = '.' ∧ Numeral.point.Rest s ∨ IsExponent (c :: s) := by
  constructor
  · rintro ⟨f, e, h, rfl | ⟨ds, rfl, hne, hds⟩, he⟩
    · rw [h]
      exact .inr he
    · obtain ⟨rfl, rfl⟩ := List.cons.inj h
      exact .inl ⟨rfl, ds, e, rfl, hne, hds, he⟩
  · rintro (⟨rfl, ds, e, rfl, hne, hds, he⟩ | h)
    · exact ⟨'.' :: ds, e, rfl, .inr ⟨ds, rfl, hne, hds⟩, he⟩
    · exact ⟨[], c :: s, rfl, .inl rfl, h⟩

theorem rest_sign_cons : Numeral.sign.Rest (c :: s) ↔
    c = '0' ∧ IsTail s ∨ c ≠ '0' ∧ c.isDigit = true ∧ Numeral.whole.Rest s := by
  constructor
  · rintro ⟨whole, t, h, rfl | ⟨d, ds, rfl, hne, hd, hds⟩, ht⟩
    · obtain ⟨rfl, rfl⟩ := List.cons.inj h
      exact .inl ⟨rfl, ht⟩
    · obtain ⟨rfl, rfl⟩ := List.cons.inj h
      exact .inr ⟨hne, hd, ds, t, rfl, hds, ht⟩
  · rintro (⟨rfl, ht⟩ | ⟨hne, hc, ds, t, rfl, hds, ht⟩)
    · exact ⟨['0'], s, rfl, .inl rfl, ht⟩
    · exact ⟨c :: ds, t, rfl, .inr ⟨c, ds, rfl, hne, hc, hds⟩, ht⟩

theorem Numeral.rest_nil (q : Numeral) : q.Rest [] ↔ q.isComplete = true := by
  have hnil : ¬ IsWhole [] := by simp [IsWhole]
  cases q with
  | sign => simpa [Rest, isComplete] using fun h => absurd h hnil
  | zero => simpa [Rest, isComplete] using isTail_nil
  | whole => simpa [Rest, isComplete, digitsThen_nil] using isTail_nil
  | fraction => simp [Rest, isComplete, digitsThen_nil, IsExponent]
  | mark => simp [Rest, isComplete, not_someDigitsThen_nil]
  | exponent => simp [Rest, isComplete, digitsThen_nil]
  | _ => simp [Rest, isComplete, not_someDigitsThen_nil]

theorem Numeral.exists_power : (∃ q', step?.power c = some q' ∧ q'.Rest s) ↔
    IsExponent (c :: s) := by
  rw [isExponent_cons, step?.power]
  by_cases hc : c = 'e' ∨ c = 'E' <;> simp [hc]

theorem Numeral.exists_tail : (∃ q', step?.tail c = some q' ∧ q'.Rest s) ↔ IsTail (c :: s) := by
  rw [isTail_cons, ← exists_power, step?.tail]
  by_cases hc : c = '.'
  · subst hc
    simp [step?.power]
  · simp [hc]

theorem not_isExponent_of_isDigit (hc : c.isDigit = true) : ¬ IsExponent (c :: s) := by
  rw [isExponent_cons]
  rintro ⟨rfl | rfl, -⟩ <;> simp at hc

theorem not_isTail_of_isDigit (hc : c.isDigit = true) : ¬ IsTail (c :: s) := by
  rw [isTail_cons]
  rintro (⟨rfl, -⟩ | h)
  · simp at hc
  · exact not_isExponent_of_isDigit hc h

/-- The automaton takes just the characters that can follow. -/
theorem Numeral.rest_cons (q : Numeral) :
    q.Rest (c :: s) ↔ ∃ q', q.step? c = some q' ∧ q'.Rest s := by
  cases q with
  | sign =>
    rw [rest_sign_cons, step?]
    by_cases h0 : c = '0'
    · subst h0
      simp [Rest]
    · by_cases hd : c.isDigit <;> simp [h0, hd]
  | zero => exact exists_tail.symm
  | whole =>
    rw [Rest, digitsThen_cons, step?]
    by_cases hd : c.isDigit
    · simpa [hd, Rest] using fun h => absurd h (not_isTail_of_isDigit hd)
    · simp [hd, exists_tail]
  | point =>
    rw [Rest, someDigitsThen_cons, step?]
    by_cases hd : c.isDigit <;> simp [hd, Rest]
  | fraction =>
    rw [Rest, digitsThen_cons, step?]
    by_cases hd : c.isDigit
    · simpa [hd, Rest] using fun h => absurd h (not_isExponent_of_isDigit hd)
    · simp [hd, exists_power]
  | mark =>
    rw [rest_mark_cons, step?]
    by_cases hs : c = '+' ∨ c = '-'
    · have hd : c.isDigit = false := by rcases hs with rfl | rfl <;> rfl
      simp [hs, hd]
    · by_cases hd : c.isDigit <;> simp [hs, hd]
  | markSign =>
    rw [Rest, someDigitsThen_cons, step?]
    by_cases hd : c.isDigit <;> simp [hd, Rest]
  | exponent =>
    rw [Rest, digitsThen_cons, step?]
    by_cases hd : c.isDigit <;> simp [hd, Rest]

theorem not_isNumber_nil : ¬ IsNumber [] := by
  rintro ⟨sign, whole, t, u, h, -, hw, -, -⟩
  have : whole = [] := by simp_all
  simp [this, IsWhole] at hw

theorem isNumber_iff_rest :
    IsNumber s ↔ Numeral.sign.Rest s ∨ ∃ t, s = '-' :: t ∧ Numeral.sign.Rest t := by
  constructor
  · rintro ⟨sign, w, f, e, rfl, rfl | rfl, hw, hf, he⟩
    · exact .inl ⟨w, f ++ e, rfl, hw, f, e, rfl, hf, he⟩
    · exact .inr ⟨w ++ (f ++ e), rfl, w, f ++ e, rfl, hw, f, e, rfl, hf, he⟩
  · rintro (⟨w, t, rfl, hw, f, e, rfl, hf, he⟩ | ⟨t, rfl, w, u, rfl, hw, f, e, rfl, hf, he⟩)
    · exact ⟨[], w, f, e, rfl, .inl rfl, hw, hf, he⟩
    · exact ⟨['-'], w, f, e, rfl, .inr rfl, hw, hf, he⟩

theorem isNumber_cons :
    IsNumber (c :: s) ↔ ∃ q, Numeral.start? c = some q ∧ q.Rest s := by
  rw [isNumber_iff_rest, rest_sign_cons, Numeral.start?]
  by_cases hm : c = '-'
  · subst hm
    simp [Numeral.Rest]
  · by_cases h0 : c = '0'
    · subst h0
      simp [Numeral.Rest]
    · by_cases hd : c.isDigit <;> simp [hm, h0, hd]

end Numbers

section Literals

variable {c : Char} {s : List Char}

/-- What completes a string of which so much was read, up to the closing quote. -/
def Quoting.Rest : Quoting → List Char → Prop
  | plain => IsLiteral
  | escape => fun s => IsLiteral ('\\' :: s)
  | digits n => fun s => ∃ hs t, s = hs ++ t ∧ hs.length = n + 1 ∧
    (∀ h ∈ hs, isHexDigit h = true) ∧ IsLiteral t

theorem isLiteral_cons : IsLiteral (c :: s) ↔
    c = '\\' ∧ Quoting.escape.Rest s ∨
    c ≠ '\\' ∧ c ≠ '"' ∧ 0x20 ≤ c.toNat ∧ IsLiteral s := by
  constructor
  · intro h
    by_cases hc : c = '\\'
    · subst hc
      exact .inl ⟨rfl, h⟩
    · cases h with
      | plain hq hb hs h => exact .inr ⟨hb, hq, hs, h⟩
      | escape => exact absurd rfl hc
      | unit => exact absurd rfl hc
  · rintro (⟨rfl, h⟩ | ⟨hb, hq, hs, h⟩)
    · exact h
    · exact .plain hq hb hs h

theorem rest_escape_cons : Quoting.escape.Rest (c :: s) ↔
    c = 'u' ∧ (Quoting.digits 3).Rest s ∨
    c ∈ ['"', '\\', '/', 'b', 'f', 'n', 'r', 't'] ∧ IsLiteral s := by
  constructor
  · intro h
    rw [Quoting.Rest] at h
    cases h with
    | plain hq hb hs h => exact absurd rfl hb
    | escape hl h => exact .inr ⟨hl, h⟩
    | unit hlen hhex h => exact .inl ⟨rfl, _, _, rfl, hlen, hhex, h⟩
  · rintro (⟨rfl, hs, t, rfl, hlen, hhex, h⟩ | ⟨hl, h⟩)
    · exact .unit hlen hhex h
    · exact .escape hl h

theorem rest_digits_cons {n : ℕ} : (Quoting.digits n).Rest (c :: s) ↔
    isHexDigit c = true ∧ (match n with | 0 => Quoting.plain | m + 1 => .digits m).Rest s := by
  constructor
  · rintro ⟨hs, t, h, hlen, hhex, ht⟩
    obtain ⟨d, ds, rfl⟩ := List.exists_cons_of_length_eq_add_one hlen
    obtain ⟨rfl, rfl⟩ := List.cons.inj h
    obtain ⟨hd, hds⟩ := List.forall_mem_cons.1 hhex
    refine ⟨hd, ?_⟩
    cases n with
    | zero =>
      rw [List.length_eq_zero_iff.1 (Nat.succ.inj hlen)]
      exact ht
    | succ m => exact ⟨ds, t, rfl, Nat.succ.inj hlen, hds, ht⟩
  · rintro ⟨hc, h⟩
    cases n with
    | zero => exact ⟨[c], s, rfl, rfl, by simpa using hc, h⟩
    | succ m =>
      obtain ⟨ds, t, rfl, hlen, hds, ht⟩ := h
      exact ⟨c :: ds, t, rfl, congrArg (· + 1) hlen, List.forall_mem_cons.2 ⟨hc, hds⟩, ht⟩

theorem Quoting.rest_nil (q : Quoting) : q.Rest [] ↔ q = .plain := by
  cases q with
  | plain => exact iff_of_true .nil rfl
  | escape =>
    refine iff_of_false ?_ nofun
    rw [Rest]
    intro h
    cases h with
    | plain hq hb hs h => exact hb rfl
  | digits n =>
    refine iff_of_false ?_ nofun
    rintro ⟨hs, t, h, hlen, -⟩
    rw [(List.append_eq_nil_iff.1 h.symm).1] at hlen
    cases hlen

/-- The automaton takes just the characters that can follow. -/
theorem Quoting.rest_cons (q : Quoting) :
    q.Rest (c :: s) ↔ ∃ q', q.step? c = some q' ∧ q'.Rest s := by
  cases q with
  | plain =>
    rw [Rest, isLiteral_cons, step?]
    by_cases hb : c = '\\'
    · simp [hb]
    · by_cases hq : c = '"'
      · simp [hq]
      · by_cases hs : 0x20 ≤ c.toNat <;> simp [hb, hq, hs, Rest]
  | escape =>
    rw [rest_escape_cons, step?]
    by_cases hu : c = 'u'
    · subst hu
      simp
    · by_cases hl : c ∈ ['"', '\\', '/', 'b', 'f', 'n', 'r', 't'] <;> simp [hu, hl, Rest]
  | digits n =>
    rw [rest_digits_cons, step?.eq_def]
    cases n <;> by_cases hh : isHexDigit c <;> simp [hh]

end Literals

end SharedStages.Json
