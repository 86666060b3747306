import SharedStages.Json.Record
import SharedStages.Proofs.Json.Reader

/-! Spellings of strings said without a decoder, and the compact text of a value whose numbers and
strings are well spelled. -/

namespace SharedStages.Json

namespace Literal

/-- The spelling `s` between two quotes stands for the text `t`. -/
inductive Spells : List Char → List Char → Prop where
  | nil : Spells [] []
  | plain {c s t} : c ≠ '"' → c ≠ '\\' → 0x20 ≤ c.toNat → Spells s t → Spells (c :: s) (c :: t)
  | escape {l x s t} : (l, x) ∈ [('"', '"'), ('\\', '\\'), ('/', '/'), ('b', '\x08'), ('f', '\x0c'),
      ('n', '\n'), ('r', '\r'), ('t', '\t')] → Spells s t → Spells ('\\' :: l :: s) (x :: t)
  | unit {a b c d n s t} : unit? a b c d = some n → isHigh n = false → isLow n = false →
    Spells s t → Spells ('\\' :: 'u' :: a :: b :: c :: d :: s) (Char.ofNat n :: t)
  | pair {a b c d a' b' c' d' n m s t} : unit? a b c d = some n → isHigh n = true →
    unit? a' b' c' d' = some m → isLow m = true → Spells s t →
    Spells ('\\' :: 'u' :: a :: b :: c :: d :: '\\' :: 'u' :: a' :: b' :: c' :: d' :: s)
      (ofPair n m :: t)

theorem unletter?_eq_some_iff {l x : Char} : unletter? l = some x ↔
    (l, x) ∈ [('"', '"'), ('\\', '\\'), ('/', '/'), ('b', '\x08'), ('f', '\x0c'), ('n', '\n'),
      ('r', '\r'), ('t', '\t')] := by
  unfold unletter?
  constructor
  · intro h
    split_ifs at h <;> cases h <;> subst_vars <;> decide
  · intro h
    simp only [List.mem_cons, List.not_mem_nil, or_false, Prod.mk.injEq] at h
    rcases h with ⟨rfl, rfl⟩ | ⟨rfl, rfl⟩ | ⟨rfl, rfl⟩ | ⟨rfl, rfl⟩ | ⟨rfl, rfl⟩ | ⟨rfl, rfl⟩ |
      ⟨rfl, rfl⟩ | ⟨rfl, rfl⟩ <;> rfl

theorem decode_pair {a b c d a' b' c' d' : Char} {n m : ℕ} (s : List Char)
    (h : unit? a b c d = some n) (hn : isHigh n = true) (h' : unit? a' b' c' d' = some m)
    (hm : isLow m = true) :
    decode ('\\' :: 'u' :: a :: b :: c :: d :: '\\' :: 'u' :: a' :: b' :: c' :: d' :: s) =
      (decode s).map (ofPair n m :: ·) := by
  rw [decode]
  simp [h, hn, h', hm]

variable {s t : List Char}

theorem Spells.of_decode (h : decode s = some t) : Spells s t := by
  fun_induction decode s generalizing t with
  | case1 =>
    cases h
    exact .nil
  | case4 _ _ _ _ n hn hh _ _ _ _ _ m hm hl ih =>
    obtain ⟨u, hu, rfl⟩ := Option.map_eq_some_iff.1 h
    exact .pair hn hh hm hl (ih hu)
  | case8 _ _ _ _ _ n hn hh hl ih =>
    obtain ⟨u, hu, rfl⟩ := Option.map_eq_some_iff.1 h
    exact .unit hn (eq_false_of_ne_true hh) (eq_false_of_ne_true hl) (ih hu)
  | case10 _ _ _ x hx ih =>
    obtain ⟨u, hu, rfl⟩ := Option.map_eq_some_iff.1 h
    exact .escape (unletter?_eq_some_iff.1 hx) (ih hu)
  | case12 c _ _ _ hc ih =>
    obtain ⟨u, hu, rfl⟩ := Option.map_eq_some_iff.1 h
    obtain ⟨hb, hq, hs⟩ := by simpa only [not_or] using hc
    exact .plain hq hb (Nat.le_of_not_lt hs) (ih hu)
  | _ => cases h

theorem decode_eq_some_iff : decode s = some t ↔ Spells s t := by
  constructor
  · exact Spells.of_decode
  · intro h
    induction h with
    | nil => rfl
    | plain hq hb hc h ih => rw [decode_plain _ hb hq (Nat.not_lt.2 hc), ih]; rfl
    | escape hl h ih =>
      have hu := unletter?_eq_some_iff.2 hl
      rw [decode_escape _ (by rintro rfl; cases hu) hu, ih]
      rfl
    | unit hn hh hl h ih => rw [decode_unit _ hn hh hl, ih]; rfl
    | pair hn hh hm hl h ih => rw [decode_pair _ hn hh hm hl, ih]; rfl

theorem isHexDigit_of_hexValue? {c : Char} {n : ℕ} (h : hexValue? c = some n) :
    isHexDigit c = true := by
  unfold hexValue? at h
  unfold isHexDigit
  split_ifs at h <;> simp [*]

theorem isHexDigit_of_unit? {a b c d : Char} {n : ℕ} (h : unit? a b c d = some n) :
    ∀ x ∈ [a, b, c, d], isHexDigit x = true := by
  simp only [unit?, Option.bind_eq_bind, Option.bind_eq_some_iff] at h
  obtain ⟨na, ha, nb, hb, nc, hc, nd, hd, -⟩ := h
  simp [isHexDigit_of_hexValue? ha, isHexDigit_of_hexValue? hb, isHexDigit_of_hexValue? hc,
    isHexDigit_of_hexValue? hd]

theorem Spells.isLiteral (h : Spells s t) : IsLiteral s := by
  induction h with
  | nil => exact .nil
  | plain hq hb hc h ih => exact .plain hq hb hc ih
  | @escape l x s t hl h ih =>
    refine .escape ?_ ih
    have := List.mem_map_of_mem (f := Prod.fst) hl
    exact this
  | unit hn hh hl h ih => exact .unit rfl (isHexDigit_of_unit? hn) ih
  | pair hn hh hm hl h ih =>
    exact .unit rfl (isHexDigit_of_unit? hn) (.unit rfl (isHexDigit_of_unit? hm) ih)

theorem isLiteral_encode (s : List Char) : IsLiteral (encode s) :=
  (Spells.of_decode (decode_encode s)).isLiteral

/-- A literal without a backslash stands for itself. -/
theorem decode_of_unescaped (hs : IsLiteral s) (hb : '\\' ∉ s) : decode s = some s := by
  induction hs with
  | nil => rfl
  | plain hq hne hc h ih =>
    rw [decode_plain _ hne hq (Nat.not_lt.2 hc), ih (List.not_mem_of_not_mem_cons hb)]
    rfl
  | _ => exact absurd List.mem_cons_self hb

end Literal

/-- Every number and every string of the value is spelled by the grammar. -/
def IsSpelled (v : Json) : Prop := ∀ t ∈ v.tokens, t.IsValid

section Spelled

variable {vs : List Json} {ms : List (List Char × Json)}

theorem forall_itemTokens {p : Token → Prop} (hm : ∀ m, p (.mark m)) :
    (∀ t ∈ itemTokens vs, p t) ↔ ∀ v ∈ vs, ∀ t ∈ v.tokens, p t := by
  induction vs with
  | nil => simp [itemTokens]
  | cons v vs ih =>
    cases vs with
    | nil => simp [itemTokens]
    | cons w vs => simp only [itemTokens, List.forall_mem_append, List.forall_mem_cons, ih, hm,
        true_and]

theorem forall_memberTokens {p : Token → Prop} (hm : ∀ m, p (.mark m)) :
    (∀ t ∈ memberTokens ms, p t) ↔ ∀ m ∈ ms, p (.string m.1) ∧ ∀ t ∈ m.2.tokens, p t := by
  induction ms with
  | nil => simp [memberTokens]
  | cons m ms ih =>
    cases ms with
    | nil => simp [memberTokens, hm]
    | cons n ms =>
      simp only [memberTokens, List.forall_mem_append, List.forall_mem_cons, ih, hm, true_and,
        and_assoc]

theorem isSpelled_array : (array vs).IsSpelled ↔ ∀ v ∈ vs, v.IsSpelled := by
  rw [IsSpelled, tokens, List.forall_mem_cons, List.forall_mem_append,
    forall_itemTokens fun _ => trivial]
  simp [IsSpelled, Token.IsValid]

theorem isSpelled_object :
    (object ms).IsSpelled ↔ ∀ m ∈ ms, IsLiteral m.1 ∧ m.2.IsSpelled := by
  rw [IsSpelled, tokens, List.forall_mem_cons, List.forall_mem_append,
    forall_memberTokens fun _ => trivial]
  simp [IsSpelled, Token.IsValid]

theorem isSpelled_string {s : List Char} : (string s).IsSpelled ↔ IsLiteral s := by
  simp [IsSpelled, tokens, Token.IsValid]

theorem isSpelled_null : null.IsSpelled := by simp [IsSpelled, tokens, Token.IsValid]

theorem isSpelled_bool (b : Bool) : (bool b).IsSpelled := by
  simp [IsSpelled, tokens, Token.IsValid]

end Spelled

section Compact

variable {v : Json} {s : List Char}

theorem IsText.isSpelled (h : v.IsText s) : v.IsSpelled := h.isValid

theorem lexed_flatMap_text {ts : List Token} (h : ∀ t ∈ ts, t.IsValid) :
    Lexed ts (ts.flatMap Token.text) := by
  induction ts with
  | nil => exact .nil allBlank_nil
  | cons t ts ih =>
    obtain ⟨ht, hts⟩ := List.forall_mem_cons.1 h
    exact .token ht (ih hts)

/-- The compact text is a text of the value. -/
theorem IsSpelled.isText (h : v.IsSpelled) : v.IsText v.text := lexed_flatMap_text h

theorem le_toNat_of_isHexDigit {c : Char} (h : isHexDigit c = true) : 0x20 ≤ c.toNat := by
  simp only [isHexDigit, Char.isDigit, Char.le_def, UInt32.le_iff_toNat_le, ge_iff_le,
    Bool.or_eq_true, Bool.and_eq_true, decide_eq_true_eq] at h
  rcases h with (h | h) | h <;> exact le_trans (by decide) h.1

theorem AllDigits.le_toNat (h : AllDigits s) : ∀ c ∈ s, 0x20 ≤ c.toNat :=
  fun c hc => le_toNat_of_isHexDigit (by simp [isHexDigit, h c hc])

theorem IsNumber.le_toNat (h : IsNumber s) : ∀ c ∈ s, 0x20 ≤ c.toNat := by
  obtain ⟨sign, whole, fraction, exponent, rfl, hsign, hwhole, hfraction, hexponent⟩ := h
  simp only [List.forall_mem_append]
  refine ⟨?_, ?_, ?_, ?_⟩
  · rcases hsign with rfl | rfl <;> simp
  · rcases hwhole with rfl | ⟨c, ds, rfl, -, hc, hds⟩
    · simp
    · exact (allDigits_cons.2 ⟨hc, hds⟩).le_toNat
  · rcases hfraction with rfl | ⟨ds, rfl, -, hds⟩
    · exact List.forall_mem_nil _
    · exact List.forall_mem_cons.2 ⟨by decide, hds.le_toNat⟩
  · rcases hexponent with rfl | ⟨e, sign, ds, rfl, he, hsign, -, hds⟩
    · exact List.forall_mem_nil _
    · refine List.forall_mem_cons.2 ⟨?_, List.forall_mem_append.2 ⟨?_, hds.le_toNat⟩⟩
      · rcases he with rfl | rfl <;> decide
      · rcases hsign with rfl | rfl | rfl <;> simp

theorem IsLiteral.le_toNat (h : IsLiteral s) : ∀ c ∈ s, 0x20 ≤ c.toNat := by
  induction h with
  | nil => exact List.forall_mem_nil _
  | plain _ _ hc _ ih => exact List.forall_mem_cons.2 ⟨hc, ih⟩
  | @escape l _ hl _ ih =>
    have hletter : ∀ l ∈ ['"', '\\', '/', 'b', 'f', 'n', 'r', 't'], 0x20 ≤ l.toNat := by simp
    exact List.forall_mem_cons.2 ⟨by decide, List.forall_mem_cons.2 ⟨hletter l hl, ih⟩⟩
  | unit _ hhex _ ih =>
    refine List.forall_mem_cons.2 ⟨by decide, List.forall_mem_cons.2 ⟨by decide, ?_⟩⟩
    exact List.forall_mem_append.2 ⟨fun c hc => le_toNat_of_isHexDigit (hhex c hc), ih⟩

/-- No control character below U+0020 stands in a token. -/
theorem Token.IsValid.le_toNat {t : Token} (h : t.IsValid) : ∀ c ∈ t.text, 0x20 ≤ c.toNat := by
  cases t with
  | mark m => cases m <;> simp [text, Mark.char]
  | word w => cases w <;> simp [text, Word.letters]
  | number s => exact IsNumber.le_toNat h
  | string s =>
    have hquote : ∀ c ∈ ['"'], 0x20 ≤ c.toNat := by simp
    exact List.forall_mem_append.2
      ⟨List.forall_mem_cons.2 ⟨by decide, IsLiteral.le_toNat h⟩, hquote⟩

theorem IsSpelled.le_toNat (h : v.IsSpelled) : ∀ c ∈ v.text, 0x20 ≤ c.toNat := by
  intro c hc
  obtain ⟨t, ht, hc⟩ := List.mem_flatMap.1 hc
  exact (h t ht).le_toNat c hc

end Compact

end SharedStages.Json
