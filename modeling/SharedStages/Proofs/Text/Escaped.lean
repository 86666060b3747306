import SharedStages.Proofs.Text.OneLine

/-! Escaped texts tell the texts they stand for. Where the escape of a character ends, and of which
character it is, can be seen without the tables and without knowing what comes next. -/

namespace SharedStages.Text

section Digits

variable {b m n : ℕ} {a : Char} {x y t u : List Char}

theorem digitChar_inj : ∀ i < 16, ∀ j < 16, Nat.digitChar i = Nat.digitChar j → i = j := by decide

theorem toDigits_inj (hb : 1 < b) (hb' : b ≤ 16) (h : Nat.toDigits b m = Nat.toDigits b n) :
    m = n := by
  induction m using Nat.strongRecOn generalizing n with
  | _ m ih =>
    -- one digit is never as long as two or more
    have hlong (k : ℕ) (c d : Char) : Nat.toDigits b k ++ [c] ≠ [d] := by
      intro h
      have hpos := Nat.length_toDigits_pos (b := b) (n := k)
      have hlen := congrArg List.length h
      simp only [List.length_append, List.length_singleton] at hlen
      omega
    rcases Nat.lt_or_ge m b with hm | hm <;> rcases Nat.lt_or_ge n b with hn | hn
    · rw [Nat.toDigits_of_lt_base hm, Nat.toDigits_of_lt_base hn] at h
      exact digitChar_inj m (by omega) n (by omega) (List.singleton_inj.1 h)
    · rw [Nat.toDigits_of_lt_base hm, Nat.toDigits_of_base_le hb hn] at h
      exact absurd h.symm (hlong _ _ _)
    · rw [Nat.toDigits_of_base_le hb hm, Nat.toDigits_of_lt_base hn] at h
      exact absurd h (hlong _ _ _)
    · rw [Nat.toDigits_of_base_le hb hm, Nat.toDigits_of_base_le hb hn] at h
      obtain ⟨hhigh, hlow⟩ := List.append_inj' h rfl
      have hdiv : m / b = n / b := ih (m / b) (Nat.div_lt_self (by omega) hb) hhigh
      have hlt (k : ℕ) : k % b < 16 := Nat.lt_of_lt_of_le (Nat.mod_lt k (by omega)) hb'
      have hmod := digitChar_inj (m % b) (hlt m) (n % b) (hlt n) (List.singleton_inj.1 hlow)
      rw [← Nat.div_add_mod m b, ← Nat.div_add_mod n b, hdiv, hmod]

/-- What stands before the first `a`, and what stands after it. -/
theorem append_cons_inj (hx : a ∉ x) (hy : a ∉ y) (h : x ++ a :: t = y ++ a :: u) :
    x = y ∧ t = u := by
  have hcut {l : List Char} (hl : a ∉ l) (r : List Char) :
      (l ++ a :: r).takeWhile (· ≠ a) = l := by
    have hne : ∀ c ∈ l, decide (c ≠ a) = true := by
      intro c hc
      rw [decide_eq_true_iff]
      rintro rfl
      exact hl hc
    rw [List.takeWhile_append_of_pos hne]
    simp
  have hxy : x = y := by
    rw [← hcut hx t, h, hcut hy u]
  subst hxy
  exact ⟨rfl, (List.cons.inj (List.append_cancel_left h)).2⟩

end Digits

/-- The characters with a letter after a backslash. -/
def letters : List (Char × Char) :=
  [('\x00', '0'), ('\t', 't'), ('\r', 'r'), ('\n', 'n'), ('\\', '\\'), ('"', '"'), ('\x27', '\x27')]

theorem mem_letters {apostrophe : Bool} {c l : Char} (h : escapeLetter apostrophe c = some l) :
    (c, l) ∈ letters := by
  unfold escapeLetter at h
  split_ifs at h <;> cases h <;> simp_all [letters]

/-- No two characters have the same letter. -/
theorem letters_inj : ∀ x ∈ letters, ∀ y ∈ letters, x.2 = y.2 → x.1 = y.1 := by decide

/-- No letter is the one that code points begin with. -/
theorem letters_ne : ∀ x ∈ letters, x.2 ≠ 'u' := by decide

/-- A spelling of one character, whichever tables decide on it. -/
inductive Escape (c : Char) : List Char → Prop where
  | letter {l} : (c, l) ∈ letters → Escape c ['\\', l]
  | code : Escape c (codePoint c)
  | plain : c ≠ '\\' → c ≠ '"' → Escape c [c]

/-- A spelling of a text, character by character. -/
inductive Escapes : List Char → List Char → Prop where
  | nil : Escapes [] []
  | cons {c s w v} : Escape c w → Escapes s v → Escapes (c :: s) (w ++ v)

/-- No spelling of a character can begin here. -/
def Ends (t : List Char) : Prop := ∀ c w v, Escape c w → t ≠ w ++ v

section Escapes

variable {c d : Char} {s s' v w w' t u : List Char}

theorem Escape.ne_nil (h : Escape c w) : w ≠ [] := by
  cases h <;> simp [codePoint]

theorem ends_nil : Ends [] := fun _ _ _ h heq => h.ne_nil (List.append_eq_nil_iff.1 heq.symm).1

theorem ends_quote (t : List Char) : Ends ('"' :: t) := by
  intro c w v h heq
  cases h with
  | letter _ => cases heq
  | code => cases heq
  | plain _ hq => exact hq (List.cons.inj heq).1.symm

theorem codePoint_append_inj (h : codePoint c ++ t = codePoint d ++ u) : c = d ∧ t = u := by
  have hbrace (c : Char) : '\x7d' ∉ Nat.toDigits 16 c.toNat := by
    intro hmem
    obtain ⟨i, -, hi⟩ := mem_toDigits (by decide) hmem
    exact Nat.digitChar_ne '\x7d' (by decide) hi.symm
  unfold codePoint at h
  simp only [List.append_assoc, List.cons_append, List.nil_append, List.cons.injEq, true_and] at h
  obtain ⟨hdigits, ht⟩ := append_cons_inj (hbrace c) (hbrace d) h
  exact ⟨Char.toNat_inj.1 (toDigits_inj (by decide) (by decide) hdigits), ht⟩

/-- A spelling ends where it ends for every character, and stands for one only. -/
theorem Escape.append_inj (h : Escape c w) (h' : Escape d w') (heq : w ++ t = w' ++ u) :
    c = d ∧ t = u := by
  cases h with
  | letter hl =>
    cases h' with
    | letter hl' =>
      obtain ⟨rfl, rfl⟩ := List.cons.inj (List.cons.inj heq).2
      exact ⟨letters_inj _ hl _ hl' rfl, rfl⟩
    | code => exact absurd (List.cons.inj (List.cons.inj heq).2).1 (letters_ne _ hl)
    | plain hb _ => exact absurd (List.cons.inj heq).1.symm hb
  | code =>
    cases h' with
    | letter hl' => exact absurd (List.cons.inj (List.cons.inj heq).2).1.symm (letters_ne _ hl')
    | code => exact codePoint_append_inj heq
    | plain hb _ => exact absurd (List.cons.inj heq).1.symm hb
  | plain hb _ =>
    cases h' with
    | letter _ => exact absurd (List.cons.inj heq).1 hb
    | code => exact absurd (List.cons.inj heq).1 hb
    | plain _ _ => exact List.cons.inj heq

/-- A spelling that ends in front of what cannot begin another one tells its text. -/
theorem Escapes.append_inj (h : Escapes s w) (h' : Escapes s' w') (ht : Ends t) (hu : Ends u)
    (heq : w ++ t = w' ++ u) : s = s' := by
  induction h generalizing s' w' with
  | nil =>
    cases h' with
    | nil => rfl
    | cons hd _ =>
      rw [List.append_assoc] at heq
      exact absurd heq (ht _ _ _ hd)
  | cons hc _ ih =>
    cases h' with
    | nil =>
      rw [List.append_assoc] at heq
      exact absurd heq.symm (hu _ _ _ hc)
    | cons hd hs' =>
      rw [List.append_assoc, List.append_assoc] at heq
      obtain ⟨rfl, hrest⟩ := hc.append_inj hd heq
      rw [ih hs' hrest]

end Escapes

namespace Glyphs

variable (g : Glyphs) {s s' t u : List Char}

theorem escape_escapeChar (apostrophe alone : Bool) (c : Char) :
    Escape c (g.escapeChar apostrophe alone c) := by
  unfold escapeChar
  cases hl : escapeLetter apostrophe c with
  | some l => exact .letter (mem_letters hl)
  | none =>
    simp only
    split_ifs
    · exact .code
    · refine .plain ?_ ?_ <;> rintro rfl <;> simp [escapeLetter] at hl

theorem escapes_flatMap (apostrophe alone : Bool) (s : List Char) :
    Escapes s (s.flatMap (g.escapeChar apostrophe alone)) := by
  induction s with
  | nil => exact .nil
  | cons c s ih => exact .cons (g.escape_escapeChar apostrophe alone c) ih

theorem escapes_escapeChars (s : List Char) : Escapes s (g.escapeChars s) := by
  cases s with
  | nil => exact .nil
  | cons c s => exact .cons (g.escape_escapeChar true true c) (g.escapes_flatMap true false s)

/-- A quoted text ends at its closing quote. -/
theorem quoteChars_append_inj (h : g.quoteChars s ++ t = g.quoteChars s' ++ u) : s = s' := by
  unfold quoteChars at h
  simp only [List.append_assoc, List.cons_append, List.nil_append, List.cons.injEq, true_and] at h
  exact (g.escapes_flatMap false true s).append_inj (g.escapes_flatMap false true s')
    (ends_quote t) (ends_quote u) h

theorem escape_inj {s s' : String} : g.escape s = g.escape s' ↔ s = s' := by
  constructor
  · intro h
    rw [← String.toList_inj, toList_escape, toList_escape] at h
    rw [← String.toList_inj]
    apply (g.escapes_escapeChars s.toList).append_inj (g.escapes_escapeChars s'.toList) ends_nil
      ends_nil
    rw [List.append_nil, List.append_nil, h]
  · exact congrArg g.escape

end Glyphs

end SharedStages.Text
