import Mathlib.Data.List.DropRight
import SharedStages.Proofs.Json.Spelling
import SharedStages.Proofs.StageId
import SharedStages.Proofs.Text.Canonical
import SharedStages.Wire

/-! Ids as decimal text and as JSON. Both are written alike. The JSON reader takes this one text
with blanks around it, and the other reader every numeral, of which it is the canonical one. -/

namespace SharedStages

open Text.Decimal

namespace Json

/-- A text without the blanks at its two ends. -/
def trimmed (s : List Char) : List Char := (s.dropWhile isBlank).rdropWhile isBlank

section Trimming

variable {before body after : List Char}

theorem trimmed_append (hb : AllBlank before) (hbody : ∀ c ∈ body, isBlank c = false)
    (ha : AllBlank after) (hne : body ≠ []) : trimmed (before ++ (body ++ after)) = body := by
  obtain ⟨c, cs, hcs⟩ := List.exists_cons_of_ne_nil hne
  have hfront : (before ++ (body ++ after)).dropWhile isBlank = body ++ after := by
    rw [List.dropWhile_append_of_pos hb, hcs, List.cons_append]
    apply List.dropWhile_cons_of_neg
    rw [hbody c (by simp [hcs])]
    exact Bool.false_ne_true
  have hback : (after.reverse ++ body.reverse).dropWhile isBlank = body.reverse := by
    rw [List.dropWhile_append_of_pos fun c hc => ha c (List.mem_reverse.1 hc)]
    apply List.dropWhile_eq_self_iff.2
    intro hpos
    rw [hbody _ (List.mem_reverse.1 (List.getElem_mem hpos))]
    exact Bool.false_ne_true
  rw [trimmed, hfront, List.rdropWhile, List.reverse_append, hback, List.reverse_reverse]

end Trimming

section Numbers

variable {n s : List Char} {v : ℤ}

/-- The texts of a number are its spelling with blanks around it. -/
theorem isText_number : (number n).IsText s ↔ IsNumber n ∧
    ∃ before after, AllBlank before ∧ AllBlank after ∧ s = before ++ (n ++ after) := by
  constructor
  · intro h
    cases h with
    | @cons _ _ before _ hbefore hn hrest =>
      cases hrest with
      | nil hafter => exact ⟨hn, before, _, hbefore, hafter, rfl⟩
  · rintro ⟨hn, before, after, hbefore, hafter, rfl⟩
    exact .cons hbefore hn (.nil hafter)

/-- A number of digits only, a minus sign apart, has neither a fraction nor an exponent. -/
theorem IsNumber.whole (hn : IsNumber n) (hd : ∀ c ∈ unsigned n, IsDigit c) :
    IsWhole (unsigned n) ∧ (n = unsigned n ∨ n = '-' :: unsigned n) := by
  obtain ⟨sign, whole, fraction, exponent, rfl, hsign, hwhole, hfraction, hexponent⟩ := hn
  have hdigits : ∀ c ∈ whole, IsDigit c := by
    rcases hwhole with rfl | ⟨c, ds, rfl, -, hc, hds⟩
    · simp [IsDigit]
    · exact fun d hd => isDigit_iff.1 (allDigits_cons.2 ⟨hc, hds⟩ d hd)
  have hunsigned : unsigned (sign ++ (whole ++ (fraction ++ exponent))) =
      whole ++ (fraction ++ exponent) := by
    rcases hsign with rfl | rfl
    · obtain ⟨c, ds, rfl⟩ : ∃ c ds, whole = c :: ds := by
        rcases hwhole with rfl | ⟨c, ds, rfl, -⟩
        · exact ⟨_, _, rfl⟩
        · exact ⟨c, ds, rfl⟩
      exact (unsigned_of_isDigit (hdigits c List.mem_cons_self)).1
    · rfl
  rw [hunsigned] at hd ⊢
  obtain ⟨-, hd⟩ := List.forall_mem_append.1 hd
  obtain ⟨hdf, hde⟩ := List.forall_mem_append.1 hd
  have hf : fraction = [] := by
    rcases hfraction with rfl | ⟨ds, rfl, -⟩
    · rfl
    · exact absurd (hdf '.' List.mem_cons_self).1 (by decide)
  have he : exponent = [] := by
    rcases hexponent with rfl | ⟨e, t, ds, rfl, he, -⟩
    · rfl
    · have hle := (hde e List.mem_cons_self).2
      rcases he with rfl | rfl
      · exact absurd hle (by decide)
      · exact absurd hle (by decide)
  subst hf he
  rw [List.append_nil, List.append_nil]
  refine ⟨hwhole, ?_⟩
  rcases hsign with rfl | rfl
  · exact .inl rfl
  · exact .inr rfl

/-- The digits of a number are a whole part, and so is a number written with a sign. -/
theorem isNumber_write (v : ℤ) : IsNumber (write v) := by
  obtain ⟨c, ds, hds⟩ := exists_toDigits v.natAbs
  have hdigits : AllDigits (c :: ds) := by
    rw [← hds]
    exact fun d hd => isDigit_iff.2 (isDigit_of_mem_toDigits hd)
  have hwhole : IsWhole (Nat.toDigits 10 v.natAbs) := by
    by_cases hc : c = '0'
    · subst hc
      rw [eq_zero_of_toDigits hds]
      exact .inl rfl
    · obtain ⟨hc', hds'⟩ := allDigits_cons.1 hdigits
      exact .inr ⟨c, ds, hds, hc, hc', hds'⟩
  unfold write
  split_ifs with hv
  · exact ⟨['-'], _, [], [], by simp, .inr rfl, hwhole, .inl rfl, .inl rfl⟩
  · exact ⟨[], _, [], [], by simp, .inl rfl, hwhole, .inl rfl, .inl rfl⟩

/-- A number that is a numeral is the canonical one, negative zero apart. -/
theorem IsNumber.eq_write (hn : IsNumber n) (hv : IsNumeral n v) (hzero : n ≠ ['-', '0']) :
    n = write v := by
  obtain ⟨-, hd, -⟩ := isNumeral_iff.1 hv
  obtain ⟨hwhole, hsign⟩ := hn.whole hd
  rw [hv.eq_write_iff]
  refine ⟨fun hplus => ?_, ?_, ?_⟩
  · have hplus' : '+' ∉ unsigned n := fun h => absurd (hd '+' h).1 (by decide)
    rcases hsign with h | h
    · exact hplus' (h ▸ hplus)
    · rw [h, List.mem_cons] at hplus
      exact hplus.elim (by decide) hplus'
  · rintro ⟨ds, hne, hds⟩
    rcases hwhole with h | ⟨c, es, h, hc, -⟩
    · rw [h] at hds
      exact hne (List.cons.inj hds).2.symm
    · rw [h] at hds
      exact hc (List.cons.inj hds).1
  · rintro ⟨hneg, hall⟩
    rcases hwhole with h | ⟨c, es, h, hc, -⟩
    · rcases hsign with h' | h'
      · rw [h', h] at hneg
        cases hneg
      · rw [h'.trans (congrArg _ h)] at hzero
        exact hzero rfl
    · exact hc (hall c (by rw [h]; exact List.mem_cons_self))

end Numbers

end Json

namespace StageId

open Json

variable {s t : String} {i : StageId}

theorem ofText_eq_ok_iff_isNumeral : ofText s = .ok i ↔ IsNumeral s.toList i.toInt := by
  rw [ofText_eq_ok_iff, read_eq_ok_iff bounds_zero, and_iff_left (bounds_holds i)]

theorem ofText?_eq_some_iff : ofText? s = some i ↔ ofText s = .ok i := by
  unfold ofText?
  cases ofText s <;> simp [Except.toOption]

theorem toList_text (i : StageId) : i.text.toList = write i.toInt := String.toList_ofList

theorem ofText_text (i : StageId) : ofText i.text = .ok i := by
  rw [ofText_eq_ok_iff_isNumeral, toList_text]
  exact isNumeral_write i.toInt

theorem json_eq_text (i : StageId) : i.json = i.text := by
  simp [json, text, print, Json.text, toJson, tokens, Token.text]

/-- Of the numbers, an id is read from the one that it is written as. -/
theorem ofJson?_eq_some_iff {v : Json} (hv : v.IsSpelled) :
    ofJson? v = some i ↔ v = .number (write i.toInt) := by
  cases v with
  | number n =>
    have hn : IsNumber n := hv (.number n) List.mem_cons_self
    have hof : ofText? (String.ofList n) = some i ↔ IsNumeral n i.toInt := by
      rw [ofText?_eq_some_iff, ofText_eq_ok_iff_isNumeral, String.toList_ofList]
    rw [number.injEq, ofJson?]
    split_ifs with hzero
    · refine iff_of_false nofun fun h => ?_
      apply not_isNegativeZero_write i.toInt
      rw [← h, hzero]
      exact ⟨rfl, List.forall_mem_singleton.2 rfl⟩
    · rw [hof]
      constructor
      · exact fun h => hn.eq_write h hzero
      · rintro rfl
        exact isNumeral_write i.toInt
  | _ => simp [ofJson?]

theorem parseJson?_eq_some_iff : parseJson? t = some i ↔
    ∃ before after, AllBlank before ∧ AllBlank after ∧
      t.toList = before ++ (i.text.toList ++ after) := by
  rw [toList_text]
  constructor
  · intro h
    obtain ⟨v, hv, hi⟩ := Option.bind_eq_some_iff.1 h
    have htext := read?_eq_some_iff.1 hv
    rw [(ofJson?_eq_some_iff htext.isSpelled).1 hi] at htext
    exact (isText_number.1 htext).2
  · intro h
    have htext : (number (write i.toInt)).IsText t.toList :=
      isText_number.2 ⟨isNumber_write i.toInt, h⟩
    have hread : parse? t = some (number (write i.toInt)) := read?_eq_some_iff.2 htext
    rw [parseJson?, hread]
    exact (ofJson?_eq_some_iff htext.isSpelled).2 rfl

theorem isBlank_of_mem_write {c : Char} {v : ℤ} (h : c ∈ write v) : isBlank c = false := by
  rcases mem_write h with rfl | hc
  · rfl
  · have hge : '0' ≤ c := hc.1
    have hne : ∀ x ∈ [' ', '\t', '\n', '\r'], c ≠ x := by
      rintro x hx rfl
      simp at hx
      rcases hx with rfl | rfl | rfl | rfl <;> exact absurd hge (by decide)
    simpa [isBlank, and_assoc] using hne

/-- An id has one text, which both readers give back. Of all texts that stand for the id it is the
canonical one, and the JSON texts of the id are this text with blanks around it; without these, the
other reader takes them too. -/
theorem text_canonical :
    (∀ i : StageId, ofText i.text = .ok i ∧ parseJson? i.json = some i ∧ i.json = i.text) ∧
    (∀ (s : String) (i : StageId), ofText s = .ok i →
      (s = i.text ↔ '+' ∉ s.toList ∧ ¬ HasSpareZero s.toList ∧ ¬ IsNegativeZero s.toList)) ∧
    (∀ (t : String) (i : StageId), parseJson? t = some i ↔
      ∃ before after, AllBlank before ∧ AllBlank after ∧
        t.toList = before ++ (i.text.toList ++ after)) ∧
    ∀ (t : String) (i : StageId), parseJson? t = some i →
      ofText (String.ofList (trimmed t.toList)) = .ok i := by
  refine ⟨fun i => ⟨ofText_text i, ?_, json_eq_text i⟩, fun s i hs => ?_,
    fun _ _ => parseJson?_eq_some_iff, fun t i ht => ?_⟩
  · rw [json_eq_text, parseJson?_eq_some_iff]
    exact ⟨[], [], allBlank_nil, allBlank_nil, (List.append_nil _).symm⟩
  · rw [← (ofText_eq_ok_iff_isNumeral.1 hs).eq_write_iff, ← toList_text, String.toList_inj]
  · obtain ⟨before, after, hbefore, hafter, ht⟩ := parseJson?_eq_some_iff.1 ht
    have htrimmed : trimmed t.toList = write i.toInt := by
      rw [ht, toList_text]
      apply trimmed_append hbefore (fun c => isBlank_of_mem_write) hafter
      exact fun h => not_isNumber_nil (h ▸ isNumber_write i.toInt)
    rw [htrimmed]
    exact ofText_text i

/-- The lowest id, with a spare zero as decimal text, and with blanks around it in JSON. -/
theorem text_canonical_lowest :
    ofText "-09223372036854775808" = .ok (ofInt (-2 ^ 63)) ∧
    "-09223372036854775808" ≠ (ofInt (-2 ^ 63)).text ∧
    parseJson? "\n -9223372036854775808\t" = some (ofInt (-2 ^ 63)) ∧
    ofText (String.ofList (trimmed "\n -9223372036854775808\t".toList)) =
      .ok (ofInt (-2 ^ 63)) := by
  obtain ⟨-, hcanonical, -, hagree⟩ := text_canonical
  have htext : ofText "-09223372036854775808" = .ok (ofInt (-2 ^ 63)) := by decide
  have hjson : parseJson? "\n -9223372036854775808\t" = some (ofInt (-2 ^ 63)) := by decide
  refine ⟨htext, fun h => ?_, hjson, hagree _ _ hjson⟩
  have hspare := ((hcanonical _ _ htext).1 h).2.1
  exact hspare ⟨"9223372036854775808".toList, by decide, by decide⟩

/-- No id is read from JSON where there is a sign before zero. -/
example : parseJson? "-0" = none ∧ ofText "-0" = .ok (ofInt 0) := by decide

end StageId

end SharedStages
