import Mathlib.Data.List.Chain
import SharedStages.Proofs.Json.Grammar

/-! The scanner cuts a text where the grammar does: what it accepts is made of valid tokens with
blanks around them, and such a text is accepted unless two numbers touch. -/

namespace SharedStages.Json

variable {c : Char} {s rest : List Char} {ts : List Token}

section Marks

theorem Mark.ofChar?_eq_some {m : Mark} (h : Mark.ofChar? c = some m) : m.char = c := by
  unfold Mark.ofChar? at h
  simpa using List.find?_some h

theorem Word.ofInitial?_eq_some {w : Word} (h : Word.ofInitial? c = some w) :
    w.letters = c :: w.letters.tail := by
  unfold Word.ofInitial? at h
  have hhead : w.letters.head? = some c := by simpa using List.find?_some h
  obtain ⟨l, hl⟩ := List.head?_eq_some_iff.1 hhead
  rw [hl, List.tail_cons]

end Marks

namespace Scan

/-- What is still to come: the end of the token that is being read, and then the other tokens. -/
def Owes : Scan → List Token → List Char → Prop
  | between, ts, s => Lexed ts s
  | word w missing, ts, s => ∃ rest us, s = missing ++ rest ∧ ts = .word w :: us ∧ Lexed us rest
  | number q seen, ts, s => ∃ body rest us, s = body ++ rest ∧ q.Rest body ∧
    ts = .number (seen.reverse ++ body) :: us ∧ Lexed us rest
  | string q seen, ts, s => ∃ body rest us, s = body ++ '"' :: rest ∧ q.Rest body ∧
    ts = .string (seen.reverse ++ body) :: us ∧ Lexed us rest

theorem start_owes {r : List Token × Scan} (h : start c = some r) (ho : r.2.Owes ts s) :
    Lexed (r.1 ++ ts) (c :: s) := by
  unfold start at h
  split at h
  · rename_i hb
    cases h
    exact Lexed.blank hb ho
  split at h
  · rename_i hq
    cases h
    obtain ⟨body, rest, us, rfl, hbody, rfl, hus⟩ := ho
    subst hq
    simpa [Token.text] using Lexed.token (t := .string body) hbody hus
  split at h
  · rename_i m hm
    cases h
    rw [← Mark.ofChar?_eq_some hm]
    exact Lexed.token (t := .mark m) trivial ho
  split at h
  · rename_i w hw
    cases h
    obtain ⟨rest, us, rfl, rfl, hus⟩ := ho
    have hword := Lexed.token (t := .word w) trivial hus
    rwa [Token.text, Word.ofInitial?_eq_some hw] at hword
  · obtain ⟨q, hq, rfl⟩ := Option.map_eq_some_iff.1 h
    obtain ⟨body, rest, us, rfl, hbody, rfl, hus⟩ := ho
    exact Lexed.token (t := .number (c :: body)) (isNumber_cons.2 ⟨q, hq, hbody⟩) hus

theorem step_owes {q : Scan} {r : List Token × Scan} (h : q.step c = some r)
    (ho : r.2.Owes ts s) : q.Owes (r.1 ++ ts) (c :: s) := by
  cases q with
  | between => exact start_owes h ho
  | word w missing =>
    cases missing with
    | nil => cases h
    | cons x missing =>
      simp only [step] at h
      split_ifs at h with hx hm
      · cases h
        exact ⟨s, ts, by simp [hm, not_not.1 hx], rfl, ho⟩
      · cases h
        obtain ⟨rest, us, rfl, rfl, hus⟩ := ho
        exact ⟨rest, us, by simp [not_not.1 hx], rfl, hus⟩
  | number q seen =>
    simp only [step] at h
    cases hq : q.step? c with
    | some q' =>
      rw [hq] at h
      cases h
      obtain ⟨body, rest, us, rfl, hbody, rfl, hus⟩ := ho
      exact ⟨c :: body, rest, us, rfl, (q.rest_cons).2 ⟨q', hq, hbody⟩, by simp, hus⟩
    | none =>
      rw [hq] at h
      simp only at h
      split_ifs at h with hc
      -- the number ends before `c`, which starts what comes next
      obtain ⟨r', hr', rfl⟩ := Option.map_eq_some_iff.1 h
      exact ⟨[], c :: s, r'.1 ++ ts, rfl, q.rest_nil.2 hc, by simp, start_owes hr' ho⟩
  | string q seen =>
    simp only [step] at h
    split_ifs at h with hend
    · cases h
      obtain ⟨rfl, rfl⟩ := hend
      exact ⟨[], s, ts, rfl, .nil, by simp, ho⟩
    · obtain ⟨q', hq', rfl⟩ := Option.map_eq_some_iff.1 h
      obtain ⟨body, rest, us, rfl, hbody, rfl, hus⟩ := ho
      exact ⟨c :: body, rest, us, rfl, q.rest_cons.2 ⟨q', hq', hbody⟩, by simp, hus⟩

theorem finish_owes {q : Scan} (h : q.finish = some ts) : q.Owes ts [] := by
  cases q with
  | between =>
    cases h
    exact .nil allBlank_nil
  | number q seen =>
    simp only [finish] at h
    split_ifs at h with hc
    cases h
    exact ⟨[], [], [], rfl, q.rest_nil.2 hc, by simp, .nil allBlank_nil⟩
  | _ => cases h

theorem run_owes {q : Scan} (h : q.run s = some ts) : q.Owes ts s := by
  induction s generalizing q ts with
  | nil => exact finish_owes h
  | cons c s ih =>
    rw [run_cons] at h
    obtain ⟨r, hr, h⟩ := Option.bind_eq_some_iff.1 h
    obtain ⟨us, hus, rfl⟩ := Option.map_eq_some_iff.1 h
    exact step_owes hr (ih hus)

/-- A number ends where such a text begins. -/
def Stops (s : List Char) : Prop :=
  ∀ c ∈ s.head?, c.isDigit = false ∧ c ≠ '.' ∧ c ≠ 'e' ∧ c ≠ 'E'

theorem stops_nil : Stops [] := by simp [Stops]

theorem stops_of_isBlank (hc : isBlank c = true) : Stops (c :: s) := by
  rintro _ ⟨⟩
  simp only [isBlank, Bool.or_eq_true, decide_eq_true_eq, or_assoc] at hc
  rcases hc with rfl | rfl | rfl | rfl <;> decide

theorem stops_of_mark (m : Mark) : Stops (m.char :: s) := by
  rintro _ ⟨⟩
  cases m <;> decide

theorem Stops.step?_eq_none (h : Stops (c :: s)) {q : Numeral} (hq : q.isComplete = true) :
    q.step? c = none := by
  obtain ⟨hd, hp, he, hE⟩ := h c rfl
  cases q <;> simp_all [Numeral.step?, Numeral.step?.tail, Numeral.step?.power, Numeral.isComplete]

/-- A character that ends no token. -/
theorem run_quiet {q q' : Scan} (h : q.step c = some ([], q')) : q.run (c :: s) = q'.run s := by
  rw [run_cons, h]
  exact Option.map_id_apply

/-- A character that ends one. -/
theorem run_ending {q q' : Scan} {t : Token} (h : q.step c = some ([t], q')) :
    q.run (c :: s) = (q'.run s).map (t :: ·) := by
  rw [run_cons, h]
  rfl

theorem run_blanks {b : List Char} (hb : AllBlank b) : run between (b ++ s) = run between s := by
  induction b with
  | nil => rfl
  | cons c b ih =>
    obtain ⟨hc, hb⟩ := List.forall_mem_cons.1 hb
    have hstep : step between c = some ([], between) := by simp [step, start, hc]
    rw [List.cons_append, run_quiet hstep, ih hb]

theorem run_missing {w : Word} {missing : List Char} (hne : missing ≠ []) :
    run (word w missing) (missing ++ s) = (run between s).map (.word w :: ·) := by
  induction missing with
  | nil => exact absurd rfl hne
  | cons x missing ih =>
    cases missing with
    | nil => exact run_ending (by simp [step])
    | cons y missing =>
      have hstep : step (word w (x :: y :: missing)) x = some ([], word w (y :: missing)) := by
        simp [step]
      rw [List.cons_append, run_quiet hstep]
      exact ih (List.cons_ne_nil y missing)

theorem run_string {q : Quoting} {seen body : List Char} (hbody : q.Rest body) :
    run (string q seen) (body ++ '"' :: s) =
      (run between s).map (.string (seen.reverse ++ body) :: ·) := by
  induction body generalizing q seen with
  | nil =>
    rw [q.rest_nil.1 hbody, List.append_nil]
    exact run_ending (by simp [step])
  | cons c body ih =>
    obtain ⟨q', hq', hrest⟩ := q.rest_cons.1 hbody
    have hopen : ¬ (q = .plain ∧ c = '"') := by
      rintro ⟨rfl, rfl⟩
      cases hq'
    have hstep : step (string q seen) c = some ([], string q' (c :: seen)) := by
      simp [step, hopen, hq']
    rw [List.cons_append, run_quiet hstep, ih hrest]
    simp

theorem run_number {q : Numeral} {seen body : List Char} (hbody : q.Rest body) (hs : Stops s) :
    run (number q seen) (body ++ s) =
      (run between s).map (.number (seen.reverse ++ body) :: ·) := by
  induction body generalizing q seen with
  | nil =>
    have hc := q.rest_nil.1 hbody
    cases s with
    | nil => simp [finish, hc]
    | cons c s =>
      rw [List.nil_append, run_cons, run_cons, step, step, hs.step?_eq_none hc]
      cases start c <;> simp [hc, Function.comp_def]
  | cons c body ih =>
    obtain ⟨q', hq', hrest⟩ := q.rest_cons.1 hbody
    have hstep : step (number q seen) c = some ([], number q' (c :: seen)) := by
      simp [step, hq']
    rw [List.cons_append, run_quiet hstep, ih hrest]
    simp

theorem start_of_numeral {q : Numeral} (h : Numeral.start? c = some q) :
    start c = some ([], number q [c]) := by
  have hc : c = '-' ∨ c.isDigit = true := by
    unfold Numeral.start? at h
    split_ifs at h with hm h0 hd
    · exact .inl hm
    · exact .inr (h0 ▸ rfl)
    · exact .inr hd
  have hother : ∀ x ∈ [' ', '\t', '\n', '\r', '"', '{', '}', '[', ']', ',', ':', 'n', 't', 'f'],
      x ≠ '-' ∧ x.isDigit = false := by simp
  have hne : ∀ x ∈ [' ', '\t', '\n', '\r', '"', '{', '}', '[', ']', ',', ':', 'n', 't', 'f'],
      x ≠ c := by
    rintro x hx rfl
    rcases hc with rfl | hd
    · exact (hother _ hx).1 rfl
    · rw [(hother _ hx).2] at hd
      cases hd
  have hblank : isBlank c = false := by
    have (x : Char) (hx : x ∈ [' ', '\t', '\n', '\r']) : c ≠ x :=
      (hne x (List.mem_append_left _ hx)).symm
    simpa [isBlank, and_assoc] using this
  have hquote : c ≠ '"' := (hne '"' (by decide)).symm
  have hmark : Mark.ofChar? c = none := by
    rw [Mark.ofChar?, List.find?_eq_none]
    intro m _ hm
    exact hne m.char (by cases m <;> decide) (of_decide_eq_true hm)
  have hword : Word.ofInitial? c = none := by
    rw [Word.ofInitial?, List.find?_eq_none]
    intro w _ hw
    obtain ⟨l, hl⟩ := List.head?_eq_some_iff.1 (of_decide_eq_true hw)
    cases w <;> cases hl <;> exact hne _ (by decide) rfl
  simp [start, hblank, hquote, hmark, hword, h]

/-- The scanner takes a token to its end, a number if none of its own characters follows. -/
theorem run_token {t : Token} (ht : t.IsValid) (hs : (∃ n, t = .number n) → Stops s) :
    run between (t.text ++ s) = (run between s).map (t :: ·) := by
  cases t with
  | mark m => cases m <;> rfl
  | word w =>
    have hstart : run between (w.letters ++ s) =
        run (word w w.letters.tail) (w.letters.tail ++ s) := by
      cases w <;> exact run_quiet rfl
    rw [Token.text, hstart]
    exact run_missing (by cases w <;> exact List.cons_ne_nil _ _)
  | string body =>
    have hstart : run between ('"' :: (body ++ '"' :: s)) =
        run (string .plain []) (body ++ '"' :: s) := run_quiet rfl
    have hrun : run (string .plain []) (body ++ '"' :: s) =
        (run between s).map (.string body :: ·) := run_string ht
    simpa [Token.text, hstart] using hrun
  | number n =>
    cases n with
    | nil => exact absurd ht not_isNumber_nil
    | cons c body =>
      obtain ⟨q, hq, hbody⟩ := isNumber_cons.1 ht
      rw [Token.text, List.cons_append, run_quiet (q := between) (start_of_numeral hq)]
      exact run_number hbody (hs ⟨_, rfl⟩)

end Scan

def Token.IsMark (t : Token) : Prop := ∃ m, t = .mark m

/-- Of two tokens in a row one is a mark. -/
def Alternating (ts : List Token) : Prop := ts.IsChain fun t u => t.IsMark ∨ u.IsMark

/-- Unless a mark comes next, the text ends or a blank comes. -/
theorem Lexed.stops (h : Lexed ts s) (hm : ∀ t ∈ ts.head?, t.IsMark)
    (hr : ts = [] → Scan.Stops rest) : Scan.Stops (s ++ rest) := by
  cases h with
  | nil hs =>
    cases s with
    | nil => exact hr rfl
    | cons c s => exact Scan.stops_of_isBlank (hs c List.mem_cons_self)
  | @cons t _ b _ hb ht h =>
    cases b with
    | nil =>
      obtain ⟨m, rfl⟩ := hm t rfl
      exact Scan.stops_of_mark m
    | cons c b => exact Scan.stops_of_isBlank (hb c List.mem_cons_self)

theorem tokens?_sound (h : tokens? s = some ts) : Lexed ts s := Scan.run_owes h

/-- No number runs into the next token where marks stand between them. The last token is told from
what follows unless it is a number. -/
theorem Lexed.run_append (h : Lexed ts s) (hsep : Alternating ts)
    (hlast : ∀ n, ts.getLast? = some (.number n) → Scan.Stops rest) :
    Scan.between.run (s ++ rest) = (Scan.between.run rest).map (ts ++ ·) := by
  induction h with
  | nil hs =>
    rw [Scan.run_blanks hs]
    exact Option.map_id_apply.symm
  | @cons t ts b s hb ht h ih =>
    have hstops : (∃ n, t = .number n) → Scan.Stops (s ++ rest) := by
      rintro ⟨n, rfl⟩
      refine h.stops (fun u hu => ?_) fun hts => hlast n (by rw [hts]; rfl)
      obtain ⟨us, rfl⟩ := List.head?_eq_some_iff.1 hu
      rcases (List.isChain_cons_cons.1 hsep).1 with ⟨m, hm⟩ | hm
      · cases hm
      · exact hm
    have hrest : ∀ n, ts.getLast? = some (.number n) → Scan.Stops rest := by
      intro n hn
      refine hlast n ?_
      rw [List.getLast?_cons, hn]
      rfl
    rw [List.append_assoc, List.append_assoc, Scan.run_blanks hb, Scan.run_token ht hstops,
      ih hsep.tail hrest, Option.map_map]
    rfl

theorem Lexed.tokens? (h : Lexed ts s) (hsep : Alternating ts) :
    tokens? s = some ts := by
  have hrun := h.run_append hsep fun _ _ => Scan.stops_nil
  rwa [List.append_nil, Scan.run_nil, Scan.finish, Option.map_some, List.append_nil] at hrun

/-- A number stays one, whatever follows. -/
theorem Lexed.number_append {n : List Char} {us : List Token} (h : Lexed (.number n :: ts) s)
    (hus : Json.tokens? (s ++ rest) = some us) : ∃ m us', us = .number m :: us' := by
  cases h with
  | @cons _ _ b s hb hn h =>
    cases n with
    | nil => exact absurd hn not_isNumber_nil
    | cons c body =>
      obtain ⟨q, hq, -⟩ := isNumber_cons.1 hn
      rw [Json.tokens?, List.append_assoc, Scan.run_blanks hb, Token.text, List.cons_append,
        List.cons_append, Scan.run_quiet (q := .between) (Scan.start_of_numeral hq)] at hus
      obtain ⟨body', rest', us', -, -, hus, -⟩ := Scan.run_owes hus
      exact ⟨_, us', hus⟩

end SharedStages.Json
