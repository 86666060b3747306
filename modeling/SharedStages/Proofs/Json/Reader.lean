import SharedStages.Proofs.Json.Scanner

/-! The reader accepts the texts of values and nothing else, and each for the value it is a text
of. -/

namespace SharedStages.Json

section Consumed

/-! The state of the reader determines the tokens that led to it. -/

/-- Items that others follow. -/
def itemsBefore (vs : List Json) : List Token := vs.flatMap fun v => v.tokens ++ [.mark .comma]

/-- Members that others follow. -/
def membersBefore (ms : List (List Char × Json)) : List Token :=
  ms.flatMap fun m => .string m.1 :: .mark .colon :: (m.2.tokens ++ [.mark .comma])

def Frame.tokens : Frame → List Token
  | items vs => .mark .leftBracket :: itemsBefore vs.reverse
  | member ms s => .mark .leftBrace :: (membersBefore ms.reverse ++ [.string s, .mark .colon])

/-- The tokens of the open containers, the outermost first. -/
def openTokens (fs : List Frame) : List Token := fs.reverse.flatMap Frame.tokens

def Expect.consumed : Expect × List Frame → List Token
  | (value, fs) => openTokens fs
  | (firstItem, fs) => openTokens fs ++ [.mark .leftBracket]
  | (firstMember, fs) => openTokens fs ++ [.mark .leftBrace]
  | (name ms, fs) => openTokens fs ++ .mark .leftBrace :: membersBefore ms.reverse
  | (colon ms s, fs) =>
    openTokens fs ++ .mark .leftBrace :: (membersBefore ms.reverse ++ [.string s])
  | (after v, fs) => openTokens fs ++ v.tokens

theorem openTokens_cons (f : Frame) (fs : List Frame) :
    openTokens (f :: fs) = openTokens fs ++ f.tokens := by
  simp [openTokens]

theorem itemTokens_concat (vs : List Json) (v : Json) :
    itemTokens (vs ++ [v]) = itemsBefore vs ++ v.tokens := by
  induction vs with
  | nil => rfl
  | cons w vs ih =>
    have hcons : itemTokens (w :: (vs ++ [v])) =
        w.tokens ++ .mark .comma :: itemTokens (vs ++ [v]) := by
      cases vs <;> rfl
    rw [List.cons_append, hcons, ih]
    simp [itemsBefore]

theorem memberTokens_concat (ms : List (List Char × Json)) (s : List Char) (v : Json) :
    memberTokens (ms ++ [(s, v)]) = membersBefore ms ++ .string s :: .mark .colon :: v.tokens := by
  induction ms with
  | nil => rfl
  | cons m ms ih =>
    have hcons : memberTokens (m :: (ms ++ [(s, v)])) = .string m.1 :: .mark .colon ::
        (m.2.tokens ++ .mark .comma :: memberTokens (ms ++ [(s, v)])) := by
      cases ms <;> rfl
    rw [List.cons_append, hcons, ih]
    simp [membersBefore]

variable {fs : List Frame} {t : Token} {st st' : Expect × List Frame}

theorem Expect.consumed_start (h : start fs t = some st) : consumed st = openTokens fs ++ [t] := by
  unfold start at h
  split at h <;> cases h <;> rfl

theorem Expect.consumed_step (h : step st t = some st') : consumed st' = consumed st ++ [t] := by
  unfold step at h
  split at h
  · exact consumed_start h
  · cases h
    simp [consumed, tokens, itemTokens]
  · rw [consumed_start h]
    simp [consumed, openTokens_cons, Frame.tokens, itemsBefore]
  · cases h
    simp [consumed, tokens, memberTokens]
  · cases h
    simp [consumed, membersBefore]
  · cases h
    simp [consumed]
  · cases h
    simp [consumed, openTokens_cons, Frame.tokens]
  · cases h
    simp [consumed, openTokens_cons, Frame.tokens, itemsBefore]
  · cases h
    simp [consumed, openTokens_cons, Frame.tokens, tokens, itemTokens_concat]
  · cases h
    simp [consumed, openTokens_cons, Frame.tokens, membersBefore]
  · cases h
    simp [consumed, openTokens_cons, Frame.tokens, tokens, memberTokens_concat]
  · cases h

theorem Expect.consumed_foldlM {ts : List Token} (h : ts.foldlM step st = some st') :
    consumed st' = consumed st ++ ts := by
  induction ts generalizing st with
  | nil =>
    cases h
    exact (List.append_nil _).symm
  | cons t ts ih =>
    rw [List.foldlM_cons] at h
    obtain ⟨st₁, h₁, h⟩ := Option.bind_eq_some_iff.1 h
    rw [ih h, consumed_step h₁, List.append_assoc]
    rfl

theorem ofTokens?_sound {ts : List Token} {v : Json} (h : ofTokens? ts = some v) :
    ts = v.tokens := by
  obtain ⟨st, hst, hv⟩ := Option.bind_eq_some_iff.1 h
  have hts := Expect.consumed_foldlM hst
  unfold Expect.result at hv
  split at hv
  · cases hv
    exact hts.symm
  · cases hv

end Consumed

/-- Induction over values, with what is known of all items and of the values of all members. -/
@[elab_as_elim]
theorem induction {p : Json → Prop} (null : p .null) (bool : ∀ b, p (.bool b))
    (number : ∀ s, p (.number s)) (string : ∀ s, p (.string s))
    (array : ∀ vs, (∀ v ∈ vs, p v) → p (.array vs))
    (object : ∀ ms, (∀ m ∈ ms, p m.2) → p (.object ms)) : (v : Json) → p v
  | .null => null
  | .bool b => bool b
  | .number s => number s
  | .string s => string s
  | .array vs => array vs fun v _ => induction null bool number string array object v
  | .object ms => object ms fun m _ => induction null bool number string array object m.2
termination_by v => sizeOf v
decreasing_by
  · rename_i hv
    have := List.sizeOf_lt_of_mem hv
    simp only [Json.array.sizeOf_spec]
    omega
  · rename_i hm
    have := List.sizeOf_lt_of_mem hm
    have hpair : sizeOf m = 1 + sizeOf m.1 + sizeOf m.2 := by cases m; rfl
    simp only [Json.object.sizeOf_spec]
    omega

section Accepted

/-- Wherever a value may stand, the reader takes the tokens of `v` for it. -/
def IsTaken (v : Json) : Prop := ∀ (fs : List Frame) (ts : List Token),
  (v.tokens ++ ts).foldlM Expect.step (.value, fs) = ts.foldlM Expect.step (.after v, fs)

theorem tokens_ne (v : Json) : ∃ t ts, v.tokens = t :: ts ∧ t ≠ .mark .rightBracket := by
  cases v <;> exact ⟨_, _, rfl, nofun⟩

/-- What starts with a value starts with an item. -/
theorem Expect.foldlM_firstItem (v : Json) (fs : List Frame) (ts : List Token) :
    (v.tokens ++ ts).foldlM step (firstItem, fs) =
      (v.tokens ++ ts).foldlM step (value, .items [] :: fs) := by
  obtain ⟨t, us, h, hne⟩ := v.tokens_ne
  rw [h, List.cons_append, List.foldlM_cons, List.foldlM_cons]
  congr 1
  cases t with
  | mark m => cases m <;> first | rfl | exact absurd rfl hne
  | _ => rfl

theorem foldlM_itemTokens {v : Json} {vs : List Json} (h : ∀ w ∈ v :: vs, w.IsTaken)
    (before : List Json) (fs : List Frame) (ts : List Token) :
    (itemTokens (v :: vs) ++ .mark .rightBracket :: ts).foldlM Expect.step
        (.value, .items before :: fs) =
      ts.foldlM Expect.step (.after (array (before.reverse ++ v :: vs)), fs) := by
  obtain ⟨hv, hvs⟩ := List.forall_mem_cons.1 h
  induction vs generalizing v before with
  | nil =>
    rw [itemTokens, hv]
    simp [Expect.step]
  | cons w vs ih =>
    obtain ⟨hw, hrest⟩ := List.forall_mem_cons.1 hvs
    have hcomma : (.mark .comma :: (itemTokens (w :: vs) ++ .mark .rightBracket :: ts)).foldlM
        Expect.step (.after v, .items before :: fs) =
        (itemTokens (w :: vs) ++ .mark .rightBracket :: ts).foldlM Expect.step
          (.value, .items (v :: before) :: fs) := rfl
    rw [itemTokens, List.append_assoc, List.cons_append, hv, hcomma, ih hvs _ hw hrest]
    simp

theorem foldlM_memberTokens {m : List Char × Json} {ms : List (List Char × Json)}
    (h : ∀ n ∈ m :: ms, n.2.IsTaken) (before : List (List Char × Json)) (fs : List Frame)
    (ts : List Token) :
    (memberTokens (m :: ms) ++ .mark .rightBrace :: ts).foldlM Expect.step (.name before, fs) =
      ts.foldlM Expect.step (.after (object (before.reverse ++ m :: ms)), fs) := by
  obtain ⟨hm, hms⟩ := List.forall_mem_cons.1 h
  induction ms generalizing m before with
  | nil =>
    have hname : (memberTokens [m] ++ .mark .rightBrace :: ts).foldlM Expect.step
        (.name before, fs) = (m.2.tokens ++ .mark .rightBrace :: ts).foldlM Expect.step
          (.value, .member before m.1 :: fs) := rfl
    rw [hname, hm]
    simp [Expect.step]
  | cons n ms ih =>
    obtain ⟨hn, hrest⟩ := List.forall_mem_cons.1 hms
    have hname : (memberTokens (m :: n :: ms) ++ .mark .rightBrace :: ts).foldlM
        Expect.step (.name before, fs) =
        (m.2.tokens ++ .mark .comma :: (memberTokens (n :: ms) ++
          .mark .rightBrace :: ts)).foldlM Expect.step (.value, .member before m.1 :: fs) := by
      simp [memberTokens, Expect.step]
    have hcomma : (.mark .comma :: (memberTokens (n :: ms) ++
        .mark .rightBrace :: ts)).foldlM Expect.step (.after m.2, .member before m.1 :: fs) =
        (memberTokens (n :: ms) ++ .mark .rightBrace :: ts).foldlM Expect.step
          (.name (m :: before), fs) := rfl
    rw [hname, hm, hcomma, ih hms _ hn hrest]
    simp

theorem isTaken (v : Json) : v.IsTaken := by
  induction v using Json.induction with
  | null => exact fun _ _ => rfl
  | bool b => exact fun _ _ => by cases b <;> rfl
  | number s => exact fun _ _ => rfl
  | string s => exact fun _ _ => rfl
  | array vs ih =>
    intro fs ts
    cases vs with
    | nil => rfl
    | cons v vs =>
      have hfirst : ((array (v :: vs)).tokens ++ ts).foldlM Expect.step (.value, fs) =
          (itemTokens (v :: vs) ++ .mark .rightBracket :: ts).foldlM Expect.step
            (.firstItem, fs) := by
        rw [tokens, List.cons_append, List.append_assoc]
        rfl
      obtain ⟨us, hus⟩ : ∃ us, itemTokens (v :: vs) ++ .mark .rightBracket :: ts =
          v.tokens ++ us := by
        cases vs with
        | nil => exact ⟨_, rfl⟩
        | cons w vs => exact ⟨_, by rw [itemTokens, List.append_assoc]⟩
      rw [hfirst, hus, Expect.foldlM_firstItem, ← hus, foldlM_itemTokens ih]
      rfl
  | object ms ih =>
    intro fs ts
    cases ms with
    | nil => rfl
    | cons m ms =>
      have hfirst : ((object (m :: ms)).tokens ++ ts).foldlM Expect.step (.value, fs) =
          (memberTokens (m :: ms) ++ .mark .rightBrace :: ts).foldlM Expect.step
            (.name [], fs) := by
        rw [tokens, List.cons_append, List.append_assoc]
        cases ms <;> rfl
      rw [hfirst, foldlM_memberTokens ih]
      rfl

theorem ofTokens?_tokens (v : Json) : ofTokens? v.tokens = some v := by
  have h := v.isTaken [] []
  rw [List.append_nil] at h
  rw [ofTokens?, h]
  rfl

end Accepted

section Alternating

variable {m : Mark} {ts us : List Token}

theorem Alternating.cons (h : Alternating ts) : Alternating (.mark m :: ts) :=
  List.IsChain.cons h fun _ _ => .inl ⟨m, rfl⟩

theorem Alternating.append (hts : Alternating ts) (hus : Alternating us) :
    Alternating (ts ++ .mark m :: us) := by
  refine List.IsChain.append hts hus.cons ?_
  rintro t - u ⟨⟩
  exact .inr ⟨m, rfl⟩

theorem alternating_itemTokens {vs : List Json} (h : ∀ v ∈ vs, Alternating v.tokens) :
    Alternating (itemTokens vs) := by
  induction vs with
  | nil => exact .nil
  | cons v vs ih =>
    obtain ⟨hv, hvs⟩ := List.forall_mem_cons.1 h
    cases vs with
    | nil => exact hv
    | cons w vs => exact hv.append (ih hvs)

theorem alternating_memberTokens {ms : List (List Char × Json)}
    (h : ∀ n ∈ ms, Alternating n.2.tokens) : Alternating (memberTokens ms) := by
  have hname (s : List Char) : Alternating [.string s] := .singleton _
  induction ms with
  | nil => exact .nil
  | cons n ms ih =>
    obtain ⟨hn, hms⟩ := List.forall_mem_cons.1 h
    cases ms with
    | nil => exact (hname n.1).append hn
    | cons o ms => exact (hname n.1).append (hn.append (ih hms))

theorem alternating_tokens (v : Json) : Alternating v.tokens := by
  induction v using Json.induction with
  | array vs ih => exact ((alternating_itemTokens ih).append (.nil)).cons
  | object ms ih => exact ((alternating_memberTokens ih).append (.nil)).cons
  | _ => exact .singleton _

end Alternating

/-- The texts that are read as `v` are the texts of `v`. -/
theorem read?_eq_some_iff {s : List Char} {v : Json} : read? s = some v ↔ v.IsText s := by
  constructor
  · intro h
    obtain ⟨ts, hts, hv⟩ := Option.bind_eq_some_iff.1 h
    rw [IsText, ← ofTokens?_sound hv]
    exact tokens?_sound hts
  · intro h
    rw [read?, h.tokens? v.alternating_tokens]
    exact v.ofTokens?_tokens

/-- What follows a value spoils the text unless it is blank or makes a number another number. -/
theorem IsText.read?_append {s rest : List Char} {v : Json} (h : v.IsText s)
    (hr : ¬ AllBlank rest) :
    read? (s ++ rest) = none ∨ ∃ n, read? (s ++ rest) = some (number n) := by
  by_cases hn : ∃ n, v = number n
  · obtain ⟨n, rfl⟩ := hn
    cases hread : read? (s ++ rest) with
    | none => exact .inl rfl
    | some w =>
      obtain ⟨us, hus, hw⟩ := Option.bind_eq_some_iff.1 hread
      obtain ⟨m, us', rfl⟩ := Lexed.number_append h hus
      have htokens := ofTokens?_sound hw
      cases w with
      | number n' => exact .inr ⟨n', rfl⟩
      | _ => cases htokens
  · left
    have hlast : ∀ n, v.tokens.getLast? = some (.number n) → Scan.Stops rest := by
      intro n hlast
      cases v with
      | number n' => exact absurd ⟨n', rfl⟩ hn
      | _ => simp [tokens, List.getLast?_cons] at hlast
    rw [read?, tokens?, Lexed.run_append h v.alternating_tokens hlast]
    cases hrest : Scan.between.run rest with
    | none => rfl
    | some us =>
      cases us with
      | nil =>
        cases Scan.run_owes hrest with
        | nil hs => exact absurd hs hr
      | cons u us =>
        have hafter : Expect.step (.after v, []) u = none := by cases u <;> rfl
        rw [Option.map_some, Option.bind_some, ofTokens?, v.isTaken, List.foldlM_cons, hafter]
        rfl

end SharedStages.Json
