import Mathlib.Data.List.Forall2
import SharedStages.Proofs.Json.Spelling

/-! What the readers of columns accept: the value of a string, the members of a name, and the
columns of an object or an array. -/

namespace SharedStages.Json

section Values

theorem mapM_eq_some_iff {α β : Type} {f : α → Option β} {as : List α} {bs : List β} :
    as.mapM f = some bs ↔ List.Forall₂ (fun a b => f a = some b) as bs := by
  induction as generalizing bs with
  | nil => cases bs <;> simp
  | cons a as ih =>
    cases bs with
    | nil => simp [List.mapM_cons, Option.bind_eq_some_iff]
    | cons b bs => simp [List.mapM_cons, Option.bind_eq_some_iff, ih]

/-- The value is a string, and its spelling stands for `t`. -/
def Denotes (v : Json) (t : String) : Prop := ∃ s, v = string s ∧ Literal.Spells s t.toList

/-- The value is an array of strings, and these stand for `ts`. -/
def Lists (v : Json) (ts : List String) : Prop := ∃ vs, v = array vs ∧ List.Forall₂ Denotes vs ts

def IsString (v : Json) : Prop := ∃ t, v.Denotes t

def IsStrings (v : Json) : Prop := ∃ vs, v = array vs ∧ ∀ w ∈ vs, w.IsString

theorem isStrings_iff {v : Json} : v.IsStrings ↔ ∃ ts, v.Lists ts := by
  have hall (vs : List Json) : (∀ w ∈ vs, w.IsString) ↔ ∃ ts, List.Forall₂ Denotes vs ts := by
    induction vs with
    | nil => simp
    | cons w vs ih =>
      rw [List.forall_mem_cons, ih]
      constructor
      · rintro ⟨⟨t, ht⟩, ts, hts⟩
        exact ⟨t :: ts, .cons ht hts⟩
      · rintro ⟨_, ht | ⟨ht, hts⟩⟩
        exact ⟨⟨_, ht⟩, _, hts⟩
  constructor
  · rintro ⟨vs, rfl, h⟩
    obtain ⟨ts, hts⟩ := (hall vs).1 h
    exact ⟨ts, vs, rfl, hts⟩
  · rintro ⟨ts, vs, rfl, hts⟩
    exact ⟨vs, rfl, (hall vs).2 ⟨ts, hts⟩⟩

theorem text?_eq_some_iff {v : Json} {t : String} : v.text? = some t ↔ v.Denotes t := by
  cases v with
  | string s =>
    simp only [text?, Denotes, Option.map_eq_some_iff, Literal.decode_eq_some_iff, string.injEq]
    constructor
    · rintro ⟨l, hl, rfl⟩
      exact ⟨s, rfl, by rwa [String.toList_ofList]⟩
    · rintro ⟨_, rfl, h⟩
      exact ⟨t.toList, h, String.ofList_toList⟩
  | _ => simp [text?, Denotes]

theorem texts?_eq_some_iff {v : Json} {ts : List String} : v.texts? = some ts ↔ v.Lists ts := by
  cases v with
  | array vs => simp [texts?, Lists, mapM_eq_some_iff, text?_eq_some_iff]
  | _ => simp [texts?, Lists]

theorem bool?_eq_some_iff {v : Json} {b : Bool} : v.bool? = some b ↔ v = bool b := by
  cases v <;> simp [bool?]

variable {α : Type} {read : Json → Option α} {col : Option Json}

theorem required_eq_some_iff {a : α} :
    required read col = some a ↔ ∃ v, col = some v ∧ read v = some a := by
  cases col <;> simp [required]

theorem optional_eq_some_iff (hnull : read null = none) {o : Option α} :
    optional read col = some o ↔
      o = none ∧ (col = none ∨ col = some null) ∨
        ∃ v a, col = some v ∧ read v = some a ∧ o = some a := by
  rcases col with _ | v
  · cases o <;> simp [optional]
  · cases v <;> cases o <;> simp [optional, hnull]

end Values

section Columns

variable {ms : List (List Char × Json)} {name : String}

/-- The values that come under a name. -/
def valuesOf (ms : List (List Char × Json)) (name : String) : List Json :=
  (ms.filter (·.1 = name.toList)).map (·.2)

theorem column?_eq_some_iff {col : Option Json} :
    column? ms name = some col ↔ valuesOf ms name = col.toList := by
  unfold column? valuesOf
  generalize ms.filter (·.1 = name.toList) = found
  rcases found with _ | ⟨m, _ | ⟨n, ns⟩⟩ <;> cases col <;> simp

/-- Names without a backslash are taken as they stand. -/
theorem named?_of_unescaped (hs : (object ms).IsSpelled) (hb : ∀ m ∈ ms, '\\' ∉ m.1) :
    named? ms = some ms := by
  rw [named?, mapM_eq_some_iff, List.forall₂_same]
  intro m hm
  rw [Literal.decode_of_unescaped (isSpelled_object.1 hs m hm).1 (hb m hm)]
  rfl

theorem columns?_object {names : List String} {cols : List (Option Json)}
    (hs : (object ms).IsSpelled) (hb : ∀ m ∈ ms, '\\' ∉ m.1) :
    (object ms).columns? names = some cols ↔
      List.Forall₂ (fun n col => valuesOf ms n = col.toList) names cols := by
  rw [columns?, named?_of_unescaped hs hb, Option.bind_some, mapM_eq_some_iff]
  simp only [column?_eq_some_iff]

end Columns

end SharedStages.Json
