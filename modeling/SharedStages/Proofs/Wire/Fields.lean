import SharedStages.Proofs.Json.Record
import SharedStages.Wire

/-! Decoding of records. What a text gives is said by the fields of the record alone: which values
come under their names, and of what type these are. -/

namespace SharedStages

open Json

/-- The members of an object, or the columns of a record written as one. -/
abbrev Members := List (List Char × Json)

/-- A field of a record, with the values it may have. -/
structure Field where
  name : String
  required : Bool
  Typed : Json → Prop

namespace Field

/-- What came under the name of the field is as it must be. -/
structure Admits (f : Field) (vs : List Json) : Prop where
  once : vs.length ≤ 1
  present : f.required = true → vs ≠ []
  typed : ∀ v ∈ vs, f.Typed v

/-- The members that belong to one of the fields. -/
def known (fields : List Field) (ms : Members) : Members :=
  ms.filter fun m => fields.any (·.name.toList = m.1)

/-- The members that an array with the values of the fields stands for. -/
def named (fields : List Field) (vs : List Json) : Members :=
  List.zipWith (fun f v => (f.name.toList, v)) fields vs

end Field

/-- The text is one of the object, and spells its names without a backslash. -/
def IsObjectText (ms : Members) (s : String) : Prop :=
  (object ms).IsText s.toList ∧ ∀ m ∈ ms, '\\' ∉ m.1

/-- The decoder goes by the fields alone. `GivenBy` says what value the members have. -/
structure DecodesByFields {α : Type} (parse : String → Option α) (fields : List Field)
    (GivenBy : α → Members → Prop) : Prop where
  object_accepted {ms : Members} {s : String} : IsObjectText ms s →
    ((parse s).isSome ↔ ∀ f ∈ fields, f.Admits (valuesOf ms f.name))
  object_value {ms : Members} {s : String} {a : α} : IsObjectText ms s →
    (parse s = some a ↔ GivenBy a ms)
  object_congr {ms ms' : Members} {s s' : String} : IsObjectText ms s → IsObjectText ms' s' →
    (Field.known fields ms).Perm (Field.known fields ms') → parse s = parse s'
  array_accepted {vs : List Json} {s : String} : (array vs).IsText s.toList →
    ((parse s).isSome ↔ List.Forall₂ Field.Typed fields vs)
  array_eq_object {vs : List Json} {s s' : String} : (array vs).IsText s.toList →
    vs.length = fields.length → IsObjectText (Field.named fields vs) s' → parse s = parse s'
  nothing_after {v : Json} {s rest : String} : v.IsText s.toList →
    (∃ c ∈ rest.toList, isBlank c = false) → parse (s ++ rest) = none

namespace Field

variable {f : Field} {v : Json}

theorem admits_nil : f.Admits [] ↔ f.required = false := by
  constructor
  · exact fun h => eq_false_of_ne_true fun hf => h.present hf rfl
  · exact fun hf => ⟨Nat.zero_le 1, fun h => by simp [hf] at h, List.forall_mem_nil _⟩

theorem admits_singleton : f.Admits [v] ↔ f.Typed v := by
  constructor
  · exact fun h => h.typed v List.mem_cons_self
  · exact fun h => ⟨le_rfl, fun _ => List.cons_ne_nil _ _, by simpa using h⟩

end Field

section Columns

variable {α : Type} {f : Field} {read : Json → Option α} {D : Json → α → Prop}

/-- The only value stands for `a`. -/
def Given (D : Json → α → Prop) (vs : List Json) (a : α) : Prop := ∃ v, vs = [v] ∧ D v a

/-- The only value stands for what there is, if anything; null stands for nothing. -/
def GivenOrNot (D : Json → α → Prop) (vs : List Json) : Option α → Prop
  | none => vs = [] ∨ vs = [null]
  | some a => Given D vs a

/-- The column of a field is read when the field admits it, and for the value it gives. -/
structure Reads {β : Type} (f : Field) (read : Option Json → Option β)
    (G : List Json → β → Prop) : Prop where
  accepts (col : Option Json) : (read col).isSome ↔ f.Admits col.toList
  gives {vs : List Json} {b : β} : G vs b ↔ ∃ col : Option Json, vs = col.toList ∧ read col = some b

theorem reads_required (hread : ∀ v a, read v = some a ↔ D v a) (hf : f.required = true)
    (htyped : ∀ v, f.Typed v ↔ ∃ a, D v a) : Reads f (Json.required read) (Given D) where
  accepts col := by
    cases col with
    | none => simp [Json.required, Field.admits_nil, hf]
    | some v =>
      rw [Option.toList_some, Field.admits_singleton, htyped, Option.isSome_iff_exists]
      simp only [Json.required, hread]
  gives {vs a} := by
    constructor
    · rintro ⟨v, rfl, hv⟩
      exact ⟨some v, rfl, (hread v a).2 hv⟩
    · rintro ⟨col, rfl, h⟩
      obtain ⟨v, rfl, hv⟩ := required_eq_some_iff.1 h
      exact ⟨v, rfl, (hread v a).1 hv⟩

theorem reads_optional (hread : ∀ v a, read v = some a ↔ D v a) (hf : f.required = false)
    (htyped : ∀ v, f.Typed v ↔ v = null ∨ ∃ a, D v a) (hnull : read null = none) :
    Reads f (Json.optional read) (GivenOrNot D) where
  accepts col := by
    cases col with
    | none => simp [Json.optional, Field.admits_nil, hf]
    | some v =>
      simp only [Option.toList_some, Field.admits_singleton, htyped, ← hread,
        ← Option.isSome_iff_exists]
      cases v <;> simp [Json.optional]
  gives {vs o} := by
    constructor
    · intro h
      cases o with
      | none =>
        rcases h with rfl | rfl
        · exact ⟨none, rfl, rfl⟩
        · exact ⟨some null, rfl, rfl⟩
      | some a =>
        obtain ⟨v, rfl, hv⟩ := h
        exact ⟨some v, rfl,
          (optional_eq_some_iff hnull).2 (.inr ⟨v, a, rfl, (hread v a).2 hv, rfl⟩)⟩
    · rintro ⟨col, rfl, h⟩
      rcases (optional_eq_some_iff hnull).1 h with ⟨rfl, rfl | rfl⟩ | ⟨v, a, rfl, hv, rfl⟩
      · exact .inl rfl
      · exact .inr rfl
      · exact ⟨v, rfl, (hread v a).1 hv⟩

end Columns

section Decoding

variable {α : Type} {parse : String → Option α} {fields : List Field}
  {ofColumns? : List (Option Json) → Option α} {ms ms' : Members} {s s' : String}

/-- The columns stand under the names of the fields. -/
def Filled (fields : List Field) (ms : Members) (cols : List (Option Json)) : Prop :=
  List.Forall₂ (fun f col => valuesOf ms f.name = col.toList) fields cols

theorem Filled.admits_iff {cols : List (Option Json)} (h : Filled fields ms cols) :
    List.Forall₂ (fun f col => f.Admits col.toList) fields cols ↔
      ∀ f ∈ fields, f.Admits (valuesOf ms f.name) := by
  induction h with
  | nil => simp
  | cons hf _ ih => rw [List.forall₂_cons, ih, List.forall_mem_cons, hf]

theorem exists_filled (h : ∀ f ∈ fields, (valuesOf ms f.name).length ≤ 1) :
    ∃ cols, Filled fields ms cols := by
  refine ⟨fields.map fun f => (valuesOf ms f.name).head?, ?_⟩
  rw [Filled, List.forall₂_map_right_iff, List.forall₂_same]
  intro f hf
  have hone := h f hf
  rcases hvs : valuesOf ms f.name with _ | ⟨v, _ | ⟨w, ws⟩⟩
  · rfl
  · rfl
  · rw [hvs] at hone
    simp at hone

theorem columns?_eq_some_iff_filled {cols : List (Option Json)} (h : IsObjectText ms s) :
    (object ms).columns? (fields.map (·.name)) = some cols ↔ Filled fields ms cols := by
  rw [columns?_object h.1.isSpelled h.2, List.forall₂_map_left_iff]
  rfl

/-- Only the order and the number of the values under a name can matter. -/
theorem valuesOf_perm (h : (Field.known fields ms).Perm (Field.known fields ms')) :
    ∀ f ∈ fields, (valuesOf ms f.name).Perm (valuesOf ms' f.name) := by
  intro f hf
  have hknown (ms : Members) :
      (Field.known fields ms).filter (·.1 = f.name.toList) = ms.filter (·.1 = f.name.toList) := by
    rw [Field.known, List.filter_filter]
    refine List.filter_congr fun m _ => ?_
    by_cases hm : m.1 = f.name.toList
    · simpa [hm] using ⟨f, hf, rfl⟩
    · simp [hm]
  rw [valuesOf, valuesOf, ← hknown ms, ← hknown ms']
  exact (h.filter _).map _

theorem Filled.congr {cols : List (Option Json)} (h : Filled fields ms cols)
    (hms : ∀ f ∈ fields, ∀ col : Option Json,
      valuesOf ms f.name = col.toList → valuesOf ms' f.name = col.toList) :
    Filled fields ms' cols := by
  induction h with
  | nil => exact .nil
  | cons hf _ ih =>
    obtain ⟨hhead, htail⟩ := List.forall_mem_cons.1 hms
    exact .cons (hhead _ hf) (ih htail)

theorem Filled.of_perm {cols : List (Option Json)} (h : Filled fields ms cols)
    (hms : (Field.known fields ms).Perm (Field.known fields ms')) : Filled fields ms' cols := by
  refine h.congr fun f hf col hcol => ?_
  have hperm := valuesOf_perm hms f hf
  rw [hcol] at hperm
  cases col with
  | none => exact List.perm_nil.1 hperm.symm
  | some v => exact List.perm_singleton.1 hperm.symm

theorem valuesOf_cons_self {name : String} {v : Json} :
    valuesOf ((name.toList, v) :: ms) name = v :: valuesOf ms name := by
  simp [valuesOf]

theorem valuesOf_cons_of_ne {n name : String} {v : Json} (h : n ≠ name) :
    valuesOf ((n.toList, v) :: ms) name = valuesOf ms name := by
  simp [valuesOf, String.toList_inj, h]

theorem valuesOf_named_of_not_mem {name : String} {vs : List Json}
    (h : name ∉ fields.map (·.name)) : valuesOf (Field.named fields vs) name = [] := by
  induction fields generalizing vs with
  | nil => rfl
  | cons f fields ih =>
    cases vs with
    | nil => rfl
    | cons v vs =>
      rw [List.map_cons, List.mem_cons, not_or] at h
      exact (valuesOf_cons_of_ne (Ne.symm h.1)).trans (ih h.2)

theorem filled_named {vs : List Json} (hnames : (fields.map (·.name)).Nodup)
    (hlen : vs.length = fields.length) : Filled fields (Field.named fields vs) (vs.map some) := by
  induction fields generalizing vs with
  | nil =>
    obtain rfl := List.length_eq_zero_iff.1 hlen
    exact .nil
  | cons f fields ih =>
    obtain ⟨v, vs, rfl⟩ := List.exists_cons_of_length_eq_add_one hlen
    obtain ⟨hf, hfields⟩ := List.nodup_cons.1 hnames
    have hrest : Filled fields (Field.named (f :: fields) (v :: vs)) (vs.map some) := by
      refine (ih hfields (Nat.succ.inj hlen)).congr fun g hg col hcol => ?_
      have hne : f.name ≠ g.name := fun h => hf (List.mem_map.2 ⟨g, hg, h.symm⟩)
      exact (valuesOf_cons_of_ne hne).trans hcol
    have hhead : valuesOf (Field.named (f :: fields) (v :: vs)) f.name = [v] :=
      valuesOf_cons_self.trans (congrArg _ (valuesOf_named_of_not_mem hf))
    exact .cons hhead hrest

theorem columns?_named {vs : List Json} (hnames : (fields.map (·.name)).Nodup)
    (hlen : vs.length = fields.length) (h : IsObjectText (Field.named fields vs) s) :
    (object (Field.named fields vs)).columns? (fields.map (·.name)) =
      (array vs).columns? (fields.map (·.name)) := by
  rw [(columns?_eq_some_iff_filled h).2 (filled_named hnames hlen), columns?, List.length_map,
    if_pos hlen]

theorem columns?_congr (hms : IsObjectText ms s) (hms' : IsObjectText ms' s')
    (h : (Field.known fields ms).Perm (Field.known fields ms')) :
    (object ms).columns? (fields.map (·.name)) = (object ms').columns? (fields.map (·.name)) := by
  refine Option.ext fun cols => ?_
  rw [columns?_eq_some_iff_filled hms, columns?_eq_some_iff_filled hms']
  exact ⟨fun hcols => hcols.of_perm h, fun hcols => hcols.of_perm h.symm⟩

variable {GivenBy : α → Members → Prop}

theorem decodesByFields
    (hparse : ∀ s, parse s = (read? s.toList).bind fun v =>
      (v.columns? (fields.map (·.name))).bind ofColumns?)
    (hnames : (fields.map (·.name)).Nodup)
    (haccepted : ∀ cols, (ofColumns? cols).isSome ↔
      List.Forall₂ (fun f col => f.Admits col.toList) fields cols)
    (hgiven : ∀ a ms, (∃ cols, Filled fields ms cols ∧ ofColumns? cols = some a) ↔ GivenBy a ms) :
    DecodesByFields parse fields GivenBy := by
  have htext {v : Json} {s : String} (h : v.IsText s.toList) :
      parse s = (v.columns? (fields.map (·.name))).bind ofColumns? := by
    rw [hparse, read?_eq_some_iff.2 h, Option.bind_some]
  have hobject {ms : Members} {s : String} {a : α} (h : IsObjectText ms s) :
      parse s = some a ↔ ∃ cols, Filled fields ms cols ∧ ofColumns? cols = some a := by
    rw [htext h.1, Option.bind_eq_some_iff]
    simp only [columns?_eq_some_iff_filled h]
  constructor
  case object_accepted =>
    intro ms s h
    constructor
    · intro hsome
      obtain ⟨a, ha⟩ := Option.isSome_iff_exists.1 hsome
      obtain ⟨cols, hcols, ha⟩ := (hobject h).1 ha
      exact hcols.admits_iff.1 ((haccepted cols).1 (Option.isSome_of_eq_some ha))
    · intro hadmits
      obtain ⟨cols, hcols⟩ := exists_filled fun f hf => (hadmits f hf).once
      obtain ⟨a, ha⟩ := Option.isSome_iff_exists.1 ((haccepted cols).2 (hcols.admits_iff.2 hadmits))
      exact Option.isSome_of_eq_some ((hobject h).2 ⟨cols, hcols, ha⟩)
  case object_value => exact fun h => (hobject h).trans (hgiven _ _)
  case object_congr =>
    intro ms ms' s s' h h' hperm
    rw [htext h.1, htext h'.1, columns?_congr h h' hperm]
  case array_accepted =>
    intro vs s h
    rw [htext h, columns?, List.length_map]
    split_ifs with hlen
    · rw [Option.bind_some, haccepted, List.forall₂_map_right_iff]
      simp only [Option.toList_some, Field.admits_singleton]
    · exact iff_of_false Bool.false_ne_true fun hall => hlen hall.length_eq.symm
  case array_eq_object =>
    intro vs s s' h hlen h'
    rw [htext h, htext h'.1, columns?_named hnames hlen h']
  case nothing_after =>
    intro v s rest h hrest
    have hblank : ¬ AllBlank rest.toList := by
      rintro hblank
      obtain ⟨c, hc, hne⟩ := hrest
      rw [hblank c hc] at hne
      cases hne
    rw [hparse, String.toList_append]
    rcases h.read?_append hblank with hread | ⟨n, hread⟩ <;> rw [hread] <;> rfl

end Decoding

end SharedStages
