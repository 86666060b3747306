import Mathlib.Algebra.Group.Nat.Defs
import Mathlib.Data.List.Sort
import SharedStages.Store.Basic

/-! Agreement of the three indexes of a store. An entry is filed by `add` and taken out by
`remove`; both keep the indexes in agreement. -/

namespace SharedStages

namespace StageId

/-- Ids are compared as integers. -/
instance : LT StageId := ⟨fun i j => i.toInt < j.toInt⟩

theorem lt_def {i j : StageId} : i < j ↔ i.toInt < j.toInt := Iff.rfl

instance : Std.Irrefl fun i j : StageId => i < j := ⟨fun i => Int.lt_irrefl i.toInt⟩

instance : Std.Asymm fun i j : StageId => i < j := ⟨fun _ _ h h' => Int.lt_asymm h h'⟩

theorem toInt_inj {i j : StageId} : i.toInt = j.toInt ↔ i = j :=
  ⟨fun h => by rw [← ofInt_toInt i, h, ofInt_toInt], fun h => h ▸ rfl⟩

theorem compare_eq_lt_iff {i j : StageId} : compare i j = .lt ↔ i < j := by
  change compare i.value j.value = .lt ↔ i.value.toInt < j.value.toInt
  rw [← Int64.lt_iff_toInt_lt]
  exact Std.compare_eq_lt

/-- Serials below the supply are ids without overflow. -/
theorem toInt_ofSerial {n : ℕ} (h : n < 2 ^ 63 - 1) : (ofSerial n).toInt = n + 1 := by
  apply toInt_ofInt
  rw [Text.Decimal.Bounds.holds_iff]
  simp only [bounds]
  omega

theorem ofSerial_inj {m n : ℕ} (hm : m < 2 ^ 63 - 1) (hn : n < 2 ^ 63 - 1) :
    ofSerial m = ofSerial n ↔ m = n := by
  rw [← toInt_inj, toInt_ofSerial hm, toInt_ofSerial hn]
  omega

theorem isValid_of_pos {i : StageId} (h : 1 ≤ i.toInt) : i.isValid = true := by
  rw [isValid, decide_eq_true_iff]
  rintro rfl
  exact absurd h (by decide)

end StageId

namespace Store

variable {H C : Type} [Ord H] [Std.TransOrd H]

/-- Files an entry in all three indexes. -/
def add (s : Store H C) (e : Entry H C) : Store H C :=
  ((s.putRoot e.handles.root e.id).putStage e.stage e.id).putEntry e

/-- Takes an entry out of all three indexes; its bucket goes with it if it was the last there. -/
def remove (s : Store H C) (id : StageId) : Store H C :=
  match s.entries[id]? with
  | none => s
  | some e =>
    ((if s.bucketSize e.key.root ≤ 1 then s.dropBucket e.key.root
      else s.dropFromBucket e.key.root id).dropEntry id).dropStage e.stage

@[simp] theorem remove_of_none {s : Store H C} {id : StageId} (h : s.entries[id]? = none) :
    s.remove id = s := by simp [remove, h]

theorem getElem?_entries_remove (s : Store H C) (id i : StageId) :
    (s.remove id).entries[i]? = if id = i then none else s.entries[i]? := by
  unfold remove
  cases h : s.entries[id]? with
  | none => grind
  | some e =>
    change (Store.dropEntry _ id).entries[i]? = _
    rw [getElem?_dropEntry]
    split_ifs <;> rfl

theorem getElem?_entries_foldl_remove (s : Store H C) (ids : List StageId) (i : StageId) :
    (ids.foldl remove s).entries[i]? = if i ∈ ids then none else s.entries[i]? := by
  induction ids generalizing s with
  | nil => simp
  | cons id ids ih =>
    rw [List.foldl_cons, ih, getElem?_entries_remove]
    by_cases hi : i ∈ ids
    · simp [hi]
    · simp [hi, eq_comm]

theorem entries_of_foldl_remove {s : Store H C} {ids : List StageId} {id : StageId}
    {e : Entry H C} (h : (ids.foldl remove s).entries[id]? = some e) :
    s.entries[id]? = some e := by
  rw [getElem?_entries_foldl_remove] at h
  split_ifs at h
  exact h

theorem getElem?_byStage_remove {s : Store H C} {id : StageId} {e : Entry H C}
    (h : s.entries[id]? = some e) (t : Stage) :
    (s.remove id).byStage[t]? = if e.stage = t then none else s.byStage[t]? := by
  simp only [remove, h, getElem?_dropStage]
  split_ifs <;> rfl

theorem getElem?_byRoot_remove [Std.LawfulEqOrd H] [DecidableEq H] {s : Store H C} {id : StageId}
    {e : Entry H C} (h : s.entries[id]? = some e) (r : H) :
    (s.remove id).byRoot[r]? = if e.key.root = r then
      if s.bucketSize r ≤ 1 then none else s.byRoot[r]?.map (·.erase id) else s.byRoot[r]? := by
  have hroot : (s.remove id).byRoot = (if s.bucketSize e.key.root ≤ 1 then
      s.dropBucket e.key.root else s.dropFromBucket e.key.root id).byRoot := by
    simp only [remove, h]
    rfl
  rw [hroot]
  by_cases hr : e.key.root = r
  · subst hr
    rw [if_pos rfl]
    split_ifs <;> simp [getElem?_dropBucket, getElem?_dropFromBucket]
  · split_ifs <;> simp [getElem?_dropBucket, getElem?_dropFromBucket, hr]

/-- Buckets that are left keep their handle. -/
theorem root_of_byRoot_remove [Std.LawfulEqOrd H] [DecidableEq H] {s : Store H C} {id : StageId}
    {r : H} {b : Bucket H} (hb : (s.remove id).byRoot[r]? = some b) :
    ∃ b', s.byRoot[r]? = some b' ∧ b.root = b'.root := by
  cases he : s.entries[id]? with
  | none =>
    rw [remove_of_none he] at hb
    exact ⟨b, hb, rfl⟩
  | some e =>
    rw [getElem?_byRoot_remove he] at hb
    split_ifs at hb
    · obtain ⟨b', hb', rfl⟩ := Option.map_eq_some_iff.1 hb
      exact ⟨b', hb', rfl⟩
    · exact ⟨b, hb, rfl⟩

/-- The ids whose entry has the root. -/
def Filed (s : Store H C) (r : H) (id : StageId) : Prop :=
  ∃ e, s.entries[id]? = some e ∧ e.key.root = r

/-- The ids that the index has for a root. -/
def rootIds (s : Store H C) (r : H) : Std.ExtTreeSet StageId := (s.byRoot[r]?.map (·.ids)).getD ∅

theorem rootIds_of_some {s : Store H C} {r : H} {b : Bucket H} (h : s.byRoot[r]? = some b) :
    s.rootIds r = b.ids := by simp [rootIds, h]

theorem rootIds_of_none {s : Store H C} {r : H} (h : s.byRoot[r]? = none) :
    s.rootIds r = ∅ := by simp [rootIds, h]

/-- The indexes agree, and every id was among the first `minted`. -/
structure Consistent (s : Store H C) (minted : ℕ) : Prop where
  id_eq {id : StageId} {e : Entry H C} : s.entries[id]? = some e → e.id = id
  byStage_iff {t : Stage} {id : StageId} :
    s.byStage[t]? = some id ↔ ∃ e, s.entries[id]? = some e ∧ e.stage = t
  mem_rootIds_iff {r : H} {id : StageId} : id ∈ s.rootIds r ↔ s.Filed r id
  ids_ne {r : H} {b : Bucket H} : s.byRoot[r]? = some b → b.ids ≠ ∅
  root_name {r : H} {b : Bucket H} : s.byRoot[r]? = some b → b.root.name = r
  issued {id : StageId} {e : Entry H C} :
    s.entries[id]? = some e → 1 ≤ id.toInt ∧ id.toInt ≤ minted

theorem consistent_empty (n : ℕ) : (empty : Store H C).Consistent n where
  id_eq := by simp [empty]
  byStage_iff := by simp [empty]
  mem_rootIds_iff := by simp [empty, rootIds, Filed]
  ids_ne := by simp [empty]
  root_name := by simp [empty]
  issued := by simp [empty]

namespace Consistent

variable {s : Store H C} {n : ℕ}

theorem mono (h : s.Consistent n) {m : ℕ} (hm : n ≤ m) : s.Consistent m where
  id_eq := h.id_eq
  byStage_iff := h.byStage_iff
  mem_rootIds_iff := h.mem_rootIds_iff
  ids_ne := h.ids_ne
  root_name := h.root_name
  issued he := ⟨(h.issued he).1, by have := (h.issued he).2; omega⟩

theorem entries_eq_none (h : s.Consistent n) {id : StageId} (hid : n < id.toInt) :
    s.entries[id]? = none := by
  by_contra hne
  obtain ⟨e, he⟩ := Option.ne_none_iff_exists'.1 hne
  have := (h.issued he).2
  omega

/-- A stage is not held under two ids. -/
theorem id_unique (h : s.Consistent n) {i j : StageId} {e f : Entry H C}
    (he : s.entries[i]? = some e) (hf : s.entries[j]? = some f) (hs : e.stage = f.stage) :
    i = j := by
  have hi := h.byStage_iff.2 ⟨e, he, rfl⟩
  have hj := h.byStage_iff.2 ⟨f, hf, rfl⟩
  rw [hs, hj] at hi
  exact (Option.some.inj hi).symm

theorem byStage_eq_none_iff (h : s.Consistent n) {t : Stage} :
    s.byStage[t]? = none ↔
      ∀ (id : StageId) (e : Entry H C), s.entries[id]? = some e → e.stage ≠ t := by
  constructor
  · rintro ht id e he rfl
    rw [h.byStage_iff.2 ⟨e, he, rfl⟩] at ht
    cases ht
  · intro ht
    by_contra hne
    obtain ⟨id, hid⟩ := Option.ne_none_iff_exists'.1 hne
    obtain ⟨e, he, hst⟩ := h.byStage_iff.1 hid
    exact ht id e he hst

/-- A bucket is exactly the non-empty set of the ids that have its root. -/
theorem ids_eq_some_iff (h : s.Consistent n) {r : H} {ids : Std.ExtTreeSet StageId} :
    s.byRoot[r]?.map (·.ids) = some ids ↔ ids ≠ ∅ ∧ ∀ id, id ∈ ids ↔ s.Filed r id := by
  constructor
  · intro hr
    obtain ⟨b, hb, rfl⟩ := Option.map_eq_some_iff.1 hr
    refine ⟨h.ids_ne hb, fun id => ?_⟩
    rw [← h.mem_rootIds_iff, rootIds_of_some hb]
  · rintro ⟨hne, hids⟩
    have hmem : ids = s.rootIds r :=
      Std.ExtTreeSet.ext_mem fun id => (hids id).trans h.mem_rootIds_iff.symm
    cases hr : s.byRoot[r]? with
    | none => exact absurd (hmem.trans (rootIds_of_none hr)) hne
    | some b => rw [hmem, rootIds_of_some hr, Option.map_some]

theorem byRoot_eq_none_iff (h : s.Consistent n) {r : H} :
    s.byRoot[r]? = none ↔ ∀ id, ¬ s.Filed r id := by
  constructor
  · intro hr id
    rw [← h.mem_rootIds_iff, rootIds_of_none hr]
    exact Std.ExtTreeSet.not_mem_empty
  · intro hids
    by_contra hne
    obtain ⟨b, hb⟩ := Option.ne_none_iff_exists'.1 hne
    apply h.ids_ne hb
    apply Std.ExtTreeSet.ext_mem
    intro id
    rw [← rootIds_of_some hb, h.mem_rootIds_iff]
    exact iff_of_false (hids id) Std.ExtTreeSet.not_mem_empty

/-! The two writes of the indexes. -/

theorem filed_add {e : Entry H C} {r : H} {id : StageId} (hid : s.entries[e.id]? = none) :
    (s.add e).Filed r id ↔ e.id = id ∧ e.key.root = r ∨ s.Filed r id := by
  simp only [Filed, add, getElem?_putEntry]
  by_cases h : e.id = id
  · subst h
    simp [hid]
  · simp [h, putStage, putRoot]

/-- A set of at most one id holds no second one. -/
theorem eq_of_size_le_one {ids : Std.ExtTreeSet StageId} (h : ids.size ≤ 1) {i j : StageId}
    (hi : i ∈ ids) (hj : j ∈ ids) : i = j := by
  have hsize : (ids.erase i).size = 0 := by
    rw [Std.ExtTreeSet.size_erase, if_pos (Std.ExtTreeSet.mem_iff_contains.1 hi)]
    omega
  have hnot : j ∉ ids.erase i := by
    rw [Std.ExtTreeSet.eq_empty_iff_size_eq_zero.2 hsize]
    exact Std.ExtTreeSet.not_mem_empty
  by_contra hij
  exact hnot (Std.ExtTreeSet.mem_erase.2 ⟨by simpa using hij, hj⟩)

theorem filed_remove {id i : StageId} {r : H} :
    (s.remove id).Filed r i ↔ id ≠ i ∧ s.Filed r i := by
  simp only [Filed, getElem?_entries_remove]
  split_ifs with h <;> simp [h]

section Writes

variable [Std.LawfulEqOrd H] [DecidableEq H]

/-- A new entry keeps the indexes in agreement if its stage and its id are new. -/
theorem add (h : s.Consistent n) {e : Entry H C} (hs : s.byStage[e.stage]? = none)
    (hid : n < e.id.toInt) {m : ℕ} (hm : e.id.toInt ≤ m) : (s.add e).Consistent m := by
  have hnone := h.entries_eq_none hid
  have hentries : ∀ i, (s.add e).entries[i]? = if e.id = i then some e else s.entries[i]? :=
    fun i => getElem?_putEntry _ e i
  have hstages : ∀ t, (s.add e).byStage[t]? = if e.stage = t then some e.id else s.byStage[t]? :=
    fun t => getElem?_putStage _ e.stage t e.id
  have hroots : ∀ r, (s.add e).byRoot[r]? = if e.key.root = r then
      some ((s.byRoot[e.key.root]?.getD ⟨e.handles.root, ∅⟩).insert e.id) else s.byRoot[r]? :=
    fun r => getElem?_putRoot s e.handles.root r e.id
  constructor
  case id_eq =>
    intro id f hf
    rw [hentries] at hf
    split at hf
    · cases hf; assumption
    · exact h.id_eq hf
  case byStage_iff =>
    intro t id
    rw [hstages, hentries]
    split_ifs with ht hi hi
    · simp [hi, ht]
    · have := h.byStage_eq_none_iff.1 hs
      simp only [Option.some.injEq, hi, false_iff, not_exists, not_and]
      exact fun f hf => ht ▸ this id f hf
    · subst hi
      simp only [Option.some.injEq, exists_eq_left', ht, iff_false]
      intro hid
      obtain ⟨f, hf, -⟩ := h.byStage_iff.1 hid
      rw [hnone] at hf
      cases hf
    · exact h.byStage_iff
  case mem_rootIds_iff =>
    intro r id
    rw [filed_add hnone, ← h.mem_rootIds_iff, rootIds, rootIds, hroots]
    split_ifs with hr
    · subst hr
      cases s.byRoot[e.key.root]? <;> simp [Bucket.insert]
    · simp [hr]
  case ids_ne =>
    intro r b hb
    rw [hroots] at hb
    split at hb
    · cases hb
      simp [Bucket.insert]
    · exact h.ids_ne hb
  case root_name =>
    intro r b hb
    rw [hroots] at hb
    split at hb
    · subst r
      cases hb
      cases hold : s.byRoot[e.key.root]? with
      | none => rfl
      | some b' => exact h.root_name (b := b') hold
    · exact h.root_name hb
  case issued =>
    intro id f hf
    rw [hentries] at hf
    split_ifs at hf with hi
    · subst hi
      omega
    · have := h.issued hf
      omega

/-- The removed id is the only one to leave a bucket, whether its bucket goes with it or not. -/
theorem mem_rootIds_remove (h : s.Consistent n) {id i : StageId} {e : Entry H C}
    (he : s.entries[id]? = some e) {r : H} :
    i ∈ (s.remove id).rootIds r ↔ id ≠ i ∧ i ∈ s.rootIds r := by
  rw [rootIds, getElem?_byRoot_remove he]
  split_ifs with hr hb
  · subst hr
    obtain ⟨b, hb'⟩ : ∃ b, s.byRoot[e.key.root]? = some b := by
      by_contra hne
      exact h.byRoot_eq_none_iff.1 (Option.eq_none_iff_forall_ne_some.2 (not_exists.1 hne)) id
        ⟨e, he, rfl⟩
    have hid : id ∈ b.ids := by
      rw [← rootIds_of_some hb', h.mem_rootIds_iff]
      exact ⟨e, he, rfl⟩
    have hsize : b.ids.size ≤ 1 := by simpa [bucketSize, hb'] using hb
    simp only [rootIds_of_some hb', Option.map_none, Option.getD_none,
      Std.ExtTreeSet.not_mem_empty, false_iff, not_and, ne_eq]
    exact fun hne hi => hne (eq_of_size_le_one hsize hid hi)
  · rw [rootIds]
    cases hb' : s.byRoot[r]? <;> simp [Bucket.erase, Std.ExtTreeSet.mem_erase]
  · change i ∈ s.rootIds r ↔ id ≠ i ∧ i ∈ s.rootIds r
    rw [iff_and_self]
    rintro hi rfl
    obtain ⟨f, hf, hf'⟩ := h.mem_rootIds_iff.1 hi
    rw [he] at hf
    cases hf
    exact hr hf'

/-- Removal keeps the indexes in agreement: a bucket of one id is dropped as a whole, and no
larger one is emptied. -/
theorem remove (h : s.Consistent n) (id : StageId) : (s.remove id).Consistent n := by
  cases he : s.entries[id]? with
  | none => rwa [remove_of_none he]
  | some e =>
    constructor
    case id_eq =>
      intro i f hf
      rw [getElem?_entries_remove] at hf
      split_ifs at hf
      exact h.id_eq hf
    case byStage_iff =>
      intro t i
      rw [getElem?_byStage_remove he, getElem?_entries_remove]
      split_ifs with ht hi hi
      · simp
      · simp only [false_iff, not_exists, not_and]
        rintro f hf rfl
        exact hi (h.id_unique he hf ht)
      · subst hi
        simp only [false_and, exists_false, iff_false, h.byStage_iff, he]
        rintro ⟨f, hf, hst⟩
        cases hf
        exact ht hst
      · exact h.byStage_iff
    case mem_rootIds_iff =>
      intro r i
      rw [h.mem_rootIds_remove he, filed_remove, h.mem_rootIds_iff]
    case ids_ne =>
      intro r b hb
      rw [getElem?_byRoot_remove he] at hb
      split_ifs at hb with hr hlast
      · obtain ⟨b', hb', rfl⟩ := Option.map_eq_some_iff.1 hb
        have hsize : 1 < b'.ids.size := by simpa [bucketSize, hb'] using hlast
        change b'.ids.erase id ≠ ∅
        rw [Ne, Std.ExtTreeSet.eq_empty_iff_size_eq_zero]
        have := Std.ExtTreeSet.size_le_size_erase (t := b'.ids) (k := id)
        omega
      · exact h.ids_ne hb
    case root_name =>
      intro r b hb
      obtain ⟨b', hb', hroot⟩ := root_of_byRoot_remove hb
      rw [hroot]
      exact h.root_name hb'
    case issued =>
      intro i f hf
      rw [getElem?_entries_remove] at hf
      split_ifs at hf
      exact h.issued hf

theorem foldl_remove (h : s.Consistent n) (ids : List StageId) :
    (ids.foldl Store.remove s).Consistent n := by
  induction ids generalizing s with
  | nil => exact h
  | cons id ids ih => exact ih (h.remove id)

end Writes

end Consistent

end Store

end SharedStages
