import SharedStages.Proofs.Store.Consistent

/-! The entries of a store as one list, the lowest id first. A look-up, a query and a write are
read off this list. -/

namespace SharedStages

open Std.DTreeMap.Internal in
/-- The values of a map in the order of its keys. -/
theorem values_eq_map_toList {K V : Type} [Ord K] [Std.TransOrd K] (m : Std.ExtTreeMap K V) :
    m.values = m.toList.map (·.2) := by
  obtain ⟨⟨m⟩⟩ := m
  induction m using Quotient.inductionOn with | _ m =>
  change Impl.values m.inner = (Impl.Const.toList m.inner).map (·.2)
  simp [Impl.values_eq_map_snd, Impl.Const.toList_eq_toListModel_map]

theorem length_values {K V : Type} [Ord K] [Std.TransOrd K] (m : Std.ExtTreeMap K V) :
    m.values.length = m.size := by simp [values_eq_map_toList]

theorem mem_values {K V : Type} [Ord K] [Std.TransOrd K] [Std.LawfulEqOrd K]
    {m : Std.ExtTreeMap K V} {v : V} : v ∈ m.values ↔ ∃ k : K, m[k]? = some v := by
  rw [values_eq_map_toList, List.mem_map]
  constructor
  · rintro ⟨⟨k, x⟩, hmem, rfl⟩
    exact ⟨k, Std.ExtTreeMap.mem_toList_iff_getElem?_eq_some.1 hmem⟩
  · rintro ⟨k, hk⟩
    exact ⟨(k, v), Std.ExtTreeMap.mem_toList_iff_getElem?_eq_some.2 hk, rfl⟩

namespace Store

variable {H C : Type} [Ord H]

/-- The entries in ascending order of their ids. -/
def rows (s : Store H C) : List (Entry H C) := s.entries.values

theorem rows_empty : (empty : Store H C).rows = [] := by simp [rows, empty, values_eq_map_toList]

theorem length_rows (s : Store H C) : s.rows.length = s.size := length_values s.entries

theorem isEmpty_rows (s : Store H C) : s.rows.isEmpty = s.isEmpty := by
  rw [rows, values_eq_map_toList, List.isEmpty_map, Std.ExtTreeMap.isEmpty_toList, isEmpty]

theorem stages_eq (s : Store H C) : s.stages = s.rows.map (·.stage) := rfl

variable [Std.TransOrd H]

theorem bucket_ascending (s : Store H C) (r : H) : (s.bucket r).Pairwise (· < ·) := by
  unfold bucket
  cases s.byRoot[r]? with
  | none => exact List.Pairwise.nil
  | some b => exact b.ids.ordered_toList.imp StageId.compare_eq_lt_iff.1

/-- The first row with a property that at most one row has is the row that has it. -/
theorem find?_eq_some_of_unique {α : Type} {l : List α} {p : α → Bool} {a : α} (ha : a ∈ l)
    (hp : p a = true) (huniq : ∀ b ∈ l, p b = true → b = a) : l.find? p = some a := by
  cases hf : l.find? p with
  | none => exact absurd hp (List.find?_eq_none.1 hf a ha)
  | some b => rw [huniq b (List.mem_of_find?_eq_some hf) (List.find?_some hf)]

theorem any_eq_isSome_find? {α : Type} (l : List α) (p : α → Bool) :
    l.any p = (l.find? p).isSome := by
  rw [Bool.eq_iff_iff, List.any_eq_true, List.find?_isSome]

/-- Where at most one element has a property, dropping the first that has it drops all. -/
theorem eraseP_eq_filter {α : Type} {p : α → Bool} {l : List α}
    (h : l.Pairwise fun a b => p a = true → p b = false) : l.eraseP p = l.filter (!p ·) := by
  induction l with
  | nil => rfl
  | cons a l ih =>
    obtain ⟨ha, hl⟩ := List.pairwise_cons.1 h
    by_cases hp : p a = true
    · have hself : l.filter (!p ·) = l :=
        List.filter_eq_self.2 fun b hb => by simp [ha b hb hp]
      simp [hp, hself]
    · simp [hp, ih hl]

namespace Consistent

variable {s : Store H C} {n : ℕ}

theorem toList_entries (h : s.Consistent n) :
    s.entries.toList = s.rows.map fun e => (e.id, e) := by
  rw [rows, values_eq_map_toList, List.map_map]
  conv_lhs => rw [← List.map_id s.entries.toList]
  apply List.map_congr_left
  rintro ⟨id, e⟩ he
  have := h.id_eq (Std.ExtTreeMap.mem_toList_iff_getElem?_eq_some.1 he)
  simp [this]

theorem mem_rows (h : s.Consistent n) {e : Entry H C} :
    e ∈ s.rows ↔ s.entries[e.id]? = some e := by
  rw [← Std.ExtTreeMap.mem_toList_iff_getElem?_eq_some, h.toList_entries]
  constructor
  · exact fun he => List.mem_map.2 ⟨e, he, rfl⟩
  · intro he
    obtain ⟨f, hf, hfe⟩ := List.mem_map.1 he
    exact (Prod.mk.inj hfe).2 ▸ hf

theorem rows_ascending (h : s.Consistent n) : s.rows.Pairwise (·.id < ·.id) := by
  have := s.entries.ordered_keys_toList
  rw [h.toList_entries, List.pairwise_map] at this
  exact this.imp StageId.compare_eq_lt_iff.1

/-- An ascending list that has the entries as its members is the list of rows. -/
theorem rows_eq (h : s.Consistent n) {l : List (Entry H C)} (hl : l.Pairwise (·.id < ·.id))
    (hmem : ∀ e, e ∈ l ↔ s.entries[e.id]? = some e) : s.rows = l := by
  have : Std.Irrefl fun e f : Entry H C => e.id < f.id := ⟨fun e => Std.Irrefl.irrefl e.id⟩
  have : Std.Asymm fun e f : Entry H C => e.id < f.id := ⟨fun e f => Std.Asymm.asymm e.id f.id⟩
  exact h.rows_ascending.eq_of_mem_iff hl fun e => h.mem_rows.trans (hmem e).symm

/-- Looking up an id is looking for it in the list. -/
theorem find?_rows_id (h : s.Consistent n) (id : StageId) :
    s.rows.find? (·.id = id) = s.entries[id]? := by
  cases he : s.entries[id]? with
  | none =>
    simp only [List.find?_eq_none, decide_eq_true_eq]
    rintro e hmem rfl
    rw [h.mem_rows, he] at hmem
    cases hmem
  | some e =>
    have hid := h.id_eq he
    subst hid
    apply find?_eq_some_of_unique (h.mem_rows.2 he) (by simp)
    intro f hf hfe
    rw [h.mem_rows, of_decide_eq_true hfe, he] at hf
    exact (Option.some.inj hf).symm

/-- Looking up a stage is looking for it in the list. -/
theorem find?_rows_stage (h : s.Consistent n) (t : Stage) :
    (s.rows.find? (·.stage = t)).map (·.id) = s.byStage[t]? := by
  cases ht : s.byStage[t]? with
  | none =>
    simp only [Option.map_eq_none_iff, List.find?_eq_none, decide_eq_true_eq]
    exact fun e hmem => h.byStage_eq_none_iff.1 ht e.id e (h.mem_rows.1 hmem)
  | some id =>
    obtain ⟨e, he, rfl⟩ := h.byStage_iff.1 ht
    have hid := h.id_eq he
    subst hid
    rw [find?_eq_some_of_unique (h.mem_rows.2 he) (by simp), Option.map_some]
    intro f hf hfe
    have hf' := h.mem_rows.1 hf
    rw [h.id_unique hf' he (of_decide_eq_true hfe), he] at hf'
    exact (Option.some.inj hf').symm

theorem stage_ne (h : s.Consistent n) : s.rows.Pairwise (·.stage ≠ ·.stage) := by
  apply h.rows_ascending.imp_of_mem
  intro e f he hf hlt hst
  rw [h.id_unique (h.mem_rows.1 he) (h.mem_rows.1 hf) hst] at hlt
  exact Std.Irrefl.irrefl _ hlt

theorem mem_stages (h : s.Consistent n) {t : Stage} : t ∈ s.stages ↔ s.byStage.contains t := by
  rw [stages_eq, List.mem_map, Std.ExtTreeMap.contains_eq_isSome_getElem?, Option.isSome_iff_exists]
  constructor
  · rintro ⟨e, he, rfl⟩
    exact ⟨e.id, h.byStage_iff.2 ⟨e, h.mem_rows.1 he, rfl⟩⟩
  · rintro ⟨id, hid⟩
    obtain ⟨e, he, rfl⟩ := h.byStage_iff.1 hid
    have hid' := h.id_eq he
    exact ⟨e, h.mem_rows.2 (by rwa [hid']), rfl⟩

/-- The invalid id is never an id of the store, so that no look-up of an absent stage goes wrong. -/
theorem entries_invalid (h : s.Consistent n) : s.entries[StageId.invalid]? = none := by
  by_contra hne
  obtain ⟨e, he⟩ := Option.ne_none_iff_exists'.1 hne
  exact absurd (h.issued he).1 (by decide)

theorem entries_idOf (h : s.Consistent n) (stage : Stage) :
    s.entries[s.idOf stage]? = s.rows.find? (·.stage = stage) := by
  rw [idOf, ← h.find?_rows_stage]
  cases hf : s.rows.find? (·.stage = stage) with
  | none => exact h.entries_invalid
  | some e => exact h.mem_rows.1 (List.mem_of_find?_eq_some hf)

/-- A stage leads to an entry if an entry holds it. -/
theorem entries_idOf_eq_some_iff (h : s.Consistent n) {stage : Stage} {e : Entry H C} :
    s.entries[s.idOf stage]? = some e ↔
      ∃ id : StageId, s.entries[id]? = some e ∧ e.stage = stage := by
  constructor
  · intro he
    refine ⟨_, he, ?_⟩
    rw [h.entries_idOf] at he
    simpa using List.find?_some he
  · rintro ⟨id, he, rfl⟩
    rwa [idOf, h.byStage_iff.2 ⟨e, he, rfl⟩, Option.getD_some]

theorem isValid_idOf (h : s.Consistent n) (stage : Stage) :
    (s.idOf stage).isValid = s.byStage.contains stage := by
  rw [idOf, Std.ExtTreeMap.contains_eq_isSome_getElem?]
  cases ht : s.byStage[stage]? with
  | none => rfl
  | some id =>
    obtain ⟨e, he, -⟩ := h.byStage_iff.1 ht
    exact StageId.isValid_of_pos (h.issued he).1

theorem mem_bucket (h : s.Consistent n) {r : H} {id : StageId} :
    id ∈ s.bucket r ↔ s.Filed r id := by
  rw [← h.mem_rootIds_iff, bucket, rootIds]
  cases s.byRoot[r]? <;> simp

section Writes

variable [Std.LawfulEqOrd H] [DecidableEq H]

/-- A new entry has the highest id, so it is the last row. -/
theorem rows_add (h : s.Consistent n) {e : Entry H C} (hs : s.byStage[e.stage]? = none)
    (hid : n < e.id.toInt) : (s.add e).rows = s.rows ++ [e] := by
  have hadd := h.add hs hid (m := e.id.toInt.toNat) (by omega)
  have hnone := h.entries_eq_none hid
  have hentries : ∀ i, (s.add e).entries[i]? = if e.id = i then some e else s.entries[i]? :=
    fun i => getElem?_putEntry _ e i
  apply hadd.rows_eq
  · rw [List.pairwise_append]
    refine ⟨h.rows_ascending, List.pairwise_singleton _ _, fun f hf g hg => ?_⟩
    rw [List.mem_singleton.1 hg, StageId.lt_def]
    have := (h.issued (h.mem_rows.1 hf)).2
    omega
  · intro f
    rw [List.mem_append, List.mem_singleton, h.mem_rows, hentries]
    split_ifs with hf
    · simp [← hf, hnone, eq_comm]
    · exact or_iff_left fun he => hf (by rw [he])

/-- Removal leaves the other rows in their order. -/
theorem rows_remove (h : s.Consistent n) (id : StageId) :
    (s.remove id).rows = s.rows.filter (·.id ≠ id) := by
  apply (h.remove id).rows_eq (h.rows_ascending.filter _)
  intro e
  rw [List.mem_filter, h.mem_rows, getElem?_entries_remove]
  split_ifs with hid <;> simp [hid, eq_comm]

theorem rows_foldl_remove (h : s.Consistent n) (ids : List StageId) :
    (ids.foldl Store.remove s).rows = s.rows.filter (·.id ∉ ids) := by
  induction ids generalizing s with
  | nil => simp
  | cons id ids ih =>
    rw [List.foldl_cons, ih (h.remove id), h.rows_remove, List.filter_filter]
    apply List.filter_congr
    intro e _
    simp [Bool.and_comm]

/-- The first row with an id is the one that removal takes out. -/
theorem eraseP_id (h : s.Consistent n) (id : StageId) :
    s.rows.eraseP (·.id = id) = (s.remove id).rows := by
  rw [h.rows_remove, eraseP_eq_filter]
  · simp
  · apply h.rows_ascending.imp
    intro e f hlt he
    rw [decide_eq_false_iff_not]
    rintro rfl
    rw [of_decide_eq_true he] at hlt
    exact Std.Irrefl.irrefl _ hlt

/-- So is the first row with a stage, if the store holds it. -/
theorem eraseP_stage (h : s.Consistent n) (stage : Stage) :
    s.rows.eraseP (·.stage = stage) = (s.remove (s.idOf stage)).rows := by
  rw [h.rows_remove, eraseP_eq_filter]
  · apply List.filter_congr
    intro e he
    have hiff : e.stage = stage ↔ e.id = s.idOf stage := by
      constructor
      · rintro rfl
        rw [idOf, h.byStage_iff.2 ⟨e, h.mem_rows.1 he, rfl⟩, Option.getD_some]
      · intro hid
        have hf := h.entries_idOf stage
        rw [← hid, h.mem_rows.1 he] at hf
        simpa using List.find?_some hf.symm
    simp [hiff]
  · apply h.stage_ne.imp
    intro e f hne he
    rw [decide_eq_false_iff_not, ← of_decide_eq_true he]
    exact hne.symm

end Writes

variable [DecidableEq H] [DecidableEq C]

theorem mem_matching (h : s.Consistent n) {q : Query H C} {id : StageId} :
    id ∈ s.matching q ↔ ∃ e, s.entries[id]? = some e ∧ q.admits e.key = true := by
  simp only [matching, List.mem_filter, h.mem_bucket, Option.any_eq_true]
  constructor
  · rintro ⟨-, e, he, hq⟩
    exact ⟨e, he, hq⟩
  · rintro ⟨e, he, hq⟩
    exact ⟨⟨e, he, (Query.admits_iff.1 hq).1.symm⟩, e, he, hq⟩

/-- The bucket of the root and the list give a query the same ids in the same order. -/
theorem matching_eq (h : s.Consistent n) (q : Query H C) :
    s.matching q = (s.rows.filter (q.admits ·.key)).map (·.id) := by
  apply List.Pairwise.eq_of_mem_iff (r := (· < ·))
  · exact (s.bucket_ascending q.root).filter _
  · exact List.pairwise_map.2 (h.rows_ascending.filter _)
  · intro id
    simp only [h.mem_matching, List.mem_map, List.mem_filter, h.mem_rows]
    constructor
    · rintro ⟨e, he, hq⟩
      have hid := h.id_eq he
      exact ⟨e, ⟨by rwa [hid], hq⟩, hid⟩
    · rintro ⟨e, ⟨he, hq⟩, rfl⟩
      exact ⟨e, he, hq⟩

/-- Of the rows, a query matches those it admits. -/
theorem id_mem_matching (h : s.Consistent n) {q : Query H C} {e : Entry H C} (he : e ∈ s.rows) :
    e.id ∈ s.matching q ↔ q.admits e.key = true := by
  rw [h.mem_matching, h.mem_rows.1 he]
  simp

end Consistent

end Store

end SharedStages
