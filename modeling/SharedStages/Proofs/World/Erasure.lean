import SharedStages.Proofs.Store.Removal
import SharedStages.Proofs.World.Reach

/-! Erasures from the stores that a run can reach: neither their order matters nor how the entries
are named, and an insertion is undone by the erasure of what it filed. -/

namespace SharedStages

variable {H C : Type} [Ord H] [Std.TransOrd H] [DecidableEq H] [DecidableEq C]

/-- What is under the ids has been taken out of `s`, each entry once, and `t` has what is left. -/
structure Store.TakenOut (s t : Store H C) (ids : List StageId) (es : List (Entry H C)) : Prop where
  nodup : es.Nodup
  mem_iff {e : Entry H C} : e ∈ es ↔ ∃ i ∈ ids, s.entries[i]? = some e
  entries (i : StageId) : t.entries[i]? = if i ∈ ids then none else s.entries[i]?

open Store in
/-- What erasures come to, as long as they touch no armed root. -/
structure Bench.ErasuresCommute (b : Bench H C) : Prop where
  /-- The same ids in any order, each by itself or by the stage under it. -/
  removals {ids ids' : List StageId} {rs rs' : List Removal} : ids.Perm ids' →
    rs.Forall₂ (Removal.Names b.store) ids → rs'.Forall₂ (Removal.Names b.store) ids' →
    (∀ i ∈ ids, ∀ e : Entry H C, b.store.entries[i]? = some e → e.handles.root ∉ b.armed) →
    ∃ es es' d d', EStateM.run (removeEach rs) b = .ok es d ∧
      EStateM.run (removeEach rs') b = .ok es' d' ∧ d.store = d'.store ∧ es.Perm es' ∧
      b.store.TakenOut d.store ids es
  /-- A query, and single erasures of the ids of what it admits, in any order. -/
  query {q : Query (Layer H) C} {ids : List StageId} : Unarmed b q →
    (∀ i, i ∈ ids ↔ ∃ e, b.store.entries[i]? = some e ∧ q.names.admits e.key = true) →
    ∃ es es' d d', EStateM.run (eraseMatching q) b = .ok es d ∧
      EStateM.run (removeEach (ids.map .id)) b = .ok es' d' ∧ d.store = d'.store ∧ es.Perm es' ∧
      b.store.TakenOut d.store ids es
  /-- Two queries; both orders take out the same number of entries. -/
  queries {q q' : Query (Layer H) C} : Unarmed b q → Unarmed b q' →
    ∃ k d d', EStateM.run (eraseBoth q q') b = .ok k d ∧
      EStateM.run (eraseBoth q' q) b = .ok k d' ∧ d.store = d'.store
  /-- An insertion of a new stage, and the erasure of the id it gave. -/
  insertion {stage : Stage} {key : Key (Layer H) C} : stage ∉ b.store.stages →
    key.root ∉ b.armed → ∃ id d,
      EStateM.run (insertAndErase stage key) b = .ok ((id, true), some ⟨id, stage, key⟩) d ∧
      d.store = b.store ∧
      ∀ (root : H) (bucket : Bucket H), d.store.byRoot[root]? = some bucket → bucket.ids ≠ ∅

variable [Std.LawfulEqOrd H]

namespace Store.Consistent

variable {b : Bench H C} {n : ℕ}

omit [DecidableEq H] [DecidableEq C] [Std.LawfulEqOrd H] in
theorem nodup_rows {s : Store H C} (h : s.Consistent n) : s.rows.Nodup := by
  refine h.rows_ascending.imp ?_
  rintro e f hlt rfl
  exact Std.Irrefl.irrefl _ hlt

omit [DecidableEq H] [DecidableEq C] [Std.LawfulEqOrd H] in
theorem takenOut {s : Store H C} (h : s.Consistent n) {ids : List StageId} {es : List (Entry H C)}
    (hes : es.Perm (s.rows.filter (·.id ∈ ids))) :
    s.TakenOut (ids.foldl Store.remove s) ids es where
  nodup := hes.symm.nodup (h.nodup_rows.filter _)
  mem_iff {e} := by
    rw [hes.mem_iff, List.mem_filter, h.mem_rows, decide_eq_true_iff]
    constructor
    · rintro ⟨he, hid⟩
      exact ⟨e.id, hid, he⟩
    · rintro ⟨i, hi, he⟩
      obtain rfl := h.id_eq he
      exact ⟨he, hi⟩
  entries := s.getElem?_entries_foldl_remove ids

omit [DecidableEq C] in
theorem removals_commute (h : b.store.Consistent n) {ids ids' : List StageId}
    {rs rs' : List Removal} (hids : ids.Perm ids') (hr : rs.Forall₂ (Removal.Names b.store) ids)
    (hr' : rs'.Forall₂ (Removal.Names b.store) ids')
    (ha : ∀ i ∈ ids, ∀ e : Entry H C, b.store.entries[i]? = some e → e.handles.root ∉ b.armed) :
    ∃ es es' d d', EStateM.run (removeEach rs) b = .ok es d ∧
      EStateM.run (removeEach rs') b = .ok es' d' ∧ d.store = d'.store ∧ es.Perm es' ∧
      b.store.TakenOut d.store ids es := by
  have hmem (i : StageId) : i ∈ ids ↔ i ∈ ids' := hids.mem_iff
  obtain ⟨es, hes, hrun⟩ := run_eraseEach_filter h ids ha
  obtain ⟨es', hes', hrun'⟩ := run_eraseEach_filter h ids' fun i hi => ha i ((hmem i).2 hi)
  rw [← run_removeEach h h (fun _ _ he => he) hr] at hrun
  rw [← run_removeEach h h (fun _ _ he => he) hr'] at hrun'
  refine ⟨es, es', _, _, hrun, hrun', h.foldl_remove_congr hmem, ?_, h.takenOut hes⟩
  simp only [← hmem] at hes'
  exact hes.trans hes'.symm

/-- All that a query admits is erased by the query as it is by single erasures. -/
theorem query_erases_each (h : b.store.Consistent n) {q : Query (Layer H) C} {ids : List StageId}
    (ha : Unarmed b q)
    (hmem : ∀ i, i ∈ ids ↔ ∃ e, b.store.entries[i]? = some e ∧ q.names.admits e.key = true) :
    ∃ es es' d d', EStateM.run (eraseMatching q) b = .ok es d ∧
      EStateM.run (removeEach (ids.map .id)) b = .ok es' d' ∧ d.store = d'.store ∧ es.Perm es' ∧
      b.store.TakenOut d.store ids es := by
  have hmatching (i : StageId) : i ∈ ids ↔ i ∈ b.store.matching q.names := by
    rw [hmem, h.mem_matching]
  have hroots : ∀ i ∈ ids, ∀ e : Entry H C,
      b.store.entries[i]? = some e → e.handles.root ∉ b.armed := by
    intro i hi e he
    obtain ⟨f, hf, hadm⟩ := (hmem i).1 hi
    rw [he] at hf
    cases hf
    exact ha.entries he hadm
  have hnames : (ids.map Removal.id).Forall₂ (Removal.Names b.store) ids :=
    List.forall₂_map_left_iff.2 (List.forall₂_same.2 fun _ _ => .id)
  obtain ⟨es, hes, hrun⟩ := run_eraseEach_filter h ids hroots
  rw [← run_removeEach h h (fun _ _ he => he) hnames] at hrun
  have hhits := h.filter_mem_matching hmatching
  have hstore : (b.store.matching q.names).foldl Store.remove b.store =
      ids.foldl Store.remove b.store :=
    h.foldl_remove_congr fun i => (hmatching i).symm
  refine ⟨_, es, _, _, run_eraseMatching_of_unarmed ha, hrun, hstore, ?_, ?_⟩
  · rw [hhits] at hes
    exact hes.symm
  · dsimp only
    rw [hstore]
    exact h.takenOut (.of_eq hhits.symm)

theorem queries_commute (h : b.store.Consistent n) {q q' : Query (Layer H) C} (ha : Unarmed b q)
    (ha' : Unarmed b q') :
    ∃ k d d', EStateM.run (eraseBoth q q') b = .ok k d ∧
      EStateM.run (eraseBoth q' q) b = .ok k d' ∧ d.store = d'.store := by
  obtain ⟨hstore, hcount⟩ := h.eraseMatching_comm q.names q'.names rfl rfl
  obtain ⟨d, hrun, hd⟩ := run_eraseBoth ha ha' rfl
  obtain ⟨d', hrun', hd'⟩ := run_eraseBoth ha' ha rfl
  rw [← hcount] at hrun'
  exact ⟨_, d, d', hrun, hrun', by rw [hd, hd', hstore]⟩

omit [DecidableEq C] in
theorem insertion_undone (h : b.store.Consistent b.minted) (hm : b.minted < 2 ^ 63 - 1)
    {stage : Stage} {key : Key (Layer H) C} (hs : stage ∉ b.store.stages)
    (ha : key.root ∉ b.armed) :
    ∃ id d, EStateM.run (insertAndErase stage key) b = .ok ((id, true), some ⟨id, stage, key⟩) d ∧
      d.store = b.store ∧
      ∀ (root : H) (bucket : Bucket H), d.store.byRoot[root]? = some bucket → bucket.ids ≠ ∅ := by
  rw [h.mem_stages, Std.ExtTreeMap.contains_eq_isSome_getElem?, Option.not_isSome_iff_eq_none] at hs
  obtain ⟨id, d, hrun, hd⟩ := run_insertAndErase h hm hs ha
  refine ⟨id, d, hrun, hd, fun root bucket hbucket => ?_⟩
  rw [hd] at hbucket
  exact h.ids_ne hbucket

end Store.Consistent

namespace World

/-- Erasures commute on the store of every cache that a run can reach, as long as the run does not
use up the ids, and whatever is armed then: an erasure that touches no armed root is carried out. -/
theorem erasures_commute (steps : List (Step (Layer H) C))
    (hm : (empty.run steps).1.minted < 2 ^ 63 - 1) {name : String} {c : Cache H C}
    (hc : (empty.run steps).1.caches[name]? = some c) {b : Bench H C} (hb : b.store = c.store)
    (hminted : b.minted = (empty.run steps).1.minted) : b.ErasuresCommute := by
  have h : b.store.Consistent b.minted := by
    rw [hb, hminted]
    exact sound_empty.run steps hm hc
  exact ⟨h.removals_commute, h.query_erases_each, h.queries_commute,
    h.insertion_undone (hminted ▸ hm)⟩

/-- The two entries of `a` go in either order, each named once by its stage, and go by a query; the
root that is armed is of no entry. -/
theorem erasures_commute_sampleRun : ∃ (c : Cache ℕ ℕ) (b : Bench ℕ ℕ),
    (empty.run sampleRun).1.minted < 2 ^ 63 - 1 ∧
    (empty.run sampleRun).1.caches["a"]? = some c ∧ b.store = c.store ∧
    b.minted = (empty.run sampleRun).1.minted ∧
    (∃ es es' d d', EStateM.run (Store.removeEach [.stage ⟨1⟩, .id (.ofSerial 0)]) b = .ok es d ∧
      EStateM.run (Store.removeEach [.stage ⟨0⟩, .id (.ofSerial 2)]) b = .ok es' d' ∧
      d.store = d'.store ∧ es.Perm es' ∧
      b.store.TakenOut d.store [.ofSerial 2, .ofSerial 0] es) ∧
    (∃ es es' d d', EStateM.run (Store.eraseMatching (.ofRoot (.shared 1))) b = .ok es d ∧
      EStateM.run (Store.removeEach [.id (.ofSerial 2), .id (.ofSerial 0)]) b = .ok es' d' ∧
      d.store = d'.store ∧ es.Perm es' ∧
      b.store.TakenOut d.store [.ofSerial 2, .ofSerial 0] es) ∧
    (∃ id d, EStateM.run (Store.insertAndErase ⟨2⟩ ⟨.shared 1, none, 5⟩) b =
      .ok ((id, true), some ⟨id, ⟨2⟩, ⟨.shared 1, none, 5⟩⟩) d ∧ d.store = b.store) := by
  have hm : (empty.run sampleRun).1.minted < 2 ^ 63 - 1 := by cbv
  have hrows : (empty.run sampleRun).1.caches["a"]?.map (·.store.entries.toList) =
      some [(.ofSerial 0, ⟨.ofSerial 0, ⟨0⟩, ⟨.shared 1, none, 0⟩⟩),
        (.ofSerial 2, ⟨.ofSerial 2, ⟨1⟩, ⟨.shared 1, some (.shared 2), 0⟩⟩)] := by cbv
  obtain ⟨c, hc, hlist⟩ := Option.map_eq_some_iff.1 hrows
  have hentry (i : StageId) (e : Entry ℕ ℕ) : c.store.entries[i]? = some e ↔
      (i, e) = (.ofSerial 0, ⟨.ofSerial 0, ⟨0⟩, ⟨.shared 1, none, 0⟩⟩) ∨
      (i, e) = (.ofSerial 2, ⟨.ofSerial 2, ⟨1⟩, ⟨.shared 1, some (.shared 2), 0⟩⟩) := by
    rw [← Std.ExtTreeMap.mem_toList_iff_getElem?_eq_some, hlist]
    simp
  obtain ⟨b, hb⟩ : ∃ b : Bench ℕ ℕ, b = ⟨⟨(∅ : Std.ExtTreeSet (Layer ℕ)).insert (.shared 7),
      (empty.run sampleRun).1.minted⟩, c.store, [], []⟩ := ⟨_, rfl⟩
  have hstore : b.store = c.store := by rw [hb]
  have hminted : b.minted = (empty.run sampleRun).1.minted := by rw [hb]
  have harmed : (.shared 1 : Layer ℕ) ∉ b.armed := by simp [hb, Layer.shared]
  have h := erasures_commute sampleRun hm hc hstore hminted
  rw [← hstore] at hentry
  have hroots (i : StageId) (e : Entry ℕ ℕ) (he : b.store.entries[i]? = some e) :
      e.handles.root ∉ b.armed := by
    rcases (hentry i e).1 he with he | he <;> cases he <;> exact harmed
  have hfirst := (hentry _ _).2 (.inl rfl)
  have hsecond := (hentry _ _).2 (.inr rfl)
  have hnew : (⟨2⟩ : Stage) ∉ b.store.stages := by
    rw [Store.stages, values_eq_map_toList, hstore, hlist]
    decide
  refine ⟨c, b, hm, hc, hstore, hminted, ?_, ?_, ?_⟩
  · have hids : [StageId.ofSerial 2, .ofSerial 0].Perm [.ofSerial 0, .ofSerial 2] := .swap _ _ []
    exact h.removals hids (.cons (.stage hsecond) (.cons .id .nil))
      (.cons (.stage hfirst) (.cons .id .nil)) fun i _ => hroots i
  · have hids (i : StageId) : i ∈ [StageId.ofSerial 2, StageId.ofSerial 0] ↔
        ∃ e, b.store.entries[i]? = some e ∧
          (Query.ofRoot (.shared 1) : Query (Layer ℕ) ℕ).names.admits e.key = true := by
      rw [List.mem_pair]
      constructor
      · rintro (rfl | rfl)
        · exact ⟨_, hsecond, rfl⟩
        · exact ⟨_, hfirst, rfl⟩
      · rintro ⟨e, he, -⟩
        rcases (hentry i e).1 he with he | he <;> cases he
        · exact .inr rfl
        · exact .inl rfl
    exact h.query ⟨harmed, fun he _ => hroots _ _ he⟩ hids
  · have hroot : (⟨.shared 1, none, 5⟩ : Key (Layer ℕ) ℕ).root ∉ b.armed := harmed
    obtain ⟨id, d, hrun, hd, -⟩ := h.insertion hnew hroot
    exact ⟨id, d, hrun, hd⟩

end World

end SharedStages
