import SharedStages.Proofs.World.Atomic

/-! What a step trips on, told by the entries of the caches, where every name has one trigger.
Whether a look-up hashes its root depends on the index by roots; as the indexes agree, it depends
on the entries alone. -/

namespace SharedStages

variable {H C : Type} [Ord H]

namespace Operation

/-- The query an operation looks up by. -/
def query? {σ H C : Type} : Operation σ H C → Option (Query H C)
  | findOne q | findAll q | eraseAll q => some q
  | _ => none

/-- The layers that an operation copies or hashes: the root of a key that is filed, the root of a
query to a store that is not empty, and the root of an entry that goes. -/
inductive Touches (s : Store H C) : Operation Stage (Layer H) C → Layer H → Prop where
  | insert {stage : Stage} {key : Key (Layer H) C} :
    stage ∉ s.stages → Touches s (.insert stage key) key.root
  | search {op : Operation Stage (Layer H) C} {q : Query (Layer H) C} :
    op.query? = some q → s.stages ≠ [] → Touches s op q.root
  | erase {id : StageId} {e : Entry H C} :
    s.entries[id]? = some e → Touches s (.erase id) e.handles.root
  | eraseStage {id : StageId} {e : Entry H C} :
    s.entries[id]? = some e → Touches s (.eraseStage e.stage) e.handles.root

/-- The root that an operation is called with. -/
def root? {σ H C : Type} : Operation σ H C → Option H
  | insert _ key => some key.root
  | op => op.query?.map (·.root)

/-- No operation touches a session, neither of a key nor of a query. -/
theorem Touches.root {s : Store H C} {op : Operation Stage (Layer H) C} {l : Layer H}
    (h : op.Touches s l) : op.root? = some l ∨
      ∃ (id : StageId) (e : Entry H C), s.entries[id]? = some e ∧ e.handles.root = l := by
  cases h with
  | insert hs => exact .inl rfl
  | search hq hs => cases op <;> cases hq <;> exact .inl rfl
  | erase he => exact .inr ⟨_, _, he, rfl⟩
  | eraseStage he => exact .inr ⟨_, _, he, rfl⟩

end Operation

variable [Std.TransOrd H]

namespace Store.Consistent

variable {s : Store H C} {n : ℕ}

theorem stages_eq_nil_iff (h : s.Consistent n) :
    s.stages = [] ↔ ∀ (id : StageId) (e : Entry H C), s.entries[id]? ≠ some e := by
  rw [stages_eq, List.map_eq_nil_iff, List.eq_nil_iff_forall_not_mem]
  constructor
  · intro hnone id e he
    have hid := h.id_eq he
    exact hnone e (h.mem_rows.2 (by rwa [hid]))
  · intro hnone e he
    exact hnone e.id e (h.mem_rows.1 he)

variable [Std.LawfulEqOrd H]

/-- A root is in the index if an entry has it. -/
theorem mem_keys_byRoot (h : s.Consistent n) {root : H} :
    root ∈ s.byRoot.keys ↔ ∃ id, s.Filed root id := by
  rw [Std.ExtTreeMap.mem_keys, Std.ExtTreeMap.mem_iff_isSome_getElem?, ← Option.ne_none_iff_isSome,
    Ne, h.byRoot_eq_none_iff, not_forall]
  simp only [not_not]

/-- No empty bucket is left behind, whatever was removed before. -/
theorem isEmpty_byRoot (h : s.Consistent n) : s.byRoot.isEmpty = true ↔ s.stages = [] := by
  rw [h.stages_eq_nil_iff, ← Std.ExtTreeMap.isEmpty_keys, List.isEmpty_iff,
    List.eq_nil_iff_forall_not_mem]
  constructor
  · intro hnone id e he
    exact hnone e.key.root (h.mem_keys_byRoot.2 ⟨id, e, he, rfl⟩)
  · intro hnone root hroot
    obtain ⟨id, e, he, -⟩ := h.mem_keys_byRoot.1 hroot
    exact hnone id e he

/-- A copy copies the roots of the index as well, but these are roots of entries. -/
theorem mem_layers (h : s.Consistent n) {mark : H → ℕ} (hm : s.Marked mark) {l : Layer H} :
    l ∈ s.layers ↔ ∃ (id : StageId) (e : Entry H C), s.entries[id]? = some e ∧ l ∈ e.layers := by
  unfold layers
  rw [List.mem_append, List.mem_flatMap, List.mem_map]
  constructor
  · rintro (⟨e, he, hl⟩ | ⟨b, hb, rfl⟩)
    · exact ⟨e.id, e, h.mem_rows.1 he, hl⟩
    · obtain ⟨r, hr⟩ := mem_values.1 hb
      have hkey : r ∈ s.byRoot.keys := by
        rw [Std.ExtTreeMap.mem_keys, Std.ExtTreeMap.mem_iff_isSome_getElem?, hr]
        rfl
      obtain ⟨id, e, he, hroot⟩ := h.mem_keys_byRoot.1 hkey
      have hname : b.root.name = e.handles.root.name := (h.root_name hr).trans hroot.symm
      refine ⟨id, e, he, ?_⟩
      rw [hm.root hr, hname, ← (hm.handles he).root]
      exact List.mem_cons_self
  · rintro ⟨id, e, he, hl⟩
    have hid := h.id_eq he
    exact .inl ⟨e, h.mem_rows.2 (by rwa [hid]), hl⟩

end Store.Consistent

namespace Operation

variable {s : Store H C} {n : ℕ} {op : Operation Stage (Layer H) C} {l : Layer H}

omit [Ord H] [Std.TransOrd H] in
theorem Marked.query_root {mark : H → ℕ} (h : op.Marked mark) {q : Query (Layer H) C}
    (hq : op.query? = some q) : q.root = .marked mark q.root.name := by
  obtain ⟨p, rfl⟩ := h
  cases p <;> cases hq <;> rfl

/-- An erasure touches the roots of what it finds as well, but these are the root of the query. -/
theorem mem_layers_of_query? [Std.LawfulEqOrd H] [DecidableEq H] [DecidableEq C] {mark : H → ℕ}
    (hm : s.Marked mark) (hop : op.Marked mark) {q : Query (Layer H) C} (hq : op.query? = some q) :
    l ∈ op.layers s ↔ s.byRoot.isEmpty = false ∧ l = q.root := by
  have hroot := hop.query_root hq
  cases op with
  | findOne q =>
    cases hq
    cases hempty : s.byRoot.isEmpty <;> simp [layers, hempty]
  | findAll q =>
    cases hq
    cases hempty : s.byRoot.isEmpty <;> simp [layers, hempty]
  | eraseAll q =>
    cases hq
    simp only [layers]
    cases hempty : s.byRoot.isEmpty with
    | true => simp
    | false =>
      rw [if_neg Bool.false_ne_true, List.mem_cons, List.mem_map]
      constructor
      · rintro (hl | ⟨e, he, rfl⟩)
        · exact ⟨rfl, hl⟩
        · obtain ⟨id, hid, hadm⟩ := Store.exists_of_mem_hits he
          exact ⟨rfl, hm.root_of_admits hroot hid hadm⟩
      · exact fun hl => .inl hl.2
  | _ => cases hq

omit [Std.TransOrd H] in
theorem touches_of_query? {q : Query (Layer H) C} (hq : op.query? = some q) :
    op.Touches s l ↔ s.stages ≠ [] ∧ l = q.root := by
  constructor
  · intro ht
    cases ht with
    | search hq' hs =>
      rw [hq] at hq'
      cases hq'
      exact ⟨hs, rfl⟩
    | _ => cases hq
  · rintro ⟨hs, rfl⟩
    exact .search hq hs

omit [Std.TransOrd H] in
theorem touches_insert {stage : Stage} {key : Key (Layer H) C} :
    (insert stage key).Touches s l ↔ stage ∉ s.stages ∧ l = key.root := by
  constructor
  · rintro (hs | hq)
    · exact ⟨hs, rfl⟩
    · cases hq
  · rintro ⟨hs, rfl⟩
    exact .insert hs

omit [Std.TransOrd H] in
theorem touches_erase {id : StageId} :
    (erase id).Touches s l ↔ ∃ e, s.entries[id]? = some e ∧ e.handles.root = l := by
  constructor
  · rintro (_ | hq | he)
    · cases hq
    · exact ⟨_, he, rfl⟩
  · rintro ⟨e, he, rfl⟩
    exact .erase he

omit [Std.TransOrd H] in
theorem touches_eraseStage {stage : Stage} : (eraseStage stage).Touches s l ↔
    ∃ e, (∃ id : StageId, s.entries[id]? = some e ∧ e.stage = stage) ∧ e.handles.root = l := by
  constructor
  · rintro (_ | hq | _ | he)
    · cases hq
    · exact ⟨_, ⟨_, he, rfl⟩, rfl⟩
  · rintro ⟨e, ⟨id, he, rfl⟩, rfl⟩
    exact .eraseStage he

/-- What an operation touches by the indexes it touches by the entries. -/
theorem mem_layers_iff_touches [Std.LawfulEqOrd H] [DecidableEq H] [DecidableEq C] {mark : H → ℕ}
    (h : s.Consistent n) (hm : s.Marked mark) (hop : op.Marked mark) :
    l ∈ op.layers s ↔ op.Touches s l := by
  cases hq : op.query? with
  | some q =>
    rw [mem_layers_of_query? hm hop hq, touches_of_query? hq, Ne, ← h.isEmpty_byRoot,
      Bool.not_eq_true]
  | none =>
    cases op with
    | find id => exact ⟨nofun, nofun⟩
    | clear => exact ⟨nofun, nofun⟩
    | insert stage key =>
      rw [touches_insert, h.mem_stages, layers]
      split_ifs with hs
      · simp [hs]
      · simp [hs]
    | erase id => simp only [touches_erase, layers, List.mem_map, Option.mem_toList]
    | eraseStage stage =>
      simp only [touches_eraseStage, layers, List.mem_map, Option.mem_toList,
        h.entries_idOf_eq_some_iff]
    | _ => cases hq

end Operation

namespace World

/-- The layers that a step copies or hashes: those of the operation that it performs, or, if it
copies a cache, the root and the session of every entry there. -/
inductive Touches (w : World H C) : Step (Layer H) C → Layer H → Prop where
  | operation {s : Step (Layer H) C} {name : String} {op : Operation Stage (Layer H) C}
    {c : Cache H C} {l : Layer H} :
    w.operation? s = some (name, op) → w.caches[name]? = some c → op.Touches c.store l →
    Touches w s l
  | copy {name target : String} {c : Cache H C} {id : StageId} {e : Entry H C} {l : Layer H} :
    w.caches[name]? = some c → c.store.entries[id]? = some e → l ∈ e.layers →
    Touches w (.copy name target) l
  | copyFrom {name source : String} {c d : Cache H C} {id : StageId} {e : Entry H C} {l : Layer H} :
    w.caches[name]? = some c → w.caches[source]? = some d → d.store.entries[id]? = some e →
    l ∈ e.layers → Touches w (.copyFrom name source) l

variable [Std.LawfulEqOrd H] [DecidableEq H] [DecidableEq C] {mark : H → ℕ} {w : World H C}
  {l : Layer H}

theorem mem_layers_copy (h : w.Sound) (hm : w.Marked mark) (name target : String) :
    l ∈ w.layers (.copy name target) ↔ w.Touches (.copy name target) l := by
  constructor
  · intro hl
    cases hc : w.caches[name]? with
    | none => simp [layers, hc] at hl
    | some c =>
      rw [layers_copy hc, (h hc).mem_layers (hm.store hc)] at hl
      obtain ⟨id, e, he, hl⟩ := hl
      exact .copy hc he hl
  · rintro (hs | ⟨hc, he, hl⟩)
    · cases hs
    · rw [layers_copy hc, (h hc).mem_layers (hm.store hc)]
      exact ⟨_, _, he, hl⟩

theorem mem_layers_copyFrom (h : w.Sound) (hm : w.Marked mark) (name source : String) :
    l ∈ w.layers (.copyFrom name source) ↔ w.Touches (.copyFrom name source) l := by
  constructor
  · intro hl
    cases hc : w.caches[name]? with
    | none => simp [layers, Std.ExtTreeMap.contains_eq_isSome_getElem?, hc] at hl
    | some c =>
      cases hd : w.caches[source]? with
      | none => simp [layers, hd] at hl
      | some d =>
        rw [layers_copyFrom hc hd, (h hd).mem_layers (hm.store hd)] at hl
        obtain ⟨id, e, he, hl⟩ := hl
        exact .copyFrom hc hd he hl
  · rintro (hs | _ | ⟨hc, hd, he, hl⟩)
    · cases hs
    · rw [layers_copyFrom hc hd, (h hd).mem_layers (hm.store hd)]
      exact ⟨_, _, he, hl⟩

theorem mem_layers_operation (h : w.Sound) (hm : w.Marked mark) {s : Step (Layer H) C}
    {name : String} {op : Operation Stage (Layer H) C} (hs : w.operation? s = some (name, op))
    (hop : op.Marked mark) : l ∈ w.layers s ↔ w.Touches s l := by
  rw [layers_of_operation? hs]
  constructor
  · intro hl
    cases hc : w.caches[name]? with
    | none => simp [hc] at hl
    | some c =>
      rw [hc, Option.map_some, Option.getD_some,
        Operation.mem_layers_iff_touches (h hc) (hm.store hc) hop] at hl
      exact .operation hs hc hl
  · intro ht
    cases ht with
    | operation hs' hc hl =>
      rw [hs] at hs'
      cases hs'
      rwa [hc, Option.map_some, Option.getD_some,
        Operation.mem_layers_iff_touches (h hc) (hm.store hc) hop]
    | copy hc he hl => cases hs
    | copyFrom hc hd he hl => cases hs

/-- What a step touches by the indexes of the caches it touches by their entries. -/
theorem mem_layers_iff_touches (h : w.Sound) (hm : w.Marked mark) (s : Step H C) :
    l ∈ w.layers (s.map (Layer.marked mark)) ↔ w.Touches (s.map (Layer.marked mark)) l := by
  cases hs : w.operation? (s.map (Layer.marked mark)) with
  | some p => exact mem_layers_operation h hm hs (hm.operation? hs)
  | none =>
    cases s with
    | copy name target => exact mem_layers_copy h hm name target
    | copyFrom name source => exact mem_layers_copyFrom h hm name source
    | _ =>
      -- neither a copy nor an operation: there is nothing to touch
      simp only [Step.map] at hs ⊢
      constructor
      · intro hl
        simp only [layers, hs, List.not_mem_nil] at hl
      · intro ht
        cases ht with
        | operation hs' hc hl =>
          rw [hs] at hs'
          cases hs'

/-- Whatever a run led to that did not use up the ids, and whatever is armed then, if all handles of
a name have one trigger: a step trips if and only if it touches an armed layer, and what trips is
such a layer. An operation on a cache trips on a root only, either the one it is called with or that
of an entry. -/
theorem trips_iff_touches_armed (mark : H → ℕ) (steps : List (Step H C))
    (hm : (empty.run (steps.map (.map (Layer.marked mark)))).1.minted < 2 ^ 63 - 1)
    (armed : Std.ExtTreeSet (Layer H)) {w : World H C}
    (hw : w = { (empty.run (steps.map (.map (Layer.marked mark)))).1 with armed })
    (s : Step H C) {s' : Step (Layer H) C} (hs' : s' = s.map (Layer.marked mark)) :
    ((∃ name, (w.step s').2.answer = .tripped name) ↔ ∃ layer ∈ w.armed, w.Touches s' layer) ∧
    (∀ name, (w.step s').2.answer = .tripped name →
      .marked mark name ∈ w.armed ∧ w.Touches s' (.marked mark name)) ∧
    (∀ (cache : String) (op : Operation Stage (Layer H) C) (c : Cache H C) (name : H),
      w.operation? s' = some (cache, op) → w.caches[cache]? = some c →
      (w.step s').2.answer = .tripped name → op.root? = some (.marked mark name) ∨
        ∃ (id : StageId) (e : Entry H C), c.store.entries[id]? = some e ∧
          e.handles.root = .marked mark name) := by
  have hsound : w.Sound := by
    rw [hw]
    exact sound_empty.run _ hm
  have hrun : (empty.run (steps.map (.map (Layer.marked mark)))).1.Marked mark :=
    (marked_empty : (empty : World H C).Marked mark).run steps
  have hmarked : w.Marked mark := by
    rw [hw]
    exact ⟨hrun.store, hrun.profile⟩
  have htouches (layer : Layer H) : layer ∈ w.layers s' ↔ w.Touches s' layer := by
    rw [hs']
    exact mem_layers_iff_touches hsound hmarked s
  have htrip (name : H) (ht : (w.step s').2.answer = .tripped name) :
      .marked mark name ∈ w.armed ∧ w.Touches s' (.marked mark name) := by
    obtain ⟨layer, harmed, rfl, hmem, -⟩ := armed_of_trips ht
    rw [← hmarked.layers s layer (hs' ▸ hmem)]
    exact ⟨harmed, (htouches layer).1 hmem⟩
  refine ⟨?_, htrip, ?_⟩
  · rw [trips_iff]
    simp only [htouches]
    exact exists_congr fun layer => and_comm
  · intro cache op c name hs hc ht
    cases (htrip name ht).2 with
    | operation hs' hc' hl =>
      rw [hs] at hs'
      cases hs'
      rw [hc] at hc'
      cases hc'
      exact hl.root
    | copy hc' he hl => cases hs
    | copyFrom hc' hd he hl => cases hs

/-- Two stages are filed under one root, the second with a session. -/
def sessionRun : List (Step ℕ ℕ) :=
  [.create (some "s") "s" none, .create (some "t") "t" none, .new "a",
    .perform "a" (.insert (some "s") ⟨1, none, 0⟩),
    .perform "a" (.insert (some "t") ⟨1, some 2, 0⟩)]

/-- The session of `t` is armed: a copy of the cache touches it and trips, and the removal of `t`
does neither. -/
theorem trips_iff_touches_armed_session : ∃ w : World ℕ ℕ,
    (empty.run (sessionRun.map (.map .shared))).1.minted < 2 ^ 63 - 1 ∧
    w = { (empty.run (sessionRun.map (.map .shared))).1 with
      armed := (∅ : Std.ExtTreeSet (Layer ℕ)).insert (.shared 2) } ∧
    (w.step (.copy "a" "c")).2.answer = .tripped 2 ∧ w.Touches (.copy "a" "c") (.shared 2) ∧
    (w.step (.perform "a" (.eraseStage (some "t")))).2.answer = .reply (.flag true) ∧
    ¬ ∃ layer ∈ w.armed, w.Touches (.perform "a" (.eraseStage (some "t"))) layer := by
  obtain ⟨w, hw⟩ : ∃ w : World ℕ ℕ, w = { (empty.run (sessionRun.map (.map .shared))).1 with
    armed := (∅ : Std.ExtTreeSet (Layer ℕ)).insert (.shared 2) } := ⟨_, rfl⟩
  have hm : (empty.run (sessionRun.map (.map .shared))).1.minted < 2 ^ 63 - 1 := by cbv
  have hcopy : (w.step (.copy "a" "c")).2.answer = .tripped 2 := by
    rw [hw]
    cbv
  have herase : (w.step (.perform "a" (.eraseStage (some "t")))).2.answer =
      .reply (.flag true) := by
    rw [hw]
    cbv
  have h := trips_iff_touches_armed (fun _ => 0) sessionRun hm _ hw
  have htouch := (h (.copy "a" "c") rfl).2.1 2 hcopy
  refine ⟨w, hm, hw, hcopy, htouch.2, herase, fun ht => ?_⟩
  obtain ⟨layer, ht⟩ := (h (.perform "a" (.eraseStage (some "t"))) rfl).1.2 ht
  cases herase.symm.trans ht

end World

end SharedStages
