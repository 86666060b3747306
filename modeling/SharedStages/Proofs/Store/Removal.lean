import SharedStages.Proofs.Cache.Exchange

/-! Removals from a store. The entries decide the other indexes, so it does not matter in which
order entries go, or whether they are named by id or by stage. -/

namespace SharedStages

variable {H C : Type} [Ord H] [Std.TransOrd H]

/-- A request to remove one entry, by its id or by its stage. -/
inductive Removal where
  | id (i : StageId)
  | stage (t : Stage)

namespace Removal

/-- The removal is one of the entry under an id: it gives the id or the stage held under it. -/
inductive Names (s : Store H C) : Removal → StageId → Prop where
  | id {i : StageId} : Names s (.id i) i
  | stage {i : StageId} {e : Entry H C} : s.entries[i]? = some e → Names s (.stage e.stage) i

def work : Removal → Work H C (Option (Entry H C))
  | id i => Store.erase i
  | stage t => Store.eraseStage t

end Removal

namespace Store

/-- Carries out removals one after the other, and lists what goes. -/
def removeEach : List Removal → Work H C (List (Entry H C))
  | [] => return []
  | r :: rs => do
    let e ← r.work
    let es ← removeEach rs
    return e.toList ++ es

variable {s t : Store H C} {n m : ℕ}

/-- Every bucket of `t` is by the handle that the bucket of `s` for the same root is by. -/
def Inherits (s t : Store H C) : Prop :=
  ∀ ⦃r : H⦄ ⦃b : Bucket H⦄, t.byRoot[r]? = some b → ∃ b', s.byRoot[r]? = some b' ∧ b.root = b'.root

theorem inherits_refl (s : Store H C) : s.Inherits s := fun _ b hb => ⟨b, hb, rfl⟩

/-- Removals make no bucket, and keep the handles of those they leave. -/
theorem inherits_foldl_remove [Std.LawfulEqOrd H] [DecidableEq H] (s : Store H C)
    (ids : List StageId) : s.Inherits (ids.foldl remove s) := by
  induction ids generalizing s with
  | nil => exact s.inherits_refl
  | cons id ids ih =>
    intro r b hb
    obtain ⟨b', hb', hroot'⟩ := ih (s.remove id) hb
    obtain ⟨b'', hb'', hroot''⟩ := root_of_byRoot_remove hb'
    exact ⟨b'', hb'', hroot'.trans hroot''⟩

namespace Consistent

/-- Of two stores with buckets from one store, the entries decide the indexes. -/
theorem ext_entries [Std.LawfulEqOrd H] {u : Store H C} (hs : s.Consistent n)
    (ht : t.Consistent m) (hus : u.Inherits s) (hut : u.Inherits t)
    (h : s.entries = t.entries) : s = t := by
  have hfiled (r : H) (id : StageId) : s.Filed r id ↔ t.Filed r id := by
    unfold Filed
    rw [h]
  have hstage : s.byStage = t.byStage := by
    apply Std.ExtTreeMap.ext_getElem?
    intro stage
    apply Option.ext
    intro id
    rw [hs.byStage_iff, ht.byStage_iff, h]
  have hids (r : H) : s.byRoot[r]?.map (·.ids) = t.byRoot[r]?.map (·.ids) := by
    apply Option.ext
    intro ids
    simp only [hs.ids_eq_some_iff, ht.ids_eq_some_iff, hfiled]
  have hroot : s.byRoot = t.byRoot := by
    apply Std.ExtTreeMap.ext_getElem?
    intro r
    have hr := hids r
    cases hb : s.byRoot[r]? with
    | none =>
      rw [hb, Option.map_none, eq_comm, Option.map_eq_none_iff] at hr
      exact hr.symm
    | some b =>
      rw [hb, Option.map_some, eq_comm, Option.map_eq_some_iff] at hr
      obtain ⟨b', hb', hids'⟩ := hr
      obtain ⟨c, hc, hbc⟩ := hus hb
      obtain ⟨c', hc', hbc'⟩ := hut hb'
      rw [hc] at hc'
      cases hc'
      cases b
      cases b'
      simp_all
  cases s
  cases t
  simp_all

theorem ext_rows [Std.LawfulEqOrd H] {u : Store H C} (hs : s.Consistent n) (ht : t.Consistent m)
    (hus : u.Inherits s) (hut : u.Inherits t) (h : s.rows = t.rows) : s = t := by
  apply hs.ext_entries ht hus hut
  apply Std.ExtTreeMap.ext_getElem?
  intro id
  rw [← hs.find?_rows_id, ← ht.find?_rows_id, h]

variable [Std.LawfulEqOrd H] [DecidableEq H]

/-- Which entries are left depends on which ids were removed, and not on the order or on how often
each of them was. -/
theorem foldl_remove_congr (h : s.Consistent n) {ids ids' : List StageId}
    (hids : ∀ id, id ∈ ids ↔ id ∈ ids') : ids.foldl Store.remove s = ids'.foldl Store.remove s := by
  apply (h.foldl_remove ids).ext_rows (h.foldl_remove ids') (s.inherits_foldl_remove ids)
    (s.inherits_foldl_remove ids')
  rw [h.rows_foldl_remove, h.rows_foldl_remove]
  simp only [hids]

/-- A new entry that is removed again leaves no trace, its bucket included. -/
theorem remove_add (h : s.Consistent n) {e : Entry H C} (hs : s.byStage[e.stage]? = none)
    (hid : n < e.id.toInt) : (s.add e).remove e.id = s := by
  have hadd := h.add hs hid (m := e.id.toInt.toNat) (by omega)
  have hold : s.rows.filter (·.id ≠ e.id) = s.rows := by
    apply List.filter_eq_self.2
    intro f hf
    have hle := (h.issued (h.mem_rows.1 hf)).2
    rw [decide_eq_true_iff]
    intro heq
    rw [heq] at hle
    omega
  have hinherits : (s.add e).Inherits ((s.add e).remove e.id) := inherits_foldl_remove _ [e.id]
  have hkept : (s.add e).Inherits s := by
    intro r b hb
    have hnew : (s.add e).byRoot[r]? = if e.key.root = r then
        some ((s.byRoot[e.key.root]?.getD ⟨e.handles.root, ∅⟩).insert e.id) else s.byRoot[r]? :=
      getElem?_putRoot s e.handles.root r e.id
    split_ifs at hnew with hr
    · subst hr
      rw [hb] at hnew
      exact ⟨_, hnew, rfl⟩
    · exact ⟨b, hnew.trans hb, rfl⟩
  apply (hadd.remove e.id).ext_rows h hinherits hkept
  rw [hadd.rows_remove, h.rows_add hs hid, List.filter_append, hold]
  simp

/-- What is under one of the ids is under the first, or is still there when that is removed. -/
theorem filter_mem_cons_perm (h : s.Consistent n) (i : StageId) (ids : List StageId) :
    (s.entries[i]?.toList ++ (s.remove i).rows.filter (·.id ∈ ids)).Perm
      (s.rows.filter (·.id ∈ i :: ids)) := by
  have hrest : (s.remove i).rows.filter (·.id ∈ i :: ids) =
      (s.remove i).rows.filter (·.id ∈ ids) := by
    apply List.filter_congr
    intro e he
    rw [h.rows_remove, List.mem_filter, decide_eq_true_iff] at he
    simp [he.2]
  have hfirst : s.entries[i]?.toList.filter (·.id ∈ i :: ids) = s.entries[i]?.toList := by
    apply List.filter_eq_self.2
    intro e he
    rw [h.id_eq (Option.mem_toList.1 he)]
    simp
  have hrows := (eraseP_append_find?_perm (fun e : Entry H C => e.id = i) s.rows).symm
  rw [h.eraseP_id, h.find?_rows_id] at hrows
  have hperm := hrows.filter (·.id ∈ i :: ids)
  rw [List.filter_append, hrest, hfirst] at hperm
  exact List.perm_append_comm.trans hperm.symm

end Consistent

section Runs

/-- A stage that is still held leads to the id it was held under at the start; one that is gone
leads nowhere. -/
theorem run_work {b : Bench H C} (hs : s.Consistent n) (hb : b.store.Consistent m)
    (hsub : ∀ (i : StageId) (e : Entry H C), b.store.entries[i]? = some e → s.entries[i]? = some e)
    {r : Removal} {i : StageId} (hr : r.Names s i) :
    EStateM.run r.work b = EStateM.run (erase i) b := by
  cases hr with
  | id => rfl
  | @stage i e he =>
    have hstage : EStateM.run (Removal.stage e.stage).work b =
        EStateM.run (erase (b.store.idOf e.stage)) b := by
      unfold Removal.work eraseStage
      rw [EStateM.run_bind, EStateM.run_get]
    rw [hstage]
    cases hi : b.store.entries[i]? with
    | some f =>
      have hfe : f = e := Option.some.inj ((hsub i f hi).symm.trans he)
      subst hfe
      rw [idOf, hb.byStage_iff.2 ⟨f, hi, rfl⟩, Option.getD_some]
    | none =>
      have hgone : b.store.entries[b.store.idOf e.stage]? = none := by
        by_contra hne
        obtain ⟨f, hf⟩ := Option.ne_none_iff_exists'.1 hne
        obtain ⟨j, hj, hst⟩ := hb.entries_idOf_eq_some_iff.1 hf
        rw [hs.id_unique he (hsub j f hj) hst.symm, hj] at hi
        cases hi
      rw [run_erase, run_erase, hgone, hi]

variable [Std.LawfulEqOrd H] [DecidableEq H]

/-- Removals by stage do what the removals by id do, whatever trips. -/
theorem run_removeEach {b : Bench H C} (hs : s.Consistent n) (hb : b.store.Consistent m)
    (hsub : ∀ (i : StageId) (e : Entry H C), b.store.entries[i]? = some e → s.entries[i]? = some e)
    {rs : List Removal} {ids : List StageId} (hr : rs.Forall₂ (Removal.Names s) ids) :
    EStateM.run (removeEach rs) b = EStateM.run (eraseEach ids) b := by
  induction hr generalizing b with
  | nil => rfl
  | @cons r i rs ids hri hr ih =>
    unfold removeEach eraseEach
    rw [EStateM.run_bind, EStateM.run_bind, run_work hs hb hsub hri, run_erase]
    cases he : b.store.entries[i]? with
    | none => simp only [EStateM.run_bind, ih hb hsub]
    | some e =>
      by_cases ha : b.armed.contains e.handles.root = true
      · simp [ha]
      · have hrest : ∀ (j : StageId) (f : Entry H C),
            (b.store.remove i).entries[j]? = some f → s.entries[j]? = some f := by
          intro j f hf
          rw [getElem?_entries_remove] at hf
          split_ifs at hf
          exact hsub j f hf
        have hih := ih (b := { b with store := b.store.remove i, lost := b.lost ++ [e.stage] })
          (hb.remove i) hrest
        simp [ha, hih]

omit [Std.LawfulEqOrd H] [DecidableEq H] in
theorem run_erase_of_not_mem {b : Bench H C} {i : StageId}
    (ha : ∀ e : Entry H C, b.store.entries[i]? = some e → e.handles.root ∉ b.armed) :
    EStateM.run (erase i) b = .ok b.store.entries[i]?
      { b with
        store := b.store.remove i
        lost := b.lost ++ b.store.entries[i]?.toList.map (·.stage) } := by
  rw [run_erase]
  cases he : b.store.entries[i]? with
  | none => simp [he]
  | some e =>
    have hroot := ha e he
    rw [Std.ExtTreeSet.mem_iff_contains] at hroot
    simp [hroot]

/-- Removals take out what is under their ids, in any order, unless the root of such an entry is
armed. -/
theorem run_eraseEach_filter {b : Bench H C} (hb : b.store.Consistent n) (ids : List StageId)
    (ha : ∀ i ∈ ids, ∀ e : Entry H C, b.store.entries[i]? = some e → e.handles.root ∉ b.armed) :
    ∃ es, es.Perm (b.store.rows.filter (·.id ∈ ids)) ∧ EStateM.run (eraseEach ids) b = .ok es
      { b with
        store := ids.foldl remove b.store
        lost := b.lost ++ es.map (·.stage) } := by
  induction ids generalizing b with
  | nil => exact ⟨[], by simp, by simp [eraseEach]⟩
  | cons i ids ih =>
    have hrest : ∀ j ∈ ids, ∀ e : Entry H C,
        (b.store.remove i).entries[j]? = some e → e.handles.root ∉ b.armed := by
      intro j hj e he
      rw [getElem?_entries_remove] at he
      split_ifs at he
      exact ha j (List.mem_cons_of_mem i hj) e he
    obtain ⟨es, hperm, hrun⟩ := ih (b := { b with
      store := b.store.remove i
      lost := b.lost ++ b.store.entries[i]?.toList.map (·.stage) }) (hb.remove i) hrest
    refine ⟨b.store.entries[i]?.toList ++ es, ?_, ?_⟩
    · exact (hperm.append_left _).trans (hb.filter_mem_cons_perm i ids)
    · unfold eraseEach
      rw [EStateM.run_bind, run_erase_of_not_mem (ha i List.mem_cons_self)]
      simp only [EStateM.run_bind, hrun]
      simp

end Runs

section Queries

variable [DecidableEq H] [DecidableEq C]

/-- Nothing is armed that an erasure by the query could touch. -/
structure Unarmed (b : Bench H C) (q : Query (Layer H) C) : Prop where
  root : q.root ∉ b.armed
  entries {id : StageId} {e : Entry H C} :
    b.store.entries[id]? = some e → q.names.admits e.key = true → e.handles.root ∉ b.armed

/-- Two queries take out what they admit, one after the other; the answer is how many entries go. -/
def eraseBoth (q q' : Query (Layer H) C) : Work H C ℕ := do
  let es ← eraseMatching q
  let es' ← eraseMatching q'
  return es.length + es'.length

theorem run_eraseMatching_of_unarmed {b : Bench H C} {q : Query (Layer H) C} (hq : Unarmed b q) :
    EStateM.run (eraseMatching q) b = .ok (b.store.hits q.names)
      { b with
        store := (b.store.matching q.names).foldl remove b.store
        lost := b.lost ++ (b.store.hits q.names).map (·.stage) } := by
  have hquiet : (Operation.layers b.store (.eraseAll q)).find? (b.armed.contains ·) = none := by
    rw [List.find?_eq_none]
    intro l hl
    rw [← Std.ExtTreeSet.mem_iff_contains]
    simp only [Operation.layers] at hl
    split_ifs at hl
    · cases hl
    · rcases List.mem_cons.1 hl with rfl | hl
      · exact hq.root
      · obtain ⟨e, he, rfl⟩ := List.mem_map.1 hl
        obtain ⟨id, hid, hadm⟩ := exists_of_mem_hits he
        exact hq.entries hid hadm
  rw [run_eraseMatching, hquiet]

theorem run_eraseBoth {b : Bench H C} {q q' : Query (Layer H) C} (hq : Unarmed b q)
    (hq' : Unarmed b q') {t : Store H C}
    (ht : t = (b.store.matching q.names).foldl remove b.store) :
    ∃ d, EStateM.run (eraseBoth q q') b =
        .ok ((b.store.hits q.names).length + (t.hits q'.names).length) d ∧
      d.store = (t.matching q'.names).foldl remove t := by
  unfold eraseBoth
  rw [EStateM.run_bind, run_eraseMatching_of_unarmed hq, ← ht]
  dsimp only
  rw [EStateM.run_bind, run_eraseMatching_of_unarmed]
  · exact ⟨_, rfl, rfl⟩
  · subst ht
    exact ⟨hq'.root, fun he => hq'.entries (entries_of_foldl_remove he)⟩

namespace Consistent

theorem filter_mem_matching (h : s.Consistent n) {q : Query H C} {ids : List StageId}
    (hids : ∀ id, id ∈ ids ↔ id ∈ s.matching q) :
    s.rows.filter (·.id ∈ ids) = s.hits q := by
  rw [h.hits_eq]
  apply List.filter_congr
  intro e he
  simp [hids, h.id_mem_matching he]

variable [Std.LawfulEqOrd H]

/-- What a query takes out and what it leaves is all there was. -/
theorem length_hits_add (h : s.Consistent n) (q : Query H C) :
    (s.hits q).length + ((s.matching q).foldl Store.remove s).rows.length = s.rows.length := by
  rw [h.rows_eraseMatching, h.hits_eq, ← List.length_append]
  exact (List.filter_append_perm _ _).length_eq

/-- Two queries take out what either admits, in either order. -/
theorem eraseMatching_comm (h : s.Consistent n) (q q' : Query H C) {t t' : Store H C}
    (ht : t = (s.matching q).foldl Store.remove s)
    (ht' : t' = (s.matching q').foldl Store.remove s) :
    (t.matching q').foldl Store.remove t = (t'.matching q).foldl Store.remove t' ∧
      (s.hits q).length + (t.hits q').length = (s.hits q').length + (t'.hits q).length := by
  have hc : t.Consistent n := ht ▸ h.foldl_remove _
  have hc' : t'.Consistent n := ht' ▸ h.foldl_remove _
  have hsame : (t.matching q').foldl Store.remove t = (t'.matching q).foldl Store.remove t' := by
    have hall : ((s.matching q ++ t.matching q').foldl Store.remove s) =
        (t.matching q').foldl Store.remove t := by rw [List.foldl_append, ht]
    have hall' : ((s.matching q' ++ t'.matching q).foldl Store.remove s) =
        (t'.matching q).foldl Store.remove t' := by rw [List.foldl_append, ht']
    apply (hc.foldl_remove _).ext_rows (hc'.foldl_remove _)
      (hall ▸ s.inherits_foldl_remove _) (hall' ▸ s.inherits_foldl_remove _)
    rw [hc.rows_eraseMatching, hc'.rows_eraseMatching, ht, ht', h.rows_eraseMatching,
      h.rows_eraseMatching, List.filter_filter, List.filter_filter]
    simp only [Bool.and_comm]
  refine ⟨hsame, ?_⟩
  have hq := h.length_hits_add q
  have hq' := h.length_hits_add q'
  have hrest := hc.length_hits_add q'
  have hrest' := hc'.length_hits_add q
  rw [← ht] at hq
  rw [← ht'] at hq'
  rw [hsame] at hrest
  omega

end Consistent

end Queries

section Insertion

/-- Files a stage and removes it again. -/
def insertAndErase (stage : Stage) (key : Key (Layer H) C) :
    Work H C ((StageId × Bool) × Option (Entry H C)) := do
  let answer ← insert stage key
  let e ← erase answer.1
  return (answer, e)

variable [Std.LawfulEqOrd H] [DecidableEq H]

theorem run_insertAndErase {b : Bench H C} (hb : b.store.Consistent b.minted)
    (hm : b.minted < 2 ^ 63 - 1) {stage : Stage} {key : Key (Layer H) C}
    (hs : b.store.byStage[stage]? = none) (ha : key.root ∉ b.armed) :
    ∃ id d, EStateM.run (insertAndErase stage key) b =
      .ok ((id, true), some ⟨id, stage, key⟩) d ∧ d.store = b.store := by
  let e : Entry H C := ⟨.ofSerial b.minted, stage, key⟩
  have hid : b.minted < e.id.toInt := by
    rw [StageId.toInt_ofSerial hm]
    omega
  have hentry : (b.store.add e).entries[e.id]? = some e := by
    unfold add
    rw [getElem?_putEntry, if_pos rfl]
  rw [Std.ExtTreeSet.mem_iff_contains, Bool.not_eq_true] at ha
  have hrun : EStateM.run (insertAndErase stage key) b = .ok ((e.id, true), some e)
      { b with
        minted := b.minted + 1
        store := (b.store.add e).remove e.id
        gained := stage :: b.gained
        lost := b.lost ++ [stage] } := by
    unfold insertAndErase
    rw [EStateM.run_bind, run_insert, hs]
    simp only [ha, Bool.false_eq_true, if_false]
    rw [EStateM.run_bind, run_erase]
    simp only [hentry, e, ha]
    simp
  exact ⟨e.id, _, hrun, hb.remove_add hs hid⟩

end Insertion

end Store

end SharedStages
