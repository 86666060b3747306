import Mathlib.Data.List.TakeWhile
import SharedStages.Proofs.Store.Rows
import SharedStages.Store.Operations

/-! What each operation on a store comes to when it is run. Every erasure of one entry, and every
insertion, touches its layers before it writes, so it either trips and leaves the store alone, or
does all of its work. A row of erasures that trips has done those before it. -/

namespace SharedStages

variable {H C : Type} [Ord H] [Std.TransOrd H]

/-- What is left of the work when a layer trips. -/
def Bench.disarm (b : Bench H C) (layer : Layer H) : Bench H C :=
  { b with armed := b.armed.erase layer }

/-- The handles of an entry: its root, then its session if it has one. -/
def Entry.layers {H C : Type} (e : Entry H C) : List (Layer H) :=
  e.handles.root :: e.handles.session.toList

@[simp] theorem Work.run_map {H C α β : Type} [Ord H] (f : α → β) (w : Work H C α)
    (b : Bench H C) : EStateM.run (f <$> w) b = match EStateM.run w b with
    | .ok a b => .ok (f a) b
    | .error l b => .error l b := by
  rw [map_eq_pure_bind, EStateM.run_bind]
  cases EStateM.run w b <;> rfl

namespace Store

open Work

/-- The entries that a query admits, the lowest id first. -/
def hits [DecidableEq H] [DecidableEq C] (s : Store H C) (q : Query H C) : List (Entry H C) :=
  (s.matching q).filterMap (s.entries[·]?)

/-- The handles a copy of the store has to copy, in the order in which it does so. -/
def layers (s : Store H C) : List (Layer H) :=
  s.rows.flatMap (·.layers) ++ s.byRoot.values.map (·.root)

/-- Of a list of ids, those before the first whose entry has an armed root. -/
def untripped (s : Store H C) (armed : Std.ExtTreeSet (Layer H)) (ids : List StageId) :
    List StageId :=
  ids.takeWhile fun id => s.entries[id]?.all fun e => !armed.contains e.handles.root

/-- The stages that the entries of a list of ids hold. -/
def stagesOf (s : Store H C) (ids : List StageId) : List Stage :=
  (ids.filterMap (s.entries[·]?)).map (·.stage)

section Hits

variable [DecidableEq H] [DecidableEq C] {s : Store H C} {q : Query H C} {e : Entry H C}

theorem admits_of_mem_matching {id : StageId} (hid : id ∈ s.matching q)
    (he : s.entries[id]? = some e) : q.admits e.key = true := by
  have hany := (List.mem_filter.1 hid).2
  rwa [he, Option.any_some] at hany

theorem exists_of_mem_hits (he : e ∈ s.hits q) :
    ∃ id : StageId, s.entries[id]? = some e ∧ q.admits e.key = true := by
  obtain ⟨id, hid, he⟩ := List.mem_filterMap.1 he
  exact ⟨id, he, admits_of_mem_matching hid he⟩

end Hits

section Erasures

variable {s : Store H C} {armed : Std.ExtTreeSet (Layer H)} {id : StageId} {e : Entry H C}
  {ids : List StageId}

omit [Std.TransOrd H] in
@[simp] theorem stagesOf_nil : s.stagesOf [] = [] := rfl

omit [Std.TransOrd H] in
theorem stagesOf_cons_of_none (he : s.entries[id]? = none) :
    s.stagesOf (id :: ids) = s.stagesOf ids := by simp [stagesOf, he]

omit [Std.TransOrd H] in
theorem stagesOf_cons_of_some (he : s.entries[id]? = some e) :
    s.stagesOf (id :: ids) = e.stage :: s.stagesOf ids := by simp [stagesOf, he]

theorem untripped_cons_of_none (he : s.entries[id]? = none) :
    s.untripped armed (id :: ids) = id :: s.untripped armed ids := by simp [untripped, he]

theorem untripped_cons_of_some (he : s.entries[id]? = some e) :
    s.untripped armed (id :: ids) =
      if armed.contains e.handles.root then [] else id :: s.untripped armed ids := by
  rw [untripped, List.takeWhile_cons, he, Option.all_some]
  cases armed.contains e.handles.root <;> rfl

/-- Removing one id makes no difference to the others. -/
theorem entries_remove_of_notMem (hid : id ∉ ids) :
    ∀ i ∈ ids, (s.remove id).entries[i]? = s.entries[i]? := by
  intro i hi
  rw [getElem?_entries_remove, if_neg]
  rintro rfl
  exact hid hi

theorem filterMap_remove_of_notMem (hid : id ∉ ids) :
    ids.filterMap ((s.remove id).entries[·]?) = ids.filterMap (s.entries[·]?) :=
  List.filterMap_congr (entries_remove_of_notMem hid)

theorem stagesOf_remove_of_notMem (hid : id ∉ ids) :
    (s.remove id).stagesOf ids = s.stagesOf ids := by
  rw [stagesOf, filterMap_remove_of_notMem hid, stagesOf]

theorem untripped_remove_of_notMem (hid : id ∉ ids) :
    (s.remove id).untripped armed ids = s.untripped armed ids := by
  induction ids with
  | nil => rfl
  | cons i ids ih =>
    obtain ⟨hi, hids⟩ := List.ne_and_not_mem_of_not_mem_cons hid
    have hother := entries_remove_of_notMem (s := s) hid i List.mem_cons_self
    cases he : s.entries[i]? with
    | none => rw [untripped_cons_of_none he, untripped_cons_of_none (hother.trans he), ih hids]
    | some e => rw [untripped_cons_of_some he, untripped_cons_of_some (hother.trans he), ih hids]

theorem untripped_sublist : (s.untripped armed ids).Sublist ids := List.takeWhile_sublist _

/-- No entry with an armed root is among those that go before it. -/
theorem contains_of_mem_untripped (hid : id ∈ s.untripped armed ids)
    (he : s.entries[id]? = some e) : armed.contains e.handles.root = false := by
  have := List.mem_takeWhile_imp hid
  simpa [he] using this

/-- The first armed root is that of the first id which is not among them. -/
theorem exists_of_find?_armed {l : Layer H}
    (h : ((ids.filterMap (s.entries[·]?)).map (·.handles.root)).find? (armed.contains ·) = some l) :
    ∃ id e rest, ids = s.untripped armed ids ++ id :: rest ∧ s.entries[id]? = some e ∧
      e.handles.root = l := by
  induction ids with
  | nil => cases h
  | cons i ids ih =>
    cases he : s.entries[i]? with
    | none =>
      rw [List.filterMap_cons_none he] at h
      obtain ⟨id, e, rest, hids, hid⟩ := ih h
      refine ⟨id, e, rest, ?_, hid⟩
      rw [untripped_cons_of_none he, List.cons_append, ← hids]
    | some f =>
      rw [List.filterMap_cons_some he, List.map_cons, List.find?_cons] at h
      rw [untripped_cons_of_some he]
      cases hf : armed.contains f.handles.root with
      | true =>
        simp only [hf] at h
        exact ⟨i, f, ids, rfl, he, Option.some.inj h⟩
      | false =>
        simp only [hf] at h
        obtain ⟨id, e, rest, hids, hid⟩ := ih h
        refine ⟨id, e, rest, ?_, hid⟩
        rw [if_neg Bool.false_ne_true, List.cons_append, ← hids]

end Erasures

/-- Takes a share in the stage of an entry, then copies its layers. -/
def copyEntry (e : Entry H C) : Work H C Unit := do
  gain e.stage
  touch e.handles.root
  e.handles.session.forM touch

/-- The copying of a store, its entries and its buckets in any order. -/
def copyAll (es : List (Entry H C)) (bs : List (Bucket H)) : Work H C Unit := do
  forM es copyEntry
  forM bs (touch ·.root)

variable (b : Bench H C)

/-- The first armed layer of a list trips; without one nothing happens. -/
theorem run_touchEach (ls : List (Layer H)) : EStateM.run (forM ls touch) b =
    match ls.find? (b.armed.contains ·) with
    | some l => .error l (b.disarm l)
    | none => .ok () b := by
  induction ls with
  | nil => rfl
  | cons l ls ih =>
    rw [List.forM_cons, EStateM.run_bind, run_touch, List.find?_cons]
    by_cases hl : b.armed.contains l = true
    · simp [hl, Bench.disarm]
    · simp [hl, ih]

theorem run_consult (root : Layer H) : EStateM.run (consult root) b =
    if b.store.byRoot.isEmpty then .ok () b else EStateM.run (touch root) b := by
  unfold consult
  simp only [EStateM.run_bind, EStateM.run_get]
  cases b.store.byRoot.isEmpty <;> rfl

theorem run_insert (stage : Stage) (key : Key (Layer H) C) : EStateM.run (insert stage key) b =
    match b.store.byStage[stage]? with
    | some id => .ok (id, false) b
    | none =>
      if b.armed.contains key.root then
        .error key.root { b.disarm key.root with minted := b.minted + 1 }
      else .ok (.ofSerial b.minted, true)
        { b with
          minted := b.minted + 1
          store := b.store.add ⟨.ofSerial b.minted, stage, key⟩
          gained := stage :: b.gained } := by
  unfold insert
  simp only [EStateM.run_bind, EStateM.run_get]
  cases b.store.byStage[stage]? with
  | some id => rfl
  | none =>
    simp only [EStateM.run_bind, run_mint, run_touch]
    by_cases h : b.armed.contains key.root = true
    · simp [h, Bench.disarm]
    · simp [h, add]

/-- Whichever way the bucket goes, an armed root trips before anything is written. -/
theorem run_erase (id : StageId) : EStateM.run (erase id) b =
    match b.store.entries[id]? with
    | none => .ok none b
    | some e =>
      if b.armed.contains e.handles.root then .error e.handles.root (b.disarm e.handles.root)
      else .ok (some e) { b with store := b.store.remove id, lost := b.lost ++ [e.stage] } := by
  unfold erase
  simp only [EStateM.run_bind, EStateM.run_get]
  cases he : b.store.entries[id]? with
  | none => rfl
  | some e =>
    have hempty : b.store.byRoot.isEmpty = true → b.store.bucketSize e.key.root ≤ 1 := by
      intro h
      simp [bucketSize, Std.ExtTreeMap.isEmpty_iff.1 h]
    by_cases h : b.armed.contains e.handles.root = true
    · cases hr : b.store.byRoot.isEmpty with
      | true => simp [run_consult, run_touch, h, hr, hempty hr, Bench.disarm]
      | false => simp [run_consult, run_touch, h, hr, Bench.disarm]
    · have htouch : EStateM.run (touch e.handles.root) b = .ok () b := by simp [run_touch, h]
      have hconsult : EStateM.run (consult e.handles.root) b = .ok () b := by
        rw [run_consult, htouch, ite_self]
      simp only [remove, he]
      by_cases hb : b.store.bucketSize e.key.root ≤ 1
      · simp [htouch, hconsult, h, hb]
      · simp [hconsult, h, hb]

/-- The first entry with an armed root trips, and those before it are gone. -/
theorem run_eraseEach {ids : List StageId} (hnd : ids.Nodup) (b : Bench H C) :
    EStateM.run (eraseEach ids) b =
    match ((ids.filterMap (b.store.entries[·]?)).map (·.handles.root)).find?
      (b.armed.contains ·) with
    | some l => .error l
      { b.disarm l with
        store := (b.store.untripped b.armed ids).foldl remove b.store
        lost := b.lost ++ b.store.stagesOf (b.store.untripped b.armed ids) }
    | none => .ok (ids.filterMap (b.store.entries[·]?))
      { b with
        store := ids.foldl remove b.store
        lost := b.lost ++ b.store.stagesOf ids } := by
  induction ids generalizing b with
  | nil => simp [eraseEach]
  | cons id ids ih =>
    obtain ⟨hid, hnd⟩ := List.nodup_cons.1 hnd
    unfold eraseEach
    rw [EStateM.run_bind, run_erase]
    cases he : b.store.entries[id]? with
    | none =>
      simp only [EStateM.run_bind, ih hnd b, List.filterMap_cons, he, stagesOf_cons_of_none he,
        untripped_cons_of_none he, List.foldl_cons, remove_of_none he]
      cases ((ids.filterMap (b.store.entries[·]?)).map (·.handles.root)).find?
        (b.armed.contains ·) <;> rfl
    | some e =>
      simp only [List.filterMap_cons, he, List.map_cons, List.find?_cons,
        untripped_cons_of_some he, stagesOf_cons_of_some he]
      by_cases ha : b.armed.contains e.handles.root = true
      · simp [ha, Bench.disarm]
      · have hrest := ih hnd { b with store := b.store.remove id, lost := b.lost ++ [e.stage] }
        simp only [filterMap_remove_of_notMem hid, untripped_remove_of_notMem hid] at hrest
        cases hf : ((ids.filterMap (b.store.entries[·]?)).map (·.handles.root)).find?
          (b.armed.contains ·) with
        | none =>
          rw [hf, stagesOf_remove_of_notMem hid] at hrest
          simp [ha, hrest]
        | some l =>
          have hids : id ∉ b.store.untripped b.armed ids := fun h =>
            hid (untripped_sublist.subset h)
          rw [hf, stagesOf_remove_of_notMem hids] at hrest
          simp [ha, hrest, stagesOf_cons_of_some he, Bench.disarm]

omit [Std.TransOrd H] in
theorem run_take : EStateM.run take b =
    .ok b.store { b with store := empty, lost := b.lost ++ b.store.stages } := rfl

theorem run_copyEntry (e : Entry H C) : EStateM.run (copyEntry e) b =
    match e.layers.find? (b.armed.contains ·) with
    | some l => .error l { b.disarm l with gained := e.stage :: b.gained }
    | none => .ok () { b with gained := e.stage :: b.gained } := by
  have htouch : copyEntry e = gain e.stage >>= fun _ => forM e.layers touch := by
    cases hs : e.handles.session <;> simp [copyEntry, Entry.layers, hs, Option.forM]
  rw [htouch, EStateM.run_bind, run_gain]
  simp only [run_touchEach]
  cases e.layers.find? (b.armed.contains ·) <;> rfl

/-- A copy trips on the first armed layer it meets, in whatever order it is made; the shares it
has taken by then are the only other trace of it. -/
theorem run_copyAll (es : List (Entry H C)) (bs : List (Bucket H)) (b : Bench H C) :
    ∃ taken, EStateM.run (copyAll es bs) b =
    match (es.flatMap (·.layers) ++ bs.map (·.root)).find? (b.armed.contains ·) with
    | some l => .error l { b.disarm l with gained := taken ++ b.gained }
    | none => .ok () { b with gained := (es.map (·.stage)).reverse ++ b.gained } := by
  induction es generalizing b with
  | nil =>
    refine ⟨[], ?_⟩
    have hroots : (copyAll [] bs : Work H C Unit) = forM (bs.map (·.root)) touch := by
      simp [copyAll]
    rw [hroots]
    exact run_touchEach b (bs.map (·.root))
  | cons e es ih =>
    obtain ⟨taken, ht⟩ := ih { b with gained := e.stage :: b.gained }
    have hcons : copyAll (e :: es) bs = copyEntry e >>= fun _ => copyAll es bs := by
      simp only [copyAll, List.forM_cons, bind_assoc]
    rw [hcons, EStateM.run_bind, run_copyEntry, List.flatMap_cons, List.append_assoc,
      List.find?_append]
    cases e.layers.find? (b.armed.contains ·) with
    | some l => exact ⟨[e.stage], rfl⟩
    | none =>
      refine ⟨taken ++ [e.stage], ?_⟩
      simp only [ht, Option.none_or]
      cases (es.flatMap (·.layers) ++ bs.map (·.root)).find? (b.armed.contains ·) <;>
        simp [Bench.disarm]

theorem run_copy : ∃ taken, EStateM.run copy b =
    match b.store.layers.find? (b.armed.contains ·) with
    | some l => .error l { b.disarm l with gained := taken ++ b.gained }
    | none => .ok b.store { b with gained := b.store.stages.reverse ++ b.gained } := by
  obtain ⟨taken, ht⟩ := run_copyAll b.store.rows b.store.byRoot.values b
  have hcopy : EStateM.run copy b = EStateM.run
      (copyAll b.store.rows b.store.byRoot.values >>= fun _ => pure b.store) b := by
    simp only [copyAll, bind_assoc]
    rfl
  refine ⟨taken, ?_⟩
  rw [hcopy, EStateM.run_bind, ht, layers]
  cases (b.store.rows.flatMap (·.layers) ++ b.store.byRoot.values.map (·.root)).find?
    (b.armed.contains ·) <;> rfl

end Store

end SharedStages
