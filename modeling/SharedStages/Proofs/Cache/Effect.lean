import SharedStages.Cache.Operation
import SharedStages.Proofs.Store.Runs

/-! The effect of an operation, as functions of the store it is called on. `run_work` says that
an operation trips on the first armed one of its handles, or else has exactly this effect. What an
operation that trips leaves done is its progress. -/

namespace SharedStages

variable {H C : Type} [Ord H] [Std.TransOrd H] [DecidableEq H] [DecidableEq C]

namespace Operation

/-- The handles an operation copies or hashes, in the order in which it does so. -/
def layers (s : Store H C) : Operation Stage (Layer H) C → List (Layer H)
  | insert stage key => if s.byStage.contains stage then [] else [key.root]
  | findOne q | findAll q => if s.byRoot.isEmpty then [] else [q.root]
  | eraseAll q =>
    if s.byRoot.isEmpty then [] else q.root :: (s.hits q.names).map (·.handles.root)
  | erase id => s.entries[id]?.toList.map (·.handles.root)
  | eraseStage stage => s.entries[s.idOf stage]?.toList.map (·.handles.root)
  | find _ | clear => []

/-- The ids that an operation has removed when a layer trips. Only one that removes entries one
after the other gets anywhere. -/
def progress (s : Store H C) (armed : Std.ExtTreeSet (Layer H)) :
    Operation Stage (Layer H) C → List StageId
  | eraseAll q =>
    if armed.contains q.root then [] else s.untripped armed (s.matching q.names)
  | _ => []

/-- How many ids an operation spends, whether it trips or not. -/
def spent (s : Store H C) : Operation Stage (Layer H) C → ℕ
  | insert stage _ => if s.byStage.contains stage then 0 else 1
  | _ => 0

/-- The answer and the event. -/
def result (s : Store H C) (minted : ℕ) : Operation Stage (Layer H) C → Reply × Event
  | find id => (.stage (s.find? id), .find id (s.find? id).isSome)
  | findOne q =>
    let stage := (s.hits q.names).head?.map (·.stage)
    (.stage stage, .findMatching stage.toList.length)
  | findAll q =>
    (.stages ((s.hits q.names).map (·.stage)), .findMatching (s.hits q.names).length)
  | insert stage _ =>
    match s.byStage[stage]? with
    | some id => (.id id, .insert id false)
    | none => (.id (.ofSerial minted), .insert (.ofSerial minted) true)
  | erase id => (.flag s.entries[id]?.isSome, .erase id s.entries[id]?.isSome)
  | eraseStage stage =>
    let e := s.entries[s.idOf stage]?
    (.flag e.isSome, .erase ((e.map (·.id)).getD .invalid) e.isSome)
  | eraseAll q => (.count (s.hits q.names).length, .eraseMatching (s.hits q.names).length)
  | clear => (.done, .clear s.size)

/-- The store after the operation. -/
def after (s : Store H C) (minted : ℕ) : Operation Stage (Layer H) C → Store H C
  | insert stage key =>
    if s.byStage.contains stage then s else s.add ⟨.ofSerial minted, stage, key⟩
  | erase id => s.remove id
  | eraseStage stage => s.remove (s.idOf stage)
  | eraseAll q => (s.matching q.names).foldl .remove s
  | clear => .empty
  | find _ | findOne _ | findAll _ => s

/-- The shares an operation takes. -/
def taken (s : Store H C) : Operation Stage (Layer H) C → List Stage
  | insert stage _ => if s.byStage.contains stage then [] else [stage]
  | _ => []

/-- The shares an operation gives back. -/
def given (s : Store H C) : Operation Stage (Layer H) C → List Stage
  | erase id => s.entries[id]?.toList.map (·.stage)
  | eraseStage stage => s.entries[s.idOf stage]?.toList.map (·.stage)
  | eraseAll q => (s.hits q.names).map (·.stage)
  | clear => s.stages
  | _ => []

end Operation

namespace Store

variable (b : Bench H C)

theorem nodup_matching (s : Store H C) (q : Query H C) : (s.matching q).Nodup :=
  ((s.bucket_ascending q.root).filter _).imp fun h => by
    rintro rfl
    exact Std.Irrefl.irrefl _ h

/-- A query on an empty index finds nothing. -/
theorem matching_of_isEmpty {s : Store H C} (h : s.byRoot.isEmpty = true) (q : Query H C) :
    s.matching q = [] := by
  simp [matching, bucket, Std.ExtTreeMap.isEmpty_iff.1 h]

theorem run_search (q : Query (Layer H) C) : EStateM.run (search q) b =
    if b.store.byRoot.isEmpty = false ∧ b.armed.contains q.root then .error q.root (b.disarm q.root)
    else .ok (b.store.matching q.names) b := by
  unfold search
  rw [EStateM.run_bind, run_consult, Work.run_touch]
  cases b.store.byRoot.isEmpty <;> cases b.armed.contains q.root <;> rfl

/-- The root of the query trips before anything is erased, the roots of the entries one by one. -/
theorem run_eraseMatching (q : Query (Layer H) C) : EStateM.run (eraseMatching q) b =
    match (Operation.layers b.store (.eraseAll q)).find? (b.armed.contains ·) with
    | some l => .error l
      { b.disarm l with
        store := (Operation.progress b.store b.armed (.eraseAll q)).foldl remove b.store
        lost := b.lost ++ b.store.stagesOf (Operation.progress b.store b.armed (.eraseAll q)) }
    | none => .ok (b.store.hits q.names)
      { b with
        store := (b.store.matching q.names).foldl remove b.store
        lost := b.lost ++ (b.store.hits q.names).map (·.stage) } := by
  unfold eraseMatching
  simp only [EStateM.run_bind, run_search, Operation.layers, Operation.progress]
  cases hr : b.store.byRoot.isEmpty with
  | true => simp [matching_of_isEmpty hr, hits, eraseEach]
  | false =>
    by_cases ha : b.armed.contains q.root = true
    · simp [ha, Bench.disarm]
    · have hloop := run_eraseEach (b.store.nodup_matching q.names) b
      rw [if_neg (by simp [ha]), if_neg (by simp), if_neg ha, List.find?_cons_of_neg ha]
      exact hloop

theorem head?_hits (s : Store H C) (q : Query H C) :
    (s.matching q).head?.bind s.find? = (s.hits q).head?.map (·.stage) := by
  have hall : ∀ id ∈ s.matching q, ∃ e, s.entries[id]? = some e := by
    intro id hid
    obtain ⟨e, he, -⟩ := (Option.any_eq_true _ _).1 (List.mem_filter.1 hid).2
    exact ⟨e, he⟩
  unfold hits
  cases hm : s.matching q with
  | nil => rfl
  | cons id ids =>
    obtain ⟨e, he⟩ := hall id (by simp [hm])
    simp [he, find?]

theorem filterMap_find?_matching (s : Store H C) (q : Query H C) :
    (s.matching q).filterMap s.find? = (s.hits q).map (·.stage) := by
  rw [hits, List.map_filterMap]
  rfl

end Store

theorem Operation.run_work (op : Operation Stage (Layer H) C) (b : Bench H C) :
    EStateM.run op.work b = match (op.layers b.store).find? (b.armed.contains ·) with
    | some l => .error l
      { b.disarm l with
        minted := b.minted + op.spent b.store
        store := (op.progress b.store b.armed).foldl .remove b.store
        lost := b.lost ++ b.store.stagesOf (op.progress b.store b.armed) }
    | none => .ok (op.result b.store b.minted)
      { b with
        minted := b.minted + op.spent b.store
        store := op.after b.store b.minted
        gained := op.taken b.store ++ b.gained
        lost := b.lost ++ op.given b.store } := by
  cases op with
  | find id => simp [work, layers, result, spent, after, taken, given]
  | findOne q =>
    simp only [work, EStateM.run_bind, Store.run_search, layers, progress]
    cases b.store.byRoot.isEmpty <;> by_cases ha : b.armed.contains q.root = true <;>
      simp [ha, result, spent, after, taken, given, Bench.disarm, Store.head?_hits]
  | findAll q =>
    simp only [work, EStateM.run_bind, Store.run_search, layers, progress]
    cases b.store.byRoot.isEmpty <;> by_cases ha : b.armed.contains q.root = true <;>
      simp [ha, result, spent, after, taken, given, Bench.disarm, Store.filterMap_find?_matching]
  | insert stage key =>
    simp only [work, EStateM.run_bind, Store.run_insert, layers, progress, result, spent, after,
      taken, given, Std.ExtTreeMap.contains_eq_isSome_getElem?]
    cases b.store.byStage[stage]? with
    | some id => simp
    | none => by_cases ha : b.armed.contains key.root = true <;> simp [ha, Bench.disarm]
  | erase id =>
    simp only [work, EStateM.run_bind, Store.run_erase, layers, progress, result, spent, after,
      taken, given]
    cases he : b.store.entries[id]? with
    | none => simp [he]
    | some e => by_cases ha : b.armed.contains e.handles.root = true <;> simp [ha, Bench.disarm]
  | eraseStage stage =>
    simp only [work, Store.eraseStage, EStateM.run_bind, EStateM.run_get, Store.run_erase, layers,
      progress, result, spent, after, taken, given]
    cases he : b.store.entries[b.store.idOf stage]? with
    | none => simp [he]
    | some e => by_cases ha : b.armed.contains e.handles.root = true <;> simp [ha, Bench.disarm]
  | eraseAll q =>
    simp only [work, EStateM.run_bind, Store.run_eraseMatching]
    cases (layers b.store (.eraseAll q)).find? (b.armed.contains ·) <;>
      simp [result, spent, after, taken, given, Bench.disarm]
  | clear => simp [work, layers, result, spent, after, taken, given, Store.run_take]

/-- The indexes still agree after an operation, as long as ids do not run out. -/
theorem Operation.consistent_after [Std.LawfulEqOrd H] (op : Operation Stage (Layer H) C)
    {s : Store H C} {n : ℕ} (h : s.Consistent n) (hn : n + op.spent s < 2 ^ 63 - 1) :
    (op.after s n).Consistent (n + op.spent s) := by
  cases op with
  | find id => exact h
  | findOne q => exact h
  | findAll q => exact h
  | insert stage key =>
    simp only [spent, after] at hn ⊢
    split_ifs at hn ⊢ with hs
    · exact h
    · have hid := StageId.toInt_ofSerial (n := n) (by omega)
      apply h.add (by simpa using hs) <;> simp only [hid] <;> omega
  | erase id => exact h.remove id
  | eraseStage stage => exact h.remove (s.idOf stage)
  | eraseAll q => exact h.foldl_remove (s.matching q.names)
  | clear => exact Store.consistent_empty n

namespace Cache

/-- An operation that trips leaves what it had done by then, and delivers nothing. -/
theorem perform_eq (c : Cache H C) (a : Ambient H) (op : Operation Stage (Layer H) C) :
    c.perform a op = match (op.layers c.store).find? (a.armed.contains ·) with
    | some l =>
      ⟨.error l, { c with store := (op.progress c.store a.armed).foldl .remove c.store },
        ⟨a.armed.erase l, a.minted + op.spent c.store⟩, [],
        c.store.stagesOf (op.progress c.store a.armed), []⟩
    | none =>
      ⟨.ok (op.result c.store a.minted), { c with store := op.after c.store a.minted },
        ⟨a.armed, a.minted + op.spent c.store⟩, op.taken c.store, op.given c.store,
        c.deliver (op.result c.store a.minted).2⟩ := by
  unfold perform run
  rw [Operation.run_work]
  dsimp only
  cases (op.layers c.store).find? (a.armed.contains ·) <;> simp [Bench.disarm]

omit [DecidableEq H] [DecidableEq C] in
/-- A copy that trips gives back every share it took. -/
theorem copyStore_eq (c : Cache H C) (a : Ambient H) : ∃ taken,
    c.copyStore a = match c.store.layers.find? (a.armed.contains ·) with
    | some l => ⟨.error l, c, { a with armed := a.armed.erase l }, taken, taken, []⟩
    | none => ⟨.ok c.store, c, a, c.store.stages.reverse, [], []⟩ := by
  obtain ⟨taken, ht⟩ := Store.run_copy { a with store := c.store, gained := [], lost := [] }
  refine ⟨taken, ?_⟩
  unfold copyStore run
  rw [ht]
  dsimp only
  cases c.store.layers.find? (a.armed.contains ·) <;> simp [Bench.disarm]

end Cache

end SharedStages
