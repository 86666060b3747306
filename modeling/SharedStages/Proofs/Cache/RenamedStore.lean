import SharedStages.Proofs.Cache.Exchange
import SharedStages.Proofs.Cache.Renaming

/-! Stores under other ids. If the ids are renamed and keep their order, the list of the entries and
all that is answered from it are the same up to the new names. -/

namespace SharedStages

variable {H C : Type}

namespace Roll

variable {f : StageId → StageId} {base n m : ℕ} {rows : List (Entry H C)}

/-- The list with other ids, when `m` ids were minted. -/
def mapId (f : StageId → StageId) (m : ℕ) (r : Roll H C) : Roll H C :=
  ⟨r.rows.map (·.mapId f), m⟩

theorem holds_mapId (r : Roll H C) (stage : Stage) : (r.mapId f m).holds stage = r.holds stage := by
  simp only [holds, mapId, List.any_map]
  rfl

theorem find?_stage_mapId (rows : List (Entry H C)) (stage : Stage) :
    (rows.map (·.mapId f)).find? (·.stage = stage) =
      (rows.find? (·.stage = stage)).map (·.mapId f) := by
  rw [List.find?_map]
  rfl

theorem filter_key_mapId (p : Key H C → Bool) (rows : List (Entry H C)) :
    (rows.map (·.mapId f)).filter (p ·.key) = (rows.filter (p ·.key)).map (·.mapId f) := by
  rw [List.filter_map]
  rfl

theorem stages_mapId (rows : List (Entry H C)) :
    (rows.map (·.mapId f)).map (·.stage) = rows.map (·.stage) := by
  rw [List.map_map]
  rfl

theorem eraseP_stage_mapId (rows : List (Entry H C)) (stage : Stage) :
    (rows.map (·.mapId f)).eraseP (·.stage = stage) =
      (rows.eraseP (·.stage = stage)).map (·.mapId f) := by
  rw [List.eraseP_map]
  rfl

section Known

variable (hf : Renames f base n m) (hrows : ∀ e ∈ rows, e.id.toInt ≤ n)

include hf hrows

/-- A known id is as far down the list as the id it is renamed to. -/
theorem find?_id_mapId {id : StageId} (hid : id.toInt ≤ n) :
    (rows.map (·.mapId f)).find? (·.id = f id) = (rows.find? (·.id = id)).map (·.mapId f) := by
  induction rows with
  | nil => rfl
  | cons e rows ih =>
    have he : decide ((e.mapId f).id = f id) = decide (e.id = id) :=
      decide_eq_decide.2 (hf.apply_eq_iff (hrows e List.mem_cons_self) hid)
    rw [List.map_cons, List.find?_cons, List.find?_cons, he]
    cases decide (e.id = id) with
    | true => rfl
    | false => exact ih fun x hx => hrows x (List.mem_cons_of_mem _ hx)

theorem eraseP_id_mapId {id : StageId} (hid : id.toInt ≤ n) :
    (rows.map (·.mapId f)).eraseP (·.id = f id) =
      (rows.eraseP (·.id = id)).map (·.mapId f) := by
  induction rows with
  | nil => rfl
  | cons e rows ih =>
    have he : decide ((e.mapId f).id = f id) = decide (e.id = id) :=
      decide_eq_decide.2 (hf.apply_eq_iff (hrows e List.mem_cons_self) hid)
    rw [List.map_cons, List.eraseP_cons, List.eraseP_cons, he]
    cases decide (e.id = id) with
    | true => rfl
    | false =>
      exact congrArg (e.mapId f :: ·) (ih fun x hx => hrows x (List.mem_cons_of_mem _ hx))

theorem holdsId_mapId {id : StageId} (hid : id.toInt ≤ n) :
    ((Roll.mk rows n).mapId f m).holdsId (f id) = (Roll.mk rows n).holdsId id := by
  simp only [holdsId, mapId, Store.any_eq_isSome_find?, find?_id_mapId hf hrows hid,
    Option.isSome_map]

omit hrows in
theorem idOf_mapId (stage : Stage) :
    ((Roll.mk rows n).mapId f m).idOf stage = f ((Roll.mk rows n).idOf stage) := by
  simp only [idOf, mapId, find?_stage_mapId]
  cases rows.find? (·.stage = stage) with
  | none => exact hf.apply_invalid.symm
  | some e => rfl

/-- A question about renamed entries has the renamed answer. -/
theorem ask_mapId {q : Question Stage} (hq : ∀ id ∈ q.id?, id.toInt ≤ n) (name : String)
    (label : Label) : ((Roll.mk rows n).mapId f m).ask name label (q.mapId f) =
      ((Roll.mk rows n).ask name label q).mapId f := by
  cases q with
  | idOf stage => simp only [ask, Question.mapId, Finding.mapId, idOf_mapId hf]
  | contains stage => simp only [ask, Question.mapId, Finding.mapId, holds_mapId]
  | containsId id =>
    simp only [ask, Question.mapId, Finding.mapId, holdsId_mapId hf hrows (hq id rfl)]
  | stages => simp only [ask, Question.mapId, Finding.mapId, mapId, stages_mapId]
  | size => simp only [ask, Question.mapId, Finding.mapId, mapId, List.length_map]
  | isEmpty => simp only [ask, Question.mapId, Finding.mapId, mapId, List.isEmpty_map]
  | description => simp only [ask, Question.mapId, Finding.mapId, mapId, List.length_map]
  | _ => rfl

omit hf in
/-- The entries known so far do not have the next id. -/
theorem map_next (hn : n < 2 ^ 63 - 1) :
    rows.map (·.mapId (Renames.next f n m)) = rows.map (·.mapId f) := by
  apply List.map_congr_left
  intro e he
  simp only [Entry.mapId, Renames.next_of_le hn (hrows e he)]

omit hf in
theorem idOf_le (stage : Stage) : ((Roll.mk rows n).idOf stage).toInt ≤ n := by
  simp only [idOf]
  cases hr : rows.find? (·.stage = stage) with
  | none => exact StageId.toInt_invalid_le n
  | some e => exact hrows e (List.mem_of_find?_eq_some hr)

omit hf in
/-- The answer to a question names only known ids. -/
theorem id?_ask_le {q : Question Stage} {name : String} {label : Label} {id : StageId}
    (h : id ∈ ((Roll.mk rows n).ask name label q).id?) : id.toInt ≤ n := by
  cases q with
  | idOf stage =>
    obtain rfl : (Roll.mk rows n).idOf stage = id := Option.some.inj h
    exact idOf_le hrows stage
  | _ => cases h

variable [DecidableEq H] [DecidableEq C]

/-- An operation that mints no id goes the same way on renamed entries. -/
theorem perform_mapId_of_not_minting {op : Operation Stage (Layer H) C}
    (hop : ∀ id ∈ op.id?, id.toInt ≤ n) (hk : ((Roll.mk rows n).perform op).2.minted = n) :
    ((Roll.mk rows n).mapId f m).perform (op.mapId f) =
      (((Roll.mk rows n).perform op).1.mapId f, ((Roll.mk rows n).perform op).2.mapId f m) := by
  cases op with
  | find id =>
    simp only [perform, Operation.mapId, Reply.mapId, mapId, find?_id_mapId hf hrows (hop id rfl),
      Option.map_map]
    rfl
  | findOne q =>
    simp only [perform, Operation.mapId, Reply.mapId, mapId, List.find?_map, Option.map_map]
    rfl
  | findAll q =>
    simp only [perform, Operation.mapId, Reply.mapId, mapId, filter_key_mapId, stages_mapId]
  | insert stage key =>
    cases hs : (Roll.mk rows n).holds stage with
    | true =>
      simp only [perform, Operation.mapId, Reply.mapId, holds_mapId, idOf_mapId hf, hs, if_true]
    | false =>
      simp only [perform, hs, Bool.false_eq_true, if_false] at hk
      omega
  | erase id =>
    simp only [perform, Operation.mapId, Reply.mapId, holdsId_mapId hf hrows (hop id rfl)]
    simp only [mapId, eraseP_id_mapId hf hrows (hop id rfl)]
  | eraseStage stage =>
    simp only [perform, Operation.mapId, Reply.mapId, holds_mapId]
    simp only [mapId, eraseP_stage_mapId]
  | eraseAll q =>
    have hfilter := filter_key_mapId (f := f) (fun key => !q.names.admits key) rows
    simp only [perform, Operation.mapId, Reply.mapId, mapId, List.countP_map, hfilter]
    rfl
  | clear => rfl

omit hf in
/-- An insertion that mints an id mints the next one on either side. -/
theorem perform_insert_mapId (hn : n < 2 ^ 63 - 1) {stage : Stage}
    (hs : (Roll.mk rows n).holds stage = false) (key : Key (Layer H) C) :
    ((Roll.mk rows n).mapId f m).perform (.insert stage key) =
      (((Roll.mk rows n).perform (.insert stage key)).1.mapId (Renames.next f n m),
        ((Roll.mk rows n).perform (.insert stage key)).2.mapId (Renames.next f n m) (m + 1)) := by
  have hrow : Entry.mapId (Renames.next f n m) ⟨.ofSerial n, stage, key⟩ =
      ⟨.ofSerial m, stage, key⟩ := by rw [Entry.mapId, Renames.next_ofSerial]
  simp only [perform, holds_mapId, hs, Bool.false_eq_true, if_false, Reply.mapId,
    Renames.next_ofSerial]
  simp only [mapId, List.map_append, map_next hrows hn, List.map_singleton, hrow]

omit hf in
/-- The answer to an operation names only known ids and the one it minted. -/
theorem id?_perform_le {op : Operation Stage (Layer H) C} {id : StageId}
    (hn : ((Roll.mk rows n).perform op).2.minted < 2 ^ 63 - 1)
    (h : id ∈ ((Roll.mk rows n).perform op).1.id?) :
    id.toInt ≤ ((Roll.mk rows n).perform op).2.minted := by
  cases op with
  | insert stage key =>
    cases hs : (Roll.mk rows n).holds stage with
    | true =>
      simp only [perform, hs, if_true] at h ⊢
      obtain rfl : (Roll.mk rows n).idOf stage = id := Option.some.inj h
      exact idOf_le hrows stage
    | false =>
      simp only [perform, hs, Bool.false_eq_true, if_false] at h hn ⊢
      obtain rfl : StageId.ofSerial n = id := Option.some.inj h
      rw [StageId.toInt_ofSerial (Nat.lt_of_succ_lt hn)]
      push_cast
      exact le_rfl
  | _ => cases h

/-- An operation on renamed entries goes the same way, up to a renaming that has the id it mints,
if it mints one. -/
theorem perform_mapId {op : Operation Stage (Layer H) C} (hop : ∀ id ∈ op.id?, id.toInt ≤ n)
    (hm : (((Roll.mk rows n).mapId f m).perform (op.mapId f)).2.minted < 2 ^ 63 - 1) :
    ∃ g k, (∀ id : StageId, id.toInt ≤ n → g id = f id) ∧ Renames g base (n + k) (m + k) ∧
      ((Roll.mk rows n).perform op).2.minted = n + k ∧
      ((Roll.mk rows n).mapId f m).perform (op.mapId f) =
        (((Roll.mk rows n).perform op).1.mapId g,
          ((Roll.mk rows n).perform op).2.mapId g (m + k)) := by
  by_cases hk : ((Roll.mk rows n).perform op).2.minted = n
  · exact ⟨f, 0, fun _ _ => rfl, hf, hk, perform_mapId_of_not_minting hf hrows hop hk⟩
  · cases op with
    | insert stage key =>
      cases hs : (Roll.mk rows n).holds stage with
      | true => simp only [perform, hs, if_true, not_true_eq_false] at hk
      | false =>
        have hm' : m < 2 ^ 63 - 1 := by
          simp only [Operation.mapId, perform, holds_mapId, hs, Bool.false_eq_true, if_false] at hm
          exact Nat.lt_of_succ_lt hm
        have hn : n < 2 ^ 63 - 1 := hf.le.trans_lt hm'
        refine ⟨Renames.next f n m, 1, fun id hid => Renames.next_of_le hn hid, hf.extend hm', ?_,
          perform_insert_mapId hrows hn hs key⟩
        simp only [perform, hs, Bool.false_eq_true, if_false]
    | _ => exact absurd rfl hk

end Known

end Roll

/-- What the event says of the names follows from what the operation, its answer and the stores
say. -/
theorem Event.Describes.mapId_eq [Ord H] {f g : StageId → StageId} {s s' t t' : Store H C}
    {op : Operation Stage (Layer H) C} {r : Reply} {e e' : Event} (h : Event.Describes s s' op r e)
    (h' : Event.Describes t t' (op.mapId f) (r.mapId g) e') (hop : ∀ id ∈ op.id?, g id = f id)
    (hstages : t.stages = s.stages) (hsize : t.size = s.size) (hsize' : t'.size = s'.size)
    (hid : ∀ stage, t.idOf stage = g (s.idOf stage)) : e' = e.mapId g := by
  generalize hr : r.mapId g = r' at h'
  cases h with
  | find =>
    cases h'
    cases hr
    rw [mapId, hop _ rfl]
  | insert =>
    cases h'
    cases hr
    rw [mapId, hstages]
  | erase =>
    cases h'
    rw [mapId, hop _ rfl, hsize, hsize']
  | eraseStage =>
    cases h'
    rw [mapId, hid, hsize, hsize']
  | @clear count hcount =>
    cases h' with
    | @clear count' hcount' =>
      obtain rfl : count = count' := by omega
      rfl
  | _ =>
    cases h'
    cases hr
    rfl

theorem Event.Describes.id?_le [Ord H] {s s' : Store H C} {op : Operation Stage (Layer H) C}
    {r : Reply} {e : Event} {n : ℕ} (h : Event.Describes s s' op r e)
    (hop : ∀ id ∈ op.id?, id.toInt ≤ n) (hr : ∀ id ∈ r.id?, id.toInt ≤ n) (hid : ∀ stage, (s.idOf stage).toInt ≤ n) :
    ∀ id ∈ e.id?, id.toInt ≤ n := by
  intro id hmem
  cases h with
  | find => exact hop id hmem
  | insert => exact hr id hmem
  | erase => exact hop id hmem
  | eraseStage => exact Option.some.inj hmem ▸ hid _
  | _ => cases hmem

variable [Ord H] [Std.TransOrd H] [DecidableEq H] [DecidableEq C]

/-- The second store has the content of the first one under other ids: the entries in their order,
the index by stage, and the buckets in their order. -/
structure Store.Renamed (f : StageId → StageId) (s t : Store H C) : Prop where
  rows : t.rows = s.rows.map (·.mapId f)
  byStage (stage : Stage) : t.byStage[stage]? = s.byStage[stage]?.map f
  bucket (root : H) : t.bucket root = (s.bucket root).map f

namespace Store

variable {f : StageId → StageId} {s t : Store H C} {n m : ℕ}

omit [DecidableEq C] in
theorem Consistent.bucket_eq (h : s.Consistent n) (root : H) :
    s.bucket root = (s.rows.filter (·.key.root = root)).map (·.id) := by
  apply List.Pairwise.eq_of_mem_iff (r := (· < ·))
  · exact s.bucket_ascending root
  · exact List.pairwise_map.2 (h.rows_ascending.filter _)
  · intro id
    simp only [h.mem_bucket, Filed, List.mem_map, List.mem_filter, h.mem_rows, decide_eq_true_eq]
    constructor
    · rintro ⟨e, he, hroot⟩
      have hid := h.id_eq he
      exact ⟨e, ⟨by rwa [hid], hroot⟩, hid⟩
    · rintro ⟨e, ⟨he, hroot⟩, rfl⟩
      exact ⟨e, he, hroot⟩

omit [DecidableEq C] in
/-- The list of the entries decides the rest. -/
theorem Renamed.of_rows (hs : s.Consistent n) (ht : t.Consistent m)
    (h : t.rows = s.rows.map (·.mapId f)) : Renamed f s t where
  rows := h
  byStage stage := by
    rw [← ht.find?_rows_stage, ← hs.find?_rows_stage, h, Roll.find?_stage_mapId, Option.map_map,
      Option.map_map]
    rfl
  bucket root := by
    have hfilter := Roll.filter_key_mapId (f := f) (fun key => key.root = root) s.rows
    rw [ht.bucket_eq, hs.bucket_eq, h, hfilter, List.map_map, List.map_map]
    rfl

namespace Renamed

omit [DecidableEq H] [DecidableEq C] in
theorem stages (h : Renamed f s t) : t.stages = s.stages := by
  rw [stages_eq, stages_eq, h.rows, Roll.stages_mapId]

omit [DecidableEq H] [DecidableEq C] in
theorem size (h : Renamed f s t) : t.size = s.size := by
  rw [← length_rows, ← length_rows, h.rows, List.length_map]

omit [DecidableEq H] [DecidableEq C] in
theorem spent (h : Renamed f s t) (op : Operation Stage (Layer H) C) :
    (op.mapId f).spent t = op.spent s := by
  cases op with
  | insert stage key =>
    have hstage : t.byStage.contains stage = s.byStage.contains stage := by
      simp only [Std.ExtTreeMap.contains_eq_isSome_getElem?, h.byStage, Option.isSome_map]
    simp only [Operation.mapId, Operation.spent, hstage]
  | _ => rfl

end Renamed

end Store

/-- The outcome of an operation on a store is known by the ids up to `n`. -/
structure Operation.Settled (op : Operation Stage (Layer H) C) (s : Store H C) (minted n : ℕ) :
    Prop where
  reply : ∀ id ∈ (op.result s minted).1.id?, id.toInt ≤ n
  event : ∀ id ∈ (op.result s minted).2.id?, id.toInt ≤ n

theorem Operation.settled [Std.LawfulEqOrd H] {s : Store H C} {n : ℕ} (hs : s.Consistent n)
    {op : Operation Stage (Layer H) C} (hop : ∀ id ∈ op.id?, id.toInt ≤ n)
    (hn : n + op.spent s < 2 ^ 63 - 1) : op.Settled s n (n + op.spent s) := by
  have hrows : ∀ e ∈ s.rows, e.id.toInt ≤ n := fun e he => (hs.issued (hs.mem_rows.1 he)).2
  have hperform := Roll.perform_rows hs hn
  have hreply : ∀ id ∈ (op.result s n).1.id?, id.toInt ≤ (n + op.spent s : ℕ) := by
    intro id hid
    have hle : ((Roll.mk s.rows n).perform op).2.minted < 2 ^ 63 - 1 →
        id ∈ ((Roll.mk s.rows n).perform op).1.id? →
        id.toInt ≤ ((Roll.mk s.rows n).perform op).2.minted := Roll.id?_perform_le hrows
    rw [hperform] at hle
    exact hle hn hid
  have hold {id : StageId} (hid : id.toInt ≤ n) : id.toInt ≤ (n + op.spent s : ℕ) :=
    hid.trans (by exact_mod_cast Nat.le_add_right _ _)
  refine ⟨hreply, (op.describes_result hs (by omega)).id?_le ?_ hreply fun stage => ?_⟩
  · exact fun id hid => hold (hop id hid)
  · rw [← hs.idOf_rows n]
    exact hold (Roll.idOf_le hrows stage)

/-- An operation on the same content under other ids has the same outcome, up to a renaming that
has the id it mints, if it mints one. -/
theorem Operation.renamed [Std.LawfulEqOrd H] {f : StageId → StageId} {base n m : ℕ}
    {s t : Store H C} (hs : s.Consistent n) (ht : t.Consistent m) (h : Store.Renamed f s t)
    (hf : Renames f base n m) {op : Operation Stage (Layer H) C} (hop : ∀ id ∈ op.id?, id.toInt ≤ n)
    (hm : m + op.spent s < 2 ^ 63 - 1) :
    ∃ g, (∀ id : StageId, id.toInt ≤ n → g id = f id) ∧
      Renames g base (n + op.spent s) (m + op.spent s) ∧
      Store.Renamed g (op.after s n) ((op.mapId f).after t m) ∧
      ((op.mapId f).result t m).1 = (op.result s n).1.mapId g ∧
      ((op.mapId f).result t m).2 = (op.result s n).2.mapId g := by
  have hle := hf.le
  have hn : n + op.spent s < 2 ^ 63 - 1 := by omega
  have hm' : m + (op.mapId f).spent t < 2 ^ 63 - 1 := by rw [h.spent op]; exact hm
  have hrows : ∀ e ∈ s.rows, e.id.toInt ≤ n := fun e he => (hs.issued (hs.mem_rows.1 he)).2
  have hold := Roll.perform_rows hs hn
  have hnew := Roll.perform_rows ht hm'
  rw [h.spent op, h.rows] at hnew
  change ((Roll.mk s.rows n).mapId f m).perform (op.mapId f) = _ at hnew
  obtain ⟨g, k, hagree, hg, hk, hperform⟩ :=
    Roll.perform_mapId hf hrows hop (by rw [hnew]; exact hm)
  rw [hold] at hk
  obtain rfl : op.spent s = k := Nat.add_left_cancel hk
  rw [hold, hnew] at hperform
  obtain ⟨hreply, hroll⟩ := Prod.mk.inj hperform
  have hafter : Store.Renamed g (op.after s n) ((op.mapId f).after t m) := by
    have ht' := (op.mapId f).consistent_after ht hm'
    exact .of_rows (op.consistent_after hs hn) ht' (congrArg Roll.rows hroll)
  refine ⟨g, hagree, hg, hafter, hreply, ?_⟩
  have hdescribes := (op.mapId f).describes_result ht (by omega)
  rw [hreply] at hdescribes
  refine (op.describes_result hs (by omega)).mapId_eq hdescribes
    (fun id hid => hagree id (hop id hid)) h.stages h.size hafter.size fun stage => ?_
  rw [← hs.idOf_rows n, ← ht.idOf_rows m, hagree _ (Roll.idOf_le hrows stage), h.rows]
  exact Roll.idOf_mapId hf stage

end SharedStages
