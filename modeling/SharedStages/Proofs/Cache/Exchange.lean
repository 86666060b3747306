import SharedStages.Proofs.Cache.Roll

/-! What an operation files in a store and what it takes out, and how its event tells of it. -/

namespace SharedStages

/-- The first element with a property and the list without it make up the list. -/
theorem eraseP_append_find?_perm {α : Type} (p : α → Bool) (l : List α) :
    (l.eraseP p ++ (l.find? p).toList).Perm l := by
  induction l with
  | nil => exact .refl _
  | cons a l ih =>
    by_cases ha : p a = true
    · rw [List.eraseP_cons_of_pos ha, List.find?_cons_of_pos ha]
      exact List.perm_append_singleton a l
    · rw [List.eraseP_cons_of_neg ha, List.find?_cons_of_neg ha]
      exact ih.cons a

variable {H C : Type} [Ord H] [Std.TransOrd H]

/-- What is left when ids were removed and what was under them is what there was. -/
theorem Store.Consistent.rows_foldl_remove_perm [Std.LawfulEqOrd H] [DecidableEq H]
    {s : Store H C} {n : ℕ} (h : s.Consistent n) {ids : List StageId} (hnd : ids.Nodup) :
    ((ids.foldl Store.remove s).rows ++ ids.filterMap (s.entries[·]?)).Perm s.rows := by
  induction ids generalizing s with
  | nil => simp
  | cons id ids ih =>
    obtain ⟨hid, hnd⟩ := List.nodup_cons.1 hnd
    have hrest := ih (h.remove id) hnd
    rw [filterMap_remove_of_notMem hid, ← h.eraseP_id] at hrest
    have hfirst := (eraseP_append_find?_perm (fun e : Entry H C => e.id = id) s.rows)
    rw [h.find?_rows_id] at hfirst
    have hsplit : (id :: ids).filterMap (s.entries[·]?) =
        s.entries[id]?.toList ++ ids.filterMap (s.entries[·]?) := by
      cases he : s.entries[id]? <;> simp [he]
    rw [List.foldl_cons, hsplit]
    refine (List.Perm.append_left _ List.perm_append_comm).trans ?_
    rw [← List.append_assoc]
    exact (hrest.append_right _).trans hfirst

variable [DecidableEq H] [DecidableEq C]

namespace Operation

/-- The entry that an operation files, if it files one. -/
def added (s : Store H C) (minted : ℕ) : Operation Stage (Layer H) C → List (Entry H C)
  | insert stage key => if s.byStage.contains stage then [] else [⟨.ofSerial minted, stage, key⟩]
  | _ => []

/-- The entries that an operation takes out. -/
def removed (s : Store H C) : Operation Stage (Layer H) C → List (Entry H C)
  | erase id => s.entries[id]?.toList
  | eraseStage stage => s.entries[s.idOf stage]?.toList
  | eraseAll q => s.hits q.names
  | clear => s.rows
  | _ => []

variable {s : Store H C} {n : ℕ}

omit [Std.TransOrd H] [DecidableEq H] [DecidableEq C] in
theorem taken_eq (op : Operation Stage (Layer H) C) :
    op.taken s = (op.added s n).map (·.stage) := by
  cases op with
  | insert stage key =>
    simp only [taken, added]
    split_ifs <;> rfl
  | _ => rfl

theorem given_eq (op : Operation Stage (Layer H) C) :
    op.given s = (op.removed s).map (·.stage) := by
  cases op with
  | erase id => cases h : s.entries[id]? <;> simp [given, removed, h]
  | eraseStage stage => cases h : s.entries[s.idOf stage]? <;> simp [given, removed, h]
  | _ => rfl

/-- The rows after an operation and those it took out are the rows before it and the one filed. -/
theorem rows_after_perm [Std.LawfulEqOrd H] (h : s.Consistent n) (op : Operation Stage (Layer H) C)
    (hn : n + op.spent s < 2 ^ 63 - 1) :
    ((op.after s n).rows ++ op.removed s).Perm (s.rows ++ op.added s n) := by
  cases op with
  | insert stage key =>
    simp only [after, removed, added, spent] at hn ⊢
    split_ifs at hn ⊢ with hs
    · exact .refl _
    · have hid := StageId.toInt_ofSerial (n := n) (by omega)
      rw [h.rows_add (by simpa using hs) (by simp only [hid]; omega), List.append_nil]
  | erase id =>
    simp only [after, removed, added, List.append_nil]
    rw [← h.eraseP_id, ← h.find?_rows_id]
    exact eraseP_append_find?_perm _ _
  | eraseStage stage =>
    simp only [after, removed, added, List.append_nil]
    rw [← h.eraseP_stage, h.entries_idOf]
    exact eraseP_append_find?_perm _ _
  | eraseAll q =>
    simp only [after, removed, added, List.append_nil]
    rw [h.rows_eraseMatching, h.hits_eq]
    exact List.perm_append_comm.trans (List.filter_append_perm _ _)
  | clear =>
    simp only [after, removed, added, List.append_nil, Store.rows_empty, List.nil_append]
    exact .refl _
  | _ => exact .refl _

theorem nodup_progress (s : Store H C) (armed : Std.ExtTreeSet (Layer H))
    (op : Operation Stage (Layer H) C) : (op.progress s armed).Nodup := by
  cases op with
  | eraseAll q =>
    simp only [progress]
    split_ifs
    · exact List.nodup_nil
    · exact (s.nodup_matching q.names).sublist Store.untripped_sublist
  | _ => exact List.nodup_nil

theorem size_after [Std.LawfulEqOrd H] (h : s.Consistent n) (op : Operation Stage (Layer H) C)
    (hn : n + op.spent s < 2 ^ 63 - 1) :
    (op.after s n).size + (op.removed s).length = s.size + (op.added s n).length := by
  have := (op.rows_after_perm h hn).length_eq
  simpa only [List.length_append, Store.length_rows] using this

omit [DecidableEq H] [DecidableEq C] in
/-- The id of a stage leads to its entry, and is the id in it. -/
theorem id_of_entries_idOf (h : s.Consistent n) (stage : Stage) :
    (s.entries[s.idOf stage]?.map (·.id)).getD .invalid = s.idOf stage := by
  cases he : s.entries[s.idOf stage]? with
  | some e => exact h.id_eq he
  | none =>
    cases hs : s.byStage[stage]? with
    | none => rw [Store.idOf, hs]; rfl
    | some id =>
      obtain ⟨e, he', -⟩ := h.byStage_iff.1 hs
      rw [Store.idOf, hs, Option.getD_some, he'] at he
      cases he

end Operation

/-- What the event of an operation says of it: `s` is the store before the operation, `t` the one
after, and `r` the answer. -/
inductive Event.Describes (s t : Store H C) :
    Operation Stage (Layer H) C → Reply → Event → Prop where
  | find {id stage} : Describes s t (.find id) (.stage stage) (.find id stage.isSome)
  | findOne {q stage} :
    Describes s t (.findOne q) (.stage stage) (.findMatching stage.toList.length)
  | findAll {q stages} : Describes s t (.findAll q) (.stages stages) (.findMatching stages.length)
  | insert {stage key id} :
    Describes s t (.insert stage key) (.id id) (.insert id (stage ∉ s.stages))
  | erase {id} :
    Describes s t (.erase id) (.flag (t.size < s.size)) (.erase id (t.size < s.size))
  | eraseStage {stage} : Describes s t (.eraseStage stage) (.flag (t.size < s.size))
      (.erase (s.idOf stage) (t.size < s.size))
  | eraseAll {q count} : t.size + count = s.size →
    Describes s t (.eraseAll q) (.count count) (.eraseMatching count)
  | clear {count} : t.size + count = s.size → Describes s t .clear .done (.clear count)

theorem Operation.describes_result [Std.LawfulEqOrd H] {s : Store H C} {n : ℕ}
    (h : s.Consistent n) (hn : n < 2 ^ 63 - 1) (op : Operation Stage (Layer H) C) :
    Event.Describes s (op.after s n) op (op.result s n).1 (op.result s n).2 := by
  have hflag (e : Option (Entry H C)) (hspent : op.spent s = 0) (hadded : op.added s n = [])
      (he : op.removed s = e.toList) : decide ((op.after s n).size < s.size) = e.isSome := by
    have := op.size_after h (hspent ▸ hn)
    rw [hadded, he, List.length_nil] at this
    cases e with
    | none =>
      simp only [Option.toList_none, List.length_nil] at this
      simp only [Option.isSome_none, decide_eq_false_iff_not]
      omega
    | some e =>
      simp only [Option.toList_some, List.length_singleton] at this
      simp only [Option.isSome_some, decide_eq_true_eq]
      omega
  cases op with
  | find id => exact .find
  | findOne q => exact .findOne
  | findAll q =>
    have hlen : (s.hits q.names).length = ((s.hits q.names).map (·.stage)).length := by
      rw [List.length_map]
    simp only [result]
    rw [hlen]
    exact .findAll
  | insert stage key =>
    have habs : decide (stage ∉ s.stages) = s.byStage[stage]?.isNone := by
      rw [Bool.eq_iff_iff, decide_eq_true_iff, h.mem_stages]
      simp
    simp only [result]
    cases hs : s.byStage[stage]? with
    | none =>
      rw [hs, Option.isNone_none] at habs
      simp only [← habs]
      exact .insert
    | some id =>
      rw [hs, Option.isNone_some] at habs
      simp only [← habs]
      exact .insert
  | erase id =>
    simp only [result, ← hflag s.entries[id]? rfl rfl rfl]
    exact .erase
  | eraseStage stage =>
    simp only [result, ← hflag s.entries[s.idOf stage]? rfl rfl rfl, id_of_entries_idOf h stage]
    exact .eraseStage
  | eraseAll q =>
    refine .eraseAll ?_
    simpa [removed, added] using (eraseAll q).size_after h hn
  | clear =>
    refine .clear ?_
    simpa [removed, added, Store.length_rows] using clear.size_after h hn

end SharedStages
