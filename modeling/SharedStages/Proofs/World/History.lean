import SharedStages.Proofs.World.Reach

/-! Ids over a whole run. Each id is minted once, for one stage and one key, and whatever becomes
of the caches afterwards, it never stands for anything else. -/

namespace SharedStages

variable {H C : Type} [Ord H] [Std.TransOrd H] [DecidableEq H] [DecidableEq C]

/-- An entry found after an operation was there before, or is the one just inserted. -/
theorem Operation.entries_after {op : Operation Stage (Layer H) C} {s : Store H C} {n : ℕ}
    {id : StageId} {e : Entry H C} (h : (op.after s n).entries[id]? = some e) :
    s.entries[id]? = some e ∨ op = .insert e.stage e.handles ∧ s.byStage.contains e.stage = false ∧
      e.id = .ofSerial n ∧ e.id = id := by
  cases op with
  | insert stage key =>
    simp only [after] at h
    split_ifs at h with hs
    · exact .inl h
    · have hadd : (s.add ⟨.ofSerial n, stage, key⟩).entries[id]? =
          if .ofSerial n = id then some ⟨.ofSerial n, stage, key⟩ else s.entries[id]? :=
        Store.getElem?_putEntry _ _ id
      rw [hadd] at h
      split_ifs at h with hid
      · cases h
        exact .inr ⟨rfl, Bool.eq_false_iff.2 hs, rfl, hid⟩
      · exact .inl h
  | erase i =>
    rw [after, Store.getElem?_entries_remove] at h
    split_ifs at h
    exact .inl h
  | eraseStage stage =>
    rw [after, Store.getElem?_entries_remove] at h
    split_ifs at h
    exact .inl h
  | eraseAll q => exact .inl (Store.entries_of_foldl_remove h)
  | clear => simp [after, Store.empty] at h
  | _ => exact .inl h

/-- The operation is an erasure that the entry falls to. -/
inductive Operation.TakesOut (e : Entry H C) : Operation Stage (Layer H) C → Prop where
  | erase : TakesOut e (.erase e.id)
  | eraseStage : TakesOut e (.eraseStage e.stage)
  | eraseAll {q : Query (Layer H) C} : q.names.admits e.key = true → TakesOut e (.eraseAll q)
  | clear : TakesOut e .clear

theorem Operation.TakesOut.entries_after {op : Operation Stage (Layer H) C}
    {s : Store H C} {n : ℕ} {e : Entry H C} (h : op.TakesOut e) (hs : s.Consistent n)
    (he : s.entries[e.id]? = some e) : (op.after s n).entries[e.id]? = none := by
  cases h with
  | erase => rw [after, Store.getElem?_entries_remove, if_pos rfl]
  | eraseStage =>
    have hid : s.idOf e.stage = e.id := by
      rw [Store.idOf, hs.byStage_iff.2 ⟨e, he, rfl⟩, Option.getD_some]
    rw [after, hid, Store.getElem?_entries_remove, if_pos rfl]
  | eraseAll hq =>
    rw [after, Store.getElem?_entries_foldl_remove, if_pos (hs.mem_matching.2 ⟨e, he, hq⟩)]
  | clear => simp [after, Store.empty]

/-- The step gives a cache the store of another one. -/
def Step.TakesOver (s : Step (Layer H) C) (cache source : String) : Prop :=
  s = .copyFrom cache source ∨ s = .swap cache source ∨ s = .swap source cache

namespace World

/-- A cache of the world files `e` under `id`. -/
def Holds (w : World H C) (name : String) (id : StageId) (e : Entry H C) : Prop :=
  ∃ c, w.caches[name]? = some c ∧ c.store.entries[id]? = some e

/-- The step inserts a stage that the cache does not hold. `e` is the entry it files, or would
have filed if it had not tripped. -/
structure Mints (w : World H C) (s : Step (Layer H) C) (cache : String) (e : Entry H C) : Prop where
  inserts : w.operation? s = some (cache, .insert e.stage e.handles)
  absent : ∃ c, w.caches[cache]? = some c ∧ e.stage ∉ c.store.stages
  id_eq : e.id = .ofSerial w.minted

section Step

variable {w : World H C} {s : Step (Layer H) C} {cache : String} {e : Entry H C}

theorem Mints.step (h : w.Mints s cache e) (hw : w.Sound) :
    (w.step s).1.minted = w.minted + 1 ∧
    ((w.step s).2.answer = .reply (.id e.id) ∧ (w.step s).1.Holds cache e.id e ∨
      (w.step s).2.answer = .tripped e.key.root ∧ e.handles.root ∈ w.armed) := by
  obtain ⟨c, hc, habs⟩ := h.absent
  rw [(hw hc).mem_stages, Bool.not_eq_true] at habs
  have hlayers : (Operation.insert e.stage e.handles).layers c.store = [e.handles.root] := by
    simp [Operation.layers, habs]
  have hspent : (Operation.insert e.stage e.handles).spent c.store = 1 := by
    simp [Operation.spent, habs]
  have hresult : ((Operation.insert e.stage e.handles).result c.store w.minted).1 = .id e.id := by
    rw [Std.ExtTreeMap.contains_eq_isSome_getElem?, Option.isSome_eq_false_iff,
      Option.isNone_iff_eq_none] at habs
    simp [Operation.result, habs, h.id_eq]
  have hafter : ((Operation.insert e.stage e.handles).after c.store w.minted).entries[e.id]? =
      some e := by
    simp only [Operation.after, habs, Bool.false_eq_true, if_false, ← h.id_eq]
    exact (Store.getElem?_putEntry _ e e.id).trans (if_pos rfl)
  have hstep := step_of_operation? h.inserts hc
  rw [performOn_eq, hlayers, hspent, hresult] at hstep
  refine ⟨by rw [step_minted h.inserts hc, hspent], ?_⟩
  cases ha : w.armed.contains e.handles.root with
  | true =>
    right
    rw [hstep]
    simp only [List.find?_singleton, ha]
    exact ⟨rfl, Std.ExtTreeSet.mem_iff_contains.2 ha⟩
  | false =>
    left
    rw [hstep]
    simp only [List.find?_singleton, ha]
    exact ⟨rfl, _, Std.ExtTreeMap.getElem?_insert_self, hafter⟩

/-- What is found under an id after a step was found before, or was minted by the step. -/
theorem holds_of_step (hw : w.Sound) {name : String} {id : StageId}
    (h : (w.step s).1.Holds name id e) : (∃ other, w.Holds other id e) ∨
      w.Mints s name e ∧ e.id = id ∧ (w.step s).2.answer = .reply (.id id) := by
  obtain ⟨c', hc', he⟩ := h
  cases origin hc' with
  | kept hc => exact .inl ⟨name, _, hc, he⟩
  | made => simp [Cache.new, Store.empty] at he
  | configured hc => simp [(Cache.ofConfig_eq hc).1, Store.empty] at he
  | observed hc => exact .inl ⟨name, _, hc, he⟩
  | renamed hc hr =>
    rw [Cache.rename_eq hr] at he
    exact .inl ⟨name, _, hc, he⟩
  | copied hd => exact .inl ⟨_, _, hd, he⟩
  | overwritten hc hd => exact .inl ⟨_, _, hd, he⟩
  | swapped hc hd => exact .inl ⟨_, _, hd, he⟩
  | swappedBack hc hd => exact .inl ⟨_, _, hc, he⟩
  | @performed _ op c hs hc hl =>
    rcases Operation.entries_after he with he | ⟨rfl, habs, hid, rfl⟩
    · exact .inl ⟨name, c, hc, he⟩
    · right
      have hnot : e.stage ∉ c.store.stages := by
        rw [(hw hc).mem_stages, habs]
        exact Bool.false_ne_true
      have hmints : w.Mints s name e := ⟨hs, ⟨c, hc, hnot⟩, hid⟩
      refine ⟨hmints, rfl, ?_⟩
      rcases (hmints.step hw).2 with ⟨hans, -⟩ | ⟨hans, -⟩
      · exact hans
      · rw [step_of_operation? hs hc, performOn_eq, hl] at hans
        cases hans
  | interrupted hs hc hl => exact .inl ⟨name, _, hc, Store.entries_of_foldl_remove he⟩

/-- A cache that holds an id after a step is new, or held it before, or minted it, or took over a
store that holds it. -/
theorem held_of_step {name : String} {c' : Cache H C}
    (hc' : (w.step s).1.caches[name]? = some c') {id : StageId}
    (he : c'.store.entries[id]? = some e) : c'.instanceNumber = w.instances ∨
      ∃ c, w.caches[name]? = some c ∧ c.instanceNumber = c'.instanceNumber ∧
        (c.store.entries[id]? = some e ∨ id = .ofSerial w.minted ∨
          ∃ source, s.TakesOver name source ∧ w.Holds source id e) := by
  cases origin hc' with
  | kept hc => exact .inr ⟨_, hc, rfl, .inl he⟩
  | made => exact .inl rfl
  | configured hc => exact .inl (Cache.ofConfig_eq hc).2
  | observed hc => exact .inr ⟨_, hc, rfl, .inl he⟩
  | renamed hc hr =>
    rw [Cache.rename_eq hr] at he ⊢
    exact .inr ⟨_, hc, rfl, .inl he⟩
  | copied hd => exact .inl rfl
  | overwritten hc hd => exact .inr ⟨_, hc, rfl, .inr (.inr ⟨_, .inl rfl, _, hd, he⟩)⟩
  | swapped hc hd => exact .inr ⟨_, hc, rfl, .inr (.inr ⟨_, .inr (.inl rfl), _, hd, he⟩)⟩
  | swappedBack hc hd => exact .inr ⟨_, hd, rfl, .inr (.inr ⟨_, .inr (.inr rfl), _, hc, he⟩)⟩
  | performed hs hc hl =>
    rcases Operation.entries_after he with he | ⟨-, -, hid, rfl⟩
    · exact .inr ⟨_, hc, rfl, .inl he⟩
    · exact .inr ⟨_, hc, rfl, .inr (.inl hid)⟩
  | interrupted hs hc hl => exact .inr ⟨_, hc, rfl, .inl (Store.entries_of_foldl_remove he)⟩

end Step

/-! The moments of a run. -/

theorem getElem?_run (w : World H C) (steps : List (Step (Layer H) C)) (t : ℕ) :
    (w.run steps).2[t]? = steps[t]?.map fun s => ((w.run (steps.take t)).1.step s).2 := by
  induction steps generalizing w t with
  | nil => rfl
  | cons s ss ih =>
    cases t with
    | zero => rfl
    | succ t => exact ih _ t

/-- The world after the first `t` steps. -/
def moment (steps : List (Step (Layer H) C)) (t : ℕ) : World H C := (empty.run (steps.take t)).1

/-- The answer to the step after the first `t`. -/
def answerAt (steps : List (Step (Layer H) C)) (t : ℕ) : Option (Answer H C) :=
  (empty.run steps).2[t]?.map (·.answer)

/-- The step after the first `t` mints the id of `e`. -/
def MintedAt (steps : List (Step (Layer H) C)) (t : ℕ) (cache : String) (e : Entry H C) : Prop :=
  ∃ s, steps[t]? = some s ∧ (moment steps t).Mints s cache e

section Moments

variable {steps : List (Step (Layer H) C)} {t : ℕ} {s : Step (Layer H) C}

theorem moment_succ (h : steps[t]? = some s) :
    moment steps (t + 1) = ((moment steps t).step s).1 := by
  rw [moment, List.take_add_one, h, Option.toList_some, run_append]
  rfl

theorem moment_succ_cases (steps : List (Step (Layer H) C)) (t : ℕ) :
    (∃ s, steps[t]? = some s ∧ moment steps (t + 1) = ((moment steps t).step s).1) ∨
      moment steps (t + 1) = moment steps t := by
  cases hs : steps[t]? with
  | none =>
    right
    rw [moment, List.take_add_one, hs, Option.toList_none, List.append_nil]
    rfl
  | some s => exact .inl ⟨s, rfl, moment_succ hs⟩

theorem answerAt_eq (h : steps[t]? = some s) :
    answerAt steps t = some ((moment steps t).step s).2.answer := by
  rw [answerAt, getElem?_run, h]
  rfl

theorem minted_mono (steps : List (Step (Layer H) C)) :
    Monotone fun t => (moment steps t).minted := by
  apply monotone_nat_of_le_succ
  intro t
  rcases moment_succ_cases steps t with ⟨s, -, hm⟩ | hm
  · rw [hm]
    exact minted_le_step _ s
  · rw [hm]

theorem instances_mono (steps : List (Step (Layer H) C)) :
    Monotone fun t => (moment steps t).instances := by
  apply monotone_nat_of_le_succ
  intro t
  rcases moment_succ_cases steps t with ⟨s, -, hm⟩ | hm
  · rw [hm]
    exact instances_le_step _ s
  · rw [hm]

theorem minted_le_end (steps : List (Step (Layer H) C)) (t : ℕ) :
    (moment steps t).minted ≤ (empty.run steps).1.minted := by
  have hsplit := run_append (empty : World H C) (steps.take t) (steps.drop t)
  rw [List.take_append_drop] at hsplit
  rw [hsplit]
  exact minted_le_run _ _

theorem numbered_moment (steps : List (Step (Layer H) C)) (t : ℕ) :
    Numbered (moment steps t).caches (moment steps t).instances := by
  apply run_induction (P := fun w => Numbered w.caches w.instances)
  · exact fun w s h => numbered_step w s h
  · constructor <;> simp [empty]

end Moments

section Ids

variable [Std.LawfulEqOrd H] {steps : List (Step (Layer H) C)} {t u v : ℕ} {id : StageId}
  {name cache other : String} {e f : Entry H C}

theorem sound_moment (hm : (empty.run steps).1.minted < 2 ^ 63 - 1) (t : ℕ) :
    (moment steps t).Sound :=
  sound_empty.run _ ((minted_le_end steps t).trans_lt hm)

omit [Std.LawfulEqOrd H] in
theorem MintedAt.id_eq (h : MintedAt steps u cache e) :
    e.id = .ofSerial (moment steps u).minted := by
  obtain ⟨s, -, hs⟩ := h
  exact hs.id_eq

/-- The minting of an id raises the counter, so that the next ones are higher. -/
theorem MintedAt.minted_lt (hm : (empty.run steps).1.minted < 2 ^ 63 - 1)
    (h : MintedAt steps u cache e) (hut : u < t) :
    (moment steps u).minted < (moment steps t).minted := by
  obtain ⟨s, hs, hmints⟩ := h
  have hstep := (hmints.step (sound_moment hm u)).1
  rw [← moment_succ hs] at hstep
  have hmono : (moment steps (u + 1)).minted ≤ (moment steps t).minted := minted_mono steps hut
  omega

/-- An id is minted once, for one entry. -/
theorem MintedAt.unique (hm : (empty.run steps).1.minted < 2 ^ 63 - 1)
    (h : MintedAt steps u cache e) (h' : MintedAt steps v other f) (hid : e.id = f.id) :
    u = v ∧ e = f := by
  have hu := (minted_le_end steps u).trans_lt hm
  have hv := (minted_le_end steps v).trans_lt hm
  rw [h.id_eq, h'.id_eq, StageId.ofSerial_inj hu hv] at hid
  have huv : u = v := by
    rcases Nat.lt_trichotomy u v with hlt | heq | hlt
    · have := h.minted_lt hm hlt
      omega
    · exact heq
    · have := h'.minted_lt hm hlt
      omega
  subst huv
  have hides := h.id_eq.trans h'.id_eq.symm
  obtain ⟨s, hs, hmints⟩ := h
  obtain ⟨s', hs', hmints'⟩ := h'
  rw [hs] at hs'
  cases hs'
  have hins := hmints.inserts.symm.trans hmints'.inserts
  simp only [Option.some.injEq, Prod.mk.injEq, Operation.insert.injEq] at hins
  obtain ⟨-, hstage, hkey⟩ := hins
  refine ⟨rfl, ?_⟩
  cases e
  cases f
  simp only [Entry.mk.injEq]
  exact ⟨hides, hstage, hkey⟩

theorem holds_succ (hm : (empty.run steps).1.minted < 2 ^ 63 - 1)
    (h : (moment steps (t + 1)).Holds name id e) :
    (∃ other, (moment steps t).Holds other id e) ∨
    ∃ cache, MintedAt steps t cache e ∧ e.id = id ∧
      answerAt steps t = some (.reply (.id id)) := by
  rcases moment_succ_cases steps t with ⟨s, hs, hnext⟩ | hnext
  · rw [hnext] at h
    rcases holds_of_step (sound_moment hm t) h with hold | ⟨hmints, hid, hans⟩
    · exact .inl hold
    · exact .inr ⟨name, ⟨s, hs, hmints⟩, hid, by rw [answerAt_eq hs, hans]⟩
  · rw [hnext] at h
    exact .inl ⟨name, h⟩

/-- What is found under an id was found at an earlier moment, or was minted since then by an
insertion that did not trip. -/
theorem minted_between (hm : (empty.run steps).1.minted < 2 ^ 63 - 1) {t' : ℕ} (ht : t ≤ t')
    (h : (moment steps t').Holds name id e) :
    (∃ other, (moment steps t).Holds other id e) ∨
    ∃ u cache, t ≤ u ∧ u < t' ∧ MintedAt steps u cache e ∧ e.id = id ∧
      answerAt steps u = some (.reply (.id id)) := by
  induction t', ht using Nat.le_induction generalizing name with
  | base => exact .inl ⟨name, h⟩
  | succ v hv ih =>
    rcases holds_succ hm h with ⟨other, ho⟩ | ⟨cache, hminted⟩
    · rcases ih ho with hold | ⟨u, cache, htu, huv, hminted⟩
      · exact .inl hold
      · exact .inr ⟨u, cache, htu, Nat.lt_succ_of_lt huv, hminted⟩
    · exact .inr ⟨v, cache, hv, Nat.lt_succ_self v, hminted⟩

/-- What is found under an id was minted for it. -/
theorem minted_of_holds (hm : (empty.run steps).1.minted < 2 ^ 63 - 1)
    (h : (moment steps t).Holds name id e) :
    ∃ u cache, u < t ∧ MintedAt steps u cache e ∧ e.id = id ∧
      answerAt steps u = some (.reply (.id id)) := by
  rcases minted_between hm (Nat.zero_le t) h with ⟨other, c, hc, -⟩ | ⟨u, cache, -, hu, hrest⟩
  · simp [moment, empty] at hc
  · exact ⟨u, cache, hu, hrest⟩

theorem MintedAt.eq_of_holds (hm : (empty.run steps).1.minted < 2 ^ 63 - 1)
    (h : MintedAt steps u cache e) (hf : (moment steps t).Holds name e.id f) : f = e := by
  obtain ⟨v, other, -, hf, hid, -⟩ := minted_of_holds hm hf
  exact (hf.unique hm h hid).2

/-- Between two moments, a cache that does not hold `e` takes over a store that does. -/
def TakenOver (steps : List (Step (Layer H) C)) (t t' : ℕ) (name : String) (c : Cache H C)
    (e : Entry H C) : Prop :=
  ∃ v s source, t ≤ v ∧ v < t' ∧ steps[v]? = some s ∧ s.TakesOver name source ∧
    (∃ d, (moment steps v).caches[name]? = some d ∧ d.instanceNumber = c.instanceNumber ∧
      d.store.entries[e.id]? = none) ∧
    (moment steps v).Holds source e.id e

omit [Std.LawfulEqOrd H] in
theorem TakenOver.succ {t' : ℕ} {c : Cache H C} (h : TakenOver steps t t' name c e) :
    TakenOver steps t (t' + 1) name c e := by
  obtain ⟨v, s, source, htv, hlt, hrest⟩ := h
  exact ⟨v, s, source, htv, Nat.lt_succ_of_lt hlt, hrest⟩

/-- A cache that does not hold a minted id gets it back only with the store of another cache. -/
theorem MintedAt.taken_over (hm : (empty.run steps).1.minted < 2 ^ 63 - 1)
    (hminted : MintedAt steps u cache e) (hut : u < t) {c : Cache H C}
    (hc : (moment steps t).caches[name]? = some c) (hgone : c.store.entries[e.id]? = none)
    {t' : ℕ} (ht : t ≤ t') {c' : Cache H C} (hc' : (moment steps t').caches[other]? = some c')
    (hi : c'.instanceNumber = c.instanceNumber) (hf : c'.store.entries[e.id]? = some f) :
    TakenOver steps t t' other c e := by
  induction t', ht using Nat.le_induction generalizing c' f with
  | base =>
    have hname := (numbered_moment steps t).inj hc' hc hi
    subst hname
    rw [hc] at hc'
    cases hc'
    rw [hgone] at hf
    cases hf
  | succ v hv ih =>
    rcases moment_succ_cases steps v with ⟨s, hs, hnext⟩ | hnext
    · rw [hnext] at hc'
      rcases held_of_step hc' hf with hnew | ⟨d, hd, hdi, hcases⟩
      · have hlt := (numbered_moment steps t).lt hc
        have hle : (moment steps t).instances ≤ (moment steps v).instances :=
          instances_mono steps hv
        omega
      -- The first step after which the cache holds the id again is the one to find.
      · cases hdg : d.store.entries[e.id]? with
        | some g => exact (ih hd (hdi.trans hi) hdg).succ
        | none =>
          rcases hcases with hold | hnew | ⟨source, htakes, hholds⟩
          · rw [hdg] at hold
            cases hold
          · have hlt := hminted.minted_lt hm (hut.trans_le hv)
            have hv' := (minted_le_end steps v).trans_lt hm
            have hu := hlt.trans hv'
            rw [hminted.id_eq, StageId.ofSerial_inj hu hv'] at hnew
            omega
          · have hfe := hminted.eq_of_holds hm hholds
            exact ⟨v, s, source, hv, Nat.lt_succ_self v, hs, htakes,
              ⟨d, hd, hdi.trans hi, hdg⟩, hfe ▸ hholds⟩
    · rw [hnext] at hc'
      exact (ih hc' hi hf).succ

/-- After an erasure that did not trip, the cache is without the entry. -/
theorem removed_of_takesOut (hm : (empty.run steps).1.minted < 2 ^ 63 - 1)
    {s : Step (Layer H) C} (hs : steps[t]? = some s) {op : Operation Stage (Layer H) C}
    (hop : (moment steps t).operation? s = some (name, op)) (htakes : op.TakesOut e)
    {c : Cache H C} (hc : (moment steps t).caches[name]? = some c)
    (he : c.store.entries[e.id]? = some e)
    (hans : ∀ layer, answerAt steps t ≠ some (.tripped layer)) :
    ∃ c', (moment steps (t + 1)).caches[name]? = some c' ∧
      c'.instanceNumber = c.instanceNumber ∧ c'.store.entries[e.id]? = none := by
  have hstep := step_of_operation? hop hc
  rw [performOn_eq] at hstep
  rw [moment_succ hs, hstep]
  rw [answerAt_eq hs, hstep] at hans
  cases hl : (op.layers c.store).find? ((moment steps t).armed.contains ·) with
  | some l =>
    rw [hl] at hans
    exact absurd rfl (hans l.name)
  | none =>
    exact ⟨_, Std.ExtTreeMap.getElem?_insert_self, rfl,
      htakes.entries_after (sound_moment hm t hc) he⟩

/-- What an id stands for over a run. -/
structure IdsLast (steps : List (Step (Layer H) C)) : Prop where
  /-- An insertion of an absent stage returns the id it minted, a valid one and higher than all
  before, and the id leads to the stage; or its root is armed and trips. -/
  fresh {u : ℕ} {cache : String} {e : Entry H C} : MintedAt steps u cache e →
    e.id.isValid = true ∧
    (∀ (v : ℕ) (other : String) (f : Entry H C), v < u → MintedAt steps v other f →
      f.id < e.id) ∧
    (answerAt steps u = some (.reply (.id e.id)) ∧
        (moment steps (u + 1)).Holds cache e.id e ∨
      answerAt steps u = some (.tripped e.key.root) ∧ e.handles.root ∈ (moment steps u).armed)
  /-- Wherever an id leads, it was minted for that. -/
  minted {t : ℕ} {name : String} {id : StageId} {e : Entry H C} :
    (moment steps t).Holds name id e → ∃ u cache, u < t ∧ MintedAt steps u cache e ∧ e.id = id
  /-- At any two moments and in any two caches it leads to the same stage and key. -/
  same {t t' : ℕ} {name other : String} {id : StageId} {e f : Entry H C} :
    (moment steps t).Holds name id e → (moment steps t').Holds other id f →
    e.stage = f.stage ∧ e.key = f.key
  lost {u : ℕ} {cache : String} {e : Entry H C} {layer : H} : MintedAt steps u cache e →
    answerAt steps u = some (.tripped layer) →
    ∀ (t : ℕ) (name : String) (f : Entry H C), ¬ (moment steps t).Holds name e.id f
  unminted {id : StageId} :
    (∀ (u : ℕ) (cache : String) (e : Entry H C), MintedAt steps u cache e → e.id ≠ id) →
    ∀ (t : ℕ) (name : String) (f : Entry H C), ¬ (moment steps t).Holds name id f
  /-- A cache that does not hold an id minted before holds it again only after a store was
  brought in that did. -/
  erased {u t t' : ℕ} {cache name other : String} {e f : Entry H C} {c c' : Cache H C} :
    MintedAt steps u cache e → u < t → t ≤ t' → (moment steps t).caches[name]? = some c →
    c.store.entries[e.id]? = none → (moment steps t').caches[other]? = some c' →
    c'.instanceNumber = c.instanceNumber → c'.store.entries[e.id]? = some f →
    TakenOver steps t t' other c e
  /-- So it is with the id of an entry that the cache held and that fell to an erasure. -/
  removed {t t' : ℕ} {s : Step (Layer H) C} {op : Operation Stage (Layer H) C}
    {name other : String} {e f : Entry H C} {c c' : Cache H C} : steps[t]? = some s →
    (moment steps t).operation? s = some (name, op) → op.TakesOut e →
    (moment steps t).caches[name]? = some c → c.store.entries[e.id]? = some e →
    (∀ layer, answerAt steps t ≠ some (.tripped layer)) → t < t' →
    (moment steps t').caches[other]? = some c' → c'.instanceNumber = c.instanceNumber →
    c'.store.entries[e.id]? = some f → TakenOver steps (t + 1) t' other c e
  /-- A minted id that no cache holds is gone. -/
  gone {u t t' : ℕ} {cache : String} {e : Entry H C} : MintedAt steps u cache e → u < t → t ≤ t' →
    (∀ (name : String) (f : Entry H C), ¬ (moment steps t).Holds name e.id f) →
    ∀ (name : String) (f : Entry H C), ¬ (moment steps t').Holds name e.id f
  /-- Any other id that no cache holds has to be minted before it is found. -/
  pending {t t' : ℕ} {id : StageId} {name : String} {f : Entry H C} : t ≤ t' →
    (∀ (other : String) (e : Entry H C), ¬ (moment steps t).Holds other id e) →
    (moment steps t').Holds name id f →
    ∃ u cache, t ≤ u ∧ u < t' ∧ MintedAt steps u cache f ∧ f.id = id

/-- In every run that does not use up the ids, each of them is bound to one stage and one key. -/
theorem ids_last (steps : List (Step (Layer H) C)) (hm : (empty.run steps).1.minted < 2 ^ 63 - 1) :
    IdsLast steps where
  fresh := by
    intro u cache e h
    have hu := (minted_le_end steps u).trans_lt hm
    have hid := StageId.toInt_ofSerial hu
    rw [← h.id_eq] at hid
    refine ⟨StageId.isValid_of_pos (by omega), fun v other f hvu hf => ?_, ?_⟩
    · have hlt := hf.minted_lt hm hvu
      have hv := StageId.toInt_ofSerial (hlt.trans hu)
      rw [← hf.id_eq] at hv
      rw [StageId.lt_def]
      omega
    · obtain ⟨s, hs, hmints⟩ := h
      rw [answerAt_eq hs, moment_succ hs]
      rcases (hmints.step (sound_moment hm u)).2 with ⟨hans, hholds⟩ | ⟨hans, harmed⟩
      · exact .inl ⟨congrArg some hans, hholds⟩
      · exact .inr ⟨congrArg some hans, harmed⟩
  minted := by
    intro t name id e h
    obtain ⟨u, cache, hu, hminted, hid, -⟩ := minted_of_holds hm h
    exact ⟨u, cache, hu, hminted, hid⟩
  same := by
    intro t t' name other id e f he hf
    obtain ⟨u, cache, -, hminted, rfl, -⟩ := minted_of_holds hm he
    have hfe := hminted.eq_of_holds hm hf
    rw [hfe]
    exact ⟨rfl, rfl⟩
  lost := by
    intro u cache e layer h htrip t name f hf
    obtain ⟨v, other, -, hminted, hid, hans⟩ := minted_of_holds hm hf
    obtain ⟨rfl, -⟩ := h.unique hm hminted hid.symm
    rw [htrip] at hans
    cases hans
  unminted := by
    intro id h t name f hf
    obtain ⟨u, cache, -, hminted, hid, -⟩ := minted_of_holds hm hf
    exact h u cache f hminted hid
  erased := fun hminted hut ht hc hgone hc' hi hf =>
    hminted.taken_over hm hut hc hgone ht hc' hi hf
  removed := by
    intro t t' s op name other e f c c' hs hop htakes hc he hans ht hc' hi hf
    obtain ⟨u, cache, hut, hminted, -⟩ := minted_of_holds hm ⟨c, hc, he⟩
    obtain ⟨d, hd, hdi, hgone⟩ := removed_of_takesOut hm hs hop htakes hc he hans
    have htaken := hminted.taken_over hm (Nat.lt_succ_of_lt hut) hd hgone ht hc' (hi.trans hdi.symm)
      hf
    rw [TakenOver, hdi] at htaken
    exact htaken
  gone := by
    intro u t t' cache e hminted hut ht hnone name f hf
    rcases minted_between hm ht hf with ⟨other, ho⟩ | ⟨v, other, htv, -, hf, hid, -⟩
    · exact hnone other f ho
    · have := (hminted.unique hm hf hid.symm).1
      omega
  pending := by
    intro t t' id name f ht hnone hf
    rcases minted_between hm ht hf with ⟨other, ho⟩ | ⟨u, cache, htu, hut, hminted, hid, -⟩
    · exact absurd ho (hnone other f)
    · exact ⟨u, cache, htu, hut, hminted, hid⟩

end Ids

/-- The second insertion of the sample run trips, and its id is never found. -/
theorem ids_last_sampleRun : (empty.run sampleRun).1.minted < 2 ^ 63 - 1 ∧
    MintedAt sampleRun 5 "a" ⟨.ofSerial 1, ⟨1⟩, ⟨.shared 2, none, 0⟩⟩ ∧
    ∀ (t : ℕ) (name : String) (f : Entry ℕ ℕ),
      ¬ (moment sampleRun t).Holds name (.ofSerial 1) f := by
  have hm : (empty.run sampleRun).1.minted < 2 ^ 63 - 1 := by cbv
  have hminted : MintedAt sampleRun 5 "a" ⟨.ofSerial 1, ⟨1⟩, ⟨.shared 2, none, 0⟩⟩ := by
    refine ⟨.perform "a" (.insert (some "t") ⟨.shared 2, none, 0⟩), rfl, by cbv, ?_, by cbv⟩
    have hsome : ((moment sampleRun 5).caches["a"]?.any fun c => ⟨1⟩ ∉ c.store.stages) = true := by
      cbv
    obtain ⟨c, hc, habs⟩ := (Option.any_eq_true _ _).1 hsome
    exact ⟨c, hc, of_decide_eq_true habs⟩
  have htrip : answerAt sampleRun 5 = some (.tripped 2) := by cbv
  exact ⟨hm, hminted, (ids_last sampleRun hm).lost hminted htrip⟩

end World

end SharedStages
