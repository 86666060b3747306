import SharedStages.Proofs.Cache.Exchange
import SharedStages.Proofs.World.Atomic

/-! The uses that are made of the stages of a world: one by the caller who holds a stage, and one by
each cache that has it. Whatever a step changes in the uses, it books as shares. -/

namespace SharedStages

section Values

variable {K V : Type} [Ord K] [Std.TransOrd K] [Std.LawfulEqOrd K]

theorem nodup_toList (m : Std.ExtTreeMap K V) : m.toList.Nodup :=
  m.ordered_keys_toList.imp fun h heq => by
    rw [heq, Std.ReflOrd.compare_self] at h
    cases h

theorem toList_perm_cons_erase {m : Std.ExtTreeMap K V} {k : K} {v : V} (h : m[k]? = some v) :
    m.toList.Perm ((k, v) :: (m.erase k).toList) := by
  rw [List.perm_ext_iff_of_nodup (nodup_toList m)]
  · rintro ⟨a, x⟩
    rw [List.mem_cons, Std.ExtTreeMap.mem_toList_iff_getElem?_eq_some,
      Std.ExtTreeMap.mem_toList_iff_getElem?_eq_some, Std.ExtTreeMap.getElem?_erase]
    by_cases ha : k = a
    · subst ha
      simp [h, eq_comm]
    · simp [ha, Ne.symm ha]
  · refine List.nodup_cons.2 ⟨fun hmem => ?_, nodup_toList _⟩
    rw [Std.ExtTreeMap.mem_toList_iff_getElem?_eq_some] at hmem
    simp at hmem

/-- What a key had is gone after its erasure, and nothing else. -/
theorem values_erase_perm (m : Std.ExtTreeMap K V) (k : K) :
    ((m.erase k).values ++ m[k]?.toList).Perm m.values := by
  cases h : m[k]? with
  | none =>
    have hself : m.erase k = m := by
      apply Std.ExtTreeMap.ext_getElem?
      intro a
      rw [Std.ExtTreeMap.getElem?_erase]
      split_ifs with ha
      · rw [← Std.LawfulEqOrd.eq_of_compare ha, h]
      · rfl
    simp [hself]
  | some v =>
    have hperm := (toList_perm_cons_erase h).map fun p : K × V => p.2
    rw [values_eq_map_toList, values_eq_map_toList, Option.toList_some]
    exact (List.perm_append_singleton v _).trans hperm.symm

/-- A new value takes the place of what the key had. -/
theorem values_insert_perm (m : Std.ExtTreeMap K V) (k : K) (v : V) :
    ((m.insert k v).values ++ m[k]?.toList).Perm (m.values ++ [v]) := by
  have herase : (m.insert k v).erase k = m.erase k := by
    apply Std.ExtTreeMap.ext_getElem?
    intro a
    simp only [Std.ExtTreeMap.getElem?_erase, Std.ExtTreeMap.getElem?_insert]
    split_ifs <;> rfl
  have hnew := values_erase_perm (m.insert k v) k
  rw [herase, Std.ExtTreeMap.getElem?_insert_self, Option.toList_some] at hnew
  have hswap : ((m.erase k).values ++ [v] ++ m[k]?.toList).Perm
      ((m.erase k).values ++ m[k]?.toList ++ [v]) := by
    simp only [List.append_assoc]
    exact List.perm_append_comm.append_left _
  exact (hnew.symm.append_right _).trans (hswap.trans ((values_erase_perm m k).append_right _))

omit [Std.LawfulEqOrd K] in
theorem values_empty : (∅ : Std.ExtTreeMap K V).values = [] := by
  rw [← List.length_eq_zero_iff, length_values, Std.ExtTreeMap.size_empty]

end Values

variable {H C : Type} [Ord H]

/-- The step makes a stage. -/
def Step.isCreation : Step (Layer H) C → Bool
  | .create .. => true
  | _ => false

namespace World

/-- The stages in use, as often as they are: the caller's ones, then those of every cache. -/
def uses (w : World H C) : List Stage :=
  w.held.values ++ w.caches.values.flatMap (·.store.stages)

section Uses

variable {v w : World H C} {t : Stage}

/-- When a name gets a cache, the stages of that cache come into use and those of the former one go
out of use. -/
theorem uses_insert (hheld : v.held = w.held) {name : String} {c : Cache H C}
    (hcaches : v.caches = w.caches.insert name c) :
    v.uses.count t + (w.caches[name]?.toList.flatMap (·.store.stages)).count t =
      w.uses.count t + c.store.stages.count t := by
  have h := ((values_insert_perm w.caches name c).flatMap_right (·.store.stages)).count_eq t
  simp only [List.flatMap_append, List.flatMap_singleton, List.count_append] at h
  simp only [uses, hheld, hcaches, List.count_append]
  omega

theorem uses_update (hheld : v.held = w.held) {name : String} {c c' : Cache H C}
    (hc : w.caches[name]? = some c) (hcaches : v.caches = w.caches.insert name c') :
    v.uses.count t + c.store.stages.count t = w.uses.count t + c'.store.stages.count t := by
  have h := uses_insert (t := t) hheld hcaches
  rwa [hc, Option.toList_some, List.flatMap_singleton] at h

theorem uses_erase (hheld : v.held = w.held) {name : String} {c : Cache H C}
    (hc : w.caches[name]? = some c) (hcaches : v.caches = w.caches.erase name) :
    v.uses.count t + c.store.stages.count t = w.uses.count t := by
  have h := ((values_erase_perm w.caches name).flatMap_right (·.store.stages)).count_eq t
  simp only [hc, Option.toList_some, List.flatMap_append, List.flatMap_singleton,
    List.count_append] at h
  simp only [uses, hheld, hcaches, List.count_append]
  omega

/-- The handles change, the caches stay. -/
theorem uses_held (hcaches : v.caches = w.caches) {gained lost : List Stage}
    (hheld : (v.held.values ++ lost).Perm (w.held.values ++ gained)) :
    v.uses.count t + lost.count t = w.uses.count t + gained.count t := by
  have h := hheld.count_eq t
  simp only [List.count_append] at h
  simp only [uses, hcaches, List.count_append]
  omega

theorem mem_uses : t ∈ w.uses ↔ (∃ handle : Handle, w.held[handle]? = some t) ∨
    ∃ (name : String) (c : Cache H C), w.caches[name]? = some c ∧ t ∈ c.store.stages := by
  simp only [uses, List.mem_append, List.mem_flatMap, mem_values]
  grind

theorem mem_uses_of_stages {name : String} {c : Cache H C} (hc : w.caches[name]? = some c)
    (ht : t ∈ c.store.stages) : t ∈ w.uses := mem_uses.2 (.inr ⟨name, c, hc, ht⟩)

/-- What keeps a part of the handles keeps them to different stages. -/
theorem once_of_perm (h : w.held.values.Nodup) {lost : List Stage}
    (hheld : (v.held.values ++ lost).Perm w.held.values) : v.held.values.Nodup :=
  (hheld.nodup_iff.2 h).of_append_left

end Uses

/-- The shares are the uses, and no two handles are to the same stage. -/
structure Balanced (w : World H C) : Prop where
  regular : w.ledger.Regular
  shares (t : Stage) : w.ledger.shares t = w.uses.count t
  once : w.held.values.Nodup

/-- What a step makes of the ledger `l` is booked: a stage was destroyed if it had shares, and has
none any more. -/
structure Booked (l : Ledger (Profile (Layer H) C)) (x : World H C × Report H C) : Prop where
  balanced : x.1.Balanced
  destroyed_iff {t : Stage} :
    t ∈ x.2.destroyed.map (·.1) ↔ 0 < l.shares t ∧ x.1.ledger.shares t = 0
  nodup : (x.2.destroyed.map (·.1)).Nodup
  counted : x.1.ledger.destroyed = l.destroyed + x.2.destroyed.length
  created : x.1.ledger.created = l.created
  gone {t : Stage} : l.shares t = 0 → x.1.ledger.shares t = 0

section Booking

variable {v w : World H C} {t : Stage}

theorem Balanced.mem_live (h : w.Balanced) : t ∈ w.ledger.live ↔ t ∈ w.uses := by
  rw [← h.regular.backed.shares_pos_iff, h.shares, List.count_pos_iff]

/-- Every stage that was made is in use or was destroyed. -/
theorem Balanced.card_uses (h : w.Balanced) :
    w.ledger.destroyed + w.uses.toFinset.card = w.ledger.created := by
  have huses : w.uses.toFinset = w.ledger.live.keys.toFinset := by
    ext t
    rw [List.mem_toFinset, List.mem_toFinset, Std.ExtTreeMap.mem_keys, h.mem_live]
  have hnodup : w.ledger.live.keys.Nodup := Std.ExtTreeMap.nodup_keys
  have htotal := h.regular.total
  rw [huses, List.toFinset_card_of_nodup hnodup, Std.ExtTreeMap.length_keys]
  omega

/-- The shares that are taken and given back make up for the change in the uses. -/
theorem settle_booked (hl : v.ledger.Regular) {gained lost : List Stage}
    (hgained : ∀ s ∈ gained, 0 < v.ledger.shares s)
    (huses : ∀ t, v.ledger.shares t + gained.count t = v.uses.count t + lost.count t)
    (honce : v.held.values.Nodup) (answer : Answer H C) (ds : List Delivery) :
    Booked v.ledger (v.settle gained lost answer ds) := by
  have hshares (t : Stage) : (v.settle gained lost answer ds).1.ledger.shares t =
      v.ledger.shares t + gained.count t - lost.count t := by
    rw [← Ledger.shares_retainAll hgained, ← Ledger.shares_releaseAll]
    rfl
  have hlive (t : Stage) : v.ledger.shares t = 0 → gained.count t = 0 := fun h =>
    List.count_eq_zero.2 fun hmem => (hgained t hmem).ne' h
  constructor
  case balanced =>
    refine ⟨hl.settle hgained lost, fun t => ?_, honce⟩
    have := huses t
    rw [hshares]
    change _ = v.uses.count t
    omega
  case destroyed_iff =>
    intro t
    have := hlive t
    rw [hshares]
    refine (Ledger.mem_releaseAll (hl.backed.retainAll gained) lost t).trans ?_
    rw [Ledger.shares_retainAll hgained]
    omega
  case nodup => exact Ledger.nodup_releaseAll (hl.backed.retainAll gained) lost
  case counted =>
    rw [← Ledger.destroyed_retainAll v.ledger gained]
    exact Ledger.destroyed_releaseAll _ lost
  case created =>
    rw [← Ledger.created_retainAll v.ledger gained]
    exact Ledger.created_releaseAll _ lost
  case gone =>
    intro t ht
    have := hlive t ht
    rw [hshares]
    omega

theorem Balanced.shares_pos (h : w.Balanced) (ht : t ∈ w.uses) : 0 < w.ledger.shares t := by
  rw [h.shares]
  exact List.count_pos_iff.2 ht

/-- In a balanced world, a step takes shares for the uses that begin and gives back those of the
uses that end. -/
theorem Balanced.booked_settle (h : w.Balanced) (hledger : v.ledger = w.ledger)
    {gained lost : List Stage} (hgained : ∀ s ∈ gained, s ∈ w.uses)
    (huses : ∀ t, w.uses.count t + gained.count t = v.uses.count t + lost.count t)
    (honce : v.held.values.Nodup) (answer : Answer H C) (ds : List Delivery) :
    Booked w.ledger (v.settle gained lost answer ds) := by
  rw [← hledger]
  apply settle_booked
  · rw [hledger]
    exact h.regular
  · rw [hledger]
    exact fun s hs => h.shares_pos (hgained s hs)
  · intro t
    rw [hledger, h.shares, huses]
  · exact honce

/-- Without a change in the uses there is nothing to book. -/
theorem Balanced.booked (h : w.Balanced) (hledger : v.ledger = w.ledger) (hheld : v.held = w.held)
    (huses : ∀ t, v.uses.count t = w.uses.count t) (answer : Answer H C) (ds : List Delivery) :
    Booked w.ledger (v, ⟨answer, ds, []⟩) := by
  have hb : v.ledger.Backed := hledger ▸ h.regular.backed
  rw [← settle_self hb []]
  refine h.booked_settle hledger (List.forall_mem_nil _) (fun t => ?_) (hheld ▸ h.once) answer ds
  rw [huses]

/-- A step that gives a name another cache books the stages of both. -/
theorem Balanced.booked_update (h : w.Balanced) (hledger : v.ledger = w.ledger)
    (hheld : v.held = w.held) {name : String} {c c' : Cache H C} (hc : w.caches[name]? = some c)
    (hcaches : v.caches = w.caches.insert name c') {gained lost : List Stage}
    (hgained : ∀ s ∈ gained, s ∈ w.uses)
    (hstages : ∀ t, c.store.stages.count t + gained.count t =
      c'.store.stages.count t + lost.count t) (answer : Answer H C) (ds : List Delivery) :
    Booked w.ledger (v.settle gained lost answer ds) := by
  refine h.booked_settle hledger hgained (fun t => ?_) (hheld ▸ h.once) answer ds
  have huses := uses_update (t := t) hheld hc hcaches
  have hcount := hstages t
  omega

theorem Balanced.booked_install (h : w.Balanced) (name : String) (c : Cache H C)
    {gained : List Stage} (hgained : ∀ s ∈ gained, s ∈ w.uses)
    (hstages : gained.Perm c.store.stages) (answer : Answer H C) :
    Booked w.ledger (w.install name c gained answer) := by
  have hlost : (w.caches[name]?.map (·.store.stages)).getD [] =
      w.caches[name]?.toList.flatMap (·.store.stages) := by
    cases w.caches[name]? with
    | none => rfl
    | some d => rw [Option.toList_some, List.flatMap_singleton]; rfl
  unfold install
  rw [hlost]
  refine h.booked_settle (by rfl) hgained (fun t => ?_) ?_ answer []
  · rw [hstages.count_eq t]
    exact (uses_insert (by rfl) (by rfl)).symm
  · exact h.once

/-- The new stage has the one share of its handle. -/
theorem Balanced.booked_create (h : w.Balanced) (handle : Handle) (p : Profile (Layer H) C) :
    Booked (w.ledger.create p).2 (w.create handle p) := by
  have hfresh : (⟨w.ledger.created⟩ : Stage) ∉ w.uses := fun hmem =>
    Nat.lt_irrefl _ (h.regular.issued (h.mem_live.2 hmem))
  have hperm := values_insert_perm w.held handle ⟨w.ledger.created⟩
  have hnodup : (w.held.values ++ [(⟨w.ledger.created⟩ : Stage)]).Nodup := by
    refine List.nodup_append.2 ⟨h.once, List.nodup_singleton _, ?_⟩
    rintro s hs u hu rfl
    rw [List.mem_singleton.1 hu] at hs
    exact hfresh (List.mem_append_left _ hs)
  refine settle_booked (v := { w with
    ledger := (w.ledger.create p).2, held := w.held.insert handle ⟨w.ledger.created⟩ })
    (h.regular.create p) (by simp) (fun t => ?_) (hperm.nodup_iff.2 hnodup).of_append_left .done []
  have huses := uses_held (v := { w with
    ledger := (w.ledger.create p).2, held := w.held.insert handle ⟨w.ledger.created⟩ })
    (w := w) (t := t) rfl hperm
  rw [Ledger.shares_create, h.shares, huses]
  split_ifs with ht
  · simp [ht, List.count_eq_zero.2 hfresh]
  · simp [ht, eq_comm]

/-- The caller lets go of a stage. -/
theorem Balanced.booked_held (h : w.Balanced) (hledger : v.ledger = w.ledger)
    (hcaches : v.caches = w.caches) {lost : List Stage}
    (hheld : (v.held.values ++ lost).Perm w.held.values) (answer : Answer H C) :
    Booked w.ledger (v.settle [] lost answer []) := by
  have hperm : (v.held.values ++ lost).Perm (w.held.values ++ []) := by rwa [List.append_nil]
  exact h.booked_settle hledger (List.forall_mem_nil _) (fun _ => (uses_held hcaches hperm).symm)
    (once_of_perm h.once hheld) answer []

/-- Shares that are taken and given back leave the books as they are. -/
theorem Balanced.booked_taken (h : w.Balanced) (hledger : v.ledger = w.ledger)
    (hheld : v.held = w.held) (hcaches : v.caches = w.caches) (taken : List Stage)
    (answer : Answer H C) : Booked w.ledger (v.settle taken taken answer []) := by
  have hb : v.ledger.Backed := hledger ▸ h.regular.backed
  rw [settle_self hb]
  exact h.booked hledger hheld (fun t => by rw [uses, hheld, hcaches, uses]) answer []

/-- A cache that gets another name or observer keeps its stages. -/
theorem Balanced.booked_kept (h : w.Balanced) (hledger : v.ledger = w.ledger)
    (hheld : v.held = w.held) {name : String} {c c' : Cache H C} (hc : w.caches[name]? = some c)
    (hcaches : v.caches = w.caches.insert name c') (hstore : c'.store = c.store)
    (answer : Answer H C) : Booked w.ledger (v.reply answer) := by
  refine h.booked hledger hheld (fun t => ?_) answer []
  have huses := uses_update (t := t) hheld hc hcaches
  rw [hstore] at huses
  exact Nat.add_right_cancel huses

theorem Balanced.booked_swap (h : w.Balanced) {name other : String} {c d : Cache H C}
    (hc : w.caches[name]? = some c) (hd : w.caches[other]? = some d) :
    Booked w.ledger
      ({ w with caches := (w.caches.insert name (c.swap d).1).insert other (c.swap d).2 }.reply
        .done) := by
  obtain ⟨v, hv⟩ : ∃ v, v = { w with caches := w.caches.insert name (c.swap d).1 } := ⟨_, rfl⟩
  obtain ⟨d', hd', hstages⟩ : ∃ d', v.caches[other]? = some d' ∧
      d'.store.stages = d.store.stages := by
    subst hv
    simp only [Std.ExtTreeMap.getElem?_insert]
    split_ifs
    · exact ⟨_, rfl, rfl⟩
    · exact ⟨d, hd, rfl⟩
  subst hv
  refine h.booked (by rfl) (by rfl) (fun t => ?_) .done []
  -- The two writes exchange the stages of the caches, also if both are the same one.
  have hfirst := uses_update (v := { w with caches := w.caches.insert name (c.swap d).1 })
    (w := w) (t := t) rfl hc rfl
  have hsecond := uses_update
    (v := { w with caches := (w.caches.insert name (c.swap d).1).insert other (c.swap d).2 })
    (w := { w with caches := w.caches.insert name (c.swap d).1 }) (t := t) rfl hd' rfl
  rw [hstages] at hsecond
  simp only [Cache.swap] at hfirst hsecond ⊢
  omega

theorem balanced_empty : (empty : World H C).Balanced where
  regular := Ledger.regular_empty
  shares t := by simp [empty, uses, Ledger.empty, Ledger.shares, values_empty]
  once := by simp [empty, values_empty]

end Booking

/-- The ledger with the stage that a step makes. -/
def opened (w : World H C) : Step (Layer H) C → Ledger (Profile (Layer H) C)
  | .create _ label key => (w.ledger.create ⟨label, key⟩).2
  | _ => w.ledger

section Step

variable [Std.TransOrd H] [DecidableEq H] [DecidableEq C] {w : World H C} {s : Step (Layer H) C}
  {t : Stage}

omit [Std.TransOrd H] [DecidableEq H] [DecidableEq C] in
theorem eq_insert_of_taken {op : Operation Stage (Layer H) C} {store : Store H C}
    (ht : t ∈ op.taken store) : ∃ key, op = .insert t key := by
  cases op with
  | insert stage key =>
    simp only [Operation.taken] at ht
    split_ifs at ht
    · cases ht
    · rw [List.mem_singleton.1 ht]
      exact ⟨key, rfl⟩
  | _ => cases ht

omit [Std.TransOrd H] [DecidableEq H] [DecidableEq C] in
/-- A share is taken in a stage by an insertion, and only in one that the caller holds. -/
theorem held_of_taken {name : String} {op : Operation Stage (Layer H) C}
    (hs : w.operation? s = some (name, op)) {store : Store H C} (ht : t ∈ op.taken store) :
    ∃ handle : Handle, w.held[handle]? = some t := by
  obtain ⟨key, rfl⟩ := eq_insert_of_taken ht
  cases s with
  | perform cache p =>
    obtain ⟨q, hq, h⟩ := Option.map_eq_some_iff.1 hs
    cases h
    cases p with
    | insert handle key' =>
      obtain ⟨u, hu, hins⟩ := Option.map_eq_some_iff.1 hq
      cases hins
      exact ⟨handle, hu⟩
    | eraseStage handle =>
      obtain ⟨u, -, hers⟩ := Option.map_eq_some_iff.1 hq
      cases hers
    | _ => cases hq
  | insertKeyed cache handle =>
    obtain ⟨key', -, hs⟩ := Option.bind_eq_some_iff.1 hs
    obtain ⟨stage', hstage, hs⟩ := Option.bind_eq_some_iff.1 hs
    cases hs
    exact ⟨handle, hstage⟩
  | _ => cases hs

variable [Std.LawfulEqOrd H]

/-- An operation takes its share for the entry it files, and gives back those of the entries it
takes out. -/
theorem stages_after {store : Store H C} {n : ℕ} (h : store.Consistent n)
    (op : Operation Stage (Layer H) C) (hn : n + op.spent store < 2 ^ 63 - 1) (t : Stage) :
    store.stages.count t + (op.taken store).count t =
      (op.after store n).stages.count t + (op.given store).count t := by
  have hperm := ((op.rows_after_perm h hn).map (·.stage)).count_eq t
  rw [List.map_append, List.map_append, List.count_append, List.count_append,
    ← op.taken_eq, ← op.given_eq] at hperm
  exact hperm.symm

/-- One that trips gives back those of the entries it had taken out by then. -/
theorem stages_progress {store : Store H C} {n : ℕ} (h : store.Consistent n)
    (armed : Std.ExtTreeSet (Layer H)) (op : Operation Stage (Layer H) C) (t : Stage) :
    store.stages.count t = ((op.progress store armed).foldl Store.remove store).stages.count t +
      (store.stagesOf (op.progress store armed)).count t := by
  have hperm := h.rows_foldl_remove_perm (op.nodup_progress store armed)
  have hcount := (hperm.map (·.stage)).count_eq t
  rw [List.map_append, List.count_append] at hcount
  exact hcount.symm

theorem Balanced.booked_other (h : w.Balanced) (hw : w.Sound) (hs : s.isCreation = false)
    (hm : (w.step s).1.minted < 2 ^ 63 - 1) : Booked w.ledger (w.step s) := by
  have ht := step_transition w s
  generalize w.step s = x at ht hm
  cases ht with
  | idle hne hl => exact h.booked (by rfl) (by rfl) (fun _ => rfl) _ _
  | arm =>
    refine h.booked (by rfl) (by rfl) (fun t => ?_) _ _
    rfl
  | create => cases hs
  | @keep label stage hh =>
    refine h.booked_held (by rfl) (by rfl) ?_ _
    have hfirst := values_erase_perm w.held none
    have hsecond := values_insert_perm (w.held.erase none) (some label) stage
    have hother : (w.held.erase none)[some label]? = w.held[some label]? := by
      simp [Std.ExtTreeMap.getElem?_erase]
    rw [hh, Option.toList_some] at hfirst
    rw [hother] at hsecond
    exact hsecond.trans hfirst
  | @release handle stage hh =>
    refine h.booked_held (by rfl) (by rfl) ?_ _
    have hperm := values_erase_perm w.held handle
    rwa [hh, Option.toList_some] at hperm
  | new => exact h.booked_install _ _ (List.forall_mem_nil _) (.refl _) _
  | configure hc =>
    refine h.booked_install _ _ (List.forall_mem_nil _) ?_ _
    rw [(Cache.ofConfig_eq hc).1]
    exact .refl _
  | observe hc => exact h.booked_kept (by rfl) (by rfl) hc (by rfl) (by rfl) _
  | rename hc hr =>
    rw [Cache.rename_eq hr]
    exact h.booked_kept (by rfl) (by rfl) hc (by rfl) (by rfl) _
  | copy hc hl =>
    refine h.booked_install _ _ (fun t ht => ?_) (List.reverse_perm _) _
    exact mem_uses_of_stages hc (List.mem_reverse.1 ht)
  | copyFrom hc hd hl =>
    refine h.booked_update (by rfl) (by rfl) hc (by rfl) (fun t ht => ?_) (fun t => ?_) _ _
    · exact mem_uses_of_stages hd (List.mem_reverse.1 ht)
    · simp only [Cache.copyFrom, List.count_reverse]
      exact Nat.add_comm _ _
  | swap hc hd => exact h.booked_swap hc hd
  | discard hc =>
    refine h.booked_settle (by rfl) (List.forall_mem_nil _) (fun t => ?_) ?_ _ _
    · exact (uses_erase (by rfl) hc (by rfl)).symm
    · exact h.once
  | @perform _ name op c hs hc hl =>
    refine h.booked_update (by rfl) (by rfl) hc (by rfl) (fun t ht => ?_) (fun t => ?_) _ _
    · exact mem_uses.2 (.inl (held_of_taken hs ht))
    · exact stages_after (hw hc) op hm t
  | copyTrips hc hl => exact h.booked_taken (by rfl) (by rfl) (by rfl) _ _
  | copyFromTrips hc hd hl => exact h.booked_taken (by rfl) (by rfl) (by rfl) _ _
  | @performTrips _ name op c l hs hc hl =>
    refine h.booked_update (by rfl) (by rfl) hc (by rfl) (List.forall_mem_nil _) (fun t => ?_) _ _
    exact stages_progress (hw hc) w.armed op t

theorem Balanced.booked_step (h : w.Balanced) (hw : w.Sound) (s : Step (Layer H) C)
    (hm : (w.step s).1.minted < 2 ^ 63 - 1) : Booked (w.opened s) (w.step s) := by
  cases s with
  | create handle label key => exact h.booked_create handle _
  | _ => exact h.booked_other hw rfl hm

end Step

end World

end SharedStages
