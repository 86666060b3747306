import SharedStages.Proofs.World.Atomic
import SharedStages.Proofs.World.History
import SharedStages.Proofs.World.Observation

/-! The events that a recorder writes down of a cache account for what the cache holds, but for what
an erasure takes out that trips halfway: that is reported by none. -/

namespace SharedStages

namespace Event

/-- A stage came in. -/
def isInsertion : Event → Bool
  | insert _ inserted => inserted
  | _ => false

/-- One stage went. -/
def isErasure : Event → Bool
  | erase _ erased => erased
  | _ => false

/-- How many stages went at once. -/
def bulk : Event → ℕ
  | eraseMatching count | clear count => count
  | _ => 0

theorem countP_concat (p : Event → Bool) (journal : List Event) (event : Event) :
    (journal ++ [event]).countP p = journal.countP p + (p event).toNat := by
  rw [List.countP_append, List.countP_singleton]
  cases p event <;> rfl

theorem sum_bulk_concat (journal : List Event) (event : Event) :
    ((journal ++ [event]).map (·.bulk)).sum = (journal.map (·.bulk)).sum + event.bulk := by
  simp

end Event

variable {H C : Type} [Ord H]

/-- The journal of a cache, and the number of those who went without an event, account for its
store: each stage that came in has gone since or is there, under an id that is new in the
journal. -/
structure AccountsFor (journal : List Event) (unreported : ℕ) (s : Store H C) (minted : ℕ) :
    Prop where
  size : s.size + journal.countP (·.isErasure) + (journal.map (·.bulk)).sum + unreported =
    journal.countP (·.isInsertion)
  held {id : StageId} {e : Entry H C} : s.entries[id]? = some e →
    journal.count (.insert id true) = 1 ∧ journal.count (.erase id true) = 0
  erased_once (id : StageId) : journal.count (.erase id true) ≤ 1
  issued {id : StageId} : .insert id true ∈ journal → id.toInt ≤ minted
  inserted {id : StageId} : .erase id true ∈ journal → .insert id true ∈ journal

namespace AccountsFor

variable {journal : List Event} {k : ℕ} {s : Store H C} {n : ℕ}

theorem empty (n : ℕ) : AccountsFor [] 0 (Store.empty : Store H C) n where
  size := by simp [Store.size, Store.empty]
  held := by simp [Store.empty]
  erased_once := by simp
  issued := by simp
  inserted := by simp

theorem mono (h : AccountsFor journal k s n) {m : ℕ} (hm : n ≤ m) : AccountsFor journal k s m where
  size := h.size
  held := h.held
  erased_once := h.erased_once
  issued hid := (h.issued hid).trans (by exact_mod_cast hm)
  inserted := h.inserted

/-- Stages went, and no event tells of it. -/
theorem tear [Std.TransOrd H] [Std.LawfulEqOrd H] [DecidableEq H] (h : AccountsFor journal k s n)
    (hs : s.Consistent n) {ids : List StageId} (hnd : ids.Nodup) :
    AccountsFor journal (k + (ids.filterMap (s.entries[·]?)).length) (ids.foldl .remove s) n where
  size := by
    have hlen := (hs.rows_foldl_remove_perm hnd).length_eq
    rw [List.length_append, Store.length_rows, Store.length_rows] at hlen
    have := h.size
    omega
  held he := h.held (Store.entries_of_foldl_remove he)
  erased_once := h.erased_once
  issued := h.issued
  inserted := h.inserted

/-- Stages went at once, or nothing happened. -/
theorem drop (h : AccountsFor journal k s n) {event : Event} {t : Store H C}
    (hi : event.isInsertion = false) (he : event.isErasure = false)
    (hsize : t.size + event.bulk = s.size)
    (hsub : ∀ {id : StageId} {e : Entry H C}, t.entries[id]? = some e → s.entries[id]? = some e) :
    AccountsFor (journal ++ [event]) k t n := by
  have hins (id : StageId) : ¬ event = .insert id true := by
    rintro rfl
    cases hi
  have hera (id : StageId) : ¬ event = .erase id true := by
    rintro rfl
    cases he
  have hbalance := h.size
  constructor
  case size =>
    rw [Event.countP_concat, Event.countP_concat, Event.sum_bulk_concat, hi, he, Bool.toNat_false]
    omega
  case held =>
    intro id e ht
    simpa [List.count_singleton, hins, hera] using h.held (hsub ht)
  case erased_once =>
    intro id
    simpa [List.count_singleton, hera] using h.erased_once id
  case issued =>
    intro id hid
    rw [List.mem_append, List.mem_singleton, or_iff_left (hins id ∘ Eq.symm)] at hid
    exact h.issued hid
  case inserted =>
    intro id hid
    rw [List.mem_append, List.mem_singleton, or_iff_left (hera id ∘ Eq.symm)] at hid
    exact List.mem_append_left _ (h.inserted hid)

/-- The stage with the id `id` went. -/
theorem erase (h : AccountsFor journal k s n) {id : StageId} {e : Entry H C}
    (he : s.entries[id]? = some e) {t : Store H C} (hsize : t.size + 1 = s.size)
    (hentries : ∀ i : StageId, t.entries[i]? = if id = i then none else s.entries[i]?) :
    AccountsFor (journal ++ [.erase id true]) k t n := by
  obtain ⟨hone, hnone⟩ := h.held he
  have hbalance := h.size
  constructor
  case size =>
    have hinserted : (Event.erase id true).isInsertion.toNat = 0 := rfl
    have herased : (Event.erase id true).isErasure.toNat = 1 := rfl
    have hbulk : (Event.erase id true).bulk = 0 := rfl
    rw [Event.countP_concat, Event.countP_concat, Event.sum_bulk_concat]
    omega
  case held =>
    intro i f hf
    rw [hentries] at hf
    split_ifs at hf with hi
    simpa [List.count_singleton, hi] using h.held hf
  case erased_once =>
    intro i
    by_cases hi : id = i
    · subst hi
      simp [hnone]
    · simpa [List.count_singleton, hi] using h.erased_once i
  case issued =>
    intro i hi
    exact h.issued (by simpa using hi)
  case inserted =>
    intro i hi
    apply List.mem_append_left
    rw [List.mem_append, List.mem_singleton, Event.erase.injEq] at hi
    rcases hi with hi | ⟨rfl, -⟩
    · exact h.inserted hi
    · exact List.count_pos_iff.1 (by omega)

/-- A stage came in under the id `id`, the highest so far. -/
theorem insert (h : AccountsFor journal k s n) {id : StageId} (hid : n < id.toInt) {m : ℕ}
    (hm : id.toInt ≤ m) {e : Entry H C} {t : Store H C} (hsize : t.size = s.size + 1)
    (hentries : ∀ i : StageId, t.entries[i]? = if id = i then some e else s.entries[i]?) :
    AccountsFor (journal ++ [.insert id true]) k t m := by
  have hnew : .insert id true ∉ journal := fun hmem => by
    have := h.issued hmem
    omega
  have hkept : .erase id true ∉ journal := fun hmem => hnew (h.inserted hmem)
  have hbalance := h.size
  constructor
  case size =>
    have hinserted : (Event.insert id true).isInsertion.toNat = 1 := rfl
    have herased : (Event.insert id true).isErasure.toNat = 0 := rfl
    have hbulk : (Event.insert id true).bulk = 0 := rfl
    rw [Event.countP_concat, Event.countP_concat, Event.sum_bulk_concat]
    omega
  case held =>
    intro i f hf
    rw [hentries] at hf
    split_ifs at hf with hi
    · subst hi
      simp [List.count_eq_zero.2 hnew, List.count_eq_zero.2 hkept]
    · simpa [List.count_singleton, hi] using h.held hf
  case erased_once =>
    intro i
    simpa using h.erased_once i
  case issued =>
    intro i hi
    rw [List.mem_append, List.mem_singleton, Event.insert.injEq] at hi
    rcases hi with hi | ⟨rfl, -⟩
    · have := h.issued hi
      omega
    · exact hm
  case inserted =>
    intro i hi
    exact List.mem_append_left _ (h.inserted (by simpa using hi))

/-- Every operation is accounted for by its event. -/
theorem perform [Std.TransOrd H] [Std.LawfulEqOrd H] [DecidableEq H] [DecidableEq C]
    (h : AccountsFor journal k s n) (hs : s.Consistent n) (op : Operation Stage (Layer H) C)
    (hn : n + op.spent s < 2 ^ 63 - 1) :
    AccountsFor (journal ++ [(op.result s n).2]) k (op.after s n) (n + op.spent s) := by
  have hsize := op.size_after hs hn
  cases op with
  | find id => exact h.drop rfl rfl rfl fun ht => ht
  | findOne q => exact h.drop rfl rfl rfl fun ht => ht
  | findAll q => exact h.drop rfl rfl rfl fun ht => ht
  | insert stage key =>
    simp only [Operation.result, Operation.after, Operation.removed, Operation.added,
      Operation.spent, Std.ExtTreeMap.contains_eq_isSome_getElem?, List.length_nil] at hn hsize ⊢
    cases hst : s.byStage[stage]? with
    | some id => exact h.drop rfl rfl rfl fun ht => ht
    | none =>
      simp only [hst, Option.isSome_none, Bool.false_eq_true, if_false] at hn hsize ⊢
      have hid := StageId.toInt_ofSerial (n := n) (by omega)
      exact h.insert (by omega) (by omega) hsize fun i => Store.getElem?_putEntry _ _ i
  | erase id =>
    simp only [Operation.result, Operation.after, Operation.removed, Operation.added,
      List.length_nil] at hsize ⊢
    cases he : s.entries[id]? with
    | none =>
      rw [Store.remove_of_none he]
      exact h.drop rfl rfl rfl fun ht => ht
    | some e =>
      rw [he] at hsize
      exact h.erase he hsize (s.getElem?_entries_remove id)
  | eraseStage stage =>
    have hid := Operation.id_of_entries_idOf hs stage
    simp only [Operation.result, Operation.after, Operation.removed, Operation.added,
      List.length_nil, hid] at hsize ⊢
    cases he : s.entries[s.idOf stage]? with
    | none =>
      rw [Store.remove_of_none he]
      exact h.drop rfl rfl rfl fun ht => ht
    | some e =>
      rw [he] at hsize
      exact h.erase he hsize (s.getElem?_entries_remove _)
  | eraseAll q => exact h.drop rfl rfl hsize Store.entries_of_foldl_remove
  | clear =>
    have hbulk : (Store.empty : Store H C).size + s.size = s.size := by
      simpa [Operation.after, Operation.removed, Operation.added, Store.length_rows] using hsize
    exact h.drop rfl rfl hbulk fun ht => by simp [Operation.after, Store.empty] at ht

end AccountsFor

/-- The step asks for an operation on the cache of that name. -/
def Step.requests (name : String) : Step (Layer H) C → Bool
  | .perform cache _ | .insertKeyed cache _ => cache = name
  | _ => false

namespace World

section Step

variable {w : World H C} {s : Step (Layer H) C} {name : String} {c' : Cache H C}

theorem requests_of_operation? {op : Operation Stage (Layer H) C}
    (hs : w.operation? s = some (name, op)) : s.requests name = true := by
  cases s with
  | perform cache p =>
    obtain ⟨q, -, h⟩ := Option.map_eq_some_iff.1 hs
    cases h
    simp [Step.requests]
  | insertKeyed cache handle =>
    obtain ⟨key, -, hs⟩ := Option.bind_eq_some_iff.1 hs
    obtain ⟨stage, -, hs⟩ := Option.bind_eq_some_iff.1 hs
    cases hs
    simp [Step.requests]
  | _ => cases hs

theorem eq_of_requests {other : String} {op : Operation Stage (Layer H) C}
    (h : s.requests name = true) (hs : w.operation? s = some (other, op)) : other = name := by
  cases s with
  | perform cache p =>
    obtain ⟨q, -, hq⟩ := Option.map_eq_some_iff.1 hs
    cases hq
    exact of_decide_eq_true h
  | insertKeyed cache handle =>
    obtain ⟨key, -, hs⟩ := Option.bind_eq_some_iff.1 hs
    obtain ⟨stage, -, hs⟩ := Option.bind_eq_some_iff.1 hs
    cases hs
    exact of_decide_eq_true h
  | _ => cases hs

variable [Std.TransOrd H] [DecidableEq H] [DecidableEq C]

/-- An instance that is there after a step and was not given another store has the store it had, or
the step performed an operation on it. -/
theorem Origin.former (h : Origin w name s c') (hi : c'.instanceNumber ≠ w.instances)
    (hown : ∀ other, ¬ s.TakesOver name other) :
    ∃ c, w.caches[name]? = some c ∧ c.instanceNumber = c'.instanceNumber ∧
      (c'.store = c.store ∨ ∃ op, w.operation? s = some (name, op)) := by
  cases h with
  | kept hc => exact ⟨_, hc, rfl, .inl rfl⟩
  | made => exact absurd rfl hi
  | configured hc => exact absurd (Cache.ofConfig_eq hc).2 hi
  | observed hc => exact ⟨_, hc, rfl, .inl rfl⟩
  | renamed hc hr =>
    rw [Cache.rename_eq hr]
    exact ⟨_, hc, rfl, .inl rfl⟩
  | copied hd => exact absurd rfl hi
  | overwritten hc hd => exact absurd (.inl rfl) (hown _)
  | swapped hc hd => exact absurd (.inr (.inl rfl)) (hown _)
  | swappedBack hc hd => exact absurd (.inr (.inr rfl)) (hown _)
  | performed hs hc hl => exact ⟨_, hc, rfl, .inr ⟨_, hs⟩⟩
  | interrupted hs hc hl => exact ⟨_, hc, rfl, .inr ⟨_, hs⟩⟩

/-- The entries that an erasure by a query has taken out of the cache of that name when it trips. -/
def torn (w : World H C) (name : String) (s : Step (Layer H) C) : List (Entry H C) :=
  match w.operation? s, w.caches[name]? with
  | some (cache, op), some c =>
    if cache = name ∧ ((op.layers c.store).find? (w.armed.contains ·)).isSome then
      (op.progress c.store w.armed).filterMap (c.store.entries[·]?)
    else []
  | _, _ => []

/-- Such an instance and its deliveries come from one operation, or nothing happened to it. -/
theorem operation_or_rest (hc' : (w.step s).1.caches[name]? = some c')
    (hi : c'.instanceNumber ≠ w.instances) (hown : ∀ other, ¬ s.TakesOver name other) :
    ∃ c, w.caches[name]? = some c ∧ c.instanceNumber = c'.instanceNumber ∧
      ((∃ op, w.operation? s = some (name, op) ∧ c'.store = op.after c.store w.minted ∧
        (w.step s).2.deliveries = c.deliver (op.result c.store w.minted).2 ∧ w.torn name s = []) ∨
      (∃ ids : List StageId, ids.Nodup ∧ c'.store = ids.foldl .remove c.store ∧
        (w.step s).2.deliveries = [] ∧
        w.torn name s = ids.filterMap (c.store.entries[·]?)) ∨
      c'.store = c.store ∧ (s.requests name = true → (w.step s).2.deliveries = []) ∧
        w.torn name s = []) := by
  obtain ⟨c, hc, hcc, hstore⟩ := (origin hc').former hi hown
  refine ⟨c, hc, hcc, ?_⟩
  by_cases hop : ∃ op, w.operation? s = some (name, op)
  · obtain ⟨op, hs⟩ := hop
    rw [step_of_operation? hs hc, performOn_eq] at hc' ⊢
    cases hl : (op.layers c.store).find? (w.armed.contains ·) with
    | none =>
      rw [hl] at hc'
      have : { c with store := op.after c.store w.minted } = c' :=
        Option.some.inj (Std.ExtTreeMap.getElem?_insert_self.symm.trans hc')
      exact .inl ⟨op, hs, congrArg Cache.store this.symm, rfl, by simp [torn, hs, hc, hl]⟩
    | some l =>
      rw [hl] at hc'
      have : { c with store := (op.progress c.store w.armed).foldl .remove c.store } = c' :=
        Option.some.inj (Std.ExtTreeMap.getElem?_insert_self.symm.trans hc')
      exact .inr (.inl ⟨_, op.nodup_progress c.store w.armed, congrArg Cache.store this.symm, rfl,
        by simp [torn, hs, hc, hl]⟩)
  · have htorn : w.torn name s = [] := by
      cases hs : w.operation? s with
      | none => simp [torn, hs]
      | some p =>
        obtain ⟨other, op⟩ := p
        have hother : other ≠ name := by
          rintro rfl
          exact hop ⟨op, hs⟩
        simp [torn, hs, hc, hother]
    refine .inr (.inr ⟨hstore.resolve_right hop, fun hreq => deliveries_eq_nil ?_, htorn⟩)
    intro other op d hs
    exact absurd ⟨op, eq_of_requests hreq hs ▸ hs⟩ hop

/-- Where all handles of a name are one, no erasure ends halfway. -/
theorem Marked.torn_eq_nil {mark : H → ℕ} (hw : w.Marked mark) (s : Step H C) (name : String) :
    w.torn name (s.map (Layer.marked mark)) = [] := by
  unfold torn
  cases hs : w.operation? (s.map (Layer.marked mark)) with
  | none => rfl
  | some p =>
    cases hc : w.caches[name]? with
    | none => rfl
    | some c =>
      dsimp only
      split_ifs with htrip
      · obtain ⟨l, hl⟩ := Option.isSome_iff_exists.1 htrip.2
        rw [(hw.operation? hs).progress_eq_nil (hw.store hc) hl, List.filterMap_nil]
      · rfl

end Step

variable [Std.TransOrd H] [DecidableEq H] [DecidableEq C]

/-- What the operations of a cache sent to its observer in a step. -/
def eventsAt (steps : List (Step (Layer H) C)) (name : String) (t : ℕ) : List Event :=
  match steps[t]? with
  | some s => if s.requests name then ((moment steps t).step s).2.deliveries.map (·.event) else []
  | none => []

/-- What they sent in `k` steps from the moment `t` on. -/
def journal (steps : List (Step (Layer H) C)) (name : String) (t k : ℕ) : List Event :=
  (List.range k).flatMap fun i => eventsAt steps name (t + i)

/-- How many entries of the cache of that name were taken out in these steps by erasures that
tripped. -/
def unreported (steps : List (Step (Layer H) C)) (name : String) (t k : ℕ) : ℕ :=
  ((List.range k).map fun i =>
    (steps[t + i]?.toList.flatMap ((moment steps (t + i)).torn name)).length).sum

/-- The step makes an empty cache of that name, be it without or with a configuration. -/
def Makes (w : World H C) (name : String) (s : Step (Layer H) C) : Prop :=
  s = .new name ∨ ∃ config, s = .configure name config ∧ (w.step s).2.answer = .accepted

theorem Makes.instances {w : World H C} {name : String} {s : Step (Layer H) C}
    (h : w.Makes name s) : (w.step s).1.instances = w.instances + 1 := by
  rcases h with rfl | ⟨config, rfl, ha⟩
  · rfl
  · simp only [step, configure] at ha ⊢
    cases hc : Cache.ofConfig (H := H) (C := C) config w.instances with
    | ok c => rfl
    | error fault =>
      rw [hc] at ha
      cases ha

theorem Makes.store {w : World H C} {name : String} {s : Step (Layer H) C} (h : w.Makes name s)
    (hw : Numbered w.caches w.instances) {c : Cache H C}
    (hc : (w.step s).1.caches[name]? = some c) (hi : c.instanceNumber = w.instances) :
    c.store = .empty := by
  have ho := origin hc
  rcases h with rfl | ⟨config, rfl, -⟩
  · cases ho with
    | kept hc => exact absurd hi (hw.lt hc).ne
    | made => rfl
    | performed hs hc hl => cases hs
    | interrupted hs hc hl => cases hs
  · cases ho with
    | kept hc => exact absurd hi (hw.lt hc).ne
    | configured hc => exact (Cache.ofConfig_eq hc).1
    | performed hs hc hl => cases hs
    | interrupted hs hc hl => cases hs

/-- In the `k` steps from the moment `t` on, the cache of that name is not given the store of
another one, and whenever an operation of it is asked for, its observer wants the event. -/
structure Recorded (steps : List (Step (Layer H) C)) (name : String) (t k : ℕ) : Prop where
  own {i : ℕ} {s : Step (Layer H) C} : i < k → steps[t + i]? = some s →
    ∀ other, ¬ s.TakesOver name other
  watched {i : ℕ} {s : Step (Layer H) C} : i < k → steps[t + i]? = some s → s.requests name = true →
    ∃ c, (moment steps (t + i)).caches[name]? = some c ∧ c.observer.isEnabled = true

section Journal

variable [Std.LawfulEqOrd H] {steps : List (Step (Layer H) C)} {name : String} {t : ℕ}
  {s : Step (Layer H) C}

theorem accountsFor_journal (hm : (empty.run steps).1.minted < 2 ^ 63 - 1)
    (hs : steps[t]? = some s) (hmade : (moment steps t).Makes name s) {k : ℕ}
    (hrec : Recorded steps name (t + 1) k) {c : Cache H C}
    (hc : (moment steps (t + 1 + k)).caches[name]? = some c)
    (hi : c.instanceNumber = (moment steps t).instances) :
    AccountsFor (journal steps name (t + 1) k) (unreported steps name (t + 1) k) c.store
      (moment steps (t + 1 + k)).minted := by
  induction k generalizing c with
  | zero =>
    rw [Nat.add_zero, moment_succ hs] at hc
    rw [hmade.store (numbered_moment steps t) hc hi]
    exact .empty _
  | succ k ih =>
    have hbefore : Recorded steps name (t + 1) k :=
      ⟨fun hik => hrec.own (Nat.lt_succ_of_lt hik), fun hik => hrec.watched (Nat.lt_succ_of_lt hik)⟩
    have hjournal : journal steps name (t + 1) (k + 1) =
        journal steps name (t + 1) k ++ eventsAt steps name (t + 1 + k) := by
      simp [journal, List.range_succ]
    have hunreported : unreported steps name (t + 1) (k + 1) = unreported steps name (t + 1) k +
        (steps[t + 1 + k]?.toList.flatMap ((moment steps (t + 1 + k)).torn name)).length := by
      rw [unreported, List.range_succ, List.map_append, List.sum_append]
      simp [unreported]
    rw [hjournal, hunreported]
    cases hsk : steps[t + 1 + k]? with
    | none =>
      have hstill : moment steps (t + 1 + (k + 1)) = moment steps (t + 1 + k) := by
        rcases moment_succ_cases steps (t + 1 + k) with ⟨s', hs', -⟩ | h
        · rw [hsk] at hs'
          cases hs'
        · exact h
      rw [hstill] at hc ⊢
      simpa [eventsAt, hsk] using ih hbefore hc hi
    | some s' =>
      have hnext : moment steps (t + 1 + (k + 1)) = ((moment steps (t + 1 + k)).step s').1 :=
        moment_succ hsk
      have hlater : (moment steps (t + 1)).instances ≤ (moment steps (t + 1 + k)).instances :=
        instances_mono steps (Nat.le_add_right _ _)
      rw [moment_succ hs, hmade.instances] at hlater
      have hmk := (minted_le_end steps (t + 1 + (k + 1))).trans_lt hm
      rw [hnext] at hc hmk ⊢
      rw [Option.toList_some, List.flatMap_singleton]
      obtain ⟨d, hd, hdc, hcases⟩ := operation_or_rest hc (by omega)
        (hrec.own (Nat.lt_succ_self k) hsk)
      have hk := ih hbefore hd (hdc.trans hi)
      have hnone (hdel : s'.requests name = true →
          ((moment steps (t + 1 + k)).step s').2.deliveries = []) :
          eventsAt steps name (t + 1 + k) = [] := by
        simp only [eventsAt, hsk]
        split_ifs with hreq
        · rw [hdel hreq, List.map_nil]
        · rfl
      rcases hcases with ⟨op, hop, hstore, hdel, htorn⟩ | ⟨ids, hids, hstore, hdel, htorn⟩ |
        ⟨hstore, hdel, htorn⟩
      · have hreq := requests_of_operation? hop
        obtain ⟨d', hd', hobs⟩ := hrec.watched (Nat.lt_succ_self k) hsk hreq
        rw [hd] at hd'
        cases hd'
        rw [step_minted hop hd] at hmk ⊢
        rw [hstore, htorn]
        simpa [eventsAt, hsk, hreq, hdel, Cache.deliver, hobs] using
          hk.perform (sound_moment hm _ hd) op hmk
      · rw [hnone fun _ => hdel, hstore, htorn, List.append_nil]
        exact (hk.tear (sound_moment hm _ hd) hids).mono (minted_le_step _ _)
      · rw [hnone hdel, hstore, htorn, List.append_nil, List.length_nil]
        exact hk.mono (minted_le_step _ _)

omit [Std.LawfulEqOrd H] in
theorem unreported_eq_zero {k : ℕ}
    (h : ∀ (i : ℕ) (s : Step (Layer H) C), i < k → steps[t + i]? = some s →
      (moment steps (t + i)).torn name s = []) : unreported steps name t k = 0 := by
  rw [unreported, List.sum_eq_zero]
  intro n hn
  obtain ⟨i, hi, rfl⟩ := List.mem_map.1 hn
  cases hs : steps[t + i]? with
  | none => rfl
  | some s =>
    rw [Option.toList_some, List.flatMap_singleton, h i s (List.mem_range.1 hi) hs,
      List.length_nil]

/-- Where all handles of a name are one, every removal is reported. -/
theorem unreported_marked {mark : H → ℕ} {ss : List (Step H C)}
    (hsteps : steps = ss.map (.map (Layer.marked mark))) (k : ℕ) :
    unreported steps name t k = 0 := by
  apply unreported_eq_zero
  intro i s hi hs
  rw [hsteps, List.getElem?_map] at hs
  obtain ⟨s', -, rfl⟩ := Option.map_eq_some_iff.1 hs
  have hmarked : (moment steps (t + i)).Marked mark := by
    rw [moment, hsteps, ← List.map_take]
    exact marked_empty.run _
  exact hmarked.torn_eq_nil s' name

/-- A cache that was made empty, has a recorder from then on and was never given another store, in a
run that does not use up the ids: at every moment its journal and the entries that went in erasures
which tripped tell its size, an id is there only if it was inserted once and not erased, and none is
erased twice. If all handles of a name have one trigger, the journal alone tells the size. -/
theorem journal_accounts (hm : (empty.run steps).1.minted < 2 ^ 63 - 1)
    (hs : steps[t]? = some s) (hmade : (moment steps t).Makes name s) {k : ℕ}
    (hrec : Recorded steps name (t + 1) k) {c : Cache H C}
    (hc : (moment steps (t + 1 + k)).caches[name]? = some c)
    (hi : c.instanceNumber = (moment steps t).instances) :
    (c.store.size : ℤ) = (journal steps name (t + 1) k).countP (·.isInsertion) -
      (journal steps name (t + 1) k).countP (·.isErasure) -
      ((journal steps name (t + 1) k).map (·.bulk)).sum - unreported steps name (t + 1) k ∧
    (∀ (mark : H → ℕ) (ss : List (Step H C)), steps = ss.map (.map (Layer.marked mark)) →
      unreported steps name (t + 1) k = 0) ∧
    (∀ id : StageId, c.store.containsId id = true →
      (journal steps name (t + 1) k).count (.insert id true) = 1 ∧
      (journal steps name (t + 1) k).count (.erase id true) = 0) ∧
    ∀ id : StageId, (journal steps name (t + 1) k).count (.erase id true) ≤ 1 := by
  have h := accountsFor_journal hm hs hmade hrec hc hi
  refine ⟨?_, fun mark ss hsteps => unreported_marked hsteps k, fun id hid => ?_, h.erased_once⟩
  · have := h.size
    omega
  · rw [Store.containsId, Std.ExtTreeMap.contains_eq_isSome_getElem?] at hid
    obtain ⟨e, he⟩ := Option.isSome_iff_exists.1 hid
    exact h.held he

end Journal

/-- The recorder of the torn run is told of two insertions and of nothing else. -/
theorem journal_accounts_tornRun : (empty.run tornRun).1.minted < 2 ^ 63 - 1 ∧
    Recorded tornRun "a" 3 5 ∧
    ∃ c : Cache ℕ ℕ, (moment tornRun 8).caches["a"]? = some c ∧
      (c.store.size : ℤ) = (journal tornRun "a" 3 5).countP (·.isInsertion) -
        (journal tornRun "a" 3 5).countP (·.isErasure) -
        ((journal tornRun "a" 3 5).map (·.bulk)).sum - unreported tornRun "a" 3 5 := by
  have hm : (empty.run tornRun).1.minted < 2 ^ 63 - 1 := by cbv
  have hrec : Recorded tornRun "a" 3 5 := by
    constructor
    · intro i s hi hs other
      interval_cases i <;> cases hs <;> simp [Step.TakesOver]
    · intro i s hi hs hreq
      interval_cases i
      · cases hs
        cases hreq
      all_goals exact (Option.any_eq_true _ _).1 (by cbv)
  have hsome : ((moment tornRun 8).caches["a"]?.any (·.instanceNumber = 0)) = true := by cbv
  obtain ⟨c, hc, hi⟩ := (Option.any_eq_true _ _).1 hsome
  have h := journal_accounts hm (t := 2) rfl (.inl rfl) hrec hc (of_decide_eq_true hi)
  exact ⟨hm, hrec, c, hc, h.1⟩

/-- The cache is down to one entry, and its journal makes it two. -/
theorem journal_short : (moment tornRun 8).caches["a"]?.map (·.store.size) = some 1 ∧
    (journal tornRun "a" 3 5).countP (·.isInsertion) = 2 ∧
    (journal tornRun "a" 3 5).countP (·.isErasure) = 0 ∧
    ((journal tornRun "a" 3 5).map (·.bulk)).sum = 0 := by
  refine ⟨?_, ?_, ?_, ?_⟩
  · cbv
  · cbv
  · cbv
  · cbv

end World

end SharedStages
