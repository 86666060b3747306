import SharedStages.Proofs.World.Marked

/-! What a step that trips leaves. The handle is disarmed, and an id is gone if it was an insertion;
nothing else is done, unless it was an erasure by a query. That takes the entries out one by one,
each by its own handle of the root, and has taken out those before the one it trips on. Where all
handles of a name share their trigger, it trips on the handle of the query or not at all. -/

namespace SharedStages

/-- Whether an operation may mint an id. -/
def Operation.isInsertion {σ H C : Type} : Operation σ H C → Bool
  | insert _ _ => true
  | _ => false

theorem Operation.isInsertion_resolve {σ τ H C : Type} {f : σ → Option τ} {p : Operation σ H C}
    {q : Operation τ H C} (h : p.resolve f = some q) : q.isInsertion = p.isInsertion := by
  cases p with
  | insert stage key =>
    obtain ⟨s, -, rfl⟩ := Option.map_eq_some_iff.1 h
    rfl
  | eraseStage stage =>
    obtain ⟨s, -, rfl⟩ := Option.map_eq_some_iff.1 h
    rfl
  | _ =>
    cases h
    rfl

variable {H C : Type}

def Step.isInsertion : Step H C → Bool
  | .perform _ op => op.isInsertion
  | .insertKeyed _ _ => true
  | _ => false

theorem Step.isInsertion_map {L : Type} (f : H → L) (s : Step H C) :
    (s.map f).isInsertion = s.isInsertion := by
  cases s with
  | perform cache op => cases op <;> rfl
  | _ => rfl

variable [Ord H]

/-- Only the insertion of an absent stage touches its root, so each one that trips loses an id. -/
theorem Operation.spent_of_layers_ne [Std.TransOrd H] [DecidableEq H] [DecidableEq C]
    {op : Operation Stage (Layer H) C} {s : Store H C} (h : op.layers s ≠ []) :
    op.spent s = if op.isInsertion then 1 else 0 := by
  cases op with
  | insert stage key =>
    simp only [layers, spent, isInsertion] at h ⊢
    split_ifs at h ⊢
    · exact absurd rfl h
    · rfl
  | _ => rfl

/-- What an erasure by a query has removed when a layer trips: nothing if it is the handle of the
query, else the matches before the first one that has an armed handle. -/
inductive Store.Torn [Std.TransOrd H] [DecidableEq H] [DecidableEq C] (s : Store H C)
    (armed : Std.ExtTreeSet (Layer H)) (q : Query (Layer H) C) : Layer H → List StageId → Prop where
  | query : q.root ∈ armed → Torn s armed q q.root []
  | entry {gone rest : List StageId} {id : StageId} {e : Entry H C} : q.root ∉ armed →
    s.matching q.names = gone ++ id :: rest →
    (∀ i ∈ gone, ∀ f : Entry H C, s.entries[i]? = some f → f.handles.root ∉ armed) →
    s.entries[id]? = some e → e.handles.root ∈ armed → Torn s armed q e.handles.root gone

theorem Operation.torn_progress [Std.TransOrd H] [DecidableEq H] [DecidableEq C] {s : Store H C}
    {armed : Std.ExtTreeSet (Layer H)} {q : Query (Layer H) C} {layer : Layer H}
    (h : (Operation.layers s (.eraseAll q)).find? (armed.contains ·) = some layer) :
    s.Torn armed q layer (Operation.progress s armed (.eraseAll q)) := by
  have harmed : layer ∈ armed := Std.ExtTreeSet.mem_iff_contains.2 (List.find?_some h)
  simp only [layers, progress] at h ⊢
  split_ifs at h with hempty
  · cases h
  · rw [List.find?_cons] at h
    cases hq : armed.contains q.root with
    | true =>
      simp only [hq] at h
      cases h
      exact .query harmed
    | false =>
      simp only [hq] at h
      obtain ⟨id, e, rest, hids, he, rfl⟩ := Store.exists_of_find?_armed h
      have hq' : q.root ∉ armed := by
        rw [Std.ExtTreeSet.mem_iff_contains, hq]
        exact Bool.false_ne_true
      refine .entry hq' hids (fun i hi f hf => ?_) he harmed
      rw [Std.ExtTreeSet.mem_iff_contains, Store.contains_of_mem_untripped hi hf]
      exact Bool.false_ne_true

/-- Where all handles of a name are one, the handle of a query trips before anything is erased. -/
theorem Operation.Marked.progress_eq_nil [Std.TransOrd H] [DecidableEq H] [DecidableEq C]
    {mark : H → ℕ} {s : Store H C} {op : Operation Stage (Layer H) C} (h : s.Marked mark)
    (hop : op.Marked mark) {armed : Std.ExtTreeSet (Layer H)} {layer : Layer H}
    (hl : (op.layers s).find? (armed.contains ·) = some layer) : op.progress s armed = [] := by
  obtain ⟨p, rfl⟩ := hop
  cases p with
  | eraseAll q =>
    have htorn : s.Torn armed (q.map (Layer.marked mark)) layer
        ((Operation.eraseAll q).map (Layer.marked mark) |>.progress s armed) := torn_progress hl
    generalize ((Operation.eraseAll q).map (Layer.marked mark) |>.progress s armed) = gone
      at htorn ⊢
    cases htorn with
    | query hroot => rfl
    | @entry gone rest id e hroot hids hgone he he' =>
      have hid : id ∈ s.matching (q.map (Layer.marked mark)).names := by
        rw [hids]
        exact List.mem_append_right _ List.mem_cons_self
      rw [h.root_of_admits rfl he (Store.admits_of_mem_matching hid he)] at he'
      exact absurd he' hroot
  | _ => rfl

namespace World

theorem isInsertion_of_operation? {w : World H C} {s : Step (Layer H) C} {cache : String}
    {op : Operation Stage (Layer H) C} (hs : w.operation? s = some (cache, op)) :
    s.isInsertion = op.isInsertion := by
  cases s with
  | perform name p =>
    obtain ⟨q, hq, h⟩ := Option.map_eq_some_iff.1 hs
    cases h
    exact (Operation.isInsertion_resolve hq).symm
  | insertKeyed name handle =>
    obtain ⟨key, -, hs⟩ := Option.bind_eq_some_iff.1 hs
    obtain ⟨stage, -, hs⟩ := Option.bind_eq_some_iff.1 hs
    cases hs
    rfl
  | _ => cases hs

/-- Only a step that asks for an erasure by a query performs one. -/
theorem eq_of_operation?_eraseAll {w : World H C} {s : Step (Layer H) C} {cache : String}
    {q : Query (Layer H) C} (hs : w.operation? s = some (cache, .eraseAll q)) :
    s = .perform cache (.eraseAll q) := by
  cases s with
  | perform name p =>
    obtain ⟨op, hop, h⟩ := Option.map_eq_some_iff.1 hs
    cases h
    cases p with
    | insert stage key =>
      obtain ⟨t, -, h⟩ := Option.map_eq_some_iff.1 hop
      cases h
    | eraseStage stage =>
      obtain ⟨t, -, h⟩ := Option.map_eq_some_iff.1 hop
      cases h
    | eraseAll q' =>
      cases hop
      rfl
    | _ => cases hop
  | insertKeyed name handle =>
    obtain ⟨key, -, hs⟩ := Option.bind_eq_some_iff.1 hs
    obtain ⟨stage, -, hs⟩ := Option.bind_eq_some_iff.1 hs
    cases hs
  | _ => cases hs

variable {w : World H C}

theorem backed_settle (h : w.ledger.Backed) (gained lost : List Stage) (answer : Answer H C)
    (ds : List Delivery) : (w.settle gained lost answer ds).1.ledger.Backed :=
  (h.retainAll gained).releaseAll lost

/-- Shares taken and given back leave the world as it is, and destroy nothing. -/
theorem settle_self (h : w.ledger.Backed) (taken : List Stage) (answer : Answer H C)
    (ds : List Delivery) : w.settle taken taken answer ds = (w, ⟨answer, ds, []⟩) := by
  unfold settle
  rw [Ledger.releaseAll_retainAll h]

variable [Std.TransOrd H]

theorem settle_trip (h : w.ledger.Backed) (layer : Layer H) (k : ℕ) (taken : List Stage) :
    { w with armed := w.armed.erase layer, minted := w.minted + k }.settle taken taken
      (Answer.tripped (C := C) layer.name) [] =
    ({ w with armed := w.armed.erase layer, minted := w.minted + k },
      ⟨.tripped layer.name, [], []⟩) := by
  apply settle_self
  exact h

variable [DecidableEq H] [DecidableEq C]

theorem backed_step (s : Step (Layer H) C) (h : w.ledger.Backed) : (w.step s).1.ledger.Backed := by
  have ht := step_transition w s
  generalize w.step s = x at ht
  cases ht with
  | idle hne hl => exact h
  | arm => exact h
  | create => exact ((h.create _).retainAll _).releaseAll _
  | observe hc => exact h
  | rename hc hr => exact h
  | swap hc hd => exact h
  | _ =>
    apply backed_settle
    exact h

theorem backed_run (steps : List (Step (Layer H) C)) :
    ((empty : World H C).run steps).1.ledger.Backed :=
  run_induction (P := fun v => v.ledger.Backed) (fun _ s h => backed_step s h)
    Ledger.backed_empty steps

/-- A step trips on the first armed one of its handles, or has none that is armed. -/
theorem step_trips_or_not (w : World H C) (s : Step (Layer H) C) :
    (∃ layer, (w.layers s).find? (w.armed.contains ·) = some layer ∧
      (w.step s).2.answer = .tripped layer.name) ∨
    ((w.layers s).find? (w.armed.contains ·) = none ∧
      ∀ name, (w.step s).2.answer ≠ .tripped name) := by
  have ht := step_transition w s
  generalize w.step s = x at ht
  cases ht with
  | idle hne hl =>
    rw [hl]
    exact .inr ⟨rfl, hne⟩
  | copy hc hl =>
    rw [layers_copy hc]
    exact .inr ⟨hl, fun _ h => by cases h⟩
  | copyTrips hc hl =>
    rw [layers_copy hc]
    exact .inl ⟨_, hl, rfl⟩
  | copyFrom hc hd hl =>
    rw [layers_copyFrom hc hd]
    exact .inr ⟨hl, fun _ h => by cases h⟩
  | copyFromTrips hc hd hl =>
    rw [layers_copyFrom hc hd]
    exact .inl ⟨_, hl, rfl⟩
  | perform hs hc hl =>
    rw [layers_of_operation? hs, hc]
    exact .inr ⟨hl, fun _ h => by cases h⟩
  | performTrips hs hc hl =>
    rw [layers_of_operation? hs, hc]
    exact .inl ⟨_, hl, rfl⟩
  | _ => exact .inr ⟨rfl, fun _ h => by cases h⟩

/-- What trips is an armed handle among those that the step had to copy or hash. -/
theorem armed_of_trips {s : Step (Layer H) C} {name : H}
    (ht : (w.step s).2.answer = .tripped name) :
    ∃ layer ∈ w.armed, layer.name = name ∧ layer ∈ w.layers s ∧
      (w.layers s).find? (w.armed.contains ·) = some layer := by
  rcases w.step_trips_or_not s with ⟨layer, hl, hs⟩ | ⟨-, hne⟩
  · obtain ⟨hmem, harmed⟩ := mem_of_find?_armed hl
    rw [hs] at ht
    exact ⟨layer, harmed, Answer.tripped.inj ht, hmem, hl⟩
  · exact absurd ht (hne name)

theorem trips_iff (w : World H C) (s : Step (Layer H) C) :
    (∃ name, (w.step s).2.answer = .tripped name) ↔ ∃ layer ∈ w.layers s, layer ∈ w.armed := by
  constructor
  · rintro ⟨name, ht⟩
    obtain ⟨layer, harmed, -, hmem, -⟩ := armed_of_trips ht
    exact ⟨layer, hmem, harmed⟩
  · rintro ⟨layer, hmem, harmed⟩
    rcases w.step_trips_or_not s with ⟨l, -, hs⟩ | ⟨hnone, -⟩
    · exact ⟨l.name, hs⟩
    · rw [List.find?_eq_none] at hnone
      exact absurd (Std.ExtTreeSet.mem_iff_contains.1 harmed) (hnone layer hmem)

/-- A step that got nowhere before it tripped does nothing. -/
theorem step_of_trips (h : w.ledger.Backed) {s : Step (Layer H) C} {layer : Layer H}
    (hl : (w.layers s).find? (w.armed.contains ·) = some layer)
    (hprogress : ∀ cache op c, w.operation? s = some (cache, op) → w.caches[cache]? = some c →
      op.progress c.store w.armed = []) :
    w.step s =
      ({ w with
          armed := w.armed.erase layer
          minted := w.minted + if s.isInsertion then 1 else 0 },
        ⟨.tripped layer.name, [], []⟩) := by
  have ht := step_transition w s
  generalize w.step s = x at ht
  cases ht with
  | idle hne hnil =>
    rw [hnil] at hl
    cases hl
  | copy hc hnone =>
    rw [layers_copy hc, hnone] at hl
    cases hl
  | copyFrom hc hd hnone =>
    rw [layers_copyFrom hc hd, hnone] at hl
    cases hl
  | perform hop hc hnone =>
    rw [layers_of_operation? hop, hc, Option.map_some, Option.getD_some, hnone] at hl
    cases hl
  | @copyTrips cache target c l taken hc hl' =>
    rw [layers_copy hc, hl'] at hl
    cases hl
    exact settle_trip h layer 0 taken
  | @copyFromTrips cache source c d l taken hc hd hl' =>
    rw [layers_copyFrom hc hd, hl'] at hl
    cases hl
    exact settle_trip h layer 0 taken
  | @performTrips _ cache op c l hop hc hl' =>
    rw [layers_of_operation? hop, hc, Option.map_some, Option.getD_some, hl'] at hl
    cases hl
    -- The operation has handles to trip on, so if it inserts then a stage that is absent.
    have hne : op.layers c.store ≠ [] := by
      rintro hnil
      rw [hnil] at hl'
      cases hl'
    rw [isInsertion_of_operation? hop, ← Operation.spent_of_layers_ne hne,
      hprogress cache op c hop hc]
    simp only [List.foldl_nil, Store.stagesOf_nil, insert_eq_self hc]
    exact settle_trip h layer (op.spent c.store) []
  | _ => cases hl

/-- An erasure by a query has taken out of its cache what it got to, and gives back the shares in
that and no others. -/
theorem eraseAll_of_trips {cache : String} {q : Query (Layer H) C} {layer : Layer H}
    (hl : (w.layers (.perform cache (.eraseAll q))).find? (w.armed.contains ·) = some layer) :
    ∃ c gone, w.caches[cache]? = some c ∧ c.store.Torn w.armed q layer gone ∧
      w.step (.perform cache (.eraseAll q)) =
        { w with
          armed := w.armed.erase layer
          caches := w.caches.insert cache { c with store := gone.foldl .remove c.store } }.settle
          [] (c.store.stagesOf gone) (.tripped layer.name) [] := by
  have hs : w.operation? (.perform cache (.eraseAll q)) = some (cache, .eraseAll q) := rfl
  rw [layers_of_operation? hs] at hl
  cases hc : w.caches[cache]? with
  | none =>
    rw [hc] at hl
    cases hl
  | some c =>
    rw [hc, Option.map_some, Option.getD_some] at hl
    refine ⟨c, _, rfl, Operation.torn_progress hl, ?_⟩
    rw [step_of_operation? hs hc, performOn_eq, hl]
    rfl

/-- Then a step that trips does nothing, whichever it is. -/
theorem step_of_trips_marked [Std.LawfulEqOrd H] {mark : H → ℕ} (hw : w.Marked mark)
    (h : w.ledger.Backed) {s : Step H C} {name : H}
    (ht : (w.step (s.map (Layer.marked mark))).2.answer = .tripped name) :
    w.step (s.map (Layer.marked mark)) =
      ({ w with
          armed := w.armed.erase (.marked mark name)
          minted := w.minted + if s.isInsertion then 1 else 0 },
        ⟨.tripped name, [], []⟩) := by
  obtain ⟨layer, harmed, rfl, hmem, hl⟩ := armed_of_trips ht
  rw [← hw.layers s layer hmem, ← Step.isInsertion_map (Layer.marked mark)]
  refine step_of_trips h hl fun cache op c hop hc => ?_
  rw [layers_of_operation? hop, hc] at hl
  exact (hw.operation? hop).progress_eq_nil (hw.store hc) hl

omit [DecidableEq H] [DecidableEq C] in
/-- The copy of a store may visit the entries and the buckets in any order. If it trips, the shares
that it took by then are given back. -/
theorem copyAll_trips (h : w.ledger.Backed) {cache : String} {c : Cache H C}
    (hc : w.caches[cache]? = some c) {es : List (Entry H C)} {bs : List (Bucket H)}
    (hes : es.Perm c.store.rows) (hbs : bs.Perm c.store.byRoot.values)
    {o : Cache.Outcome H C Unit} (ho : o = c.run w.toAmbient (Store.copyAll es bs) fun _ => [])
    {layer : Layer H} (hl : o.answer = .error layer) :
    layer ∈ w.armed ∧ layer ∈ c.store.layers ∧
    (w.absorb cache o).settle o.gained o.lost (.tripped layer.name) [] =
      ({ w with armed := w.armed.erase layer }, ⟨.tripped layer.name, [], []⟩) := by
  obtain ⟨taken, ht⟩ := Store.run_copyAll es bs
    { w.toAmbient with store := c.store, gained := [], lost := [] }
  have hperm : (es.flatMap (·.layers) ++ bs.map (·.root)).Perm c.store.layers :=
    (hes.flatMap_right _).append (hbs.map _)
  unfold Cache.run at ho
  rw [ht] at ho
  cases hf : (es.flatMap (·.layers) ++ bs.map (·.root)).find? (w.armed.contains ·) with
  | none =>
    simp only [hf] at ho
    rw [ho] at hl
    cases hl
  | some l =>
    simp only [hf] at ho
    rw [ho] at hl ⊢
    cases hl
    obtain ⟨hmem, harmed⟩ := mem_of_find?_armed hf
    refine ⟨harmed, hperm.mem_iff.1 hmem, ?_⟩
    have hself := settle_trip h layer 0 taken
    simpa [absorb, insert_eq_self hc, Bench.disarm] using hself

/-- Whatever a run led to, and whatever is armed then: a step trips if and only if one of the
handles that it has to copy or hash is armed, and disarms one of these. If it is no erasure by a
query, it leaves every cache, every share and every counter as it was, destroys nothing and delivers
nothing; an insertion loses an id. An erasure by a query leaves its cache without the entries it had
taken out, and its shares in them given back; it leaves everything as it was if all handles of a
name have one trigger, like any other step. A copy trips like this in whichever order it is made. -/
theorem trip_leaves [Std.LawfulEqOrd H] (steps : List (Step (Layer H) C))
    (armed : Std.ExtTreeSet (Layer H)) {w : World H C}
    (hw : w = { (empty.run steps).1 with armed }) :
    (∀ (s : Step (Layer H) C) (name : H), (w.step s).2.answer = .tripped name →
      ∃ layer ∈ w.armed, layer.name = name ∧ layer ∈ w.layers s ∧
        ((∀ cache q, s ≠ .perform cache (.eraseAll q)) → w.step s =
          ({ w with
              armed := w.armed.erase layer
              minted := w.minted + if s.isInsertion then 1 else 0 },
            ⟨.tripped name, [], []⟩)) ∧
        (∀ cache q, s = .perform cache (.eraseAll q) → ∃ c gone, w.caches[cache]? = some c ∧
          c.store.Torn w.armed q layer gone ∧ w.step s =
            { w with
              armed := w.armed.erase layer
              caches := w.caches.insert cache
                { c with store := gone.foldl .remove c.store } }.settle
              [] (c.store.stagesOf gone) (.tripped name) [])) ∧
    (∀ s : Step (Layer H) C, (∃ name, (w.step s).2.answer = .tripped name) ↔
      ∃ layer ∈ w.layers s, layer ∈ w.armed) ∧
    (∀ (mark : H → ℕ) (ss : List (Step H C)) (s : Step H C) (name : H),
      steps = ss.map (.map (Layer.marked mark)) →
      (w.step (s.map (Layer.marked mark))).2.answer = .tripped name →
      w.step (s.map (Layer.marked mark)) =
        ({ w with
            armed := w.armed.erase (.marked mark name)
            minted := w.minted + if s.isInsertion then 1 else 0 },
          ⟨.tripped name, [], []⟩)) ∧
    (∀ (cache : String) (c : Cache H C) (es : List (Entry H C)) (bs : List (Bucket H))
      (layer : Layer H) (o : Cache.Outcome H C Unit), w.caches[cache]? = some c →
      es.Perm c.store.rows → bs.Perm c.store.byRoot.values →
      o = c.run w.toAmbient (Store.copyAll es bs) (fun _ => []) → o.answer = .error layer →
      layer ∈ w.armed ∧ layer ∈ c.store.layers ∧
      (w.absorb cache o).settle o.gained o.lost (.tripped layer.name) [] =
        ({ w with armed := w.armed.erase layer }, ⟨.tripped layer.name, [], []⟩)) := by
  have h : w.ledger.Backed := hw ▸ backed_run steps
  refine ⟨fun s name ht => ?_, w.trips_iff, fun mark ss s name hsteps ht => ?_,
    fun _ _ _ _ _ _ hc hes hbs ho hl => copyAll_trips h hc hes hbs ho hl⟩
  · obtain ⟨layer, harmed, rfl, hmem, hl⟩ := armed_of_trips ht
    refine ⟨layer, harmed, rfl, hmem, fun hs => step_of_trips h hl fun cache op c hop hc => ?_,
      fun cache q hs => ?_⟩
    · cases op with
      | eraseAll q => exact absurd (eq_of_operation?_eraseAll hop) (hs cache q)
      | _ => rfl
    · subst hs
      exact eraseAll_of_trips hl
  · have hrun : ((empty : World H C).run steps).1.Marked mark := by
      rw [hsteps]
      exact marked_empty.run ss
    have hmarked : w.Marked mark := by
      rw [hw]
      exact ⟨hrun.store, hrun.profile⟩
    exact step_of_trips_marked hmarked h ht

/-- The handle of the second entry is armed, the one of the query and that of the first are not. -/
theorem trip_leaves_tornRun : ∃ w : World ℕ ℕ,
    w = { (empty.run (tornRun.take 6)).1 with
      armed := (∅ : Std.ExtTreeSet (Layer ℕ)).insert ⟨1, 1⟩ } ∧
    (w.step (.perform "a" (.eraseAll (.ofRoot ⟨1, 2⟩)))).2.answer = .tripped 1 ∧
    ∃ c gone, w.caches["a"]? = some c ∧ c.store.Torn w.armed (.ofRoot ⟨1, 2⟩) ⟨1, 1⟩ gone ∧
      w.step (.perform "a" (.eraseAll (.ofRoot ⟨1, 2⟩))) =
        { w with
          armed := w.armed.erase ⟨1, 1⟩
          caches := w.caches.insert "a" { c with store := gone.foldl .remove c.store } }.settle
          [] (c.store.stagesOf gone) (.tripped 1) [] := by
  obtain ⟨w, hw⟩ : ∃ w : World ℕ ℕ, w = { (empty.run (tornRun.take 6)).1 with
    armed := (∅ : Std.ExtTreeSet (Layer ℕ)).insert ⟨1, 1⟩ } := ⟨_, rfl⟩
  have ht : (w.step (.perform "a" (.eraseAll (.ofRoot ⟨1, 2⟩)))).2.answer = .tripped 1 := by
    rw [hw]
    cbv
  obtain ⟨layer, harmed, -, -, -, htorn⟩ := (trip_leaves _ _ hw).1 _ _ ht
  obtain rfl : layer = ⟨1, 1⟩ := by
    rw [hw] at harmed
    rcases Std.ExtTreeSet.mem_insert.1 harmed with heq | hmem
    · exact (Std.LawfulEqOrd.eq_of_compare heq).symm
    · exact absurd hmem Std.ExtTreeSet.not_mem_empty
  exact ⟨w, hw, ht, htorn "a" (.ofRoot ⟨1, 2⟩) rfl⟩

/-- The same run with its trigger set: of two entries one is gone, with its share, though the
erasure tripped. -/
theorem eraseAll_half_done : ∃ (w : World ℕ ℕ) (x : World ℕ ℕ × Report ℕ ℕ),
    w = (empty.run (tornRun.take 7)).1 ∧
    x = w.step (.perform "a" (.eraseAll (.ofRoot ⟨1, 2⟩))) ∧ x.2.answer = .tripped 1 ∧
    w.caches["a"]?.map (·.store.entries.keys) = some [.ofSerial 0, .ofSerial 1] ∧
    x.1.caches["a"]?.map (·.store.entries.keys) = some [.ofSerial 1] ∧
    w.ledger.shares ⟨0⟩ = 2 ∧ x.1.ledger.shares ⟨0⟩ = 1 := by
  refine ⟨_, _, rfl, rfl, ?_, ?_, ?_, ?_, ?_⟩
  · cbv
  · cbv
  · cbv
  · cbv
  · cbv

end World

end SharedStages
