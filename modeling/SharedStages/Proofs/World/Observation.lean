import SharedStages.Proofs.Cache.Exchange
import SharedStages.Proofs.World.Reach

/-! Observers have no part in what they see: a world where one observer stands in for another goes
the same way. What they see is one event for each operation that answers, and nothing else. -/

namespace SharedStages

variable {H C : Type} [Ord H]

/-- `a` is `b`, or the observer that stands in for it. -/
def Observer.StandsFor (a b new old : Observer) : Prop := a = b ∨ a = new ∧ b = old

/-- The caches differ at most in that `new` observes the first one and `old` the second. -/
def Cache.Alike (new old : Observer) (c d : Cache H C) : Prop :=
  ∃ observer, observer.StandsFor d.observer new old ∧ c = d.observedBy observer

theorem Cache.alike_refl {new old : Observer} (c : Cache H C) : c.Alike new old c :=
  ⟨c.observer, .inl rfl, rfl⟩

namespace World

/-- The worlds differ at most in that `new` observes caches in the first one that `old` observes in
the second. -/
structure Alike (new old : Observer) (v w : World H C) : Prop where
  ambient : v.toAmbient = w.toAmbient
  held : v.held = w.held
  ledger : v.ledger = w.ledger
  instances : v.instances = w.instances
  journals : v.journals = w.journals
  caches (name : String) : Option.Rel (Cache.Alike new old) v.caches[name]? w.caches[name]?

/-- The outcomes of a step in worlds that are alike; the deliveries may differ. -/
structure Agree (new old : Observer) (x y : World H C × Report H C) : Prop where
  world : x.1.Alike new old y.1
  answer : x.2.answer = y.2.answer
  destroyed : x.2.destroyed = y.2.destroyed

namespace Alike

variable {new old : Observer} {v w : World H C}

theorem insert (h : v.Alike new old w) (name : String) {c d : Cache H C}
    (hcd : c.Alike new old d) : Alike new old { v with caches := v.caches.insert name c }
      { w with caches := w.caches.insert name d } where
  ambient := h.ambient
  held := h.held
  ledger := h.ledger
  instances := h.instances
  journals := h.journals
  caches other := by
    simp only [Std.ExtTreeMap.getElem?_insert]
    split_ifs
    · exact .some hcd
    · exact h.caches other

/-- One cache gets another observer. -/
theorem observedBy {name : String} {c : Cache H C} (hc : w.caches[name]? = some c)
    (new : Observer) :
    Alike new c.observer { w with caches := w.caches.insert name (c.observedBy new) } w where
  ambient := rfl
  held := rfl
  ledger := rfl
  instances := rfl
  journals := rfl
  caches other := by
    simp only [Std.ExtTreeMap.getElem?_insert]
    split_ifs with hn
    · rw [← Std.LawfulEqOrd.eq_of_compare hn, hc]
      exact .some ⟨new, .inr ⟨rfl, rfl⟩, rfl⟩
    · cases w.caches[other]? with
      | none => exact .none
      | some d => exact .some d.alike_refl

theorem erase (h : v.Alike new old w) (name : String) :
    Alike new old { v with caches := v.caches.erase name }
      { w with caches := w.caches.erase name } where
  ambient := h.ambient
  held := h.held
  ledger := h.ledger
  instances := h.instances
  journals := h.journals
  caches other := by
    simp only [Std.ExtTreeMap.getElem?_erase]
    split_ifs
    · exact .none
    · exact h.caches other

theorem settle (h : v.Alike new old w) (gained lost : List Stage) (answer : Answer H C)
    (ds ds' : List Delivery) : Agree new old (v.settle gained lost answer ds)
      (w.settle gained lost answer ds') := by
  unfold World.settle
  rw [h.ledger]
  exact ⟨⟨h.ambient, h.held, rfl, h.instances, h.journals, h.caches⟩, rfl, rfl⟩

theorem reply (h : v.Alike new old w) (answer : Answer H C) :
    Agree new old (v.reply answer) (w.reply answer) :=
  ⟨h, rfl, rfl⟩

/-- A name has caches that are alike, or none in either world. -/
theorem find (h : v.Alike new old w) (name : String) :
    v.caches[name]? = none ∧ w.caches[name]? = none ∨
    ∃ d observer, observer.StandsFor d.observer new old ∧
      v.caches[name]? = some (d.observedBy observer) ∧ w.caches[name]? = some d := by
  have hrel := h.caches name
  generalize v.caches[name]? = a at hrel ⊢
  generalize w.caches[name]? = b at hrel ⊢
  cases hrel with
  | none => exact .inl ⟨rfl, rfl⟩
  | some hcd =>
    obtain ⟨observer, ho, rfl⟩ := hcd
    exact .inr ⟨_, observer, ho, rfl, rfl⟩

theorem install (h : v.Alike new old w) (name : String) {c d : Cache H C}
    (hcd : c.Alike new old d) (gained : List Stage) (answer : Answer H C) :
    Agree new old (v.install name c gained answer) (w.install name d gained answer) := by
  have hlost : (v.caches[name]?.map (·.store.stages)).getD [] =
      (w.caches[name]?.map (·.store.stages)).getD [] := by
    rcases h.find name with ⟨hv, hw⟩ | ⟨d, o, -, hv, hw⟩
    · rw [hv, hw]
    · rw [hv, hw]
      rfl
  unfold World.install
  rw [hlost]
  refine settle ?_ _ _ _ _ _
  have hi := h.insert name hcd
  exact ⟨hi.ambient, hi.held, hi.ledger, by rw [h.instances], hi.journals, hi.caches⟩

theorem create (h : v.Alike new old w) (handle : Handle) (p : Profile (Layer H) C) :
    Agree new old (v.create handle p) (w.create handle p) := by
  unfold World.create
  rw [h.held, h.ledger]
  refine settle ?_ _ _ _ _ _
  exact ⟨h.ambient, rfl, rfl, h.instances, h.journals, h.caches⟩

theorem keep (h : v.Alike new old w) (label : String) :
    Agree new old (v.keep label) (w.keep label) := by
  unfold World.keep
  rw [h.held]
  cases w.held[(none : Handle)]? with
  | none => exact h.reply _
  | some stage =>
    refine settle ?_ _ _ _ _ _
    exact ⟨h.ambient, rfl, h.ledger, h.instances, h.journals, h.caches⟩

theorem release (h : v.Alike new old w) (handle : Handle) :
    Agree new old (v.release handle) (w.release handle) := by
  unfold World.release
  rw [h.held]
  cases w.held[handle]? with
  | none => exact h.reply _
  | some stage =>
    refine settle ?_ _ _ _ _ _
    exact ⟨h.ambient, rfl, h.ledger, h.instances, h.journals, h.caches⟩

theorem configure (h : v.Alike new old w) (name : String) (config : Config) :
    Agree new old (v.configure name config) (w.configure name config) := by
  unfold World.configure
  rw [h.instances]
  cases Cache.ofConfig (H := H) (C := C) config w.instances with
  | ok c => exact h.install name c.alike_refl [] _
  | error fault => exact h.reply _

theorem observe (h : v.Alike new old w) (name : String) (watch : Watch) :
    Agree new old (v.observe name watch) (w.observe name watch) := by
  unfold World.observe
  have hobserver : v.observer watch = w.observer watch := by
    cases watch <;> simp only [World.observer, h.journals]
  rcases h.find name with ⟨hv, hw⟩ | ⟨d, o, ho, hv, hw⟩
  · rw [hv, hw]
    exact h.reply _
  · rw [hv, hw, hobserver]
    have hi := h.insert name (d.observedBy (w.observer watch)).alike_refl
    exact ⟨⟨hi.ambient, hi.held, hi.ledger, hi.instances, congrArg (· + 1) h.journals,
      hi.caches⟩, rfl, rfl⟩

theorem rename (h : v.Alike new old w) (name text : String) :
    Agree new old (v.rename name text) (w.rename name text) := by
  unfold World.rename
  rcases h.find name with ⟨hv, hw⟩ | ⟨d, o, ho, hv, hw⟩
  · rw [hv, hw]
    exact h.reply _
  · rw [hv, hw]
    simp only [Cache.rename, Cache.observedBy]
    cases Config.checkName text with
    | ok u =>
      have hd : Cache.Alike new old ({ d with name := text }.observedBy o)
          { d with name := text } := ⟨o, ho, rfl⟩
      exact (h.insert name hd).reply _
    | error fault => exact h.reply _

theorem swap (h : v.Alike new old w) (name other : String) :
    Agree new old (v.swap name other) (w.swap name other) := by
  unfold World.swap
  rcases h.find name with ⟨hv, hw⟩ | ⟨c, o, ho, hv, hw⟩
  · rw [hv, hw]
    exact h.reply _
  rcases h.find other with ⟨hv', hw'⟩ | ⟨d, o', ho', hv', hw'⟩
  · rw [hv, hw, hv', hw']
    exact h.reply _
  rw [hv, hw, hv', hw']
  have hc : Cache.Alike new old ((c.swap d).1.observedBy o) (c.swap d).1 := ⟨o, ho, rfl⟩
  have hd : Cache.Alike new old ((c.swap d).2.observedBy o') (c.swap d).2 := ⟨o', ho', rfl⟩
  exact ((h.insert name hc).insert other hd).reply _

theorem discard (h : v.Alike new old w) (name : String) :
    Agree new old (v.discard name) (w.discard name) := by
  unfold World.discard
  rcases h.find name with ⟨hv, hw⟩ | ⟨c, o, -, hv, hw⟩
  · rw [hv, hw]
    exact h.reply _
  · rw [hv, hw]
    exact (h.erase name).settle _ _ _ _ _

theorem ask (h : v.Alike new old w) (name : String) (q : Question Handle) :
    Agree new old (v.ask name q) (w.ask name q) := by
  unfold World.ask
  rw [h.held]
  rcases h.find name with ⟨hv, hw⟩ | ⟨d, o, -, hv, hw⟩
  · rw [hv, hw]
    exact h.reply _
  · rw [hv, hw]
    cases q.resolve (w.held[·]?) with
    | none => exact h.reply _
    | some q =>
      have hask : (d.observedBy o).ask q = d.ask q := by cases q <;> rfl
      simp only [hask]
      exact h.reply _

theorem profile? (h : v.Alike new old w) (handle : Handle) :
    v.profile? handle = w.profile? handle := by
  unfold World.profile?
  rw [h.held, h.ledger]

/-- A request does and leaves the same, whoever observes the cache. -/
theorem absorb (h : v.Alike new old w) (name : String) {α : Type} {d : Cache H C}
    {observer : Observer} (ho : observer.StandsFor d.observer new old) (work : Work H C α)
    (report report' : α → List Delivery) :
    Alike new old (v.absorb name ((d.observedBy observer).run v.toAmbient work report))
        (w.absorb name (d.run w.toAmbient work report')) ∧
      ((d.observedBy observer).run v.toAmbient work report).answer =
        (d.run w.toAmbient work report').answer ∧
      ((d.observedBy observer).run v.toAmbient work report).gained =
        (d.run w.toAmbient work report').gained ∧
      ((d.observedBy observer).run v.toAmbient work report).lost =
        (d.run w.toAmbient work report').lost := by
  rw [h.ambient]
  have hcache (store : Store H C) :
      Cache.Alike new old ({ d with store }.observedBy observer) { d with store } :=
    ⟨observer, ho, rfl⟩
  simp only [Cache.run, Cache.observedBy]
  cases EStateM.run work { w.toAmbient with store := d.store, gained := [], lost := [] } with
  | ok a b =>
    refine ⟨?_, rfl, rfl, rfl⟩
    have hi := h.insert name (hcache b.store)
    exact ⟨rfl, hi.held, hi.ledger, hi.instances, hi.journals, hi.caches⟩
  | error l b =>
    refine ⟨?_, rfl, rfl, rfl⟩
    have hi := h.insert name (hcache b.store)
    exact ⟨rfl, hi.held, hi.ledger, hi.instances, hi.journals, hi.caches⟩

variable [Std.TransOrd H]

theorem copy (h : v.Alike new old w) (name target : String) :
    Agree new old (v.copy name target) (w.copy name target) := by
  unfold World.copy
  rcases h.find name with ⟨hv, hw⟩ | ⟨d, o, ho, hv, hw⟩
  · rw [hv, hw]
    exact h.reply _
  · rw [hv, hw]
    obtain ⟨ha, hanswer, hgained, hlost⟩ :=
      h.absorb name ho Store.copy (fun _ => []) (fun _ => [])
    simp only [Cache.copyStore, hanswer, hgained, hlost]
    cases (d.run w.toAmbient Store.copy fun _ => []).answer with
    | ok store =>
      have hcopy (k : ℕ) : Cache.Alike new old ((d.observedBy o).copy store k) (d.copy store k) :=
        ⟨o, ho, rfl⟩
      simp only [ha.instances]
      exact ha.install target (hcopy _) _ _
    | error layer => exact ha.settle _ _ _ _ _

theorem copyFrom (h : v.Alike new old w) (name source : String) :
    Agree new old (v.copyFrom name source) (w.copyFrom name source) := by
  unfold World.copyFrom
  rcases h.find name with ⟨hv, hw⟩ | ⟨c, o', -, hv, hw⟩
  · rw [hv, hw]
    exact h.reply _
  rcases h.find source with ⟨hv', hw'⟩ | ⟨d, o, ho, hv', hw'⟩
  · rw [hv, hw, hv', hw']
    exact h.reply _
  rw [hv, hw, hv', hw']
  obtain ⟨ha, hanswer, hgained, hlost⟩ :=
    h.absorb source ho Store.copy (fun _ => []) (fun _ => [])
  simp only [Cache.copyStore, hanswer, hgained, hlost]
  cases (d.run w.toAmbient Store.copy fun _ => []).answer with
  | ok store =>
    have hcopy : Cache.Alike new old ((c.observedBy o').copyFrom (d.observedBy o) store)
        (c.copyFrom d store) := ⟨o, ho, rfl⟩
    exact settle (ha.insert name hcopy) _ _ _ _ _
  | error layer => exact ha.settle _ _ _ _ _

variable [DecidableEq H] [DecidableEq C]

theorem perform (h : v.Alike new old w) (name : String) (op : Operation Handle (Layer H) C) :
    Agree new old (v.perform name op) (w.perform name op) := by
  unfold World.perform
  rw [h.held]
  rcases h.find name with ⟨hv, hw⟩ | ⟨d, o, ho, hv, hw⟩
  · rw [hv, hw]
    exact h.reply _
  · rw [hv, hw]
    cases op.resolve (w.held[·]?) with
    | none => exact h.reply _
    | some op =>
      obtain ⟨ha, hanswer, hgained, hlost⟩ := h.absorb name ho op.work
        (fun r => (d.observedBy o).deliver r.2) (fun r => d.deliver r.2)
      simp only [performOn, Cache.perform, hanswer, hgained, hlost]
      exact ha.settle _ _ _ _ _

theorem insertKeyed (h : v.Alike new old w) (name : String) (handle : Handle) :
    Agree new old (v.insertKeyed name handle) (w.insertKeyed name handle) := by
  unfold World.insertKeyed
  rw [h.profile?]
  cases (w.profile? handle).bind (·.key) with
  | none => exact h.reply _
  | some key => exact h.perform name _

/-- Who observes the caches is of no consequence to a step. -/
theorem step (h : v.Alike new old w) (s : Step (Layer H) C) :
    Agree new old (v.step s) (w.step s) := by
  cases s with
  | create handle label key => exact h.create handle _
  | keep label => exact h.keep label
  | release handle => exact h.release handle
  | shares handle =>
    simp only [World.step, h.held, h.ledger]
    exact h.reply _
  | profile handle =>
    simp only [World.step, h.profile?]
    exact h.reply _
  | new name =>
    simp only [World.step, h.instances]
    exact h.install name (Cache.alike_refl _) [] _
  | configure name config => exact h.configure name config
  | observe name watch => exact h.observe name watch
  | copy name target => exact h.copy name target
  | copyFrom name source => exact h.copyFrom name source
  | swap name other => exact h.swap name other
  | discard name => exact h.discard name
  | perform name op => exact h.perform name op
  | insertKeyed name handle => exact h.insertKeyed name handle
  | ask name q => exact h.ask name q
  | rename name text => exact h.rename name text
  | arm layer =>
    refine reply ?_ _
    exact ⟨by rw [h.ambient], h.held, h.ledger, h.instances, h.journals, h.caches⟩
  | destroyed =>
    simp only [World.step, h.ledger]
    exact h.reply _

/-- Nor is it to a run. -/
theorem run (h : v.Alike new old w) (steps : List (Step (Layer H) C)) :
    (v.run steps).1.Alike new old (w.run steps).1 ∧
    (v.run steps).2.map (fun r => (r.answer, r.destroyed)) =
      (w.run steps).2.map fun r => (r.answer, r.destroyed) := by
  induction steps generalizing v w with
  | nil => exact ⟨h, rfl⟩
  | cons s steps ih =>
    have hs := h.step s
    obtain ⟨hw, hr⟩ := ih hs.world
    simp only [run_cons, List.map_cons, hs.answer, hs.destroyed, hr]
    exact ⟨hw, trivial⟩

end Alike

variable [Std.TransOrd H] [DecidableEq H] [DecidableEq C] {w : World H C} {s : Step (Layer H) C}

/-- Only operations on caches that are there are reported. -/
theorem deliveries_eq_nil (h : ∀ (name : String) (op : Operation Stage (Layer H) C) (c : Cache H C),
    w.operation? s = some (name, op) → w.caches[name]? ≠ some c) :
    (w.step s).2.deliveries = [] := by
  have ht := step_transition w s
  generalize w.step s = x at ht
  cases ht with
  | perform hs hc hl => exact absurd hc (h _ _ _ hs)
  | _ => rfl

/-- A step that trips is not reported. -/
theorem deliveries_of_tripped {layer : H} (h : (w.step s).2.answer = .tripped layer) :
    (w.step s).2.deliveries = [] := by
  have ht := step_transition w s
  generalize w.step s = x at ht h
  cases ht with
  | perform hs hc hl => cases h
  | _ => rfl

/-- What is delivered goes to the observer of a cache under its label. -/
theorem mem_deliveries {d : Delivery} (h : d ∈ (w.step s).2.deliveries) :
    ∃ (name : String) (op : Operation Stage (Layer H) C) (c : Cache H C),
      w.operation? s = some (name, op) ∧ w.caches[name]? = some c ∧
        d.observer = c.observer ∧ d.label = c.label := by
  have ht := step_transition w s
  generalize w.step s = x at ht h
  cases ht with
  | @perform _ name op c hs hc hl =>
    have hd : d ∈ c.deliver (op.result c.store w.minted).2 := h
    unfold Cache.deliver at hd
    split_ifs at hd
    · rw [List.mem_singleton.1 hd]
      exact ⟨name, op, c, hs, hc, rfl, rfl⟩
    · cases hd
  | _ => cases h

/-- An operation that does not trip is reported to the observer of its cache, if that wants it. -/
theorem deliveries_of_operation [Std.LawfulEqOrd H] (hw : w.Sound) (hm : w.minted < 2 ^ 63 - 1)
    {name : String} {op : Operation Stage (Layer H) C} {c : Cache H C}
    (hs : w.operation? s = some (name, op)) (hc : w.caches[name]? = some c)
    (hok : ∀ layer, (w.step s).2.answer ≠ .tripped layer) :
    ∃ r event c', (w.step s).2.answer = .reply r ∧ (w.step s).1.caches[name]? = some c' ∧
      event.Describes c.store c'.store op r ∧ (w.step s).2.deliveries = c.deliver event := by
  rw [step_of_operation? hs hc, performOn_eq] at hok ⊢
  cases hl : (op.layers c.store).find? (w.armed.contains ·) with
  | some layer =>
    rw [hl] at hok
    exact absurd rfl (hok layer.name)
  | none =>
    exact ⟨_, _, _, rfl, Std.ExtTreeMap.getElem?_insert_self,
      op.describes_result (hw hc) hm, rfl⟩

/-- In every world that a run led to, whoever observes a cache: in the place of the observer, any
other one makes no difference to what follows, its own presence apart. An operation that does not
trip is reported once, under the name of its cache or else under the label of the instance, if the
observer wants it, and the event tells what was done. Nothing else is reported. -/
theorem observation_exact [Std.LawfulEqOrd H] (steps : List (Step (Layer H) C)) {w : World H C}
    (hw : w = (empty.run steps).1) :
    (∀ (name : String) (c : Cache H C) (observer : Observer), w.caches[name]? = some c →
      ∀ (v : World H C), v = { w with caches := w.caches.insert name (c.observedBy observer) } →
      ∀ later : List (Step (Layer H) C), (v.run later).1.Alike observer c.observer (w.run later).1 ∧
        (v.run later).2.map (fun r => (r.answer, r.destroyed)) =
          (w.run later).2.map fun r => (r.answer, r.destroyed)) ∧
    (∀ (s : Step (Layer H) C) (name : String) (op : Operation Stage (Layer H) C) (c : Cache H C),
      w.operation? s = some (name, op) → w.caches[name]? = some c → w.minted < 2 ^ 63 - 1 →
      (∀ layer, (w.step s).2.answer ≠ .tripped layer) →
      ∃ r event c', (w.step s).2.answer = .reply r ∧ (w.step s).1.caches[name]? = some c' ∧
        event.Describes c.store c'.store op r ∧
        (w.step s).2.deliveries = if c.observer.isEnabled then
          [⟨c.observer, if c.name = "" then .fallback c.instanceNumber else .named c.name, event⟩]
          else []) ∧
    (∀ s : Step (Layer H) C, (∀ (name : String) (op : Operation Stage (Layer H) C) (c : Cache H C),
        w.operation? s = some (name, op) → w.caches[name]? ≠ some c) ∨
        (∃ layer, (w.step s).2.answer = .tripped layer) →
      (w.step s).2.deliveries = []) := by
  refine ⟨?_, fun s name op c hs hc hm hok => ?_, ?_⟩
  · rintro name c observer hc v rfl later
    exact (Alike.observedBy hc observer).run later
  · have hsound : w.Sound := hw ▸ sound_empty.run steps (hw ▸ hm)
    exact deliveries_of_operation hsound hm hs hc hok
  · rintro s (h | ⟨layer, h⟩)
    · exact deliveries_eq_nil h
    · exact deliveries_of_tripped h

/-- The two entries of `b` go by a query, and its recorder is told once that they were two. -/
theorem observation_exact_eraseAll : ∃ (w : World ℕ ℕ) (c c' : Cache ℕ ℕ),
    w = (empty.run (sampleRun ++ [.observe "b" .record])).1 ∧ w.minted < 2 ^ 63 - 1 ∧
    w.caches["b"]? = some c ∧ c.observer.isEnabled = true ∧
    (w.step (.perform "b" (.eraseAll (.ofRoot (.shared 1))))).2.answer = .reply (.count 2) ∧
    (w.step (.perform "b" (.eraseAll (.ofRoot (.shared 1))))).1.caches["b"]? = some c' ∧
    Event.Describes c.store c'.store (.eraseAll (.ofRoot (.shared 1))) (.count 2)
      (.eraseMatching 2) ∧
    (w.step (.perform "b" (.eraseAll (.ofRoot (.shared 1))))).2.deliveries =
      [⟨.recorder 0, .fallback c.instanceNumber, .eraseMatching 2⟩] := by
  obtain ⟨w, hw⟩ : ∃ w : World ℕ ℕ,
      w = (empty.run (sampleRun ++ [.observe "b" .record])).1 := ⟨_, rfl⟩
  have hm : w.minted < 2 ^ 63 - 1 := by
    rw [hw]
    cbv
  have hwatched : w.caches["b"]?.any (fun c => c.observer = .recorder 0 ∧ c.name = "") = true := by
    rw [hw]
    cbv
  have hanswer : (w.step (.perform "b" (.eraseAll (.ofRoot (.shared 1))))).2.answer =
      .reply (.count 2) := by
    rw [hw]
    cbv
  have hok (layer : ℕ) : (w.step (.perform "b" (.eraseAll (.ofRoot (.shared 1))))).2.answer ≠
      .tripped layer := by
    intro htrip
    rw [hanswer] at htrip
    cases htrip
  obtain ⟨c, hc, hobserver⟩ := (Option.any_eq_true _ _).1 hwatched
  obtain ⟨hobserver, hname⟩ := of_decide_eq_true hobserver
  obtain ⟨r, event, c', hr, hc', hevent, hdeliveries⟩ := (observation_exact _ hw).2.1
    (.perform "b" (.eraseAll (.ofRoot (.shared 1)))) "b" (.eraseAll (.ofRoot (.shared 1))) c rfl hc
    hm hok
  rw [hanswer] at hr
  cases hr
  have henabled : c.observer.isEnabled = true := by
    rw [hobserver]
    rfl
  rw [if_pos henabled, if_pos hname, hobserver] at hdeliveries
  cases hevent with
  | eraseAll hcount =>
    exact ⟨w, c, c', hw, hm, hc, henabled, hanswer, hc', .eraseAll hcount, hdeliveries⟩

end World

end SharedStages
