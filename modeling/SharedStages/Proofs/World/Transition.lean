import SharedStages.Proofs.Cache.Effect
import SharedStages.World.Step

/-! What one step can do to a world, stated once: `step_transition` resolves every look-up and
every trip of a step, and the facts about all steps are read off it. -/

namespace SharedStages

/-- Writing what is there changes nothing. -/
theorem insert_eq_self {K V : Type} [Ord K] [Std.TransOrd K] [Std.LawfulEqOrd K]
    {m : Std.ExtTreeMap K V} {k : K} {v : V} (h : m[k]? = some v) : m.insert k v = m := by
  apply Std.ExtTreeMap.ext_getElem?
  intro a
  rw [Std.ExtTreeMap.getElem?_insert]
  split_ifs with ha
  · rw [← h, Std.LawfulEqOrd.eq_of_compare ha]
  · rfl

namespace World

variable {H C : Type} [Ord H]

@[simp] theorem settle_caches (w : World H C) (gained lost : List Stage) (answer : Answer H C)
    (ds : List Delivery) : (w.settle gained lost answer ds).1.caches = w.caches := rfl

variable [Std.TransOrd H]

/-- The operation a step performs, and the cache it is performed on. -/
def operation? (w : World H C) : Step (Layer H) C → Option (String × Operation Stage (Layer H) C)
  | .perform cache op => (op.resolve (w.held[·]?)).map (cache, ·)
  | .insertKeyed cache handle => do
    let key ← (w.profile? handle).bind (·.key)
    let stage ← w.held[handle]?
    return (cache, .insert stage key)
  | _ => none

/-- The handles that a step copies or hashes, in this order, until one of them trips. -/
def layers [DecidableEq H] [DecidableEq C] (w : World H C) : Step (Layer H) C → List (Layer H)
  | .copy cache _ => (w.caches[cache]?.map (·.store.layers)).getD []
  | .copyFrom cache source =>
    if w.caches.contains cache then (w.caches[source]?.map (·.store.layers)).getD [] else []
  | s =>
    match w.operation? s with
    | some (cache, op) => (w.caches[cache]?.map fun c => op.layers c.store).getD []
    | none => []

theorem mem_of_find?_armed {armed : Std.ExtTreeSet (Layer H)} {ls : List (Layer H)} {l : Layer H}
    (h : ls.find? (armed.contains ·) = some l) : l ∈ ls ∧ l ∈ armed :=
  ⟨List.mem_of_find?_eq_some h, Std.ExtTreeSet.mem_iff_contains.2 (List.find?_some h)⟩

/-- A copy trips as the store does, and gives its shares back; else the copy is put in place. -/
theorem copy_eq (w : World H C) {cache : String} {c : Cache H C}
    (hc : w.caches[cache]? = some c) (target : String) : ∃ taken, w.copy cache target =
      match c.store.layers.find? (w.armed.contains ·) with
      | some l => { w with armed := w.armed.erase l }.settle taken taken (.tripped l.name) []
      | none =>
        w.install target (c.copy c.store w.instances) c.store.stages.reverse .done := by
  obtain ⟨taken, ht⟩ := c.copyStore_eq w.toAmbient
  refine ⟨taken, ?_⟩
  simp only [copy, hc, ht]
  cases c.store.layers.find? (w.armed.contains ·) <;> simp [absorb, insert_eq_self hc]

theorem copyFrom_eq (w : World H C) {cache source : String} {c d : Cache H C}
    (hc : w.caches[cache]? = some c) (hd : w.caches[source]? = some d) :
    ∃ taken, w.copyFrom cache source =
      match d.store.layers.find? (w.armed.contains ·) with
      | some l => { w with armed := w.armed.erase l }.settle taken taken (.tripped l.name) []
      | none => { w with caches := w.caches.insert cache (c.copyFrom d d.store) }.settle
        d.store.stages.reverse c.store.stages .done [] := by
  obtain ⟨taken, ht⟩ := d.copyStore_eq w.toAmbient
  refine ⟨taken, ?_⟩
  simp only [copyFrom, hc, hd, ht]
  cases d.store.layers.find? (w.armed.contains ·) <;> simp [absorb, insert_eq_self hd]

variable [DecidableEq H] [DecidableEq C]

theorem performOn_eq (w : World H C) (cache : String) (c : Cache H C)
    (op : Operation Stage (Layer H) C) : w.performOn cache c op =
      match (op.layers c.store).find? (w.armed.contains ·) with
      | some l =>
        { w with
          armed := w.armed.erase l
          minted := w.minted + op.spent c.store
          caches := w.caches.insert cache
            { c with store := (op.progress c.store w.armed).foldl .remove c.store } }.settle
          [] (c.store.stagesOf (op.progress c.store w.armed)) (.tripped l.name) []
      | none =>
        { w with
          minted := w.minted + op.spent c.store
          caches := w.caches.insert cache
            { c with store := op.after c.store w.minted } }.settle
          (op.taken c.store) (op.given c.store) (.reply (op.result c.store w.minted).1)
          (c.deliver (op.result c.store w.minted).2) := by
  simp only [performOn, Cache.perform_eq]
  cases (op.layers c.store).find? (w.armed.contains ·) <;> simp [absorb]

/-- A step that performs an operation on a cache does nothing else. -/
theorem step_of_operation? {w : World H C} {s : Step (Layer H) C} {cache : String}
    {op : Operation Stage (Layer H) C} (hs : w.operation? s = some (cache, op)) {c : Cache H C}
    (hc : w.caches[cache]? = some c) : w.step s = w.performOn cache c op := by
  cases s <;> simp only [operation?, reduceCtorEq] at hs
  case perform name p =>
    obtain ⟨q, hq, h⟩ := Option.map_eq_some_iff.1 hs
    cases h
    simp [step, perform, hc, hq]
  case insertKeyed name handle =>
    obtain ⟨key, hkey, hs⟩ := Option.bind_eq_some_iff.1 hs
    obtain ⟨stage, hstage, hs⟩ := Option.bind_eq_some_iff.1 hs
    cases hs
    simp [step, insertKeyed, perform, hkey, hc, Operation.resolve, hstage]

theorem layers_of_operation? {w : World H C} {s : Step (Layer H) C} {cache : String}
    {op : Operation Stage (Layer H) C} (hs : w.operation? s = some (cache, op)) :
    w.layers s = (w.caches[cache]?.map fun c => op.layers c.store).getD [] := by
  cases s with
  | perform name p => simp only [layers, hs]
  | insertKeyed name handle => simp only [layers, hs]
  | _ => cases hs

theorem layers_copy {w : World H C} {cache : String} {c : Cache H C}
    (hc : w.caches[cache]? = some c) (target : String) :
    w.layers (.copy cache target) = c.store.layers := by
  simp [layers, hc]

theorem layers_copyFrom {w : World H C} {cache source : String} {c d : Cache H C}
    (hc : w.caches[cache]? = some c) (hd : w.caches[source]? = some d) :
    w.layers (.copyFrom cache source) = d.store.layers := by
  simp [layers, Std.ExtTreeMap.contains_eq_isSome_getElem?, hc, hd]

/-- What a step comes to. A step that names what is not there, and one that only asks, is idle. -/
inductive Transition (w : World H C) : Step (Layer H) C → World H C × Report H C → Prop where
  | idle {s answer} : (∀ l, answer ≠ .tripped l) → w.layers s = [] →
    Transition w s (w.reply answer)
  | arm {layer} :
    Transition w (.arm layer) ({ w with armed := w.armed.insert layer }.reply .done)
  | create {handle label key} :
    Transition w (.create handle label key) (w.create handle ⟨label, key⟩)
  | keep {label stage} : w.held[(none : Handle)]? = some stage →
    Transition w (.keep label)
      ({ w with held := (w.held.erase none).insert (some label) stage }.settle
        [] w.held[some label]?.toList .done [])
  | release {handle stage} : w.held[handle]? = some stage →
    Transition w (.release handle)
      ({ w with held := w.held.erase handle }.settle [] [stage] (.flag true) [])
  | new {cache} : Transition w (.new cache) (w.install cache (.new w.instances) [] .done)
  | configure {cache config c} : Cache.ofConfig config w.instances = .ok c →
    Transition w (.configure cache config) (w.install cache c [] .accepted)
  | observe {cache watch c} : w.caches[cache]? = some c →
    Transition w (.observe cache watch)
      ({ w with
        caches := w.caches.insert cache (c.observedBy (w.observer watch))
        journals := w.journals + 1 }.reply .done)
  | rename {cache text c c'} : w.caches[cache]? = some c → c.rename text = .ok c' →
    Transition w (.rename cache text)
      ({ w with caches := w.caches.insert cache c' }.reply .accepted)
  | copy {cache target c} : w.caches[cache]? = some c →
    c.store.layers.find? (w.armed.contains ·) = none →
    Transition w (.copy cache target)
      (w.install target (c.copy c.store w.instances) c.store.stages.reverse .done)
  | copyTrips {cache target c l taken} : w.caches[cache]? = some c →
    c.store.layers.find? (w.armed.contains ·) = some l →
    Transition w (.copy cache target)
      ({ w with armed := w.armed.erase l }.settle taken taken (.tripped l.name) [])
  | copyFrom {cache source c d} : w.caches[cache]? = some c → w.caches[source]? = some d →
    d.store.layers.find? (w.armed.contains ·) = none →
    Transition w (.copyFrom cache source)
      ({ w with caches := w.caches.insert cache (c.copyFrom d d.store) }.settle
        d.store.stages.reverse c.store.stages .done [])
  | copyFromTrips {cache source c d l taken} : w.caches[cache]? = some c →
    w.caches[source]? = some d → d.store.layers.find? (w.armed.contains ·) = some l →
    Transition w (.copyFrom cache source)
      ({ w with armed := w.armed.erase l }.settle taken taken (.tripped l.name) [])
  | swap {cache other c d} : w.caches[cache]? = some c → w.caches[other]? = some d →
    Transition w (.swap cache other)
      ({ w with caches := (w.caches.insert cache (c.swap d).1).insert other (c.swap d).2 }.reply
        .done)
  | discard {cache c} : w.caches[cache]? = some c →
    Transition w (.discard cache)
      ({ w with caches := w.caches.erase cache }.settle [] c.store.stages (.flag true) [])
  | perform {s cache op c} : w.operation? s = some (cache, op) → w.caches[cache]? = some c →
    (op.layers c.store).find? (w.armed.contains ·) = none →
    Transition w s
      ({ w with
        minted := w.minted + op.spent c.store
        caches := w.caches.insert cache { c with store := op.after c.store w.minted } }.settle
        (op.taken c.store) (op.given c.store) (.reply (op.result c.store w.minted).1)
        (c.deliver (op.result c.store w.minted).2))
  | performTrips {s cache op c l} : w.operation? s = some (cache, op) →
    w.caches[cache]? = some c → (op.layers c.store).find? (w.armed.contains ·) = some l →
    Transition w s
      ({ w with
        armed := w.armed.erase l
        minted := w.minted + op.spent c.store
        caches := w.caches.insert cache
          { c with store := (op.progress c.store w.armed).foldl .remove c.store } }.settle
        [] (c.store.stagesOf (op.progress c.store w.armed)) (.tripped l.name) [])

section Steps

variable {w : World H C}

theorem transition_missing {s : Step (Layer H) C} (h : w.layers s = []) :
    Transition w s (w.reply .missing) :=
  .idle (fun _ => nofun) h

theorem transition_copy (cache target : String) :
    Transition w (.copy cache target) (w.copy cache target) := by
  cases hc : w.caches[cache]? with
  | none =>
    rw [copy, hc]
    exact transition_missing (by simp [layers, hc])
  | some c =>
    obtain ⟨taken, ht⟩ := w.copy_eq hc target
    rw [ht]
    cases hl : c.store.layers.find? (w.armed.contains ·) with
    | none => exact .copy hc hl
    | some l => exact .copyTrips hc hl

theorem transition_copyFrom (cache source : String) :
    Transition w (.copyFrom cache source) (w.copyFrom cache source) := by
  cases hc : w.caches[cache]? with
  | none =>
    rw [copyFrom, hc]
    exact transition_missing
      (by simp [layers, Std.ExtTreeMap.contains_eq_isSome_getElem?, hc])
  | some c =>
    cases hd : w.caches[source]? with
    | none =>
      rw [copyFrom, hc, hd]
      exact transition_missing (by simp [layers, hd])
    | some d =>
      obtain ⟨taken, ht⟩ := w.copyFrom_eq hc hd
      rw [ht]
      cases hl : d.store.layers.find? (w.armed.contains ·) with
      | none => exact .copyFrom hc hd hl
      | some l => exact .copyFromTrips hc hd hl

theorem transition_swap (cache other : String) :
    Transition w (.swap cache other) (w.swap cache other) := by
  cases hc : w.caches[cache]? with
  | none =>
    rw [swap, hc]
    exact transition_missing rfl
  | some c =>
    cases hd : w.caches[other]? with
    | none =>
      rw [swap, hc, hd]
      exact transition_missing rfl
    | some d =>
      rw [swap, hc, hd]
      exact .swap hc hd

theorem transition_rename (cache text : String) :
    Transition w (.rename cache text) (w.rename cache text) := by
  cases hc : w.caches[cache]? with
  | none =>
    rw [rename, hc]
    exact transition_missing rfl
  | some c =>
    rw [rename, hc]
    cases hr : c.rename text with
    | error fault =>
      simp only [hr]
      exact .idle (fun _ => nofun) rfl
    | ok c' =>
      simp only [hr]
      exact .rename hc hr

theorem transition_operation {s : Step (Layer H) C} {cache : String}
    {op : Operation Stage (Layer H) C} (hs : w.operation? s = some (cache, op)) {c : Cache H C}
    (hc : w.caches[cache]? = some c) : Transition w s (w.step s) := by
  rw [step_of_operation? hs hc, performOn_eq]
  cases hl : (op.layers c.store).find? (w.armed.contains ·) with
  | none => exact .perform hs hc hl
  | some l => exact .performTrips hs hc hl

theorem transition_perform (cache : String) (op : Operation Handle (Layer H) C) :
    Transition w (.perform cache op) (w.perform cache op) := by
  cases hc : w.caches[cache]? with
  | none =>
    rw [perform, hc]
    have hnone : w.layers (.perform cache op) = [] := by
      simp only [layers]
      cases hs : w.operation? (.perform cache op) with
      | none => rfl
      | some p =>
        obtain ⟨q, -, rfl⟩ := Option.map_eq_some_iff.1 hs
        simp [hc]
    exact transition_missing hnone
  | some c =>
    cases hq : op.resolve (w.held[·]?) with
    | none =>
      rw [perform, hc, hq]
      exact transition_missing (by simp [layers, operation?, hq])
    | some q =>
      have hs : w.operation? (.perform cache op) = some (cache, q) := by simp [operation?, hq]
      exact transition_operation hs hc

theorem transition_insertKeyed (cache : String) (handle : Handle) :
    Transition w (.insertKeyed cache handle) (w.insertKeyed cache handle) := by
  cases hk : (w.profile? handle).bind (·.key) with
  | none =>
    rw [insertKeyed, hk]
    exact transition_missing (by simp [layers, operation?, hk])
  | some key =>
    cases hc : w.caches[cache]? with
    | none =>
      rw [insertKeyed, hk]
      simp only [perform, hc]
      have hnone : w.layers (.insertKeyed cache handle) = [] := by
        cases hh : w.held[handle]? <;> simp [layers, operation?, hk, hh, hc]
      exact transition_missing hnone
    | some c =>
      cases hh : w.held[handle]? with
      | none =>
        rw [insertKeyed, hk]
        simp only [perform, hc, Operation.resolve, hh]
        exact transition_missing (by simp [layers, operation?, hk, hh])
      | some stage =>
        have hs : w.operation? (.insertKeyed cache handle) =
            some (cache, .insert stage key) := by simp [operation?, hk, hh]
        exact transition_operation hs hc

end Steps

theorem step_transition (w : World H C) (s : Step (Layer H) C) : Transition w s (w.step s) := by
  cases s with
  | create handle label key => exact .create
  | keep label =>
    simp only [step, keep]
    cases hh : w.held[(none : Handle)]? with
    | none => exact transition_missing rfl
    | some stage => exact .keep hh
  | release handle =>
    simp only [step, release]
    cases hh : w.held[handle]? with
    | none => exact .idle (fun _ => nofun) rfl
    | some stage => exact .release hh
  | shares handle => exact .idle (fun _ => nofun) rfl
  | profile handle =>
    refine .idle (fun l => ?_) rfl
    cases w.profile? handle <;> exact nofun
  | new cache => exact .new
  | configure cache config =>
    simp only [step, configure]
    cases hc : Cache.ofConfig (H := H) (C := C) config w.instances with
    | error fault => exact .idle (fun _ => nofun) rfl
    | ok c => exact .configure hc
  | observe cache watch =>
    simp only [step, observe]
    cases hc : w.caches[cache]? with
    | none => exact transition_missing rfl
    | some c => exact .observe hc
  | copy cache target => exact transition_copy cache target
  | copyFrom cache source => exact transition_copyFrom cache source
  | swap cache other => exact transition_swap cache other
  | discard cache =>
    simp only [step, discard]
    cases hc : w.caches[cache]? with
    | none => exact .idle (fun _ => nofun) rfl
    | some c => exact .discard hc
  | perform cache op => exact transition_perform cache op
  | insertKeyed cache handle => exact transition_insertKeyed cache handle
  | ask cache q =>
    simp only [step, ask]
    split
    · exact .idle (fun _ => nofun) rfl
    · exact transition_missing rfl
  | rename cache text => exact transition_rename cache text
  | arm layer => exact .arm
  | destroyed => exact .idle (fun _ => nofun) rfl

end World

end SharedStages
