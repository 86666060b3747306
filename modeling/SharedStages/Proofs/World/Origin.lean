import SharedStages.Proofs.World.Transition

/-! Where the caches of a world come from. Every cache found after a step was there before it, or
comes from one that was, or is new and empty. -/

namespace SharedStages

/-- What is found after a write is what was written or what was there. -/
theorem eq_or_of_getElem?_insert {K V : Type} [Ord K] [Std.TransOrd K] [Std.LawfulEqOrd K]
    {m : Std.ExtTreeMap K V} {k a : K} {v x : V} (h : (m.insert k v)[a]? = some x) :
    k = a ∧ v = x ∨ m[a]? = some x := by
  rw [Std.ExtTreeMap.getElem?_insert] at h
  split_ifs at h with ha
  · exact .inl ⟨Std.LawfulEqOrd.eq_of_compare ha, Option.some.inj h⟩
  · exact .inr h

namespace World

variable {H C : Type} [Ord H] [Std.TransOrd H] [DecidableEq H] [DecidableEq C]

/-- Where the cache that has a name after a step comes from. -/
inductive Origin (w : World H C) (name : String) : Step (Layer H) C → Cache H C → Prop where
  | kept {s c} : w.caches[name]? = some c → Origin w name s c
  | made : Origin w name (.new name) (.new w.instances)
  | configured {config c} : Cache.ofConfig config w.instances = .ok c →
    Origin w name (.configure name config) c
  | observed {watch c} : w.caches[name]? = some c →
    Origin w name (.observe name watch) (c.observedBy (w.observer watch))
  | renamed {text c c'} : w.caches[name]? = some c → c.rename text = .ok c' →
    Origin w name (.rename name text) c'
  | copied {source d} : w.caches[source]? = some d →
    Origin w name (.copy source name) (d.copy d.store w.instances)
  | overwritten {source c d} : w.caches[name]? = some c → w.caches[source]? = some d →
    Origin w name (.copyFrom name source) (c.copyFrom d d.store)
  | swapped {other c d} : w.caches[name]? = some c → w.caches[other]? = some d →
    Origin w name (.swap name other) (c.swap d).1
  | swappedBack {other c d} : w.caches[other]? = some c → w.caches[name]? = some d →
    Origin w name (.swap other name) (c.swap d).2
  | performed {s op c} : w.operation? s = some (name, op) → w.caches[name]? = some c →
    (op.layers c.store).find? (w.armed.contains ·) = none →
    Origin w name s { c with store := op.after c.store w.minted }
  | interrupted {s op c l} : w.operation? s = some (name, op) → w.caches[name]? = some c →
    (op.layers c.store).find? (w.armed.contains ·) = some l →
    Origin w name s { c with store := (op.progress c.store w.armed).foldl .remove c.store }

variable {w : World H C} {s : Step (Layer H) C} {name : String} {c' : Cache H C}

theorem origin (h : (w.step s).1.caches[name]? = some c') : Origin w name s c' := by
  have ht := step_transition w s
  generalize w.step s = x at ht h
  cases ht with
  | idle hne hl => exact .kept h
  | arm => exact .kept h
  | create => exact .kept h
  | keep hh => exact .kept h
  | release hh => exact .kept h
  | new =>
    rcases eq_or_of_getElem?_insert h with ⟨rfl, rfl⟩ | h
    · exact .made
    · exact .kept h
  | configure hc =>
    rcases eq_or_of_getElem?_insert h with ⟨rfl, rfl⟩ | h
    · exact .configured hc
    · exact .kept h
  | observe hc =>
    rcases eq_or_of_getElem?_insert h with ⟨rfl, rfl⟩ | h
    · exact .observed hc
    · exact .kept h
  | rename hc hr =>
    rcases eq_or_of_getElem?_insert h with ⟨rfl, rfl⟩ | h
    · exact .renamed hc hr
    · exact .kept h
  | copy hc hl =>
    rcases eq_or_of_getElem?_insert h with ⟨rfl, rfl⟩ | h
    · exact .copied hc
    · exact .kept h
  | copyTrips hc hl => exact .kept h
  | copyFrom hc hd hl =>
    rcases eq_or_of_getElem?_insert h with ⟨rfl, rfl⟩ | h
    · exact .overwritten hc hd
    · exact .kept h
  | copyFromTrips hc hd hl => exact .kept h
  | swap hc hd =>
    rcases eq_or_of_getElem?_insert h with ⟨rfl, rfl⟩ | h
    · exact .swappedBack hc hd
    rcases eq_or_of_getElem?_insert h with ⟨rfl, rfl⟩ | h
    · exact .swapped hc hd
    · exact .kept h
  | discard hc =>
    rw [settle_caches, Std.ExtTreeMap.getElem?_erase] at h
    split_ifs at h
    exact .kept h
  | perform hs hc hl =>
    rcases eq_or_of_getElem?_insert h with ⟨rfl, rfl⟩ | h
    · exact .performed hs hc hl
    · exact .kept h
  | performTrips hs hc hl =>
    rcases eq_or_of_getElem?_insert h with ⟨rfl, rfl⟩ | h
    · exact .interrupted hs hc hl
    · exact .kept h

end World

end SharedStages
