import SharedStages.Proofs.World.Journal
import SharedStages.Proofs.World.Names

/-! Instances of caches over a whole run. The store and the name of an instance may move, its label
stays, and its observer is the one put on it last. -/

namespace SharedStages

namespace World

variable {H C : Type} [Ord H] [Std.TransOrd H] [DecidableEq H] [DecidableEq C]

section Exchange

variable {w : World H C} {a b : String} {c d : Cache H C}

theorem step_swap (hc : w.caches[a]? = some c) (hd : w.caches[b]? = some d) :
    w.step (.swap a b) =
      { w with caches := (w.caches.insert a (c.swap d).1).insert b (c.swap d).2 }.reply .done := by
  simp only [step, swap, hc, hd]

theorem getElem?_swap (hc : w.caches[a]? = some c) (hd : w.caches[b]? = some d)
    (x : String) : (w.step (.swap a b)).1.caches[x]? =
      if b = x then some (c.swap d).2 else if a = x then some (c.swap d).1 else w.caches[x]? := by
  rw [step_swap hc hd]
  simp [reply, Std.ExtTreeMap.getElem?_insert]

theorem swap_self (hc : w.caches[a]? = some c) : (w.step (.swap a a)).1 = w := by
  have hself : c.swap c = (c, c) := rfl
  rw [step_swap hc hc, hself, insert_eq_self hc, insert_eq_self hc]
  rfl

theorem step_swap_of_missing (h : w.caches[a]? = none ∨ w.caches[b]? = none) :
    w.step (.swap a b) = w.reply .missing := by
  have hstep : w.step (.swap a b) = w.swap a b := rfl
  rw [hstep, swap]
  rcases h with h | h
  · rw [h]
  · rw [h]
    cases w.caches[a]? <;> rfl

omit [Std.TransOrd H] [DecidableEq H] [DecidableEq C] in
theorem present_of_not_missing (h : ¬ (w.caches[a]? = none ∨ w.caches[b]? = none)) :
    (∃ c, w.caches[a]? = some c) ∧ ∃ d, w.caches[b]? = some d := by
  rw [not_or] at h
  exact ⟨Option.ne_none_iff_exists'.1 h.1, Option.ne_none_iff_exists'.1 h.2⟩

theorem caches_swap_swap (hab : a ≠ b) (hc : w.caches[a]? = some c) (hd : w.caches[b]? = some d) :
    ((w.step (.swap a b)).1.step (.swap a b)).1.caches = w.caches := by
  have hc' := getElem?_swap hc hd a
  rw [if_neg (Ne.symm hab), if_pos rfl] at hc'
  have hd' := getElem?_swap hc hd b
  rw [if_pos rfl] at hd'
  refine Std.ExtTreeMap.ext_getElem? fun x => ?_
  rw [getElem?_swap hc' hd', getElem?_swap hc hd]
  split_ifs with hb ha
  · rw [← hb, hd]
    rfl
  · rw [← ha, hc]
    rfl
  · rfl

/-- A swap changes nothing but the caches. -/
theorem step_swap_caches (w : World H C) (a b : String) :
    (w.step (.swap a b)).1 = { w with caches := (w.step (.swap a b)).1.caches } := by
  by_cases hmissing : w.caches[a]? = none ∨ w.caches[b]? = none
  · rw [step_swap_of_missing hmissing]
    rfl
  · obtain ⟨⟨c, hc⟩, d, hd⟩ := present_of_not_missing hmissing
    rw [step_swap hc hd]
    rfl

/-- Two swaps leave everything as it was. -/
theorem swap_swap (w : World H C) (a b : String) :
    ((w.step (.swap a b)).1.step (.swap a b)).1 = w := by
  have hcaches : ((w.step (.swap a b)).1.step (.swap a b)).1.caches = w.caches := by
    by_cases hmissing : w.caches[a]? = none ∨ w.caches[b]? = none
    · have hstep := step_swap_of_missing hmissing
      rw [hstep, reply, hstep]
      rfl
    · obtain ⟨⟨c, hc⟩, d, hd⟩ := present_of_not_missing hmissing
      by_cases hab : a = b
      · subst hab
        rw [swap_self hc, swap_self hc]
      · exact caches_swap_swap hab hc hd
  rw [step_swap_caches, hcaches, step_swap_caches]

theorem step_copy_cases (hc : w.caches[a]? = some c) (b : String) :
    (w.step (.copy a b)).2.answer = .done ∧ (w.step (.copy a b)).1.instances = w.instances + 1 ∧
        (w.step (.copy a b)).1.caches = w.caches.insert b { c with instanceNumber := w.instances } ∨
      (∃ l ∈ w.armed, (w.step (.copy a b)).2.answer = .tripped l.name) ∧
        (w.step (.copy a b)).1.caches = w.caches := by
  obtain ⟨taken, h⟩ := w.copy_eq hc b
  have hstep : w.step (.copy a b) = w.copy a b := rfl
  rw [hstep, h]
  cases hl : c.store.layers.find? (w.armed.contains ·) with
  | none => exact .inl ⟨rfl, rfl, rfl⟩
  | some l => exact .inr ⟨⟨l, (Std.ExtTreeSet.mem_iff_contains.2 (List.find?_some hl)), rfl⟩, rfl⟩

theorem step_copy_of_done (h : (w.step (.copy a b)).2.answer = .done) :
    ∃ c : Cache H C, w.caches[a]? = some c ∧
      (w.step (.copy a b)).1.instances = w.instances + 1 ∧ (w.step (.copy a b)).1.caches =
        w.caches.insert b { c with instanceNumber := w.instances } := by
  cases hc : w.caches[a]? with
  | none =>
    have hstep : w.step (.copy a b) = w.reply .missing := by simp only [step, copy, hc]
    rw [hstep] at h
    cases h
  | some c =>
    rcases step_copy_cases hc b with ⟨-, hdone⟩ | ⟨⟨l, -, ht⟩, -⟩
    · exact ⟨c, rfl, hdone⟩
    · rw [ht] at h
      cases h

theorem step_copyFrom_cases (hc : w.caches[a]? = some c) (hd : w.caches[b]? = some d) :
    (w.step (.copyFrom a b)).2.answer = .done ∧ (w.step (.copyFrom a b)).1.caches =
        w.caches.insert a { d with instanceNumber := c.instanceNumber } ∨
      (∃ l ∈ w.armed, (w.step (.copyFrom a b)).2.answer = .tripped l.name) ∧
        (w.step (.copyFrom a b)).1.caches = w.caches := by
  obtain ⟨taken, h⟩ := w.copyFrom_eq hc hd
  have hstep : w.step (.copyFrom a b) = w.copyFrom a b := rfl
  rw [hstep, h]
  cases hl : d.store.layers.find? (w.armed.contains ·) with
  | none => exact .inl ⟨rfl, rfl⟩
  | some l => exact .inr ⟨⟨l, (Std.ExtTreeSet.mem_iff_contains.2 (List.find?_some hl)), rfl⟩, rfl⟩

end Exchange

section Births

variable {w : World H C} {s : Step (Layer H) C} {name : String} {c c' : Cache H C} {o : Observer}

/-- The step makes a new instance under the name. -/
def Founds (w : World H C) (s : Step (Layer H) C) (name : String) : Prop :=
  w.Makes name s ∨ ∃ source, s = .copy source name ∧ (w.step s).2.answer = .done

/-- The step gives the cache of that name an observer. -/
inductive Puts (w : World H C) (name : String) : Step (Layer H) C → Observer → Prop where
  | made : Puts w name (.new name) .noop
  | configured {config} : (w.step (.configure name config)).2.answer = .accepted →
    Puts w name (.configure name config) (if config.trace then .tracing else .noop)
  | installed {watch c} : w.caches[name]? = some c →
    Puts w name (.observe name watch) (w.observer watch)
  | copied {source c} : w.caches[source]? = some c →
    (w.step (.copy source name)).2.answer = .done → Puts w name (.copy source name) c.observer
  | takenOver {source c d} : w.caches[name]? = some c → w.caches[source]? = some d →
    (w.step (.copyFrom name source)).2.answer = .done →
    Puts w name (.copyFrom name source) d.observer

theorem valid_of_accepted {config : Config}
    (h : (w.step (.configure name config)).2.answer = .accepted) : config.validate = .ok () := by
  cases hvalid : config.validate with
  | ok u => rfl
  | error fault =>
    rw [step_configure_of_error name hvalid] at h
    cases h

theorem Puts.step (h : w.Puts name s o) :
    ∃ c, (w.step s).1.caches[name]? = some c ∧ c.observer = o := by
  cases h with
  | made => exact ⟨_, Std.ExtTreeMap.getElem?_insert_self, rfl⟩
  | configured ha =>
    rw [step_configure_of_ok name (valid_of_accepted ha)]
    exact ⟨_, Std.ExtTreeMap.getElem?_insert_self, rfl⟩
  | @installed watch c hc =>
    have hstep : w.step (.observe name watch) = w.observe name watch := rfl
    rw [hstep, observe, hc]
    exact ⟨_, Std.ExtTreeMap.getElem?_insert_self, rfl⟩
  | copied hc ha =>
    obtain ⟨d, hd, -, hcaches⟩ := step_copy_of_done ha
    rw [hc] at hd
    cases hd
    rw [hcaches]
    exact ⟨_, Std.ExtTreeMap.getElem?_insert_self, rfl⟩
  | takenOver hc hd ha =>
    rcases step_copyFrom_cases hc hd with ⟨-, hcaches⟩ | ⟨⟨l, -, ht⟩, -⟩
    · rw [hcaches]
      exact ⟨_, Std.ExtTreeMap.getElem?_insert_self, rfl⟩
    · rw [ht] at ha
      cases ha

theorem Founds.instances (h : w.Founds s name) : (w.step s).1.instances = w.instances + 1 := by
  rcases h with h | ⟨source, rfl, ha⟩
  · exact h.instances
  · obtain ⟨c, -, hi, -⟩ := step_copy_of_done ha
    exact hi

theorem Founds.puts (h : w.Founds s name) : ∃ o, w.Puts name s o := by
  rcases h with (rfl | ⟨config, rfl, ha⟩) | ⟨source, rfl, ha⟩
  · exact ⟨_, .made⟩
  · exact ⟨_, .configured ha⟩
  · obtain ⟨c, hc, -⟩ := step_copy_of_done ha
    exact ⟨_, .copied hc ha⟩

/-- The instance a step makes has the next number. -/
theorem Founds.born (h : w.Founds s name) :
    ∃ c, (w.step s).1.caches[name]? = some c ∧ c.instanceNumber = w.instances := by
  rcases h with (rfl | ⟨config, rfl, ha⟩) | ⟨source, rfl, ha⟩
  · exact ⟨_, Std.ExtTreeMap.getElem?_insert_self, rfl⟩
  · rw [step_configure_of_ok name (valid_of_accepted ha)]
    exact ⟨_, Std.ExtTreeMap.getElem?_insert_self, rfl⟩
  · obtain ⟨c, -, -, hcaches⟩ := step_copy_of_done ha
    rw [hcaches]
    exact ⟨_, Std.ExtTreeMap.getElem?_insert_self, rfl⟩

theorem Founds.name_unique {other : String} (h : w.Founds s name) (h' : w.Founds s other) :
    name = other := by
  rcases h with (rfl | ⟨config, rfl, -⟩) | ⟨source, rfl, -⟩ <;>
    rcases h' with (h | ⟨config, h, -⟩) | ⟨source, h, -⟩ <;> cases h <;> rfl

theorem discard_step (w : World H C) (name : String) :
    (w.step (.discard name)).1.caches[name]? = none := by
  have hstep : w.step (.discard name) = w.discard name := rfl
  rw [hstep, discard]
  cases hc : w.caches[name]? with
  | none => exact hc
  | some c => simp

/-- An instance that was not made by the step was there before, and has the same observer unless one
was put on it. -/
theorem former (hf : ¬ w.Founds s name) (h : (w.step s).1.caches[name]? = some c') :
    ∃ c, w.caches[name]? = some c ∧ c.instanceNumber = c'.instanceNumber ∧
      ((∀ o, ¬ w.Puts name s o) → c.observer = c'.observer) := by
  have ht := step_transition w s
  generalize hx : w.step s = x at ht h
  cases ht with
  | new =>
    rcases eq_or_of_getElem?_insert h with ⟨rfl, rfl⟩ | h
    · exact absurd (.inl (.inl rfl)) hf
    · exact ⟨_, h, rfl, fun _ => rfl⟩
  | configure hc =>
    rcases eq_or_of_getElem?_insert h with ⟨rfl, rfl⟩ | h
    · exact absurd (.inl (.inr ⟨_, rfl, by rw [hx]; rfl⟩)) hf
    · exact ⟨_, h, rfl, fun _ => rfl⟩
  | observe hc =>
    rcases eq_or_of_getElem?_insert h with ⟨rfl, rfl⟩ | h
    · exact ⟨_, hc, rfl, fun hp => absurd (.installed hc) (hp _)⟩
    · exact ⟨_, h, rfl, fun _ => rfl⟩
  | rename hc hr =>
    rcases eq_or_of_getElem?_insert h with ⟨rfl, rfl⟩ | h
    · rw [Cache.rename_eq hr]
      exact ⟨_, hc, rfl, fun _ => rfl⟩
    · exact ⟨_, h, rfl, fun _ => rfl⟩
  | copy hc hl =>
    rcases eq_or_of_getElem?_insert h with ⟨rfl, rfl⟩ | h
    · exact absurd (.inr ⟨_, rfl, by rw [hx]; rfl⟩) hf
    · exact ⟨_, h, rfl, fun _ => rfl⟩
  | copyFrom hc hd hl =>
    rcases eq_or_of_getElem?_insert h with ⟨rfl, rfl⟩ | h
    · exact ⟨_, hc, rfl, fun hp => absurd (.takenOver hc hd (by rw [hx]; rfl)) (hp _)⟩
    · exact ⟨_, h, rfl, fun _ => rfl⟩
  | swap hc hd =>
    rcases eq_or_of_getElem?_insert h with ⟨rfl, rfl⟩ | h
    · exact ⟨_, hd, rfl, fun _ => rfl⟩
    rcases eq_or_of_getElem?_insert h with ⟨rfl, rfl⟩ | h
    · exact ⟨_, hc, rfl, fun _ => rfl⟩
    · exact ⟨_, h, rfl, fun _ => rfl⟩
  | discard hc =>
    rw [settle_caches, Std.ExtTreeMap.getElem?_erase] at h
    split_ifs at h
    exact ⟨_, h, rfl, fun _ => rfl⟩
  | perform hs hc hl =>
    rcases eq_or_of_getElem?_insert h with ⟨rfl, rfl⟩ | h
    · exact ⟨_, hc, rfl, fun _ => rfl⟩
    · exact ⟨_, h, rfl, fun _ => rfl⟩
  | performTrips hs hc hl =>
    rcases eq_or_of_getElem?_insert h with ⟨rfl, rfl⟩ | h
    · exact ⟨_, hc, rfl, fun _ => rfl⟩
    · exact ⟨_, h, rfl, fun _ => rfl⟩
  | _ => exact ⟨_, h, rfl, fun _ => rfl⟩

/-- Only when it is discarded is a name without a cache. -/
theorem stays (hc : w.caches[name]? = some c) (hs : s ≠ .discard name) :
    ∃ c', (w.step s).1.caches[name]? = some c' := by
  have hinsert {m : Std.ExtTreeMap String (Cache H C)} (hm : ∃ d, m[name]? = some d)
      (other : String) (x : Cache H C) : ∃ d, (m.insert other x)[name]? = some d := by
    obtain ⟨d, hd⟩ := hm
    rw [Std.ExtTreeMap.getElem?_insert]
    split_ifs
    · exact ⟨x, rfl⟩
    · exact ⟨d, hd⟩
  have ht := step_transition w s
  generalize w.step s = x at ht
  cases ht with
  | new => exact hinsert ⟨c, hc⟩ _ _
  | configure => exact hinsert ⟨c, hc⟩ _ _
  | observe => exact hinsert ⟨c, hc⟩ _ _
  | rename => exact hinsert ⟨c, hc⟩ _ _
  | copy => exact hinsert ⟨c, hc⟩ _ _
  | copyFrom => exact hinsert ⟨c, hc⟩ _ _
  | swap => exact hinsert (hinsert ⟨c, hc⟩ _ _) _ _
  | perform => exact hinsert ⟨c, hc⟩ _ _
  | performTrips => exact hinsert ⟨c, hc⟩ _ _
  | @discard other d hd =>
    have hne : other ≠ name := fun h => hs (h ▸ rfl)
    refine ⟨c, ?_⟩
    rw [settle_caches, Std.ExtTreeMap.getElem?_erase, if_neg (by simpa using hne)]
    exact hc
  | _ => exact ⟨c, hc⟩

end Births

section Lives

variable {steps : List (Step (Layer H) C)} {t u : ℕ} {name : String} {c : Cache H C}

/-- Every step after the `t`-th and before the moment `u` is like this. -/
def Between (steps : List (Step (Layer H) C)) (t u : ℕ)
    (p : World H C → Step (Layer H) C → Prop) : Prop :=
  ∀ i s, t < i → i < u → steps[i]? = some s → p (moment steps i) s

/-- The instance that the `t`-th step made under the name is still there at the moment `u`. -/
structure Lives (steps : List (Step (Layer H) C)) (name : String) (t u : ℕ) : Prop where
  lt : t < u
  born : ∃ s, steps[t]? = some s ∧ (moment steps t).Founds s name
  left : Between steps t u fun w s => ¬ w.Founds s name ∧ s ≠ .discard name

/-- The instance under the name has had `o` put on it, and nothing since. -/
def PutLast (steps : List (Step (Layer H) C)) (name : String) (u : ℕ) (o : Observer) : Prop :=
  ∃ t s, t < u ∧ steps[t]? = some s ∧ (moment steps t).Puts name s o ∧
    Between steps t u fun w s => (∀ o', ¬ w.Puts name s o') ∧ s ≠ .discard name

variable {p : World H C → Step (Layer H) C → Prop}

theorem between_refl (steps : List (Step (Layer H) C)) (t : ℕ) : Between steps t (t + 1) p :=
  fun _ _ hi hi' => absurd hi' (Nat.not_lt.2 hi)

theorem Between.succ (h : Between steps t u p)
    (hu : ∀ s, steps[u]? = some s → p (moment steps u) s) : Between steps t (u + 1) p := by
  intro i s hi hiu hs
  rcases Nat.lt_succ_iff_lt_or_eq.1 hiu with hlt | rfl
  · exact h i s hi hlt hs
  · exact hu s hs

theorem Between.of_succ (h : Between steps t (u + 1) p) : Between steps t u p :=
  fun i s hi hi' => h i s hi (Nat.lt_succ_of_lt hi')

theorem moment_succ_of_none (h : steps[t]? = none) : moment steps (t + 1) = moment steps t := by
  rcases moment_succ_cases steps t with ⟨s, hs, -⟩ | hm
  · rw [h] at hs
    cases hs
  · exact hm

theorem Lives.cache (h : Lives steps name t u) : ∃ c, (moment steps u).caches[name]? = some c ∧
    c.instanceNumber = (moment steps t).instances := by
  obtain ⟨hlt, ⟨s, hs, hborn⟩, hleft⟩ := h
  -- from the birth on, no step replaces the instance, and none changes its number
  induction u, Nat.succ_le_of_lt hlt using Nat.le_induction with
  | base =>
    rw [Nat.succ_eq_add_one, moment_succ hs]
    exact hborn.born
  | succ u hu ih =>
    obtain ⟨c, hc, hn⟩ := ih hu hleft.of_succ
    cases hsu : steps[u]? with
    | none =>
      rw [moment_succ_of_none hsu]
      exact ⟨c, hc, hn⟩
    | some s' =>
      obtain ⟨hf, hd⟩ := hleft u s' hu (Nat.lt_succ_self u) hsu
      obtain ⟨c', hc'⟩ := stays hc hd
      obtain ⟨d, hd, hnd, -⟩ := former hf hc'
      rw [hc] at hd
      cases hd
      rw [moment_succ hsu]
      exact ⟨c', hc', hnd.symm.trans hn⟩

/-- A step that leaves a cache under the name did not discard it. -/
theorem ne_discard {w : World H C} {s : Step (Layer H) C}
    (h : (w.step s).1.caches[name]? = some c) : s ≠ .discard name := by
  rintro rfl
  rw [discard_step] at h
  cases h

theorem exists_lives (hc : (moment steps u).caches[name]? = some c) :
    ∃ t, Lives steps name t u := by
  induction u generalizing c with
  | zero => simp [moment, empty] at hc
  | succ u ih =>
    cases hsu : steps[u]? with
    | none =>
      rw [moment_succ_of_none hsu] at hc
      obtain ⟨t, hlt, hborn, hleft⟩ := ih hc
      refine ⟨t, Nat.lt_succ_of_lt hlt, hborn, hleft.succ fun s hs => ?_⟩
      rw [hsu] at hs
      cases hs
    | some s =>
      rw [moment_succ hsu] at hc
      by_cases hf : (moment steps u).Founds s name
      · exact ⟨u, Nat.lt_succ_self u, ⟨s, hsu, hf⟩, between_refl steps u⟩
      · obtain ⟨d, hd, -⟩ := former hf hc
        obtain ⟨t, hlt, hborn, hleft⟩ := ih hd
        refine ⟨t, Nat.lt_succ_of_lt hlt, hborn, hleft.succ fun s' hs' => ?_⟩
        rw [hsu] at hs'
        cases hs'
        exact ⟨hf, ne_discard hc⟩

theorem putLast_observer (hc : (moment steps u).caches[name]? = some c) :
    PutLast steps name u c.observer := by
  induction u generalizing c with
  | zero => simp [moment, empty] at hc
  | succ u ih =>
    cases hsu : steps[u]? with
    | none =>
      rw [moment_succ_of_none hsu] at hc
      obtain ⟨t, s, hlt, hs, hput, hleft⟩ := ih hc
      refine ⟨t, s, Nat.lt_succ_of_lt hlt, hs, hput, hleft.succ fun s' hs' => ?_⟩
      rw [hsu] at hs'
      cases hs'
    | some s =>
      rw [moment_succ hsu] at hc
      by_cases hp : ∃ o, (moment steps u).Puts name s o
      · obtain ⟨o, hp⟩ := hp
        obtain ⟨c', hc', rfl⟩ := hp.step
        rw [hc] at hc'
        cases hc'
        exact ⟨u, s, Nat.lt_succ_self u, hsu, hp, between_refl steps u⟩
      · -- making an instance puts an observer on it, so the instance was there before
        have hnone : ∀ o, ¬ (moment steps u).Puts name s o := fun o ho => hp ⟨o, ho⟩
        obtain ⟨d, hd, -, hobs⟩ := former (fun hf => hp hf.puts) hc
        obtain ⟨t, s', hlt, hs', hput, hleft⟩ := ih hd
        rw [← hobs hnone]
        refine ⟨t, s', Nat.lt_succ_of_lt hlt, hs', hput, hleft.succ fun s'' hs'' => ?_⟩
        rw [hsu] at hs''
        cases hs''
        exact ⟨hnone, ne_discard hc⟩

/-- No two instances are made with the same number. -/
theorem Lives.unique {other : String} {t' u' : ℕ} (h : Lives steps name t u)
    (h' : Lives steps other t' u')
    (hn : (moment steps t).instances = (moment steps t').instances) : t = t' ∧ name = other := by
  obtain ⟨s, hs, hf⟩ := h.born
  obtain ⟨s', hs', hf'⟩ := h'.born
  have hnext {i j : ℕ} {s : Step (Layer H) C} {name : String} (hs : steps[i]? = some s)
      (hf : (moment steps i).Founds s name) (hij : i < j) :
      (moment steps i).instances < (moment steps j).instances := by
    have hle : (moment steps (i + 1)).instances ≤ (moment steps j).instances :=
      instances_mono steps hij
    rw [moment_succ hs, hf.instances] at hle
    exact hle
  rcases Nat.lt_trichotomy t t' with hlt | rfl | hlt
  · exact absurd hn (hnext hs hf hlt).ne
  · rw [hs] at hs'
    cases hs'
    exact ⟨rfl, hf.name_unique hf'⟩
  · exact absurd hn (hnext hs' hf' hlt).ne'

end Lives

/-- What goes over from one cache of a world to another, and what stays. -/
structure Travels (w : World H C) : Prop where
  swap {a b : String} {c d : Cache H C} : a ≠ b → w.caches[a]? = some c → w.caches[b]? = some d →
    (w.step (.swap a b)).1.caches[a]? = some { c with store := d.store, name := d.name } ∧
      (w.step (.swap a b)).1.caches[b]? = some { d with store := c.store, name := c.name } ∧
      (∀ x, x ≠ a → x ≠ b → (w.step (.swap a b)).1.caches[x]? = w.caches[x]?) ∧
      { (w.step (.swap a b)).1 with caches := w.caches } = w
  swap_twice (a b : String) : ((w.step (.swap a b)).1.step (.swap a b)).1 = w
  copy {a : String} {c : Cache H C} (b : String) : w.caches[a]? = some c →
    (w.step (.copy a b)).2.answer = .done ∧
        (w.step (.copy a b)).1.caches[b]? = some { c with instanceNumber := w.instances } ∧
        (∀ x, x ≠ b → (w.step (.copy a b)).1.caches[x]? = w.caches[x]?) ∨
      (∃ l ∈ w.armed, (w.step (.copy a b)).2.answer = .tripped l.name) ∧
        (w.step (.copy a b)).1.caches = w.caches
  copyFrom {a b : String} {c d : Cache H C} : w.caches[a]? = some c → w.caches[b]? = some d →
    (w.step (.copyFrom a b)).2.answer = .done ∧
        (w.step (.copyFrom a b)).1.caches[a]? = some { d with instanceNumber := c.instanceNumber } ∧
        (∀ x, x ≠ a → (w.step (.copyFrom a b)).1.caches[x]? = w.caches[x]?) ∨
      (∃ l ∈ w.armed, (w.step (.copyFrom a b)).2.answer = .tripped l.name) ∧
        (w.step (.copyFrom a b)).1.caches = w.caches

theorem travels (w : World H C) : Travels w where
  swap {a b c d} hab hc hd := by
    refine ⟨?_, ?_, fun x ha hb => ?_, ?_⟩
    · rw [getElem?_swap hc hd, if_neg (Ne.symm hab), if_pos rfl]
      rfl
    · rw [getElem?_swap hc hd, if_pos rfl]
      rfl
    · rw [getElem?_swap hc hd, if_neg (Ne.symm hb), if_neg (Ne.symm ha)]
    · rw [step_swap hc hd]
      rfl
  swap_twice := w.swap_swap
  copy {a c} b hc := by
    refine (step_copy_cases hc b).imp_left ?_
    rintro ⟨ha, -, hcaches⟩
    refine ⟨ha, ?_, fun x hx => ?_⟩
    · rw [hcaches, Std.ExtTreeMap.getElem?_insert_self]
    · rw [hcaches, Std.ExtTreeMap.getElem?_insert, if_neg (by simpa using Ne.symm hx)]
  copyFrom {a b c d} hc hd := by
    refine (step_copyFrom_cases hc hd).imp_left ?_
    rintro ⟨ha, hcaches⟩
    refine ⟨ha, ?_, fun x hx => ?_⟩
    · rw [hcaches, Std.ExtTreeMap.getElem?_insert_self]
    · rw [hcaches, Std.ExtTreeMap.getElem?_insert, if_neg (by simpa using Ne.symm hx)]

/-- What stays with the instances of a run, whose identifiers are distinct texts. -/
structure InstancesKept (uuids : Uuids) (steps : List (Step (Layer H) C)) : Prop where
  label {name : String} {t u : ℕ} : Lives steps name t u →
    ∃ c, (moment steps u).caches[name]? = some c ∧ c.label.textWith uuids =
      if c.name = "" then (Label.fallback (moment steps t).instances).textWith uuids else c.name
  made {name : String} {u : ℕ} {c : Cache H C} : (moment steps u).caches[name]? = some c →
    ∃ t, Lives steps name t u
  own_label {name other : String} {t u t' u' : ℕ} : Lives steps name t u →
    Lives steps other t' u' → (Label.fallback (moment steps t).instances).textWith uuids =
      (Label.fallback (moment steps t').instances).textWith uuids → t = t' ∧ name = other
  travels (u : ℕ) : Travels (moment steps u)
  observer {name : String} {u : ℕ} {c : Cache H C} : (moment steps u).caches[name]? = some c →
    PutLast steps name u c.observer
  delivered {u : ℕ} {s : Step (Layer H) C} {d : Delivery} :
    d ∈ ((moment steps u).step s).2.deliveries →
    ∃ name op c, (moment steps u).operation? s = some (name, op) ∧
      (moment steps u).caches[name]? = some c ∧ PutLast steps name u d.observer ∧
      d.label = c.label
  reported {u : ℕ} {s : Step (Layer H) C} {name : String} {op : Operation Stage (Layer H) C}
    {c : Cache H C} :
    (moment steps u).operation? s = some (name, op) → (moment steps u).caches[name]? = some c →
    (∀ l, ((moment steps u).step s).2.answer ≠ .tripped l) →
    ∃ o event, PutLast steps name u o ∧ ((moment steps u).step s).2.deliveries =
      if o.isEnabled then [⟨o, c.label, event⟩] else []

/-- An instance keeps its label for life, and what it does is told to the observer put on it last.
Stores and names change places by `swap`, and go over with the observer by `copy` and `copyFrom`. -/
theorem instances_kept (uuids : Uuids) (steps : List (Step (Layer H) C)) :
    InstancesKept uuids steps where
  label h := by
    obtain ⟨c, hc, hn⟩ := h.cache
    refine ⟨c, hc, ?_⟩
    rw [Cache.label, ← hn]
    split_ifs <;> rfl
  made := exists_lives
  own_label h h' heq := h.unique h' (Label.fallback_textWith_inj uuids heq)
  travels u := (moment steps u).travels
  observer := putLast_observer
  delivered hd := by
    obtain ⟨name, op, c, hs, hc, hobs, hlabel⟩ := mem_deliveries hd
    exact ⟨name, op, c, hs, hc, hobs ▸ putLast_observer hc, hlabel⟩
  reported {u s name op c} hs hc hok := by
    rw [step_of_operation? hs hc, performOn_eq] at hok ⊢
    cases hl : (op.layers c.store).find? ((moment steps u).armed.contains ·) with
    | some l =>
      rw [hl] at hok
      exact absurd rfl (hok l.name)
    | none => exact ⟨c.observer, _, putLast_observer hc, rfl⟩

/-- A recorder goes over with a copy of its cache, and the contents of the copy then change places
with those of another cache. -/
def movedRun : List (Step (Layer ℕ) ℕ) :=
  [.new "a", .observe "a" .record, .rename "a" "first", .copy "a" "b", .new "c", .swap "b" "c"]

theorem instances_kept_movedRun : ∃ c : Cache ℕ ℕ, (moment movedRun 6).caches["b"]? = some c ∧
    c.name = "" ∧ PutLast movedRun "b" 6 (.recorder 0) ∧
    (∃ t, Lives movedRun "b" t 6 ∧ c.label.textWith .ofOneMoment =
      (Label.fallback (moment movedRun t).instances).textWith .ofOneMoment) ∧
    (((moment movedRun 6).step (.swap "b" "c")).1.step (.swap "b" "c")).1 = moment movedRun 6 := by
  have hsome : ((moment movedRun 6).caches["b"]?.any
      fun c => c.name = "" ∧ c.observer = .recorder 0) = true := by cbv
  obtain ⟨c, hc, hparts⟩ := (Option.any_eq_true _ _).1 hsome
  obtain ⟨hname, hobserver⟩ := of_decide_eq_true hparts
  have h := instances_kept .ofOneMoment movedRun
  obtain ⟨t, hlives⟩ := h.made hc
  obtain ⟨c', hc', hlabel⟩ := h.label hlives
  rw [hc] at hc'
  cases hc'
  rw [if_pos hname] at hlabel
  exact ⟨c, hc, hname, hobserver ▸ h.observer hc, ⟨t, hlives, hlabel⟩,
    (h.travels 6).swap_twice "b" "c"⟩

end World

end SharedStages
