import Mathlib
import SharedStages.Proofs.World.Transition

/-! What a query asks for is what it was made from. One query admits no key that another does not
admit if and only if it asks for all that the other asks for: for every component left open or asked
for differently there is a key that tells the two apart. -/

namespace SharedStages

namespace Constraint

variable {α : Type}

/-- The one value that is admitted, if the constraint names one. -/
def demand? : Constraint α → Option α
  | any => none
  | exactly a => some a

theorem demand?_inj {c d : Constraint α} : c.demand? = d.demand? ↔ c = d := by
  cases c <;> cases d <;> simp [demand?]

variable [DecidableEq α] {c d : Constraint α}

theorem exists_admitted [Nonempty α] (c : Constraint α) : ∃ a, c.admits a = true := by
  cases c with
  | any => exact ⟨Classical.arbitrary α, rfl⟩
  | exactly a => exact ⟨a, admits_exactly.2 rfl⟩

/-- An open constraint admits a value besides the one that is demanded. -/
theorem admits_imp_iff [Nontrivial α] : (∀ a, c.admits a = true → d.admits a = true) ↔
    ∀ a, d.demand? = some a → c.demand? = some a := by
  cases d with
  | any => simp [demand?]
  | exactly b =>
    cases c with
    | any =>
      obtain ⟨a, hne⟩ := exists_ne b
      simpa [demand?] using ⟨a, hne.symm⟩
    | exactly a =>
      simp only [admits_exactly, demand?, Option.some.injEq, forall_eq']
      exact eq_comm

end Constraint

namespace Query

variable {H C : Type} [DecidableEq H] [DecidableEq C] {q q' : Query H C}

/-- The components are compared one by one, as every constraint on the others can be met. -/
theorem admits_imp_iff [Nonempty C] : (∀ k, q.admits k = true → q'.admits k = true) ↔
    q.root = q'.root ∧ (∀ s, q.session.admits s = true → q'.session.admits s = true) ∧
      ∀ c, q.context.admits c = true → q'.context.admits c = true := by
  constructor
  · intro h
    obtain ⟨s, hs⟩ := q.session.exists_admitted
    obtain ⟨c, hc⟩ := q.context.exists_admitted
    have hkey {s : Option H} {c : C} (hs : q.session.admits s = true)
        (hc : q.context.admits c = true) :=
      admits_iff.1 (h ⟨q.root, s, c⟩ (admits_iff.2 ⟨rfl, hs, hc⟩))
    exact ⟨(hkey hs hc).1.symm, fun s hs => (hkey hs hc).2.1, fun c hc => (hkey hs hc).2.2⟩
  · rintro ⟨hroot, hsession, hcontext⟩ k hk
    obtain ⟨hr, hs, hc⟩ := admits_iff.1 hk
    exact admits_iff.2 ⟨hroot.symm.trans hr, hsession _ hs, hcontext _ hc⟩

theorem admits_ofKey {k k' : Key H C} : (ofKey k).admits k' = true ↔ k' = k := by
  rw [admits_iff]
  cases k
  cases k'
  simp only [ofKey, Constraint.admits_exactly, Key.mk.injEq]
  exact and_congr eq_comm (and_congr eq_comm eq_comm)

variable [Nontrivial C]

theorem admits_imp_iff_demand : (∀ k, q.admits k = true → q'.admits k = true) ↔
    q.root = q'.root ∧ (∀ s, q'.session.demand? = some s → q.session.demand? = some s) ∧
      ∀ c, q'.context.demand? = some c → q.context.demand? = some c := by
  have : Nonempty H := ⟨q.root⟩
  rw [admits_imp_iff, Constraint.admits_imp_iff, Constraint.admits_imp_iff]

/-- Different queries do not admit the same keys. -/
theorem admits_eq_iff : (∀ k, q.admits k = q'.admits k) ↔ q = q' := by
  constructor
  · intro h
    obtain ⟨hroot, hsession, hcontext⟩ := admits_imp_iff_demand.1 fun k hk => (h k).symm.trans hk
    obtain ⟨-, hsession', hcontext'⟩ := admits_imp_iff_demand.1 fun k hk => (h k).trans hk
    have hs : q.session = q'.session :=
      Constraint.demand?_inj.1 (Option.ext fun s => ⟨hsession' s, hsession s⟩)
    have hc : q.context = q'.context :=
      Constraint.demand?_inj.1 (Option.ext fun c => ⟨hcontext' c, hcontext c⟩)
    cases q
    cases q'
    simp_all
  · rintro rfl k
    rfl

end Query

/-- The ways to make a query, from a root or from a key, and to ask for more. -/
inductive Recipe (H C : Type) where
  | ofRoot (root : H)
  | ofKey (key : Key H C)
  | withSession (r : Recipe H C) (session : Option H)
  | withContext (r : Recipe H C) (context : C)

namespace Recipe

variable {H C : Type}

def query : Recipe H C → Query H C
  | ofRoot h => .ofRoot h
  | ofKey k => .ofKey k
  | withSession r s => r.query.withSession s
  | withContext r c => r.query.withContext c

/-- The root that was asked for in the beginning. -/
def root : Recipe H C → H
  | ofRoot h => h
  | ofKey k => k.root
  | withSession r _ | withContext r _ => r.root

/-- The session that was asked for last. `some none` asks for no session. -/
def session? : Recipe H C → Option (Option H)
  | ofRoot _ => none
  | ofKey k => some k.session
  | withSession _ s => some s
  | withContext r _ => r.session?

/-- The context that was asked for last. -/
def context? : Recipe H C → Option C
  | ofRoot _ => none
  | ofKey k => some k.context
  | withSession r _ => r.context?
  | withContext _ c => some c

/-- What `r'` asks for is asked for by `r` too. -/
structure Narrows (r r' : Recipe H C) : Prop where
  root : r.root = r'.root
  session (s : Option H) : r'.session? = some s → r.session? = some s
  context (c : C) : r'.context? = some c → r.context? = some c

theorem query_eq (r : Recipe H C) : r.query.root = r.root ∧
    r.query.session.demand? = r.session? ∧ r.query.context.demand? = r.context? := by
  induction r with
  | ofRoot h => exact ⟨rfl, rfl, rfl⟩
  | ofKey k => exact ⟨rfl, rfl, rfl⟩
  | withSession r s ih => exact ⟨ih.1, rfl, ih.2.2⟩
  | withContext r c ih => exact ⟨ih.1, ih.2.1, rfl⟩

/-- Whatever else is asked for, the root is. -/
theorem narrows_ofRoot (r : Recipe H C) : r.Narrows (.ofRoot r.root) where
  root := rfl
  session _ h := by cases h
  context _ h := by cases h

theorem admits_imp_iff_narrows [DecidableEq H] [DecidableEq C] [Nontrivial C]
    {r r' : Recipe H C} :
    (∀ k, r.query.admits k = true → r'.query.admits k = true) ↔ r.Narrows r' := by
  obtain ⟨hroot, hsession, hcontext⟩ := r.query_eq
  obtain ⟨hroot', hsession', hcontext'⟩ := r'.query_eq
  rw [Query.admits_imp_iff_demand, hroot, hroot', hsession, hsession', hcontext, hcontext']
  exact ⟨fun ⟨hr, hs, hc⟩ => ⟨hr, hs, hc⟩, fun h => ⟨h.root, h.session, h.context⟩⟩

end Recipe

section Lookup

variable {H C : Type} [Ord H] [Std.TransOrd H] [DecidableEq H] [DecidableEq C]

/-- Both queries look into the bucket of the same root. -/
theorem Store.hits_sublist (s : Store H C) {q q' : Query H C} (hroot : q.root = q'.root)
    (h : ∀ k, q.admits k = true → q'.admits k = true) : (s.hits q).Sublist (s.hits q') := by
  have hmatching : (s.matching q).Sublist (s.matching q') := by
    unfold matching
    rw [hroot]
    apply List.monotone_filter_right
    intro id hid
    obtain ⟨e, he, hq⟩ := (Option.any_eq_true _ _).1 hid
    exact (Option.any_eq_true _ _).2 ⟨e, he, h e.key hq⟩
  exact hmatching.filterMap _

/-- A search gives what is found, unless it trips on the root of the query. Only that handle and the
store decide on it. -/
theorem World.answer_findAll {w : World H C} {name : String} {c : Cache H C}
    (hc : w.caches[name]? = some c) (root : Layer H) :
    (∀ q : Query (Layer H) C, q.root = root →
      (w.step (.perform name (.findAll q))).2.answer =
        .reply (.stages ((c.store.hits q.names).map (·.stage)))) ∨
    root ∈ w.armed ∧ ∀ q : Query (Layer H) C, q.root = root →
      (w.step (.perform name (.findAll q))).2.answer = .tripped root.name := by
  have hperform (q : Query (Layer H) C) : w.step (.perform name (.findAll q)) =
      w.performOn name c (.findAll q) := by
    have hs : w.operation? (.perform name (.findAll q)) = some (name, .findAll q) := rfl
    exact step_of_operation? hs hc
  cases hl : (if c.store.byRoot.isEmpty then [] else [root]).find? (w.armed.contains ·) with
  | none =>
    refine .inl fun q hq => ?_
    subst hq
    have hnone : ((Operation.findAll q).layers c.store).find? (w.armed.contains ·) = none := hl
    rw [hperform, performOn_eq, hnone]
    rfl
  | some layer =>
    have hlayer : layer = root ∧ root ∈ w.armed := by
      obtain ⟨hmem, harmed⟩ := mem_of_find?_armed hl
      split_ifs at hmem
      · cases hmem
      · obtain rfl := List.mem_singleton.1 hmem
        exact ⟨rfl, harmed⟩
    obtain ⟨rfl, harmed⟩ := hlayer
    refine .inr ⟨harmed, fun q hq => ?_⟩
    subst hq
    have hsome : ((Operation.findAll q).layers c.store).find? (w.armed.contains ·) =
        some q.root := hl
    rw [hperform, performOn_eq, hsome]
    rfl

end Lookup

/-- A query asks for what it was made from, whatever the order and the repetitions: it admits only
keys that another query admits if and only if it has the same root and asks for each component that
the other asks for, and for the same value. So queries that admit the same keys are equal, a query
made from a key admits that key alone, and of any cache a query that asks for more is answered with
some of the stages of the other query, in the same order, if neither trips on its root. By one
handle of the root both trip or none. -/
theorem queries_mean_their_parts (r r' : Recipe String (List String)) :
    ((∀ k, r.query.admits k = true → r'.query.admits k = true) ↔ r.Narrows r') ∧
    ((∀ k, r.query.admits k = r'.query.admits k) ↔ r.query = r'.query) ∧
    (∀ k k' : Key String (List String), (Recipe.ofKey k).query.admits k' = true ↔ k' = k) ∧
    (r.Narrows r' → ∀ (w : World String (List String)) (name : String)
      (c : Cache String (List String)) (q q' : Query (Layer String) (List String)),
      w.caches[name]? = some c → q.names = r.query → q'.names = r'.query →
      ((∃ l l', (w.step (.perform name (.findAll q))).2.answer = .reply (.stages l) ∧
          (w.step (.perform name (.findAll q'))).2.answer = .reply (.stages l') ∧
          l.Sublist l') ∨
        q.root ∈ w.armed ∧ (w.step (.perform name (.findAll q))).2.answer = .tripped r.root ∨
        q'.root ∈ w.armed ∧ (w.step (.perform name (.findAll q'))).2.answer = .tripped r.root) ∧
      (q.root = q'.root → ((w.step (.perform name (.findAll q))).2.answer = .tripped r.root ↔
        (w.step (.perform name (.findAll q'))).2.answer = .tripped r.root))) := by
  refine ⟨Recipe.admits_imp_iff_narrows, Query.admits_eq_iff, fun _ _ => Query.admits_ofKey, ?_⟩
  intro h w name c q q' hc hq hq'
  have hroot : q.root.name = r.root := by rw [← q.names_root, hq, r.query_eq.1]
  have hroot' : q'.root.name = r.root := by rw [← q'.names_root, hq', r'.query_eq.1, h.root]
  have hhits : (c.store.hits q.names).Sublist (c.store.hits q'.names) := by
    apply c.store.hits_sublist (hroot.trans hroot'.symm)
    rw [hq, hq']
    exact Recipe.admits_imp_iff_narrows.2 h
  have hanswer := World.answer_findAll hc q.root
  have hanswer' := World.answer_findAll hc q'.root
  rw [hroot] at hanswer
  rw [hroot'] at hanswer'
  refine ⟨?_, fun heq => ?_⟩
  · rcases hanswer with hfound | ⟨harmed, htrips⟩
    · rcases hanswer' with hfound' | ⟨harmed', htrips'⟩
      · exact .inl ⟨_, _, hfound q rfl, hfound' q' rfl, hhits.map _⟩
      · exact .inr (.inr ⟨harmed', htrips' q' rfl⟩)
    · exact .inr (.inl ⟨harmed, htrips q rfl⟩)
  · rcases hanswer with hfound | ⟨harmed, htrips⟩
    · rw [hfound q rfl, hfound q' heq.symm]
      exact iff_of_false nofun nofun
    · exact iff_of_true (htrips q rfl) (htrips q' heq.symm)

/-- First a session is asked for, then none. -/
def sessionless : Recipe String (List String) :=
  .withSession (.withSession (.ofRoot "a") (some "b")) none

/-- Two stages with one root, of which the second has a session. -/
def lookupRun : List (Step (Layer String) (List String)) :=
  [.create (some "s") "s" none, .create (some "t") "t" none, .new "c",
    .perform "c" (.insert (some "s") ⟨.shared "a", none, []⟩),
    .perform "c" (.insert (some "t") ⟨.shared "a", some (.shared "b"), []⟩)]

theorem queries_mean_their_parts_lookupRun : ∃ w l l', w = (World.empty.run lookupRun).1 ∧
    sessionless.Narrows (.ofRoot "a") ∧ w.armed = ∅ ∧
    (w.step (.perform "c" (.findAll (sessionless.query.map .shared)))).2.answer =
      .reply (.stages l) ∧
    (w.step (.perform "c" (.findAll (.ofRoot (.shared "a"))))).2.answer = .reply (.stages l') ∧
    l.Sublist l' ∧ l.length = 1 ∧ l'.length = 2 := by
  obtain ⟨w, hw⟩ : ∃ w, w = (World.empty.run lookupRun).1 := ⟨_, rfl⟩
  have hsome : (w.caches["c"]?).isSome = true := by
    rw [hw]
    cbv
  obtain ⟨c, hc⟩ := Option.isSome_iff_exists.1 hsome
  have hn : sessionless.Narrows (.ofRoot "a") := sessionless.narrows_ofRoot
  have ha : w.armed = ∅ := by
    rw [← Std.ExtTreeSet.isEmpty_iff, hw]
    cbv
  have hnot (l : Layer String) : l ∉ w.armed := by
    rw [ha]
    exact Std.ExtTreeSet.not_mem_empty
  have hone : (w.step (.perform "c" (.findAll (sessionless.query.map .shared)))).2.answer =
      .reply (.stages [⟨0⟩]) := by
    rw [hw]
    cbv
  have htwo : (w.step (.perform "c" (.findAll (.ofRoot (.shared "a"))))).2.answer =
      .reply (.stages [⟨0⟩, ⟨1⟩]) := by
    rw [hw]
    cbv
  have h := (queries_mean_their_parts _ _).2.2.2 hn w "c" c (sessionless.query.map .shared)
    (.ofRoot (.shared "a")) hc rfl rfl
  rcases h.1 with ⟨l, l', hl, hl', hsub⟩ | ⟨harmed, -⟩ | ⟨harmed, -⟩
  · refine ⟨w, l, l', hw, hn, ha, hl, hl', hsub, ?_, ?_⟩
    · rw [hone] at hl
      cases hl
      rfl
    · rw [htwo] at hl'
      cases hl'
      rfl
  · exact absurd harmed (hnot _)
  · exact absurd harmed (hnot _)

end SharedStages
