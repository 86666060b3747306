import SharedStages.Cascade
import SharedStages.Proofs.World.Uses

/-! What holds between the moves of a cascade, whatever the stages do as they go. A farewell is
spoken while other shares still wait to be released, so these count as uses until then. -/

namespace SharedStages

/-- The note is of a destroyed stage. -/
def Note.isDrop : Note → Bool
  | dropped .. => true
  | event .. => false

namespace Scene

variable {c : Scene} {plans : Std.ExtTreeMap Stage Farewell} {uses uses' pending : List Stage}

theorem noteAll_eq (c : Scene) (ds : List Delivery) : c.noteAll ds =
    { c with notes := c.notes ++ ds.map (.event · c.cache.store.size c.cache.name) } := by
  induction ds generalizing c with
  | nil => simp [noteAll]
  | cons d ds ih =>
    have hcons : c.noteAll (d :: ds) =
        (c.note (.event d c.cache.store.size c.cache.name)).noteAll ds := rfl
    rw [hcons, ih]
    simp [note]

theorem countP_isDrop_events (ds : List Delivery) (size : ℕ) (name : String) :
    (ds.map (Note.event · size name)).countP (·.isDrop) = 0 := by
  simp [List.countP_eq_zero, Note.isDrop]

/-- Where nothing is armed, an operation has its effect. -/
theorem perform_eq (h : c.ambient.armed = ∅) (op : Operation Stage String Int)
    {p : Operation Stage (Layer String) Int} (hp : p = op.map .shared) :
    ∃ reply ds, c.perform op = (reply, p.given c.cache.store, noteAll
      { c with
        cache := { c.cache with store := p.after c.cache.store c.ambient.minted }
        ambient := ⟨c.ambient.armed, c.ambient.minted + p.spent c.cache.store⟩
        ledger := c.ledger.retainAll (p.taken c.cache.store) } ds) := by
  subst hp
  have hnone :
      ((op.map .shared).layers c.cache.store).find? (c.ambient.armed.contains ·) = none := by
    simp [h]
  unfold perform
  rw [Cache.perform_eq, hnone]
  exact ⟨_, _, rfl⟩

theorem minted_le_perform (c : Scene) (op : Operation Stage String Int) :
    c.ambient.minted ≤ (c.perform op).2.2.ambient.minted := by
  simp only [perform, noteAll_eq, Cache.perform_eq]
  cases ((op.map .shared).layers c.cache.store).find? (c.ambient.armed.contains ·) <;>
    exact Nat.le_add_right _ _

/-- The indexes agree, the shares in a stage are its entry and the uses made of it elsewhere, every
destroyed stage was noted, and those that have a farewell to speak are not destroyed. -/
structure Settled (c : Scene) (plans : Std.ExtTreeMap Stage Farewell) (uses : List Stage) :
    Prop where
  unarmed : c.ambient.armed = ∅
  store : c.cache.store.Consistent c.ambient.minted
  regular : c.ledger.Regular
  shares (t : Stage) : c.ledger.shares t = uses.count t + c.cache.store.stages.count t
  noted : c.notes.countP (·.isDrop) = c.ledger.destroyed
  awaits {t : Stage} {f : Farewell} : plans[t]? = some f → 0 < c.ledger.shares t

/-- It is so as long as the ids have not run out. -/
def Sound (c : Scene) (plans : Std.ExtTreeMap Stage Farewell) (uses : List Stage) : Prop :=
  c.ambient.minted < 2 ^ 63 - 1 → c.Settled plans uses

theorem Sound.congr (h : c.Sound plans uses) (huses : ∀ t, uses.count t = uses'.count t) :
    c.Sound plans uses' := by
  intro hm
  obtain ⟨unarmed, store, regular, shares, noted, awaits⟩ := h hm
  exact ⟨unarmed, store, regular, fun t => by rw [shares, huses], noted, awaits⟩

/-- What an operation takes out of the cache is in use until it is released. A stage that is
inserted has to be in use before. -/
theorem Sound.perform (h : c.Sound plans uses) {op : Operation Stage String Int}
    (hop : ∀ stage key, op = .insert stage key → stage ∈ uses) :
    (c.perform op).2.2.Sound plans (uses ++ (c.perform op).2.1) := by
  intro hm
  have hc := h ((c.minted_le_perform op).trans_lt hm)
  obtain ⟨reply, ds, heq⟩ := perform_eq hc.unarmed op rfl
  rw [heq, noteAll_eq] at hm ⊢
  have hgained : ∀ t ∈ (op.map .shared).taken c.cache.store, 0 < c.ledger.shares t := by
    intro t ht
    obtain ⟨key, hinsert⟩ := World.eq_insert_of_taken ht
    have hmem : t ∈ uses := by
      cases op <;> cases hinsert
      exact hop t _ rfl
    have := List.count_pos_iff.2 hmem
    rw [hc.shares]
    omega
  have hshares (t : Stage) := Ledger.shares_retainAll hgained t
  refine ⟨hc.unarmed, Operation.consistent_after _ hc.store hm, ?_, fun t => ?_, ?_, fun ht => ?_⟩
  · exact hc.regular.settle hgained []
  · have hstages := World.stages_after hc.store (op.map .shared) hm t
    have := hc.shares t
    simp only [hshares, List.count_append]
    omega
  · simp only [List.countP_append, countP_isDrop_events, Ledger.destroyed_retainAll]
    exact hc.noted
  · have := hc.awaits ht
    simp only [hshares]
    omega

theorem Sound.clear (h : c.Sound plans uses) : c.clear.2.2.Sound plans (uses ++ c.clear.2.1) := by
  have hperform : (c.perform .clear).2.2.Sound plans (uses ++ (c.perform .clear).2.1) :=
    h.perform nofun
  refine hperform.congr fun t => ?_
  rw [List.count_append, List.count_append]
  exact congrArg _ ((List.mergeSort_perm _ _).count_eq t).symm

/-- The new stage has the share of whoever made it, and may be given a farewell. -/
theorem Sound.create (h : c.Sound plans uses) (name : String)
    {plans' : Std.ExtTreeMap Stage Farewell} (hplans : ∀ t f, plans'[t]? = some f →
      t = (c.ledger.create name).1 ∨ plans[t]? = some f) :
    Sound { c with ledger := (c.ledger.create name).2 } plans'
      (uses ++ [(c.ledger.create name).1]) := by
  intro hm
  have hc := h hm
  have hfresh : c.ledger.shares (c.ledger.create name).1 = 0 := by
    by_contra hne
    have hlive := Ledger.mem_live_of_shares_pos (Nat.pos_of_ne_zero hne)
    exact Nat.lt_irrefl _ (hc.regular.issued hlive)
  have hshares (t : Stage) : (c.ledger.create name).2.shares t =
      if t = (c.ledger.create name).1 then 1 else c.ledger.shares t :=
    c.ledger.shares_create name t
  refine ⟨hc.unarmed, hc.store, hc.regular.create name, fun t => ?_, hc.noted, fun {t f} ht => ?_⟩
  · have := hc.shares t
    rw [hshares, List.count_append, List.count_singleton]
    by_cases heq : t = (c.ledger.create name).1
    · rw [← heq] at hfresh ⊢
      simp only [if_true, beq_self_eq_true]
      omega
    · simp only [heq, Ne.symm heq, if_false, beq_iff_eq]
      omega
  · rw [hshares]
    rcases hplans t f ht with hnew | hold
    · rw [if_pos hnew]
      exact Nat.one_pos
    · have := hc.awaits hold
      split_ifs <;> omega

theorem Sound.farewell (h : c.Sound plans uses) (f : Farewell) :
    (c.farewell f).2.Sound plans (uses ++ (c.farewell f).1) := by
  cases f with
  | erase id => exact h.perform nofun
  | eraseAll root => exact h.perform nofun
  | clear => exact h.clear
  | insert name =>
    obtain ⟨op, hop⟩ : ∃ op : Operation Stage String Int,
      op = .insert (c.ledger.create name).1 ⟨"reborn", none, 0⟩ := ⟨_, rfl⟩
    have hused (stage : Stage) (key : Key String Int) (heq : op = .insert stage key) :
        stage ∈ uses ++ [(c.ledger.create name).1] := by
      rw [hop] at heq
      cases heq
      exact List.mem_append_right _ List.mem_cons_self
    have hinsert := (h.create name fun _ _ ht => .inr ht).perform hused
    have hfarewell : c.farewell (.insert name) =
        ((Scene.perform { c with ledger := (c.ledger.create name).2 } op).2.1 ++
          [(c.ledger.create name).1],
        (Scene.perform { c with ledger := (c.ledger.create name).2 } op).2.2) := by
      rw [hop]
      rfl
    rw [hfarewell]
    refine hinsert.congr fun t => ?_
    simp only [List.count_append]
    omega

/-- A share that is given back is no use any more. A stage that is destroyed by it is noted, and has
no farewell left to speak. -/
theorem Sound.release {s : Stage} (h : c.Sound plans (uses ++ s :: pending)) {gone : Option String}
    {ledger : Ledger String} (hr : c.ledger.release s = (gone, ledger)) {notes : List Note}
    (hnotes : notes.countP (·.isDrop) = c.notes.countP (·.isDrop) + gone.toList.length)
    {plans' : Std.ExtTreeMap Stage Farewell}
    (hplans : ∀ t f, plans'[t]? = some f → plans[t]? = some f ∧ (s = t → gone = none)) :
    Sound { c with ledger, notes } plans' (uses ++ pending) := by
  intro hm
  have hc := h hm
  have hgone := Ledger.isSome_release hc.regular.backed s
  have hdestroyed := c.ledger.destroyed_release s
  have hregular := hc.regular.settle (List.forall_mem_nil _) [s]
  have hshares (t : Stage) := c.ledger.shares_release s t
  simp only [Ledger.retainAll, List.foldl_nil, Ledger.releaseAll, hr] at hregular
  simp only [hr] at hgone hdestroyed hshares
  refine ⟨hc.unarmed, hc.store, hregular, fun t => ?_, ?_, fun {t f} ht => ?_⟩
  · have := hc.shares t
    rw [hshares]
    simp only [List.count_append, List.count_cons, beq_iff_eq] at this ⊢
    split_ifs at this ⊢ <;> omega
  · rw [hnotes, hc.noted, hdestroyed]
  · obtain ⟨hplan, hlives⟩ := hplans t f ht
    have hpos := hc.awaits hplan
    rw [hshares]
    split_ifs with heq
    · have hmany : c.ledger.shares s ≠ 1 := by
        rw [Ne, ← hgone, hlives heq]
        exact Bool.false_ne_true
      rw [heq] at hmany
      omega
    · exact hpos

/-- However many farewells are spoken on the way, in the end nothing waits to be released. -/
theorem Sound.settle (h : c.Sound plans (uses ++ pending)) :
    (Scene.settle plans c pending).2.Sound (Scene.settle plans c pending).1 uses := by
  fun_induction Scene.settle plans c pending with
  | case1 plans c =>
    rw [List.append_nil] at h
    exact h
  | case2 plans c s pending ledger hr ih =>
    -- other shares are out, so a farewell of the stage is not spoken yet
    exact ih (h.release hr rfl fun t f ht => ⟨ht, fun _ => rfl⟩)
  | case3 plans c s pending name ledger hr d hnone ih =>
    refine ih (h.release hr ?_ fun t f ht => ⟨ht, ?_⟩)
    · simp [List.countP_append, Note.isDrop]
    · rintro rfl
      rw [hnone] at ht
      cases ht
  | case4 plans c s pending name ledger hr d f hsome lost e hfarewell ih =>
    have hd : d.Sound (plans.erase s) (uses ++ pending) := by
      refine h.release hr ?_ fun t f ht => ?_
      · simp [List.countP_append, Note.isDrop]
      · rw [Std.ExtTreeMap.getElem?_erase] at ht
        split_ifs at ht with heq
        exact ⟨ht, fun h => absurd (Std.LawfulEqOrd.compare_eq_iff_eq.2 h) heq⟩
    have he := hd.farewell f
    rw [hfarewell] at he
    refine ih (he.congr fun t => ?_)
    simp only [List.count_append]
    omega

end Scene

namespace Cascade

variable {c : Cascade} {name : String}

/-- The scene is sound, with the stages that the caller holds in use. -/
def Sound (c : Cascade) : Prop := c.scene.Sound c.plans c.held.values

theorem sound_start (watched : Bool) : (start watched).Sound := by
  intro hm
  refine ⟨rfl, Store.consistent_empty 0, Ledger.regular_empty, fun t => ?_, rfl, fun ht => ?_⟩
  · have hstages : (start watched).scene.cache.store.stages = [] :=
      congrArg (List.map _) Store.rows_empty
    rw [hstages]
    simp [start, values_empty, Ledger.empty, Ledger.shares]
  · simp [start] at ht

theorem Sound.settle {r : Reply × List Stage × Scene}
    (h : r.2.2.Sound c.plans (c.held.values ++ r.2.1)) : (c.settle r).2.Sound :=
  Scene.Sound.settle h

theorem Sound.perform (h : c.Sound) {op : Operation Stage String Int}
    (hop : ∀ stage key, op = .insert stage key → stage ∈ c.held.values) :
    (c.perform op).2.Sound :=
  Sound.settle (Scene.Sound.perform h hop)

theorem Sound.release (h : c.Sound) (name : String) : (c.release name).2.Sound := by
  unfold Cascade.release
  cases hheld : c.held[name]? with
  | none => exact h
  | some stage =>
    refine Sound.settle (Scene.Sound.congr h fun t => ?_)
    have hperm := values_erase_perm c.held name
    rw [hheld] at hperm
    exact (hperm.count_eq t).symm

/-- Where the caller holds no stage of the name, a new one is made. -/
theorem Sound.obtain (h : c.Sound) (name : String) (farewell : Option Farewell) :
    (c.obtain name farewell).2.Sound ∧
      (c.obtain name farewell).1 ∈ (c.obtain name farewell).2.held.values := by
  unfold Cascade.obtain
  cases hheld : c.held[name]? with
  | some stage => exact ⟨h, mem_values.2 ⟨name, hheld⟩⟩
  | none =>
    refine ⟨?_, mem_values.2 ⟨name, Std.ExtTreeMap.getElem?_insert_self⟩⟩
    have hperm := values_insert_perm c.held name (c.scene.ledger.create name).1
    rw [hheld, Option.toList_none, List.append_nil] at hperm
    refine Scene.Sound.congr (Scene.Sound.create h name fun t f ht => ?_)
      fun t => (hperm.count_eq t).symm
    cases farewell with
    | none => exact .inr ht
    | some f' =>
      rw [Std.ExtTreeMap.getElem?_insert] at ht
      split_ifs at ht with heq
      · exact .inl (Std.LawfulEqOrd.eq_of_compare heq).symm
      · exact .inr ht

theorem Sound.move (h : c.Sound) (m : Move) : (c.move m).2.Sound := by
  cases m with
  | insert name key keep farewell =>
    obtain ⟨hobtain, hheld⟩ := h.obtain name farewell
    have hinsert := hobtain.perform fun stage key'
        (heq : .insert (c.obtain name farewell).1 key = Operation.insert stage key') => by
      rw [← (Operation.insert.inj heq).1]
      exact hheld
    cases keep with
    | true => exact hinsert
    | false => exact hinsert.release name
  | release name => exact h.release name
  | eraseStage name =>
    simp only [Cascade.move]
    cases c.held[name]? with
    | none => exact h
    | some stage => exact h.perform nofun
  | erase id => exact h.perform nofun
  | find id => exact h.perform nofun
  | eraseAll q => exact h.perform nofun
  | findAll q => exact h.perform nofun
  | clear => exact Sound.settle (Scene.Sound.clear h)
  | rename name =>
    simp only [Cascade.move]
    cases hr : c.scene.cache.rename name with
    | error fault => exact h
    | ok cache =>
      rw [Cache.rename_eq hr]
      intro hm
      obtain ⟨unarmed, store, regular, shares, noted, awaits⟩ := h hm
      exact ⟨unarmed, store, regular, shares, noted, awaits⟩

/-- The moves in order. -/
def run (c : Cascade) (moves : List Move) : Cascade := moves.foldl (fun c m => (c.move m).2) c

theorem Sound.run (h : c.Sound) (moves : List Move) : (c.run moves).Sound := by
  induction moves generalizing c with
  | nil => exact h
  | cons m ms ih => exact ih (h.move m)

/-- After any moves that did not use up the ids, whatever the stages did as they went: the indexes
of the cache agree; a stage has a share for each name the caller holds it by, and one for its entry;
every stage that was made is live or was noted as destroyed, once; and no farewell of a destroyed
stage is left unspoken. -/
theorem moves_settled (watched : Bool) (moves : List Move) {c : Cascade}
    (hc : c = (start watched).run moves) (hm : c.scene.ambient.minted < 2 ^ 63 - 1) :
    c.scene.cache.store.Consistent c.scene.ambient.minted ∧
    (∀ t, c.scene.ledger.shares t =
      c.held.values.count t + c.scene.cache.store.stages.count t) ∧
    c.scene.ledger.live.size + c.scene.notes.countP (·.isDrop) = c.scene.ledger.created ∧
    (∀ t f, c.plans[t]? = some f → t ∈ c.held.values ∨ t ∈ c.scene.cache.store.stages) := by
  have hs : c.scene.Settled c.plans c.held.values := by
    subst hc
    exact (sound_start watched).run moves hm
  refine ⟨hs.store, hs.shares, ?_, fun t f ht => ?_⟩
  · rw [hs.noted]
    exact hs.regular.total
  · have hpos := hs.awaits ht
    rw [hs.shares] at hpos
    by_contra hnone
    rw [not_or] at hnone
    rw [List.count_eq_zero.2 hnone.1, List.count_eq_zero.2 hnone.2] at hpos
    exact Nat.lt_irrefl 0 hpos

/-- Of two stages that are erased, the first one inserts a third as it goes, and the second erases
that. -/
example : ((start true).run [.insert "a" ⟨"r", none, 0⟩ false (some (.insert "b")),
    .insert "c" ⟨"r", none, 0⟩ false (some (.eraseAll "reborn")),
    .eraseAll (.ofRoot "r")]).scene.notes.map (·.isDrop) =
      [false, false, false, true, false, true, false, true] := by cbv

end Cascade

end SharedStages
