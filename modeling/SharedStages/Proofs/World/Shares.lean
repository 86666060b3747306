import SharedStages.Proofs.World.History
import SharedStages.Proofs.World.Uses

/-! The shares in a stage over a whole run: they are the uses that are made of it, and when the last
of them ends the stage is destroyed, once and for all. -/

namespace SharedStages

/-- Lists without repetition hold an element once or not at all. -/
theorem count_flatMap_of_nodup {α β : Type} [DecidableEq β] {l : List α} {f : α → List β}
    (h : ∀ a ∈ l, (f a).Nodup) (b : β) : (l.flatMap f).count b = l.countP (b ∈ f ·) := by
  induction l with
  | nil => rfl
  | cons a l ih =>
    rw [List.flatMap_cons, List.count_append, List.countP_cons,
      ih fun x hx => h x (List.mem_cons_of_mem _ hx), (h a List.mem_cons_self).count]
    simp only [decide_eq_true_eq]
    exact Nat.add_comm _ _

namespace World

variable {H C : Type} [Ord H] [Std.TransOrd H] [DecidableEq H] [DecidableEq C]
  [Std.LawfulEqOrd H]

section Step

variable {w : World H C} {s : Step (Layer H) C} {t : Stage}

/-- What a step destroys has shares before the step and none after it. -/
theorem Balanced.destroyed_iff (h : w.Balanced) (hw : w.Sound)
    (hm : (w.step s).1.minted < 2 ^ 63 - 1) :
    t ∈ (w.step s).2.destroyed.map (·.1) ↔
      0 < w.ledger.shares t ∧ (w.step s).1.ledger.shares t = 0 := by
  have hb := h.booked_step hw s hm
  rw [hb.destroyed_iff]
  cases s with
  | create handle label key =>
    rw [opened, Ledger.shares_create]
    split_ifs with ht
    · -- The caller has the stage just made, so it is not among the destroyed ones.
      have hheld : t ∈ (w.step (.create handle label key)).1.uses :=
        mem_uses.2 (.inl ⟨handle, ht ▸ Std.ExtTreeMap.getElem?_insert_self⟩)
      have := hb.balanced.shares_pos hheld
      omega
    · rfl
  | _ => rfl

theorem Balanced.created_step (h : w.Balanced) (hw : w.Sound)
    (hm : (w.step s).1.minted < 2 ^ 63 - 1) :
    (w.step s).1.ledger.created = w.ledger.created + s.isCreation.toNat := by
  rw [(h.booked_step hw s hm).created]
  cases s <;> rfl

theorem Balanced.counted_step (h : w.Balanced) (hw : w.Sound)
    (hm : (w.step s).1.minted < 2 ^ 63 - 1) :
    (w.step s).1.ledger.destroyed = w.ledger.destroyed + (w.step s).2.destroyed.length := by
  rw [(h.booked_step hw s hm).counted]
  cases s <;> rfl

/-- A stage that was made before and has no shares gets none. -/
theorem Balanced.gone_step (h : w.Balanced) (hw : w.Sound)
    (hm : (w.step s).1.minted < 2 ^ 63 - 1) (ht : t.serial < w.ledger.created)
    (hnone : w.ledger.shares t = 0) : (w.step s).1.ledger.shares t = 0 := by
  apply (h.booked_step hw s hm).gone
  cases s with
  | create handle label key =>
    rw [opened, Ledger.shares_create, if_neg, hnone]
    rintro rfl
    exact Nat.lt_irrefl _ ht
  | _ => exact hnone

/-- The stages destroyed in a run, in the order in which they go. -/
def gone (w : World H C) (steps : List (Step (Layer H) C)) : List Stage :=
  (w.run steps).2.flatMap fun r => r.destroyed.map (·.1)

theorem Balanced.run (h : w.Balanced) (hw : w.Sound) (steps : List (Step (Layer H) C))
    (hm : (w.run steps).1.minted < 2 ^ 63 - 1) : (w.run steps).1.Balanced := by
  induction steps generalizing w with
  | nil => exact h
  | cons s steps ih =>
    have hm' := (minted_le_run (w.step s).1 steps).trans_lt hm
    exact ih (h.booked_step hw s hm').balanced (hw.step s hm') hm

/-- A stage without shares has none at the end of the run either. -/
theorem Balanced.gone_run (h : w.Balanced) (hw : w.Sound) (steps : List (Step (Layer H) C))
    (hm : (w.run steps).1.minted < 2 ^ 63 - 1) (ht : t.serial < w.ledger.created)
    (hnone : w.ledger.shares t = 0) : (w.run steps).1.ledger.shares t = 0 := by
  induction steps generalizing w with
  | nil => exact hnone
  | cons s steps ih =>
    have hm' := (minted_le_run (w.step s).1 steps).trans_lt hm
    have hcreated := h.created_step hw hm'
    exact ih (w := (w.step s).1) (h.booked_step hw s hm').balanced (hw.step s hm') hm (by omega)
      (h.gone_step hw hm' ht hnone)

/-- What a run destroys had shares at its beginning, or was made on the way, and has none at its
end. -/
theorem Balanced.of_mem_gone (h : w.Balanced) (hw : w.Sound) {steps : List (Step (Layer H) C)}
    (hm : (w.run steps).1.minted < 2 ^ 63 - 1) (ht : t ∈ w.gone steps) :
    (t.serial < w.ledger.created → 0 < w.ledger.shares t) ∧
      (w.run steps).1.ledger.shares t = 0 := by
  induction steps generalizing w with
  | nil => cases ht
  | cons s steps ih =>
    have hm' := (minted_le_run (w.step s).1 steps).trans_lt hm
    have hb := (h.booked_step hw s hm').balanced
    have hw' := hw.step s hm'
    have hcreated := h.created_step hw hm'
    rcases List.mem_append.1 ht with ht | ht
    · obtain ⟨hpos, hnone⟩ := (h.destroyed_iff hw hm').1 ht
      have hserial := h.regular.issued (Ledger.mem_live_of_shares_pos hpos)
      exact ⟨fun _ => hpos, hb.gone_run hw' steps hm (by omega) hnone⟩
    · obtain ⟨hpos, hnone⟩ := ih hb hw' hm ht
      refine ⟨fun hserial => Nat.pos_of_ne_zero fun hzero => ?_, hnone⟩
      have := hpos (by omega)
      rw [h.gone_step hw hm' hserial hzero] at this
      exact Nat.lt_irrefl _ this

/-- No stage is destroyed twice. -/
theorem Balanced.nodup_gone (h : w.Balanced) (hw : w.Sound) (steps : List (Step (Layer H) C))
    (hm : (w.run steps).1.minted < 2 ^ 63 - 1) : (w.gone steps).Nodup := by
  induction steps generalizing w with
  | nil => exact List.nodup_nil
  | cons s steps ih =>
    have hm' := (minted_le_run (w.step s).1 steps).trans_lt hm
    have hbooked := h.booked_step hw s hm'
    have hb := hbooked.balanced
    have hw' := hw.step s hm'
    refine List.nodup_append.2 ⟨hbooked.nodup, ih hb hw' hm, ?_⟩
    rintro t ht u hu rfl
    obtain ⟨hpos, hnone⟩ := (h.destroyed_iff hw hm').1 ht
    have hserial := h.regular.issued (Ledger.mem_live_of_shares_pos hpos)
    have hcreated := h.created_step hw hm'
    have := (hb.of_mem_gone hw' hm hu).1 (by omega)
    omega

theorem Balanced.counted_run (h : w.Balanced) (hw : w.Sound) (steps : List (Step (Layer H) C))
    (hm : (w.run steps).1.minted < 2 ^ 63 - 1) :
    (w.run steps).1.ledger.destroyed = w.ledger.destroyed + (w.gone steps).length ∧
      (w.run steps).1.ledger.created = w.ledger.created + steps.countP (·.isCreation) := by
  induction steps generalizing w with
  | nil => exact ⟨rfl, rfl⟩
  | cons s steps ih =>
    have hm' := (minted_le_run (w.step s).1 steps).trans_lt hm
    obtain ⟨hd, hc⟩ := ih (h.booked_step hw s hm').balanced (hw.step s hm') hm
    rw [h.counted_step hw hm'] at hd
    rw [h.created_step hw hm'] at hc
    constructor
    · rw [run_cons]
      simp only [gone, run_cons, List.flatMap_cons, List.length_append, List.length_map] at hd ⊢
      omega
    · rw [run_cons, List.countP_cons]
      simp only [hc]
      cases s.isCreation <;> simp [Nat.add_assoc, Nat.add_comm]

omit [DecidableEq H] [DecidableEq C] [Std.LawfulEqOrd H] in
/-- A cache has a stage once, however often it was inserted. -/
theorem Sound.count_uses (hw : w.Sound) (once : w.held.values.Nodup) (t : Stage) :
    w.uses.count t = (if t ∈ w.held.values then 1 else 0) +
      w.caches.values.countP fun c => t ∈ c.store.stages := by
  rw [uses, List.count_append, once.count, count_flatMap_of_nodup]
  intro c hc
  obtain ⟨name, hname⟩ := mem_values.1 hc
  exact List.nodup_iff_pairwise_ne.2 (List.pairwise_map.2 (hw hname).stage_ne)

end Step

/-- How the stages of a run are counted, and when they go. -/
structure SharesKept (steps : List (Step (Layer H) C)) : Prop where
  /-- A stage has one share for the caller's handle and one for each cache that has it. -/
  shares (t : ℕ) (s : Stage) : (moment steps t).ledger.shares s =
    (if s ∈ (moment steps t).held.values then 1 else 0) +
      (moment steps t).caches.values.countP fun c => s ∈ c.store.stages
  /-- No entry of a cache is of a stage that was destroyed. -/
  entries {t : ℕ} {name : String} {c : Cache H C} {id : StageId} {e : Entry H C} :
    (moment steps t).caches[name]? = some c → c.store.entries[id]? = some e →
    e.stage ∈ (moment steps t).ledger.live ∧ e.stage ∉ empty.gone (steps.take t)
  /-- Nor does its index by stage refer to one. -/
  byStage {t : ℕ} {name : String} {c : Cache H C} {id : StageId} {s : Stage} :
    (moment steps t).caches[name]? = some c → c.store.byStage[s]? = some id →
    s ∈ (moment steps t).ledger.live ∧ s ∉ empty.gone (steps.take t)
  /-- A step destroys the stages that have shares before it and none after it. -/
  destroyed {t : ℕ} {s : Stage} {r : Report H C} : (empty.run steps).2[t]? = some r →
    (s ∈ r.destroyed.map (·.1) ↔
      0 < (moment steps t).ledger.shares s ∧ (moment steps (t + 1)).ledger.shares s = 0)
  once : (empty.gone steps).Nodup
  /-- The counter of the destroyed stages is the number of those made without those in use. -/
  counter (t : ℕ) : (moment steps t).ledger.destroyed = (empty.gone (steps.take t)).length ∧
    (moment steps t).ledger.destroyed + (moment steps t).uses.toFinset.card =
      (steps.take t).countP (·.isCreation)

/-- In every run that does not use up the ids, the shares in a stage are the uses made of it, and it
is destroyed once, in the step that ends the last of them. -/
theorem shares_kept (steps : List (Step (Layer H) C))
    (hm : (empty.run steps).1.minted < 2 ^ 63 - 1) : SharesKept steps := by
  have hmt (t : ℕ) := (minted_le_end steps t).trans_lt hm
  have hb (t : ℕ) : (moment steps t).Balanced := balanced_empty.run sound_empty _ (hmt t)
  have hgone {t : ℕ} {s : Stage} (hs : s ∈ (moment steps t).uses) :
      s ∈ (moment steps t).ledger.live ∧ s ∉ empty.gone (steps.take t) := by
    refine ⟨(hb t).mem_live.2 hs, fun hmem => ?_⟩
    have hnone := (balanced_empty.of_mem_gone sound_empty (hmt t) hmem).2
    exact ((hb t).shares_pos hs).ne' hnone
  constructor
  case shares =>
    intro t s
    rw [(hb t).shares, (sound_moment hm t).count_uses (hb t).once]
  case entries =>
    intro t name c id e hc he
    have hid := (sound_moment hm t hc).id_eq he
    have hrow : e ∈ c.store.rows := (sound_moment hm t hc).mem_rows.2 (by rwa [hid])
    exact hgone (mem_uses_of_stages hc (List.mem_map_of_mem hrow))
  case byStage =>
    intro t name c id s hc hs
    apply hgone (mem_uses_of_stages hc ((sound_moment hm t hc).mem_stages.2 _))
    rw [Std.ExtTreeMap.contains_eq_isSome_getElem?, hs, Option.isSome_some]
  case destroyed =>
    intro t s r hr
    rw [getElem?_run] at hr
    obtain ⟨step, hstep, rfl⟩ := Option.map_eq_some_iff.1 hr
    have hnext := moment_succ hstep
    have hm' := hmt (t + 1)
    rw [hnext] at hm' ⊢
    exact (hb t).destroyed_iff (sound_moment hm t) hm'
  case once => exact balanced_empty.nodup_gone sound_empty steps hm
  case counter =>
    intro t
    obtain ⟨hd, hc⟩ := balanced_empty.counted_run sound_empty (steps.take t) (hmt t)
    have hcard := (hb t).card_uses
    simp only [moment] at hcard ⊢
    rw [hd, hc] at hcard
    rw [hd]
    simpa [empty, Ledger.empty] using hcard

/-- A copy of a cache keeps the stages that the caller lets go. Of those two, the cache has one left
after an erasure that trips halfway, and the copy erases the other one, which is destroyed by it. -/
def lettingGo : List (Step (Layer ℕ) ℕ) :=
  [.create (some "s") "s" none, .create (some "t") "t" none, .new "a",
    .perform "a" (.insert (some "s") ⟨⟨1, 0⟩, none, 0⟩),
    .perform "a" (.insert (some "s") ⟨⟨1, 0⟩, none, 0⟩),
    .perform "a" (.insert (some "t") ⟨⟨1, 1⟩, none, 0⟩), .copy "a" "b", .release (some "s"),
    .release (some "t"), .arm ⟨1, 1⟩, .perform "a" (.eraseAll (.ofRoot ⟨1, 2⟩)),
    .perform "b" (.erase (.ofSerial 0))]

theorem shares_kept_lettingGo : (empty.run lettingGo).1.minted < 2 ^ 63 - 1 ∧
    answerAt lettingGo 10 = some (.tripped 1) ∧
    (moment lettingGo 11).ledger.shares ⟨0⟩ =
      (if ⟨0⟩ ∈ (moment lettingGo 11).held.values then 1 else 0) +
        (moment lettingGo 11).caches.values.countP (fun c => ⟨0⟩ ∈ c.store.stages) ∧
    (moment lettingGo 11).ledger.shares ⟨0⟩ = 1 ∧
    (moment lettingGo 12).ledger.destroyed + (moment lettingGo 12).uses.toFinset.card = 2 := by
  have hm : (empty.run lettingGo).1.minted < 2 ^ 63 - 1 := by cbv
  have htrip : answerAt lettingGo 10 = some (.tripped 1) := by cbv
  have hone : (moment lettingGo 11).ledger.shares ⟨0⟩ = 1 := by cbv
  have h := shares_kept lettingGo hm
  exact ⟨hm, htrip, h.shares 11 ⟨0⟩, hone, (h.counter 12).2⟩

end World

end SharedStages
