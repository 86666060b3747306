import Mathlib
import SharedStages.Proofs.World.Origin
import SharedStages.World.Bulk

/-! The worlds that a run of steps can reach. In each of them the indexes of every cache agree, no
matter which layers were armed on the way and what tripped. -/

namespace SharedStages

namespace Cache

variable {H C : Type} [Ord H]

theorem ofConfig_eq {config : Config} {k : ℕ} {c : Cache H C} (h : ofConfig config k = .ok c) :
    c.store = .empty ∧ c.instanceNumber = k := by
  unfold ofConfig at h
  cases hv : config.validate with
  | error fault => simp [hv] at h
  | ok u =>
    simp only [hv] at h
    cases h
    exact ⟨rfl, rfl⟩

theorem rename_eq {c c' : Cache H C} {text : String} (h : c.rename text = .ok c') :
    c' = { c with name := text } := by
  unfold rename at h
  cases hv : Config.checkName text with
  | error fault => simp [hv] at h
  | ok u =>
    simp only [hv] at h
    cases h
    rfl

end Cache

namespace World

variable {H C : Type} [Ord H] [Std.TransOrd H] [DecidableEq H] [DecidableEq C]

/-- What every step keeps is kept by every run. -/
theorem run_induction {P : World H C → Prop} (hstep : ∀ w s, P w → P (w.step s).1)
    {w : World H C} (hw : P w) (steps : List (Step (Layer H) C)) : P (w.run steps).1 := by
  induction steps generalizing w with
  | nil => exact hw
  | cons s ss ih => exact ih (hstep w s hw)

theorem run_append (w : World H C) (ss ts : List (Step (Layer H) C)) :
    (w.run (ss ++ ts)).1 = ((w.run ss).1.run ts).1 := by
  induction ss generalizing w with
  | nil => rfl
  | cons s ss ih => exact ih _

theorem insertItems_reaches (b : Bulk H C) (ownKey : String → Option (Key H C)) (w : World H C)
    (is : List ℕ) : ∃ steps, (insertItems b ownKey w is).1 = (w.run steps).1 := by
  induction is generalizing w with
  | nil => exact ⟨[], rfl⟩
  | cons i is ih =>
    obtain ⟨v, rs, hrun⟩ : ∃ v rs, w.run (b.insertion ownKey i) = (v, rs) := ⟨_, _, rfl⟩
    have hhere (s : Step (Layer H) C) : (w.run (b.insertion ownKey i ++ [s])).1 = (v.step s).1 := by
      rw [run_append, hrun]
      rfl
    simp only [insertItems, hrun]
    cases rs.any (·.hasTripped) with
    | true => exact ⟨_, (hhere _).symm⟩
    | false =>
      obtain ⟨later, hlater⟩ := ih (v.step (b.conclusion i false)).1
      refine ⟨b.insertion ownKey i ++ [b.conclusion i false] ++ later, ?_⟩
      rw [run_append, hhere]
      exact hlater

/-- An insertion of many stages is a run of steps, so it reaches nothing that steps do not. -/
theorem bulkInsert_reaches (w : World H C) (b : Bulk H C) (ownKey : String → Option (Key H C)) :
    ∃ steps, (w.bulkInsert b ownKey).1 = (w.run steps).1 := by
  unfold bulkInsert
  split_ifs
  · exact insertItems_reaches b ownKey w _
  · exact ⟨[], rfl⟩

section Minted

variable {w : World H C} {s : Step (Layer H) C}

/-- An operation that trips spends its ids too. -/
theorem step_minted {cache : String} {op : Operation Stage (Layer H) C}
    (hs : w.operation? s = some (cache, op)) {c : Cache H C} (hc : w.caches[cache]? = some c) :
    (w.step s).1.minted = w.minted + op.spent c.store := by
  rw [step_of_operation? hs hc, performOn_eq]
  cases (op.layers c.store).find? (w.armed.contains ·) <;> rfl

theorem minted_le_step (w : World H C) (s : Step (Layer H) C) : w.minted ≤ (w.step s).1.minted := by
  have ht := step_transition w s
  generalize w.step s = x at ht
  cases ht with
  | perform hs hc hl => exact Nat.le_add_right _ _
  | performTrips hs hc hl => exact Nat.le_add_right _ _
  | _ => exact le_rfl

theorem instances_le_step (w : World H C) (s : Step (Layer H) C) :
    w.instances ≤ (w.step s).1.instances := by
  have ht := step_transition w s
  generalize w.step s = x at ht
  cases ht with
  | new => exact Nat.le_succ _
  | configure hc => exact Nat.le_succ _
  | copy hc hl => exact Nat.le_succ _
  | _ => exact le_rfl

theorem minted_le_run (w : World H C) (steps : List (Step (Layer H) C)) :
    w.minted ≤ (w.run steps).1.minted := by
  apply run_induction (P := fun v => w.minted ≤ v.minted)
  · exact fun v s hv => hv.trans (v.minted_le_step s)
  · exact le_rfl

end Minted

section Numbered

/-- Every cache has an instance number of its own, from among those given out. -/
structure Numbered (caches : Std.ExtTreeMap String (Cache H C)) (instances : ℕ) : Prop where
  lt {name : String} {c : Cache H C} : caches[name]? = some c → c.instanceNumber < instances
  inj {name other : String} {c d : Cache H C} : caches[name]? = some c →
    caches[other]? = some d → c.instanceNumber = d.instanceNumber → name = other

variable {caches : Std.ExtTreeMap String (Cache H C)} {k : ℕ}

omit [Std.TransOrd H] [DecidableEq H] [DecidableEq C]

/-- A cache that is new has the next number. -/
theorem Numbered.install (h : Numbered caches k) (name : String) {c : Cache H C}
    (hk : c.instanceNumber = k) : Numbered (caches.insert name c) (k + 1) := by
  constructor
  · intro other d hd
    rcases eq_or_of_getElem?_insert hd with ⟨-, rfl⟩ | hd
    · omega
    · have := h.lt hd
      omega
  · intro m m' d d' hd hd' heq
    rcases eq_or_of_getElem?_insert hd with ⟨rfl, rfl⟩ | hd <;>
      rcases eq_or_of_getElem?_insert hd' with ⟨rfl, rfl⟩ | hd'
    · rfl
    · have := h.lt hd'
      omega
    · have := h.lt hd
      omega
    · exact h.inj hd hd' heq

/-- A cache that is changed keeps its number. -/
theorem Numbered.update (h : Numbered caches k) {name : String} {c c' : Cache H C}
    (hc : caches[name]? = some c) (hn : c'.instanceNumber = c.instanceNumber) :
    Numbered (caches.insert name c') k := by
  constructor
  · intro other d hd
    rcases eq_or_of_getElem?_insert hd with ⟨-, rfl⟩ | hd
    · exact hn ▸ h.lt hc
    · exact h.lt hd
  · intro m m' d d' hd hd' heq
    rcases eq_or_of_getElem?_insert hd with ⟨rfl, rfl⟩ | hd <;>
      rcases eq_or_of_getElem?_insert hd' with ⟨rfl, rfl⟩ | hd'
    · rfl
    · exact h.inj hc hd' (hn.symm.trans heq)
    · exact h.inj hd hc (heq.trans hn)
    · exact h.inj hd hd' heq

theorem Numbered.erase (h : Numbered caches k) (name : String) :
    Numbered (caches.erase name) k := by
  have hsub : ∀ {m : String} {d : Cache H C}, (caches.erase name)[m]? = some d →
      caches[m]? = some d := by
    intro m d hd
    rw [Std.ExtTreeMap.getElem?_erase] at hd
    split_ifs at hd
    exact hd
  exact ⟨fun hd => h.lt (hsub hd), fun hd hd' => h.inj (hsub hd) (hsub hd')⟩

end Numbered

theorem numbered_step (w : World H C) (s : Step (Layer H) C) (h : Numbered w.caches w.instances) :
    Numbered (w.step s).1.caches (w.step s).1.instances := by
  have ht := step_transition w s
  generalize w.step s = x at ht
  cases ht with
  | new => exact h.install _ rfl
  | configure hc => exact h.install _ (Cache.ofConfig_eq hc).2
  | copy hc hl => exact h.install _ rfl
  | observe hc => exact h.update hc rfl
  | rename hc hr =>
    rw [Cache.rename_eq hr]
    exact h.update hc rfl
  | copyFrom hc hd hl => exact h.update hc rfl
  | @swap cache other c d hc hd =>
    have hswap : Numbered (w.caches.insert cache (c.swap d).1) w.instances := h.update hc rfl
    by_cases hco : cache = other
    · subst hco
      rw [hc] at hd
      cases hd
      exact hswap.update Std.ExtTreeMap.getElem?_insert_self rfl
    · have hd' : (w.caches.insert cache (c.swap d).1)[other]? = some d := by
        rw [Std.ExtTreeMap.getElem?_insert, if_neg (by simpa using hco), hd]
      exact hswap.update hd' rfl
  | discard hc => exact h.erase _
  | perform hs hc hl => exact h.update hc rfl
  | performTrips hs hc hl => exact h.update hc rfl
  | _ => exact h

variable [Std.LawfulEqOrd H]

/-- The indexes of every cache agree. -/
def Sound (w : World H C) : Prop :=
  ∀ ⦃name : String⦄ ⦃c : Cache H C⦄, w.caches[name]? = some c → c.store.Consistent w.minted

/-- A cache has its store from one that agreed before, or changed it by one operation, which may
have ended halfway. -/
theorem Sound.step {w : World H C} (h : w.Sound) (s : Step (Layer H) C)
    (hm : (w.step s).1.minted < 2 ^ 63 - 1) : (w.step s).1.Sound := by
  intro name c' hc'
  have hle := w.minted_le_step s
  cases origin hc' with
  | kept hc => exact (h hc).mono hle
  | made => exact Store.consistent_empty _
  | configured hc =>
    rw [(Cache.ofConfig_eq hc).1]
    exact Store.consistent_empty _
  | observed hc => exact (h hc).mono hle
  | renamed hc hr =>
    rw [Cache.rename_eq hr]
    exact (h hc).mono hle
  | copied hd => exact (h hd).mono hle
  | overwritten hc hd => exact (h hd).mono hle
  | swapped hc hd => exact (h hd).mono hle
  | swappedBack hc hd => exact (h hc).mono hle
  | performed hs hc hl =>
    rw [step_minted hs hc] at hm ⊢
    exact Operation.consistent_after _ (h hc) hm
  | interrupted hs hc hl => exact ((h hc).foldl_remove _).mono hle

theorem Sound.run {w : World H C} (h : w.Sound) (steps : List (Step (Layer H) C))
    (hm : (w.run steps).1.minted < 2 ^ 63 - 1) : (w.run steps).1.Sound := by
  have hrun := run_induction (P := fun v : World H C => v.minted < 2 ^ 63 - 1 → v.Sound)
    (fun v s hv hm => (hv ((v.minted_le_step s).trans_lt hm)).step s hm) (fun _ => h) steps
  exact hrun hm

omit [DecidableEq H] [DecidableEq C] [Std.LawfulEqOrd H] in
theorem sound_empty : (empty : World H C).Sound := by
  intro name c hc
  simp [empty] at hc

/-- Every store that a run can reach: an entry has the id it is filed under, an id that was
minted; a stage leads to the one id that holds it; a root leads to the ids of its entries, each
once and in ascending order, and without any entry it leads nowhere. -/
theorem indexes_agree (steps : List (Step (Layer H) C))
    (hm : (empty.run steps).1.minted < 2 ^ 63 - 1) {name : String} {c : Cache H C}
    (hc : (empty.run steps).1.caches[name]? = some c) :
    (∀ (id : StageId) (e : Entry H C), c.store.entries[id]? = some e →
      e.id = id ∧ 1 ≤ id.toInt ∧ id < .ofSerial (empty.run steps).1.minted) ∧
    (∀ (stage : Stage) (id : StageId), c.store.byStage[stage]? = some id ↔
      ∃ e, c.store.entries[id]? = some e ∧ e.stage = stage) ∧
    (∀ (i j : StageId) (e f : Entry H C), c.store.entries[i]? = some e →
      c.store.entries[j]? = some f → e.stage = f.stage → i = j) ∧
    (∀ (root : H) (ids : Std.ExtTreeSet StageId), c.store.byRoot[root]?.map (·.ids) = some ids ↔
      ids ≠ ∅ ∧ ∀ id : StageId, id ∈ ids ↔ ∃ e, c.store.entries[id]? = some e ∧ e.key.root = root) ∧
    (∀ (root : H) (b : Bucket H), c.store.byRoot[root]? = some b →
      b.root.name = root ∧ b.ids.toList.Pairwise (· < ·)) := by
  have h := sound_empty.run steps hm hc
  refine ⟨fun id e he => ?_, fun _ _ => h.byStage_iff, fun _ _ _ _ he hf => h.id_unique he hf,
    fun _ _ => h.ids_eq_some_iff, fun root b hb => ?_⟩
  · obtain ⟨hpos, hle⟩ := h.issued he
    refine ⟨h.id_eq he, hpos, ?_⟩
    rw [StageId.lt_def, StageId.toInt_ofSerial hm]
    omega
  · have := c.store.bucket_ascending root
    rw [Store.bucket, hb] at this
    exact ⟨h.root_name hb, this⟩

/-- Of two stages the second is inserted only at the second attempt, as the first one trips; a
copy of the cache, made in between, erases its one stage and is then overwritten. -/
def sampleRun : List (Step (Layer ℕ) ℕ) :=
  [.create (some "s") "s" none, .create (some "t") "t" none, .new "a",
    .perform "a" (.insert (some "s") ⟨.shared 1, none, 0⟩), .arm (.shared 2),
    .perform "a" (.insert (some "t") ⟨.shared 2, none, 0⟩), .copy "a" "b",
    .perform "a" (.insert (some "t") ⟨.shared 1, some (.shared 2), 0⟩),
    .perform "b" (.erase (.ofSerial 0)), .copyFrom "b" "a"]

/-- Two stages are filed under one root, each by a handle of its own. An erasure by a third handle
takes out the first one and trips on the handle of the second. -/
def tornRun : List (Step (Layer ℕ) ℕ) :=
  [.create (some "s") "s" none, .create (some "t") "t" none, .new "a", .observe "a" .record,
    .perform "a" (.insert (some "s") ⟨⟨1, 0⟩, none, 0⟩),
    .perform "a" (.insert (some "t") ⟨⟨1, 1⟩, none, 0⟩), .arm ⟨1, 1⟩,
    .perform "a" (.eraseAll (.ofRoot ⟨1, 2⟩))]

/-- The half-done erasure at the end leaves the root with the id that is left. -/
theorem indexes_agree_tornRun : (empty.run tornRun).1.minted < 2 ^ 63 - 1 ∧
    ∃ c : Cache ℕ ℕ, (empty.run tornRun).1.caches["a"]? = some c ∧
      c.store.byRoot[1]?.map (·.ids.toList) = some [.ofSerial 1] ∧
      ∃ e, c.store.entries[StageId.ofSerial 1]? = some e ∧ e.key.root = 1 := by
  have hids : (empty.run tornRun).1.caches["a"]?.map
      (fun c => c.store.byRoot[1]?.map (·.ids.toList)) = some (some [.ofSerial 1]) := by cbv
  have hm : (empty.run tornRun).1.minted < 2 ^ 63 - 1 := by cbv
  obtain ⟨c, hc, hlist⟩ := Option.map_eq_some_iff.1 hids
  have h := indexes_agree tornRun hm hc
  refine ⟨hm, c, hc, hlist, ?_⟩
  obtain ⟨b, hb, hbids⟩ := Option.map_eq_some_iff.1 hlist
  have hmem : StageId.ofSerial 1 ∈ b.ids := by
    rw [← Std.ExtTreeSet.mem_toList, hbids]
    exact List.mem_singleton_self _
  exact ((h.2.2.2.1 1 b.ids).1 (by rw [hb, Option.map_some])).2 _ |>.1 hmem

end World

end SharedStages
