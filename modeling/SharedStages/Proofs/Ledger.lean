import Mathlib.Data.List.Sort
import SharedStages.Ledger

/-! How the shares of the stages develop. A stage is destroyed once its last share is given back.
Shares that are taken and given back again leave no trace, since every live stage has another share
out. -/

namespace SharedStages.Ledger

variable {α : Type} {l : Ledger α}

/-- Every live stage has a share out. -/
def Backed (l : Ledger α) : Prop :=
  ∀ ⦃s : Stage⦄ ⦃h : Holding α⦄, l.live[s]? = some h → 1 ≤ h.shares

theorem ext_live {l m : Ledger α} (h : ∀ t : Stage, l.live[t]? = m.live[t]?)
    (hc : l.created = m.created) (hd : l.destroyed = m.destroyed) : l = m := by
  cases l
  cases m
  congr 1
  exact Std.ExtTreeMap.ext_getElem? h

theorem getElem?_retain (l : Ledger α) (s t : Stage) : (l.retain s).live[t]? =
    if s = t then l.live[t]?.map fun h => { h with shares := h.shares + 1 }
    else l.live[t]? := by
  simp only [retain, Std.ExtTreeMap.getElem?_modify, Std.LawfulEqOrd.compare_eq_iff_eq]
  split_ifs with h
  · rw [h]
  · rfl

/-! What is known of a stage stays the same for as long as it lives. -/

theorem info?_create (l : Ledger α) (info : α) (t : Stage) :
    (l.create info).2.info? t = if t = ⟨l.created⟩ then some info else l.info? t := by
  simp only [create, info?, Std.ExtTreeMap.getElem?_insert, Std.LawfulEqOrd.compare_eq_iff_eq,
    eq_comm (a := t)]
  split_ifs <;> rfl

theorem info?_retain (l : Ledger α) (s t : Stage) : (l.retain s).info? t = l.info? t := by
  rw [info?, getElem?_retain]
  split_ifs
  · rw [Option.map_map]
    rfl
  · rfl

theorem info?_retainAll (l : Ledger α) (ss : List Stage) (t : Stage) :
    (l.retainAll ss).info? t = l.info? t := by
  induction ss generalizing l with
  | nil => rfl
  | cons s ss ih => exact (ih (l.retain s)).trans (l.info?_retain s t)

theorem info?_of_release {s t : Stage} {info : α} (h : (l.release s).2.info? t = some info) :
    l.info? t = some info := by
  unfold release at h
  cases hs : l.live[s]? with
  | none => simpa only [hs] using h
  | some x =>
    simp only [hs, info?] at h ⊢
    split_ifs at h
    · rw [Std.ExtTreeMap.getElem?_erase] at h
      split_ifs at h
      · cases h
      · exact h
    · rw [Std.ExtTreeMap.getElem?_insert] at h
      split_ifs at h with ht
      · rw [← Std.LawfulEqOrd.eq_of_compare ht, hs]
        exact h
      · exact h

theorem info?_of_releaseAll {ss : List Stage} {t : Stage} {info : α}
    (h : (l.releaseAll ss).2.info? t = some info) : l.info? t = some info := by
  induction ss generalizing l with
  | nil => exact h
  | cons s ss ih => exact info?_of_release (ih h)

theorem backed_empty : (empty : Ledger α).Backed := by
  intro s h hs
  simp [empty] at hs

theorem Backed.create (hl : l.Backed) (info : α) : (l.create info).2.Backed := by
  intro s h hs
  rw [Ledger.create, Std.ExtTreeMap.getElem?_insert] at hs
  split_ifs at hs
  · cases hs
    exact Nat.le_refl 1
  · exact hl hs

theorem Backed.retain (hl : l.Backed) (s : Stage) : (l.retain s).Backed := by
  intro t h ht
  rw [getElem?_retain] at ht
  split_ifs at ht
  · obtain ⟨g, -, rfl⟩ := Option.map_eq_some_iff.1 ht
    exact Nat.le_add_left 1 g.shares
  · exact hl ht

theorem Backed.retainAll (hl : l.Backed) (ss : List Stage) : (l.retainAll ss).Backed := by
  induction ss generalizing l with
  | nil => exact hl
  | cons s ss ih => exact ih (hl.retain s)

theorem Backed.release (hl : l.Backed) (s : Stage) : (l.release s).2.Backed := by
  unfold Ledger.release
  cases hs : l.live[s]? with
  | none => exact hl
  | some g =>
    intro t h ht
    dsimp only at ht
    split_ifs at ht with hg
    · rw [Std.ExtTreeMap.getElem?_erase] at ht
      split_ifs at ht
      exact hl ht
    · rw [Std.ExtTreeMap.getElem?_insert] at ht
      split_ifs at ht
      · cases ht
        have := hl hs
        dsimp only
        omega
      · exact hl ht

theorem Backed.releaseAll (hl : l.Backed) (ss : List Stage) : (l.releaseAll ss).2.Backed := by
  induction ss generalizing l with
  | nil => exact hl
  | cons s ss ih => exact ih (hl.release s)

theorem retain_comm (l : Ledger α) (s t : Stage) :
    (l.retain s).retain t = (l.retain t).retain s := by
  apply ext_live
  · intro u
    simp only [getElem?_retain]
    by_cases hs : s = u <;> by_cases ht : t = u <;> simp only [hs, ht, if_true, if_false]
  · rfl
  · rfl

theorem retainAll_retain (l : Ledger α) (s : Stage) (ss : List Stage) :
    (l.retain s).retainAll ss = (l.retainAll ss).retain s := by
  induction ss generalizing l with
  | nil => rfl
  | cons t ss ih =>
    change ((l.retain s).retain t).retainAll ss = ((l.retain t).retainAll ss).retain s
    rw [retain_comm, ih]

/-- The share just taken is not the last one. -/
theorem release_retain (hl : l.Backed) (s : Stage) : (l.retain s).release s = (none, l) := by
  unfold release
  have hlive := getElem?_retain l s s
  rw [if_pos rfl] at hlive
  rw [hlive]
  cases hs : l.live[s]? with
  | none =>
    have hself : l.retain s = l := by
      apply ext_live
      · intro t
        rw [getElem?_retain]
        split_ifs with ht
        · rw [← ht, hs, Option.map_none]
        · rfl
      · rfl
      · rfl
    rw [Option.map_none, hself]
  | some h =>
    have hpos := hl hs
    have hmany : ¬ h.shares + 1 ≤ 1 := by omega
    simp only [Option.map_some, hmany, if_false, Prod.mk.injEq, true_and]
    apply ext_live
    · intro t
      simp only [Std.ExtTreeMap.getElem?_insert, Std.LawfulEqOrd.compare_eq_iff_eq,
        getElem?_retain]
      split_ifs with ht
      · rw [← ht, hs, Nat.add_sub_cancel]
      · rfl
    · rfl
    · rfl

theorem releaseAll_retainAll (hl : l.Backed) (ss : List Stage) :
    (l.retainAll ss).releaseAll ss = ([], l) := by
  induction ss with
  | nil => rfl
  | cons s ss ih =>
    have hs : l.retainAll (s :: ss) = (l.retainAll ss).retain s := retainAll_retain l s ss
    simp [releaseAll, hs, release_retain (hl.retainAll ss), ih]

/-! What becomes of the shares of a stage, and which stages are destroyed. -/

theorem mem_live_of_shares_pos {s : Stage} (h : 0 < l.shares s) : s ∈ l.live := by
  rw [Std.ExtTreeMap.mem_iff_isSome_getElem?]
  cases hs : l.live[s]? with
  | none => simp [shares, hs] at h
  | some x => rfl

theorem Backed.shares_pos_iff (hl : l.Backed) {s : Stage} : 0 < l.shares s ↔ s ∈ l.live := by
  refine ⟨mem_live_of_shares_pos, fun h => ?_⟩
  obtain ⟨x, hx⟩ := Option.isSome_iff_exists.1 (Std.ExtTreeMap.mem_iff_isSome_getElem?.1 h)
  have := hl hx
  simp only [shares, hx, Option.map_some, Option.getD_some]
  omega

theorem shares_retainAll {ss : List Stage} (h : ∀ s ∈ ss, 0 < l.shares s) (t : Stage) :
    (l.retainAll ss).shares t = l.shares t + ss.count t := by
  induction ss generalizing l with
  | nil => rfl
  | cons s ss ih =>
    have hs := mem_live_of_shares_pos (h s List.mem_cons_self)
    have hretain (u : Stage) : (l.retain s).shares u = l.shares u + if s = u then 1 else 0 := by
      rw [shares_retain]
      split_ifs <;> simp_all
    have hpos : ∀ u ∈ ss, 0 < (l.retain s).shares u := fun u hu => by
      have := h u (List.mem_cons_of_mem _ hu)
      rw [hretain]
      omega
    change ((l.retain s).retainAll ss).shares t = _
    rw [ih hpos, hretain, List.count_cons]
    simp only [beq_iff_eq]
    omega

theorem shares_releaseAll (l : Ledger α) (ss : List Stage) (t : Stage) :
    (l.releaseAll ss).2.shares t = l.shares t - ss.count t := by
  induction ss generalizing l with
  | nil => rfl
  | cons s ss ih =>
    simp only [releaseAll, ih, shares_release, List.count_cons, beq_iff_eq]
    split_ifs <;> omega

/-- A release destroys a stage if it gives the last share back. -/
theorem isSome_release (hl : l.Backed) (s : Stage) :
    (l.release s).1.isSome = true ↔ l.shares s = 1 := by
  unfold release
  cases hs : l.live[s]? with
  | none => simp [shares, hs]
  | some x =>
    have hx := hl hs
    by_cases h : x.shares ≤ 1
    · simp [shares, hs, h]
      omega
    · simp [shares, hs, h]
      omega

/-- The stages that are destroyed are those with all shares given back. -/
theorem mem_releaseAll (hl : l.Backed) (ss : List Stage) (t : Stage) :
    t ∈ (l.releaseAll ss).1.map (·.1) ↔ 0 < l.shares t ∧ l.shares t ≤ ss.count t := by
  induction ss generalizing l with
  | nil =>
    simp [releaseAll]
    omega
  | cons s ss ih =>
    have hfirst : t ∈ ((l.release s).1.map (s, ·)).toList.map (·.1) ↔ s = t ∧ l.shares s = 1 := by
      rw [← isSome_release hl]
      cases (l.release s).1 <;> simp [eq_comm]
    simp only [releaseAll, List.map_append, List.mem_append, hfirst, ih (hl.release s),
      shares_release, List.count_cons, beq_iff_eq]
    by_cases hst : s = t
    · subst hst
      simp only [true_and, if_true]
      omega
    · simp [hst]

theorem nodup_releaseAll (hl : l.Backed) (ss : List Stage) :
    ((l.releaseAll ss).1.map (·.1)).Nodup := by
  induction ss generalizing l with
  | nil => exact List.nodup_nil
  | cons s ss ih =>
    simp only [releaseAll, List.map_append]
    have hrest := ih (hl.release s)
    cases hr : (l.release s).1 with
    | none => exact hrest
    | some info =>
      have hone := (isSome_release hl s).1 (by rw [hr]; rfl)
      refine List.nodup_cons.2 ⟨fun hmem => ?_, hrest⟩
      have := ((mem_releaseAll (hl.release s) ss s).1 hmem).1
      rw [shares_release, if_pos rfl] at this
      omega

theorem destroyed_release (l : Ledger α) (s : Stage) :
    (l.release s).2.destroyed = l.destroyed + (l.release s).1.toList.length := by
  unfold release
  cases l.live[s]? with
  | none => rfl
  | some x => dsimp only; split_ifs <;> rfl

theorem destroyed_releaseAll (l : Ledger α) (ss : List Stage) :
    (l.releaseAll ss).2.destroyed = l.destroyed + (l.releaseAll ss).1.length := by
  induction ss generalizing l with
  | nil => rfl
  | cons s ss ih =>
    simp only [releaseAll, ih, destroyed_release, List.length_append]
    cases (l.release s).1 <;> simp [Nat.add_assoc]

theorem created_release (l : Ledger α) (s : Stage) : (l.release s).2.created = l.created := by
  unfold release
  cases l.live[s]? with
  | none => rfl
  | some x => dsimp only; split_ifs <;> rfl

theorem created_releaseAll (l : Ledger α) (ss : List Stage) :
    (l.releaseAll ss).2.created = l.created := by
  induction ss generalizing l with
  | nil => rfl
  | cons s ss ih => simp only [releaseAll, ih, created_release]

theorem created_retainAll (l : Ledger α) (ss : List Stage) :
    (l.retainAll ss).created = l.created := by
  induction ss generalizing l with
  | nil => rfl
  | cons s ss ih => exact ih (l.retain s)

theorem destroyed_retainAll (l : Ledger α) (ss : List Stage) :
    (l.retainAll ss).destroyed = l.destroyed := by
  induction ss generalizing l with
  | nil => rfl
  | cons s ss ih => exact ih (l.retain s)

theorem size_release (l : Ledger α) (s : Stage) :
    (l.release s).2.live.size + (l.release s).2.destroyed = l.live.size + l.destroyed := by
  unfold release
  cases hs : l.live[s]? with
  | none => rfl
  | some x =>
    have hc : l.live.contains s = true := by simp [Std.ExtTreeMap.contains_eq_isSome_getElem?, hs]
    have hpos : l.live.size ≠ 0 := fun h => by
      rw [Std.ExtTreeMap.eq_empty_iff_size_eq_zero.2 h] at hs
      simp at hs
    dsimp only
    split_ifs
    · rw [Std.ExtTreeMap.size_erase, if_pos hc]
      dsimp only
      omega
    · rw [Std.ExtTreeMap.size_insert, if_pos hc]

theorem size_releaseAll (l : Ledger α) (ss : List Stage) :
    (l.releaseAll ss).2.live.size + (l.releaseAll ss).2.destroyed = l.live.size + l.destroyed := by
  induction ss generalizing l with
  | nil => rfl
  | cons s ss ih => simp only [releaseAll, ih, size_release]

theorem size_retainAll (l : Ledger α) (ss : List Stage) :
    (l.retainAll ss).live.size = l.live.size := by
  induction ss generalizing l with
  | nil => rfl
  | cons s ss ih => exact (ih (l.retain s)).trans Std.ExtTreeMap.size_modify

/-- Every stage that was created is live, with a share out, or was destroyed. -/
structure Regular (l : Ledger α) : Prop where
  backed : l.Backed
  issued {s : Stage} : s ∈ l.live → s.serial < l.created
  total : l.live.size + l.destroyed = l.created

theorem regular_empty : (empty : Ledger α).Regular where
  backed := backed_empty
  issued := by simp [empty]
  total := rfl

namespace Regular

theorem create (h : l.Regular) (info : α) : (l.create info).2.Regular where
  backed := h.backed.create info
  issued {s} hs := by
    rw [← (h.backed.create info).shares_pos_iff, shares_create] at hs
    simp only [Ledger.create]
    split_ifs at hs with hnew
    · rw [hnew]
      exact Nat.lt_succ_self _
    · exact Nat.lt_succ_of_lt (h.issued (mem_live_of_shares_pos hs))
  total := by
    have hnew : l.live.contains ⟨l.created⟩ = false := by
      rw [Bool.eq_false_iff]
      exact fun hc => absurd (h.issued (Std.ExtTreeMap.mem_iff_contains.2 hc)) (Nat.lt_irrefl _)
    have := h.total
    simp only [Ledger.create, Std.ExtTreeMap.size_insert, hnew, Bool.false_eq_true, if_false]
    omega

theorem settle (h : l.Regular) {gained : List Stage} (hg : ∀ s ∈ gained, 0 < l.shares s)
    (lost : List Stage) : ((l.retainAll gained).releaseAll lost).2.Regular where
  backed := (h.backed.retainAll gained).releaseAll lost
  issued {s} hs := by
    rw [← ((h.backed.retainAll gained).releaseAll lost).shares_pos_iff, shares_releaseAll,
      shares_retainAll hg] at hs
    rw [created_releaseAll, created_retainAll]
    apply h.issued
    by_cases hs' : 0 < l.shares s
    · exact mem_live_of_shares_pos hs'
    · have hmem : s ∈ gained := List.count_pos_iff.1 (by omega)
      exact absurd (hg s hmem) hs'
  total := by
    have := h.total
    rw [size_releaseAll, size_retainAll, destroyed_retainAll, created_releaseAll,
      created_retainAll]
    exact this

end Regular

end SharedStages.Ledger
