import SharedStages.Store.Basic

/-! Who still needs a stage: the shares taken in each live stage. A stage is destroyed when its
last share is given back. -/

namespace SharedStages

/-- A live stage: what is known of it, and how many shares are out. -/
structure Holding (α : Type) where
  info : α
  shares : Nat

structure Ledger (α : Type) where
  live : Std.ExtTreeMap Stage (Holding α)
  created : Nat
  destroyed : Nat

namespace Ledger

variable {α : Type}

def empty : Ledger α := ⟨∅, 0, 0⟩

instance : Inhabited (Ledger α) := ⟨empty⟩

def info? (l : Ledger α) (s : Stage) : Option α := l.live[s]?.map (·.info)

/-- The shares in a stage; a destroyed one has none. -/
def shares (l : Ledger α) (s : Stage) : Nat := (l.live[s]?.map (·.shares)).getD 0

/-- A new stage with one share, which belongs to the caller. -/
def create (l : Ledger α) (info : α) : Stage × Ledger α :=
  (⟨l.created⟩, { l with live := l.live.insert ⟨l.created⟩ ⟨info, 1⟩, created := l.created + 1 })

/-- Takes one more share. -/
def retain (l : Ledger α) (s : Stage) : Ledger α :=
  { l with live := l.live.modify s fun h => { h with shares := h.shares + 1 } }

def retainAll (l : Ledger α) (ss : List Stage) : Ledger α := ss.foldl retain l

/-- Gives a share back; with the last one the stage is destroyed, and what was known of it is
returned. -/
def release (l : Ledger α) (s : Stage) : Option α × Ledger α :=
  match l.live[s]? with
  | none => (none, l)
  | some h =>
    if h.shares ≤ 1 then
      (some h.info, { l with live := l.live.erase s, destroyed := l.destroyed + 1 })
    else (none, { l with live := l.live.insert s { h with shares := h.shares - 1 } })

/-- Gives back a list of shares, one after the other, and lists the stages destroyed by it. -/
def releaseAll : Ledger α → List Stage → List (Stage × α) × Ledger α
  | l, [] => ([], l)
  | l, s :: ss =>
    let (gone, l) := l.release s
    let (rest, l) := releaseAll l ss
    ((gone.map (s, ·)).toList ++ rest, l)

theorem shares_create (l : Ledger α) (info : α) (t : Stage) :
    (l.create info).2.shares t = if t = ⟨l.created⟩ then 1 else l.shares t := by
  simp only [create, shares, Std.ExtTreeMap.getElem?_insert, Std.LawfulEqOrd.compare_eq_iff_eq]
  split <;> simp_all [eq_comm]

theorem shares_retain (l : Ledger α) (s t : Stage) : (l.retain s).shares t =
    if s = t ∧ s ∈ l.live then l.shares t + 1 else l.shares t := by
  simp only [retain, shares, Std.ExtTreeMap.getElem?_modify, Std.LawfulEqOrd.compare_eq_iff_eq,
    Std.ExtTreeMap.mem_iff_isSome_getElem?]
  by_cases h : s = t
  · subst h; cases l.live[s]? <;> simp
  · simp [h]

theorem shares_release (l : Ledger α) (s t : Stage) :
    (l.release s).2.shares t = if s = t then l.shares t - 1 else l.shares t := by
  unfold release
  by_cases h : s = t
  · subst h
    cases hs : l.live[s]? with
    | none => simp [shares, hs]
    | some x =>
      by_cases hx : x.shares ≤ 1
      · simp [shares, hs, hx]
      · simp [shares, hs, hx]
  · cases hs : l.live[s]? with
    | none => simp [h]
    | some x =>
      by_cases hx : x.shares ≤ 1
      · simp [shares, hx, h, Std.ExtTreeMap.getElem?_erase]
      · simp [shares, hx, h, Std.ExtTreeMap.getElem?_insert]

end Ledger

end SharedStages
