import Mathlib
import SharedStages.Cache.Operation
import SharedStages.Proofs.Store.Consistent

/-! Other names for the ids, in the requests to a cache and in what comes of them. A renaming that
keeps the order of the ids can be extended by the ids that are minted next. -/

namespace SharedStages

variable {σ τ H C : Type}

/-! What a renaming of ids makes of the requests to a cache and of what comes of them. -/

def Entry.mapId (f : StageId → StageId) (e : Entry H C) : Entry H C := { e with id := f e.id }

def Operation.mapId (f : StageId → StageId) : Operation σ H C → Operation σ H C
  | find id => .find (f id)
  | erase id => .erase (f id)
  | op => op

def Question.mapId (f : StageId → StageId) : Question σ → Question σ
  | containsId id => .containsId (f id)
  | q => q

def Reply.mapId (f : StageId → StageId) : Reply → Reply
  | id i => .id (f i)
  | r => r

def Finding.mapId (f : StageId → StageId) : Finding → Finding
  | id i => .id (f i)
  | x => x

def Event.mapId (f : StageId → StageId) : Event → Event
  | find id hit => .find (f id) hit
  | insert id inserted => .insert (f id) inserted
  | erase id erased => .erase (f id) erased
  | e => e

/-- The id that an operation names. -/
def Operation.id? : Operation σ H C → Option StageId
  | find id | erase id => some id
  | _ => none

def Question.id? : Question σ → Option StageId
  | containsId id => some id
  | _ => none

/-- The id in an answer. -/
def Reply.id? : Reply → Option StageId
  | id i => some i
  | _ => none

def Finding.id? : Finding → Option StageId
  | id i => some i
  | _ => none

theorem Operation.resolve_mapId (f : StageId → StageId) (g : σ → Option τ)
    (op : Operation σ H C) : (op.mapId f).resolve g = (op.resolve g).map (·.mapId f) := by
  cases op with
  | insert s key => cases h : g s <;> simp [mapId, resolve, h]
  | eraseStage s => cases h : g s <;> simp [mapId, resolve, h]
  | _ => rfl

theorem Operation.id?_resolve {g : σ → Option τ} {op : Operation σ H C} {p : Operation τ H C}
    (h : op.resolve g = some p) : p.id? = op.id? := by
  cases op with
  | insert s key =>
    obtain ⟨t, -, rfl⟩ := Option.map_eq_some_iff.1 h
    rfl
  | eraseStage s =>
    obtain ⟨t, -, rfl⟩ := Option.map_eq_some_iff.1 h
    rfl
  | _ => cases h; rfl

theorem Question.resolve_mapId (f : StageId → StageId) (g : σ → Option τ) (q : Question σ) :
    (q.mapId f).resolve g = (q.resolve g).map (·.mapId f) := by
  cases q with
  | idOf s => cases h : g s <;> simp [mapId, resolve, h]
  | contains s => cases h : g s <;> simp [mapId, resolve, h]
  | _ => rfl

theorem Question.id?_resolve {g : σ → Option τ} {q : Question σ} {p : Question τ}
    (h : q.resolve g = some p) : p.id? = q.id? := by
  cases q with
  | idOf s =>
    obtain ⟨t, -, rfl⟩ := Option.map_eq_some_iff.1 h
    rfl
  | contains s =>
    obtain ⟨t, -, rfl⟩ := Option.map_eq_some_iff.1 h
    rfl
  | _ => cases h; rfl

/-- Renaming depends on the id that is there. -/
theorem Reply.mapId_congr {f g : StageId → StageId} {r : Reply} (h : ∀ i ∈ r.id?, f i = g i) :
    r.mapId f = r.mapId g := by
  cases r with
  | id i => exact congrArg Reply.id (h i rfl)
  | _ => rfl

theorem Finding.mapId_congr {f g : StageId → StageId} {x : Finding} (h : ∀ i ∈ x.id?, f i = g i) :
    x.mapId f = x.mapId g := by
  cases x with
  | id i => exact congrArg Finding.id (h i rfl)
  | _ => rfl

theorem Event.mapId_congr {f g : StageId → StageId} {e : Event} (h : ∀ i ∈ e.id?, f i = g i) :
    e.mapId f = e.mapId g := by
  cases e with
  | find i hit => exact congrArg (Event.find · hit) (h i rfl)
  | insert i inserted => exact congrArg (Event.insert · inserted) (h i rfl)
  | erase i erased => exact congrArg (Event.erase · erased) (h i rfl)
  | _ => rfl

/-- The invalid id comes before all that are minted. -/
theorem StageId.toInt_invalid_le (n : ℕ) : invalid.toInt ≤ n :=
  (by decide : invalid.toInt ≤ 0).trans (Int.natCast_nonneg n)

/-- `f` renames the ids up to `n` to ids up to `m` and keeps their order; those up to `base` keep
their names. -/
structure Renames (f : StageId → StageId) (base n m : ℕ) : Prop where
  base_le : base ≤ n
  le : n ≤ m
  fixed {id : StageId} : id.toInt ≤ base → f id = id
  mono {i j : StageId} : i < j → j.toInt ≤ n → f i < f j
  bound {id : StageId} : id.toInt ≤ n → (f id).toInt ≤ m

namespace Renames

variable {f : StageId → StageId} {base n m : ℕ}

/-- Nothing was minted yet. -/
theorem refl (n : ℕ) : Renames id n n n where
  base_le := le_rfl
  le := le_rfl
  fixed _ := rfl
  mono hij _ := hij
  bound hid := hid

/-- Ids minted elsewhere are no names of this renaming. -/
theorem mono_right (h : Renames f base n m) {m' : ℕ} (hm : m ≤ m') : Renames f base n m' where
  base_le := h.base_le
  le := h.le.trans hm
  fixed := h.fixed
  mono := h.mono
  bound hid := (h.bound hid).trans (by exact_mod_cast hm)

theorem apply_eq_iff (h : Renames f base n m) {i j : StageId} (hi : i.toInt ≤ n)
    (hj : j.toInt ≤ n) : f i = f j ↔ i = j := by
  refine ⟨fun hf => ?_, fun hij => hij ▸ rfl⟩
  rcases Int.lt_trichotomy i.toInt j.toInt with hlt | heq | hlt
  · have := h.mono (StageId.lt_def.2 hlt) hj
    rw [hf] at this
    exact absurd this (Std.Irrefl.irrefl _)
  · exact StageId.toInt_inj.1 heq
  · have := h.mono (StageId.lt_def.2 hlt) hi
    rw [hf] at this
    exact absurd this (Std.Irrefl.irrefl _)

theorem apply_invalid (h : Renames f base n m) : f .invalid = .invalid :=
  h.fixed (StageId.toInt_invalid_le base)

/-- The ids minted next on both sides go to each other. -/
def next (f : StageId → StageId) (n m : ℕ) : StageId → StageId :=
  Function.update f (.ofSerial n) (.ofSerial m)

theorem next_ofSerial (f : StageId → StageId) (n m : ℕ) : next f n m (.ofSerial n) = .ofSerial m :=
  Function.update_self _ _ _

theorem next_of_le (hn : n < 2 ^ 63 - 1) {id : StageId} (hid : id.toInt ≤ n) :
    next f n m id = f id := by
  apply Function.update_of_ne
  rintro rfl
  rw [StageId.toInt_ofSerial hn] at hid
  omega

theorem extend (h : Renames f base n m) (hm : m < 2 ^ 63 - 1) :
    Renames (next f n m) base (n + 1) (m + 1) := by
  have hle := h.le
  have hn : n < 2 ^ 63 - 1 := by omega
  have hnew {id : StageId} (hid : id.toInt ≤ (n + 1 : ℕ)) : id = .ofSerial n ∨ id.toInt ≤ n := by
    by_cases heq : id.toInt = n + 1
    · exact .inl (StageId.toInt_inj.1 (heq.trans (StageId.toInt_ofSerial hn).symm))
    · exact .inr (by push_cast at hid; omega)
  constructor
  case base_le => exact h.base_le.trans (Nat.le_succ n)
  case le => exact Nat.succ_le_succ hle
  case fixed =>
    intro id hid
    have hbase := h.base_le
    rw [next_of_le hn (by omega), h.fixed hid]
  case mono =>
    intro i j hij hj
    rcases hnew hj with rfl | hj
    · have hi : i.toInt ≤ n := by
        rw [StageId.lt_def, StageId.toInt_ofSerial hn] at hij
        omega
      have := h.bound hi
      rw [next_of_le hn hi, next_ofSerial, StageId.lt_def, StageId.toInt_ofSerial hm]
      omega
    · have hi : i.toInt ≤ n := by
        rw [StageId.lt_def] at hij
        omega
      rw [next_of_le hn hi, next_of_le hn hj]
      exact h.mono hij hj
  case bound =>
    intro id hid
    rcases hnew hid with rfl | hid
    · rw [next_ofSerial, StageId.toInt_ofSerial hm]
      push_cast
      exact le_rfl
    · have := h.bound hid
      rw [next_of_le hn hid]
      push_cast
      omega

end Renames

end SharedStages
