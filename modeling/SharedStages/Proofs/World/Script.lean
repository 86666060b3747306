import SharedStages.Proofs.Cache.Renaming
import SharedStages.Proofs.World.Reach

/-! Requests to several caches, written down before it is known which ids will be returned. -/

namespace SharedStages

variable {H C : Type}

/-- A request to one cache. -/
inductive Request (H C : Type) where
  | operation (op : Operation Handle (Layer H) C)
  | question (q : Question Handle)
  | rename (name : String)

namespace Request

def step [Ord H] (cache : String) : Request H C → Step (Layer H) C
  | operation op => .perform cache op
  | question q => .ask cache q
  | rename name => .rename cache name

def mapId (f : StageId → StageId) : Request H C → Request H C
  | operation op => .operation (op.mapId f)
  | question q => .question (q.mapId f)
  | rename name => .rename name

/-- The id that a request names. -/
def id? : Request H C → Option StageId
  | operation op => op.id?
  | question q => q.id?
  | rename _ => none

theorem mapId_const_mapId (f : StageId → StageId) (i : StageId) (r : Request H C) :
    (r.mapId fun _ => i).mapId f = r.mapId fun _ => f i := by
  cases r with
  | operation op => cases op <;> rfl
  | question q => cases q <;> rfl
  | rename name => rfl

theorem mapId_of_fixed {f : StageId → StageId} {r : Request H C} (h : ∀ i ∈ r.id?, f i = i) :
    r.mapId f = r := by
  cases r with
  | operation op =>
    cases op with
    | find i => exact congrArg (fun i => Request.operation (.find i)) (h i rfl)
    | erase i => exact congrArg (fun i => Request.operation (.erase i)) (h i rfl)
    | _ => rfl
  | question q =>
    cases q with
    | containsId i => exact congrArg (fun i => Request.question (.containsId i)) (h i rfl)
    | _ => rfl
  | rename name => rfl

theorem eq_of_id?_mapId_const {i j : StageId} {r : Request H C}
    (h : i ∈ (r.mapId fun _ => j).id?) : i = j := by
  cases r with
  | operation op => cases op <;> cases h <;> rfl
  | question q =>
    cases q <;> cases h
    rfl
  | rename name => cases h

end Request

/-- A request as it is written down in advance. If `earlier` is set, the id to be named is not known
yet: it is the one that the request of this number to the same cache returns. -/
structure Line (H C : Type) where
  cache : String
  request : Request H C
  earlier : Option ℕ

def Answer.id? : Answer H C → Option StageId
  | reply r => r.id?
  | finding x => x.id?
  | _ => none

def Answer.mapId (f : StageId → StageId) : Answer H C → Answer H C
  | reply r => .reply (r.mapId f)
  | finding x => .finding (x.mapId f)
  | a => a

def Delivery.mapId (f : StageId → StageId) (d : Delivery) : Delivery :=
  { d with event := d.event.mapId f }

theorem Answer.mapId_congr {f g : StageId → StageId} {a : Answer H C}
    (h : ∀ i ∈ a.id?, f i = g i) : a.mapId f = a.mapId g := by
  cases a with
  | reply r => exact congrArg Answer.reply (Reply.mapId_congr h)
  | finding x => exact congrArg Answer.finding (Finding.mapId_congr h)
  | _ => rfl

theorem Answer.id?_mapId (f : StageId → StageId) (a : Answer H C) :
    (a.mapId f).id? = a.id?.map f := by
  cases a with
  | reply r => cases r <;> rfl
  | finding x => cases x <;> rfl
  | _ => rfl

/-- The ids that a cache returned, one entry for each of its requests. -/
def returned (past : List (String × Option StageId)) (name : String) : List (Option StageId) :=
  (past.filter (·.1 = name)).map (·.2)

/-- The id that the request of this number to a cache returned, invalid if it returned none. -/
def recalled (past : List (String × Option StageId)) (name : String) (k : ℕ) : StageId :=
  ((returned past name)[k]?.bind id).getD .invalid

/-- The request of a line, with the id filled in that was returned before. -/
def Line.filled (l : Line H C) (past : List (String × Option StageId)) : Request H C :=
  match l.earlier with
  | none => l.request
  | some k => l.request.mapId fun _ => recalled past l.cache k

theorem returned_concat (past : List (String × Option StageId)) (cache name : String)
    (i : Option StageId) : returned (past ++ [(cache, i)]) name =
      returned past name ++ if cache = name then [i] else [] := by
  by_cases h : cache = name <;> simp [returned, h]

/-- The ids that were returned to the requests of a cache, in either world. -/
structure Recalls (f : StageId → StageId) (name : String) (n : ℕ)
    (past past' : List (String × Option StageId)) : Prop where
  eq : returned past' name = (returned past name).map (·.map f)
  le {i : StageId} : some i ∈ returned past name → i.toInt ≤ n

section Recalls

variable {f g : StageId → StageId} {name : String} {n m : ℕ}
  {past past' : List (String × Option StageId)}

/-- What was returned before keeps its names, and what is returned now is renamed. -/
theorem Recalls.concat (h : Recalls f name n past past')
    (hg : ∀ i : StageId, i.toInt ≤ n → g i = f i) (hnm : n ≤ m) {a a' : Option StageId}
    (ha : ∀ i ∈ a, i.toInt ≤ m) (ha' : a' = a.map g) :
    Recalls g name m (past ++ [(name, a)]) (past' ++ [(name, a')]) where
  eq := by
    have hold : (returned past name).map (·.map g) = (returned past name).map (·.map f) := by
      apply List.map_congr_left
      intro i hi
      cases i with
      | none => rfl
      | some i => exact congrArg some (hg i (h.le hi))
    rw [returned_concat, returned_concat, if_pos rfl, if_pos rfl, List.map_append, hold, h.eq, ha']
    rfl
  le {i} hi := by
    rw [returned_concat, if_pos rfl, List.mem_append, List.mem_singleton] at hi
    rcases hi with hi | hi
    · exact (h.le hi).trans (by exact_mod_cast hnm)
    · exact ha i hi.symm

/-- What is returned by another cache does not count. -/
theorem Recalls.other (h : Recalls f name n past past') {cache : String} (hne : cache ≠ name)
    (a : Option StageId) : Recalls f name n past (past' ++ [(cache, a)]) where
  eq := by rw [returned_concat, if_neg hne, List.append_nil, h.eq]
  le := h.le

theorem Recalls.recalled {base : ℕ} (h : Recalls f name n past past') (hf : Renames f base n m)
    (k : ℕ) : recalled past' name k = f (recalled past name k) ∧
      (recalled past name k).toInt ≤ n := by
  simp only [SharedStages.recalled, h.eq, List.getElem?_map]
  cases hk : (returned past name)[k]? with
  | none => exact ⟨hf.apply_invalid.symm, StageId.toInt_invalid_le n⟩
  | some a =>
    cases a with
    | none => exact ⟨hf.apply_invalid.symm, StageId.toInt_invalid_le n⟩
    | some i => exact ⟨rfl, h.le (List.mem_of_getElem? hk)⟩

/-- A line asks for the same in both worlds, up to the names of the ids. -/
theorem Recalls.filled {base : ℕ} (h : Recalls f name n past past') (hf : Renames f base n m)
    {l : Line H C} (hl : l.cache = name)
    (hknown : l.earlier = none → ∀ i ∈ l.request.id?, i.toInt ≤ base) :
    l.filled past' = (l.filled past).mapId f ∧ ∀ i ∈ (l.filled past).id?, i.toInt ≤ n := by
  cases hearlier : l.earlier with
  | none =>
    have hid := hknown hearlier
    have hbase := hf.base_le
    simp only [Line.filled, hearlier]
    refine ⟨(Request.mapId_of_fixed fun i hi => hf.fixed (hid i hi)).symm, fun i hi => ?_⟩
    exact (hid i hi).trans (by exact_mod_cast hbase)
  | some k =>
    obtain ⟨heq, hle⟩ := h.recalled hf k
    simp only [Line.filled, hearlier, hl, heq, Request.mapId_const_mapId]
    refine ⟨trivial, fun i hi => ?_⟩
    rw [Request.eq_of_id?_mapId_const hi]
    exact hle

end Recalls

namespace World

variable [Ord H] [Std.TransOrd H] [DecidableEq H] [DecidableEq C]

/-- Follows a script, and lists the reports with the names of the caches; `past` is what was
returned before. -/
def follow (w : World H C) (past : List (String × Option StageId)) :
    List (Line H C) → World H C × List (String × Report H C)
  | [] => (w, [])
  | l :: ls =>
    let (w, r) := w.step ((l.filled past).step l.cache)
    let (w, rs) := follow w (past ++ [(l.cache, r.answer.id?)]) ls
    (w, (l.cache, r) :: rs)

theorem follow_cons (w : World H C) (past : List (String × Option StageId)) (l : Line H C)
    (ls : List (Line H C)) : w.follow past (l :: ls) =
      (((w.step ((l.filled past).step l.cache)).1.follow (past ++
          [(l.cache, (w.step ((l.filled past).step l.cache)).2.answer.id?)]) ls).1,
        (l.cache, (w.step ((l.filled past).step l.cache)).2) ::
          ((w.step ((l.filled past).step l.cache)).1.follow (past ++
            [(l.cache, (w.step ((l.filled past).step l.cache)).2.answer.id?)]) ls).2) := rfl

theorem minted_le_follow (w : World H C) (past : List (String × Option StageId))
    (script : List (Line H C)) : w.minted ≤ (w.follow past script).1.minted := by
  induction script generalizing w past with
  | nil => exact le_rfl
  | cons l ls ih => exact (minted_le_step w _).trans (ih _ _)

end World

end SharedStages
