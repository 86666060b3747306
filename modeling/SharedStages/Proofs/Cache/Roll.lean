import Mathlib
import SharedStages.Proofs.Cache.Effect

/-! A cache against a plain list of its live entries in the order of their insertion. Every answer
of the cache, whichever of its indexes it comes from, is the answer of the list. -/

namespace SharedStages

variable {H C : Type}

/-- The live entries, the oldest first, and how many ids were minted. -/
structure Roll (H C : Type) where
  rows : List (Entry H C)
  minted : ℕ

/-- What a cache can be asked to do. -/
inductive Call (H C : Type) where
  | operation (op : Operation Stage (Layer H) C)
  | question (q : Question Stage)

/-- What it can say to that. -/
inductive Response where
  | reply (r : Reply)
  | finding (f : Finding)

namespace Roll

def holds (r : Roll H C) (stage : Stage) : Bool := r.rows.any (·.stage = stage)

def holdsId (r : Roll H C) (id : StageId) : Bool := r.rows.any (·.id = id)

def idOf (r : Roll H C) (stage : Stage) : StageId :=
  ((r.rows.find? (·.stage = stage)).map (·.id)).getD .invalid

/-- An operation is one pass over the list. A stage that is listed keeps its id and its key; a new
one comes last, with the next id. A query looks at names only. -/
def perform [DecidableEq H] [DecidableEq C] (r : Roll H C) :
    Operation Stage (Layer H) C → Reply × Roll H C
  | .find id => (.stage ((r.rows.find? (·.id = id)).map (·.stage)), r)
  | .findOne q => (.stage ((r.rows.find? (q.names.admits ·.key)).map (·.stage)), r)
  | .findAll q => (.stages ((r.rows.filter (q.names.admits ·.key)).map (·.stage)), r)
  | .insert stage key =>
    if r.holds stage then (.id (r.idOf stage), r)
    else (.id (.ofSerial r.minted),
      ⟨r.rows ++ [⟨.ofSerial r.minted, stage, key⟩], r.minted + 1⟩)
  | .erase id => (.flag (r.holdsId id), { r with rows := r.rows.eraseP (·.id = id) })
  | .eraseStage stage => (.flag (r.holds stage), { r with rows := r.rows.eraseP (·.stage = stage) })
  | .eraseAll q =>
    (.count (r.rows.countP (q.names.admits ·.key)),
      { r with rows := r.rows.filter fun e => !q.names.admits e.key })
  | .clear => (.done, { r with rows := [] })

/-- The answer to a question; the name and the label of the cache are not in the list. -/
def ask (r : Roll H C) (name : String) (label : Label) : Question Stage → Finding
  | .idOf stage => .id (r.idOf stage)
  | .contains stage => .flag (r.holds stage)
  | .containsId id => .flag (r.holdsId id)
  | .stages => .stages (r.rows.map (·.stage))
  | .size => .count r.rows.length
  | .isEmpty => .flag r.rows.isEmpty
  | .name => .name name
  | .label => .label label
  | .description => .description label r.rows.length

variable [DecidableEq H] [DecidableEq C]

def respond (r : Roll H C) (name : String) (label : Label) : Call H C → Response × Roll H C
  | .operation op => (.reply (r.perform op).1, (r.perform op).2)
  | .question q => (.finding (r.ask name label q), r)

/-- The answers to a sequence of calls. Before each of them, other caches mint a number of ids. -/
def serve (name : String) (label : Label) : Roll H C → List (ℕ × Call H C) → List Response
  | _, [] => []
  | r, (k, call) :: calls =>
    let (x, r) := { r with minted := r.minted + k }.respond name label call
    x :: serve name label r calls

end Roll

variable [Ord H] [Std.TransOrd H] [DecidableEq H] [DecidableEq C]

namespace Cache

/-- A response, or the layer that tripped, and what is left of the cache and the shared part. -/
def respond (c : Cache H C) (a : Ambient H) : Call H C →
    Except (Layer H) Response × Cache H C × Ambient H
  | .operation op =>
    let o := c.perform a op
    (o.answer.map fun r => .reply r.1, o.cache, o.ambient)
  | .question q => (.ok (.finding (c.ask q)), c, a)

/-- The responses to a sequence of calls, and the shared part after it. Before each call, other
caches mint a number of ids. -/
def serve : Cache H C → Ambient H → List (ℕ × Call H C) →
    List (Except (Layer H) Response) × Ambient H
  | _, a, [] => ([], a)
  | c, a, (k, call) :: calls =>
    let (x, c, a) := c.respond { a with minted := a.minted + k } call
    let (xs, a) := serve c a calls
    (x :: xs, a)

end Cache

namespace Store.Consistent

variable {s : Store H C} {n : ℕ}

theorem hits_eq (h : s.Consistent n) (q : Query H C) :
    s.hits q = s.rows.filter (q.admits ·.key) := by
  rw [hits, h.matching_eq, List.filterMap_map]
  conv_rhs => rw [← List.filterMap_some (l := s.rows.filter _)]
  apply List.filterMap_congr
  intro e he
  exact h.mem_rows.1 (List.mem_of_mem_filter he)

theorem rows_eraseMatching [Std.LawfulEqOrd H] (h : s.Consistent n) (q : Query H C) :
    ((s.matching q).foldl Store.remove s).rows = s.rows.filter fun e => !q.admits e.key := by
  rw [h.rows_foldl_remove]
  apply List.filter_congr
  intro e he
  simp [h.id_mem_matching he]

omit [DecidableEq H] [DecidableEq C]

theorem holds_rows (h : s.Consistent n) (m : ℕ) (stage : Stage) :
    (Roll.mk s.rows m).holds stage = s.byStage.contains stage := by
  rw [Roll.holds, any_eq_isSome_find?, Std.ExtTreeMap.contains_eq_isSome_getElem?,
    ← h.find?_rows_stage, Option.isSome_map]

theorem holdsId_rows (h : s.Consistent n) (m : ℕ) (id : StageId) :
    (Roll.mk s.rows m).holdsId id = s.entries[id]?.isSome := by
  rw [Roll.holdsId, any_eq_isSome_find?, h.find?_rows_id]

theorem idOf_rows (h : s.Consistent n) (m : ℕ) (stage : Stage) :
    (Roll.mk s.rows m).idOf stage = s.idOf stage := by
  rw [Roll.idOf, h.find?_rows_stage, idOf]

end Store.Consistent

variable [Std.LawfulEqOrd H] {s : Store H C} {n : ℕ}

namespace Roll

/-- An operation on a consistent store answers like the list of its rows, and leaves a store with
the rows of the new list. -/
theorem perform_rows (h : s.Consistent n) {op : Operation Stage (Layer H) C}
    (hn : n + op.spent s < 2 ^ 63 - 1) : (Roll.mk s.rows n).perform op =
      ((op.result s n).1, ⟨(op.after s n).rows, n + op.spent s⟩) := by
  cases op with
  | find id => simp [perform, Operation.result, Operation.after, Operation.spent,
      h.find?_rows_id, Store.find?]
  | findOne q => simp [perform, Operation.result, Operation.after, Operation.spent, h.hits_eq]
  | findAll q => simp [perform, Operation.result, Operation.after, Operation.spent, h.hits_eq]
  | insert stage key =>
    simp only [perform, h.holds_rows, h.idOf_rows, Operation.result, Operation.after,
      Operation.spent] at hn ⊢
    by_cases hs : s.byStage.contains stage = true
    · obtain ⟨id, hid⟩ := Option.isSome_iff_exists.1
        (Std.ExtTreeMap.contains_eq_isSome_getElem?.symm.trans hs)
      simp [hs, hid, Store.idOf]
    · have hnone : s.byStage[stage]? = none := by simpa using hs
      rw [if_neg hs] at hn
      have hid := StageId.toInt_ofSerial (n := n) (by omega)
      rw [if_neg hs, if_neg hs, if_neg hs, hnone, h.rows_add hnone (by rw [hid]; omega)]
  | erase id => simp [perform, Operation.result, Operation.after, Operation.spent,
      h.holdsId_rows, h.eraseP_id]
  | eraseStage stage =>
    have hflag : s.byStage.contains stage = s.entries[s.idOf stage]?.isSome := by
      rw [← h.holds_rows n, h.entries_idOf, holds, Store.any_eq_isSome_find?]
    simp only [perform, Operation.result, Operation.after, Operation.spent, h.holds_rows,
      h.eraseP_stage, hflag, Nat.add_zero]
  | eraseAll q => simp [perform, Operation.result, Operation.after, Operation.spent, h.hits_eq,
      h.rows_eraseMatching, List.countP_eq_length_filter]
  | clear => simp [perform, Operation.result, Operation.after, Operation.spent, Store.rows_empty]

omit [DecidableEq H] [DecidableEq C] [Std.LawfulEqOrd H] in
theorem ask_rows {c : Cache H C} (h : c.store.Consistent n) (m : ℕ) (q : Question Stage) :
    (Roll.mk c.store.rows m).ask c.name c.label q = c.ask q := by
  cases q with
  | idOf stage => simp [ask, Cache.ask, h.idOf_rows]
  | contains stage => simp [ask, Cache.ask, h.holds_rows, h.isValid_idOf]
  | containsId id => simp [ask, Cache.ask, h.holdsId_rows, Store.containsId]
  | stages => rfl
  | size => simp [ask, Cache.ask, Store.length_rows]
  | isEmpty => simp [ask, Cache.ask, Store.isEmpty_rows]
  | name => rfl
  | label => rfl
  | description => simp [ask, Cache.ask, Store.length_rows]

end Roll

namespace Cache

/-- What a cache and the shared part have in common with a list. -/
structure Follows (c : Cache H C) (a : Ambient H) (r : Roll H C) : Prop where
  consistent : c.store.Consistent a.minted
  rows : r.rows = c.store.rows
  minted : r.minted = a.minted

/-- A call that does not trip is answered from the list, and the list follows it. -/
theorem Follows.respond {c : Cache H C} {a : Ambient H} {r : Roll H C} (h : c.Follows a r)
    (call : Call H C) (hm : (c.respond a call).2.2.minted < 2 ^ 63 - 1) {x : Response}
    (hx : (c.respond a call).1 = .ok x) :
    (r.respond c.name c.label call).1 = x ∧
    (c.respond a call).2.1.Follows (c.respond a call).2.2 (r.respond c.name c.label call).2 ∧
    (c.respond a call).2.1.name = c.name ∧ (c.respond a call).2.1.label = c.label := by
  have hr : r = ⟨c.store.rows, a.minted⟩ := by cases r; simp [← h.rows, ← h.minted]
  subst hr
  cases call with
  | question q =>
    have hask := Roll.ask_rows h.consistent a.minted q
    simp only [Cache.respond, Except.ok.injEq] at hx
    exact ⟨by simp only [Roll.respond, hask, hx], h, rfl, rfl⟩
  | operation op =>
    simp only [Cache.respond, perform_eq] at hm hx ⊢
    cases hl : (op.layers c.store).find? (a.armed.contains ·) with
    | some l => simp [hl, Except.map] at hx
    | none =>
      simp only [hl] at hm hx ⊢
      have hrows := Roll.perform_rows h.consistent hm
      have hafter := op.consistent_after h.consistent hm
      rw [Roll.respond, hrows]
      exact ⟨Except.ok.inj hx, ⟨hafter, rfl, rfl⟩, trivial, rfl⟩

omit [Std.LawfulEqOrd H] in
theorem respond_of_unarmed (c : Cache H C) {a : Ambient H} (ha : a.armed = ∅) (call : Call H C) :
    (∃ x, (c.respond a call).1 = .ok x) ∧ (c.respond a call).2.2.armed = ∅ := by
  cases call with
  | question q => exact ⟨⟨_, rfl⟩, ha⟩
  | operation op =>
    have hl : (op.layers c.store).find? (a.armed.contains ·) = none := by simp [ha]
    simp only [respond, perform_eq, hl]
    exact ⟨⟨_, rfl⟩, ha⟩

omit [Std.LawfulEqOrd H] in
theorem minted_le_respond (c : Cache H C) (a : Ambient H) (call : Call H C) :
    a.minted ≤ (c.respond a call).2.2.minted := by
  cases call with
  | question q => exact le_rfl
  | operation op =>
    simp only [respond, perform_eq]
    cases (op.layers c.store).find? (a.armed.contains ·) <;> exact Nat.le_add_right _ _

omit [Std.LawfulEqOrd H] in
theorem minted_le_serve (c : Cache H C) (a : Ambient H) (calls : List (ℕ × Call H C)) :
    a.minted ≤ (c.serve a calls).2.minted := by
  induction calls generalizing c a with
  | nil => exact le_rfl
  | cons call calls ih =>
    obtain ⟨k, call⟩ := call
    have h := c.minted_le_respond { a with minted := a.minted + k } call
    exact ((Nat.le_add_right _ _).trans h).trans (ih _ _)

omit [Std.LawfulEqOrd H] in
/-- With no layer armed, every call is answered. -/
theorem serve_of_unarmed (c : Cache H C) {a : Ambient H} (ha : a.armed = ∅)
    (calls : List (ℕ × Call H C)) : ∀ x ∈ (c.serve a calls).1, ∃ y, x = .ok y := by
  induction calls generalizing c a with
  | nil => simp [serve]
  | cons call calls ih =>
    obtain ⟨k, call⟩ := call
    have h := c.respond_of_unarmed (a := { a with minted := a.minted + k }) ha call
    intro x hx
    rcases List.mem_cons.1 hx with rfl | hx
    · exact h.1
    · exact ih _ h.2 x hx

theorem Follows.serve {c : Cache H C} {a : Ambient H} {r : Roll H C} (h : c.Follows a r)
    (calls : List (ℕ × Call H C)) (hm : (c.serve a calls).2.minted < 2 ^ 63 - 1)
    (hok : ∀ x ∈ (c.serve a calls).1, ∃ y, x = .ok y) :
    (c.serve a calls).1 = (Roll.serve c.name c.label r calls).map .ok := by
  induction calls generalizing c a r with
  | nil => rfl
  | cons call calls ih =>
    obtain ⟨k, call⟩ := call
    have hk : c.Follows { a with minted := a.minted + k } { r with minted := r.minted + k } :=
      ⟨h.consistent.mono (Nat.le_add_right _ _), h.rows, by rw [h.minted]⟩
    have hle := (c.respond { a with minted := a.minted + k } call).2.1.minted_le_serve
      (c.respond { a with minted := a.minted + k } call).2.2 calls
    obtain ⟨y, hy⟩ : ∃ y, (c.respond { a with minted := a.minted + k } call).1 = .ok y :=
      hok _ List.mem_cons_self
    obtain ⟨hx, hf, hname, hlabel⟩ := hk.respond call (hle.trans_lt hm) hy
    have hrest := ih hf hm fun x hx => hok x (List.mem_cons_of_mem _ hx)
    rw [hname, hlabel] at hrest
    simp only [Cache.serve, Roll.serve, List.map_cons, hrest, hy, hx]

/-- A cache that starts empty answers every sequence of calls like the list of its live entries.
Other caches may mint ids in between; no layer may trip, which is so if none is armed. -/
theorem serve_eq_roll (c : Cache H C) (a : Ambient H) (hc : c.store = .empty)
    (calls : List (ℕ × Call H C)) (hm : (c.serve a calls).2.minted < 2 ^ 63 - 1) :
    (a.armed = ∅ → ∀ x ∈ (c.serve a calls).1, ∃ y, x = .ok y) ∧
    ((∀ x ∈ (c.serve a calls).1, ∃ y, x = .ok y) →
      (c.serve a calls).1 = (Roll.serve c.name c.label ⟨[], a.minted⟩ calls).map .ok) := by
  have h : c.Follows a ⟨[], a.minted⟩ :=
    ⟨hc ▸ Store.consistent_empty _, by rw [hc, Store.rows_empty], rfl⟩
  exact ⟨fun ha => c.serve_of_unarmed ha calls, h.serve calls hm⟩

/-- Two stages under one root, by handles of their own, with an id minted elsewhere in between; the
first one is inserted again under another root, erased, and the rest goes by a query. -/
def sampleCalls : List (ℕ × Call ℕ ℕ) :=
  [(0, .operation (.insert ⟨0⟩ ⟨⟨1, 0⟩, none, 0⟩)),
    (1, .operation (.insert ⟨1⟩ ⟨⟨1, 1⟩, some ⟨2, 2⟩, 0⟩)),
    (0, .operation (.insert ⟨0⟩ ⟨⟨3, 3⟩, none, 0⟩)), (0, .operation (.findAll (.ofRoot ⟨1, 4⟩))),
    (0, .operation (.erase (.ofSerial 0))), (0, .question .stages),
    (0, .operation (.eraseAll (.ofRoot ⟨1, 4⟩))), (0, .question .isEmpty)]

theorem serve_eq_roll_sampleCalls :
    ((new 0).serve ⟨∅, 0⟩ sampleCalls).2.minted < 2 ^ 63 - 1 ∧
    ((new 0).serve ⟨∅, 0⟩ sampleCalls).1 =
      (Roll.serve "" (.fallback 0) ⟨[], 0⟩ sampleCalls).map .ok := by
  have hm : ((new 0).serve ⟨∅, 0⟩ sampleCalls).2.minted < 2 ^ 63 - 1 := by cbv
  have h := serve_eq_roll (new 0) ⟨∅, 0⟩ rfl sampleCalls hm
  exact ⟨hm, h.2 (h.1 rfl)⟩

end Cache

end SharedStages
