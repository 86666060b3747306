import SharedStages.Cache.Operation
import SharedStages.Ledger

/-! Stages that use their cache once more when they are destroyed. One release can set off a
chain of others; a stage's farewell is spoken once, so every chain ends. -/

namespace SharedStages

/-- What a stage does when it is destroyed. -/
inductive Farewell where
  | erase (id : StageId)
  | eraseAll (root : String)
  | insert (name : String)
  | clear
  deriving DecidableEq

/-- What is noted: a destroyed stage, or an event with the name of the cache, each with the size
of the cache at that moment. -/
inductive Note where
  | dropped (stage : String) (size : Nat)
  | event (d : Delivery) (size : Nat) (name : String)
  deriving DecidableEq

/-- A cache, the names and shares of the stages in play, and the notes so far. -/
structure Scene where
  cache : Cache String Int
  ambient : Ambient String
  ledger : Ledger String
  notes : List Note

namespace Scene

def nameOf (c : Scene) (s : Stage) : String := (c.ledger.info? s).getD ""

def note (c : Scene) (n : Note) : Scene := { c with notes := c.notes ++ [n] }

/-- Notes the events delivered, as the cache is after the operation. -/
def noteAll (c : Scene) (ds : List Delivery) : Scene :=
  ds.foldl (fun c d => c.note (.event d c.cache.store.size c.cache.name)) c

/-- An operation's reply, the shares it set aside, and the scene before they are released. -/
def perform (c : Scene) (op : Operation Stage String Int) : Reply × List Stage × Scene :=
  let o := c.cache.perform c.ambient (op.map .shared)
  let c := { c with
    cache := o.cache, ambient := o.ambient, ledger := c.ledger.retainAll o.gained }
  let reply := match o.answer with
    | .ok (r, _) => r
    | .error _ => .done
  (reply, o.lost, c.noteAll o.deliveries)

/-- Empties the cache. Its stages go in the order of their names. -/
def clear (c : Scene) : Reply × List Stage × Scene :=
  let (reply, lost, c) := c.perform .clear
  (reply, lost.mergeSort fun s t => c.nameOf s ≤ c.nameOf t, c)

/-- Does what a farewell says. The handle of a stage made by it is set aside at once. -/
def farewell (c : Scene) : Farewell → List Stage × Scene
  | .erase id => (c.perform (.erase id)).2
  | .eraseAll root => (c.perform (.eraseAll (.ofRoot root))).2
  | .insert name =>
    let (stage, ledger) := c.ledger.create name
    let (_, lost, c) := { c with ledger }.perform (.insert stage ⟨"reborn", none, 0⟩)
    (lost ++ [stage], c)
  | .clear => c.clear.2

/-- A farewell that was spoken is one less to be spoken. -/
theorem size_erase_lt {plans : Std.ExtTreeMap Stage Farewell} {s : Stage} {f : Farewell}
    (h : plans[s]? = some f) : (plans.erase s).size < plans.size := by
  have hc : plans.contains s = true := by simp [Std.ExtTreeMap.contains_eq_isSome_getElem?, h]
  have hs : plans.size ≠ 0 := fun h0 => by
    rw [Std.ExtTreeMap.eq_empty_iff_size_eq_zero.2 h0] at h
    simp at h
  rw [Std.ExtTreeMap.size_erase, if_pos hc]
  omega

/-- Releases shares one after the other. A stage that is destroyed by it is noted and speaks its
farewell; what that sets aside goes before the rest. -/
def settle (plans : Std.ExtTreeMap Stage Farewell) (c : Scene) (pending : List Stage) :
    Std.ExtTreeMap Stage Farewell × Scene :=
  match pending with
  | [] => (plans, c)
  | s :: pending =>
    match c.ledger.release s with
    | (none, ledger) => settle plans { c with ledger } pending
    | (some name, ledger) =>
      let c := { c with ledger }.note (.dropped name c.cache.store.size)
      match _h : plans[s]? with
      | none => settle plans c pending
      | some f =>
        let (lost, c) := c.farewell f
        settle (plans.erase s) c (lost ++ pending)
termination_by (plans.size, pending.length)
decreasing_by
  · exact Prod.Lex.right _ (by simp)
  · exact Prod.Lex.right _ (by simp)
  · exact Prod.Lex.left _ _ (size_erase_lt _h)

end Scene

/-- A scene with the farewells still to be spoken and the stages the caller holds. -/
structure Cascade where
  scene : Scene
  plans : Std.ExtTreeMap Stage Farewell
  held : Std.ExtTreeMap String Stage

/-- What the caller can do in a cascade. -/
inductive Move where
  | insert (stage : String) (key : Key String Int) (keep : Bool) (farewell : Option Farewell)
  | release (stage : String)
  | eraseStage (stage : String)
  | erase (id : StageId)
  | find (id : StageId)
  | eraseAll (q : Query String Int)
  | findAll (q : Query String Int)
  | clear
  | rename (name : String)

namespace Cascade

/-- An empty cache, watched by a recorder or not at all. -/
def start (watched : Bool) : Cascade where
  scene := {
    cache := (Cache.new 0).observedBy (if watched then .recorder 0 else .noop)
    ambient := ⟨∅, 0⟩
    ledger := .empty
    notes := [] }
  plans := ∅
  held := ∅

/-- Releases what an operation set aside. -/
def settle (c : Cascade) (r : Reply × List Stage × Scene) : Option Reply × Cascade :=
  let (plans, scene) := r.2.2.settle c.plans r.2.1
  (some r.1, { c with plans, scene })

def perform (c : Cascade) (op : Operation Stage String Int) : Option Reply × Cascade :=
  c.settle (c.scene.perform op)

/-- The held stage of a name, or a new one with a farewell of its own. -/
def obtain (c : Cascade) (name : String) (farewell : Option Farewell) : Stage × Cascade :=
  match c.held[name]? with
  | some stage => (stage, c)
  | none =>
    let (stage, ledger) := c.scene.ledger.create name
    (stage, { c with
      scene := { c.scene with ledger }
      plans := match farewell with
        | some f => c.plans.insert stage f
        | none => c.plans
      held := c.held.insert name stage })

/-- Releases a held stage; the flag says whether it was held. -/
def release (c : Cascade) (name : String) : Option Reply × Cascade :=
  match c.held[name]? with
  | none => (some (.flag false), c)
  | some stage => { c with held := c.held.erase name }.settle (.flag true, [stage], c.scene)

/-- The answer is `none` where the caller holds no stage of the name. -/
def move (c : Cascade) : Move → Option Reply × Cascade
  | .insert name key keep farewell =>
    let (stage, c) := c.obtain name farewell
    let (reply, c) := c.perform (.insert stage key)
    (reply, if keep then c else (c.release name).2)
  | .release name => c.release name
  | .eraseStage name =>
    match c.held[name]? with
    | none => (none, c)
    | some stage => c.perform (.eraseStage stage)
  | .erase id => c.perform (.erase id)
  | .find id => c.perform (.find id)
  | .eraseAll q => c.perform (.eraseAll q)
  | .findAll q => c.perform (.findAll q)
  | .clear => c.settle c.scene.clear
  | .rename name =>
    match c.scene.cache.rename name with
    | .ok cache => (some (.flag true), { c with scene := { c.scene with cache } })
    | .error _ => (some (.flag false), c)

/-- The notes since the last move, which leave the scene with this. -/
def takeNotes (c : Cascade) : List Note × Cascade :=
  (c.scene.notes, { c with scene := { c.scene with notes := [] } })

/-- The stages of the cache with their ids, the lowest first. -/
def contents (c : Cascade) : List (String × StageId) :=
  c.scene.cache.store.stages.map fun s => (c.scene.nameOf s, c.scene.cache.store.idOf s)

end Cascade

end SharedStages
