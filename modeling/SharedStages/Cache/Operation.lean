import SharedStages.Cache.Basic

/-! The requests to one cache. An operation works on the store and is reported to the observer;
a question is answered from the cache as it is. `σ` is what names a stage. -/

namespace SharedStages

/-- What a cache does to its store and reports to its observer. -/
inductive Operation (σ H C : Type) where
  | find (id : StageId)
  | findOne (q : Query H C)
  | findAll (q : Query H C)
  | insert (stage : σ) (key : Key H C)
  | erase (id : StageId)
  | eraseStage (stage : σ)
  | eraseAll (q : Query H C)
  | clear

/-- What can be asked of a cache. Nothing changes by it, and nothing is reported. -/
inductive Question (σ : Type) where
  | idOf (stage : σ)
  | contains (stage : σ)
  | containsId (id : StageId)
  | stages
  | size
  | isEmpty
  | name
  | label
  | description

/-- The answer to an operation. -/
inductive Reply where
  | done
  | stage (s : Option Stage)
  | stages (s : List Stage)
  | id (i : StageId)
  | flag (b : Bool)
  | count (n : Nat)
  deriving DecidableEq

/-- The answer to a question. -/
inductive Finding where
  | stages (s : List Stage)
  | id (i : StageId)
  | flag (b : Bool)
  | count (n : Nat)
  | name (s : String)
  | label (l : Label)
  | description (l : Label) (size : Nat)
  deriving DecidableEq

/-- Replaces the names of stages; `none` if one of them names no stage. -/
def Operation.resolve {σ τ H C : Type} (f : σ → Option τ) :
    Operation σ H C → Option (Operation τ H C)
  | find id => some (.find id)
  | findOne q => some (.findOne q)
  | findAll q => some (.findAll q)
  | insert s key => (f s).map (.insert · key)
  | erase id => some (.erase id)
  | eraseStage s => (f s).map .eraseStage
  | eraseAll q => some (.eraseAll q)
  | clear => some .clear

/-- Replaces the layers in keys and queries. -/
def Operation.map {σ H L C : Type} (f : H → L) : Operation σ H C → Operation σ L C
  | find id => .find id
  | findOne q => .findOne (q.map f)
  | findAll q => .findAll (q.map f)
  | insert s key => .insert s (key.map f)
  | erase id => .erase id
  | eraseStage s => .eraseStage s
  | eraseAll q => .eraseAll (q.map f)
  | clear => .clear

/-- Replaces the name of a stage in a question. -/
def Question.resolve {σ τ : Type} (f : σ → Option τ) : Question σ → Option (Question τ)
  | idOf s => (f s).map .idOf
  | contains s => (f s).map .contains
  | containsId id => some (.containsId id)
  | stages => some .stages
  | size => some .size
  | isEmpty => some .isEmpty
  | name => some .name
  | label => some .label
  | description => some .description

variable {H C : Type} [Ord H] [Std.TransOrd H]

/-- An operation as steps on the store, with its answer and its event. -/
def Operation.work [DecidableEq H] [DecidableEq C] :
    Operation Stage (Layer H) C → Work H C (Reply × Event)
  | find id => do
    let stage := (← get).store.find? id
    return (.stage stage, .find id stage.isSome)
  | findOne q => do
    let ids ← Store.search q
    let stage := ids.head?.bind (← get).store.find?
    return (.stage stage, .findMatching stage.toList.length)
  | findAll q => do
    let ids ← Store.search q
    let stages := ids.filterMap (← get).store.find?
    return (.stages stages, .findMatching stages.length)
  | insert stage key => do
    let (id, inserted) ← Store.insert stage key
    return (.id id, .insert id inserted)
  | erase id => do
    let e ← Store.erase id
    return (.flag e.isSome, .erase id e.isSome)
  | eraseStage stage => do
    let e ← Store.eraseStage stage
    return (.flag e.isSome, .erase ((e.map (·.id)).getD .invalid) e.isSome)
  | eraseAll q => do
    let es ← Store.eraseMatching q
    return (.count es.length, .eraseMatching es.length)
  | clear => do
    let old ← Store.take
    return (.done, .clear old.size)

namespace Cache

/-- Answers a question from the cache as it is. -/
def ask (c : Cache H C) : Question Stage → Finding
  | .idOf stage => .id (c.store.idOf stage)
  | .contains stage => .flag (c.store.idOf stage).isValid
  | .containsId id => .flag (c.store.containsId id)
  | .stages => .stages c.store.stages
  | .size => .count c.store.size
  | .isEmpty => .flag c.store.isEmpty
  | .name => .name c.name
  | .label => .label c.label
  | .description => .description c.label c.store.size

/-- What came of a request to a cache. A layer that tripped takes the place of the answer. -/
structure Outcome (H C α : Type) [Ord H] where
  answer : Except (Layer H) α
  cache : Cache H C
  ambient : Ambient H
  gained : List Stage
  lost : List Stage
  deliveries : List Delivery

/-- Runs steps on the cache's store. If they trip, what they did so far stays done, the shares they
took are set aside too, and there is nothing to deliver. -/
def run {α : Type} (c : Cache H C) (a : Ambient H) (w : Work H C α) (report : α → List Delivery) :
    Outcome H C α :=
  match EStateM.run w { a with store := c.store, gained := [], lost := [] } with
  | .ok answer b =>
    ⟨.ok answer, { c with store := b.store }, b.toAmbient, b.gained, b.lost, report answer⟩
  | .error layer b =>
    ⟨.error layer, { c with store := b.store }, b.toAmbient, b.gained, b.lost ++ b.gained, []⟩

/-- The one delivery of an event, if the observer wants it. -/
def deliver (c : Cache H C) (event : Event) : List Delivery :=
  if c.observer.isEnabled then [⟨c.observer, c.label, event⟩] else []

/-- Performs an operation and reports it. -/
def perform [DecidableEq H] [DecidableEq C] (c : Cache H C) (a : Ambient H)
    (op : Operation Stage (Layer H) C) : Outcome H C (Reply × Event) :=
  c.run a op.work fun r => c.deliver r.2

/-- Copies the store for another cache. -/
def copyStore (c : Cache H C) (a : Ambient H) : Outcome H C (Store H C) :=
  c.run a Store.copy fun _ => []

end Cache

end SharedStages
