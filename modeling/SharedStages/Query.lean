import SharedStages.Key

/-! Queries: a root layer, and for each other component of a key either anything or one value. -/

namespace SharedStages

/-- What a query asks of one component. -/
inductive Constraint (α : Type) where
  | any
  | exactly (a : α)
  deriving DecidableEq, Repr

namespace Constraint

variable {α : Type}

def map {β : Type} (f : α → β) : Constraint α → Constraint β
  | any => any
  | exactly a => exactly (f a)

variable [DecidableEq α]

def admits : Constraint α → α → Bool
  | any, _ => true
  | exactly a, b => a = b

@[simp] theorem admits_any (b : α) : any.admits b = true := rfl

@[simp] theorem admits_exactly {a b : α} : (exactly a).admits b = true ↔ a = b := by
  simp [admits]

end Constraint

/-- A partial key. `session := .exactly none` asks for stages without a session layer. -/
structure Query (H C : Type) where
  root : H
  session : Constraint (Option H)
  context : Constraint C
  deriving DecidableEq, Repr

namespace Query

variable {H L C : Type}

/-- Every stage with this root. -/
def ofRoot (root : H) : Query H C := ⟨root, .any, .any⟩

def withSession (q : Query H C) (session : Option H) : Query H C :=
  { q with session := .exactly session }

def withContext (q : Query H C) (context : C) : Query H C :=
  { q with context := .exactly context }

/-- The stages with exactly this key. -/
def ofKey (k : Key H C) : Query H C := ⟨k.root, .exactly k.session, .exactly k.context⟩

def map (f : H → L) (q : Query H C) : Query L C :=
  ⟨f q.root, q.session.map (Option.map f), q.context⟩

/-- The names that a query by handles is compared by. -/
def names (q : Query (Layer H) C) : Query H C := q.map Layer.name

@[simp] theorem names_root (q : Query (Layer H) C) : q.names.root = q.root.name := rfl

variable [DecidableEq H] [DecidableEq C]

def admits (q : Query H C) (k : Key H C) : Bool :=
  q.root = k.root && q.session.admits k.session && q.context.admits k.context

theorem admits_iff {q : Query H C} {k : Key H C} : q.admits k = true ↔
    q.root = k.root ∧ q.session.admits k.session = true ∧ q.context.admits k.context = true := by
  simp [Query.admits, and_assoc]

end Query

end SharedStages
