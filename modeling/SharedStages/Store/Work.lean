import SharedStages.Store.Basic

/-! Operations on a store as sequences of steps. Copying or hashing a layer may trip, which ends
the operation there: what it wrote before stays written, so that an operation is all or nothing
only if its steps come in the right order. -/

namespace SharedStages

/-- What all caches share: the handles whose trigger is set, and how many ids were minted. -/
structure Ambient (H : Type) [Ord H] where
  armed : Std.ExtTreeSet (Layer H)
  minted : Nat

/-- What an operation works on: a store, the shared part, and the shares in stages that it has
taken and those it has set aside to be released when it ends. -/
structure Bench (H C : Type) [Ord H] extends Ambient H where
  store : Store H C
  gained : List Stage
  lost : List Stage

/-- A sequence of steps on a store; the error is the layer that tripped. -/
abbrev Work (H C : Type) [Ord H] := EStateM (Layer H) (Bench H C)

/-- The text of a trip. -/
def tripMessage (layer : String) : String := "layer " ++ layer ++ " tripped"

namespace Work

variable {H C : Type} [Ord H] [Std.TransOrd H]

/-- Copies or hashes a layer. An armed one trips and is disarmed by that. -/
def touch (layer : Layer H) : Work H C Unit := do
  if (← get).armed.contains layer then
    modify fun b => { b with armed := b.armed.erase layer }
    throw layer

def write (f : Store H C → Store H C) : Work H C Unit :=
  modify fun b => { b with store := f b.store }

/-- The next id. It is spent even if the operation trips later. -/
def mint : Work H C StageId :=
  modifyGet fun b => (.ofSerial b.minted, { b with minted := b.minted + 1 })

/-- Takes a share in a stage. -/
def gain (stage : Stage) : Work H C Unit := modify fun b => { b with gained := stage :: b.gained }

/-- Keeps shares to be given back when the operation has ended. -/
def setAside (stages : List Stage) : Work H C Unit :=
  modify fun b => { b with lost := b.lost ++ stages }

variable (b : Bench H C)

theorem run_touch (layer : Layer H) : EStateM.run (touch layer) b =
    if b.armed.contains layer then .error layer { b with armed := b.armed.erase layer }
    else .ok () b := by
  unfold touch
  simp only [EStateM.run_bind, EStateM.run_get]
  split <;> rfl

omit [Std.TransOrd H]

@[simp] theorem run_write (f : Store H C → Store H C) :
    EStateM.run (write f) b = .ok () { b with store := f b.store } := rfl

@[simp] theorem run_mint :
    EStateM.run mint b = .ok (.ofSerial b.minted) { b with minted := b.minted + 1 } := rfl

@[simp] theorem run_gain (stage : Stage) :
    EStateM.run (gain stage) b = .ok () { b with gained := stage :: b.gained } := rfl

@[simp] theorem run_setAside (stages : List Stage) :
    EStateM.run (setAside stages) b = .ok () { b with lost := b.lost ++ stages } := rfl

end Work

end SharedStages
