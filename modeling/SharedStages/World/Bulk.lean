import SharedStages.World.Step

/-! Insertion of many new stages at once, as a run of steps. -/

namespace SharedStages

/-- Stages `stem ++ "0"`, `stem ++ "1"`, … to be made and inserted, their roots taken in turn. Of
each layer all stages use the same handle.
The caller keeps the handles only if `keep` is set. -/
structure Bulk (H C : Type) where
  cache : String
  stem : String
  count : Nat
  roots : List H
  session : Option H
  context : C
  keep : Bool

namespace Bulk

variable {H C : Type}

def label (b : Bulk H C) (i : Nat) : String := b.stem ++ toString i

/-- The steps that make the `i`-th stage, which is in hand after that, and insert it. -/
def insertion (b : Bulk H C) (ownKey : String → Option (Key H C)) (i : Nat) :
    List (Step (Layer H) C) :=
  match b.roots[i % b.roots.length]? with
  | none => []
  | some root =>
    let key : Key H C := ⟨root, b.session, b.context⟩
    [.create none (b.label i) ((ownKey (b.label i)).map (Key.map .shared)),
      .perform b.cache (.insert none (key.map .shared))]

/-- What becomes of the `i`-th stage in hand: it gets its label as a name only if it is to be kept
and its insertion did not trip. -/
def conclusion (b : Bulk H C) (i : Nat) (tripped : Bool) : Step (Layer H) C :=
  if b.keep && !tripped then .keep (b.label i) else .release none

end Bulk

namespace Report

variable {H C : Type}

def hasTripped (r : Report H C) : Bool :=
  match r.answer with
  | .tripped _ => true
  | _ => false

def id? (r : Report H C) : Option StageId :=
  match r.answer with
  | .reply (.id i) => some i
  | _ => none

/-- The first and the last id among the answers, unless a layer tripped. -/
def spanAnswer (rs : List (Report H C)) : Answer H C :=
  match rs.find? (·.hasTripped) with
  | some r => r.answer
  | none =>
    let ids := rs.filterMap (·.id?)
    .span (ids.head?.bind fun i => ids.getLast?.map fun j => (i, j))

end Report

namespace World

variable {H C : Type} [Ord H] [Std.TransOrd H] [DecidableEq H] [DecidableEq C]

/-- Makes and inserts stages up to the first insertion that trips. -/
def insertItems (b : Bulk H C) (ownKey : String → Option (Key H C)) :
    World H C → List Nat → World H C × List (Report H C)
  | w, [] => (w, [])
  | w, i :: is =>
    let (w, rs) := w.run (b.insertion ownKey i)
    let tripped := rs.any (·.hasTripped)
    let (w, r) := w.step (b.conclusion i tripped)
    if tripped then (w, rs ++ [r])
    else
      let (w, rs') := insertItems b ownKey w is
      (w, rs ++ r :: rs')

/-- Makes and inserts the stages of `b`; `ownKey` gives the key a label reports for itself. -/
def bulkInsert (w : World H C) (b : Bulk H C) (ownKey : String → Option (Key H C)) :
    World H C × Report H C :=
  if w.caches.contains b.cache then
    let (w, rs) := insertItems b ownKey w (List.range b.count)
    (w, ⟨Report.spanAnswer rs, rs.flatMap (·.deliveries), rs.flatMap (·.destroyed)⟩)
  else w.reply .missing

end World

end SharedStages
