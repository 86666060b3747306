import SharedStages.Cache.Operation
import SharedStages.Ledger

/-! A world of named caches and of stages that a caller holds by handles. All caches of a world
share its id counter and the triggers of layers. -/

namespace SharedStages

/-- What is known of a live stage: its label, and the key it reports for itself, if it does. -/
structure Profile (H C : Type) where
  label : String
  key : Option (Key H C)

def Profile.map {H L C : Type} (f : H → L) (p : Profile H C) : Profile L C :=
  ⟨p.label, p.key.map (Key.map f)⟩

/-- The caller's name for a stage. `none` is the stage in hand, which has no name. -/
abbrev Handle := Option String

/-- The caches by name, the stages the caller holds, the shares in every live stage, and how many
cache instances and journals there have been. -/
structure World (H C : Type) [Ord H] extends Ambient H where
  caches : Std.ExtTreeMap String (Cache H C)
  held : Std.ExtTreeMap Handle Stage
  ledger : Ledger (Profile (Layer H) C)
  instances : Nat
  journals : Nat

/-- The kinds of observers that can be put on a cache. -/
inductive Watch where
  | record
  | trace
  | none
  | mute
  deriving DecidableEq, Repr

/-- What the caller can do. A new cache, a configured one and a copy replace the cache that has the
name they get; `copyFrom` overwrites the contents of a cache and leaves the instance. -/
inductive Step (H C : Type) where
  | create (handle : Handle) (label : String) (key : Option (Key H C))
  | keep (label : String)
  | release (handle : Handle)
  | shares (handle : Handle)
  | profile (handle : Handle)
  | new (cache : String)
  | configure (cache : String) (config : Config)
  | observe (cache : String) (watch : Watch)
  | copy (cache target : String)
  | copyFrom (cache source : String)
  | swap (cache other : String)
  | discard (cache : String)
  | perform (cache : String) (op : Operation Handle H C)
  | insertKeyed (cache : String) (handle : Handle)
  | ask (cache : String) (q : Question Handle)
  | rename (cache name : String)
  | arm (layer : H)
  | destroyed

/-- Replaces the layers in what a step is called with. -/
def Step.map {H L C : Type} (f : H → L) : Step H C → Step L C
  | create handle label key => .create handle label (key.map (Key.map f))
  | keep label => .keep label
  | release handle => .release handle
  | shares handle => .shares handle
  | profile handle => .profile handle
  | new cache => .new cache
  | configure cache config => .configure cache config
  | observe cache watch => .observe cache watch
  | copy cache target => .copy cache target
  | copyFrom cache source => .copyFrom cache source
  | swap cache other => .swap cache other
  | discard cache => .discard cache
  | perform cache op => .perform cache (op.map f)
  | insertKeyed cache handle => .insertKeyed cache handle
  | ask cache q => .ask cache q
  | rename cache name => .rename cache name
  | arm layer => .arm (f layer)
  | destroyed => .destroyed

/-- A name stands for the handle that all who use it share. -/
instance {H C : Type} : Coe (Step H C) (Step (Layer H) C) := ⟨.map .shared⟩

/-- The answer to a step; `missing` if the step names a cache or a stage that is not there. Of the
handle that tripped, only the name is told. -/
inductive Answer (H C : Type) where
  | done
  | flag (b : Bool)
  | count (n : Option Nat)
  | profile (p : Profile H C)
  | accepted
  | refused (fault : Fault)
  | reply (r : Reply)
  | finding (f : Finding)
  | span (ids : Option (StageId × StageId))
  | tripped (layer : H)
  | missing

/-- A step's answer, what was delivered to observers, and the stages destroyed by it. -/
structure Report (H C : Type) where
  answer : Answer H C
  deliveries : List Delivery
  destroyed : List (Stage × Profile (Layer H) C)

/-- The labels of the destroyed stages in ascending order. -/
def Report.dropped {H C : Type} (r : Report H C) : List String :=
  (r.destroyed.map (·.2.label)).mergeSort

namespace World

variable {H C : Type} [Ord H] [Std.TransOrd H]

/-- Nothing minted, nothing armed, no cache and no stage. -/
def empty : World H C where
  armed := ∅
  minted := 0
  caches := ∅
  held := ∅
  ledger := .empty
  instances := 0
  journals := 0

instance : Inhabited (World H C) := ⟨empty⟩

def labelOf (w : World H C) (s : Stage) : String := ((w.ledger.info? s).map (·.label)).getD ""

/-- The stages of a cache with their ids, the lowest first. -/
def contents (w : World H C) (c : Cache H C) : List (String × StageId) :=
  c.store.stages.map fun s => (w.labelOf s, c.store.idOf s)

/-- Every cache with its contents. -/
def listing (w : World H C) : List (String × List (String × StageId)) :=
  w.caches.toList.map fun c => (c.1, w.contents c.2)

end World

end SharedStages
