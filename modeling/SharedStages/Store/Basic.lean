import Std.Data.ExtTreeMap
import SharedStages.Query
import SharedStages.StageId

/-! The store of a cache: entries by id, with two more indexes, by stage and by root. Each index
has its own writes; an operation makes them one by one. -/

namespace SharedStages

/-- A shared stage. Stages are told apart by the order of their creation, not by content. -/
structure Stage where
  serial : Nat
  deriving DecidableEq, Repr

namespace Stage

instance : Ord Stage := ⟨fun s t => compare s.serial t.serial⟩

instance : Std.TransOrd Stage where
  eq_swap {s t} := Std.OrientedOrd.eq_swap (a := s.serial) (b := t.serial)
  isLE_trans {s t u} := Std.TransOrd.isLE_trans (a := s.serial) (b := t.serial) (c := u.serial)

instance : Std.LawfulEqOrd Stage where
  compare_self {s} := Std.ReflOrd.compare_self (a := s.serial)
  eq_of_compare {s t} h := by
    have : s.serial = t.serial := Std.LawfulEqOrd.eq_of_compare h
    cases s; cases t; simp_all

end Stage

/-- A cached stage with the id and the handles it is filed under. -/
structure Entry (H C : Type) where
  id : StageId
  stage : Stage
  handles : Key (Layer H) C

/-- What an entry is looked for by. -/
def Entry.key {H C : Type} (e : Entry H C) : Key H C := e.handles.names

/-- The ids filed under a root, and the handle of it that they were first filed by. -/
structure Bucket (H : Type) where
  root : Layer H
  ids : Std.ExtTreeSet StageId

namespace Bucket

variable {H : Type}

def insert (b : Bucket H) (id : StageId) : Bucket H := { b with ids := b.ids.insert id }

def erase (b : Bucket H) (id : StageId) : Bucket H := { b with ids := b.ids.erase id }

end Bucket

/-- The three indexes. The entries decide; the others serve look-ups. -/
structure Store (H C : Type) [Ord H] where
  entries : Std.ExtTreeMap StageId (Entry H C)
  byStage : Std.ExtTreeMap Stage StageId
  byRoot : Std.ExtTreeMap H (Bucket H)

namespace Store

variable {H C : Type} [Ord H] [Std.TransOrd H]

def empty : Store H C := ⟨∅, ∅, ∅⟩

instance : Inhabited (Store H C) := ⟨empty⟩

def size (s : Store H C) : Nat := s.entries.size

def isEmpty (s : Store H C) : Bool := s.entries.isEmpty

def find? (s : Store H C) (id : StageId) : Option Stage := s.entries[id]?.map (·.stage)

def containsId (s : Store H C) (id : StageId) : Bool := s.entries.contains id

/-- The id of a stage, invalid if the store does not hold it. -/
def idOf (s : Store H C) (stage : Stage) : StageId := s.byStage[stage]?.getD .invalid

/-- All stages, the lowest id first. -/
def stages (s : Store H C) : List Stage := s.entries.values.map (·.stage)

/-- How many ids are filed under a root. -/
def bucketSize (s : Store H C) (root : H) : Nat := (s.byRoot[root]?.map (·.ids.size)).getD 0

/-- The ids filed under a root, the lowest first. -/
def bucket (s : Store H C) (root : H) : List StageId :=
  (s.byRoot[root]?.map (·.ids.toList)).getD []

section Matching

variable [DecidableEq H] [DecidableEq C]

/-- The ids whose key the query admits, the lowest first. -/
def matching (s : Store H C) (q : Query H C) : List StageId :=
  (s.bucket q.root).filter fun id => s.entries[id]?.any (q.admits ·.key)

end Matching

/-! Single writes. -/

def putEntry (s : Store H C) (e : Entry H C) : Store H C :=
  { s with entries := s.entries.insert e.id e }

def putStage (s : Store H C) (stage : Stage) (id : StageId) : Store H C :=
  { s with byStage := s.byStage.insert stage id }

/-- The handle is kept only if the root has no bucket yet. -/
def putRoot (s : Store H C) (root : Layer H) (id : StageId) : Store H C :=
  { s with byRoot := s.byRoot.alter root.name fun b => some ((b.getD ⟨root, ∅⟩).insert id) }

def dropEntry (s : Store H C) (id : StageId) : Store H C :=
  { s with entries := s.entries.erase id }

def dropStage (s : Store H C) (stage : Stage) : Store H C :=
  { s with byStage := s.byStage.erase stage }

def dropBucket (s : Store H C) (root : H) : Store H C :=
  { s with byRoot := s.byRoot.erase root }

def dropFromBucket (s : Store H C) (root : H) (id : StageId) : Store H C :=
  { s with byRoot := s.byRoot.modify root (·.erase id) }

/-! What each write leaves in its index. -/

section Roots

variable [Std.LawfulEqOrd H] [DecidableEq H]

theorem getElem?_putRoot (s : Store H C) (root : Layer H) (r : H) (id : StageId) :
    (s.putRoot root id).byRoot[r]? = if root.name = r then
      some ((s.byRoot[root.name]?.getD ⟨root, ∅⟩).insert id) else s.byRoot[r]? := by
  simp [putRoot, Std.ExtTreeMap.getElem?_alter]

theorem getElem?_dropBucket (s : Store H C) (root r : H) :
    (s.dropBucket root).byRoot[r]? = if root = r then none else s.byRoot[r]? := by
  simp [dropBucket, Std.ExtTreeMap.getElem?_erase]

theorem getElem?_dropFromBucket (s : Store H C) (root r : H) (id : StageId) :
    (s.dropFromBucket root id).byRoot[r]? =
      if root = r then s.byRoot[root]?.map (·.erase id) else s.byRoot[r]? := by
  simp [dropFromBucket, Std.ExtTreeMap.getElem?_modify]

end Roots

omit [Std.TransOrd H]

theorem getElem?_putEntry (s : Store H C) (e : Entry H C) (i : StageId) :
    (s.putEntry e).entries[i]? = if e.id = i then some e else s.entries[i]? := by
  simp [putEntry, Std.ExtTreeMap.getElem?_insert]

theorem getElem?_dropEntry (s : Store H C) (id i : StageId) :
    (s.dropEntry id).entries[i]? = if id = i then none else s.entries[i]? := by
  simp [dropEntry, Std.ExtTreeMap.getElem?_erase]

theorem getElem?_putStage (s : Store H C) (stage t : Stage) (id : StageId) :
    (s.putStage stage id).byStage[t]? = if stage = t then some id else s.byStage[t]? := by
  simp [putStage, Std.ExtTreeMap.getElem?_insert]

theorem getElem?_dropStage (s : Store H C) (stage t : Stage) :
    (s.dropStage stage).byStage[t]? = if stage = t then none else s.byStage[t]? := by
  simp [dropStage, Std.ExtTreeMap.getElem?_erase]

end Store

end SharedStages
