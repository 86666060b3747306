import SharedStages.Store.Work

/-! What a cache does with its store. -/

namespace SharedStages.Store

variable {H C : Type} [Ord H] [Std.TransOrd H]

open Work

/-- A look-up by root hashes it, unless the index is empty. -/
def consult (root : Layer H) : Work H C Unit := do
  unless (← get).store.byRoot.isEmpty do touch root

/-- Files a stage under a key, or returns the id it has and ignores the key. The root is copied
and hashed before anything is written. -/
def insert (stage : Stage) (key : Key (Layer H) C) : Work H C (StageId × Bool) := do
  match (← get).store.byStage[stage]? with
  | some id => return (id, false)
  | none =>
    let id ← mint
    touch key.root
    touch key.root
    write (·.putRoot key.root id)
    write (·.putStage stage id)
    gain stage
    write (·.putEntry ⟨id, stage, key⟩)
    return (id, true)

/-- Removes an entry. The last id of a bucket takes the bucket with it. -/
def erase (id : StageId) : Work H C (Option (Entry H C)) := do
  match (← get).store.entries[id]? with
  | none => return none
  | some e =>
    consult e.handles.root
    if (← get).store.bucketSize e.key.root ≤ 1 then
      touch e.handles.root
      write (·.dropBucket e.key.root)
    else
      consult e.handles.root
      write (·.dropFromBucket e.key.root id)
    write (·.dropEntry id)
    write (·.dropStage e.stage)
    setAside [e.stage]
    return some e

def eraseStage (stage : Stage) : Work H C (Option (Entry H C)) := do
  erase ((← get).store.idOf stage)

/-- Removes the entries of a list of ids, one after the other. -/
def eraseEach : List StageId → Work H C (List (Entry H C))
  | [] => return []
  | id :: ids => do
    let e ← erase id
    let es ← eraseEach ids
    return e.toList ++ es

/-- Empties the store and returns what it held. -/
def take : Work H C (Store H C) := do
  let s := (← get).store
  write fun _ => empty
  setAside s.stages
  return s

/-- A second store with the same content. Every root and session is copied, those of the index by
roots too, and every stage gets one more share. -/
def copy : Work H C (Store H C) := do
  let s := (← get).store
  s.entries.values.forM fun e => do
    gain e.stage
    touch e.handles.root
    e.handles.session.forM touch
  s.byRoot.values.forM (touch ·.root)
  return s

variable [DecidableEq H] [DecidableEq C]

/-- The ids a query finds. -/
def search (q : Query (Layer H) C) : Work H C (List StageId) := do
  consult q.root
  return (← get).store.matching q.names

/-- The entries go one by one, each by its own handle of the root. If that trips, those before it
are gone. -/
def eraseMatching (q : Query (Layer H) C) : Work H C (List (Entry H C)) := do
  eraseEach (← search q)

end SharedStages.Store
