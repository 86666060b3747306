import SharedStages.World.Basic

/-! One step of a world, and runs of steps. -/

namespace SharedStages.World

variable {H C : Type} [Ord H] [Std.TransOrd H]

/-- Books the shares a step took, then those it gave back, and reports. -/
def settle (w : World H C) (gained lost : List Stage) (answer : Answer H C)
    (deliveries : List Delivery) : World H C × Report H C :=
  let (destroyed, ledger) := (w.ledger.retainAll gained).releaseAll lost
  ({ w with ledger }, ⟨answer, deliveries, destroyed⟩)

/-- Answers without touching a share. -/
def reply (w : World H C) (answer : Answer H C) : World H C × Report H C := (w, ⟨answer, [], []⟩)

/-- Takes over what a request left of its cache and of the shared part. -/
def absorb {α : Type} (w : World H C) (cache : String) (o : Cache.Outcome H C α) : World H C :=
  { w with toAmbient := o.ambient, caches := w.caches.insert cache o.cache }

/-- Puts a new instance under a name; the cache that had the name is let go. -/
def install (w : World H C) (cache : String) (c : Cache H C) (gained : List Stage)
    (answer : Answer H C) : World H C × Report H C :=
  let lost := (w.caches[cache]?.map (·.store.stages)).getD []
  { w with caches := w.caches.insert cache c, instances := w.instances + 1 }.settle
    gained lost answer []

/-- Makes a stage; a stage that had the handle is let go. -/
def create (w : World H C) (handle : Handle) (p : Profile (Layer H) C) : World H C × Report H C :=
  let (stage, ledger) := w.ledger.create p
  { w with ledger, held := w.held.insert handle stage }.settle [] w.held[handle]?.toList .done []

/-- Gives the stage in hand a name; a stage that had the name is let go. -/
def keep (w : World H C) (label : String) : World H C × Report H C :=
  match w.held[(none : Handle)]? with
  | none => w.reply .missing
  | some stage =>
    { w with held := (w.held.erase none).insert (some label) stage }.settle
      [] w.held[some label]?.toList .done []

/-- Lets a held stage go; the flag says whether it was held. -/
def release (w : World H C) (handle : Handle) : World H C × Report H C :=
  match w.held[handle]? with
  | none => w.reply (.flag false)
  | some stage => { w with held := w.held.erase handle }.settle [] [stage] (.flag true) []

def profile? (w : World H C) (handle : Handle) : Option (Profile (Layer H) C) :=
  w.held[handle]?.bind w.ledger.info?

/-- The observer of a kind; each recorder gets a journal of its own. -/
def observer (w : World H C) : Watch → Observer
  | .record => .recorder w.journals
  | .trace => .tracing
  | .none => .noop
  | .mute => .muted w.journals

def observe (w : World H C) (cache : String) (watch : Watch) : World H C × Report H C :=
  match w.caches[cache]? with
  | none => w.reply .missing
  | some c =>
    { w with
      caches := w.caches.insert cache (c.observedBy (w.observer watch))
      journals := w.journals + 1 }.reply .done

/-- Makes a cache of a configuration. If that is refused, no cache is made or replaced. -/
def configure (w : World H C) (cache : String) (config : Config) : World H C × Report H C :=
  match Cache.ofConfig config w.instances with
  | .ok c => w.install cache c [] .accepted
  | .error fault => w.reply (.refused fault)

/-- Puts a copy under a name. A layer that trips leaves the name as it was. -/
def copy (w : World H C) (cache target : String) : World H C × Report H C :=
  match w.caches[cache]? with
  | none => w.reply .missing
  | some c =>
    let o := c.copyStore w.toAmbient
    let w := w.absorb cache o
    match o.answer with
    | .ok store => w.install target (c.copy store w.instances) o.gained .done
    | .error layer => w.settle o.gained o.lost (.tripped layer.name) []

/-- Makes a cache a copy of another, which is made first. The former stages are let go last. -/
def copyFrom (w : World H C) (cache source : String) : World H C × Report H C :=
  match w.caches[cache]?, w.caches[source]? with
  | some c, some d =>
    let o := d.copyStore w.toAmbient
    let w := w.absorb source o
    match o.answer with
    | .ok store =>
      { w with caches := w.caches.insert cache (c.copyFrom d store) }.settle
        o.gained c.store.stages .done []
    | .error layer => w.settle o.gained o.lost (.tripped layer.name) []
  | _, _ => w.reply .missing

def swap (w : World H C) (cache other : String) : World H C × Report H C :=
  match w.caches[cache]?, w.caches[other]? with
  | some c, some d =>
    let (c', d') := c.swap d
    { w with caches := (w.caches.insert cache c').insert other d' }.reply .done
  | _, _ => w.reply .missing

/-- Lets a cache go; the flag says whether it was there. -/
def discard (w : World H C) (cache : String) : World H C × Report H C :=
  match w.caches[cache]? with
  | none => w.reply (.flag false)
  | some c => { w with caches := w.caches.erase cache }.settle [] c.store.stages (.flag true) []

def ask (w : World H C) (cache : String) (q : Question Handle) : World H C × Report H C :=
  match w.caches[cache]?, q.resolve (w.held[·]?) with
  | some c, some q => w.reply (.finding (c.ask q))
  | _, _ => w.reply .missing

def rename (w : World H C) (cache name : String) : World H C × Report H C :=
  match w.caches[cache]? with
  | none => w.reply .missing
  | some c =>
    match c.rename name with
    | .ok c => { w with caches := w.caches.insert cache c }.reply .accepted
    | .error fault => w.reply (.refused fault)

variable [DecidableEq H] [DecidableEq C]

/-- An operation on a cache, all its stages known. -/
def performOn (w : World H C) (cache : String) (c : Cache H C)
    (op : Operation Stage (Layer H) C) : World H C × Report H C :=
  let o := c.perform w.toAmbient op
  let answer := match o.answer with
    | .ok (r, _) => .reply r
    | .error layer => .tripped layer.name
  (w.absorb cache o).settle o.gained o.lost answer o.deliveries

def perform (w : World H C) (cache : String) (op : Operation Handle (Layer H) C) :
    World H C × Report H C :=
  match w.caches[cache]?, op.resolve (w.held[·]?) with
  | some c, some op => w.performOn cache c op
  | _, _ => w.reply .missing

/-- Inserts a held stage under the key it reports for itself. It is asked for the key before the
cache is entered, by code of the caller's that is taken to trip on nothing. -/
def insertKeyed (w : World H C) (cache : String) (handle : Handle) : World H C × Report H C :=
  match (w.profile? handle).bind (·.key) with
  | some key => w.perform cache (.insert handle key)
  | none => w.reply .missing

def step (w : World H C) : Step (Layer H) C → World H C × Report H C
  | .create handle label key => w.create handle ⟨label, key⟩
  | .keep label => w.keep label
  | .release handle => w.release handle
  | .shares handle => w.reply (.count (w.held[handle]?.map w.ledger.shares))
  | .profile handle =>
    w.reply (((w.profile? handle).map fun p => .profile (p.map Layer.name)).getD .missing)
  | .new cache => w.install cache (.new w.instances) [] .done
  | .configure cache config => w.configure cache config
  | .observe cache watch => w.observe cache watch
  | .copy cache target => w.copy cache target
  | .copyFrom cache source => w.copyFrom cache source
  | .swap cache other => w.swap cache other
  | .discard cache => w.discard cache
  | .perform cache op => w.perform cache op
  | .insertKeyed cache handle => w.insertKeyed cache handle
  | .ask cache q => w.ask cache q
  | .rename cache name => w.rename cache name
  | .arm layer => { w with armed := w.armed.insert layer }.reply .done
  | .destroyed => w.reply (.count (some w.ledger.destroyed))

/-- The steps in order, with a report of each. -/
def run : World H C → List (Step (Layer H) C) → World H C × List (Report H C)
  | w, [] => (w, [])
  | w, s :: ss =>
    let (w, r) := w.step s
    let (w, rs) := run w ss
    (w, r :: rs)

@[simp] theorem run_nil (w : World H C) : w.run [] = (w, []) := rfl

@[simp] theorem run_cons (w : World H C) (s : Step (Layer H) C) (ss : List (Step (Layer H) C)) :
    w.run (s :: ss) =
      (((w.step s).1.run ss).1, (w.step s).2 :: ((w.step s).1.run ss).2) := rfl

end SharedStages.World
