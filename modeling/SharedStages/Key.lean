import SharedStages.Layer

/-! Keys of cached stages. -/

namespace SharedStages

/-- What a stage is filed by: its root layer, its session layer if it has one, and the context
it was resolved under. -/
structure Key (H C : Type) where
  root : H
  session : Option H
  context : C
  deriving DecidableEq, Repr

namespace Key

variable {H L C : Type}

def map (f : H → L) (k : Key H C) : Key L C := ⟨f k.root, k.session.map f, k.context⟩

/-- The names that a key of handles is compared by. -/
def names (k : Key (Layer H) C) : Key H C := k.map Layer.name

@[simp] theorem names_root (k : Key (Layer H) C) : k.names.root = k.root.name := rfl

end Key

end SharedStages
