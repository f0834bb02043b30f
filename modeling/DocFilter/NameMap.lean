/-!
# Maps from names

A map from names to things, kept in the order of the names: characters compare by their code points,
which is also the order of their bytes. Two maps with the same entries are the same map, however
they came about.
-/

namespace DocFilter

/-- A map from names, in the order of the names. -/
structure NameMap (α : Type) where
  /-- The entries. -/
  entries : List (String × α) := []
  deriving DecidableEq

namespace NameMap

variable {α : Type}

/-- What a name stands for. -/
def find? (m : NameMap α) (name : String) : Option α := m.entries.lookup name

/-- Whether a name stands for something. -/
def contains (m : NameMap α) (name : String) : Bool := (m.find? name).isSome

/-- Puts an entry at its place in a list of entries, instead of an entry with the same name. -/
def insertEntry (name : String) (a : α) : List (String × α) → List (String × α)
  | [] => [(name, a)]
  | (n, b) :: rest =>
    if name < n then (name, a) :: (n, b) :: rest
    else if name = n then (name, a) :: rest
    else (n, b) :: insertEntry name a rest

/-- Lets a name stand for something, instead of what it stood for before. -/
def insert (m : NameMap α) (name : String) (a : α) : NameMap α := ⟨insertEntry name a m.entries⟩

/-- The number of entries. -/
def size (m : NameMap α) : Nat := m.entries.length

end NameMap

end DocFilter
