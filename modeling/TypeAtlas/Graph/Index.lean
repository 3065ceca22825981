import TypeAtlas.Use

/-!
An index of declarations: for every key the declarations that have it, in the order they
were added.
-/

namespace TypeAtlas

structure Index (κ : Type) where
  entries : List (κ × List DeclId) := []

namespace Index

variable {κ : Type} [DecidableEq κ]

/-- The declarations under a key. -/
def ids (index : Index κ) (key : κ) : List DeclId := (index.entries.lookup key).getD []

/-- The entries with one more declaration under a key. -/
def addTo (key : κ) (id : DeclId) : List (κ × List DeclId) → List (κ × List DeclId)
  | [] => [(key, [id])]
  | (k, ids) :: rest =>
    if k = key then (k, ids ++ [id]) :: rest else (k, ids) :: addTo key id rest

def add (index : Index κ) (key : κ) (id : DeclId) : Index κ := ⟨addTo key id index.entries⟩

/-- The number of keys. -/
def size (index : Index κ) : Nat := index.entries.length

end Index

end TypeAtlas
