/-!
Data that users attach to a declaration: at most one value of each kind, written once.
-/

namespace TypeAtlas

/-- A value to attach. Its constructor is its kind. -/
inductive Datum where
  | word (value : UInt32)
  | long (value : Int64)
  | flag (value : Bool)
  | text (value : String)
deriving DecidableEq, Repr

/-- The kinds of values. -/
inductive Slot where
  | word | long | flag | text
deriving DecidableEq, Repr

def Datum.slot : Datum → Slot
  | word _ => .word
  | long _ => .long
  | flag _ => .flag
  | text _ => .text

/-- The name by which a refusal calls a kind. -/
def Slot.title : Slot → String
  | word => "u32"
  | long => "i64"
  | flag => "bool"
  | text => "alloc::string::String"

structure SideData where
  entries : List Datum := []

namespace SideData

def get? (data : SideData) (slot : Slot) : Option Datum := data.entries.find? (·.slot == slot)

def contains (data : SideData) (slot : Slot) : Bool := (data.get? slot).isSome

/-- Attach a value; refused where its kind is taken. -/
def insert (data : SideData) (value : Datum) : Option SideData :=
  if data.contains value.slot then none else some ⟨data.entries ++ [value]⟩

def size (data : SideData) : Nat := data.entries.length

end SideData

end TypeAtlas
