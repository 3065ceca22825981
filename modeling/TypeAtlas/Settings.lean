/-!
What a run can be told about how to work.
-/

namespace TypeAtlas

inductive LoadPolicy where
  /-- A declaration is loaded when someone asks for it. -/
  | lazy
  /-- A declaration is loaded as soon as a reference leads to it. -/
  | onResolve
deriving DecidableEq, Repr

structure Settings where
  /-- Namespaces that every declaration in source sees. -/
  implicitUsings : List String := ["System"]
  loadPolicy : LoadPolicy := .lazy
  /-- How far a deep load follows references. -/
  maxLoadDepth : Option Nat := none
  /-- Leave out the attributes by which compilers talk to each other. -/
  skipCompilerAttributes : Bool := true
deriving DecidableEq, Repr

end TypeAtlas
