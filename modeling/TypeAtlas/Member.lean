import TypeAtlas.Source.Handle
import TypeAtlas.Use

/-!
What a loaded declaration holds: generic parameters, attributes, properties and methods.
-/

namespace TypeAtlas

structure GenericParam where
  name : String
  constraints : List Use := []

/-- Put a constraint on the first parameter of a name. Without such a parameter it is
dropped. -/
def GenericParam.constrain (name : String) (use : Use) : List GenericParam → List GenericParam
  | [] => []
  | param :: rest =>
    if param.name = name then { param with constraints := param.constraints ++ [use] } :: rest
    else param :: constrain name use rest

structure Attribute where
  /-- The name of the attribute's declaration. -/
  name : String
  use : Use
  handle : Source.Handle

structure Parameter where
  name : String
  type : Use

structure Property where
  name : String
  type : Use
  getter : Bool
  setter : Bool
  attributes : List Attribute
  handle : Source.Handle

structure Method where
  name : String
  returns : Use
  params : List Parameter
  generics : List GenericParam
  attributes : List Attribute
  handle : Source.Handle

inductive Member where
  | property (property : Property)
  | method (method : Method)

namespace Member

def name : Member → String
  | property p => p.name
  | method m => m.name

def attributes : Member → List Attribute
  | property p => p.attributes
  | method m => m.attributes

def handle : Member → Source.Handle
  | property p => p.handle
  | method m => m.handle

def property? : Member → Option Property
  | property p => some p
  | method _ => none

def method? : Member → Option Method
  | property _ => none
  | method m => some m

def word : Member → String
  | property _ => "property"
  | method _ => "method"

end Member

/-- A property as it is written in source, without modifiers. -/
def propertySignature (type name : String) (getter setter : Bool) : String :=
  type ++ " " ++ name ++ " \x7b " ++ (if getter then "get; " else "") ++
    (if setter then "set; " else "") ++ "\x7d"

/-- A method as it is written in source, without modifiers and body. Parameters are pairs of
a type and a name. -/
def methodSignature (returns name : String) (generics : List String)
    (params : List (String × String)) : String :=
  returns ++ " " ++ name ++
    (if generics.isEmpty then "" else "<" ++ Text.joinWith ", " generics ++ ">") ++
    "(" ++ Text.joinWith ", " (params.map fun (type, name) => type ++ " " ++ name) ++ ")"

def Member.signature (nameOf : DeclId → String) : Member → String
  | .property p => propertySignature (p.type.display nameOf) p.name p.getter p.setter
  | .method m =>
    methodSignature (m.returns.display nameOf) m.name (m.generics.map (·.name))
      (m.params.map fun param => (param.type.display nameOf, param.name))

end TypeAtlas
