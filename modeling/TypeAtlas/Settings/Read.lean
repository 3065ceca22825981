import TypeAtlas.Settings
import TypeAtlas.Settings.Table

/-!
Settings from a TOML text. Names that are not known are passed by; a known name must have a
value of its type and may stand only once.
-/

namespace TypeAtlas

open Toml (Value Section)

namespace Settings

/-- What a text says under a known name. -/
inductive Entry where
  | absent
  | value (value : Value)
  /-- Sections whose headers begin with the name. -/
  | headed (sections : List Section)

/-- The entry of a name; `none` where it stands more than once. -/
def entry? (root : Section) (rest : List Section) (name : String) : Option Entry :=
  match root.fields.filter (·.1 == name), rest.filter (·.header.head? == some name) with
  | [], [] => some .absent
  | [(_, value)], [] => some (.value value)
  | [], sections => some (.headed sections)
  | _, _ => none

def policyOf? : String → Option LoadPolicy
  | "lazy" => some .lazy
  | "on_resolve" => some .onResolve
  | _ => none

def textOf? : Value → Option String
  | .text value => some value
  | _ => none

def usingsIn? : Entry → Option (List String)
  | .absent => some ({} : Settings).implicitUsings
  | .value (.list items) => items.mapM textOf?
  | _ => none

/-- A policy is a text or an empty table of its name. A table behind a header must be the
only one in the text. -/
def policyIn? (alone : Bool) : Entry → Option LoadPolicy
  | .absent => some ({} : Settings).loadPolicy
  | .value (.text name) => policyOf? name
  | .value (.table false [(name, .table _ [])]) => policyOf? name
  | .headed [found] =>
    if alone && found.fields.isEmpty then found.header.getLast?.bind policyOf? else none
  | _ => none

def depthIn? : Entry → Option (Option Nat)
  | .absent => some ({} : Settings).maxLoadDepth
  | .value (.number value) => if value < 0 then none else some (some value.toNat)
  | _ => none

def flagIn? : Entry → Option Bool
  | .absent => some ({} : Settings).skipCompilerAttributes
  | .value (.flag value) => some value
  | _ => none

/-- The settings in a text; `none` where it is no such text. -/
def ofToml? (text : String) : Option Settings := do
  match ← Toml.sections text with
  | [] => none
  | root :: rest =>
    let implicitUsings ← usingsIn? (← entry? root rest "implicit_usings")
    let loadPolicy ← policyIn? (root.fields.isEmpty && rest.length == 1)
      (← entry? root rest "load_policy")
    let maxLoadDepth ← depthIn? (← entry? root rest "max_load_depth")
    let skipCompilerAttributes ← flagIn? (← entry? root rest "skip_compiler_attributes")
    return { implicitUsings, loadPolicy, maxLoadDepth, skipCompilerAttributes }

end Settings

end TypeAtlas
