import TypeAtlas.Source.TypeReader

/-!
Parts that declarations of all kinds begin with: attributes, type parameters, parameters
and constraints.
-/

namespace TypeAtlas.Source.Reader

variable (g : Grammar)

/-- An argument of an attribute, possibly named. -/
def attributeArgument : Reader Unit := do
  let _ ← optional do
    let _ ← name
    mark ":" <|> mark "="
  g.expression

def oneAttribute : Reader AttributeTree := do
  let ((tree, nameText, nameSpan), text, span) ← withText do
    let named ← withText (typeName g)
    let _ ← optional do
      mark "("
      let _ ← commaList (attributeArgument g)
      mark ")"
    return named
  return ⟨span, text, tree, nameText, nameSpan⟩

def attributeTargets : List String :=
  ["field", "event", "method", "param", "property", "return", "type"]

def attributeTarget : Reader String := do
  let token ← nextIf fun token => token.kind == .word && attributeTargets.contains token.text
  mark ":"
  return token.text

def attributeList : Reader AttributeList := do
  mark "["
  let target ← optional attributeTarget
  let attributes ← commaList1 (oneAttribute g)
  let _ ← markIf ","
  mark "]"
  return ⟨target, attributes⟩

def attributeLists : Reader (List AttributeList) := many (attributeList g)

def typeParams : Reader (List String) := do
  mark "<"
  let names ← commaList1 do
    let _ ← attributeLists g
    if ← atAnyKeyword ["in", "out"] then
      let _ ← next
    name
  mark ">"
  return names

def paramModifiers : List String := ["this", "ref", "out", "in", "scoped", "readonly", "params"]

def typedParam : Reader (Option TypeTree × String) := do
  let type ← g.type
  return (some type, ← name)

/-- A parameter. Its type may be missing; then its name is no builtin type. -/
def param : Reader ParameterTree := do
  let ((type, name), text, _) ← withText do
    let _ ← attributeLists g
    let _ ← many (nextIf fun token => token.kind == .word && paramModifiers.contains token.text)
    let declared ← typedParam g <|> (do return (none, ← plainName))
    let _ ← optional do
      mark "="
      g.expression
    return declared
  return ⟨name, type, text⟩

def params : Reader (List ParameterTree) := do
  mark "("
  let params ← commaList (param g)
  mark ")"
  return params

/-- A constraint that names no type. -/
def bareConstraint : Reader Unit := do
  let token ← nextIf (·.kind == .word)
  match token.text with
  | "class" =>
    let _ ← markIf "?"
  | "struct" | "notnull" | "unmanaged" | "default" => pure ()
  | "new" =>
    mark "("
    mark ")"
  | "allows" =>
    keyword "ref"
    keyword "struct"
  | _ => failure
  if (← atMark ".") || (← atMark "<") || (← atMark "::") then failure

def constraint : Reader (Option TypeTree) :=
  (do
    bareConstraint
    return none) <|> some <$> g.type

/-- One `where` clause. -/
def constraints : Reader ConstraintTree := do
  keyword "where"
  let param ← name
  mark ":"
  let types ← commaList1 (constraint g)
  return ⟨param, types.filterMap id⟩

end TypeAtlas.Source.Reader
