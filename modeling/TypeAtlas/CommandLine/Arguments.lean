/-!
The command line: which words are options, values, the command and its paths.
-/

namespace TypeAtlas

inductive Command where
  | inspect (paths : List String) (filter : Option String) (json : Bool)
  | stats (paths : List String)
deriving DecidableEq, Repr

structure Arguments where
  /-- Where the settings are read from. -/
  config : Option String
  command : Command
deriving DecidableEq, Repr

namespace Arguments

inductive Flag where
  | config | filter | json
deriving DecidableEq, Repr

def Flag.long : Flag → String
  | config => "config"
  | filter => "filter"
  | json => "json"

def Flag.short? : Flag → Option Char
  | config => some 'c'
  | filter => some 'f'
  | json => none

def Flag.takesValue : Flag → Bool
  | config | filter => true
  | json => false

/-- What is read from the words of one level. -/
structure Level where
  values : List (Flag × String) := []
  paths : List String := []

/-- Each flag counts once. -/
def Level.add (level : Level) (flag : Flag) (value : String) : Option Level :=
  if level.values.any (·.1 == flag) then none
  else if flag == .config && value.isEmpty then none
  else some { level with values := level.values ++ [(flag, value)] }

/-- Paths are not empty. -/
def Level.addPath (level : Level) (path : String) : Option Level :=
  if path.isEmpty then none else some { level with paths := level.paths ++ [path] }

/-- How a word reads. -/
inductive Word where
  /-- Two hyphens: nothing behind them is an option. -/
  | escape
  | flag (flag : Flag) (value : Option String)
  | plain (text : String)
  | unknown

def longWord (allowed : List Flag) (cs : List Char) : Word :=
  let name := String.ofList (cs.takeWhile (· != '='))
  let value := match cs.dropWhile (· != '=') with
    | [] => none
    | _ :: value => some (String.ofList value)
  match allowed.find? (·.long == name) with
  | some flag => if !flag.takesValue && value.isSome then .unknown else .flag flag value
  | none => .unknown

def shortWord (allowed : List Flag) (c : Char) (rest : List Char) : Word :=
  match allowed.find? (·.short? == some c), rest with
  | none, _ => .unknown
  | some flag, [] => .flag flag none
  | some flag, '=' :: value => .flag flag (some (String.ofList value))
  | some flag, value => .flag flag (some (String.ofList value))

def readWord (allowed : List Flag) (text : String) : Word :=
  match text.toList with
  | ['-', '-'] => .escape
  | '-' :: '-' :: rest => longWord allowed rest
  | ['-'] => .plain text
  | '-' :: c :: rest => shortWord allowed c rest
  | _ => .plain text

/-- A word that can be the value of the option before it. -/
def isValue (text : String) : Bool :=
  match text.toList with
  | '-' :: _ :: _ => false
  | _ => true

def readLevel (allowed : List Flag) : Level → List String → Option Level
  | level, [] => some level
  | level, word :: rest =>
    match readWord allowed word, rest with
    | .unknown, _ => none
    | .escape, rest => rest.foldlM Level.addPath level
    | .plain text, rest => do readLevel allowed (← level.addPath text) rest
    | .flag flag (some value), rest => do readLevel allowed (← level.add flag value) rest
    | .flag flag none, [] =>
      if flag.takesValue then none else level.add flag ""
    | .flag flag none, value :: more =>
      if !flag.takesValue then do readLevel allowed (← level.add flag "") (value :: more)
      else if isValue value then do readLevel allowed (← level.add flag value) more
      else none

/-- Read the options before the command, then what the command takes. -/
def readTop : Level → List String → Option Arguments
  | _, [] => none
  | top, word :: rest =>
    match readWord [.config] word, rest with
    | .plain "inspect", rest => do
      let level ← readLevel [.config, .filter, .json] {} rest
      guard !level.paths.isEmpty
      return { config := (level.values.lookup .config).or (top.values.lookup .config)
               command := .inspect level.paths (level.values.lookup .filter)
                 (level.values.lookup .json).isSome }
    | .plain "stats", rest => do
      let level ← readLevel [.config] {} rest
      guard !level.paths.isEmpty
      return { config := (level.values.lookup .config).or (top.values.lookup .config)
               command := .stats level.paths }
    | .flag flag (some value), rest => do readTop (← top.add flag value) rest
    | .flag flag none, value :: more =>
      if isValue value then do readTop (← top.add flag value) more else none
    | _, _ => none

end Arguments

/-- The meaning of a command line; `none` where it has none. -/
def Arguments.read (words : List String) : Option Arguments := readTop {} words

end TypeAtlas
