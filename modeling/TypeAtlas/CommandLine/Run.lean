import TypeAtlas.CommandLine.Arguments
import TypeAtlas.Graph.Json
import TypeAtlas.Project.Load

/-!
What a command prints. A run is a function of its arguments and of the files it can see.
-/

namespace TypeAtlas

/-- Why a run did not succeed. -/
inductive Failure where
  | fault (fault : Fault)
  /-- Some declarations could not be loaded. -/
  | unloaded (count : Nat)

def Failure.message : Failure → String
  | fault f => f.message
  | unloaded count => toString count ++ " declaration(s) failed to load"

structure Output where
  /-- What goes to the standard output. -/
  printed : String := ""
  /-- What goes to the standard error. -/
  reported : String := ""
  failure : Option Failure := none

namespace CommandLine

/-- The settings file that is looked for. -/
def defaultConfig : String := "declgraph.toml"

def line (text : String) : String := text ++ "\n"

def memberLine (m : MemberSummary) : String :=
  "  " ++ String.join (m.attributes.map fun a => "[" ++ a ++ "] ") ++ m.kind ++ " " ++ m.signature

def summaryLines (s : Summary) : List String :=
  [s.kind.word ++ " " ++ s.fullName ++
      (if s.generics.isEmpty then "" else "<" ++ Text.joinWith ", " s.generics ++ ">"),
    "  from " ++ s.location ++ " (" ++ s.provenance ++ ")"] ++
    (if s.bases.isEmpty then [] else ["  : " ++ Text.joinWith ", " s.bases]) ++
    s.attributes.map (fun a => "  [" ++ a ++ "]") ++ s.members.map memberLine ++ [""]

def summaryText (s : Summary) : String := String.join ((summaryLines s).map line)

/-- The line that reports a declaration that could not be loaded. -/
def reportLine (g : Graph) (id : DeclId) (fault : Fault) : String :=
  let location := ((g.get? id).map (·.location)).getD ""
  line ("error: " ++ g.fullNameOf id ++ " (" ++ location ++ "): " ++ fault.message)

/-- Load each declaration with all it leads to, with a report for each that fails. -/
def loadRoots (atlas : Atlas) : List DeclId → List String × Atlas
  | [] => ([], atlas)
  | id :: ids =>
    let (result, atlas) := (Work.deepLoad id).run.run atlas
    let (reports, final) := loadRoots atlas ids
    match result with
    | .ok _ => (reports, final)
    | .error fault => (reportLine atlas.graph id fault :: reports, final)

/-- What a run comes to that printed a text and met some failures. -/
def finish (printed : String) (reports : List String) : Output :=
  { printed, reported := String.join reports
    failure := if reports.isEmpty then none else some (.unloaded reports.length) }

def inspect (atlas : Atlas) (filter : Option String) (json : Bool) : Output :=
  let isRoot (id : DeclId) : Bool :=
    (filter.map (Text.holds (atlas.graph.fullNameOf id))).getD true
  let roots := atlas.graph.ids.filter isRoot
  let (reports, atlas) := loadRoots atlas roots
  let summaries := roots.filterMap atlas.graph.summary?
  let printed :=
    if json then line (Json.list (summaries.map Summary.toJson)).render
    else if summaries.isEmpty then line "No declarations found"
    else String.join (summaries.map summaryText)
  finish printed reports

def stats (atlas : Atlas) : Output :=
  let (reports, atlas) := loadRoots atlas atlas.graph.ids
  finish (line atlas.graph.stats.toJson.render) reports

def perform (tree : FileTree) (settings : Settings) : Command → Except Fault Output
  | .inspect paths filter json => do
    return inspect (← Atlas.ofProject tree paths settings) filter json
  | .stats paths => do
    return stats (← Atlas.ofProject tree paths settings)

def run (tree : FileTree) (arguments : Arguments) : Output :=
  let result := do
    let settings ← Settings.load tree (arguments.config.getD defaultConfig)
    perform tree settings arguments.command
  match result with
  | .ok output => output
  | .error fault => { failure := some (.fault fault) }

end CommandLine

end TypeAtlas
