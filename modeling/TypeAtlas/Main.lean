import TypeAtlas.CommandLine.Run

/-!
The program. The paths of the files it can see come on the standard input, one per line.
-/

namespace TypeAtlas.CommandLine

/-- Read the lines of a stream to its end. -/
partial def readLines (stream : IO.FS.Stream) (done : List String) : IO (List String) := do
  let text ← stream.getLine
  if text.isEmpty then return done.reverse
  readLines stream (String.ofList (text.toList.filter (· != '\n')) :: done)

def readTree (paths : List String) : IO FileTree := do
  let files ← paths.mapM fun (path : String) => do
    let bytes ← IO.FS.readBinFile path
    return (FileTree.namesOf path, bytes.toList)
  return ⟨files⟩

end TypeAtlas.CommandLine

open TypeAtlas TypeAtlas.CommandLine in
def main (words : List String) : IO UInt32 := do
  match Arguments.read words with
  | none =>
    (← IO.getStderr).putStrLn "usage: inspect PATHS [-f TEXT] [--json] | stats PATHS, with [-c FILE]"
    return 2
  | some arguments =>
    let tree ← readTree (← readLines (← IO.getStdin) [])
    let output := run tree arguments
    (← IO.getStdout).putStr output.printed
    (← IO.getStderr).putStr output.reported
    match output.failure with
    | none => return 0
    | some failure =>
      (← IO.getStderr).putStrLn ("error: " ++ failure.message)
      return 1
