import TypeAtlas.Metadata.Compressed
import TypeAtlas.Text.Path
import TypeAtlas.Text.Utf8

/-!
A tree of files, and how source files are found in it. Paths are relative to the root of
the tree; directories are what files lie in.
-/

namespace TypeAtlas

structure FileTree where
  /-- Every file with the names that lead to it. -/
  files : List (List String × Metadata.Bytes)

namespace FileTree

/-- A step up undoes the step before it. -/
def normalize (names : List String) : List String :=
  (names.foldl (fun done name => if name = ".." then done.drop 1 else name :: done) []).reverse

/-- Where a path leads. -/
def namesOf (path : String) : List String := normalize (Text.Path.components path)

/-- A path whose end says that it leads to a directory. -/
def endsOpen (path : String) : Bool :=
  match (Text.Path.pieces path.toList).getLast? with
  | some last => last == [] || last == ['.'] || last == ['.', '.']
  | none => true

/-- The contents of the file a path leads to. -/
def file? (tree : FileTree) (path : String) : Option Metadata.Bytes :=
  if endsOpen path || path.toList.head? == some '/' then none
  else tree.files.lookup (namesOf path)

def isDirectory (tree : FileTree) (path : String) : Bool :=
  let names := namesOf path
  path != "" && path.toList.head? != some '/' &&
    (names.isEmpty || tree.files.any fun (file, _) => names.isPrefixOf file && names != file)

/-- The names behind those of a directory, for every file below it. -/
def below (tree : FileTree) (directory : List String) : List (List String) :=
  tree.files.filterMap fun (file, _) =>
    if directory.isPrefixOf file && directory != file then some (file.drop directory.length)
    else none

/-- Names that begin with a dot are hidden. -/
def isHidden (name : String) : Bool := name.toList.head? == some '.'

/-- The order of paths: name by name, as the names are ordered as texts. -/
def pathLe : List String → List String → Bool
  | [], _ => true
  | _ :: _, [] => false
  | a :: as, b :: bs => if a = b then pathLe as bs else decide (a < b)

def joinPath (directory rest : String) : String :=
  if directory.toList.getLast? == some '/' then directory ++ rest else directory ++ "/" ++ rest

/-- The source files that a path stands for: a file itself, or all source files below a
directory that are not hidden, in the order of their paths. -/
def collect (tree : FileTree) (path : String) : List String :=
  if (tree.file? path).isSome then [path]
  else if tree.isDirectory path then
    let found := (tree.below (namesOf path)).filter fun names =>
      !names.any isHidden && (names.getLast?.map Text.Path.isSource).getD false
    (found.mergeSort pathLe).map fun names => joinPath path (Text.joinWith "/" names)
  else []

def text? (tree : FileTree) (path : String) : Option String :=
  (tree.file? path).bind Text.Utf8.decode?

end FileTree

end TypeAtlas
