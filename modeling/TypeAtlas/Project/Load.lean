import TypeAtlas.Atlas.Load
import TypeAtlas.Project.FileTree
import TypeAtlas.Settings.Read

/-!
Projects: settings and sources from a tree of files.
-/

namespace TypeAtlas

/-- The settings in a file. Without the file they are the usual ones. -/
def Settings.load (tree : FileTree) (path : String) : Except Fault Settings :=
  match tree.file? path with
  | some bytes =>
    match Text.Utf8.decode? bytes with
    | none => .error .unreadable
    | some text =>
      match ofToml? text with
      | some settings => .ok settings
      | none => .error .config
  | none => if tree.isDirectory path then .error .unreadable else .ok {}

/-- The documents of some files. Files that are no text are passed by. -/
def FileTree.documents (tree : FileTree) (paths : List String) : List Source.Document :=
  paths.filterMap fun path => (tree.text? path).map (Source.Document.read path)

/-- Register the sources that some paths stand for. -/
def Work.addSources (tree : FileTree) (paths : List String) : Work Unit :=
  (tree.documents (paths.flatMap tree.collect)).forM fun document => do
    let _ ← addDocument document

def Atlas.ofProject (tree : FileTree) (paths : List String) (settings : Settings) :
    Except Fault Atlas :=
  match (Work.addSources tree paths).run.run { settings } with
  | (.ok _, atlas) => .ok atlas
  | (.error fault, _) => .error fault

end TypeAtlas
