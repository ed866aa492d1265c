/-!
# File trees

A tree of directories and files, and the text of the file that a path leads to.
-/

namespace Lineage

/-- Why a file could not be read. -/
inductive ReadError where
  | notFound
  | notDirectory
  | isDirectory
  | invalidText
  deriving DecidableEq, Repr

def ReadError.message : ReadError → String
  | notFound => "No such file or directory (os error 2)"
  | notDirectory => "Not a directory (os error 20)"
  | isDirectory => "Is a directory (os error 21)"
  | invalidText => "stream did not contain valid UTF-8"

inductive FileTree where
  | file (bytes : ByteArray)
  | directory (entries : List (String × FileTree))

namespace FileTree

/-- Puts a node at the end of a path, making the directories on the way. -/
def put : (root : FileTree) → (path : List String) → (node : FileTree) → FileTree
  | _, [], node => node
  | .file bytes, _ :: _, _ => .file bytes
  | .directory entries, name :: rest, node =>
    let old := (entries.lookup name).getD (.directory [])
    .directory (entries.filter (fun e => e.1 != name) ++ [(name, put old rest node)])

/-- The names along a path. Empty names and the name of the current directory lead nowhere. -/
def names (path : String) : List String :=
  (path.splitOn "/").filter fun name => name != "" && name != "."

/-- Follows names from a node, where `above` are the directories around it, innermost first.
Above the root there is nothing but the root. -/
def follow : (above : List FileTree) → FileTree → List String → Except ReadError FileTree
  | _, node, [] => pure node
  | _, .file _, _ :: _ => throw .notDirectory
  | above, .directory entries, name :: rest =>
    if name = ".." then
      match above with
      | parent :: above => follow above parent rest
      | [] => follow [] (.directory entries) rest
    else
      match entries.lookup name with
      | some node => follow (.directory entries :: above) node rest
      | none => throw .notFound

/-- The text of the file at a path, which is relative to the root. -/
def read (root : FileTree) (path : String) : Except ReadError String := do
  if path.isEmpty then throw .notFound
  let node ← follow [] root (names path)
  match node with
  | .directory _ => throw .isDirectory
  | .file bytes =>
    if path.toList.getLast? = some '/' then throw .notDirectory
    match String.fromUTF8? bytes with
    | some text => pure text
    | none => throw .invalidText

end FileTree

end Lineage
