import Desugar.Path
import Desugar.Text.Bytes

/-!
# File trees

The files that a run can see: a working directory with everything below it. Paths are relative to the
working directory or start at the root of the file system; the tree says where the working directory
is. Nothing outside of the working directory can be seen.
-/
namespace Desugar

/-- What can go wrong with a file. -/
inductive FileCause where
  | missing | isDirectory | notDirectory
  deriving DecidableEq, Repr

def FileCause.message : FileCause → String
  | missing => "no such file or directory"
  | isDirectory => "is a directory"
  | notDirectory => "not a directory"

/-- What was to be done with which path, and why it could not be done. -/
structure FileError where
  action : String
  path : String
  cause : FileCause
  deriving DecidableEq, Repr

def FileError.message (e : FileError) : String := s!"{e.action} {e.path}: {e.cause.message}"

inductive FileEntry where
  | file (content : Bytes)
  | directory
  deriving DecidableEq, Repr

def FileEntry.isDirectory : FileEntry → Bool
  | directory => true
  | _ => false

structure FileTree where
  /-- Where the working directory is. -/
  root : String
  /-- Files and directories by their clean paths relative to the working directory, which itself is
  not among them. Every directory above an entry is an entry. -/
  entries : List (String × FileEntry)
  deriving DecidableEq, Repr

namespace FileTree

def empty (root : String) : FileTree := ⟨root, []⟩

/-- The path from the root of the file system. -/
def absolute (t : FileTree) (path : String) : String :=
  if Path.isAbs path then Path.clean path else Path.join [t.root, path]

/-- The clean path relative to the working directory, `.` for that directory itself. -/
def relative? (t : FileTree) (path : String) : Option String :=
  let full := (t.absolute path).toList
  let root := t.root.toList
  if full = root then some "."
  else if (root ++ ['/']).isPrefixOf full then some (String.ofList (full.drop (root.length + 1)))
  else none

/-- The entry of a clean relative path. -/
def entry? (t : FileTree) (path : String) : Option FileEntry :=
  if path = "." then some .directory else t.entries.lookup path

/-- Directories above a clean relative path, the nearest first. -/
def ancestors : (fuel : Nat) → (path : String) → List String
  | 0, _ => []
  | fuel + 1, path =>
    let dir := Path.dir path
    if dir = "." || dir = path then [] else dir :: ancestors fuel dir

/-- Looks a path up. Below a file there is nothing, and a file is no directory. -/
def find (t : FileTree) (path : String) : Except FileCause FileEntry :=
  if path = "" then .error .missing
  else match t.relative? path with
    | none => .error .missing
    | some clean =>
      match t.entry? clean with
      | some .directory => .ok .directory
      | some e => if Path.asksDirectory path then .error .notDirectory else .ok e
      | none =>
        let below := (ancestors (clean.length + 1) clean).any fun d =>
          (t.entry? d).any fun e => !e.isDirectory
        .error (if below then .notDirectory else .missing)

def lookup (t : FileTree) (action path : String) : Except FileError FileEntry :=
  (t.find path).mapError (⟨action, path, ·⟩)

def exists? (t : FileTree) (path : String) : Bool := (t.find path).toBool

/-- The content of a file. -/
def read (t : FileTree) (path : String) : Except FileError Bytes := do
  match ← t.lookup "open" path with
  | .file content => return content
  | .directory => throw ⟨"read", path, .isDirectory⟩

/-- Puts a name with its entry before the first name that is not smaller. -/
def insertByName (x : String × FileEntry) : List (String × FileEntry) → List (String × FileEntry)
  | [] => [x]
  | y :: ys => if x.1 ≤ y.1 then x :: y :: ys else y :: insertByName x ys

/-- Names in a directory with their entries, in ascending order. -/
def list (t : FileTree) (path : String) : List (String × FileEntry) :=
  match t.relative? path with
  | none => []
  | some dir =>
    let inside := t.entries.filter fun (p, _) => p ≠ "." && Path.dir p = dir
    (inside.map fun (p, e) => (Path.base p, e)).foldr insertByName []

/-- Puts an entry under a clean relative path. -/
def insert (t : FileTree) (path : String) (e : FileEntry) : FileTree :=
  { t with entries := t.entries.filter (·.1 ≠ path) ++ [(path, e)] }

/-- The tree with a directory and all directories above it. -/
def makeDirectory (t : FileTree) (path : String) : FileTree :=
  match t.relative? path with
  | none => t
  | some clean =>
    (clean :: ancestors (clean.length + 1) clean).foldl
      (fun t d => if (t.entry? d).isSome then t else t.insert d .directory) t

/-- The tree with a file, whose directory has to be there. -/
def write (t : FileTree) (path : String) (content : Bytes) : Except FileError FileTree :=
  match t.find path, t.relative? path with
  | .ok .directory, _ => .error ⟨"open", path, .isDirectory⟩
  | .ok (.file _), some clean => .ok (t.insert clean (.file content))
  | .error .missing, some clean =>
    if path ≠ "" && (t.entry? (Path.dir clean)).any FileEntry.isDirectory then
      if !Path.asksDirectory path then .ok (t.insert clean (.file content))
      else .error ⟨"open", path, if path.toList.getLast? = some '/' then .isDirectory else .missing⟩
    else .error ⟨"open", path, .missing⟩
  | .error cause, _ => .error ⟨"open", path, cause⟩
  | _, none => .error ⟨"open", path, .missing⟩

/-- The tree with a file and all directories above it. -/
def put (t : FileTree) (path : String) (content : Bytes) : FileTree :=
  match t.relative? path with
  | none => t
  | some clean => (t.makeDirectory (Path.dir clean)).insert clean (.file content)

/-- The tree without a path and everything below it. -/
def remove (t : FileTree) (path : String) : FileTree :=
  match t.relative? path with
  | none => t
  | some clean =>
    { t with entries := t.entries.filter fun (p, _) =>
        p ≠ clean && !(clean.toList ++ ['/']).isPrefixOf p.toList }

/-- Files by path, in ascending order. -/
def files (t : FileTree) : List (String × Bytes) :=
  (t.entries.filterMap fun
    | (p, .file content) => some (p, content)
    | _ => none).mergeSort fun a b => a.1 ≤ b.1

/-- A path met on a walk. -/
structure Visit where
  path : String
  entry : FileEntry
  deriving Repr

/-- Walks over an entry and what is below it down to a depth, directories before their content and
names in ascending order. Directories that are not to be entered are left out. -/
def walkFrom (t : FileTree) (enters : String → Bool) :
    (depth : Nat) → (path : String) → FileEntry → List Visit
  | 0, path, e => [⟨path, e⟩]
  | depth + 1, path, e =>
    ⟨path, e⟩ :: if !e.isDirectory then []
      else (t.list path).flatMap fun (name, e) =>
        if e.isDirectory && !enters name then []
        else t.walkFrom enters depth (Path.join [path, name]) e

/-- Directories below which nothing is looked for: hidden ones, vendored code and test data. -/
def isSkipped (name : String) : Bool :=
  name.toList.head? = some '.' || name = "vendor" || name = "testdata"

/-- Walks over a path and what is below it, without directories that are skipped. -/
def walk (t : FileTree) (path : String) : Except FileError (List Visit) := do
  let e ← t.lookup "lstat" path
  return t.walkFrom (!isSkipped ·) (t.entries.length + 1) path e

end FileTree
end Desugar
