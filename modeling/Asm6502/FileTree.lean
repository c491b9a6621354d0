-- A directory tree held in memory. Paths start in its root; all that is known
-- outside of it are the directories on the way up and the null device.
import Asm6502.Output
import Asm6502.Source

namespace Asm6502

/-- The files of a directory tree, by the components of their paths. The
directories are those that hold a file. -/
structure FileTree where
  files : List (List Text × Text) := []
deriving DecidableEq, Repr

namespace FileTree

def ofPaths (files : List (Text × Text)) : FileTree :=
  { files := files.map fun (path, content) => (Path.cleanComponents path, content) }

def content? (tree : FileTree) (path : List Text) : Option Text := tree.files.lookup path

/-- Gives a file its content, whether it is there or not. -/
def put (tree : FileTree) (path : List Text) (content : Text) : FileTree :=
  if (tree.content? path).isSome then
    { files := tree.files.map fun file => if file.1 = path then (path, content) else file }
  else { files := tree.files ++ [(path, content)] }

/-- The directories on the way to a path, the root apart. -/
def ancestors (path : List Text) : List (List Text) :=
  ((List.range path.length).drop 1).map path.take

def directories (tree : FileTree) : List (List Text) :=
  (tree.files.flatMap fun (path, _) => ancestors path).eraseDups

def isDirectory (tree : FileTree) (path : List Text) : Bool :=
  path.isEmpty || tree.directories.contains path

/-! ## Following paths -/

inductive Refusal where
  | missing
  | notDirectory
  | isDirectory
  | nameTooLong
  | badName
deriving DecidableEq, Repr

def Refusal.message : Refusal → Text
  | .missing => ascii "no such file or directory"
  | .notDirectory => ascii "not a directory"
  | .isDirectory => ascii "is a directory"
  | .nameTooLong => ascii "file name too long"
  | .badName => ascii "invalid argument"

def openMessage (name : Text) (refusal : Refusal) : Text :=
  ascii "open " ++ name ++ ascii ": " ++ refusal.message

/-- What stands at the end of a path. -/
inductive Place where
  | file (path : List Text) (content : Text)
  | directory (path : List Text)
  /-- Nothing, in a directory that is there. -/
  | vacant (path : List Text)
  /-- The null device, which stays empty whatever is written to it. -/
  | null
deriving DecidableEq, Repr

def componentLimit : Nat := 255

/-- The length that a path must stay below. -/
def pathLimit : Nat := 4096

/-- Follows components above the root, where nothing is known but that there are
directories. -/
def climb : List Text → Except Refusal Place
  | [] => .ok (.directory [])
  | component :: rest =>
    if [[], ascii ".", ascii ".."].contains component then climb rest
    else if componentLimit < component.length then .error .nameTooLong
    else .error .missing

/-- Follows components from a directory outside of the tree, of which the null
device and the directories on the way to it are known. -/
def outside (here : List Text) : List Text → Except Refusal Place
  | [] => .ok (.directory here)
  | component :: rest =>
    if component.isEmpty || component == ascii "." then outside here rest
    else if component == ascii ".." then outside here.dropLast rest
    else if componentLimit < component.length then .error .nameTooLong
    else
      let there := here ++ [component]
      if there == [ascii "dev"] then outside there rest
      else if there == [ascii "dev", ascii "null"] then
        if rest.isEmpty then .ok .null else .error .notDirectory
      else .error .missing

/-- Follows components from a directory of the tree. -/
def walk (tree : FileTree) (here : List Text) : List Text → Except Refusal Place
  | [] => .ok (.directory here)
  | component :: rest =>
    if component.isEmpty || component == ascii "." then tree.walk here rest
    else if component == ascii ".." then
      if here.isEmpty then climb rest else tree.walk here.dropLast rest
    else if componentLimit < component.length then .error .nameTooLong
    else
      let there := here ++ [component]
      if tree.isDirectory there then tree.walk there rest
      else
        match tree.content? there, rest with
        | some content, [] => .ok (.file there content)
        | some _, _ => .error .notDirectory
        | none, [] => .ok (.vacant there)
        | none, _ => .error .missing

def follow (tree : FileTree) (path : Text) (components : List Text) : Except Refusal Place :=
  if path.contains 0 then .error .badName
  else if pathLimit ≤ path.length then .error .nameTooLong
  else if path.isEmpty then .error .missing
  else if path.head? == some Ascii.slash then outside [] components
  else tree.walk [] components

def resolve (tree : FileTree) (path : Text) : Except Refusal Place :=
  tree.follow path (Path.components path)

/-! ## Reading -/

/-- What opening a path to read it gives. A directory can be opened, but not
read. -/
def open? (tree : FileTree) (name : Text) : Except Refusal Source.Content :=
  match tree.resolve name with
  | .ok (.file _ content) => .ok (.text content)
  | .ok (.directory _) =>
    .ok (.broken (ascii "read " ++ name ++ ascii ": " ++ Refusal.isDirectory.message))
  | .ok (.vacant _) => .error .missing
  | .ok .null => .ok (.text [])
  | .error refusal => .error refusal

/-- The names that a reader may ask for: the one that it starts with, and those
that this file or a file of the tree includes. -/
def names (tree : FileTree) (start : Text) : List Text :=
  let first := match tree.open? start with
    | .ok (.text content) => Source.includes start content
    | _ => []
  let others := tree.files.flatMap fun (path, content) => Source.includes (Path.join path) content
  (start :: (first ++ others)).eraseDups

def sources (tree : FileTree) (start : Text) : Source.Files :=
  { entries := (tree.names start).filterMap fun name =>
      match tree.open? name with
      | .ok content => some (name, content)
      | .error _ => none
    refusal := fun name =>
      match tree.open? name with
      | .ok _ => openMessage name .missing
      | .error refusal => openMessage name refusal }

/-! ## Writing -/

/-- Why no file is created at a path with a slash at its end: it names a
directory, unless the way to it fails. -/
def parentRefusal (tree : FileTree) (path : Text) : Refusal :=
  let bare := (path.reverse.dropWhile (· == Ascii.slash)).reverse
  match tree.follow path (Path.components bare).dropLast with
  | .ok (.directory _) => .isDirectory
  | .ok (.vacant _) => .missing
  | .ok _ => .notDirectory
  | .error refusal => refusal

/-- The place of a file that is created, or emptied if it is there; the null
device has none. A slash at the end of a path asks for a directory. -/
def createdPath (tree : FileTree) (name : Text) : Except Refusal (Option (List Text)) :=
  if name.getLast? == some Ascii.slash then .error (tree.parentRefusal name)
  else
    match tree.resolve name with
    | .error refusal => .error refusal
    | .ok (.directory _) => .error .isDirectory
    | .ok (.file path _) | .ok (.vacant path) => .ok (some path)
    | .ok .null => .ok none

def write (tree : FileTree) (file : Output.File) : FileTree :=
  match tree.createdPath file.name with
  | .ok (some path) => tree.put path file.content
  | _ => tree

/-- The storage of a tree, in which only creating a file may fail. -/
def storage (tree : FileTree) : Output.Storage :=
  { Output.Storage.reliable with
    create := fun before name =>
      let current := before.foldl (fun t n => t.write { name := n, content := [] }) tree
      match current.createdPath name with
      | .ok _ => none
      | .error refusal => some (openMessage name refusal) }

/-- The files that are new in a later tree or have other content there. -/
def changes (tree later : FileTree) : List (Text × Text) :=
  (later.files.filter fun (path, content) => tree.content? path != some content).map
    fun (path, content) => (Path.join path, content)

end FileTree

end Asm6502
