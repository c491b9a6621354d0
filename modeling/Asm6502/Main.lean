-- The program: its files are read and written here, and all it decides is
-- decided by the job.
import Asm6502.CommandLine

namespace Asm6502

namespace Main

def bytesOf (s : String) : Text := s.toUTF8.data.toList

def fileName? (t : Text) : Option String := String.fromUTF8? ⟨t.toArray⟩

/-- What is said of a failure of the file system. -/
def reasonOf (e : IO.Error) : Text :=
  match e with
  | .noFileOrDirectory .. => FileTree.Refusal.missing.message
  | .inappropriateType .. => FileTree.Refusal.isDirectory.message
  | .permissionDenied .. => ascii "permission denied"
  | other => bytesOf other.toString

/-- Files as far as they are known: their content, or why they cannot be opened. -/
structure Known where
  entries : List (Text × Source.Content) := []
  refused : List (Text × Text) := []

namespace Known

def has (known : Known) (name : Text) : Bool :=
  (known.entries.lookup name).isSome || (known.refused.lookup name).isSome

def files (known : Known) : Source.Files :=
  { entries := known.entries
    refusal := fun name =>
      (known.refused.lookup name).getD (FileTree.openMessage name .missing) }

end Known

def load (known : Known) (name : Text) : IO Known := do
  let refuse (reason : Text) : Known :=
    { known with refused := (name, ascii "open " ++ name ++ ascii ": " ++ reason) :: known.refused }
  match fileName? name with
  | none => return refuse FileTree.Refusal.missing.message
  | some path =>
    match ← (IO.FS.Handle.mk path .read).toBaseIO with
    | .error e => return refuse (reasonOf e)
    | .ok handle =>
      let content := match ← handle.readBinToEnd.toBaseIO with
        | .ok bytes => Source.Content.text bytes.data.toList
        | .error e => .broken (ascii "read " ++ name ++ ascii ": " ++ reasonOf e)
      return { known with entries := (name, content) :: known.entries }

/-- Reads files, and all that they include. -/
partial def loadAll (known : Known) : List Text → IO Known
  | [] => return known
  | name :: rest => do
    if known.has name then loadAll known rest
    else
      let known ← load known name
      match known.entries.lookup name with
      | some (.text content) => loadAll known (Source.includes name content ++ rest)
      | _ => loadAll known rest

/-- Writes files up to the first that fails, and gives what the file system said. -/
def save : List Output.File → IO Output.Storage
  | [] => return .reliable
  | file :: rest => do
    match fileName? file.name with
    | none =>
      return { Output.Storage.reliable with
        create := fun _ n =>
          if n = file.name then some (FileTree.openMessage n .missing) else none }
    | some path =>
      match ← (IO.FS.Handle.mk path .write).toBaseIO with
      | .error e =>
        return { Output.Storage.reliable with
          create := fun _ n =>
            if n = file.name then some (ascii "open " ++ n ++ ascii ": " ++ reasonOf e) else none }
      | .ok handle =>
        let written ← (do handle.write ⟨file.content.toArray⟩; handle.flush : IO Unit).toBaseIO
        match written with
        | .ok () => save rest
        | .error e =>
          return { Output.Storage.reliable with
            write := fun n =>
              if n = file.name then some (ascii "write " ++ n ++ ascii ": " ++ reasonOf e)
              else none }

end Main

end Asm6502

open Asm6502 in
def main (args : List String) : IO UInt32 := do
  let (exit, report) ← match CommandLine.Request.of (args.map Main.bytesOf) with
    | .stop exit report => pure (exit, report)
    | .work job => do
      let files := (← Main.loadAll {} [job.source]).files
      let storage ← match (job.build files).program with
        | .ok program => Main.save (job.outputs program)
        | .error _ => pure .reliable
      let outcome := job.run files storage
      pure (outcome.exit, outcome.report)
  (← IO.getStderr).write ⟨report.toArray⟩
  return exit.toUInt32
