-- Writing the object file and the label listing. What a file is to hold is
-- collected in a buffer and written in chunks. Creating a file, each write to
-- it and closing it may fail; the first failure ends the work.
import Asm6502.Image
import Asm6502.Label.Listing

namespace Asm6502

namespace Output

/-! ## File systems -/

inductive Action where
  | create (name : Text)
  | write (name chunk : Text)
  | close (name : Text)
deriving DecidableEq, Repr

def Action.file : Action → Text
  | .create name | .write name _ | .close name => name

/-- Why an action fails, and how many bytes of a failed write are taken all the
same. -/
structure Failure where
  reason : Text
  taken : Nat := 0
deriving DecidableEq, Repr

structure Step where
  action : Action
  failure : Option Failure
deriving DecidableEq, Repr

def Step.taken (step : Step) : Text :=
  match step.action, step.failure with
  | .write _ chunk, none => chunk
  | .write _ chunk, some failure => chunk.take failure.taken
  | _, _ => []

/-- A file system: how each action fails behind the steps before it, or nothing
if it succeeds. -/
structure FileSystem where
  answer : List Step → Action → Option Failure

def FileSystem.step (system : FileSystem) (before : List Step) (action : Action) : Step :=
  { action, failure := system.answer before action }

/-- Why steps of writing fail: a reason for each file name, or none if the step
succeeds. Creating may depend on the files created before. -/
structure Storage where
  create : List Text → Text → Option Text
  write : Text → Option Text
  close : Text → Option Text

namespace Storage

def reliable : Storage :=
  { create := fun _ _ => none, write := fun _ => none, close := fun _ => none }

def created (steps : List Step) : List Text :=
  steps.filterMap fun step =>
    match step.action, step.failure with
    | .create name, none => some name
    | _, _ => none

def reason? (storage : Storage) (before : List Step) : Action → Option Text
  | .create name => storage.create (created before) name
  | .write name _ => storage.write name
  | .close name => storage.close name

/-- The file system of a storage; a failed write takes nothing. -/
def system (storage : Storage) : FileSystem :=
  { answer := fun before action => (storage.reason? before action).map fun reason => { reason } }

end Storage

/-! ## Buffered content -/

def bufferSize : Nat := 4096

/-- Adds a piece to a buffer: the chunks that are written for it, and what the
buffer holds then. A buffer is written when it is full, and a piece that is
larger than the empty buffer is written as it is. -/
def collect (buffer piece : Text) : List Text × Text :=
  if buffer.length + piece.length ≤ bufferSize then ([], buffer ++ piece)
  else if buffer.isEmpty then ([piece], [])
  else
    let room := bufferSize - buffer.length
    let full := buffer ++ piece.take room
    let rest := piece.drop room
    if rest.length ≤ bufferSize then ([full], rest) else ([full, rest], [])

/-- The chunks in which pieces are written behind what a buffer holds; in the
end the buffer is written too. -/
def chunksFrom (buffer : Text) : List Text → List Text
  | [] => if buffer.isEmpty then [] else [buffer]
  | piece :: rest =>
    let collected := collect buffer piece
    collected.1 ++ chunksFrom collected.2 rest

/-! ## Files -/

structure File where
  name : Text
  content : Text
deriving DecidableEq, Repr

/-- A file to be written: its name, and its content piece by piece or why there is
none. -/
structure Draft where
  name : Text
  pieces : Except Text (List Text)

namespace Draft

def chunks (draft : Draft) : List Text :=
  match draft.pieces with
  | .ok pieces => chunksFrom [] pieces
  | .error _ => []

def failure? (draft : Draft) : Option Failure :=
  match draft.pieces with
  | .ok _ => none
  | .error reason => some { reason }

end Draft

/-- What writing gives: the steps taken, the created files in order, the
messages, and whether it succeeded. -/
structure Outcome where
  steps : List Step
  files : List File
  messages : List Text
  result : Except Error Unit

def writtenMessage (name : Text) : Text := ascii "wrote " ++ name

/-- Writes chunks to a file up to the first write that fails, and gives its
failure. -/
def writeChunks (system : FileSystem) (name : Text) (before : List Step) :
    List Text → List Step × Option Failure
  | [] => ([], none)
  | chunk :: rest =>
    let step := system.step before (.write name chunk)
    match step.failure with
    | some failure => ([step], some failure)
    | none =>
      let others := writeChunks system name (before ++ [step]) rest
      (step :: others.1, others.2)

/-- Writes one file behind the steps before it. It is closed even if a write
failed or there is nothing to write, and that counts before the failure of
closing. -/
def writeFile (system : FileSystem) (before : List Step) (draft : Draft) : Outcome :=
  let failed (steps : List Step) (files : List File) (failure : Failure) : Outcome :=
    { steps, files, messages := []
      result := .error (.unwritable draft.name (.system failure.reason)) }
  let opened := system.step before (.create draft.name)
  match opened.failure with
  | some failure => failed [opened] [] failure
  | none =>
    let written := writeChunks system draft.name (before ++ [opened]) draft.chunks
    let closed := system.step (before ++ opened :: written.1) (.close draft.name)
    let steps := opened :: (written.1 ++ [closed])
    let files := [{ name := draft.name, content := written.1.flatMap Step.taken }]
    match (written.2.or draft.failure?).or closed.failure with
    | some failure => failed steps files failure
    | none => { steps, files, messages := [writtenMessage draft.name], result := .ok () }

/-- Writes files in order, up to the first failure. -/
def writeFiles (system : FileSystem) (before : List Step) : List Draft → Outcome
  | [] => { steps := [], files := [], messages := [], result := .ok () }
  | draft :: rest =>
    let first := writeFile system before draft
    match first.result with
    | .error _ => first
    | .ok () =>
      let others := writeFiles system (before ++ first.steps) rest
      { steps := first.steps ++ others.steps
        files := first.files ++ others.files
        messages := first.messages ++ others.messages
        result := others.result }

/-! ## Programs -/

def listingPieces (labels : Label.Table) : List Text :=
  (labels.sorted.filter Label.Entry.isListed).map Label.Entry.listingLine

def draftsOf (library : IntelHex.Library) (program : Program) (format : Format)
    (name listing : Text) : List Draft :=
  { name, pieces := program.pieces library format } ::
    if listing.isEmpty then []
    else [{ name := listing, pieces := .ok (listingPieces program.labels) }]

/-- The files of a program: the object file with its content, and the label listing
if it has a name. -/
def filesOf (program : Program) (name object listing : Text) : List File :=
  { name, content := object } ::
    if listing.isEmpty then [] else [{ name := listing, content := program.labels.listing }]

def writeIn (library : IntelHex.Library) (system : FileSystem) (program : Program)
    (format : Format) (name listing : Text) : Outcome :=
  writeFiles system [] (draftsOf library program format name listing)

def write (library : IntelHex.Library) (storage : Storage) (program : Program) (format : Format)
    (name listing : Text) : Outcome :=
  writeIn library storage.system program format name listing

end Output

end Asm6502
