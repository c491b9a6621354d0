-- The program's work from its arguments to its exit code: a source file is
-- read, assembled and written, and what there is to say goes to one report.
import Asm6502.Assembler
import Asm6502.CommandLine.Options
import Asm6502.FileTree
import Asm6502.Image.HexMemory
import Asm6502.Inline.Eval
import Asm6502.Program.Listing

namespace Asm6502

namespace CommandLine

def usage : Text :=
  ["usage: sym6502 <src_file> <obj_file> [--ihex] [--c64]",
    "  -D value",
    "    \tPredefine NAME=VALUE for $(...) expressions",
    "  -c64",
    "    \tPrefix the C64 PRG load address",
    "  -ihex",
    "    \tUse Intel HEX format",
    "  -labels string",
    "    \tLabel listing file, none if empty (default \"labels.txt\")",
    "  -lang string",
    "    \tMessage language, such as en-US",
    "  -v\tVerbose mode"].flatMap fun row => ascii row ++ [Ascii.newline]

/-! ## Requests -/

/-- A source file to assemble into an object file. -/
structure Job where
  options : Options
  source : Text
  object : Text
deriving DecidableEq, Repr

inductive Request where
  /-- Nothing but a report and an exit code. -/
  | stop (exit : UInt8) (report : Text)
  | work (job : Job)
deriving DecidableEq, Repr

/-- What arguments ask for. There must be two positional ones. -/
def Request.of (arguments : List Text) : Request :=
  match parse {} arguments with
  | .error .help => .stop 0 usage
  | .error (.badFlag e) => .stop 2 (e.message ++ Ascii.newline :: usage)
  | .ok { options, positional := [source, object] } => .work { options, source, object }
  | .ok _ => .stop 2 usage

/-! ## Jobs -/

structure Build where
  messages : List Text
  program : Except Error Program

structure Outcome where
  exit : UInt8
  report : Text
  files : List Output.File
deriving DecidableEq, Repr

namespace Job

/-- The format of the object file; Intel HEX goes before the C64 format. -/
def format (job : Job) : Format :=
  if job.options.intelHex then .intelHex else if job.options.c64 then .c64 else .binary

def build (job : Job) (files : Source.Files) : Build :=
  let settings := Source.Settings.inOrder files .builtIn job.options.predefines
  let reading := Source.read settings job.source
  let opened := reading.opened.map Source.openedMessage
  match reading.lines with
  | .error e => { messages := opened, program := .error e }
  | .ok lines =>
    let assembly := Assembler.assemble {} lines
    { messages := opened ++ assembly.messages, program := assembly.program }

/-- The files that the job writes for a program; nothing comes behind an object file
that cannot be made. -/
def outputs (job : Job) (program : Program) : List Output.File :=
  match program.image .builtIn job.format with
  | .ok object => Output.filesOf program job.object object job.options.labels
  | .error _ => [{ name := job.object, content := [] }]

/-- What is only said if the user asks for all of it. -/
def details (job : Job) (t : Text) : Text := if job.options.verbose then t else []

def doneMessage (program : Program) : Text :=
  ascii "assemble done. object size = " ++ grouped program.size ++ ascii " bytes"

def failureMessage (name : Text) (e : Error) : Text := name ++ ascii ": " ++ e.message

def run (job : Job) (files : Source.Files) (storage : Output.Storage) : Outcome :=
  let build := job.build files
  let built := job.details (build.messages.flatMap asLine)
  match build.program with
  | .error e =>
    { exit := 1, report := built ++ asLine (failureMessage job.source e), files := [] }
  | .ok program =>
    let written := Output.write .builtIn storage program job.format job.object job.options.labels
    let report := built ++ asLine (doneMessage program) ++ job.details program.listing ++
      job.details (written.messages.flatMap asLine)
    match written.result with
    | .ok () => { exit := 0, report, files := written.files }
    | .error e =>
      { exit := 1
        report := report ++ asLine (failureMessage job.object e)
        files := written.files }

end Job

/-! ## Runs in a directory tree -/

def run (tree : FileTree) (arguments : List Text) : Outcome :=
  match Request.of arguments with
  | .stop exit report => { exit, report, files := [] }
  | .work job => job.run (tree.sources job.source) tree.storage

def Outcome.tree (outcome : Outcome) (tree : FileTree) : FileTree :=
  outcome.files.foldl FileTree.write tree

end CommandLine

end Asm6502
