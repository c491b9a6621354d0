-- Reading source files. A line `+="file"` stands for the lines of that file,
-- which is looked for from the directory of the file that names it. A file
-- that includes itself, directly or not, is an error, so reading ends.
import Asm6502.Error
import Asm6502.Line
import Asm6502.Path

namespace Asm6502

namespace Source

/-! ## Files -/

inductive Content where
  | text (content : Text)
  /-- The file opens, but reading it fails. -/
  | broken (reason : Text)
deriving DecidableEq, Repr

/-- The files that can be read, and what is said of any other name. -/
structure Files where
  entries : List (Text × Content)
  refusal : Text → Text

def Files.get? (files : Files) (name : Text) : Option Content := files.entries.lookup name

def Files.unopened (files : Files) (opened : List Text) : Nat :=
  (files.entries.filter fun entry => !opened.contains entry.1).length

theorem Files.unopened_cons_lt {files : Files} {opened : List Text} {name : Text}
    {content : Content} (h : files.get? name = some content) (hn : name ∉ opened) :
    files.unopened (name :: opened) < files.unopened opened := by
  unfold Files.get? at h
  unfold Files.unopened
  generalize files.entries = entries at h ⊢
  have le (l : List (Text × Content)) :
      (l.filter fun entry => !(name :: opened).contains entry.1).length ≤
        (l.filter fun entry => !opened.contains entry.1).length := by
    rw [← List.countP_eq_length_filter, ← List.countP_eq_length_filter]
    apply List.countP_mono_left
    intro entry _ he
    simp_all
  induction entries with
  | nil => simp at h
  | cons entry rest ih =>
    obtain ⟨key, value⟩ := entry
    by_cases hk : name = key
    · subst hk
      have := le rest
      simp [hn] at this ⊢
      omega
    · have hk' : (name == key) = false := by simpa using hk
      rw [List.lookup_cons, hk'] at h
      have := ih h
      rw [List.filter_cons, List.filter_cons]
      split <;> split <;> simp_all

/-! ## Physical lines -/

/-- The longest line that is read, plus one. -/
def lineLimit : Nat := 65536

/-- A carriage return at the end of a line is dropped. -/
def dropReturn (t : Text) : Text :=
  if t.getLast? == some Ascii.carriageReturn then t.dropLast else t

/-- The physical lines of a text up to the first one that is too long, and
whether there is such a one. A text that ends in a newline has no line behind
it. -/
def physicalLines (t : Text) : List Text × Bool :=
  let all := t.splitOn Ascii.newline
  let all := if all.getLast? == some [] then all.dropLast else all
  let short := all.takeWhile fun line => line.length < lineLimit
  (short.map dropReturn, short.length != all.length)

/-- The names of the files that a file with this name and content includes. -/
def includes (name content : Text) : List Text :=
  ((physicalLines content).1.filterMap Line.includedFile?).map (Path.relativeTo name)

/-! ## Reading -/

structure Settings where
  files : Files
  evaluate : Inline.Evaluator

/-- The settings of a reader that goes over its constants in this order. -/
def Settings.inOrder (files : Files) (interpreter : Inline.Interpreter)
    (order : Inline.Predefines) : Settings :=
  { files, evaluate := Inline.evaluate interpreter order }

/-- What reading gives: the names of the files that were opened, in order, and
the lines or the first error. -/
structure Reading where
  opened : List Text
  lines : Except Error (List Line)

def Reading.followedBy (first : List Line) (opened : List Text) (next : Reading) : Reading :=
  { opened := opened ++ next.opened, lines := next.lines.map (first ++ ·) }

def readLine (settings : Settings) (file : Text) (number : Int) (text : Text) :
    Except Error Line :=
  match Inline.expand settings.evaluate number text with
  | .error e => .error (.located file number text (.inline e))
  | .ok expanded =>
    match Line.parse expanded number with
    | .error e => .error (.located file number text (.line e))
    | .ok line => .ok { line with file, text }

mutual

/-- Reads a file while the files `opened` are being read. -/
def readFile (settings : Settings) (opened : List Text) (name : Text) : Reading :=
  if hn : name ∈ opened then { opened := [], lines := .error (.circular name) }
  else
    match h : settings.files.get? name with
    | none =>
      { opened := [], lines := .error (.unreadable name (.system (settings.files.refusal name))) }
    | some (.broken reason) =>
      { opened := [name], lines := .error (.unreadable name (.system reason)) }
    | some (.text content) =>
      have := Files.unopened_cons_lt h hn
      let (lines, tooLong) := physicalLines content
      Reading.followedBy [] [name] (readLines settings (name :: opened) name tooLong 1 lines)
termination_by (settings.files.unopened opened, 0)

def readLines (settings : Settings) (opened : List Text) (file : Text) (tooLong : Bool)
    (number : Int) (lines : List Text) : Reading :=
  match lines with
  | [] =>
    { opened := []
      lines :=
        if tooLong then
          .error (.unreadable file (.system (ascii "bufio.Scanner: token too long")))
        else .ok [] }
  | text :: rest =>
    match Line.includedFile? text with
    | some target =>
      let inner := readFile settings opened (Path.relativeTo file target)
      match inner.lines with
      | .error e =>
        { opened := inner.opened, lines := .error (.located file number text e) }
      | .ok included =>
        Reading.followedBy included inner.opened
          (readLines settings opened file tooLong (number + 1) rest)
    | none =>
      match readLine settings file number text with
      | .error e => { opened := [], lines := .error e }
      | .ok line =>
        Reading.followedBy [line] [] (readLines settings opened file tooLong (number + 1) rest)
termination_by (settings.files.unopened opened, lines.length + 1)

end

def read (settings : Settings) (name : Text) : Reading := readFile settings [] name

/-- Reads a text under a name that need not be a file. -/
def readText (settings : Settings) (name content : Text) : Reading :=
  let (lines, tooLong) := physicalLines content
  readLines settings [] name tooLong 1 lines

def openedMessage (name : Text) : Text := ascii "reading " ++ name

end Source

end Asm6502
