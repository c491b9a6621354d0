-- A reader that serves many calls: it keeps the set of the files being read in
-- its state, adds a file when it opens it and takes it out on every way back. How
-- deep files may be nested is a bound of its own, and a reader that needs more
-- gives no answer. Laws: no call needs more than there are files that are not
-- being read, and each call leaves the state as it found it, so no call can tell
-- what came before it. Which order a call goes over the constants in decides at
-- most which one of several malformed ones it tells.
import Mathlib.Data.List.Forall2
import Asm6502.Proofs.ConstantOrder
import Asm6502.Source

namespace Asm6502

namespace Source

/-! ## The reader -/

/-- A computation on the files being read. It is `none` where files are nested too
deep. -/
abbrev Reader := StateT (List Text) Option

/-- Reads the lines of a file from a line number on, given how to read the files
that they include. -/
def Reader.lines (settings : Settings) (inner : Text → Reader Reading) (file : Text)
    (tooLong : Bool) (number : Int) : List Text → Reader Reading
  | [] =>
    return {
      opened := []
      lines :=
        if tooLong then
          .error (.unreadable file (.system (ascii "bufio.Scanner: token too long")))
        else .ok [] }
  | text :: rest =>
    match Line.includedFile? text with
    | some target => do
      let included ← inner (Path.relativeTo file target)
      match included.lines with
      | .error e =>
        return { opened := included.opened, lines := .error (.located file number text e) }
      | .ok lines =>
        let next ← Reader.lines settings inner file tooLong (number + 1) rest
        return Reading.followedBy lines included.opened next
    | none =>
      match readLine settings file number text with
      | .error e => return { opened := [], lines := .error e }
      | .ok line => do
        let next ← Reader.lines settings inner file tooLong (number + 1) rest
        return Reading.followedBy [line] [] next

/-- Reads what opening a file gave, under the name of the file. -/
def Reader.content (settings : Settings) (inner : Text → Reader Reading) (name : Text) :
    Content → Reader Reading
  | .broken reason =>
    return { opened := [], lines := .error (.unreadable name (.system reason)) }
  | .text content =>
    let (lines, tooLong) := physicalLines content
    Reader.lines settings inner name tooLong 1 lines

/-- Reads a file, and every file it includes, nested at most `depth` deep. -/
def Reader.file (settings : Settings) : (depth : Nat) → (name : Text) → Reader Reading
  | 0, _ => fun _ => none
  | depth + 1, name => do
    let being ← get
    if being.contains name then
      return { opened := [], lines := .error (.circular name) }
    match settings.files.get? name with
    | none =>
      return {
        opened := []
        lines := .error (.unreadable name (.system (settings.files.refusal name))) }
    | some content =>
      modify (name :: ·)
      let reading ← Reader.content settings (Reader.file settings depth) name content
      modify (·.filter (· != name))
      return reading.followedBy [] [name]

/-! ## What reading gives -/

variable {settings : Settings} {being : List Text} {name : Text}

/-- What reading the content of a file gives while the files `being` are being
read. -/
def readContent (settings : Settings) (being : List Text) (name : Text) : Content → Reading
  | .broken reason => { opened := [], lines := .error (.unreadable name (.system reason)) }
  | .text content =>
    let (lines, tooLong) := physicalLines content
    readLines settings being name tooLong 1 lines

theorem readFile_of_mem (hn : name ∈ being) :
    readFile settings being name = { opened := [], lines := .error (.circular name) } := by
  rw [readFile, dif_pos hn]

theorem readFile_of_get?_none (hn : name ∉ being) (h : settings.files.get? name = none) :
    readFile settings being name =
      { opened := []
        lines := .error (.unreadable name (.system (settings.files.refusal name))) } := by
  rw [readFile, dif_neg hn]
  split <;> rename_i hget
  · rfl
  · cases h.symm.trans hget
  · cases h.symm.trans hget

theorem readFile_of_get? {content : Content} (hn : name ∉ being)
    (h : settings.files.get? name = some content) :
    readFile settings being name =
      (readContent settings (name :: being) name content).followedBy [] [name] := by
  rw [readFile, dif_neg hn]
  split <;> rename_i hget
  · cases h.symm.trans hget
  · cases h.symm.trans hget
    rfl
  · cases h.symm.trans hget
    rfl

/-! ## A call ends and takes out what it added -/

/-- What follows a computation that ends goes on from its value and its state. -/
theorem Reader.bind_eq {α β : Type} {first : Reader α} {next : α → Reader β} {value : α}
    {after : List Text} (h : first being = some (value, after)) :
    (first >>= next) being = next value after := by
  simp only [bind, StateT.bind, h, Option.bind_some]

section Inner

variable {inner : Text → Reader Reading}

/-- Lines are read to the end if the files they include are. -/
theorem Reader.lines_eq
    (hinner : ∀ name, inner name being = some (readFile settings being name, being))
    (file : Text) (tooLong : Bool) (number : Int) (lines : List Text) :
    Reader.lines settings inner file tooLong number lines being =
      some (readLines settings being file tooLong number lines, being) := by
  induction lines generalizing number with
  | nil =>
    rw [Reader.lines, readLines]
    rfl
  | cons text rest ih =>
    rw [Reader.lines, readLines]
    cases Line.includedFile? text with
    | some target =>
      dsimp only
      rw [Reader.bind_eq (hinner _)]
      cases (readFile settings being (Path.relativeTo file target)).lines with
      | error e => rfl
      | ok included =>
        dsimp only
        rw [Reader.bind_eq (ih _)]
        rfl
    | none =>
      cases readLine settings file number text with
      | error e => rfl
      | ok line =>
        dsimp only
        rw [Reader.bind_eq (ih _)]
        rfl

theorem Reader.content_eq
    (hinner : ∀ name, inner name being = some (readFile settings being name, being))
    (name : Text) (content : Content) :
    Reader.content settings inner name content being =
      some (readContent settings being name content, being) := by
  cases content with
  | broken reason => rfl
  | text content => exact Reader.lines_eq hinner name _ 1 _

end Inner

/-- Taking out a file that was added gives the files that were being read before,
since it was none of them. -/
theorem filter_cons_of_not_mem (hn : name ∉ being) :
    (name :: being).filter (· != name) = being := by
  have hkeep : ∀ other ∈ being, (other != name) = true := by
    intro other hother
    exact bne_iff_ne.2 fun h => hn (h ▸ hother)
  rw [List.filter_cons_of_neg (by simp), List.filter_eq_self.2 hkeep]

/-- Every file is read to the end: with each file that is added, fewer are left to
add. Whatever comes of it, the files being read are the same behind it. -/
theorem Reader.file_eq {depth : Nat} (hdepth : settings.files.unopened being < depth)
    (name : Text) :
    Reader.file settings depth name being = some (readFile settings being name, being) := by
  have hget (now : List Text) : (get : Reader (List Text)) now = some (now, now) := rfl
  have hmodify (f : List Text → List Text) (now : List Text) :
      (modify f : Reader Unit) now = some ((), f now) := rfl
  induction depth generalizing being name with
  | zero => omega
  | succ depth ih =>
    rw [Reader.file, Reader.bind_eq (hget being)]
    by_cases hn : name ∈ being
    · rw [if_pos (List.contains_iff_mem.2 hn), readFile_of_mem hn]
      rfl
    rw [if_neg (mt List.contains_iff_mem.1 hn)]
    cases h : settings.files.get? name with
    | none =>
      rw [readFile_of_get?_none hn h]
      rfl
    | some content =>
      have hless := Files.unopened_cons_lt h hn
      have hinside : settings.files.unopened (name :: being) < depth := by omega
      have hcontent := Reader.content_eq (fun other => ih hinside other) name content
      dsimp only
      rw [Reader.bind_eq (hmodify _ _), Reader.bind_eq hcontent, Reader.bind_eq (hmodify _ _),
        filter_cons_of_not_mem hn, readFile_of_get? hn h]
      rfl

/-! ## Readings that are alike -/

/-- The same files are opened, and the same lines are read or the errors are
alike. -/
structure Reading.Alike (one other : Reading) : Prop where
  opened_eq : one.opened = other.opened
  lines_alike : Except.SameBut Error.Alike one.lines other.lines

theorem Reading.Alike.refl (reading : Reading) : reading.Alike reading :=
  ⟨rfl, .refl .same _⟩

theorem Reading.Alike.followedBy {one other : Reading} (h : one.Alike other)
    (first : List Line) (opened : List Text) :
    (one.followedBy first opened).Alike (other.followedBy first opened) :=
  ⟨congrArg (opened ++ ·) h.opened_eq, h.lines_alike.map _⟩

/-- Settings with the same files, under which expressions have the same values or
faults that are alike. -/
structure Settings.Alike (one other : Settings) : Prop where
  files_eq : one.files = other.files
  evaluate_alike : one.evaluate.Alike other.evaluate

variable {one other : Settings}

theorem Settings.Alike.readLine (h : one.Alike other) (file : Text) (number : Int) (text : Text) :
    Except.SameBut Error.Alike (readLine one file number text)
      (readLine other file number text) := by
  unfold Source.readLine
  have hexpand := h.evaluate_alike.expand number text
  revert hexpand
  generalize Inline.expand one.evaluate number text = x
  generalize Inline.expand other.evaluate number text = y
  intro hexpand
  cases hexpand with
  | error halike => exact .error (.located file number text (.inline halike))
  | ok expanded => exact .refl .same _

/-- Lines are read alike if the files that they include are. -/
theorem Settings.Alike.readLines (h : one.Alike other)
    (hinner : ∀ name, (readFile one being name).Alike (readFile other being name))
    (file : Text) (tooLong : Bool) (number : Int) (lines : List Text) :
    (readLines one being file tooLong number lines).Alike
      (readLines other being file tooLong number lines) := by
  induction lines generalizing number with
  | nil =>
    rw [Source.readLines, Source.readLines]
    exact .refl _
  | cons text rest ih =>
    rw [Source.readLines, Source.readLines]
    cases Line.includedFile? text with
    | some target =>
      dsimp only
      have hincluded := hinner (Path.relativeTo file target)
      revert hincluded
      generalize readFile one being (Path.relativeTo file target) = first
      generalize readFile other being (Path.relativeTo file target) = second
      obtain ⟨opened, lines⟩ := first
      obtain ⟨opened', lines'⟩ := second
      rintro ⟨rfl, hlines⟩
      cases hlines with
      | error halike => exact ⟨rfl, .error (.located file number text halike)⟩
      | ok included => exact (ih _).followedBy included opened
    | none =>
      dsimp only
      have hline := h.readLine file number text
      revert hline
      generalize Source.readLine one file number text = first
      generalize Source.readLine other file number text = second
      intro hline
      cases hline with
      | error halike => exact ⟨rfl, .error halike⟩
      | ok line => exact (ih _).followedBy [line] []

theorem Settings.Alike.readContent (h : one.Alike other)
    (hinner : ∀ name, (readFile one being name).Alike (readFile other being name))
    (name : Text) (content : Content) :
    (readContent one being name content).Alike (readContent other being name content) := by
  cases content with
  | broken reason => exact .refl _
  | text content => exact h.readLines hinner name _ 1 _

theorem Settings.Alike.readFile (h : one.Alike other) (being : List Text) (name : Text) :
    (readFile one being name).Alike (readFile other being name) := by
  by_cases hn : name ∈ being
  · rw [readFile_of_mem hn, readFile_of_mem hn]
    exact .refl _
  cases hget : one.files.get? name with
  | none =>
    rw [readFile_of_get?_none hn hget, readFile_of_get?_none hn (h.files_eq ▸ hget), h.files_eq]
    exact .refl _
  | some content =>
    have hless := Files.unopened_cons_lt hget hn
    rw [readFile_of_get? hn hget, readFile_of_get? hn (h.files_eq ▸ hget)]
    exact (h.readContent (h.readFile (name :: being)) name content).followedBy [] [name]
termination_by one.files.unopened being

/-! ## Many calls on one reader -/

/-- What a reader is asked for: a file, or what is behind an opened one under a
name that need not be a file. -/
inductive Call where
  | file (name : Text)
  | content (name : Text) (found : Content)

/-- Serves one call. -/
def Reader.serve (settings : Settings) (depth : Nat) : Call → Reader Reading
  | .file name => Reader.file settings depth name
  | .content name found => Reader.content settings (Reader.file settings depth) name found

/-- What a call gives while the files `being` are being read. -/
def Call.reading (settings : Settings) (being : List Text) : Call → Reading
  | .file name => readFile settings being name
  | .content name found => readContent settings being name found

theorem Reader.serve_eq {depth : Nat} (hdepth : settings.files.unopened being < depth)
    (call : Call) :
    Reader.serve settings depth call being = some (call.reading settings being, being) := by
  cases call with
  | file name => exact Reader.file_eq hdepth name
  | content name found => exact Reader.content_eq (Reader.file_eq hdepth) name found

theorem Settings.Alike.reading (h : one.Alike other) (being : List Text) (call : Call) :
    (call.reading one being).Alike (call.reading other being) := by
  cases call with
  | file name => exact h.readFile being name
  | content name found => exact h.readContent (h.readFile being) name found

/-- A call, and what evaluates the expressions that it meets. -/
structure Turn where
  call : Call
  evaluate : Inline.Evaluator

/-- Serves calls one after the other, whether they succeed or not. -/
def Reader.session (files : Files) (depth : Nat) (turns : List Turn) : Reader (List Reading) :=
  turns.mapM fun turn => Reader.serve { files, evaluate := turn.evaluate } depth turn.call

theorem Reader.session_eq {files : Files} {depth : Nat} (hdepth : files.unopened being < depth)
    (turns : List Turn) :
    Reader.session files depth turns being =
      some (turns.map fun turn => turn.call.reading { files, evaluate := turn.evaluate } being,
        being) := by
  unfold Reader.session
  induction turns with
  | nil => rfl
  | cons turn rest ih =>
    rw [List.mapM_cons, Reader.bind_eq (Reader.serve_eq hdepth turn.call), Reader.bind_eq ih]
    rfl

/-- Reading ends and leaves no trace. Whatever files there are, whatever evaluates
expressions and whichever files are being read, no call nests more files than are
not being read yet; it gives an answer, and leaves the files being read as they
were. So each of many calls on one reader gives what it gives on its own, in
whatever orders the constants are gone over: the same reading if at most one of
them is malformed, and else one that may tell another malformed constant. On a
reader that reads nothing yet that is what `read` and `readText` say. -/
theorem reader_ends_and_leaves_no_trace (files : Files) (interpreter : Inline.Interpreter)
    {constants : Inline.Predefines} (hnames : (constants.map Prod.fst).Nodup) :
    (∀ evaluate being depth name, files.unopened being < depth →
      Reader.file { files, evaluate } depth name being =
        some (readFile { files, evaluate } being name, being)) ∧
    (∀ being depth turns, files.unopened being < depth →
      (∀ turn ∈ turns, turn.evaluate.GoesOver interpreter constants) →
      ∃ readings, Reader.session files depth turns being = some (readings, being) ∧
        List.Forall₂
          (fun turn reading => ∀ evaluate, evaluate.GoesOver interpreter constants →
            ∃ alone, Reader.serve { files, evaluate } depth turn.call being =
                some (alone, being) ∧
              reading.Alike alone ∧
              (Inline.AtMostOneMalformed constants ∨ evaluate = turn.evaluate → reading = alone))
          turns readings) ∧
    ∀ evaluate depth, files.unopened [] < depth →
      (∀ name, Reader.serve { files, evaluate } depth (.file name) [] =
        some (read { files, evaluate } name, [])) ∧
      ∀ name text, Reader.serve { files, evaluate } depth (.content name (.text text)) [] =
        some (readText { files, evaluate } name text, []) := by
  refine ⟨fun evaluate being depth name hdepth => Reader.file_eq hdepth name, ?_, ?_⟩
  · intro being depth turns hdepth hturns
    refine ⟨_, Reader.session_eq hdepth turns, ?_⟩
    rw [List.forall₂_map_right_iff, List.forall₂_same]
    intro turn hturn evaluate hevaluate
    have hover := hturns turn hturn
    have halike : Settings.Alike { files, evaluate := turn.evaluate } { files, evaluate } :=
      ⟨rfl, hover.alike hevaluate hnames⟩
    refine ⟨_, Reader.serve_eq hdepth turn.call, halike.reading being turn.call, ?_⟩
    rintro (hone | rfl)
    · rw [hover.eq hevaluate hnames hone]
    · rfl
  · intro evaluate depth hdepth
    exact ⟨fun name => Reader.serve_eq hdepth (.file name),
      fun name text => Reader.serve_eq hdepth (.content name (.text text))⟩

/-- Two files that include each other, and one with an expression. -/
def ring : Files where
  entries :=
    [(ascii "a", .text (ascii " +=\"b\"\n")), (ascii "b", .text (ascii " +=\"a\"\n")),
      (ascii "c", .text (ascii " A=$(P)\n"))]
  refusal := fun _ => []

/-- Two constants of which neither is an integer. -/
def crooked : Inline.Predefines := [(ascii "P", ascii "1x"), (ascii "Q", ascii "2x")]

/-- The constants in one order. -/
def forwards : Inline.Evaluator := Inline.evaluate .builtIn crooked

/-- The constants in the other order. -/
def backwards : Inline.Evaluator := Inline.evaluate .builtIn crooked.reverse

theorem ring_leaves_no_trace :
    (crooked.map Prod.fst).Nodup ∧ ring.unopened [] < 4 ∧
    ∃ first second third,
      Reader.session ring 4
        [⟨.file (ascii "a"), forwards⟩, ⟨.file (ascii "c"), forwards⟩,
          ⟨.file (ascii "c"), backwards⟩] [] = some ([first, second, third], []) ∧
      first.lines = .error (.located (ascii "a") 1 (ascii " +=\"b\"")
        (.located (ascii "b") 1 (ascii " +=\"a\"") (.circular (ascii "a")))) ∧
      second.lines = .error (.located (ascii "c") 1 (ascii " A=$(P)")
        (.inline ⟨ascii "P", .predefine (ascii "P") (ascii "1x")⟩)) ∧
      third.lines = .error (.located (ascii "c") 1 (ascii " A=$(P)")
        (.inline ⟨ascii "P", .predefine (ascii "Q") (ascii "2x")⟩)) ∧
      second.Alike third := by
  have hnames : (crooked.map Prod.fst).Nodup := by decide
  have hdepth : ring.unopened [] < 4 := by decide
  have hforwards : forwards.GoesOver .builtIn crooked := Inline.evaluate_goesOver (.refl _)
  have hbackwards : backwards.GoesOver .builtIn crooked :=
    Inline.evaluate_goesOver (List.reverse_perm crooked)
  obtain ⟨readings, hsession, hturns⟩ :=
    (reader_ends_and_leaves_no_trace ring .builtIn hnames).2.1 [] 4
      [⟨.file (ascii "a"), forwards⟩, ⟨.file (ascii "c"), forwards⟩,
        ⟨.file (ascii "c"), backwards⟩] hdepth (by simp [hforwards, hbackwards])
  rcases hturns with _ | ⟨h1, _ | ⟨h2, _ | ⟨h3, _ | _⟩⟩⟩
  rename_i first second third
  obtain ⟨alone1, hserve1, _, heq1⟩ := h1 forwards hforwards
  obtain ⟨alone2, hserve2, _, heq2⟩ := h2 forwards hforwards
  obtain ⟨alone3, hserve3, _, heq3⟩ := h3 backwards hbackwards
  obtain ⟨other, hother, halike, _⟩ := h2 backwards hbackwards
  obtain rfl := heq1 (.inr rfl)
  obtain rfl := heq2 (.inr rfl)
  obtain rfl := heq3 (.inr rfl)
  obtain rfl : other = third := by
    rw [hserve3] at hother
    exact (Prod.mk.inj (Option.some.inj hother)).1.symm
  -- The lines of each reading are found by serving its call.
  have hlines {evaluate : Inline.Evaluator} {call : Call} {reading : Reading}
      {lines : Except Error (List Line)}
      (h : Reader.serve { files := ring, evaluate } 4 call [] = some (reading, []))
      (hfound : (Reader.serve { files := ring, evaluate } 4 call []).map (·.1.lines) =
        some lines) : reading.lines = lines := by
    rw [h] at hfound
    exact Option.some.inj hfound
  exact ⟨hnames, hdepth, first, second, other, hsession, hlines hserve1 (by decide +kernel),
    hlines hserve2 (by decide +kernel), hlines hserve3 (by decide +kernel), halike⟩

end Source

end Asm6502
