-- No write is lost silently. All that a file system is asked to do, with its
-- answers, is a list of steps. If writing succeeds, the steps of each file
-- create it, write its content to the last byte and close it, and none of them
-- failed. If it does not, the error tells the first step that failed, or why the
-- object file cannot be made.
import Mathlib.Data.List.Forall2
import Asm6502.Image.HexMemory
import Asm6502.Output

namespace Asm6502

namespace Output

/-! ## Buffered content -/

/-- A buffer neither loses bytes nor changes their order. -/
theorem collect_flatten (buffer piece : Text) :
    (collect buffer piece).1.flatten ++ (collect buffer piece).2 = buffer ++ piece := by
  unfold collect
  split
  · simp
  · split
    · rename_i hempty
      simp [List.isEmpty_iff.1 hempty]
    · dsimp only
      split
      · simp
      · simp

theorem chunksFrom_flatten (buffer : Text) (pieces : List Text) :
    (chunksFrom buffer pieces).flatten = buffer ++ pieces.flatten := by
  induction pieces generalizing buffer with
  | nil =>
    unfold chunksFrom
    split
    · rename_i hempty
      simp [List.isEmpty_iff.1 hempty]
    · simp
  | cons piece pieces ih =>
    unfold chunksFrom
    rw [List.flatten_append, ih, ← List.append_assoc, collect_flatten, List.flatten_cons,
      List.append_assoc]

/-! ## Steps of a file system -/

/-- The steps are taken in a file system: each has the answer that it gets
behind the steps before it. -/
def FileSystem.Takes (system : FileSystem) (before : List Step) : List Step → Prop
  | [] => True
  | step :: rest =>
    step.failure = system.answer before step.action ∧ system.Takes (before ++ [step]) rest

theorem FileSystem.takes_append {system : FileSystem} {before first second : List Step} :
    system.Takes before (first ++ second) ↔
      system.Takes before first ∧ system.Takes (before ++ first) second := by
  induction first generalizing before with
  | nil => simp [FileSystem.Takes]
  | cons step first ih =>
    simp only [List.cons_append, FileSystem.Takes, ih, and_assoc, List.append_assoc,
      List.nil_append]

theorem FileSystem.step_eq {system : FileSystem} {before : List Step} {action : Action}
    {failure : Option Failure} (h : system.answer before action = failure) :
    system.step before action = ⟨action, failure⟩ := by
  rw [← h]
  rfl

/-- A write of a chunk that succeeds. -/
def wrote (name chunk : Text) : Step := { action := .write name chunk, failure := none }

/-- Steps that create a file, write its content and close it, all without a
failure. -/
def Stored (file : File) (steps : List Step) : Prop :=
  ∃ chunks : List Text, chunks.flatten = file.content ∧
    steps = ⟨.create file.name, none⟩ ::
      (chunks.map (wrote file.name) ++ [⟨.close file.name, none⟩])

/-- Steps that store a file whose content can be made. -/
def Draft.Stored (draft : Draft) (steps : List Step) : Prop :=
  ∃ pieces, draft.pieces = .ok pieces ∧
    Output.Stored { name := draft.name, content := pieces.flatten } steps

/-- An error tells the first step that failed: its file and the reason. -/
def Tells (e : Error) (steps : List Step) : Prop :=
  ∃ front step back failure, steps = front ++ step :: back ∧
    (∀ earlier ∈ front, earlier.failure = none) ∧ step.failure = some failure ∧
    e = .unwritable step.action.file (.system failure.reason)

/-- An error tells why one of the files cannot be made. Those before it are stored,
and it is created and closed. -/
def Withheld (drafts : List Draft) (e : Error) (steps : List Step) : Prop :=
  ∃ earlier draft later parts reason closing, drafts = earlier ++ draft :: later ∧
    List.Forall₂ Draft.Stored earlier parts ∧ draft.pieces = .error reason ∧
    steps = parts.flatten ++ [⟨.create draft.name, none⟩, ⟨.close draft.name, closing⟩] ∧
    e = .unwritable draft.name (.system reason)

/-! ## One file -/

/-- The ways in which writing a file goes. -/
inductive Course (draft : Draft) : List Step → Except Error Unit → Prop
  | refused (failure : Failure) :
      Course draft [⟨.create draft.name, some failure⟩]
        (.error (.unwritable draft.name (.system failure.reason)))
  | broken (front : List Text) (chunk : Text) (failure : Failure) (closing : Option Failure) :
      Course draft
        (⟨.create draft.name, none⟩ :: (front.map (wrote draft.name) ++
          [⟨.write draft.name chunk, some failure⟩, ⟨.close draft.name, closing⟩]))
        (.error (.unwritable draft.name (.system failure.reason)))
  | unmade (reason : Text) (closing : Option Failure) (h : draft.pieces = .error reason) :
      Course draft [⟨.create draft.name, none⟩, ⟨.close draft.name, closing⟩]
        (.error (.unwritable draft.name (.system reason)))
  | unclosed (pieces : List Text) (failure : Failure) (h : draft.pieces = .ok pieces) :
      Course draft
        (⟨.create draft.name, none⟩ :: ((chunksFrom [] pieces).map (wrote draft.name) ++
          [⟨.close draft.name, some failure⟩]))
        (.error (.unwritable draft.name (.system failure.reason)))
  | stored (pieces : List Text) (h : draft.pieces = .ok pieces) :
      Course draft
        (⟨.create draft.name, none⟩ :: ((chunksFrom [] pieces).map (wrote draft.name) ++
          [⟨.close draft.name, none⟩]))
        (.ok ())

variable {system : FileSystem} {before : List Step} {draft : Draft}

theorem writeChunks_takes {name : Text} (chunks : List Text) :
    system.Takes before (writeChunks system name before chunks).1 := by
  induction chunks generalizing before with
  | nil => trivial
  | cons chunk chunks ih =>
    unfold writeChunks
    dsimp only
    split
    · exact ⟨rfl, trivial⟩
    · exact ⟨rfl, ih⟩

/-- Every chunk is written, or the writes stop at one that fails. -/
theorem writeChunks_cases {name : Text} (chunks : List Text) :
    writeChunks system name before chunks = (chunks.map (wrote name), none) ∨
      ∃ (front : List Text) (chunk : Text) (failure : Failure),
        writeChunks system name before chunks =
          (front.map (wrote name) ++ [⟨.write name chunk, some failure⟩], some failure) := by
  induction chunks generalizing before with
  | nil => exact Or.inl rfl
  | cons chunk chunks ih =>
    cases h : system.answer before (.write name chunk) with
    | some failure =>
      refine Or.inr ⟨[], chunk, failure, ?_⟩
      simp [writeChunks, FileSystem.step_eq h]
    | none =>
      simp only [writeChunks, FileSystem.step_eq h]
      rcases @ih (before ++ [⟨.write name chunk, none⟩]) with hrest | ⟨front, last, failure, hrest⟩
      · rw [hrest]
        exact Or.inl rfl
      · rw [hrest]
        exact Or.inr ⟨chunk :: front, last, failure, rfl⟩

/-- Writing a file goes one of these ways. The failure of a write hides that of
closing. -/
theorem writeFile_course (system : FileSystem) (before : List Step) (draft : Draft) :
    Course draft (writeFile system before draft).steps (writeFile system before draft).result := by
  cases hopened : system.answer before (.create draft.name) with
  | some failure =>
    simp only [writeFile, FileSystem.step_eq hopened]
    exact .refused failure
  | none =>
    simp only [writeFile, FileSystem.step_eq hopened]
    have hclosed (steps : List Step) : system.step steps (.close draft.name) =
        ⟨.close draft.name, system.answer steps (.close draft.name)⟩ := rfl
    cases hpieces : draft.pieces with
    | error reason =>
      have hchunks : draft.chunks = [] := by simp [Draft.chunks, hpieces]
      have hfailure : draft.failure? = some { reason } := by simp [Draft.failure?, hpieces]
      rw [hchunks, hfailure, hclosed]
      exact .unmade reason _ hpieces
    | ok pieces =>
      have hchunks : draft.chunks = chunksFrom [] pieces := by simp [Draft.chunks, hpieces]
      have hfailure : draft.failure? = none := by simp [Draft.failure?, hpieces]
      rw [hchunks, hfailure, Option.or_none]
      rcases writeChunks_cases (chunksFrom [] pieces) with
        hwritten | ⟨front, chunk, failure, hwritten⟩
      · rw [hwritten, hclosed]
        generalize system.answer _ (.close draft.name) = closing
        cases closing with
        | some failure => exact .unclosed pieces failure hpieces
        | none => exact .stored pieces hpieces
      · rw [hwritten, hclosed]
        simpa using Course.broken front chunk failure _

theorem writeFile_takes : system.Takes before (writeFile system before draft).steps := by
  unfold writeFile
  dsimp only
  split
  · exact ⟨rfl, trivial⟩
  · split
    all_goals
      refine ⟨rfl, FileSystem.takes_append.2 ⟨writeChunks_takes _, ?_, trivial⟩⟩
      rw [List.append_assoc]
      rfl

variable {steps : List Step} {result : Except Error Unit} {e : Error}

theorem Course.stored_of_ok (h : Course draft steps (.ok ())) : draft.Stored steps := by
  cases h with
  | stored pieces h => exact ⟨pieces, h, chunksFrom [] pieces, chunksFrom_flatten [] pieces, rfl⟩

theorem no_failure_of_wrote {name : Text} {chunks : List Text} :
    ∀ step ∈ ⟨.create name, none⟩ :: chunks.map (wrote name), step.failure = none := by
  intro step hmem
  rcases List.mem_cons.1 hmem with rfl | hmem
  · rfl
  · obtain ⟨chunk, _, rfl⟩ := List.mem_map.1 hmem
    rfl

theorem Course.tells (h : Course draft steps (.error e)) (later : List Draft) :
    Tells e steps ∨ Withheld (draft :: later) e steps := by
  cases h with
  | refused failure => exact .inl ⟨[], _, [], failure, rfl, by simp, rfl, rfl⟩
  | broken front chunk failure closing =>
    exact .inl ⟨_ :: front.map _, _, _, failure, rfl, no_failure_of_wrote, rfl, rfl⟩
  | unmade reason closing h =>
    exact .inr ⟨[], draft, later, [], reason, closing, rfl, .nil, h, rfl, rfl⟩
  | unclosed pieces failure _ =>
    exact .inl ⟨_ :: (chunksFrom [] pieces).map _, _, _, failure, rfl, no_failure_of_wrote, rfl,
      rfl⟩

theorem Course.file_eq (h : Course draft steps result) :
    ∀ step ∈ steps, step.action.file = draft.name := by
  intro step hmem
  cases h with
  | refused | unmade => grind [Action.file]
  | broken | unclosed | stored => grind [Action.file, wrote]

/-- Only the first step creates a file. -/
theorem Course.front_eq_nil {front back : List Step} {step : Step} {name : Text}
    (h : Course draft (front ++ step :: back) result) (hcreate : step.action = .create name) :
    front = [] := by
  cases front with
  | nil => rfl
  | cons first front =>
    generalize hsteps : first :: front ++ step :: back = steps at h
    have hmem : step ∈ steps.tail := by simp [← hsteps]
    cases h with
    | refused => cases hmem
    | broken | unmade | unclosed | stored => grind [wrote]

/-! ## Files in order -/

theorem Draft.Stored.no_failure (h : draft.Stored steps) :
    ∀ step ∈ steps, step.failure = none := by
  obtain ⟨pieces, _, chunks, _, rfl⟩ := h
  intro step hmem
  rw [← List.cons_append] at hmem
  rcases List.mem_append.1 hmem with hmem | hmem
  · exact no_failure_of_wrote step hmem
  · rw [List.mem_singleton.1 hmem]

theorem Tells.append {front : List Step} (hfront : ∀ step ∈ front, step.failure = none)
    (h : Tells e steps) : Tells e (front ++ steps) := by
  obtain ⟨before, step, back, failure, rfl, hbefore, hstep⟩ := h
  refine ⟨front ++ before, step, back, failure, by simp, ?_, hstep⟩
  intro earlier hmem
  rcases List.mem_append.1 hmem with hmem | hmem
  · exact hfront earlier hmem
  · exact hbefore earlier hmem

/-- Writing files stops at the first one that fails, or goes on behind it. -/
theorem writeFiles_cases (system : FileSystem) (before : List Step) (draft : Draft)
    (drafts : List Draft) :
    (∃ e, (writeFile system before draft).result = .error e ∧
      writeFiles system before (draft :: drafts) = writeFile system before draft) ∨
    ∃ steps, steps = (writeFile system before draft).steps ∧ draft.Stored steps ∧
      (writeFiles system before (draft :: drafts)).steps =
        steps ++ (writeFiles system (before ++ steps) drafts).steps ∧
      (writeFiles system before (draft :: drafts)).result =
        (writeFiles system (before ++ steps) drafts).result := by
  have hcourse := writeFile_course system before draft
  cases hresult : (writeFile system before draft).result with
  | error e => exact Or.inl ⟨e, rfl, by simp only [writeFiles, hresult]⟩
  | ok =>
    rw [hresult] at hcourse
    refine Or.inr ⟨_, rfl, hcourse.stored_of_ok, ?_, ?_⟩
    · simp only [writeFiles, hresult]
    · simp only [writeFiles, hresult]

variable {drafts : List Draft}

theorem writeFiles_takes : system.Takes before (writeFiles system before drafts).steps := by
  induction drafts generalizing before with
  | nil => trivial
  | cons draft drafts ih =>
    rcases writeFiles_cases system before draft drafts with ⟨_, _, heq⟩ | ⟨_, rfl, _, hsteps, _⟩
    · rw [heq]
      exact writeFile_takes
    · rw [hsteps]
      exact FileSystem.takes_append.2 ⟨writeFile_takes, ih⟩

theorem writeFiles_stored (h : (writeFiles system before drafts).result = .ok ()) :
    ∃ parts : List (List Step), (writeFiles system before drafts).steps = parts.flatten ∧
      List.Forall₂ Draft.Stored drafts parts := by
  induction drafts generalizing before with
  | nil => exact ⟨[], rfl, .nil⟩
  | cons draft drafts ih =>
    rcases writeFiles_cases system before draft drafts with
      ⟨e, herror, heq⟩ | ⟨first, _, hstored, hsteps, hresult⟩
    · rw [heq, herror] at h
      cases h
    · rw [hresult] at h
      obtain ⟨parts, hparts, hall⟩ := ih h
      exact ⟨first :: parts, by rw [hsteps, hparts, List.flatten_cons], .cons hstored hall⟩

theorem Withheld.cons {first : List Step} (hfirst : draft.Stored first)
    (h : Withheld drafts e steps) : Withheld (draft :: drafts) e (first ++ steps) := by
  obtain ⟨earlier, last, later, parts, reason, closing, rfl, hparts, hpieces, rfl, rfl⟩ := h
  exact ⟨draft :: earlier, last, later, first :: parts, reason, closing, rfl,
    .cons hfirst hparts, hpieces, by simp, rfl⟩

theorem writeFiles_tells (h : (writeFiles system before drafts).result = .error e) :
    Tells e (writeFiles system before drafts).steps ∨
      Withheld drafts e (writeFiles system before drafts).steps := by
  induction drafts generalizing before with
  | nil => cases h
  | cons draft drafts ih =>
    rcases writeFiles_cases system before draft drafts with
      ⟨_, _, heq⟩ | ⟨first, _, hstored, hsteps, hresult⟩
    · rw [heq] at h ⊢
      have hcourse := writeFile_course system before draft
      rw [h] at hcourse
      exact hcourse.tells drafts
    · rw [hresult] at h
      rw [hsteps]
      exact (ih h).imp (·.append hstored.no_failure) (·.cons hstored)

theorem writeFiles_file :
    ∀ step ∈ (writeFiles system before drafts).steps, step.action.file ∈ drafts.map Draft.name := by
  induction drafts generalizing before with
  | nil => simp [writeFiles]
  | cons draft drafts ih =>
    have hfirst := (writeFile_course system before draft).file_eq
    intro step hmem
    rw [List.map_cons, List.mem_cons]
    rcases writeFiles_cases system before draft drafts with ⟨_, _, heq⟩ | ⟨_, rfl, _, hsteps, _⟩
    · rw [heq] at hmem
      exact Or.inl (hfirst step hmem)
    · rw [hsteps, List.mem_append] at hmem
      exact hmem.imp (hfirst step) (ih step)

theorem split_within {α : Type} {first second front back : List α} {a : α}
    (h : first ++ second = front ++ a :: back) (ha : a ∉ second) :
    ∃ back', first = front ++ a :: back' := by
  rcases List.append_eq_append_iff.1 h with ⟨mid, _, hsecond⟩ | ⟨mid, hfirst, hback⟩
  · exact (ha (by simp [hsecond])).elim
  · cases mid with
    | nil =>
      rw [List.nil_append] at hback
      exact (ha (hback ▸ List.mem_cons_self)).elim
    | cons b mid =>
      obtain ⟨rfl, _⟩ := List.cons.inj hback
      exact ⟨mid, hfirst⟩

theorem split_behind {α : Type} {first second front back : List α} {a : α}
    (h : first ++ second = front ++ a :: back) (ha : a ∉ first) :
    ∃ front', front = first ++ front' ∧ second = front' ++ a :: back := by
  rcases List.append_eq_append_iff.1 h with ⟨mid, hfront, hsecond⟩ | ⟨mid, hfirst, hback⟩
  · exact ⟨mid, hfront, hsecond⟩
  · cases mid with
    | nil => exact ⟨[], by simpa using hfirst.symm, hback.symm⟩
    | cons b mid =>
      obtain ⟨rfl, _⟩ := List.cons.inj hback
      exact (ha (by simp [hfirst])).elim

/-- A file is created only when all files before it are stored. The names differ,
so the steps of one file are told from those of another. -/
theorem writeFiles_creates {earlier later : List Draft} {front back : List Step} {step : Step}
    (hnames : (drafts.map Draft.name).Nodup) (hdrafts : drafts = earlier ++ draft :: later)
    (hsteps : (writeFiles system before drafts).steps = front ++ step :: back)
    (hcreate : step.action = .create draft.name) :
    ∃ parts : List (List Step), front = parts.flatten ∧
      List.Forall₂ Draft.Stored earlier parts := by
  induction drafts generalizing before earlier front with
  | nil => simp at hdrafts
  | cons first drafts ih =>
    have hcourse := writeFile_course system before first
    have hfile : step.action.file = draft.name := by simp [hcreate, Action.file]
    obtain ⟨hfirst, hrest⟩ := List.nodup_cons.1 hnames
    cases earlier with
    | nil =>
      -- The file is the first one, and the first of its steps creates it.
      obtain ⟨rfl, rfl⟩ := List.cons.inj hdrafts
      refine ⟨[], ?_, .nil⟩
      rcases writeFiles_cases system before first drafts with ⟨_, _, heq⟩ | ⟨_, rfl, _, happend, _⟩
      · rw [heq] at hsteps
        rw [hsteps] at hcourse
        exact hcourse.front_eq_nil hcreate
      · rw [happend] at hsteps
        obtain ⟨back', hfront⟩ := split_within hsteps fun hmem =>
          hfirst (hfile ▸ writeFiles_file step hmem)
        rw [hfront] at hcourse
        exact hcourse.front_eq_nil hcreate
    | cons other earlier =>
      -- The file comes later, so the step stands behind those of the first one.
      obtain ⟨rfl, htail⟩ := List.cons.inj hdrafts
      have hnot : step ∉ (writeFile system before first).steps := by
        intro hmem
        have hname : first.name = draft.name := (hcourse.file_eq step hmem).symm.trans hfile
        exact hfirst (by simp [htail, hname])
      rcases writeFiles_cases system before first drafts with
        ⟨_, _, heq⟩ | ⟨_, rfl, hstored, happend, _⟩
      · rw [heq] at hsteps
        exact (hnot (by simp [hsteps])).elim
      · rw [happend] at hsteps
        obtain ⟨front', rfl, hlater⟩ := split_behind hsteps hnot
        obtain ⟨parts, rfl, hparts⟩ := ih hrest htail hlater
        exact ⟨_ :: parts, rfl, .cons hstored hparts⟩

/-! ## The files of a program -/

variable {library : IntelHex.Library} {program : Program} {format : Format} {name listing : Text}

/-- An object file that is stored has the content that was to be made. -/
theorem image_of_stored
    (h : Draft.Stored { name, pieces := program.pieces library format } steps) :
    ∃ object, program.image library format = .ok object ∧
      Stored { name, content := object } steps := by
  obtain ⟨pieces, hpieces, hstored⟩ := h
  have hpieces' : program.pieces library format = .ok pieces := hpieces
  refine ⟨pieces.flatten, ?_, hstored⟩
  unfold Program.image
  rw [hpieces']
  rfl

/-- The files that are stored are those of the program. -/
theorem filesOf_of_stored {parts : List (List Step)}
    (h : List.Forall₂ Draft.Stored (draftsOf library program format name listing) parts) :
    ∃ object, program.image library format = .ok object ∧
      List.Forall₂ Stored (filesOf program name object listing) parts := by
  unfold draftsOf at h
  cases h with
  | cons hobject hrest =>
    obtain ⟨object, himage, hstored⟩ := image_of_stored hobject
    refine ⟨object, himage, .cons hstored ?_⟩
    split at hrest
    · rename_i hempty
      rw [if_pos hempty]
      cases hrest
      exact .nil
    · rename_i hlisting
      rw [if_neg hlisting]
      cases hrest with
      | cons hlabels hnil =>
        cases hnil
        obtain ⟨pieces, hpieces, hstored⟩ := hlabels
        cases hpieces
        exact .cons hstored .nil

/-- Only the object file may be one that cannot be made. -/
theorem withheld_draftsOf (h : Withheld (draftsOf library program format name listing) e steps) :
    ∃ reason closing, program.image library format = .error reason ∧
      steps = [⟨.create name, none⟩, ⟨.close name, closing⟩] ∧
      e = .unwritable name (.system reason) := by
  obtain ⟨earlier, draft, later, parts, reason, closing, hdrafts, hparts, hpieces, rfl, rfl⟩ := h
  unfold draftsOf at hdrafts
  cases earlier with
  | nil =>
    obtain ⟨rfl, _⟩ := List.cons.inj hdrafts
    cases hparts
    have hpieces' : program.pieces library format = .error reason := hpieces
    refine ⟨reason, closing, ?_, rfl, rfl⟩
    unfold Program.image
    rw [hpieces']
    rfl
  | cons first earlier =>
    -- What stands behind the object file is the listing, and it can always be made.
    obtain ⟨_, hrest⟩ := List.cons.inj hdrafts
    have hmem : draft ∈ if listing.isEmpty then []
        else [{ name := listing, pieces := .ok (listingPieces program.labels) }] := by
      rw [hrest]
      simp
    split at hmem
    · cases hmem
    · cases List.mem_singleton.1 hmem
      cases hpieces

/-- No write is lost silently, whatever a file system refuses and whatever library
makes Intel HEX files. The steps are those that the file system took. If writing
succeeds, every file was created, got its whole content and was closed. Otherwise
the error tells the file and the reason of the first step that failed, or that the
object file cannot be made, and then nothing is written. The listing is created
only when the object file is stored. -/
theorem no_write_is_lost_silently {library : IntelHex.Library} {system : FileSystem}
    {program : Program} {format : Format} {name listing : Text} (hname : listing ≠ name) :
    system.Takes [] (writeIn library system program format name listing).steps ∧
      ((writeIn library system program format name listing).result = .ok () →
        ∃ object, program.image library format = .ok object ∧
          ∃ parts : List (List Step),
            (writeIn library system program format name listing).steps = parts.flatten ∧
              List.Forall₂ Stored (filesOf program name object listing) parts) ∧
      (∀ e, (writeIn library system program format name listing).result = .error e →
        Tells e (writeIn library system program format name listing).steps ∨
          ∃ reason closing, program.image library format = .error reason ∧
            (writeIn library system program format name listing).steps =
              [⟨.create name, none⟩, ⟨.close name, closing⟩] ∧
            e = .unwritable name (.system reason)) ∧
      ∀ front step back,
        (writeIn library system program format name listing).steps = front ++ step :: back →
          step.action = .create listing →
            ∃ object, program.image library format = .ok object ∧
              Stored { name, content := object } front := by
  refine ⟨writeFiles_takes, ?_, fun e h => (writeFiles_tells h).imp_right withheld_draftsOf, ?_⟩
  · intro h
    obtain ⟨parts, hparts, hstored⟩ := writeFiles_stored h
    obtain ⟨object, himage, hfiles⟩ := filesOf_of_stored hstored
    exact ⟨object, himage, parts, hparts, hfiles⟩
  · intro front step back hsteps hcreate
    have hfile : step.action.file = listing := by simp [hcreate, Action.file]
    by_cases hlisting : listing.isEmpty
    · -- No listing is asked for, so every step is about the object file.
      have hmem := writeFiles_file step (hsteps ▸ List.mem_append_cons_self)
      simp [draftsOf, hlisting, hfile, hname] at hmem
    · have hdrafts : draftsOf library program format name listing =
          [{ name, pieces := program.pieces library format }] ++
            { name := listing, pieces := .ok (listingPieces program.labels) } :: [] := by
        simp [draftsOf, hlisting]
      have hnodup : ((draftsOf library program format name listing).map Draft.name).Nodup := by
        simp [hdrafts, hname.symm]
      obtain ⟨parts, rfl, hparts⟩ := writeFiles_creates hnodup hdrafts hsteps hcreate
      cases hparts with
      | cons hstored hnil =>
        cases hnil
        simpa using image_of_stored hstored

/-- A file system with room for some bytes. A write that is too long takes what
fits and fails. -/
def FileSystem.withRoom (room : Nat) : FileSystem :=
  { answer := fun before action =>
      let free := room - (before.flatMap Step.taken).length
      match action with
      | .write _ chunk =>
        if chunk.length ≤ free then none else some { reason := ascii "disk full", taken := free }
      | _ => none }

/-- A lone return, and a label at it. -/
def returning : Program :=
  { origin := 0x8000
    lines := [⟨⟨1, ascii "main.s", ascii "start: ;", [], []⟩, 0x8000, [0x60]⟩]
    labels := { entries := [⟨ascii "start", 1, .full 0x8000⟩] } }

/-- There is room for the object file, and not for the listing behind it. -/
def crowded : Outcome :=
  writeIn .builtIn (.withRoom 30) returning .intelHex (ascii "a.hex") (ascii "a.lab")

theorem crowded_is_told :
    crowded.result = .error (.unwritable (ascii "a.lab") (.system (ascii "disk full"))) ∧
      Tells (.unwritable (ascii "a.lab") (.system (ascii "disk full"))) crowded.steps ∧
      Stored ⟨ascii "a.hex", ascii ":01800000601F\n:00000001FF\n"⟩ (crowded.steps.take 3) := by
  have hname : ascii "a.lab" ≠ ascii "a.hex" := by decide +kernel
  obtain ⟨_, _, htells, hcreates⟩ :=
    @no_write_is_lost_silently .builtIn (.withRoom 30) returning .intelHex _ _ hname
  have hresult :
      crowded.result = .error (.unwritable (ascii "a.lab") (.system (ascii "disk full"))) := by
    decide +kernel
  have himage : returning.image .builtIn .intelHex =
      .ok (ascii ":01800000601F\n:00000001FF\n") := by
    decide +kernel
  have hsteps : crowded.steps =
      crowded.steps.take 3 ++ ⟨.create (ascii "a.lab"), none⟩ :: crowded.steps.drop 4 := by
    decide +kernel
  obtain ⟨object, hobject, hstored⟩ := hcreates _ _ _ hsteps rfl
  cases himage.symm.trans hobject
  refine ⟨hresult, (htells _ hresult).resolve_right ?_, hstored⟩
  rintro ⟨reason, _, hreason, _⟩
  cases himage.symm.trans hreason

end Output

end Asm6502
