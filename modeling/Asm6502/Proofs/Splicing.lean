-- What reading a file with includes comes to. The files are gone through depth
-- first, in the order of their lines, and an include stands for a way through
-- the file it names. Laws: reading succeeds exactly if every place on the way is
-- sound, and then gives one line for each physical line that includes nothing;
-- otherwise it stops at the first place that is not, with the error of that place.
import Asm6502.Proofs.Except
import Asm6502.Proofs.Reader

namespace Asm6502

/-- The error below the places and the files that it is told for. -/
def Error.root : Error → Error
  | .located _ _ _ cause => cause.root
  | .unreadable _ cause => cause.root
  | .unwritable _ cause => cause.root
  | e => e

namespace Source

/-! ## The way through the files -/

/-- All physical lines of a text, too long or not. A text that ends in a newline has
no line behind it. -/
def rawLines (t : Text) : List Text :=
  let all := t.splitOn Ascii.newline
  if all.getLast? == some [] then all.dropLast else all

/-- A physical line of a file. -/
structure Physical where
  file : Text
  number : Int
  raw : Text
deriving DecidableEq, Repr

/-- The text of the line as messages show it. -/
def Physical.text (p : Physical) : Text := dropReturn p.raw

/-- The file that the line includes, if it is read at all. -/
def Physical.target? (p : Physical) : Option Text :=
  if p.raw.length < lineLimit then (Line.includedFile? p.text).map (Path.relativeTo p.file)
  else none

/-- A place on the way: a file, or a line that includes none. Each place knows the
lines that lead to it by their includes, the innermost first. -/
inductive Visit where
  | file (via : List Physical) (name : Text)
  | line (via : List Physical) (p : Physical)
deriving DecidableEq, Repr

/-- The way through a file. It does not go into a file that it is in already. -/
def walk (files : Files) (via : List Physical) (name : Text) : List Visit :=
  .file via name ::
    if hn : name ∈ via.map Physical.file then []
    else
      match h : files.get? name with
      | some (.text content) =>
        have := Files.unopened_cons_lt h hn
        ((rawLines content).zipIdx 1).flatMap fun (raw, number) =>
          let p : Physical := { file := name, number, raw }
          match p.target? with
          | some target => walk files (p :: via) target
          | none => [.line via p]
      | _ => []
termination_by files.unopened (via.map Physical.file)

/-- The way from a line on up to the next line of its file. -/
def walkLine (files : Files) (via : List Physical) (p : Physical) : List Visit :=
  match p.target? with
  | some target => walk files (p :: via) target
  | none => [.line via p]

variable {files : Files} {via : List Physical} {name : Text}

theorem walk_of_mem (hn : name ∈ via.map Physical.file) :
    walk files via name = [.file via name] := by
  rw [walk, dif_pos hn]

theorem walk_of_text {content : Text} (hn : name ∉ via.map Physical.file)
    (h : files.get? name = some (.text content)) :
    walk files via name = .file via name ::
      ((rawLines content).zipIdx 1).flatMap fun x =>
        walkLine files via { file := name, number := x.2, raw := x.1 } := by
  rw [walk, dif_neg hn]
  split <;> rename_i hget
  · cases h.symm.trans hget
    rfl
  · exact absurd h (hget _)

theorem walk_of_not_text (hn : name ∉ via.map Physical.file)
    (h : ∀ content, files.get? name ≠ some (.text content)) :
    walk files via name = [.file via name] := by
  rw [walk, dif_neg hn]
  split <;> rename_i hget
  · exact absurd hget (h _)
  · rfl

/-! ## What each place says -/

/-- The line that is read from a physical line: it says where it stands and shows
the text as it was before expansion. -/
structure Physical.Reads (settings : Settings) (p : Physical) (line : Line) : Prop where
  short : p.raw.length < lineLimit
  file_eq : line.file = p.file
  number_eq : line.number = p.number
  text_eq : line.text = p.text
  parses : ∃ expanded parsed, Inline.expand settings.evaluate p.number p.text = .ok expanded ∧
    Line.parse expanded p.number = .ok parsed ∧ line.label = parsed.label ∧
    line.statements = parsed.statements

/-- A place at which reading goes on: a file that opens and that the way is not in
yet, or a line that can be read. -/
def Visit.Sound (settings : Settings) : Visit → Prop
  | .file via name => name ∉ via.map Physical.file ∧
      ∃ content, settings.files.get? name = some (.text content)
  | .line _ p => ∃ line, p.Reads settings line

/-- An error is told for each of the lines that lead to its place. -/
def locatedVia (via : List Physical) (e : Error) : Error :=
  via.foldl (fun e p => .located p.file p.number p.text e) e

/-- The error of a place at which reading stops. -/
inductive Visit.Fails (settings : Settings) : Visit → Error → Prop
  | circular {via : List Physical} {name : Text} (h : name ∈ via.map Physical.file) :
    Fails settings (.file via name) (locatedVia via (.circular name))
  | unopened {via : List Physical} {name : Text} (hn : name ∉ via.map Physical.file)
    (h : settings.files.get? name = none) :
    Fails settings (.file via name)
      (locatedVia via (.unreadable name (.system (settings.files.refusal name))))
  | broken {via : List Physical} {name reason : Text} (hn : name ∉ via.map Physical.file)
    (h : settings.files.get? name = some (.broken reason)) :
    Fails settings (.file via name) (locatedVia via (.unreadable name (.system reason)))
  | tooLong {via : List Physical} {p : Physical} (h : lineLimit ≤ p.raw.length) :
    Fails settings (.line via p)
      (locatedVia via (.unreadable p.file (.system (ascii "bufio.Scanner: token too long"))))
  | inline {via : List Physical} {p : Physical} {e : Inline.Error}
    (hshort : p.raw.length < lineLimit)
    (h : Inline.expand settings.evaluate p.number p.text = .error e) :
    Fails settings (.line via p)
      (locatedVia via (.located p.file p.number p.text (.inline e)))
  | parse {via : List Physical} {p : Physical} {expanded : Text} {e : LineError}
    (hshort : p.raw.length < lineLimit)
    (hexpand : Inline.expand settings.evaluate p.number p.text = .ok expanded)
    (h : Line.parse expanded p.number = .error e) :
    Fails settings (.line via p)
      (locatedVia via (.located p.file p.number p.text (.line e)))

variable {settings : Settings} {visit : Visit} {e : Error}

theorem Visit.Fails.not_sound (h : visit.Fails settings e) : ¬ visit.Sound settings := by
  intro hsound
  cases h with
  | circular h => exact hsound.1 h
  | unopened _ h =>
    obtain ⟨_, content, hget⟩ := hsound
    cases h.symm.trans hget
  | broken _ h =>
    obtain ⟨_, content, hget⟩ := hsound
    cases h.symm.trans hget
  | tooLong h =>
    obtain ⟨line, hline⟩ := hsound
    have := hline.short
    omega
  | inline _ h =>
    obtain ⟨line, hline⟩ := hsound
    obtain ⟨_, _, hexpand, _⟩ := hline.parses
    cases h.symm.trans hexpand
  | parse _ hexpand h =>
    obtain ⟨line, hline⟩ := hsound
    obtain ⟨_, _, hexpand', hparse, _⟩ := hline.parses
    cases hexpand.symm.trans hexpand'
    cases h.symm.trans hparse

theorem root_locatedVia (via : List Physical) (e : Error) : (locatedVia via e).root = e.root := by
  induction via generalizing e with
  | nil => rfl
  | cons p rest ih => exact ih _

/-- The line that a place is at: for a file, the one that includes it. -/
def Visit.place? : Visit → Option Physical
  | .file via _ => via.head?
  | .line _ p => some p

/-- The files that are being read at a place. -/
def Visit.beingRead : Visit → List Text
  | .file via _ => via.map Physical.file
  | .line via p => p.file :: via.map Physical.file

/-- The line that a place is at includes the file of the place, or nothing. -/
def Visit.Follows : Visit → Prop
  | .file via name => ∀ p, via.head? = some p → p.target? = some name
  | .line _ p => p.target? = none

theorem follows_of_mem_walk (files : Files) (via : List Physical) (name : Text)
    (hfollows : (Visit.file via name).Follows) : ∀ v ∈ walk files via name, v.Follows := by
  by_cases hn : name ∈ via.map Physical.file
  · rw [walk_of_mem hn]
    simpa using hfollows
  by_cases htext : ∃ content, files.get? name = some (.text content)
  · obtain ⟨content, h⟩ := htext
    have hless := Files.unopened_cons_lt h hn
    rw [walk_of_text hn h]
    intro v hv
    rcases List.mem_cons.1 hv with rfl | hv
    · exact hfollows
    obtain ⟨⟨raw, number⟩, _, hv⟩ := List.mem_flatMap.1 hv
    unfold walkLine at hv
    split at hv
    · rename_i target htarget
      apply follows_of_mem_walk files _ target _ v hv
      intro p hp
      cases hp
      exact htarget
    · rename_i htarget
      cases List.mem_singleton.1 hv
      exact htarget
  · rw [walk_of_not_text hn (fun content h => htext ⟨content, h⟩)]
    simpa using hfollows
termination_by files.unopened (via.map Physical.file)

/-- The line of the place includes a file while it is still being read. -/
def Visit.Reenters (visit : Visit) (f : Text) : Prop :=
  ∃ p, visit.place? = some p ∧ p.target? = some f ∧ f ∈ visit.beingRead

theorem Visit.reenters_file_iff (hfollows : (Visit.file via name).Follows) (f : Text) :
    (Visit.file via name).Reenters f ↔ f = name ∧ name ∈ via.map Physical.file := by
  constructor
  · rintro ⟨p, hplace, htarget, hmem⟩
    cases htarget.symm.trans (hfollows p hplace)
    exact ⟨rfl, hmem⟩
  · rintro ⟨rfl, hmem⟩
    cases via with
    | nil => cases hmem
    | cons p rest => exact ⟨p, rfl, hfollows p rfl, hmem⟩

theorem Visit.not_reenters_line {p : Physical} (hfollows : (Visit.line via p).Follows) (f : Text) :
    ¬ (Visit.line via p).Reenters f := by
  rintro ⟨q, hplace, htarget, _⟩
  cases hplace
  cases htarget.symm.trans hfollows

/-- An include is circular exactly if its line includes a file that is being read. -/
theorem Visit.Fails.root_circular_iff (h : visit.Fails settings e) (hfollows : visit.Follows)
    (f : Text) : e.root = .circular f ↔ visit.Reenters f := by
  cases h with
  | circular h =>
    rw [root_locatedVia, Visit.reenters_file_iff hfollows]
    simp [Error.root, h, eq_comm]
  | unopened hn _ =>
    rw [root_locatedVia, Visit.reenters_file_iff hfollows]
    simp [Error.root, hn]
  | broken hn _ =>
    rw [root_locatedVia, Visit.reenters_file_iff hfollows]
    simp [Error.root, hn]
  | tooLong _ =>
    rw [root_locatedVia]
    simp [Error.root, Visit.not_reenters_line hfollows]
  | inline _ _ =>
    rw [root_locatedVia]
    simp [Error.root, Visit.not_reenters_line hfollows]
  | parse _ _ _ =>
    rw [root_locatedVia]
    simp [Error.root, Visit.not_reenters_line hfollows]

/-! ## Going the way -/

/-- What going a way gives: the lines of its places in order, or the error of the
first place that is not sound. -/
inductive Goes (settings : Settings) : List Visit → Except Error (List Line) → Prop
  | done : Goes settings [] (.ok [])
  | file {via : List Physical} {name : Text} {rest : List Visit} {r : Except Error (List Line)}
    (h : (Visit.file via name).Sound settings) (hrest : Goes settings rest r) :
    Goes settings (.file via name :: rest) r
  | line {via : List Physical} {p : Physical} {line : Line} {rest : List Visit}
    {r : Except Error (List Line)} (h : p.Reads settings line) (hrest : Goes settings rest r) :
    Goes settings (.line via p :: rest) (r.map (line :: ·))
  | stop {visit : Visit} {e : Error} (h : visit.Fails settings e) (rest : List Visit) :
    Goes settings (visit :: rest) (.error e)

variable {front back visits : List Visit} {lines : List Line} {r s : Except Error (List Line)}

/-- A way is gone on from its end if it succeeds. -/
theorem Goes.append (hfront : Goes settings front r) (hback : Goes settings back s) :
    Goes settings (front ++ back) (r >>= fun first => s.map (first ++ ·)) := by
  induction hfront with
  | done =>
    have : s.map ([] ++ ·) = s := by cases s <;> rfl
    change Goes settings back (s.map ([] ++ ·))
    rw [this]
    exact hback
  | file h _ ih => exact .file h ih
  | @line via p line rest r h _ ih =>
    have : (r.map (line :: ·) >>= fun first => s.map (first ++ ·)) =
        (r >>= fun first => s.map (first ++ ·)).map (line :: ·) := by
      cases r <;> cases s <;> rfl
    rw [this]
    exact .line h ih
  | stop h rest => exact .stop h _

/-- The physical line that is read at a place. -/
def Visit.line? : Visit → Option Physical
  | .file _ _ => none
  | .line _ p => some p

theorem Goes.ok (h : Goes settings visits (.ok lines)) :
    (∀ visit ∈ visits, visit.Sound settings) ∧
      List.Forall₂ (Physical.Reads settings) (visits.filterMap Visit.line?) lines := by
  generalize hx : Except.ok lines = x at h
  induction h generalizing lines with
  | done =>
    cases hx
    simp
  | file h _ ih =>
    obtain ⟨hsound, hlines⟩ := ih hx
    exact ⟨by simpa using ⟨h, hsound⟩, hlines⟩
  | @line via p line rest x' h _ ih =>
    cases x' with
    | error e => cases hx
    | ok lines' =>
      cases hx
      obtain ⟨hsound, hlines⟩ := ih rfl
      exact ⟨by simpa using ⟨⟨line, h⟩, hsound⟩, .cons h hlines⟩
  | stop h rest => cases hx

theorem Goes.error (h : Goes settings visits (.error e)) :
    ∃ front visit back, visits = front ++ visit :: back ∧
      (∀ v ∈ front, v.Sound settings) ∧ visit.Fails settings e := by
  generalize hx : Except.error e = x at h
  induction h with
  | done => cases hx
  | @file via name rest x' h _ ih =>
    obtain ⟨front, visit, back, rfl, hfront, hfails⟩ := ih hx
    exact ⟨.file via name :: front, visit, back, rfl, by simpa using ⟨h, hfront⟩, hfails⟩
  | @line via p line rest x' h _ ih =>
    cases x' with
    | ok lines' => cases hx
    | error e' =>
      cases hx
      obtain ⟨front, visit, back, rfl, hfront, hfails⟩ := ih rfl
      exact ⟨.line via p :: front, visit, back, rfl, by simpa using ⟨⟨line, h⟩, hfront⟩, hfails⟩
  | stop h rest =>
    cases hx
    exact ⟨[], _, rest, rfl, by simp, h⟩

theorem Goes.ok_iff (h : Goes settings visits r) :
    (∃ lines, r = .ok lines) ↔ ∀ visit ∈ visits, visit.Sound settings := by
  constructor
  · rintro ⟨lines, rfl⟩
    exact h.ok.1
  · intro hsound
    cases r with
    | ok lines => exact ⟨lines, rfl⟩
    | error e =>
      obtain ⟨front, visit, back, rfl, _, hfails⟩ := h.error
      exact absurd (hsound visit (by simp)) hfails.not_sound

/-! ## Reading goes the way -/

theorem number_of_parse {text : Text} {number : Int} {line : Line}
    (h : Line.parse text number = .ok line) : line.number = number := by
  unfold Line.parse at h
  split at h
  · cases h
  · obtain ⟨statements, _, h⟩ := Except.bind_eq_ok.1 h
    cases h
    rfl

/-- Reading a line that is short enough gives the line or the error of its place. -/
theorem readLine_cases (settings : Settings) {p : Physical}
    (hshort : p.raw.length < lineLimit) :
    (∃ line, readLine settings p.file p.number p.text = .ok line ∧ p.Reads settings line) ∨
      ∃ e, readLine settings p.file p.number p.text = .error e ∧
        ∀ via, (Visit.line via p).Fails settings (locatedVia via e) := by
  unfold readLine
  cases hexpand : Inline.expand settings.evaluate p.number p.text with
  | error e => exact .inr ⟨_, rfl, fun via => .inline hshort hexpand⟩
  | ok expanded =>
    cases hparse : Line.parse expanded p.number with
    | error e => exact .inr ⟨_, by simp [hparse], fun via => .parse hshort hexpand hparse⟩
    | ok parsed =>
      have hnumber := number_of_parse hparse
      refine .inl ⟨{ parsed with file := p.file, text := p.text }, by simp [hparse], ?_⟩
      exact ⟨hshort, rfl, hnumber, rfl, expanded, parsed, hexpand, hparse, rfl, rfl⟩

/-- What a line that is short enough stands for. -/
def standsFor (settings : Settings) (being : List Text) (file : Text) (number : Int)
    (text : Text) : Except Error (List Line) :=
  match Line.includedFile? text with
  | some target =>
    (readFile settings being (Path.relativeTo file target)).lines.mapError
      (.located file number text)
  | none => (readLine settings file number text).map fun line => [line]

theorem readLines_cons (being : List Text) (file : Text) (tooLong : Bool) (number : Int)
    (text : Text) (rest : List Text) :
    (readLines settings being file tooLong number (text :: rest)).lines =
      standsFor settings being file number text >>= fun first =>
        (readLines settings being file tooLong (number + 1) rest).lines.map (first ++ ·) := by
  rw [readLines]
  unfold standsFor
  cases Line.includedFile? text with
  | some target =>
    dsimp only
    cases (readFile settings being (Path.relativeTo file target)).lines <;> rfl
  | none =>
    dsimp only
    cases readLine settings file number text <;> rfl

/-- What reading one physical line gives. -/
def readRaw (settings : Settings) (being : List Text) (file : Text) (number : Int)
    (raw : Text) : Except Error (List Line) :=
  if raw.length < lineLimit then standsFor settings being file number (dropReturn raw)
  else .error (.unreadable file (.system (ascii "bufio.Scanner: token too long")))

/-- What reading the physical lines of a file gives from a line number on. -/
def readRaws (settings : Settings) (being : List Text) (file : Text) (number : Int)
    (raws : List Text) : Except Error (List Line) :=
  let short := raws.takeWhile fun raw => raw.length < lineLimit
  (readLines settings being file (short.length != raws.length) number
    (short.map dropReturn)).lines

theorem readRaws_nil (being : List Text) (file : Text) (number : Int) :
    readRaws settings being file number [] = .ok [] := by
  unfold readRaws
  dsimp only [List.takeWhile_nil, List.map_nil]
  rw [readLines.eq_def]
  rfl

theorem readRaws_cons (being : List Text) (file : Text) (number : Int) (raw : Text)
    (rest : List Text) :
    readRaws settings being file number (raw :: rest) =
      readRaw settings being file number raw >>= fun first =>
        (readRaws settings being file (number + 1) rest).map (first ++ ·) := by
  unfold readRaws readRaw
  by_cases hshort : raw.length < lineLimit
  · simp [hshort, readLines_cons]
  · simp only [hshort, decide_false, Bool.false_eq_true, not_false_eq_true,
      List.takeWhile_cons_of_neg, List.map_nil, if_false]
    rw [readLines.eq_def]
    rfl

theorem readRaws_append (being : List Text) (file : Text) (number : Int)
    (front back : List Text) :
    readRaws settings being file number (front ++ back) =
      readRaws settings being file number front >>= fun first =>
        (readRaws settings being file (number + front.length) back).map (first ++ ·) := by
  induction front generalizing number with
  | nil =>
    rw [readRaws_nil, List.nil_append, List.length_nil, Int.natCast_zero, Int.add_zero]
    cases readRaws settings being file number back <;> rfl
  | cons raw front ih =>
    have hnumber : number + (raw :: front).length = number + 1 + front.length := by
      rw [List.length_cons]
      omega
    rw [List.cons_append, readRaws_cons, readRaws_cons, ih, hnumber]
    cases readRaw settings being file number raw with
    | error e => rfl
    | ok first =>
      cases readRaws settings being file (number + 1) front with
      | error e => rfl
      | ok lines =>
        cases readRaws settings being file (number + 1 + front.length) back with
        | error e => rfl
        | ok rest => simp [bind, Except.bind, Except.map]

theorem lines_followedBy_nil (opened : List Text) (next : Reading) :
    (next.followedBy [] opened).lines = next.lines := by
  unfold Reading.followedBy
  cases next.lines <;> rfl

/-- What reading a file gives, as it is told for the lines that lead to it. -/
def told (settings : Settings) (via : List Physical) (name : Text) : Except Error (List Line) :=
  (readFile settings (via.map Physical.file) name).lines.mapError (locatedVia via)

/-- What reading one physical line gives, as it is told. -/
def toldLine (settings : Settings) (via : List Physical) (p : Physical) :
    Except Error (List Line) :=
  (readRaw settings (p.file :: via.map Physical.file) p.file p.number p.raw).mapError
    (locatedVia via)

/-- What reading the physical lines of a file gives from a line number on, as it is
told. -/
def toldLines (settings : Settings) (via : List Physical) (file : Text) (n : Nat)
    (raws : List Text) : Except Error (List Line) :=
  (readRaws settings (file :: via.map Physical.file) file n raws).mapError (locatedVia via)

theorem toldLines_nil (via : List Physical) (file : Text) (n : Nat) :
    toldLines settings via file n [] = .ok [] := by
  unfold toldLines
  rw [readRaws_nil]
  rfl

theorem toldLines_cons (via : List Physical) (file : Text) (n : Nat) (raw : Text)
    (rest : List Text) :
    toldLines settings via file n (raw :: rest) =
      toldLine settings via { file, number := n, raw } >>= fun first =>
        (toldLines settings via file (n + 1) rest).map (first ++ ·) := by
  unfold toldLines toldLine
  rw [readRaws_cons, Except.mapError_bind]
  simp only [Except.mapError_map]
  rfl

theorem told_eq {content : Text} (hn : name ∉ via.map Physical.file)
    (h : settings.files.get? name = some (.text content)) :
    told settings via name = toldLines settings via name 1 (rawLines content) := by
  unfold told
  rw [readFile_of_get? hn h, lines_followedBy_nil]
  rfl

/-- Reading a line goes the way from it if reading the file that it includes does. -/
theorem goes_line {p : Physical}
    (hfile : ∀ target,
      Goes settings (walk settings.files (p :: via) target) (told settings (p :: via) target)) :
    Goes settings (walkLine settings.files via p) (toldLine settings via p) := by
  have htext : dropReturn p.raw = p.text := rfl
  unfold walkLine toldLine readRaw Physical.target?
  rw [htext]
  by_cases hshort : p.raw.length < lineLimit
  · rw [if_pos hshort, if_pos hshort]
    unfold standsFor
    cases Line.includedFile? p.text with
    | some target =>
      have h := hfile (Path.relativeTo p.file target)
      unfold told at h
      rw [List.map_cons] at h
      dsimp only [Option.map_some]
      -- An error in the file is told for this line first, and then for those that lead here.
      cases hlines : (readFile settings (p.file :: via.map Physical.file)
        (Path.relativeTo p.file target)).lines <;> rwa [hlines] at h
    | none =>
      dsimp only [Option.map_none]
      rcases readLine_cases settings hshort with ⟨line, hline, hreads⟩ | ⟨e, he, hfails⟩
      · rw [hline]
        exact .line hreads .done
      · rw [he]
        exact .stop (hfails via) []
  · rw [if_neg hshort, if_neg hshort]
    exact .stop (.tooLong (Nat.le_of_not_lt hshort)) []

/-- Reading the lines of a file goes the way through them if reading the files that
they include does. -/
theorem goes_lines {file : Text}
    (hfile : ∀ p target, p.file = file →
      Goes settings (walk settings.files (p :: via) target) (told settings (p :: via) target))
    (raws : List Text) (n : Nat) :
    Goes settings
      ((raws.zipIdx n).flatMap fun x =>
        walkLine settings.files via { file, number := x.2, raw := x.1 })
      (toldLines settings via file n raws) := by
  induction raws generalizing n with
  | nil =>
    rw [toldLines_nil]
    exact .done
  | cons raw rest ih =>
    rw [List.zipIdx_cons, List.flatMap_cons, toldLines_cons]
    exact (goes_line fun target => hfile _ target rfl).append (ih (n + 1))

/-- Reading a file goes the way through it. -/
theorem goes_file (settings : Settings) (via : List Physical) (name : Text) :
    Goes settings (walk settings.files via name) (told settings via name) := by
  by_cases hn : name ∈ via.map Physical.file
  · rw [walk_of_mem hn]
    unfold told
    rw [readFile_of_mem hn]
    exact .stop (.circular hn) []
  cases h : settings.files.get? name with
  | none =>
    rw [walk_of_not_text hn (by simp [h])]
    unfold told
    rw [readFile_of_get?_none hn h]
    exact .stop (.unopened hn h) []
  | some content =>
    cases content with
    | broken reason =>
      rw [walk_of_not_text hn (by simp [h])]
      unfold told
      rw [readFile_of_get? hn h]
      exact .stop (.broken hn h) []
    | text content =>
      -- Every line of the file leads on with one more file being read.
      have hless := Files.unopened_cons_lt h hn
      rw [walk_of_text hn h, told_eq hn h]
      apply Goes.file ⟨hn, content, h⟩
      apply goes_lines
      intro p target hp
      subst hp
      exact goes_file settings (p :: via) target
termination_by settings.files.unopened (via.map Physical.file)

theorem goes_read (settings : Settings) (name : Text) :
    Goes settings (walk settings.files [] name) (read settings name).lines := by
  have hnone (x : Except Error (List Line)) : x.mapError (locatedVia []) = x := by
    cases x <;> rfl
  have h := goes_file settings [] name
  unfold told at h
  rwa [hnone] at h

/-- Reading splices the included files. It succeeds exactly if every place on the
way through the files is sound: each file opens and is not being read yet, each
line that includes nothing is short enough and can be expanded and parsed. It
then gives one line for each of those lines, in order. Otherwise it stops at the
first place that is not sound with the error of that place, which is that of a
circular include exactly if the line there includes a file that is being read. -/
theorem reading_splices_included_files (settings : Settings) (name : Text) :
    ((∃ lines, (read settings name).lines = .ok lines) ↔
      ∀ visit ∈ walk settings.files [] name, visit.Sound settings) ∧
    (∀ lines, (read settings name).lines = .ok lines →
      List.Forall₂ (Physical.Reads settings)
        ((walk settings.files [] name).filterMap Visit.line?) lines) ∧
    ∀ e, (read settings name).lines = .error e →
      ∃ front visit back, walk settings.files [] name = front ++ visit :: back ∧
        (∀ v ∈ front, v.Sound settings) ∧ visit.Fails settings e ∧
        ∀ f, e.root = .circular f ↔ visit.Reenters f := by
  have hgoes := goes_read settings name
  refine ⟨hgoes.ok_iff, ?_, ?_⟩
  · intro lines h
    rw [h] at hgoes
    exact hgoes.ok.2
  · intro e h
    rw [h] at hgoes
    obtain ⟨front, visit, back, hvisits, hfront, hfails⟩ := hgoes.error
    have hmem : visit ∈ walk settings.files [] name := by simp [hvisits]
    have hfollows := follows_of_mem_walk settings.files [] name (by simp [Visit.Follows]) visit hmem
    exact ⟨front, visit, back, hvisits, hfront, hfails, hfails.root_circular_iff hfollows⟩

/-! ## A file that is included twice -/

/-- Whether reading goes on at a place. -/
def Visit.isSound (settings : Settings) : Visit → Bool
  | .file via name =>
    !(via.map Physical.file).contains name &&
      match settings.files.get? name with
      | some (.text _) => true
      | _ => false
  | .line _ p =>
    decide (p.raw.length < lineLimit) && (readLine settings p.file p.number p.text).isOk

theorem Visit.sound_of_isSound (h : visit.isSound settings = true) : visit.Sound settings := by
  cases visit with
  | file via name =>
    simp only [Visit.isSound, Bool.and_eq_true, Bool.not_eq_true', List.contains_eq_mem,
      decide_eq_false_iff_not] at h
    obtain ⟨hn, hget⟩ := h
    split at hget
    · rename_i content hcontent
      exact ⟨hn, content, hcontent⟩
    · cases hget
  | line via p =>
    simp only [Visit.isSound, Bool.and_eq_true, decide_eq_true_eq] at h
    rcases readLine_cases settings h.1 with ⟨line, _, hreads⟩ | ⟨e, he, _⟩
    · exact ⟨line, hreads⟩
    · rw [he] at h
      cases h.2

/-- `main` includes `part` on its lines 1 and 3, and line 2 is empty. -/
def twice : Settings where
  files :=
    { entries :=
        [(ascii "main", .text (ascii " +=\"part\"\n\n +=\"part\"\n")),
          (ascii "part", .text (ascii "x A=1\n"))]
      refusal := fun _ => [] }
  evaluate := Inline.evaluate .builtIn []

theorem twice_splices_part_twice :
    ∃ lines, (read twice (ascii "main")).lines = .ok lines ∧
      List.Forall₂ (Physical.Reads twice)
        [⟨ascii "part", 1, ascii "x A=1"⟩, ⟨ascii "main", 2, []⟩, ⟨ascii "part", 1, ascii "x A=1"⟩]
        lines := by
  obtain ⟨hok, hlines, _⟩ := reading_splices_included_files twice (ascii "main")
  have hsound : (walk twice.files [] (ascii "main")).all (Visit.isSound twice) = true := by
    decide +kernel
  have hphysical : (walk twice.files [] (ascii "main")).filterMap Visit.line? =
      [⟨ascii "part", 1, ascii "x A=1"⟩, ⟨ascii "main", 2, []⟩,
        ⟨ascii "part", 1, ascii "x A=1"⟩] := by decide +kernel
  obtain ⟨lines, h⟩ := hok.2 fun visit hmem =>
    Visit.sound_of_isSound (List.all_eq_true.1 hsound visit hmem)
  exact ⟨lines, h, hphysical ▸ hlines lines h⟩

end Source

end Asm6502
