-- Flags among positional arguments. The flags in front of arguments are read up to
-- the first that is none, and reading starts again behind it on top of the options so
-- far. Law: however flags and positional arguments are mixed, the positional ones
-- come out in their order, and the options are those of the flags alone, where the
-- last word on a flag counts.
import Asm6502.CommandLine.Options
import Mathlib.Data.List.TakeWhile

namespace Asm6502

namespace CommandLine

/-! ## Groups of arguments that make a flag -/

inductive Dashes where
  | one
  | two
deriving DecidableEq, Repr

def Dashes.text : Dashes → Text
  | .one => [Ascii.minus]
  | .two => [Ascii.minus, Ascii.minus]

def Switch.name : Switch → Text
  | .intelHex => ascii "ihex"
  | .c64 => ascii "c64"
  | .verbose => ascii "v"

def Setting.name : Setting → Text
  | .labels => ascii "labels"
  | .predefine => ascii "D"
  | .language => ascii "lang"

/-- The ways to write a truth value. -/
def spellings : Bool → List Text
  | true => ["1", "t", "T", "TRUE", "true", "True"].map ascii
  | false => ["0", "f", "F", "FALSE", "false", "False"].map ascii

/-- A definition `name=value`. The name is not empty, and the first `=` ends it. -/
structure Definition where
  name : Text
  value : Text
  named : name ≠ []
  undivided : Ascii.equals ∉ name

def Definition.text (d : Definition) : Text := d.name ++ Ascii.equals :: d.value

/-- What a flag that takes a value may be given: any name of a listing, any
language, or a definition. -/
inductive Given where
  | labels (file : Text)
  | language (tag : Text)
  | definition (d : Definition)

namespace Given

def setting : Given → Setting
  | .labels _ => .labels
  | .language _ => .language
  | .definition _ => .predefine

def text : Given → Text
  | .labels file => file
  | .language tag => tag
  | .definition d => d.text

end Given

/-- A flag with the value that it is given, if any. -/
inductive Group where
  /-- A switch by its name alone, `-b`. -/
  | bare (dashes : Dashes) (which : Switch)
  /-- A switch with a truth value, `-b=true`. -/
  | valued (dashes : Dashes) (which : Switch) (on : Bool) (spelling : Text)
      (spelled : spelling ∈ spellings on)
  /-- A flag and its value in one argument, `-x=value`. -/
  | joined (dashes : Dashes) (given : Given)
  /-- A flag and its value in two arguments, `-x value`. The value may look like
  anything, also like a flag. -/
  | parted (dashes : Dashes) (given : Given)

/-- The arguments that a group is written in. -/
def Group.arguments : Group → List Text
  | .bare dashes which => [dashes.text ++ which.name]
  | .valued dashes which _ spelling _ => [dashes.text ++ (which.name ++ Ascii.equals :: spelling)]
  | .joined dashes given =>
    [dashes.text ++ (given.setting.name ++ Ascii.equals :: given.text)]
  | .parted dashes given => [dashes.text ++ given.setting.name, given.text]

/-- An argument that is no flag: a lone dash, or one that does not start with a dash. -/
structure Positional where
  text : Text
  plain : text = [Ascii.minus] ∨ text.head? ≠ some Ascii.minus

/-- The arguments mix groups and positional arguments, and keep the order of both. -/
inductive Interleaves : List Group → List Positional → List Text → Prop
  | nil : Interleaves [] [] []
  | group (g : Group) {groups : List Group} {positional : List Positional}
      {arguments : List Text} (rest : Interleaves groups positional arguments) :
      Interleaves (g :: groups) positional (g.arguments ++ arguments)
  | positional (p : Positional) {groups : List Group} {positional : List Positional}
      {arguments : List Text} (rest : Interleaves groups positional arguments) :
      Interleaves groups (p :: positional) (p.text :: arguments)

theorem interleaves_groups (groups : List Group) :
    Interleaves groups [] (groups.flatMap Group.arguments) := by
  induction groups with
  | nil => exact .nil
  | cons g groups ih => exact .group g ih

/-! ## What groups say -/

namespace Group

/-- What a group says of a switch. -/
def turns (which : Switch) : Group → Option Bool
  | .bare _ other => if other = which then some true else none
  | .valued _ other on _ _ => if other = which then some on else none
  | _ => none

def given? : Group → Option Given
  | .joined _ given | .parted _ given => some given
  | _ => none

/-- The name that a group gives the label listing. -/
def labels? (g : Group) : Option Text :=
  match g.given? with
  | some (.labels file) => some file
  | _ => none

def language? (g : Group) : Option Text :=
  match g.given? with
  | some (.language tag) => some tag
  | _ => none

/-- The value that a group defines a name as. -/
def defines (name : Text) (g : Group) : Option Text :=
  match g.given? with
  | some (.definition d) => if d.name = name then some d.value else none
  | _ => none

end Group

/-- What is said last. -/
def lastSaid {α : Type} (said : Group → Option α) (groups : List Group) : Option α :=
  groups.reverse.findSome? said

def Options.isOn (options : Options) : Switch → Bool
  | .intelHex => options.intelHex
  | .c64 => options.c64
  | .verbose => options.verbose

/-- The options that groups ask for on top of others. Each flag has the value that it
is given last, and each name the value that it is defined as last; what no group
mentions is as before. -/
structure Follows (before : Options) (groups : List Group) (after : Options) : Prop where
  switches : ∀ which, after.isOn which =
    (lastSaid (Group.turns which) groups).getD (before.isOn which)
  labels : after.labels = (lastSaid Group.labels? groups).getD before.labels
  language : after.language = (lastSaid Group.language? groups).getD before.language
  predefines : ∀ name, after.predefines.lookup name =
    (lastSaid (Group.defines name) groups).or (before.predefines.lookup name)

/-! ## Options behind groups -/

namespace Options

/-- The options with a value taken over. -/
def take (options : Options) : Given → Options
  | .labels file => { options with labels := file }
  | .language tag => { options with language := tag }
  | .definition d => options.define d.name d.value

/-- The options behind one group. -/
def follow (options : Options) : Group → Options
  | .bare _ which => options.turn which true
  | .valued _ which on _ _ => options.turn which on
  | .joined _ given | .parted _ given => options.take given

theorem isOn_turn (options : Options) (which other : Switch) (on : Bool) :
    (options.turn other on).isOn which = if other = which then on else options.isOn which := by
  cases other <;> cases which <;> rfl

theorem lookup_define (options : Options) (name value other : Text) :
    (options.define name value).predefines.lookup other =
      if name = other then some value else options.predefines.lookup other := by
  have hfilter : (options.predefines.filter (·.1 != name)).lookup other =
      if name = other then none else options.predefines.lookup other := by
    induction options.predefines with
    | nil => simp
    | cons entry rest ih =>
      rw [List.filter_cons]
      grind
  rw [define, List.lookup_append, hfilter]
  grind

/-- What every group leaves to the ones before it unless it says something, is what
was said last. -/
theorem foldl_follow {α : Type} (view : Options → Option α) {said : Group → Option α}
    (hstep : ∀ options g, view (follow options g) = (said g).or (view options))
    (groups : List Group) (options : Options) :
    view (groups.foldl follow options) = (lastSaid said groups).or (view options) := by
  induction groups generalizing options with
  | nil => rfl
  | cons g groups ih =>
    have hlast : lastSaid said (g :: groups) = (lastSaid said groups).or (said g) := by
      simp [lastSaid, List.findSome?_append]
    rw [List.foldl_cons, ih, hstep, hlast, Option.or_assoc]

theorem isOn_follow (which : Switch) (options : Options) (g : Group) :
    some ((options.follow g).isOn which) = (g.turns which).or (some (options.isOn which)) := by
  have htake (given : Given) : (options.take given).isOn which = options.isOn which := by
    cases given <;> cases which <;> rfl
  cases g with
  | bare | valued =>
    simp only [follow, Group.turns, isOn_turn]
    split <;> rfl
  | joined _ given | parted _ given => exact congrArg some (htake given)

theorem texts_follow (options : Options) (g : Group) :
    some (options.follow g).labels = g.labels?.or (some options.labels) ∧
      some (options.follow g).language = g.language?.or (some options.language) := by
  cases g with
  | bare _ which | valued _ which => cases which <;> exact ⟨rfl, rfl⟩
  | joined _ given | parted _ given => cases given <;> exact ⟨rfl, rfl⟩

theorem lookup_follow (name : Text) (options : Options) (g : Group) :
    (options.follow g).predefines.lookup name =
      (g.defines name).or (options.predefines.lookup name) := by
  have htake (given : Given) : (options.take given).predefines.lookup name =
      ((Group.joined .one given).defines name).or (options.predefines.lookup name) := by
    cases given with
    | labels | language => rfl
    | definition d =>
      simp only [take, Group.defines, Group.given?, lookup_define]
      split <;> rfl
  cases g with
  | bare _ which | valued _ which => cases which <;> rfl
  | joined _ given | parted _ given => exact htake given

theorem foldl_follows (before : Options) (groups : List Group) :
    Follows before groups (groups.foldl follow before) where
  switches which := by
    have h := foldl_follow (fun o => some (o.isOn which)) (isOn_follow which) groups before
    simpa [Option.or_some] using h
  labels := by
    have h := foldl_follow (some ·.labels) (fun o g => (texts_follow o g).1) groups before
    simpa [Option.or_some] using h
  language := by
    have h := foldl_follow (some ·.language) (fun o g => (texts_follow o g).2) groups before
    simpa [Option.or_some] using h
  predefines name := foldl_follow (·.predefines.lookup name) (lookup_follow name) groups before

end Options

/-! ## Reading one group -/

theorem bne_equals {t : Text} (h : Ascii.equals ∉ t) : ∀ b ∈ t, (b != Ascii.equals) = true :=
  fun b hb => by simpa using ne_of_mem_of_not_mem hb h

theorem cut?_append {name : Text} (h : Ascii.equals ∉ name) (value : Text) :
    cut? (name ++ Ascii.equals :: value) = some (name, value) := by
  simp [cut?, List.dropWhile_append_of_pos (bne_equals h),
    List.takeWhile_append_of_pos (bne_equals h)]

theorem cut?_eq_none {t : Text} (h : Ascii.equals ∉ t) : cut? t = none := by
  rw [cut?, List.dropWhile_eq_nil_iff.2 (bne_equals h)]

/-- A name that a flag can have: it does not start with a dash, and holds no `=`. -/
structure IsName (name : Text) : Prop where
  first : ∃ b rest, name = b :: rest ∧ b ≠ Ascii.minus
  undivided : Ascii.equals ∉ name

theorem Switch.isName (which : Switch) : IsName which.name := by
  cases which <;> exact ⟨⟨_, _, rfl, by decide⟩, by decide⟩

theorem Setting.isName (which : Setting) : IsName which.name := by
  cases which <;> exact ⟨⟨_, _, rfl, by decide⟩, by decide⟩

theorem lookup_switch (which : Switch) : flags.lookup which.name = some (.switch which) := by
  cases which <;> decide

theorem lookup_setting (which : Setting) : flags.lookup which.name = some (.setting which) := by
  cases which <;> decide

theorem boolean?_of_spelled {on : Bool} {spelling : Text} (h : spelling ∈ spellings on) :
    boolean? spelling = some on := by
  cases on <;> revert spelling <;> decide

namespace Shape

theorem of_dashed (dashes : Dashes) {b : UInt8} (hb : b ≠ Ascii.minus) (rest : Text) :
    Shape.of (dashes.text ++ b :: rest) = .ofBody (b :: rest) := by
  cases dashes with
  | one => simp [Dashes.text, Shape.of, hb]
  | two => simp [Dashes.text, Shape.of]

theorem of_bare (dashes : Dashes) {name : Text} (h : IsName name) :
    Shape.of (dashes.text ++ name) = .flag name none := by
  obtain ⟨⟨b, rest, rfl, hb⟩, hequals⟩ := h
  obtain ⟨hne, hrest⟩ := not_or.1 (mt List.mem_cons.2 hequals)
  rw [of_dashed dashes hb, ofBody, if_neg (not_or.2 ⟨hb, Ne.symm hne⟩), cut?_eq_none hrest]

theorem of_valued (dashes : Dashes) {name : Text} (h : IsName name) (value : Text) :
    Shape.of (dashes.text ++ (name ++ Ascii.equals :: value)) = .flag name (some value) := by
  obtain ⟨⟨b, rest, rfl, hb⟩, hequals⟩ := h
  obtain ⟨hne, hrest⟩ := not_or.1 (mt List.mem_cons.2 hequals)
  rw [List.cons_append, of_dashed dashes hb, ofBody, if_neg (not_or.2 ⟨hb, Ne.symm hne⟩),
    cut?_append hrest]

theorem of_positional (p : Positional) : Shape.of p.text = .positional := by
  rcases p.plain with hdash | hfirst
  · rw [hdash]
    rfl
  · unfold Shape.of
    split
    · rename_i first second rest htext
      rw [htext] at hfirst
      exact if_pos (by simpa using hfirst)
    · rfl

end Shape

theorem set_given (options : Options) (flag : Text) (given : Given) :
    options.set flag given.text given.setting = .ok (options.take given) := by
  cases given with
  | labels | language => rfl
  | definition d =>
    obtain ⟨name, value, hnamed, hundivided⟩ := d
    obtain ⟨b, rest, rfl⟩ := List.exists_cons_of_ne_nil hnamed
    have hcut := cut?_append hundivided value
    simp only [Options.set, Given.text, Given.setting, Definition.text, hcut, Options.take]

/-! ## Reading all arguments -/

theorem leadingFlags_group (options : Options) (g : Group) (rest : List Text) :
    leadingFlags options (g.arguments ++ rest) = leadingFlags (options.follow g) rest := by
  cases g with
  | bare dashes which =>
    simp [Group.arguments, leadingFlags, Shape.of_bare dashes which.isName, lookup_switch,
      Options.follow]
  | valued dashes which on spelling spelled =>
    simp [Group.arguments, leadingFlags, Shape.of_valued dashes which.isName, lookup_switch,
      boolean?_of_spelled spelled, Options.follow]
  | joined dashes given =>
    simp [Group.arguments, leadingFlags, Shape.of_valued dashes given.setting.isName,
      lookup_setting, set_given, Options.follow]
  | parted dashes given =>
    simp [Group.arguments, leadingFlags, Shape.of_bare dashes given.setting.isName,
      lookup_setting, set_given, Options.follow]

theorem leadingFlags_positional (options : Options) (p : Positional) (rest : List Text) :
    leadingFlags options (p.text :: rest) = .ok (options, p.text :: rest) := by
  rw [leadingFlags, Shape.of_positional]

/-- Goes on where the leading flags end. -/
def resume : Options × List Text → Except Stop Arguments
  | (options, []) => .ok { options, positional := [] }
  | (options, argument :: rest) => (parse options rest).map (.with argument)

theorem parse_eq_bind (options : Options) (arguments : List Text) :
    parse options arguments = leadingFlags options arguments >>= resume := by
  rw [parse]
  split
  · rename_i stop h
    simp [h, bind, Except.bind]
  · rename_i after h
    simp [h, bind, Except.bind, resume]
  · rename_i after argument rest h
    simp [h, bind, Except.bind, resume]

theorem parse_group (options : Options) (g : Group) (rest : List Text) :
    parse options (g.arguments ++ rest) = parse (options.follow g) rest := by
  rw [parse_eq_bind, leadingFlags_group, ← parse_eq_bind]

theorem parse_positional (options : Options) (p : Positional) (rest : List Text) :
    parse options (p.text :: rest) = (parse options rest).map (.with p.text) := by
  rw [parse_eq_bind, leadingFlags_positional]
  rfl

theorem parse_interleaving {groups : List Group} {positional : List Positional}
    {arguments : List Text} (h : Interleaves groups positional arguments) (before : Options) :
    parse before arguments =
      .ok { options := groups.foldl Options.follow before
            positional := positional.map Positional.text } := by
  induction h generalizing before with
  | nil => rw [parse_eq_bind]; rfl
  | group g rest ih => rw [parse_group, ih, List.foldl_cons]
  | positional p rest ih => rw [parse_positional, ih]; rfl

/-- Flags may stand anywhere. Arguments that mix groups and positional arguments are
read, and all mixtures give the same: the positional arguments, and the options
that the groups ask for when they stand alone. -/
theorem flags_may_stand_anywhere (before : Options) (groups : List Group)
    (positional : List Positional) :
    ∃ after, Follows before groups after ∧
      parse before (groups.flatMap Group.arguments) = .ok { options := after, positional := [] } ∧
      ∀ arguments, Interleaves groups positional arguments →
        parse before arguments =
          .ok { options := after, positional := positional.map Positional.text } :=
  ⟨groups.foldl Options.follow before, Options.foldl_follows before groups,
    parse_interleaving (interleaves_groups groups) before,
    fun _ h => parse_interleaving h before⟩

/-- Values that look like a flag or like the terminator are no positional arguments,
and a lone dash is one; a name has its last definition. -/
theorem mixed_arguments_are_read :
    ∃ after : Options,
      parse {} (["prog.s", "--ihex", "-D", "WIDTH=40", "-", "-labels", "--", "-ihex=f",
        "--D=WIDTH=8"].map ascii) =
          .ok { options := after, positional := [ascii "prog.s", ascii "-"] } ∧
        after.intelHex = false ∧ after.labels = ascii "--" ∧
        after.predefines.lookup (ascii "WIDTH") = some (ascii "8") := by
  have hmixed := Interleaves.positional ⟨ascii "prog.s", by decide⟩ <|
    .group (.bare .two .intelHex) <|
    .group (.parted .one (.definition ⟨ascii "WIDTH", ascii "40", by decide, by decide⟩)) <|
    .positional ⟨ascii "-", by decide⟩ <|
    .group (.parted .one (.labels (ascii "--"))) <|
    .group (.valued .one .intelHex false (ascii "f") (by decide)) <|
    .group (.joined .two (.definition ⟨ascii "WIDTH", ascii "8", by decide, by decide⟩)) .nil
  obtain ⟨after, hfollows, -, hread⟩ := flags_may_stand_anywhere {} _ _
  exact ⟨after, hread _ hmixed, hfollows.switches .intelHex, hfollows.labels,
    hfollows.predefines (ascii "WIDTH")⟩

end CommandLine

end Asm6502
