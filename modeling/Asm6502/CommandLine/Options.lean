-- Flags and positional arguments. A flag starts with one or two dashes and may
-- stand anywhere; behind `--` one argument is positional whatever it looks like.
import Asm6502.Inline
import Asm6502.Text.Quoted

namespace Asm6502

namespace CommandLine

/-! ## Options -/

structure Options where
  intelHex : Bool := false
  c64 : Bool := false
  verbose : Bool := false
  /-- The name of the label listing; the empty name asks for none. -/
  labels : Text := ascii "labels.txt"
  predefines : Inline.Predefines := []
  language : Text := []
deriving DecidableEq, Repr

/-- The flags that are on or off. -/
inductive Switch where
  | intelHex
  | c64
  | verbose
deriving DecidableEq, Repr

/-- The flags that take a value. -/
inductive Setting where
  | labels
  | predefine
  | language
deriving DecidableEq, Repr

inductive Flag where
  | switch (which : Switch)
  | setting (which : Setting)
deriving DecidableEq, Repr

def flags : List (Text × Flag) :=
  [(ascii "D", .setting .predefine), (ascii "c64", .switch .c64),
    (ascii "ihex", .switch .intelHex), (ascii "labels", .setting .labels),
    (ascii "lang", .setting .language), (ascii "v", .switch .verbose)]

/-! ## Errors -/

inductive FlagError where
  | malformed (argument : Text)
  | unknown (name : Text)
  | valueMissing (name : Text)
  | notBoolean (name value : Text)
  | notDefinition (name value : Text)
deriving DecidableEq, Repr

def FlagError.message : FlagError → Text
  | .malformed argument => ascii "bad flag syntax: " ++ argument
  | .unknown name => ascii "flag provided but not defined: -" ++ name
  | .valueMissing name => ascii "flag needs an argument: -" ++ name
  | .notBoolean name value =>
    ascii "invalid boolean value " ++ Quoted.render value ++ ascii " for -" ++ name ++
      ascii ": parse error"
  | .notDefinition name value =>
    ascii "invalid value " ++ Quoted.render value ++ ascii " for flag -" ++ name ++ ascii ": '" ++
      value ++ ascii "' is not NAME=VALUE"

/-- Why the arguments ask for no work. -/
inductive Stop where
  | help
  | badFlag (error : FlagError)
deriving DecidableEq, Repr

/-! ## Values -/

def boolean? (value : Text) : Option Bool :=
  if ["1", "t", "T", "true", "TRUE", "True"].any (ascii · == value) then some true
  else if ["0", "f", "F", "false", "FALSE", "False"].any (ascii · == value) then some false
  else none

/-- The parts of a text before and behind its first `=`. -/
def cut? (t : Text) : Option (Text × Text) :=
  match t.dropWhile (· != Ascii.equals) with
  | [] => none
  | _ :: value => some (t.takeWhile (· != Ascii.equals), value)

namespace Options

def turn (options : Options) : Switch → Bool → Options
  | .intelHex, on => { options with intelHex := on }
  | .c64, on => { options with c64 := on }
  | .verbose, on => { options with verbose := on }

/-- Defines a constant; an earlier definition of the name is forgotten. -/
def define (options : Options) (name value : Text) : Options :=
  { options with predefines := options.predefines.filter (·.1 != name) ++ [(name, value)] }

def set (options : Options) (flag : Text) (value : Text) : Setting → Except FlagError Options
  | .labels => .ok { options with labels := value }
  | .language => .ok { options with language := value }
  | .predefine =>
    match cut? value with
    | some (name@(_ :: _), given) => .ok (options.define name given)
    | _ => .error (.notDefinition flag value)

end Options

/-! ## Arguments -/

inductive Shape where
  | positional
  /-- The two dashes that make the next argument positional. -/
  | terminator
  | malformed
  | flag (name : Text) (value : Option Text)
deriving DecidableEq, Repr

/-- A flag's name and the value given with it. The name has one byte at least,
which may not be a dash or `=`. -/
def Shape.ofBody : Text → Shape
  | [] => .malformed
  | b :: rest =>
    if b = Ascii.minus ∨ b = Ascii.equals then .malformed
    else
      match cut? rest with
      | none => .flag (b :: rest) none
      | some (name, value) => .flag (b :: name) (some value)

/-- What an argument looks like. A lone dash is positional. -/
def Shape.of (argument : Text) : Shape :=
  match argument with
  | first :: second :: rest =>
    if first ≠ Ascii.minus then .positional
    else if second ≠ Ascii.minus then .ofBody (second :: rest)
    else if rest.isEmpty then .terminator
    else .ofBody rest
  | _ => .positional

structure Arguments where
  options : Options
  positional : List Text
deriving DecidableEq, Repr

def Arguments.with (argument : Text) (a : Arguments) : Arguments :=
  { a with positional := argument :: a.positional }

/-- Whether a name that is no flag asks for help. -/
def isHelp (name : Text) : Bool := name == ascii "help" || name == ascii "h"

/-- Reads the flags in front of arguments on top of the options so far, and gives
what is left: the first argument that is no flag and all behind it. The
terminator is dropped. -/
def leadingFlags (options : Options) : List Text → Except Stop (Options × List Text)
  | [] => .ok (options, [])
  | argument :: rest =>
    match Shape.of argument with
    | .positional => .ok (options, argument :: rest)
    | .malformed => .error (.badFlag (.malformed argument))
    | .terminator => .ok (options, rest)
    | .flag name value =>
      match flags.lookup name, value with
      | none, _ => .error (if isHelp name then .help else .badFlag (.unknown name))
      | some (.switch which), none => leadingFlags (options.turn which true) rest
      | some (.switch which), some value =>
        match boolean? value with
        | some on => leadingFlags (options.turn which on) rest
        | none => .error (.badFlag (.notBoolean name value))
      | some (.setting which), some value =>
        match options.set name value which with
        | .ok options => leadingFlags options rest
        | .error e => .error (.badFlag e)
      | some (.setting which), none =>
        match rest with
        | [] => .error (.badFlag (.valueMissing name))
        | value :: rest =>
          match options.set name value which with
          | .ok options => leadingFlags options rest
          | .error e => .error (.badFlag e)

theorem leadingFlags_length {before after : Options} {arguments left : List Text}
    (h : leadingFlags before arguments = .ok (after, left)) : left.length ≤ arguments.length := by
  fun_induction leadingFlags before arguments <;> grind

/-- Reads arguments on top of the options so far: flags, a positional argument,
and so on behind it. -/
def parse (options : Options) (arguments : List Text) : Except Stop Arguments :=
  match h : leadingFlags options arguments with
  | .error stop => .error stop
  | .ok (options, []) => .ok { options, positional := [] }
  | .ok (options, argument :: rest) =>
    have : rest.length < arguments.length := leadingFlags_length h
    (parse options rest).map (.with argument)
termination_by arguments.length

end CommandLine

end Asm6502
