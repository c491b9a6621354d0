-- Source lines: an optional label at the start, then statements with blanks
-- between them, then an optional comment behind `;;`.
import Asm6502.Statement

namespace Asm6502

structure Line where
  /-- The line number in its file. -/
  number : Int
  file : Text
  /-- The text of the line, for messages. -/
  text : Text
  /-- The label that the line defines; empty if it defines none. -/
  label : Text
  statements : List Statement
deriving DecidableEq, Repr

namespace Line

/-- The label and the statements, each behind a blank. -/
def render (line : Line) : Text :=
  line.label ++ line.statements.flatMap fun st => Ascii.space :: st.render

/-! ## Comments -/

/-- The text before `;;`, given whether it starts inside quotes. -/
def beforeComment (quoted : Bool) : Text → Text
  | [] => []
  | b :: rest =>
    if b == Ascii.quote then b :: beforeComment (!quoted) rest
    else if b == Ascii.semicolon && !quoted && rest.head? == some Ascii.semicolon then []
    else b :: beforeComment quoted rest

def stripComment (text : Text) : Text := beforeComment false text

/-! ## Words -/

/-- Takes one word off a text, given whether it starts inside quotes. Blanks
inside a pair of quotes belong to the word; a quote without a partner is an
ordinary byte. -/
def word (quoted : Bool) : Text → Text × Text
  | [] => ([], [])
  | b :: rest =>
    if isBlank b && !quoted then ([], b :: rest)
    else
      let inside := if b == Ascii.quote then !quoted && rest.contains Ascii.quote else quoted
      let next := word inside rest
      (b :: next.1, next.2)

theorem word_length (quoted : Bool) (t : Text) :
    (word quoted t).1.length + (word quoted t).2.length = t.length := by
  fun_induction word quoted t with
  | case1 => rfl
  | case2 => simp
  | case3 _ _ _ _ _ next ih =>
    change next.1.length + next.2.length = _ at ih
    simp only [List.length_cons]
    omega

theorem word_rest_lt {b : UInt8} (h : isBlank b = false) (rest : Text) :
    (word false (b :: rest)).2.length < (b :: rest).length := by
  have := word_length false (b :: rest)
  have : 0 < (word false (b :: rest)).1.length := by simp [word, h]
  omega

def words (t : Text) : List Text :=
  match h : t.dropWhile isBlank with
  | [] => []
  | b :: rest =>
    have : (word false (b :: rest)).2.length < t.length := by
      have hb : isBlank b = false := by
        have := List.head?_dropWhile_not isBlank t
        simpa [h] using this
      have := word_rest_lt hb rest
      have := (List.dropWhile_sublist isBlank (l := t)).length_le
      rw [h] at this
      omega
    let first := word false (b :: rest)
    first.1 :: words first.2
termination_by t.length

/-! ## Includes -/

/-- The file that a line `+="file"` behind leading blanks names. -/
def includedFile? (text : Text) : Option Text :=
  match text.dropWhile isBlank with
  | Ascii.plus :: Ascii.equals :: Ascii.quote :: rest =>
    let name := rest.takeWhile (· != Ascii.quote)
    match rest.dropWhile (· != Ascii.quote) with
    | _ :: after =>
      if text.head?.any isBlank && !name.isEmpty && after.all isBlank then some name else none
    | [] => none
  | _ => none

/-! ## Whole lines -/

def startsLabel (b : UInt8) : Bool := b == Ascii.dot || isLetter b

/-- Blanks, tabs and carriage returns at the end are dropped. -/
def trimEnd (t : Text) : Text :=
  (t.reverse.dropWhile fun b => b == Ascii.space || b == 0x09 || b == Ascii.carriageReturn).reverse

/-- Splits the label off the body of a line: blanks must follow it, and no
newline behind those. Nothing, if the line starts like a label and has no
such form. -/
def splitLabel? (body : Text) : Option (Text × Text) :=
  match body with
  | [] => some ([], [])
  | b :: rest =>
    if startsLabel b then
      let after := rest.dropWhile isWordByte
      if after.isEmpty ||
          (after.head?.any isBlank && !(after.dropWhile isBlank).contains Ascii.newline) then
        some (b :: rest.takeWhile isWordByte, after)
      else none
    else some ([], body)

def parse (text : Text) (number : Int) : Except LineError Line :=
  match splitLabel? (trimEnd (stripComment text)) with
  | none => .error (.badLine text)
  | some (label, body) => do
    let statements ← (words body).mapM Statement.parse
    return { number, file := [], text, label, statements }

end Line

end Asm6502
