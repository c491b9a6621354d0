-- Inline expressions: every `$(expression)` of a line is replaced by the hex
-- literal of its value before the line is read. An interpreter gives the values:
-- the expressions are written in the Starlark language.
import Asm6502.Inline.Interpreter
import Asm6502.Inline.Predefine

namespace Asm6502

namespace Inline

/-! ## Errors -/

inductive Fault where
  /-- The program fails. -/
  | program (complaint : Complaint)
  | notInteger
  | outOfRange
  /-- A predefined constant is no integer. -/
  | predefine (name value : Text)
deriving DecidableEq, Repr

def Fault.message : Fault → Text
  | .program complaint => complaint.text
  | .notInteger => ascii "not an integer"
  | .outOfRange => ascii "out of range $0000-$FFFF"
  | .predefine name value =>
    ascii "predefine " ++ name ++ ascii "=" ++ value ++ ascii " is not an integer"

/-! ## Values -/

/-- Constants as they are given: names with the text of their values, in the order
in which they are gone over. -/
abbrev Predefines := List (Text × Text)

/-- The values of the constants, or the first one that is no integer. -/
def bindings : Predefines → Except Fault (List (Text × Int))
  | [] => .ok []
  | (name, value) :: rest =>
    match Predefine.parse? value with
    | none => .error (.predefine name value)
    | some n => (bindings rest).map ((name, n) :: ·)

/-- The name that an expression's value is assigned to. -/
def resultName : Text := ascii "rc"

def lineName : Text := ascii "LINENO"

/-- The integers that an expression can name: the constants, and the number of its
line if no constant has that name. -/
def environment (given : List (Text × Int)) (line : Int) (name : Text) : Option Int :=
  (given ++ [(lineName, line)]).lookup name

def programOf (expression : Text) : Text :=
  resultName ++ Ascii.equals :: expression ++ [Ascii.newline]

/-- Gives the value of an expression on a line. -/
abbrev Evaluator := (line : Int) → (expression : Text) → Except Fault UInt16

/-- The value that an interpreter gives, which must be a word. -/
def evaluate (interpreter : Interpreter) (predefines : Predefines) : Evaluator :=
  fun line expression => do
    let given ← bindings predefines
    let found ← (interpreter.run (environment given line) (programOf expression)).mapError .program
    match found resultName with
    | some n => if 0 ≤ n ∧ n ≤ 0xFFFF then .ok (UInt16.ofNat n.toNat) else .error .outOfRange
    | none => .error .notInteger

/-- The literal of a word: two digits if they do, else four. -/
def literal (w : UInt16) : Text :=
  Ascii.dollar :: if w ≤ 0xFF then hexByte w.toUInt8 else hexWord w

/-! ## Pieces of a line -/

/-- A piece of a line: a byte of its text, or an inline expression. -/
inductive Piece where
  | byte (b : UInt8)
  | inline (expression : Text)
deriving DecidableEq, Repr

/-- The text before and behind the last closing bracket. -/
def splitLastParen? (t : Text) : Option (Text × Text) :=
  match t with
  | [] => none
  | b :: rest =>
    match splitLastParen? rest with
    | some (before, after) => some (b :: before, after)
    | none => if b == Ascii.rightParen then some ([], rest) else none

theorem splitLastParen?_length {t before after : Text}
    (h : splitLastParen? t = some (before, after)) :
    before.length + after.length + 1 = t.length := by
  induction t generalizing before after with
  | nil => simp [splitLastParen?] at h
  | cons b rest ih =>
    simp only [splitLastParen?] at h
    split at h
    · rename_i x y hxy
      obtain ⟨rfl, rfl⟩ := Prod.mk.inj (Option.some.inj h)
      have := ih hxy
      simp only [List.length_cons]
      omega
    · split at h
      · obtain ⟨rfl, rfl⟩ := Prod.mk.inj (Option.some.inj h)
        simp
      · simp at h

/-- The expression in front of a text behind `$(`: it runs to the last closing
bracket before the next `$`. Gives the expression and the text behind it. -/
def expression? (t : Text) : Option (Text × Text) :=
  (splitLastParen? (t.takeWhile (· != Ascii.dollar))).map fun (e, after) =>
    (e, after ++ t.dropWhile (· != Ascii.dollar))

theorem expression?_length {t e after : Text} (h : expression? t = some (e, after)) :
    after.length < t.length := by
  obtain ⟨⟨x, y⟩, hxy, he⟩ := Option.map_eq_some_iff.1 h
  obtain ⟨rfl, rfl⟩ := Prod.mk.inj he
  have h1 := splitLastParen?_length hxy
  have h2 := congrArg List.length
    (List.takeWhile_append_dropWhile (p := fun b : UInt8 => b != Ascii.dollar) (l := t))
  rw [List.length_append] at h2 ⊢
  omega

def pieces (t : Text) : List Piece :=
  match t with
  | [] => []
  | b :: rest =>
    if b == Ascii.dollar && rest.head? == some Ascii.leftParen then
      match h : expression? rest.tail with
      | some (e, after) =>
        have : after.length < rest.length + 1 := by
          have := expression?_length h
          rw [List.length_tail] at this
          omega
        .inline e :: pieces after
      | none => .byte b :: pieces rest
    else .byte b :: pieces rest
termination_by t.length

structure Error where
  expression : Text
  fault : Fault
deriving DecidableEq, Repr

def Error.message (e : Error) : Text :=
  ascii "$(" ++ e.expression ++ ascii "): " ++ e.fault.message

def Piece.expand (evaluate : Evaluator) (line : Int) : Piece → Except Error Text
  | .byte b => .ok [b]
  | .inline e =>
    match evaluate line e with
    | .ok w => .ok (literal w)
    | .error fault => .error ⟨e, fault⟩

/-- Joins the texts of all pieces; of several errors the last one counts. -/
def joinAll : List (Except Error Text) → Except Error Text
  | [] => .ok []
  | first :: rest =>
    match joinAll rest, first with
    | .error e, _ => .error e
    | .ok _, .error e => .error e
    | .ok after, .ok t => .ok (t ++ after)

def expand (evaluate : Evaluator) (line : Int) (t : Text) : Except Error Text :=
  joinAll ((pieces t).map (Piece.expand evaluate line))

end Inline

end Asm6502
