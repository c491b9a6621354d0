-- Statements: a command and its operand, written `command=operand`.
import Asm6502.Expr.Parse

namespace Asm6502

/-- A command with its operand; a bare command has the empty operand. -/
structure Statement where
  command : Expr
  operand : Expr
deriving DecidableEq, Repr

inductive LineError where
  | badToken (token : Text)
  | badLine (text : Text)
  | operand (error : Expr.ParseError)
deriving DecidableEq, Repr

def LineError.message : LineError → Text
  | .badToken token => ascii "bad token '" ++ token ++ ascii "'"
  | .badLine text => ascii "bad line '" ++ text ++ ascii "'"
  | .operand error => error.message

namespace Statement

def render (st : Statement) : Text :=
  if st.operand.isEmpty then st.command.render
  else st.command.render ++ Ascii.equals :: st.operand.render

/-- The two sides of the first `=`. Both must be there, and no newline may
stand behind it. -/
def sides? (token : Text) : Option (Text × Text) :=
  let command := token.takeWhile (· != Ascii.equals)
  match token.dropWhile (· != Ascii.equals) with
  | _ :: operand =>
    if command.isEmpty || operand.isEmpty || operand.contains Ascii.newline then none
    else some (command, operand)
  | [] => none

def ofSides (command operand : Text) : Except LineError Statement := do
  let command ← (Expr.parse command).mapError .operand
  let operand ← (Expr.parse operand).mapError .operand
  return { command, operand }

/-- Reads a token as a statement. A token without two sides must be a command
of one byte. -/
def parse (token : Text) : Except LineError Statement :=
  match sides? token with
  | some (command, operand) => ofSides command operand
  | none => if token.length = 1 then ofSides token [] else .error (.badToken token)

end Statement

end Asm6502
