-- Control constructs as plain labels, compares and branches. An if
-- `;=X>10 A=1` runs the rest of its line only if the comparison holds, and a
-- loop `@ ... @=X>10` repeats while its comparison holds. The if becomes
--
--   #macro_0
--    T=X-10
--    ;=<,#macro_0.1
--    A=1
--   #macro_0.1
import Asm6502.Error
import Asm6502.Line
import Asm6502.Stack

namespace Asm6502

namespace Control

/-! ## Conditions -/

/-- The branch condition that holds where a comparison fails. -/
def inverted? : Operator → Option Text
  | .equal => some (ascii "\\")
  | .notEqual => some (ascii "=")
  | .greater => some (ascii "<")
  | .less => some (ascii ">")
  | _ => none

/-- A condition: the statement that compares, and the branch condition that
skips. -/
structure Condition where
  compare : Statement
  skip : Text
deriving DecidableEq, Repr

/-- The condition that a comparison stands for. -/
def Condition.of? : Expr → Option Condition
  | .binary left op right =>
    (inverted? op).map fun skip =>
      { compare := { command := .ident (ascii "T"), operand := .binary left .sub right }, skip }
  | _ => none

def branch (skip target : Text) : Statement :=
  { command := .system (ascii ";"), operand := .binary (.system skip) .comma (.ident target) }

def jump (target : Text) : Statement :=
  { command := .system (ascii "#"), operand := .ident target }

/-! ## Kinds of statements -/

/-- What a statement is to control flow. -/
inductive Kind where
  /-- The rest of the line depends on a condition. -/
  | choice (condition : Condition)
  /-- A loop starts. -/
  | opening
  /-- A loop ends; its operand should be a comparison. -/
  | closing (operand : Expr)
  | plain
deriving DecidableEq, Repr

def kind (st : Statement) : Kind :=
  if st.command = .system (ascii ";") then
    match Condition.of? st.operand with
    | some condition => .choice condition
    | none => .plain
  else if st.command = .system (ascii "@") then
    if st.operand.isEmpty then .opening else .closing st.operand
  else .plain

/-! ## Shorthand -/

/-- Whether a run of `+` and `-` steps what a command names: an index register
or memory. -/
def isStepped : Expr → Bool
  | .ident name => name == ascii "X" || name == ascii "Y"
  | .paren _ | .bracket _ | .binary .. => true
  | _ => false

/-- The statements that a plain statement stands for: `A=A+e` and `A=A-e` set
the carry first, and a run of signs steps once for each of them. -/
def shorthand (st : Statement) : List Statement :=
  match st.command, st.operand with
  | .ident name, .binary left op right =>
    if name = ascii "A" ∧ left = .ident (ascii "A") ∧ (op = .add ∨ op = .sub) then
      [{ command := .ident (ascii "C"), operand := .decimal (if op = .add then 0 else 1) },
        { command := .ident (ascii "A"), operand := .binary (.ident (ascii "AC")) op right }]
    else [st]
  | command, .system run =>
    if isStepped command && decide (1 < run.length) &&
        run.all (fun b => b == Ascii.plus || b == Ascii.minus) then
      List.replicate run.length { command, operand := .system (run.take 1) }
    else [st]
  | _, _ => [st]

/-! ## Expansion -/

/-- A loop that is still open: its label and the line that opened it. -/
structure Loop where
  label : Text
  line : Int
deriving DecidableEq, Repr

/-- The number of the next label, and the open loops. -/
structure State where
  counter : Nat := 0
  loops : Stack Loop := {}
deriving DecidableEq, Repr

def labelOf (number : Nat) : Text := Label.generatedStart ++ decimal number

/-- The label behind the construct of a label. -/
def trailer (label : Text) : Text := label ++ ascii ".1"

def labelled (line : Line) (label : Text) : Line := { line with label, statements := [] }

def single (line : Line) (st : Statement) : Line := { line with label := [], statements := [st] }

/-- The line of a label and the statements gathered for it, if there are any. -/
def flush (line : Line) (label : Text) (pending : List Statement) : List Line :=
  if pending.isEmpty && label.isEmpty then [] else [{ line with label, statements := pending }]

structure Expansion where
  state : State
  lines : Except Error (List Line)

def Expansion.after (lines : List Line) (e : Expansion) : Expansion :=
  { e with lines := e.lines.map (lines ++ ·) }

def Expansion.before (e : Expansion) (line : Line) : Expansion :=
  { e with lines := e.lines.map (· ++ [line]) }

/-- Expands the statements of a line. The label and the plain statements before
a construct stay on a line of their own. -/
def expandStatements (line : Line) (label : Text) (pending : List Statement) (state : State) :
    List Statement → Expansion
  | [] => { state, lines := .ok (flush line label pending) }
  | st :: rest =>
    match kind st with
    | .plain => expandStatements line label (pending ++ shorthand st) state rest
    | .choice condition =>
      let header := labelOf state.counter
      let inner := expandStatements line [] [] { state with counter := state.counter + 1 } rest
      (inner.before (labelled line (trailer header))).after
        (flush line label pending ++
          [labelled line header, single line condition.compare,
            single line (branch condition.skip (trailer header))])
    | .opening =>
      let header := labelOf state.counter
      let loops := state.loops.push { label := header, line := line.number }
      (expandStatements line [] [] { counter := state.counter + 1, loops } rest).after
        (flush line label pending ++ [labelled line header])
    | .closing operand =>
      match state.loops.pop? with
      | none => { state, lines := .error .unmatchedLoop }
      | some (loop, loops) =>
        let state := { state with loops }
        match Condition.of? operand with
        | none => { state, lines := .error (.badCondition operand.render) }
        | some condition =>
          (expandStatements line [] [] state rest).after
            (flush line label pending ++
              [single line condition.compare,
                single line (branch condition.skip (trailer loop.label)),
                single line (jump loop.label), labelled line (trailer loop.label)])

def expandLine (state : State) (line : Line) : Expansion :=
  let e := expandStatements line line.label [] state line.statements
  { e with lines := e.lines.mapError (.located line.file line.number line.text) }

def expandLines (state : State) : List Line → Expansion
  | [] => { state, lines := .ok [] }
  | line :: rest =>
    let first := expandLine state line
    match first.lines with
    | .error e => { state := first.state, lines := .error e }
    | .ok lines => (expandLines first.state rest).after lines

/-- Expands the lines of a source, at whose end no loop may be open. Loops that
an error leaves open stay open. -/
def expand (state : State) (lines : List Line) : Expansion :=
  let e := expandLines state lines
  match e.lines with
  | .error _ => e
  | .ok _ =>
    match e.state.loops.top? with
    | none => e
    | some loop =>
      { state := { e.state with loops := e.state.loops.clear }
        lines := .error (.unclosedLoop loop.label loop.line) }

def expandedMessage (line : Line) : Text := integer line.number ++ ascii ": " ++ line.render

/-- The messages of an expansion; one that fails has none. -/
def Expansion.messages (e : Expansion) : List Text :=
  match e.lines with
  | .ok lines => lines.map expandedMessage
  | .error _ => []

end Control

end Asm6502
