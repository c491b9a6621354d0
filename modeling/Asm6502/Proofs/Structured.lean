-- Source lines as structured programs. An if holds the rest of its line, and a
-- loop holds what stands between `@` and the `@` with its condition, also over
-- several lines. If loops are balanced, there is such a reading of the lines,
-- and it tells the code that they are expanded to.
import Asm6502.Proofs.Machine

namespace Asm6502

namespace Control

/-! ## Comparisons -/

/-- A comparison of two expressions. -/
structure Comparison where
  left : Expr
  op : Operator
  right : Expr
  isComparison : op.isComparison = true
deriving DecidableEq, Repr

def Comparison.of? : Expr → Option Comparison
  | .binary left op right =>
    if h : op.isComparison = true then some ⟨left, op, right, h⟩ else none
  | _ => none

/-- The generated code that a comparison stands for. -/
def Comparison.condition (c : Comparison) : Condition :=
  { compare := comparing c.left c.right, skip := (inverted? c.op).getD [] }

theorem Condition.of?_eq (e : Expr) :
    Condition.of? e = (Comparison.of? e).map Comparison.condition := by
  cases e with
  | binary left op right => cases op <;> rfl
  | _ => rfl

end Control

open Control (Comparison)

/-- Whether a condition holds, as branches read its sign. -/
def MachineState.tests {ρ : Type} (s : MachineState ρ) (op : Operator) : Bool :=
  ((Decode.conditions.lookup op.render).map s.holds).getD false

/-- Compares the two sides of a comparison. -/
def Machine.decide {ρ : Type} (m : Machine ρ) (c : Comparison) (s : MachineState ρ) :
    MachineState ρ := m.compare c.left c.right s

/-! ## Structured programs -/

/-- A structured program. -/
inductive Block where
  | done
  | label (name : Text) (next : Block)
  | plain (st : Statement) (next : Block)
  /-- The body is run only if the comparison holds. -/
  | choice (c : Comparison) (body next : Block)
  /-- The body is run, and again as long as the comparison holds after it. -/
  | loop (body : Block) (c : Comparison) (next : Block)
deriving DecidableEq, Repr

/-- What a structured program does. -/
inductive Machine.Exec {ρ : Type} (m : Machine ρ) :
    Block → MachineState ρ → MachineState ρ → Prop
  | done (s : MachineState ρ) : Exec m .done s s
  | label {name : Text} {next : Block} {s t : MachineState ρ} (rest : Exec m next s t) :
      Exec m (.label name next) s t
  | plain {st : Statement} {next : Block} {s t : MachineState ρ}
      (rest : Exec m next (m.effects (Control.shorthand st) s) t) : Exec m (.plain st next) s t
  | chosen {c : Comparison} {body next : Block} {s t u : MachineState ρ}
      (holds : (m.decide c s).tests c.op = true) (inner : Exec m body (m.decide c s) t)
      (rest : Exec m next t u) : Exec m (.choice c body next) s u
  | skipped {c : Comparison} {body next : Block} {s t : MachineState ρ}
      (fails : (m.decide c s).tests c.op = false) (rest : Exec m next (m.decide c s) t) :
      Exec m (.choice c body next) s t
  | again {c : Comparison} {body next : Block} {s t u : MachineState ρ}
      (inner : Exec m body s t) (holds : (m.decide c t).tests c.op = true)
      (rest : Exec m (.loop body c next) (m.decide c t) u) : Exec m (.loop body c next) s u
  | left {c : Comparison} {body next : Block} {s t u : MachineState ρ}
      (inner : Exec m body s t) (fails : (m.decide c t).tests c.op = false)
      (rest : Exec m next (m.decide c t) u) : Exec m (.loop body c next) s u

/-! ## Reading lines -/

namespace Control

/-- A position in the source: the rest of a line, and the lines behind it. -/
structure Position where
  rest : List Statement
  lines : List Line
deriving DecidableEq, Repr

/-- The end of the source. -/
def Position.ending : Position := ⟨[], []⟩

/-- A block behind the label of a line, if it has one. -/
def labelledBlock (label : Text) (b : Block) : Block :=
  if label.isEmpty then b else .label label b

/-- The source from one position to another, read as a structured program. The
body of an if is the rest of its line. -/
inductive Reads : Position → Position → Block → Prop
  | done (p : Position) : Reads p p .done
  | enter {line : Line} {lines : List Line} {stop : Position} {b : Block}
      (next : Reads ⟨line.statements, lines⟩ stop b) :
      Reads ⟨[], line :: lines⟩ stop (labelledBlock line.label b)
  | plain {st : Statement} {rest : List Statement} {lines : List Line} {stop : Position}
      {b : Block} (is_plain : kind st = .plain) (next : Reads ⟨rest, lines⟩ stop b) :
      Reads ⟨st :: rest, lines⟩ stop (.plain st b)
  | choice {st : Statement} {rest : List Statement} {lines : List Line} {stop : Position}
      {c : Comparison} {body b : Block} (is_if : st.command = .system (ascii ";"))
      (comparison : Comparison.of? st.operand = some c) (inner : Reads ⟨rest, []⟩ .ending body)
      (next : Reads ⟨[], lines⟩ stop b) : Reads ⟨st :: rest, lines⟩ stop (.choice c body b)
  | loop {st close : Statement} {rest behind : List Statement} {lines others : List Line}
      {stop : Position} {operand : Expr} {c : Comparison} {body b : Block}
      (is_opening : kind st = .opening) (inner : Reads ⟨rest, lines⟩ ⟨close :: behind, others⟩ body)
      (is_closing : kind close = .closing operand) (comparison : Comparison.of? operand = some c)
      (next : Reads ⟨behind, others⟩ stop b) : Reads ⟨st :: rest, lines⟩ stop (.loop body c b)

end Control

/-- Lines, read as a structured program, end in a state. -/
def Machine.Structured {ρ : Type} (m : Machine ρ) (lines : List Line) (s t : MachineState ρ) :
    Prop :=
  ∃ b, Control.Reads ⟨[], lines⟩ .ending b ∧ m.Exec b s t

/-! ## The code of a structured program -/

/-- The constructs of a structured program. -/
def Block.constructs : Block → Nat
  | .done => 0
  | .label _ next | .plain _ next => next.constructs
  | .choice _ body next | .loop body _ next => 1 + body.constructs + next.constructs

namespace Control

/-- The code of a structured program whose first construct has a number. -/
def lower (number : Nat) : Block → List Code
  | .done => []
  | .label name next => .label name :: lower number next
  | .plain st next => (shorthand st).map Code.plain ++ lower number next
  | .choice c body next =>
    .mark (.header number) :: (guard c.condition (.trailer number) ++
      (lower (number + 1) body ++ .mark (.trailer number) ::
        lower (number + 1 + body.constructs) next))
  | .loop body c next =>
    .mark (.header number) :: (lower (number + 1) body ++
      (repetition c.condition number ++ lower (number + 1 + body.constructs) next))

/-- The code from a position on. -/
def traceFrom (counter : Nat) (loops : List Nat) (p : Position) : Option Trace :=
  (trace counter loops p.rest).bind fun first =>
    (traceLines first.counter first.loops p.lines).map (Trace.after first.code)

section TraceFrom

variable (counter : Nat) (loops : List Nat) (rest : List Statement) (lines : List Line)

theorem Trace.after_nil : Trace.after [] = id := rfl

theorem map_after_after (front back : List Code) (t : Option Trace) :
    (t.map (Trace.after back)).map (Trace.after front) = t.map (Trace.after (front ++ back)) := by
  rw [Option.map_map]
  congr 1
  funext t
  simp [Trace.after]

theorem traceFrom_lines : traceFrom counter loops ⟨[], lines⟩ = traceLines counter loops lines := by
  simp [traceFrom, trace, Trace.after_nil]

theorem traceFrom_rest : traceFrom counter loops ⟨rest, []⟩ = trace counter loops rest := by
  rw [traceFrom]
  cases trace counter loops rest with
  | none => rfl
  | some first => simp [traceLines, Trace.after]

theorem traceFrom_ending : traceFrom counter loops .ending = some ⟨[], counter, loops⟩ :=
  traceFrom_lines counter loops []

theorem traceFrom_enter (line : Line) :
    traceFrom counter loops ⟨[], line :: lines⟩ =
      (traceFrom counter loops ⟨line.statements, lines⟩).map
        (Trace.after (Code.ofLabel line.label)) := by
  rw [traceFrom_lines, traceLines, traceFrom, Option.map_bind]
  simp only [Function.comp_def, map_after_after]

/-- Code in front of the rest of a line stands in front of the lines behind it. -/
theorem traceFrom_after (front : List Code) {rest' : List Statement} {counter' : Nat}
    {loops' : List Nat}
    (h : trace counter loops rest = (trace counter' loops' rest').map (Trace.after front)) :
    traceFrom counter loops ⟨rest, lines⟩ =
      (traceFrom counter' loops' ⟨rest', lines⟩).map (Trace.after front) := by
  rw [traceFrom, traceFrom, h, Option.map_bind, Option.bind_map]
  simp only [Function.comp_def, map_after_after]
  rfl

end TraceFrom

theorem kind_of_comparison {st : Statement} {c : Comparison}
    (hif : st.command = .system (ascii ";")) (hc : Comparison.of? st.operand = some c) :
    kind st = .choice c.condition := by
  rw [kind, if_pos hif, Condition.of?_eq, hc]
  rfl

theorem lower_labelledBlock (number : Nat) (label : Text) (b : Block) :
    lower number (labelledBlock label b) = Code.ofLabel label ++ lower number b := by
  unfold labelledBlock Code.ofLabel
  split
  · rfl
  · rfl

theorem constructs_labelledBlock (label : Text) (b : Block) :
    (labelledBlock label b).constructs = b.constructs := by
  unfold labelledBlock
  split
  · rfl
  · rfl

/-- The source from one position to another has the code of its reading, in
front of the code from there on. -/
theorem Reads.code {p stop : Position} {b : Block} (h : Reads p stop b) (counter : Nat)
    (loops : List Nat) :
    traceFrom counter loops p =
      (traceFrom (counter + b.constructs) loops stop).map (Trace.after (lower counter b)) := by
  induction h generalizing counter loops with
  | done p => simp [lower, Block.constructs, Trace.after_nil]
  | enter _ ih =>
    rw [traceFrom_enter, ih, map_after_after, constructs_labelledBlock, lower_labelledBlock]
  | @plain st rest lines stop b hk _ ih =>
    have htrace : trace counter loops (st :: rest) =
        (trace counter loops rest).map (Trace.after ((shorthand st).map Code.plain)) := by
      simp only [trace, hk]
    rw [traceFrom_after counter loops _ lines _ htrace, ih, map_after_after]
    rfl
  | @choice st rest lines stop c body b hif hc _ _ ihinner ihnext =>
    -- The rest of the line is the body, which leaves no loop open.
    have hbody : trace (counter + 1) loops rest =
        some ⟨lower (counter + 1) body, counter + 1 + body.constructs, loops⟩ := by
      rw [← traceFrom_rest, ihinner, traceFrom_ending]
      simp [Trace.after]
    have htrace : trace counter loops (st :: rest) = some ⟨.mark (.header counter) ::
        (guard c.condition (.trailer counter) ++ (lower (counter + 1) body ++
          [.mark (.trailer counter)])), counter + 1 + body.constructs, loops⟩ := by
      simp only [trace, kind_of_comparison hif hc, hbody]
      rfl
    rw [traceFrom, htrace, Option.bind_some, ← traceFrom_lines, ihnext, map_after_after]
    simp only [lower, Block.constructs, ← Nat.add_assoc, List.cons_append, List.append_assoc,
      List.nil_append]
  | @loop st close rest behind lines others _ _ c _ _ hopen _ hclose hc _ ihinner ihnext =>
    have hfront : trace counter loops (st :: rest) =
        (trace (counter + 1) (counter :: loops) rest).map
          (Trace.after [.mark (.header counter)]) := by
      simp only [trace, hopen]
    have hback (number : Nat) : trace number (counter :: loops) (close :: behind) =
        (trace number loops behind).map (Trace.after (repetition c.condition counter)) := by
      simp only [trace, hclose, Condition.of?_eq, hc, Option.map_some]
    rw [traceFrom_after counter loops _ lines _ hfront, ihinner,
      traceFrom_after _ (counter :: loops) _ others _ (hback _), ihnext, map_after_after,
      map_after_after, map_after_after]
    simp only [lower, Block.constructs, ← Nat.add_assoc, List.cons_append, List.append_assoc,
      List.nil_append]

/-! ## Balanced loops -/

/-- The number of open loops behind statements; nothing, if one is closed that
was not opened. -/
def loopDepth (depth : Nat) : List Statement → Option Nat
  | [] => some depth
  | st :: rest =>
    match kind st with
    | .opening => loopDepth (depth + 1) rest
    | .closing _ =>
      match depth with
      | 0 => none
      | outer + 1 => loopDepth outer rest
    | .choice _ | .plain => loopDepth depth rest

/-- Every loop is closed, and only loops that were opened are. -/
def balanced (sts : List Statement) : Bool := loopDepth 0 sts == some 0

/-- Loops are balanced within the body of every if. -/
def bodiesBalanced : List Statement → Bool
  | [] => true
  | st :: rest =>
    (match kind st with
      | .choice _ => balanced rest
      | _ => true) && bodiesBalanced rest

theorem loopDepth_append {front : List Statement} {a b : Nat} (h : loopDepth a front = some b)
    (depth : Nat) (back : List Statement) :
    loopDepth (a + depth) (front ++ back) = loopDepth (b + depth) back := by
  induction front generalizing a with
  | nil =>
    cases h
    rfl
  | cons st front ih =>
    rw [List.cons_append]
    cases hk : kind st with
    | plain | choice =>
      simp only [loopDepth, hk] at h ⊢
      exact ih h
    | opening =>
      simp only [loopDepth, hk] at h ⊢
      rw [Nat.add_right_comm]
      exact ih h
    | closing =>
      cases a with
      | zero => simp [loopDepth, hk] at h
      | succ a =>
        simp only [loopDepth, hk] at h
        rw [Nat.add_right_comm]
        simp only [loopDepth, hk]
        exact ih h

/-- Balanced statements leave the number of open loops as it is. -/
theorem loopDepth_balanced {front : List Statement} (h : balanced front = true) (depth : Nat)
    (back : List Statement) : loopDepth depth (front ++ back) = loopDepth depth back := by
  have hfront : loopDepth 0 front = some 0 := by simpa [balanced] using h
  have := loopDepth_append hfront depth back
  rwa [Nat.zero_add] at this

namespace Position

/-- The statements from a position on. -/
def statements (p : Position) : List Statement := p.rest ++ p.lines.flatMap Line.statements

def size (p : Position) : Nat := p.statements.length + p.lines.length

theorem size_tail (st : Statement) (rest : List Statement) (lines : List Line) :
    size ⟨rest, lines⟩ < size ⟨st :: rest, lines⟩ := by
  simp only [size, statements, List.cons_append, List.length_cons]
  omega

/-- What the source from a position on must be like, if some loops are open
there: all of them are closed, by comparisons, and bodies are balanced. -/
structure Readable (p : Position) (depth : Nat) : Prop where
  depth_eq : loopDepth depth p.statements = some 0
  rest : bodiesBalanced p.rest = true
  lines : ∀ line ∈ p.lines, bodiesBalanced line.statements = true
  closings : ∀ st ∈ p.statements, ∀ operand, kind st = .closing operand →
    (Comparison.of? operand).isSome

/-- Where reading stops: at the end of the innermost loop that is open, or at
the end of the source. -/
def Stops : Nat → Position → Prop
  | 0, stop => stop = .ending
  | depth + 1, stop => ∃ close behind others operand c, stop = ⟨close :: behind, others⟩ ∧
    kind close = .closing operand ∧ Comparison.of? operand = some c ∧
    Readable ⟨behind, others⟩ depth

section Readable

variable {st : Statement} {rest : List Statement} {line : Line} {lines : List Line} {depth : Nat}

theorem statements_cons :
    statements ⟨st :: rest, lines⟩ = st :: statements ⟨rest, lines⟩ := rfl

theorem statements_enter :
    statements ⟨[], line :: lines⟩ = statements ⟨line.statements, lines⟩ := by
  simp [statements]

theorem Readable.enter (h : Readable ⟨[], line :: lines⟩ depth) :
    Readable ⟨line.statements, lines⟩ depth := by
  obtain ⟨hd, _, hl, hc⟩ := h
  rw [statements_enter] at hd hc
  exact ⟨hd, hl line List.mem_cons_self, fun l hm => hl l (List.mem_cons_of_mem _ hm), hc⟩

/-- Behind the first statement, other loops are open. -/
theorem Readable.tail {inner : Nat} (h : Readable ⟨st :: rest, lines⟩ depth)
    (hd : loopDepth inner (statements ⟨rest, lines⟩) = some 0) :
    Readable ⟨rest, lines⟩ inner := by
  obtain ⟨_, hr, hl, hc⟩ := h
  rw [bodiesBalanced, Bool.and_eq_true] at hr
  exact ⟨hd, hr.2, hl, fun st hst => hc st (List.mem_cons_of_mem _ hst)⟩

theorem Readable.plain (h : Readable ⟨st :: rest, lines⟩ depth) (hk : kind st = .plain) :
    Readable ⟨rest, lines⟩ depth := by
  refine h.tail ?_
  have hd := h.depth_eq
  rw [statements_cons] at hd
  simpa only [loopDepth, hk] using hd

theorem Readable.opening (h : Readable ⟨st :: rest, lines⟩ depth) (hk : kind st = .opening) :
    Readable ⟨rest, lines⟩ (depth + 1) := by
  refine h.tail ?_
  have hd := h.depth_eq
  rw [statements_cons] at hd
  simpa only [loopDepth, hk] using hd

theorem Readable.closing {operand : Expr} (h : Readable ⟨st :: rest, lines⟩ depth)
    (hk : kind st = .closing operand) : Stops depth ⟨st :: rest, lines⟩ := by
  have hd := h.depth_eq
  rw [statements_cons] at hd
  cases depth with
  | zero => simp [loopDepth, hk] at hd
  | succ depth =>
    simp only [loopDepth, hk] at hd
    obtain ⟨c, hc⟩ := Option.isSome_iff_exists.1 (h.closings st List.mem_cons_self operand hk)
    exact ⟨st, rest, lines, operand, c, rfl, hk, hc, h.tail hd⟩

/-- The body of an if can be read by itself, and so can the lines behind it. -/
theorem Readable.choice {condition : Condition} (h : Readable ⟨st :: rest, lines⟩ depth)
    (hk : kind st = .choice condition) :
    Readable ⟨rest, []⟩ 0 ∧ Readable ⟨[], lines⟩ depth := by
  obtain ⟨hd, hr, hl, hc⟩ := h
  rw [bodiesBalanced, hk, Bool.and_eq_true] at hr
  rw [statements_cons] at hd
  simp only [loopDepth, hk] at hd
  constructor
  · refine ⟨?_, hr.2, by simp, fun st hst => hc st ?_⟩
    · rw [statements, List.flatMap_nil, List.append_nil]
      simpa [balanced] using hr.1
    · simp only [statements, List.flatMap_nil, List.append_nil] at hst
      exact List.mem_cons_of_mem _ (List.mem_append_left _ hst)
  · refine ⟨?_, rfl, hl, fun st hst => hc st ?_⟩
    · rw [statements, loopDepth_balanced hr.1] at hd
      exact hd
    · exact List.mem_cons_of_mem _ (List.mem_append_right _ hst)

theorem Readable.depth_eq_zero (h : Readable .ending depth) : depth = 0 :=
  Option.some.inj h.depth_eq

end Readable

/-- From a readable position, the source can be read up to where reading stops. -/
theorem Readable.exists_reads {p : Position} {depth : Nat} (h : p.Readable depth) :
    ∃ stop b, Reads p stop b ∧ Stops depth stop ∧ stop.size ≤ p.size := by
  -- Every part is read from a position with less source behind it.
  induction hn : p.size using Nat.strongRecOn generalizing p depth with
  | _ n ih =>
    subst hn
    obtain ⟨rest, lines⟩ := p
    cases rest with
    | nil =>
      cases lines with
      | nil =>
        obtain rfl := h.depth_eq_zero
        exact ⟨.ending, .done, .done _, rfl, Nat.le_refl _⟩
      | cons line lines =>
        have hlt : size ⟨line.statements, lines⟩ < size ⟨[], line :: lines⟩ := by
          simp [size, statements]
        obtain ⟨stop, b, hb, hstop, hle⟩ := ih _ hlt h.enter rfl
        exact ⟨stop, _, .enter hb, hstop, by omega⟩
    | cons st rest =>
      have hlt := size_tail st rest lines
      cases hk : kind st with
      | plain =>
        obtain ⟨stop, b, hb, hstop, hle⟩ := ih _ hlt (h.plain hk) rfl
        exact ⟨stop, _, .plain hk hb, hstop, by omega⟩
      | closing operand => exact ⟨_, .done, .done _, h.closing hk, Nat.le_refl _⟩
      | choice condition =>
        obtain ⟨hinner, hnext⟩ := h.choice hk
        have hbody : size ⟨rest, []⟩ ≤ size ⟨rest, lines⟩ := by
          simp only [size, statements, List.length_append, List.flatMap_nil, List.length_nil]
          omega
        have hlines : size ⟨[], lines⟩ ≤ size ⟨rest, lines⟩ := by simp [size, statements]
        obtain ⟨stop', body, hb, rfl, _⟩ := ih _ (by omega) hinner rfl
        obtain ⟨stop, b, hn, hstop, hle⟩ := ih _ (by omega) hnext rfl
        obtain ⟨hif, hc⟩ := kind_choice hk
        rw [Condition.of?_eq, Option.map_eq_some_iff] at hc
        obtain ⟨c, hc, _⟩ := hc
        exact ⟨stop, _, .choice hif hc hb hn, hstop, by omega⟩
      | opening =>
        obtain ⟨stop', body, hb, hstop', hle'⟩ := ih _ hlt (h.opening hk) rfl
        obtain ⟨close, behind, others, operand, c, rfl, hclose, hc, hnext⟩ := hstop'
        have hless := size_tail close behind others
        obtain ⟨stop, b, hn, hstop, hle⟩ := ih _ (by omega) hnext rfl
        exact ⟨stop, _, .loop hk hb hclose hc hn, hstop, by omega⟩

end Position

end Control

end Asm6502
