-- Labels may have any names. A renamed source expands, is laid out and is
-- encoded as the source is: each stage fails on both or on neither, and gives
-- the renamed result. So the names of labels leave no trace in the object code.
import Asm6502.Proofs.Emission
import Asm6502.Proofs.Expansion
import Asm6502.Proofs.RenamedDecoding

namespace Asm6502

namespace Renaming

open Except (Image)

variable {r : Renaming} {v w : Label.View}

/-! ## Directives -/

theorem directive_expr (command : Expr) :
    Directive.of? (r.expr command) = Directive.of? command := by
  cases command <;> rfl

theorem dataWidth_expr (item : Expr) :
    Image (fun n => n) (Directive.dataWidth item) (Directive.dataWidth (r.expr item)) := by
  cases item with
  | decimal => exact .refl _
  | empty | paren | bracket | system => exact .error _ _
  | _ => exact .ok _

theorem dataLength_expr (operand : Expr) :
    Image (fun n => n) (Directive.dataLength operand) (Directive.dataLength (r.expr operand)) := by
  unfold Directive.dataLength
  rw [r.expr_elements]
  refine (Image.mapM dataWidth_expr).bind fun widths => ?_
  rw [List.map_id']
  exact .ok _

theorem fillWidth_expr (value : Expr) :
    Directive.fillWidth (r.expr value) = Directive.fillWidth value := by
  cases value <;> rfl

theorem valueCodes_expr (item : Expr) (width : Nat) (value : UInt16) :
    Image (fun codes => codes) (Directive.valueCodes item width value)
      (Directive.valueCodes (r.expr item) width value) := by
  unfold Directive.valueCodes
  split
  · split
    · exact .ok _
    · exact .error _ _
  · exact .ok _

section Views

variable (h : r.Views v w)
include h

theorem value_image (pc : UInt16) (e : Expr) :
    Image (fun value => value) ((e.value v pc).mapError Error.value)
      (((r.expr e).value w pc).mapError Error.value) :=
  (Image.of_mapError (value_expr h pc e)).mapError _ _

theorem itemCodes_expr (pc : UInt16) (item : Expr) :
    Image (fun codes => codes) (Directive.itemCodes v pc item)
      (Directive.itemCodes w pc (r.expr item)) := by
  have hcodes : Image (fun codes => codes)
      (Directive.dataWidth item >>= fun width =>
        (item.value v pc).mapError .value >>= Directive.valueCodes item width)
      (Directive.dataWidth (r.expr item) >>= fun width =>
        ((r.expr item).value w pc).mapError .value >>=
          Directive.valueCodes (r.expr item) width) :=
    (dataWidth_expr item).bind fun width =>
      (value_image h pc item).bind fun value => valueCodes_expr item width value
  cases item with
  | string s => exact .ok s
  | _ => exact hcodes

theorem dataCodes_expr (pc : UInt16) (operand : Expr) :
    Image (fun codes => codes) (Directive.dataCodes v pc operand)
      (Directive.dataCodes w pc (r.expr operand)) := by
  unfold Directive.dataCodes
  rw [r.expr_elements]
  refine (Image.mapM (itemCodes_expr h pc)).bind fun codes => ?_
  rw [List.map_id']
  exact .ok _

/-- Renames the value of a fill. -/
def fill (r : Renaming) (fill : Directive.Fill) : Directive.Fill :=
  { fill with value := r.expr fill.value }

theorem fillOf_expr (pc : UInt16) (operand : Expr) :
    Image r.fill (Directive.fillOf v pc operand) (Directive.fillOf w pc (r.expr operand)) := by
  cases operand with
  | binary value op count =>
    cases op with
    | comma =>
      simp only [Renaming.expr, Directive.fillOf, fillWidth_expr]
      exact (Image.refl _).bind fun width => (value_image h pc count).bind fun count => .ok _
    | _ => exact .error _ _
  | _ => exact .error _ _

theorem fillCodes_expr (pc : UInt16) (operand : Expr) :
    Image (fun codes => codes) (Directive.fillCodes v pc operand)
      (Directive.fillCodes w pc (r.expr operand)) := by
  unfold Directive.fillCodes
  refine (fillOf_expr h pc operand).bind fun fill => ?_
  refine (value_image h pc fill.value).bind fun value => ?_
  by_cases hcount : fill.count = 0
  · simp only [Renaming.fill, hcount, if_true]
    exact .ok []
  · simp only [Renaming.fill, hcount, if_false]
    exact (valueCodes_expr fill.value fill.width value).bind fun codes => .ok _

/-! ## Object code -/

theorem decode_statement (st : Statement) :
    Image r.instruction (st.decode v) ((r.statement st).decode w) := by
  unfold Statement.decode
  rw [r.decode?_statement h]
  cases st.decode? v with
  | none => exact .error _ _
  | some i => exact .ok i

theorem operandValue_operand (pc : UInt16) (operand : Operand) :
    Image (fun value => value) (Emit.operandValue v pc operand)
      (Emit.operandValue w pc (r.operand operand)) := by
  cases operand with
  | label name =>
    simp only [Renaming.operand, Emit.operandValue, h name]
    cases v name with
    | error fault => exact .error _ _
    | ok address => exact .ok _
  | expr e => exact value_image h pc e
  | byte | word | target => exact .ok _
  | none => exact .error _ _

end Views

theorem operandCodes_statement (st : Statement) (mode : Mode) (pc value : UInt16) :
    Image (fun codes => codes) (Emit.operandCodes st mode pc value)
      (Emit.operandCodes (r.statement st) mode pc value) := by
  unfold Emit.operandCodes
  split
  · exact .refl _
  · split
    · split
      · exact .ok _
      · exact .error _ _
    · exact .ok _

theorem widen_instruction (i : Instruction) :
    Image r.instruction (Emit.widen i) (Emit.widen (r.instruction i)) := by
  obtain ⟨mnemonic, mode, operand⟩ := i
  unfold Emit.widen
  simp only [Renaming.instruction]
  cases mode.widen? with
  | none => exact .error _ _
  | some wide =>
    by_cases hcode : Opcode.has mnemonic wide = true
    · simp only [hcode, if_true]
      cases operand <;> exact .ok _
    · simp only [hcode]
      exact .error _ _

theorem fitted_instruction (length : Nat) (i : Instruction) :
    Image r.instruction (Emit.fitted length i) (Emit.fitted length (r.instruction i)) := by
  have hlength : (r.instruction i).length = i.length := rfl
  unfold Emit.fitted
  rw [hlength]
  split
  · exact widen_instruction i
  · exact .ok i

theorem encoded_instruction (h : r.Views v w) (st : Statement) (size : Sizing) (i : Instruction) :
    Image (fun codes => codes) (Emit.encoded v st size i)
      (Emit.encoded w (r.statement st) size (r.instruction i)) := by
  unfold Emit.encoded
  refine (Image.refl _).bind fun code => ?_
  have hlength : (r.instruction i).length = i.length := rfl
  rw [hlength]
  split
  · exact .ok _
  · refine (operandValue_operand h size.pc i.operand).bind fun value => ?_
    exact (operandCodes_statement st i.mode size.pc value).bind fun codes => .ok _

theorem instructionCodes_statement (h : r.Views v w) (st : Statement) (size : Sizing) :
    Image (fun codes => codes) (Emit.instructionCodes v st size)
      (Emit.instructionCodes w (r.statement st) size) := by
  rw [Emit.instructionCodes_eq, Emit.instructionCodes_eq]
  refine ((decode_statement h st).mapError _ _).bind fun decoded => ?_
  exact (fitted_instruction size.length decoded).bind fun i => encoded_instruction h st size i

/-- A renamed statement has the bytes of the statement. -/
theorem emit_statement (h : r.Views v w) (st : Statement) (size : Sizing) :
    Image (fun codes => codes) (Emit.statement v st size)
      (Emit.statement w (r.statement st) size) := by
  have hcodes : Image (fun codes => codes) (Emit.statementCodes v st size)
      (Emit.statementCodes w (r.statement st) size) := by
    unfold Emit.statementCodes
    rw [Renaming.statement, directive_expr]
    split
    · exact .ok []
    · exact .ok []
    · exact dataCodes_expr h size.pc st.operand
    · exact fillCodes_expr h size.pc st.operand
    · exact instructionCodes_statement h st size
  unfold Emit.statement
  exact hcodes.bind fun codes => .refl _

theorem emit_statements (h : r.Views v w) (pairs : List (Statement × Sizing)) :
    Image (fun codes => codes) (Emit.statements v pairs)
      (Emit.statements w (pairs.map fun pair => (r.statement pair.1, pair.2))) := by
  induction pairs with
  | nil => exact .ok []
  | cons pair pairs ih =>
    exact (emit_statement h pair.1 pair.2).bind fun codes => ih.bind fun others => .ok _

def sizedLine (r : Renaming) (sized : SizedLine) : SizedLine :=
  { sized with line := r.line sized.line }

def placedLine (r : Renaming) (placed : PlacedLine) : PlacedLine :=
  { placed with line := r.line placed.line }

theorem emit_line (h : r.Views v w) (sized : SizedLine) :
    Image r.placedLine (Emit.line v sized) (Emit.line w (r.sizedLine sized)) := by
  have hcodes := emit_statements h (sized.line.statements.zip sized.sizes)
  have hzip : (r.sizedLine sized).line.statements.zip (r.sizedLine sized).sizes =
      (sized.line.statements.zip sized.sizes).map fun pair => (r.statement pair.1, pair.2) :=
    List.zip_map_left
  unfold Emit.line
  rw [hzip]
  generalize Emit.statements v _ = x at hcodes
  generalize Emit.statements w _ = y at hcodes
  cases hcodes with
  | ok codes => exact .ok _
  | error e e' => exact .error _ _

/-- Renamed lines have the bytes of the lines. -/
theorem emit_lines (table : Label.Table) (lines : List SizedLine) :
    (Emit.lines (r.table table) (lines.map r.sizedLine)).labels =
        r.table (Emit.lines table lines).labels ∧
      Image (List.map r.placedLine) (Emit.lines table lines).lines
        (Emit.lines (r.table table) (lines.map r.sizedLine)).lines := by
  induction lines generalizing table with
  | nil => exact ⟨rfl, .ok []⟩
  | cons sized lines ih =>
    have henter : (r.table table).enter (r.sizedLine sized).line.label =
        r.table (table.enter sized.line.label) := r.enter_table table sized.line.label
    obtain ⟨hlabels, hlines⟩ := ih (table.enter sized.line.label)
    have hline := emit_line (r.lookup_table (table.enter sized.line.label)) sized
    rw [List.map_cons, Emit.lines, Emit.lines, henter]
    generalize Emit.line (table.enter sized.line.label).lookup sized = x at hline
    generalize Emit.line (r.table (table.enter sized.line.label)).lookup (r.sizedLine sized) = y
      at hline
    cases hline with
    | ok placed => exact ⟨hlabels, hlines.map fun others => rfl⟩
    | error e e' => exact ⟨rfl, .error e e'⟩

/-! ## Layout -/

def layout (r : Renaming) (layout : Layout) : Layout :=
  { layout with labels := r.table layout.labels }

theorem placed_layout (layout : Layout) {x y : Except Error Nat} (h : Image (fun n => n) x y) :
    Image (fun next => (r.layout next.1, next.2)) (layout.placed x)
      ((r.layout layout).placed y) := by
  have hset : (r.layout layout).addressSet = layout.addressSet := rfl
  unfold Layout.placed
  rw [hset]
  split
  · exact h.bind fun n => .ok _
  · exact .error _ _

theorem reserve_layout (layout : Layout) (label : Text) (st : Statement) :
    Image (fun next => (r.layout next.1, next.2)) (layout.reserve label st)
      ((r.layout layout).reserve (r.name label) (r.statement st)) := by
  have hv : r.Views layout.labels.lookup (r.layout layout).labels.lookup :=
    r.lookup_table layout.labels
  unfold Layout.reserve
  rw [Renaming.statement, directive_expr]
  split
  · exact (value_image hv layout.address st.operand).bind fun pc => .ok _
  · rw [r.isEmpty_name]
    split
    · exact .error _ _
    · have haddress := Image.of_mapError (address_expr hv st.operand)
      refine (haddress.mapError _ _).bind fun address => ?_
      have htable : (r.layout layout).labels = r.table layout.labels := rfl
      rw [htable, r.fix_table]
      obtain ⟨labels, result⟩ := layout.labels.fix label address
      cases result with
      | error fault => exact .error _ _
      | ok => exact .ok _
  · exact placed_layout layout (dataLength_expr st.operand)
  · exact placed_layout layout
      ((fillOf_expr hv layout.address st.operand).map fun fill => rfl)
  · have hlength : Image (fun n => n) ((st.decode layout.labels.lookup).map Instruction.length)
        (((r.statement st).decode (r.layout layout).labels.lookup).map Instruction.length) :=
      (decode_statement hv st).map fun i => rfl
    exact placed_layout layout (hlength.mapError _ _)

theorem statement_layout (layout : Layout) (label : Text) (st : Statement) :
    Image (fun next => (r.layout next.1, next.2)) (layout.statement label st)
      ((r.layout layout).statement (r.name label) (r.statement st)) := by
  unfold Layout.statement
  refine (reserve_layout layout label st).bind fun next => ?_
  have hpc : (r.layout next.1).pc = next.1.pc := rfl
  simp only [hpc]
  split
  · exact .error _ _
  · exact .ok _

theorem statements_layout (layout : Layout) (label : Text) (sts : List Statement) :
    ((r.layout layout).statements (r.name label) (sts.map r.statement)).1 =
        r.layout (layout.statements label sts).1 ∧
      Image (fun sizes => sizes) (layout.statements label sts).2
        ((r.layout layout).statements (r.name label) (sts.map r.statement)).2 := by
  induction sts generalizing layout with
  | nil => exact ⟨rfl, .ok []⟩
  | cons st sts ih =>
    have hst := statement_layout (r := r) layout label st
    rw [List.map_cons, Layout.statements, Layout.statements]
    generalize layout.statement label st = x at hst
    generalize (r.layout layout).statement (r.name label) (r.statement st) = y at hst
    cases hst with
    | ok next =>
      obtain ⟨hlast, hsizes⟩ := ih next.1
      exact ⟨hlast, hsizes.map fun sizes => rfl⟩
    | error e e' => exact ⟨rfl, .error e e'⟩

theorem defineLabel_layout (layout : Layout) (line : Line) :
    Image (fun next => (r.layout next.1, r.name next.2)) (layout.defineLabel line)
      ((r.layout layout).defineLabel (r.line line)) := by
  have hdefine := r.define_table layout.labels line.label line.number layout.address
  unfold Layout.defineLabel
  simp only [Renaming.line, r.isEmpty_name]
  split
  · have hempty : (r.layout layout, ([] : Text)) = (r.layout layout, r.name []) := by
      rw [r.name_nil]
    rw [hempty]
    exact .ok (layout, [])
  · have haddress : (r.layout layout).address = layout.address := rfl
    have htable : (r.layout layout).labels = r.table layout.labels := rfl
    rw [haddress, htable, hdefine]
    obtain ⟨labels, result⟩ := layout.labels.define line.label line.number layout.address
    cases result with
    | error fault => exact .error _ _
    | ok label => exact .ok _

theorem line_layout (layout : Layout) (line : Line) :
    ((r.layout layout).line (r.line line)).1 = r.layout (layout.line line).1 ∧
      Image r.sizedLine (layout.line line).2 ((r.layout layout).line (r.line line)).2 := by
  have hdefine := defineLabel_layout (r := r) layout line
  unfold Layout.line
  generalize layout.defineLabel line = x at hdefine
  generalize (r.layout layout).defineLabel (r.line line) = y at hdefine
  cases hdefine with
  | ok next =>
    obtain ⟨hlast, hsizes⟩ := statements_layout (r := r) next.1 next.2 line.statements
    exact ⟨hlast, (hsizes.mapError _ _).map fun sizes => rfl⟩
  | error e e' => exact ⟨rfl, .error _ _⟩

/-- Renamed lines are laid out as the lines are. -/
theorem lines_layout (layout : Layout) (lines : List Line) :
    ((r.layout layout).lines (lines.map r.line)).1 = r.layout (layout.lines lines).1 ∧
      Image (List.map r.sizedLine) (layout.lines lines).2
        ((r.layout layout).lines (lines.map r.line)).2 := by
  induction lines generalizing layout with
  | nil => exact ⟨rfl, .ok []⟩
  | cons line lines ih =>
    obtain ⟨hnext, hsized⟩ := line_layout (r := r) layout line
    rw [List.map_cons, Layout.lines, Layout.lines]
    generalize layout.line line = x at hnext hsized
    generalize (r.layout layout).line (r.line line) = y at hnext hsized
    obtain ⟨next, x⟩ := x
    obtain ⟨next', y⟩ := y
    subst hnext
    cases hsized with
    | ok sized =>
      obtain ⟨hlast, hothers⟩ := ih next
      exact ⟨hlast, hothers.map fun others => rfl⟩
    | error e e' => exact ⟨rfl, .error e e'⟩

/-! ## Control constructs -/

section Expansion

open Control

def condition (r : Renaming) (condition : Condition) : Condition :=
  { condition with compare := r.statement condition.compare }

def kind (r : Renaming) : Kind → Kind
  | .choice condition => .choice (r.condition condition)
  | .closing operand => .closing (r.expr operand)
  | kind => kind

theorem condition_expr (e : Expr) :
    Condition.of? (r.expr e) = (Condition.of? e).map r.condition := by
  have ht : r.expr (.ident (ascii "T")) = .ident (ascii "T") :=
    r.expr_ident (by decide +kernel)
  cases e with
  | binary left op right =>
    simp only [Renaming.expr, Condition.of?, Option.map_map]
    congr 1
    funext skip
    simp only [Function.comp_apply, Renaming.condition, Renaming.statement, Renaming.expr] at ht ⊢
    rw [ht]
  | _ => rfl

theorem kind_statement (st : Statement) :
    Control.kind (r.statement st) = r.kind (Control.kind st) := by
  have hsystem (run : Text) : r.expr st.command = .system run ↔ st.command = .system run :=
    r.expr_eq_iff rfl
  unfold Control.kind
  simp only [Renaming.statement, hsystem, condition_expr, r.expr_isEmpty]
  split
  · cases Condition.of? st.operand <;> rfl
  · split
    · split <;> rfl
    · rfl

theorem isStepped_expr (command : Expr) :
    isStepped (r.expr command) = isStepped command := by
  cases command with
  | ident name =>
    have hx : ascii "X" ∈ meaningful := by decide +kernel
    have hy : ascii "Y" ∈ meaningful := by decide +kernel
    simp only [Renaming.expr, isStepped, r.name_beq hx, r.name_beq hy]
  | _ => rfl

/-- A run of signs behind a command. -/
theorem shorthand_run (command : Expr) (run : Text) :
    shorthand { command, operand := .system run } =
      if isStepped command && decide (1 < run.length) &&
          run.all (fun b => b == Ascii.plus || b == Ascii.minus) then
        List.replicate run.length { command, operand := .system (run.take 1) }
      else [{ command, operand := .system run }] := by
  cases command <;> rfl

theorem shorthand_statement (st : Statement) :
    shorthand (r.statement st) = (shorthand st).map r.statement := by
  obtain ⟨command, operand⟩ := st
  cases operand with
  | binary left op right =>
    cases command with
    | ident name =>
      have ha : ascii "A" ∈ meaningful := by decide +kernel
      have hac : ascii "AC" ∈ meaningful := by decide +kernel
      have hc : ascii "C" ∈ meaningful := by decide +kernel
      simp only [shorthand, Renaming.statement, Renaming.expr, r.name_eq_meaningful ha,
        r.expr_eq_iff (r.expr_ident ha)]
      split
      · simp only [List.map_cons, List.map_nil, Renaming.statement, Renaming.expr,
          r.name_meaningful ha, r.name_meaningful hac, r.name_meaningful hc]
      · rfl
    | _ => rfl
  | system run =>
    have hstatement : r.statement { command, operand := .system run } =
        { command := r.expr command, operand := .system run } := rfl
    rw [hstatement, shorthand_run, shorthand_run, isStepped_expr]
    split
    · rw [List.map_replicate]
      rfl
    · rfl
  | _ => cases command <;> rfl

/-- An expansion of renamed lines: it ends in the same state, in which all open
loops have generated labels, and gives the renamed lines. -/
structure Expands (r : Renaming) (e e' : Expansion) : Prop where
  state_eq : e'.state = e.state
  generated : ∀ loop ∈ e.state.loops.items, Label.isGenerated loop.label = true
  lines_image : Image (List.map r.line) e.lines e'.lines

namespace Expands

variable {e e' : Expansion}

theorem after (h : r.Expands e e') {lines lines' : List Line} (hl : lines.map r.line = lines') :
    r.Expands (e.after lines) (e'.after lines') where
  state_eq := h.state_eq
  generated := h.generated
  lines_image := h.lines_image.map fun others => by rw [List.map_append, hl]

theorem before (h : r.Expands e e') {line line' : Line} (hl : r.line line = line') :
    r.Expands (e.before line) (e'.before line') where
  state_eq := h.state_eq
  generated := h.generated
  lines_image := h.lines_image.map fun others => by
    rw [List.map_append, List.map_cons, List.map_nil, hl]

end Expands

theorem line_flush (line : Line) (label : Text) (pending : List Statement) :
    (flush line label pending).map r.line =
      flush (r.line line) (r.name label) (pending.map r.statement) := by
  unfold flush
  rw [List.isEmpty_map, r.isEmpty_name]
  split
  · rfl
  · rfl

theorem line_labelled (line : Line) {label : Text} (h : Label.isGenerated label = true) :
    r.line (labelled line label) = labelled (r.line line) label := by
  simp [labelled, Renaming.line, r.name_generated h]

theorem line_single (line : Line) (st : Statement) :
    r.line (single line st) = single (r.line line) (r.statement st) := by
  simp [single, Renaming.line]

theorem statement_branch (skip : Text) {target : Text} (h : Label.isGenerated target = true) :
    r.statement (branch skip target) = branch skip target := by
  simp [branch, Renaming.statement, Renaming.expr, r.name_generated h]

theorem statement_jump {target : Text} (h : Label.isGenerated target = true) :
    r.statement (jump target) = jump target := by
  simp [jump, Renaming.statement, Renaming.expr, r.name_generated h]

theorem isGenerated_trailer {label : Text} (h : Label.isGenerated label = true) :
    Label.isGenerated (trailer label) = true := by
  obtain ⟨rest, rfl⟩ := List.isPrefixOf_iff_prefix.1 h
  unfold trailer
  rw [List.append_assoc]
  exact List.isPrefixOf_iff_prefix.2 (List.prefix_append _ _)

/-- The statements of a renamed line expand to renamed lines. -/
theorem expandStatements_line (line : Line) (label : Text) (pending : List Statement)
    (state : State) (sts : List Statement)
    (h : ∀ loop ∈ state.loops.items, Label.isGenerated loop.label = true) :
    r.Expands (expandStatements line label pending state sts)
      (expandStatements (r.line line) (r.name label) (pending.map r.statement) state
        (sts.map r.statement)) := by
  induction sts generalizing label pending state with
  | nil =>
    refine ⟨rfl, h, ?_⟩
    simp only [expandStatements, List.map_nil, ← line_flush]
    exact .ok _
  | cons st sts ih =>
    have hheader : Label.isGenerated (labelOf state.counter) = true :=
      (Mark.header state.counter).isGenerated_label
    rw [List.map_cons, expandStatements, expandStatements, kind_statement]
    cases Control.kind st with
    | plain =>
      have hnext := ih label (pending ++ shorthand st) state h
      rwa [List.map_append, ← shorthand_statement] at hnext
    | choice condition =>
      have htrailer := isGenerated_trailer hheader
      have hinner := ih [] [] { state with counter := state.counter + 1 } h
      rw [r.name_nil] at hinner
      refine (hinner.before (line_labelled line htrailer)).after ?_
      simp only [List.map_append, List.map_cons, List.map_nil, line_flush, line_single,
        line_labelled line hheader, statement_branch _ htrailer]
      rfl
    | opening =>
      have hpush : ∀ loop ∈ (state.loops.push ⟨labelOf state.counter, line.number⟩).items,
          Label.isGenerated loop.label = true := List.forall_mem_cons.2 ⟨hheader, h⟩
      have hinner := ih [] [] ⟨state.counter + 1, _⟩ hpush
      rw [r.name_nil] at hinner
      refine hinner.after ?_
      simp only [List.map_append, List.map_cons, List.map_nil, line_flush,
        line_labelled line hheader]
    | closing operand =>
      -- The loop was opened by this expansion, so its label keeps its name.
      simp only [Renaming.kind, Stack.pop?]
      cases hloops : state.loops.items with
      | nil => exact ⟨rfl, h, .error _ _⟩
      | cons loop rest =>
        rw [hloops, List.forall_mem_cons] at h
        simp only [condition_expr]
        cases Condition.of? operand with
        | none => exact ⟨rfl, h.2, .error _ _⟩
        | some condition =>
          have htrailer := isGenerated_trailer h.1
          have hinner := ih [] [] { state with loops := ⟨rest⟩ } h.2
          rw [r.name_nil] at hinner
          refine hinner.after ?_
          simp only [List.map_append, List.map_cons, List.map_nil, line_flush, line_single,
            line_labelled line htrailer, statement_jump h.1, statement_branch _ htrailer]
          rfl

theorem expandLine_line (state : State) (line : Line)
    (h : ∀ loop ∈ state.loops.items, Label.isGenerated loop.label = true) :
    r.Expands (expandLine state line) (expandLine state (r.line line)) := by
  obtain ⟨hstate, hgenerated, hlines⟩ :=
    expandStatements_line (r := r) line line.label [] state line.statements h
  exact ⟨hstate, hgenerated, hlines.mapError _ _⟩

/-- Renamed lines expand to renamed lines. -/
theorem expandLines_lines (state : State) (lines : List Line)
    (h : ∀ loop ∈ state.loops.items, Label.isGenerated loop.label = true) :
    r.Expands (expandLines state lines) (expandLines state (lines.map r.line)) := by
  induction lines generalizing state with
  | nil => exact ⟨rfl, h, .ok []⟩
  | cons line lines ih =>
    have hfirst := expandLine_line (r := r) state line h
    rw [List.map_cons, expandLines, expandLines]
    generalize expandLine state line = first at hfirst
    generalize expandLine state (r.line line) = first' at hfirst
    obtain ⟨_, out⟩ := first
    obtain ⟨next, out'⟩ := first'
    obtain ⟨rfl, hgenerated, hlines⟩ := hfirst
    cases hlines with
    | ok out => exact (ih next hgenerated).after rfl
    | error e e' => exact ⟨rfl, hgenerated, .error e e'⟩

theorem expand_lines (lines : List Line) :
    Image (List.map r.line) (expand {} lines).lines (expand {} (lines.map r.line)).lines := by
  have hall := expandLines_lines (r := r) {} lines (by simp)
  unfold expand
  generalize expandLines {} lines = e at hall
  generalize expandLines {} (lines.map r.line) = e' at hall
  obtain ⟨_, out⟩ := e
  obtain ⟨state, out'⟩ := e'
  obtain ⟨rfl, _, hlines⟩ := hall
  cases hlines with
  | error error error' => exact .error _ _
  | ok out =>
    simp only
    cases state.loops.top? with
    | none => exact .ok out
    | some loop => exact .error _ _

end Expansion

/-! ## Programs -/

def program (r : Renaming) (program : Program) : Program :=
  { program with
    lines := program.lines.map r.placedLine
    labels := r.table program.labels }

theorem assembleExpanded_lines (lines : List Line) :
    Image r.program (Assembler.assembleExpanded lines).program
      (Assembler.assembleExpanded (lines.map r.line)).program := by
  have hempty : r.layout {} = {} := by simp [Renaming.layout, Renaming.table]
  obtain ⟨hlayout, hsized⟩ := lines_layout (r := r) {} lines
  rw [hempty] at hlayout hsized
  unfold Assembler.assembleExpanded
  generalize Layout.lines {} lines = x at hlayout hsized
  generalize Layout.lines {} (lines.map r.line) = y at hlayout hsized
  obtain ⟨last, x⟩ := x
  obtain ⟨last', y⟩ := y
  subst hlayout
  cases hsized with
  | error e e' => exact .error _ _
  | ok sized =>
    have hleave : (r.layout last).labels.leave = r.table last.labels.leave :=
      r.leave_table last.labels
    obtain ⟨hlabels, hlines⟩ := emit_lines (r := r) last.labels.leave sized
    simp only [hleave, hlabels]
    exact hlines.map fun _ => rfl

/-- A renamed source is assembled to the renamed program, or to none if the
source is. -/
theorem assemble_lines (assembler : Assembler) (lines : List Line) :
    Image r.program (assembler.assemble lines).program
      (assembler.assemble (lines.map r.line)).program := by
  have hexpand := expand_lines (r := r) lines
  unfold Assembler.assemble
  generalize Control.expand {} lines = e at hexpand
  generalize Control.expand {} (lines.map r.line) = e' at hexpand
  obtain ⟨state, out⟩ := e
  obtain ⟨state', out'⟩ := e'
  cases hexpand with
  | error error error' => exact .error _ _
  | ok out => exact assembleExpanded_lines out

/-- The names of labels do not leak into the object code. -/
theorem label_names_do_not_leak (r : Renaming) (assembler : Assembler) (lines : List Line) :
    ((∃ q, (assembler.assemble (lines.map r.line)).program = .ok q) ↔
        ∃ p, (assembler.assemble lines).program = .ok p) ∧
      ∀ p q, (assembler.assemble lines).program = .ok p →
        (assembler.assemble (lines.map r.line)).program = .ok q →
        q.bytes = p.bytes ∧ q.origin = p.origin ∧
          q.lines.map PlacedLine.address = p.lines.map PlacedLine.address ∧
          q.labels = r.table p.labels := by
  have himage := assemble_lines (r := r) assembler lines
  refine ⟨himage.ok_iff, fun p q hp hq => ?_⟩
  have hq : q = r.program p := himage.eq_of_ok hp hq
  subst hq
  have hbytes : (p.lines.map r.placedLine).flatMap PlacedLine.codes =
      p.lines.flatMap PlacedLine.codes := List.flatMap_map ..
  have haddresses : (p.lines.map r.placedLine).map PlacedLine.address =
      p.lines.map PlacedLine.address := List.map_map
  exact ⟨hbytes, rfl, haddresses, rfl⟩

/-- The renaming that swaps two labels. -/
def swap (a b : Text) (ha : Label.isBase a = true) (hb : Label.isBase b = true)
    (hna : a ∉ meaningful) (hnb : b ∉ meaningful) : Renaming where
  map name := if name = a then b else if name = b then a else name
  isBase_map name h := by
    split
    · exact hb
    · split
      · exact ha
      · exact h
  injective x y _ _ h := by grind
  fixes name h := by grind

/-- Two routines with a local label each, which use the labels of each other. -/
def routines : List Line :=
  let line (number : Int) (label : String) (statements : List Statement) : Line :=
    { number, file := [], text := [], label := ascii label, statements }
  [line 1 "" [⟨.system (ascii "*"), .word 0x1000⟩],
    line 2 "start" [⟨.ident (ascii "A"), .paren (.ident (ascii "main.data"))⟩],
    line 3 ".data" [⟨.system (ascii ";"), .binary (.ident (ascii "X")) .greater (.decimal 1)⟩,
      ⟨.system (ascii "#"), .ident (ascii "main")⟩],
    line 4 "main" [⟨.ident (ascii "X"), .system (ascii "++")⟩],
    line 5 ".data" [⟨.system (ascii "?"), .binary (.ident (ascii ".data")) .comma
      (.ident (ascii "start.data"))⟩]]

/-- The routines under the name of each other. -/
def exchange : Renaming :=
  swap (ascii "start") (ascii "main") (by decide +kernel) (by decide +kernel) (by decide +kernel)
    (by decide +kernel)

theorem routines_keep_their_code :
    ∃ p q, (({} : Assembler).assemble routines).program = .ok p ∧
      (({} : Assembler).assemble (routines.map exchange.line)).program = .ok q ∧
      p.labels.entries.map Label.Entry.name =
        ["start", "start.data", "#macro_0", "#macro_0.1", "main", "main.data"].map ascii ∧
      q.labels.entries.map Label.Entry.name =
        ["main", "main.data", "#macro_0", "#macro_0.1", "start", "start.data"].map ascii ∧
      p.bytes = [0xAD, 0x0C, 0x10, 0xE0, 0x01, 0x90, 0x03, 0x4C, 0x0A, 0x10, 0xE8, 0xE8, 0x0C, 0x10,
        0x03, 0x10] ∧
      q.bytes = p.bytes ∧ q.lines.map PlacedLine.address = p.lines.map PlacedLine.address := by
  have hall : ((({} : Assembler).assemble routines).program.map fun p =>
      (p.labels.entries.map Label.Entry.name,
        (exchange.table p.labels).entries.map Label.Entry.name, p.bytes)) =
      .ok (["start", "start.data", "#macro_0", "#macro_0.1", "main", "main.data"].map ascii,
        ["main", "main.data", "#macro_0", "#macro_0.1", "start", "start.data"].map ascii,
        [0xAD, 0x0C, 0x10, 0xE0, 0x01, 0x90, 0x03, 0x4C, 0x0A, 0x10, 0xE8, 0xE8, 0x0C, 0x10, 0x03,
          0x10]) := by
    decide +kernel
  obtain ⟨p, hp, hall⟩ := Except.map_eq_ok.1 hall
  obtain ⟨hold, hall⟩ := Prod.mk.inj hall
  obtain ⟨hnew, hcode⟩ := Prod.mk.inj hall
  obtain ⟨hok, hsame⟩ := label_names_do_not_leak exchange {} routines
  obtain ⟨q, hq⟩ := hok.2 ⟨p, hp⟩
  obtain ⟨hbytes, _, haddresses, hlabels⟩ := hsame p q hp hq
  exact ⟨p, q, hp, hq, hold, hlabels ▸ hnew, hcode, hbytes, haddresses⟩

end Renaming

end Asm6502
