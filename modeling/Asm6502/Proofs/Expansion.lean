-- Expanded lines as code in a row. Where the code of a line ends plays no part
-- in what it does, so a source is told once, by `trace`, as the labels and
-- statements that its constructs become. An expansion gives lines that hold
-- exactly this code, and fails exactly if there is none.
import Asm6502.Control
import Asm6502.Directive
import Asm6502.Proofs.Except

namespace Asm6502

/-! ## Lines in a row -/

/-- A label or a statement, as they follow each other in lines. -/
inductive Item where
  | label (name : Text)
  | statement (st : Statement)
deriving DecidableEq, Repr

namespace Item

/-- The label of a line, if it has one. -/
def ofLabel (label : Text) : List Item := if label.isEmpty then [] else [.label label]

def label? : Item → Option Text
  | .label name => some name
  | .statement _ => none

def statement? : Item → Option Statement
  | .label _ => none
  | .statement st => some st

end Item

/-- The label of a line in front of its statements. -/
def Line.items (line : Line) : List Item :=
  Item.ofLabel line.label ++ line.statements.map Item.statement

/-- The labels and statements of lines. -/
def itemsOf (lines : List Line) : List Item := lines.flatMap Line.items

theorem itemsOf_append (front back : List Line) :
    itemsOf (front ++ back) = itemsOf front ++ itemsOf back := List.flatMap_append

theorem itemsOf_cons (line : Line) (lines : List Line) :
    itemsOf (line :: lines) = line.items ++ itemsOf lines := List.flatMap_cons

theorem Line.items_statements (line : Line) :
    line.items.filterMap Item.statement? = line.statements := by
  have hlabel : (Item.ofLabel line.label).filterMap Item.statement? = [] := by
    unfold Item.ofLabel
    split
    · rfl
    · rfl
  rw [items, List.filterMap_append, hlabel, List.filterMap_map]
  exact List.filterMap_some

/-- The statements of lines, in the order of the text. -/
theorem itemsOf_statements (lines : List Line) :
    (itemsOf lines).filterMap Item.statement? = lines.flatMap Line.statements := by
  induction lines with
  | nil => rfl
  | cons line lines ih =>
    rw [itemsOf_cons, List.filterMap_append, line.items_statements, ih, List.flatMap_cons]

namespace Control

/-! ## Statements of the source -/

/-- The comparison of two expressions. -/
def comparing (left right : Expr) : Statement :=
  { command := .ident (ascii "T"), operand := .binary left .sub right }

theorem Condition.of?_eq_some {e : Expr} {condition : Condition} :
    Condition.of? e = some condition ↔ ∃ left op right, e = .binary left op right ∧
      inverted? op = some condition.skip ∧ condition.compare = comparing left right := by
  constructor
  · intro h
    unfold Condition.of? at h
    split at h
    · rename_i left op right
      obtain ⟨skip, hs, rfl⟩ := Option.map_eq_some_iff.1 h
      exact ⟨left, op, right, rfl, hs, rfl⟩
    · cases h
  · rintro ⟨left, op, right, rfl, hs, hc⟩
    rw [Condition.of?, hs, Option.map_some, ← comparing, ← hc]

/-- A statement that decides over the rest of its line has a comparison behind
`;`. -/
theorem kind_choice {st : Statement} {condition : Condition} (h : kind st = .choice condition) :
    st.command = .system (ascii ";") ∧ Condition.of? st.operand = some condition := by
  unfold kind at h
  split at h
  · rename_i hc
    split at h
    · rename_i hcondition
      cases h
      exact ⟨hc, hcondition⟩
    · cases h
  · split at h
    · split at h <;> cases h
    · cases h

/-- Only `;` and `@` start constructs. -/
theorem kind_of_command {st : Statement} (hif : st.command ≠ .system (ascii ";"))
    (hloop : st.command ≠ .system (ascii "@")) : kind st = .plain := by
  rw [kind, if_neg hif, if_neg hloop]

theorem shorthand_system {st : Statement} {run : Text} (h : st.command = .system run) :
    shorthand st = [st] := by
  unfold shorthand
  split
  · rename_i hc _
    rw [h] at hc
    cases hc
  · rw [h]
    rfl
  · rfl

/-- Shorthand never stands for a system operator. -/
theorem shorthand_not_system {st part : Statement} (h : ∀ run, st.command ≠ .system run)
    (hp : part ∈ shorthand st) : ∀ run, part.command ≠ .system run := by
  unfold shorthand at hp
  split at hp
  · split at hp
    · simp only [List.mem_cons, List.not_mem_nil, or_false] at hp
      rcases hp with rfl | rfl
      · simp
      · simp
    · rw [List.mem_singleton.1 hp]
      exact h
  · split at hp
    · rw [List.eq_of_mem_replicate hp]
      exact h
    · rw [List.mem_singleton.1 hp]
      exact h
  · rw [List.mem_singleton.1 hp]
    exact h

/-- The statements that a statement of the source stays as. -/
def kept (st : Statement) : List Statement := if kind st = .plain then shorthand st else []

/-! ## Generated code -/

/-- A generated label: the one in front of the construct with a number, or the
one behind it. -/
inductive Mark where
  | header (number : Nat)
  | trailer (number : Nat)
deriving DecidableEq, Repr

def Mark.label : Mark → Text
  | .header number => labelOf number
  | .trailer number => Control.trailer (labelOf number)

theorem Mark.isGenerated_label (m : Mark) : Label.isGenerated m.label = true := by
  have hstart (rest : Text) : Label.isGenerated (Label.generatedStart ++ rest) = true :=
    List.isPrefixOf_iff_prefix.2 (List.prefix_append _ _)
  cases m with
  | header number => exact hstart _
  | trailer number =>
    rw [label, Control.trailer, labelOf, List.append_assoc]
    exact hstart _

/-- Expanded code, with what it comes from: the first two kinds are written in
the source, the others are generated for a construct. -/
inductive Code where
  | label (name : Text)
  | plain (st : Statement)
  | mark (m : Mark)
  | compare (st : Statement)
  | branch (skip : Text) (target : Mark)
  | jump (target : Mark)
deriving DecidableEq, Repr

namespace Code

def item : Code → Item
  | .label name => .label name
  | .plain st => .statement st
  | .mark m => .label m.label
  | .compare st => .statement st
  | .branch skip target => .statement (Control.branch skip target.label)
  | .jump target => .statement (Control.jump target.label)

/-- The label of a source line, if there is one. -/
def ofLabel (label : Text) : List Code := if label.isEmpty then [] else [.label label]

/-- The statement of the source that the code is. -/
def plain? : Code → Option Statement
  | .plain st => some st
  | _ => none

theorem ofLabel_item (label : Text) : (ofLabel label).map item = Item.ofLabel label := by
  unfold ofLabel Item.ofLabel
  split
  · rfl
  · rfl

theorem ofLabel_plain (label : Text) : (ofLabel label).filterMap plain? = [] := by
  unfold ofLabel
  split
  · rfl
  · rfl

theorem plain_item (sts : List Statement) :
    (sts.map Code.plain).map item = sts.map Item.statement := by
  rw [List.map_map]
  rfl

theorem plain_plain (sts : List Statement) : (sts.map Code.plain).filterMap plain? = sts := by
  rw [List.filterMap_map]
  exact List.filterMap_some

end Code

/-- The code of a construct up to its condition: where the construct is left. -/
def guard (condition : Condition) (target : Mark) : List Code :=
  [.compare condition.compare, .branch condition.skip target]

/-- The code that ends the loop with a number. -/
def repetition (condition : Condition) (number : Nat) : List Code :=
  guard condition (.trailer number) ++ [.jump (.header number), .mark (.trailer number)]

/-! ## Traces -/

/-- The code of some text, and what follows it: the number of the next construct
and the numbers of the open loops, the innermost one first. -/
structure Trace where
  code : List Code
  counter : Nat
  loops : List Nat
deriving DecidableEq, Repr

namespace Trace

def after (front : List Code) (t : Trace) : Trace := { t with code := front ++ t.code }

def before (back : List Code) (t : Trace) : Trace := { t with code := t.code ++ back }

end Trace

/-- The code of statements that are the rest of a line. -/
def trace (counter : Nat) (loops : List Nat) : List Statement → Option Trace
  | [] => some { code := [], counter, loops }
  | st :: rest =>
    match kind st with
    | .plain => (trace counter loops rest).map (Trace.after ((shorthand st).map Code.plain))
    | .choice condition =>
      ((trace (counter + 1) loops rest).map (Trace.before [.mark (.trailer counter)])).map
        (Trace.after (.mark (.header counter) :: guard condition (.trailer counter)))
    | .opening =>
      (trace (counter + 1) (counter :: loops) rest).map (Trace.after [.mark (.header counter)])
    | .closing operand =>
      match loops, Condition.of? operand with
      | number :: outer, some condition =>
        (trace counter outer rest).map (Trace.after (repetition condition number))
      | _, _ => none

/-- The code of lines. -/
def traceLines (counter : Nat) (loops : List Nat) : List Line → Option Trace
  | [] => some { code := [], counter, loops }
  | line :: rest =>
    (trace counter loops line.statements).bind fun first =>
      (traceLines first.counter first.loops rest).map
        (Trace.after (Code.ofLabel line.label ++ first.code))

/-! ## Expansions and their traces -/

/-- The expansion gives lines that hold code behind some labels and statements,
and leads to the state that the code leads to. -/
structure Expansion.Shows (e : Expansion) (front : List Item) (t : Trace) : Prop where
  lines_eq : ∃ out, e.lines = .ok out ∧ itemsOf out = front ++ t.code.map Code.item
  counter_eq : e.state.counter = t.counter
  loops_eq : e.state.loops.items.map Loop.label = t.loops.map labelOf

/-- The expansion shows the code, or fails if there is none. -/
def Expansion.Agrees (e : Expansion) (front : List Item) : Option Trace → Prop
  | some t => e.Shows front t
  | none => ∃ error, e.lines = .error error

namespace Expansion.Agrees

variable {e : Expansion} {front : List Item} {t : Option Trace}

theorem after (h : e.Agrees front t) (lines : List Line) :
    (e.after lines).Agrees (itemsOf lines ++ front) t := by
  cases t with
  | none =>
    obtain ⟨error, he⟩ := h
    exact ⟨error, by simp only [Expansion.after, he, Except.map]⟩
  | some t =>
    obtain ⟨⟨out, ho, hi⟩, hc, hl⟩ := h
    refine ⟨⟨lines ++ out, ?_, ?_⟩, hc, hl⟩
    · simp only [Expansion.after, ho, Except.map]
    · rw [itemsOf_append, hi, List.append_assoc]

theorem before (h : e.Agrees front t) {line : Line} {back : List Code}
    (hb : line.items = back.map Code.item) :
    (e.before line).Agrees front (t.map (Trace.before back)) := by
  cases t with
  | none =>
    obtain ⟨error, he⟩ := h
    exact ⟨error, by simp only [Expansion.before, he, Except.map]⟩
  | some t =>
    obtain ⟨⟨out, ho, hi⟩, hc, hl⟩ := h
    refine ⟨⟨out ++ [line], ?_, ?_⟩, hc, hl⟩
    · simp only [Expansion.before, ho, Except.map]
    · rw [itemsOf_append, hi, itemsOf_cons, hb, Trace.before, List.map_append, List.append_assoc]
      simp [itemsOf]

/-- Code that every trace starts with may be counted to what stands before it. -/
theorem ofCode {code : List Code} (h : e.Agrees (front ++ code.map Code.item) t) :
    e.Agrees front (t.map (Trace.after code)) := by
  cases t with
  | none => exact h
  | some t =>
    obtain ⟨⟨out, ho, hi⟩, hc, hl⟩ := h
    refine ⟨⟨out, ho, ?_⟩, hc, hl⟩
    rw [hi, Trace.after, List.map_append, List.append_assoc]

/-- Lines in front of an expansion add their code to its trace. -/
theorem emit {lines : List Line} {code : List Code} (h : e.Agrees [] t)
    (hlines : itemsOf lines = front ++ code.map Code.item) :
    (e.after lines).Agrees front (t.map (Trace.after code)) := by
  apply ofCode
  rw [← hlines, ← List.append_nil (itemsOf lines)]
  exact h.after lines

end Expansion.Agrees

theorem flush_items (line : Line) (label : Text) (pending : List Statement) :
    itemsOf (flush line label pending) = Item.ofLabel label ++ pending.map Item.statement := by
  unfold flush
  split
  · rename_i h
    rw [Bool.and_eq_true, List.isEmpty_iff, List.isEmpty_iff] at h
    rw [h.1, h.2]
    rfl
  · simp [itemsOf, Line.items]

theorem Mark.label_ne_nil (m : Mark) : m.label ≠ [] := by
  cases m with
  | header number => simp [label, labelOf, Label.generatedStart, ascii]
  | trailer number => simp [label, labelOf, Control.trailer, Label.generatedStart, ascii]

theorem labelled_items (line : Line) (m : Mark) :
    (labelled line m.label).items = [Code.mark m].map Code.item := by
  simp [labelled, Line.items, Item.ofLabel, Code.item, m.label_ne_nil]

/-- The statements of a line are expanded to their code, behind the label and
the statements that were gathered. -/
theorem expandStatements_agrees (line : Line) (label : Text) (pending : List Statement)
    (state : State) (sts : List Statement) {loops : List Nat}
    (hl : state.loops.items.map Loop.label = loops.map labelOf) :
    (expandStatements line label pending state sts).Agrees
      (Item.ofLabel label ++ pending.map Item.statement) (trace state.counter loops sts) := by
  induction sts generalizing label pending state loops with
  | nil =>
    refine ⟨⟨_, rfl, ?_⟩, rfl, hl⟩
    rw [flush_items]
    simp
  | cons st rest ih =>
    cases hk : kind st with
    | plain =>
      simp only [expandStatements, trace, hk]
      apply Expansion.Agrees.ofCode
      have hrest := ih label (pending ++ shorthand st) state hl
      rwa [List.map_append, ← List.append_assoc, ← Code.plain_item (shorthand st)] at hrest
    | choice condition =>
      simp only [expandStatements, trace, hk]
      have hrest := ih [] [] { state with counter := state.counter + 1 } hl
      refine (hrest.before (labelled_items line (.trailer state.counter))).emit ?_
      rw [itemsOf_append, flush_items]
      exact congrArg _ (congrArg (· ++ _) (labelled_items line (.header state.counter)))
    | opening =>
      simp only [expandStatements, trace, hk]
      have hpush : (state.loops.push ⟨labelOf state.counter, line.number⟩).items.map Loop.label =
          (state.counter :: loops).map labelOf := by simp [Stack.push, hl]
      have hrest := ih [] [] ⟨state.counter + 1, _⟩ hpush
      refine hrest.emit ?_
      rw [itemsOf_append, flush_items, itemsOf_cons]
      exact congrArg _ (labelled_items line (.header state.counter))
    | closing operand =>
      simp only [expandStatements, trace, hk]
      cases hs : state.loops.items with
      | nil =>
        rw [hs, List.map_nil, eq_comm, List.map_eq_nil_iff] at hl
        subst hl
        exact ⟨.unmatchedLoop, by simp only [Stack.pop?, hs]⟩
      | cons loop outer =>
        rw [hs] at hl
        obtain ⟨number, numbers, rfl, hnumber, hnumbers⟩ := List.map_eq_cons_iff.1 hl.symm
        simp only [Stack.pop?, hs]
        cases hc : Condition.of? operand with
        | none => exact ⟨_, rfl⟩
        | some condition =>
          have hrest := ih [] [] ⟨state.counter, ⟨outer⟩⟩ hnumbers.symm
          refine hrest.emit ?_
          rw [itemsOf_append, flush_items, ← hnumber]
          exact congrArg _ (congrArg (_ :: _ :: _ :: ·) (labelled_items line (.trailer number)))

theorem expandLine_agrees (state : State) (line : Line) {loops : List Nat}
    (hl : state.loops.items.map Loop.label = loops.map labelOf) :
    (expandLine state line).Agrees []
      ((trace state.counter loops line.statements).map
        (Trace.after (Code.ofLabel line.label))) := by
  have h := expandStatements_agrees line line.label [] state line.statements hl
  rw [List.map_nil, List.append_nil, ← Code.ofLabel_item] at h
  have h : (expandStatements line line.label [] state line.statements).Agrees [] _ := h.ofCode
  unfold expandLine
  cases ht : trace state.counter loops line.statements with
  | none =>
    rw [ht] at h
    obtain ⟨error, he⟩ := h
    exact ⟨.located line.file line.number line.text error, by simp only [he, Except.mapError]⟩
  | some t =>
    rw [ht] at h
    obtain ⟨⟨out, ho, hi⟩, hc, hs⟩ := h
    exact ⟨⟨out, by simp only [ho, Except.mapError], hi⟩, hc, hs⟩

theorem expandLines_agrees (state : State) (lines : List Line) {loops : List Nat}
    (hl : state.loops.items.map Loop.label = loops.map labelOf) :
    (expandLines state lines).Agrees [] (traceLines state.counter loops lines) := by
  induction lines generalizing state loops with
  | nil => exact ⟨⟨[], rfl, rfl⟩, rfl, hl⟩
  | cons line rest ih =>
    have hfirst := expandLine_agrees state line hl
    rw [expandLines, traceLines]
    cases ht : trace state.counter loops line.statements with
    | none =>
      rw [ht] at hfirst
      obtain ⟨error, he⟩ := hfirst
      exact ⟨error, by simp only [he]⟩
    | some first =>
      rw [ht] at hfirst
      obtain ⟨⟨out, ho, hi⟩, hc, hs⟩ := hfirst
      have hrest := ih (expandLine state line).state hs
      rw [hc] at hrest
      simp only [ho]
      exact hrest.emit hi

/-- From a state without open loops, an expansion that succeeds gives lines that
hold the code of a trace without open loops. -/
theorem trace_of_expand {state : State} {lines out : List Line} (hopen : state.loops.items = [])
    (h : (expand state lines).lines = .ok out) :
    ∃ t, traceLines state.counter [] lines = some t ∧ t.loops = [] ∧
      itemsOf out = t.code.map Code.item := by
  have hempty : state.loops.items.map Loop.label = [].map labelOf := by rw [hopen]; rfl
  have hagrees := expandLines_agrees state lines hempty
  unfold expand at h
  simp only at h
  cases ht : traceLines state.counter [] lines with
  | none =>
    rw [ht] at hagrees
    obtain ⟨error, he⟩ := hagrees
    simp only [he] at h
    cases h
  | some t =>
    rw [ht] at hagrees
    obtain ⟨⟨out', ho, hi⟩, _, hl⟩ := hagrees
    simp only [ho] at h
    split at h
    · rename_i htop
      rw [ho] at h
      cases h
      refine ⟨t, rfl, ?_, hi⟩
      rw [Stack.top?, List.head?_eq_none_iff] at htop
      rw [htop, List.map_nil, eq_comm, List.map_eq_nil_iff] at hl
      exact hl
    · cases h

theorem expand_of_trace {state : State} {lines : List Line} {t : Trace}
    (hopen : state.loops.items = []) (ht : traceLines state.counter [] lines = some t)
    (hclosed : t.loops = []) :
    ∃ out, (expand state lines).lines = .ok out ∧ itemsOf out = t.code.map Code.item := by
  have hempty : state.loops.items.map Loop.label = [].map labelOf := by rw [hopen]; rfl
  have hagrees := expandLines_agrees state lines hempty
  rw [ht] at hagrees
  obtain ⟨⟨out, ho, hi⟩, _, hl⟩ := hagrees
  rw [hclosed, List.map_nil, List.map_eq_nil_iff] at hl
  refine ⟨out, ?_, hi⟩
  simp only [expand, ho, Stack.top?, hl, List.head?_nil]

/-! ## What traces are made of -/

/-- The ways in which statements get their code. -/
inductive Traced : Nat → List Nat → List Statement → Trace → Prop
  | done (counter : Nat) (loops : List Nat) : Traced counter loops [] ⟨[], counter, loops⟩
  | plain {counter : Nat} {loops : List Nat} {st : Statement} {rest : List Statement} {t : Trace}
      (is_plain : kind st = .plain) (next : Traced counter loops rest t) :
      Traced counter loops (st :: rest) (t.after ((shorthand st).map Code.plain))
  | choice {counter : Nat} {loops : List Nat} {st : Statement} {rest : List Statement} {t : Trace}
      {condition : Condition} (is_choice : kind st = .choice condition)
      (next : Traced (counter + 1) loops rest t) :
      Traced counter loops (st :: rest) ((t.before [.mark (.trailer counter)]).after
        (.mark (.header counter) :: guard condition (.trailer counter)))
  | opening {counter : Nat} {loops : List Nat} {st : Statement} {rest : List Statement}
      {t : Trace} (is_opening : kind st = .opening)
      (next : Traced (counter + 1) (counter :: loops) rest t) :
      Traced counter loops (st :: rest) (t.after [.mark (.header counter)])
  | closing {counter number : Nat} {loops : List Nat} {st : Statement} {rest : List Statement}
      {t : Trace} {operand : Expr} {condition : Condition} (is_closing : kind st = .closing operand)
      (is_condition : Condition.of? operand = some condition)
      (next : Traced counter loops rest t) :
      Traced counter (number :: loops) (st :: rest) (t.after (repetition condition number))

theorem traced_of_trace {counter : Nat} {loops : List Nat} {sts : List Statement} {t : Trace}
    (h : trace counter loops sts = some t) : Traced counter loops sts t := by
  induction sts generalizing counter loops t with
  | nil =>
    cases h
    exact .done counter loops
  | cons st rest ih =>
    cases hk : kind st with
    | plain =>
      simp only [trace, hk] at h
      obtain ⟨inner, hi, rfl⟩ := Option.map_eq_some_iff.1 h
      exact .plain hk (ih hi)
    | choice condition =>
      simp only [trace, hk] at h
      obtain ⟨_, hb, rfl⟩ := Option.map_eq_some_iff.1 h
      obtain ⟨inner, hi, rfl⟩ := Option.map_eq_some_iff.1 hb
      exact .choice hk (ih hi)
    | opening =>
      simp only [trace, hk] at h
      obtain ⟨inner, hi, rfl⟩ := Option.map_eq_some_iff.1 h
      exact .opening hk (ih hi)
    | closing operand =>
      simp only [trace, hk] at h
      split at h
      · rename_i number outer condition hc
        obtain ⟨inner, hi, rfl⟩ := Option.map_eq_some_iff.1 h
        exact .closing hk hc (ih hi)
      · cases h

/-- The code of lines is the code of the first one, behind its label, and then
the code of the others. -/
theorem traceLines_cons {counter : Nat} {loops : List Nat} {line : Line} {rest : List Line}
    {t : Trace} (h : traceLines counter loops (line :: rest) = some t) :
    ∃ first others, Traced counter loops line.statements first ∧
      traceLines first.counter first.loops rest = some others ∧
      t = others.after (Code.ofLabel line.label ++ first.code) := by
  obtain ⟨first, hf, h⟩ := Option.bind_eq_some_iff.1 h
  obtain ⟨others, ho, rfl⟩ := Option.map_eq_some_iff.1 h
  exact ⟨first, others, traced_of_trace hf, ho, rfl⟩

/-- A comparison in the code compares two expressions. -/
def Code.Compares : Code → Prop
  | .compare st => ∃ left right, st = comparing left right
  | _ => True

theorem Condition.compares {e : Expr} {condition : Condition}
    (h : Condition.of? e = some condition) : (Code.compare condition.compare).Compares := by
  obtain ⟨left, _, right, _, _, hc⟩ := Condition.of?_eq_some.1 h
  exact ⟨left, right, hc⟩

/-- What holds of all source statements and of all code that is generated for
constructs holds of the code of statements. -/
theorem Traced.forall_code {P : Code → Prop} {counter : Nat} {loops : List Nat}
    {sts : List Statement} {t : Trace} (h : Traced counter loops sts t)
    (hplain : ∀ st, P (.plain st)) (hmark : ∀ m, P (.mark m))
    (hcompare : ∀ {e condition}, Condition.of? e = some condition → P (.compare condition.compare))
    (hbranch : ∀ skip target, P (.branch skip target)) (hjump : ∀ target, P (.jump target)) :
    ∀ c ∈ t.code, P c := by
  induction h with
  | done => simp
  | plain _ _ ih =>
    refine List.forall_mem_append.2 ⟨fun c hc => ?_, ih⟩
    obtain ⟨st, _, rfl⟩ := List.mem_map.1 hc
    exact hplain st
  | choice hk _ ih =>
    simp only [Trace.after, Trace.before, guard, List.cons_append, List.nil_append,
      List.forall_mem_cons, List.forall_mem_append]
    exact ⟨hmark _, hcompare (kind_choice hk).2, hbranch _ _, ih, hmark _, by simp⟩
  | opening _ _ ih =>
    simp only [Trace.after, List.cons_append, List.nil_append, List.forall_mem_cons]
    exact ⟨hmark _, ih⟩
  | closing _ hc _ ih =>
    simp only [Trace.after, repetition, guard, List.cons_append, List.nil_append,
      List.forall_mem_cons]
    exact ⟨hcompare hc, hbranch _ _, hjump _, hmark _, ih⟩

theorem Traced.compares {counter : Nat} {loops : List Nat} {sts : List Statement} {t : Trace}
    (h : Traced counter loops sts t) : ∀ c ∈ t.code, c.Compares :=
  h.forall_code (fun _ => trivial) (fun _ => trivial) Condition.compares
    (fun _ _ => trivial) (fun _ => trivial)

theorem traceLines_compares {counter : Nat} {loops : List Nat} {lines : List Line} {t : Trace}
    (h : traceLines counter loops lines = some t) : ∀ c ∈ t.code, c.Compares := by
  induction lines generalizing counter loops t with
  | nil =>
    cases h
    simp
  | cons line rest ih =>
    obtain ⟨first, others, hf, ho, rfl⟩ := traceLines_cons h
    have hlabel : ∀ c ∈ Code.ofLabel line.label, c.Compares := by
      intro c hc
      unfold Code.ofLabel at hc
      split at hc
      · cases hc
      · rw [List.mem_singleton.1 hc]
        trivial
    simp only [Trace.after, List.forall_mem_append]
    exact ⟨⟨hlabel, hf.compares⟩, ih ho⟩

theorem Traced.plain_eq {counter : Nat} {loops : List Nat} {sts : List Statement} {t : Trace}
    (h : Traced counter loops sts t) : t.code.filterMap Code.plain? = sts.flatMap kept := by
  induction h with
  | done => rfl
  | plain hk _ ih =>
    rw [List.flatMap_cons, kept, if_pos hk, Trace.after, List.filterMap_append, Code.plain_plain,
      ih]
  | choice hk _ ih =>
    rw [List.flatMap_cons, kept, hk, ← ih]
    simp [Trace.after, Trace.before, guard, Code.plain?, List.filterMap_cons]
  | opening hk _ ih | closing hk _ _ ih =>
    rw [List.flatMap_cons, kept, hk, ← ih]
    rfl

/-- The source statements in the code of lines are the plain ones, in the order
of the text. -/
theorem traceLines_plain {counter : Nat} {loops : List Nat} {lines : List Line} {t : Trace}
    (h : traceLines counter loops lines = some t) :
    t.code.filterMap Code.plain? = (lines.flatMap Line.statements).flatMap kept := by
  induction lines generalizing counter loops t with
  | nil =>
    cases h
    rfl
  | cons line rest ih =>
    obtain ⟨first, others, hf, ho, rfl⟩ := traceLines_cons h
    rw [List.flatMap_cons, List.flatMap_append, ← hf.plain_eq, ← ih ho, Trace.after,
      List.filterMap_append, List.filterMap_append, Code.ofLabel_plain, List.nil_append]

end Control

/-! ## Directives -/

/-- The statement is a `*`, a `:`, a `?` or a `$`. -/
def Statement.isDirective (st : Statement) : Bool := (Directive.of? st.command).isSome

theorem Statement.command_of_isDirective {st : Statement} (h : st.isDirective = true) :
    ∃ sign ∈ ["*", ":", "?", "$"], st.command = .system (ascii sign) := by
  unfold isDirective Directive.of? at h
  split_ifs at h with h1 h2 h3 h4
  · exact ⟨"*", by simp, h1⟩
  · exact ⟨":", by simp, h2⟩
  · exact ⟨"?", by simp, h3⟩
  · exact ⟨"$", by simp, h4⟩
  · cases h

namespace Control

theorem kept_directives (st : Statement) :
    (kept st).filter Statement.isDirective = [st].filter Statement.isDirective := by
  by_cases hs : ∃ run, st.command = .system run
  · obtain ⟨run, hrun⟩ := hs
    unfold kept
    split
    · rw [shorthand_system hrun]
    · rename_i hk
      have hno : ¬ st.isDirective := by
        intro hd
        obtain ⟨sign, hsign, hc⟩ := Statement.command_of_isDirective hd
        have hplain : ∀ sign ∈ ["*", ":", "?", "$"],
            Expr.system (ascii sign) ≠ .system (ascii ";") ∧
              Expr.system (ascii sign) ≠ .system (ascii "@") := by decide +kernel
        exact hk (kind_of_command (hc ▸ (hplain sign hsign).1) (hc ▸ (hplain sign hsign).2))
      simp [hno]
  · have hnot : ∀ run, st.command ≠ .system run := fun run h => hs ⟨run, h⟩
    have hno {other : Statement} (h : ∀ run, other.command ≠ .system run) :
        ¬ other.isDirective := by
      intro hd
      obtain ⟨sign, _, hc⟩ := Statement.command_of_isDirective hd
      exact h _ hc
    rw [kept, if_pos (kind_of_command (hnot _) (hnot _)), List.filter_eq_nil_iff.2,
      List.filter_eq_nil_iff.2]
    · intro other ho
      rw [List.mem_singleton.1 ho]
      exact hno hnot
    · intro other ho
      exact hno (shorthand_not_system hnot ho)

/-- Of the statements in code, only those of the source are directives. -/
theorem Code.directive_item {c : Code} (h : c.Compares) :
    c.item.statement?.filter Statement.isDirective = c.plain?.filter Statement.isDirective := by
  cases c with
  | label | plain | mark => rfl
  | compare st =>
    obtain ⟨left, right, rfl⟩ := h
    rfl
  | branch skip target | jump target => rfl

/-- Expansion keeps all directives in the order of the text, and adds none. -/
theorem expand_directives {state : State} {lines out : List Line} (hopen : state.loops.items = [])
    (h : (expand state lines).lines = .ok out) :
    (out.flatMap Line.statements).filter Statement.isDirective =
      (lines.flatMap Line.statements).filter Statement.isDirective := by
  obtain ⟨t, ht, _, hi⟩ := trace_of_expand hopen h
  have hcode : t.code.filterMap (fun c => c.item.statement?.filter Statement.isDirective) =
      t.code.filterMap fun c => c.plain?.filter Statement.isDirective :=
    List.filterMap_congr fun c hc => Code.directive_item (traceLines_compares ht c hc)
  calc (out.flatMap Line.statements).filter Statement.isDirective
      = ((t.code.map Code.item).filterMap Item.statement?).filter Statement.isDirective := by
        rw [← itemsOf_statements, hi]
    _ = (t.code.filterMap Code.plain?).filter Statement.isDirective := by
        rw [List.filterMap_map, List.filter_filterMap, List.filter_filterMap]
        exact hcode
    _ = ((lines.flatMap Line.statements).flatMap kept).filter Statement.isDirective := by
        rw [traceLines_plain ht]
    _ = (lines.flatMap Line.statements).filter Statement.isDirective := by
        rw [List.filter_flatMap, funext kept_directives, ← List.filter_flatMap,
          List.flatMap_singleton']

end Control

end Asm6502
