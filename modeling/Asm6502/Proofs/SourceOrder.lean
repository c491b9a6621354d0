-- Expanded lines follow their source. Every statement becomes a few statements
-- in its place, the label of a line stands on the first line that comes from it,
-- and every line stands where its source line stood. Nothing is lost, written
-- twice or moved.
import Asm6502.Proofs.GeneratedLabels

namespace Asm6502

namespace Control

/-! ## What statements become -/

/-- The number of a construct that starts behind statements. -/
def numberBehind (counter : Nat) (before : List Statement) : Nat :=
  counter + before.countP startsConstruct

/-- What stands before the statement that opens a loop, found by going back from
its end: the nearest statement comes first, and each loop that is closed on the
way is passed with the statement that opens it. -/
def beforeLoop? (closed : Nat) : List Statement → Option (List Statement)
  | [] => none
  | st :: before =>
    match kind st with
    | .opening => if closed = 0 then some before else beforeLoop? (closed - 1) before
    | .closing _ => beforeLoop? (closed + 1) before
    | .plain | .choice _ => beforeLoop? closed before

/-- The compare of a condition, and the branch that is taken if it fails. -/
def tested? (condition : Expr) (target : Text) : Option (List Statement) :=
  match condition with
  | .binary left op right =>
    (inverted? op).map fun skip => [comparing left right, branch skip target]
  | _ => none

/-- What a statement becomes behind the statements before it, the nearest one
first. -/
def becomes? (counter : Nat) (before : List Statement) (st : Statement) :
    Option (List Statement) :=
  match kind st with
  | .plain => some (shorthand st)
  | .choice _ => tested? st.operand (trailer (labelOf (numberBehind counter before)))
  | .opening => some []
  | .closing condition => do
    let front ← beforeLoop? 0 before
    let header := labelOf (numberBehind counter front)
    let test ← tested? condition (trailer header)
    return test ++ [jump header]

/-- What statements become, in the order of the text. -/
def allBecome? (counter : Nat) (before : List Statement) :
    List Statement → Option (List Statement)
  | [] => some []
  | st :: rest => do
    let first ← becomes? counter before st
    let others ← allBecome? counter (st :: before) rest
    return first ++ others

theorem becomes?_closing {counter : Nat} {before front test : List Statement} {st : Statement}
    {condition : Expr} (hk : kind st = .closing condition) (hf : beforeLoop? 0 before = some front)
    (ht : tested? condition (trailer (labelOf (numberBehind counter front))) = some test) :
    becomes? counter before st = some (test ++ [jump (labelOf (numberBehind counter front))]) := by
  simp only [becomes?, hk, hf, ht, bind, Option.bind, pure]

theorem allBecome?_cons {counter : Nat} {before rest first others : List Statement}
    {st : Statement} (hf : becomes? counter before st = some first)
    (ho : allBecome? counter (st :: before) rest = some others) :
    allBecome? counter before (st :: rest) = some (first ++ others) := by
  rw [allBecome?, hf, ho]
  rfl

theorem allBecome?_append {counter : Nat} {before xs ys front back : List Statement}
    (hx : allBecome? counter before xs = some front)
    (hy : allBecome? counter (xs.reverse ++ before) ys = some back) :
    allBecome? counter before (xs ++ ys) = some (front ++ back) := by
  induction xs generalizing before front with
  | nil =>
    cases hx
    exact hy
  | cons st xs ih =>
    rw [allBecome?] at hx
    obtain ⟨first, hf, hx⟩ := Option.bind_eq_some_iff.1 hx
    obtain ⟨others, ho, hx⟩ := Option.bind_eq_some_iff.1 hx
    cases hx
    rw [List.reverse_cons, List.append_assoc] at hy
    rw [List.append_assoc]
    exact allBecome?_cons hf (ih ho hy)

/-! ## Open loops -/

/-- The loops that are open behind statements have these numbers, the innermost
one first. -/
def OpenBehind (counter : Nat) (before : List Statement) (loops : List Nat) : Prop :=
  ∀ closed, (beforeLoop? closed before).map (numberBehind counter) = loops[closed]?

section OpenBehind

variable {counter : Nat} {before : List Statement} {loops : List Nat} {st : Statement}

theorem openBehind_nil : OpenBehind counter [] [] := fun _ => rfl

/-- Only loops change what is open. -/
theorem OpenBehind.other (h : OpenBehind counter before loops) (hopen : kind st ≠ .opening)
    (hclose : ∀ condition, kind st ≠ .closing condition) :
    OpenBehind counter (st :: before) loops := by
  intro closed
  rw [beforeLoop?]
  split
  · contradiction
  · exact absurd ‹_› (hclose _)
  · exact h closed
  · exact h closed

theorem OpenBehind.opening (h : OpenBehind counter before loops) (hk : kind st = .opening) :
    OpenBehind counter (st :: before) (numberBehind counter before :: loops) := by
  intro closed
  rw [beforeLoop?, hk]
  cases closed with
  | zero => rfl
  | succ closed => exact h closed

theorem OpenBehind.closing {number : Nat} {condition : Expr}
    (h : OpenBehind counter before (number :: loops)) (hk : kind st = .closing condition) :
    OpenBehind counter (st :: before) loops := by
  intro closed
  rw [beforeLoop?, hk]
  exact h (closed + 1)

theorem numberBehind_cons (hst : startsConstruct st = false) :
    numberBehind counter (st :: before) = numberBehind counter before := by
  rw [numberBehind, numberBehind, List.countP_cons_of_neg (by simp [hst])]

theorem numberBehind_cons_of_starts (hst : startsConstruct st = true) :
    numberBehind counter (st :: before) = numberBehind counter before + 1 := by
  rw [numberBehind, numberBehind, List.countP_cons_of_pos hst, Nat.add_assoc]

end OpenBehind

/-- The statements in code. -/
def statementsOf (code : List Code) : List Statement :=
  code.filterMap fun c => c.item.statement?

theorem statementsOf_append (front back : List Code) :
    statementsOf (front ++ back) = statementsOf front ++ statementsOf back :=
  List.filterMap_append

theorem statementsOf_plain (sts : List Statement) : statementsOf (sts.map Code.plain) = sts := by
  rw [statementsOf, List.filterMap_map]
  exact List.filterMap_some

theorem statementsOf_ofLabel (label : Text) : statementsOf (Code.ofLabel label) = [] := by
  unfold Code.ofLabel
  split
  · rfl
  · rfl

theorem statements_of_items {out : List Line} {code : List Code}
    (h : itemsOf out = code.map Code.item) : out.flatMap Line.statements = statementsOf code := by
  rw [← itemsOf_statements, h, List.filterMap_map]
  rfl

/-- The code of a guard is the test of its condition. -/
theorem tested?_eq {operand : Expr} {condition : Condition}
    (h : Condition.of? operand = some condition) (target : Mark) :
    tested? operand target.label = some (statementsOf (guard condition target)) := by
  obtain ⟨left, op, right, rfl, hs, hc⟩ := Condition.of?_eq_some.1 h
  rw [tested?, hs, ← hc]
  rfl

/-- The code of statements has what they become. -/
theorem Traced.becomes {number : Nat} {loops : List Nat} {sts : List Statement} {t : Trace}
    (h : Traced number loops sts t) {counter : Nat} {before : List Statement}
    (hn : numberBehind counter before = number) (hl : OpenBehind counter before loops) :
    allBecome? counter before sts = some (statementsOf t.code) ∧
      OpenBehind counter (sts.reverse ++ before) t.loops := by
  induction h generalizing before with
  | done => exact ⟨rfl, hl⟩
  | @plain _ _ st rest t hk _ ih =>
    have hst : startsConstruct st = false := by simp [startsConstruct, hk]
    obtain ⟨hrest, hopen⟩ :=
      ih ((numberBehind_cons hst).trans hn) (hl.other (by simp [hk]) (by simp [hk]))
    rw [List.reverse_cons, List.append_assoc]
    refine ⟨?_, hopen⟩
    rw [Trace.after, statementsOf_append, statementsOf_plain]
    exact allBecome?_cons (by rw [becomes?, hk]) hrest
  | @choice number _ st rest t condition hk _ ih =>
    have hst : startsConstruct st = true := by simp [startsConstruct, hk]
    obtain ⟨hrest, hopen⟩ := ih ((numberBehind_cons_of_starts hst).trans (congrArg _ hn))
      (hl.other (by simp [hk]) (by simp [hk]))
    have hcode : statementsOf ((t.before [.mark (.trailer number)]).after
        (.mark (.header number) :: guard condition (.trailer number))).code =
        statementsOf (guard condition (.trailer number)) ++ statementsOf t.code := by
      simp [Trace.after, Trace.before, statementsOf, Code.item, Item.statement?]
    rw [List.reverse_cons, List.append_assoc, hcode]
    refine ⟨allBecome?_cons ?_ hrest, hopen⟩
    rw [becomes?, hk, hn]
    exact tested?_eq (kind_choice hk).2 (.trailer number)
  | @opening number _ st rest t hk _ ih =>
    have hst : startsConstruct st = true := by simp [startsConstruct, hk]
    have hopened := hl.opening hk
    rw [hn] at hopened
    obtain ⟨hrest, hopen⟩ :=
      ih ((numberBehind_cons_of_starts hst).trans (congrArg _ hn)) hopened
    rw [List.reverse_cons, List.append_assoc]
    exact ⟨allBecome?_cons (by rw [becomes?, hk]) hrest, hopen⟩
  | @closing _ number loops st rest t operand condition hk hc _ ih =>
    have hst : startsConstruct st = false := by simp [startsConstruct, hk]
    obtain ⟨hrest, hopen⟩ := ih ((numberBehind_cons hst).trans hn) (hl.closing hk)
    -- The innermost open loop is the one that the statements before lead back to.
    obtain ⟨front, hfront, hnumber⟩ := Option.map_eq_some_iff.1 (hl 0)
    have hcode : statementsOf (t.after (repetition condition number)).code =
        (statementsOf (guard condition (.trailer number)) ++ [jump (labelOf number)]) ++
          statementsOf t.code := by
      simp [Trace.after, repetition, statementsOf, Code.item, Item.statement?, Mark.label]
    rw [List.reverse_cons, List.append_assoc, hcode]
    refine ⟨allBecome?_cons ?_ hrest, hopen⟩
    subst hnumber
    exact becomes?_closing hk hfront (tested?_eq hc (.trailer (numberBehind counter front)))

/-! ## Lines -/

/-- The line stands where another one stands. -/
structure SamePlace (line out : Line) : Prop where
  file_eq : out.file = line.file
  number_eq : out.number = line.number
  text_eq : out.text = line.text

/-- A line that comes from another one, behind the first: it has no label, or a
generated one. -/
structure Derived (line out : Line) : Prop where
  place : SamePlace line out
  label_eq : out.label = [] ∨ Label.isGenerated out.label = true

/-- The lines that come from a line with a label: all stand at its place, and the
label is on the first of them. -/
inductive BlockOf (line : Line) : Text → List Line → Prop
  | unlabelled {block : List Line} (derived : ∀ out ∈ block, Derived line out) :
      BlockOf line [] block
  | labelled {label : Text} {first : Line} {rest : List Line} (nonempty : label ≠ [])
      (place : SamePlace line first) (label_eq : first.label = label)
      (derived : ∀ out ∈ rest, Derived line out) : BlockOf line label (first :: rest)

section Block

variable {line : Line} {label : Text} {block : List Line}

theorem BlockOf.append (h : BlockOf line label block) {more : List Line}
    (hm : ∀ out ∈ more, Derived line out) : BlockOf line label (block ++ more) := by
  cases h with
  | unlabelled derived => exact .unlabelled (List.forall_mem_append.2 ⟨derived, hm⟩)
  | labelled nonempty place label_eq derived =>
    exact .labelled nonempty place label_eq (List.forall_mem_append.2 ⟨derived, hm⟩)

theorem BlockOf.forall_derived (h : BlockOf line [] block) : ∀ out ∈ block, Derived line out := by
  cases h with
  | unlabelled derived => exact derived
  | labelled nonempty => exact absurd rfl nonempty

theorem block_flush (line : Line) (label : Text) (pending : List Statement) :
    BlockOf line label (flush line label pending) := by
  by_cases hlabel : label = []
  · subst hlabel
    refine .unlabelled fun out ho => ?_
    unfold flush at ho
    split at ho
    · cases ho
    · rw [List.mem_singleton.1 ho]
      exact ⟨⟨rfl, rfl, rfl⟩, .inl rfl⟩
  · have hflush : flush line label pending = [{ line with label, statements := pending }] := by
      simp [flush, hlabel]
    rw [hflush]
    exact .labelled hlabel ⟨rfl, rfl, rfl⟩ rfl (by simp)

theorem derived_labelled (line : Line) (m : Mark) : Derived line (labelled line m.label) :=
  ⟨⟨rfl, rfl, rfl⟩, .inr m.isGenerated_label⟩

theorem derived_single (line : Line) (st : Statement) : Derived line (single line st) :=
  ⟨⟨rfl, rfl, rfl⟩, .inl rfl⟩

end Block

/-- The statements of a line are expanded to lines that come from it. -/
theorem expandStatements_block {line : Line} {label : Text} {pending : List Statement}
    {state : State} {sts : List Statement} {loops : List Nat}
    (hl : state.loops.items.map Loop.label = loops.map labelOf) {out : List Line}
    (h : (expandStatements line label pending state sts).lines = .ok out) :
    BlockOf line label out := by
  induction sts generalizing label pending state loops out with
  | nil =>
    cases h
    exact block_flush line label pending
  | cons st rest ih =>
    cases hk : kind st with
    | plain =>
      simp only [expandStatements, hk] at h
      exact ih hl h
    | choice condition =>
      simp only [expandStatements, hk] at h
      obtain ⟨_, hbody, rfl⟩ := Except.map_eq_ok.1 h
      obtain ⟨inner, hi, rfl⟩ := Except.map_eq_ok.1 hbody
      have hinner : BlockOf line [] inner :=
        @ih [] [] { state with counter := state.counter + 1 } loops hl inner hi
      rw [List.append_assoc]
      refine (block_flush line label pending).append ?_
      simp only [List.forall_mem_append, List.forall_mem_cons]
      exact ⟨⟨derived_labelled line (.header _), derived_single line _, derived_single line _,
        by simp⟩, hinner.forall_derived, derived_labelled line (.trailer _), by simp⟩
    | opening =>
      simp only [expandStatements, hk] at h
      obtain ⟨inner, hi, rfl⟩ := Except.map_eq_ok.1 h
      have hpush : (state.loops.push ⟨labelOf state.counter, line.number⟩).items.map Loop.label =
          (state.counter :: loops).map labelOf := by simp [Stack.push, hl]
      have hinner := (ih hpush hi).forall_derived
      rw [List.append_assoc]
      refine (block_flush line label pending).append ?_
      simp only [List.forall_mem_append, List.forall_mem_cons]
      exact ⟨⟨derived_labelled line (.header _), by simp⟩, hinner⟩
    | closing operand =>
      simp only [expandStatements, hk] at h
      cases hs : state.loops.items with
      | nil =>
        simp only [Stack.pop?, hs] at h
        cases h
      | cons loop outer =>
        rw [hs] at hl
        obtain ⟨number, numbers, rfl, hnumber, hnumbers⟩ := List.map_eq_cons_iff.1 hl.symm
        simp only [Stack.pop?, hs] at h
        split at h
        · cases h
        · obtain ⟨inner, hi, rfl⟩ := Except.map_eq_ok.1 h
          have hinner := (ih hnumbers.symm hi).forall_derived
          rw [List.append_assoc, ← hnumber]
          refine (block_flush line label pending).append ?_
          simp only [List.forall_mem_append, List.forall_mem_cons]
          exact ⟨⟨derived_single line _, derived_single line _, derived_single line _,
            derived_labelled line (.trailer number), by simp⟩, hinner⟩

/-- The lines that come from lines, one block for each of them. Each block has
what the statements of its line become behind those before it. -/
inductive BlocksOf (counter : Nat) : List Statement → List Line → List (List Line) → Prop
  | nil (before : List Statement) : BlocksOf counter before [] []
  | cons {before : List Statement} {line : Line} {rest : List Line} {block : List Line}
      {blocks : List (List Line)} (own : BlockOf line line.label block)
      (becomes : allBecome? counter before line.statements = some (block.flatMap Line.statements))
      (others : BlocksOf counter (line.statements.reverse ++ before) rest blocks) :
      BlocksOf counter before (line :: rest) (block :: blocks)

/-- The state of an expansion is the one behind these statements. -/
structure StateBehind (counter : Nat) (before : List Statement) (state : State) : Prop where
  counter_eq : numberBehind counter before = state.counter
  loops_eq : ∃ loops, OpenBehind counter before loops ∧
    state.loops.items.map Loop.label = loops.map labelOf

section Lines

variable {state : State} {counter : Nat} {before : List Statement}

/-- One line is expanded to its block, and its statements are then behind the
state. -/
theorem expandLine_block {line : Line} {block : List Line} (hs : StateBehind counter before state)
    (h : (expandLine state line).lines = .ok block) :
    BlockOf line line.label block ∧
      allBecome? counter before line.statements = some (block.flatMap Line.statements) ∧
      StateBehind counter (line.statements.reverse ++ before) (expandLine state line).state := by
  obtain ⟨hn, loops, hopen, hl⟩ := hs
  have hagrees := expandLine_agrees state line hl
  cases ht : trace state.counter loops line.statements with
  | none =>
    rw [ht] at hagrees
    obtain ⟨error, he⟩ := hagrees
    cases h.symm.trans he
  | some t =>
    rw [ht] at hagrees
    obtain ⟨⟨out, ho, hi⟩, hc, hl'⟩ := hagrees
    cases h.symm.trans ho
    have htraced := traced_of_trace ht
    obtain ⟨hbecome, hopen'⟩ := htraced.becomes hn hopen
    refine ⟨expandStatements_block hl (Except.mapError_eq_ok.1 h), ?_, ?_, t.loops, hopen', hl'⟩
    · rw [statements_of_items hi, Trace.after, statementsOf_append, statementsOf_ofLabel]
      exact hbecome
    · rw [hc, Trace.after, htraced.counter_eq, ← hn, numberBehind, numberBehind,
        List.countP_append, List.countP_reverse]
      omega

theorem expandLines_blocks {lines out : List Line} (hs : StateBehind counter before state)
    (h : (expandLines state lines).lines = .ok out) :
    ∃ blocks, out = blocks.flatten ∧ BlocksOf counter before lines blocks := by
  induction lines generalizing state before out with
  | nil =>
    cases h
    exact ⟨[], rfl, .nil before⟩
  | cons line rest ih =>
    simp only [expandLines] at h
    split at h
    · cases h
    · rename_i block hblock
      obtain ⟨others, ho, rfl⟩ := Except.map_eq_ok.1 h
      obtain ⟨hown, hbecome, hs'⟩ := expandLine_block hs hblock
      obtain ⟨blocks, rfl, hblocks⟩ := ih hs' ho
      exact ⟨block :: blocks, rfl, .cons hown hbecome hblocks⟩

end Lines

theorem expandLines_of_expand {state : State} {lines out : List Line}
    (h : (expand state lines).lines = .ok out) : (expandLines state lines).lines = .ok out := by
  simp only [expand] at h
  split at h
  · exact h
  · split at h
    · exact h
    · cases h

/-! ## Statements and labels of all lines -/

theorem BlocksOf.becomes {counter : Nat} {before : List Statement} {lines : List Line}
    {blocks : List (List Line)} (h : BlocksOf counter before lines blocks) :
    allBecome? counter before (lines.flatMap Line.statements) =
      some (blocks.flatten.flatMap Line.statements) := by
  induction h with
  | nil => rfl
  | cons _ becomes _ ih =>
    rw [List.flatMap_cons, List.flatten_cons, List.flatMap_append]
    exact allBecome?_append becomes ih

/-- The labels of lines that are not generated. -/
def sourceLabels (lines : List Line) : List Text :=
  (lines.map Line.label).filter fun label => !label.isEmpty && !Label.isGenerated label

theorem sourceLabels_append (front back : List Line) :
    sourceLabels (front ++ back) = sourceLabels front ++ sourceLabels back := by
  rw [sourceLabels, List.map_append, List.filter_append]
  rfl

theorem sourceLabels_derived {line : Line} {block : List Line}
    (h : ∀ out ∈ block, Derived line out) : sourceLabels block = [] := by
  rw [sourceLabels, List.filter_eq_nil_iff]
  intro label hlabel
  obtain ⟨out, ho, rfl⟩ := List.mem_map.1 hlabel
  rcases (h out ho).label_eq with hempty | hgenerated
  · simp [hempty]
  · simp [hgenerated]

theorem BlockOf.sourceLabels_eq {line : Line} {block : List Line}
    (h : BlockOf line line.label block) : sourceLabels block = sourceLabels [line] := by
  generalize hlabel : line.label = label at h
  cases h with
  | unlabelled derived =>
    rw [sourceLabels_derived derived]
    simp [sourceLabels, hlabel]
  | @labelled _ first rest _ _ label_eq derived =>
    have hfirst : sourceLabels [first] = sourceLabels [line] := by
      simp [sourceLabels, hlabel, label_eq]
    rw [← List.singleton_append, sourceLabels_append, sourceLabels_derived derived, hfirst,
      List.append_nil]

theorem BlocksOf.sourceLabels_eq {counter : Nat} {before : List Statement} {lines : List Line}
    {blocks : List (List Line)} (h : BlocksOf counter before lines blocks) :
    sourceLabels blocks.flatten = sourceLabels lines := by
  induction h with
  | nil => rfl
  | @cons _ line rest block blocks own _ _ ih =>
    rw [List.flatten_cons, sourceLabels_append, own.sourceLabels_eq, ih, ← sourceLabels_append]
    rfl

/-- An expansion from a state without open loops that succeeds has exactly what the
statements of the source become, in the order of the text. The labels that are not
generated are those of the source in their order. And the lines are one block for
each line of the source: all at its place, its label on the first of them, and with
what its own statements become. -/
theorem expansion_follows_the_source {state : State} {lines out : List Line}
    (hopen : state.loops.items = []) (h : (expand state lines).lines = .ok out) :
    allBecome? state.counter [] (lines.flatMap Line.statements) =
        some (out.flatMap Line.statements) ∧
      sourceLabels out = sourceLabels lines ∧
      ∃ blocks, out = blocks.flatten ∧ BlocksOf state.counter [] lines blocks := by
  have hs : StateBehind state.counter [] state := ⟨rfl, [], openBehind_nil, by rw [hopen]; rfl⟩
  obtain ⟨blocks, rfl, hblocks⟩ := expandLines_blocks hs (expandLines_of_expand h)
  exact ⟨hblocks.becomes, hblocks.sourceLabels_eq, blocks, rfl, hblocks⟩

/-- A labelled line `A=A+1 ;=X>1 @ X=+`, and the line `@=X<9 Y=1` that closes its
loop. -/
def crossing : List Line :=
  let x : Expr := .ident (ascii "X")
  let line (number : Int) (label : String) (statements : List Statement) : Line :=
    { number, file := ascii "main.s", text := [], label := ascii label, statements }
  [line 1 "Q" [⟨.ident (ascii "A"), .binary (.ident (ascii "A")) .add (.decimal 1)⟩,
      ⟨.system (ascii ";"), .binary x .greater (.decimal 1)⟩, ⟨.system (ascii "@"), .empty⟩,
      ⟨x, .system (ascii "+")⟩],
    line 2 "" [⟨.system (ascii "@"), .binary x .less (.decimal 9)⟩,
      ⟨.ident (ascii "Y"), .decimal 1⟩]]

/-- The if has number 3 and the loop number 4, whose end is on the second line. -/
theorem crossing_follows_its_source :
    ∃ out, (expand { counter := 3 } crossing).lines = .ok out ∧
      out.flatMap Line.statements =
        [⟨.ident (ascii "C"), .decimal 0⟩,
          ⟨.ident (ascii "A"), .binary (.ident (ascii "AC")) .add (.decimal 1)⟩,
          comparing (.ident (ascii "X")) (.decimal 1), branch (ascii "<") (ascii "#macro_3.1"),
          ⟨.ident (ascii "X"), .system (ascii "+")⟩,
          comparing (.ident (ascii "X")) (.decimal 9), branch (ascii ">") (ascii "#macro_4.1"),
          jump (ascii "#macro_4"), ⟨.ident (ascii "Y"), .decimal 1⟩] ∧
      sourceLabels out = [ascii "Q"] ∧
      ∃ blocks, out = blocks.flatten ∧ BlocksOf 3 [] crossing blocks := by
  obtain ⟨out, h⟩ : ∃ out, (expand { counter := 3 } crossing).lines = .ok out := ⟨_, rfl⟩
  obtain ⟨hall, hlabels, hblocks⟩ := expansion_follows_the_source rfl h
  refine ⟨out, h, Option.some.inj (hall.symm.trans ?_), hlabels.trans ?_, hblocks⟩
  · decide +kernel
  · decide +kernel

end Control

end Asm6502
