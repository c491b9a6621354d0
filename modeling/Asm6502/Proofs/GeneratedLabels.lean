-- The labels that constructs generate. Every if and every loop takes the next
-- number, and its two labels stand in the code once each, even if a loop is
-- closed on a later line. So all generated branches and jumps have a target,
-- and no generated label is defined twice.
import Asm6502.Proofs.Digits
import Asm6502.Proofs.Expansion
import Asm6502.Proofs.LabelFaults

namespace Asm6502

namespace Control

/-! ## The names of marks -/

theorem decimal_injective {m n : Nat} (h : decimal m = decimal n) : m = n := by
  rw [← numberOf_decimal m, h, numberOf_decimal]

theorem labelOf_injective {m n : Nat} (h : labelOf m = labelOf n) : m = n :=
  decimal_injective (List.append_cancel_left h)

/-- A header ends in a digit behind digits only, so it never has a dot. -/
theorem labelOf_ne_trailer (m n : Nat) : labelOf m ≠ trailer (labelOf n) := by
  intro h
  have hdot : Ascii.dot ∈ labelOf m := by
    rw [h]
    exact List.mem_append_right _ (by decide +kernel)
  rcases List.mem_append.1 hdot with hd | hd
  · revert hd
    decide +kernel
  · have := isDigit_of_mem_decimal hd
    revert this
    decide

theorem Mark.label_injective {a b : Mark} (h : a.label = b.label) : a = b := by
  cases a with
  | header m =>
    cases b with
    | header n => rw [labelOf_injective h]
    | trailer n => exact absurd h (labelOf_ne_trailer m n)
  | trailer m =>
    cases b with
    | header n => exact absurd h.symm (labelOf_ne_trailer n m)
    | trailer n => rw [labelOf_injective (List.append_cancel_right h)]

/-! ## The marks of a trace -/

/-- The statement starts a construct, which takes a number. -/
def startsConstruct (st : Statement) : Bool :=
  match kind st with
  | .choice _ | .opening => true
  | .closing _ | .plain => false

/-- The marks of constructs with numbers in a row. -/
def marksFrom (first count : Nat) : List Mark :=
  (List.range' first count).flatMap fun number => [.header number, .trailer number]

theorem marksFrom_succ (first count : Nat) :
    marksFrom first (count + 1) =
      .header first :: .trailer first :: marksFrom (first + 1) count := by
  rw [marksFrom, List.range'_succ, List.flatMap_cons]
  rfl

theorem marksFrom_append (first a b : Nat) :
    marksFrom first a ++ marksFrom (first + a) b = marksFrom first (a + b) := by
  rw [marksFrom, marksFrom, marksFrom, ← List.flatMap_append, List.range'_append_1]

def Mark.number : Mark → Nat
  | .header number | .trailer number => number

theorem mem_marksFrom {first count : Nat} {m : Mark} :
    m ∈ marksFrom first count ↔ first ≤ m.number ∧ m.number < first + count := by
  rw [marksFrom, List.mem_flatMap]
  constructor
  · rintro ⟨number, hn, hm⟩
    rw [List.mem_range'_1] at hn
    simp only [List.mem_cons, List.not_mem_nil, or_false] at hm
    rcases hm with rfl | rfl
    · exact hn
    · exact hn
  · intro h
    refine ⟨m.number, List.mem_range'_1.2 h, ?_⟩
    cases m with
    | header number => exact List.mem_cons_self
    | trailer number => exact List.mem_cons_of_mem _ List.mem_cons_self

theorem marksFrom_nodup (first count : Nat) : (marksFrom first count).Nodup := by
  induction count generalizing first with
  | zero => exact List.nodup_nil
  | succ count ih =>
    rw [marksFrom_succ]
    have hnot (m : Mark) (hm : m.number = first) : m ∉ marksFrom (first + 1) count := by
      rw [mem_marksFrom]
      omega
    refine List.nodup_cons.2 ⟨?_, List.nodup_cons.2 ⟨hnot _ rfl, ih (first + 1)⟩⟩
    intro hm
    rcases List.mem_cons.1 hm with h | h
    · cases h
    · exact hnot _ rfl h

def Code.mark? : Code → Option Mark
  | .mark m => some m
  | _ => none

def Code.label? : Code → Option Text
  | .label name => some name
  | _ => none

/-- Where generated code goes to. -/
def Code.target? : Code → Option Mark
  | .branch _ target | .jump target => some target
  | _ => none

/-- The marks that stand in code. -/
def marksOf (code : List Code) : List Mark := code.filterMap Code.mark?

/-- The marks that generated code goes to. -/
def targetsOf (code : List Code) : List Mark := code.filterMap Code.target?

theorem marksOf_append (front back : List Code) :
    marksOf (front ++ back) = marksOf front ++ marksOf back := List.filterMap_append

theorem targetsOf_append (front back : List Code) :
    targetsOf (front ++ back) = targetsOf front ++ targetsOf back := List.filterMap_append

theorem marksOf_plain (sts : List Statement) : marksOf (sts.map Code.plain) = [] := by
  induction sts with
  | nil => rfl
  | cons st sts ih => exact ih

theorem targetsOf_plain (sts : List Statement) : targetsOf (sts.map Code.plain) = [] := by
  induction sts with
  | nil => rfl
  | cons st sts ih => exact ih

theorem marksOf_ofLabel (label : Text) : marksOf (Code.ofLabel label) = [] := by
  unfold Code.ofLabel
  split
  · rfl
  · rfl

theorem targetsOf_ofLabel (label : Text) : targetsOf (Code.ofLabel label) = [] := by
  unfold Code.ofLabel
  split
  · rfl
  · rfl

section Traced

variable {counter : Nat} {loops : List Nat} {sts : List Statement} {t : Trace}

/-- Every construct takes one number. -/
theorem Traced.counter_eq (h : Traced counter loops sts t) :
    t.counter = counter + sts.countP startsConstruct := by
  induction h with
  | done => rfl
  | plain hk _ ih | closing hk _ _ ih =>
    rw [List.countP_cons_of_neg (by simp [startsConstruct, hk])]
    exact ih
  | choice hk _ ih | opening hk _ ih =>
    rw [List.countP_cons_of_pos (by simp [startsConstruct, hk]), ← Nat.add_assoc,
      Nat.add_right_comm]
    exact ih

/-- Every construct puts its two marks into the code, except that a loop owes
its trailer as long as it is open. -/
theorem Traced.marks_perm (h : Traced counter loops sts t) :
    (marksOf t.code ++ t.loops.map Mark.trailer).Perm
      (loops.map Mark.trailer ++ marksFrom counter (sts.countP startsConstruct)) := by
  rw [List.perm_iff_count]
  intro m
  induction h with
  | done => simp [marksOf, marksFrom]
  | plain hk _ ih =>
    rw [List.countP_cons_of_neg (by simp [startsConstruct, hk]), ← ih, Trace.after,
      marksOf_append, marksOf_plain]
    rfl
  | @choice counter _ _ _ t condition hk _ ih =>
    have hmarks : marksOf ((t.before [.mark (.trailer counter)]).after
        (.mark (.header counter) :: guard condition (.trailer counter))).code =
        .header counter :: (marksOf t.code ++ [.trailer counter]) :=
      congrArg (_ :: ·) (marksOf_append t.code [.mark (.trailer counter)])
    rw [List.countP_cons_of_pos (by simp [startsConstruct, hk]), marksFrom_succ, hmarks]
    simp only [List.count_append, List.count_cons, List.count_nil, Trace.after,
      Trace.before] at ih ⊢
    omega
  | @opening counter _ _ _ t hk _ ih =>
    have hmarks : marksOf (t.after [.mark (.header counter)]).code =
        .header counter :: marksOf t.code := rfl
    rw [List.countP_cons_of_pos (by simp [startsConstruct, hk]), marksFrom_succ, hmarks]
    simp only [List.count_append, List.count_cons, List.map_cons, Trace.after] at ih ⊢
    omega
  | @closing _ number _ _ _ t _ condition hk _ _ ih =>
    have hmarks : marksOf (t.after (repetition condition number)).code =
        .trailer number :: marksOf t.code := rfl
    rw [List.countP_cons_of_neg (by simp [startsConstruct, hk]), hmarks]
    simp only [List.count_append, List.count_cons, List.map_cons, Trace.after] at ih ⊢
    omega

/-- A number that belongs to an open loop or to a construct behind it. -/
def Known (counter : Nat) (loops : List Nat) (behind number : Nat) : Prop :=
  number ∈ loops ∨ counter ≤ number ∧ number < behind

/-- The loops that are open behind statements, and the constructs that their
code goes to, are known in front of them or start there. -/
theorem Traced.targets_known (h : Traced counter loops sts t) :
    (∀ number ∈ t.loops, Known counter loops t.counter number) ∧
      ∀ m ∈ targetsOf t.code, Known counter loops t.counter m.number := by
  induction h with
  | done => exact ⟨fun _ hn => .inl hn, by simp [targetsOf]⟩
  | plain _ _ ih =>
    rw [Trace.after, targetsOf_append, targetsOf_plain]
    exact ih
  | @choice counter loops _ _ t condition _ next ih =>
    have hgrow := next.counter_eq
    have hwider {number : Nat} (h : Known (counter + 1) loops t.counter number) :
        Known counter loops t.counter number := h.imp_right fun h => ⟨by omega, h.2⟩
    have htargets : targetsOf ((t.before [.mark (.trailer counter)]).after
        (.mark (.header counter) :: guard condition (.trailer counter))).code =
        .trailer counter :: (targetsOf t.code ++ []) :=
      congrArg (_ :: ·) (targetsOf_append t.code [.mark (.trailer counter)])
    rw [htargets, List.append_nil, List.forall_mem_cons]
    have hown : Known counter loops t.counter counter := .inr ⟨Nat.le_refl _, by omega⟩
    exact ⟨fun n hn => hwider (ih.1 n hn), hown, fun m hm => hwider (ih.2 m hm)⟩
  | @opening counter loops _ _ t _ next ih =>
    have hgrow := next.counter_eq
    have hwider {number : Nat} (h : Known (counter + 1) (counter :: loops) t.counter number) :
        Known counter loops t.counter number := by
      rcases h with h | h
      · rcases List.mem_cons.1 h with rfl | h
        · exact .inr ⟨Nat.le_refl _, by omega⟩
        · exact .inl h
      · exact .inr ⟨by omega, h.2⟩
    exact ⟨fun n hn => hwider (ih.1 n hn), fun m hm => hwider (ih.2 m hm)⟩
  | @closing counter number loops _ _ t _ condition _ _ _ ih =>
    have hwider {other : Nat} (h : Known counter loops t.counter other) :
        Known counter (number :: loops) t.counter other := h.imp_left (List.mem_cons_of_mem _)
    have htargets : targetsOf (t.after (repetition condition number)).code =
        .trailer number :: .header number :: targetsOf t.code := rfl
    rw [htargets, List.forall_mem_cons, List.forall_mem_cons]
    exact ⟨fun n hn => hwider (ih.1 n hn), .inl List.mem_cons_self, .inl List.mem_cons_self,
      fun m hm => hwider (ih.2 m hm)⟩

end Traced

/-- The constructs of lines. -/
def constructs (lines : List Line) : Nat := (lines.flatMap Line.statements).countP startsConstruct

section Lines

variable {counter : Nat} {loops : List Nat} {lines : List Line} {t : Trace}

theorem constructs_cons (line : Line) (rest : List Line) :
    constructs (line :: rest) = line.statements.countP startsConstruct + constructs rest := by
  rw [constructs, List.flatMap_cons, List.countP_append]
  rfl

theorem traceLines_counter (h : traceLines counter loops lines = some t) :
    t.counter = counter + constructs lines := by
  induction lines generalizing counter loops t with
  | nil =>
    cases h
    rfl
  | cons line rest ih =>
    obtain ⟨first, others, hf, ho, rfl⟩ := traceLines_cons h
    rw [constructs_cons, ← Nat.add_assoc, ← hf.counter_eq]
    change others.counter = _
    exact ih ho

theorem traceLines_marks (h : traceLines counter loops lines = some t) :
    (marksOf t.code ++ t.loops.map Mark.trailer).Perm
      (loops.map Mark.trailer ++ marksFrom counter (constructs lines)) := by
  induction lines generalizing counter loops t with
  | nil =>
    cases h
    simp [marksOf, constructs, marksFrom]
  | cons line rest ih =>
    obtain ⟨first, others, hf, ho, rfl⟩ := traceLines_cons h
    have hcode : marksOf (others.after (Code.ofLabel line.label ++ first.code)).code =
        marksOf first.code ++ marksOf others.code := by
      rw [Trace.after, marksOf_append, marksOf_append, marksOf_ofLabel, List.nil_append]
    rw [hcode, constructs_cons, ← marksFrom_append, ← hf.counter_eq]
    have hfirst := hf.marks_perm.append_right (marksFrom first.counter (constructs rest))
    have hothers := (ih ho).append_left (marksOf first.code)
    rw [← List.append_assoc, ← List.append_assoc] at hothers
    rw [← List.append_assoc (loops.map Mark.trailer)]
    exact hothers.trans hfirst

theorem traceLines_targets (h : traceLines counter loops lines = some t) :
    ∀ m ∈ targetsOf t.code, Known counter loops t.counter m.number := by
  induction lines generalizing counter loops t with
  | nil =>
    cases h
    simp [targetsOf]
  | cons line rest ih =>
    obtain ⟨first, others, hf, ho, rfl⟩ := traceLines_cons h
    obtain ⟨hloops, htargets⟩ := hf.targets_known
    have hfirst := hf.counter_eq
    have hothers := traceLines_counter ho
    rw [Trace.after, targetsOf_append, targetsOf_append, targetsOf_ofLabel, List.nil_append,
      List.forall_mem_append]
    -- What is known behind the first line is known in front of it or starts on it.
    have hwider {number : Nat} (h : Known counter loops first.counter number) :
        Known counter loops others.counter number := h.imp_right fun h => ⟨h.1, by omega⟩
    refine ⟨fun m hm => hwider (htargets m hm), fun m hm => ?_⟩
    rcases ih ho m hm with h | h
    · exact hwider (hloops _ h)
    · exact .inr ⟨by omega, h.2⟩

theorem Traced.no_labels {sts : List Statement} (h : Traced counter loops sts t) :
    ∀ c ∈ t.code, c.label? = none :=
  h.forall_code (fun _ => rfl) (fun _ => rfl) (fun _ => rfl) (fun _ _ => rfl) (fun _ => rfl)

/-- The labels of the source in the code of lines are the labels of the lines. -/
theorem traceLines_labels (h : traceLines counter loops lines = some t) {name : Text}
    (hn : Code.label name ∈ t.code) : ∃ line ∈ lines, line.label = name := by
  induction lines generalizing counter loops t with
  | nil =>
    cases h
    cases hn
  | cons line rest ih =>
    obtain ⟨first, others, hf, ho, rfl⟩ := traceLines_cons h
    simp only [Trace.after, List.mem_append] at hn
    rcases hn with (hn | hn) | hn
    · unfold Code.ofLabel at hn
      split at hn
      · cases hn
      · cases List.mem_singleton.1 hn
        exact ⟨line, List.mem_cons_self, rfl⟩
    · exact absurd (hf.no_labels _ hn) (by simp [Code.label?])
    · obtain ⟨other, hother, heq⟩ := ih ho hn
      exact ⟨other, List.mem_cons_of_mem _ hother, heq⟩

end Lines

/-! ## Generated labels of lines -/

/-- The generated labels that lines have, in the order of the lines. -/
def generatedOf (lines : List Line) : List Text := (lines.map Line.label).filter Label.isGenerated

/-- The two labels of each construct, for numbers in a row. -/
def generatedLabels (first count : Nat) : List Text :=
  (List.range' first count).flatMap fun number => [labelOf number, trailer (labelOf number)]

theorem generatedLabels_eq (first count : Nat) :
    generatedLabels first count = (marksFrom first count).map Mark.label := by
  rw [generatedLabels, marksFrom, List.map_flatMap]
  rfl

theorem generatedLabels_nodup (first count : Nat) : (generatedLabels first count).Nodup := by
  rw [generatedLabels_eq]
  exact List.Pairwise.map Mark.label (fun _ _ hne h => hne (Mark.label_injective h))
    (marksFrom_nodup first count)

theorem Line.items_generated (line : Line) :
    (line.items.filterMap Item.label?).filter Label.isGenerated =
      [line.label].filter Label.isGenerated := by
  have hstatements : (line.statements.map Item.statement).filterMap Item.label? = [] := by
    rw [List.filterMap_map]
    exact List.filterMap_eq_nil_iff.2 fun _ _ => rfl
  rw [Line.items, List.filterMap_append, hstatements, List.append_nil, Item.ofLabel]
  split
  · rename_i h
    rw [List.isEmpty_iff.1 h]
    rfl
  · rfl

theorem generatedOf_items (lines : List Line) :
    ((itemsOf lines).filterMap Item.label?).filter Label.isGenerated = generatedOf lines := by
  induction lines with
  | nil => rfl
  | cons line lines ih =>
    rw [itemsOf_cons, List.filterMap_append, List.filter_append, ih, Line.items_generated,
      generatedOf, generatedOf, ← List.filter_append]
    rfl

/-- In code whose source labels are not generated, the generated labels are those
of the marks. -/
theorem generated_code {code : List Code}
    (h : ∀ name, Code.label name ∈ code → Label.isGenerated name = false) :
    ((code.map Code.item).filterMap Item.label?).filter Label.isGenerated =
      (marksOf code).map Mark.label := by
  induction code with
  | nil => rfl
  | cons c code ih =>
    have ih := ih fun name hn => h name (List.mem_cons_of_mem _ hn)
    cases c with
    | label name =>
      have hcode : marksOf (Code.label name :: code) = marksOf code := rfl
      rw [hcode, ← ih]
      exact List.filter_cons_of_neg (by simp [h name List.mem_cons_self])
    | mark m =>
      have hcode : (marksOf (Code.mark m :: code)).map Mark.label =
          m.label :: (marksOf code).map Mark.label := rfl
      rw [hcode, ← ih]
      exact List.filter_cons_of_pos m.isGenerated_label
    | plain st | compare st | branch skip target | jump target => exact ih

/-- What the code of an expansion is made of: the plain statements of the source
in their order, and compares, branches and jumps that are generated. -/
structure Explains (code : List Code) (lines out : List Line) : Prop where
  items : itemsOf out = code.map Code.item
  plain : code.filterMap Code.plain? = (lines.flatMap Line.statements).flatMap kept
  compares : ∀ c ∈ code, c.Compares

section Expanded

variable {state : State} {lines out : List Line}

/-- The generated labels of an expansion stand on one line each, and what is
generated goes to them. -/
theorem expand_generated (hlabels : ∀ line ∈ lines, Label.isGenerated line.label = false)
    (hopen : state.loops.items = []) (h : (expand state lines).lines = .ok out) :
    (generatedOf out).Perm (generatedLabels state.counter (constructs lines)) ∧
      ∃ code, Explains code lines out ∧
        ∀ m ∈ targetsOf code, m.label ∈ generatedLabels state.counter (constructs lines) := by
  obtain ⟨t, ht, hclosed, hitems⟩ := trace_of_expand hopen h
  constructor
  · have hsource : ∀ name, Code.label name ∈ t.code → Label.isGenerated name = false := by
      intro name hn
      obtain ⟨line, hline, rfl⟩ := traceLines_labels ht hn
      exact hlabels line hline
    have hmarks := traceLines_marks ht
    rw [hclosed, List.map_nil, List.append_nil, List.nil_append] at hmarks
    rw [← generatedOf_items, hitems, generated_code hsource, generatedLabels_eq]
    exact hmarks.map Mark.label
  · refine ⟨t.code, ⟨hitems, traceLines_plain ht, traceLines_compares ht⟩, fun m hm => ?_⟩
    rw [generatedLabels_eq]
    rcases traceLines_targets ht m hm with h | h
    · cases h
    · rw [traceLines_counter ht] at h
      exact List.mem_map_of_mem (mem_marksFrom.2 h)

theorem mem_generatedOf {name : Text} (hn : Label.isGenerated name = true) :
    name ∈ generatedOf lines ↔ name ∈ lines.map Line.label := by
  simp [generatedOf, hn]

/-- Statements of the output that need addresses at once are written in the
source. -/
theorem needsAddresses_source (hopen : state.loops.items = [])
    (h : (expand state lines).lines = .ok out) {line : Line} (hl : line ∈ out) {st : Statement}
    (hst : st ∈ line.statements) (hneeds : Layout.NeedsAddresses st) :
    st ∈ lines.flatMap Line.statements := by
  have hd : st.isDirective = true := by
    unfold Statement.isDirective
    rcases hneeds with h | h | h <;> rw [h] <;> rfl
  have hmem : st ∈ (out.flatMap Line.statements).filter Statement.isDirective :=
    List.mem_filter.2 ⟨List.mem_flatMap.2 ⟨line, hl, hst⟩, hd⟩
  rw [expand_directives hopen h] at hmem
  exact (List.mem_filter.1 hmem).1

/-- If no line of the source has a generated label and no loop is open, then the
generated labels of the output are the two of every construct, on one line each,
and everything that is generated goes to one of them. So no generated label is
told to be used twice. And none is told to be missing but at a `*`, `:` or `$` of
the source that names it itself, in front of the line that has it. -/
theorem generated_labels_are_unique_and_closed
    (hlabels : ∀ line ∈ lines, Label.isGenerated line.label = false)
    (hopen : state.loops.items = []) (h : (expand state lines).lines = .ok out) :
    ((generatedOf out).Perm (generatedLabels state.counter (constructs lines)) ∧
      (generatedLabels state.counter (constructs lines)).Nodup) ∧
    (∃ code, Explains code lines out ∧
      ∀ m ∈ targetsOf code, m.label ∈ generatedLabels state.counter (constructs lines)) ∧
    ∀ e fault, (Assembler.assembleExpanded out).program = .error e → e.fault? = some fault →
      (∀ name number prior, fault = .duplicate name number prior →
        Label.isGenerated name = false) ∧
      ∀ name ∈ generatedLabels state.counter (constructs lines), fault = .missing name →
        ∃ front line back, out = front ++ line :: back ∧ e.IsAt line ∧
          name ∈ back.map Line.label ∧ ∃ st ∈ line.statements,
            st ∈ lines.flatMap Line.statements ∧ Layout.NeedsAddresses st ∧
            name ∈ st.operand.names := by
  obtain ⟨hperm, hcode⟩ := expand_generated hlabels hopen h
  have hnodup := generatedLabels_nodup state.counter (constructs lines)
  refine ⟨⟨hperm, hnodup⟩, hcode, ?_⟩
  intro e fault he hf
  constructor
  · rintro name number prior rfl
    by_contra hn
    rw [Bool.not_eq_false] at hn
    obtain ⟨front, line, back, rfl, hlabel, hfront⟩ := duplicate_generated he hf hn
    -- The label would stand twice among the generated ones.
    have hsplit : generatedOf (front ++ line :: back) =
        generatedOf front ++ name :: generatedOf back := by
      simp [generatedOf, hlabel, hn]
    have hboth := hperm.nodup_iff.2 hnodup
    rw [hsplit, List.nodup_append] at hboth
    exact hboth.2.2 name ((mem_generatedOf hn).2 hfront) name List.mem_cons_self rfl
  · rintro name hname rfl
    have hout : name ∈ generatedOf out := hperm.mem_iff.2 hname
    have hn : Label.isGenerated name = true := (List.mem_filter.1 hout).2
    obtain ⟨front, line, back, rfl, hat, hback, st, hst, hneeds, hnamed⟩ :=
      missing_generated he hf hn ((mem_generatedOf hn).1 hout)
    exact ⟨front, line, back, rfl, hat, hback, st, hst,
      needsAddresses_source hopen h (by simp) hst hneeds, hneeds, hnamed⟩

end Expanded

/-- A line that moves its label to the label of the if on the next line, and a
loop that is opened in the if and closed behind it. -/
def earlyReference : List Line :=
  let line (number : Int) (label : String) (statements : List Statement) : Line :=
    { number, file := [], text := [], label := ascii label, statements }
  [line 1 "" [⟨.system (ascii "*"), .word 0x1000⟩],
    line 2 "Q" [⟨.system (ascii ":"), .ident (ascii "#macro_0")⟩],
    line 3 "" [⟨.system (ascii ";"), .binary (.ident (ascii "X")) .greater (.decimal 1)⟩,
      ⟨.system (ascii "@"), .empty⟩, ⟨.ident (ascii "A"), .decimal 0⟩],
    line 4 "" [⟨.system (ascii "@"), .binary (.ident (ascii "X")) .less (.decimal 9)⟩]]

/-- The label of the if is told to be missing, although a later line has it. -/
theorem earlyReference_misses_a_generated_label :
    (∀ line ∈ earlyReference, Label.isGenerated line.label = false) ∧
      ∃ out e, (expand {} earlyReference).lines = .ok out ∧
        (Assembler.assembleExpanded out).program = .error e ∧
        e.fault? = some (.missing (ascii "#macro_0")) ∧
        ascii "#macro_0" ∈ generatedLabels 0 (constructs earlyReference) ∧
        ascii "#macro_0" ∈ out.map Line.label :=
  ⟨by decide +kernel, _, _, rfl, rfl, rfl, by decide +kernel, by decide +kernel⟩

theorem earlyReference_names_what_it_misses :
    ∃ out e, (∀ line ∈ earlyReference, Label.isGenerated line.label = false) ∧
      (expand {} earlyReference).lines = .ok out ∧
      (Assembler.assembleExpanded out).program = .error e ∧
      (generatedOf out).Perm (generatedLabels 0 2) ∧
      ∃ front line back, out = front ++ line :: back ∧ e.IsAt line ∧
        ascii "#macro_0" ∈ back.map Line.label ∧ ∃ st ∈ line.statements,
          st ∈ earlyReference.flatMap Line.statements ∧ Layout.NeedsAddresses st ∧
          ascii "#macro_0" ∈ st.operand.names := by
  have hlabels : ∀ line ∈ earlyReference, Label.isGenerated line.label = false := by
    decide +kernel
  obtain ⟨out, e, h, he, hf⟩ : ∃ out e, (expand {} earlyReference).lines = .ok out ∧
      (Assembler.assembleExpanded out).program = .error e ∧
      e.fault? = some (.missing (ascii "#macro_0")) := ⟨_, _, rfl, rfl, rfl⟩
  obtain ⟨⟨hperm, _⟩, _, hfaults⟩ := generated_labels_are_unique_and_closed hlabels rfl h
  exact ⟨out, e, hlabels, h, he, hperm, (hfaults e _ he hf).2 _ (by decide +kernel) rfl⟩

end Control

end Asm6502
