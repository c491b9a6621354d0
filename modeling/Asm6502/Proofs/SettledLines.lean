-- Expanded lines are settled: they have no construct, no shorthand and are not
-- blank. Every expansion gives settled lines, and an expansion of settled lines
-- gives them back and makes no label. So to expand a second time changes nothing.
import Asm6502.Proofs.SourceOrder

namespace Asm6502

namespace Control

/-! ## Statements that stay as they are -/

/-- A statement that is no construct and stands for itself only. -/
structure Lasting (st : Statement) : Prop where
  plain : kind st = .plain
  itself : shorthand st = [st]

theorem lasting_comparing (left right : Expr) : Lasting (comparing left right) := by
  have hname : ascii "T" ≠ ascii "A" := by decide +kernel
  refine ⟨kind_of_command (by simp [comparing]) (by simp [comparing]), ?_⟩
  simp [shorthand, comparing, hname]

theorem Condition.lasting {e : Expr} {condition : Condition}
    (h : Condition.of? e = some condition) : Lasting condition.compare := by
  obtain ⟨left, _, right, _, _, hc⟩ := Condition.of?_eq_some.1 h
  rw [hc]
  exact lasting_comparing left right

/-- A branch has a condition and a target behind `;`, which is no comparison. -/
theorem lasting_branch (skip target : Text) : Lasting (branch skip target) := by
  refine ⟨?_, shorthand_system rfl⟩
  simp [kind, branch, Condition.of?, inverted?]

theorem lasting_jump (target : Text) : Lasting (jump target) := by
  have hnot : Expr.system (ascii "#") ≠ .system (ascii ";") ∧
      Expr.system (ascii "#") ≠ .system (ascii "@") := by decide +kernel
  exact ⟨kind_of_command hnot.1 hnot.2, shorthand_system rfl⟩

/-- One sign behind a command is no run of signs. -/
theorem shorthand_single {st : Statement} {run : Text} (ho : st.operand = .system run)
    (hrun : run.length ≤ 1) : shorthand st = [st] := by
  unfold shorthand
  split
  · rename_i hc
    rw [ho] at hc
    cases hc
  · rename_i other hc
    rw [ho] at hc
    cases hc
    have hshort : ¬ 1 < run.length := by omega
    simp [hshort]
  · rfl

/-- The three ways in which shorthand is written out. -/
theorem shorthand_cases (st : Statement) :
    shorthand st = [st] ∨
    (∃ carry op right, shorthand st =
      [{ command := .ident (ascii "C"), operand := .decimal carry },
        { command := .ident (ascii "A"), operand := .binary (.ident (ascii "AC")) op right }]) ∨
    ∃ run : Text, isStepped st.command = true ∧ shorthand st =
      List.replicate run.length { command := st.command, operand := .system (run.take 1) } := by
  unfold shorthand
  split
  · rename_i op right _ _
    split
    · exact .inr (.inl ⟨_, op, right, rfl⟩)
    · exact .inl rfl
  · rename_i run _
    split
    · rename_i hrun
      rw [Bool.and_eq_true, Bool.and_eq_true] at hrun
      exact .inr (.inr ⟨run, hrun.1.1, rfl⟩)
    · exact .inl rfl
  · exact .inl rfl

/-- What a plain statement stands for is written out for good. -/
theorem lasting_shorthand {st part : Statement} (hk : kind st = .plain)
    (hp : part ∈ shorthand st) : Lasting part := by
  rcases shorthand_cases st with h | ⟨carry, op, right, h⟩ | ⟨run, hstepped, h⟩
  · rw [h, List.mem_singleton] at hp
    subst hp
    exact ⟨hk, h⟩
  · rw [h] at hp
    simp only [List.mem_cons, List.not_mem_nil, or_false] at hp
    rcases hp with rfl | rfl
    · exact ⟨kind_of_command (by simp) (by simp), rfl⟩
    · have hname : ascii "AC" ≠ ascii "A" := by decide +kernel
      refine ⟨kind_of_command (by simp) (by simp), ?_⟩
      simp [shorthand, hname]
  · rw [h] at hp
    rw [List.eq_of_mem_replicate hp]
    have hnot (sign : Text) : st.command ≠ .system sign := by
      intro hc
      rw [hc] at hstepped
      cases hstepped
    refine ⟨kind_of_command (hnot _) (hnot _), shorthand_single rfl ?_⟩
    rw [List.length_take]
    exact Nat.min_le_left _ _

/-! ## Settled lines -/

/-- A line without constructs and shorthand that is not blank. -/
structure Settled (line : Line) : Prop where
  lasting : ∀ st ∈ line.statements, Lasting st
  not_blank : line.label ≠ [] ∨ line.statements ≠ []

theorem settled_single (line : Line) {st : Statement} (h : Lasting st) :
    Settled (single line st) := by
  refine ⟨?_, .inr (by simp [single])⟩
  intro other ho
  rw [List.mem_singleton.1 ho]
  exact h

theorem settled_labelled (line : Line) {label : Text} (h : label ≠ []) :
    Settled (labelled line label) := ⟨by simp [labelled], .inl h⟩

theorem trailer_ne_nil (label : Text) : trailer label ≠ [] := by
  simp [trailer, ascii]

theorem settled_flush (line : Line) (label : Text) {pending : List Statement}
    (h : ∀ st ∈ pending, Lasting st) : ∀ out ∈ flush line label pending, Settled out := by
  intro out ho
  unfold flush at ho
  split at ho
  · cases ho
  · rename_i hblank
    rw [List.mem_singleton.1 ho]
    refine ⟨h, ?_⟩
    rw [Bool.and_eq_true, List.isEmpty_iff, List.isEmpty_iff] at hblank
    tauto

/-- The statements of a line are expanded to settled lines. -/
theorem expandStatements_settled {line : Line} {label : Text} {pending : List Statement}
    {state : State} {sts : List Statement} (hp : ∀ st ∈ pending, Lasting st) {out : List Line}
    (h : (expandStatements line label pending state sts).lines = .ok out) :
    ∀ line ∈ out, Settled line := by
  have hnil : ∀ st ∈ ([] : List Statement), Lasting st := by simp
  induction sts generalizing label pending state out with
  | nil =>
    cases h
    exact settled_flush line label hp
  | cons st rest ih =>
    have hflush := settled_flush line label hp
    cases hk : kind st with
    | plain =>
      simp only [expandStatements, hk] at h
      refine ih ?_ h
      exact List.forall_mem_append.2 ⟨hp, fun part hpart => lasting_shorthand hk hpart⟩
    | choice condition =>
      simp only [expandStatements, hk] at h
      obtain ⟨_, hbody, rfl⟩ := Except.map_eq_ok.1 h
      obtain ⟨inner, hi, rfl⟩ := Except.map_eq_ok.1 hbody
      have hinner := ih hnil hi
      have hheader := settled_labelled line (Mark.header state.counter).label_ne_nil
      have htrailer := settled_labelled line (trailer_ne_nil (labelOf state.counter))
      have hcompare := settled_single line (Condition.lasting (kind_choice hk).2)
      have hbranch := settled_single line
        (lasting_branch condition.skip (trailer (labelOf state.counter)))
      simp only [List.forall_mem_append, List.forall_mem_cons]
      exact ⟨⟨hflush, hheader, hcompare, hbranch, by simp⟩, hinner, htrailer, by simp⟩
    | opening =>
      simp only [expandStatements, hk] at h
      obtain ⟨inner, hi, rfl⟩ := Except.map_eq_ok.1 h
      have hheader := settled_labelled line (Mark.header state.counter).label_ne_nil
      simp only [List.forall_mem_append, List.forall_mem_cons]
      exact ⟨⟨hflush, hheader, by simp⟩, ih hnil hi⟩
    | closing operand =>
      simp only [expandStatements, hk] at h
      split at h
      · cases h
      · rename_i loop loops _
        split at h
        · cases h
        · rename_i condition hc
          obtain ⟨inner, hi, rfl⟩ := Except.map_eq_ok.1 h
          have htrailer := settled_labelled line (trailer_ne_nil loop.label)
          have hcompare := settled_single line (Condition.lasting hc)
          have hbranch := settled_single line (lasting_branch condition.skip (trailer loop.label))
          have hjump := settled_single line (lasting_jump loop.label)
          simp only [List.forall_mem_append, List.forall_mem_cons]
          exact ⟨⟨hflush, hcompare, hbranch, hjump, htrailer, by simp⟩, ih hnil hi⟩

theorem expandLines_settled {state : State} {lines out : List Line}
    (h : (expandLines state lines).lines = .ok out) : ∀ line ∈ out, Settled line := by
  induction lines generalizing state out with
  | nil =>
    cases h
    simp
  | cons line rest ih =>
    simp only [expandLines] at h
    split at h
    · cases h
    · rename_i block hblock
      obtain ⟨others, ho, rfl⟩ := Except.map_eq_ok.1 h
      have hown := expandStatements_settled (by simp) (Except.mapError_eq_ok.1 hblock)
      exact List.forall_mem_append.2 ⟨hown, ih ho⟩

/-! ## Expanding settled lines -/

theorem expandStatements_lasting (line : Line) (label : Text) (pending : List Statement)
    (state : State) {sts : List Statement} (h : ∀ st ∈ sts, Lasting st) :
    expandStatements line label pending state sts =
      { state, lines := .ok (flush line label (pending ++ sts)) } := by
  induction sts generalizing pending with
  | nil => rw [expandStatements, List.append_nil]
  | cons st rest ih =>
    obtain ⟨hst, hrest⟩ := List.forall_mem_cons.1 h
    simp only [expandStatements, hst.plain, hst.itself]
    rw [ih _ hrest, List.append_assoc, List.singleton_append]

theorem Settled.expandLine {line : Line} (h : Settled line) (state : State) :
    expandLine state line = { state, lines := .ok [line] } := by
  have hflush : flush line line.label line.statements = [line] := by
    have hblank : (line.statements.isEmpty && line.label.isEmpty) = false := by
      rcases h.not_blank with hlabel | hstatements
      · simp [hlabel]
      · simp [hstatements]
    rw [flush, hblank]
    rfl
  rw [Control.expandLine]
  simp only [expandStatements_lasting line line.label [] state h.lasting]
  rw [List.nil_append, hflush]
  rfl

theorem expandLines_of_settled (state : State) {lines : List Line}
    (h : ∀ line ∈ lines, Settled line) :
    expandLines state lines = { state, lines := .ok lines } := by
  induction lines with
  | nil => rfl
  | cons line rest ih =>
    obtain ⟨hline, hrest⟩ := List.forall_mem_cons.1 h
    simp only [expandLines, hline.expandLine, ih hrest]
    rfl

/-- The lines of an expansion that succeeds have no if and no start or end of a
loop. And from any state without open loops they are expanded to themselves, without
a new label. -/
theorem expanding_again_changes_nothing {state again : State} {lines out : List Line}
    (h : (expand state lines).lines = .ok out) (hopen : again.loops.items = []) :
    (∀ line ∈ out, ∀ st ∈ line.statements, kind st = .plain) ∧
      expand again out = { state := again, lines := .ok out } := by
  have hsettled := expandLines_settled (expandLines_of_expand h)
  refine ⟨fun line hline st hst => ((hsettled line hline).lasting st hst).plain, ?_⟩
  simp only [expand, expandLines_of_settled again hsettled, Stack.top?, hopen, List.head?_nil]

/-- A labelled line `A=A-1 ;=X>1 @ (zp)=++`, a blank one, and the line `@=A\0 X=--`
that ends its loop. -/
def stepping : List Line :=
  let line (number : Int) (label : String) (statements : List Statement) : Line :=
    { number, file := ascii "main.s", text := [], label := ascii label, statements }
  [line 1 "Q" [⟨.ident (ascii "A"), .binary (.ident (ascii "A")) .sub (.decimal 1)⟩,
      ⟨.system (ascii ";"), .binary (.ident (ascii "X")) .greater (.decimal 1)⟩,
      ⟨.system (ascii "@"), .empty⟩, ⟨.paren (.ident (ascii "zp")), .system (ascii "++")⟩],
    line 2 "" [],
    line 3 "" [⟨.system (ascii "@"), .binary (.ident (ascii "A")) .notEqual (.decimal 0)⟩,
      ⟨.ident (ascii "X"), .system (ascii "--")⟩]]

/-- Its expansion has 12 lines, in which a second one finds nothing to do. -/
theorem stepping_is_settled_at_once :
    ∃ out, (expand { counter := 2 } stepping).lines = .ok out ∧ out.length = 12 ∧
      (∀ line ∈ out, ∀ st ∈ line.statements, kind st = .plain) ∧
      expand { counter := 7 } out = { state := { counter := 7 }, lines := .ok out } := by
  obtain ⟨out, h, hlength⟩ : ∃ out, (expand { counter := 2 } stepping).lines = .ok out ∧
      out.length = 12 := ⟨_, rfl, rfl⟩
  exact ⟨out, h, hlength, expanding_again_changes_nothing h rfl⟩

end Control

end Asm6502
