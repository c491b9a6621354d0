-- Expansion keeps the meaning of control constructs. The machine that runs the
-- expanded lines and the structured program that the lines are read as reach
-- the same states: an if branches behind its body, and a loop jumps back to
-- its label, exactly where the structured program goes.
import Asm6502.Proofs.GeneratedLabels
import Asm6502.Proofs.Structured

namespace Asm6502

namespace Control

/-! ## Targets in code -/

/-- Code in which every mark can be found: it stands there only once, and labels
of the source are no marks. -/
structure Resolves (program : List Code) : Prop where
  nodup : (marksOf program).Nodup
  labels : ∀ name, Code.label name ∈ program → Label.isGenerated name = false

theorem Resolves.tail {c : Code} {program : List Code} (h : Resolves (c :: program)) :
    Resolves program := by
  refine ⟨?_, fun name hn => h.labels name (List.mem_cons_of_mem _ hn)⟩
  have hnodup := h.nodup
  cases c with
  | mark m => exact (List.nodup_cons.1 hnodup).2
  | label | plain | compare | branch | jump => exact hnodup

theorem Resolves.behind_mark {program rest : List Code} {mark : Mark} (h : Resolves program)
    (hs : (.mark mark :: rest) <:+ program) :
    behindLabel mark.label (program.map Code.item) = some (rest.map Code.item) := by
  obtain ⟨front, rfl⟩ := hs
  induction front with
  | nil => simp [Code.item, behindLabel]
  | cons c front ih =>
    have ih := ih h.tail
    cases c with
    | label name =>
      have hne : name ≠ mark.label := by
        rintro rfl
        have := h.labels _ List.mem_cons_self
        rw [mark.isGenerated_label] at this
        cases this
      simp only [List.cons_append, List.map_cons, Code.item, behindLabel, if_neg hne]
      exact ih
    | mark other =>
      have hne : other.label ≠ mark.label := by
        intro heq
        have hnot := (List.nodup_cons.1 h.nodup).1
        rw [Mark.label_injective heq] at hnot
        exact hnot (List.mem_filterMap.2 ⟨.mark mark, by simp, rfl⟩)
      simp only [List.cons_append, List.map_cons, Code.item, behindLabel, if_neg hne]
      exact ih
    | plain | compare | branch | jump => exact ih

theorem flow_jump (target : Text) : (jump target).flow = .jump target := by
  have hne : Expr.system (ascii "#") ≠ .system (ascii ";") := by decide +kernel
  simp [Statement.flow, jump, hne]

theorem flow_of_branch? {skip : Text} {mnemonic : Mnemonic}
    (h : Decode.branch? (.system skip) = some mnemonic) (target : Text) :
    (branch skip target).flow = .branch mnemonic target := by
  simp [Statement.flow, branch, h]

theorem tests_of_lookup {op : Operator} {mnemonic : Mnemonic}
    (h : Decode.conditions.lookup op.render = some mnemonic) {ρ : Type} (s : MachineState ρ) :
    s.tests op = s.holds mnemonic := by
  simp [MachineState.tests, h]

/-- The branch of a comparison is taken exactly if the comparison fails. -/
theorem flow_branch (c : Comparison) (target : Text) :
    ∃ mnemonic, (branch c.condition.skip target).flow = .branch mnemonic target ∧
      ∀ {ρ : Type} (s : MachineState ρ), s.holds mnemonic = !s.tests c.op := by
  obtain ⟨left, op, right, hop⟩ := c
  have hopposite (skip : Text) (taken read : Mnemonic)
      (hskip : inverted? op = some skip) (htaken : Decode.branch? (.system skip) = some taken)
      (hread : Decode.conditions.lookup op.render = some read)
      (h : ∀ {ρ : Type} (s : MachineState ρ), s.holds taken = !s.holds read) :
      ∃ mnemonic, (branch (Comparison.mk left op right hop).condition.skip target).flow =
          .branch mnemonic target ∧
        ∀ {ρ : Type} (s : MachineState ρ), s.holds mnemonic = !s.tests op := by
    refine ⟨taken, ?_, fun s => ?_⟩
    · rw [Comparison.condition, hskip]
      exact flow_of_branch? htaken target
    · rw [tests_of_lookup hread, h]
  cases op with
  | equal =>
    exact hopposite _ .bne .beq rfl (by decide +kernel) (by decide +kernel) fun _ => rfl
  | notEqual =>
    exact hopposite _ .beq .bne rfl (by decide +kernel) (by decide +kernel)
      fun s => (Bool.not_not s.zero).symm
  | greater =>
    exact hopposite _ .bcc .bcs rfl (by decide +kernel) (by decide +kernel) fun _ => rfl
  | less =>
    exact hopposite _ .bcs .bcc rfl (by decide +kernel) (by decide +kernel)
      fun s => (Bool.not_not s.carry).symm
  | _ => cases hop

end Control

/-! ## Runs of code -/

namespace Machine

variable {ρ : Type}

/-- Runs the rest of a program that is given as code. -/
def runCode (m : Machine ρ) (program : List Control.Code) (steps : Nat)
    (code : List Control.Code) (s : MachineState ρ) : Option (MachineState ρ) :=
  m.run (program.map Control.Code.item) steps (code.map Control.Code.item) s

section RunCode

open Control

variable {m : Machine ρ} {program rest : List Code} {s t : MachineState ρ} {steps : Nat}

theorem runCode_nil : m.runCode program steps [] s = some t ↔ s = t := run_nil

theorem runCode_label {name : Text} :
    m.runCode program steps (.label name :: rest) s = some t ↔
      ∃ k, steps = k + 1 ∧ m.runCode program k rest s = some t := run_label

theorem runCode_mark {mark : Mark} :
    m.runCode program steps (.mark mark :: rest) s = some t ↔
      ∃ k, steps = k + 1 ∧ m.runCode program k rest s = some t := run_label

theorem runCode_plain {sts : List Statement} (h : ∀ st ∈ sts, st.flow = .next) :
    m.runCode program steps (sts.map Code.plain ++ rest) s = some t ↔
      ∃ k, steps = k + sts.length ∧ m.runCode program k rest (m.effects sts s) = some t := by
  unfold runCode
  rw [List.map_append, Code.plain_item]
  exact run_effects h

theorem runCode_jump {mark : Mark} {back : List Code} (hr : Resolves program)
    (hs : (.mark mark :: back) <:+ program) :
    m.runCode program steps (.jump mark :: rest) s = some t ↔
      ∃ k, steps = k + 1 ∧ m.runCode program k back s = some t := by
  apply run_statement
  simp [step, flow_jump, hr.behind_mark hs]

theorem effect_comparing (left right : Expr) :
    m.effect (comparing left right) s = m.compare left right s := by
  simp [effect, Statement.compared?, comparing]

/-- The code of a condition compares, and then goes on or behind a mark. -/
theorem runCode_guard {mark : Mark} {back : List Code} {c : Comparison} (hr : Resolves program)
    (hs : (.mark mark :: back) <:+ program) :
    m.runCode program steps (guard c.condition mark ++ rest) s = some t ↔
      ∃ k, steps = k + 2 ∧
        m.runCode program k (if (m.decide c s).tests c.op then rest else back) (m.decide c s) =
          some t := by
  obtain ⟨mnemonic, hflow, hholds⟩ := flow_branch c mark.label
  have hcompare : (comparing c.left c.right).flow = .next :=
    Statement.flow_eq_next (by simp [comparing]) (by simp [comparing])
  have hbranch (k : Nat) (u : MachineState ρ) :
      m.runCode program k (.branch c.condition.skip mark :: rest) u = some t ↔
        ∃ j, k = j + 1 ∧ m.runCode program j (if u.tests c.op then rest else back) u = some t := by
    apply run_statement
    simp only [step, hflow, hholds, hr.behind_mark hs]
    cases u.tests c.op <;> rfl
  have hfirst : m.runCode program steps (guard c.condition mark ++ rest) s = some t ↔
      ∃ k, steps = k + 1 ∧
        m.runCode program k (.branch c.condition.skip mark :: rest) (m.decide c s) = some t := by
    have := @run_next ρ m (program.map Code.item)
      ((Code.branch c.condition.skip mark :: rest).map Code.item) s t steps _ hcompare
    rw [effect_comparing] at this
    exact this
  rw [hfirst]
  simp only [hbranch]
  constructor
  · rintro ⟨_, rfl, k, rfl, h⟩
    exact ⟨k, rfl, h⟩
  · rintro ⟨k, rfl, h⟩
    exact ⟨k + 1, rfl, k, rfl, h⟩

end RunCode

end Machine

/-! ## Structured programs and their code -/

/-- Every plain statement leads to the next one. -/
def Block.Falls : Block → Prop
  | .done => True
  | .label _ next => next.Falls
  | .plain st next => (∀ part ∈ Control.shorthand st, part.flow = .next) ∧ next.Falls
  | .choice _ body next | .loop body _ next => body.Falls ∧ next.Falls

namespace Control

variable (number : Nat) (back : List Code)

theorem lower_plain_append (st : Statement) (next : Block) :
    lower number (.plain st next) ++ back =
      (shorthand st).map Code.plain ++ (lower number next ++ back) := by
  simp [lower]

theorem lower_choice_append (c : Comparison) (body next : Block) :
    lower number (.choice c body next) ++ back =
      .mark (.header number) :: (guard c.condition (.trailer number) ++
        (lower (number + 1) body ++ .mark (.trailer number) ::
          (lower (number + 1 + body.constructs) next ++ back))) := by
  simp [lower]

theorem lower_loop_append (c : Comparison) (body next : Block) :
    lower number (.loop body c next) ++ back =
      .mark (.header number) :: (lower (number + 1) body ++
        (guard c.condition (.trailer number) ++ .jump (.header number) ::
          .mark (.trailer number) :: (lower (number + 1 + body.constructs) next ++ back))) := by
  simp [lower, repetition]

/-- In a program with the code of an if, its body, its trailer and what follows
it stand where they are looked for. -/
theorem lower_choice_parts {program : List Code} {c : Comparison} {body next : Block}
    (h : (lower number (.choice c body next) ++ back) <:+ program) :
    (lower (number + 1) body ++ .mark (.trailer number) ::
        (lower (number + 1 + body.constructs) next ++ back)) <:+ program ∧
      (.mark (.trailer number) :: (lower (number + 1 + body.constructs) next ++ back)) <:+
        program ∧
      (lower (number + 1 + body.constructs) next ++ back) <:+ program := by
  rw [lower_choice_append] at h
  have hbody := (List.suffix_append _ _).trans ((List.suffix_cons _ _).trans h)
  have htrailer := (List.suffix_append _ _).trans hbody
  exact ⟨hbody, htrailer, (List.suffix_cons _ _).trans htrailer⟩

theorem lower_loop_parts {program : List Code} {c : Comparison} {body next : Block}
    (h : (lower number (.loop body c next) ++ back) <:+ program) :
    (lower (number + 1) body ++ (guard c.condition (.trailer number) ++ .jump (.header number) ::
        .mark (.trailer number) :: (lower (number + 1 + body.constructs) next ++ back))) <:+
        program ∧
      (.mark (.trailer number) :: (lower (number + 1 + body.constructs) next ++ back)) <:+
        program ∧
      (lower (number + 1 + body.constructs) next ++ back) <:+ program := by
  rw [lower_loop_append] at h
  have hbody := (List.suffix_cons _ _).trans h
  have hjump := (List.suffix_append _ _).trans ((List.suffix_append _ _).trans hbody)
  have htrailer := (List.suffix_cons _ _).trans hjump
  exact ⟨hbody, htrailer, (List.suffix_cons _ _).trans htrailer⟩

end Control

namespace Machine

open Control

variable {ρ : Type} {m : Machine ρ} {program : List Code}

/-- What a structured program does, its code does in front of any other code. -/
theorem Exec.runCode {b : Block} {s t : MachineState ρ} (h : m.Exec b s t)
    (hr : Resolves program) (hf : b.Falls) {number : Nat} {back : List Code} {k : Nat}
    {u : MachineState ρ} (hs : (lower number b ++ back) <:+ program)
    (hback : m.runCode program k back t = some u) :
    ∃ steps, m.runCode program steps (lower number b ++ back) s = some u := by
  induction h generalizing number back k with
  | done s => exact ⟨k, hback⟩
  | label _ ih =>
    obtain ⟨steps, hsteps⟩ := ih hf ((List.suffix_cons _ _).trans hs) hback
    exact ⟨steps + 1, runCode_label.2 ⟨steps, rfl, hsteps⟩⟩
  | plain _ ih =>
    rw [lower_plain_append] at hs ⊢
    obtain ⟨steps, hsteps⟩ := ih hf.2 ((List.suffix_append _ _).trans hs) hback
    exact ⟨_, (runCode_plain hf.1).2 ⟨steps, rfl, hsteps⟩⟩
  | chosen holds _ _ ihinner ihrest =>
    obtain ⟨hbody, htrailer, hnext⟩ := lower_choice_parts number back hs
    obtain ⟨j, hj⟩ := ihrest hf.2 hnext hback
    obtain ⟨i, hi⟩ := ihinner hf.1 hbody (runCode_mark.2 ⟨j, rfl, hj⟩)
    rw [lower_choice_append]
    refine ⟨i + 2 + 1, runCode_mark.2 ⟨i + 2, rfl, (runCode_guard hr htrailer).2 ⟨i, rfl, ?_⟩⟩⟩
    rw [if_pos holds]
    exact hi
  | skipped fails _ ihrest =>
    obtain ⟨_, htrailer, hnext⟩ := lower_choice_parts number back hs
    obtain ⟨j, hj⟩ := ihrest hf.2 hnext hback
    rw [lower_choice_append]
    refine ⟨j + 2 + 1, runCode_mark.2 ⟨j + 2, rfl, (runCode_guard hr htrailer).2 ⟨j, rfl, ?_⟩⟩⟩
    rw [fails]
    exact hj
  | again _ holds _ ihinner ihrest =>
    obtain ⟨hbody, htrailer, _⟩ := lower_loop_parts number back hs
    obtain ⟨j, hj⟩ := ihrest hf hs hback
    rw [lower_loop_append] at hs hj ⊢
    -- The jump leads behind the header, where the rest of the loop starts.
    obtain ⟨i, rfl, hi⟩ := runCode_mark.1 hj
    obtain ⟨n, hn⟩ := ihinner hf.1 hbody ((runCode_guard hr htrailer).2 ⟨i + 1, rfl, by
      rw [if_pos holds]
      exact (runCode_jump hr hs).2 ⟨i, rfl, hi⟩⟩)
    exact ⟨n + 1, runCode_mark.2 ⟨n, rfl, hn⟩⟩
  | left _ fails _ ihinner ihrest =>
    obtain ⟨hbody, htrailer, hnext⟩ := lower_loop_parts number back hs
    obtain ⟨j, hj⟩ := ihrest hf.2 hnext hback
    rw [lower_loop_append]
    obtain ⟨n, hn⟩ := ihinner hf.1 hbody ((runCode_guard hr htrailer).2 ⟨j, rfl, by
      rw [fails]
      exact hj⟩)
    exact ⟨n + 1, runCode_mark.2 ⟨n, rfl, hn⟩⟩

/-- What the code of a structured program does in front of other code, the
structured program does. -/
theorem exec_of_runCode (hr : Resolves program) {bound steps : Nat} (hle : steps ≤ bound)
    {b : Block} (hf : b.Falls) {number : Nat} {back : List Code} {s u : MachineState ρ}
    (hs : (lower number b ++ back) <:+ program)
    (h : m.runCode program steps (lower number b ++ back) s = some u) :
    ∃ t k, k ≤ steps ∧ m.Exec b s t ∧ m.runCode program k back t = some u := by
  -- A loop is run again with fewer steps; its parts are smaller programs.
  induction bound using Nat.strongRecOn generalizing steps b number back s with
  | _ bound ihbound =>
    induction b generalizing steps number back s with
    | done => exact ⟨s, steps, Nat.le_refl _, .done s, h⟩
    | label name next ih =>
      obtain ⟨k, rfl, hk⟩ := runCode_label.1 h
      obtain ⟨t, j, hj, hexec, hback⟩ := ih (by omega) hf ((List.suffix_cons _ _).trans hs) hk
      exact ⟨t, j, by omega, .label hexec, hback⟩
    | plain st next ih =>
      rw [lower_plain_append] at hs h
      obtain ⟨k, rfl, hk⟩ := (runCode_plain hf.1).1 h
      obtain ⟨t, j, hj, hexec, hback⟩ := ih (by omega) hf.2 ((List.suffix_append _ _).trans hs) hk
      exact ⟨t, j, by omega, .plain hexec, hback⟩
    | choice c body next ihbody ihnext =>
      obtain ⟨hbody, htrailer, hnext⟩ := lower_choice_parts number back hs
      rw [lower_choice_append] at h
      obtain ⟨k, rfl, hk⟩ := runCode_mark.1 h
      obtain ⟨j, rfl, hj⟩ := (runCode_guard hr htrailer).1 hk
      cases htest : (m.decide c s).tests c.op with
      | true =>
        rw [if_pos htest] at hj
        obtain ⟨t, i, hi, hinner, hrun⟩ := ihbody (by omega) hf.1 hbody hj
        obtain ⟨n, rfl, hn⟩ := runCode_mark.1 hrun
        obtain ⟨v, l, hl, hrest, hback⟩ := ihnext (by omega) hf.2 hnext hn
        exact ⟨v, l, by omega, .chosen htest hinner hrest, hback⟩
      | false =>
        rw [htest] at hj
        obtain ⟨v, l, hl, hrest, hback⟩ := ihnext (by omega) hf.2 hnext hj
        exact ⟨v, l, by omega, .skipped htest hrest, hback⟩
    | loop body c next ihbody ihnext =>
      obtain ⟨hbody, htrailer, hnext⟩ := lower_loop_parts number back hs
      have hheader := hs
      rw [lower_loop_append] at hheader h
      obtain ⟨k, rfl, hk⟩ := runCode_mark.1 h
      obtain ⟨t, j, hj, hinner, hrun⟩ := ihbody (by omega) hf.1 hbody hk
      obtain ⟨i, rfl, hi⟩ := (runCode_guard hr htrailer).1 hrun
      cases htest : (m.decide c t).tests c.op with
      | true =>
        rw [if_pos htest] at hi
        obtain ⟨n, rfl, hn⟩ := (runCode_jump hr hheader).1 hi
        have hagain : m.runCode program (n + 1) (lower number (.loop body c next) ++ back)
            (m.decide c t) = some u := by
          rw [lower_loop_append]
          exact runCode_mark.2 ⟨n, rfl, hn⟩
        obtain ⟨v, l, hl, hrest, hback⟩ :=
          ihbound (n + 1) (by omega) (Nat.le_refl _) hf hs hagain
        exact ⟨v, l, by omega, .again hinner htest hrest, hback⟩
      | false =>
        rw [htest] at hi
        obtain ⟨v, l, hl, hrest, hback⟩ := ihnext (by omega) hf.2 hnext hi
        exact ⟨v, l, by omega, .left hinner htest hrest, hback⟩

end Machine

/-! ## Lines -/

namespace Control

/-- Shorthand of a statement that is no branch or jump leads to the next one. -/
theorem shorthand_flow {st part : Statement} (hbranch : st.command ≠ .system (ascii ";"))
    (hjump : st.command ≠ .system (ascii "#")) (hp : part ∈ shorthand st) :
    part.flow = .next := by
  by_cases hs : ∃ run, st.command = .system run
  · obtain ⟨run, hrun⟩ := hs
    rw [shorthand_system hrun, List.mem_singleton] at hp
    subst hp
    exact Statement.flow_eq_next hbranch hjump
  · have hnot := shorthand_not_system (fun run h => hs ⟨run, h⟩) hp
    exact Statement.flow_eq_next (hnot _) (hnot _)

theorem Reads.suffix {p stop : Position} {b : Block} (h : Reads p stop b) :
    stop.statements <:+ p.statements := by
  induction h with
  | done => exact List.suffix_rfl
  | enter _ ih =>
    rw [Position.statements_enter]
    exact ih
  | plain _ _ ih => exact ih.trans (List.suffix_cons _ _)
  | choice _ _ _ _ _ ihnext =>
    exact ihnext.trans ((List.suffix_append _ _).trans (List.suffix_cons _ _))
  | loop _ _ _ _ _ ihinner ihnext =>
    exact ihnext.trans ((List.suffix_cons _ _).trans (ihinner.trans (List.suffix_cons _ _)))

/-- No plain statement is a branch or a jump. -/
def PlainFalls (sts : List Statement) : Prop :=
  ∀ st ∈ sts, kind st = .plain →
    st.command ≠ .system (ascii ";") ∧ st.command ≠ .system (ascii "#")

theorem PlainFalls.suffix {sts back : List Statement} (h : PlainFalls sts) (hs : back <:+ sts) :
    PlainFalls back := fun st hst => h st (hs.subset hst)

theorem Reads.falls {p stop : Position} {b : Block} (h : Reads p stop b)
    (hp : PlainFalls p.statements) : b.Falls := by
  induction h with
  | done => trivial
  | @enter line lines stop b _ ih =>
    rw [Position.statements_enter] at hp
    have hb := ih hp
    unfold labelledBlock
    split
    · exact hb
    · exact hb
  | plain hk _ ih =>
    obtain ⟨hbranch, hjump⟩ := hp _ List.mem_cons_self hk
    exact ⟨fun part hpart => shorthand_flow hbranch hjump hpart,
      ih (hp.suffix (List.suffix_cons _ _))⟩
  | choice _ _ _ _ ihinner ihnext =>
    refine ⟨ihinner fun st hst => hp st ?_, ihnext (hp.suffix ?_)⟩
    · rw [Position.statements, List.flatMap_nil, List.append_nil] at hst
      exact List.mem_cons_of_mem _ (List.mem_append_left _ hst)
    · exact (List.suffix_append _ _).trans (List.suffix_cons _ _)
  | loop _ inner _ _ _ ihinner ihnext =>
    have hinner := hp.suffix (List.suffix_cons _ _)
    exact ⟨ihinner hinner,
      ihnext ((hinner.suffix inner.suffix).suffix (List.suffix_cons _ _))⟩

/-- The code of lines that are read as a structured program. -/
theorem Reads.traceLines {lines : List Line} {b : Block} (h : Reads ⟨[], lines⟩ .ending b)
    (counter : Nat) :
    traceLines counter [] lines = some ⟨lower counter b, counter + b.constructs, []⟩ := by
  rw [← traceFrom_lines, h.code counter [], traceFrom_ending]
  simp [Trace.after]

/-- Lines and the code that they have without open loops. -/
theorem resolves_of_traceLines {counter : Nat} {lines : List Line} {t : Trace}
    (hlabels : ∀ line ∈ lines, Label.isGenerated line.label = false)
    (h : Control.traceLines counter [] lines = some t) (hclosed : t.loops = []) :
    Resolves t.code := by
  constructor
  · have hmarks := traceLines_marks h
    rw [hclosed, List.map_nil, List.append_nil, List.nil_append] at hmarks
    exact hmarks.nodup_iff.2 (marksFrom_nodup _ _)
  · intro name hn
    obtain ⟨line, hline, rfl⟩ := traceLines_labels h hn
    exact hlabels line hline

theorem Traced.closings {counter : Nat} {loops : List Nat} {sts : List Statement} {t : Trace}
    (h : Traced counter loops sts t) {st : Statement} (hst : st ∈ sts) {operand : Expr}
    (hk : kind st = .closing operand) : (Comparison.of? operand).isSome := by
  induction h with
  | done => cases hst
  | plain hk' _ ih | choice hk' _ ih | opening hk' _ ih =>
    rcases List.mem_cons.1 hst with rfl | hst
    · rw [hk'] at hk
      cases hk
    · exact ih hst
  | closing hk' hc _ ih =>
    rcases List.mem_cons.1 hst with rfl | hst
    · rw [hk'] at hk
      cases hk
      rw [Condition.of?_eq] at hc
      obtain ⟨c, hc, _⟩ := Option.map_eq_some_iff.1 hc
      rw [hc]
      rfl
    · exact ih hst

theorem traceLines_closings {counter : Nat} {loops : List Nat} {lines : List Line} {t : Trace}
    (h : Control.traceLines counter loops lines = some t) {st : Statement}
    (hst : st ∈ lines.flatMap Line.statements) {operand : Expr}
    (hk : kind st = .closing operand) : (Comparison.of? operand).isSome := by
  induction lines generalizing counter loops t with
  | nil => cases hst
  | cons line rest ih =>
    obtain ⟨first, others, hf, ho, rfl⟩ := traceLines_cons h
    rw [List.flatMap_cons, List.mem_append] at hst
    rcases hst with hst | hst
    · exact hf.closings hst hk
    · exact ih ho hst

/-- Lines with the code of a structured program do what it does. -/
theorem reaches_iff_exec {ρ : Type} {m : Machine ρ} {out : List Line} {number : Nat} {b : Block}
    (hitems : itemsOf out = (lower number b).map Code.item) (hr : Resolves (lower number b))
    (hf : b.Falls) {s t : MachineState ρ} : m.Reaches out s t ↔ m.Exec b s t := by
  have hs : (lower number b ++ []) <:+ lower number b := by simp
  unfold Machine.Reaches
  rw [hitems]
  constructor
  · rintro ⟨steps, h⟩
    have hrun : m.runCode (lower number b) steps (lower number b ++ []) s = some t := by
      rw [List.append_nil]
      exact h
    obtain ⟨u, k, _, hexec, hnil⟩ := Machine.exec_of_runCode hr (Nat.le_refl steps) hf hs hrun
    obtain rfl := Machine.runCode_nil.1 hnil
    exact hexec
  · intro hexec
    have hnil : m.runCode (lower number b) 0 [] t = some t := Machine.runCode_nil.2 rfl
    obtain ⟨steps, h⟩ := hexec.runCode hr hf hs hnil
    rw [List.append_nil] at h
    exact ⟨steps, h⟩

/-- Lines whose loops are balanced and end with comparisons are a structured
program. -/
theorem exists_reads {lines : List Line}
    (hbalanced : balanced (lines.flatMap Line.statements) = true)
    (hbodies : ∀ line ∈ lines, bodiesBalanced line.statements = true)
    (hclosings : ∀ st ∈ lines.flatMap Line.statements, ∀ operand, kind st = .closing operand →
      (Comparison.of? operand).isSome) : ∃ b, Reads ⟨[], lines⟩ .ending b := by
  have hreadable : Position.Readable ⟨[], lines⟩ 0 :=
    ⟨by simpa [balanced, Position.statements] using hbalanced, rfl, hbodies, hclosings⟩
  obtain ⟨stop, b, hb, rfl, _⟩ := hreadable.exists_reads
  exact ⟨b, hb⟩

/-- Expansion keeps meaning. Take lines without generated labels and without plain
branches and jumps, whose loops are balanced, also within the body of every if.
They can be expanded exactly if every loop ends with a comparison. And then any
machine that runs the expanded lines reaches a state exactly if the structured
program of the lines does. -/
theorem expansion_preserves_meaning {ρ : Type} (m : Machine ρ) {state : State} {lines : List Line}
    (hlabels : ∀ line ∈ lines, Label.isGenerated line.label = false)
    (hplain : PlainFalls (lines.flatMap Line.statements))
    (hbalanced : balanced (lines.flatMap Line.statements) = true)
    (hbodies : ∀ line ∈ lines, bodiesBalanced line.statements = true)
    (hopen : state.loops.items = []) :
    ((∃ out, (expand state lines).lines = .ok out) ↔
      ∀ st ∈ lines.flatMap Line.statements, ∀ operand, kind st = .closing operand →
        (Comparison.of? operand).isSome) ∧
    ∀ out, (expand state lines).lines = .ok out →
      ∀ s t, m.Reaches out s t ↔ m.Structured lines s t := by
  constructor
  · constructor
    · rintro ⟨out, hout⟩ st hst operand hk
      obtain ⟨t, ht, _⟩ := trace_of_expand hopen hout
      exact traceLines_closings ht hst hk
    · intro hclosings
      obtain ⟨b, hb⟩ := exists_reads hbalanced hbodies hclosings
      obtain ⟨out, hout, _⟩ := expand_of_trace hopen (hb.traceLines state.counter) rfl
      exact ⟨out, hout⟩
  · intro out hout s t
    obtain ⟨code, hcode, hclosed, hitems⟩ := trace_of_expand hopen hout
    have hr := resolves_of_traceLines hlabels hcode hclosed
    -- Whatever structured program the lines are read as, they have its code.
    have hread {b : Block} (hb : Reads ⟨[], lines⟩ .ending b) :
        m.Reaches out s t ↔ m.Exec b s t := by
      have hlower : code.code = lower state.counter b := by
        rw [hb.traceLines state.counter] at hcode
        cases hcode
        rfl
      rw [hlower] at hitems hr
      exact reaches_iff_exec hitems hr (hb.falls hplain)
    constructor
    · intro h
      obtain ⟨b, hb⟩ := exists_reads hbalanced hbodies
        fun st hst operand hk => traceLines_closings hcode hst hk
      exact ⟨b, hb, (hread hb).1 h⟩
    · rintro ⟨b, hb, hexec⟩
      exact (hread hb).2 hexec

/-- A machine with one register `X` and an accumulator `A`, which can step `X` and
load numbers. -/
def stepper : Machine (Nat × Nat) where
  plain st s :=
    match st.command, st.operand with
    | .ident name, .system _ =>
      if name = ascii "X" then { s with rest := (s.rest.1 + 1, s.rest.2) } else s
    | .ident name, .decimal n =>
      if name = ascii "A" then { s with rest := (s.rest.1, n.toNat) } else s
    | _, _ => s
  value e s :=
    match e with
    | .ident _ => s.rest.1
    | .decimal n => n.toNat
    | _ => 0

/-- A loop over three lines, with an if on the second one. -/
def climbing : List Line :=
  let line (number : Int) (label : String) (statements : List Statement) : Line :=
    { number, file := [], text := [], label := ascii label, statements }
  [line 1 "up" [⟨.system (ascii "@"), .empty⟩, ⟨.ident (ascii "X"), .system (ascii "++")⟩],
    line 2 "" [⟨.system (ascii ";"), .binary (.ident (ascii "X")) .greater (.decimal 4)⟩,
      ⟨.ident (ascii "A"), .decimal 7⟩],
    line 3 "" [⟨.system (ascii "@"), .binary (.ident (ascii "X")) .less (.decimal 5)⟩]]

theorem climbing_keeps_its_meaning :
    ∃ out, (∀ line ∈ climbing, Label.isGenerated line.label = false) ∧
      PlainFalls (climbing.flatMap Line.statements) ∧
      balanced (climbing.flatMap Line.statements) = true ∧
      (∀ line ∈ climbing, bodiesBalanced line.statements = true) ∧
      (expand { counter := 3 } climbing).lines = .ok out ∧
      stepper.Reaches out ⟨false, false, (0, 0)⟩ ⟨true, false, (6, 7)⟩ ∧
      stepper.Structured climbing ⟨false, false, (0, 0)⟩ ⟨true, false, (6, 7)⟩ := by
  have hlabels : ∀ line ∈ climbing, Label.isGenerated line.label = false := by decide +kernel
  have hplain : PlainFalls (climbing.flatMap Line.statements) := by
    unfold PlainFalls
    decide +kernel
  have hbalanced : balanced (climbing.flatMap Line.statements) = true := by decide +kernel
  have hbodies : ∀ line ∈ climbing, bodiesBalanced line.statements = true := by decide +kernel
  obtain ⟨out, hout, hrun⟩ : ∃ out, (expand { counter := 3 } climbing).lines = .ok out ∧
      stepper.run (itemsOf out) 60 (itemsOf out) ⟨false, false, (0, 0)⟩ =
        some ⟨true, false, (6, 7)⟩ := ⟨_, rfl, by decide +kernel⟩
  have hopen : ({ counter := 3 } : State).loops.items = [] := rfl
  obtain ⟨_, hmeaning⟩ := expansion_preserves_meaning stepper hlabels hplain hbalanced hbodies hopen
  have hreaches : stepper.Reaches out ⟨false, false, (0, 0)⟩ ⟨true, false, (6, 7)⟩ := ⟨60, hrun⟩
  exact ⟨out, hlabels, hplain, hbalanced, hbodies, hout, hreaches,
    (hmeaning out hout _ _).1 hreaches⟩

end Control

end Asm6502
