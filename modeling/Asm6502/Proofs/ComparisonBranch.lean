-- Comparisons of the text and the branches that they become. A compare sets the
-- carry if its first side is at least the second, so the branch for `>` is taken
-- only below: it lets equal sides pass, where the value of the comparison is 0. For
-- all others the branch is taken exactly where the comparison has the value 0.
import Asm6502.Proofs.ControlFlow

namespace Asm6502

namespace Control

/-! ## Comparisons and branches -/

/-- The flags behind a compare of two words. -/
structure Compared {ρ : Type} (s : MachineState ρ) (a b : UInt16) : Prop where
  carry_eq : s.carry = decide (b.toNat ≤ a.toNat)
  zero_eq : s.zero = decide (a.toNat = b.toNat)

/-- Whether the code of a condition lets pass to what it guards. Only `>` differs
from the comparison itself, if both sides are equal. -/
def Passes (op : Operator) (a b : UInt16) : Prop :=
  op.holds a b = true ∨ op = .greater ∧ a = b

theorem isComparison_of_inverted? {op : Operator} {skip : Text} (h : inverted? op = some skip) :
    op.isComparison = true := by
  cases op with
  | greater | less | equal | notEqual => rfl
  | _ => cases h

/-- The branch that a comparison is turned into is taken exactly where it does not let
pass. -/
theorem holds_inverted? {op : Operator} {skip : Text} (h : inverted? op = some skip) :
    ∃ mnemonic, Decode.branch? (.system skip) = some mnemonic ∧
      ∀ {ρ : Type} {s : MachineState ρ} {a b : UInt16}, Compared s a b →
        (s.holds mnemonic = true ↔ ¬ Passes op a b) := by
  cases op with
  | equal =>
    cases h
    refine ⟨.bne, by decide +kernel, fun {ρ s a b} hs => ?_⟩
    simp [MachineState.holds, hs.zero_eq, Passes, Operator.holds, UInt16.toNat_inj]
  | notEqual =>
    cases h
    refine ⟨.beq, by decide +kernel, fun {ρ s a b} hs => ?_⟩
    simp [MachineState.holds, hs.zero_eq, Passes, Operator.holds, UInt16.toNat_inj]
  | greater =>
    cases h
    refine ⟨.bcc, by decide +kernel, fun {ρ s a b} hs => ?_⟩
    -- The carry is set also where both sides are equal.
    have hcarry : b.toNat ≤ a.toNat ↔ b < a ∨ a = b := by
      rw [UInt16.lt_iff_toNat_lt, ← UInt16.toNat_inj]
      omega
    simp [MachineState.holds, hs.carry_eq, Passes, Operator.holds, hcarry]
  | less =>
    cases h
    refine ⟨.bcs, by decide +kernel, fun {ρ s a b} hs => ?_⟩
    simp [MachineState.holds, hs.carry_eq, Passes, Operator.holds, UInt16.lt_iff_toNat_lt]
  | _ => cases h

/-- A comparison of operands with values is 1 if it holds and 0 if not. -/
theorem value_comparison {labels : Label.View} {pc : UInt16} {x y : Expr} {op : Operator}
    {a b : UInt16} (hop : op.isComparison = true) (hx : x.value labels pc = .ok a)
    (hy : y.value labels pc = .ok b) :
    (Expr.binary x op y).value labels pc = .ok (if op.holds a b then 1 else 0) := by
  simp [Expr.value, hx, hy, hop, bind, Except.bind]

theorem compared_effect {ρ : Type} (m : Machine ρ) {s : MachineState ρ} {left right : Expr}
    {a b : UInt16} (ha : m.value left s = a.toNat) (hb : m.value right s = b.toNat) :
    Compared (m.effect (comparing left right) s) a b := by
  rw [Machine.effect_comparing]
  constructor
  · simp [Machine.compare, ha, hb]
  · simp [Machine.compare, ha, hb]

end Control

/-! ## Runs -/

namespace Machine

open Control

variable {ρ : Type}

/-- Where the code of a condition leads to. What it guards is the body of an if, or
the jump back to the start of a loop. -/
structure Obeys (m : Machine ρ) (condition : Condition) (s : MachineState ρ) (pass : Prop) :
    Prop where
  goes_on : pass → ∀ program target rest steps,
    m.run program (steps + 2) ((guard condition target).map Code.item ++ rest) s =
      m.run program steps rest (m.effect condition.compare s)
  repeats : pass → ∀ program number rest steps,
    m.run program (steps + 3) ((repetition condition number).map Code.item ++ rest) s =
      (behindLabel (labelOf number) program).bind fun code =>
        m.run program steps code (m.effect condition.compare s)
  skips : ¬ pass → ∀ program target rest steps,
    m.run program (steps + 2) ((guard condition target).map Code.item ++ rest) s =
      (behindLabel target.label program).bind fun code =>
        m.run program steps code (m.effect condition.compare s)

/-- The code of a condition compares, and then branches or goes on. -/
theorem run_guard (m : Machine ρ) {condition : Condition} {left right : Expr}
    {mnemonic : Mnemonic} (hc : condition.compare = comparing left right)
    (hb : Decode.branch? (.system condition.skip) = some mnemonic) (s : MachineState ρ)
    (program : List Item) (target : Mark) (rest : List Item) (steps : Nat) :
    m.run program (steps + 2) ((guard condition target).map Code.item ++ rest) s =
      if (m.effect condition.compare s).holds mnemonic = true then
        (behindLabel target.label program).bind fun code =>
          m.run program steps code (m.effect condition.compare s)
      else m.run program steps rest (m.effect condition.compare s) := by
  have hcompare : condition.compare.flow = .next := by
    rw [hc]
    exact Statement.flow_eq_next (by simp [comparing]) (by simp [comparing])
  have hflow := flow_of_branch? hb target.label
  simp only [Control.guard, List.map_cons, List.map_nil, List.cons_append, List.nil_append, Code.item,
    run, step, hcompare, hflow, Option.bind_some]
  split
  · rw [Option.bind_map]
    rfl
  · rfl

theorem obeys_of_holds (m : Machine ρ) {condition : Condition} {left right : Expr}
    {mnemonic : Mnemonic} (hc : condition.compare = comparing left right)
    (hb : Decode.branch? (.system condition.skip) = some mnemonic) {s : MachineState ρ}
    {pass : Prop} (h : (m.effect condition.compare s).holds mnemonic = true ↔ ¬ pass) :
    m.Obeys condition s pass := by
  have hguard := m.run_guard hc hb s
  have hgoes_on (hpass : pass) (program : List Item) (target : Mark) (rest : List Item)
      (steps : Nat) : m.run program (steps + 2) ((guard condition target).map Code.item ++ rest) s =
        m.run program steps rest (m.effect condition.compare s) := by
    rw [hguard, if_neg (fun htaken => h.1 htaken hpass)]
  constructor
  · exact hgoes_on
  · intro hpass program number rest steps
    -- Behind the branch stands the jump, which takes one more step.
    rw [repetition, List.map_append, List.append_assoc, hgoes_on hpass program _ _ (steps + 1)]
    simp only [List.map_cons, List.cons_append, Code.item, run, step, flow_jump, Option.bind_map]
    rfl
  · intro hpass program target rest steps
    rw [hguard, if_pos (h.2 hpass)]

end Machine

namespace Control

/-- Take a condition of an if or a loop, and two words that its sides have in a
machine. The branch of the condition is taken exactly where the comparison of the
two words has the value 0, if and only if the comparison is not `>` with equal sides.
And what the condition guards is run exactly where the comparison has the value 1 or
is `>` with equal sides. -/
theorem branch_agrees_with_comparison_iff {e : Expr} {condition : Condition}
    (h : Condition.of? e = some condition) :
    ∃ left op right mnemonic, e = .binary left op right ∧
      condition.compare = comparing left right ∧
      Decode.branch? (.system condition.skip) = some mnemonic ∧
      ∀ (ρ : Type) (m : Machine ρ) (s : MachineState ρ) (a b : UInt16),
        m.value left s = a.toNat → m.value right s = b.toNat →
        ∀ (labels : Label.View) (pc : UInt16) (x y : Expr),
          x.value labels pc = .ok a → y.value labels pc = .ok b →
          (((m.effect condition.compare s).holds mnemonic = true ↔
              (Expr.binary x op y).value labels pc = .ok 0) ↔ ¬ (op = .greater ∧ a = b)) ∧
            m.Obeys condition s
              ((Expr.binary x op y).value labels pc = .ok 1 ∨ op = .greater ∧ a = b) := by
  obtain ⟨left, op, right, rfl, hskip, hcompare⟩ := Condition.of?_eq_some.1 h
  obtain ⟨mnemonic, hbranch, htaken⟩ := holds_inverted? hskip
  refine ⟨left, op, right, mnemonic, rfl, hcompare, hbranch, ?_⟩
  intro ρ m s a b ha hb labels pc x y hx hy
  have hflags : Compared (m.effect condition.compare s) a b := by
    rw [hcompare]
    exact compared_effect m ha hb
  have hvalue := value_comparison (isComparison_of_inverted? hskip) hx hy
  have hone : (Expr.binary x op y).value labels pc = .ok 1 ↔ op.holds a b = true := by
    rw [hvalue]
    cases op.holds a b <;> simp
  have hzero : (Expr.binary x op y).value labels pc = .ok 0 ↔ ¬ op.holds a b = true := by
    rw [hvalue]
    cases op.holds a b <;> simp
  have hstrict : op = .greater ∧ a = b → ¬ op.holds a b = true := by
    rintro ⟨rfl, rfl⟩
    simp [Operator.holds]
  constructor
  · rw [htaken hflags, hzero, Passes]
    tauto
  · apply m.obeys_of_holds hcompare hbranch
    rw [htaken hflags, hone]
    rfl

/-- A machine whose names have one value and whose numbers another. -/
def comparer (name number : Nat) : Machine Unit where
  plain _ s := s
  value e _ :=
    match e with
    | .ident _ => name
    | _ => number

/-- If `X` is 10, then the branch of `X>10` is not taken, and what it guards is run,
although `10>10` has the value 0. -/
theorem greater_lets_equal_pass :
    ∃ condition mnemonic, Condition.of? (.binary (.ident (ascii "X")) .greater (.decimal 10)) =
        some condition ∧
      Decode.branch? (.system condition.skip) = some mnemonic ∧
      (Expr.binary (.decimal 10) .greater (.decimal 10)).value .empty 0 = .ok 0 ∧
      ∀ s, ((comparer 10 10).effect condition.compare s).holds mnemonic = false ∧
        ∀ program target rest steps,
          (comparer 10 10).run program (steps + 2)
              ((guard condition target).map Code.item ++ rest) s =
            (comparer 10 10).run program steps rest
              ((comparer 10 10).effect condition.compare s) := by
  obtain ⟨condition, hcondition⟩ : ∃ condition, Condition.of?
      (.binary (.ident (ascii "X")) .greater (.decimal 10)) = some condition := ⟨_, rfl⟩
  have hvalue : (Expr.binary (.decimal 10) .greater (.decimal 10)).value .empty 0 = .ok 0 := rfl
  obtain ⟨left, op, right, mnemonic, he, -, hbranch, hall⟩ :=
    branch_agrees_with_comparison_iff hcondition
  cases he
  refine ⟨condition, mnemonic, hcondition, hbranch, hvalue, fun s => ?_⟩
  obtain ⟨hagree, hobeys⟩ :=
    hall Unit (comparer 10 10) s 10 10 rfl rfl .empty 0 (.decimal 10) (.decimal 10) rfl rfl
  refine ⟨?_, hobeys.goes_on (.inr ⟨rfl, rfl⟩)⟩
  by_contra htaken
  rw [Bool.not_eq_false] at htaken
  exact hagree.1 ⟨fun _ => hvalue, fun _ => htaken⟩ ⟨rfl, rfl⟩

end Control

end Asm6502
