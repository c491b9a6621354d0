-- What an index register adds to. The register at the end of an operand is
-- split off whatever operators stand before it, although each of them takes
-- all that stands behind it for its right side. Sums do not mind, and a
-- difference turns the sign of the register: `label-1+X` is `label-(1+X)`,
-- while its mode adds X to `label-1`.
import Asm6502.Proofs.AddressValue
import Asm6502.Proofs.Decoding

namespace Asm6502

/-- The view in which a name stands for a word. -/
def Label.View.set (labels : Label.View) (name : Text) (w : UInt16) : Label.View :=
  fun other => if other = name then .ok (.full w) else labels other

namespace Operator

/-- Whether an operator makes a word of some words at all. -/
def hasResult : Operator → Bool
  | .comma | .unlisted _ => false
  | _ => true

/-- Sums and differences. -/
def isSigned : Operator → Bool
  | .add | .sub => true
  | _ => false

theorem result?_eq_none {op : Operator} (h : op.hasResult = false) (a b : UInt16) :
    op.result? a b = none := by
  cases op with
  | comma | unlisted => rfl
  | _ => cases h

/-- Every operator has a left side that takes 1 to 1. -/
theorem exists_result?_one {op : Operator} (h : op.hasResult = true) :
    ∃ a, op.result? a 1 = some 1 := by
  cases op with
  | add | or | xor | less | notEqual => exact ⟨0, by decide⟩
  | mul | div | and | equal => exact ⟨1, by decide⟩
  | sub | greater => exact ⟨2, by decide⟩
  | comma | unlisted => cases h

end Operator

namespace Decode

/-! ## The operators before a register -/

/-- The operators that the register is split off from, from the left to the
right. The `+` of the register itself is not one of them. -/
def passed (register : Text) : Expr → List Operator
  | .binary _ op right =>
    if op = .add ∧ right = .ident register then [] else op :: passed register right
  | _ => []

/-- Whether a word behind operators is subtracted in the end: every difference
turns the sign of all that stands behind it. -/
def turned : List Operator → Bool
  | [] => false
  | op :: ops => if op = .sub then !turned ops else turned ops

/-- A word added or subtracted. -/
def moved (back : Bool) (w v : UInt16) : UInt16 := if back then w - v else w + v

/-- What words and the operators behind them make of a word at their end. -/
def carried : List (UInt16 × Operator) → UInt16 → Option UInt16
  | [], b => some b
  | (a, op) :: rest, b => (carried rest b).bind (op.result? a)

section Value

variable {labels : Label.View} {pc : UInt16} {register : Text}

/-- Registers play no part in an expression that names none. -/
theorem value_set {e : Expr} (hr : isRegister register = true) (h : hasRegister e = false)
    (v : UInt16) : e.value (labels.set register v) pc = e.value labels pc := by
  induction e with
  | ident name =>
    have hname : name ≠ register := by
      rintro rfl
      rw [hasRegister, hr] at h
      cases h
    simp only [Expr.value, Expr.lookup, Label.View.set, if_neg hname]
  | paren e ih => exact ih h
  | highByte e ih | lowByte e ih => rw [Expr.value, Expr.value, ih h]
  | binary left op right ihl ihr =>
    rw [hasRegister, Bool.or_eq_false_iff] at h
    rw [Expr.value, Expr.value, ihl h.1, ihr h.2]
  | _ => rfl

theorem value_add_register {last : Expr} {b v : UInt16}
    (hb : last.value (labels.set register v) pc = .ok b) :
    (Expr.binary last .add (.ident register)).value (labels.set register v) pc = .ok (b + v) := by
  refine Expr.value_binary_eq_ok.2 ⟨b, v, hb, ?_, rfl⟩
  simp [Expr.value, Expr.lookup, Label.View.set, Except.mapError, bind, Except.bind, pure,
    Except.pure]

/-- The register at the end of an expression is carried through the operators
before it, and so is the end of the base. -/
theorem value_of_indexed? {e base : Expr} {w : UInt16} (hr : isRegister register = true)
    (h : indexed? register e = some base) (hbase : hasRegister base = false)
    (hw : base.value labels pc = .ok w) :
    ∃ steps b, steps.map Prod.snd = passed register e ∧ carried steps b = some w ∧
      ∀ v x, e.value (labels.set register v) pc = .ok x ↔ carried steps (b + v) = some x := by
  fun_induction indexed? register e generalizing base w with
  | case1 left op right hop =>
    obtain ⟨rfl, rfl⟩ := hop
    cases h
    refine ⟨[], w, by simp [passed], rfl, fun v x => ?_⟩
    rw [value_add_register ((value_set hr hbase v).trans hw)]
    simp [carried]
  | case2 left op right hop ih =>
    obtain ⟨inner, hi, rfl⟩ := Option.map_eq_some_iff.1 h
    rw [hasRegister, Bool.or_eq_false_iff] at hbase
    obtain ⟨a, c, ha, hc, hresult⟩ := Expr.value_binary_eq_ok.1 hw
    obtain ⟨steps, b, hops, hb, hsteps⟩ := ih hi hbase.2 hc
    refine ⟨(a, op) :: steps, b, by simp [passed, hop, hops], ?_, fun v x => ?_⟩
    · rw [carried, hb]
      exact hresult
    · rw [Expr.value_binary_eq_ok, value_set hr hbase.1, ha, carried, Option.bind_eq_some_iff]
      simp [hsteps]
  | case3 => cases h

end Value

/-! ## Sums and differences -/

theorem moved_add (back : Bool) (a w v : UInt16) : a + moved back w v = moved back (a + w) v := by
  cases back with
  | false => grind [moved]
  | true => grind [moved]

theorem moved_sub (back : Bool) (a w v : UInt16) :
    a - moved back w v = moved (!back) (a - w) v := by
  cases back with
  | false => grind [moved]
  | true => grind [moved]

/-- Behind sums and differences, a word that is added is added or subtracted in
the end. -/
theorem carried_moved {steps : List (UInt16 × Operator)}
    (hs : ∀ op ∈ steps.map Prod.snd, op.isSigned = true) (b v : UInt16) :
    ∃ w, carried steps b = some w ∧
      carried steps (b + v) = some (moved (turned (steps.map Prod.snd)) w v) := by
  induction steps with
  | nil => exact ⟨b, rfl, rfl⟩
  | cons step steps ih =>
    obtain ⟨a, op⟩ := step
    rw [List.map_cons, List.forall_mem_cons] at hs
    obtain ⟨w, hw, hv⟩ := ih hs.2
    simp only [carried, hw, hv, Option.bind_some, List.map_cons, turned]
    cases op with
    | add => exact ⟨a + w, rfl, congrArg some (moved_add _ a w v)⟩
    | sub => exact ⟨a - w, rfl, congrArg some (moved_sub _ a w v)⟩
    | _ => cases hs.1

theorem carried_eq_none {steps : List (UInt16 × Operator)} {op : Operator}
    (hop : op ∈ steps.map Prod.snd) (h : op.hasResult = false) (b : UInt16) :
    carried steps b = none := by
  induction steps with
  | nil => cases hop
  | cons step steps ih =>
    rw [carried]
    rcases List.mem_cons.1 hop with rfl | hop
    · cases carried steps b with
      | none => rfl
      | some w => exact Operator.result?_eq_none h _ _
    · rw [ih hop]
      rfl

/-! ## All other operators -/

/-- Whatever words stand before the operators, a word that is added at their end
is added, or subtracted, in the end. -/
def Carries (back : Bool) (ops : List Operator) : Prop :=
  ∀ steps b v w, steps.map Prod.snd = ops → carried steps b = some w →
    carried steps (b + v) = some (moved back w v)

section Carries

variable {back : Bool} {op : Operator} {ops : List Operator}

theorem exists_carried_one (h : ∀ op ∈ ops, op.hasResult = true) :
    ∃ steps, steps.map Prod.snd = ops ∧ carried steps 1 = some 1 := by
  induction ops with
  | nil => exact ⟨[], rfl, rfl⟩
  | cons op ops ih =>
    rw [List.forall_mem_cons] at h
    obtain ⟨steps, hops, hone⟩ := ih h.2
    obtain ⟨a, ha⟩ := Operator.exists_result?_one h.1
    exact ⟨(a, op) :: steps, by rw [List.map_cons, hops], by rw [carried, hone]; exact ha⟩

theorem Carries.behind (h : Carries back (op :: ops)) {steps : List (UInt16 × Operator)}
    (hops : steps.map Prod.snd = ops) {a b c w : UInt16} (hb : carried steps b = some c)
    (hw : op.result? a c = some w) (v : UInt16) :
    ∃ y, carried steps (b + v) = some y ∧ op.result? a y = some (moved back w v) := by
  have hcarried : carried ((a, op) :: steps) b = some w := by
    rw [carried, hb]
    exact hw
  have := h ((a, op) :: steps) b v w (by rw [List.map_cons, hops]) hcarried
  rwa [carried, Option.bind_eq_some_iff] at this

theorem moved_one_ne (back : Bool) (w : UInt16) : moved back w 1 ≠ w := by
  cases back with
  | false => grind [moved]
  | true => grind [moved]

theorem moved_two_ne (back p q : Bool) :
    moved back (if p then 1 else 0) 2 ≠ if q then 1 else 0 := by
  revert back p q
  decide

/-- An operator whose result says nothing about its right side carries nothing. -/
theorem not_carries_of_constant (hvalued : ∀ other ∈ ops, other.hasResult = true) {a w : UInt16}
    (hw : op.result? a 1 = some w) (hconstant : ∀ y x, op.result? a y = some x → x = w) :
    ¬ Carries back (op :: ops) := by
  intro h
  obtain ⟨steps, hops, hone⟩ := exists_carried_one hvalued
  obtain ⟨y, -, hy⟩ := h.behind hops hone hw 1
  exact moved_one_ne back w (hconstant y _ hy)

theorem not_carries_of_isComparison (hvalued : ∀ other ∈ ops, other.hasResult = true)
    (hop : op.isComparison = true) : ¬ Carries back (op :: ops) := by
  intro h
  have hresult (a b : UInt16) : op.result? a b = some (if op.holds a b then 1 else 0) := by
    rw [Operator.result?, if_pos hop]
  obtain ⟨steps, hops, hone⟩ := exists_carried_one hvalued
  obtain ⟨y, -, hy⟩ := h.behind hops hone (hresult 0 1) 2
  rw [hresult, Option.some.injEq] at hy
  exact moved_two_ne back _ _ hy.symm

/-- A word behind `^` is the same with 0 on the left, so 1 on the left flips its
lowest bit. This is no way to add or subtract. -/
theorem not_carries_xor (hvalued : ∀ other ∈ ops, other.hasResult = true) :
    ¬ Carries back (.xor :: ops) := by
  intro h
  obtain ⟨steps, hops, hone⟩ := exists_carried_one hvalued
  obtain ⟨y, hy, hsame⟩ := h.behind hops (a := 0) hone rfl 1
  obtain ⟨z, hz, hflipped⟩ := h.behind hops (a := 1) hone rfl 1
  cases hy.symm.trans hz
  have hsame : (0 ^^^ y) = moved back (0 ^^^ 1) 1 := Option.some.inj hsame
  have hflipped : (1 ^^^ y) = moved back (1 ^^^ 1) 1 := Option.some.inj hflipped
  rw [UInt16.zero_xor] at hsame
  subst hsame
  revert hflipped
  cases back <;> decide

/-- Only sums and differences carry the word behind them to the end. -/
theorem isSigned_of_carries (hop : op.hasResult = true)
    (hvalued : ∀ other ∈ ops, other.hasResult = true) (h : Carries back (op :: ops)) :
    op.isSigned = true := by
  -- A left side of zeros, or of ones, hides what stands behind it.
  cases op with
  | add | sub => rfl
  | mul | and =>
    refine absurd h (not_carries_of_constant hvalued (a := 0) rfl fun y x hx => ?_)
    cases hx
    simp
  | div =>
    refine absurd h (not_carries_of_constant hvalued (a := 0) rfl fun y x hx => ?_)
    by_cases hy : y = 0
    · simp [Operator.result?, Operator.isComparison, Operator.apply, hy, Except.toOption] at hx
    · simp [Operator.result?, Operator.isComparison, Operator.apply, hy, Except.toOption] at hx
      simp [hx]
  | or =>
    refine absurd h (not_carries_of_constant hvalued (a := -1) rfl fun y x hx => ?_)
    cases hx
    simp
  | xor => exact absurd h (not_carries_xor hvalued)
  | greater | less | equal | notEqual => exact absurd h (not_carries_of_isComparison hvalued rfl)
  | comma | unlisted => cases hop

/-- Behind `0+` a word is carried as before. -/
theorem Carries.behind_add (h : Carries back (.add :: ops)) : Carries back ops := by
  intro steps b v w hops hw
  obtain ⟨y, hy, hv⟩ := h.behind hops (a := 0) hw rfl v
  have hv : 0 + y = moved back (0 + w) v := Option.some.inj hv
  rw [UInt16.zero_add, UInt16.zero_add] at hv
  rw [hy, hv]

/-- Behind `0-` a word is carried with the other sign. -/
theorem Carries.behind_sub (h : Carries back (.sub :: ops)) : Carries (!back) ops := by
  intro steps b v w hops hw
  obtain ⟨y, hy, hv⟩ := h.behind hops (a := 0) hw rfl v
  have hv : 0 - y = moved back (0 - w) v := Option.some.inj hv
  have hturned : y = 0 - moved back (0 - w) v := by grind
  rw [hy, hturned, moved_sub]
  grind

theorem carries_iff (h : ∀ op ∈ ops, op.hasResult = true) :
    Carries back ops ↔ (∀ op ∈ ops, op.isSigned = true) ∧ turned ops = back := by
  constructor
  · intro hc
    induction ops generalizing back with
    | nil =>
      refine ⟨by simp, ?_⟩
      have hone := hc [] 0 1 0 rfl rfl
      revert hone
      cases back <;> decide
    | cons op ops ih =>
      rw [List.forall_mem_cons] at h ⊢
      have hop := isSigned_of_carries h.1 h.2 hc
      cases op with
      | add =>
        obtain ⟨hs, ht⟩ := ih h.2 hc.behind_add
        exact ⟨⟨hop, hs⟩, ht⟩
      | sub =>
        obtain ⟨hs, ht⟩ := ih h.2 hc.behind_sub
        exact ⟨⟨hop, hs⟩, by simp [turned, ht]⟩
      | _ => cases hop
  · rintro ⟨hs, rfl⟩ steps b v w rfl hw
    obtain ⟨w', hw', hv⟩ := carried_moved hs b v
    cases hw.symm.trans hw'
    exact hv

end Carries

/-! ## Registers split off -/

/-- Words before the operators of an expression. -/
def tower (steps : List (UInt16 × Operator)) (e : Expr) : Expr :=
  steps.foldr (fun step inner => .binary (.word step.1) step.2 inner) e

/-- A word with a register behind it, at the end of a tower. -/
def indexedTower (register : Text) (steps : List (UInt16 × Operator)) (b : UInt16) : Expr :=
  tower steps (.binary (.word b) .add (.ident register))

section Tower

variable {labels : Label.View} {pc : UInt16} {register : Text}
  {steps : List (UInt16 × Operator)} {b : UInt16}

theorem indexedTower_ne_ident (register name : Text) (steps : List (UInt16 × Operator))
    (b : UInt16) : indexedTower register steps b ≠ .ident name := by
  cases steps <;> nofun

theorem indexed?_tower :
    indexed? register (indexedTower register steps b) = some (tower steps (.word b)) := by
  induction steps with
  | nil => simp [indexedTower, tower, indexed?]
  | cons step steps ih =>
    have hne := indexedTower_ne_ident register register steps b
    change indexed? register (.binary (.word step.1) step.2 (indexedTower register steps b)) = _
    simp [indexed?, hne, ih, tower]

theorem passed_tower : passed register (indexedTower register steps b) = steps.map Prod.snd := by
  induction steps with
  | nil => simp [indexedTower, tower, passed]
  | cons step steps ih =>
    have hne := indexedTower_ne_ident register register steps b
    change passed register (.binary (.word step.1) step.2 (indexedTower register steps b)) = _
    simp [passed, hne, ih]

theorem hasRegister_tower : hasRegister (tower steps (.word b)) = false := by
  induction steps with
  | nil => rfl
  | cons step steps ih => exact ih

theorem value_tower {e : Expr} {w : UInt16} :
    (tower steps e).value labels pc = .ok w ↔
      ∃ b, e.value labels pc = .ok b ∧ carried steps b = some w := by
  induction steps generalizing w with
  | nil => simp [tower, carried]
  | cons step steps ih =>
    obtain ⟨a, op⟩ := step
    change (Expr.binary (.word a) op (tower steps e)).value labels pc = .ok w ↔ _
    rw [Expr.value_binary_eq_ok]
    simp only [ih, carried, Option.bind_eq_some_iff]
    constructor
    · rintro ⟨a', c, ha, ⟨b, hb, hc⟩, hw⟩
      cases ha
      exact ⟨b, hb, c, hc, hw⟩
    · rintro ⟨b, hb, c, hc, hw⟩
      exact ⟨a, c, rfl, ⟨b, hb, hc⟩, hw⟩

end Tower

/-- The register may be split off behind these operators: for every operand with
them, the register and the value of the base add up to the value of the operand. -/
def SplitsOff (register : Text) (ops : List Operator) : Prop :=
  ∀ e base, indexed? register e = some base → passed register e = ops →
    hasRegister base = false → ∀ (labels : Label.View) (pc v w : UInt16),
      base.value labels pc = .ok w → e.value (labels.set register v) pc = .ok (w + v)

theorem splitsOff_iff_carries {register : Text} {ops : List Operator}
    (hr : isRegister register = true) : SplitsOff register ops ↔ Carries false ops := by
  constructor
  · rintro h steps b v w rfl hw
    have hbase : (tower steps (.word b)).value .empty 0 = .ok w := value_tower.2 ⟨b, rfl, hw⟩
    have hvalue := h _ _ indexed?_tower passed_tower hasRegister_tower .empty 0 v w hbase
    obtain ⟨c, hc, hcarried⟩ := value_tower.1 hvalue
    cases hc.symm.trans (value_add_register rfl)
    exact hcarried
  · rintro h e base hi rfl hbase labels pc v w hw
    obtain ⟨steps, b, hops, hb, hsteps⟩ := value_of_indexed? hr hi hbase hw
    exact (hsteps v _).2 (h steps b v w hops hb)

/-- A register is split off rightly exactly behind sums and an even number of
differences, or where the operand has no value anyway. Behind an odd number of
differences the operand stands for its base less the register. -/
theorem index_splits_off_iff {register : Text} (hr : isRegister register = true) :
    (∀ ops, SplitsOff register ops ↔ (∃ op ∈ ops, op.hasResult = false) ∨
      (∀ op ∈ ops, op.isSigned = true) ∧ turned ops = false) ∧
    ∀ e base, indexed? register e = some base → hasRegister base = false →
      (∀ op ∈ passed register e, op.isSigned = true) →
      ∀ (labels : Label.View) (pc v w : UInt16), base.value labels pc = .ok w →
        e.value (labels.set register v) pc = .ok (moved (turned (passed register e)) w v) := by
  constructor
  · intro ops
    rw [splitsOff_iff_carries hr]
    by_cases hvalued : ∀ op ∈ ops, op.hasResult = true
    · have hnone : ¬ ∃ op ∈ ops, op.hasResult = false := by
        rintro ⟨op, hop, h⟩
        rw [hvalued op hop] at h
        cases h
      rw [carries_iff hvalued, or_iff_right hnone]
    · have hsome : ∃ op ∈ ops, op.hasResult = false := by simpa using hvalued
      refine iff_of_true ?_ (.inl hsome)
      rintro steps b v w rfl hw
      obtain ⟨op, hop, h⟩ := hsome
      rw [carried_eq_none hop h] at hw
      cases hw
  · intro e base hi hbase hsigned labels pc v w hw
    obtain ⟨steps, b, hops, hb, hsteps⟩ := value_of_indexed? hr hi hbase hw
    rw [← hops] at hsigned ⊢
    obtain ⟨w', hw', hv⟩ := carried_moved hsigned b v
    cases hb.symm.trans hw'
    exact (hsteps v _).2 hv

/-- The operand `$2000-1+X`, which is `$2000-(1+X)`. -/
def belowScreen : Expr :=
  .binary (.word 0x2000) .sub (.binary (.decimal 1) .add (.ident regX))

/-- The load `A=($2000-1+X)` adds X to `$1FFF`, while its operand stands for `$1FFF`
less X. -/
theorem belowScreen_splits_off_wrongly :
    indexed? regX belowScreen = some (.binary (.word 0x2000) .sub (.decimal 1)) ∧
      Statement.decode? .empty ⟨.ident regA, .paren belowScreen⟩ =
        some ⟨.lda, .absoluteX, .word 0x1FFF⟩ ∧
      belowScreen.value (Label.View.set .empty regX 3) 0 = .ok (0x1FFF - 3) ∧
      ¬ SplitsOff regX [.sub] ∧ SplitsOff regX [.add, .add] := by
  have hr : isRegister regX = true := by decide +kernel
  have hi : indexed? regX belowScreen = some (.binary (.word 0x2000) .sub (.decimal 1)) := by
    decide +kernel
  obtain ⟨hiff, hmoved⟩ := index_splits_off_iff hr
  refine ⟨hi, by decide +kernel, ?_, ?_, ?_⟩
  · exact hmoved belowScreen _ hi rfl (by decide +kernel) .empty 0 3 0x1FFF rfl
  · rw [hiff]
    decide
  · rw [hiff]
    decide

end Decode

end Asm6502
