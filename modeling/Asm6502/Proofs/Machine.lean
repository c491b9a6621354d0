-- A machine that runs expanded lines. Of its state only the two flags that a
-- compare sets are known, and plain statements may do anything to it, except
-- that they always go on with the next statement.
import Asm6502.Proofs.Expansion

namespace Asm6502

/-- The flags that a compare sets, and everything else. -/
structure MachineState (ρ : Type) where
  carry : Bool
  zero : Bool
  rest : ρ
deriving DecidableEq, Repr

/-- Whether a branch is taken. Only conditions on the two flags are known. -/
def MachineState.holds {ρ : Type} (s : MachineState ρ) : Mnemonic → Bool
  | .beq => s.zero
  | .bne => !s.zero
  | .bcs => s.carry
  | .bcc => !s.carry
  | _ => false

/-! ## Statements -/

/-- Where a statement leads to. -/
inductive Flow where
  /-- The next statement. -/
  | next
  | branch (mnemonic : Mnemonic) (target : Text)
  | jump (target : Text)
deriving DecidableEq, Repr

namespace Statement

/-- Only the branch `;=condition,label` and the jump `#=label` may lead away. -/
def flow (st : Statement) : Flow :=
  if st.command = .system (ascii ";") then
    match st.operand with
    | .binary condition .comma (.ident target) =>
      match Decode.branch? condition with
      | some mnemonic => .branch mnemonic target
      | none => .next
    | _ => .next
  else if st.command = .system (ascii "#") then
    match st.operand with
    | .ident target => .jump target
    | _ => .next
  else .next

/-- The two sides of a compare `T=left-right`. -/
def compared? (st : Statement) : Option (Expr × Expr) :=
  match st.operand with
  | .binary left .sub right => if st.command = .ident (ascii "T") then some (left, right) else none
  | _ => none

theorem flow_eq_next {st : Statement} (hbranch : st.command ≠ .system (ascii ";"))
    (hjump : st.command ≠ .system (ascii "#")) : st.flow = .next := by
  rw [flow, if_neg hbranch, if_neg hjump]

end Statement

/-- What statements do: plain ones may do anything, and operands may stand for
any numbers. -/
structure Machine (ρ : Type) where
  plain : Statement → MachineState ρ → MachineState ρ
  value : Expr → MachineState ρ → Nat

/-- The items behind a label, in a program. -/
def behindLabel (target : Text) : List Item → Option (List Item)
  | [] => none
  | .label name :: rest => if name = target then some rest else behindLabel target rest
  | .statement _ :: rest => behindLabel target rest

namespace Machine

variable {ρ : Type} (m : Machine ρ)

/-- The flags tell whether the first side is at least the second, and whether
both are equal. -/
def compare (left right : Expr) (s : MachineState ρ) : MachineState ρ :=
  { s with
    carry := decide (m.value right s ≤ m.value left s)
    zero := decide (m.value left s = m.value right s) }

def effect (st : Statement) (s : MachineState ρ) : MachineState ρ :=
  match st.compared? with
  | some (left, right) => m.compare left right s
  | none => m.plain st s

/-- What statements that lead to the next one do together. -/
def effects (sts : List Statement) (s : MachineState ρ) : MachineState ρ :=
  sts.foldl (fun s st => m.effect st s) s

/-- Runs a statement in front of the rest of a program. -/
def step (program : List Item) (st : Statement) (rest : List Item) (s : MachineState ρ) :
    Option (List Item × MachineState ρ) :=
  match st.flow with
  | .next => some (rest, m.effect st s)
  | .branch mnemonic target =>
    if s.holds mnemonic then (behindLabel target program).map (·, s) else some (rest, s)
  | .jump target => (behindLabel target program).map (·, s)

/-- Runs the rest of a program to its end, in so many steps at most. -/
def run (program : List Item) : Nat → List Item → MachineState ρ → Option (MachineState ρ)
  | _, [], s => some s
  | 0, _ :: _, _ => none
  | steps + 1, .label _ :: rest, s => run program steps rest s
  | steps + 1, .statement st :: rest, s =>
    (m.step program st rest s).bind fun next => run program steps next.1 next.2

/-- Lines that are run from the first one on reach their end in a state. -/
def Reaches (lines : List Line) (s t : MachineState ρ) : Prop :=
  ∃ steps, m.run (itemsOf lines) steps (itemsOf lines) s = some t

/-! ## One step of a run -/

section Run

variable {m} {program rest : List Item} {s t : MachineState ρ} {steps : Nat}

theorem run_nil : m.run program steps [] s = some t ↔ s = t := by
  cases steps <;> simp [run]

theorem run_label {name : Text} :
    m.run program steps (.label name :: rest) s = some t ↔
      ∃ k, steps = k + 1 ∧ m.run program k rest s = some t := by
  cases steps <;> simp [run]

theorem run_statement {st : Statement} {code : List Item} {u : MachineState ρ}
    (h : m.step program st rest s = some (code, u)) :
    m.run program steps (.statement st :: rest) s = some t ↔
      ∃ k, steps = k + 1 ∧ m.run program k code u = some t := by
  cases steps <;> simp [run, h]

theorem run_next {st : Statement} (h : st.flow = .next) :
    m.run program steps (.statement st :: rest) s = some t ↔
      ∃ k, steps = k + 1 ∧ m.run program k rest (m.effect st s) = some t := by
  apply run_statement
  simp only [step, h]

/-- Statements that lead to the next one take one step each. -/
theorem run_effects {sts : List Statement} (h : ∀ st ∈ sts, st.flow = .next) :
    m.run program steps (sts.map Item.statement ++ rest) s = some t ↔
      ∃ k, steps = k + sts.length ∧ m.run program k rest (m.effects sts s) = some t := by
  induction sts generalizing steps s with
  | nil => simp [effects]
  | cons st sts ih =>
    rw [List.map_cons, List.cons_append, run_next (h st List.mem_cons_self)]
    simp only [ih fun st hst => h st (List.mem_cons_of_mem _ hst)]
    constructor
    · rintro ⟨_, rfl, k, rfl, hr⟩
      exact ⟨k, rfl, hr⟩
    · rintro ⟨k, rfl, hr⟩
      exact ⟨k + sts.length, rfl, k, rfl, hr⟩

end Run

end Machine

end Asm6502
