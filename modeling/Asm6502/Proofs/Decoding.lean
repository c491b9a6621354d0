-- What decides how a statement is decoded. Labels only choose between a zero
-- page mode and its absolute form; the form of the command, the mnemonic and
-- the rest of the mode are decided by the spelling. The one statement that
-- can be read in two ways is `X=S`.
import Asm6502.Decode

namespace Asm6502

/-! ## Modes up to width -/

namespace Mode

/-- The zero page form of an absolute mode; other modes stay as they are. -/
def narrow : Mode → Mode
  | .absolute => .zeroPage
  | .absoluteX => .zeroPageX
  | .absoluteY => .zeroPageY
  | mode => mode

theorem narrow_eq_of_widen? {a b : Mode} (h : a.widen? = some b) : a.narrow = b.narrow := by
  cases a <;> simp only [widen?, Option.some.injEq, reduceCtorEq] at h <;> subst h <;> rfl

theorem length_of_widen? {a b : Mode} (h : a.widen? = some b) : a.length = 2 ∧ b.length = 3 := by
  cases a <;> simp only [widen?, Option.some.injEq, reduceCtorEq] at h <;> subst h <;> decide

theorem length_lt_of_widen? {a b : Mode} (h : a.widen? = some b) : a.length < b.length := by
  obtain ⟨ha, hb⟩ := length_of_widen? h
  omega

/-- Two modes that differ in width only are a zero page mode and its absolute
form. -/
theorem eq_or_widen?_of_narrow {a b : Mode} (h : a.narrow = b.narrow) :
    a = b ∨ a.widen? = some b ∨ b.widen? = some a := by
  revert h
  cases a <;> cases b <;> decide

/-- The length tells a zero page mode from its absolute form. -/
theorem eq_of_narrow_of_length {a b : Mode} (h : a.narrow = b.narrow) (hl : a.length = b.length) :
    a = b := by
  rcases eq_or_widen?_of_narrow h with rfl | hw | hw
  · rfl
  · have := length_lt_of_widen? hw
    omega
  · have := length_lt_of_widen? hw
    omega

end Mode

namespace Decode

/-! ## Index registers -/

theorem hasRegister_of_indexed? {register : Text} {e base : Expr} (hr : isRegister register = true)
    (h : indexed? register e = some base) : hasRegister e = true := by
  fun_induction indexed? register e generalizing base with
  | case1 left op right hop =>
    simp [hasRegister, hop.2, hr]
  | case2 left op right hop ih =>
    obtain ⟨inner, hi, _⟩ := Option.map_eq_some_iff.1 h
    simp [hasRegister, ih hi]
  | case3 => simp at h

/-- An expression is indexed by one register at most: the one at its end. -/
theorem indexed?_register_eq {r r' : Text} {e base base' : Expr} (h : indexed? r e = some base)
    (h' : indexed? r' e = some base') : r = r' := by
  fun_induction indexed? r e generalizing base base' with
  | case1 left op right hop =>
    obtain ⟨rfl, rfl⟩ := hop
    simp only [indexed?, Expr.ident.injEq, true_and, Option.map_none] at h'
    split at h'
    · assumption
    · simp at h'
  | case2 left op right hop ih =>
    obtain ⟨inner, hi, _⟩ := Option.map_eq_some_iff.1 h
    rw [indexed?] at h'
    split at h'
    · rename_i hop'
      rw [hop'.2] at hi
      simp [indexed?] at hi
    · obtain ⟨inner', hi', _⟩ := Option.map_eq_some_iff.1 h'
      exact ih hi hi'
  | case3 => simp at h

/-! ## Addresses hold no register -/

theorem address?_register {labels : Label.View} {e : Expr} {r : Resolved}
    (h : address? labels e = some r) : hasRegister e = false := by
  unfold address? at h
  split at h
  · simp at h
  · simp_all

theorem zeroPage?_register {labels : Label.View} {wait : Bool} {e : Expr} {o : Operand}
    (h : zeroPage? labels wait e = some o) : hasRegister e = false := by
  unfold zeroPage? at h
  split at h
  · exact address?_register ‹_›
  · exact address?_register ‹_›
  · simp at h

theorem absolute?_register {labels : Label.View} {e : Expr} {o : Operand}
    (h : absolute? labels e = some o) : hasRegister e = false := by
  unfold absolute? at h
  split at h
  · exact address?_register ‹_›
  · exact address?_register ‹_›
  · simp at h

/-- A value is no memory, no system operator, and holds no register. -/
theorem immediate?_shape {labels : Label.View} {e : Expr} {o : Operand}
    (h : immediate? labels e = some o) :
    hasRegister e = false ∧ (∀ inner, e ≠ .paren inner) ∧ (∀ inner, e ≠ .bracket inner) ∧
      ∀ run, e ≠ .system run := by
  have hsystem : ∀ run, e = .system run → False := by
    rintro run rfl
    simp [immediate?, address?, hasRegister, Expr.address, ValueError.isUnresolved] at h
  unfold immediate? at h
  split at h
  · simp at h
  · simp at h
  · split at h
    · exact ⟨address?_register ‹_›, by simp, by simp, by simp⟩
    · exact ⟨address?_register ‹_›, by simp, by simp, by simp⟩
    · simp at h
  · split at h
    · exact ⟨address?_register ‹_›, by simp, by simp, by simp⟩
    · exact ⟨address?_register ‹_›, by simp, by simp, by simp⟩
    · simp at h
  · split at h
    · exact ⟨address?_register ‹_›, by assumption, by assumption, fun run hr => hsystem run hr⟩
    · simp at h

/-! ## The mode of a spelling -/

/-- The mode that the spelling of an operand leaves to an instruction, in its
narrow form. -/
def spelledMode? (mnemonic : Mnemonic) : Expr → Option Mode
  | .ident name =>
    if name = regA then if Opcode.has mnemonic .accumulator then some .accumulator else none
    else if isRegister name then none
    else some .immediate
  | .paren inner =>
    if (indexed? regX inner).isSome then some .zeroPageX
    else if (indexed? regY inner).isSome then some .zeroPageY
    else some .zeroPage
  | .bracket _ => some .indirectX
  | .system _ => none
  | e =>
    if hasRegister e then ((indexed? regY e).bind bracketed?).map fun _ => .indirectY
    else some .immediate

theorem spelledMode?_immediate {labels : Label.View} {mnemonic : Mnemonic} {e : Expr} {o : Operand}
    (h : immediate? labels e = some o) : spelledMode? mnemonic e = some .immediate := by
  obtain ⟨hr, hp, hb, hs⟩ := immediate?_shape h
  cases e with
  | ident name =>
    have hn : isRegister name = false := by simpa [hasRegister] using hr
    have ha : name ≠ regA := by
      rintro rfl
      simp [isRegister] at hn
    simp [spelledMode?, hn, ha]
  | paren inner => exact absurd rfl (hp inner)
  | bracket inner => exact absurd rfl (hb inner)
  | system run => exact absurd rfl (hs run)
  | _ => simp [spelledMode?, hr]

theorem isRegister_regX : isRegister regX = true := by simp [isRegister]

theorem isRegister_regY : isRegister regY = true := by simp [isRegister]

theorem regX_ne_regY : regX ≠ regY := by decide +kernel

theorem spelledMode?_paren {mnemonic : Mnemonic} {inner : Expr} (h : hasRegister inner = false) :
    spelledMode? mnemonic (.paren inner) = some .zeroPage := by
  have hnone (r : Text) (hr : isRegister r = true) : indexed? r inner = none := by
    cases hi : indexed? r inner with
    | none => rfl
    | some base =>
      rw [hasRegister_of_indexed? hr hi] at h
      cases h
  simp [spelledMode?, hnone regX isRegister_regX, hnone regY isRegister_regY]

theorem spelledMode?_parenX {mnemonic : Mnemonic} {inner base : Expr}
    (h : indexed? regX inner = some base) :
    spelledMode? mnemonic (.paren inner) = some .zeroPageX := by
  simp [spelledMode?, h]

theorem spelledMode?_parenY {mnemonic : Mnemonic} {inner base : Expr}
    (h : indexed? regY inner = some base) :
    spelledMode? mnemonic (.paren inner) = some .zeroPageY := by
  have hx : indexed? regX inner = none := by
    cases hi : indexed? regX inner with
    | none => rfl
    | some _ => exact absurd (indexed?_register_eq hi h) regX_ne_regY
  simp [spelledMode?, hx, h]

theorem spelledMode?_pointerY {mnemonic : Mnemonic} {e inner : Expr}
    (h : indexed? regY e = some (.bracket inner)) :
    spelledMode? mnemonic e = some .indirectY := by
  have hr := hasRegister_of_indexed? isRegister_regY h
  cases e with
  | binary left op right => simp [spelledMode?, hr, h, bracketed?]
  | _ => simp [indexed?] at h

theorem parenthesized?_eq_some {e inner : Expr} (h : parenthesized? e = some inner) :
    e = .paren inner := by
  cases e <;> simp_all [parenthesized?]

theorem bracketed?_eq_some {e inner : Expr} (h : bracketed? e = some inner) :
    e = .bracket inner := by
  cases e <;> simp_all [bracketed?]

/-- Whatever the labels are, an operand fits a mode only if its spelling leaves
that mode, up to width. -/
theorem operand?_spelledMode {labels : Label.View} {mnemonic : Mnemonic} {mode : Mode} {e : Expr}
    {o : Operand} (hm : Opcode.has mnemonic mode = true)
    (h : operand? labels mnemonic mode e = some o) :
    spelledMode? mnemonic e = some mode.narrow := by
  cases mode with
  | accumulator =>
    simp only [operand?] at h
    split at h
    · rename_i he
      simp [he, spelledMode?, hm, Mode.narrow]
    · simp at h
  | immediate => exact spelledMode?_immediate h
  | zeroPage =>
    obtain ⟨inner, hp, hz⟩ := Option.bind_eq_some_iff.1 h
    rw [parenthesized?_eq_some hp]
    exact spelledMode?_paren (zeroPage?_register hz)
  | absolute =>
    obtain ⟨inner, hp, ha⟩ := Option.bind_eq_some_iff.1 h
    rw [parenthesized?_eq_some hp]
    exact spelledMode?_paren (absolute?_register ha)
  | zeroPageX | absoluteX =>
    obtain ⟨inner, hp, h⟩ := Option.bind_eq_some_iff.1 h
    obtain ⟨base, hi, _⟩ := Option.bind_eq_some_iff.1 h
    rw [parenthesized?_eq_some hp]
    exact spelledMode?_parenX hi
  | zeroPageY | absoluteY =>
    obtain ⟨inner, hp, h⟩ := Option.bind_eq_some_iff.1 h
    obtain ⟨base, hi, _⟩ := Option.bind_eq_some_iff.1 h
    rw [parenthesized?_eq_some hp]
    exact spelledMode?_parenY hi
  | indirectX =>
    obtain ⟨inner, hb, _⟩ := Option.bind_eq_some_iff.1 h
    rw [bracketed?_eq_some hb]
    rfl
  | indirectY =>
    obtain ⟨base, hi, h⟩ := Option.bind_eq_some_iff.1 h
    obtain ⟨inner, hb, _⟩ := Option.bind_eq_some_iff.1 h
    rw [bracketed?_eq_some hb] at hi
    exact spelledMode?_pointerY hi
  | implied | indirect | relative => simp [operand?] at h

/-! ## The first mode that fits -/

/-- A zero page mode is tried before its absolute form. -/
theorem modeOrder_pairwise : modeOrder.Pairwise fun a b => b.widen? ≠ some a := by decide

/-- An instruction is in one of its modes, which the operand fits; and if that
is an absolute mode, the operand does not fit the zero page mode. -/
theorem inModes?_eq_some {labels : Label.View} {mnemonic : Mnemonic} {e : Expr} {i : Instruction}
    (h : inModes? labels mnemonic e = some i) :
    i.mnemonic = mnemonic ∧ Opcode.has mnemonic i.mode = true ∧
      operand? labels mnemonic i.mode e = some i.operand ∧
      ∀ mode, mode.widen? = some i.mode → Opcode.has mnemonic mode = true →
        operand? labels mnemonic mode e = none := by
  obtain ⟨tried, mode, untried, hsplit, hfit, hnone⟩ := List.findSome?_eq_some_iff.1 h
  obtain ⟨o, ho, rfl⟩ := Option.map_eq_some_iff.1 hfit
  have hmem : mode ∈ modeOrder.filter (Opcode.has mnemonic) := by simp [hsplit]
  refine ⟨rfl, (List.mem_filter.1 hmem).2, ho, ?_⟩
  intro narrow hw hn
  have hne : narrow ≠ mode := by
    rintro rfl
    exact absurd (Mode.length_lt_of_widen? hw) (Nat.lt_irrefl _)
  have horder : narrow ∈ modeOrder := by
    cases narrow <;> simp [Mode.widen?] at hw <;> decide
  have hin : narrow ∈ tried ++ mode :: untried := by
    rw [← hsplit]
    exact List.mem_filter.2 ⟨horder, hn⟩
  have hpair := modeOrder_pairwise.filter (Opcode.has mnemonic)
  rw [hsplit, List.pairwise_append, List.pairwise_cons] at hpair
  rcases List.mem_append.1 hin with hin | hin
  · simpa using hnone narrow hin
  · rcases List.mem_cons.1 hin with hin | hin
    · exact absurd hin hne
    · exact absurd hw (hpair.2.1.1 narrow hin)

theorem inModes?_spelledMode {labels : Label.View} {mnemonic : Mnemonic} {e : Expr}
    {i : Instruction} (h : inModes? labels mnemonic e = some i) :
    spelledMode? mnemonic e = some i.mode.narrow := by
  obtain ⟨_, hm, ho, _⟩ := inModes?_eq_some h
  exact operand?_spelledMode hm ho

/-! ## The form of a statement -/

/-- The mnemonic and the narrow mode of the statements that have a form, by
their spelling. -/
def Form.spelled? (st : Statement) : Form → Option (Mnemonic × Mode)
  | .exactly operand mnemonic mode =>
    if st.operand = operand then some (mnemonic, mode.narrow) else none
  | .modes mnemonic => (spelledMode? mnemonic st.operand).map (mnemonic, ·)
  | .behind register op mnemonic =>
    match st.operand with
    | .binary left op' right =>
      if op' = op ∧ left = .ident register then (spelledMode? mnemonic right).map (mnemonic, ·)
      else none
    | _ => none
  | .stored operand mnemonic =>
    if st.operand = operand then (spelledMode? mnemonic st.command).map (mnemonic, ·) else none
  | .jump mnemonic =>
    match st.operand with
    | .bracket _ | .system _ => none
    | _ => some (mnemonic, .zeroPage)
  | .vector mnemonic => (bracketed? st.operand).map fun _ => (mnemonic, .indirect)
  | .branch =>
    match st.operand with
    | .binary condition .comma _ => (branch? condition).map (·, .relative)
    | _ => none

theorem Form.decode?_spelled {labels : Label.View} {st : Statement} {form : Form} {i : Instruction}
    (h : form.decode? labels st = some i) :
    form.spelled? st = some (i.mnemonic, i.mode.narrow) := by
  have hmodes {mnemonic : Mnemonic} {e : Expr} (h : inModes? labels mnemonic e = some i) :
      (spelledMode? mnemonic e).map (mnemonic, ·) = some (i.mnemonic, i.mode.narrow) := by
    rw [inModes?_spelledMode h, (inModes?_eq_some h).1]
    rfl
  cases form with
  | exactly operand mnemonic mode =>
    simp only [Form.decode?] at h
    split at h
    · cases h
      simp [spelled?, *]
    · simp at h
  | modes mnemonic => exact hmodes h
  | behind register op mnemonic =>
    simp only [Form.decode?] at h
    split at h
    · rename_i left op' right ho
      split at h
      · rename_i hop
        simp only [spelled?, ho, hop, and_self, if_true]
        exact hmodes h
      · simp at h
    · simp at h
  | stored operand mnemonic =>
    simp only [Form.decode?] at h
    split at h
    · rename_i ho
      simp only [spelled?, ho, if_true]
      exact hmodes h
    · simp at h
  | jump mnemonic =>
    simp only [Form.decode?] at h
    obtain ⟨o, ho, rfl⟩ := Option.map_eq_some_iff.1 h
    unfold target? at ho
    split at ho
    · simp at ho
    · simp at ho
    · simp only [spelled?]
      rfl
  | vector mnemonic =>
    simp only [Form.decode?] at h
    obtain ⟨o, ho, rfl⟩ := Option.map_eq_some_iff.1 h
    obtain ⟨inner, hb, _⟩ := Option.bind_eq_some_iff.1 ho
    simp [spelled?, hb, Mode.narrow]
  | branch =>
    simp only [Form.decode?] at h
    split at h
    · rename_i condition target ho
      obtain ⟨mnemonic, hb, h⟩ := Option.bind_eq_some_iff.1 h
      obtain ⟨o, _, h⟩ := Option.bind_eq_some_iff.1 h
      cases h
      simp [spelled?, ho, hb, Mode.narrow]
    · simp at h

/-! ## No two forms of a command fit one statement -/

/-- Whether no statement can have both forms, the first being in front. It is
decided form by form, and it is false where neither rules the other out. -/
def Form.excludes : Form → Form → Bool
  | .exactly a _ _, .exactly b _ _ => a != b
  | .exactly a _ _, .jump _ =>
    match a with
    | .system _ => true
    | _ => false
  | .exactly a _ _, .vector _ => (bracketed? a).isNone
  | .modes mnemonic, .exactly a _ _ => (spelledMode? mnemonic a).isNone
  | .modes _, .behind register _ _ => isRegister register
  | .exactly a _ _, .behind .. | .behind .., .exactly a _ _ =>
    match a with
    | .binary .. => false
    | _ => true
  | .behind a op _, .behind b op' _ => a != b || op != op'
  | .stored a _, .stored b _ => a != b
  | .vector _, .jump _ => true
  | _, _ => false

/-- A register with an operator behind it is neither a value nor a pointer. -/
theorem spelledMode?_behind {mnemonic : Mnemonic} {register : Text} {op : Operator} {right : Expr}
    (hr : isRegister register = true) :
    spelledMode? mnemonic (.binary (.ident register) op right) = none := by
  have hi : ((indexed? regY (.binary (.ident register) op right)).bind bracketed?) = none := by
    rw [indexed?]
    split
    · rfl
    · cases indexed? regY right <;> rfl
  simp [spelledMode?, hasRegister, hr, hi]

theorem Form.excludes_sound {st : Statement} {f g : Form} {a b : Mnemonic × Mode}
    (h : f.excludes g = true) (hf : f.spelled? st = some a) (hg : g.spelled? st = some b) :
    False := by
  unfold excludes at h
  split at h
  all_goals simp only [spelled?] at hf hg
  · split at hf <;> split at hg <;> simp_all
  · split at h <;> split at hf <;> simp_all
  · split at hf <;> simp_all
  · split at hg <;> simp_all
  · rename_i mnemonic register op mnemonic'
    split at hg
    · rename_i left op' right ho
      split at hg
      · rename_i hop
        rw [ho, hop.2, spelledMode?_behind h] at hf
        simp at hf
      · simp at hg
    · simp at hg
  · split at h
    · simp at h
    · split at hf
      · rename_i hb ho
        split at hg
        · rename_i ho'
          exact hb _ _ _ (ho.symm.trans ho')
        · simp at hg
      · simp at hf
  · split at h
    · simp at h
    · split at hg
      · rename_i hb ho
        split at hf
        · rename_i ho'
          exact hb _ _ _ (ho.symm.trans ho')
        · simp at hf
      · simp at hg
  · split at hf
    · rename_i left op right ho
      simp only [ho] at hg
      split at hf
      · split at hg
        · simp_all
        · simp at hg
      · simp at hf
    · simp at hf
  · split at hf <;> split at hg <;> simp_all
  · obtain ⟨inner, hb, _⟩ := Option.map_eq_some_iff.1 hf
    rw [bracketed?_eq_some hb] at hg
    simp at hg
  · simp at h

/-- The two forms of `X` that fit one statement, `X=S`. -/
def ambiguous (f g : Form) : Bool := f == .modes .ldx && g == transfer "S" .tsx

theorem nameForms_exclude :
    ∀ p ∈ nameForms,
      p.2.Pairwise fun f g => f.excludes g = true ∨ p.1 = regX ∧ ambiguous f g = true := by
  decide +kernel

theorem signForms_exclude : ∀ p ∈ signForms, p.2.Pairwise fun f g => f.excludes g = true := by
  decide +kernel

theorem memoryForms_exclude : memoryForms.Pairwise fun f g => f.excludes g = true := by
  decide +kernel

theorem mem_of_lookup {α β : Type} [BEq α] [LawfulBEq α] {a : α} {b : β} {l : List (α × β)}
    (h : l.lookup a = some b) : (a, b) ∈ l := by
  obtain ⟨front, back, rfl, _⟩ := List.lookup_eq_some_iff.1 h
  simp

/-- The forms of all commands. -/
def allForms : List Form :=
  nameForms.flatMap Prod.snd ++ signForms.flatMap Prod.snd ++ memoryForms

theorem mem_allForms {command : Expr} {form : Form} (h : form ∈ forms command) :
    form ∈ allForms := by
  have hlookup {table : List (Text × List Form)} {key : Text}
      (h : form ∈ (table.lookup key).getD []) : form ∈ table.flatMap Prod.snd := by
    cases hl : table.lookup key with
    | none => simp [hl] at h
    | some fs =>
      rw [hl, Option.getD_some] at h
      exact List.mem_flatMap.2 ⟨_, mem_of_lookup hl, h⟩
  unfold allForms
  rw [List.mem_append, List.mem_append]
  unfold forms at h
  split at h
  · exact Or.inl (Or.inl (hlookup h))
  · exact Or.inl (Or.inr (hlookup h))
  · exact Or.inr h
  · exact Or.inr h
  · exact Or.inr h
  · cases h

theorem forms_exclude (command : Expr) :
    (forms command).Pairwise fun f g =>
      f.excludes g = true ∨ command = .ident regX ∧ ambiguous f g = true := by
  unfold forms
  split
  · rename_i name
    cases h : nameForms.lookup name with
    | none => exact .nil
    | some fs =>
      refine (nameForms_exclude _ (mem_of_lookup h)).imp ?_
      rintro f g (hx | ⟨rfl, ha⟩)
      · exact Or.inl hx
      · exact Or.inr ⟨rfl, ha⟩
  · rename_i run
    cases h : signForms.lookup run with
    | none => exact .nil
    | some fs => exact (signForms_exclude _ (mem_of_lookup h)).imp Or.inl
  · exact memoryForms_exclude.imp Or.inl
  · exact memoryForms_exclude.imp Or.inl
  · exact memoryForms_exclude.imp Or.inl
  · exact .nil

end Decode

/-! ## Decoding with other labels -/

namespace Statement

open Decode

/-- `X=S` has two readings: it loads the label `S` if that lies in the zero
page, and copies the stack pointer if not. -/
def isStackCopy (st : Statement) : Prop :=
  st.command = .ident regX ∧ st.operand = .ident (ascii "S")

instance (st : Statement) : Decidable st.isStackCopy :=
  inferInstanceAs (Decidable (st.command = .ident regX ∧ st.operand = .ident (ascii "S")))

theorem isStackCopy_of_forms {st : Statement} {f g : Form} {a b : Mnemonic × Mode}
    (h : f.excludes g = true ∨ st.command = .ident regX ∧ ambiguous f g = true)
    (hf : f.spelled? st = some a) (hg : g.spelled? st = some b) : st.isStackCopy := by
  rcases h with h | ⟨hc, h⟩
  · exact (Form.excludes_sound h hf hg).elim
  · simp only [ambiguous, Bool.and_eq_true, beq_iff_eq] at h
    rw [h.2] at hg
    simp only [transfer, Form.spelled?] at hg
    split at hg
    · exact ⟨hc, by assumption⟩
    · simp at hg

/-- Whatever the labels are, every statement but `X=S` is decoded by the same
form of its command. -/
theorem decode?_form {v w : Label.View} {st : Statement} {i j : Instruction}
    (hst : ¬ st.isStackCopy) (hi : st.decode? v = some i) (hj : st.decode? w = some j) :
    ∃ form : Form, form.decode? v st = some i ∧ form.decode? w st = some j := by
  obtain ⟨front, f, back, hsplit, hf, _⟩ := List.findSome?_eq_some_iff.1 hi
  obtain ⟨g, hmem, hg⟩ := List.exists_of_findSome?_eq_some hj
  have hpair := forms_exclude st.command
  rw [hsplit, List.pairwise_append, List.pairwise_cons] at hpair
  rw [hsplit, List.mem_append, List.mem_cons] at hmem
  have hfs := Form.decode?_spelled hf
  have hgs := Form.decode?_spelled hg
  rcases hmem with hmem | rfl | hmem
  · exact absurd (isStackCopy_of_forms (hpair.2.2 g hmem f (by simp)) hgs hfs) hst
  · exact ⟨g, hf, hg⟩
  · exact absurd (isStackCopy_of_forms (hpair.2.1.1 g hmem) hfs hgs) hst

/-- Whatever the labels are, a statement is decoded to the same mnemonic, and
to the same mode up to width. -/
theorem decode?_narrow {v w : Label.View} {st : Statement} {i j : Instruction}
    (hst : ¬ st.isStackCopy) (hi : st.decode? v = some i) (hj : st.decode? w = some j) :
    i.mnemonic = j.mnemonic ∧ i.mode.narrow = j.mode.narrow := by
  obtain ⟨form, hf, hg⟩ := decode?_form hst hi hj
  have hs := (Form.decode?_spelled hf).symm.trans (Form.decode?_spelled hg)
  exact Prod.mk.inj (Option.some.inj hs)

/-- The two readings of `X=S`. -/
theorem decode?_stackCopy {labels : Label.View} {st : Statement} {i : Instruction}
    (hst : st.isStackCopy) (h : st.decode? labels = some i) :
    (i.mnemonic = .tsx ∧ i.mode.narrow = .implied) ∨
      (i.mnemonic = .ldx ∧ i.mode.narrow = .immediate) := by
  obtain ⟨f, hmem, hf⟩ := List.exists_of_findSome?_eq_some h
  have hs := Form.decode?_spelled hf
  obtain ⟨hc, ho⟩ := hst
  have hall : ∀ f ∈ forms st.command, f.spelled? st = none ∨
      f.spelled? st = some (.tsx, .implied) ∨ f.spelled? st = some (.ldx, .immediate) := by
    obtain ⟨command, operand⟩ := st
    subst hc ho
    decide +kernel
  rcases hall f hmem with hn | hn | hn
  all_goals rw [hn] at hs
  · simp at hs
  · left
    simpa [eq_comm] using hs
  · right
    simpa [eq_comm] using hs

end Statement

end Asm6502
