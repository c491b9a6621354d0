-- The size of data. The bytes of `?` and `$` are as many as the layout counts
-- from the shape of the operand alone, whatever the labels are when the values
-- are written.
import Asm6502.Directive
import Asm6502.Proofs.Except

namespace Asm6502

/-- The error says, at whatever place, that a statement has changed its size. -/
def Error.isSizeChanged : Error → Bool
  | .sizeChanged => true
  | .located _ _ _ cause | .unreadable _ cause | .unwritable _ cause => cause.isSizeChanged
  | _ => false

/-- No error of the computation says that a statement has changed its size. -/
abbrev KeepsSize {α : Type} (x : Except Error α) : Prop :=
  x.ErrorIs fun e => e.isSizeChanged = false

theorem keepsSize_value {α : Type} (x : Except ValueError α) : KeepsSize (x.mapError .value) :=
  Except.errorIs_mapError x fun _ => rfl

namespace Directive

variable {labels : Label.View} {pc : UInt16}

/-! ## Values -/

theorem valueCodes_length {item : Expr} {width : Nat} {value : UInt16} {codes : Text}
    (hw : width = 1 ∨ width = 2) (h : valueCodes item width value = .ok codes) :
    codes.length = width := by
  unfold valueCodes at h
  rcases hw with rfl | rfl
  · split at h
    · split at h
      · cases h
        rfl
      · simp at h
    · contradiction
  · cases h
    rfl

theorem valueCodes_keepsSize (item : Expr) (width : Nat) (value : UInt16) :
    KeepsSize (valueCodes item width value) := by
  unfold valueCodes
  split
  · split
    · exact Except.errorIs_ok _
    · exact Except.errorIs_error rfl
  · exact Except.errorIs_ok _

/-! ## Data -/

theorem dataWidth_keepsSize (item : Expr) : KeepsSize (dataWidth item) := by
  cases item with
  | decimal n =>
    simp only [dataWidth]
    split
    · exact Except.errorIs_ok _
    · exact Except.errorIs_error rfl
  | empty | paren | bracket | system => exact Except.errorIs_error rfl
  | _ => exact Except.errorIs_ok _

theorem itemCodes_length {item : Expr} {width : Nat} {codes : Text}
    (hw : dataWidth item = .ok width) (h : itemCodes labels pc item = .ok codes) :
    codes.length = width := by
  unfold itemCodes at h
  split at h
  · cases h
    exact Except.ok.inj hw
  · rename_i hstring
    obtain ⟨width', hw', h⟩ := Except.bind_eq_ok.1 h
    obtain ⟨value, _, h⟩ := Except.bind_eq_ok.1 h
    cases hw.symm.trans hw'
    refine valueCodes_length ?_ h
    unfold dataWidth at hw
    split at hw
    all_goals grind

theorem itemCodes_keepsSize (item : Expr) : KeepsSize (itemCodes labels pc item) := by
  unfold itemCodes
  split
  · exact Except.errorIs_ok _
  · exact (dataWidth_keepsSize item).bind fun width _ =>
      (keepsSize_value _).bind fun value _ => valueCodes_keepsSize item width value

theorem items_length {items : List Expr} {widths : List Nat} {codes : List Text}
    (hw : items.mapM dataWidth = .ok widths) (h : items.mapM (itemCodes labels pc) = .ok codes) :
    codes.map List.length = widths := by
  rw [Except.mapM_eq_ok] at hw h
  induction hw generalizing codes with
  | nil =>
    cases h
    rfl
  | cons hw _ ih =>
    cases h with
    | cons h hrest => rw [List.map_cons, itemCodes_length hw h, ih hrest]

/-- Data takes the bytes that were counted. -/
theorem dataCodes_length {operand : Expr} {length : Nat} {codes : Text}
    (hl : dataLength operand = .ok length) (h : dataCodes labels pc operand = .ok codes) :
    codes.length = length := by
  obtain ⟨widths, hw, hl⟩ := Except.bind_eq_ok.1 hl
  obtain ⟨items, hi, h⟩ := Except.bind_eq_ok.1 h
  cases Except.pure_eq_ok.1 hl
  cases Except.pure_eq_ok.1 h
  rw [List.length_flatten, items_length hw hi, List.sum_eq_foldr]

theorem dataCodes_keepsSize (operand : Expr) : KeepsSize (dataCodes labels pc operand) :=
  (Except.errorIs_mapM fun item _ => itemCodes_keepsSize item).bind fun _ _ => Except.errorIs_ok _

/-! ## Fill -/

theorem fillWidth_eq_ok {value : Expr} {width : Nat} (h : fillWidth value = .ok width) :
    width = 1 ∨ width = 2 := by
  unfold fillWidth at h
  split at h
  all_goals grind

theorem fillWidth_keepsSize (value : Expr) : KeepsSize (fillWidth value) := by
  cases value with
  | empty | string | paren | bracket | system => exact Except.errorIs_error rfl
  | _ => exact Except.errorIs_ok _

theorem fillOf_keepsSize (operand : Expr) : KeepsSize (fillOf labels pc operand) := by
  unfold fillOf
  split
  · exact (fillWidth_keepsSize _).bind fun _ _ =>
      (keepsSize_value _).bind fun _ _ => Except.errorIs_ok _
  · exact Except.errorIs_error rfl

theorem fillOf_width {operand : Expr} {fill : Fill} (h : fillOf labels pc operand = .ok fill) :
    fill.width = 1 ∨ fill.width = 2 := by
  unfold fillOf at h
  split at h
  · obtain ⟨width, hw, h⟩ := Except.bind_eq_ok.1 h
    obtain ⟨count, _, h⟩ := Except.bind_eq_ok.1 h
    cases Except.pure_eq_ok.1 h
    exact fillWidth_eq_ok hw
  · simp at h

/-- A fill takes its width as often as it is repeated. -/
theorem fillCodes_length {operand : Expr} {fill : Fill} {codes : Text}
    (hf : fillOf labels pc operand = .ok fill) (h : fillCodes labels pc operand = .ok codes) :
    codes.length = fill.width * fill.count := by
  obtain ⟨fill', hf', h⟩ := Except.bind_eq_ok.1 h
  cases hf.symm.trans hf'
  obtain ⟨value, _, h⟩ := Except.bind_eq_ok.1 h
  split at h
  · rename_i hc
    cases Except.pure_eq_ok.1 h
    simp [hc]
  · obtain ⟨once, ho, h⟩ := Except.bind_eq_ok.1 h
    cases Except.pure_eq_ok.1 h
    have hlen := valueCodes_length (fillOf_width hf) ho
    simp [hlen, Nat.mul_comm]

theorem fillCodes_keepsSize (operand : Expr) : KeepsSize (fillCodes labels pc operand) := by
  refine (fillOf_keepsSize operand).bind fun fill _ => (keepsSize_value _).bind fun value _ => ?_
  split
  · exact Except.errorIs_ok _
  · exact (valueCodes_keepsSize _ _ _).bind fun _ _ => Except.errorIs_ok _

end Directive

end Asm6502
