-- The bytes of data and fills. Once the layout has accepted the items of a `?`
-- by their shape, writing them fails only if a value is missing: an item that
-- was given one byte has a value that fits a byte, whatever the labels are. The
-- same holds for the value that a `$` repeats.
import Asm6502.Proofs.AddressValue
import Asm6502.Proofs.DataSize
import Asm6502.Proofs.WrittenOperand

namespace Asm6502

namespace Directive

variable {labels : Label.View} {pc : UInt16} {item : Expr} {width : Nat} {w : UInt16}

/-! ## Values in bytes -/

/-- The bytes of a word that is written as one byte or as two. -/
inductive InWidth : Nat → UInt16 → Text → Prop
  | byte (b : UInt8) : InWidth 1 b.toUInt16 [b]
  | word (w : UInt16) : InWidth 2 w [w.toUInt8, (w >>> 8).toUInt8]

/-- Small decimals, bytes and halves of words, which fit a byte in any view. -/
def fitsByte : Expr → Bool
  | .decimal n => decide (n ≤ 0xFF)
  | .byte _ | .highByte _ | .lowByte _ => true
  | _ => false

/-- Words, names and everything with an operator. -/
def takesWord : Expr → Bool
  | .word _ | .ident _ | .binary .. => true
  | _ => false

theorem value_le_of_fitsByte (h : fitsByte item = true) (hw : item.value labels pc = .ok w) :
    w ≤ 0xFF := by
  cases item with
  | decimal n =>
    cases hw
    simpa [fitsByte] using h
  | byte b =>
    cases hw
    exact Address.value_le_of_isZeroPage (show (Address.zeroPage b).isZeroPage = true from rfl)
  | highByte e =>
    obtain ⟨x, _, hw⟩ := Except.bind_eq_ok.1 hw
    cases Except.pure_eq_ok.1 hw
    exact highHalf_le x
  | lowByte e =>
    obtain ⟨x, _, hw⟩ := Except.bind_eq_ok.1 hw
    cases Except.pure_eq_ok.1 hw
    exact lowHalf_le x
  | _ => cases h

/-- A value is written if it has the room. -/
theorem valueCodes_inWidth (h : width = 1 ∧ w ≤ 0xFF ∨ width = 2) :
    ∃ codes, valueCodes item width w = .ok codes ∧ InWidth width w codes := by
  rcases h with ⟨rfl, hw⟩ | rfl
  · refine ⟨[w.toUInt8], by simp [valueCodes, hw], ?_⟩
    have hbyte := InWidth.byte w.toUInt8
    rwa [toUInt16_toUInt8_of_le hw] at hbyte
  · exact ⟨littleEndian w, rfl, .word w⟩

/-! ## Items of data -/

/-- The bytes that an item of data stands for. -/
inductive Written (labels : Label.View) (pc : UInt16) : Expr → Text → Prop
  | string (s : Text) : Written labels pc (.string s) s
  | byte {item : Expr} {w : UInt16} {codes : Text} (shape : fitsByte item = true)
      (value_eq : item.value labels pc = .ok w) (inWidth : InWidth 1 w codes) :
      Written labels pc item codes
  | word {item : Expr} {w : UInt16} {codes : Text} (shape : takesWord item = true)
      (value_eq : item.value labels pc = .ok w) (inWidth : InWidth 2 w codes) :
      Written labels pc item codes

/-- The width of an item that is no string tells its shape. -/
theorem dataWidth_shape (hs : ∀ s, item ≠ .string s) (h : dataWidth item = .ok width) :
    width = 1 ∧ fitsByte item = true ∨ width = 2 ∧ takesWord item = true := by
  cases item with
  | decimal n =>
    rw [dataWidth] at h
    split at h
    · rename_i hn
      cases h
      exact .inl ⟨rfl, decide_eq_true hn⟩
    · cases h
  | byte | highByte | lowByte =>
    cases h
    exact .inl ⟨rfl, rfl⟩
  | word | ident | binary =>
    cases h
    exact .inr ⟨rfl, rfl⟩
  | string s => exact absurd rfl (hs s)
  | empty | paren | bracket | system => cases h

theorem itemCodes_of_value (hs : ∀ s, item ≠ .string s) (h : dataWidth item = .ok width) :
    itemCodes labels pc item =
      (item.value labels pc).mapError .value >>= valueCodes item width := by
  unfold itemCodes
  split
  · exact absurd rfl (hs _)
  · rw [h]
    rfl

/-- An item has no value. A string needs none. -/
def Misses (labels : Label.View) (pc : UInt16) (item : Expr) (fault : ValueError) : Prop :=
  (∀ s, item ≠ .string s) ∧ item.value labels pc = .error fault

/-- An item that was counted is written, or has no value. -/
theorem itemCodes_cases (h : dataWidth item = .ok width) :
    (∃ fault, Misses labels pc item fault ∧ itemCodes labels pc item = .error (.value fault)) ∨
      ∃ codes, itemCodes labels pc item = .ok codes ∧ Written labels pc item codes := by
  by_cases hs : ∃ s, item = .string s
  · obtain ⟨s, rfl⟩ := hs
    exact .inr ⟨s, rfl, .string s⟩
  · have hs : ∀ s, item ≠ .string s := fun s hitem => hs ⟨s, hitem⟩
    rw [itemCodes_of_value hs h]
    cases hv : item.value labels pc with
    | error fault => exact .inl ⟨fault, ⟨hs, hv⟩, rfl⟩
    | ok w =>
      right
      change ∃ codes, valueCodes item width w = .ok codes ∧ Written labels pc item codes
      rcases dataWidth_shape hs h with ⟨rfl, hshape⟩ | ⟨rfl, hshape⟩
      · obtain ⟨codes, hc, hin⟩ := valueCodes_inWidth (.inl ⟨rfl, value_le_of_fitsByte hshape hv⟩)
        exact ⟨codes, hc, .byte hshape hv hin⟩
      · obtain ⟨codes, hc, hin⟩ := valueCodes_inWidth (.inr rfl)
        exact ⟨codes, hc, .word hshape hv hin⟩

/-- Items that were counted are written in a row, up to the first one that has no
value. -/
theorem items_cases {items : List Expr} {widths : List Nat}
    (h : items.mapM dataWidth = .ok widths) :
    (∃ item ∈ items, ∃ fault, Misses labels pc item fault ∧
        items.mapM (itemCodes labels pc) = .error (.value fault)) ∨
      ∃ parts, items.mapM (itemCodes labels pc) = .ok parts ∧
        List.Forall₂ (Written labels pc) items parts := by
  rw [Except.mapM_eq_ok] at h
  induction h with
  | nil => exact .inr ⟨[], rfl, .nil⟩
  | @cons item _ items _ hw _ ih =>
    rw [List.mapM_cons]
    rcases itemCodes_cases hw with ⟨fault, hmisses, hc⟩ | ⟨codes, hc, hwritten⟩
    · exact .inl ⟨item, List.mem_cons_self, fault, hmisses, by rw [hc]; rfl⟩
    · rcases ih with ⟨other, ho, fault, hmisses, hrest⟩ | ⟨parts, hrest, hparts⟩
      · exact .inl ⟨other, List.mem_cons_of_mem _ ho, fault, hmisses, by rw [hc, hrest]; rfl⟩
      · exact .inr ⟨codes :: parts, by rw [hc, hrest]; rfl, .cons hwritten hparts⟩

/-! ## Fills -/

theorem fillWidth_shape (h : fillWidth item = .ok width) :
    width = 1 ∧ fitsByte item = true ∨ width = 2 := by
  cases item with
  | decimal n =>
    cases h
    by_cases hn : n ≤ 0xFF
    · exact .inl ⟨if_pos hn, decide_eq_true hn⟩
    · exact .inr (if_neg hn)
  | byte | highByte | lowByte =>
    cases h
    exact .inl ⟨rfl, rfl⟩
  | word | ident | binary =>
    cases h
    exact .inr rfl
  | empty | string | paren | bracket | system => cases h

theorem fillOf_eq_ok {operand : Expr} {fill : Fill} (h : fillOf labels pc operand = .ok fill) :
    fillWidth fill.value = .ok fill.width := by
  unfold fillOf at h
  split at h
  · obtain ⟨width, hw, h⟩ := Except.bind_eq_ok.1 h
    obtain ⟨count, _, h⟩ := Except.bind_eq_ok.1 h
    cases Except.pure_eq_ok.1 h
    exact hw
  · cases h

/-- A fill that was counted is its value over and over, or has no value. -/
theorem fillCodes_cases {operand : Expr} {fill : Fill} (h : fillOf labels pc operand = .ok fill) :
    (∃ fault, fill.value.value labels pc = .error fault ∧
        fillCodes labels pc operand = .error (.value fault)) ∨
      ∃ w once, fill.value.value labels pc = .ok w ∧ InWidth fill.width w once ∧
        fillCodes labels pc operand = .ok (List.replicate fill.count once).flatten := by
  cases hv : fill.value.value labels pc with
  | error fault =>
    refine .inl ⟨fault, rfl, Except.bind_eq_error.2 (.inr ⟨fill, h, ?_⟩)⟩
    rw [hv]
    rfl
  | ok w =>
    have hroom : fill.width = 1 ∧ w ≤ 0xFF ∨ fill.width = 2 :=
      (fillWidth_shape (fillOf_eq_ok h)).imp_left fun hw => ⟨hw.1, value_le_of_fitsByte hw.2 hv⟩
    obtain ⟨once, ho, hin⟩ := valueCodes_inWidth hroom
    refine .inr ⟨w, once, rfl, hin, Except.bind_eq_ok.2 ⟨fill, h, ?_⟩⟩
    refine Except.bind_eq_ok.2 ⟨w, by rw [hv]; rfl, ?_⟩
    split
    · rename_i hc
      rw [hc]
      rfl
    · rw [ho]
      rfl

/-! ## Statements -/

theorem dataCodes_cases (labels : Label.View) (pc : UInt16) {operand : Expr} {widths : List Nat}
    (h : operand.elements.mapM dataWidth = .ok widths) :
    (∃ item ∈ operand.elements, ∃ fault, Misses labels pc item fault ∧
        dataCodes labels pc operand = .error (.value fault)) ∨
      ∃ parts, List.Forall₂ (Written labels pc) operand.elements parts ∧
        parts.map List.length = widths ∧ dataCodes labels pc operand = .ok parts.flatten := by
  rcases items_cases h with ⟨item, hitem, fault, hmisses, hc⟩ | ⟨parts, hc, hparts⟩
  · refine .inl ⟨item, hitem, fault, hmisses, ?_⟩
    rw [dataCodes, hc]
    rfl
  · refine .inr ⟨parts, hparts, items_length h hc, ?_⟩
    rw [dataCodes, hc]
    rfl

/-- A directive takes the size counted for it, once the program counter is set. -/
theorem placed_of_ok {layout : Layout} {size : Except Error Nat} {length : Nat}
    (hset : layout.addressSet = true) (hs : size = .ok length) :
    layout.placed size = .ok (layout, length) := by
  rw [Layout.placed, if_pos hset, hs]
  rfl

/-- What fails only for want of a value is never refused as a misfit. -/
theorem no_misfit_of_cases {codes : Except Error Text}
    (h : (∃ fault, codes = .error (.value fault)) ∨ ∃ bytes, codes = .ok bytes) :
    codes.ErrorIs (Error.isMisfit · = false) := by
  rcases h with ⟨fault, rfl⟩ | ⟨bytes, rfl⟩
  · exact Except.errorIs_error rfl
  · exact Except.errorIs_ok bytes

section Codes

variable {st : Statement} {size : Sizing}

theorem statementCodes_data (h : of? st.command = some .data) :
    Emit.statementCodes labels st size = dataCodes labels size.pc st.operand := by
  simp only [Emit.statementCodes, h]

theorem statementCodes_fill (h : of? st.command = some .fill) :
    Emit.statementCodes labels st size = fillCodes labels size.pc st.operand := by
  simp only [Emit.statementCodes, h]

end Codes

/-- A `?` whose items the layout has counted is written with each item in the
bytes counted for it, unless an item has no value. A `$` is written as its value
over and over, in as many bytes as its width and its count say, unless the value
is missing. Neither is refused because something does not fit. -/
theorem data_and_fills_take_what_was_counted (labels : Label.View) (st : Statement)
    (size : Sizing) :
    (∀ widths, of? st.command = some .data → st.operand.elements.mapM dataWidth = .ok widths →
      (∀ (layout : Layout) label, layout.addressSet = true →
        layout.reserve label st = .ok (layout, widths.foldr (· + ·) 0)) ∧
      ((∃ item ∈ st.operand.elements, ∃ fault, Misses labels size.pc item fault ∧
          Emit.statementCodes labels st size = .error (.value fault)) ∨
        ∃ parts, List.Forall₂ (Written labels size.pc) st.operand.elements parts ∧
          parts.map List.length = widths ∧
          Emit.statementCodes labels st size = .ok parts.flatten ∧
          parts.flatten.length = widths.foldr (· + ·) 0) ∧
      (Emit.statementCodes labels st size).ErrorIs (Error.isMisfit · = false)) ∧
    ∀ fill, of? st.command = some .fill → fillOf labels size.pc st.operand = .ok fill →
      (∀ (layout : Layout) label, layout.addressSet = true → layout.labels.lookup = labels →
        layout.address = size.pc →
        layout.reserve label st = .ok (layout, fill.width * fill.count)) ∧
      ((∃ fault, fill.value.value labels size.pc = .error fault ∧
          Emit.statementCodes labels st size = .error (.value fault)) ∨
        ∃ w once, fill.value.value labels size.pc = .ok w ∧ InWidth fill.width w once ∧
          Emit.statementCodes labels st size = .ok (List.replicate fill.count once).flatten ∧
          (List.replicate fill.count once).flatten.length = fill.width * fill.count) ∧
      (Emit.statementCodes labels st size).ErrorIs (Error.isMisfit · = false) := by
  constructor
  · intro widths hd hw
    have hlength : dataLength st.operand = .ok (widths.foldr (· + ·) 0) := by
      rw [dataLength, hw]
      rfl
    have hcases := dataCodes_cases labels size.pc hw
    rw [statementCodes_data hd]
    refine ⟨fun layout label ho => ?_, hcases.imp_right ?_, no_misfit_of_cases ?_⟩
    · simp only [Layout.reserve, hd]
      exact placed_of_ok ho hlength
    · rintro ⟨parts, hparts, hlengths, hc⟩
      exact ⟨parts, hparts, hlengths, hc, dataCodes_length hlength hc⟩
    · exact hcases.imp (fun ⟨_, _, fault, _, hc⟩ => ⟨fault, hc⟩) fun ⟨_, _, _, hc⟩ => ⟨_, hc⟩
  · intro fill hd hf
    have hcases := fillCodes_cases hf
    rw [statementCodes_fill hd]
    refine ⟨?_, hcases.imp_right ?_, no_misfit_of_cases ?_⟩
    · rintro layout label ho rfl haddress
      simp only [Layout.reserve, hd]
      rw [haddress, hf]
      exact placed_of_ok ho rfl
    · rintro ⟨w, once, hv, hin, hc⟩
      exact ⟨w, once, hv, hin, hc, fillCodes_length hf hc⟩
    · exact hcases.imp (fun ⟨fault, _, hc⟩ => ⟨fault, hc⟩) fun ⟨_, _, _, _, hc⟩ => ⟨_, hc⟩

/-- The data `"HI",7,>screen,screen+1`. -/
def greeting : Statement where
  command := .system (ascii "?")
  operand :=
    .binary (.string (ascii "HI")) .comma (.binary (.decimal 7) .comma
      (.binary (.highByte (.ident (ascii "screen"))) .comma
        (.binary (.ident (ascii "screen")) .add (.decimal 1))))

/-- The fill `screen,3`. -/
def screenFill : Statement where
  command := .system (ascii "$")
  operand := .binary (.ident (ascii "screen")) .comma (.decimal 3)

theorem greeting_and_screenFill_take_what_was_counted :
    (∃ parts, List.Forall₂ (Written Expr.pageLabels 0x1000) greeting.operand.elements parts ∧
      parts.map List.length = [2, 1, 1, 2] ∧
      Emit.statementCodes Expr.pageLabels greeting ⟨0x1000, 6⟩ = .ok parts.flatten) ∧
    ∃ once, InWidth 2 0x0400 once ∧
      Emit.statementCodes Expr.pageLabels screenFill ⟨0x1006, 6⟩ =
        .ok (List.replicate 3 once).flatten := by
  have hdata : Emit.statementCodes Expr.pageLabels greeting ⟨0x1000, 6⟩ =
      .ok [0x48, 0x49, 0x07, 0x04, 0x01, 0x04] := by decide +kernel
  have hfill : Emit.statementCodes Expr.pageLabels screenFill ⟨0x1006, 6⟩ =
      .ok [0x00, 0x04, 0x00, 0x04, 0x00, 0x04] := by decide +kernel
  have hwidths : greeting.operand.elements.mapM dataWidth = .ok [2, 1, 1, 2] := rfl
  have hof : fillOf Expr.pageLabels 0x1006 screenFill.operand =
      .ok ⟨.ident (ascii "screen"), 2, 3⟩ := rfl
  constructor
  · rcases ((data_and_fills_take_what_was_counted Expr.pageLabels greeting ⟨0x1000, 6⟩).1 _
      (by decide +kernel) hwidths).2.1 with ⟨_, _, fault, _, hc⟩ | ⟨parts, hparts, hl, hc, _⟩
    · cases hdata.symm.trans hc
    · exact ⟨parts, hparts, hl, hc⟩
  · rcases ((data_and_fills_take_what_was_counted Expr.pageLabels screenFill ⟨0x1006, 6⟩).2 _
      (by decide +kernel) hof).2.1 with ⟨fault, _, hc⟩ | ⟨w, once, hv, hin, hc, _⟩
    · cases hfill.symm.trans hc
    · cases hv
      exact ⟨once, hin, hc⟩

end Directive

end Asm6502
