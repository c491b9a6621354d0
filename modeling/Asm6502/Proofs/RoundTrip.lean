-- Printing undoes parsing. The reader looks only at the kinds of tokens and at
-- the bytes of marks, so it takes the same path through the printed tokens,
-- and the tree that it reads is written as the text of the tokens consumed.
import Asm6502.Expr.Parse
import Asm6502.Proofs.Lexing

namespace Asm6502

namespace Grammar

open Token (printed written written_cons printedHex printedDecimal)

/-! ## Literals -/

theorem hexLiteral_printedHex (digits : Text) :
    hexLiteral (printedHex digits) = hexLiteral digits := by
  unfold hexLiteral
  rw [Token.printedHex_length]
  by_cases h : digits.length ≤ 2
  · simp only [h, printedHex, numberOf_hexByte, if_true, Nat.le_refl, UInt8.ofNat_toNat]
  · simp only [h, printedHex, numberOf_hexWord, if_false, UInt16.ofNat_toNat]
    rfl

theorem hexLiteral_render (digits : Text) :
    (hexLiteral digits).render = Ascii.dollar :: printedHex digits := by
  unfold hexLiteral printedHex
  split
  · rfl
  · rfl

theorem decimalLiteral_printedDecimal (digits : Text) :
    decimalLiteral (printedDecimal digits) = decimalLiteral digits := by
  rw [decimalLiteral, printedDecimal, numberOf_decimal, UInt16.ofNat_toNat]
  rfl

/-! ## Operators -/

/-- A reader of operators that knows only marks, each by its spelling. -/
structure Spelled (op? : Token → Option Operator) : Prop where
  of_mark : ∀ b op, op? (.mark b) = some op → op.render = [b]
  of_other : ∀ token, (∀ b, token ≠ .mark b) → op? token = none

theorem Spelled.printed_eq {op? : Token → Option Operator} (h : Spelled op?) (token : Token) :
    op? token.printed = op? token := by
  cases token with
  | string | name | mark => rfl
  | hex | decimal => rw [printed, h.of_other _ (by simp), h.of_other _ (by simp)]

theorem Spelled.render_eq {op? : Token → Option Operator} (h : Spelled op?) {token : Token}
    {op : Operator} (ho : op? token = some op) : token.printed.render = op.render := by
  cases token with
  | mark b => exact (h.of_mark b op ho).symm
  | hex | decimal | string | name =>
    rw [h.of_other _ (by simp)] at ho
    cases ho

/-- No other token is an operator. -/
theorem not_operator {token : Token} (h : ∀ b, token ≠ .mark b) :
    arithmeticOperator? token = none ∧ comparisonOperator? token = none ∧
      commaOperator? token = none := by
  cases token with
  | mark b => exact absurd rfl (h b)
  | hex | decimal | string | name => exact ⟨rfl, rfl, rfl⟩

theorem arithmeticOperator?_spelled : Spelled arithmeticOperator? where
  of_mark b op h := by
    simp only [arithmeticOperator?] at h
    repeat' split at h
    all_goals cases h
    all_goals
      rename_i hb
      rw [eq_of_beq hb]
      rfl
  of_other _ h := (not_operator h).1

theorem comparisonOperator?_spelled : Spelled comparisonOperator? where
  of_mark b op h := by
    simp only [comparisonOperator?] at h
    repeat' split at h
    all_goals cases h
    all_goals
      rename_i hb
      rw [eq_of_beq hb]
      rfl
  of_other _ h := (not_operator h).2.1

theorem commaOperator?_spelled : Spelled commaOperator? where
  of_mark b op h := by
    simp only [commaOperator?] at h
    split at h
    · rename_i hb
      cases h
      rw [eq_of_beq hb]
      rfl
    · cases h
  of_other _ h := (not_operator h).2.2

/-! ## Readings of printed tokens -/

namespace Reading

/-- A reading of tokens, and a reading of their printed forms: both match the
same tree in front of the same rest, and the tree is written as the tokens in
front of the rest, or both match nothing. -/
inductive Printed {tokens tokens' : List Token} : Reading tokens → Reading tokens' → Prop
  | matched {e : Expr} {rest rest' : List Token} (h : rest.length < tokens.length)
      (h' : rest'.length < tokens'.length) (same : rest' = rest.map printed)
      (spelled : written tokens = e.render ++ written rest) :
      Printed (.matched e rest h) (.matched e rest' h')
  | absent : Printed .absent .absent
  | aborted : Printed .aborted .aborted

theorem Printed.joined {tokens : List Token} {left : Reading tokens}
    {left' : Reading (tokens.map printed)} {op? : Token → Option Operator}
    {right right' : (after : List Token) → after.length < _ → Reading after}
    (hleft : Printed left left') (hop : Spelled op?)
    (hright : ∀ after h h', Printed (right after h) (right' (after.map printed) h')) :
    Printed (left.joined op? right) (left'.joined op? right') := by
  cases hleft with
  | absent => exact .absent
  | aborted => exact .aborted
  | @matched e rest _ h h' same spelled =>
    subst same
    cases rest with
    | nil => exact .matched h h' rfl spelled
    | cons token after =>
      simp only [Reading.joined, List.map_cons, hop.printed_eq]
      cases ho : op? token with
      | none => exact .matched h h' rfl spelled
      | some op =>
        have hlt : after.length < tokens.length := by
          rw [List.length_cons] at h
          omega
        have hr := hright after hlt (by simpa using hlt)
        simp only
        generalize right after _ = r at hr ⊢
        generalize right' (after.map printed) _ = r' at hr ⊢
        cases hr with
        | absent => exact .matched h h' rfl spelled
        | aborted => exact .aborted
        | matched _ _ same spelled' =>
          refine .matched _ _ same ?_
          rw [spelled, written_cons, spelled', hop.render_eq ho]
          simp [Expr.render]

theorem Printed.grouped {rest : List Token} {inner : Reading rest}
    {inner' : Reading (rest.map printed)} (h : Printed inner inner') {opening closing : UInt8}
    {wrap : Expr → Expr} (hwrap : ∀ e, (wrap e).render = opening :: (e.render ++ [closing])) :
    Printed (inner.grouped opening closing wrap) (inner'.grouped opening closing wrap) := by
  have hsystem : written (.mark opening :: rest) = (Expr.system [opening]).render ++ written rest :=
    rfl
  cases h with
  | absent => exact .matched _ _ rfl hsystem
  | aborted => exact .aborted
  | @matched e rest' _ h h' same spelled =>
    subst same
    simp only [Reading.grouped, List.length_map]
    have hhead : (rest'.map printed).head? = some (.mark closing) ↔
        rest'.head? = some (.mark closing) := by
      cases rest' with
      | nil => simp
      | cons token _ =>
        cases token with
        | mark => rfl
        | hex | decimal | string | name => simp [printed]
    by_cases hc : rest'.head? = some (.mark closing)
    · rw [if_pos hc, if_pos (hhead.2 hc)]
      refine .matched _ _ List.map_tail.symm ?_
      obtain ⟨tail, rfl⟩ : ∃ tail, rest' = .mark closing :: tail := by
        cases rest' with
        | nil => simp at hc
        | cons token tail => exact ⟨tail, by simpa using hc⟩
      rw [written_cons, spelled, written_cons, hwrap]
      simp [printed, Token.render]
    · rw [if_neg hc, if_neg (fun hc' => hc (hhead.1 hc'))]
      split
      · exact .aborted
      · exact .matched _ _ rfl hsystem

end Reading

/-! ## Terms -/

theorem runLength_printed (b : UInt8) (rest : List Token) :
    runLength b (rest.map printed) = runLength b rest := by
  fun_induction runLength b rest with
  | case1 c rest hc ih => simp [printed, runLength, hc, ih]
  | case2 c rest hc => simp [printed, runLength, hc]
  | case3 rest hrest =>
    cases rest with
    | nil => rfl
    | cons token rest =>
      cases token with
      | mark c => exact absurd rfl (hrest c rest)
      | hex | decimal | string | name => rfl

theorem written_run (b : UInt8) (rest : List Token) :
    written rest =
      List.replicate (runLength b rest) b ++ written (rest.drop (runLength b rest)) := by
  fun_induction runLength b rest with
  | case1 c rest hc ih =>
    rw [written_cons, List.replicate_succ, List.drop_succ_cons, List.cons_append, ← ih]
    simp_all [printed, Token.render]
  | case2 c rest hc => simp
  | case3 rest hrest => simp

theorem systemRun_printed (b : UInt8) (rest : List Token) :
    Reading.Printed (systemRun b rest) (systemRun b (rest.map printed)) := by
  simp only [systemRun, runLength_printed]
  split
  · refine .matched _ _ List.map_drop.symm ?_
    rw [written_cons, written_run b rest]
    rfl
  · exact .absent

theorem markedTerm_printed (b : UInt8) (rest : List Token) :
    Reading.Printed (markedTerm b rest) (markedTerm b (rest.map printed)) := by
  cases rest with
  | nil => exact systemRun_printed b []
  | cons token after =>
    cases token with
    | hex | decimal | string | mark => exact systemRun_printed b _
    | name text =>
      simp only [markedTerm]
      split
      · rename_i hb
        refine .matched _ _ rfl ?_
        rw [eq_of_beq hb]
        rfl
      · split
        · rename_i hb
          refine .matched _ _ rfl ?_
          rw [eq_of_beq hb]
          rfl
        · exact systemRun_printed b (.name text :: after)

theorem term_printed {tokens : List Token}
    (hlist : ∀ rest : List Token, rest.length < tokens.length →
      Reading.Printed (list rest) (list (rest.map printed))) :
    Reading.Printed (term tokens) (term (tokens.map printed)) := by
  cases tokens with
  | nil =>
    rw [List.map_nil, term]
    exact .absent
  | cons token rest =>
    rw [List.map_cons]
    cases token with
    | hex digits =>
      rw [printed, term, term, hexLiteral_printedHex]
      refine .matched _ _ rfl ?_
      rw [hexLiteral_render]
      rfl
    | decimal digits =>
      rw [printed, term, term, decimalLiteral_printedDecimal]
      exact .matched _ _ rfl rfl
    | string content =>
      rw [Token.printed_string, term, term]
      exact .matched _ _ rfl rfl
    | name text =>
      rw [Token.printed_name, term, term]
      exact .matched _ _ rfl rfl
    | mark b =>
      rw [Token.printed_mark, term, term]
      have hrest := hlist rest (by simp)
      split
      · rename_i hb
        rw [eq_of_beq hb]
        exact hrest.grouped fun e => rfl
      · split
        · rename_i hb
          rw [eq_of_beq hb]
          exact hrest.grouped fun e => rfl
        · exact markedTerm_printed b rest

/-- The reader takes the same path through the printed tokens. -/
theorem phrases_printed (tokens : List Token) :
    Reading.Printed (list tokens) (list (tokens.map printed)) ∧
      Reading.Printed (arithmetic tokens) (arithmetic (tokens.map printed)) := by
  induction hn : tokens.length using Nat.strong_induction_on generalizing tokens with
  | _ n ih =>
    subst hn
    have hterm := term_printed fun rest hlt => (ih _ hlt rest rfl).1
    have harith : Reading.Printed (arithmetic tokens) (arithmetic (tokens.map printed)) := by
      rw [arithmetic, arithmetic]
      exact hterm.joined arithmeticOperator?_spelled fun after h _ => (ih _ h after rfl).2
    have hcomparison : Reading.Printed (comparison tokens) (comparison (tokens.map printed)) := by
      rw [comparison, comparison]
      exact harith.joined comparisonOperator?_spelled fun after h _ => (ih _ h after rfl).2
    refine ⟨?_, harith⟩
    rw [list, list]
    exact hcomparison.joined commaOperator?_spelled fun after h _ => (ih _ h after rfl).1

end Grammar

namespace Expr

/-! ## Whole texts -/

/-- A text with a tree is empty, or its tokens are read to the end. -/
theorem parse_eq_ok {text : Text} {e : Expr} (h : parse text = .ok e) :
    text = [] ∧ e = .empty ∨
      text ≠ [] ∧ ∃ tokens hlt, Token.scan text = some tokens ∧
        Grammar.list tokens = .matched e [] hlt := by
  unfold parse at h
  split at h
  · rename_i ht
    cases h
    exact Or.inl ⟨List.isEmpty_iff.1 ht, rfl⟩
  · rename_i ht
    refine Or.inr ⟨fun hnil => ht (List.isEmpty_iff.2 hnil), ?_⟩
    split at h
    · cases h
    · rename_i tokens hs
      split at h
      · rename_i e' hlt hl
        split at h
        · cases h
        · cases h
          exact ⟨tokens, hlt, hs, hl⟩
      · cases h

theorem parse_of_list {text : Text} {tokens : List Token} {e : Expr}
    {hlt : ([] : List Token).length < tokens.length} (ht : text ≠ [])
    (hs : Token.scan text = some tokens) (hl : Grammar.list tokens = .matched e [] hlt)
    (hr : ∀ token ∈ tokens, token.inRange = true) : parse text = .ok e := by
  have hrange : tokens.find? (fun token => !token.inRange) = none := by
    rw [List.find?_eq_none]
    intro token hmem
    simp [hr token hmem]
  simp [parse, ht, hs, hl, hrange]

/-- A text that is one token has the tree of the token. -/
theorem parse_of_token {text : Text} {token : Token} {e : Expr}
    {hlt : ([] : List Token).length < [token].length} (hn : Token.next text = some (token, []))
    (ht : Grammar.term [token] = .matched e [] hlt) (hr : token.inRange = true) :
    parse text = .ok e := by
  have hne : text ≠ [] := by
    rintro rfl
    simp [Token.next] at hn
  have hscan : Token.scan text = some [token] := by
    rw [Token.scan_of_next hn, Token.scan]
    rfl
  have hlist : Grammar.list [token] = .matched e [] hlt := by
    simp [Grammar.list, Grammar.comparison, Grammar.arithmetic, ht, Grammar.Reading.joined]
  exact parse_of_list hne hscan hlist (by simpa using hr)

theorem parse_hex {digits : Text} (hne : digits ≠ []) (hlen : digits.length ≤ 4)
    (hall : ∀ b ∈ digits, isHexDigit b = true) :
    parse (Ascii.dollar :: digits) = .ok (Grammar.hexLiteral digits) := by
  have hw : (Token.hex digits).WellFormed := ⟨hne, hall⟩
  have hnext : Token.next ((Token.hex digits).render ++ []) = some (.hex digits, []) :=
    Token.next_render hw rfl
  rw [List.append_nil] at hnext
  exact parse_of_token hnext (by rw [Grammar.term]) (by simpa [Token.inRange] using hlen)

/-- Printing undoes parsing: the text of a tree that was read is read back as
the same tree. -/
theorem printing_undoes_parsing {text : Text} {e : Expr} (h : parse text = .ok e) :
    parse e.render = .ok e := by
  rcases parse_eq_ok h with ⟨rfl, rfl⟩ | ⟨ht, tokens, hlt, hs, hl⟩
  · exact h
  · have hprinted := (Grammar.phrases_printed tokens).1
    rw [hl] at hprinted
    generalize hl' : Grammar.list (tokens.map Token.printed) = reading at hprinted
    cases hprinted with
    | matched _ _ same spelled =>
      subst same
      have htext : Token.written tokens = e.render := by simpa [Token.written] using spelled
      refine parse_of_list ?_ ?_ hl' ?_
      · rw [← htext]
        exact Token.written_ne_nil hs ht
      · rw [← htext]
        exact Token.scan_written hs
      · intro token hmem
        obtain ⟨token, _, rfl⟩ := List.mem_map.1 hmem
        exact Token.inRange_printed token

/-- A text whose numbers, string and bracket are printed in another way. -/
def loose : Text := ascii "$1f+<lab,\"a\\b\",(007),++"

theorem loose_is_read_back :
    ∃ e, parse loose = .ok e ∧ e.render = ascii "$1F+<lab,\"ab\",(7),++" ∧
      parse e.render = .ok e := by
  obtain ⟨e, h, hr⟩ : ∃ e, parse loose = .ok e ∧ e.render = ascii "$1F+<lab,\"ab\",(7),++" :=
    ⟨.binary (.binary (.byte 0x1F) .add (.lowByte (.ident (ascii "lab")))) .comma
      (.binary (.string (ascii "ab")) .comma
        (.binary (.paren (.decimal 7)) .comma (.system (ascii "++")))),
      by decide +kernel, by decide +kernel⟩
  exact ⟨e, h, hr, printing_undoes_parsing h⟩

end Expr

end Asm6502
