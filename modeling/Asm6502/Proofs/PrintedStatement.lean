-- Statements print back. A tree is printed with the bytes of its text, but for
-- digits and backslashes, so no `=` comes into a command and no newline into
-- an operand: the first `=` of a printed statement is the one between its sides.
import Asm6502.Statement
import Asm6502.Proofs.Except
import Asm6502.Proofs.RoundTrip

namespace Asm6502

/-! ## The bytes of printed tokens -/

/-- A byte that printing never makes up. Digits and backslashes may be new in a
printed text, all else stands in the text that was read. -/
def isKept (b : UInt8) : Bool := !isHexDigit b && b != Ascii.backslash

theorem Expr.mem_of_mem_escape {s : Text} {b : UInt8} (hk : isKept b = true) (h : b ∈ escape s) :
    b ∈ s := by
  have hb : b ≠ Ascii.backslash := by
    rintro rfl
    cases hk
  induction s with
  | nil => simp [escape] at h
  | cons c s ih =>
    rw [escape] at h
    split at h
    · simp only [List.mem_cons, hb, false_or] at h
      exact List.mem_cons.2 (h.imp_right ih)
    · exact List.mem_cons.2 ((List.mem_cons.1 h).imp_right ih)

namespace Token

theorem mem_of_stringBody {t content after : Text} (h : stringBody t = some (content, after))
    {b : UInt8} (hb : b ∈ content ∨ b ∈ after) : b ∈ t := by
  fun_induction stringBody t generalizing content after with
  | case1 => cases h
  | case2 => simp_all
  | case3 => cases h
  | case4 => cases h
  | case5 c _ _ d rest _ ih =>
    obtain ⟨⟨content', after'⟩, hbody, heq⟩ := Option.map_eq_some_iff.1 h
    cases heq
    have hrest : b ∈ content' ∨ b ∈ after → b ∈ rest := ih hbody
    simp only [List.mem_cons] at hb ⊢
    grind
  | case6 c rest _ _ ih =>
    obtain ⟨⟨content', after'⟩, hbody, heq⟩ := Option.map_eq_some_iff.1 h
    cases heq
    have hrest : b ∈ content' ∨ b ∈ after → b ∈ rest := ih hbody
    simp only [List.mem_cons] at hb ⊢
    grind

/-- What a token is printed with stands in the text that it is read from, and
so does all that is left of the text. -/
theorem mem_of_next {t rest : Text} {token : Token} (h : next t = some (token, rest)) {b : UInt8}
    (hk : isKept b = true) (hb : b ∈ token.printed.render ∨ b ∈ rest) : b ∈ t := by
  have hdigit : isHexDigit b = false := by
    simp only [isKept, Bool.and_eq_true, Bool.not_eq_true'] at hk
    exact hk.1
  cases t with
  | nil => simp [next] at h
  | cons c tail =>
    have hrun {p : UInt8 → Bool} (hb : b ∈ tail.takeWhile p ∨ b ∈ tail.dropWhile p) :
        b ∈ c :: tail := by
      rw [← List.mem_append, List.takeWhile_append_dropWhile] at hb
      exact List.mem_cons_of_mem c hb
    -- One case for each kind of token, in the order in which they are tried.
    simp only [next, Bool.or_eq_true, Bool.and_eq_true, beq_iff_eq] at h
    split at h
    · rename_i hc
      obtain ⟨⟨content, after⟩, hbody, heq⟩ := Option.map_eq_some_iff.1 h
      cases heq
      simp only [printed, render, List.mem_cons, List.mem_append, List.not_mem_nil,
        or_false] at hb ⊢
      rcases hb with (hb | hb | hb) | hb
      · exact Or.inl (hb.trans hc.symm)
      · exact Or.inr (mem_of_stringBody hbody (Or.inl (Expr.mem_of_mem_escape hk hb)))
      · exact Or.inl (hb.trans hc.symm)
      · exact Or.inr (mem_of_stringBody hbody (Or.inr hb))
    split at h
    · rename_i hc
      cases h
      simp only [printed, render, List.mem_cons] at hb
      rcases hb with (hb | hb) | hb
      · exact List.mem_cons.2 (Or.inl (hb.trans hc.1.symm))
      · rw [isHexDigit_of_mem_printedHex b hb] at hdigit
        cases hdigit
      · exact hrun (Or.inr hb)
    split at h
    · cases h
      rcases hb with hb | hb
      · rw [isHexDigit_of_isDigit (isDigit_of_mem_decimal hb)] at hdigit
        cases hdigit
      · exact hrun (Or.inr hb)
    split at h
    · cases h
      rw [printed_name, render, List.mem_cons] at hb
      rcases hb with (hb | hb) | hb
      · exact List.mem_cons.2 (Or.inl hb)
      · exact hrun (Or.inl hb)
      · exact hrun (Or.inr hb)
    split at h
    · cases h
      rw [printed_mark, render, List.mem_singleton] at hb
      exact List.mem_cons.2 hb
    · cases h

theorem mem_of_mem_written {t : Text} {tokens : List Token} (h : scan t = some tokens) {b : UInt8}
    (hk : isKept b = true) (hb : b ∈ written tokens) : b ∈ t := by
  induction tokens generalizing t with
  | nil => simp [written] at hb
  | cons token tokens ih =>
    rcases scan_eq_some h with ⟨_, hnil⟩ | ⟨_, rest, _, hnext, hscan, heq⟩
    · cases hnil
    · cases heq
      rw [written_cons, List.mem_append] at hb
      exact mem_of_next hnext hk (hb.imp_right (ih hscan))

theorem printedDecimal_digit {b : UInt8} (h : isDigit b = true) : printedDecimal [b] = [b] := by
  have hb : 0x30 ≤ b.toNat ∧ b.toNat ≤ 0x39 := by
    simpa [isDigit, UInt8.le_iff_toNat_le] using h
  have hnumber : numberOf 10 [b] = b.toNat - 0x30 := by simp [numberOf, hexDigit?, h]
  have hword : (UInt16.ofNat (b.toNat - 0x30)).toNat = b.toNat - 0x30 := by
    rw [UInt16.toNat_ofNat']
    omega
  rw [printedDecimal, hnumber, hword, Asm6502.decimal, if_pos (by omega), digitByte,
    if_pos (by omega), Nat.add_sub_of_le hb.1, UInt8.ofNat_toNat]

/-- A text of one byte is printed as it is. -/
theorem written_of_single {b : UInt8} {tokens : List Token} (h : scan [b] = some tokens) :
    written tokens = [b] := by
  rcases scan_eq_some h with ⟨hnil, _⟩ | ⟨token, rest, others, hnext, hscan, rfl⟩
  · cases hnil
  · have hrest : rest = [] := by simpa using next_length hnext
    subst hrest
    rw [scan, Option.some.injEq] at hscan
    subst hscan
    rw [written_cons]
    -- Nothing follows the byte, so it is a digit, a letter or a mark.
    simp only [next, headIs, stringBody, List.head?_nil, Option.any_none, Option.map_none,
      List.takeWhile_nil, List.dropWhile_nil, Bool.and_false, Bool.or_false, Bool.false_eq_true,
      if_false] at hnext
    split at hnext
    · cases hnext
    split at hnext
    · rename_i hd
      cases hnext
      exact congrArg (· ++ []) (printedDecimal_digit hd)
    split at hnext
    · cases hnext
      rfl
    split at hnext
    · cases hnext
      rfl
    · cases hnext

end Token

namespace Expr

/-! ## Printed trees -/

/-- A tree is printed as the tokens of its text, and read back from there. -/
theorem written_of_parse {text : Text} {e : Expr} (h : parse text = .ok e) :
    ∃ tokens, Token.scan text = some tokens ∧ Token.written tokens = e.render ∧
      parse (Token.written tokens) = .ok e := by
  rcases parse_eq_ok h with ⟨rfl, rfl⟩ | ⟨ht, tokens, hlt, hscan, hlist⟩
  · exact ⟨[], by rw [Token.scan], rfl, h⟩
  · have hprinted := (Grammar.phrases_printed tokens).1
    rw [hlist] at hprinted
    generalize hlist' : Grammar.list (tokens.map Token.printed) = reading at hprinted
    cases hprinted with
    | matched _ _ same spelled =>
      subst same
      refine ⟨tokens, hscan, by simpa [Token.written] using spelled, ?_⟩
      refine parse_of_list (Token.written_ne_nil hscan ht) (Token.scan_written hscan) hlist' ?_
      intro token hmem
      obtain ⟨token, _, rfl⟩ := List.mem_map.1 hmem
      exact Token.inRange_printed token

theorem mem_of_mem_render {text : Text} {e : Expr} (h : parse text = .ok e) {b : UInt8}
    (hk : isKept b = true) (hb : b ∈ e.render) : b ∈ text := by
  obtain ⟨tokens, hscan, hwritten, _⟩ := written_of_parse h
  exact Token.mem_of_mem_written hscan hk (hwritten ▸ hb)

theorem render_ne_nil {text : Text} {e : Expr} (h : parse text = .ok e) (ht : text ≠ []) :
    e.render ≠ [] := by
  obtain ⟨tokens, hscan, hwritten, _⟩ := written_of_parse h
  exact hwritten ▸ Token.written_ne_nil hscan ht

theorem render_of_single {b : UInt8} {e : Expr} (h : parse [b] = .ok e) : e.render = [b] := by
  obtain ⟨tokens, hscan, hwritten, _⟩ := written_of_parse h
  exact hwritten ▸ Token.written_of_single hscan

theorem isEmpty_eq_false {text : Text} {e : Expr} (h : parse text = .ok e) (ht : text ≠ []) :
    e.isEmpty = false := by
  cases e with
  | empty => exact absurd rfl (render_ne_nil h ht)
  | _ => rfl

end Expr

namespace Statement

/-! ## The two forms of a token -/

theorem ne_equals_of_not_mem {command : Text} (h : Ascii.equals ∉ command) :
    ∀ b ∈ command, (b != Ascii.equals) = true := by
  intro b hb
  simp only [bne_iff_ne, ne_eq]
  rintro rfl
  exact h hb

/-- A token has two sides if a command stands before its first `=`, and behind
that an operand without a newline. -/
theorem sides?_eq_some {token command operand : Text} :
    sides? token = some (command, operand) ↔
      token = command ++ Ascii.equals :: operand ∧ command ≠ [] ∧ operand ≠ [] ∧
        Ascii.equals ∉ command ∧ Ascii.newline ∉ operand := by
  constructor
  · intro h
    have hsplit := List.takeWhile_append_dropWhile (p := (· != Ascii.equals)) (l := token)
    simp only [sides?] at h
    split at h
    · rename_i b operand' hdrop
      have hb : b = Ascii.equals := by
        have hhead := Token.headIs_dropWhile (· != Ascii.equals) token
        rw [hdrop] at hhead
        simpa [Token.headIs] using hhead
      subst hb
      split at h
      · cases h
      · rename_i hsides
        cases h
        simp only [Bool.or_eq_true, List.isEmpty_iff, List.contains_iff_mem, not_or] at hsides
        refine ⟨?_, hsides.1.1, hsides.1.2, ?_, hsides.2⟩
        · rw [← hdrop, hsplit]
        · intro hmem
          simpa using Token.mem_takeWhile _ hmem
    · cases h
  · rintro ⟨rfl, hcommand, hoperand, hequals, hnewline⟩
    have hrun := ne_equals_of_not_mem hequals
    have hstop : Token.headIs (· != Ascii.equals) (Ascii.equals :: operand) = false := rfl
    simp [sides?, Token.takeWhile_run hrun hstop, Token.dropWhile_run hrun hstop, hcommand,
      hoperand, hnewline]

theorem ofSides_eq_ok {command operand : Text} {st : Statement} :
    ofSides command operand = .ok st ↔
      Expr.parse command = .ok st.command ∧ Expr.parse operand = .ok st.operand := by
  simp only [ofSides, Except.bind_eq_ok, Except.mapError_eq_ok, Except.pure_eq_ok]
  constructor
  · rintro ⟨c, hc, o, ho, rfl⟩
    exact ⟨hc, ho⟩
  · rintro ⟨hc, ho⟩
    exact ⟨_, hc, _, ho, rfl⟩

/-- The sides of a token are printed as the sides of the printed statement. -/
theorem sides?_render {command operand : Text} {st : Statement}
    (hc : Expr.parse command = .ok st.command) (ho : Expr.parse operand = .ok st.operand)
    (hcommand : command ≠ []) (hoperand : operand ≠ []) (hequals : Ascii.equals ∉ command)
    (hnewline : Ascii.newline ∉ operand) :
    sides? st.render = some (st.command.render, st.operand.render) := by
  rw [sides?_eq_some, render, Expr.isEmpty_eq_false ho hoperand]
  refine ⟨by simp, Expr.render_ne_nil hc hcommand, Expr.render_ne_nil ho hoperand, ?_, ?_⟩
  · intro hmem
    exact hequals (Expr.mem_of_mem_render hc (by decide) hmem)
  · intro hmem
    exact hnewline (Expr.mem_of_mem_render ho (by decide) hmem)

/-- A token without two sides is a lone command, which is printed as it is. -/
theorem lone_of_parse {token : Text} {st : Statement} (hnone : sides? token = none)
    (h : parse token = .ok st) : st.operand = .empty ∧ token.length = 1 ∧ st.render = token := by
  simp only [parse, hnone] at h
  split at h
  · rename_i hlength
    obtain ⟨hc, ho⟩ := ofSides_eq_ok.1 h
    have hempty : st.operand = .empty := (Except.ok.inj ho).symm
    obtain ⟨b, rfl⟩ := List.length_eq_one_iff.1 hlength
    refine ⟨hempty, hlength, ?_⟩
    rw [render, hempty]
    exact Expr.render_of_single hc
  · cases h

/-- Statements print back: a printed statement is read as the same statement.
Two sides of a token are printed as two sides, whatever the operand holds, and
a lone command as the one byte that it is. -/
theorem statements_print_back {token : Text} {st : Statement} (h : parse token = .ok st) :
    parse st.render = .ok st ∧
      (∀ command operand, sides? token = some (command, operand) →
        sides? st.render = some (st.command.render, st.operand.render)) ∧
      (sides? token = none → st.operand = .empty ∧ token.length = 1 ∧ st.render = token) := by
  cases hsides : sides? token with
  | none =>
    have hlone := lone_of_parse hsides h
    refine ⟨?_, by simp, fun _ => hlone⟩
    rw [hlone.2.2, h]
  | some sides =>
    obtain ⟨command, operand⟩ := sides
    obtain ⟨_, hcommand, hoperand, hequals, hnewline⟩ := sides?_eq_some.1 hsides
    simp only [parse, hsides] at h
    obtain ⟨hc, ho⟩ := ofSides_eq_ok.1 h
    have hprinted := sides?_render hc ho hcommand hoperand hequals hnewline
    obtain ⟨_, _, hcommand', hread⟩ := Expr.written_of_parse hc
    obtain ⟨_, _, hoperand', hread'⟩ := Expr.written_of_parse ho
    refine ⟨?_, fun _ _ _ => hprinted, by simp⟩
    simp only [parse, hprinted]
    exact ofSides_eq_ok.2 ⟨hcommand' ▸ hread, hoperand' ▸ hread'⟩

/-- An operand with comparisons, operators of `=` and a string with one. -/
def equations : Text := ascii "T=x=$f,==,\"a=\\b\""

theorem equations_print_back :
    (∃ st, parse equations = .ok st ∧ st.render = ascii "T=x=$0F,==,\"a=b\"" ∧
      parse st.render = .ok st) ∧
      ∃ st, parse [Ascii.equals] = .ok st ∧ st.render = [Ascii.equals] := by
  constructor
  · obtain ⟨st, h, hr⟩ : ∃ st, parse equations = .ok st ∧
        st.render = ascii "T=x=$0F,==,\"a=b\"" :=
      ⟨{ command := .ident (ascii "T")
         operand := .binary (.binary (.ident (ascii "x")) .equal (.byte 0x0F)) .comma
           (.binary (.system (ascii "==")) .comma (.string (ascii "a=b"))) },
        by decide +kernel, by decide +kernel⟩
    exact ⟨st, h, hr, (statements_print_back h).1⟩
  · have h : parse [Ascii.equals] =
        .ok { command := .system [Ascii.equals], operand := .empty } := by
      decide +kernel
    exact ⟨_, h, ((statements_print_back h).2.2 (by decide)).2.2⟩

end Statement

end Asm6502
