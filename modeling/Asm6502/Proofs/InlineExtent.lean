-- How far an inline expression reaches: to the last closing bracket before the
-- next `$`, whichever bracket that one closes. Laws: two texts are expanded one
-- by one if no expression of the first runs on into the second, and an
-- expression is replaced by the literal of its value exactly if no closing
-- bracket stands behind it. They hold whatever gives the values; one that refuses
-- unbalanced parentheses refuses the lines with a bracket behind the expression.
import Asm6502.Inline
import Asm6502.Inline.Eval
import Asm6502.Proofs.Except
import Asm6502.Proofs.RoundTrip

namespace Asm6502

namespace Inline

/-! ## The extent of an expression -/

theorem splitLastParen?_eq_none {t : Text} : splitLastParen? t = none ↔ Ascii.rightParen ∉ t := by
  induction t with
  | nil => simp [splitLastParen?]
  | cons b rest ih =>
    rw [splitLastParen?]
    split
    · rename_i h
      have hmem : Ascii.rightParen ∈ rest := by
        by_contra hno
        cases h.symm.trans (ih.2 hno)
      simp [hmem]
    · rename_i h
      have hno := ih.1 h
      by_cases hb : b = Ascii.rightParen
      · simp [hb]
      · simp [hb, Ne.symm hb, hno]

/-- The bracket that is found is the last one. -/
theorem splitLastParen?_eq_some {t before after : Text} :
    splitLastParen? t = some (before, after) ↔
      t = before ++ Ascii.rightParen :: after ∧ Ascii.rightParen ∉ after := by
  induction t generalizing before after with
  | nil => simp [splitLastParen?]
  | cons b rest ih =>
    rw [splitLastParen?]
    split
    · rename_i x y hxy
      obtain ⟨rfl, hy⟩ := ih.1 hxy
      constructor
      · intro h
        cases h
        exact ⟨rfl, hy⟩
      · rintro ⟨h, hafter⟩
        cases before with
        | nil =>
          obtain ⟨_, rfl⟩ := List.cons.inj h
          simp at hafter
        | cons b' before =>
          obtain ⟨rfl, hrest⟩ := List.cons.inj h
          cases hxy.symm.trans (ih.2 ⟨hrest, hafter⟩)
          rfl
    · rename_i hnone
      have hno := splitLastParen?_eq_none.1 hnone
      constructor
      · intro h
        split at h
        · rename_i hb
          cases h
          exact ⟨by rw [eq_of_beq hb]; rfl, hno⟩
        · cases h
      · rintro ⟨h, _⟩
        cases before with
        | nil =>
          obtain ⟨rfl, rfl⟩ := List.cons.inj h
          rfl
        | cons b' before =>
          obtain ⟨_, rfl⟩ := List.cons.inj h
          simp at hno

/-- The last closing bracket of a text that has one. -/
theorem exists_last_bracket {q : Text} (h : Ascii.rightParen ∈ q) :
    ∃ front back, q = front ++ Ascii.rightParen :: back ∧ Ascii.rightParen ∉ back := by
  cases hsplit : splitLastParen? q with
  | none => exact absurd h (splitLastParen?_eq_none.1 hsplit)
  | some found => exact ⟨found.1, found.2, splitLastParen?_eq_some.1 hsplit⟩

/-- Text without a closing bracket does not change which one is the last. -/
theorem splitLastParen?_append {z : Text} (h : Ascii.rightParen ∉ z) (y : Text) :
    splitLastParen? (y ++ z) =
      (splitLastParen? y).map fun found => (found.1, found.2 ++ z) := by
  cases hy : splitLastParen? y with
  | none =>
    have hno := splitLastParen?_eq_none.1 hy
    rw [Option.map_none, splitLastParen?_eq_none]
    simp [hno, h]
  | some found =>
    obtain ⟨rfl, hafter⟩ := splitLastParen?_eq_some.1 hy
    rw [Option.map_some, splitLastParen?_eq_some]
    simp [hafter, h]

/-- The text up to the next `$`. -/
def upToDollar (t : Text) : Text := t.takeWhile (· != Ascii.dollar)

theorem ne_dollar_of_not_mem {t : Text} (h : Ascii.dollar ∉ t) :
    ∀ b ∈ t, (b != Ascii.dollar) = true := by
  intro b hb
  exact bne_iff_ne.2 fun hd => h (hd ▸ hb)

theorem upToDollar_append {t : Text} (h : Ascii.dollar ∉ t) (r : Text) :
    upToDollar (t ++ r) = t ++ upToDollar r :=
  List.takeWhile_append_of_pos (ne_dollar_of_not_mem h)

/-- Up to the first `$`, an expression is found by its last closing bracket. -/
theorem expression?_append {t : Text} (h : Ascii.dollar ∉ t) (r : Text) :
    expression? (t ++ r) = (splitLastParen? (t ++ upToDollar r)).map fun found =>
      (found.1, found.2 ++ r.dropWhile (· != Ascii.dollar)) := by
  have hdrop : (t ++ r).dropWhile (· != Ascii.dollar) = r.dropWhile (· != Ascii.dollar) :=
    List.dropWhile_append_of_pos (ne_dollar_of_not_mem h)
  have htake := upToDollar_append h r
  unfold upToDollar at htake ⊢
  unfold expression?
  rw [htake, hdrop]

theorem expression?_eq_some {e after : Text} (he : Ascii.dollar ∉ e) (ha : Ascii.dollar ∉ after)
    (hlast : Ascii.rightParen ∉ after) :
    expression? (e ++ Ascii.rightParen :: after) = some (e, after) := by
  have hno : Ascii.dollar ∉ e ++ Ascii.rightParen :: after := by
    have hne : Ascii.dollar ≠ Ascii.rightParen := by decide
    simp [he, ha, hne]
  have hsplit : splitLastParen? (e ++ Ascii.rightParen :: after) = some (e, after) :=
    splitLastParen?_eq_some.2 ⟨rfl, hlast⟩
  have h := expression?_append hno []
  simpa [upToDollar, hsplit] using h

/-- An expression and the text behind it are the whole text, with the closing
bracket between them. -/
theorem eq_of_expression? {t e after : Text} (h : expression? t = some (e, after)) :
    t = e ++ Ascii.rightParen :: after := by
  unfold expression? at h
  obtain ⟨⟨x, a⟩, hxa, hpair⟩ := Option.map_eq_some_iff.1 h
  obtain ⟨hsplit, _⟩ := splitLastParen?_eq_some.1 hxa
  have htext : t.takeWhile (· != Ascii.dollar) ++ t.dropWhile (· != Ascii.dollar) = t :=
    List.takeWhile_append_dropWhile
  cases hpair
  rw [hsplit] at htext
  simpa using htext.symm

/-! ## Texts in a row -/

/-- No expression that starts in the first text runs on into the second. One that
is open where the first text ends would need a closing bracket in the second,
before its first `$`. -/
def Apart (t r : Text) : Prop :=
  ∀ x y, t = x ++ Ascii.dollar :: Ascii.leftParen :: y →
    Ascii.dollar ∈ y ∨ Ascii.rightParen ∉ upToDollar r

theorem Apart.of_append {x t r : Text} (h : Apart (x ++ t) r) : Apart t r := by
  intro x' y ht
  exact h (x ++ x') y (by simp [ht])

theorem Apart.text_append {t x r : Text} (h : Apart t r) (hd : Ascii.dollar ∉ x)
    (hp : Ascii.rightParen ∉ x) : Apart t (x ++ r) := by
  intro front y ht
  rw [upToDollar_append hd, List.mem_append]
  exact (h front y ht).imp_right fun hr => not_or.2 ⟨hp, hr⟩

/-- An expression that does not run on is found in the first text, or not at all. -/
theorem expression?_apart {y r : Text}
    (h : Ascii.dollar ∈ y ∨ Ascii.rightParen ∉ upToDollar r) :
    expression? (y ++ r) = (expression? y).map fun found => (found.1, found.2 ++ r) := by
  by_cases hy : Ascii.dollar ∈ y
  · obtain ⟨front, back, rfl, hfront⟩ := List.eq_append_cons_of_mem hy
    rw [List.append_assoc, expression?_append hfront, expression?_append hfront]
    simp [upToDollar, Function.comp_def]
  · have hr := h.resolve_left hy
    have hself := expression?_append hy []
    rw [List.append_nil] at hself
    rw [expression?_append hy, hself, splitLastParen?_append hr]
    simp [upToDollar, Function.comp_def]

theorem pieces_inline {y e after : Text} (h : expression? y = some (e, after)) :
    pieces (Ascii.dollar :: Ascii.leftParen :: y) = .inline e :: pieces after := by
  rw [pieces]
  simp only [List.head?_cons, beq_self_eq_true, Bool.and_self, if_true, List.tail_cons]
  split
  · rename_i hsome
    cases h.symm.trans hsome
    rfl
  · rename_i hnone
    cases h.symm.trans hnone

theorem pieces_unclosed {y : Text} (h : expression? y = none) :
    pieces (Ascii.dollar :: Ascii.leftParen :: y) =
      .byte Ascii.dollar :: pieces (Ascii.leftParen :: y) := by
  rw [pieces]
  simp only [List.head?_cons, beq_self_eq_true, Bool.and_self, if_true, List.tail_cons]
  split
  · rename_i hsome
    cases h.symm.trans hsome
  · rfl

theorem pieces_byte {b : UInt8} {rest : Text}
    (h : b ≠ Ascii.dollar ∨ rest.head? ≠ some Ascii.leftParen) :
    pieces (b :: rest) = .byte b :: pieces rest := by
  have hno : ¬ (b == Ascii.dollar && rest.head? == some Ascii.leftParen) = true := by
    simpa [Decidable.or_iff_not_imp_left] using h
  rw [pieces, if_neg hno]

/-- Every text is empty, or starts with a byte of its own or with an expression. -/
@[elab_as_elim]
theorem pieces_induction {motive : Text → Prop} (nil : motive [])
    (byte : ∀ b rest, pieces (b :: rest) = .byte b :: pieces rest → motive rest →
      motive (b :: rest))
    (inline : ∀ e after,
      pieces (Ascii.dollar :: Ascii.leftParen :: (e ++ Ascii.rightParen :: after)) =
        .inline e :: pieces after → motive after →
      motive (Ascii.dollar :: Ascii.leftParen :: (e ++ Ascii.rightParen :: after)))
    (t : Text) : motive t := by
  induction t using pieces.induct with
  | case1 => exact nil
  | case2 b rest hopen e after hfound hlt ih =>
    obtain ⟨rfl, y, rfl⟩ : b = Ascii.dollar ∧ ∃ y, rest = Ascii.leftParen :: y := by
      simpa [List.head?_eq_some_iff] using hopen
    rw [List.tail_cons] at hfound
    have hpieces := pieces_inline hfound
    rw [eq_of_expression? hfound] at hpieces ⊢
    exact inline e after hpieces ih
  | case3 b rest hopen hnone ih =>
    obtain ⟨rfl, y, rfl⟩ : b = Ascii.dollar ∧ ∃ y, rest = Ascii.leftParen :: y := by
      simpa [List.head?_eq_some_iff] using hopen
    exact byte _ _ (pieces_unclosed hnone) ih
  | case4 b rest hopen ih =>
    have hbyte : b ≠ Ascii.dollar ∨ rest.head? ≠ some Ascii.leftParen := by
      simpa [Decidable.or_iff_not_imp_left] using hopen
    exact byte b rest (pieces_byte hbyte) ih

/-- Texts that are apart have their pieces one behind the other. -/
theorem pieces_append {t r : Text} (h : Apart t r) (hr : r.head? ≠ some Ascii.leftParen) :
    pieces (t ++ r) = pieces t ++ pieces r := by
  fun_induction pieces t with
  | case1 => rfl
  | case2 b rest hopen e after hfound hlt ih =>
    obtain ⟨rfl, y, rfl⟩ : b = Ascii.dollar ∧ ∃ y, rest = Ascii.leftParen :: y := by
      simpa [List.head?_eq_some_iff] using hopen
    have hfound' : expression? (y ++ r) = some (e, after ++ r) := by
      rw [expression?_apart (h [] y rfl), show expression? y = _ from hfound]
      rfl
    have hafter : Apart after r := by
      have hy := eq_of_expression? hfound
      rw [List.tail_cons] at hy
      rw [hy] at h
      exact Apart.of_append (x := Ascii.dollar :: Ascii.leftParen :: e ++ [Ascii.rightParen])
        (by simpa using h)
    rw [List.cons_append, List.cons_append, pieces_inline hfound', ih hafter]
    rfl
  | case3 b rest hopen hnone ih =>
    obtain ⟨rfl, y, rfl⟩ : b = Ascii.dollar ∧ ∃ y, rest = Ascii.leftParen :: y := by
      simpa [List.head?_eq_some_iff] using hopen
    have hnone' : expression? (y ++ r) = none := by
      rw [expression?_apart (h [] y rfl), show expression? y = _ from hnone]
      rfl
    have hrest : Apart (Ascii.leftParen :: y) r := Apart.of_append (x := [Ascii.dollar]) h
    rw [List.cons_append, List.cons_append, pieces_unclosed hnone', ← List.cons_append, ih hrest]
    rfl
  | case4 b rest hopen ih =>
    have hbyte : b ≠ Ascii.dollar ∨ (rest ++ r).head? ≠ some Ascii.leftParen := by
      cases rest with
      | nil => exact .inr hr
      | cons c rest => simpa [Decidable.or_iff_not_imp_left] using hopen
    have hrest : Apart rest r := Apart.of_append (x := [b]) h
    rw [List.cons_append, pieces_byte hbyte, ih hrest]
    rfl

/-- If texts are not apart, an expression that starts in the first one takes in all
that stands between them. -/
theorem exists_inline_of_not_apart {t r : Text} (h : ¬ Apart t r) {mid : Text}
    (hmid : Ascii.dollar ∉ mid) : ∃ e, Piece.inline e ∈ pieces (t ++ (mid ++ r)) ∧ mid <:+: e := by
  unfold Apart at h
  push Not at h
  obtain ⟨x, y, rfl, hy, hr⟩ := h
  obtain ⟨inside, after, hsplit, hlast⟩ := exists_last_bracket hr
  have hclear : Ascii.dollar ∉ y ++ mid := by simp [hy, hmid]
  have hlonger : splitLastParen? (y ++ mid ++ upToDollar r) = some (y ++ mid ++ inside, after) :=
    splitLastParen?_eq_some.2 ⟨by simp [hsplit], hlast⟩
  have hfound : expression? (y ++ mid ++ r) =
      some (y ++ mid ++ inside, after ++ r.dropWhile (· != Ascii.dollar)) := by
    rw [expression?_append hclear, hlonger]
    rfl
  have hx : Apart x (Ascii.dollar :: Ascii.leftParen :: (y ++ mid ++ r)) := by
    intro _ _ _
    exact .inr (by simp [upToDollar])
  have hne : Ascii.dollar ≠ Ascii.leftParen := by decide
  have htext : x ++ Ascii.dollar :: Ascii.leftParen :: y ++ (mid ++ r) =
      x ++ Ascii.dollar :: Ascii.leftParen :: (y ++ mid ++ r) := by
    simp
  refine ⟨y ++ mid ++ inside, ?_, y, inside, rfl⟩
  rw [htext, pieces_append hx (by simp [hne]), pieces_inline hfound]
  simp

/-! ## Expansion -/

variable {evaluate : Evaluator} {line : Int}

/-- What stands behind is joined first, since its errors count first. -/
theorem joinAll_cons (first : Except Error Text) (rest : List (Except Error Text)) :
    joinAll (first :: rest) = joinAll rest >>= fun after => first.map (· ++ after) := by
  cases h : joinAll rest with
  | error e => simp [joinAll, h, bind, Except.bind]
  | ok after => cases first <;> simp [joinAll, h, bind, Except.bind, Except.map]

theorem joinAll_append (front back : List (Except Error Text)) :
    joinAll (front ++ back) =
      joinAll back >>= fun after => (joinAll front).map (· ++ after) := by
  induction front with
  | nil =>
    rw [List.nil_append, joinAll]
    cases joinAll back <;> rfl
  | cons first front ih =>
    rw [List.cons_append, joinAll_cons, joinAll_cons, ih]
    cases joinAll back with
    | error e => rfl
    | ok after =>
      cases joinAll front with
      | error e => rfl
      | ok text => cases first <;> simp [Except.map, bind, Except.bind]

theorem expand_nil : expand evaluate line [] = .ok [] := by
  unfold expand
  rw [pieces]
  rfl

/-- A text is expanded piece by piece. -/
theorem expand_of_pieces {t rest : Text} {piece : Piece} (h : pieces t = piece :: pieces rest) :
    expand evaluate line t = expand evaluate line rest >>= fun after =>
      (piece.expand evaluate line).map (· ++ after) := by
  unfold expand
  rw [h, List.map_cons, joinAll_cons]

theorem expand_byte {b : UInt8} {rest : Text} (h : pieces (b :: rest) = .byte b :: pieces rest) :
    expand evaluate line (b :: rest) = (expand evaluate line rest).map (b :: ·) := by
  rw [expand_of_pieces h]
  cases expand evaluate line rest <;> rfl

theorem expand_append {t r : Text} (h : Apart t r) (hr : r.head? ≠ some Ascii.leftParen) :
    expand evaluate line (t ++ r) =
      expand evaluate line r >>= fun after =>
        (expand evaluate line t).map (· ++ after) := by
  unfold expand
  rw [pieces_append h hr, List.map_append, joinAll_append]

/-- Text without a `$` is kept. -/
theorem expand_text_append {t : Text} (h : Ascii.dollar ∉ t) (r : Text) :
    expand evaluate line (t ++ r) = (expand evaluate line r).map (t ++ ·) := by
  induction t with
  | nil =>
    rw [List.nil_append]
    cases expand evaluate line r <;> rfl
  | cons b t ih =>
    obtain ⟨hb, ht⟩ := not_or.1 (mt List.mem_cons.2 h)
    rw [List.cons_append, expand_byte (pieces_byte (.inl (Ne.symm hb))), ih ht]
    cases expand evaluate line r <;> rfl

theorem expand_of_not_mem {t : Text} (h : Ascii.dollar ∉ t) :
    expand evaluate line t = .ok t := by
  have htext : expand evaluate line (t ++ []) = (expand evaluate line []).map (t ++ ·) :=
    expand_text_append h []
  simpa [expand_nil, Except.map] using htext

theorem Piece.expand_inline (e : Text) :
    (Piece.inline e).expand evaluate line =
      ((evaluate line e).mapError (Error.mk e)).map literal := by
  cases h : evaluate line e <;> simp [Piece.expand, h, Except.mapError, Except.map]

/-- An expression with no closing bracket behind it is evaluated. -/
theorem expand_inline {e after : Text} (he : Ascii.dollar ∉ e) (ha : Ascii.dollar ∉ after)
    (hlast : Ascii.rightParen ∉ after) :
    expand evaluate line
        (Ascii.dollar :: Ascii.leftParen :: (e ++ Ascii.rightParen :: after)) =
      ((evaluate line e).mapError (Error.mk e)).map (literal · ++ after) := by
  rw [expand_of_pieces (pieces_inline (expression?_eq_some he ha hlast)), expand_of_not_mem ha,
    Piece.expand_inline]
  cases evaluate line e <;> rfl

/-! ## Expressions that have values -/

/-- Every expression of a text has a value. -/
def Valued (evaluate : Evaluator) (line : Int) (t : Text) : Prop :=
  ∀ e, Piece.inline e ∈ pieces t → ∃ v, evaluate line e = .ok v

theorem joinAll_eq_error {xs : List (Except Error Text)} {e : Error} (h : joinAll xs = .error e) :
    .error e ∈ xs := by
  induction xs with
  | nil => cases h
  | cons first rest ih =>
    rw [joinAll_cons] at h
    rcases Except.bind_eq_error.1 h with hrest | ⟨after, _, hfirst⟩
    · exact List.mem_cons_of_mem _ (ih hrest)
    · rw [Except.map_eq_error.1 hfirst]
      exact List.mem_cons_self

theorem joinAll_eq_ok {xs : List (Except Error Text)} {z : Text} (h : joinAll xs = .ok z) :
    ∀ x ∈ xs, ∃ y, x = .ok y := by
  induction xs generalizing z with
  | nil => simp
  | cons first rest ih =>
    rw [joinAll_cons] at h
    obtain ⟨after, hrest, hfirst⟩ := Except.bind_eq_ok.1 h
    obtain ⟨y, hy, _⟩ := Except.map_eq_ok.1 hfirst
    intro x hx
    rcases List.mem_cons.1 hx with rfl | hx
    · exact ⟨y, hy⟩
    · exact ih hrest x hx

/-- A text that cannot be expanded has an expression without a value. -/
theorem expand_eq_error {t : Text} {e : Error} (h : expand evaluate line t = .error e) :
    Piece.inline e.expression ∈ pieces t ∧
      evaluate line e.expression = .error e.fault := by
  obtain ⟨piece, hmem, hpiece⟩ := List.mem_map.1 (joinAll_eq_error h)
  cases piece with
  | byte b => cases hpiece
  | inline expression =>
    rw [Piece.expand_inline, Except.map_eq_error, Except.mapError_eq_error] at hpiece
    obtain ⟨fault, hfault, rfl⟩ := hpiece
    exact ⟨hmem, hfault⟩

/-- A text can be expanded exactly if all its expressions have values. -/
theorem expand_isOk_iff {t : Text} :
    (∃ z, expand evaluate line t = .ok z) ↔ Valued evaluate line t := by
  constructor
  · rintro ⟨z, hz⟩ e he
    obtain ⟨y, hy⟩ := joinAll_eq_ok hz _ (List.mem_map_of_mem he)
    rw [Piece.expand_inline] at hy
    obtain ⟨v, hv, _⟩ := Except.map_eq_ok.1 hy
    exact ⟨v, Except.mapError_eq_ok.1 hv⟩
  · intro h
    cases hz : expand evaluate line t with
    | ok z => exact ⟨z, rfl⟩
    | error e =>
      obtain ⟨hmem, hfault⟩ := expand_eq_error hz
      obtain ⟨v, hv⟩ := h _ hmem
      cases hv.symm.trans hfault

/-! ## Literals -/

/-- The literal of a value up to 255 is read as a byte, any other as a word. -/
theorem parse_literal (w : UInt16) :
    Expr.parse (literal w) = .ok (if w ≤ 0xFF then .byte w.toUInt8 else .word w) := by
  unfold literal
  split
  · rw [Expr.parse_hex (by simp [hexByte]) (by simp [hexByte]) fun _ => isHexDigit_of_mem_hexByte]
    rw [Grammar.hexLiteral, numberOf_hexByte, if_pos (by simp [hexByte]), UInt8.ofNat_toNat]
  · rw [Expr.parse_hex (by simp [hexWord]) (by simp [hexWord]) fun _ => isHexDigit_of_mem_hexWord]
    rw [Grammar.hexLiteral, numberOf_hexWord, if_neg (by simp [hexWord]), UInt16.ofNat_toNat]

/-- A literal holds only the `$` and digits. -/
theorem not_mem_literal {b : UInt8} (hd : b ≠ Ascii.dollar) (hx : isHexDigit b = false)
    (w : UInt16) : b ∉ literal w := by
  unfold literal
  intro h
  rcases List.mem_cons.1 h with h | h
  · exact hd h
  · split at h
    · rw [isHexDigit_of_mem_hexByte h] at hx
      cases hx
    · rw [isHexDigit_of_mem_hexWord h] at hx
      cases hx

/-! ## One expression on a line -/

/-- A line with one inline expression. -/
def withInline (p e q : Text) : Text := p ++ ascii "$(" ++ e ++ ascii ")" ++ q

/-- An expression with no closing bracket behind it is evaluated, whatever stands
in front of it. -/
theorem expand_withInline {p e q : Text} (hp : Ascii.dollar ∉ p) (he : Ascii.dollar ∉ e)
    (hq : Ascii.dollar ∉ q) (hlast : Ascii.rightParen ∉ q) :
    expand evaluate line (withInline p e q) =
      ((evaluate line e).mapError (Error.mk e)).map fun w => p ++ literal w ++ q := by
  have htext : withInline p e q =
      p ++ Ascii.dollar :: Ascii.leftParen :: (e ++ Ascii.rightParen :: q) := by
    have hopen : ascii "$(" = [Ascii.dollar, Ascii.leftParen] := by decide
    have hclose : ascii ")" = [Ascii.rightParen] := by decide
    simp [withInline, hopen, hclose]
  rw [htext, expand_text_append hp, expand_inline he hq hlast]
  cases evaluate line e with
  | error fault => rfl
  | ok w => simp [Except.mapError, Except.map]

/-- With a closing bracket behind it, the expression runs on to the last one. -/
theorem expand_withInline_last {p e front back : Text} (hp : Ascii.dollar ∉ p)
    (he : Ascii.dollar ∉ e) (hfront : Ascii.dollar ∉ front) (hback : Ascii.dollar ∉ back)
    (hlast : Ascii.rightParen ∉ back) :
    expand evaluate line (withInline p e (front ++ Ascii.rightParen :: back)) =
      ((evaluate line (e ++ Ascii.rightParen :: front)).mapError
        (Error.mk (e ++ Ascii.rightParen :: front))).map fun w => p ++ literal w ++ back := by
  have hclose : ascii ")" = [Ascii.rightParen] := by decide
  have hmoved : withInline p e (front ++ Ascii.rightParen :: back) =
      withInline p (e ++ Ascii.rightParen :: front) back := by
    simp [withInline, hclose]
  have hlonger : Ascii.dollar ∉ e ++ Ascii.rightParen :: front := by
    have hne : Ascii.dollar ≠ Ascii.rightParen := by decide
    simp [he, hfront, hne]
  rw [hmoved, expand_withInline hp hlonger hback hlast]

/-! ## Parentheses that are refused -/

/-- The number of open parentheses behind a text, if it closes none that is not
open. -/
def openAfter? (opened : Nat) : Text → Option Nat
  | [] => some opened
  | b :: rest =>
    if b == Ascii.leftParen then openAfter? (opened + 1) rest
    else if b == Ascii.rightParen then
      if opened = 0 then none else openAfter? (opened - 1) rest
    else openAfter? opened rest

/-- Every parenthesis is closed behind where it is opened. -/
def Balanced (t : Text) : Prop := openAfter? 0 t = some 0

instance (t : Text) : Decidable (Balanced t) := inferInstanceAs (Decidable (_ = some 0))

theorem openAfter?_append (opened : Nat) (front back : Text) :
    openAfter? opened (front ++ back) =
      (openAfter? opened front).bind fun now => openAfter? now back := by
  fun_induction openAfter? opened front with
  | case1 opened => rfl
  | case2 opened b rest hb ih =>
    rw [List.cons_append, openAfter?, if_pos hb, ih]
  | case3 b rest hb hb' =>
    rw [List.cons_append, openAfter?, if_neg hb, if_pos hb', if_pos rfl]
    rfl
  | case4 opened b rest hb hb' hzero ih =>
    rw [List.cons_append, openAfter?, if_neg hb, if_pos hb', if_neg hzero, ih]
  | case5 opened b rest hb hb' ih =>
    rw [List.cons_append, openAfter?, if_neg hb, if_neg hb', ih]

/-- One more parenthesis than there are is closed. -/
theorem Balanced.not_balanced_close {e : Text} (h : Balanced e) (front : Text) :
    ¬ Balanced (e ++ Ascii.rightParen :: front) := by
  have hnone : openAfter? 0 (Ascii.rightParen :: front) = none := rfl
  unfold Balanced at h ⊢
  rw [openAfter?_append, h, Option.bind_some, hnone]
  simp

/-- A text without quotes, comments and an end: all its parentheses count. -/
def Bare (t : Text) : Prop :=
  ∀ b ∈ [Ascii.quote, Ascii.apostrophe, Ascii.hash, Ascii.null], b ∉ t

instance (t : Text) : Decidable (Bare t) := List.decidableBAll (· ∉ t) _

theorem bare_append {front back : Text} : Bare (front ++ back) ↔ Bare front ∧ Bare back := by
  unfold Bare
  simp only [List.mem_append, not_or]
  exact ⟨fun h => ⟨fun b hb => (h b hb).1, fun b hb => (h b hb).2⟩,
    fun h b hb => ⟨h.1 b hb, h.2 b hb⟩⟩

/-- What is assumed of an interpreter: it refuses every expression whose
parentheses are not balanced. In quotes and comments they do not count. -/
structure Interpreter.RefusesUnbalanced (interpreter : Interpreter) : Prop where
  refuses : ∀ e, Bare e → ¬ Balanced e → ∀ given,
    ∃ complaint, interpreter.run given (programOf e) = .error complaint

/-- An interpreter that looks at the parentheses first. -/
def Interpreter.checked (interpreter : Interpreter) : Interpreter where
  run given program :=
    if Bare program ∧ ¬ Balanced program then
      .error { phase := .syntactic, text := ascii "unbalanced parentheses" }
    else interpreter.run given program

theorem bare_programOf {e : Text} (h : Bare e) : Bare (programOf e) := by
  have hname : Bare (resultName ++ [Ascii.equals]) := by decide
  have hend : Bare [Ascii.newline] := by decide
  have hprogram : programOf e = resultName ++ [Ascii.equals] ++ e ++ [Ascii.newline] := by
    simp [programOf]
  rw [hprogram, bare_append, bare_append]
  exact ⟨⟨hname, h⟩, hend⟩

theorem balanced_programOf {e : Text} : Balanced (programOf e) ↔ Balanced e := by
  have hname : openAfter? 0 (resultName ++ [Ascii.equals]) = some 0 := by decide
  have hend (opened : Nat) : openAfter? opened [Ascii.newline] = some opened := rfl
  have hprogram : programOf e = resultName ++ [Ascii.equals] ++ e ++ [Ascii.newline] := by
    simp [programOf]
  unfold Balanced
  rw [hprogram, openAfter?_append, openAfter?_append, hname, Option.bind_some]
  cases openAfter? 0 e with
  | none => simp
  | some opened => simp [hend]

theorem Interpreter.checked_refusesUnbalanced (interpreter : Interpreter) :
    interpreter.checked.RefusesUnbalanced := by
  refine ⟨fun e hbare hno given => ?_⟩
  have hboth : Bare (programOf e) ∧ ¬ Balanced (programOf e) :=
    ⟨bare_programOf hbare, mt balanced_programOf.1 hno⟩
  exact ⟨_, if_pos hboth⟩

section Refused

variable {interpreter : Interpreter} {predefines : Predefines} {e : Text} {v : UInt16}

/-- The program of an expression that has a value has run. -/
theorem run_of_evaluate (h : Inline.evaluate interpreter predefines line e = .ok v) :
    ∃ given found, bindings predefines = .ok given ∧
      interpreter.run (environment given line) (programOf e) = .ok found := by
  unfold Inline.evaluate at h
  obtain ⟨given, hgiven, h⟩ := Except.bind_eq_ok.1 h
  obtain ⟨found, hfound, _⟩ := Except.bind_eq_ok.1 h
  exact ⟨given, found, hgiven, Except.mapError_eq_ok.1 hfound⟩

/-- An expression that has a value has none with a bracket and more behind it. -/
theorem evaluate_runs_on (hrefuses : interpreter.RefusesUnbalanced) (he : Bare e)
    {front : Text} (hfront : Bare front)
    (hv : Inline.evaluate interpreter predefines line e = .ok v) :
    ∃ complaint, Inline.evaluate interpreter predefines line (e ++ Ascii.rightParen :: front) =
      .error (.program complaint) := by
  obtain ⟨given, found, hgiven, hfound⟩ := run_of_evaluate hv
  have hbalanced : Balanced e := by
    by_contra hno
    obtain ⟨complaint, hcomplaint⟩ := hrefuses.refuses e he hno (environment given line)
    cases hfound.symm.trans hcomplaint
  have hclose : Bare ([Ascii.rightParen] ++ front) := bare_append.2 ⟨by decide, hfront⟩
  have hbare : Bare (e ++ Ascii.rightParen :: front) := bare_append.2 ⟨he, hclose⟩
  obtain ⟨complaint, hcomplaint⟩ := hrefuses.refuses _ hbare (hbalanced.not_balanced_close front)
    (environment given line)
  refine ⟨complaint, ?_⟩
  unfold Inline.evaluate
  rw [hgiven]
  dsimp only [bind, Except.bind]
  rw [hcomplaint]
  rfl

/-- An expression is evaluated on its own exactly if no closing bracket stands
behind it on the line. If it has the value `v`, then `p$(e)q` is expanded to `p`,
the literal of `v` and `q` if `q` has no closing bracket, and to nothing of the
kind if it has one: then the text up to the last one is evaluated instead of `e`.
If unbalanced parentheses are refused, such a line is refused, unless quotes or
comments hide some of them. The literal is read back as a byte or a word. -/
theorem inline_expression_stands_alone_iff {p q : Text} (hp : Ascii.dollar ∉ p)
    (he : Ascii.dollar ∉ e) (hq : Ascii.dollar ∉ q)
    (hv : Inline.evaluate interpreter predefines line e = .ok v) :
    (expand (Inline.evaluate interpreter predefines) line (withInline p e q) =
      .ok (p ++ literal v ++ q) ↔ Ascii.rightParen ∉ q) ∧
    (∀ front back, q = front ++ Ascii.rightParen :: back → Ascii.rightParen ∉ back →
      expand (Inline.evaluate interpreter predefines) line (withInline p e q) =
        ((Inline.evaluate interpreter predefines line (e ++ Ascii.rightParen :: front)).mapError
          (Error.mk (e ++ Ascii.rightParen :: front))).map fun w => p ++ literal w ++ back) ∧
    (interpreter.RefusesUnbalanced → Bare e → Bare q →
      ∀ front back, q = front ++ Ascii.rightParen :: back → Ascii.rightParen ∉ back →
        ∃ complaint, expand (Inline.evaluate interpreter predefines) line (withInline p e q) =
          .error ⟨e ++ Ascii.rightParen :: front, .program complaint⟩) ∧
    Expr.parse (literal v) = .ok (if v ≤ 0xFF then .byte v.toUInt8 else .word v) := by
  have hlonger : ∀ front back, q = front ++ Ascii.rightParen :: back →
      Ascii.rightParen ∉ back →
      expand (Inline.evaluate interpreter predefines) line (withInline p e q) =
        ((Inline.evaluate interpreter predefines line (e ++ Ascii.rightParen :: front)).mapError
          (Error.mk (e ++ Ascii.rightParen :: front))).map fun w => p ++ literal w ++ back := by
    rintro front back rfl hlast
    simp only [List.mem_append, List.mem_cons, not_or] at hq
    exact expand_withInline_last hp he hq.1 hq.2.2 hlast
  refine ⟨⟨?_, ?_⟩, hlonger, ?_, parse_literal v⟩
  · intro h hmem
    obtain ⟨front, back, hsplit, hlast⟩ := exists_last_bracket hmem
    rw [hlonger front back hsplit hlast] at h
    obtain ⟨w, _, htext⟩ := Except.map_eq_ok.1 h
    -- The bracket would have to stand in the literal of the longer expression.
    have hliteral : literal w = literal v ++ (front ++ [Ascii.rightParen]) := by
      subst hsplit
      have hcut : p ++ literal w ++ back =
          p ++ (literal v ++ (front ++ [Ascii.rightParen])) ++ back := by
        simpa using htext
      exact List.append_cancel_left (List.append_cancel_right hcut)
    apply not_mem_literal (b := Ascii.rightParen) (by decide) (by decide) w
    rw [hliteral]
    simp
  · intro hlast
    rw [expand_withInline hp he hq hlast, hv]
    rfl
  · intro hrefuses hbare hbareq front back hsplit hlast
    have hfront : Bare front := by
      rw [hsplit] at hbareq
      exact (bare_append.1 hbareq).1
    obtain ⟨complaint, hcomplaint⟩ := evaluate_runs_on hrefuses hbare hfront hv
    refine ⟨complaint, ?_⟩
    rw [hlonger front back hsplit hlast, hcomplaint]
    rfl

end Refused

/-- The expression `(1+2)*LINENO` on line 7, with and without a bracket behind it. -/
theorem tripled_stands_alone :
    Interpreter.builtIn.checked.RefusesUnbalanced ∧
    Inline.evaluate Interpreter.builtIn.checked [] 7 (ascii "(1+2)*LINENO") = .ok 21 ∧
    expand (Inline.evaluate Interpreter.builtIn.checked []) 7 (ascii " A=$((1+2)*LINENO) X=(1") =
      .ok (ascii " A=$15 X=(1") ∧
    ∃ complaint, expand (Inline.evaluate Interpreter.builtIn.checked []) 7
      (ascii " A=($((1+2)*LINENO)+Y)") = .error ⟨ascii "(1+2)*LINENO)+Y", .program complaint⟩ := by
  have hrefuses := Interpreter.builtIn.checked_refusesUnbalanced
  have hv : Inline.evaluate Interpreter.builtIn.checked [] 7 (ascii "(1+2)*LINENO") = .ok 21 := by
    decide +kernel
  refine ⟨hrefuses, hv, ?_, ?_⟩
  · have halone := (inline_expression_stands_alone_iff (p := ascii " A=") (q := ascii " X=(1")
      (by decide) (by decide) (by decide) hv).1.2 (by decide)
    have htext : withInline (ascii " A=") (ascii "(1+2)*LINENO") (ascii " X=(1") =
        ascii " A=$((1+2)*LINENO) X=(1" := by
      decide +kernel
    have hresult : ascii " A=" ++ literal 21 ++ ascii " X=(1" = ascii " A=$15 X=(1" := by
      decide +kernel
    rwa [htext, hresult] at halone
  · obtain ⟨complaint, hrefused⟩ :=
      (inline_expression_stands_alone_iff (p := ascii " A=(") (q := ascii "+Y)")
        (by decide) (by decide) (by decide) hv).2.2.1 hrefuses (by decide) (by decide)
        (ascii "+Y") [] (by decide) (by decide)
    have htext : withInline (ascii " A=(") (ascii "(1+2)*LINENO") (ascii "+Y)") =
        ascii " A=($((1+2)*LINENO)+Y)" := by
      decide +kernel
    have hinside : ascii "(1+2)*LINENO" ++ Ascii.rightParen :: ascii "+Y" =
        ascii "(1+2)*LINENO)+Y" := by
      decide +kernel
    rw [htext, hinside] at hrefused
    exact ⟨complaint, hrefused⟩

end Inline

end Asm6502
