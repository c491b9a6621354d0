-- Strings on a line. The operand lexer takes a quote behind a backslash for a
-- part of the string, but the scanners of the line count every quote. Law: a
-- string of data survives the line exactly if they stop nowhere in it, that is,
-- if every blank and every `;;` of it stands behind an even number of quotes.
-- Otherwise the line is refused, since its string is cut off.
import Asm6502.Proofs.LineScanning
import Asm6502.Proofs.RoundTrip

namespace Asm6502

/-! ## Operands -/

namespace Expr

theorem newline_not_mem_escape {s : Text} (h : Ascii.newline ∉ s) : Ascii.newline ∉ escape s := by
  induction s with
  | nil => simp [escape]
  | cons b s ih =>
    obtain ⟨hb, hs⟩ := not_or.1 (mt List.mem_cons.2 h)
    rw [escape]
    split
    · have hslash : Ascii.newline ≠ Ascii.backslash := by decide
      simp [hslash, hb, ih hs]
    · simp [hb, ih hs]

/-- What stands in front of the closing quote is a string without an end. -/
theorem cut_of_isPrefix {s w : Text} (h : w <+: escape s) :
    Token.stringBody w = none ∧ endsQuoted true w = true := by
  induction s generalizing w with
  | nil =>
    rw [escape, List.prefix_nil] at h
    subst h
    exact ⟨rfl, rfl⟩
  | cons b s ih =>
    rw [escape] at h
    split at h
    · rename_i hb
      -- A cut behind the backslash leaves the backslash alone.
      rcases List.prefix_cons_iff.1 h with rfl | ⟨w, rfl, hback⟩
      · exact ⟨rfl, rfl⟩
      rcases List.prefix_cons_iff.1 hback with rfl | ⟨w, rfl, hrest⟩
      · decide
      have hn : b ≠ Ascii.newline := by
        rintro rfl
        revert hb
        decide
      obtain ⟨hbody, hends⟩ := ih hrest
      have hq : Ascii.backslash ≠ Ascii.quote := by decide
      refine ⟨by rw [Token.stringBody_backslash hn, hbody]; rfl, ?_⟩
      rw [endsQuoted.eq_def]
      simpa [hq] using hends
    · rename_i hb
      obtain ⟨hq, hs⟩ : b ≠ Ascii.quote ∧ b ≠ Ascii.backslash := by simpa using hb
      rcases List.prefix_cons_iff.1 h with rfl | ⟨w, rfl, hrest⟩
      · exact ⟨rfl, rfl⟩
      obtain ⟨hbody, hends⟩ := ih hrest
      refine ⟨by rw [Token.stringBody_plain hq hs, hbody]; rfl, ?_⟩
      rw [endsQuoted.eq_def]
      simpa [hq, hs] using hends

theorem parse_string (s : Text) : parse (Expr.string s).render = .ok (.string s) := by
  have hnext : Token.next (Expr.string s).render = some (.string s, []) := by
    have hread : Token.next ((Token.string s).render ++ []) = some (.string s, []) :=
      Token.next_render trivial trivial
    rwa [List.append_nil] at hread
  exact parse_of_token hnext (by rw [Grammar.term]) rfl

theorem parse_cut {s w : Text} (h : w <+: escape s) :
    parse (Ascii.quote :: w) = .error (.unterminatedString (Ascii.quote :: w)) := by
  obtain ⟨hbody, hends⟩ := cut_of_isPrefix h
  have hnext : Token.next (Ascii.quote :: w) = none := by simp [Token.next, hbody]
  have hscan : Token.scan (Ascii.quote :: w) = none := by
    rw [Token.scan]
    split
    · rfl
    · rename_i hsome
      cases hnext.symm.trans hsome
  have hrefusal : endsQuoted false (Ascii.quote :: w) = true := by
    rw [endsQuoted.eq_def]
    simpa using hends
  simp [parse, hscan, refusal, hrefusal]

end Expr

/-! ## Statements -/

namespace Statement

/-- A statement that emits a string. -/
def stringData (s : Text) : Statement := ⟨.system (ascii "?"), .string s⟩

/-- The word of a statement that emits data, up to its first quote. -/
def dataStart : Text := ascii "?=\""

theorem sides?_data {w : Text} (h : Ascii.newline ∉ w) :
    sides? (dataStart ++ w) = some (ascii "?", Ascii.quote :: w) := by
  have htake : (dataStart ++ w).takeWhile (· != Ascii.equals) = ascii "?" := rfl
  have hdrop : (dataStart ++ w).dropWhile (· != Ascii.equals) =
    Ascii.equals :: Ascii.quote :: w := rfl
  have hq : Ascii.newline ≠ Ascii.quote := by decide
  have hempty : (ascii "?").isEmpty = false := rfl
  simp [sides?, htake, hdrop, hempty, hq, h]

theorem parse_data {w : Text} (h : Ascii.newline ∉ w) :
    parse (dataStart ++ w) =
      (Expr.parse (Ascii.quote :: w)).mapError LineError.operand >>= fun operand =>
        .ok ⟨.system (ascii "?"), operand⟩ := by
  have hcommand : Expr.parse (ascii "?") = .ok (.system (ascii "?")) := by decide +kernel
  rw [parse, sides?_data h]
  simp only [ofSides, hcommand]
  rfl

end Statement

/-! ## Scanners that count quotes -/

namespace Line

/-- Whether a scanner of lines that stops at `stop` outside quotes finds no such
place in a text. It takes every quote for the end or the start of a string. -/
def Passes (stop : UInt8 → Text → Bool) (quoted : Bool) (s : Text) : Prop :=
  ∀ before b after, s = before ++ b :: after → stop b after = true →
    (before.count Ascii.quote % 2 = 0 ↔ quoted = true)

theorem passes_nil (stop : UInt8 → Text → Bool) (quoted : Bool) : Passes stop quoted [] := by
  intro before b after h
  simp at h

theorem passes_cons {stop : UInt8 → Text → Bool} {quoted : Bool} {b : UInt8} {s : Text} :
    Passes stop quoted (b :: s) ↔
      (stop b s = true → quoted = true) ∧
        Passes stop (if b = Ascii.quote then !quoted else quoted) s := by
  constructor
  · intro h
    refine ⟨fun hstop => (h [] b s rfl hstop).1 rfl, ?_⟩
    intro before c after hs hstop
    have hc := h (b :: before) c after (by simp [hs]) hstop
    rw [List.count_cons] at hc
    by_cases hb : b = Ascii.quote
    · subst hb
      simp only [beq_self_eq_true, if_true] at hc ⊢
      cases quoted <;> simp at hc ⊢ <;> omega
    · simpa [hb] using hc
  · rintro ⟨hfirst, hrest⟩ before c after hs hstop
    cases before with
    | nil =>
      obtain ⟨rfl, rfl⟩ := List.cons.inj hs
      simp [hfirst hstop]
    | cons b' before =>
      obtain ⟨rfl, rfl⟩ := List.cons.inj hs
      have hc := hrest before c after rfl hstop
      rw [List.count_cons]
      by_cases hb : b = Ascii.quote
      · subst hb
        simp only [beq_self_eq_true, if_true] at hc ⊢
        cases quoted <;> simp at hc ⊢ <;> omega
      · simpa [hb] using hc

instance decidablePasses (stop : UInt8 → Text → Bool) :
    (quoted : Bool) → (s : Text) → Decidable (Passes stop quoted s)
  | quoted, [] => isTrue (passes_nil stop quoted)
  | quoted, b :: s =>
    have := decidablePasses stop (if b = Ascii.quote then !quoted else quoted) s
    decidable_of_iff _ passes_cons.symm

/-- A blank ends a word. -/
def endsWord (b : UInt8) (_ : Text) : Bool := isBlank b

/-- A `;` in front of another one opens a comment. -/
def opensComment (b : UInt8) (after : Text) : Bool :=
  b == Ascii.semicolon && after.head? == some Ascii.semicolon

/-- Escapes neither hide a `;` nor make one. -/
theorem head?_escape (s : Text) :
    (Expr.escape s ++ [Ascii.quote]).head? = some Ascii.semicolon ↔
      s.head? = some Ascii.semicolon := by
  have hquote : Ascii.quote ≠ Ascii.semicolon := by decide
  have hslash : Ascii.backslash ≠ Ascii.semicolon := by decide
  cases s with
  | nil => simp [Expr.escape, hquote]
  | cons b s =>
    rw [Expr.escape]
    split
    · rename_i hb
      have hne : b ≠ Ascii.semicolon := by
        rintro rfl
        revert hb
        decide
      simp [hslash, hne]
    · simp

/-- The text before a comment holds the whole string exactly if no comment opens
in it. -/
theorem beforeComment_escape_iff (quoted : Bool) (s : Text) :
    beforeComment quoted (Expr.escape s ++ [Ascii.quote]) = Expr.escape s ++ [Ascii.quote] ↔
      Passes opensComment quoted s := by
  have hslash : Ascii.backslash ≠ Ascii.quote := by decide
  have hsemicolon : Ascii.backslash ≠ Ascii.semicolon := by decide
  induction s generalizing quoted with
  | nil => simp [Expr.escape, beforeComment, passes_nil]
  | cons b s ih =>
    rw [passes_cons, Expr.escape]
    by_cases hquote : b = Ascii.quote
    · subst hquote
      have hstop : opensComment Ascii.quote s = false := rfl
      simp [beforeComment_step hslash (.inl hsemicolon), beforeComment_quote, hstop, ih]
    by_cases hback : b = Ascii.backslash
    · subst hback
      have hstop : opensComment Ascii.backslash s = false := rfl
      simp [beforeComment_step hslash (.inl hsemicolon), hstop, hslash, ih]
    rw [if_neg (by simp [hquote, hback]), List.cons_append]
    by_cases hcut : opensComment b s = true ∧ quoted = false
    · obtain ⟨hstop, rfl⟩ := hcut
      obtain ⟨rfl, hnext⟩ : b = Ascii.semicolon ∧ s.head? = some Ascii.semicolon := by
        simpa [opensComment] using hstop
      have hnil : beforeComment false
          (Ascii.semicolon :: (Expr.escape s ++ [Ascii.quote])) = [] := by
        simp [beforeComment, hquote, (head?_escape s).2 hnext]
      simp [hnil, hstop]
    · have hgo : b ≠ Ascii.semicolon ∨ quoted = true ∨
          (Expr.escape s ++ [Ascii.quote]).head? ≠ some Ascii.semicolon := by
        rw [Ne, Ne, head?_escape]
        simp only [opensComment, Bool.and_eq_true, beq_iff_eq, not_and, Bool.not_eq_false] at hcut
        grind
      have hstop : opensComment b s = true → quoted = true := by simpa using hcut
      rw [beforeComment_step hquote hgo, List.cons_inj_right, if_neg hquote]
      exact (ih quoted).trans ⟨fun h => ⟨hstop, h⟩, And.right⟩

/-- A word that starts inside the string holds the rest of it exactly if no blank
ends it. -/
theorem word_escape_iff (quoted : Bool) (s : Text) :
    (word quoted (Expr.escape s ++ [Ascii.quote])).1 = Expr.escape s ++ [Ascii.quote] ↔
      Passes endsWord quoted s := by
  have hslash : (Ascii.backslash == Ascii.quote) = false := by decide
  have hclosed : isBlank Ascii.quote = false := by decide
  have hmark : isBlank Ascii.backslash = false := by decide
  induction s generalizing quoted with
  | nil => simp [Expr.escape, word, hclosed, passes_nil]
  | cons b s ih =>
    rw [passes_cons, Expr.escape]
    by_cases hquote : b = Ascii.quote
    · subst hquote
      simp [word_step (.inl hmark), word_step (.inl hclosed), hslash, endsWord, hclosed, ih]
    by_cases hback : b = Ascii.backslash
    · subst hback
      simp [word_step (.inl hmark), hslash, endsWord, hmark, hquote, ih]
    rw [if_neg (by simp [hquote, hback]), List.cons_append]
    by_cases hcut : isBlank b = true ∧ quoted = false
    · obtain ⟨hstop, rfl⟩ := hcut
      simp [word, hstop, endsWord]
    · have hgo : isBlank b = false ∨ quoted = true := by
        simpa [Bool.not_eq_true, Decidable.or_iff_not_imp_left] using hcut
      have hstop : endsWord b s = true → quoted = true := by simpa [endsWord] using hcut
      simp only [word_step hgo, beq_eq_false_iff_ne.2 hquote, Bool.false_eq_true, if_false,
        List.cons_inj_right, ih, if_neg hquote]
      exact ⟨fun h => ⟨hstop, h⟩, And.right⟩

/-! ## Lines of data -/

/-- A place where a scanner of lines stops outside quotes: a blank, or the start
of a comment. -/
def isStop (b : UInt8) (after : Text) : Bool := endsWord b after || opensComment b after

/-- Every blank and every `;;` of a string stands behind an even number of its
quotes. -/
def Sheltered (s : Text) : Prop :=
  ∀ before b after, s = before ++ b :: after → isStop b after = true →
    before.count Ascii.quote % 2 = 0

theorem sheltered_iff {s : Text} :
    Sheltered s ↔ Passes opensComment true s ∧ Passes endsWord true s := by
  constructor
  · intro h
    refine ⟨?_, ?_⟩
    · intro before b after hs hstop
      simpa using h before b after hs (by simp [isStop, hstop])
    · intro before b after hs hstop
      simpa using h before b after hs (by simp [isStop, hstop])
  · rintro ⟨hcomment, hword⟩ before b after hs hstop
    rcases Bool.or_eq_true_iff.1 hstop with hstop | hstop
    · simpa using hword before b after hs hstop
    · simpa using hcomment before b after hs hstop

instance (s : Text) : Decidable (Sheltered s) := decidable_of_iff _ sheltered_iff.symm

open Statement (dataStart stringData)

theorem stripComment_data (t : Text) :
    stripComment (Ascii.space :: (dataStart ++ t)) =
      Ascii.space :: (dataStart ++ beforeComment true t) := rfl

theorem trimEnd_data (t : Text) :
    trimEnd (Ascii.space :: (dataStart ++ t)) = Ascii.space :: (dataStart ++ trimEnd t) := by
  have hquote : isTrimmed Ascii.quote = false := by decide
  exact trimEnd_append_cons hquote (ascii " ?=") t

theorem words_data (t : Text) :
    words (Ascii.space :: (dataStart ++ t)) =
      (dataStart ++ (word (t.contains Ascii.quote) t).1) ::
        words (word (t.contains Ascii.quote) t).2 := by
  have hdrop : (Ascii.space :: (dataStart ++ t)).dropWhile isBlank =
      0x3F :: Ascii.equals :: Ascii.quote :: t := rfl
  rw [words_cons hdrop]
  rfl

/-- The line ` ?="..."` with a string, which is written with escapes. -/
def dataLine (s : Text) : Text := ascii " ?=" ++ (Expr.string s).render

/-- What the scanners of lines leave of the string behind its opening quote. -/
def leftOf (s : Text) : Text := trimEnd (beforeComment true (Expr.escape s ++ [Ascii.quote]))

/-- The words of a line of data are those of what is left of the string. -/
theorem parse_dataLine (s : Text) (number : Int) :
    parse (dataLine s) number =
      (words (Ascii.space :: (dataStart ++ leftOf s))).mapM Statement.parse >>= fun statements =>
        .ok { number, file := [], text := dataLine s, label := [], statements } := by
  have hline : dataLine s = Ascii.space :: (dataStart ++ (Expr.escape s ++ [Ascii.quote])) := rfl
  have hleft : trimEnd (stripComment (dataLine s)) = Ascii.space :: (dataStart ++ leftOf s) := by
    rw [hline, stripComment_data, trimEnd_data]
    rfl
  have hsplit (t : Text) : splitLabel? (Ascii.space :: t) = some ([], Ascii.space :: t) := rfl
  unfold parse
  rw [hleft, hsplit]
  rfl

theorem leftOf_isPrefix (s : Text) : leftOf s <+: Expr.escape s ++ [Ascii.quote] :=
  (trimEnd_isPrefix _).trans (beforeComment_isPrefix true _)

/-- The whole string is left exactly if no comment opens in it. -/
theorem leftOf_eq_iff (s : Text) :
    leftOf s = Expr.escape s ++ [Ascii.quote] ↔ Passes opensComment true s := by
  have hquote : isTrimmed Ascii.quote = false := by decide
  rw [← beforeComment_escape_iff]
  constructor
  · intro h
    have hstripped := beforeComment_isPrefix true (Expr.escape s ++ [Ascii.quote])
    have htrimmed := trimEnd_isPrefix (beforeComment true (Expr.escape s ++ [Ascii.quote]))
    have hlength : (leftOf s).length = (Expr.escape s ++ [Ascii.quote]).length := by rw [h]
    apply hstripped.eq_of_length_le
    rw [← hlength]
    exact htrimmed.length_le
  · intro h
    rw [leftOf, h, trimEnd_append_cons hquote]
    rfl

/-- The first word of what is left, behind the opening quote. -/
def firstOf (s : Text) : Text := (word ((leftOf s).contains Ascii.quote) (leftOf s)).1

theorem firstOf_isPrefix (s : Text) : firstOf s <+: Expr.escape s ++ [Ascii.quote] :=
  (word_isPrefix _ _).trans (leftOf_isPrefix s)

/-- The first word holds the whole string exactly if it is sheltered. -/
theorem firstOf_eq_iff (s : Text) :
    firstOf s = Expr.escape s ++ [Ascii.quote] ↔ Sheltered s := by
  have hword (h : leftOf s = Expr.escape s ++ [Ascii.quote]) :
      firstOf s = (word true (Expr.escape s ++ [Ascii.quote])).1 := by
    unfold firstOf
    rw [h]
    simp
  rw [sheltered_iff, ← leftOf_eq_iff, ← word_escape_iff]
  constructor
  · intro h
    have hleft : leftOf s = Expr.escape s ++ [Ascii.quote] := by
      apply (leftOf_isPrefix s).eq_of_length_le
      rw [← h]
      exact (word_isPrefix _ _).length_le
    exact ⟨hleft, by rw [← hword hleft, h]⟩
  · rintro ⟨hleft, h⟩
    rw [hword hleft, h]

/-- A sheltered string is the one word of its line. -/
theorem words_of_sheltered {s : Text} (h : Sheltered s) :
    words (Ascii.space :: (dataStart ++ leftOf s)) =
      [dataStart ++ (Expr.escape s ++ [Ascii.quote])] := by
  have hleft := (leftOf_eq_iff s).2 (sheltered_iff.1 h).1
  have hfirst := (word_escape_iff true s).2 (sheltered_iff.1 h).2
  have hrest : (word true (Expr.escape s ++ [Ascii.quote])).2 = [] := by
    have happend := word_append true (Expr.escape s ++ [Ascii.quote])
    rw [hfirst] at happend
    simpa using happend
  have hnone : words [] = [] := words_of_blank rfl
  rw [words_data, hleft]
  simp [hfirst, hrest, hnone]

/-- Strings survive the line exactly if they are sheltered. A line with a string of
data is read as the one statement that emits it if every blank and every `;;` of
the string stands behind an even number of its quotes. Otherwise it is refused:
the scanners of the line cut the string off, and what is left has no end. -/
theorem strings_survive_iff_sheltered {s : Text} (hs : Ascii.newline ∉ s) (number : Int) :
    (Sheltered s → parse (dataLine s) number =
      .ok { number, file := [], text := dataLine s, label := [],
            statements := [stringData s] }) ∧
    (¬ Sheltered s → ∃ cut, cut <+: Expr.escape s ∧ parse (dataLine s) number =
      .error (.operand (.unterminatedString (Ascii.quote :: cut)))) := by
  have hbody : Ascii.newline ∉ Expr.escape s ++ [Ascii.quote] := by
    have hq : Ascii.newline ≠ Ascii.quote := by decide
    simp [Expr.newline_not_mem_escape hs, hq]
  rw [parse_dataLine]
  constructor
  · intro h
    have hstring : Expr.parse (Ascii.quote :: (Expr.escape s ++ [Ascii.quote])) =
        .ok (.string s) := Expr.parse_string s
    rw [words_of_sheltered h, List.mapM_cons, Statement.parse_data hbody, hstring]
    rfl
  · intro h
    have hcut : firstOf s <+: Expr.escape s := by
      rcases List.prefix_concat_iff.1 (firstOf_isPrefix s) with heq | hcut
      · exact absurd ((firstOf_eq_iff s).1 heq) h
      · exact hcut
    have hnewline : Ascii.newline ∉ firstOf s := fun hmem =>
      hbody ((firstOf_isPrefix s).subset hmem)
    refine ⟨firstOf s, hcut, ?_⟩
    rw [words_data, List.mapM_cons]
    change (Statement.parse (dataStart ++ firstOf s) >>= _) >>= _ = _
    rw [Statement.parse_data hnewline, Expr.parse_cut hcut]
    rfl

/-- Of its blanks, quotes and semicolons only one `;` stands behind an odd number of
quotes. -/
def greeting : Text := ascii "say \"hi;there\" ;; all"

/-- A quote in front of a comment sign is enough to lose the string. -/
theorem greeting_survives :
    Sheltered greeting ∧
    parse (ascii " ?=\"say \\\"hi;there\\\" ;; all\"") 1 =
      .ok { number := 1, file := [], text := ascii " ?=\"say \\\"hi;there\\\" ;; all\"",
            label := [], statements := [stringData greeting] } ∧
    ¬ Sheltered (ascii "\";;") ∧
    ∃ cut, parse (ascii " ?=\"\\\";;\"") 1 = .error (.operand (.unterminatedString cut)) := by
  have hgreeting : Sheltered greeting := by decide
  have hlost : ¬ Sheltered (ascii "\";;") := by decide
  refine ⟨hgreeting, (strings_survive_iff_sheltered (by decide) 1).1 hgreeting, hlost, ?_⟩
  obtain ⟨cut, _, h⟩ := (strings_survive_iff_sheltered (by decide) 1).2 hlost
  exact ⟨_, h⟩

end Line

end Asm6502
