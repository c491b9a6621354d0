-- The scanners of a line, each by what it keeps: the text before a comment and a
-- word are the front of what they are taken from, and what is trimmed stands at
-- the end.
import Asm6502.Line
import Asm6502.Proofs.Except

namespace Asm6502

namespace Line

/-! ## Words -/

theorem words_of_blank {t : Text} (h : t.dropWhile isBlank = []) : words t = [] := by
  rw [words]
  split
  · rfl
  · rename_i hcons
    cases h.symm.trans hcons

/-- The first word starts at the first byte that is no blank. -/
theorem words_cons {t rest : Text} {b : UInt8} (h : t.dropWhile isBlank = b :: rest) :
    words t = (word false (b :: rest)).1 :: words (word false (b :: rest)).2 := by
  rw [words]
  split
  · rename_i hnil
    cases h.symm.trans hnil
  · rename_i hcons
    cases h.symm.trans hcons
    rfl

theorem word_append (quoted : Bool) (t : Text) : (word quoted t).1 ++ (word quoted t).2 = t := by
  fun_induction word quoted t with
  | case1 => rfl
  | case2 => rfl
  | case3 quoted b rest _ inside next ih => exact congrArg (b :: ·) ih

theorem word_isPrefix (quoted : Bool) (t : Text) : (word quoted t).1 <+: t :=
  ⟨(word quoted t).2, word_append quoted t⟩

/-- A byte that is no blank belongs to the word, and so does any byte inside
quotes. -/
theorem word_step {quoted : Bool} {b : UInt8} (h : isBlank b = false ∨ quoted = true)
    (rest : Text) :
    word quoted (b :: rest) =
      let inside := if b == Ascii.quote then !quoted && rest.contains Ascii.quote else quoted
      (b :: (word inside rest).1, (word inside rest).2) := by
  have hin : ¬ (isBlank b && !quoted) = true := by
    rcases h with h | h
    · simp [h]
    · simp [h]
  rw [word, if_neg hin]

/-- Up to the closing quote, everything belongs to the word. -/
theorem word_quoted_append {t : Text} (h : Ascii.quote ∉ t) (rest : Text) :
    word true (t ++ rest) = (t ++ (word true rest).1, (word true rest).2) := by
  induction t with
  | nil => rfl
  | cons b t ih =>
    obtain ⟨hb, ht⟩ := not_or.1 (mt List.mem_cons.2 h)
    have hno : (b == Ascii.quote) = false := by simpa using Ne.symm hb
    rw [List.cons_append, word_step (.inr rfl)]
    simp [hno, ih ht]

/-! ## Comments -/

theorem beforeComment_isPrefix (quoted : Bool) (t : Text) : beforeComment quoted t <+: t := by
  fun_induction beforeComment quoted t with
  | case1 => simp
  | case2 quoted b rest hb ih => simpa using ih
  | case3 => simp
  | case4 quoted b rest _ _ ih => simpa using ih

theorem beforeComment_quote (quoted : Bool) (rest : Text) :
    beforeComment quoted (Ascii.quote :: rest) = Ascii.quote :: beforeComment (!quoted) rest := by
  simp [beforeComment]

/-- A byte that opens no comment is kept. -/
theorem beforeComment_step {quoted : Bool} {b : UInt8} {rest : Text} (hq : b ≠ Ascii.quote)
    (h : b ≠ Ascii.semicolon ∨ quoted = true ∨ rest.head? ≠ some Ascii.semicolon) :
    beforeComment quoted (b :: rest) = b :: beforeComment quoted rest := by
  have hno : ¬ (b == Ascii.semicolon && !quoted && rest.head? == some Ascii.semicolon) = true := by
    rcases h with h | h | h
    · simp [h]
    · simp [h]
    · simp [h]
  rw [beforeComment, if_neg (by simpa using hq), if_neg hno]

/-- Text without quotes is kept inside quotes, and outside of them if it has no
semicolon. -/
theorem beforeComment_append {quoted : Bool} {t : Text} (hq : Ascii.quote ∉ t)
    (h : quoted = true ∨ Ascii.semicolon ∉ t) (rest : Text) :
    beforeComment quoted (t ++ rest) = t ++ beforeComment quoted rest := by
  induction t with
  | nil => rfl
  | cons b t ih =>
    obtain ⟨hb, ht⟩ := not_or.1 (mt List.mem_cons.2 hq)
    have hfirst : b ≠ Ascii.semicolon ∨ quoted = true ∨
        (t ++ rest).head? ≠ some Ascii.semicolon := by
      rcases h with h | h
      · exact .inr (.inl h)
      · exact .inl fun hs => h (hs ▸ List.mem_cons_self)
    have hrest : quoted = true ∨ Ascii.semicolon ∉ t :=
      h.imp_right fun hs hmem => hs (List.mem_cons_of_mem b hmem)
    rw [List.cons_append, beforeComment_step (Ne.symm hb) hfirst, ih ht hrest]
    rfl

/-! ## Blanks at the end -/

/-- A byte that is dropped at the end of a line. -/
def isTrimmed (b : UInt8) : Bool := b == Ascii.space || b == 0x09 || b == Ascii.carriageReturn

theorem trimEnd_eq (t : Text) : trimEnd t = (t.reverse.dropWhile isTrimmed).reverse := rfl

theorem trimEnd_isPrefix (t : Text) : trimEnd t <+: t := by
  rw [trimEnd_eq, ← List.reverse_suffix, List.reverse_reverse]
  exact List.dropWhile_suffix isTrimmed

/-- Nothing in front of a byte that stays is dropped. -/
theorem trimEnd_append_cons {b : UInt8} (hb : isTrimmed b = false) (front back : Text) :
    trimEnd (front ++ b :: back) = front ++ b :: trimEnd back := by
  rw [trimEnd_eq, trimEnd_eq, List.reverse_append, List.reverse_cons, List.append_assoc,
    List.singleton_append, List.dropWhile_append]
  split
  · rename_i hempty
    rw [List.isEmpty_iff.1 hempty]
    simp [hb]
  · simp

theorem trimEnd_append_trimmed (t : Text) {pad : Text} (h : ∀ b ∈ pad, isTrimmed b = true) :
    trimEnd (t ++ pad) = trimEnd t := by
  rw [trimEnd_eq, trimEnd_eq, List.reverse_append,
    List.dropWhile_append_of_pos (by simpa using h)]

end Line

end Asm6502
