-- Tokens and their text. A token is read back from its own text if what
-- follows does not extend it. So the tokens of a text, each written as it is
-- printed, are read back one by one, with no blank between them.
import Asm6502.Expr
import Asm6502.Expr.Token
import Asm6502.Proofs.Digits
import Mathlib.Data.List.TakeWhile

namespace Asm6502

namespace Token

/-! ## The text of a token -/

/-- The source text of a token. -/
def render : Token → Text
  | .hex digits => Ascii.dollar :: digits
  | .decimal digits => digits
  | .string content => Ascii.quote :: (Expr.escape content ++ [Ascii.quote])
  | .name text => text
  | .mark b => [b]

/-- What the bytes of a token are. -/
def WellFormed : Token → Prop
  | .hex digits => digits ≠ [] ∧ ∀ b ∈ digits, isHexDigit b = true
  | .decimal digits => digits ≠ [] ∧ ∀ b ∈ digits, isDigit b = true
  | .string _ => True
  | .name text =>
    ∃ b tail, text = b :: tail ∧ (∀ c ∈ tail, isNameByte c = true) ∧
      (isLetter b = true ∨ isNameSigil b = true ∧ headIs isWordByte tail = true)
  | .mark b => isMark b = true

/-- The text behind a token does not extend it, nor does it make another token
of a mark. -/
def EndsBefore : Token → Text → Prop
  | .hex _, rest => headIs isHexDigit rest = false
  | .decimal _, rest => headIs isDigit rest = false
  | .string _, _ => True
  | .name _, rest => headIs isNameByte rest = false
  | .mark b, rest =>
    (b = Ascii.dollar → headIs isHexDigit rest = false) ∧
      (isNameSigil b = true → headIs isWordByte rest = false)

/-! ## Byte classes -/

theorem isNameByte_of_isWordByte {b : UInt8} (h : isWordByte b = true) : isNameByte b = true := by
  simp [isNameByte, h]

/-- The first byte of a name starts no other token. -/
theorem class_of_letter {b : UInt8} (h : isLetter b = true) :
    b ≠ Ascii.quote ∧ b ≠ Ascii.dollar ∧ isDigit b = false := by
  grind [isLetter, isUpper, isLower, isDigit]

theorem class_of_sigil {b : UInt8} (h : isNameSigil b = true) :
    b ≠ Ascii.quote ∧ b ≠ Ascii.dollar ∧ isDigit b = false := by
  grind [isNameSigil, isDigit]

/-- A mark is no quote, no digit and no letter. -/
theorem class_of_mark {b : UInt8} (h : isMark b = true) :
    b ≠ Ascii.quote ∧ isDigit b = false ∧ isLetter b = false := by
  have hall : ∀ b ∈ marks, b ≠ Ascii.quote ∧ isDigit b = false ∧ isLetter b = false := by
    decide +kernel
  exact hall b (List.contains_iff_mem.1 h)

/-! ## Runs of bytes -/

theorem takeWhile_of_headIs {p : UInt8 → Bool} {rest : Text} (h : headIs p rest = false) :
    rest.takeWhile p = [] := by
  cases rest with
  | nil => rfl
  | cons b rest => simp_all [headIs]

theorem takeWhile_run {p : UInt8 → Bool} {run rest : Text} (hrun : ∀ b ∈ run, p b = true)
    (hrest : headIs p rest = false) : (run ++ rest).takeWhile p = run := by
  rw [List.takeWhile_append_of_pos hrun, takeWhile_of_headIs hrest, List.append_nil]

theorem dropWhile_run {p : UInt8 → Bool} {run rest : Text} (hrun : ∀ b ∈ run, p b = true)
    (hrest : headIs p rest = false) : (run ++ rest).dropWhile p = rest := by
  rw [List.dropWhile_append_of_pos hrun]
  cases rest with
  | nil => rfl
  | cons b rest => simp_all [headIs]

theorem headIs_dropWhile (p : UInt8 → Bool) (t : Text) : headIs p (t.dropWhile p) = false := by
  induction t with
  | nil => rfl
  | cons b t ih =>
    rw [List.dropWhile_cons]
    split
    · exact ih
    · rename_i hb
      simpa [headIs] using hb

theorem mem_takeWhile {p : UInt8 → Bool} {t : Text} : ∀ b ∈ t.takeWhile p, p b = true :=
  fun _ hb => List.mem_takeWhile_imp hb

/-! ## Reading a token back -/

theorem stringBody_quote (rest : Text) : stringBody (Ascii.quote :: rest) = some ([], rest) := by
  rw [stringBody.eq_def]
  rfl

theorem stringBody_backslash {b : UInt8} (hb : b ≠ Ascii.newline) (rest : Text) :
    stringBody (Ascii.backslash :: b :: rest) =
      (stringBody rest).map fun (content, after) => (b :: content, after) := by
  have hq : Ascii.backslash ≠ Ascii.quote := by decide
  rw [stringBody.eq_def]
  simp [hq, hb]

theorem stringBody_plain {b : UInt8} (hq : b ≠ Ascii.quote) (hs : b ≠ Ascii.backslash)
    (rest : Text) :
    stringBody (b :: rest) =
      (stringBody rest).map fun (content, after) => (b :: content, after) := by
  rw [stringBody.eq_def]
  simp [hq, hs]

theorem stringBody_escape (content rest : Text) :
    stringBody (Expr.escape content ++ Ascii.quote :: rest) = some (content, rest) := by
  induction content with
  | nil => exact stringBody_quote rest
  | cons b content ih =>
    rw [Expr.escape]
    by_cases hb : b = Ascii.quote ∨ b = Ascii.backslash
    · have hn : b ≠ Ascii.newline := by
        rcases hb with rfl | rfl
        · decide
        · decide
      rw [if_pos (by simpa using hb), List.cons_append, List.cons_append,
        stringBody_backslash hn, ih]
      rfl
    · obtain ⟨hq, hs⟩ := not_or.1 hb
      rw [if_neg (by simpa using hb), List.cons_append, stringBody_plain hq hs, ih]
      rfl

/-- A token is read back from its text. -/
theorem next_render {token : Token} {rest : Text} (hw : token.WellFormed)
    (he : token.EndsBefore rest) : next (token.render ++ rest) = some (token, rest) := by
  cases token with
  | hex digits =>
    obtain ⟨hne, hall⟩ := hw
    have hhead : headIs isHexDigit (digits ++ rest) = true := by
      obtain ⟨d, ds, rfl⟩ := List.exists_cons_of_ne_nil hne
      simpa [headIs] using hall d List.mem_cons_self
    have hq : Ascii.dollar ≠ Ascii.quote := by decide
    simp [render, next, hq, hhead, takeWhile_run hall he, dropWhile_run hall he]
  | decimal digits =>
    obtain ⟨hne, hall⟩ := hw
    obtain ⟨d, ds, rfl⟩ := List.exists_cons_of_ne_nil hne
    have hd := hall d List.mem_cons_self
    have hds : ∀ b ∈ ds, isDigit b = true := fun b hb => hall b (List.mem_cons_of_mem _ hb)
    have hq : d ≠ Ascii.quote ∧ d ≠ Ascii.dollar := by grind [isDigit]
    simp [render, next, hq, hd, takeWhile_run hds he, dropWhile_run hds he]
  | string content => simp [render, next, stringBody_escape]
  | name name =>
    obtain ⟨b, tail, rfl, hall, hfirst⟩ := hw
    have hclass : b ≠ Ascii.quote ∧ b ≠ Ascii.dollar ∧ isDigit b = false := by
      rcases hfirst with hb | ⟨hb, _⟩
      · exact class_of_letter hb
      · exact class_of_sigil hb
    have hstart : (isLetter b || isNameSigil b && headIs isWordByte (tail ++ rest)) = true := by
      rcases hfirst with hb | ⟨hb, ht⟩
      · simp [hb]
      · cases tail with
        | nil => simp [headIs] at ht
        | cons c tail => simp_all [headIs]
    simp only [Bool.or_eq_true, Bool.and_eq_true] at hstart
    simp [render, next, hclass, hstart, takeWhile_run hall he, dropWhile_run hall he]
  | mark b =>
    obtain ⟨hq, hd, hl⟩ := class_of_mark hw
    obtain ⟨hdollar, hsigil⟩ := he
    have hhex : ¬ (b = Ascii.dollar ∧ headIs isHexDigit rest = true) := by
      rintro ⟨hb, hr⟩
      rw [hdollar hb] at hr
      cases hr
    have hname : ¬ (isNameSigil b = true ∧ headIs isWordByte rest = true) := by
      rintro ⟨hb, hr⟩
      rw [hsigil hb] at hr
      cases hr
    have hm : isMark b = true := hw
    simp [render, next, hq, hd, hl, hhex, hname, hm]

theorem wellFormed_hex {tail : Text} (h : headIs isHexDigit tail = true) :
    (hex (tail.takeWhile isHexDigit)).WellFormed := by
  refine ⟨?_, mem_takeWhile⟩
  cases tail with
  | nil => simp [headIs] at h
  | cons c tail => simp_all [headIs]

theorem wellFormed_decimal {b : UInt8} (h : isDigit b = true) (tail : Text) :
    (decimal (b :: tail.takeWhile isDigit)).WellFormed := by
  refine ⟨by simp, ?_⟩
  intro c hc
  rcases List.mem_cons.1 hc with rfl | hc
  · exact h
  · exact mem_takeWhile c hc

theorem wellFormed_name {b : UInt8} {tail : Text}
    (h : isLetter b = true ∨ isNameSigil b = true ∧ headIs isWordByte tail = true) :
    (name (b :: tail.takeWhile isNameByte)).WellFormed := by
  refine ⟨b, _, rfl, mem_takeWhile, ?_⟩
  rcases h with hl | ⟨hs, hw⟩
  · exact Or.inl hl
  · refine Or.inr ⟨hs, ?_⟩
    cases tail with
    | nil => simp [headIs] at hw
    | cons c tail =>
      have hc : isWordByte c = true := by simpa [headIs] using hw
      simp [headIs, isNameByte_of_isWordByte hc, hc]

/-- A token that is read has the bytes of its kind, the text behind it does not
extend it, and it starts with the byte that its text starts with. -/
theorem next_eq_some {t rest : Text} {token : Token} (h : next t = some (token, rest)) :
    token.WellFormed ∧ token.EndsBefore rest ∧ t.head? = token.render.head? := by
  cases t with
  | nil => simp [next] at h
  | cons b tail =>
    -- One case for each kind of token, in the order in which they are tried.
    simp only [next, Bool.or_eq_true, Bool.and_eq_true, beq_iff_eq] at h
    split at h
    · rename_i hq
      obtain ⟨⟨content, after⟩, _, he⟩ := Option.map_eq_some_iff.1 h
      cases he
      exact ⟨trivial, trivial, by simpa [render] using hq⟩
    split at h
    · rename_i hb
      cases h
      exact ⟨wellFormed_hex hb.2, headIs_dropWhile _ _, by simp [render, hb.1]⟩
    rename_i hdollar
    split at h
    · rename_i hd
      cases h
      exact ⟨wellFormed_decimal hd tail, headIs_dropWhile _ _, rfl⟩
    split at h
    · rename_i hn
      cases h
      exact ⟨wellFormed_name hn, headIs_dropWhile _ _, rfl⟩
    rename_i hname
    split at h
    · rename_i hm
      cases h
      refine ⟨hm, ⟨?_, ?_⟩, rfl⟩
      · intro hb
        simpa [hb] using hdollar
      · intro hs
        simpa [hs] using (not_or.1 hname).2
    · cases h

/-! ## Numbers as they are printed -/

/-- Hexadecimal digits as they are printed: two for a byte, four for a word. -/
def printedHex (digits : Text) : Text :=
  if digits.length ≤ 2 then hexByte (UInt8.ofNat (numberOf 16 digits))
  else hexWord (UInt16.ofNat (numberOf 16 digits))

/-- Decimal digits as they are printed, without leading zeros. -/
def printedDecimal (digits : Text) : Text :=
  Asm6502.decimal (UInt16.ofNat (numberOf 10 digits)).toNat

/-- A token whose number is in the form in which it is printed. -/
def printed : Token → Token
  | .hex digits => .hex (printedHex digits)
  | .decimal digits => .decimal (printedDecimal digits)
  | token => token

theorem printed_string (content : Text) : (string content).printed = string content := rfl

theorem printed_name (text : Text) : (name text).printed = name text := rfl

theorem printed_mark (b : UInt8) : (mark b).printed = mark b := rfl

/-- The text of tokens, with numbers as they are printed. -/
def written (tokens : List Token) : Text := tokens.flatMap fun token => token.printed.render

theorem written_cons (token : Token) (tokens : List Token) :
    written (token :: tokens) = token.printed.render ++ written tokens := rfl

theorem isHexDigit_of_mem_printedHex {digits : Text} :
    ∀ b ∈ printedHex digits, isHexDigit b = true := by
  intro b hb
  unfold printedHex at hb
  split at hb
  · exact isHexDigit_of_mem_hexByte hb
  · exact isHexDigit_of_mem_hexWord hb

theorem printedHex_length (digits : Text) :
    (printedHex digits).length = if digits.length ≤ 2 then 2 else 4 := by
  unfold printedHex
  split
  · rfl
  · rfl

theorem WellFormed.printed {token : Token} (h : token.WellFormed) : token.printed.WellFormed := by
  cases token with
  | hex digits =>
    refine ⟨?_, isHexDigit_of_mem_printedHex⟩
    intro hnil
    have hlen := printedHex_length digits
    rw [hnil] at hlen
    split at hlen
    · cases hlen
    · cases hlen
  | decimal digits => exact ⟨decimal_ne_nil _, fun _ hd => isDigit_of_mem_decimal hd⟩
  | string | name | mark => exact h

/-- A printed number is always in range. -/
theorem inRange_printed (token : Token) : token.printed.inRange = true := by
  cases token with
  | hex digits =>
    simp only [printed, inRange, printedHex_length, decide_eq_true_eq]
    split
    · decide
    · decide
  | decimal digits =>
    simp only [printed, printedDecimal, inRange, numberOf_decimal, decide_eq_true_eq]
    exact UInt16.toNat_lt _
  | string | name | mark => rfl

/-- A printed token starts like the token itself, up to the choice of a digit. -/
theorem headIs_printed {p : UInt8 → Bool} (hp : ∀ d, isDigit d = true → p d = true)
    {token : Token} (h : token.WellFormed) (rest : Text) :
    headIs p (token.printed.render ++ rest) = headIs p token.render := by
  have hrun {digits : Text} (hne : digits ≠ []) (hall : ∀ b ∈ digits, isDigit b = true)
      (rest : Text) : headIs p (digits ++ rest) = true := by
    obtain ⟨d, ds, rfl⟩ := List.exists_cons_of_ne_nil hne
    simpa [headIs] using hp d (hall d List.mem_cons_self)
  cases token with
  | hex | string | mark => rfl
  | decimal digits =>
    have hprinted := h.printed
    rw [printed, render, render, hrun hprinted.1 hprinted.2, ← List.append_nil digits,
      hrun h.1 h.2]
  | name =>
    obtain ⟨b, tail, rfl, _⟩ := h
    rfl

/-! ## Scanning -/

theorem scan_of_next {t rest : Text} {token : Token} (h : next t = some (token, rest)) :
    scan t = (scan rest).map (token :: ·) := by
  cases t with
  | nil => simp [next] at h
  | cons b tail =>
    rw [scan]
    split
    · rename_i hn
      rw [hn] at h
      cases h
    · rename_i hn
      rw [hn] at h
      cases h
      rfl

theorem scan_eq_some {t : Text} {tokens : List Token} (h : scan t = some tokens) :
    t = [] ∧ tokens = [] ∨
      ∃ token rest others, next t = some (token, rest) ∧ scan rest = some others ∧
        tokens = token :: others := by
  cases t with
  | nil =>
    rw [scan] at h
    cases h
    exact Or.inl ⟨rfl, rfl⟩
  | cons b tail =>
    rw [scan] at h
    split at h
    · cases h
    · rename_i token rest hn
      obtain ⟨others, ho, rfl⟩ := Option.map_eq_some_iff.1 h
      exact Or.inr ⟨token, rest, others, hn, ho, rfl⟩

/-- The text of the tokens starts like the text that they were read from. -/
theorem headIs_written {p : UInt8 → Bool} (hp : ∀ d, isDigit d = true → p d = true) {t : Text}
    {tokens : List Token} (h : scan t = some tokens) : headIs p (written tokens) = headIs p t := by
  rcases scan_eq_some h with ⟨rfl, rfl⟩ | ⟨token, rest, others, hn, _, rfl⟩
  · rfl
  · obtain ⟨hw, _, hhead⟩ := next_eq_some hn
    exact (headIs_printed hp hw (written others)).trans (congrArg (Option.any p) hhead.symm)

/-- If the text behind a token does not extend it, the text of the tokens read
from there does not extend its printed form. -/
theorem EndsBefore.printed {token : Token} {rest : Text} {tokens : List Token}
    (h : token.EndsBefore rest) (hs : scan rest = some tokens) :
    token.printed.EndsBefore (written tokens) := by
  have hhex := headIs_written (fun _ => isHexDigit_of_isDigit) hs
  have hword := headIs_written (fun _ => isWordByte_of_isDigit) hs
  have hname := headIs_written
    (fun _ hd => isNameByte_of_isWordByte (isWordByte_of_isDigit hd)) hs
  cases token with
  | hex => exact hhex.trans h
  | decimal => exact (headIs_written (fun _ hd => hd) hs).trans h
  | string => trivial
  | name => exact hname.trans h
  | mark => exact ⟨fun hb => hhex.trans (h.1 hb), fun hb => hword.trans (h.2 hb)⟩

/-- The printed tokens of a text are read back from their text. -/
theorem scan_written {t : Text} {tokens : List Token} (h : scan t = some tokens) :
    scan (written tokens) = some (tokens.map printed) := by
  induction tokens generalizing t with
  | nil => simp [written, scan]
  | cons token tokens ih =>
    rcases scan_eq_some h with ⟨_, hnil⟩ | ⟨_, rest, _, hn, hs, heq⟩
    · cases hnil
    · cases heq
      obtain ⟨hw, he, _⟩ := next_eq_some hn
      have hnext := next_render hw.printed (he.printed hs)
      rw [written_cons, scan_of_next hnext, ih hs]
      rfl

theorem written_ne_nil {t : Text} {tokens : List Token} (h : scan t = some tokens) (ht : t ≠ []) :
    written tokens ≠ [] := by
  intro hnil
  have hscan := scan_written h
  rw [hnil, scan, Option.some.injEq, eq_comm, List.map_eq_nil_iff] at hscan
  subst hscan
  rcases scan_eq_some h with ⟨rfl, _⟩ | ⟨_, _, _, _, _, heq⟩
  · exact ht rfl
  · cases heq

end Token

end Asm6502
