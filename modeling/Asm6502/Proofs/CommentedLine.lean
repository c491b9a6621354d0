-- Lines with comments, by what is left of them. Plain text is kept in front of a
-- comment, and stays plain when its inline expressions are replaced, so a plain
-- line reads the same without its comment. A line that includes a file is known
-- by its blanks and its one word; with a comment behind it, it is that word alone.
import Asm6502.Proofs.InlineExtent
import Asm6502.Proofs.LineScanning

namespace Asm6502

/-! ## Plain text -/

namespace Line

/-- No quote stands in a text, and no comment opens in it. -/
def Plain (t : Text) : Prop := Ascii.quote ∉ t ∧ ¬ ascii ";;" <:+: t

instance (t : Text) : Decidable (Plain t) := inferInstanceAs (Decidable (_ ∧ _))

theorem plain_cons {b : UInt8} {t : Text} :
    Plain (b :: t) ↔
      b ≠ Ascii.quote ∧ (b = Ascii.semicolon → t.head? ≠ some Ascii.semicolon) ∧ Plain t := by
  have hopen : ascii ";;" <+: b :: t ↔
      b = Ascii.semicolon ∧ t.head? = some Ascii.semicolon := by
    have hmark : ascii ";;" = [Ascii.semicolon, Ascii.semicolon] := by decide
    rw [hmark, List.cons_prefix_cons, eq_comm]
    cases t with
    | nil => simp
    | cons c t => simp [List.cons_prefix_cons, eq_comm]
  unfold Plain
  rw [List.infix_cons_iff, hopen, List.mem_cons]
  grind

theorem Plain.text_append {t r : Text} (hr : Plain r) (hq : Ascii.quote ∉ t)
    (hs : Ascii.semicolon ∉ t) : Plain (t ++ r) := by
  induction t with
  | nil => exact hr
  | cons b t ih =>
    obtain ⟨hbq, htq⟩ := not_or.1 (mt List.mem_cons.2 hq)
    obtain ⟨hbs, hts⟩ := not_or.1 (mt List.mem_cons.2 hs)
    rw [List.cons_append, plain_cons]
    exact ⟨Ne.symm hbq, fun h => absurd h.symm hbs, ih htq hts⟩

theorem Plain.of_append {t r : Text} (h : Plain (t ++ r)) : Plain r := by
  obtain ⟨hq, hs⟩ := h
  refine ⟨fun hmem => hq (List.mem_append_right t hmem), fun hmark => hs ?_⟩
  exact hmark.trans (List.suffix_append t r).isInfix

/-- Plain text is kept if what follows makes no comment of its last byte. -/
theorem beforeComment_plain_append {t rest : Text} (h : Plain t)
    (hr : rest.head? ≠ some Ascii.semicolon) :
    beforeComment false (t ++ rest) = t ++ beforeComment false rest := by
  induction t with
  | nil => rfl
  | cons b t ih =>
    obtain ⟨hq, hs, ht⟩ := plain_cons.1 h
    have hno : b ≠ Ascii.semicolon ∨ false = true ∨
        (t ++ rest).head? ≠ some Ascii.semicolon := by
      by_cases hb : b = Ascii.semicolon
      · cases t with
        | nil => exact .inr (.inr hr)
        | cons c t => exact .inr (.inr (by simpa using hs hb))
      · exact .inl hb
    rw [List.cons_append, beforeComment_step hq hno, ih ht]
    rfl

theorem head?_append_ne {front : Text} {b : UInt8} (hne : front ≠ []) (h : b ∉ front)
    (back : Text) : (front ++ back).head? ≠ some b := by
  cases front with
  | nil => exact absurd rfl hne
  | cons c front =>
    intro hhead
    obtain rfl : c = b := by simpa using hhead
    exact h List.mem_cons_self

theorem isBlank_of_isTrimmed {b : UInt8} (h : isTrimmed b = true) : isBlank b = true := by
  have hb : b = Ascii.space ∨ b = 0x09 ∨ b = Ascii.carriageReturn := by
    simpa [isTrimmed, or_assoc] using h
  rcases hb with rfl | rfl | rfl <;> decide

/-- A comment behind blanks is taken off together with them. -/
theorem trimEnd_stripComment {z pad : Text} (hz : Plain z) (hne : pad ≠ [])
    (hpad : ∀ b ∈ pad, isTrimmed b = true) (c : Text) :
    trimEnd (stripComment (z ++ pad ++ ascii ";;" ++ c)) = trimEnd (stripComment z) := by
  have hquote : Ascii.quote ∉ pad := fun hmem => by cases hpad _ hmem
  have hmark : Ascii.semicolon ∉ pad := fun hmem => by cases hpad _ hmem
  have hself : beforeComment false (z ++ []) = z ++ beforeComment false [] :=
    beforeComment_plain_append hz (by simp)
  have hcomment : beforeComment false (ascii ";;" ++ c) = [] := rfl
  unfold stripComment
  rw [List.append_assoc, List.append_assoc,
    beforeComment_plain_append hz (head?_append_ne hne hmark _),
    beforeComment_append hquote (.inr hmark), hcomment, List.append_nil,
    trimEnd_append_trimmed z hpad]
  rw [List.append_nil] at hself
  rw [hself, beforeComment, List.append_nil]

/-- Two texts that come to the same without comments are read alike. -/
theorem parse_congr {z z' : Text}
    (h : trimEnd (stripComment z') = trimEnd (stripComment z)) (number : Int) :
    (parse z number = .error (.badLine z) ∧ parse z' number = .error (.badLine z')) ∨
      parse z' number = (parse z number).map fun line => { line with text := z' } := by
  unfold parse
  rw [h]
  cases splitLabel? (trimEnd (stripComment z)) with
  | none => exact .inl ⟨rfl, rfl⟩
  | some found =>
    right
    dsimp only
    cases (words found.2).mapM Statement.parse <;> rfl

end Line

namespace Inline

variable {evaluate : Evaluator} {line : Int}

/-- The literals that replace expressions make no quote and no comment. -/
theorem plain_of_expand {t z : Text} (ht : Line.Plain t)
    (h : expand evaluate line t = .ok z) : Line.Plain z ∧ z.head? = t.head? := by
  induction t using pieces_induction generalizing z with
  | nil =>
    rw [expand_nil] at h
    cases h
    exact ⟨ht, rfl⟩
  | byte b rest hpieces ih =>
    rw [expand_byte hpieces] at h
    obtain ⟨behind, hbehind, rfl⟩ := Except.map_eq_ok.1 h
    obtain ⟨hq, hs, hrest⟩ := Line.plain_cons.1 ht
    obtain ⟨hplain, hhead⟩ := ih hrest hbehind
    refine ⟨Line.plain_cons.2 ⟨hq, ?_, hplain⟩, rfl⟩
    rw [hhead]
    exact hs
  | inline e after hpieces ih =>
    rw [expand_of_pieces hpieces, Piece.expand_inline] at h
    obtain ⟨behind, hbehind, h⟩ := Except.bind_eq_ok.1 h
    obtain ⟨text, htext, rfl⟩ := Except.map_eq_ok.1 h
    obtain ⟨w, _, rfl⟩ := Except.map_eq_ok.1 htext
    have hafter : Line.Plain after := by
      have hsplit : Ascii.dollar :: Ascii.leftParen :: (e ++ Ascii.rightParen :: after) =
          Ascii.dollar :: Ascii.leftParen :: (e ++ [Ascii.rightParen]) ++ after := by
        simp
      rw [hsplit] at ht
      exact ht.of_append
    have hquote := not_mem_literal (b := Ascii.quote) (by decide) (by decide) w
    have hmark := not_mem_literal (b := Ascii.semicolon) (by decide) (by decide) w
    exact ⟨(ih hafter hbehind).1.text_append hquote hmark, rfl⟩

end Inline

/-! ## Includes -/

namespace Line

/-- The word of a line that includes a file. -/
def includeWord (f : Text) : Text := ascii "+=\"" ++ (f ++ [Ascii.quote])

theorem includeWord_append (f after : Text) :
    includeWord f ++ after =
      Ascii.plus :: Ascii.equals :: Ascii.quote :: (f ++ Ascii.quote :: after) := by
  have hstart : ascii "+=\"" = [Ascii.plus, Ascii.equals, Ascii.quote] := by decide
  simp [includeWord, hstart]

theorem dropWhile_includeWord {lead : Text} (hlead : ∀ b ∈ lead, isBlank b = true)
    (f after : Text) :
    (lead ++ (includeWord f ++ after)).dropWhile isBlank =
      Ascii.plus :: Ascii.equals :: Ascii.quote :: (f ++ Ascii.quote :: after) := by
  have hplus : isBlank Ascii.plus = false := by decide
  rw [List.dropWhile_append_of_pos hlead, includeWord_append]
  simp [hplus]

/-- A line that includes a file has blanks, the word, and maybe more blanks. -/
theorem includedFile?_eq_some {t f : Text} (h : includedFile? t = some f) :
    ∃ lead trail, t = lead ++ (includeWord f ++ trail) ∧ lead ≠ [] ∧
      (∀ b ∈ lead, isBlank b = true) ∧ Ascii.quote ∉ f ∧ ∀ b ∈ trail, isBlank b = true := by
  have hlead (b : UInt8) (hb : b ∈ t.takeWhile isBlank) : isBlank b = true :=
    List.mem_takeWhile_imp hb
  unfold includedFile? at h
  split at h
  · rename_i rest hrest
    dsimp only at h
    split at h
    · rename_i q trail htrail
      split at h
      · rename_i hcond
        obtain ⟨⟨hfirst, _⟩, hblank⟩ : (t.head?.any isBlank = true ∧ _) ∧
            trail.all isBlank = true := by
          simpa only [Bool.and_eq_true] using hcond
        obtain rfl : rest.takeWhile (· != Ascii.quote) = f := Option.some.inj h
        have hq : q = Ascii.quote := by
          have hstop := List.head?_dropWhile_not (· != Ascii.quote) rest
          simpa [htrail] using hstop
        have hname : rest.takeWhile (· != Ascii.quote) ++ Ascii.quote :: trail = rest := by
          have hsplit := List.takeWhile_append_dropWhile (p := (· != Ascii.quote)) (l := rest)
          rwa [htrail, hq] at hsplit
        have htext : t.takeWhile isBlank ++
            Ascii.plus :: Ascii.equals :: Ascii.quote :: rest = t := by
          have hsplit := List.takeWhile_append_dropWhile (p := isBlank) (l := t)
          rwa [hrest] at hsplit
        refine ⟨t.takeWhile isBlank, trail, ?_, ?_, hlead, ?_, List.all_eq_true.1 hblank⟩
        · rw [includeWord_append, hname, htext]
        · cases t with
          | nil => cases hfirst
          | cons b t => simp [show isBlank b = true from hfirst]
        · intro hmem
          have hno := List.mem_takeWhile_imp hmem
          simp at hno
      · cases h
    · cases h
  · cases h

/-- Behind the word there may be blanks only. -/
theorem includedFile?_eq_none {lead f after : Text} (hlead : ∀ b ∈ lead, isBlank b = true)
    (hf : Ascii.quote ∉ f) (ha : ∃ b ∈ after, isBlank b = false) :
    includedFile? (lead ++ (includeWord f ++ after)) = none := by
  have hname : ∀ b ∈ f, (b != Ascii.quote) = true := by
    intro b hb
    exact bne_iff_ne.2 fun hq => hf (hq ▸ hb)
  have hrest : (f ++ Ascii.quote :: after).dropWhile (· != Ascii.quote) = Ascii.quote :: after := by
    rw [List.dropWhile_append_of_pos hname]
    simp
  have hblank : after.all isBlank = false := by
    simpa using ha
  unfold includedFile?
  rw [dropWhile_includeWord hlead]
  split
  · rename_i rest heq
    obtain rfl := (List.cons.inj (List.cons.inj (List.cons.inj heq).2).2).2
    dsimp only
    rw [hrest]
    simp [hblank]
  · rfl

/-- Up to its first quote an include has nothing but blanks and `+=`. -/
theorem includedFile?_of_semicolon {t : Text} (hq : Ascii.quote ∉ t) (hs : Ascii.semicolon ∈ t)
    (rest : Text) : includedFile? (t ++ rest) = none := by
  cases h : includedFile? (t ++ rest) with
  | none => rfl
  | some f =>
    obtain ⟨lead, trail, htext, _, hlead, _⟩ := includedFile?_eq_some h
    have hstart : lead ++ (includeWord f ++ trail) =
        lead ++ [Ascii.plus, Ascii.equals] ++ Ascii.quote :: (f ++ Ascii.quote :: trail) := by
      simp [includeWord_append]
    rw [hstart] at htext
    have hfront : Ascii.semicolon ∈ lead ++ [Ascii.plus, Ascii.equals] := by
      rcases List.append_eq_append_iff.1 htext with ⟨x, hx, _⟩ | ⟨x, hx, hrest⟩
      · rw [hx]
        exact List.mem_append_left x hs
      · cases x with
        | nil =>
          rw [List.append_nil] at hx
          rwa [← hx]
        | cons b x =>
          obtain ⟨rfl, _⟩ := List.cons.inj hrest
          simp [hx] at hq
    rcases List.mem_append.1 hfront with hmem | hmem
    · cases hlead _ hmem
    · exact absurd hmem (by decide)

theorem startsLabel_of_isBlank {b : UInt8} (h : isBlank b = true) : startsLabel b = false := by
  have hb : b = 0x09 ∨ b = 0x0A ∨ b = 0x0C ∨ b = 0x0D ∨ b = 0x20 := by
    simpa [isBlank, or_assoc] using h
  rcases hb with rfl | rfl | rfl | rfl | rfl <;> decide

theorem words_includeWord {lead f trail : Text} (hlead : ∀ b ∈ lead, isBlank b = true)
    (hf : Ascii.quote ∉ f) (htrail : ∀ b ∈ trail, isBlank b = true) :
    words (lead ++ (includeWord f ++ trail)) = [includeWord f] := by
  have hplus : isBlank Ascii.plus = false ∧ (Ascii.plus == Ascii.quote) = false := by decide
  have hequals : isBlank Ascii.equals = false ∧ (Ascii.equals == Ascii.quote) = false := by decide
  have hquote : isBlank Ascii.quote = false := by decide
  have hend : word false trail = ([], trail) := by
    cases trail with
    | nil => rfl
    | cons b trail => simp [word, htrail b List.mem_cons_self]
  have hself : includeWord f =
      Ascii.plus :: Ascii.equals :: Ascii.quote :: (f ++ [Ascii.quote]) := by
    simpa using includeWord_append f []
  have hword : word false (Ascii.plus :: Ascii.equals :: Ascii.quote ::
      (f ++ Ascii.quote :: trail)) = (includeWord f, trail) := by
    simp [word_step (.inl hplus.1), word_step (.inl hequals.1), word_step (.inl hquote), hplus.2,
      hequals.2, word_quoted_append hf, hend, hself]
  have hnone : words trail = [] := words_of_blank (by simpa using htrail)
  rw [words_cons (dropWhile_includeWord hlead f trail), hword, hnone]

theorem not_mem_of_blank {t : Text} {b : UInt8} (h : ∀ b ∈ t, isBlank b = true)
    (hb : isBlank b = false) : b ∉ t := by
  intro hmem
  rw [h b hmem] at hb
  cases hb

theorem stripComment_includeWord {lead f blank : Text} (hlead : ∀ b ∈ lead, isBlank b = true)
    (hf : Ascii.quote ∉ f) (hblank : ∀ b ∈ blank, isBlank b = true) (c : Text) :
    stripComment (lead ++ (includeWord f ++ (blank ++ (ascii ";;" ++ c)))) =
      lead ++ (includeWord f ++ blank) := by
  have hquote : isBlank Ascii.quote = false := by decide
  have hmark : isBlank Ascii.semicolon = false := by decide
  have hword (rest : Text) :
      beforeComment false (Ascii.plus :: Ascii.equals :: Ascii.quote :: rest) =
        Ascii.plus :: Ascii.equals :: Ascii.quote :: beforeComment true rest := rfl
  have hcomment : beforeComment false (ascii ";;" ++ c) = [] := rfl
  unfold stripComment
  rw [beforeComment_append (not_mem_of_blank hlead hquote) (.inr (not_mem_of_blank hlead hmark)),
    includeWord_append, includeWord_append, hword, beforeComment_append hf (.inl rfl),
    beforeComment_quote, Bool.not_true,
    beforeComment_append (not_mem_of_blank hblank hquote) (.inr (not_mem_of_blank hblank hmark)),
    hcomment, List.append_nil]

theorem trimEnd_includeWord (lead f blank : Text) :
    trimEnd (lead ++ (includeWord f ++ blank)) = lead ++ (includeWord f ++ trimEnd blank) := by
  have hquote : isTrimmed Ascii.quote = false := by decide
  have hend (rest : Text) : lead ++ (includeWord f ++ rest) =
      lead ++ ascii "+=\"" ++ f ++ Ascii.quote :: rest := by
    simp [includeWord]
  rw [hend, hend, trimEnd_append_cons hquote]

/-- An include with a comment behind it is read as a statement of one word. -/
theorem parse_include {lead f blank : Text} (hne : lead ≠ [])
    (hlead : ∀ b ∈ lead, isBlank b = true) (hf : Ascii.quote ∉ f)
    (hblank : ∀ b ∈ blank, isBlank b = true) (c : Text) (number : Int) :
    parse (lead ++ (includeWord f ++ (blank ++ (ascii ";;" ++ c)))) number =
      (Statement.parse (includeWord f)).map fun st =>
        { number, file := [], text := lead ++ (includeWord f ++ (blank ++ (ascii ";;" ++ c))),
          label := [], statements := [st] } := by
  have hlabel (body : Text) : splitLabel? (lead ++ body) = some ([], lead ++ body) := by
    cases lead with
    | nil => exact absurd rfl hne
    | cons b lead => simp [splitLabel?, startsLabel_of_isBlank (hlead b List.mem_cons_self)]
  have htrail : ∀ b ∈ trimEnd blank, isBlank b = true := fun b hb =>
    hblank b ((trimEnd_isPrefix blank).subset hb)
  unfold parse
  rw [stripComment_includeWord hlead hf hblank, trimEnd_includeWord, hlabel]
  dsimp only
  rw [words_includeWord hlead hf htrail, List.mapM_cons]
  cases Statement.parse (includeWord f) <;> rfl

end Line

end Asm6502
