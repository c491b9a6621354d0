-- Comments. A line is looked at for an include and for inline expressions before
-- its comment is taken off, so a comment is not always without effect. Laws: on a
-- plain line it changes nothing but the text that the line shows, if its own
-- inline expressions have values and none of the line runs on into it; an
-- expression of it without a value is an error; and behind an include it makes
-- an ordinary statement of the line.
import Asm6502.Proofs.CommentedLine
import Asm6502.Proofs.Splicing

namespace Asm6502

/-! ## A line with a comment -/

namespace Source

theorem dropReturn_append {back : Text} (h : back ≠ []) (front : Text) :
    dropReturn (front ++ back) = front ++ dropReturn back := by
  unfold dropReturn
  rw [List.getLast?_append_of_ne_nil front h, List.dropLast_append_of_ne_nil h]
  split <;> rfl

/-- The end of a physical line that is not read. -/
def lineEnd (raw : Text) : Text :=
  if raw.getLast? == some Ascii.carriageReturn then [Ascii.carriageReturn] else []

theorem dropReturn_append_lineEnd (raw : Text) : dropReturn raw ++ lineEnd raw = raw := by
  unfold dropReturn lineEnd
  split
  · rename_i h
    exact List.dropLast_append_getLast? _ (by simpa using h)
  · exact List.append_nil raw

theorem length_lineEnd (raw : Text) : (lineEnd raw).length ≤ 1 := by
  unfold lineEnd
  split <;> simp

/-- Text that is put behind a line keeps the carriage return of the line. -/
theorem dropReturn_remark (raw comment : Text) :
    dropReturn (raw ++ ascii " ;;" ++ comment) =
      dropReturn raw ++ (lineEnd raw ++ [Ascii.space]) ++ ascii ";;" ++ dropReturn comment := by
  have hcomment : dropReturn (ascii " ;;" ++ comment) = ascii " ;;" ++ dropReturn comment := by
    cases comment with
    | nil => decide
    | cons b comment => exact dropReturn_append (by simp) (ascii " ;;")
  have hmark : ascii " ;;" = [Ascii.space] ++ ascii ";;" := by decide
  have hne : ascii " ;;" ++ comment ≠ [] := by simp [hmark]
  rw [List.append_assoc, dropReturn_append hne, hcomment, ← List.append_assoc (dropReturn raw),
    dropReturn_append_lineEnd, hmark]
  simp

theorem isTrimmed_of_mem_lineEnd {raw : Text} {b : UInt8}
    (h : b ∈ lineEnd raw ++ [Ascii.space]) : Line.isTrimmed b = true := by
  rcases List.mem_append.1 h with h | h
  · unfold lineEnd at h
    split at h
    · rw [List.mem_singleton.1 h]
      rfl
    · cases h
  · rw [List.mem_singleton.1 h]
    rfl

/-- A physical line, and the same line with a comment behind blanks. What is read
of a physical line does not hold its carriage return. -/
structure Remark where
  raw : Text
  remarked : Text
  pad : Text
  comment : Text
  remarked_eq : dropReturn remarked = dropReturn raw ++ pad ++ ascii ";;" ++ comment
  pad_ne_nil : pad ≠ []
  pad_trimmed : ∀ b ∈ pad, Line.isTrimmed b = true
  short : remarked.length < lineLimit

/-- What is read of the line. -/
def Remark.text (r : Remark) : Text := dropReturn r.raw

/-- What is read of the line with its comment. -/
def Remark.textWith (r : Remark) : Text := dropReturn r.remarked

/-- Puts ` ;;` and a comment behind a physical line. -/
def Remark.behind (raw comment : Text) (h : (raw ++ ascii " ;;" ++ comment).length < lineLimit) :
    Remark where
  raw
  remarked := raw ++ ascii " ;;" ++ comment
  pad := lineEnd raw ++ [Ascii.space]
  comment := dropReturn comment
  remarked_eq := dropReturn_remark raw comment
  pad_ne_nil := by simp
  pad_trimmed := fun _ => isTrimmed_of_mem_lineEnd
  short := h

variable {settings one other : Settings} {being : List Text} {file : Text} {r : Remark}

theorem Remark.textWith_eq (r : Remark) :
    r.textWith = r.text ++ r.pad ++ ascii ";;" ++ r.comment := r.remarked_eq

theorem Remark.raw_short (r : Remark) : r.raw.length < lineLimit := by
  have hraw := congrArg List.length (dropReturn_append_lineEnd r.raw)
  have hremarked := congrArg List.length (dropReturn_append_lineEnd r.remarked)
  have hend := length_lineEnd r.raw
  have hmark : (ascii ";;").length = 2 := by decide
  have hshort := r.short
  rw [r.remarked_eq] at hremarked
  simp only [List.length_append, hmark] at hraw hremarked
  omega

theorem Remark.not_mem_pad (r : Remark) {b : UInt8} (hb : isBlank b = false) : b ∉ r.pad :=
  Line.not_mem_of_blank (fun b hb => Line.isBlank_of_isTrimmed (r.pad_trimmed b hb)) hb

theorem Remark.dollar_not_mem_mark (r : Remark) : Ascii.dollar ∉ r.pad ++ ascii ";;" := by
  have hmark : Ascii.dollar ∉ ascii ";;" := by decide
  simpa [hmark] using r.not_mem_pad (by decide)

/-- The line and its comment are expanded one by one if no expression of the line
runs on. -/
theorem Remark.expand_textWith (r : Remark) (evaluate : Inline.Evaluator) (number : Int)
    (h : Inline.Apart r.text r.comment) :
    Inline.expand evaluate number r.textWith =
      Inline.expand evaluate number r.comment >>= fun c =>
        (Inline.expand evaluate number r.text).map (· ++ r.pad ++ ascii ";;" ++ c) := by
  have hparen : Ascii.rightParen ∉ r.pad ++ ascii ";;" := by
    have hmark : Ascii.rightParen ∉ ascii ";;" := by decide
    simpa [hmark] using r.not_mem_pad (by decide)
  have hhead : (r.pad ++ ascii ";;" ++ r.comment).head? ≠ some Ascii.leftParen := by
    rw [List.append_assoc]
    exact Line.head?_append_ne r.pad_ne_nil (r.not_mem_pad (by decide)) _
  have htext : r.textWith = r.text ++ (r.pad ++ ascii ";;" ++ r.comment) := by
    simp [r.textWith_eq]
  rw [htext, Inline.expand_append (h.text_append r.dollar_not_mem_mark hparen) hhead,
    Inline.expand_text_append r.dollar_not_mem_mark]
  cases Inline.expand evaluate number r.comment with
  | error e => rfl
  | ok c =>
    cases Inline.expand evaluate number r.text with
    | error e => rfl
    | ok z => simp [Except.map, bind, Except.bind]

/-! ## What is read -/

/-- Two readings differ in nothing but what is shown of one line: the lines are the
same but for its text, or the errors are alike but for its text. An error that
quotes the whole line quotes the comment too. -/
inductive SameButText (file : Text) (number : Int) (text text' : Text) :
    Except Error (List Line) → Except Error (List Line) → Prop
  | read (front back : List Line) (label : Text) (statements : List Statement) :
    SameButText file number text text'
      (.ok (front ++ { number, file, text, label, statements } :: back))
      (.ok (front ++ { number, file, text := text', label, statements } :: back))
  | elsewhere {e e' : Error} (h : e.Alike e') :
    SameButText file number text text' (.error e) (.error e')
  | here {cause cause' : Error} (h : cause.Alike cause') :
    SameButText file number text text' (.error (.located file number text cause))
      (.error (.located file number text' cause'))
  | badLine {z z' : Text} (h : z <+: z') :
    SameButText file number text text'
      (.error (.located file number text (.line (.badLine z))))
      (.error (.located file number text' (.line (.badLine z'))))

/-- The number of the line behind others. -/
def lineNumber (before : List Text) : Int := before.length + 1

/-- What reading a file gives if one of its lines stands for `own`. -/
def around (settings : Settings) (being : List Text) (file : Text) (before : List Text)
    (own : Except Error (List Line)) (after : List Text) : Except Error (List Line) := do
  let front ← readRaws settings being file 1 before
  let lines ← own
  let back ← readRaws settings being file (lineNumber before + 1) after
  return front ++ lines ++ back

theorem lines_readContent {content : Text} {before after : List Text} {raw : Text}
    (h : rawLines content = before ++ raw :: after) :
    (readContent settings being file (.text content)).lines =
      around settings being file before
        (readRaw settings being file (lineNumber before) raw) after := by
  have hlines : (readContent settings being file (.text content)).lines =
      readRaws settings being file 1 (rawLines content) := rfl
  have hnumber : 1 + (before.length : Int) = lineNumber before := Int.add_comm _ _
  rw [hlines, h, readRaws_append, hnumber, readRaws_cons]
  unfold around
  cases readRaws settings being file 1 before with
  | error e => rfl
  | ok front =>
    cases readRaw settings being file (lineNumber before) raw with
    | error e => rfl
    | ok lines =>
      cases readRaws settings being file (lineNumber before + 1) after with
      | error e => rfl
      | ok back => simp [bind, Except.bind, Except.map, pure, Except.pure]

theorem Settings.Alike.readRaws (h : one.Alike other) (being : List Text) (file : Text)
    (number : Int) (raws : List Text) :
    Except.SameBut Error.Alike (readRaws one being file number raws)
      (readRaws other being file number raws) :=
  (h.readLines (h.readFile being) file _ number _).lines_alike

/-- What surrounds the line is read alike. -/
theorem SameButText.around {number : Int} {text text' : Text} {own own' : Except Error (List Line)}
    (h : SameButText file number text text' own own') (halike : one.Alike other)
    (before after : List Text) :
    SameButText file number text text' (around one being file before own after)
      (Source.around other being file before own' after) := by
  unfold Source.around
  have hbefore := halike.readRaws being file 1 before
  have hafter := halike.readRaws being file (lineNumber before + 1) after
  revert hbefore hafter
  generalize readRaws one being file 1 before = x
  generalize readRaws other being file 1 before = y
  generalize readRaws one being file (lineNumber before + 1) after = z
  generalize readRaws other being file (lineNumber before + 1) after = w
  intro hbefore hafter
  cases hbefore with
  | error he => exact .elsewhere he
  | ok front =>
    cases h with
    | read first last label statements =>
      cases hafter with
      | error he => exact .elsewhere he
      | ok back =>
        have hread : SameButText file number text text' _ _ :=
          .read (front ++ first) (last ++ back) label statements
        simpa [bind, Except.bind, pure, Except.pure] using hread
    | elsewhere he => exact .elsewhere he
    | here hcause => exact .here hcause
    | badLine hz => exact .badLine hz

/-- A line that includes nothing stands for itself. -/
theorem readRaw_of_not_included {number : Int} {raw : Text} (hshort : raw.length < lineLimit)
    (h : Line.includedFile? (dropReturn raw) = none) :
    readRaw settings being file number raw =
      (readLine settings file number (dropReturn raw)).map fun line => [line] := by
  unfold readRaw standsFor
  rw [if_pos hshort, h]

theorem Remark.not_included_of_plain (h : Line.Plain r.text) :
    Line.includedFile? r.text = none ∧ Line.includedFile? r.textWith = none := by
  have hquote : Ascii.quote ∉ r.text ++ r.pad ++ ascii ";;" := by
    have hmark : Ascii.quote ∉ ascii ";;" := by decide
    simpa [hmark, h.1] using r.not_mem_pad (by decide)
  have hmark : Ascii.semicolon ∈ ascii ";;" := by decide
  constructor
  · cases hf : Line.includedFile? r.text with
    | none => rfl
    | some f =>
      obtain ⟨lead, trail, htext, _⟩ := Line.includedFile?_eq_some hf
      rw [Line.includeWord_append] at htext
      exact absurd (by simp [htext]) h.1
  · rw [r.textWith_eq]
    exact Line.includedFile?_of_semicolon hquote (List.mem_append_right _ hmark) r.comment

/-- A comment makes no difference to a plain line if it can be expanded. -/
theorem Remark.readLine_same {number : Int} (halike : one.Alike other)
    (hplain : Line.Plain r.text) (hapart : Inline.Apart r.text r.comment)
    (hvalued : Inline.Valued other.evaluate number r.comment) :
    SameButText file number r.text r.textWith
      ((readLine one file number r.text).map fun line => [line])
      ((readLine other file number r.textWith).map fun line => [line]) := by
  obtain ⟨c, hc⟩ := Inline.expand_isOk_iff.2 hvalued
  have hexpand := r.expand_textWith other.evaluate number hapart
  rw [hc] at hexpand
  have htext := halike.evaluate_alike.expand number r.text
  unfold readLine
  rw [hexpand]
  cases hz : Inline.expand one.evaluate number r.text with
  | error e =>
    rw [hz] at htext
    cases hz' : Inline.expand other.evaluate number r.text with
    | ok z' =>
      rw [hz'] at htext
      cases htext
    | error e' =>
      rw [hz'] at htext
      cases htext with
      | error he => exact .here (.inline he)
  | ok z =>
    rw [htext.eq_ok hz]
    have hstrip := Line.trimEnd_stripComment (Inline.plain_of_expand hplain hz).1 r.pad_ne_nil
      r.pad_trimmed c
    dsimp only [bind, Except.bind, Except.map]
    rcases Line.parse_congr hstrip number with ⟨hbad, hbad'⟩ | hsame
    · rw [hbad, hbad']
      exact .badLine (by simp)
    · rw [hsame]
      cases hline : Line.parse z number with
      | error e => exact .here (.same (.line e))
      | ok line =>
        obtain rfl := number_of_parse hline
        exact .read [] [] line.label line.statements

theorem Remark.readRaw_same {number : Int} (halike : one.Alike other)
    (hplain : Line.Plain r.text) (hapart : Inline.Apart r.text r.comment)
    (hvalued : Inline.Valued other.evaluate number r.comment) :
    SameButText file number r.text r.textWith (readRaw one being file number r.raw)
      (readRaw other being file number r.remarked) := by
  obtain ⟨hnone, hnone'⟩ := r.not_included_of_plain hplain
  rw [readRaw_of_not_included r.raw_short hnone, readRaw_of_not_included r.short hnone']
  exact r.readLine_same halike hplain hapart hvalued

theorem Remark.readRaw_of_expand (hplain : Line.Plain r.text) {number : Int} {e : Inline.Error}
    (h : Inline.expand settings.evaluate number r.textWith = .error e) :
    readRaw settings being file number r.remarked =
      .error (.located file number r.textWith (.inline e)) := by
  rw [readRaw_of_not_included r.short (r.not_included_of_plain hplain).2]
  unfold readLine
  rw [show Inline.expand _ _ (dropReturn r.remarked) = _ from h]
  rfl

/-- Of several errors on a line the last one counts, so an expression of the
comment without a value is what is told of the line. -/
theorem Remark.readRaw_not_valued (r : Remark) (being : List Text) (file : Text) {number : Int}
    (hplain : Line.Plain r.text) (hapart : Inline.Apart r.text r.comment)
    (hno : ¬ Inline.Valued settings.evaluate number r.comment) :
    ∃ e : Inline.Error, Inline.Piece.inline e.expression ∈ Inline.pieces r.comment ∧
      settings.evaluate number e.expression = .error e.fault ∧
      readRaw settings being file number r.remarked =
        .error (.located file number r.textWith (.inline e)) := by
  cases he : Inline.expand settings.evaluate number r.comment with
  | ok c => exact absurd (Inline.expand_isOk_iff.1 ⟨c, he⟩) hno
  | error e =>
    obtain ⟨hmem, hfault⟩ := Inline.expand_eq_error he
    have hexpand := r.expand_textWith settings.evaluate number hapart
    rw [he] at hexpand
    exact ⟨e, hmem, hfault, r.readRaw_of_expand hplain hexpand⟩

/-- An expression of the line that runs on has the start of the comment in it. -/
theorem Remark.readRaw_not_apart (r : Remark) (being : List Text) (file : Text) (number : Int)
    (hplain : Line.Plain r.text) (hno : ¬ Inline.Apart r.text r.comment) :
    ∃ e, Inline.Piece.inline e ∈ Inline.pieces r.textWith ∧ ascii ";;" <:+: e ∧
      ∀ fault, settings.evaluate number e = .error fault →
        ∃ last, readRaw settings being file number r.remarked =
          .error (.located file number r.textWith (.inline last)) := by
  obtain ⟨e, hmem, hin⟩ := Inline.exists_inline_of_not_apart hno r.dollar_not_mem_mark
  have htext : r.text ++ (r.pad ++ ascii ";;" ++ r.comment) = r.textWith := by
    simp [r.textWith_eq]
  rw [htext] at hmem
  refine ⟨e, hmem, (List.suffix_append r.pad _).isInfix.trans hin, ?_⟩
  intro fault hfault
  cases hexpand : Inline.expand settings.evaluate number r.textWith with
  | error last => exact ⟨last, r.readRaw_of_expand hplain hexpand⟩
  | ok z =>
    obtain ⟨v, hv⟩ := Inline.expand_isOk_iff.1 ⟨z, hexpand⟩ e hmem
    cases hv.symm.trans hfault

theorem Remark.readRaw_include {number : Int} {f : Text}
    (h : Line.includedFile? r.text = some f) :
    readRaw settings being file number r.raw =
      (readFile settings being (Path.relativeTo file f)).lines.mapError
        (.located file number r.text) := by
  unfold readRaw standsFor
  rw [if_pos r.raw_short, show Line.includedFile? (dropReturn r.raw) = _ from h]
  rfl

/-- A line that includes a file includes nothing with a comment behind it. -/
theorem Remark.not_included_of_include {f : Text} (h : Line.includedFile? r.text = some f) :
    Line.includedFile? r.textWith = none := by
  obtain ⟨lead, trail, htext, _, hlead, hf, _⟩ := Line.includedFile?_eq_some h
  have hwith : r.textWith =
      lead ++ (Line.includeWord f ++ (trail ++ r.pad ++ ascii ";;" ++ r.comment)) := by
    simp [r.textWith_eq, htext]
  rw [hwith]
  apply Line.includedFile?_eq_none hlead hf
  have hmark : Ascii.semicolon ∈ ascii ";;" := by decide
  exact ⟨Ascii.semicolon, by simp [hmark], by decide⟩

/-- It is read as the statement that the word of the include makes. -/
theorem Remark.readLine_include {number : Int} {f : Text}
    (h : Line.includedFile? r.text = some f) (hdollar : Ascii.dollar ∉ f)
    (hvalued : Inline.Valued settings.evaluate number r.comment) :
    readLine settings file number r.textWith =
      ((Statement.parse (Line.includeWord f)).mapError fun e =>
        .located file number r.textWith (.line e)).map fun st =>
          { number, file, text := r.textWith, label := [], statements := [st] } := by
  obtain ⟨lead, trail, htext, hne, hlead, hf, htrail⟩ := Line.includedFile?_eq_some h
  obtain ⟨c, hc⟩ := Inline.expand_isOk_iff.2 hvalued
  have hblank : ∀ b ∈ trail ++ r.pad, isBlank b = true := by
    intro b hb
    rcases List.mem_append.1 hb with hb | hb
    · exact htrail b hb
    · exact Line.isBlank_of_isTrimmed (r.pad_trimmed b hb)
  have hfront : Ascii.dollar ∉ lead ++ (Line.includeWord f ++ (trail ++ r.pad ++ ascii ";;")) := by
    have hword : Ascii.dollar ∉ Line.includeWord f := by
      have hstart : Ascii.dollar ∉ ascii "+=\"" ∧ Ascii.dollar ≠ Ascii.quote := by decide
      simp [Line.includeWord, hstart, hdollar]
    have hmark : Ascii.dollar ∉ ascii ";;" := by decide
    have hspace : isBlank Ascii.dollar = false := by decide
    have hl := Line.not_mem_of_blank hlead hspace
    have ht := Line.not_mem_of_blank hblank hspace
    simp only [List.mem_append, not_or] at ht ⊢
    exact ⟨hl, hword, ht, hmark⟩
  have hwith : r.textWith =
      lead ++ (Line.includeWord f ++ (trail ++ r.pad ++ ascii ";;")) ++ r.comment := by
    simp [r.textWith_eq, htext]
  have hexpand : Inline.expand settings.evaluate number r.textWith =
      .ok (lead ++ (Line.includeWord f ++ (trail ++ r.pad ++ (ascii ";;" ++ c)))) := by
    rw [hwith, Inline.expand_text_append hfront, hc]
    simp [Except.map]
  unfold readLine
  rw [hexpand]
  dsimp only
  rw [Line.parse_include hne hlead hf hblank]
  cases Statement.parse (Line.includeWord f) <;> rfl

/-- Comments are inert on plain lines. Put behind a line without quotes and without
another comment, a comment changes nothing but the text of the line if no
expression of the line runs on into it and its own expressions have values. If
one of those has none, that is the error of the line. An expression that runs on
is evaluated with the start of the comment in it.
A line that includes a file stands for the lines of that file. With a comment
behind it, it is an ordinary line with the one statement `+="file"`, and no file
is read.
This holds whatever evaluates the expressions, and the two readings need not go
over malformed constants in the same order. -/
theorem comments_are_inert_on_plain_lines {one other : Settings} (halike : one.Alike other)
    (being : List Text) (file : Text) {content content' : Text} {before after : List Text}
    (r : Remark) (h : rawLines content = before ++ r.raw :: after)
    (h' : rawLines content' = before ++ r.remarked :: after) :
    (Line.Plain r.text →
      (Inline.Apart r.text r.comment →
        Inline.Valued other.evaluate (lineNumber before) r.comment →
        SameButText file (lineNumber before) r.text r.textWith
          (readContent one being file (.text content)).lines
          (readContent other being file (.text content')).lines) ∧
      (Inline.Apart r.text r.comment →
        ¬ Inline.Valued other.evaluate (lineNumber before) r.comment →
        ∃ e : Inline.Error, Inline.Piece.inline e.expression ∈ Inline.pieces r.comment ∧
          other.evaluate (lineNumber before) e.expression = .error e.fault ∧
          (readContent other being file (.text content')).lines =
            around other being file before
              (.error (.located file (lineNumber before) r.textWith (.inline e))) after) ∧
      (¬ Inline.Apart r.text r.comment →
        ∃ e, Inline.Piece.inline e ∈ Inline.pieces r.textWith ∧ ascii ";;" <:+: e ∧
          ∀ fault, other.evaluate (lineNumber before) e = .error fault →
            ∃ last, (readContent other being file (.text content')).lines =
              around other being file before
                (.error (.located file (lineNumber before) r.textWith (.inline last))) after)) ∧
    ∀ f, Line.includedFile? r.text = some f →
      (readContent one being file (.text content)).lines =
        around one being file before
          ((readFile one being (Path.relativeTo file f)).lines.mapError
            (.located file (lineNumber before) r.text)) after ∧
      (readContent other being file (.text content')).lines =
        around other being file before
          ((readLine other file (lineNumber before) r.textWith).map fun line => [line]) after ∧
      (Ascii.dollar ∉ f → Inline.Valued other.evaluate (lineNumber before) r.comment →
        readLine other file (lineNumber before) r.textWith =
          ((Statement.parse (Line.includeWord f)).mapError fun e =>
            .located file (lineNumber before) r.textWith (.line e)).map fun st =>
              { number := lineNumber before, file, text := r.textWith, label := [],
                statements := [st] }) := by
  rw [lines_readContent h, lines_readContent h']
  refine ⟨fun hplain => ⟨?_, ?_, ?_⟩, ?_⟩
  · intro hapart hvalued
    exact (r.readRaw_same halike hplain hapart hvalued).around halike before after
  · intro hapart hno
    obtain ⟨e, hmem, hfault, hraw⟩ := r.readRaw_not_valued being file hplain hapart hno
    exact ⟨e, hmem, hfault, by rw [hraw]⟩
  · intro hno
    obtain ⟨e, hmem, hin, hfails⟩ :=
      r.readRaw_not_apart being file (lineNumber before) hplain hno
    refine ⟨e, hmem, hin, fun fault hfault => ?_⟩
    obtain ⟨last, hraw⟩ := hfails fault hfault
    exact ⟨last, by rw [hraw]⟩
  · intro f hf
    refine ⟨by rw [r.readRaw_include hf], ?_, r.readLine_include hf⟩
    rw [readRaw_of_not_included r.short (r.not_included_of_include hf)]
    rfl

/-- A file that can be included. -/
def tables : Files where
  entries := [(ascii "part.s", .text (ascii " X=2\n"))]
  refusal := fun _ => []

def sizes : Inline.Predefines := [(ascii "LOW", ascii "1"), (ascii "HIGH", ascii "2")]

def sumRemark : Remark :=
  .behind (ascii " A=$(LOW+2)") (ascii " so $(HIGH+1)") (by decide +kernel)

def includeRemark : Remark := .behind (ascii " +=\"part.s\"") (ascii " tables") (by decide +kernel)

/-- The line with the comment is read with the constants the other way round. -/
theorem remarks_on_a_sum_and_an_include :
    SameButText (ascii "main.s") 1 (ascii " A=$(LOW+2)") (ascii " A=$(LOW+2) ;; so $(HIGH+1)")
      (readContent (.inOrder tables .builtIn sizes) [] (ascii "main.s")
        (.text (ascii " A=$(LOW+2)\n X=1\n"))).lines
      (readContent (.inOrder tables .builtIn sizes.reverse) [] (ascii "main.s")
        (.text (ascii " A=$(LOW+2) ;; so $(HIGH+1)\n X=1\n"))).lines ∧
    (readContent (.inOrder tables .builtIn sizes.reverse) [] (ascii "main.s")
        (.text (ascii " +=\"part.s\" ;; tables\n"))).lines =
      .ok [{ number := 1, file := ascii "main.s", text := ascii " +=\"part.s\" ;; tables",
             label := [], statements := [⟨.system (ascii "+"), .string (ascii "part.s")⟩] }] := by
  have hnumber : lineNumber [] = 1 := rfl
  have halike : (Settings.inOrder tables .builtIn sizes).Alike
      (.inOrder tables .builtIn sizes.reverse) :=
    ⟨rfl, Inline.evaluate_perm .builtIn (List.reverse_perm sizes).symm (by decide)⟩
  constructor
  · have hraw : rawLines (ascii " A=$(LOW+2)\n X=1\n") = [] ++ sumRemark.raw :: [ascii " X=1"] := by
      decide +kernel
    have hremarked : rawLines (ascii " A=$(LOW+2) ;; so $(HIGH+1)\n X=1\n") =
        [] ++ sumRemark.remarked :: [ascii " X=1"] := by
      decide +kernel
    have hplain : Line.Plain sumRemark.text := by decide +kernel
    have hapart : Inline.Apart sumRemark.text sumRemark.comment := fun _ _ _ =>
      .inr (by decide +kernel)
    have hvalued : Inline.Valued (Inline.evaluate .builtIn sizes.reverse) (lineNumber [])
        sumRemark.comment :=
      Inline.expand_isOk_iff.1 ⟨ascii " so $03", by decide +kernel⟩
    have htext : sumRemark.text = ascii " A=$(LOW+2)" := by decide +kernel
    have hwith : sumRemark.textWith = ascii " A=$(LOW+2) ;; so $(HIGH+1)" := by decide +kernel
    have hinert := comments_are_inert_on_plain_lines halike [] (ascii "main.s") sumRemark hraw
      hremarked
    have hsame := (hinert.1 hplain).1 hapart hvalued
    rwa [hnumber, htext, hwith] at hsame
  · have hraw : rawLines (ascii " +=\"part.s\"\n") = [] ++ includeRemark.raw :: [] := by
      decide +kernel
    have hremarked : rawLines (ascii " +=\"part.s\" ;; tables\n") =
        [] ++ includeRemark.remarked :: [] := by
      decide +kernel
    have hf : Line.includedFile? includeRemark.text = some (ascii "part.s") := by decide +kernel
    have hvalued : Inline.Valued (Inline.evaluate .builtIn sizes.reverse) (lineNumber [])
        includeRemark.comment :=
      Inline.expand_isOk_iff.1 ⟨ascii " tables", by decide +kernel⟩
    have hwith : includeRemark.textWith = ascii " +=\"part.s\" ;; tables" := by decide +kernel
    have hstatement : Statement.parse (Line.includeWord (ascii "part.s")) =
        .ok ⟨.system (ascii "+"), .string (ascii "part.s")⟩ := by
      decide +kernel
    obtain ⟨_, hlines, hline⟩ := (comments_are_inert_on_plain_lines halike [] (ascii "main.s")
      includeRemark hraw hremarked).2 _ hf
    rw [hlines, hline (by decide +kernel) hvalued, hstatement, hnumber, hwith]
    unfold around
    rw [readRaws_nil, readRaws_nil]
    rfl

end Source

end Asm6502
