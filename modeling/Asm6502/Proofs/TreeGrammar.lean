-- The trees that are read from operand text. They are phrases of a grammar of
-- four levels: terms, arithmetic, comparisons and lists. What a tree of the
-- grammar looks like is also said node by node, for those who take it apart.
import Asm6502.Error
import Asm6502.Proofs.RoundTrip

namespace Asm6502

/-! ## The grammar of trees -/

/-- The operators of address arithmetic. -/
def Operator.isArithmetic : Operator → Bool
  | .add | .sub | .mul | .div | .and | .or | .xor => true
  | _ => false

namespace Expr

/-- The kinds of phrases, the smallest first. -/
inductive Phrase where
  | term
  | arithmetic
  | comparison
  | list
deriving DecidableEq, Repr

/-- Numbers, strings and names. -/
def isAtom : Expr → Bool
  | .decimal _ | .byte _ | .word _ | .string _ | .ident _ => true
  | _ => false

/-- The bytes of system operators. -/
def systemBytes : Text := ascii "-<>=/\\+_#!^~][:?*$@;()"

/-- A system operator is one byte, repeated; an opening bracket is not repeated. -/
def IsSystemRun (run : Text) : Prop :=
  ∃ b n, run = List.replicate (n + 1) b ∧ b ∈ systemBytes ∧
    (b = Ascii.leftParen ∨ b = Ascii.leftBracket → n = 0)

/-- The trees of each kind of phrase. -/
inductive Derived : Phrase → Expr → Prop
  | atom {e : Expr} : e.isAtom = true → Derived .term e
  | highByte (name : Text) : Derived .term (.highByte (.ident name))
  | lowByte (name : Text) : Derived .term (.lowByte (.ident name))
  | paren {e : Expr} : Derived .list e → Derived .term (.paren e)
  | bracket {e : Expr} : Derived .list e → Derived .term (.bracket e)
  | system {run : Text} : IsSystemRun run → Derived .term (.system run)
  | ofTerm {e : Expr} : Derived .term e → Derived .arithmetic e
  | arithmetic {left right : Expr} {op : Operator} : Derived .term left →
      op.isArithmetic = true → Derived .arithmetic right →
      Derived .arithmetic (.binary left op right)
  | ofArithmetic {e : Expr} : Derived .arithmetic e → Derived .comparison e
  | comparison {left right : Expr} {op : Operator} : Derived .arithmetic left →
      op.isComparison = true → Derived .arithmetic right →
      Derived .comparison (.binary left op right)
  | ofComparison {e : Expr} : Derived .comparison e → Derived .list e
  | comma {left right : Expr} : Derived .comparison left → Derived .list right →
      Derived .list (.binary left .comma right)

end Expr

/-! ## The reader keeps to the grammar -/

namespace Grammar

open Asm6502.Expr (Derived IsSystemRun)

namespace Reading

/-- Every tree that a reading matches has a property. -/
def Gives {tokens : List Token} (reading : Reading tokens) (P : Expr → Prop) : Prop :=
  ∀ e rest h, reading = .matched e rest h → P e

theorem gives_matched {tokens rest : List Token} {e : Expr} {P : Expr → Prop}
    {h : rest.length < tokens.length} (he : P e) : (matched e rest h : Reading tokens).Gives P := by
  intro e' rest' h' heq
  injection heq with heq
  exact heq ▸ he

theorem gives_absent {tokens : List Token} {P : Expr → Prop} :
    (absent : Reading tokens).Gives P := by
  intro e rest h heq
  cases heq

theorem gives_aborted {tokens : List Token} {P : Expr → Prop} :
    (aborted : Reading tokens).Gives P := by
  intro e rest h heq
  cases heq

theorem Gives.joined {tokens : List Token} {left : Reading tokens} {op? : Token → Option Operator}
    {right : (after : List Token) → after.length < tokens.length → Reading after}
    {P Q R : Expr → Prop} (hleft : left.Gives P) (hright : ∀ after h, (right after h).Gives Q)
    (halone : ∀ l, P l → R l)
    (hjoin : ∀ l token op r, P l → op? token = some op → Q r → R (.binary l op r)) :
    (left.joined op? right).Gives R := by
  cases left with
  | absent => exact gives_absent
  | aborted => exact gives_aborted
  | matched l rest h =>
    have hl : P l := hleft l rest h rfl
    cases rest with
    | nil => exact gives_matched (halone l hl)
    | cons token after =>
      simp only [Reading.joined]
      cases hop : op? token with
      | none => exact gives_matched (halone l hl)
      | some op =>
        have hlt : after.length < tokens.length := by
          rw [List.length_cons] at h
          omega
        have hr := hright after hlt
        simp only
        cases hright' : right after hlt with
        | absent => exact gives_matched (halone l hl)
        | aborted => exact gives_aborted
        | matched r rest h' =>
          exact gives_matched (hjoin l token op r hl hop (hr r rest h' hright'))

theorem Gives.grouped {rest : List Token} {inner : Reading rest} {P R : Expr → Prop}
    {opening closing : UInt8} {wrap : Expr → Expr} (hinner : inner.Gives P)
    (hwrap : ∀ e, P e → R (wrap e)) (halone : R (.system [opening])) :
    (inner.grouped opening closing wrap).Gives R := by
  cases inner with
  | absent => exact gives_matched halone
  | aborted => exact gives_aborted
  | matched e rest' h =>
    unfold Reading.grouped
    simp only
    split
    · exact gives_matched (hwrap e (hinner e rest' h rfl))
    · split
      · exact gives_aborted
      · exact gives_matched halone

end Reading

theorem isArithmetic_of_operator? {token : Token} {op : Operator}
    (h : arithmeticOperator? token = some op) : op.isArithmetic = true := by
  cases token with
  | hex | decimal | string | name => cases h
  | mark b =>
    simp only [arithmeticOperator?] at h
    repeat' split at h
    all_goals cases h
    all_goals rfl

theorem isComparison_of_operator? {token : Token} {op : Operator}
    (h : comparisonOperator? token = some op) : op.isComparison = true := by
  cases token with
  | hex | decimal | string | name => cases h
  | mark b =>
    simp only [comparisonOperator?] at h
    repeat' split at h
    all_goals cases h
    all_goals rfl

theorem eq_comma_of_operator? {token : Token} {op : Operator}
    (h : commaOperator? token = some op) : op = .comma := by
  cases token with
  | hex | decimal | string | name => cases h
  | mark b =>
    simp only [commaOperator?] at h
    split at h
    · cases h
      rfl
    · cases h

theorem isAtom_hexLiteral (digits : Text) : (hexLiteral digits).isAtom = true := by
  unfold hexLiteral
  split
  · rfl
  · rfl

/-- The bytes that are repeated are system bytes, and no opening brackets. -/
theorem isSystemRun_of_runBytes {b : UInt8} (h : runBytes.contains b = true) (n : Nat) :
    IsSystemRun (List.replicate (n + 1) b) := by
  have hall : ∀ b ∈ runBytes,
      b ∈ Expr.systemBytes ∧ ¬ (b = Ascii.leftParen ∨ b = Ascii.leftBracket) := by
    decide +kernel
  obtain ⟨hmem, hopening⟩ := hall b (List.contains_iff_mem.1 h)
  exact ⟨b, n, rfl, hmem, fun hb => absurd hb hopening⟩

theorem systemRun_derived (b : UInt8) (rest : List Token) :
    (systemRun b rest).Gives (Derived .term) := by
  unfold systemRun
  split
  · rename_i hb
    exact Reading.gives_matched (.system (isSystemRun_of_runBytes hb _))
  · exact Reading.gives_absent

theorem markedTerm_derived (b : UInt8) (rest : List Token) :
    (markedTerm b rest).Gives (Derived .term) := by
  unfold markedTerm
  split
  · rename_i name after
    simp only
    split
    · exact Reading.gives_matched (.lowByte name)
    · split
      · exact Reading.gives_matched (.highByte name)
      · exact systemRun_derived b _
  · exact systemRun_derived b rest

theorem term_derived {tokens : List Token}
    (hlist : ∀ rest : List Token, rest.length < tokens.length → (list rest).Gives (Derived .list)) :
    (term tokens).Gives (Derived .term) := by
  have hopening {b : UInt8} (hb : b = Ascii.leftParen ∨ b = Ascii.leftBracket) :
      Derived .term (.system [b]) := by
    refine .system ⟨b, 0, rfl, ?_, fun _ => rfl⟩
    rcases hb with rfl | rfl
    · decide
    · decide
  cases tokens with
  | nil =>
    rw [term]
    exact Reading.gives_absent
  | cons token rest =>
    cases token with
    | hex digits =>
      rw [term]
      exact Reading.gives_matched (.atom (isAtom_hexLiteral digits))
    | decimal | string | name =>
      rw [term]
      exact Reading.gives_matched (.atom rfl)
    | mark b =>
      have hinner := hlist rest (by simp)
      rw [term]
      split
      · rename_i hb
        exact hinner.grouped (fun e he => .paren he) (hopening (Or.inl (eq_of_beq hb)))
      · split
        · rename_i hb
          exact hinner.grouped (fun e he => .bracket he) (hopening (Or.inr (eq_of_beq hb)))
        · exact markedTerm_derived b rest

/-- Each phrase of the reader gives trees of its own kind. Behind an operator
the reader goes on with fewer tokens, so the induction is on their number. -/
theorem phrases_derived (tokens : List Token) :
    (list tokens).Gives (Derived .list) ∧ (arithmetic tokens).Gives (Derived .arithmetic) := by
  induction hn : tokens.length using Nat.strong_induction_on generalizing tokens with
  | _ n ih =>
    subst hn
    have hterm := term_derived fun rest hlt => (ih _ hlt rest rfl).1
    have harith : (arithmetic tokens).Gives (Derived .arithmetic) := by
      rw [arithmetic]
      refine hterm.joined (fun after h => (ih _ h after rfl).2) (fun l => .ofTerm) ?_
      intro l token op r hl hop hr
      exact .arithmetic hl (isArithmetic_of_operator? hop) hr
    have hcomparison : (comparison tokens).Gives (Derived .comparison) := by
      rw [comparison]
      refine harith.joined (fun after h => (ih _ h after rfl).2) (fun l => .ofArithmetic) ?_
      intro l token op r hl hop hr
      exact .comparison hl (isComparison_of_operator? hop) hr
    refine ⟨?_, harith⟩
    rw [list]
    refine hcomparison.joined (fun after h => (ih _ h after rfl).1) (fun l => .ofComparison) ?_
    intro l token op r hl hop hr
    rw [eq_comma_of_operator? hop]
    exact .comma hl hr

end Grammar

namespace Expr

/-! ## The grammar at each node -/

/-- The trees right below the root. -/
def children : Expr → List Expr
  | .highByte e | .lowByte e | .paren e | .bracket e => [e]
  | .binary left _ right => [left, right]
  | _ => []

/-- A tree and all trees inside it. -/
def nodes : Expr → List Expr
  | .highByte e => .highByte e :: nodes e
  | .lowByte e => .lowByte e :: nodes e
  | .paren e => .paren e :: nodes e
  | .bracket e => .bracket e :: nodes e
  | .binary left op right => .binary left op right :: (nodes left ++ nodes right)
  | e => [e]

def isGroup : Expr → Bool
  | .paren _ | .bracket _ => true
  | _ => false

/-- The operator at the root. -/
def rootOperator? : Expr → Option Operator
  | .binary _ op _ => some op
  | _ => none

def isComma (e : Expr) : Bool := e.rootOperator? == some .comma

/-- The number of comparisons outside of groups. -/
def comparisons : Expr → Nat
  | .binary left op right =>
    left.comparisons + right.comparisons + if op.isComparison then 1 else 0
  | .highByte e | .lowByte e => e.comparisons
  | _ => 0

/-- Each element of a list has at most one comparison, at its root. -/
def ComparesOnce (list : Expr) : Prop :=
  ∀ element ∈ list.elements,
    element.comparisons = if element.rootOperator?.any Operator.isComparison then 1 else 0

/-- What holds at a node of a tree. -/
structure Regular (node : Expr) : Prop where
  /-- A comma stands inside a group or beside another comma. -/
  commas : ∀ child ∈ node.children, child.isComma = true →
    node.isGroup = true ∨ node.isComma = true
  /-- Commas lean to the right. -/
  leaning : ∀ left right, node = .binary left .comma right → left.isComma = false
  groups : node.isGroup = true → ∀ inner ∈ node.children, inner.ComparesOnce
  /-- Arithmetic leans to the right, and holds no other operators. -/
  arithmetic : ∀ left op right, node = .binary left op right → op.isArithmetic = true →
    left.rootOperator? = none ∧ ∀ op', right.rootOperator? = some op' → op'.isArithmetic = true
  operators : ∀ op, node.rootOperator? = some op →
    op.isArithmetic = true ∨ op.isComparison = true ∨ op = .comma
  halves : ∀ inner, node = .highByte inner ∨ node = .lowByte inner → ∃ name, inner = .ident name
  runs : ∀ run, node = .system run → IsSystemRun run
  nonempty : node ≠ .empty

/-- The language of trees: a list with at most one comparison in each element,
made of regular nodes. -/
structure InLanguage (e : Expr) : Prop where
  elements : e.ComparesOnce
  nodes : ∀ node ∈ e.nodes, node.Regular

theorem elements_of_not_isComma {e : Expr} (h : e.isComma = false) : e.elements = [e] := by
  cases e with
  | binary left op right =>
    cases op with
    | comma => simp [isComma, rootOperator?] at h
    | _ => rfl
  | _ => rfl

theorem isArithmetic_cases {op : Operator} (h : op.isArithmetic = true) :
    op.isComparison = false ∧ op ≠ .comma := by
  cases op <;> simp_all [Operator.isArithmetic, Operator.isComparison]

theorem isComparison_cases {op : Operator} (h : op.isComparison = true) :
    op.isArithmetic = false ∧ op ≠ .comma := by
  cases op <;> simp_all [Operator.isArithmetic, Operator.isComparison]

/-- What the root of a phrase tells. -/
def RootOf : Phrase → Expr → Prop
  | .term, e => e.rootOperator? = none ∧ e.comparisons = 0
  | .arithmetic, e =>
    (∀ op, e.rootOperator? = some op → op.isArithmetic = true) ∧ e.comparisons = 0
  | .comparison, e => e.isComma = false ∧ e.ComparesOnce
  | .list, e => e.ComparesOnce

theorem RootOf.not_isComma {e : Expr} (h : RootOf .arithmetic e) : e.isComma = false := by
  by_cases hc : e.rootOperator? = some .comma
  · exact absurd (h.1 _ hc) (by decide)
  · simpa [isComma] using hc

theorem RootOf.arithmetic {e : Expr} (h : RootOf .term e) : RootOf .arithmetic e := by
  refine ⟨?_, h.2⟩
  intro op hop
  rw [h.1] at hop
  cases hop

theorem RootOf.comparison {e : Expr} (h : RootOf .arithmetic e) : RootOf .comparison e := by
  refine ⟨h.not_isComma, ?_⟩
  intro element hmem
  rw [elements_of_not_isComma h.not_isComma, List.mem_singleton] at hmem
  subst hmem
  have hroot : element.rootOperator?.any Operator.isComparison = false := by
    cases hop : element.rootOperator? with
    | none => rfl
    | some op => exact (isArithmetic_cases (h.1 op hop)).1
  simp [hroot, h.2]

theorem Derived.rootOf {phrase : Phrase} {e : Expr} (h : Derived phrase e) : RootOf phrase e := by
  induction h with
  | @atom e he =>
    cases e with
    | decimal | byte | word | string | ident => exact ⟨rfl, rfl⟩
    | _ => cases he
  | highByte | lowByte | paren | bracket | system => exact ⟨rfl, rfl⟩
  | ofTerm _ ih => exact ih.arithmetic
  | @arithmetic left right op _ hop _ ihl ihr =>
    have hcomparison := (isArithmetic_cases hop).1
    constructor
    · intro op' hroot
      cases hroot
      exact hop
    · simp [comparisons, ihl.2, ihr.2, hcomparison]
  | ofArithmetic _ ih => exact ih.comparison
  | @comparison left right op _ hop _ ihl ihr =>
    have hcomma : (Expr.binary left op right).isComma = false := by
      simp [isComma, rootOperator?, (isComparison_cases hop).2]
    refine ⟨hcomma, ?_⟩
    intro element hmem
    rw [elements_of_not_isComma hcomma, List.mem_singleton] at hmem
    subst hmem
    simp [comparisons, rootOperator?, ihl.2, ihr.2, hop]
  | ofComparison _ ih => exact ih.2
  | @comma left right _ _ ihl ihr =>
    intro element hmem
    rw [elements, List.mem_cons] at hmem
    rcases hmem with rfl | hmem
    · exact ihl.2 element (by simp [elements_of_not_isComma ihl.1])
    · exact ihr element hmem

theorem regular_atom {e : Expr} (h : e.isAtom = true) : e.Regular := by
  cases e with
  | decimal | byte | word | string | ident =>
    constructor <;> simp [children, isGroup, rootOperator?]
  | _ => cases h

theorem regular_system {run : Text} (h : IsSystemRun run) : (system run).Regular := by
  constructor <;> simp [children, isGroup, rootOperator?, h]

theorem regular_half (name : Text) :
    (highByte (ident name)).Regular ∧ (lowByte (ident name)).Regular := by
  constructor
  · constructor <;> simp [children, isGroup, isComma, rootOperator?]
  · constructor <;> simp [children, isGroup, isComma, rootOperator?]

theorem regular_group {inner : Expr} (h : inner.ComparesOnce) :
    (paren inner).Regular ∧ (bracket inner).Regular := by
  constructor
  · constructor <;> simp [children, isGroup, rootOperator?, h]
  · constructor <;> simp [children, isGroup, rootOperator?, h]

theorem regular_arithmetic {left right : Expr} {op : Operator} (hl : RootOf .term left)
    (hop : op.isArithmetic = true) (hr : RootOf .arithmetic right) :
    (binary left op right).Regular where
  commas := by simp [children, hl.arithmetic.not_isComma, hr.not_isComma]
  leaning := by simp [isComma, hl.1]
  groups := by simp [isGroup]
  arithmetic := by
    intro left' op' right' heq _
    cases heq
    exact ⟨hl.1, hr.1⟩
  operators := by simp [rootOperator?, hop]
  halves := by simp
  runs := by simp
  nonempty := by simp

theorem regular_comparison {left right : Expr} {op : Operator} (hl : RootOf .arithmetic left)
    (hop : op.isComparison = true) (hr : RootOf .arithmetic right) :
    (binary left op right).Regular where
  commas := by simp [children, hl.not_isComma, hr.not_isComma]
  leaning := by
    intro left' right' heq
    cases heq
    exact hl.not_isComma
  groups := by simp [isGroup]
  arithmetic := by
    intro left' op' right' heq harith
    cases heq
    rw [(isComparison_cases hop).1] at harith
    cases harith
  operators := by simp [rootOperator?, hop]
  halves := by simp
  runs := by simp
  nonempty := by simp

theorem regular_comma {left right : Expr} (hl : left.isComma = false) :
    (binary left .comma right).Regular where
  commas := by simp [isComma, rootOperator?]
  leaning := by
    intro left' right' heq
    cases heq
    exact hl
  groups := by simp [isGroup]
  arithmetic := by
    intro left' op' right' heq harith
    cases heq
    cases harith
  operators := by simp [rootOperator?]
  halves := by simp
  runs := by simp
  nonempty := by simp

theorem regular_binary {left right : Expr} {op : Operator} (h : (binary left op right).Regular)
    (hl : ∀ node ∈ left.nodes, node.Regular) (hr : ∀ node ∈ right.nodes, node.Regular) :
    ∀ node ∈ (binary left op right).nodes, node.Regular := by
  intro node hmem
  simp only [nodes, List.mem_cons, List.mem_append] at hmem
  rcases hmem with rfl | hmem | hmem
  · exact h
  · exact hl node hmem
  · exact hr node hmem

/-- A tree of the grammar is regular at every node. -/
theorem Derived.regular {phrase : Phrase} {e : Expr} (h : Derived phrase e) :
    ∀ node ∈ e.nodes, node.Regular := by
  induction h with
  | @atom e he =>
    have hnodes : e.nodes = [e] := by cases e <;> simp_all [isAtom, nodes]
    simpa [hnodes] using regular_atom he
  | highByte name | lowByte name =>
    simp [nodes, regular_half name, regular_atom (e := .ident name) rfl]
  | paren h ih | bracket h ih => simpa [nodes, regular_group h.rootOf] using ih
  | system hrun => simpa [nodes] using regular_system hrun
  | ofTerm _ ih | ofArithmetic _ ih | ofComparison _ ih => exact ih
  | arithmetic hl hop hr ihl ihr =>
    exact regular_binary (regular_arithmetic hl.rootOf hop hr.rootOf) ihl ihr
  | comparison hl hop hr ihl ihr =>
    exact regular_binary (regular_comparison hl.rootOf hop hr.rootOf) ihl ihr
  | comma hl _ ihl ihr => exact regular_binary (regular_comma hl.rootOf.1) ihl ihr

theorem Derived.inLanguage {e : Expr} (h : Derived .list e) : e.InLanguage :=
  ⟨h.rootOf, h.regular⟩

/-! ## Texts without a tree -/

/-- A text that is refused is named as a whole, or for a number of it that is
too large. -/
theorem parse_eq_error {text : Text} {error : ParseError} (h : parse text = .error error) :
    error = refusal text ∨ ∃ tokens token, Token.scan text = some tokens ∧ token ∈ tokens ∧
      token.inRange = false ∧ error = .notNumber token.numberText := by
  unfold parse at h
  split at h
  · cases h
  · split at h
    · cases h
      exact Or.inl rfl
    · rename_i tokens hscan
      split at h
      · split at h
        · rename_i token hfind
          cases h
          refine Or.inr ⟨tokens, token, hscan, List.mem_of_find?_eq_some hfind, ?_, rfl⟩
          simpa using List.find?_some hfind
        · cases h
      · cases h
        exact Or.inl rfl

/-- Every text that is read gives a tree of the grammar, and only the empty text
gives the empty tree. Every other text gives an error of the malformed class. -/
theorem parse_trees_stay_in_the_grammar (text : Text) :
    (∀ e, parse text = .ok e →
      text = [] ∧ e = .empty ∨ text ≠ [] ∧ Derived .list e ∧ e.InLanguage) ∧
    ∀ error, parse text = .error error →
      Error.Class.malformed ∈ (Error.line (.operand error)).classes ∧
        (error = refusal text ∨ ∃ tokens token, Token.scan text = some tokens ∧ token ∈ tokens ∧
          token.inRange = false ∧ error = .notNumber token.numberText) := by
  constructor
  · intro e h
    rcases parse_eq_ok h with hempty | ⟨ht, tokens, hlt, _, hlist⟩
    · exact Or.inl hempty
    · have hderived : Derived .list e := (Grammar.phrases_derived tokens).1 e [] hlt hlist
      exact Or.inr ⟨ht, hderived, hderived.inLanguage⟩
  · intro error h
    exact ⟨List.mem_singleton_self _, parse_eq_error h⟩

/-- A comparison in a group, a bracket that opens no group, and a list. -/
def mixed : Text := ascii "X>1,([p]+Y=2,\"s\"),<a-("

theorem mixed_is_in_the_grammar :
    (∃ e, parse mixed = .ok e ∧ Derived .list e ∧ e.InLanguage) ∧
      ∃ error, parse (ascii "a,$12345") = .error error ∧
        Error.Class.malformed ∈ (Error.line (.operand error)).classes := by
  constructor
  · obtain ⟨e, h⟩ : ∃ e, parse mixed = .ok e :=
      ⟨.binary (.binary (.ident (ascii "X")) .greater (.decimal 1)) .comma
        (.binary
          (.paren (.binary
            (.binary (.binary (.bracket (.ident (ascii "p"))) .add (.ident (ascii "Y"))) .equal
              (.decimal 2))
            .comma (.string (ascii "s"))))
          .comma (.binary (.lowByte (.ident (ascii "a"))) .sub (.system (ascii "(")))),
        by decide +kernel⟩
    rcases (parse_trees_stay_in_the_grammar mixed).1 e h with ⟨hnil, _⟩ | ⟨_, hderived⟩
    · cases hnil
    · exact ⟨e, h, hderived⟩
  · have h : parse (ascii "a,$12345") = .error (.notNumber (ascii "$12345")) := by decide +kernel
    exact ⟨_, h, ((parse_trees_stay_in_the_grammar _).2 _ h).1⟩

end Expr

end Asm6502
