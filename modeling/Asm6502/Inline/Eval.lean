-- Running an inline program. It fails in one of three phases: it does not
-- parse, it uses names it must not use, or an operation fails when it runs.
import Asm6502.Inline.Builtin
import Asm6502.Inline.Interpreter

namespace Asm6502

namespace Inline

abbrev Bindings := List (Text × Value)

/-! ## Names -/

def Passing.rank : Passing → Nat
  | .plain => 0
  | .named _ => 1
  | .spread => 2
  | .spreadNamed => 3

/-- The most arguments of a kind in one call. -/
def argumentLimit : Nat := 255

/-- Whether the arguments of a call come in order: plain ones, then named ones
with different names, and then at most one sequence and one mapping. -/
def isCallable (args : List Passing) : Bool :=
  let ranks := args.map Passing.rank
  let names : List Text := args.filterMap fun
    | .named key => some key
    | _ => none
  (ranks.zip ranks.tail).all (fun (a, b) => a ≤ b) && decide names.Nodup &&
    ranks.count 0 ≤ argumentLimit && names.length ≤ argumentLimit &&
    ranks.count 2 ≤ 1 && ranks.count 3 ≤ 1

mutual

/-- Whether a term uses only known names, and all its calls are in order. -/
def Term.isScoped (known : Text → Bool) : Term → Bool
  | .name name => known name
  | .int _ | .float .. | .string _ => true
  | .unary _ x | .paren x | .attribute x _ => x.isScoped known
  | .binary _ x y | .index x y => x.isScoped known && y.isScoped known
  | .choice yes condition no =>
    yes.isScoped known && condition.isScoped known && no.isScoped known
  | .tuple items | .list items => allScoped known items
  | .call f args => f.isScoped known && isCallable (args.map (·.1)) && argumentsScoped known args

def allScoped (known : Text → Bool) : List Term → Bool
  | [] => true
  | x :: rest => x.isScoped known && allScoped known rest

def argumentsScoped (known : Text → Bool) : List (Passing × Term) → Bool
  | [] => true
  | (_, x) :: rest => x.isScoped known && argumentsScoped known rest

end

mutual

def Term.targets : Term → List Text
  | .name name => [name]
  | .paren x => x.targets
  | .tuple items | .list items => allTargets items
  | _ => []

def allTargets : List Term → List Text
  | [] => []
  | x :: rest => x.targets ++ allTargets rest

end

mutual

/-- Whether a term can be assigned to: a name, an item, an attribute, or a
sequence of these. -/
def Term.isTarget (known : Text → Bool) : Term → Bool
  | .name _ => true
  | .paren x => x.isTarget known
  | .tuple items | .list items => allAreTargets known items
  | .index x i => x.isScoped known && i.isScoped known
  | .attribute x _ => x.isScoped known
  | _ => false

def allAreTargets (known : Text → Bool) : List Term → Bool
  | [] => true
  | x :: rest => x.isTarget known && allAreTargets known rest

end

def Term.bare : Term → Term
  | .paren x => x.bare
  | x => x

def Term.isSequence : Term → Bool
  | .tuple _ | .list _ => true
  | _ => false

def assigned (program : List Command) : List Text :=
  program.flatMap fun
    | .assign _ target _ => target.targets
    | _ => []

/-- Whether a statement uses known names only and assigns to what it can. An
assignment with an operator has a single target. -/
def Command.isScoped (known : Text → Bool) : Command → Bool
  | .assign op target value =>
    value.isScoped known && target.isTarget known && !(op.isSome && target.bare.isSequence)
  | .expression x => x.isScoped known
  | .pass => true
  | .leave _ => false

/-- Whether a program assigns no name twice and uses only names that it
assigns, that are given, or that need no definition. -/
def isScoped (given : Text → Option Int) (program : List Command) : Bool :=
  let own := assigned program
  let known (name : Text) : Bool :=
    own.contains name || (given name).isSome || (universal? name).isSome
  decide own.Nodup && program.all (Command.isScoped known)

/-! ## Terms -/

/-- Where a program finds its names: a name that it assigns anywhere has no
value before that assignment has run. -/
structure Scope where
  own : List Text
  given : Text → Option Int
  globals : Bindings

def Scope.value? (scope : Scope) (name : Text) : Option Value :=
  if scope.own.contains name then scope.globals.lookup name
  else ((scope.given name).map .int).or (universal? name)

/-- The arguments of a call in order: the plain ones, and the items of the
sequence. No value is a mapping. -/
def plainArguments? (store : Store) : List (Passing × Value) → Option (List Value)
  | [] => some []
  | (.plain, x) :: rest => (plainArguments? store rest).map (x :: ·)
  | (.named _, _) :: rest => plainArguments? store rest
  | (.spread, x) :: rest => do return (← x.sequence? store) ++ (← plainArguments? store rest)
  | (.spreadNamed, _) :: _ => none

def namedArguments (args : List (Passing × Value)) : List (Text × Value) :=
  args.filterMap fun
    | (.named key, x) => some (key, x)
    | _ => none

def Value.call? (store : Store) (args : List (Passing × Value)) : Value → Option Value
  | .builtin name => do
    Builtin.call? store name (← plainArguments? store args) (namedArguments args)
  | _ => none

mutual

def Term.eval (scope : Scope) : Term → Run Value
  | .name name => liftM (scope.value? name)
  | .int n => pure (.int n)
  | .float mantissa exponent => pure (.float (Double.ofScientific mantissa exponent))
  | .string s => pure (.string s)
  | .unary op x => do
    let v ← x.eval scope
    Run.read fun store => v.unary? store op
  | .binary .or x y => do
    let v ← x.eval scope
    if v.truth (← get) then return v else y.eval scope
  | .binary .and x y => do
    let v ← x.eval scope
    if v.truth (← get) then y.eval scope else return v
  | .binary op x y => do
    let v ← x.eval scope
    let w ← y.eval scope
    Value.binary op v w
  | .choice yes condition no => do
    let v ← condition.eval scope
    if v.truth (← get) then yes.eval scope else no.eval scope
  | .paren x => x.eval scope
  | .tuple items => return .tuple (← evalAll scope items)
  | .list items => do
    let values ← evalAll scope items
    Run.newList values
  | .index x i => do
    let v ← x.eval scope
    let k ← i.eval scope
    Run.read fun store => v.index? store k
  | .attribute .. => failure
  | .call f args => do
    let g ← f.eval scope
    let values ← evalArguments scope args
    Run.read fun store => g.call? store values

def evalAll (scope : Scope) : List Term → Run (List Value)
  | [] => pure []
  | x :: rest => do
    let v ← x.eval scope
    let vs ← evalAll scope rest
    return v :: vs

def evalArguments (scope : Scope) : List (Passing × Term) → Run (List (Passing × Value))
  | [] => pure []
  | (passing, x) :: rest => do
    let v ← x.eval scope
    let vs ← evalArguments scope rest
    return (passing, v) :: vs

end

/-! ## Assignments -/

def Scope.assign (scope : Scope) (name : Text) (v : Value) : Scope :=
  { scope with globals := (name, v) :: scope.globals }

mutual

/-- Assigns a value to a target. A sequence of targets takes as many items. -/
def Term.assign (scope : Scope) (v : Value) : Term → Run Scope
  | .name name => pure (scope.assign name v)
  | .paren x => x.assign scope v
  | .tuple items | .list items => do
    let values ← Run.read fun store => v.sequence? store
    assignAll scope items values
  | .index x i => do
    let a ← x.eval scope
    let k ← i.eval scope
    a.setItem k v
    return scope
  | _ => failure

def assignAll (scope : Scope) : List Term → List Value → Run Scope
  | [], [] => pure scope
  | x :: rest, v :: values => do
    let scope ← x.assign scope v
    assignAll scope rest values
  | _, _ => failure

end

def Value.augment (op : BinaryOp) (x y : Value) : Run Value :=
  match op with
  | .add => x.addInPlace y
  | _ => Value.binary op x y

/-- Assigns to a target what an operator makes of its value and another. -/
def Term.augment (scope : Scope) (op : BinaryOp) (target value : Term) : Run Scope :=
  match target.bare with
  | .name own => do
    let v ← scope.value? own
    let w ← value.eval scope
    return scope.assign own (← v.augment op w)
  | .index x i => do
    let a ← x.eval scope
    let k ← i.eval scope
    let v ← Run.read fun store => a.index? store k
    let w ← value.eval scope
    a.setItem k (← v.augment op w)
    return scope
  | _ => failure

/-! ## Programs -/

def Command.run (scope : Scope) : Command → Run Scope
  | .assign none target value => do
    let v ← value.eval scope
    target.assign scope v
  | .assign (some op) target value => Term.augment scope op target value
  | .expression x => do
    let _ ← x.eval scope
    return scope
  | .pass => pure scope
  | .leave _ => failure

/-- Runs a program with the given names. Gives the names that it assigned. -/
def run (given : Text → Option Int) (program : Text) : Except Phase Bindings :=
  match parse program with
  | none => .error .syntactic
  | some commands =>
    if isScoped given commands then
      let start : Scope := { own := assigned commands, given, globals := [] }
      match (commands.foldlM Command.run start).run {} with
      | some (scope, _) => .ok scope.globals
      | none => .error .running
    else .error .names

def integerOf (globals : Bindings) (name : Text) : Option Int :=
  match globals.lookup name with
  | some (.int n) => some n
  | _ => none

/-- The interpreter of the program. It tells the phase in which a program fails,
and one word for all that can be wrong. -/
def Interpreter.builtIn : Interpreter where
  run given program :=
    match Inline.run given program with
    | .error phase => .error { phase, text := ascii "<starlark>" }
    | .ok globals => .ok (integerOf globals)

end Inline

end Asm6502
