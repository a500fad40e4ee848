import Brace.Program
import Brace.Predefined
import Brace.Scope

/-!
# Typing — what checking knows

Checking walks through a program once, in the order in which it is written, and keeps what it knows
in a `Checker`: what the names in scope mean, the classes declared so far, and where it is (in a
loop, in which function). It reports every violation it meets and goes on; an expression that
violates a rule has the type `any` from then on, so that one mistake is reported once.

This module has the checker's state and the questions asked of it. `Check` is the monad of
computations that read and change it.
-/

namespace Brace

/-- What a call of a function has to look like, and what it gives. -/
structure Signature where
  name    : String
  params  : List Ty
  returns : Ty
  deriving DecidableEq, Repr, Inhabited

def FuncDecl.signature (f : FuncDecl) : Signature := ⟨f.name, f.params.map (·.ty), f.returns⟩

/-- The members that one class declaration adds to those above it. -/
structure Members where
  name    : String
  fields  : Table Ty
  methods : Table Signature
  deriving Inhabited

/-- What is known of a class: its own members and the inherited ones, nearest first. -/
structure ClassInfo where
  own       : Members
  inherited : List Members
  deriving Inhabited

namespace ClassInfo

def name (c : ClassInfo) : String := c.own.name

/-- The members of the class and of those above it, from the class itself upwards. -/
def tiers (c : ClassInfo) : List Members := c.own :: c.inherited

/-- The nearest method of this name. -/
def method? (c : ClassInfo) (x : String) : Option Signature :=
  c.tiers.findSome? (·.methods.get? x)

/-- The nearest declaration of a field of this name. -/
def field? (c : ClassInfo) (x : String) : Option Ty := c.tiers.findSome? (·.fields.get? x)

/-- The class has this name, or one above it has. -/
def isA (c : ClassInfo) (x : String) : Bool := c.tiers.any (·.name == x)

end ClassInfo

/-- What a name means to checking. -/
inductive Symbol where
  | var (ty : Ty)
  /-- A predefined constant. -/
  | const (ty : Ty)
  /-- The object whose method is running: it can be read but not assigned to. -/
  | receiver (ty : Ty)
  | function (sig : Signature)
  | cls (info : ClassInfo)
  | builtin (b : Builtin)
  deriving Inhabited

namespace Symbol

/-- The type of the name as an expression. -/
def ty : Symbol → Ty
  | .var t | .const t | .receiver t => t
  | .function _ | .builtin _        => .function
  | .cls _                          => .any

/-- The kind of thing that the name is, for a report that it is the wrong kind. -/
def describe : Symbol → String
  | .var t | .const t        => t.text
  | .receiver _              => "this"
  | .function _ | .builtin _ => "function"
  | .cls _                   => "class"

end Symbol

/-- The function whose body is being checked. -/
structure Context where
  name    : String
  returns : Ty
  deriving DecidableEq, Repr, Inhabited

structure Checker where
  scopes   : Forest Symbol
  here     : Handle
  /-- The classes declared so far. -/
  classes  : Table ClassInfo
  errors   : Array Error
  warnings : Array Error
  inLoop   : Bool
  function : Option Context
  deriving Inhabited

abbrev Check := StateM Checker

namespace Checker

/-- A checker that has seen nothing but the predefined names. -/
def start : Checker :=
  let (scopes, here) := Forest.withFrozenRoot (predefined (Symbol.const ·.ty) Symbol.builtin)
  { scopes, here
    classes  := .empty
    errors   := #[]
    warnings := #[]
    inLoop   := false
    function := none }

/-- A value of type `received` may stand where `expected` is declared: it fits, or it is an object
of a class below the expected one, or it is nil where an object or an array may be missing. -/
def accepts (c : Checker) (expected received : Ty) : Bool :=
  expected.fits received ||
    match expected, received with
    | .object _, .nil | .array _, .nil => true
    | .object x, .object y =>
        match c.classes.get? y with
        | some info => info.isA x
        | none      => false
    | _, _ => false

end Checker

namespace Check

/-! ### Reports -/

def report (cause : Cause) (p : Position) : Check Unit :=
  modify fun c => { c with errors := c.errors.push ⟨cause, p⟩ }

def warn (cause : Cause) (p : Position) : Check Unit :=
  modify fun c => { c with warnings := c.warnings.push ⟨cause, p⟩ }

/-! ### Scopes -/

def push : Check Unit := modify fun c =>
  let here := c.here
  let (scopes, here) := c.scopes.push here
  { c with scopes, here }

/-- Leaves the innermost frame, or reports that there is none outside it. -/
def pop (p : Position) : Check Unit := do
  let c ← get
  match c.scopes.pop c.here with
  | .ok here => set { c with here }
  | .error e => report e p

/-- Binds a name in the current frame, or reports why it cannot be bound. -/
def define (x : String) (s : Symbol) (p : Position) : Check Bool := do
  let c ← get
  match c.scopes.definable c.here x with
  | .ok i    =>
      set { c with scopes := c.scopes.bind i x (some s) }
      pure true
  | .error e =>
      report e p
      pure false

/-- Puts a placeholder for a name in the current frame, or reports why that cannot be. -/
def declare (x : String) (p : Position) : Check Bool := do
  let c ← get
  match c.scopes.declarable c.here x with
  | .ok i    =>
      set { c with scopes := c.scopes.bind i x none }
      pure true
  | .error e =>
      report e p
      pure false

/-- What a name means, or a report that it means nothing yet. -/
def lookup (x : String) (p : Position) : Check (Option Symbol) := do
  let c ← get
  match c.scopes.lookup c.here x with
  | .ok s    => pure (some s)
  | .error e =>
      report e p
      pure none

/-! ### Types -/

/-- The type names only classes that exist. -/
def resolveTy (p : Position) : Ty → Check Bool
  | .object x => do
      if (← get).classes.contains x then pure true
      else
        report (.undefinedSymbol x) p
        pure false
  | .array t => resolveTy p t
  | _ => pure true

/-- Reports a value that may not stand where `expected` is declared. -/
def expectAccepted (expected received : Ty) (p : Position) : Check Unit := do
  if !(← get).accepts expected received then
    report (.typeMismatch expected.text received.text) p

/-- Reports a value that is neither of this type nor unknown. -/
def expectTy (expected received : Ty) (p : Position) : Check Unit := do
  if received != expected && !received.isAny then
    report (.typeMismatch expected.text received.text) p

/-- Reports an index that is neither a whole number nor unknown. -/
def expectIndex (t : Ty) (p : Position) : Check Unit := do
  if t != .int && !t.isAny then report (.indexType t.text) p

/-! ### Names -/

/-- The type of a name as an expression. -/
def tyOfName (x : String) (p : Position) : Check Ty := do
  match ← lookup x p with
  | some s => pure s.ty
  | none   => pure .any

/-- The type of the elements of the array that a variable holds. -/
def elementTy (x : String) (p : Position) : Check Ty := do
  match ← lookup x p with
  | none   => pure .any
  | some s =>
      match s.ty with
      | .array t => pure t
      | .any     => pure .any
      | t        =>
          report (.typeMismatch "array" t.text) p
          pure .any

/-- The declared type of a name, if it is a variable. -/
def assignable (x : String) (p : Position) : Check (Option Ty) := do
  match ← lookup x p with
  | none            => pure none
  | some (.var t)   => pure (some t)
  | some (.const _) =>
      report (.assignToConstant x) p
      pure none
  | some s          =>
      report (.typeMismatch "variable" s.describe) p
      pure none

/-- What is known of the class of an object of type `t`. Only an object has properties. -/
def classOf (t : Ty) (p : Position) : Check (Option ClassInfo) := do
  match t with
  | .object x => pure ((← get).classes.get? x)
  | .any      => pure none
  | _         =>
      report (.typeMismatch "class instance" t.text) p
      pure none

/-- The method that the superclass of the current class has under a name. -/
def superMethod (x : String) (p : Position) : Check (Option Signature) := do
  match ← lookup "super" p with
  | some (.cls info) =>
      match info.method? x with
      | some sig => pure (some sig)
      | none     =>
          report (.undefinedProperty x) p
          pure none
  | _ => pure none

end Check

end Brace
