import Brace.Position
import Brace.Text.Quoted

/-!
# Error — what can be wrong with a program

What can be wrong with a program, found by checking it or by running it. A `Cause` says what went
wrong and carries the names and numbers its message needs; an `Error` is a cause at a position.
Each cause has a name, a message, sometimes a tip, and a phase: a violation that checking reports,
a warning that checking reports, or a failure of a running program.
-/

namespace Brace

/-- What went wrong. -/
inductive Cause where
  -- Found by checking, though some of these also end a run.
  | undefinedSymbol (symbol : String)
  | redefinition (symbol : String)
  | selfReferentialInit (symbol : String)
  | typeMismatch (expected received : String)
  | unsupportedOperation (operator operands : String)
  | arityMismatch (callee : String) (expected received : Nat)
  | illegalBreakOrContinue (statement : String)
  | illegalReturn (reason : String)
  | missingReturn (function : String)
  | invalidCast (target source : String)
  | malformedFormat (reason : String)
  | indexType (received : String)
  | assignToConstant (symbol : String)
  | redundantCast (ty : String)
  -- Met only by a running program.
  | undefinedProperty (property : String)
  | notCallable (value : String)
  | notAnInstance (value : String)
  | indexOutOfBounds (index : Int) (length : Nat)
  | callArityMismatch (callee : String) (expected received : Nat)
  | builtinCallFailure (builtin reason : String)
  | divisionByZero
  | uninitializedVariable (symbol : String)
  | stackExhausted (depth : Nat)
  | allocationFailure (length : Int)
  | missingEntryPoint (reason : String)
  | scopeUnderflow
  | internalError (reason : String)
  deriving DecidableEq, Repr

/-- The part of a program's life in which an error shows. -/
inductive Phase where
  /-- Found by checking; the program is not run. -/
  | check
  /-- Found by checking; the program may run all the same. -/
  | warning
  /-- Met while running; the run ends. -/
  | runtime
  deriving DecidableEq, Repr

namespace Phase

def text : Phase → String
  | .check   => "check"
  | .warning => "warning"
  | .runtime => "runtime"

end Phase

namespace Cause

def name : Cause → String
  | .undefinedSymbol ..        => "UndefinedSymbol"
  | .redefinition ..           => "Redefinition"
  | .selfReferentialInit ..    => "SelfReferentialInit"
  | .typeMismatch ..           => "TypeMismatch"
  | .unsupportedOperation ..   => "UnsupportedOperation"
  | .arityMismatch ..          => "ArityMismatch"
  | .illegalBreakOrContinue .. => "IllegalBreakOrContinue"
  | .illegalReturn ..          => "IllegalReturn"
  | .missingReturn ..          => "MissingReturn"
  | .invalidCast ..            => "InvalidCast"
  | .malformedFormat ..        => "MalformedFormatString"
  | .indexType ..              => "IndexTypeError"
  | .assignToConstant ..       => "AssignToConstant"
  | .redundantCast ..          => "RedundantCast"
  | .undefinedProperty ..      => "UndefinedProperty"
  | .notCallable ..            => "NotCallable"
  | .notAnInstance ..          => "NotAnInstance"
  | .indexOutOfBounds ..       => "IndexOutOfBounds"
  | .callArityMismatch ..      => "CallArityMismatch"
  | .builtinCallFailure ..     => "BuiltinCallFailure"
  | .divisionByZero            => "DivisionByZero"
  | .uninitializedVariable ..  => "UninitializedVariable"
  | .stackExhausted ..         => "StackExhausted"
  | .allocationFailure ..      => "AllocationFailure"
  | .missingEntryPoint ..      => "MissingEntryPoint"
  | .scopeUnderflow            => "ScopeUnderflow"
  | .internalError ..          => "InternalError"

open Text (quote)

/-- One line that says what went wrong. Names are quoted; types, values and reasons are not. -/
def message : Cause → String
  | .undefinedSymbol symbol => quote symbol ++ " is not defined"
  | .redefinition symbol => quote symbol ++ " is already defined in this scope"
  | .selfReferentialInit symbol => quote symbol ++ " is referenced in its own initialization"
  | .typeMismatch expected received =>
      "types do not match: expected " ++ expected ++ ", received " ++ received
  | .unsupportedOperation operator operands =>
      "unsupported operation: " ++ operator ++ " between " ++ operands
  | .arityMismatch callee expected received =>
      "wrong number of arguments for " ++ quote callee ++ ": expected " ++ toString expected
        ++ ", received " ++ toString received
  | .illegalBreakOrContinue statement => statement ++ " used outside of a while/for loop"
  | .illegalReturn reason => "illegal return: " ++ reason
  | .missingReturn function =>
      "function " ++ quote function ++ " can reach the end of its body without returning a value"
  | .invalidCast target source => "cannot cast " ++ source ++ " to " ++ target
  | .malformedFormat reason => "malformed format string: " ++ reason
  | .indexType received => "array index must be int, received " ++ received
  | .assignToConstant symbol => "cannot assign to constant " ++ quote symbol
  | .redundantCast ty => "redundant cast to " ++ ty
  | .undefinedProperty property => "undefined property " ++ quote property
  | .notCallable value => value ++ " is not callable"
  | .notAnInstance value => value ++ " is not an instance"
  | .indexOutOfBounds index length =>
      "index " ++ toString index ++ " is out of bounds for an array of length " ++ toString length
  | .callArityMismatch callee expected received =>
      quote callee ++ " expected " ++ toString expected ++ " arguments, received "
        ++ toString received
  | .builtinCallFailure builtin reason => "builtin " ++ quote builtin ++ " failed: " ++ reason
  | .divisionByZero => "division by zero"
  | .uninitializedVariable symbol => quote symbol ++ " is read before it is assigned"
  | .stackExhausted depth => "call depth exceeded " ++ toString depth
  | .allocationFailure length => "cannot allocate an array of " ++ toString length ++ " elements"
  | .missingEntryPoint reason => "cannot start program: " ++ reason
  | .scopeUnderflow => "attempted to pop the outermost scope"
  | .internalError reason => "internal error: " ++ reason

/-- What the writer of the program might do about it. -/
def tip? : Cause → Option String
  | .undefinedSymbol symbol => some ("`" ++ symbol ++ "` must be declared before it is used")
  | .redefinition symbol =>
      some ("`" ++ symbol ++ "` is already declared in this scope, pick another name")
  | .selfReferentialInit symbol =>
      some ("`" ++ symbol ++ "` cannot be used in its own initializer")
  | .typeMismatch expected received =>
      some ("Expected type `" ++ expected ++ "`, received `" ++ received ++ "`")
  | .arityMismatch _ expected received | .callArityMismatch _ expected received =>
      some ("Expected " ++ toString expected ++ " arguments, received " ++ toString received)
  | .illegalBreakOrContinue _ => some "Only valid inside a `while` or `for` body"
  | .missingReturn _ => some "Every path through a non-void function must end in a `return`"
  | .invalidCast .. => some "Casts are only defined between `int`, `float`, `bool` and `string`"
  | .malformedFormat _ => some "Use `%d` for int, `%f` for float and `%s` for string arguments"
  | .indexType _ => some "Array indexes must be of type `int`"
  | .redundantCast ty =>
      some ("The expression already has type `" ++ ty ++ "`, the cast can be removed")
  | .indexOutOfBounds _ length => some ("Valid indexes are 0 to " ++ toString (length - 1))
  | .stackExhausted _ => some "Check for recursion without a base case"
  | _ => none

def phase : Cause → Phase
  | .redundantCast ..        => .warning
  | .undefinedSymbol ..
  | .redefinition ..
  | .selfReferentialInit ..
  | .typeMismatch ..
  | .unsupportedOperation ..
  | .arityMismatch ..
  | .illegalBreakOrContinue ..
  | .illegalReturn ..
  | .missingReturn ..
  | .invalidCast ..
  | .malformedFormat ..
  | .indexType ..
  | .assignToConstant ..     => .check
  | _                        => .runtime

end Cause

/-- A cause and the place in the program that it is blamed on. -/
structure Error where
  cause    : Cause
  position : Position
  deriving DecidableEq, Repr

namespace Error

def phase (e : Error) : Phase := e.cause.phase

/-- Blames the error on `p` unless its place is known already. -/
def orAt (e : Error) (p : Position) : Error := { e with position := e.position.orElse p }

@[simp] theorem orAt_cause (e : Error) (p : Position) : (e.orAt p).cause = e.cause := rfl

/-- The error on one line, with its line number where that is known. -/
def oneLine (e : Error) : String :=
  let text := e.cause.name ++ ": " ++ e.cause.message
  if e.position.isUnknown then text else text ++ " (line " ++ toString e.position.line ++ ")"

/-- The error for a terminal: its name and tip, where it is, and its message. -/
def report (e : Error) : String :=
  let tip := match e.cause.tip? with
    | some tip => " (" ++ tip ++ ")"
    | none     => ""
  let place :=
    if e.position.isUnknown then ""
    else "-> " ++ e.position.file ++ ":" ++ toString e.position.line ++ "\n"
  "Error: " ++ e.cause.name ++ tip ++ "\n" ++ place ++ "   " ++ e.cause.message

end Error

end Brace
