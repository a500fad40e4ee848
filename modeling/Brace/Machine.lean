import Brace.Heap
import Brace.Input
import Brace.Template

/-!
# Machine — all that a running program can read or change

Everything that running a program can read or change: the forest of frames with the handle of the
scope that is current, the heap, how many calls are under way, the input that is left and the
output so far. The settings say how deep calls may nest and whether the result of a program is
shown.
-/

namespace Brace

structure Settings where
  /-- A call nested deeper than this fails. -/
  maxCallDepth : Nat
  /-- Show what the program returns. -/
  echoReturn   : Bool
  deriving DecidableEq, Repr, Inhabited

/-- Calls nest ten thousand deep, and results are not shown. -/
def Settings.standard : Settings := ⟨10000, false⟩

structure Machine where
  scopes    : Forest Value
  /-- The scope that names are looked up from. -/
  here      : Handle
  heap      : Heap
  callDepth : Nat
  settings  : Settings
  input     : Input
  output    : String
  deriving Inhabited

namespace Machine

/-- A machine that has run nothing: the predefined names, and an open frame for a program. -/
def start (settings : Settings) (stdin : String) : Machine :=
  let (scopes, here) := Forest.withFrozenRoot (predefined Value.ofLiteral Value.builtin)
  { scopes, here, settings
    heap      := .empty
    callDepth := 0
    input     := .ofString stdin
    output    := "" }

/-! ### Scopes -/

/-- Enters a new frame. -/
def pushScope (m : Machine) : Machine :=
  let here := m.here
  let (scopes, here) := m.scopes.push here
  { m with scopes, here }

/-- Leaves the innermost frame. -/
def popScope (m : Machine) : Except Cause Machine :=
  match m.scopes.pop m.here with
  | .error c => .error c
  | .ok here => .ok { m with here }

/-- The value of a name in the current scope. -/
def lookup (m : Machine) (x : String) : Except Cause Value :=
  match m.scopes.lookup m.here x with
  | .error (.selfReferentialInit x) => .error (.uninitializedVariable x)
  | r                               => r

/-- Binds a name of one frame anew. -/
def bind (m : Machine) (i : FrameId) (x : String) (b : Option Value) : Machine :=
  { m with scopes := m.scopes.bind i x b }

/-- A new frame inside the one of `h`, without entering it. -/
def openFrame (m : Machine) (h : Handle) : Handle × Machine :=
  let (scopes, child) := m.scopes.push h
  (child, { m with scopes })

/-! ### Heap -/

/-- A new function of this declaration, with the scope that its body sees. -/
def newClosure (m : Machine) (decl : FuncDecl) (scope : Handle) : Closure × Machine :=
  let (id, heap) := m.heap.newId
  (⟨id, decl, scope⟩, { m with heap })

def newObject (m : Machine) (c : Class) : Object × Machine :=
  let (id, heap) := m.heap.newObject
  (⟨id, c⟩, { m with heap })

def writeElement (m : Machine) (id : ArrayId) (k : Nat) (v : Value) : Machine :=
  { m with heap := m.heap.write id k v }

def setField (m : Machine) (o : Object) (x : String) (v : Value) : Machine :=
  { m with heap := m.heap.setField o.id x v }

/-- The method of an object as a function of its own, whose scope binds the receiver. -/
def bindMethod (m : Machine) (o : Object) (method : Tier × FuncDecl) : Closure × Machine :=
  let (scope, m) := m.openFrame method.1.scope
  (m.bind scope.frame "this" (some (.object o))).newClosure method.2 scope

/-- A new frame inside the current scope that binds the superclass for the methods of a class. -/
def superFrame (m : Machine) (c : Class) : Handle × Machine :=
  let (scope, m) := m.openFrame m.here
  (scope, m.bind scope.frame "super" (some (.cls c)))

/-! ### Input and output -/

def print (m : Machine) (text : String) : Machine := { m with output := m.output ++ text }

def printLine (m : Machine) (text : String) : Machine := (m.print text).print "\n"

def readLine (m : Machine) : Option (List Char) × Machine :=
  let (line, input) := m.input.readLine
  (line, { m with input })

def readWord (m : Machine) : Option (List Char) × Machine :=
  let (word, input) := m.input.readWord
  (word, { m with input })

end Machine

end Brace
