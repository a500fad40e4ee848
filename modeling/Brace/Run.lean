import Brace.Eval.Program
import Brace.Typing.Program

/-!
# Run — checking a program and running it

A program is run only when checking accepts it. What it violates is given all at once; what it fails
with while running is given alone.
-/

namespace Brace

/-- What a program gave that was checked and ran to its end. -/
structure Outcome where
  value    : Value
  /-- What checking warned about. -/
  warnings : List Error
  deriving Inhabited

/-- Checks a program and runs it if it is accepted. This never fails: what is wrong with the program
is the answer. -/
def Program.checkAndRun (p : Program) : Eval (Except (List Error) Outcome) :=
  match p.check with
  | .error es   => pure (.error es)
  | .ok checked => do
      match ← Eval.attempt checked.program.run with
      | .ok value => pure (.ok ⟨value, checked.warnings⟩)
      | .error e  => pure (.error [e])

end Brace
