/-!
# Position — where a piece of a program stands

Where in which file a piece of a program stands. Lines count from one; line zero, in whatever
file, means that the place is not known.
-/

namespace Brace

/-- A line of a file. -/
structure Position where
  line : Nat
  file : String
  deriving DecidableEq, Repr, Inhabited

namespace Position

/-- The place of what was never given one. -/
def unknown : Position := ⟨0, "<null>"⟩

/-- A line of the program text itself. -/
def ofLine (line : Nat) : Position := ⟨line, "<input>"⟩

def isUnknown (p : Position) : Bool := p.line == 0

/-- The first place, or the second where the first is not known. -/
def orElse (p q : Position) : Position := if p.isUnknown then q else p

@[simp] theorem isUnknown_unknown : unknown.isUnknown = true := rfl

theorem orElse_of_isUnknown {p : Position} (h : p.isUnknown = true) (q : Position) :
    p.orElse q = q := if_pos h

theorem orElse_of_known {p : Position} (h : p.isUnknown = false) (q : Position) :
    p.orElse q = p := by simp [orElse, h]

end Position

end Brace
