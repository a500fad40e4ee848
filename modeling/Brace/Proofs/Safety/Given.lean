import Mathlib.Data.List.Basic
import Brace.Proofs.Safety.Plan
import Brace.Proofs.Typing.Bare

/-!
# Safety — the parts of a checked program

Checking notes types on expressions and leaves the rest of a program as it is. So a program that is
given back with types has the same parts as the one that was checked, apart from types, and an
assumption about names may be made of either.

* `Program.bare_parts_of_check`: without types, a checked program has the parts that it had before.
* `Program.unreserved_of_check`: what is reserved in a program is reserved in the checked one.
-/

namespace Brace

/-- The part without the types that are noted in it. -/
def Part.bare : Part → Part
  | .expr e => .expr e.bare
  | .name x => .name x

/-! ### Parts without types -/

/-- Without types, an expression has the same expressions inside it, without types. -/
theorem Expr.bare_children (e : Expr) : e.bare.children = e.children.map bare := by
  cases e <;> simp [bare, children]

theorem Expr.bare_subexprs (e : Expr) : e.bare.subexprs = e.subexprs.map bare := by
  have inner : ∀ c ∈ e.children, c.bare.subexprs = c.subexprs.map bare := fun c _ => bare_subexprs c
  rw [subexprs_eq, subexprs_eq e, bare_children, List.map_cons, List.map_flatMap, List.flatMap_map]
  exact congrArg (e.bare :: ·) (List.flatMap_congr inner)
termination_by sizeOf e
decreasing_by exact sizeOf_child ‹_›

/-- Without types, an expression has the same parts, without types. -/
theorem Expr.bare_parts (e : Expr) : e.bare.parts = e.parts.map Part.bare := by
  rw [parts, parts, bare_subexprs, List.map_map, List.map_map]
  rfl

/-- So has a variable. -/
theorem VarDecl.bare_parts (v : VarDecl) : v.bare.parts = v.parts.map Part.bare := by
  rw [parts, parts, bare]
  cases v.init with
  | none => rfl
  | some e => exact congrArg (Part.name v.name :: ·) e.bare_parts

theorem VarDecl.bare_allParts (vs : List VarDecl) :
    (vs.map bare).flatMap parts = (vs.flatMap parts).map Part.bare := by
  rw [List.flatMap_map, List.map_flatMap]
  exact List.flatMap_congr fun v _ => v.bare_parts

/-- So has an `init` clause. -/
theorem ForInit.bare_parts (init : ForInit) : init.bare.parts = init.parts.map Part.bare := by
  cases init with
  | decl v => exact v.bare_parts
  | expr e => exact e.bare_parts

namespace Stmt

mutual

/-- So has a statement. -/
theorem bare_parts : ∀ s : Stmt, s.bare.parts = s.parts.map Part.bare
  | .block p locals body => by
      simp only [bare, parts, List.map_append, VarDecl.bare_allParts, bare_partsOf body]
  | .ifElse p cond t e => by
      simp only [bare, parts, List.map_append, cond.bare_parts, bare_parts t, bare_parts e]
  | .whileLoop p cond body => by
      simp only [bare, parts, List.map_append, cond.bare_parts, bare_parts body]
  | .forLoop p init cond update body => by
      simp only [bare, parts, List.map_append, init.bare_parts, cond.bare_parts, update.bare_parts,
        bare_parts body]
  | .ret p (some e) => by simp only [bare, parts, Option.map_some, e.bare_parts]
  | .expr p e => by simp only [bare, parts, e.bare_parts]
  | .ret p none | .breakLoop p | .continueLoop p | .empty p => rfl

theorem bare_partsOf : ∀ ss : List Stmt, partsOf (bareAll ss) = (partsOf ss).map Part.bare
  | []      => rfl
  | s :: ss => by simp only [bareAll, partsOf, List.map_append, bare_parts s, bare_partsOf ss]

end

end Stmt

/-- So has a function. -/
theorem FuncDecl.bare_parts (f : FuncDecl) : f.bare.parts = f.parts.map Part.bare := by
  simp only [parts, bare, List.map_append, VarDecl.bare_allParts, Stmt.bare_partsOf, List.map_map]
  rfl

/-- So has a declaration. -/
theorem Decl.bare_parts (d : Decl) : d.bare.parts = d.parts.map Part.bare := by
  cases d with
  | var v => exact v.bare_parts
  | func f => exact congrArg (Part.name f.name :: ·) f.bare_parts
  | cls d =>
      simp only [bare, ClassDecl.bare, parts, List.map_cons, List.map_flatMap, List.flatMap_map]
      exact congrArg (Part.name d.name :: ·) (List.flatMap_congr fun f _ => f.bare_parts)

namespace Program

variable {p : Program} {checked : Checked}

/-- So has a program. -/
theorem bare_parts (p : Program) : p.bare.parts = p.parts.map Part.bare := by
  rw [parts, parts, bare, List.flatMap_map, List.map_flatMap]
  exact List.flatMap_congr fun d _ => d.bare_parts

/-! ### Parts of checked programs -/

/-- Without types, a checked program has the parts that it had before. -/
theorem bare_parts_of_check (h : p.check = .ok checked) :
    checked.program.parts.map Part.bare = p.parts.map Part.bare := by
  rw [← bare_parts, ← bare_parts, bare_of_check h]

/-- Each part of a checked program was there before, apart from types. -/
theorem part_of_check (h : p.check = .ok checked) {a : Part} (ha : a ∈ checked.program.parts) :
    ∃ b ∈ p.parts, b.bare = a.bare := by
  have there : a.bare ∈ p.parts.map Part.bare := by
    rw [← bare_parts_of_check h]
    exact List.mem_map_of_mem ha
  exact List.mem_map.mp there

/-- What is reserved in a program is reserved in the checked one. -/
theorem unreserved_of_check (h : p.check = .ok checked) (hp : p.Unreserved) :
    checked.program.Unreserved := by
  intro x hx
  obtain ⟨b, hb, e⟩ := part_of_check h hx
  cases b with
  | name y =>
      cases e
      exact hp x hb
  | expr e' => cases e

end Program

end Brace
