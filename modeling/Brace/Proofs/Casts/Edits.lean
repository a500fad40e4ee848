import Brace.Proofs.Typing.Bare

/-!
# Casts — programs with casts left out

An `Edit` goes through a program and gives every node another note, at the same place in the program,
or leaves a cast out, so that its operand stands in its place. A cast that is called, stepped or read
into, or that stands for a format, is kept in any case: there nothing but a certain form will do, and
checking accepts no cast.

A cast is marked where no type is noted on it. Checking notes types on all expressions, so in a program
that has been checked marks can be made by taking types away. `Program.restored` gives marked casts the
types of their operands, and `Program.omitted` leaves them out.
-/

namespace Brace

/-- What becomes of the notes and the casts of a program. -/
structure Edit where
  note : Note → Note
  /-- The note of a cast with this operand, or none where the cast is left out. -/
  cast : Note → Expr → Option Note
  pos_note : ∀ n, (note n).pos = n.pos
  pos_cast : ∀ n e n', cast n e = some n' → n'.pos = n.pos

namespace Edit

/-- No cast is left out. -/
def Keeps (ρ : Edit) : Prop := ∀ n e, (ρ.cast n e).isSome = true

/-- A cast without a type is given the type of its operand. -/
def restoring : Edit where
  note := id
  cast n e := some (if n.ty?.isNone then { n with ty? := e.ty? } else n)
  pos_note _ := rfl
  pos_cast n _ _ h := by cases h; split <;> rfl

/-- A cast without a type is left out. -/
def omitting : Edit where
  note := id
  cast n _ := if n.ty?.isNone then none else some n
  pos_note _ := rfl
  pos_cast n _ _ h := by split at h <;> cases h; rfl

end Edit

namespace Expr

variable (ρ : Edit)

mutual

/-- The edited expression, where it may or may not be that it has to stay of its form. -/
def editAs : (formed : Bool) → Expr → Expr
  | _, .literal n v         => .literal (ρ.note n) v
  | _, .name n x            => .name (ρ.note n) x
  | _, .group n e           => .group (ρ.note n) (e.editAs false)
  | _, .arrayNew n t e      => .arrayNew (ρ.note n) t (e.editAs false)
  | _, .index n a i         => .index (ρ.note n) a (i.editAs false)
  | _, .indexAssign n a i v => .indexAssign (ρ.note n) a (i.editAs false) (v.editAs false)
  | _, .call n c args       => .call (ρ.note n) (c.editAs true) (editAll false args)
  | _, .assign n x v        => .assign (ρ.note n) x (v.editAs false)
  | _, .compound n op x v   => .compound (ρ.note n) op x (v.editAs false)
  | _, .binary n op l r     => .binary (ρ.note n) op (l.editAs false) (r.editAs false)
  | _, .logical n op l r    => .logical (ρ.note n) op (l.editAs false) (r.editAs false)
  | _, .unary n op e        => .unary (ρ.note n) op (e.editAs false)
  | _, .step n form e       => .step (ρ.note n) form (e.editAs true)
  | true, .cast n t e       => .cast (ρ.note n) t (e.editAs false)
  | false, .cast n t e      =>
      match ρ.cast n (e.editAs false) with
      | some n' => .cast n' t (e.editAs false)
      | none    => e.editAs false
  | _, .intToFloat n e      => .intToFloat (ρ.note n) (e.editAs false)
  | _, .get n o x           => .get (ρ.note n) (o.editAs false) x
  | _, .set n o x v         => .set (ρ.note n) (o.editAs false) x (v.editAs false)
  | _, .receiver n          => .receiver (ρ.note n)
  | _, .superMethod n m     => .superMethod (ρ.note n) m
  | _, .printf n t args     => .printf (ρ.note n) (t.editAs true) (editAll false args)
  | _, .scanf n t args      => .scanf (ρ.note n) (t.editAs true) (editAll true args)
  | _, .sprintf n x t args  => .sprintf (ρ.note n) x (t.editAs true) (editAll false args)

def editAll : (formed : Bool) → List Expr → List Expr
  | _, []      => []
  | b, e :: es => e.editAs b :: editAll b es

end

/-- The edited expression. -/
abbrev edit (e : Expr) : Expr := e.editAs ρ false

/-- The edited expression, of the same form. -/
abbrev editForm (e : Expr) : Expr := e.editAs ρ true

end Expr

def VarDecl.edit (ρ : Edit) (v : VarDecl) : VarDecl :=
  { v with init := v.init.map (Expr.edit ρ) }

/-- What a loop starts with has to be of a certain form. -/
def ForInit.edit (ρ : Edit) : ForInit → ForInit
  | .decl v => .decl (v.edit ρ)
  | .expr e => .expr (e.editForm ρ)

namespace Stmt

variable (ρ : Edit)

mutual

def edit : Stmt → Stmt
  | .block p locals body => .block p (locals.map (VarDecl.edit ρ)) (editAll body)
  | .ifElse p cond t e => .ifElse p (cond.edit ρ) t.edit e.edit
  | .whileLoop p cond body => .whileLoop p (cond.edit ρ) body.edit
  | .forLoop p init cond update body =>
      .forLoop p (init.edit ρ) (cond.edit ρ) (update.editForm ρ) body.edit
  | .ret p value => .ret p (value.map (Expr.edit ρ))
  | .breakLoop p => .breakLoop p
  | .continueLoop p => .continueLoop p
  | .expr p e => .expr p (e.edit ρ)
  | .empty p => .empty p

def editAll : List Stmt → List Stmt
  | []      => []
  | s :: ss => s.edit :: editAll ss

end

end Stmt

def FuncDecl.edit (ρ : Edit) (f : FuncDecl) : FuncDecl :=
  { f with locals := f.locals.map (VarDecl.edit ρ), body := Stmt.editAll ρ f.body }

def ClassDecl.edit (ρ : Edit) (d : ClassDecl) : ClassDecl :=
  { d with methods := d.methods.map (FuncDecl.edit ρ) }

def Decl.edit (ρ : Edit) : Decl → Decl
  | .var v  => .var (v.edit ρ)
  | .func f => .func (f.edit ρ)
  | .cls d  => .cls (d.edit ρ)

def Program.edit (ρ : Edit) (p : Program) : Program := p.map (Decl.edit ρ)

/-- The program where each marked cast has the type of its operand. -/
def Program.restored (q : Program) : Program := q.edit .restoring

/-- The program without marked casts. -/
def Program.omitted (q : Program) : Program := q.edit .omitting

/-- A list is edited member by member. -/
theorem Expr.editAll_eq_map (ρ : Edit) (b : Bool) (es : List Expr) :
    editAll ρ b es = es.map (editAs ρ b) := by
  induction es with
  | nil => rw [editAll, List.map_nil]
  | cons e es ih => rw [editAll, ih, List.map_cons]

/-! ### Without types -/

theorem Edit.bare_note (ρ : Edit) (n : Note) : (ρ.note n).bare = n.bare :=
  congrArg (Note.mk · none) (ρ.pos_note n)

theorem Expr.bare_cast {ρ : Edit} (keeps : ρ.Keeps) (n : Note) (t : String) (e : Expr) :
    ((Expr.cast n t e).editAs ρ false).bare = .cast n.bare t (e.editAs ρ false).bare := by
  obtain ⟨n', h⟩ := Option.isSome_iff_exists.mp (keeps n (e.editAs ρ false))
  have same : n'.bare = n.bare := congrArg (Note.mk · none) (ρ.pos_cast n _ n' h)
  simp only [editAs, h, bare, same]

namespace Expr

mutual

/-- Without types, an edited expression is the expression, as long as no cast is left out. -/
theorem bare_editAs {ρ : Edit} (keeps : ρ.Keeps) : ∀ (formed : Bool) (e : Expr), (e.editAs ρ formed).bare = e.bare
  | _, .literal n v | _, .name n x | _, .receiver n | _, .superMethod n m => by
      simp only [editAs, bare, ρ.bare_note]
  | _, .group n e | _, .arrayNew n t e | _, .index n a e | _, .assign n x e
  | _, .compound n op x e | _, .unary n op e | _, .intToFloat n e | _, .get n e x
  | true, .cast n t e => by
      simp only [editAs, bare, ρ.bare_note, bare_editAs keeps false e]
  | false, .cast n t e => by rw [bare_cast keeps, bare_editAs keeps false e, bare]
  | _, .step n form e => by simp only [editAs, bare, ρ.bare_note, bare_editAs keeps true e]
  | _, .indexAssign n a i v => by
      simp only [editAs, bare, ρ.bare_note, bare_editAs keeps false i, bare_editAs keeps false v]
  | _, .binary n op l r | _, .logical n op l r | _, .set n l op r => by
      simp only [editAs, bare, ρ.bare_note, bare_editAs keeps false l, bare_editAs keeps false r]
  | _, .call n c args => by
      simp only [editAs, bare, ρ.bare_note, bare_editAs keeps true c, bareAll_editAll keeps false args]
  | _, .printf n t args | _, .sprintf n x t args => by
      simp only [editAs, bare, ρ.bare_note, bare_editAs keeps true t, bareAll_editAll keeps false args]
  | _, .scanf n t args => by
      simp only [editAs, bare, ρ.bare_note, bare_editAs keeps true t, bareAll_editAll keeps true args]

theorem bareAll_editAll {ρ : Edit} (keeps : ρ.Keeps) : ∀ (formed : Bool) (es : List Expr),
    bareAll (editAll ρ formed es) = bareAll es
  | _, []           => by rw [editAll]
  | formed, e :: es => by
      rw [editAll, bareAll, bareAll, bare_editAs keeps formed e, bareAll_editAll keeps formed es]

end

end Expr

section Programs

variable {ρ : Edit} (keeps : ρ.Keeps)

include keeps

theorem VarDecl.bare_edit (v : VarDecl) : (v.edit ρ).bare = v.bare := by
  obtain ⟨p, t, x, init⟩ := v
  cases init with
  | none => rfl
  | some e => exact congrArg (fun e => VarDecl.mk p t x (some e)) (e.bare_editAs keeps false)

theorem ForInit.bare_edit (init : ForInit) : (init.edit ρ).bare = init.bare := by
  cases init with
  | decl v => exact congrArg decl (v.bare_edit keeps)
  | expr e => exact congrArg expr (e.bare_editAs keeps true)

theorem VarDecl.map_bare_edit (vs : List VarDecl) :
    (vs.map (VarDecl.edit ρ)).map VarDecl.bare = vs.map VarDecl.bare := by
  rw [List.map_map]
  exact List.map_congr_left fun v _ => v.bare_edit keeps

end Programs

namespace Stmt

mutual

/-- Without types, an edited statement is the statement, as long as no cast is left out. -/
theorem bare_edit {ρ : Edit} (keeps : ρ.Keeps) : ∀ s : Stmt, (s.edit ρ).bare = s.bare
  | .block p locals body => by
      rw [edit, bare, bare, VarDecl.map_bare_edit keeps, bareAll_editAll keeps body]
  | .ifElse p cond t e => by
      rw [edit, bare, bare, cond.bare_editAs keeps, bare_edit keeps t, bare_edit keeps e]
  | .whileLoop p cond body => by
      rw [edit, bare, bare, cond.bare_editAs keeps, bare_edit keeps body]
  | .forLoop p init cond update body => by
      rw [edit, bare, bare, init.bare_edit keeps, cond.bare_editAs keeps, update.bare_editAs keeps,
        bare_edit keeps body]
  | .ret p (some e) => by
      rw [edit, bare, bare, Option.map_some, Option.map_some, Option.map_some, e.bare_editAs keeps]
  | .expr p e => by rw [edit, bare, bare, e.bare_editAs keeps]
  | .ret p none | .breakLoop p | .continueLoop p | .empty p => rfl

theorem bareAll_editAll {ρ : Edit} (keeps : ρ.Keeps) : ∀ ss : List Stmt,
    bareAll (editAll ρ ss) = bareAll ss
  | []      => by rw [editAll]
  | s :: ss => by rw [editAll, bareAll, bareAll, bare_edit keeps s, bareAll_editAll keeps ss]

end

end Stmt

section Programs

variable {ρ : Edit} (keeps : ρ.Keeps)

include keeps

theorem FuncDecl.bare_edit (f : FuncDecl) : (f.edit ρ).bare = f.bare := by
  simp only [edit, bare, VarDecl.map_bare_edit keeps, Stmt.bareAll_editAll keeps]

theorem ClassDecl.bare_edit (d : ClassDecl) : (d.edit ρ).bare = d.bare := by
  have methods : (d.methods.map (FuncDecl.edit ρ)).map FuncDecl.bare = d.methods.map FuncDecl.bare := by
    rw [List.map_map]
    exact List.map_congr_left fun f _ => f.bare_edit keeps
  simp only [edit, bare, methods]

theorem Decl.bare_edit (d : Decl) : (d.edit ρ).bare = d.bare := by
  cases d with
  | var v => exact congrArg var (v.bare_edit keeps)
  | func f => exact congrArg func (f.bare_edit keeps)
  | cls d => exact congrArg cls (d.bare_edit keeps)

/-- An edit that leaves out no cast changes nothing but types. -/
theorem Program.bare_edit (p : Program) : (p.edit ρ).bare = p.bare := by
  rw [Program.bare, Program.edit, List.map_map]
  exact List.map_congr_left fun d _ => d.bare_edit keeps

end Programs

end Brace
