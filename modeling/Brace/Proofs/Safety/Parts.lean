import Brace.Proofs.Typing.Class
import Brace.Proofs.Scope.Root

/-!
# Safety — the parts of a program

What is said of a program is said of its parts: the expressions that it has anywhere, and the names
that it gives to variables, parameters, functions and classes. Each part has its place, and so the
scene that checking knew there (`Program.placed`).

* `Expr.uses`: the names that evaluation of one node resolves.
* `Decl.placedAll_parts`: the parts are what is found in the places.
-/

namespace Brace

/-- What can be said something of. -/
inductive Part where
  | expr (e : Expr)
  /-- A variable, a parameter, a function or a class is named so. -/
  | name (x : String)

/-! ### Parts -/

def Expr.parts (e : Expr) : List Part := e.subexprs.map .expr

def VarDecl.parts (v : VarDecl) : List Part :=
  .name v.name :: match v.init with
    | some e => e.parts
    | none   => []

def ForInit.parts : ForInit → List Part
  | .decl v => v.parts
  | .expr e => e.parts

mutual

def Stmt.parts : Stmt → List Part
  | .block _ locals body => locals.flatMap VarDecl.parts ++ Stmt.partsOf body
  | .ifElse _ cond t e => cond.parts ++ (t.parts ++ e.parts)
  | .whileLoop _ cond body => cond.parts ++ body.parts
  | .forLoop _ init cond update body =>
      init.parts ++ (cond.parts ++ (update.parts ++ body.parts))
  | .ret _ (some e) => e.parts
  | .ret _ none | .breakLoop _ | .continueLoop _ | .empty _ => []
  | .expr _ e => e.parts

def Stmt.partsOf : List Stmt → List Part
  | []      => []
  | s :: ss => s.parts ++ Stmt.partsOf ss

end

def FuncDecl.parts (f : FuncDecl) : List Part :=
  f.params.map (fun x => .name x.name) ++ (f.locals.flatMap VarDecl.parts ++ Stmt.partsOf f.body)

def Decl.parts : Decl → List Part
  | .var v  => v.parts
  | .func f => .name f.name :: f.parts
  | .cls d  => .name d.name :: d.methods.flatMap FuncDecl.parts

/-- The name that the declaration gives. -/
def Decl.name : Decl → String
  | .var v  => v.name
  | .func f => f.name
  | .cls d  => d.name

/-- An expression is a part of itself. -/
theorem Expr.self_mem_parts (e : Expr) : .expr e ∈ e.parts := by
  rw [parts, subexprs_eq]
  exact List.mem_map_of_mem List.mem_cons_self

/-- What is inside a part is inside the whole. -/
theorem Expr.parts_child {e c : Expr} (hc : c ∈ e.children) {a : Part} (ha : a ∈ c.parts) :
    a ∈ e.parts := by
  obtain ⟨s, hs, rfl⟩ := List.mem_map.mp ha
  refine List.mem_map_of_mem ?_
  rw [subexprs_eq]
  exact List.mem_cons_of_mem _ (List.mem_flatMap.mpr ⟨c, hc, hs⟩)

/-! ### Names that expressions use -/

namespace Expr

/-- The name through which the place is stored to. -/
def placeNames : Expr → List String
  | .name _ x | .index _ x _ => [x]
  | _                        => []

/-- The names that evaluation of this node reads or writes, apart from the expressions that it
evaluates for it. -/
def uses : Expr → List String
  | .name _ x | .index _ x _ | .indexAssign _ x _ _ | .assign _ x _ | .compound _ _ x _
  | .sprintf _ x _ _   => [x]
  | .step _ _ target   => target.placeNames
  | .scanf _ _ targets => targets.flatMap placeNames
  | .receiver _        => ["this"]
  | .superMethod _ _   => ["super", "this"]
  | _                  => []

/-- The names that checking looks up for this node. Where a method of the superclass is used, that is
not done for the receiver. -/
def resolved : Expr → List String
  | .superMethod _ _ => ["super"]
  | e                => e.uses

end Expr

/-! ### Parts in their places -/

/-- The parts of an expression, all in the scene of its place. -/
def Expr.placed (Γ : Scene) (e : Expr) : List (Scene × Part) := e.parts.map (Γ, ·)

def VarDecl.placed (Γ : Scene) (v : VarDecl) : List (Scene × Part) :=
  (Γ, .name v.name) :: match v.init with
    | some e => e.placed (Γ.hide v.name)
    | none   => []

def VarDecl.placedAll : Scene → List VarDecl → List (Scene × Part)
  | _, []      => []
  | Γ, v :: vs => v.placed Γ ++ VarDecl.placedAll (Γ.declare v) vs

def ForInit.placed (Γ : Scene) : ForInit → List (Scene × Part)
  | .decl v => v.placed Γ
  | .expr e => e.placed Γ

mutual

def Stmt.placed : Scene → Stmt → List (Scene × Part)
  | Γ, .block _ locals body =>
      VarDecl.placedAll Γ.enter locals ++ Stmt.placedAll (Γ.enter.declareAll locals) body
  | Γ, .ifElse _ cond t e => cond.placed Γ ++ (t.placed Γ ++ e.placed Γ)
  | Γ, .whileLoop _ cond body => cond.placed Γ ++ body.placed (Γ.looping true)
  | Γ, .forLoop _ init cond update body =>
      init.placed Γ.enter ++ (cond.placed (Γ.enter.afterInit init) ++
        (update.placed (Γ.enter.afterInit init) ++
          body.placed ((Γ.enter.afterInit init).looping true)))
  | Γ, .ret _ (some e) => e.placed Γ
  | _, .ret _ none | _, .breakLoop _ | _, .continueLoop _ | _, .empty _ => []
  | Γ, .expr _ e => e.placed Γ

def Stmt.placedAll : Scene → List Stmt → List (Scene × Part)
  | _, []      => []
  | Γ, s :: ss => s.placed Γ ++ Stmt.placedAll Γ ss

end

def FuncDecl.placed (Γ : Scene) (f : FuncDecl) : List (Scene × Part) :=
  f.params.map (fun x => (Γ, .name x.name)) ++ (VarDecl.placedAll (Γ.ofFunction f) f.locals ++
    Stmt.placedAll ((Γ.ofFunction f).declareAll f.locals) f.body)

def Decl.placed (Γ : Scene) : Decl → List (Scene × Part)
  | .var v  => v.placed Γ
  | .func f => (Γ, .name f.name) :: f.placed (Γ.bind f.name (.function f.signature))
  | .cls d  => (Γ, .name d.name) :: d.methods.flatMap
      (FuncDecl.placed ((Γ.addClass (d.info (Γ.superOf d))).inClass d.name (Γ.superOf d)))

def Decl.placedAll : Scene → List Decl → List (Scene × Part)
  | _, []      => []
  | Γ, d :: ds => d.placed Γ ++ Decl.placedAll (Γ.after d) ds

/-- Declarations one after another, each with the scene of its place. -/
def Decl.scenes : Scene → List Decl → List (Scene × Decl)
  | _, []      => []
  | Γ, d :: ds => (Γ, d) :: Decl.scenes (Γ.after d) ds

/-- The functions that the declaration declares, each with the scene of its place. -/
def Decl.functions (Γ : Scene) : Decl → List (Scene × FuncDecl)
  | .var _  => []
  | .func f => [(Γ.bind f.name (.function f.signature), f)]
  | .cls d  => d.methods.map
      ((Γ.addClass (d.info (Γ.superOf d))).inClass d.name (Γ.superOf d), ·)

/-- The parts of a declaration are in the scene that the declarations before it leave. -/
theorem Decl.placedAll_of_scenes {Γ' : Scene} {d : Decl} : ∀ {ds : List Decl} {Γ : Scene},
    (Γ', d) ∈ Decl.scenes Γ ds → ∀ a ∈ d.placed Γ', a ∈ Decl.placedAll Γ ds
  | _ :: _, _, h, a, ha => by
      rcases List.mem_cons.mp h with e | h
      · cases e
        exact List.mem_append_left _ ha
      · exact List.mem_append_right _ (placedAll_of_scenes h a ha)

/-- The parts of a function are in the scene of the function. -/
theorem Decl.placed_of_functions {Γ Γ' : Scene} {d : Decl} {f : FuncDecl}
    (h : (Γ', f) ∈ d.functions Γ) : ∀ a ∈ f.placed Γ', a ∈ d.placed Γ := by
  intro a ha
  cases d with
  | var v => cases h
  | func g =>
      cases List.mem_singleton.mp h
      exact List.mem_cons_of_mem _ ha
  | cls d =>
      obtain ⟨g, hg, e⟩ := List.mem_map.mp h
      cases e
      exact List.mem_cons_of_mem _ (List.mem_flatMap.mpr ⟨f, hg, ha⟩)

/-! The places of the parts are beside the point of what the parts are. -/

/-- The parts in their places are the parts. -/
@[simp] theorem Expr.placed_parts (Γ : Scene) (e : Expr) :
    (e.placed Γ).map Prod.snd = e.parts := by
  simp [placed, List.map_map, Function.comp_def]

@[simp] theorem VarDecl.placed_parts (Γ : Scene) (v : VarDecl) :
    (v.placed Γ).map Prod.snd = v.parts := by
  rw [placed, parts]
  cases v.init <;> simp

@[simp] theorem VarDecl.placedAll_parts : ∀ (vs : List VarDecl) (Γ : Scene),
    (VarDecl.placedAll Γ vs).map Prod.snd = vs.flatMap VarDecl.parts
  | [], _      => rfl
  | v :: vs, Γ => by simp [VarDecl.placedAll, VarDecl.placedAll_parts vs]

@[simp] theorem ForInit.placed_parts (Γ : Scene) (i : ForInit) :
    (i.placed Γ).map Prod.snd = i.parts := by
  cases i <;> simp [placed, parts]

mutual

/-- The parts of a statement in their places are the parts. -/
theorem Stmt.placed_parts : ∀ (s : Stmt) (Γ : Scene), (s.placed Γ).map Prod.snd = s.parts
  | .block _ vs ss, Γ => by simp [Stmt.placed, Stmt.parts, Stmt.placedAll_parts ss]
  | .ifElse _ cond t e, Γ => by
      simp [Stmt.placed, Stmt.parts, Stmt.placed_parts t, Stmt.placed_parts e]
  | .whileLoop _ cond body, Γ => by simp [Stmt.placed, Stmt.parts, Stmt.placed_parts body]
  | .forLoop _ init cond update body, Γ => by
      simp [Stmt.placed, Stmt.parts, Stmt.placed_parts body]
  | .ret _ (some e), Γ => by simp [Stmt.placed, Stmt.parts]
  | .ret _ none, _ | .breakLoop _, _ | .continueLoop _, _ | .empty _, _ => by
      simp [Stmt.placed, Stmt.parts]
  | .expr _ e, Γ => by simp [Stmt.placed, Stmt.parts]

theorem Stmt.placedAll_parts : ∀ (ss : List Stmt) (Γ : Scene),
    (Stmt.placedAll Γ ss).map Prod.snd = Stmt.partsOf ss
  | [], _      => by simp [Stmt.placedAll, Stmt.partsOf]
  | s :: ss, Γ => by
      simp [Stmt.placedAll, Stmt.partsOf, Stmt.placed_parts s, Stmt.placedAll_parts ss]

end

@[simp] theorem FuncDecl.placed_parts (Γ : Scene) (f : FuncDecl) :
    (f.placed Γ).map Prod.snd = f.parts := by
  simp [placed, parts, Stmt.placedAll_parts, Function.comp_def]

@[simp] theorem Decl.placed_parts (Γ : Scene) (d : Decl) :
    (d.placed Γ).map Prod.snd = d.parts := by
  cases d <;> simp [placed, parts, List.map_flatMap]

theorem Decl.placedAll_parts : ∀ (ds : List Decl) (Γ : Scene),
    (Decl.placedAll Γ ds).map Prod.snd = ds.flatMap Decl.parts
  | [], _      => rfl
  | d :: ds, Γ => by simp [Decl.placedAll, Decl.placedAll_parts ds]

namespace Program

def parts (p : Program) : List Part := p.flatMap Decl.parts

/-- The parts of the program, each in the scene of its place. -/
def placed (p : Program) : List (Scene × Part) := Decl.placedAll .start p

/-- The declarations of the program, each with the scene of its place. -/
def scenes (p : Program) : List (Scene × Decl) := Decl.scenes .start p

/-- The function, or the method of a class, is declared in the program where the scene is known. -/
def Declares (p : Program) (Γ : Scene) (f : FuncDecl) : Prop :=
  ∃ a ∈ p.scenes, (Γ, f) ∈ a.2.functions a.1

/-- What has a place in the program is a part of it. -/
theorem mem_parts_of_placed {p : Program} {a : Scene × Part} (h : a ∈ p.placed) : a.2 ∈ p.parts := by
  rw [parts, ← Decl.placedAll_parts p .start]
  exact List.mem_map_of_mem h

end Program

end Brace
