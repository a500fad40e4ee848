import Brace.Typing

/-!
# Typing — what is known at a place of a program

A scene is what checking knows at one place of a program, apart from how it stores that: what each
name means, which names the innermost frame has, the classes declared so far, and in what kind of
code the place is. The rules for programs (`Rules`) speak of scenes only.

* `Ty.Known.mono`, `Lawful`: every class that a type names has been declared, and so it stays.
-/

namespace Brace

/-- What the first table says, the second says too. -/
def Table.Sub {β : Type} (t t' : Table β) : Prop := ∀ x b, t.get? x = some b → t'.get? x = some b

theorem Table.Sub.refl {β : Type} (t : Table β) : t.Sub t := fun _ _ h => h

theorem Table.Sub.trans {β : Type} {t₁ t₂ t₃ : Table β} (h : t₁.Sub t₂) (h' : t₂.Sub t₃) :
    t₁.Sub t₃ := fun x b hb => h' x b (h x b hb)

/-- A name that the table does not have may be added. -/
theorem Table.Sub.put {β : Type} {t : Table β} {x : String} (hx : t.get? x = none) (b : β) :
    t.Sub (t.put x b) := by
  intro y c hc
  have ne : x ≠ y := by rintro rfl; rw [hx] at hc; cases hc
  rw [Table.get?_put_other t ne, hc]

/-- The names of one frame. A name that stands in its own definition has no meaning there. -/
abbrev Names := String → Option (Option Symbol)

def Names.empty : Names := fun _ => none

def Names.put (F : Names) (x : String) (b : Option Symbol) : Names :=
  fun y => if y = x then some b else F y

/-- One frame of a place. -/
structure Level where
  names  : Names
  /-- Checking keeps the names of this frame and those of the next in one. -/
  joined : Bool

/-- What checking knows at one place of a program. -/
structure Scene where
  /-- The innermost frame. -/
  top      : Level
  /-- The frames outside it, innermost first. -/
  outer    : List Level
  classes  : Table ClassInfo
  inLoop   : Bool
  function : Option Context

namespace Scene

/-- All frames, innermost first. -/
def levels (Γ : Scene) : List Level := Γ.top :: Γ.outer

/-- The names of all frames, innermost first. -/
def frames (Γ : Scene) : List Names := Γ.levels.map (·.names)

/-- The meaning of a name, which the innermost frame that has the name tells. -/
def means (Γ : Scene) (x : String) : Option Symbol := (Γ.frames.findSome? (· x)).join

/-- The innermost frame has the name. -/
def own (Γ : Scene) (x : String) : Bool := (Γ.top.names x).isSome

/-! ### From one place to another -/

/-- Inside a new frame. -/
def enter (Γ : Scene) : Scene := { Γ with top := ⟨.empty, false⟩, outer := Γ.levels }

/-- After the innermost frame got a name, or a placeholder for it. -/
def put (Γ : Scene) (x : String) (b : Option Symbol) : Scene :=
  { Γ with top := ⟨Γ.top.names.put x b, Γ.top.joined⟩ }

def bind (Γ : Scene) (x : String) (s : Symbol) : Scene := Γ.put x (some s)

/-- Where a name of the innermost frame is being defined. -/
def hide (Γ : Scene) (x : String) : Scene := Γ.put x none

def bindParams : Scene → List Param → Scene
  | Γ, []      => Γ
  | Γ, x :: xs => (Γ.bind x.name (.var x.ty)).bindParams xs

/-- After the declaration of a variable. -/
def declare (Γ : Scene) (v : VarDecl) : Scene := Γ.bind v.name (.var v.ty)

def declareAll : Scene → List VarDecl → Scene
  | Γ, []      => Γ
  | Γ, v :: vs => (Γ.declare v).declareAll vs

/-- In a loop, or in none. -/
def looping (Γ : Scene) (inLoop : Bool) : Scene := { Γ with inLoop }

/-- In the body of a function. -/
def within (Γ : Scene) (f : Context) : Scene := { Γ with function := some f }

/-- After the declaration of a class. -/
def addClass (Γ : Scene) (info : ClassInfo) : Scene :=
  { Γ.bind info.name (.cls info) with classes := Γ.classes.put info.name info }

@[simp] theorem means_enter (Γ : Scene) : Γ.enter.means = Γ.means := rfl

@[simp] theorem own_enter (Γ : Scene) (x : String) : Γ.enter.own x = false := rfl

@[simp] theorem classes_enter (Γ : Scene) : Γ.enter.classes = Γ.classes := rfl

@[simp] theorem classes_looping (Γ : Scene) (b : Bool) : (Γ.looping b).classes = Γ.classes := rfl

@[simp] theorem classes_within (Γ : Scene) (f : Context) : (Γ.within f).classes = Γ.classes := rfl

@[simp] theorem classes_put (Γ : Scene) (x : String) (b : Option Symbol) :
    (Γ.put x b).classes = Γ.classes := rfl

@[simp] theorem classes_bind (Γ : Scene) (x : String) (s : Symbol) :
    (Γ.bind x s).classes = Γ.classes := rfl

/-- The name that was put means what was put. -/
theorem means_put_self (Γ : Scene) (x : String) (b : Option Symbol) : (Γ.put x b).means x = b := by
  simp [means, frames, levels, put, Names.put]

/-- Any other name means what it meant before. -/
theorem means_put_other (Γ : Scene) {x y : String} (ne : y ≠ x) (b : Option Symbol) :
    (Γ.put x b).means y = Γ.means y := by
  simp only [means, frames, levels, put, List.map_cons, List.findSome?_cons, Names.put, if_neg ne]

/-- The innermost frame has the name that was put, and those it had. -/
theorem own_put (Γ : Scene) (x y : String) (b : Option Symbol) :
    (Γ.put x b).own y = (y == x || Γ.own y) := by
  by_cases e : y = x <;> simp [own, put, Names.put, e]

@[simp] theorem put_put (Γ : Scene) (x : String) (b b' : Option Symbol) :
    (Γ.put x b).put x b' = Γ.put x b' := by
  have e : (Γ.top.names.put x b).put x b' = Γ.top.names.put x b' := by
    funext y
    by_cases e : y = x <;> simp [Names.put, e]
  simp only [put, e]

@[simp] theorem classes_bindParams : ∀ (xs : List Param) (Γ : Scene),
    (Γ.bindParams xs).classes = Γ.classes
  | [], _      => rfl
  | x :: xs, Γ => classes_bindParams xs (Γ.bind x.name (.var x.ty))

@[simp] theorem classes_declareAll : ∀ (vs : List VarDecl) (Γ : Scene),
    (Γ.declareAll vs).classes = Γ.classes
  | [], _      => rfl
  | v :: vs, Γ => classes_declareAll vs (Γ.declare v)

end Scene

/-! ### Types that name only what is declared -/

/-- Every class that the type names is in the table. -/
def Ty.Known (classes : Table ClassInfo) : Ty → Prop
  | .object x => ∃ info, classes.get? x = some info
  | .array t  => t.Known classes
  | _         => True

/-- A type stays known when classes are added. -/
theorem Ty.Known.mono {classes classes' : Table ClassInfo} (le : classes.Sub classes') :
    ∀ {t : Ty}, t.Known classes → t.Known classes'
  | .object x, ⟨info, h⟩ => ⟨info, le x info h⟩
  | .array t, h => Ty.Known.mono (t := t) le h
  | .void, _ | .bool, _ | .int, _ | .float, _ | .str, _ | .nil, _ | .function, _ | .any, _ =>
      trivial

/-- Every type that an object of the class can show is known. -/
structure ClassInfo.Known (classes : Table ClassInfo) (info : ClassInfo) : Prop where
  declared : classes.get? info.name = some info
  fields   : ∀ x t, info.field? x = some t → t.Known classes
  returns  : ∀ x sig, info.method? x = some sig → sig.returns.Known classes

/-- A class stays known when classes are added. -/
theorem ClassInfo.Known.mono {classes classes' : Table ClassInfo} (le : classes.Sub classes')
    {info : ClassInfo} (h : info.Known classes) : info.Known classes' where
  declared := le _ _ h.declared
  fields x t hx := (h.fields x t hx).mono le
  returns x sig hx := (h.returns x sig hx).mono le

/-- Every type that an expression can get from the symbol is known. -/
def Symbol.Known (classes : Table ClassInfo) : Symbol → Prop
  | .var t | .const t | .receiver t => t.Known classes
  | .function sig                   => sig.returns.Known classes
  | .cls info                       => info.Known classes
  | .builtin _                      => True

/-- The meaning of a name stays known when classes are added. -/
theorem Symbol.Known.mono {classes classes' : Table ClassInfo} (le : classes.Sub classes')
    {s : Symbol} (h : s.Known classes) : s.Known classes' := by
  cases s with
  | var t => exact Ty.Known.mono (t := t) le h
  | const t => exact Ty.Known.mono (t := t) le h
  | receiver t => exact Ty.Known.mono (t := t) le h
  | function sig => exact Ty.Known.mono (t := sig.returns) le h
  | cls info => exact ClassInfo.Known.mono le h
  | builtin b => trivial

/-- The type of a name that is known is known. -/
theorem Symbol.Known.ty {classes : Table ClassInfo} {s : Symbol} (h : s.Known classes) :
    s.ty.Known classes := by
  cases s <;> first | exact h | trivial

/-- The type of an element of what a name stands for. -/
inductive Symbol.Elements (s : Symbol) : Ty → Prop where
  | array {t : Ty} (h : s.ty = .array t) : s.Elements t
  | unknown (h : s.ty = .any) : s.Elements .any

namespace Scene

/-- What names mean and what classes have is known as far as types go. -/
structure Lawful (Γ : Scene) : Prop where
  names   : ∀ x s, Γ.means x = some s → s.Known Γ.classes
  classes : ∀ x info, Γ.classes.get? x = some info → info.Known Γ.classes

theorem Lawful.enter {Γ : Scene} (h : Γ.Lawful) : Γ.enter.Lawful := ⟨h.names, h.classes⟩

/-- A name may be put whose meaning is known. -/
theorem Lawful.put {Γ : Scene} (h : Γ.Lawful) {x : String} {b : Option Symbol}
    (hb : ∀ s, b = some s → s.Known Γ.classes) : (Γ.put x b).Lawful where
  names y s hy := by
    by_cases e : y = x
    · rw [e, means_put_self] at hy
      exact hb s hy
    · rw [means_put_other Γ e] at hy
      exact h.names y s hy
  classes := h.classes

theorem Lawful.bind {Γ : Scene} (h : Γ.Lawful) {x : String} {s : Symbol}
    (hs : s.Known Γ.classes) : (Γ.bind x s).Lawful :=
  h.put fun s' e => by cases e; exact hs

theorem Lawful.hide {Γ : Scene} (h : Γ.Lawful) (x : String) : (Γ.hide x).Lawful := h.put nofun

theorem Lawful.looping {Γ : Scene} (h : Γ.Lawful) {b : Bool} : (Γ.looping b).Lawful :=
  ⟨h.names, h.classes⟩

theorem Lawful.within {Γ : Scene} (h : Γ.Lawful) (f : Context) : (Γ.within f).Lawful :=
  ⟨h.names, h.classes⟩

/-! ### What may stand where -/

/-- A value of the second type may stand where the first is expected. -/
inductive Accepts (Γ : Scene) : Ty → Ty → Prop where
  | fits {a b : Ty} (h : a.fits b = true) : Γ.Accepts a b
  | noObject (x : String) : Γ.Accepts (.object x) .nil
  | noArray (t : Ty) : Γ.Accepts (.array t) .nil
  | below {x y : String} {info : ClassInfo} (h : Γ.classes.get? y = some info)
      (h' : info.isA x = true) : Γ.Accepts (.object x) (.object y)

theorem accepts_of {Γ : Scene} {c : Checker} (hc : Γ.classes = c.classes) {a b : Ty}
    (h : c.accepts a b = true) : Γ.Accepts a b := by
  simp only [Checker.accepts, Bool.or_eq_true] at h
  obtain h | h := h
  · exact .fits h
  · split at h
    · exact .noObject _
    · exact .noArray _
    · split at h
      · rename_i e
        exact .below (hc ▸ e) h
      · cases h
    · cases h

end Scene

end Brace
