import Mathlib.Data.List.Forall2
import Brace.Proofs.Safety.Fits
import Brace.Proofs.Scope.Growth

/-!
# Safety — what holds while a program runs

A world says what the names in the frames of a machine stand for, and which frames get no more
names. Neither is written anywhere in the machine: a site is a machine with a world that describes
it. In a site that is as it should be (`Site.Ok`), frames have exactly the names that the world
tells of, and whatever a name, an element or a field holds is fit for its place.

A value is `Ok` by what it carries along: a function by its declaration and the scope that its body
sees, a class by its methods and their scope. The frames of such a scope have to be those that
checking knew at the declaration, one for one (`Site.Sees`). Frames that come later do not change
that, and names that come later do so only where a program takes a predefined name for itself.

* `World.Bears.means`: what checking knew a name to mean, it stands for.
* `Class.Mirrors.method?`: a class answers with methods that look as checking has found them.
-/

namespace Brace

/-- What no machine shows of its frames. -/
structure World where
  /-- What a name of a frame stands for. -/
  means : FrameId → String → Option Symbol
  /-- The frame gets no more names. -/
  shut  : FrameId → Prop

/-- What a name stands for that is looked up through these frames. -/
def World.resolve (W : World) (x : String) (is : List FrameId) : Option Symbol :=
  is.findSome? (W.means · x)

/-- A machine, and a world that describes its frames. -/
structure Site where
  world   : World
  machine : Machine

namespace Site

def next (s : Site) : FrameId := s.machine.scopes.next

def chain (s : Site) (h : Handle) : List FrameId := s.machine.scopes.chain h

def heap (s : Site) : Heap := s.machine.heap

/-- The scope is one that a value can carry along: outside of frames that get no more names, it has
the frame of the program and that of predefined names. -/
def Rooted (s : Site) (h : Handle) : Prop :=
  ∃ is, s.chain h = is ++ [1, 0] ∧ ∀ i ∈ is, i < s.next ∧ s.world.shut i

end Site

/-- The frame has the names that checking knew, with these meanings. -/
def World.Has (W : World) (i : FrameId) (F : Names) : Prop := ∀ x, W.means i x = (F x).join

/-- The frames have the names that checking knew. The frame of the program may have got more. -/
inductive World.Bears (W : World) : List FrameId → List Names → Prop where
  | base {T R : Names} (top : ∀ x known, T x = some (some known) → W.means 1 x = some known)
      (root : W.Has 0 R) : W.Bears [1, 0] [T, R]
  | inner {i : FrameId} {F : Names} {is : List FrameId} {Fs : List Names} (h : W.Has i F)
      (hs : W.Bears is Fs) : W.Bears (i :: is) (F :: Fs)

/-- These frames are the ones that checking knew. -/
def Site.Sees (s : Site) (is : List FrameId) (Γ : Scene) : Prop := s.world.Bears is Γ.frames

/-- Where names of this kind are: what is predefined in the outermost frame, and functions in the
frame of the program. -/
def Symbol.Lives : Symbol → FrameId → Prop
  | .const _, i | .builtin _, i => i = 0
  | .function _, i              => i = 1
  | _, _                        => True

/-- What a declaration of a function or a class gives a name. -/
def Symbol.isDeclared : Symbol → Bool
  | .function _ | .cls _ => true
  | _                    => false

/-- What the declaration makes of its name. -/
def Decl.Makes : Decl → Symbol → Prop
  | .var v, s  => s = .var v.ty
  | .func f, s => s = .function f.signature
  | .cls _, s  => ∃ info, s = .cls info

/-- Where a superclass is known, so is the receiver. -/
def Scene.Seated (Γ : Scene) : Prop := (Γ.means "super").isSome → (Γ.means "this").isSome

/-! ### What is fit for a run -/

/-- The methods of a tier are those that checking has found. -/
structure Tier.Mirrors (t : Tier) (members : Members) : Prop where
  name    : members.name = t.name
  methods : ∀ x, members.methods.get? x = (t.method? x).map FuncDecl.signature

/-- The class has this name, or one above it has. -/
def Class.isA (c : Class) (x : String) : Bool := c.tiers.any (·.name == x)

/-- The class is what checking has found it to be, tier by tier. -/
def Class.Mirrors (c : Class) (info : ClassInfo) : Prop :=
  List.Forall₂ Tier.Mirrors c.tiers info.tiers

namespace Plan

variable (P : Plan) (s : Site)

/-- Where types are known, the value is of the type. -/
def Suits (h : Heap) (t : Ty) (v : Value) : Prop :=
  P.program.Settled → t.isAnyFree = true → v.Fits P.program.Typed h t

/-- What a name meant to checking may be the first symbol, and the second in a run: a name that was
predefined may have been taken since. -/
def Stands (x : String) (known met : Symbol) : Prop :=
  met = known ∨ known.isFixed = true ∧ P.program.Takes x

/-- A scope that a value can carry along, for code that was checked in `Γ`. -/
structure Scoped (h : Handle) (Γ : Scene) : Prop where
  rooted : s.Rooted h
  sees   : s.Sees (s.chain h) Γ
  seated : P.program.Unreserved → Γ.Seated

end Plan

section

variable (P : Plan) (s : Site)

def Closure.Ok (f : Closure) : Prop :=
  ∃ Γ, P.Scoped s f.scope Γ ∧ f.decl.Sound P.classes Γ ∧ P.program.Declares Γ f.decl

/-- Inside the scope of the methods, once there is a frame that binds the receiver. -/
def Scene.receiving (Γ : Scene) (receiver : Ty) (joined : Bool) : Scene :=
  (Γ.enter.bind "this" (.receiver receiver)).join joined

/-- Once the receiver is bound, the scope of the methods is what checking knew there. -/
def Tier.Ok (t : Tier) : Prop :=
  ∃ Γ receiver joined, s.Rooted t.scope ∧ s.Sees (s.chain t.scope) Γ ∧
    ∀ f ∈ t.methods, f.Sound P.classes (Γ.receiving receiver joined) ∧
      P.program.Declares (Γ.receiving receiver joined) f

structure Class.Ok (c : Class) : Prop where
  tiers : ∀ t ∈ c.tiers, t.Ok P s
  known : ∃ info, P.classes.get? c.name = some info ∧ c.Mirrors info

/-- The value is fit for the run. -/
def Value.Ok : Value → Prop
  | .array id   => id < s.heap.arrays.size
  | .function f => f.Ok P s
  | .cls c      => c.Ok P s
  | .object o   => ¬ P.program.Settled ∧ o.cls.Ok P s
  | _           => True

/-- A name of this meaning may hold the value. -/
def Symbol.Takes (h : Heap) : Symbol → Value → Prop
  | .var t, v | .const t, v | .receiver t, v => P.Suits h t v
  | .function sig, v => P.program.Firm →
      ∃ f, v = .function f ∧ .func f.decl ∈ P.program ∧ f.decl.signature = sig
  | .builtin b, v => v = .builtin b
  | .cls info, v => (∀ c, v = .cls c → c.Mirrors info) ∧ (P.program.Firm → ∃ c, v = .cls c)

namespace Site

/-- The world describes the frames of the machine. -/
structure Framed : Prop where
  names : ∀ i x, (s.machine.scopes.binding? i x).isSome = (s.world.means i x).isSome
  root  : ∀ x, s.world.means 0 x =
    (predefined? x).map (Sum.elim (Symbol.const ·.ty) Symbol.builtin)
  top   : ∀ x known, s.world.means 1 x = some known →
    ∃ d ∈ P.program, d.name = x ∧ d.Makes known
  lives : ∀ i x known, s.world.means i x = some known → known.Lives i
  size  : 2 ≤ s.next
  base  : s.machine.scopes.outer 1 = [0]
  order : ∀ i, ∀ j ∈ s.machine.scopes.outer i, j < i
  ice   : ∀ i, s.machine.scopes.isFrozen i = decide (i = 0)
  shut  : ∀ i, s.world.shut i → 1 < i ∧ i < s.next

/-- Everything that is stored is fit for its place. -/
structure Ok : Prop extends Framed P s where
  values : ∀ i x v known, s.machine.scopes.binding? i x = some (some v) →
    s.world.means i x = some known → v.Ok P s ∧ known.Takes P s.heap v
  items  : ∀ id, ∀ v ∈ (s.heap.cells id).items, v.Ok P s ∧ P.Suits s.heap (s.heap.cells id).element v
  arrays : P.program.Settled → ∀ id, id < s.heap.arrays.size →
    (s.heap.cells id).element.isAnyFree = true
  fields : ∀ id x v, s.heap.field? id x = some v → v.Ok P s ∧ P.program.Writes x

end Site

end

/-! ### What frames tell -/

/-- What a name means is found in the first frame that has it. -/
theorem World.resolve_cons (W : World) (x : String) (i : FrameId) (is : List FrameId) :
    W.resolve x (i :: is) = (W.means i x).or (W.resolve x is) := by
  rw [resolve, List.findSome?_cons]
  cases W.means i x <;> rfl

/-- What is in the outermost frame is predefined. -/
theorem Site.Framed.fixed {P : Plan} {s : Site} (hf : s.Framed P) {x : String} {known : Symbol}
    (h : s.world.means 0 x = some known) : known.isFixed = true ∧ (predefined? x).isSome := by
  rw [hf.root] at h
  obtain ⟨c, hc, rfl⟩ := Option.map_eq_some_iff.mp h
  refine ⟨?_, by rw [hc]; rfl⟩
  cases c <;> rfl

/-- What checking knew a name to mean, it stands for. -/
theorem World.Bears.means {P : Plan} {s : Site} (hf : s.Framed P) {x : String} {known : Symbol} :
    ∀ {is : List FrameId} {Fs : List Names}, s.world.Bears is Fs →
      (Fs.findSome? (· x)).join = some known →
        ∃ met, s.world.resolve x is = some met ∧ P.Stands x known met
  | _, _, .base (T := T) (R := R) top root, h => by
      rw [resolve_cons, resolve_cons]
      cases eT : T x with
      | some b =>
          simp only [List.findSome?_cons, eT, Option.join_some] at h
          rw [top x known (h ▸ eT)]
          exact ⟨known, rfl, .inl rfl⟩
      | none =>
          have h₀ : s.world.means 0 x = some known := by
            rw [root x, ← h]
            simp only [List.findSome?_cons, eT]
            cases R x <;> rfl
          cases e₁ : s.world.means 1 x with
          | none => exact ⟨known, by rw [h₀]; rfl, .inl rfl⟩
          | some met =>
              -- The name was predefined, and has been taken since.
              obtain ⟨hfixed, hp⟩ := hf.fixed h₀
              obtain ⟨d, hd, hx, -⟩ := hf.top x met e₁
              exact ⟨met, rfl, .inr ⟨hfixed, hp, d, hd, hx⟩⟩
  | _, _, .inner (i := i) (F := F) hi hs, h => by
      rw [resolve_cons, hi x]
      cases eF : F x with
      | some b =>
          simp only [List.findSome?_cons, eF, Option.join_some] at h
          exact ⟨known, by rw [h]; rfl, .inl rfl⟩
      | none =>
          simp only [List.findSome?_cons, eF] at h
          exact hs.means hf h

/-- A name with a meaning leads to something that stands for this meaning. -/
theorem Site.Sees.means {P : Plan} {s : Site} (hf : s.Framed P) {is : List FrameId} {Γ : Scene}
    (hs : s.Sees is Γ) {x : String} {known : Symbol} (hx : Γ.means x = some known) :
    ∃ met, s.world.resolve x is = some met ∧ P.Stands x known met := World.Bears.means hf hs hx

/-! ### What is known of a class -/

namespace Class

variable {c : Class} {info : ClassInfo}

/-- A class has the name that checking knows it by. -/
theorem Mirrors.name (h : c.Mirrors info) : info.name = c.name := by
  cases h with
  | cons h _ => exact h.name

/-- The signature that checking finds for a method is that of the method that is found. -/
theorem mirrors_methodIn (x : String) {ts : List Tier} {ms : List Members}
    (h : List.Forall₂ Tier.Mirrors ts ms) :
    ms.findSome? (·.methods.get? x) = (methodIn x ts).map (·.2.signature) := by
  induction h with
  | nil => rfl
  | cons h _ ih =>
      rw [List.findSome?_cons, h.methods x, methodIn]
      split <;> rename_i e
      · obtain ⟨f, hf, rfl⟩ := Option.map_eq_some_iff.mp e
        simp only [hf, Option.map_some]
      · rw [Option.map_eq_none_iff] at e
        simp only [e, ih]

/-- A class answers with methods that look as checking has found them. -/
theorem Mirrors.method? (h : c.Mirrors info) (x : String) :
    info.method? x = (c.method? x).map (·.2.signature) := mirrors_methodIn x h

/-- A tier of this name is there if checking knows one. -/
theorem mirrors_any (x : String) {ts : List Tier} {ms : List Members}
    (h : List.Forall₂ Tier.Mirrors ts ms) : ms.any (·.name == x) = ts.any (·.name == x) := by
  induction h with
  | nil => rfl
  | cons h _ ih => rw [List.any_cons, List.any_cons, h.name, ih]

/-- A class is below the classes of its tiers. -/
theorem Mirrors.isA (h : c.Mirrors info) (x : String) : info.isA x = c.isA x := mirrors_any x h

/-- A method that is found is one of a tier of the class. -/
theorem mem_of_methodIn {x : String} : ∀ {ts : List Tier} {method : Tier × FuncDecl},
    methodIn x ts = some method → method.1 ∈ ts ∧ method.2 ∈ method.1.methods
  | t :: ts, method, e => by
      rw [methodIn] at e
      split at e
      · rename_i f hf
        cases e
        exact ⟨List.mem_cons_self, List.mem_reverse.mp (List.mem_of_find?_eq_some hf)⟩
      · obtain ⟨ht, hm⟩ := mem_of_methodIn e
        exact ⟨List.mem_cons_of_mem t ht, hm⟩

end Class

end Brace
