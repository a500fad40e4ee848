import Brace.Proofs.Run.Stores

/-!
# Classes — how classes and methods are made

Each tier of a class comes from one declaration of the program. Its methods see the frame of the
program, and in between a frame that binds the class of the tiers above it. A method that is bound to an
object sees a frame of its own that binds the object, and then what the methods of its tier see. As long
as nothing else is named `this` or `super`, no frame of a function's body comes between under these
names, so they lead from the body to the two frames.

* `Lineage`, `Closure.Made`: what classes and functions are made of.
* `Value.Made.rests`: they stay so, whatever frames come later.
* `Code.Holds.super`: where `super` leads.
-/

namespace Brace

/-! ### Reserved names -/

/-- A word for the receiver of a method, or for the class above the one that declares it. -/
def Reserved (x : String) : Prop := x = "this" ∨ x = "super"

instance (x : String) : Decidable (Reserved x) := inferInstanceAs (Decidable (_ ∨ _))

/-- The names that this node of an expression is written with. -/
def Expr.mentions : Expr → List String
  | .name _ x | .index _ x _ | .indexAssign _ x _ _ | .assign _ x _ | .compound _ _ x _
  | .sprintf _ x _ _ => [x]
  | _                => []

def Part.mentions : Part → List String
  | .expr e => e.mentions
  | .name x => [x]

/-- Neither `this` nor `super` is a name in the program: nothing is declared so, and no variable is
used that is named so. -/
def Program.Unmentioned (p : Program) : Prop := ∀ a ∈ p.parts, ∀ x ∈ a.mentions, ¬ Reserved x

instance (p : Program) : Decidable p.Unmentioned :=
  inferInstanceAs (Decidable (∀ a ∈ p.parts, ∀ x ∈ a.mentions, ¬ Reserved x))

/-- Evaluation assigns only to names that are written. -/
theorem Expr.mentioned_of_assigned {e : Expr} {x : String} (hx : x ∈ e.assigned) :
    ∃ s ∈ e.subexprs, x ∈ s.mentions := by
  have named {t : Expr} (ht : t ∈ e.children) (hx : x ∈ t.named) : ∃ s ∈ e.subexprs, x ∈ s.mentions := by
    cases t with
    | name n y => exact ⟨_, mem_subexprs_of_child ht, hx⟩
    | _ => cases hx
  cases e with
  | assign n y a => exact ⟨_, self_mem_subexprs _, hx⟩
  | compound n op y a => exact ⟨_, self_mem_subexprs _, hx⟩
  | sprintf n y format args => exact ⟨_, self_mem_subexprs _, hx⟩
  | step n form target => exact named (.head _) hx
  | scanf n format targets =>
      obtain ⟨t, ht, hx⟩ := List.mem_flatMap.mp hx
      exact named (.tail _ ht) hx
  | _ => cases hx

/-! ### What classes and functions are made of -/

/-- The tier is what the declaration adds to a class. -/
structure Tier.Of (t : Tier) (d : ClassDecl) : Prop where
  name    : t.name = d.name
  methods : t.methods = d.methods

/-- The methods of the tier see the frame of the program, and before it one that binds the class of the
tiers above, if there are any. -/
def Tier.Seated (s : Forest Value) (t : Tier) : List Tier → Prop
  | []      => s.chain t.scope = [1, 0]
  | u :: us => ∃ i, s.chain t.scope = [i, 1, 0] ∧
      s.binding? i "super" = some (some (.cls ⟨u, us⟩)) ∧ s.binding? i "this" = none

/-- Tiers of a class, each from a declaration of the program. -/
def Lineage (p : Program) (s : Forest Value) : List Tier → Prop
  | []      => True
  | t :: ts => (∃ d, .cls d ∈ p ∧ t.Of d) ∧ (p.Unmentioned → t.Seated s ts) ∧ Lineage p s ts

def Class.Made (p : Program) (s : Forest Value) (c : Class) : Prop := Lineage p s c.tiers

/-- The function is a method of one tier of the object's class, bound to the object. -/
structure Closure.Bound (p : Program) (s : Forest Value) (g : Closure) (o : Object)
    (above : List Tier) (t : Tier) (below : List Tier) : Prop where
  cls   : o.cls.Made p s
  tiers : o.cls.tiers = above ++ t :: below
  decl  : g.decl ∈ t.methods
  chain : s.chain g.scope = g.scope.frame :: s.chain t.scope
  this  : s.binding? g.scope.frame "this" = some (some (.object o))
  super : s.binding? g.scope.frame "super" = none

/-- The function is declared by the program, or it is a method that is bound to an object. -/
inductive Closure.Made (p : Program) (s : Forest Value) (g : Closure) : Prop where
  | function (decl : .func g.decl ∈ p) (chain : s.chain g.scope = [1, 0])
  | method {o : Object} {above : List Tier} {t : Tier} {below : List Tier}
      (bound : g.Bound p s o above t below)

/-- Whatever classes and functions the value carries along are made as the program makes them. -/
def Value.Made (p : Program) (s : Forest Value) : Value → Prop
  | .function g => p.Unmentioned → g.Made p s
  | .cls c      => c.Made p s
  | .object o   => o.cls.Made p s
  | _           => True

def Flow.Made (p : Program) (s : Forest Value) : Flow → Prop
  | .ret v => v.Made p s
  | _      => True

/-- The two frames that a program starts in are there. -/
structure Forest.Based (p : Program) (s : Forest Value) : Prop where
  size  : 2 ≤ s.next
  outer : s.outer 1 = [0]
  clear : p.Unmentioned → ∀ i < 2, ∀ x, Reserved x → s.binding? i x = none

structure Machine.Made (p : Program) (m : Machine) : Prop where
  based  : m.scopes.Based p
  stored : ∀ v, m.Stores v → v.Made p m.scopes

variable {p : Program} {s s' : Forest Value}

/-- A plain value carries no class and no function along. -/
theorem Value.made_of_plain {v : Value} (h : v.isPlain = true) : v.Made p s := by
  cases v <;> trivial

/-- What an operation gives that gives plain values. -/
theorem Value.Settles.made {r : Except Cause Value} (h : Settles (·.isPlain = true) r) :
    ∀ v, r = .ok v → v.Made p s := by
  rintro v rfl
  exact made_of_plain h

/-- From the frame of the program, the two frames of every program are seen. -/
theorem Forest.Based.chain (h : s.Based p) {k : Handle} (hk : k.frame = 1) : s.chain k = [1, 0] := by
  rw [Forest.chain, hk, h.outer]

/-! ### Tiers -/

namespace Lineage

/-- Each of the tiers comes from a declaration of the program. -/
theorem member {t : Tier} : ∀ {ts : List Tier}, Lineage p s ts → t ∈ ts → ∃ d, .cls d ∈ p ∧ t.Of d
  | _ :: _, h, ht => by
      rcases List.mem_cons.mp ht with rfl | ht
      · exact h.1
      · exact member h.2.2 ht

/-- The tiers above one are made as tiers are, too. -/
theorem drop : ∀ {above ts : List Tier}, Lineage p s (above ++ ts) → Lineage p s ts
  | [], _, h       => h
  | _ :: us, ts, h => drop (show Lineage p s (us ++ ts) from h.2.2)

end Lineage

namespace Tier.Seated

/-- What is seen from the methods, and where it ends. -/
theorem frame {t : Tier} {ts : List Tier} (based : s.Based p) (h : t.Seated s ts) :
    t.scope.frame < s.next := by
  cases ts with
  | nil =>
      have e : t.scope.frame = 1 := (List.cons.inj h).1
      rw [e]
      exact based.size
  | cons u us =>
      obtain ⟨i, chain, super, -⟩ := h
      have e : t.scope.frame = i := (List.cons.inj chain).1
      rw [e]
      exact Forest.lt_of_binding? super

end Tier.Seated

namespace Closure

/-- A function that is called sees frames that are there. -/
theorem Made.frame {g : Closure} (based : s.Based p) (h : g.Made p s) : g.scope.frame < s.next := by
  cases h with
  | function _ chain =>
      have e : g.scope.frame = 1 := (List.cons.inj chain).1
      rw [e]
      exact based.size
  | method bound => exact Forest.lt_of_binding? bound.this

/-- A bound method is declared in the class that its tier comes from. -/
theorem Bound.declared {g : Closure} {o : Object} {above below : List Tier} {t : Tier}
    (h : g.Bound p s o above t below) : ∃ d, .cls d ∈ p ∧ t.Of d ∧ g.decl ∈ d.methods := by
  have inside : t ∈ o.cls.tiers := h.tiers ▸ List.mem_append_right above (.head _)
  obtain ⟨d, hd, ht⟩ := Lineage.member h.cls inside
  exact ⟨d, hd, ht, ht.methods ▸ h.decl⟩

/-- A bound method sees the tiers above its own, wherever that stands in the object's class. -/
theorem Bound.seated {g : Closure} {o : Object} {above below : List Tier} {t : Tier}
    (h : g.Bound p s o above t below) (hp : p.Unmentioned) : t.Seated s below := by
  have whole : Lineage p s (above ++ t :: below) := h.tiers ▸ h.cls
  exact whole.drop.2.1 hp

/-- The parts of a function are parts of the program. -/
theorem Made.parts {g : Closure} (h : g.Made p s) : ∀ a ∈ g.decl.parts, a ∈ p.parts := by
  intro a ha
  cases h with
  | function hd _ => exact List.mem_flatMap.mpr ⟨_, hd, .tail _ ha⟩
  | method bound =>
      obtain ⟨d, hd, -, hg⟩ := bound.declared
      exact List.mem_flatMap.mpr ⟨_, hd, .tail _ (List.mem_flatMap.mpr ⟨_, hg, ha⟩)⟩

end Closure

/-! ### What stays so -/

/-- Frames stay, and as long as nothing else is named so, they keep what they bind `this` and `super`
to. -/
structure Forest.Rests (p : Program) (s s' : Forest Value) : Prop extends s.Grown s' where
  reserved : p.Unmentioned → ∀ i < s.next, ∀ x, Reserved x → s'.binding? i x = s.binding? i x

namespace Forest.Rests

theorem refl (s : Forest Value) : s.Rests p s := ⟨.refl s, fun _ _ _ _ _ => rfl⟩

theorem trans {s₁ s₂ s₃ : Forest Value} (h₁ : s₁.Rests p s₂) (h₂ : s₂.Rests p s₃) : s₁.Rests p s₃ :=
  ⟨h₁.toGrown.trans h₂.toGrown, fun hp i hi x hx =>
    (h₂.reserved hp i (Nat.lt_of_lt_of_le hi h₁.next) x hx).trans (h₁.reserved hp i hi x hx)⟩

/-- What is seen from a frame stays the same. -/
theorem chain (h : s.Rests p s') {k : Handle} (hk : k.frame < s.next) : s'.chain k = s.chain k := by
  rw [Forest.chain, Forest.chain, h.outer _ hk]

/-- The two frames of every program stay as they are. -/
theorem based (h : s.Rests p s') (hs : s.Based p) : s'.Based p where
  size := Nat.le_trans hs.size h.next
  outer := (h.outer 1 hs.size).trans hs.outer
  clear hp i hi x hx :=
    (h.reserved hp i (Nat.lt_of_lt_of_le hi hs.size) x hx).trans (hs.clear hp i hi x hx)

variable (h : s.Rests p s')

include h

/-- A binding that is there stays. -/
theorem kept (hp : p.Unmentioned) {i : FrameId} {x : String} (hx : Reserved x) {b : Option Value}
    (e : s.binding? i x = some b) : s'.binding? i x = some b :=
  (h.reserved hp i (lt_of_binding? e) x hx).trans e

/-- Methods go on to see the class of the tiers above. -/
theorem seated (hp : p.Unmentioned) (hs : s.Based p) {t : Tier} {ts : List Tier}
    (ht : t.Seated s ts) : t.Seated s' ts := by
  have chain := h.chain (ht.frame hs)
  cases ts with
  | nil => exact chain.trans ht
  | cons u us =>
      obtain ⟨i, seen, super, this⟩ := ht
      refine ⟨i, chain.trans seen, h.kept hp (.inr rfl) super, ?_⟩
      exact (h.reserved hp i (lt_of_binding? super) "this" (.inl rfl)).trans this

/-- Classes stay as they were made. -/
theorem lineage (hs : s.Based p) : ∀ {ts : List Tier}, Lineage p s ts → Lineage p s' ts
  | [], _           => trivial
  | _ :: _, ⟨d, t, ts⟩ => ⟨d, fun hp => h.seated hp hs (t hp), lineage hs ts⟩

/-- A bound method stays bound to its object. -/
theorem bound (hp : p.Unmentioned) (hs : s.Based p) {g : Closure} {o : Object}
    {above below : List Tier} {t : Tier} (hg : g.Bound p s o above t below) :
    g.Bound p s' o above t below where
  cls := h.lineage hs hg.cls
  tiers := hg.tiers
  decl := hg.decl
  chain := by
    rw [h.chain (lt_of_binding? hg.this), h.chain ((hg.seated hp).frame hs)]
    exact hg.chain
  this := h.kept hp (.inl rfl) hg.this
  super := (h.reserved hp _ (lt_of_binding? hg.this) "super" (.inr rfl)).trans hg.super

/-- Functions stay as they were made. -/
theorem closure (hp : p.Unmentioned) (hs : s.Based p) {g : Closure} (hg : g.Made p s) :
    g.Made p s' := by
  have frame := hg.frame hs
  cases hg with
  | function hd chain => exact .function hd ((h.chain frame).trans chain)
  | method bound => exact .method (h.bound hp hs bound)

end Forest.Rests

/-- What has been made stays as it was made. -/
theorem Value.Made.rests (h : s.Rests p s') (hs : s.Based p) {v : Value} (hv : v.Made p s) :
    v.Made p s' := by
  cases v with
  | function g => exact fun hp => h.closure hp hs (hv hp)
  | cls c => exact h.lineage hs hv
  | object o =>
      have made : Lineage p s o.cls.tiers := hv
      exact h.lineage hs made
  | _ => trivial

/-! ### Where code is run -/

/-- What code is run: the body of a function, or else a first value of a variable of the program. -/
structure Code where
  body  : Option Closure
  /-- How many calls are under way. -/
  depth : Nat

namespace Code

/-- The parts of the code are among these. -/
def parts (p : Program) : Code → List Part
  | ⟨some g, _⟩ => g.decl.parts
  | ⟨none, _⟩   => p.parts

/-- The frames that the code sees besides its own. -/
def frames (s : Forest Value) : Code → List FrameId
  | ⟨some g, _⟩ => s.chain g.scope
  | ⟨none, _⟩   => [1, 0]

/-- The scope is one of the code's own, and no frame of its own binds `this` or `super`. -/
structure Holds (p : Program) (s : Forest Value) (c : Code) (k : Handle) : Prop where
  made  : ∀ g, c.body = some g → g.Made p s
  chain : ∃ inner, s.chain k = inner ++ c.frames s ∧
    ∀ i ∈ inner, i < s.next ∧ ∀ x, Reserved x → s.binding? i x = none

namespace Holds

variable {c : Code} {k : Handle}

/-- The parts of the code are parts of the program. -/
theorem parts (h : c.Holds p s k) : ∀ a ∈ c.parts p, a ∈ p.parts := by
  obtain ⟨_ | g, _⟩ := c
  · exact fun _ ha => ha
  · exact (h.made g rfl).parts

/-- The frame that the code works in is there. -/
theorem frame (h : c.Holds p s k) (hs : s.Based p) : k.frame < s.next := by
  obtain ⟨inner, chain, hi⟩ := h.chain
  cases inner with
  | cons i is =>
      have e : k.frame = i := (List.cons.inj chain).1
      rw [e]
      exact (hi i (.head _)).1
  | nil =>
      obtain ⟨_ | g, _⟩ := c
      · have e : k.frame = 1 := (List.cons.inj chain).1
        rw [e]
        exact hs.size
      · have e : k.frame = g.scope.frame := (List.cons.inj chain).1
        rw [e]
        exact (h.made g rfl).frame hs

/-- Code goes on in the same scope, whatever frames come later. -/
theorem rests (h : c.Holds p s k) (hp : p.Unmentioned) (hs : s.Based p) (hr : s.Rests p s') :
    c.Holds p s' k where
  made g e := hr.closure hp hs (h.made g e)
  chain := by
    obtain ⟨inner, chain, hi⟩ := h.chain
    have frames : c.frames s' = c.frames s := by
      obtain ⟨_ | g, _⟩ := c
      · rfl
      · exact hr.chain ((h.made g rfl).frame hs)
    refine ⟨inner, ?_, fun i mem => ?_⟩
    · rw [hr.chain (h.frame hs), chain, frames]
    · obtain ⟨lt, clear⟩ := hi i mem
      exact ⟨Nat.lt_of_lt_of_le lt hr.next, fun x hx => (hr.reserved hp i lt x hx).trans (clear x hx)⟩

/-- One more frame of the code's own. -/
theorem push (h : c.Holds p s k) (hp : p.Unmentioned) (hs : s.Based p) :
    c.Holds p (s.push k).1 (s.push k).2 := by
  have rests : s.Rests p (s.push k).1 :=
    ⟨.push s k, fun _ i _ x _ => Forest.binding?_push s k i x⟩
  obtain ⟨made, inner, chain, hi⟩ := h.rests hp hs rests
  have new : s.next < (s.push k).1.next := by simp
  refine ⟨made, s.next :: inner, ?_, List.forall_mem_cons.mpr ⟨⟨new, fun x _ => ?_⟩, hi⟩⟩
  · have outer : (s.push k).1.outer (s.push k).2.frame = s.chain k := Forest.outer_push_new s k
    rw [Forest.chain, outer, ← rests.chain (h.frame hs), chain]
    rfl
  · rw [Forest.binding?_push, Forest.binding?_beyond _ (Nat.le_refl _)]

/-- What the code's own frames do not bind is looked up outside of them. -/
theorem nearest? (h : c.Holds p s k) {x : String} (hx : Reserved x) :
    s.nearest? k x = s.nearestIn x (c.frames s) := by
  obtain ⟨inner, chain, hi⟩ := h.chain
  rw [Forest.nearest?, chain]
  clear chain
  induction inner with
  | nil => rfl
  | cons i is ih =>
      obtain ⟨here, rest⟩ := List.forall_mem_cons.mp hi
      rw [List.cons_append, Forest.nearestIn, here.2 x hx]
      exact ih rest

/-- **Where `super` leads.**  Where it leads anywhere, the code is that of a method that is bound to an
object, in a tier of the object's class that has tiers above it. It leads to the class of those tiers,
and `this` to the object. -/
theorem super (h : c.Holds p s k) (hp : p.Unmentioned) (hs : s.Based p) {i : FrameId}
    {b : Option Value} (e : s.nearest? k "super" = some (i, b)) :
    ∃ g o above t cls, c.body = some g ∧ g.Bound p s o above t cls.tiers ∧ b = some (.cls cls) ∧
      s.nearest? k "this" = some (g.scope.frame, some (.object o)) := by
  rw [h.nearest? (.inr rfl)] at e
  -- The frames that a program starts in do not bind it.
  have missing : s.nearestIn "super" [1, 0] = none := by
    simp [Forest.nearestIn, hs.clear hp 0 Nat.zero_lt_two _ (.inr rfl),
      hs.clear hp 1 Nat.one_lt_two _ (.inr rfl)]
  obtain ⟨_ | g, _⟩ := c
  · cases missing.symm.trans e
  have e : s.nearestIn "super" (s.chain g.scope) = some (i, b) := e
  cases h.made g rfl with
  | function _ chain =>
      rw [chain] at e
      cases missing.symm.trans e
  | @method o above t below bound =>
      rw [bound.chain, Forest.nearestIn, bound.super] at e
      cases below with
      | nil =>
          have chain : s.chain t.scope = [1, 0] := bound.seated hp
          rw [chain] at e
          cases missing.symm.trans e
      | cons u us =>
          obtain ⟨j, chain, super, -⟩ := bound.seated hp
          rw [chain] at e
          simp only [Forest.nearestIn, super, Option.some.injEq, Prod.mk.injEq] at e
          refine ⟨g, o, above, t, ⟨u, us⟩, rfl, bound, e.2.symm, ?_⟩
          rw [h.nearest? (.inl rfl), frames, bound.chain, Forest.nearestIn, bound.this]

end Holds

end Code

end Brace
