import Brace.Proofs.Classes.Made
import Brace.Proofs.Safety.Given
import Brace.Proofs.Safety.Program

/-!
# Classes — reserved words in programs

A name that a piece of a program gives to nothing means the same in all of the piece. So where nothing
is named `super`, checking knows it to mean what the frame of a class binds it to, and nowhere else
does it mean anything.

* `Program.unmentioned_of_check`: reserved words are no names in a checked program if they are none in
  the program.
* `Program.Unmentioned.super_placed`: where `super` means something, it is a class.
-/

namespace Brace

/-! ### Programs without types -/

@[simp] theorem Expr.mentions_bare (e : Expr) : e.bare.mentions = e.mentions := by
  cases e <;> rfl

@[simp] theorem Part.mentions_bare (a : Part) : a.bare.mentions = a.mentions := by
  cases a with
  | expr e => exact e.mentions_bare
  | name x => rfl

namespace Program

variable {p : Program}

/-- Checking mentions no more names than there were. -/
theorem unmentioned_of_check {checked : Checked} (h : p.check = .ok checked) (hp : p.Unmentioned) :
    checked.program.Unmentioned := by
  intro a ha x hx
  obtain ⟨b, hb, e⟩ := part_of_check h ha
  refine hp b hb x ?_
  rw [← b.mentions_bare, e, a.mentions_bare]
  exact hx

/-- What is not mentioned is given to nothing. -/
theorem Unmentioned.unnamed (hp : p.Unmentioned) {x : String} (hx : Reserved x) :
    .name x ∉ p.parts := fun h => hp _ h x (.head _) hx

end Program

/-! ### What a name means throughout -/

variable {x : String} {Γ : Scene}

/-- The name means the same in these places as it does in the scene. -/
def Scene.Throughout (Γ : Scene) (x : String) (places : List (Scene × Part)) : Prop :=
  ∀ a ∈ places, a.1.means x = Γ.means x

namespace Scene.Throughout

variable {as bs : List (Scene × Part)}

/-- A name that means the same in two lists of places does so in both together. -/
theorem append (h : Γ.Throughout x as) (h' : Γ.Throughout x bs) : Γ.Throughout x (as ++ bs) :=
  fun a ha => (List.mem_append.mp ha).elim (h a) (h' a)

/-- Where another scene means the same by the name, so do its places. -/
theorem of_means {Γ' : Scene} (e : Γ'.means x = Γ.means x) (h : Γ'.Throughout x as) :
    Γ.Throughout x as := fun a ha => (h a ha).trans e

end Scene.Throughout

/-- Inside an expression, nothing is named. -/
theorem Expr.throughout (e : Expr) : Γ.Throughout x (e.placed Γ) := by
  intro a ha
  obtain ⟨b, -, rfl⟩ := List.mem_map.mp ha
  rfl

namespace VarDecl

variable {v : VarDecl} {vs : List VarDecl}

/-- A name that a declaration does not give is not the one that it gives. -/
theorem ne_of_unnamed (h : .name x ∉ v.parts) : x ≠ v.name := by
  rintro rfl
  exact h (.head _)

/-- A variable that is named otherwise leaves the meaning of the name as it is. -/
theorem throughout (h : .name x ∉ v.parts) : Γ.Throughout x (v.placed Γ) := by
  refine List.forall_mem_cons.mpr ⟨rfl, ?_⟩
  cases v.init with
  | none => nofun
  | some e =>
      have hidden : (Γ.hide v.name).means x = Γ.means x := Γ.means_put_other (ne_of_unnamed h) none
      exact Scene.Throughout.of_means hidden e.throughout

/-- Variables that are named otherwise leave the meaning of the name as it is. -/
theorem means_declareAll : ∀ {vs : List VarDecl} {Γ : Scene}, .name x ∉ vs.flatMap parts →
    (Γ.declareAll vs).means x = Γ.means x
  | [], _, _ => rfl
  | v :: vs, Γ, h => by
      rw [List.flatMap_cons, List.mem_append, not_or] at h
      exact (means_declareAll h.2).trans (Γ.means_put_other (ne_of_unnamed h.1) _)

theorem throughout_all : ∀ {vs : List VarDecl} {Γ : Scene}, .name x ∉ vs.flatMap parts →
    Γ.Throughout x (placedAll Γ vs)
  | [], _, _ => nofun
  | v :: vs, Γ, h => by
      rw [List.flatMap_cons, List.mem_append, not_or] at h
      exact (throughout h.1).append
        (.of_means (Γ.means_put_other (ne_of_unnamed h.1) _) (throughout_all h.2))

end VarDecl

namespace ForInit

variable {init : ForInit} (h : .name x ∉ init.parts)

include h

/-- An `init` clause that gives the name to nothing leaves its meaning as it is. -/
theorem throughout : Γ.Throughout x (init.placed Γ) := by
  cases init with
  | decl v => exact VarDecl.throughout h
  | expr e => exact e.throughout

theorem means_afterInit : (Γ.afterInit init).means x = Γ.means x := by
  cases init with
  | decl v => exact Γ.means_put_other (VarDecl.ne_of_unnamed h) _
  | expr e => rfl

end ForInit

namespace Stmt

mutual

/-- A statement that gives the name to nothing leaves its meaning as it is, and so do all those inside
it. -/
theorem throughout : ∀ {s : Stmt} {Γ : Scene}, .name x ∉ s.parts → Γ.Throughout x (s.placed Γ)
  | .block _ vs ss, Γ, h => by
      simp only [parts, List.mem_append, not_or] at h
      rw [placed]
      have declared := VarDecl.means_declareAll (Γ := Γ.enter) h.1
      exact .append (VarDecl.throughout_all (Γ := Γ.enter) h.1)
        (.of_means declared (throughout_all h.2))
  | .ifElse _ cond t e, Γ, h => by
      simp only [parts, List.mem_append, not_or] at h
      rw [placed]
      exact cond.throughout.append ((throughout h.2.1).append (throughout h.2.2))
  | .whileLoop _ cond body, Γ, h => by
      simp only [parts, List.mem_append, not_or] at h
      rw [placed]
      exact cond.throughout.append (throughout (Γ := Γ.looping true) h.2)
  | .forLoop _ init cond update body, Γ, h => by
      simp only [parts, List.mem_append, not_or] at h
      rw [placed]
      have begun := ForInit.means_afterInit (Γ := Γ.enter) h.1
      have turn : (Γ.enter.afterInit init).Throughout x
          (body.placed ((Γ.enter.afterInit init).looping true)) := throughout h.2.2.2
      exact .append (ForInit.throughout (Γ := Γ.enter) h.1) (.of_means begun
        (cond.throughout.append (update.throughout.append turn)))
  | .ret _ (some e), Γ, _ | .expr _ e, Γ, _ => by
      rw [placed]
      exact e.throughout
  | .ret _ none, _, _ | .breakLoop _, _, _ | .continueLoop _, _, _ | .empty _, _, _ => by
      rw [placed]
      nofun

theorem throughout_all : ∀ {ss : List Stmt} {Γ : Scene}, .name x ∉ partsOf ss →
    Γ.Throughout x (placedAll Γ ss)
  | [], _, _ => by
      rw [placedAll]
      nofun
  | s :: ss, Γ, h => by
      simp only [partsOf, List.mem_append, not_or] at h
      rw [placedAll]
      exact (throughout h.1).append (throughout_all h.2)

end

end Stmt

/-- Parameters that are named otherwise leave the meaning of the name as it is. -/
theorem Scene.means_bindParams : ∀ {params : List Param} {Γ : Scene}, (∀ y ∈ params, x ≠ y.name) →
    (Γ.bindParams params).means x = Γ.means x
  | [], _, _ => rfl
  | y :: ys, Γ, h => by
      obtain ⟨ne, rest⟩ := List.forall_mem_cons.mp h
      exact (means_bindParams rest).trans (Γ.means_put_other ne _)

/-- A function that gives the name to nothing leaves its meaning as it is, in all of its body. -/
theorem FuncDecl.throughout {f : FuncDecl} (h : .name x ∉ f.parts) :
    Γ.Throughout x (f.placed Γ) := by
  simp only [parts, List.mem_append, not_or] at h
  have params : ∀ y ∈ f.params, x ≠ y.name := by
    rintro y hy rfl
    exact h.1 (List.mem_map_of_mem (f := fun y : Param => Part.name y.name) hy)
  have entered : (Γ.ofFunction f).means x = Γ.means x :=
    Scene.means_bindParams (Γ := Γ.enter) params
  refine .append (fun a ha => ?_) (.append ?_ ?_)
  · obtain ⟨y, -, rfl⟩ := List.mem_map.mp ha
    rfl
  · exact .of_means entered (VarDecl.throughout_all h.2.1)
  · exact .of_means ((VarDecl.means_declareAll h.2.1).trans entered) (Stmt.throughout_all h.2.2)

/-! ### Where `super` means something -/

/-- Inside a class, `super` means the superclass, or what it means outside. -/
theorem Scene.means_super_inClass (Γ : Scene) (name : String) (superclass : Option ClassInfo) :
    (Γ.inClass name superclass).means "super" =
      (superclass.map Symbol.cls).or (Γ.means "super") := by
  have below : (Γ.inClass name superclass).means "super" = (Γ.belowSuper superclass).means "super" :=
    ((Γ.belowSuper superclass).enter).means_put_other (y := "super") (x := "this") (by decide) _
  rw [below]
  cases superclass with
  | none => rfl
  | some c => exact Γ.enter.means_put_self "super" _

/-- What a declaration declares is among its parts. -/
theorem Decl.name_mem_parts (d : Decl) : .name d.name ∈ d.parts := by
  cases d <;> exact .head _

/-- Where `super` means something in a declaration that is outside of classes, it is a class. -/
theorem Decl.super_placed {d : Decl} (outside : Γ.means "super" = none)
    (h : .name "super" ∉ d.parts) {a : Scene × Part} (ha : a ∈ d.placed Γ) {known : Symbol}
    (e : a.1.means "super" = some known) : ∃ info, known = .cls info := by
  have ne : "super" ≠ d.name := fun e => h (e ▸ d.name_mem_parts)
  cases d with
  | var v =>
      rw [VarDecl.throughout h a ha, outside] at e
      cases e
  | func f =>
      rw [parts, List.mem_cons, not_or] at h
      have there : Γ.Throughout "super" (Decl.placed Γ (.func f)) :=
        List.forall_mem_cons.mpr ⟨rfl, Scene.Throughout.of_means
          (Γ.means_put_other ne _) (FuncDecl.throughout h.2)⟩
      rw [there a ha, outside] at e
      cases e
  | cls d =>
      rcases List.mem_cons.mp ha with rfl | ha
      · cases outside.symm.trans e
      obtain ⟨f, hf, ha⟩ := List.mem_flatMap.mp ha
      have unnamed : .name "super" ∉ f.parts := fun hx =>
        h (.tail _ (List.mem_flatMap.mpr ⟨f, hf, hx⟩))
      have outside' : (Γ.addClass (d.info (Γ.superOf d))).means "super" = none :=
        (Γ.means_put_other ne _).trans outside
      rw [FuncDecl.throughout unnamed a ha, Scene.means_super_inClass, outside', Option.or_none] at e
      obtain ⟨info, -, rfl⟩ := Option.map_eq_some_iff.mp e
      exact ⟨info, rfl⟩

/-- Where `super` means something in declarations, it is a class. -/
theorem Decl.super_placedAll : ∀ {ds : List Decl} {Γ : Scene}, Γ.means "super" = none →
    .name "super" ∉ ds.flatMap Decl.parts → ∀ {a : Scene × Part}, a ∈ Decl.placedAll Γ ds →
      ∀ {known : Symbol}, a.1.means "super" = some known → ∃ info, known = .cls info
  | d :: ds, Γ, outside, h, a, ha, known, e => by
      rw [List.flatMap_cons, List.mem_append, not_or] at h
      rcases List.mem_append.mp ha with ha | ha
      · exact super_placed outside h.1 ha e
      · have ne : "super" ≠ d.name := fun e => h.1 (e ▸ d.name_mem_parts)
        exact super_placedAll ((Γ.means_after_other ne).trans outside) h.2 ha e

/-- Where `super` means something in a program, it is a class. -/
theorem Program.Unmentioned.super_placed {p : Program} (hp : p.Unmentioned) {a : Scene × Part}
    (ha : a ∈ p.placed) {known : Symbol} (e : a.1.means "super" = some known) :
    ∃ info, known = .cls info := by
  have outside : Scene.start.means "super" = none := by
    rw [Scene.means_start, get?_predefined]
    decide +kernel
  exact Decl.super_placedAll outside (hp.unnamed (.inr rfl)) ha e

end Brace
