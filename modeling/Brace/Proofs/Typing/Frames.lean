import Brace.Proofs.Typing.Clean
import Brace.Typing.Program

/-!
# Typing — frames of names

What the steps do that change where checking is: names that the innermost frame gets, frames that
are entered and left, loops and functions. A frame that is left takes its names with it, and where
checking was is as it was.
-/

namespace Brace

variable {α β : Type} {F : Prop} {Γ Γ' Γ₁ : Scene} {Q : α → Prop}

namespace Checker

/-- The innermost frame gets a name, and this is what its names and those of the others are then. -/
theorem At.name {c : Checker} (hc : c.At Γ) (x : String) (b : Option Symbol)
    (hf : ∀ s : Forest Symbol,
      (∀ y, s.binding? c.here.frame y =
        if y = x then some b else c.scopes.binding? c.here.frame y) →
      (∀ k ∈ c.scopes.outer c.here.frame, ∀ y, s.binding? k y = c.scopes.binding? k y) →
      s.Gathers (c.scopes.chain c.here) Γ'.levels)
    (hcls : Γ'.classes = Γ.classes) (hl : Γ'.inLoop = Γ.inLoop) (hfn : Γ'.function = Γ.function) :
    At { c with scopes := c.scopes.bind c.here.frame x b } Γ' where
  lt := Nat.lt_of_lt_of_eq hc.lt (Forest.next_bind ..).symm
  below := by
    simp only [Forest.outer_bind]
    exact hc.below
  levels := by
    rw [Forest.chain_bind]
    refine hf _ (fun y => ?_) fun k hk y => ?_
    · split
      · rename_i e
        rw [e, Forest.binding?_bind_self c.scopes hc.lt]
      · rename_i e
        exact Forest.binding?_bind_name c.scopes _ _ (Ne.symm e) b
    · exact Forest.binding?_bind_frame c.scopes (Nat.ne_of_gt (hc.below k hk)) x y b
  classes := hcls.trans hc.classes
  inLoop := hc.inLoop.trans hl.symm
  function := hc.function.trans hfn.symm

/-- Where a name is put in the current frame, the scene gets it. -/
theorem At.put {c : Checker} (hc : c.At Γ) (x : String) (b : Option Symbol) :
    At { c with scopes := c.scopes.bind c.here.frame x b } (Γ.put x b) := by
  refine hc.name x b (fun s top others => ?_) rfl rfl rfl
  have hf := hc.levels
  rw [Forest.chain, Scene.levels] at hf ⊢
  simp only [Scene.put]
  generalize Γ.top = top, Γ.outer = outer at hf ⊢
  cases hf with
  | one h hs =>
      refine .one (fun y => ?_) (hs.congr others)
      rw [top, h]
      rfl
  | two h hs =>
      refine .two (fun y => ?_) (hs.congr others)
      rw [top, h]
      by_cases e : y = x <;> simp [Names.put, e]

/-- To put a name in a frame leads to a later state. -/
theorem Later.put (c : Checker) (x : String) (b : Option Symbol) :
    c.Later { c with scopes := c.scopes.bind c.here.frame x b } :=
  ⟨List.prefix_rfl, List.prefix_rfl, rfl, rfl, rfl, .bind .., fun _ _ ne y =>
    Forest.binding?_bind_frame c.scopes (Ne.symm ne) x y b⟩

/-- The checker in a new frame. -/
def entered (c : Checker) : Checker :=
  { c with scopes := (c.scopes.push c.here).1, here := (c.scopes.push c.here).2 }

/-- Where a frame is entered, so is it in the scene. -/
theorem At.entered {c : Checker} (hc : c.At Γ) : c.entered.At Γ.enter where
  lt := by
    simp only [Checker.entered, Forest.next_push]
    exact Nat.lt_succ_self _
  below i hi := by
    simp only [Checker.entered, Forest.outer_push_new] at hi
    exact hc.rooted i hi
  levels := by
    have new : ∀ x, (c.scopes.push c.here).1.binding? c.scopes.next x = none := fun x => by
      simp [Forest.push, Forest.binding?, Forest.next, Table.get?_empty]
    simp only [Checker.entered, Forest.chain, Forest.outer_push_new]
    exact .one new (hc.levels.congr fun k hk x =>
      Forest.binding?_push_old c.scopes c.here (hc.rooted k hk) x)
  classes := hc.classes
  inLoop := hc.inLoop
  function := hc.function

/-- Back from a frame, the checker is where it was. -/
theorem At.left {c c' : Checker} (hc : c.At Γ) (h : c.entered.Later c')
    (hcls : Γ.classes = c'.classes) : At { c' with here := c.here } Γ := by
  have hi : ∀ i ∈ c.scopes.chain c.here, i < c.entered.scopes.next := fun i hi => by
    simp only [Checker.entered, Forest.next_push]
    exact Nat.lt_succ_of_lt (hc.rooted i hi)
  have old : ∀ x, ∀ i ∈ c.scopes.chain c.here, c'.scopes.binding? i x = c.scopes.binding? i x := by
    intro x i hm
    have ne : i ≠ c.entered.here.frame := Nat.ne_of_lt (hc.rooted i hm)
    rw [h.others i (hi i hm) ne x]
    exact Forest.binding?_push_old c.scopes c.here (hc.rooted i hm) x
  have chain : c'.scopes.chain c.here = c.scopes.chain c.here := by
    have hf := hc.rooted _ (.head _)
    rw [Forest.chain, h.scopes.outer _ (hi _ (.head _))]
    simp only [Checker.entered, Forest.chain, Forest.outer_push_old c.scopes c.here hf]
  refine ⟨Nat.lt_of_lt_of_le (hi _ (.head _)) h.scopes.next, fun i hm => ?_, ?_, hcls, ?_, ?_⟩
  · refine hc.below i ?_
    have hm : i ∈ (c'.scopes.chain c.here).tail := hm
    rw [chain] at hm
    exact hm
  · show c'.scopes.Gathers (c'.scopes.chain c.here) Γ.levels
    rw [chain]
    exact hc.levels.congr fun k hk x => old x k hk
  · exact h.inLoop.trans hc.inLoop
  · exact h.function.trans hc.function

/-- A new frame can be left, whatever has been learnt in it. -/
theorem Later.pop {c c' : Checker} (h : c.entered.Later c') :
    c'.scopes.pop c'.here = .ok c.here := by
  rw [h.here]
  exact Forest.pop_of_grown h.scopes

/-- To leave a frame after what was checked in it leads to a later state. -/
theorem Later.left {c c' : Checker} (h : c.entered.Later c') :
    c.Later { c' with here := c.here } where
  errors := h.errors
  warnings := h.warnings
  here := rfl
  inLoop := h.inLoop
  function := h.function
  scopes := (Forest.Grown.push c.scopes c.here).trans h.scopes
  others i hi _ x := by
    have hi' : i < c.entered.scopes.next := by
      simp only [Checker.entered, Forest.next_push]
      exact Nat.lt_succ_of_lt hi
    rw [h.others i hi' (Nat.ne_of_lt hi) x]
    exact Forest.binding?_push_old c.scopes c.here hi x

end Checker

namespace Check

open Checker

/-- A name is bound in the innermost frame, or a report says why it cannot be. -/
theorem write_leads (x : String) (p : Position) (b : Option Symbol)
    {check : Checker → Except Cause FrameId} {P : Prop}
    (hi : ∀ c i, check c = .ok i → i = c.here.frame)
    (hat : ∀ c : Checker, c.At Γ →
      At { c with scopes := c.scopes.bind c.here.frame x b } Γ')
    (hP : ∀ c i, check c = .ok i → c.At Γ → P) :
    Leads F Γ (do
      let c ← get
      match check c with
      | .ok i    =>
          set { c with scopes := c.scopes.bind i x b }
          pure true
      | .error e =>
          report e p
          pure false) Γ' fun r => r = true ∧ P := by
  refine .see (fun c => ?_) fun hF c hc => ?_
  · cases e : check c with
    | ok i =>
        rw [hi c i e]
        exact .put c x b
    | error cause =>
        have reported : Leads F Γ (report cause p) Γ fun _ => True := .report cause p
        exact reported.later c
  · cases e : check c with
    | ok i =>
        refine fun _ => ⟨?_, rfl, hP c i e hc⟩
        rw [hi c i e]
        exact hat c hc
    | error cause =>
        intro h
        have reported : Leads F Γ (report cause p) Γ fun _ => False := .report cause p
        exact (reported.clean hF c hc h).2.elim

/-- A name that is declared is hidden, and is new to the frame. -/
theorem declare_leads (x : String) (p : Position) :
    Leads F Γ (declare x p) (Γ.hide x) fun b => b = true ∧ Γ.own x = false := by
  have free : ∀ (c : Checker) (i : FrameId), c.scopes.declarable c.here x = .ok i →
      i = c.here.frame ∧ c.scopes.binding? c.here.frame x = none := fun c i h => by
    simp only [Forest.declarable] at h
    split at h
    · cases h
    · rename_i hb
      cases h
      exact ⟨rfl, hb⟩
  refine write_leads x p none (fun c i h => (free c i h).1) (fun c hc => hc.put x none)
    fun c i h hc => ?_
  cases e : Γ.own x with
  | false => rfl
  | true =>
      have bound := hc.own e
      rw [(free c i h).2] at bound
      cases bound

/-- A name that is defined may have had a placeholder, but no meaning, in its frame. -/
theorem defineTo_leads (x : String) (s : Symbol) (p : Position)
    (hat : ∀ c : Checker, c.At Γ →
      At { c with scopes := c.scopes.bind c.here.frame x (some s) } Γ') :
    Leads F Γ (define x s p) Γ' fun b => b = true ∧ (Γ.own x = true → Γ.means x = none) := by
  have free : ∀ (c : Checker) (i : FrameId), c.scopes.definable c.here x = .ok i →
      i = c.here.frame ∧ ∀ s, c.scopes.binding? c.here.frame x ≠ some (some s) := fun c i h => by
    simp only [Forest.definable] at h
    split at h
    · cases h
    · split at h
      · cases h
      · rename_i hb
        cases h
        exact ⟨rfl, fun s e => hb s e⟩
  refine write_leads x p (some s) (fun c i h => (free c i h).1) hat fun c i h hc ho => ?_
  obtain ⟨b, hb⟩ := Option.isSome_iff_exists.mp (hc.own ho)
  rw [← hc.means x]
  simp only [Forest.nearest?, Forest.chain, Forest.nearestIn, hb, Option.bind_some]
  cases b with
  | none => rfl
  | some s' => exact absurd hb ((free c i h).2 s')

/-- A name that is defined means what it is defined to. -/
theorem define_leads (x : String) (s : Symbol) (p : Position) :
    Leads F Γ (define x s p) (Γ.bind x s) fun b =>
      b = true ∧ (Γ.own x = true → Γ.means x = none) :=
  defineTo_leads x s p fun _ hc => hc.put x (some s)

/-- A class is added to those that have been declared. -/
theorem putClass_leads (x : String) (info : ClassInfo) :
    Leads F Γ (modify fun c => { c with classes := c.classes.put x info })
      { Γ with classes := Γ.classes.put x info } fun _ => True where
  later c := ⟨List.prefix_rfl, List.prefix_rfl, rfl, rfl, rfl, .refl _, fun _ _ _ _ => rfl⟩
  clean _ c hc _ := by
    refine ⟨⟨hc.lt, hc.below, hc.levels, ?_, hc.inLoop, hc.function⟩, trivial⟩
    show Γ.classes.put x info = c.classes.put x info
    rw [hc.classes]

/-! ### Frames, loops and functions -/

/-- Where a frame can be left, checking leaves it and says nothing. -/
theorem pop_of_ok {c : Checker} {here : Handle} (h : c.scopes.pop c.here = .ok here)
    (p : Position) : pop p c = ((), { c with here }) := by
  show (pop p).run c = _
  simp only [pop, StateT.run_bind, StateT.run_get, pure_bind, h]
  rfl

/-- Where a frame can be left in the end, what is checked in it is checked and then it is left. -/
theorem inFrame_of_pop (p : Position) {x : Check α} {c : Checker}
    (h : (x c.entered).2.scopes.pop (x c.entered).2.here = .ok c.here) :
    inFrame p x c = ((x c.entered).1, { (x c.entered).2 with here := c.here }) := by
  show ((x c.entered).1, (pop p (x c.entered).2).2) = _
  rw [pop_of_ok h]

/-- What is done in a new frame is done where that was entered, and leads back. -/
theorem inFrame_apply (p : Position) {x : Check α} (hx : ∀ c : Checker, c.Later (x c).2)
    (c : Checker) :
    inFrame p x c = ((x c.entered).1, { (x c.entered).2 with here := c.here }) :=
  inFrame_of_pop p (hx c.entered).pop

/-- What is checked in a frame of its own finds what it finds there, and the scene is as before. -/
theorem inFrame_leads (p : Position) {x : Check α} (hx : Leads F Γ.enter x Γ₁ Q)
    (hcls : Γ₁.classes = Γ.classes) : Leads F Γ (inFrame p x) Γ Q := by
  constructor
  · intro c
    rw [inFrame_apply p hx.later c]
    exact (hx.later c.entered).left
  · intro hF c hc
    rw [inFrame_apply p hx.later c]
    intro he
    obtain ⟨h₁, hq⟩ := hx.clean hF c.entered hc.entered he
    exact ⟨hc.left (hx.later c.entered) (hcls ▸ h₁.classes), hq⟩

/-- What is checked in a loop leads to a later state. -/
theorem later_withLoop (inLoop : Bool) {x : Check α} (hx : ∀ c : Checker, c.Later (x c).2)
    (c : Checker) : c.Later (withLoop inLoop x c).2 :=
  have h := hx { c with inLoop }
  ⟨h.errors, h.warnings, h.here, rfl, h.function, h.scopes, h.others⟩

/-- What is checked in a loop finds what it finds there, and the scene is in the loop it was in. -/
theorem withLoop_leads (inLoop : Bool) {x : Check α} (hx : Leads F (Γ.looping inLoop) x Γ₁ Q) :
    Leads F Γ (withLoop inLoop x) (Γ₁.looping Γ.inLoop) Q where
  later := later_withLoop inLoop hx.later
  clean hF c hc he := by
    have hc' : At { c with inLoop } (Γ.looping inLoop) :=
      ⟨hc.lt, hc.below, hc.levels, hc.classes, rfl, hc.function⟩
    obtain ⟨h, hq⟩ := hx.clean hF { c with inLoop } hc' he
    exact ⟨⟨h.lt, h.below, h.levels, h.classes, hc.inLoop, h.function⟩, hq⟩

/-- What is checked in a function leads to a later state. -/
theorem later_withFunction (f : Context) {x : Check α} (hx : ∀ c : Checker, c.Later (x c).2)
    (c : Checker) : c.Later (withFunction f x c).2 :=
  have h := hx { c with function := some f }
  ⟨h.errors, h.warnings, h.here, h.inLoop, rfl, h.scopes, h.others⟩

/-- What is checked in a function finds what it finds there, and the scene is in the function it was
in. -/
theorem withFunction_leads (f : Context) {x : Check α} (hx : Leads F (Γ.within f) x Γ₁ Q) :
    Leads F Γ (withFunction f x) { Γ₁ with function := Γ.function } Q where
  later := later_withFunction f hx.later
  clean hF c hc he := by
    have hc' : At { c with function := some f } (Γ.within f) :=
      ⟨hc.lt, hc.below, hc.levels, hc.classes, hc.inLoop, rfl⟩
    obtain ⟨h, hq⟩ := hx.clean hF { c with function := some f } hc' he
    exact ⟨⟨h.lt, h.below, h.levels, h.classes, h.inLoop, hc.function⟩, hq⟩

end Check

end Brace
