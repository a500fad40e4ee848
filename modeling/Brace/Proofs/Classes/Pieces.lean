import Brace.Proofs.Classes.Changes

/-!
# Classes — pieces of evaluation

Code is run in a scope of its own, and a job for a piece of it may be asked for there. What is called
and what is passed has been made as the program makes it, and so has what is answered
(`Program.made`). The pieces that evaluation is put together from keep this contract. Methods are
bound in two ways, through an object and through `super`, and either way it is a method of one of the
tiers of the object's class.
-/

namespace Brace

open Eval

variable {α β : Type} {p : Program}

/-! ### The contract -/

/-- The code is run in the machine. -/
structure Code.At (p : Program) (c : Code) (m : Machine) : Prop where
  made  : m.Made p
  depth : m.callDepth = c.depth
  holds : p.Unmentioned → c.Holds p m.scopes m.here

/-- The parts of the program that are inside a job. -/
def Job.parts : Job → List Part
  | .expr e => e.parts
  | .stmt s => s.parts
  | .loop cond (some update) body => cond.parts ++ (update.parts ++ body.parts)
  | .loop cond none body => cond.parts ++ body.parts
  | .apply .. => []

/-- What is called and what is passed has been made. -/
def Job.Given (p : Program) (s : Forest Value) : Job → Prop
  | .apply callee args _ => callee.Made p s ∧ ∀ v ∈ args, v.Made p s
  | _                    => True

/-- What the job gives has been made. -/
def Job.Makes (p : Program) (s : Forest Value) : (j : Job) → j.Answer → Prop
  | .expr _, v | .apply .., v      => Value.Made p s v
  | .stmt _, flow | .loop .., flow => Flow.Made p s flow

/-- Code asks for what is inside it, and for calls. -/
def Program.made (p : Program) : Contract where
  Ghost := Code
  pre c j m := c.At p m ∧ (∀ a ∈ j.parts, a ∈ c.parts p) ∧ j.Given p m.scopes
  post _ j m r m' := m.Leads p m' ∧ ∀ a, r = .ok a → j.Makes p m'.scopes a

/-- The contract for what this code asks for. -/
def Code.asking (p : Program) (c : Code) : Contract := p.made.having fun c' _ => c' = c

/-- The computation keeps the contract from `m` on as a part of the code, and gives what is in `R`. -/
def Eval.Makes (p : Program) (c : Code) (m : Machine) (R : α → Forest Value → Prop) (x : Eval α) :
    Prop := (x m).Meets (c.asking p) fun r m' => m.Leads p m' ∧ ∀ a, r = .ok a → R a m'.scopes

variable {c c₀ : Code} {m m' : Machine}

namespace Code.At

/-- Code is run on when something has been done. -/
theorem later (h : m.Leads p m') (at' : c.At p m) : c.At p m' where
  made := h.made at'.made
  depth := h.callDepth.trans at'.depth
  holds hp := by
    rw [h.here]
    exact (at'.holds hp).rests hp at'.made.based h.rests

/-- Code may be run in one more frame. -/
theorem pushScope (at' : c.At p m) : c.At p m.pushScope where
  made := Machine.Leads.of_pushScope at'.made
  depth := at'.depth
  holds hp := (at'.holds hp).push hp at'.made.based

end Code.At

theorem Value.Made.later (at' : c.At p m) (h : m.Leads p m') {v : Value} (hv : v.Made p m.scopes) :
    v.Made p m'.scopes := hv.rests h.rests at'.made.based

namespace Eval.Makes

open Machine

variable {R : α → Forest Value → Prop}

/-! ### Single steps -/

/-- A computation that ends at once or never. -/
theorem of_ends {x : Eval α} (h : x m = .endless ∨ ∃ r m', x m = .finished r m' ∧
    m.Leads p m' ∧ ∀ a, r = .ok a → R a m'.scopes) : x.Makes p c m R := by
  obtain e | ⟨r, m', e, hm⟩ := h <;> rw [Makes, e]
  · trivial
  · exact hm

/-- What is given at once has to have been made. -/
theorem pure {a : α} (ha : R a m.scopes) : (Pure.pure a : Eval α).Makes p c m R :=
  of_ends (.inr ⟨_, m, rfl, .refl m, by rintro _ ⟨⟩; exact ha⟩)

theorem fail (cause : Cause) (pos : Position) : (Eval.fail cause pos : Eval α).Makes p c m R :=
  of_ends (.inr ⟨_, m, rfl, .refl m, by rintro _ ⟨⟩⟩)

theorem ofExcept (pos : Position) {r : Except Cause α} (hr : ∀ a, r = .ok a → R a m.scopes) :
    (Eval.ofExcept pos r).Makes p c m R := by
  cases r with
  | ok a => exact pure (hr a rfl)
  | error cause => exact fail cause pos

/-- What goes on forever gives nothing that would not have been made. -/
theorem endless : (Eval.endless : Eval α).Makes p c m R := of_ends (.inl rfl)

theorem view {f : Machine → α} (hR : R (f m) m.scopes) : (Eval.view f).Makes p c m R :=
  of_ends (.inr ⟨_, m, rfl, .refl m, by rintro _ ⟨⟩; exact hR⟩)

/-- What is found has to have been made. -/
theorem consult (pos : Position) {f : Machine → Except Cause α}
    (hR : ∀ a, f m = .ok a → R a m.scopes) : (Eval.consult pos f).Makes p c m R :=
  of_ends <| .inr <| by
    simp only [Eval.consult]
    split
    · exact ⟨_, m, rfl, .refl m, by rintro _ ⟨⟩; exact hR _ ‹_›⟩
    · exact ⟨_, m, rfl, .refl m, by rintro _ ⟨⟩⟩

theorem textOf (v : Value) : (Eval.textOf v).Makes p c m fun _ _ => True := of_ends <| by
  simp only [Eval.textOf]
  split
  · exact .inr ⟨_, m, rfl, .refl m, fun _ _ => trivial⟩
  · exact .inl rfl

/-- What is made anew has to be made as the program makes it. -/
theorem make {f : Machine → α × Machine} (h : m.Leads p (f m).2) (hR : R (f m).1 (f m).2.scopes) :
    (Eval.make f).Makes p c m R :=
  of_ends (.inr ⟨_, (f m).2, rfl, h, by rintro _ ⟨⟩; exact hR⟩)

/-- What has been made is there for the rest. -/
theorem make_bind {f : Machine → α × Machine} {k : α → Eval β} {Q : β → Forest Value → Prop}
    (h : m.Leads p (f m).2) (hk : (k (f m).1).Makes p c (f m).2 Q) :
    (Eval.make f >>= k).Makes p c m Q :=
  Progress.Meets.mono (fun _ _ h' => ⟨h.trans h'.1, h'.2⟩) hk

theorem change {f : Machine → Machine} (h : m.Leads p (f m)) :
    (Eval.change f).Makes p c m fun _ _ => True :=
  of_ends (.inr ⟨_, f m, rfl, h, fun _ _ => trivial⟩)

/-- A change that may be refused leads on where it is not. -/
theorem update {pos : Position} {check : Machine → Except Cause β}
    {write : β → Machine → Machine} (h : ∀ b, m.Leads p (write b m)) :
    (Eval.update pos check write).Makes p c m fun _ _ => True :=
  of_ends <| .inr <| by
    simp only [Eval.update]
    split
    · exact ⟨_, m, rfl, .refl m, by rintro _ ⟨⟩⟩
    · exact ⟨_, _, rfl, h _, fun _ _ => trivial⟩

/-- Code may ask for what is inside it. A call may be asked for if the callee and the arguments have
been made. -/
theorem ask (at' : c.At p m) {j : Job} (hj : ∀ a ∈ j.parts, a ∈ c.parts p)
    (given : j.Given p m.scopes) : (Eval.ask j).Makes p c m fun a s => j.Makes p s a :=
  ⟨c, ⟨⟨at', hj, given⟩, rfl⟩, fun _ _ h => h⟩

end Eval.Makes

/-! ### One thing after another -/

namespace Code.At

variable (at' : c.At p m) {R : α → Forest Value → Prop} {Q : β → Forest Value → Prop}

include at'

/-- The code is still run after the first part, in a machine that it leads to. A call may ask as
another code, which is that of the function. -/
theorem bind {x : Eval α} {f : α → Eval β} (hx : x.Makes p c₀ m R)
    (hf : ∀ a m', m.Leads p m' → c.At p m' → R a m'.scopes → (f a).Makes p c₀ m' Q) :
    (x >>= f).Makes p c₀ m Q := by
  refine Progress.Meets.andThen (Progress.Meets.mono ?_ hx)
  rintro r m₁ ⟨h, hR⟩
  cases r with
  | ok a =>
      exact Progress.Meets.mono (fun _ _ h' => ⟨h.trans h'.1, h'.2⟩)
        (hf a m₁ h (at'.later h) (hR a rfl))
  | error e => exact ⟨h, by rintro _ ⟨⟩⟩

/-- Each of the steps is taken in a machine that the ones before it lead to. -/
theorem forM {γ : Type} {f : γ → Eval Unit} : ∀ {cs : List γ},
    (∀ x ∈ cs, ∀ m', m.Leads p m' → c.At p m' → (f x).Makes p c₀ m' fun _ _ => True) →
      (cs.forM f).Makes p c₀ m fun _ _ => True := by
  intro cs
  induction cs generalizing m with
  | nil => exact fun _ => .pure trivial
  | cons x cs ih =>
      intro h
      obtain ⟨hx, hcs⟩ := List.forall_mem_cons.mp h
      refine at'.bind (hx m (.refl m) at') fun _ m₁ h₁ at₁ _ => ih at₁ fun y hy m₂ h₂ => ?_
      exact hcs y hy m₂ (h₁.trans h₂)

end Code.At

namespace Eval.Makes

open Machine

variable {R : α → Forest Value → Prop}

/-! ### What is put back on the way out -/

/-- What has been made in a block is made still when its frame has been left. -/
theorem inBlock (pos : Position) {x : Eval α} (hx : x.Makes p c m.pushScope R) :
    (inBlock pos x).Makes p c m R := by
  refine Progress.Meets.andThen (Progress.Meets.mono ?_ hx)
  rintro r m₁ ⟨h, hR⟩
  simp only [popScope_of_restored h.toRestored]
  exact ⟨h.leave, hR⟩

/-- The work itself is done elsewhere. -/
theorem inScope (k : Handle) {x : Eval α} (hx : x.Makes p c { m with here := k } R) :
    (inScope k x).Makes p c m R := by
  refine Progress.Meets.andThen (Progress.Meets.mono ?_ hx)
  rintro r m₁ ⟨h, hR⟩
  refine ⟨⟨⟨rfl, h.callDepth, h.scopes, h.heap⟩, h.reserved, fun hm => ?_⟩, hR⟩
  exact (h.made (hm.congr rfl rfl)).congr rfl rfl

/-- That a call is counted makes nothing. -/
theorem counted (pos : Position) {x : Eval α}
    (hx : x.Makes p c { m with callDepth := m.callDepth + 1 } R) : (counted pos x).Makes p c m R := by
  simp only [Makes, Eval.counted]
  split
  · refine Progress.Meets.andThen (Progress.Meets.mono ?_ hx)
    rintro r m₁ ⟨h, hR⟩
    refine ⟨⟨⟨h.here, by simp [h.callDepth], h.scopes, h.heap⟩, h.reserved, fun hm => ?_⟩, hR⟩
    exact (h.made (hm.congr rfl rfl)).congr rfl rfl
  · exact ⟨.refl m, by rintro _ ⟨⟩⟩

theorem orAt (pos : Position) {x : Eval α} (hx : x.Makes p c m R) : (orAt pos x).Makes p c m R := by
  refine Progress.Meets.andThen (Progress.Meets.mono ?_ hx)
  rintro r m₁ ⟨h, hR⟩
  exact ⟨h, fun a e => hR a (by cases r <;> cases e; rfl)⟩

/-! ### The pieces of expressions -/

/-- Whatever a name holds has been made. -/
theorem lookup (hm : m.Made p) (x : String) (pos : Position) :
    (lookup x pos).Makes p c m fun v s => Value.Made p s v := consult pos fun _ e => hm.lookup e

section

variable {x : String} (hx : p.Unmentioned → ¬ Reserved x) {v : Value} (hv : v.Made p m.scopes)

include hx

theorem declare (pos : Position) : (declare x pos).Makes p c m fun _ _ => True :=
  update fun i => .bind m i hx nofun

include hv

theorem assign (pos : Position) : (assign x v pos).Makes p c m fun _ _ => True :=
  update fun i => .bind m i hx (by rintro _ ⟨⟩; exact hv)

theorem defineAt (k : Handle) (pos : Position) : (defineAt k x v pos).Makes p c m fun _ _ => True :=
  update fun i => .bind m i hx (by rintro _ ⟨⟩; exact hv)

theorem define (pos : Position) : (define x v pos).Makes p c m fun _ _ => True :=
  update fun i => .bind m i hx (by rintro _ ⟨⟩; exact hv)

end

/-- Where an `int` is expected, nothing is made. -/
theorem expectInt (v : Value) (pos : Position) :
    (expectInt v pos).Makes p c m fun _ _ => True := by
  cases v <;> first | exact pure trivial | exact fail _ _

theorem expectString (v : Value) (pos : Position) :
    (expectString v pos).Makes p c m fun _ _ => True := by
  cases v <;> first | exact pure trivial | exact fail _ _

/-- An array has been made of plain values. -/
theorem newArray (t : Ty) (size : Int64) (pos : Position) :
    (newArray t size pos).Makes p c m fun v s => Value.Made p s v := of_ends <| .inr <| by
  simp only [Eval.newArray]
  split
  · exact ⟨_, m, rfl, .refl m, by rintro _ ⟨⟩⟩
  · split
    · exact ⟨_, m, rfl, .refl m, by rintro _ ⟨⟩⟩
    · exact ⟨_, _, rfl, .newArray ‹_›, by rintro _ ⟨⟩; trivial⟩

/-- An element has been made. -/
theorem element (hm : m.Made p) (id : ArrayId) (i : Int64) (pos : Position) :
    (element id i pos).Makes p c m fun v s => Value.Made p s v :=
  consult pos fun _ e => hm.element e

theorem setElement (id : ArrayId) (i : Int64) {v : Value} (hv : v.Made p m.scopes)
    (pos : Position) : (setElement id i v pos).Makes p c m fun _ _ => True :=
  update fun slot => .writeElement m id slot hv

theorem setField (o : Object) (x : String) {v : Value} (hv : v.Made p m.scopes) :
    (setField o x v).Makes p c m fun _ _ => True := change (.setField m o x hv)

end Eval.Makes

namespace Code.At

variable (at' : c.At p m)

include at'

/-- Where an object is expected, its class has been made. -/
theorem expectObject {v : Value} (hv : v.Made p m.scopes) (pos : Position) :
    (expectObject v pos).Makes p c m fun o s => v = .object o ∧ o.cls.Made p s := by
  cases v with
  | object o => exact .pure ⟨rfl, hv⟩
  | _ => exact at'.bind (.textOf _) fun _ _ _ _ _ => .fail _ _

/-- Where an array is looked up, nothing is made. -/
theorem lookupArray (x : String) (pos : Position) :
    (lookupArray x pos).Makes p c m fun _ _ => True :=
  at'.bind (.lookup at'.made x pos) fun v _ _ _ _ => by
    cases v <;> first | exact .pure trivial | exact .fail _ _

/-- A method of some of the tiers of an object's class is bound to the object. -/
theorem bindMethod {o : Object} (ho : o.cls.Made p m.scopes) {cls : Class}
    (tiers : p.Unmentioned → ∃ above, o.cls.tiers = above ++ cls.tiers) (x : String)
    (pos : Position) : (match cls.method? x with
      | some method => do
          let f ← Eval.make (·.bindMethod o method)
          Pure.pure (.function f)
      | none => Eval.fail (.undefinedProperty x) pos : Eval Value).Makes p c m
        fun v s => Value.Made p s v := by
  split
  · rename_i method e
    obtain ⟨ht, hf⟩ := Class.mem_of_methodIn e
    refine at'.bind (R := fun f s => Value.Made p s (.function f))
      (.make (.bindMethod m ho method) fun hp => ?_) fun f _ _ _ hf => .pure hf
    obtain ⟨above, split⟩ := tiers hp
    obtain ⟨before, below, inside⟩ := List.append_of_mem ht
    rw [inside, ← List.append_assoc] at split
    exact .method (Closure.bound_bindMethod at'.made hp ho split hf)
  · exact .fail _ pos

/-- A field has been made. Where there is none, a method is bound, which is one of a tier of the
object's class. -/
theorem property {o : Object} (ho : o.cls.Made p m.scopes) (x : String) (pos : Position) :
    (property o x pos).Makes p c m fun v s => Value.Made p s v := by
  refine at'.bind (R := fun r s => ∀ v, r = some v → Value.Made p s v)
    (.view fun v e => at'.made.stored v (.field e)) fun r m₁ h₁ at₁ hr => ?_
  cases r with
  | some v => exact .pure (hr v rfl)
  | none =>
      have ho₁ : o.cls.Made p m₁.scopes := h₁.rests.lineage at'.made.based ho
      exact at₁.bindMethod ho₁ (fun _ => ⟨[], rfl⟩) x pos

/-- Where a class is found under `super` and an object under `this`, the tiers of the class are some of
those of the object's class. -/
theorem super (hp : p.Unmentioned) {cls : Class} {o : Object}
    (super : m.lookup "super" = .ok (.cls cls)) (this : m.lookup "this" = .ok (.object o)) :
    ∃ g above t, c.body = some g ∧ g.Bound p m.scopes o above t cls.tiers := by
  obtain ⟨i, found⟩ := Machine.nearest?_of_lookup super
  obtain ⟨g, o', above, t, cls', hc, bound, e, receiver⟩ :=
    (at'.holds hp).super hp at'.made.based found
  obtain ⟨j, found'⟩ := Machine.nearest?_of_lookup this
  rw [receiver] at found'
  cases e
  cases found'
  exact ⟨g, above, t, hc, bound⟩

/-- The method that is found for `super` is bound to the object, whose class has the tiers of that
class. -/
theorem superMethod (x : String) (pos : Position) :
    (superMethod x pos).Makes p c m fun v s => Value.Made p s v := by
  refine at'.bind (R := fun v s => s = m.scopes ∧ m.lookup "super" = .ok v)
    (.consult pos fun v e => ⟨rfl, e⟩) ?_
  rintro v m₁ h₁ at₁ ⟨hs, super⟩
  have here₁ : ∀ y, m₁.lookup y = m.lookup y := fun y => by
    rw [Machine.lookup, Machine.lookup, hs, h₁.here]
  rw [← here₁] at super
  cases v with
  | cls cls =>
      refine at₁.bind (R := fun v s => s = m₁.scopes ∧ m₁.lookup "this" = .ok v)
        (.consult pos fun v e => ⟨rfl, e⟩) ?_
      rintro v m₂ h₂ at₂ ⟨hs₂, this⟩
      have hv : v.Made p m₂.scopes := hs₂ ▸ at₁.made.lookup this
      refine at₂.bind (at₂.expectObject hv pos) ?_
      rintro o m₃ h₃ at₃ ⟨rfl, ho⟩
      refine at₃.bindMethod ho (fun hp => ?_) x pos
      obtain ⟨g, above, t, -, bound⟩ := at₁.super hp super this
      exact ⟨above ++ [t], by rw [bound.tiers, List.append_assoc]; rfl⟩
  | _ => exact .fail _ pos

end Code.At

end Brace
