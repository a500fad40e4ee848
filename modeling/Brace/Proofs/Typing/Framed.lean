import Brace.Proofs.Typing.Closed
import Brace.Proofs.Typing.Moments

/-!
# Typing — what all checking of statements and declarations has in common

Besides what expressions do, statements and declarations bind names, enter and leave frames, and go
into loops and functions. Names are bound in the innermost frame only, and a frame that is entered is
left again. So of a property that may depend on the names that are bound (`Check.Framed`) it is enough
to know how it goes through each of these once.

* `VarDecl.check_framed`: a variable, which binds its name.
* `Stmt.check_framed`: all statements. They bind no name of the frame that they are in.
* `FuncDecl.check_framed`, `ClassDecl.announce_framed`, `ClassDecl.methods_framed`: functions, and
  what is done for a class.
-/

namespace Brace

open Check
open Brace.Part (Supers)

variable {R : Error → Prop}

/-! ### Names, frames, loops and functions -/

/-- The name is bound in the innermost frame. -/
def Check.put (x : String) (b : Option Symbol) : Check Unit :=
  modify fun c => { c with scopes := c.scopes.bind c.here.frame x b }

/-- The property `P N` of checking that binds no names but those in `N`, of the frame in which it
starts. All that expressions need has it, and it passes through frames, loops and functions. -/
structure Check.Framed (R : Error → Prop) (P : (String → Prop) → {α : Type} → Check α → Prop) :
    Prop where
  closed       : ∀ N : String → Prop, Closed R (P N)
  put          : ∀ {N : String → Prop} {x : String}, N x → ∀ b, P N (Check.put x b)
  inFrame      : ∀ {N : String → Prop} {α : Type} (p : Position) {x : Check α},
    P (fun _ => True) x → P N (inFrame p x)
  withLoop     : ∀ {N : String → Prop} {α : Type} (inLoop : Bool) {x : Check α},
    P N x → P N (withLoop inLoop x)
  withFunction : ∀ {N : String → Prop} {α : Type} (f : Context) {x : Check α},
    P N x → P N (withFunction f x)

/-- The name is bound where the test allows it, or a report says why it does not. -/
def Check.putIf (test : Checker → Except Cause FrameId) (x : String) (b : Option Symbol)
    (p : Position) : Check Bool := do
  let c ← get
  match test c with
  | .ok _    =>
      Check.put x b
      pure true
  | .error e =>
      report e p
      pure false

/-- What is done after a look at the checker matters only for the checker that was seen. -/
theorem Check.see_congr {α : Type} {f g : Checker → Check α} (h : ∀ c, f c c = g c c) :
    (MonadState.get >>= f) = (MonadState.get >>= g) := funext h

/-- To define a name is to put it in the current frame, if that may be. -/
theorem Check.define_eq (x : String) (s : Symbol) (p : Position) :
    define x s p = putIf (fun c => c.scopes.definable c.here x) x (some s) p := by
  refine see_congr fun c => ?_
  dsimp only
  cases h : c.scopes.definable c.here x with
  | ok i =>
      cases Forest.eq_of_definable h
      rfl
  | error e => rfl

/-- To declare a name is to put it there without a meaning. -/
theorem Check.declare_eq (x : String) (p : Position) :
    declare x p = putIf (fun c => c.scopes.declarable c.here x) x none p := by
  refine see_congr fun c => ?_
  dsimp only
  cases h : c.scopes.declarable c.here x with
  | ok i =>
      cases Forest.eq_of_declarable h
      rfl
  | error e => rfl

namespace Check.Framed

variable {P : (String → Prop) → {α : Type} → Check α → Prop} (hP : Framed R P)
  {N : String → Prop} {x : String}

include hP

/-- To put a name in the current frame puts it there, or reports why not. -/
theorem putIf {test : Checker → Except Cause FrameId} (hx : N x) (b : Option Symbol)
    (p : Position) (h : ∀ c e, test c = .error e → e.phase = .check ∧ e.isLoopSignal = false) :
    P N (putIf test x b p) := by
  have hC := hP.closed N
  refine hC.see fun c => ?_
  cases e : test c with
  | ok i => exact hC.bind (hP.put hx b) fun _ => hC.pure true
  | error cause =>
      obtain ⟨phase, notSignal⟩ := h c cause e
      exact hC.reporting (hC.violations _ phase notSignal) false

/-- A name may be defined if it is one of these. -/
theorem define (hx : N x) (s : Symbol) (p : Position) : P N (define x s p) := by
  rw [define_eq]
  refine hP.putIf hx (some s) p fun c e h => ?_
  simp only [Forest.definable] at h
  split at h
  · cases h
    exact ⟨rfl, rfl⟩
  · split at h <;> cases h
    exact ⟨rfl, rfl⟩

/-- So may it be declared. -/
theorem declare (hx : N x) (p : Position) : P N (declare x p) := by
  rw [declare_eq]
  refine hP.putIf hx none p fun c e h => ?_
  simp only [Forest.declarable] at h
  split at h <;> cases h
  exact ⟨rfl, rfl⟩

theorem update (e : Expr) (h : Supers R e.parts) : P N (update e) := by
  have hC := hP.closed N
  rw [Check.update]
  refine hC.reportIf (hC.violations _ rfl rfl) ?_
  exact hC.bind (e.check_closed hC h) fun _ => hC.pure _

/-- The parameters of a function, in a frame of their own. -/
theorem params (p : Position) (xs : List Param) : P (fun _ => True) (xs.forM fun x => do
    let _ ← resolveTy p x.ty
    let _ ← Check.define x.name (.var x.ty) p) := by
  have hC := hP.closed fun _ => True
  refine hC.forM (fun x => hC.bind (hC.resolveTy p x.ty) fun _ => ?_) xs
  exact hC.bind (hP.define trivial ..) fun _ => hC.pure ()

end Check.Framed

/-! ### Variables, statements and functions -/

section

variable {P : (String → Prop) → {α : Type} → Check α → Prop} (hP : Framed R P)
  {N : String → Prop}

include hP

/-- A variable binds its name. -/
theorem VarDecl.check_framed (v : VarDecl) (hv : N v.name) (h : Supers R v.parts) :
    P N v.check := by
  have hC := hP.closed N
  have bound (declared : Bool) (v' : VarDecl) : P N (do
      if declared then
        let _ ← define v.name (.var v.ty) v.pos
      pure v') := by
    cases declared with
    | true => exact hC.bind (hP.define hv ..) fun _ => hC.pure v'
    | false => exact hC.pure v'
  rw [VarDecl.check]
  refine hC.reportIf (hC.violations _ rfl rfl) (hC.bind (hC.resolveTy ..) fun _ => ?_)
  refine hC.bind (hP.declare hv v.pos) fun declared => ?_
  rw [VarDecl.parts] at h
  cases hi : v.init with
  | none => exact bound ..
  | some e =>
      rw [hi] at h
      refine hC.bind (e.check_closed hC h.tail) fun _ => ?_
      exact hC.bind (hC.expectAccepted ..) fun _ => bound ..

/-- Variables of a frame of their own. -/
theorem VarDecl.checkAll_framed (vs : List VarDecl) (h : Supers R (vs.flatMap VarDecl.parts)) :
    P (fun _ => True) (vs.mapM VarDecl.check) :=
  (hP.closed _).mapM fun v hv => v.check_framed hP trivial (h.mem hv)

/-- An `init` clause gives names to a frame of its own. -/
theorem ForInit.check_framed : ∀ init : ForInit, Supers R init.parts →
    P (fun _ => True) init.check
  | .decl v, h => (hP.closed _).bind (v.check_framed hP trivial h) fun _ => (hP.closed _).pure _
  | .expr e, h => by
      have hC := hP.closed fun _ => True
      rw [ForInit.check]
      refine hC.reportIf (hC.violations _ rfl rfl) ?_
      exact hC.bind (e.check_closed hC h) fun _ => hC.pure _

namespace Stmt

mutual

/-- A statement binds no names of the frame in which it starts: those that it declares are bound in
frames of their own. -/
theorem check_framed (hR : Admits R) : ∀ {N : String → Prop} (s : Stmt), Supers R s.parts →
    P N s.check
  | N, .block p locals body, h => by
      have hC := hP.closed fun _ => True
      rw [parts] at h
      rw [check]
      refine hP.inFrame p (hC.bind (VarDecl.checkAll_framed hP locals h.left) fun _ => ?_)
      exact hC.bind (checkAll_framed hR body h.right) fun _ => hC.pure _
  | N, .ifElse p cond t e, h => by
      have hC := hP.closed N
      rw [parts] at h
      rw [check]
      refine hC.bind (cond.checkCondition_closed hC h.left) fun _ => ?_
      refine hC.bind (check_framed hR t h.right.left) fun _ => ?_
      exact hC.bind (check_framed hR e h.right.right) fun _ => hC.pure _
  | N, .whileLoop p cond body, h => by
      have hC := hP.closed N
      rw [parts] at h
      rw [check]
      refine hC.bind (cond.checkCondition_closed hC h.left) fun _ => ?_
      exact hC.bind (hP.withLoop true (check_framed hR body h.right)) fun _ => hC.pure _
  | N, .forLoop p init cond update body, h => by
      have hC := hP.closed fun _ => True
      rw [parts] at h
      rw [check]
      refine hP.inFrame p (hC.bind (init.check_framed hP h.left) fun _ => ?_)
      refine hC.bind (cond.checkCondition_closed hC h.right.left) fun _ => ?_
      refine hC.bind (hP.update update h.right.right.left) fun _ => ?_
      have turn : P (fun _ => True) body.check := check_framed hR body h.right.right.right
      exact hC.bind (hP.withLoop true turn) fun _ => hC.pure _
  | N, .ret p (some e), h => by
      have hC := hP.closed N
      rw [parts] at h
      rw [check]
      refine hC.bind (e.check_closed hC h) fun _ => ?_
      exact hC.bind (hC.expectReturn ..) fun _ => hC.pure _
  | N, .ret p none, _ => by
      have hC := hP.closed N
      rw [check]
      exact hC.bind (hC.expectReturn ..) fun _ => hC.pure _
  | N, .breakLoop p, _ => by
      have hC := hP.closed N
      rw [check]
      exact hC.bind (hC.loopSignal hR ..) fun _ => hC.pure _
  | N, .continueLoop p, _ => by
      have hC := hP.closed N
      rw [check]
      exact hC.bind (hC.loopSignal hR ..) fun _ => hC.pure _
  | N, .expr p e, h => by
      have hC := hP.closed N
      rw [parts] at h
      rw [check]
      exact hC.bind (e.check_closed hC h) fun _ => hC.pure _
  | N, .empty p, _ => by
      rw [check]
      exact (hP.closed N).pure _

/-- Statements give no names to the frame that they share. -/
theorem checkAll_framed (hR : Admits R) : ∀ {N : String → Prop} (ss : List Stmt),
    Supers R (partsOf ss) → P N (checkAll ss)
  | N, [], _      => by
      rw [checkAll]
      exact (hP.closed N).pure []
  | N, s :: ss, h => by
      have hC := hP.closed N
      rw [partsOf] at h
      rw [checkAll]
      refine hC.bind (check_framed hR s h.left) fun _ => ?_
      exact hC.bind (checkAll_framed hR ss h.right) fun _ => hC.pure _

end

end Stmt

/-- The parameters and variables of a function have a frame of their own. -/
theorem FuncDecl.checkBody_framed (hR : Admits R) (f : FuncDecl) (h : Supers R f.parts) :
    P N f.checkBody := by
  have hC := hP.closed fun _ => True
  rw [parts] at h
  have body : P (fun _ => True) (do
      let locals ← f.locals.mapM VarDecl.check
      let body ← Stmt.checkAll f.body
      pure { f with locals, body }) := by
    refine hC.bind (VarDecl.checkAll_framed hP f.locals h.right.left) fun _ => ?_
    exact hC.bind (Stmt.checkAll_framed hP hR f.body h.right.right) fun _ => hC.pure _
  rw [checkBody]
  refine (hP.closed N).bind ((hP.closed N).resolveTy ..) fun _ => ?_
  refine (hP.closed N).bind (hP.inFrame f.pos ?_) fun f' => ?_
  · exact hC.bind (hP.params ..) fun _ => hP.withLoop false (hP.withFunction _ body)
  · exact (hP.closed N).reportIf (hR _ rfl) ((hP.closed N).pure _)

/-- A function gives its name, and no other. -/
theorem FuncDecl.check_framed (hR : Admits R) (f : FuncDecl) (hf : N f.name)
    (h : Supers R f.parts) : P N f.check :=
  (hP.closed N).bind (hP.define hf ..) fun _ => f.checkBody_framed hP hR h

/-! ### Classes -/

/-- What is done for a class before its frame is entered, if the property stands that a class gets
known. -/
theorem ClassDecl.announce_framed (d : ClassDecl) (hd : N d.name)
    (known : ∀ info, P N (modify fun c => { c with classes := c.classes.put d.name info })) :
    P N d.announce := by
  have hC := hP.closed N
  refine hC.bind (hC.superInfo d) fun superclass => hC.bind (hC.fieldTable d) fun _ => ?_
  refine hC.bind (hC.methodTable d _) fun _ => hC.bind (hP.define hd ..) fun defined => ?_
  cases defined with
  | true => exact hC.bind (known _) fun _ => hC.bind (hC.fieldTypes d) fun _ => hC.pure _
  | false => exact hC.bind (hC.fieldTypes d) fun _ => hC.pure _

/-- What is done in the frame of a class before its methods are checked. -/
theorem ClassDecl.receive_framed (d : ClassDecl) (superclass : Option ClassInfo) :
    P (fun _ => True) (d.receive superclass) := by
  have hC := hP.closed fun _ => True
  refine hC.bind (hP.define trivial ..) fun _ => ?_
  cases superclass with
  | none => exact hC.pure ()
  | some c => exact hC.bind (hP.define trivial ..) fun _ => hC.pure ()

/-- The methods of a class, in the frame of the class. -/
theorem ClassDecl.methods_framed (hR : Admits R) (d : ClassDecl) (superclass : Option ClassInfo)
    (h : Supers R (d.methods.flatMap FuncDecl.parts)) : P N (inFrame d.pos do
      d.receive superclass
      let methods ← d.methods.mapM FuncDecl.checkBody
      pure { d with methods }) := by
  have hC := hP.closed fun _ => True
  refine hP.inFrame d.pos (hC.bind (d.receive_framed hP superclass) fun _ => ?_)
  exact hC.bind (hC.mapM fun f hf => f.checkBody_framed hP hR (h.mem hf)) fun _ => hC.pure _

end

end Brace
