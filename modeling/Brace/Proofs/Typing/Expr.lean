import Brace.Proofs.Typing.Clean
import Brace.Proofs.Typing.Rules

/-!
# Typing — checked expressions keep the rules

The expression that checking gives back, where nothing was reported, is sound in the scene in which
it was checked, and its type is noted on it. First the rules that types alone decide, then calls
and formats, which look at the arguments, and then the recursion over the expression.

* `Expr.check_leads`: checking an expression that reports nothing gives a sound expression.
-/

namespace Brace

open Check

variable {F : Prop} {Γ : Scene}

namespace Check

/-! ### Operators and casts -/

/-- Checking of an operator with two operands finds the type that it gives. -/
theorem binaryTy_leads (op : BinaryOp) (a b : Ty) (p : Position) :
    Leads F Γ (binaryTy op a b p) Γ fun r => ∃ t, r = some t ∧ op.Gives a b t := by
  simp only [binaryTy]
  split
  · rename_i h
    refine .pure fun _ => ⟨_, rfl, ?_⟩
    split
    · rename_i h'
      refine .unknownTest ?_ (by simpa using h')
      cases a <;> cases b <;> simp_all [Ty.isAny]
    · rename_i h'
      have ha : op.isArithmetic = true := by simpa using h'
      split
      · cases a <;> simp_all [Ty.isAny]
        exact .unknownLeft ha
      · cases b <;> simp_all [Ty.isAny]
        exact .unknownRight ha
  split
  · rename_i h
    simp only [Bool.and_eq_true, beq_iff_eq] at h
    obtain ⟨⟨ho, rfl⟩, rfl⟩ := h
    exact .pure fun _ => ⟨_, rfl, .join ho⟩
  split
  · rename_i h
    simp only [Bool.and_eq_true, beq_iff_eq] at h
    obtain ⟨⟨ho, hn⟩, rfl⟩ := h
    exact .pure fun _ => ⟨_, rfl, .arithmetic ho hn⟩
  split
  · rename_i h
    simp only [Bool.and_eq_true, beq_iff_eq] at h
    obtain ⟨⟨ho, hn⟩, rfl⟩ := h
    exact .pure fun _ => ⟨_, rfl, .compare ho hn⟩
  split
  · rename_i h
    simp only [Bool.and_eq_true] at h
    exact .pure fun _ => ⟨_, rfl, .equality h.1⟩
  · exact .report_bind _ _ fun _ => .pure False.elim

/-- It finds that the operands of a logical operator are truth values. -/
theorem expectBools_leads (op : LogicalOp) (a b : Ty) (p : Position) :
    Leads F Γ (expectBools op a b p) Γ fun _ => Expr.boolLike a ∧ Expr.boolLike b := by
  simp only [expectBools]
  split
  · exact .report _ _
  · refine .pure fun _ => ?_
    cases a <;> cases b <;> simp_all [Ty.isAny, Expr.boolLike]

/-- It finds the type that an operator with one operand gives. -/
theorem unaryTy_leads (op : UnaryOp) (t : Ty) (p : Position) :
    Leads F Γ (unaryTy op t p) Γ fun r => op = .not ∧ r = .bool ∨
      op ≠ .not ∧ t.isNumeric = true ∧ r = t := by
  simp only [unaryTy]
  split
  · rename_i h
    exact .pure fun _ => .inl ⟨by simpa using h, rfl⟩
  · rename_i hn
    split
    · rename_i h
      exact .pure fun _ => .inr ⟨by simpa using hn, h, rfl⟩
    · exact .report_bind _ _ fun _ => .pure False.elim

/-- It finds that a step is of a number, and gives its type. -/
theorem stepTy_leads (form : StepForm) (t : Ty) (p : Position) :
    Leads F Γ (stepTy form t p) Γ fun r => t.isNumeric = true ∧ r = t := by
  simp only [stepTy]
  split
  · rename_i h
    exact .pure fun _ => ⟨h, rfl⟩
  · exact .report_bind _ _ fun _ => .pure False.elim

/-- It finds the type that is cast to, which can be cast to from the other. -/
theorem castTy_leads (target : String) (source : Ty) (p : Position) :
    Leads F Γ (castTy target source p) Γ fun t => Ty.ofName? target = some t ∧
      t.isPrimitive = true ∧ (source.isPrimitive = true ∨ source = .any) := by
  simp only [castTy]
  split
  · exact .report_bind _ _ fun _ => .pure False.elim
  · rename_i t e
    obtain ⟨ht, hp⟩ := Option.filter_eq_some_iff.mp e
    split
    · exact .report_bind _ _ fun _ => .pure False.elim
    · rename_i h
      have hs : source.isPrimitive = true ∨ source = .any := by
        cases source <;> simp_all [Ty.isPrimitive, Ty.isAny]
      split
      · exact .bind (.warn _ _) fun _ => .pure fun _ => ⟨ht, hp, hs⟩
      · exact .pure fun _ => ⟨ht, hp, hs⟩

/-- It finds that a target of `scanf` is a name or an element. -/
theorem expectTarget_leads (e : Expr) :
    Leads F Γ (expectTarget e) Γ fun _ => e.kind = .name ∨ e.kind = .index := by
  simp only [expectTarget]
  split
  · exact .pure fun _ => .inl rfl
  · exact .pure fun _ => .inr rfl
  · exact .report _ _

end Check

/-! ### Arguments -/

/-- The pairs of types and expressions that checking a list of expressions gives. -/
def Expr.Noted (rs : List (Ty × Expr)) : Prop := ∀ r ∈ rs, r.2.ty? = some r.1

/-- What has been found of expressions is noted on them. -/
theorem Expr.Noted.has {β : Type} {rs : List (Ty × Expr)} (h : Expr.Noted rs) {bs : List β}
    {P : β → Ty → Prop} (hp : ∀ x ∈ bs.zip rs, P x.1 x.2.1) :
    ∀ x ∈ bs.zip (rs.map (·.2)), x.2.Has (P x.1) := by
  intro x hx
  rw [List.zip_map_right] at hx
  obtain ⟨y, hy, rfl⟩ := List.mem_map.mp hx
  exact ⟨y.2.1, h y.2 (List.of_mem_zip hy).2, hp y hy⟩

namespace Check

variable {rs : List (Ty × Expr)}

/-- It finds that arguments may be passed for the parameters. -/
theorem expectArgs_leads (callee : String) (params : List Ty) (p : Position)
    (hr : F → Expr.Noted rs) :
    Leads F Γ (expectArgs callee params rs p) Γ fun _ => Γ.Passes params (rs.map (·.2)) := by
  simp only [expectArgs]
  split
  · rename_i hl
    have each := Leads.forM (F := F) (Γ := Γ) (params.zip rs)
      (f := fun x : Ty × Ty × Expr => expectAccepted x.1 x.2.1 x.2.2.pos)
      fun x _ => expectAccepted_leads x.1 x.2.1 x.2.2.pos
    exact each.imp fun _ hF h => ⟨by simpa using hl, (hr hF).has h⟩
  · exact .report _ _

/-- It finds the type that a call of a symbol gives. -/
theorem callTy_leads (s : Symbol) (p : Position) (hr : F → Expr.Noted rs) :
    Leads F Γ (callTy s rs p) Γ fun t => Γ.Calls (rs.map (·.2)) s t := by
  simp only [callTy]
  split
  · exact .bind (expectArgs_leads _ _ p hr) fun _ => .pure fun h => .function h.2
  · exact .bind (expectArgs_leads _ _ p hr) fun _ => .pure fun h => .builtin h.2
  · exact .bind (expectArgs_leads _ _ p hr) fun _ => .pure fun _ => .cls _
  · exact .pure fun _ => .closure
  · exact .pure fun _ => .unknown
  · exact .report_bind _ _ fun _ => .pure False.elim

/-- It finds the type that a call of a method gives, if it knows the method. -/
theorem methodCallTy_leads (x : String) (p : Position) (hr : F → Expr.Noted rs)
    (r : Option Signature) : Leads F Γ (methodCallTy x rs p r) Γ fun t =>
      (r = none → t = .any) ∧
      ∀ sig, r = some sig → Γ.Passes sig.params (rs.map (·.2)) ∧ t = sig.returns := by
  cases r with
  | none => exact .pure fun _ => ⟨fun _ => rfl, fun sig e => nomatch e⟩
  | some sig =>
      refine .bind (expectArgs_leads _ _ p hr) fun _ => .pure fun h => ⟨nofun, fun sig' e => ?_⟩
      cases e
      exact ⟨h.2, rfl⟩

/-- It finds that a format is written out and goes with the arguments. -/
theorem expectFormat_leads (format : Expr) (hr : F → Expr.Noted rs) :
    Leads F Γ (expectFormat format rs) Γ fun _ =>
      (format.typed .str).Formats (rs.map (·.2)) := by
  simp only [expectFormat]
  split
  · rename_i n template
    split
    · rename_i hl
      have each : Leads F Γ (((Template.specifiers template).zip rs).forM fun x => do
            if !x.1.ty.fits x.2.1 then
              report (.typeMismatch x.1.ty.text x.2.1.text) x.2.2.pos) Γ
          fun _ => ∀ x ∈ (Template.specifiers template).zip rs, x.1.ty.fits x.2.1 = true := by
        refine .forM _ fun x _ => ?_
        split
        · exact .report _ _
        · rename_i h
          exact .pure fun _ => by simpa using h
      refine each.imp fun _ hF h => ⟨_, template, rfl, rfl, by simpa using hl, ?_⟩
      exact (hr hF).has (P := fun (s : Specifier) t => s.ty.fits t = true) h
    · exact .report _ _
  · exact .report _ _

end Check

/-! ### Types of what is found -/

/-- An operator gives a type that is known if its operands have such types. -/
theorem Ty.known_of_accepted {op : BinaryOp} {a b t : Ty} (h : op.Gives a b t)
    (ha : a.Known Γ.classes) (hb : b.Known Γ.classes) : t.Known Γ.classes := by
  cases h <;> first | exact ha | exact hb | trivial

/-- So has an array for its elements. -/
theorem Symbol.Elements.known {s : Symbol} {t : Ty} (h : s.Elements t)
    (hs : s.ty.Known Γ.classes) : t.Known Γ.classes := by
  cases h with
  | array e => rw [e] at hs; exact hs
  | unknown e => trivial

/-- So has a symbol for what a call of it gives. -/
theorem Scene.Calls.known {s : Symbol} {args : List Expr} {t : Ty} (h : Γ.Calls args s t)
    (hs : s.Known Γ.classes) : t.Known Γ.classes := by
  cases h with
  | function => exact hs
  | @builtin b => cases b <;> trivial
  | cls info => exact ⟨info, hs.declared⟩
  | closure => trivial
  | unknown => trivial

/-- So has a class for its properties. -/
theorem Check.propertyTy_known {x : String} : ∀ {c : Option ClassInfo},
    (∀ info, c = some info → info.Known Γ.classes) → (propertyTy x c).Known Γ.classes
  | none, _ => trivial
  | some info, h => by
      simp only [propertyTy]
      split
      · rename_i t e
        exact (h info rfl).fields x t e
      · split <;> trivial

/-- What checking an expression finds: its type, noted on the expression, whose parts keep their
rule. -/
structure Expr.Found (Γ : Scene) (e : Expr) (r : Ty × Expr) : Prop where
  ty    : r.2.ty? = some r.1
  kind  : r.2.kind = e.kind
  known : Γ.Lawful → r.1.Known Γ.classes
  sound : Γ.Lawful → ∀ K, Γ.classes.Sub K → r.2.Whole K Γ

/-- Each of the results is what was found for one of the expressions. -/
def Expr.FoundAll (Γ : Scene) (es : List Expr) (rs : List (Ty × Expr)) : Prop :=
  ∀ r ∈ rs, ∃ e ∈ es, e.Found Γ r

namespace Expr

/-- What has been found of several expressions is noted on each of them. -/
theorem FoundAll.noted {es : List Expr} {rs : List (Ty × Expr)} (h : FoundAll Γ es rs) :
    Noted rs := fun r hr => by
  obtain ⟨e, _, he⟩ := h r hr
  exact he.ty

/-- Expressions of which something has been found are sound. -/
theorem FoundAll.sound {es : List Expr} {rs : List (Ty × Expr)} (h : FoundAll Γ es rs)
    (hl : Γ.Lawful) {K : Table ClassInfo} (hK : Γ.classes.Sub K) :
    ∀ e ∈ rs.map (·.2), e.Whole K Γ := by
  intro e he
  obtain ⟨r, hr, rfl⟩ := List.mem_map.mp he
  obtain ⟨e, _, hf⟩ := h r hr
  exact hf.sound hl K hK

/-- A node that keeps its rule is sound, if what is directly inside it is. -/
theorem Whole.node {K : Table ClassInfo} {e : Expr} (hk : e.kind ≠ .superMethod)
    (hr : e.Rule K Γ ∧ ∀ c ∈ e.children, c.Whole K Γ) : e.Whole K Γ :=
  ⟨(sound_iff K Γ e).mpr ⟨hr.1, fun c hc => (hr.2 c hc).sound⟩, .node hk fun c hc => (hr.2 c hc).tells⟩

/-- A node with its type noted on it: it keeps its rule, and what is inside it is sound. -/
theorem Found.yield {e₀ e : Expr} {t : Ty} (hk : e.kind = e₀.kind) (hs : e.kind ≠ .superMethod)
    (hn : Γ.Lawful → t.Known Γ.classes)
    (hr : Γ.Lawful → ∀ K, Γ.classes.Sub K →
      (e.typed t).Rule K Γ ∧ ∀ c ∈ (e.typed t).children, c.Whole K Γ) :
    e₀.Found Γ (Expr.yield t e) where
  ty := ty?_typed e t
  kind := (kind_typed e t).trans hk
  known := hn
  sound hl K hK := .node (kind_typed e t ▸ hs) (hr hl K hK)

/-- A literal is sound under the note of its type. -/
theorem Formats.sound {format : Expr} {args : List Expr} (h : format.Formats args)
    (K : Table ClassInfo) : format.Whole K Γ := by
  obtain ⟨n, template, rfl, ht, -⟩ := h
  exact .node nofun ⟨ht, nofun⟩

end Expr

/-! ### Targets and callees -/

namespace Expr

/-- A part of something is an element or a property. -/
theorem isPart_eq (e : Expr) : e.isPart = (e.kind == .index || e.kind == .get) := by
  cases e <;> rfl

theorem stepTarget_of_kind {target : Expr} (h : target.kind ≠ .name) (form : StepForm)
    (general : Check (Ty × Expr)) : stepTarget form target general = (do
      let r ← general
      if target.isPart then
        let s ← stepTy form r.1 target.pos
        pure (s, r.2)
      else
        report (.unsupportedOperation form.text "a value that cannot be assigned to") target.pos
        pure (.any, r.2)) := by
  cases target <;> first | rfl | exact absurd rfl h

/-- What can be stepped has been found to be a number, and can be assigned to. -/
theorem stepTarget_leads (form : StepForm) (target : Expr) {general : Check (Ty × Expr)}
    (hg : Leads F Γ general Γ (target.Found Γ)) :
    Leads F Γ (stepTarget form target general) Γ fun r => r.1.isNumeric = true ∧
      r.2.ty? = some r.1 ∧ (Γ.Lawful → ∀ K, Γ.classes.Sub K → r.2.Whole K Γ) ∧
      (r.2.isPart = true ∨ ∃ m x, r.2 = .name m x ∧ Γ.means x = some (.var r.1)) := by
  by_cases hk : target.kind = .name
  · obtain ⟨n, x, rfl⟩ : ∃ n x, target = .name n x := by
      cases target <;> first | exact ⟨_, _, rfl⟩ | cases hk
    refine .bind (assignable_leads x n.pos) fun r => .bind (stepTy_leads ..) fun s => .pure ?_
    rintro ⟨⟨-, t, rfl, hx⟩, hn, rfl⟩
    refine ⟨hn, rfl, fun _ K _ => .node nofun ⟨?_, nofun⟩, .inr ?_⟩
    · exact ⟨_, hx, rfl⟩
    · exact ⟨_, x, rfl, hx⟩
  · rw [stepTarget_of_kind hk]
    refine .bind hg fun r => ?_
    split
    · rename_i hp
      refine .bind (stepTy_leads ..) fun s => .pure ?_
      rintro ⟨⟨-, hf⟩, hn, rfl⟩
      refine ⟨hn, hf.ty, hf.sound, .inl ?_⟩
      rw [isPart_eq, hf.kind, ← isPart_eq, hp]
    · exact .report_bind _ _ fun _ => .pure False.elim

theorem checkCallee_of_kind {callee : Expr}
    (h : callee.kind = .index ∨ callee.kind = .other) (rs : List (Ty × Expr)) (p : Position)
    (general : Check (Ty × Expr)) : checkCallee callee rs p general = (do
      let r ← general
      if r.1 != .function && !r.1.isAny then report (.typeMismatch "function" r.1.text) p
      pure (.any, r.2)) := by
  cases callee <;> first | rfl | (simp only [kind, reduceCtorEq, or_self] at h)

/-- What is known of a callee and of the call's type. -/
def CalleeFound (Γ : Scene) (rs : List (Ty × Expr)) (r : Ty × Expr) : Prop :=
  Γ.Lawful → r.1.Known Γ.classes ∧ (r.1 ≠ .any → r.2.Tells Γ) ∧ ∀ K, Γ.classes.Sub K →
    r.2.Sound K Γ ∧ Γ.CallRule K r.1 (rs.map (·.2)) r.2

/-- A callee of no kind of its own. -/
theorem CalleeFound.general {rs : List (Ty × Expr)} {e₀ : Expr} {r : Ty × Expr}
    (hk : e₀.kind = .index ∨ e₀.kind = .other) (hf : e₀.Found Γ r)
    (ht : r.1 = .function ∨ r.1 = .any) : CalleeFound Γ rs (.any, r.2) := by
  intro hl
  refine ⟨trivial, fun any => absurd rfl any, fun K hK => ⟨(hf.sound hl K hK).sound, ?_⟩⟩
  have hc : r.2.Has (fun c => c = .function ∨ c = .any) ∧ (Ty.any = .any) :=
    ⟨⟨r.1, hf.ty, ht⟩, rfl⟩
  rw [← hf.kind] at hk
  obtain ⟨t, e⟩ := r
  cases e <;> first | exact hc | (simp only [kind, reduceCtorEq, or_self] at hk)

theorem checkCallee_general {rs : List (Ty × Expr)} {p : Position} {e : Expr}
    {general : Check (Ty × Expr)} (hk : e.kind = .index ∨ e.kind = .other)
    (hg : Leads True Γ general Γ (e.Found Γ)) :
    Leads F Γ (checkCallee e rs p general) Γ (CalleeFound Γ rs) := by
  rw [checkCallee_of_kind hk]
  refine .bind (hg.given fun _ => trivial) fun r => .reportIf _ _ <| .pure ?_
  rintro ⟨⟨-, hf⟩, ht⟩
  refine .general hk hf ?_
  obtain ⟨t, e⟩ := r
  cases t <;> first | exact .inl rfl | exact .inr rfl | (exfalso; exact ht rfl)

/-- What is inside an expression with one expression directly inside. -/
theorem Found.only {e₀ e : Expr} {r : Ty × Expr} (h : e₀.Found Γ r) (hc : e.children = [r.2])
    (hl : Γ.Lawful) {K : Table ClassInfo} (hK : Γ.classes.Sub K) : ∀ c ∈ e.children, c.Whole K Γ := by
  rw [hc]
  exact List.forall_mem_singleton.mpr (h.sound hl K hK)

/-- Two expressions of which something has been found are sound as the operands of a node. -/
theorem Found.both {e₀ e₁ e : Expr} {r s : Ty × Expr} (h : e₀.Found Γ r) (h' : e₁.Found Γ s)
    (hc : e.children = [r.2, s.2]) (hl : Γ.Lawful) {K : Table ClassInfo} (hK : Γ.classes.Sub K) :
    ∀ c ∈ e.children, c.Whole K Γ := by
  rw [hc]
  exact List.forall_mem_cons.mpr ⟨h.sound hl K hK, List.forall_mem_singleton.mpr (h'.sound hl K hK)⟩

end Expr

namespace Check.ClassFound

variable {t : Ty} {c : Option ClassInfo}

/-- What is found to have a class is like an object. -/
theorem objectLike (h : ClassFound Γ t c) : Expr.objectLike t := by
  obtain ⟨rfl, -⟩ | ⟨x, rfl, -⟩ := h
  · exact .inl rfl
  · exact .inr ⟨x, rfl⟩

/-- The class that is found is known. -/
theorem known (h : ClassFound Γ t c) (hl : Γ.Lawful) {info : ClassInfo} (e : c = some info) :
    info.Known Γ.classes := by
  obtain ⟨-, rfl⟩ | ⟨x, -, rfl⟩ := h
  · cases e
  · exact hl.classes x info e

/-- A class that is known at the end was found, if its name was known. -/
theorem eq (h : ClassFound Γ t c) {x : String} (ht : t = .object x) (hk : t.Known Γ.classes)
    {K : Table ClassInfo} (hK : Γ.classes.Sub K) {info : ClassInfo} (hi : K.get? x = some info) :
    c = some info := by
  subst ht
  obtain ⟨e, -⟩ | ⟨y, e, rfl⟩ := h
  · cases e
  · cases e
    obtain ⟨info', hi'⟩ := hk
    rw [hi', ← hi, hK x info' hi']

end Check.ClassFound

namespace Expr

/-- The type of a call of a method is known where the method gives something known. -/
theorem methodCall_known {r : Option Signature} {t : Ty} {P : Signature → Prop}
    (h : (r = none → t = .any) ∧ ∀ sig, r = some sig → P sig ∧ t = sig.returns)
    (hk : ∀ sig, r = some sig → sig.returns.Known Γ.classes) : t.Known Γ.classes := by
  cases r with
  | none => rw [h.1 rfl]; trivial
  | some sig => rw [(h.2 sig rfl).2]; exact hk sig rfl

/-! ### What is found of a node

Where the parts of a node have been found, and what they were tested for holds, so has been the node. -/

namespace Found

variable {n : Note} {x : String} {op : BinaryOp} {e e' format : Expr} {es : List Expr}
  {r r' : Ty × Expr} {rs : List (Ty × Expr)} {s : Symbol} {t u : Ty} {c : Option ClassInfo}

/-- Of an element, the type of the elements is found. -/
theorem index (hs : Γ.means x = some s) (he : s.Elements t) (hf : e.Found Γ r) (hi : intLike r.1) :
    (Expr.index n x e).Found Γ (Expr.yield t (.index n x r.2)) := by
  refine .yield rfl nofun (fun hl => he.known (hl.names x s hs).ty) fun hl K hK => ⟨?_, ?_⟩
  · exact ⟨s, t, hs, he, rfl, r.1, hf.ty, hi⟩
  · exact hf.only rfl hl hK

/-- So it is where an element is set. -/
theorem indexAssign (hs : Γ.means x = some s) (he : s.Elements t) (hf : e.Found Γ r)
    (hi : intLike r.1) (hf' : e'.Found Γ r') (ha : Γ.Accepts t r'.1) :
    (Expr.indexAssign n x e e').Found Γ (Expr.yield t (.indexAssign n x r.2 r'.2)) := by
  refine .yield rfl nofun (fun hl => he.known (hl.names x s hs).ty) fun hl K hK => ⟨?_, ?_⟩
  · exact ⟨s, t, hs, he, rfl, ⟨r.1, hf.ty, hi⟩, r'.1, hf'.ty, ha⟩
  · exact hf.both hf' rfl hl hK

/-- Of an assignment, the type of the variable is found. -/
theorem assign (hx : Γ.means x = some (.var t)) (hf : e.Found Γ r) (ha : Γ.Accepts t r.1) :
    (Expr.assign n x e).Found Γ (Expr.yield t (.assign n x r.2)) := by
  refine .yield rfl nofun (fun hl => hl.names x _ hx) fun hl K hK => ⟨?_, hf.only rfl hl hK⟩
  exact ⟨t, hx, rfl, r.1, hf.ty, ha⟩

/-- So it is of a compound assignment. -/
theorem compound (hx : Γ.means x = some (.var t)) (hf : e.Found Γ r) (hop : op.Gives t r.1 u)
    (ha : Γ.Accepts t u) : (Expr.compound n op x e).Found Γ (Expr.yield t (.compound n op x r.2)) := by
  refine .yield rfl nofun (fun hl => hl.names x _ hx) fun hl K hK => ⟨?_, hf.only rfl hl hK⟩
  exact ⟨t, hx, rfl, r.1, hf.ty, u, hop, ha⟩

/-- Of an operator with two operands, the type is found that it gives. -/
theorem binary (hf : e.Found Γ r) (hf' : e'.Found Γ r') (ht : op.Gives r.1 r'.1 t) :
    (Expr.binary n op e e').Found Γ (Expr.yield t (.binary n op r.2 r'.2)) := by
  refine .yield rfl nofun (fun hl => Ty.known_of_accepted ht (hf.known hl) (hf'.known hl))
    fun hl K hK => ⟨?_, hf.both hf' rfl hl hK⟩
  exact ⟨t, rfl, r.1, hf.ty, r'.1, hf'.ty, ht⟩

/-- Of a logical operator, a truth value is found. -/
theorem logical {op : LogicalOp} (hf : e.Found Γ r) (hf' : e'.Found Γ r') (hb : boolLike r.1)
    (hb' : boolLike r'.1) :
    (Expr.logical n op e e').Found Γ (Expr.yield .bool (.logical n op r.2 r'.2)) := by
  refine .yield rfl nofun (fun _ => trivial) fun hl K hK => ⟨?_, hf.both hf' rfl hl hK⟩
  exact ⟨rfl, ⟨r.1, hf.ty, hb⟩, r'.1, hf'.ty, hb'⟩

/-- Of an operator with one operand, the type is found that it gives. -/
theorem unary {op : UnaryOp} (hf : e.Found Γ r)
    (ht : op = .not ∧ t = .bool ∨ op ≠ .not ∧ r.1.isNumeric = true ∧ t = r.1) :
    (Expr.unary n op e).Found Γ (Expr.yield t (.unary n op r.2)) := by
  refine .yield rfl nofun (fun hl => ?_) fun hl K hK => ⟨⟨r.1, hf.ty, ?_⟩, hf.only rfl hl hK⟩
  · obtain ⟨-, rfl⟩ | ⟨-, -, rfl⟩ := ht
    · trivial
    · exact hf.known hl
  · obtain ⟨ho, rfl⟩ | ⟨ho, hn, rfl⟩ := ht
    · exact .inl ⟨ho, rfl⟩
    · exact .inr ⟨ho, hn, rfl⟩

/-- Of a property, the type is found that the class has for it. -/
theorem get (hf : e.Found Γ r) (hc : ClassFound Γ r.1 c) :
    (Expr.get n e x).Found Γ (Expr.yield (propertyTy x c) (.get n r.2 x)) := by
  refine .yield rfl nofun (fun hl => propertyTy_known fun info known => ?_) fun hl K hK =>
    ⟨⟨r.1, hf.ty, hc.objectLike⟩, hf.only rfl hl hK⟩
  exact hc.known hl known

/-- Where a property is set, the type of what it is set to is found. -/
theorem set (hf : e.Found Γ r) (hc : ClassFound Γ r.1 c) (hf' : e'.Found Γ r') :
    (Expr.set n e x e').Found Γ (Expr.yield r'.1 (.set n r.2 x r'.2)) := by
  refine .yield rfl nofun hf'.known fun hl K hK => ⟨⟨⟨r.1, hf.ty, hc.objectLike⟩, ?_⟩, ?_⟩
  · exact hf'.ty.symm
  · exact hf.both hf' rfl hl hK

/-- A class is known where a method of the superclass is. -/
theorem superMethod {sig : Option Signature} (hs : Γ.means "super" = some s)
    (has : ∀ info, s = .cls info → (info.method? x).isSome)
    (hsig : ∀ g, sig = some g → ∃ info, s = .cls info ∧ info.method? x = some g) :
    (Expr.superMethod n x).Found Γ
      (Expr.yield (if sig.isSome then .function else .any) (.superMethod n x)) := by
  refine ⟨rfl, rfl, fun _ => ?_, fun _ K _ => ⟨?_, ?_⟩⟩
  · cases sig <;> trivial
  · exact (sound_iff K Γ _).mpr ⟨⟨s, hs, has⟩, nofun⟩
  · cases sig with
    | none => exact .of_any rfl
    | some g =>
        obtain ⟨info, rfl, -⟩ := hsig g rfl
        exact .of_class hs

/-- Where the type of a call is known, so is its callee. -/
theorem call (hf : CalleeFound Γ rs r) (hrs : FoundAll Γ es rs) :
    (Expr.call n e es).Found Γ (Expr.yield r.1 (.call n r.2 (rs.map (·.2)))) := by
  refine ⟨rfl, rfl, fun hl => (hf hl).1, fun hl K hK => ⟨?_, ?_⟩⟩
  · obtain ⟨sound, rule⟩ := (hf hl).2.2 K hK
    refine (sound_iff K Γ _).mpr ⟨?_, ?_⟩
    · exact ⟨r.1, rfl, rule⟩
    · exact List.forall_mem_cons.mpr ⟨sound, fun a ha => (hrs.sound hl hK a ha).sound⟩
  · by_cases any : r.1 = .any
    · exact .of_any (congrArg some any)
    · refine .node nofun (List.forall_mem_cons.mpr ⟨(hf hl).2.1 any, fun a ha => ?_⟩)
      exact (hrs.sound hl hK a ha).tells

/-- Of `printf`, nothing is found that it gives. -/
theorem printf (hfm : (format.typed .str).Formats (rs.map (·.2))) (hrs : FoundAll Γ es rs) :
    (Expr.printf n format es).Found Γ
      (Expr.yield .void (.printf n (format.typed .str) (rs.map (·.2)))) := by
  refine .yield rfl nofun (fun _ => trivial) fun hl K hK => ⟨⟨rfl, hfm⟩, ?_⟩
  exact List.forall_mem_cons.mpr ⟨hfm.sound K, hrs.sound hl hK⟩

/-- Nor is it of `scanf`. -/
theorem scanf (ht : ∀ a ∈ es, a.kind = .name ∨ a.kind = .index)
    (hfm : (format.typed .str).Formats (rs.map (·.2))) (hrs : FoundAll Γ es rs) :
    (Expr.scanf n format es).Found Γ
      (Expr.yield .void (.scanf n (format.typed .str) (rs.map (·.2)))) := by
  refine .yield rfl nofun (fun _ => trivial) fun hl K hK => ⟨⟨rfl, hfm, fun a ha => ?_⟩, ?_⟩
  · obtain ⟨r, hr, rfl⟩ := List.mem_map.mp ha
    obtain ⟨e₀, he₀, hf⟩ := hrs r hr
    rw [hf.kind]
    exact ht e₀ he₀
  · exact List.forall_mem_cons.mpr ⟨hfm.sound K, hrs.sound hl hK⟩

/-- Nor is it of `sprintf`, which needs a variable that holds a text. -/
theorem sprintf (hx : Γ.means x = some (.var t)) (ht : t = .str ∨ t = .any)
    (hfm : (format.typed .str).Formats (rs.map (·.2))) (hrs : FoundAll Γ es rs) :
    (Expr.sprintf n x format es).Found Γ
      (Expr.yield .void (.sprintf n x (format.typed .str) (rs.map (·.2)))) := by
  refine .yield rfl nofun (fun _ => trivial) fun hl K hK => ⟨⟨rfl, hfm, t, hx, ht⟩, ?_⟩
  exact List.forall_mem_cons.mpr ⟨hfm.sound K, hrs.sound hl hK⟩

end Found

/-! ### The recursion over expressions -/

mutual

/-- Checking an expression that reports nothing gives a sound expression. -/
theorem check_leads : ∀ e : Expr, Leads True Γ e.check Γ (e.Found Γ)
  | .literal n l => by
      rw [check]
      exact .pure fun _ => .yield rfl nofun (fun _ => by cases l <;> trivial) fun _ _ _ => ⟨rfl, nofun⟩
  | .name n x => by
      rw [check]
      refine .bind (tyOfName_leads x n.pos) fun t => .pure ?_
      rintro ⟨-, s, hs, rfl⟩
      exact .yield rfl nofun (fun hl => (hl.names x s hs).ty) fun _ _ _ => ⟨⟨s, hs, rfl⟩, nofun⟩
  | .group n e => by
      rw [check]
      refine .bind (check_leads e) fun r => .pure ?_
      rintro ⟨-, hf⟩
      exact .yield rfl nofun hf.known fun hl K hK => ⟨hf.ty.symm, hf.only rfl hl hK⟩
  | .arrayNew n element size => by
      rw [check]
      refine .reportIf _ _ <| .bind (resolveTy_leads n.pos element) fun _ =>
        .bind ((check_leads size).given fun _ => trivial) fun r =>
        .bind (expectIndex_leads ..) fun _ => .pure ?_
      rintro ⟨⟨⟨-, hk⟩, hf⟩, hi⟩
      exact .yield rfl nofun (fun _ => hk) fun hl K hK => ⟨⟨rfl, r.1, hf.ty, hi⟩, hf.only rfl hl hK⟩
  | .index n x i => by
      rw [check]
      refine .bind (elementTy_leads x n.pos) fun t =>
        .bind ((check_leads i).given fun _ => trivial) fun r =>
        .bind (expectIndex_leads ..) fun _ => .pure ?_
      rintro ⟨⟨⟨-, s, hs, he⟩, hf⟩, hi⟩
      exact .index hs he hf hi
  | .indexAssign n x i e => by
      rw [check]
      refine .bind (elementTy_leads x n.pos) fun t =>
        .bind ((check_leads i).given fun _ => trivial) fun r =>
        .bind (expectIndex_leads ..) fun _ =>
        .bind ((check_leads e).given fun _ => trivial) fun r' =>
        .bind (expectAccepted_leads ..) fun _ => .pure ?_
      rintro ⟨⟨⟨⟨⟨-, s, hs, he⟩, hf⟩, hi⟩, hf'⟩, ha⟩
      exact .indexAssign hs he hf hi hf' ha
  | .assign n x e => by
      rw [check]
      refine .bind (assignable_leads x n.pos) fun target =>
        .bind ((check_leads e).given fun _ => trivial) fun r => ?_
      cases target with
      | some t =>
          refine .bind (expectAccepted_leads ..) fun _ => .pure ?_
          rintro ⟨⟨⟨-, t', e, hx⟩, hf⟩, ha⟩
          cases e
          exact .assign hx hf ha
      | none => exact .pure fun ⟨⟨_, t, e, _⟩, _⟩ => nomatch e
  | .compound n op x e => by
      rw [check]
      refine .bind (assignable_leads x n.pos) fun target =>
        .bind ((check_leads e).given fun _ => trivial) fun r => ?_
      cases target with
      | some t =>
          refine .bind (binaryTy_leads ..) fun result => ?_
          cases result with
          | some u =>
              refine .bind (expectAccepted_leads ..) fun _ => .pure ?_
              rintro ⟨⟨⟨⟨-, t', e, hx⟩, hf⟩, u', eu, hop⟩, ha⟩
              cases e
              cases eu
              exact .compound hx hf hop ha
          | none => exact .pure fun ⟨_, u, e, _⟩ => nomatch e
      | none => exact .pure fun ⟨⟨_, t, e, _⟩, _⟩ => nomatch e
  | .binary n op l r => by
      rw [check]
      refine .bind ((check_leads l).given fun _ => trivial) fun a =>
        .bind ((check_leads r).given fun _ => trivial) fun b =>
        .bind (binaryTy_leads ..) fun t => .pure ?_
      rintro ⟨⟨⟨-, ha⟩, hb⟩, t, rfl, ht⟩
      exact .binary ha hb ht
  | .logical n op l r => by
      rw [check]
      refine .bind ((check_leads l).given fun _ => trivial) fun a =>
        .bind ((check_leads r).given fun _ => trivial) fun b =>
        .bind (expectBools_leads ..) fun _ => .pure ?_
      rintro ⟨⟨⟨-, ha⟩, hb⟩, hab⟩
      exact .logical ha hb hab.1 hab.2
  | .unary n op e => by
      rw [check]
      refine .bind (check_leads e) fun r => .bind (unaryTy_leads ..) fun t => .pure ?_
      rintro ⟨⟨-, hf⟩, ht⟩
      exact .unary hf ht
  | .step n form target => by
      rw [check]
      refine .bind (stepTarget_leads form target (check_leads target)) fun r => .pure ?_
      rintro ⟨-, hn, ht, hs, hp⟩
      refine .yield rfl nofun (fun _ => ?_) fun hl K hK => ⟨⟨r.1, rfl, ht, hn, hp⟩, ?_⟩
      · obtain ⟨t, e⟩ := r
        cases t <;> trivial
      · exact List.forall_mem_singleton.mpr (hs hl K hK)
  | .cast n target e => by
      rw [check]
      refine .bind (check_leads e) fun r => .bind (castTy_leads ..) fun t => .pure ?_
      rintro ⟨⟨-, hf⟩, ht, hp, hs⟩
      refine .yield rfl nofun (fun _ => ?_) fun hl K hK => ⟨⟨t, ht, hp, rfl, r.1, hf.ty, hs⟩, ?_⟩
      · cases t <;> trivial
      · exact hf.only rfl hl hK
  | .intToFloat n e => by
      rw [check]
      refine .bind (check_leads e) fun r => .bind (expectTy_leads ..) fun _ => .pure ?_
      rintro ⟨⟨-, hf⟩, ht⟩
      exact .yield rfl nofun (fun _ => trivial) fun hl K hK => ⟨⟨rfl, r.1, hf.ty, ht⟩, hf.only rfl hl hK⟩
  | .get n o x => by
      rw [check]
      refine .bind (check_leads o) fun r => .bind (classOf_leads ..) fun c => .pure ?_
      rintro ⟨⟨-, hf⟩, hc⟩
      exact .get hf hc
  | .set n o x e => by
      rw [check]
      refine .bind (check_leads o) fun r => .bind (classOf_leads ..) fun c =>
        .bind ((check_leads e).given fun _ => trivial) fun r' => ?_
      cases c.bind (·.field? x) with
      | some field =>
          exact .bind (expectAccepted_leads ..) fun _ =>
            .pure fun ⟨⟨⟨⟨_, hf⟩, hc⟩, hf'⟩, _⟩ => .set hf hc hf'
      | none => exact .pure fun ⟨⟨⟨_, hf⟩, hc⟩, hf'⟩ => .set hf hc hf'
  | .receiver n => by
      rw [check]
      refine .bind (tyOfName_leads "this" n.pos) fun t => .pure ?_
      rintro ⟨-, s, hs, rfl⟩
      exact .yield rfl nofun (fun hl => (hl.names _ s hs).ty) fun _ _ _ => ⟨⟨s, hs, rfl⟩, nofun⟩
  | .superMethod n x => by
      rw [check]
      refine .bind (superMethod_leads x n.pos) fun sig => .pure ?_
      rintro ⟨-, s, hs, has, hsig⟩
      exact .superMethod hs has hsig
  | .call n callee args => by
      rw [check]
      refine .bind (checkAll_leads args) fun rs =>
        .bind (checkCallee_leads rs n.pos (fun h => h.2.noted) callee (check_leads callee))
        fun r => .pure ?_
      rintro ⟨⟨-, hrs⟩, hf⟩
      exact .call hf hrs
  | .printf n format args => by
      rw [check]
      refine .bind (checkAll_leads args) fun rs => .bind (expectFormat_leads format fun h => h.2.noted)
        fun _ => .pure ?_
      rintro ⟨⟨-, hrs⟩, hfm⟩
      exact .printf hfm hrs
  | .scanf n format targets => by
      rw [check]
      refine .bind (.forM targets fun e _ => expectTarget_leads e) fun _ =>
        .bind ((checkAll_leads targets).given fun _ => trivial) fun rs =>
        .bind (expectFormat_leads format fun h => h.2.noted) fun _ => .pure ?_
      rintro ⟨⟨⟨-, ht⟩, hrs⟩, hfm⟩
      exact .scanf ht hfm hrs
  | .sprintf n x format args => by
      rw [check]
      refine .bind (assignable_leads x n.pos) fun target => ?_
      cases target with
      | some t =>
          refine .bind (expectTy_leads ..) fun _ =>
            .bind ((checkAll_leads args).given fun _ => trivial) fun rs =>
            .bind (expectFormat_leads format fun h => h.2.noted) fun _ => .pure ?_
          rintro ⟨⟨⟨⟨-, t', e, hx⟩, ht⟩, hrs⟩, hfm⟩
          cases e
          exact .sprintf hx ht hfm hrs
      | none =>
          exact .bind ((checkAll_leads args).given fun _ => trivial) fun rs =>
            .bind (expectFormat_leads format fun h => h.2.noted) fun _ =>
            .pure fun ⟨⟨⟨_, t, e, _⟩, _⟩, _⟩ => nomatch e

/-- What is called is found to be something that can be called with these arguments. -/
theorem checkCallee_leads {F : Prop} (rs : List (Ty × Expr)) (p : Position)
    (hr : F → Noted rs) : ∀ e : Expr, Leads True Γ e.check Γ (e.Found Γ) →
      Leads F Γ (checkCallee e rs p e.check) Γ (CalleeFound Γ rs)
  | .get m o x, _ => by
      rw [checkCallee]
      refine .bind ((check_leads o).given fun _ => trivial) fun r =>
        .bind (classOf_leads ..) fun c =>
        .bind (methodCallTy_leads x p (fun h => hr h.1.1) _) fun t => .pure ?_
      rintro ⟨⟨⟨-, hf⟩, hc⟩, ht⟩ hl
      have whole (K : Table ClassInfo) (hK : Γ.classes.Sub K) :
          ((Expr.get m r.2 x).typed .function).Whole K Γ :=
        .node nofun ⟨⟨r.1, hf.ty, hc.objectLike⟩, hf.only rfl hl hK⟩
      refine ⟨methodCall_known ht fun sig e => ?_, fun _ => (whole _ (.refl _)).tells,
        fun K hK => ⟨(whole K hK).sound, rfl, ⟨r.1, hf.ty, hc.objectLike⟩, ?_⟩⟩
      · obtain ⟨info, hi, hm⟩ := Option.bind_eq_some_iff.mp e
        exact (hc.known hl hi).returns x sig hm
      · intro cls info sig ho hi hm
        have hr₁ : r.1 = .object cls := Option.some.inj (hf.ty.symm.trans ho)
        have hc' : c = some info := hc.eq hr₁ (hf.known hl) hK hi
        exact ht.2 sig (by rw [hc']; exact hm)
  | .name m x, _ => by
      rw [checkCallee]
      refine .bind (lookup_leads x m.pos) fun s => ?_
      cases s with
      | some s =>
          refine .bind (callTy_leads s p fun h => hr h.1) fun t => .pure ?_
          rintro ⟨⟨-, s', e, hx⟩, ht⟩ hl
          cases e
          refine ⟨ht.known (hl.names x s hx), fun _ => .node nofun nofun,
            fun K _ => ⟨?_, s, hx, rfl, ht⟩⟩
          exact (sound_iff K Γ _).mpr ⟨⟨s, hx, rfl⟩, nofun⟩
      | none => exact .pure fun ⟨_, s', e, _⟩ => nomatch e
  | .superMethod m x, _ => by
      rw [checkCallee]
      refine .bind (superMethod_leads x m.pos) fun sig =>
        .bind (methodCallTy_leads x p (fun h => hr h.1) sig) fun t => .pure ?_
      rintro ⟨⟨-, s, hx, has, hsig⟩, ht⟩ hl
      refine ⟨methodCall_known ht fun sig e => ?_, fun known => ?_,
        fun K _ => ⟨(sound_iff K Γ _).mpr ⟨⟨s, hx, has⟩, nofun⟩, rfl⟩⟩
      · obtain ⟨info, rfl, hm⟩ := hsig sig e
        exact (hl.names _ _ hx).returns x sig hm
      · cases sig with
        | none => exact absurd (ht.1 rfl) known
        | some sig =>
            obtain ⟨info, rfl, -⟩ := hsig sig rfl
            exact .of_class hx
  | .index .., hg => checkCallee_general (.inl rfl) hg
  | .literal .., hg | .group .., hg | .arrayNew .., hg | .indexAssign .., hg | .call .., hg
  | .assign .., hg | .compound .., hg | .binary .., hg | .logical .., hg | .unary .., hg
  | .step .., hg | .cast .., hg | .intToFloat .., hg | .set .., hg | .receiver .., hg
  | .printf .., hg | .scanf .., hg | .sprintf .., hg => checkCallee_general (.inr rfl) hg

/-- Of expressions that are checked one after another, the type of each is found. -/
theorem checkAll_leads : ∀ es : List Expr, Leads True Γ (checkAll es) Γ (FoundAll Γ es)
  | [] => by
      rw [checkAll]
      exact .pure fun _ _ h => nomatch h
  | e :: es => by
      rw [checkAll]
      refine .bind (check_leads e) fun r => .bind ((checkAll_leads es).given fun _ => trivial)
        fun rs => .pure ?_
      rintro ⟨⟨-, hf⟩, hrs⟩
      refine List.forall_mem_cons.mpr ⟨⟨e, .head _, hf⟩, fun r' hr' => ?_⟩
      obtain ⟨e', he', hf'⟩ := hrs r' hr'
      exact ⟨e', .tail _ he', hf'⟩

end

/-- A condition is checked, and found to be sound. -/
theorem checkCondition_leads (e : Expr) :
    Leads F Γ e.checkCondition Γ fun e' => Γ.Lawful → ∀ K, Γ.classes.Sub K → e'.Whole K Γ := by
  refine .bind ((check_leads e).given fun _ => trivial) fun r =>
    .bind (expectTy_leads ..) fun _ => .pure ?_
  rintro ⟨⟨-, hf⟩, -⟩
  exact hf.sound

end Expr

end Brace
