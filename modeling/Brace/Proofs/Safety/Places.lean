import Brace.Proofs.Safety.Names

/-!
# Safety — arrays, objects and places

What expressions do apart from evaluating the expressions inside them: they look at what kind of
value there is, read and write elements and fields, and bind methods to their objects. A value of
the wrong kind ends a run, but never for a name, and where types are known there is none.

What a place holds is fit for the type of the expression that names it (`Place.Ok`), so what is read
there is, and what is written there has to be.
-/

namespace Brace

variable {α : Type} {P : Plan} {s : Site} {own : Option FrameId} {R : α → Site → Prop}
  {Γ : Scene}

/-! ### What symbols hold -/

/-- What a name holds is of the type that the name has as an expression. -/
theorem Symbol.Takes.suits {h : Heap} {known : Symbol} {v : Value} (hv : known.Takes P h v) :
    P.Suits h known.ty v := by
  cases known with
  | var t => exact hv
  | const t => exact hv
  | receiver t => exact hv
  | function sig =>
      intro ht _
      obtain ⟨f, rfl, -⟩ := hv (.inr ht)
      exact .closure f
  | cls info => exact fun _ ha => by cases ha
  | builtin b =>
      intro _ _
      cases hv
      exact .builtin b

section

variable {h : Heap} {x : String} {known met : Symbol} {v : Value} (hs : P.Stands x known met)
  (hx : P.program.Settled → known.isFixed = true → ¬ P.program.Takes x)

include hs hx

/-- A value that may be stored by the name suits the type that checking knows of it. -/
theorem Plan.Stands.suits (hv : met.Takes P h v) : P.Suits h known.ty v := fun ht => by
  rw [← hs.exact (hx ht)]
  exact hv.suits ht

/-- The elements of an array that a name holds. -/
theorem Plan.Stands.element {t : Ty} {id : ArrayId} (he : known.Elements t)
    (hv : met.Takes P h (.array id)) (ht : P.program.Settled) (ha : t.isAnyFree = true) :
    (h.cells id).element = t := by
  cases he with
  | array e =>
      have hv := hs.suits hx hv ht
      rw [e] at hv
      cases hv ha with
      | array _ e => exact e
  | unknown => cases ha

end

/-- A number, a text or a truth value may be stored by a name that has the type for it. -/
theorem Plan.Stores.scalar {h : Heap} {x : String} {known : Symbol} {v : Value}
    (hp : v.isScalar = true) (hv : P.Suits h known.ty v)
    (hx : P.program.Settled → known.ty.isAnyFree = true ∧
      (known.isFixed = true → ¬ P.program.Takes x))
    (hvar : P.program.ScansVariables → ∃ t, known = .var t) : P.Stores x known h v := by
  have exact (ht : P.program.Settled) {met : Symbol} (hs : P.Stands x known met) : met = known :=
    hs.exact (hx ht).2
  have firm (hF : P.program.Firm) {met : Symbol} (hs : P.Stands x known met) :
      met.isDeclared = false := by
    rcases hF with hF | ht
    · obtain ⟨t, rfl⟩ := hvar hF
      cases hs.eq rfl
      rfl
    · cases exact ht hs
      have ha := (hx ht).1
      cases known with
      | function sig => cases hv ht ha <;> cases hp
      | cls info => cases ha
      | _ => rfl
  refine ⟨fun met hs hf => ?_, fun hF met => firm hF, fun hF => ?_⟩
  · cases met with
    | var t => exact fun ht => by cases exact ht hs; exact hv ht
    | receiver t => exact fun ht => by cases exact ht hs; exact hv ht
    | function sig => exact fun hF => nomatch firm hF hs
    | cls info => exact ⟨fun c e => (by rw [e] at hp; cases hp), fun hF => nomatch firm hF hs⟩
    | _ => cases hf
  · obtain ⟨t, rfl⟩ := hvar hF
    rfl

namespace Plan.Covers

variable {e : Expr}

/-- The type of an expression of the program, where types are known. -/
theorem anyFree (h : P.Covers (e.placed Γ)) {t : Ty} (he : e.ty? = some t)
    (ht : P.program.Settled) : t.isAnyFree = true := ht.annotated e t h.self he

/-- A predefined name that the expression uses is not taken, where types are known. -/
theorem untaken (h : P.Covers (e.placed Γ)) {x : String} (hx : x ∈ e.uses) {known : Symbol}
    (hk : Γ.means x = some known) (ht : P.program.Settled) :
    known.isFixed = true → ¬ P.program.Takes x := ht.untaken Γ e x known h.place hx hk

end Plan.Covers

namespace Expr.Yields

variable {e : Expr} {v : Value}

/-- A value of the type that is noted on the expression, where types are known. -/
theorem fits (h : e.Yields P Γ v s) {t : Ty} (ht : e.ty? = some t) (hT : P.program.Settled)
    (hc : P.Covers (e.placed Γ)) : v.Fits P.program.Typed s.heap t := by
  obtain ⟨t', ht', hs⟩ := h.typed hT
  cases ht.symm.trans ht'
  exact hs (hc.anyFree ht hT)

/-- A value of a type that may stand where another is expected. -/
theorem accepted (h : e.Yields P Γ v s) (hc : P.Covers (e.placed Γ)) {t : Ty}
    (ha : e.Has (Γ.Accepts t)) : P.Suits s.heap t v := by
  obtain ⟨t', ht', hacc⟩ := ha
  exact fun hT ht => (h.fits ht' hT hc).accepted ht (hc.anyFree ht' hT) hacc

/-- A plain value of the type of the expression may be given. -/
theorem of_plain (hv : v.isPlain = true) {t : Ty} (ht : e.ty? = some t)
    (hs : P.Suits s.heap t v) (hl : e.Shows P Γ v s.heap) : e.Yields P Γ v s :=
  ⟨Value.ok_of_plain hv, fun hT => ⟨t, ht, hs hT⟩, hl⟩

/-- Where types are known, the form has no value. -/
theorem of_unsettled (hn : ¬ P.program.Settled) (hv : v.Ok P s) (hl : e.Shows P Γ v s.heap) :
    e.Yields P Γ v s := ⟨hv, fun hT => absurd hT hn, hl⟩

/-- What may be a whole number is one, where types are known. -/
theorem int (h : e.Yields P Γ v s) (hc : P.Covers (e.placed Γ)) (hi : e.Has Expr.intLike)
    (hT : P.program.Settled) : ∃ n, v = .int n := by
  obtain ⟨t, ht, rfl | rfl⟩ := hi
  · cases h.fits ht hT hc
    exact ⟨_, rfl⟩
  · cases hc.anyFree ht hT

end Expr.Yields

/-- What an element of an array is. -/
theorem Heap.mem_of_element {h : Heap} {id : ArrayId} {i : Int64} {v : Value}
    (e : h.element id i = .ok v) : v ∈ (h.cells id).items := by
  simp only [Heap.element, Heap.slot] at e
  split at e
  · cases e
  · rename_i k hk
    split at hk
    · rename_i hi
      cases hk
      cases e
      have hlt : i.toInt.toNat < (h.cells id).items.size := by
        have := hi.2
        simp only [Heap.length] at this
        omega
      rw [Array.getD_eq_getD_getElem?, Array.getElem?_eq_getElem hlt]
      exact Array.getElem_mem hlt
    · cases hk

namespace Eval.Gives

/-! ### Kinds of values -/

section

variable {β : Type} {Q : β → Site → Prop} (ok : s.Ok P)

include ok

/-- What fails does not go on. -/
theorem fail_bind {c : Cause} (p : Position) (hc : c.isOfBindings = false)
    (hi : ∀ reason, c = .internalError reason → P.Excuses reason) (f : α → Eval β) :
    ((Eval.fail c p : Eval α) >>= f).Gives P own s Q := fail_other ok p hc hi

/-- What goes on from a result goes on from one that is as it should be. -/
theorem ofExcept_bind (p : Position) {r : Except Cause α} {T : α → Prop} {f : α → Eval β}
    (hr : Value.Settles T r) (hi : ∀ reason, r = .error (.internalError reason) → P.Excuses reason)
    (hf : ∀ a, r = .ok a → T a → (f a).Gives P own s Q) :
    (Eval.ofExcept p r >>= f).Gives P own s Q := by
  cases r with
  | ok a => exact hf a rfl hr
  | error c => exact fail_bind ok p hr (fun reason e => hi reason (congrArg Except.error e)) f

/-- Where an `int` is expected, the run goes on with one. If types are known, there is one. -/
theorem expectInt_bind {v : Value} (hv : P.program.Settled → ∃ n, v = .int n) (p : Position)
    {f : Int64 → Eval β} (hf : ∀ n, v = .int n → (f n).Gives P own s Q) :
    (expectInt v p >>= f).Gives P own s Q := by
  cases v with
  | int n => exact hf n rfl
  | _ =>
      refine fail_bind ok p rfl ?_ f
      rintro reason ⟨⟩
      refine ⟨not_escaped (c := 'e') (by simp) (by decide), fun hT _ => ?_⟩
      obtain ⟨n, e⟩ := hv hT
      cases e

/-- Where a `string` is expected, the run goes on with one. If types are known, there is one. -/
theorem expectString_bind {v : Value} (hv : P.program.Settled → ∃ t, v = .str t) (p : Position)
    {f : String → Eval β} (hf : ∀ t, v = .str t → (f t).Gives P own s Q) :
    (expectString v p >>= f).Gives P own s Q := by
  cases v with
  | str t => exact hf t rfl
  | _ =>
      refine fail_bind ok p rfl ?_ f
      rintro reason ⟨⟩
      refine ⟨not_escaped (c := 'e') (by simp) (by decide), fun hT _ => ?_⟩
      obtain ⟨t, e⟩ := hv hT
      cases e

/-- Where an object is expected, the run goes on with one. -/
theorem expectObject_bind {v : Value} (hv : v.Ok P s) (p : Position) {f : Object → Eval β}
    (hf : ∀ o, v = .object o → (f o).Gives P own s Q) :
    (expectObject v p >>= f).Gives P own s Q := by
  have refuse {v : Value} (hv : v.Ok P s) : ((do
      let text ← Eval.textOf v
      Eval.fail (.notAnInstance text) p : Eval Object) >>= f).Gives P own s Q := by
    refine bind (R := fun _ _ => False) (bind (textOf ok hv) fun text s' h _ => ?_) nofun
    exact fail_other h.ok p rfl (by rintro _ ⟨⟩)
  cases v with
  | object o => exact hf o rfl
  | _ => exact refuse hv

end

/-! ### Arrays and objects -/

/-- If there is no array under a name, the reason names it. -/
theorem lookupArray (hr : Ready P Γ s) {x : String} {known : Symbol} (hx : Γ.means x = some known)
    (p : Position) : (lookupArray x p).Gives P own s fun id s' =>
      ∃ met, P.Stands x known met ∧ met.Takes P s'.heap (.array id) := by
  refine bind (lookup hr hx p) ?_
  rintro v s' h ⟨_, met, hs, hv⟩
  have excuses (reason : String)
      (e : Cause.internalError (Text.quote x ++ " holds a " ++ v.typeName ++ ", not an array") =
        .internalError reason) : P.Excuses reason := by
    rw [← Cause.internalError.inj e]
    exact ⟨not_escaped (c := '"') (by simp [Text.quote]) (by decide),
      fun _ _ => by simp [Cause.isOfOperands, Text.quote]⟩
  cases v with
  | array id => exact pure h.ok ⟨met, hs, hv⟩
  | _ => exact fail_other h.ok p rfl excuses

/-- A new array has the type that it is made for. -/
theorem newArray (ok : s.Ok P) {t : Ty} (ha : P.program.Settled → t.isAnyFree = true)
    (hf : P.program.Typed → t ≠ .function) (n : Int64) (p : Position) :
    (newArray t n p).Gives P own s fun v s' => v.Ok P s' ∧ P.Suits s'.heap (.array t) v := by
  simp only [Gives, Eval.newArray, Heap.newArray]
  split
  · exact ⟨s.world, .refl ok, .other rfl (by rintro _ ⟨⟩)⟩
  · split <;> rename_i e <;> split at e <;> cases e
    · exact ⟨s.world, .refl ok, .other rfl (by rintro _ ⟨⟩)⟩
    · have there : s.heap.arrays.size < (s.heap.addArray t
          (Array.replicate n.toInt.toNat (Value.default t))).2.arrays.size := by
        simp [Heap.addArray]
      refine ⟨s.world, ok.addArray (fun v hv => ?_) ha, there, fun _ _ => ?_⟩
      · cases Array.eq_of_mem_replicate hv
        refine ⟨?_, fun _ ha => Value.fits_default _ ha hf⟩
        cases t <;> trivial
      · exact .array there (congrArg Cells.element (Heap.cells_addArray_new ..))

/-- An element is of the type of the array's elements. -/
theorem element (ok : s.Ok P) (id : ArrayId) (i : Int64) (p : Position) :
    (element id i p).Gives P own s fun v s' =>
      v.Ok P s' ∧ P.Suits s'.heap (s.heap.cells id).element v := by
  refine consult ok p (fun v e => ok.items id v (Heap.mem_of_element e)) fun c e => ?_
  simp only [Heap.element, Heap.slot] at e
  split at e <;> rename_i e' <;> split at e' <;> cases e' <;> cases e
  exact .other rfl (by rintro _ ⟨⟩)

/-- An element may be set to a value of the type of the array's elements. -/
theorem setElement (ok : s.Ok P) {id : ArrayId} (i : Int64) {v : Value} (hv : v.Ok P s)
    (ht : P.Suits s.heap (s.heap.cells id).element v) (p : Position) :
    (setElement id i v p).Gives P own s fun _ _ => True := by
  refine update ok (fun k _ => ⟨s.world, ok.writeElement hv ht, trivial⟩) fun c e => ?_
  simp only [Heap.slot] at e
  split at e <;> cases e
  exact .other rfl (by rintro _ ⟨⟩)

/-- A field may be set that the program writes. -/
theorem setField (ok : s.Ok P) {o : Object} {x : String} {v : Value} (hv : v.Ok P s)
    (hx : P.program.Writes x) : (setField o x v).Gives P own s fun _ _ => True :=
  change (ok.setField hv hx) trivial

/-- A method that is bound to an object sees its class and the object. -/
theorem bindMethod (ok : s.Ok P) {o : Object} (ho : (Value.object o).Ok P s)
    {method : Tier × FuncDecl} (ht : method.1.Ok P s) (hm : method.2 ∈ method.1.methods) :
    (Eval.make (·.bindMethod o method)).Gives P own s fun f s' => f.Ok P s' := by
  obtain ⟨Γ, receiver, joined, hk, hs, hmethods⟩ := ht
  have framed : s.Reaches P own
      (s.frameWith method.1.scope "this" (.receiver receiver) (.object o)) :=
    ok.frameWith (hk.lt ok.toFramed) trivial ho fun ht => absurd ht ho.1
  have hnew : Site.Reaches P own _
      ⟨(s.frameWith method.1.scope "this" (.receiver receiver) (.object o)).world,
        (s.machine.bindMethod o method).2⟩ := .same framed.ok rfl rfl rfl rfl
  have whole := framed.trans hnew
  refine make whole ⟨Γ.receiving receiver joined, ⟨?_, ?_, fun _ _ => ?_⟩, hmethods method.2 hm⟩
  · exact hk.frameWith.grown hnew.later.toGrown framed.ok.toFramed
  · have seen := hs.grown whole.later.toGrown ok.toFramed whole.ok.toFramed hk
    rw [whole.later.toGrown.chain (hk.lt ok.toFramed)] at seen
    exact .frameWith ok.toFramed hnew.later.toGrown seen
  · exact Option.isSome_of_eq_some (Scene.means_put_self ..)

/-- A method that is found in the tiers of a class, for an object. -/
theorem bound (ok : s.Ok P) {o : Object} (ho : (Value.object o).Ok P s) {c : Class}
    (hc : c.Ok P s) (x : String) (p : Position) :
    (match c.method? x with
      | some method => do
          let f ← Eval.make (·.bindMethod o method)
          Pure.pure (.function f)
      | none => Eval.fail (.undefinedProperty x) p : Eval Value).Gives P own s
        fun v s' => v.Ok P s' := by
  split
  · rename_i method e
    obtain ⟨ht, hm⟩ := Class.mem_of_methodIn e
    refine bind (bindMethod ok ho (hc.tiers _ ht) hm) fun f s' h hf => ?_
    exact pure h.ok hf
  · exact fail_other ok p rfl (by rintro _ ⟨⟩)

/-- A field of an object is as it should be, and so is a method that is bound to it. -/
theorem property (ok : s.Ok P) {o : Object} (ho : (Value.object o).Ok P s) (x : String)
    (p : Position) : (Eval.property o x p).Gives P own s fun v s' => v.Ok P s' := by
  refine bind (view (R := fun r s' => s' = s ∧ r = s.machine.heap.field? o.id x) ok _
    ⟨rfl, rfl⟩) ?_
  rintro r s' - ⟨rfl, e⟩
  cases r with
  | some v => exact pure ok (ok.fields o.id x v e.symm).1
  | none => exact bound ok ho ho.2 x p

end Eval.Gives

/-! ### Places -/

/-- The expression may be evaluated where the run is. -/
theorem Ready.eval (hr : Ready P Γ s) {e : Expr} (hs : e.Sound P.classes Γ)
    (hc : P.Covers (e.placed Γ)) : e.eval.Gives P none s (e.Yields P Γ) :=
  Eval.Gives.ask (j := .expr e) ⟨hr, hs, hc⟩

namespace Eval

/-- What the place holds is of the type of the expression that names it. -/
def Place.Ok (P : Plan) (Γ : Scene) (target : Expr) : Place → Site → Prop
  | .var x, _ => ∃ n known, target = .name n x ∧ Γ.means x = some known ∧ n.ty? = some known.ty
  | .element id _, s => ∃ x known met t, known.Elements t ∧ target.ty? = some t ∧
      P.Stands x known met ∧ (P.program.Settled → known.isFixed = true → ¬ P.program.Takes x) ∧
        met.Takes P s.heap (.array id)
  | .field o x, s => (Value.object o).Ok P s ∧ P.program.Writes x

/-- A place that a target stands for is one that it stands for later on. -/
theorem Place.Ok.stable (target : Expr) : P.Stable (Place.Ok P Γ target) := by
  intro pl s s' h ok ok' hp
  cases pl with
  | var x => exact hp
  | element id i =>
      obtain ⟨x, known, met, t, he, ht, hs, hx, hm⟩ := hp
      exact ⟨x, known, met, t, he, ht, hs, hx, hm.grown h.heap⟩
  | field o x => exact ⟨Value.Ok.grown h ok.toFramed ok'.toFramed hp.1, hp.2⟩

namespace Gives

/-- A place is found where the expression for it is sound. Only fields that the program writes are
asked for so. -/
theorem place (hr : Ready P Γ s) {target : Expr} (hs : target.Sound P.classes Γ)
    (hc : P.Covers (target.placed Γ)) (hk : target.kind = .name ∨ target.isPart = true)
    (hw : ∀ n object x, target = .get n object x → P.program.Writes x) :
    (place target).Gives P none s fun pl s' => pl.Ok P Γ target s' := by
  cases target with
  | name n x =>
      obtain ⟨known, hx, ht⟩ := hs.rule
      exact pure hr.ok ⟨n, known, rfl, hx, ht⟩
  | index n x i =>
      obtain ⟨known, t, hx, he, ht, hint⟩ := hs.rule
      have hi : i ∈ (Expr.index n x i).children := List.mem_singleton_self i
      have untaken (hT : P.program.Settled) := hc.untaken (List.mem_singleton_self x) hx hT
      refine hr.bind (lookupArray hr hx n.pos) ?_
      rintro id s₁ h₁ hr₁ ⟨met, hm, hv⟩
      refine hr₁.bind (hr₁.eval (hs.child hi) (hc.child hi)) fun v s₂ h₂ hr₂ hy => ?_
      refine expectInt_bind hr₂.ok (hy.int (hc.child hi) hint) n.pos fun k _ => pure hr₂.ok ?_
      exact ⟨x, known, met, t, he, ht, hm, untaken, hv.grown h₂.later.heap⟩
  | get n object x =>
      have ho : object ∈ (Expr.get n object x).children := List.mem_singleton_self object
      refine hr.bind (hr.eval (hs.child ho) (hc.child ho)) fun v s₁ h₁ hr₁ hv => ?_
      refine expectObject_bind hr₁.ok hv.ok n.pos fun o e => pure hr₁.ok ⟨?_, hw n object x rfl⟩
      exact e ▸ hv.ok
  | _ => exact absurd hk (by simp [Expr.kind, Expr.isPart])

/-- What a place holds suits the type of the target. -/
theorem read (hr : Ready P Γ s) {target : Expr} (hc : P.Covers (target.placed Γ)) {pl : Place}
    (hp : pl.Ok P Γ target s) {t : Ty} (ht : target.ty? = some t) (p : Position) :
    (pl.read p).Gives P none s fun v s' => v.Ok P s' ∧ P.Suits s'.heap t v := by
  cases pl with
  | var x =>
      obtain ⟨n, known, rfl, hx, ht'⟩ := hp
      cases ht.symm.trans ht'
      refine (lookup hr hx p).mono fun v s' _ ⟨hv, met, hs, hm⟩ => ⟨hv, ?_⟩
      exact hs.suits (hc.untaken (List.mem_singleton_self x) hx) hm
  | element id i =>
      obtain ⟨x, known, met, t', he, ht', hs, hx, hm⟩ := hp
      cases ht.symm.trans ht'
      refine (element hr.ok id i p).mono fun v s' ok' ⟨hv, hv'⟩ => ⟨hv, fun hT ha => ?_⟩
      rw [hs.element hx he hm hT ha] at hv'
      exact hv' hT ha
  | field o x =>
      refine (property hr.ok hp.1 x p).mono fun v s' _ hv => ⟨hv, fun hT => absurd hT hp.1.1⟩

/-- A number, a text or a truth value is stored in a place that has the type for it. -/
theorem write (hr : Ready P Γ s) {target : Expr} (hc : P.Covers (target.placed Γ)) {pl : Place}
    (hp : pl.Ok P Γ target s) {t : Ty} (ht : target.ty? = some t)
    (hvar : P.program.ScansVariables → ∀ n x, target = .name n x → ∃ u, Γ.means x = some (.var u))
    {v : Value} (hv : v.isScalar = true) (hs : P.Suits s.heap t v) (p : Position) :
    (pl.write v p).Gives P none s fun _ _ => True := by
  have hplain := Value.isPlain_of_isScalar hv
  cases pl with
  | var x =>
      obtain ⟨n, known, rfl, hx, ht'⟩ := hp
      cases ht.symm.trans ht'
      refine assign hr hx (Value.ok_of_plain hplain)
        (Plan.Stores.scalar hv hs (fun hT => ?_) fun hV => ?_) p
      · exact ⟨hc.anyFree ht hT, hc.untaken (List.mem_singleton_self x) hx hT⟩
      · obtain ⟨u, hu⟩ := hvar hV n x rfl
        exact ⟨u, Option.some.inj (hx.symm.trans hu)⟩
  | element id i =>
      obtain ⟨x, known, met, t', he, ht', hm, hx, hid⟩ := hp
      cases ht.symm.trans ht'
      refine setElement hr.ok i (Value.ok_of_plain hplain) (fun hT ha => ?_) p
      rw [hm.element hx he hid hT (hc.anyFree ht hT)]
      exact hs hT (hc.anyFree ht hT)
  | field o x => exact setField hr.ok (Value.ok_of_plain hplain) hp.2

end Gives

end Eval

end Brace
