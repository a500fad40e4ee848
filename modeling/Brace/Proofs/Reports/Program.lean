import Brace.Proofs.Reports.Stmt

/-!
# Reports — one mistake, one report

Functions, classes and programs are set against those with a mistake in one place. From outside a
function with a mistake in its body is the function without it, so what is checked later is checked
alike in both runs.

* `check_reports_mistake`: what is reported of a program that would be accepted but for one name that
  is bound nowhere.
-/

namespace Brace

open Check

variable {x : String} {rs : List Error}

/-! ### Functions -/

namespace FuncDecl

/-- Checking the body of the second function reports `rs` more. From outside they are the same. -/
structure Swaps (x : String) (f : FuncDecl) (rs : List Error) (f' : FuncDecl) : Prop where
  pos       : f'.pos = f.pos
  signature : f'.signature = f.signature
  body      : Adds x False f.checkBody f'.checkBody rs fun _ _ => True

/-- The functions give the same type, and their bodies return alike. -/
def EndsLike (f f' : FuncDecl) : Prop :=
  f'.returns = f.returns ∧ Stmt.anyReturns f'.body = Stmt.anyReturns f.body

variable {f f' : FuncDecl} {n : Note}

/-- A mistake in the body of a function is reported, and the function looks as before from outside. -/
theorem swaps_body {rs₁ rs₂ : List Error} (hf : .name x ∉ f.parts) {locals : List VarDecl}
    {body : List Stmt} (hl : Each (VarDecl.Swaps x) f.locals rs₁ locals)
    (hb : Each (Stmt.Swaps x) f.body rs₂ body) :
    f.Swaps x (rs₁ ++ rs₂) { f with locals, body } := by
  refine ⟨rfl, rfl, ?_⟩
  have param (y : Param) (hy : y ∈ f.params) : y.name ≠ x := by
    rintro rfl
    exact hf (List.mem_append_left _ (List.mem_map_of_mem hy))
  have params : Agrees x False (f.params.forM fun y => do
      let _ ← resolveTy f.pos y.ty
      let _ ← define y.name (.var y.ty) f.pos) :=
    .forM_agrees fun y hy => .after (resolveTy_agrees ..) fun _ =>
      .after (define_agrees (param y hy) ..) fun _ => .pure rfl
  rw [checkBody, checkBody]
  refine .after (resolveTy_agrees ..) fun _ => .andThen (Q := EndsLike) (inFrame_adds f.pos ?_)
    (fun _ => ⟨rfl, rfl⟩) fun g g' same =>
      .reportIf (fun missing => ?_) _ _ _ _ (.pure trivial)
  · refine .after params fun _ => withLoop_adds false <| withFunction_adds _ ?_
    exact .bind (.mapM (fun _ _ _ h => h) hl) (fun _ => trivial) fun _ _ _ =>
      .andThen (Stmt.checkAll_adds hb) (fun _ => rfl) fun _ _ hts => .pure ⟨rfl, hts⟩
  · rwa [same.1, same.2]

theorem swaps_refl (f : FuncDecl) (hf : .name x ∉ f.parts) : f.Swaps x [] f := by
  have h := hf
  simp only [parts, List.mem_append, not_or] at h
  exact swaps_body hf (.spared h.2.1 VarDecl.swaps_refl) (Stmt.swapsAll_refl f.body h.2.2)

/-- A mistake in a function adds one report. -/
theorem Replaces.swaps (h : FuncDecl.Replaces (.name n x) f f') (hf : .name x ∉ f.parts) :
    f.Swaps x [⟨.undefinedSymbol x, n.pos⟩] f' := by
  have hp := hf
  simp only [parts, List.mem_append, not_or] at hp
  cases h with
  | «local» h =>
      have locals := h.each (spared_of_flatMap hp.2.1) VarDecl.swaps_refl fun _ _ h => h.swaps
      have h := swaps_body hf locals (Stmt.swapsAll_refl f.body hp.2.2)
      rwa [List.append_nil] at h
  | member h =>
      have spared := spared_of_flatMap (Stmt.partsOf_eq_flatMap f.body ▸ hp.2.2)
      have body := h.each spared Stmt.swaps_refl fun _ _ h => h.swaps
      exact swaps_body hf (.spared hp.2.1 VarDecl.swaps_refl) body

end FuncDecl

/-! ### Classes -/

namespace ClassDecl

/-- The superclass is found alike in both runs. -/
theorem superInfo_agrees (d : ClassDecl) {still : Prop} : Agrees x still d.superInfo := by
  unfold superInfo
  split
  · exact .pure rfl
  · refine .after (lookup_agrees ..) fun s => ?_
    split
    · exact .pure rfl
    · exact .pure rfl
    · exact .report_bind _ _ .refl

theorem superInfo_of_none {d : ClassDecl} (h : d.superclass = none) : d.superInfo = pure none := by
  rw [superInfo, h]

/-- The fields of a class are gathered alike. -/
theorem fieldTable_agrees (d : ClassDecl) {still : Prop} : Agrees x still d.fieldTable := by
  refine .foldlM_agrees (fun t y => ?_) d.fields _
  exact .reportIf id _ _ _ _ (.pure rfl)

/-- The table of methods has their signatures, which a mistake in a body leaves as they are. -/
theorem methodTable_adds (d : ClassDecl) (fields : Table Ty) {fs : List FuncDecl}
    (h : Each (FuncDecl.Swaps x) d.methods rs fs) :
    Adds x False (d.methodTable fields) ({ d with methods := fs }.methodTable fields) [] Eq := by
  rw [methodTable, methodTable]
  generalize d.methods = gs at h
  generalize Table.empty = t
  induction h generalizing t with
  | nil => exact .pure rfl
  | @cons f f' _ _ _ _ h _ ih =>
      have name : f'.name = f.name := congrArg Signature.name h.signature
      rw [List.foldlM_cons, List.foldlM_cons, name, h.signature, h.pos]
      refine .after ?_ ih
      split
      · exact .report_bind _ _ .refl
      · exact .reportIf id _ _ _ _ (.pure rfl)

theorem putClass_agrees (y : String) (info : ClassInfo) :
    Agrees x False (modify fun c => { c with classes := c.classes.put y info }) where
  later := (putClass_leads y info : Leads True .start _ _ _).later
  adds := by
    rintro c _ ⟨errors, warnings, rfl⟩ lacks -
    exact ⟨⟨errors, warnings, rfl⟩, lacks, False.elim, (List.append_nil _).symm, rfl⟩

/-- Checking the methods of a class of which the superclass has been found, or that has none. -/
def checkInside (d : ClassDecl) (superclass : Option ClassInfo) : Check ClassDecl :=
  inFrame d.pos do
    let _ ← define "this" (.receiver (.object d.name)) d.pos
    match superclass with
    | some c => do
        let _ ← define "super" (.cls c) d.pos
    | none => pure ()
    let methods ← d.methods.mapM FuncDecl.checkBody
    pure { d with methods }

/-- Checking such a class. -/
def checkBelow (d : ClassDecl) (superclass : Option ClassInfo) : Check ClassDecl := do
  let fields ← d.fieldTable
  let methods ← d.methodTable fields
  let inherited := match superclass with
    | some c => c.tiers
    | none   => []
  let info : ClassInfo := ⟨⟨d.name, fields, methods⟩, inherited⟩
  if ← define d.name (.cls info) d.pos then
    modify fun c => { c with classes := c.classes.put d.name info }
  d.fields.forM fun x => do
    let _ ← resolveTy d.pos x.ty
  d.checkInside superclass

/-- Checking a class finds its superclass first, and goes on below it. -/
theorem check_eq_below (d : ClassDecl) : d.check = d.superInfo >>= d.checkBelow := rfl

variable {d : ClassDecl} {superclass : Option ClassInfo} {fs : List FuncDecl}

/-- A mistake in a method is reported inside the class. -/
theorem checkInside_adds (hthis : "this" ≠ x) (hsuper : superclass.isSome → "super" ≠ x)
    (h : Each (FuncDecl.Swaps x) d.methods rs fs) :
    Adds x False (d.checkInside superclass) ({ d with methods := fs }.checkInside superclass) rs
      fun _ _ => True := by
  have methods := Adds.mapM (fun _ _ _ h => FuncDecl.Swaps.body h) h
  refine inFrame_adds d.pos <| .after (define_agrees hthis ..) fun _ => ?_
  cases superclass with
  | none => exact .andThen methods (fun _ => trivial) fun _ _ _ => .pure trivial
  | some c =>
      exact .after (define_agrees (hsuper rfl) ..) fun _ =>
        .andThen methods (fun _ => trivial) fun _ _ _ => .pure trivial

/-- A mistake in a method is reported once, and the class looks as before from outside. -/
theorem checkBelow_adds (hname : d.name ≠ x) (hthis : "this" ≠ x)
    (hsuper : superclass.isSome → "super" ≠ x) (h : Each (FuncDecl.Swaps x) d.methods rs fs) :
    Adds x False (d.checkBelow superclass) ({ d with methods := fs }.checkBelow superclass) rs
      fun _ _ => True := by
  refine .after d.fieldTable_agrees fun fields => .after (d.methodTable_adds fields h)
    fun methods => .after (define_agrees hname ..) fun defined => ?_
  have known : Agrees x False (d.fields.forM fun y => do
      let _ ← resolveTy d.pos y.ty) :=
    .forM_agrees fun y _ => .after (resolveTy_agrees ..) fun _ => .pure rfl
  have inside := Adds.after known fun _ => checkInside_adds hthis hsuper h
  cases defined with
  | true => exact .after (putClass_agrees ..) fun _ => inside
  | false => exact inside

/-- A class that binds `x` neither by its name nor in its methods, with other methods. -/
theorem check_adds (hname : d.name ≠ x) (hthis : "this" ≠ x)
    (hsuper : d.superclass.isSome → "super" ≠ x) (h : Each (FuncDecl.Swaps x) d.methods rs fs) :
    Adds x False d.check { d with methods := fs }.check rs fun _ _ => True := by
  rw [check_eq_below, check_eq_below]
  by_cases hs : d.superclass = none
  · have hs' : { d with methods := fs }.superclass = none := hs
    rw [superInfo_of_none hs, superInfo_of_none hs', pure_bind, pure_bind]
    exact checkBelow_adds hname hthis nofun h
  · have hsuper := hsuper (Option.isSome_iff_ne_none.mpr hs)
    exact .after d.superInfo_agrees fun _ => checkBelow_adds hname hthis (fun _ => hsuper) h

end ClassDecl

/-! ### Programs -/

namespace Decl

/-- Checking the second declaration reports `rs` more. -/
def Swaps (x : String) (d : Decl) (rs : List Error) (d' : Decl) : Prop :=
  Adds x False d.check d'.check rs fun _ _ => True

theorem swaps_var {v v' : VarDecl} (h : v.Swaps x rs v') : (var v).Swaps x rs (var v') :=
  .andThen h (fun _ => trivial) fun _ _ _ => .pure trivial

theorem swaps_func {f f' : FuncDecl} (hf : f.name ≠ x) (h : f.Swaps x rs f') :
    (func f).Swaps x rs (func f') := by
  have name : f'.name = f.name := congrArg Signature.name h.signature
  have checked : Adds x False f.check f'.check rs fun _ _ => True := by
    rw [FuncDecl.check, FuncDecl.check, name, h.signature, h.pos]
    exact .after (define_agrees hf ..) fun _ => h.body
  exact .andThen checked (fun _ => trivial) fun _ _ _ => .pure trivial

theorem swaps_cls {c : ClassDecl} (hc : ¬ (cls c).Binds x) {fs : List FuncDecl}
    (h : Each (FuncDecl.Swaps x) c.methods rs fs) :
    (cls c).Swaps x rs (cls { c with methods := fs }) := by
  have hname : c.name ≠ x := by
    rintro rfl
    exact hc (.inl List.mem_cons_self)
  have hthis : "this" ≠ x := fun e => hc (.inr (.inl e.symm))
  have hsuper (hs : c.superclass.isSome = true) : "super" ≠ x := fun e =>
    hc (.inr (.inr ⟨e.symm, hs⟩))
  exact .andThen (c.check_adds hname hthis hsuper h) (fun _ => trivial) fun _ _ _ => .pure trivial

theorem swaps_refl (d : Decl) (hd : ¬ d.Binds x) : d.Swaps x [] d := by
  have hp : .name x ∉ d.parts := fun h => hd (.inl h)
  cases d with
  | var v => exact swaps_var (v.swaps_refl hp)
  | func f =>
      rw [parts, List.mem_cons, not_or] at hp
      exact swaps_func (fun e => hp.1 (by rw [e])) (f.swaps_refl hp.2)
  | cls c =>
      rw [parts, List.mem_cons, not_or] at hp
      exact swaps_cls hd (.spared hp.2 FuncDecl.swaps_refl)

/-- A mistake in a declaration adds one report. -/
theorem Replaces.swaps {n : Note} {d d' : Decl} (h : Decl.Replaces (.name n x) d d')
    (hd : ¬ d.Binds x) : d.Swaps x [⟨.undefinedSymbol x, n.pos⟩] d' := by
  have hp : .name x ∉ d.parts := fun h => hd (.inl h)
  cases h with
  | var h => exact swaps_var (h.swaps hp)
  | func h =>
      rw [parts, List.mem_cons, not_or] at hp
      exact swaps_func (fun e => hp.1 (by rw [e])) (h.swaps hp.2)
  | method h =>
      rw [parts, List.mem_cons, not_or] at hp
      exact swaps_cls hd (h.each (spared_of_flatMap hp.2) FuncDecl.swaps_refl fun _ _ h => h.swaps)

end Decl

/-- Where checking starts there are the predefined names and no others. -/
theorem Checker.start_lacks (hx : predefined? x = none) : Checker.start.Lacks x := by
  intro i
  have h := Forest.binding?_withFrozenRoot (predefined (Symbol.const ·.ty) Symbol.builtin) i x
  rw [get?_predefined, hx] at h
  refine h.trans ?_
  split <;> rfl

namespace Program

variable {p p' : Program}

/-- What is reported is why a program is refused. -/
theorem check_of_errors {e : Error} {es : List Error}
    (h : ((p.mapM Decl.check).run .start).2.errors.toList = e :: es) :
    p.check = .error (e :: es) := by
  have reported : ((p.mapM Decl.check) Checker.start).2.errors.isEmpty ≠ true := fun empty => by
    have none := Array.isEmpty_iff.mp empty
    cases (congrArg Array.toList none).symm.trans h
  rw [check_eq, if_neg reported]
  exact congrArg Except.error h

/-- **One mistake, one report.**  Take a program that is accepted, and put a name that is bound
nowhere in place of any one of its expressions: then just one error is reported, that this name is
undefined where it stands. -/
theorem check_reports_mistake {checked : Checked} (hp : p.check = .ok checked) (hx : ¬ p.Binds x)
    {n : Note} (h : p.Replaces (.name n x) p') :
    p'.check = .error [⟨.undefinedSymbol x, n.pos⟩] := by
  have each : Each (Decl.Swaps x) p [⟨.undefinedSymbol x, n.pos⟩] p' :=
    OneOf.each h (fun d hd hb => hx (.inr ⟨d, hd, hb⟩)) Decl.swaps_refl fun _ _ h => h.swaps
  have lacks : Checker.start.Lacks x :=
    Checker.start_lacks (Option.isNone_iff_eq_none.mp (by simpa using fun h => hx (.inl h)))
  have clean := (clean_of_check hp).1
  have m := (Adds.mapM (fun _ _ _ h => h) each).adds .start .start (.refl _) lacks clean
  exact check_of_errors m.errors

end Program

/-- `int sum(int[] a) { int s = 0; for (int i = 0; i < len(a); i += 1) s += a[<index>];`
`return s; }` -/
def summing (index : Expr) : Program := [.func ⟨.ofLine 1, .int, "sum", [⟨.array .int, "a"⟩],
  [⟨.ofLine 1, .int, "s", some (.literal .blank (.int 0))⟩],
  [.forLoop (.ofLine 1) (.decl ⟨.ofLine 1, .int, "i", some (.literal .blank (.int 0))⟩)
      (.binary .blank .lt (.name .blank "i") (.call .blank (.name .blank "len") [.name .blank "a"]))
      (.compound .blank .add "i" (.literal .blank (.int 1)))
      (.expr (.ofLine 1) (.compound .blank .add "s" (.index .blank "a" index))),
    .ret (.ofLine 1) (some (.name .blank "s"))]⟩]

theorem summing_replaces (r index : Expr) : Program.Replaces r (summing index) (summing r) := by
  have element : Expr.Replaces r (.index .blank "a" index) (.index .blank "a" r) :=
    .inside (show _ = [] ++ index :: [] from rfl) (.whole index)
  have sum : Expr.Replaces r (.compound .blank .add "s" (.index .blank "a" index))
      (.compound .blank .add "s" (.index .blank "a" r)) :=
    .inside (show _ = [] ++ .index .blank "a" index :: [] from rfl) element
  exact .mk [] [] (.func (.member (.mk [] [_] (.forBody (.expr sum)))))

/-- An index is misspelt, and that is all that is reported. -/
theorem check_reports_mistake_summing :
    (∃ checked, (summing (.name .blank "i")).check = .ok checked) ∧
    ¬ (summing (.name .blank "i")).Binds "j" ∧
    Program.Replaces (.name ⟨.ofLine 1, none⟩ "j") (summing (.name .blank "i"))
      (summing (.name ⟨.ofLine 1, none⟩ "j")) ∧
    (summing (.name ⟨.ofLine 1, none⟩ "j")).check = .error [⟨.undefinedSymbol "j", .ofLine 1⟩] := by
  have accepted : (summing (.name .blank "i")).admits (fun _ => true) = true := by decide +kernel
  obtain ⟨checked, hc, -⟩ := Program.of_admits accepted
  have unbound : ¬ (summing (.name .blank "i")).Binds "j" := by decide +kernel
  have replaced := summing_replaces (.name ⟨.ofLine 1, none⟩ "j") (.name .blank "i")
  exact ⟨⟨checked, hc⟩, unbound, replaced, Program.check_reports_mistake hc unbound replaced⟩

end Brace
