import Brace.Proofs.Heap.Growth
import Brace.Proofs.Run.Contract
import Brace.Proofs.Scope.Growth

/-!
# Run — what an expression does by itself

The evaluation of an expression asks for the values of expressions inside it and for calls, and for
nothing else. In between it works where it was started: it enters and leaves no scope, and the
frames that are there keep the names that they have (`Machine.Quiet`). What it stores goes to names
that are bound already, or to the heap.

* `Expr.local_start`: the evaluation of an expression is local.
-/

namespace Brace

variable {α β : Type}

/-! ### Machines -/

/-- The second machine works where the first does: in the same scope, with as many calls under
way. The frames, arrays and objects of the first are still there. -/
structure Machine.Restored (m m' : Machine) : Prop where
  here      : m'.here = m.here
  callDepth : m'.callDepth = m.callDepth
  scopes    : m.scopes.Grown m'.scopes
  heap      : m.heap.Grown m'.heap

/-- Besides, the frames with numbers below `n` have kept their names, and only those in `A` may have
got other values. -/
structure Machine.Keeps (A : FrameId → String → Prop) (n : FrameId) (m m' : Machine) : Prop
    extends m.Restored m' where
  frames : m.scopes.Keeps A n m'.scopes

/-- All frames of the first machine have kept their names, and only those in `A` may have got other
values. -/
abbrev Machine.Spares (A : FrameId → String → Prop) (m m' : Machine) : Prop :=
  m.Keeps A m.scopes.next m'

/-- Whatever the frame and the name. -/
def anywhere : FrameId → String → Prop := fun _ _ => True

/-- The frames of the first machine have got no names. -/
abbrev Machine.Quiet (m m' : Machine) : Prop := m.Spares anywhere m'

/-- Where names in `A` are found from the current scope. -/
def Machine.reach (m : Machine) (A : String → Prop) : FrameId → String → Prop :=
  fun i x => A x ∧ m.scopes.Finds m.here x i

namespace Machine

/-- What is looked up is found in a frame, and bound to the value there. -/
theorem nearest?_of_lookup {m : Machine} {x : String} {v : Value} (e : m.lookup x = .ok v) :
    ∃ i, m.scopes.nearest? m.here x = some (i, some v) := by
  simp only [Machine.lookup, Forest.lookup] at e
  rcases hn : m.scopes.nearest? m.here x with _ | ⟨i, _ | w⟩ <;> rw [hn] at e <;> cases e
  exact ⟨i, rfl⟩

theorem Restored.refl (m : Machine) : m.Restored m := ⟨rfl, rfl, .refl _, .refl _⟩

theorem Restored.trans {m₁ m₂ m₃ : Machine} (h₁ : m₁.Restored m₂) (h₂ : m₂.Restored m₃) :
    m₁.Restored m₃ :=
  ⟨h₂.here.trans h₁.here, h₂.callDepth.trans h₁.callDepth, h₁.scopes.trans h₂.scopes,
    h₁.heap.trans h₂.heap⟩

/-- To bind a name leaves the run where it is. -/
theorem restored_bind (m : Machine) (i : FrameId) (x : String) (b : Option Value) :
    m.Restored (m.bind i x b) := ⟨rfl, rfl, .bind _ i x b, .refl _⟩

/-- So does a new frame. -/
theorem restored_openFrame (m : Machine) (h : Handle) : m.Restored (m.openFrame h).2 :=
  ⟨rfl, rfl, .push _ h, .refl _⟩

namespace Keeps

variable {A B : FrameId → String → Prop} {n n' : FrameId} {m m' m₁ m₂ m₃ : Machine}

/-- Frames keep the names that they have. -/
theorem names (h : m.Keeps A n m') (i : FrameId) (hi : i < n) (x : String) :
    (m'.scopes.binding? i x).isSome = (m.scopes.binding? i x).isSome := h.frames.names i hi x

theorem refl (A : FrameId → String → Prop) (n : FrameId) (m : Machine) : m.Keeps A n m :=
  ⟨.refl m, .refl A n m.scopes⟩

/-- What keeps bindings and goes on to what keeps them keeps them. -/
theorem trans (hn : n ≤ m₁.scopes.next) (h₁ : m₁.Keeps A n m₂) (h₂ : m₂.Keeps A n m₃) :
    m₁.Keeps A n m₃ :=
  ⟨h₁.toRestored.trans h₂.toRestored, h₁.frames.trans h₁.scopes hn h₂.frames⟩

/-- To keep more bindings of more frames is to keep fewer of fewer. -/
theorem mono (le : n' ≤ n) (hA : ∀ i, i < n' → ∀ x, A i x → B i x) (h : m.Keeps A n m') :
    m.Keeps B n' m' :=
  ⟨h.toRestored, h.frames.mono le hA⟩

/-- The frames that were there before are among those that are there later. -/
theorem after (h₁ : m₁.Spares A m₂) (h₂ : m₂.Spares A m₃) : m₁.Spares A m₃ :=
  h₁.trans (Nat.le_refl _) (h₂.mono h₁.scopes.next fun _ _ _ => id)

/-- What spares bindings keeps names. -/
theorem quiet (h : m.Spares A m') : m.Quiet m' := h.mono (Nat.le_refl _) fun _ _ _ _ => trivial

/-- The frames in scope are the same later on. -/
theorem chain (h : m.Keeps A n m') (inside : ∀ i ∈ m.scopes.chain m.here, i < m.scopes.next) :
    m'.scopes.chain m'.here = m.scopes.chain m.here := by
  rw [h.here, Forest.chain, Forest.chain, h.scopes.outer _ (inside _ (.head _))]

/-- A change of the heap alone. -/
theorem ofHeap {m : Machine} {heap : Heap} (h : m.heap.Grown heap) :
    m.Keeps A n { m with heap } := ⟨⟨rfl, rfl, .refl _, h⟩, .refl A n m.scopes⟩

/-- A change of what has been read or written. -/
theorem io (m : Machine) (input : Input) (output : String) :
    m.Keeps A n { m with input, output } := ⟨⟨rfl, rfl, .refl _, .refl _⟩, .refl A n m.scopes⟩

/-- A frame that is not below gets a name. -/
theorem bind {i : FrameId} (hi : n ≤ i) (m : Machine) (x : String) (b : Option Value) :
    m.Keeps A n (m.bind i x b) := ⟨restored_bind m i x b, .bind hi m.scopes x b⟩

/-- A name is assigned to. -/
theorem assign {A : String → Prop} {x : String} {i : FrameId}
    (hi : m.scopes.assignable m.here x = .ok i) (hx : A x) (v : Value) :
    m.Keeps (m.reach A) n (m.bind i x (some v)) :=
  ⟨restored_bind m i x _, .assign hi ⟨hx, Forest.finds_of_assignable hi⟩ v⟩

/-- A new frame changes nothing in the others. -/
theorem openFrame (hn : n ≤ m.scopes.next) (h : Handle) : m.Keeps A n (m.openFrame h).2 :=
  ⟨restored_openFrame m h, .push hn h⟩

/-- So it is with a method that is bound. -/
theorem bindMethod (hn : n ≤ m.scopes.next) (o : Object) (method : Tier × FuncDecl) :
    m.Keeps A n (m.bindMethod o method).2 :=
  (openFrame hn method.1.scope).trans hn ((Keeps.bind hn _ "this" _).trans
    (Nat.le_trans hn (Nat.le_of_lt (by simp [Machine.openFrame])))
      (ofHeap (.newId _)))

theorem readWord (m : Machine) : m.Keeps A n m.readWord.2 := io m _ _

end Keeps

end Machine

/-! ### Between one asking and the next -/

/-- A relation of machines that carries on, and holds where only names in `A` that are in scope may
have got other values. -/
structure Absorbs (A : String → Prop) (T : Machine → Machine → Prop) : Prop where
  trans : ∀ {m₁ m₂ m₃}, T m₁ m₂ → T m₂ m₃ → T m₁ m₃
  spare : ∀ {m m'}, m.Spares (m.reach A) m' → T m m'

variable {A : String → Prop}

/-- It holds where nothing has been done. -/
theorem Absorbs.refl {T : Machine → Machine → Prop} (hT : Absorbs A T) (m : Machine) : T m m :=
  hT.spare (.refl _ _ m)

/-- That names are kept is such a relation. -/
theorem Absorbs.quiet : Absorbs A Machine.Quiet := ⟨.after, .quiet⟩

/-- The job is one of these expressions, or a call. -/
def Job.IsOf (es : List Expr) : Job → Prop
  | .expr e   => e ∈ es
  | .apply .. => True
  | _         => False

namespace Progress

/-- From `m` on, what the computation does on its own is within `T`, and it asks for nothing but
these expressions and calls, as long as what it asks for is within `T`. -/
def Walks (T : Machine → Machine → Prop) (es : List Expr) : Machine → Progress α → Prop
  | m, .finished _ m'       => T m m'
  | m, .waiting j m₁ resume =>
      T m m₁ ∧ j.IsOf es ∧ ∀ r m₂, T m₁ m₂ → Walks T es m₂ (resume r m₂)
  | _, .endless             => True

namespace Walks

variable {T : Machine → Machine → Prop} {es : List Expr} {m m' : Machine}

/-- What walks from a later machine on walks from an earlier one on. -/
theorem since (hT : Absorbs A T) (h : T m m') {p : Progress α} (hp : p.Walks T es m') :
    p.Walks T es m := by
  cases p with
  | finished r m₁ => exact hT.trans h hp
  | waiting j m₁ resume => exact ⟨hT.trans h hp.1, hp.2⟩
  | endless => trivial

/-- What walks and goes on to what walks does so as a whole. -/
theorem andThen (hT : Absorbs A T) {k : Except Error α → Machine → Progress β}
    (hk : ∀ r m₁, (k r m₁).Walks T es m₁) :
    ∀ {p : Progress α} {m : Machine}, p.Walks T es m → (p.andThen k).Walks T es m := by
  intro p
  induction p with
  | finished r m₁ => exact fun hp => (hk r m₁).since hT hp
  | waiting j m₁ resume ih => exact fun hp => ⟨hp.1, hp.2.1, fun r m₂ h => ih r m₂ (hp.2.2 r m₂ h)⟩
  | endless => exact fun _ => trivial

/-- What walks within `T` meets a contract that lets it ask where `T` has led, and whose answers are
within `T`. -/
theorem meets (hT : Absorbs A T) {C : Contract} (he : C.endless) (hC : ∀ j m', j.IsOf es → T m m' →
      ∃ g, C.pre g j m' ∧ ∀ r m₂, C.post g j m' r m₂ → T m' m₂) :
    ∀ {p : Progress α} {m' : Machine}, p.Walks T es m' → T m m' →
      p.Meets C fun _ m₂ => T m m₂ := by
  intro p
  induction p with
  | finished r m₁ => exact fun hp h => hT.trans h hp
  | waiting j m₁ resume ih =>
      intro m' hp h
      have here := hT.trans h hp.1
      obtain ⟨g, hg, hpost⟩ := hC j m₁ hp.2.1 here
      refine ⟨g, hg, fun r m₂ hr => ?_⟩
      have step := hpost r m₂ hr
      exact ih r m₂ (hp.2.2 r m₂ step) (hT.trans here step)
  | endless => exact fun _ _ => he

end Walks

end Progress

/-- The name, if the expression is one. -/
def Expr.named : Expr → List String
  | .name _ x => [x]
  | _         => []

/-- The names that evaluation of this node assigns to, apart from the expressions that it evaluates
for it. -/
def Expr.assigned : Expr → List String
  | .assign _ x _ | .compound _ _ x _ | .sprintf _ x _ _ => [x]
  | .step _ _ target   => target.named
  | .scanf _ _ targets => targets.flatMap named
  | _                  => []

/-- The computation stays where it was started, assigns to names in `A` alone, and asks for nothing
but these expressions and calls. -/
def Eval.Local (A : String → Prop) (es : List Expr) (x : Eval α) : Prop :=
  ∀ T, Absorbs A T → ∀ m, (x m).Walks T es m

namespace Eval.Local

variable {es : List Expr}

/-! ### Single steps -/

/-- A computation that ends at once or never. -/
theorem of_ends {x : Eval α}
    (h : ∀ m, x m = .endless ∨ ∃ r m', x m = .finished r m' ∧ m.Spares (m.reach A) m') :
    x.Local A es := by
  intro T hT m
  obtain e | ⟨r, m', e, hm⟩ := h m <;> rw [e]
  · trivial
  · exact hT.spare hm

/-- What ends at once spares all but what it may assign to. -/
theorem of_finished {x : Eval α} (h : ∀ m, ∃ r m', x m = .finished r m' ∧ m.Spares (m.reach A) m') :
    x.Local A es := of_ends fun m => .inr (h m)

theorem pure (a : α) : Local A es (pure a) := of_finished fun m => ⟨_, m, rfl, .refl _ _ m⟩

theorem fail (c : Cause) (p : Position) : Local A es (fail c p : Eval α) :=
  of_finished fun m => ⟨_, m, rfl, .refl _ _ m⟩

theorem ofExcept (p : Position) : ∀ r : Except Cause α, Local A es (ofExcept p r)
  | .ok a    => pure a
  | .error c => fail c p

theorem endless : Local A es (endless : Eval α) := of_ends fun _ => .inl rfl

theorem view (f : Machine → α) : Local A es (view f) := of_finished fun m => ⟨_, m, rfl, .refl _ _ m⟩

/-- What is consulted changes nothing. -/
theorem consult (p : Position) (f : Machine → Except Cause α) : Local A es (consult p f) :=
  of_finished fun m => by
    simp only [Eval.consult]
    split <;> exact ⟨_, m, rfl, .refl _ _ m⟩

theorem textOf (v : Value) : Local A es (textOf v) := of_ends fun m => by
  simp only [Eval.textOf]
  split
  · exact .inr ⟨_, m, rfl, .refl _ _ m⟩
  · exact .inl rfl

theorem change {f : Machine → Machine} (h : ∀ m : Machine, m.Spares (m.reach A) (f m)) :
    Local A es (change f) := of_finished fun m => ⟨_, f m, rfl, h m⟩

theorem make {f : Machine → α × Machine} (h : ∀ m : Machine, m.Spares (m.reach A) (f m).2) :
    Local A es (make f) := of_finished fun m => ⟨_, (f m).2, rfl, h m⟩

/-- A change that may be refused spares what it spares where it is not. -/
theorem update {p : Position} {check : Machine → Except Cause β} {write : β → Machine → Machine}
    (h : ∀ b m, check m = .ok b → m.Spares (m.reach A) (write b m)) :
    Local A es (update p check write) :=
  of_finished fun m => by
    simp only [Eval.update]
    split
    · exact ⟨_, m, rfl, .refl _ _ m⟩
    · exact ⟨_, _, rfl, h _ m ‹_›⟩

/-! ### One thing after another -/

/-- What is asked for is among what may be asked for. -/
theorem ask {j : Job} (h : j.IsOf es) : Local A es (ask j) :=
  fun _ hT m => ⟨hT.refl m, h, fun _ m₂ _ => hT.refl m₂⟩

theorem eval {e : Expr} (h : e ∈ es) : e.eval.Local A es := ask h

/-- One thing after another does what the two may do. -/
theorem bind {x : Eval α} {f : α → Eval β} (hx : x.Local A es) (hf : ∀ a, (f a).Local A es) :
    (x >>= f).Local A es := fun T hT m =>
  Progress.Walks.andThen hT (fun r m₁ => by
    cases r with
    | ok a => exact hf a T hT m₁
    | error e => exact hT.refl m₁) (hx T hT m)

theorem forM {γ : Type} {f : γ → Eval Unit} : ∀ {cs : List γ}, (∀ c ∈ cs, (f c).Local A es) →
    (cs.forM f).Local A es
  | [], _      => pure _
  | c :: cs, h => by
      obtain ⟨hc, hcs⟩ := List.forall_mem_cons.mp h
      exact bind hc fun _ => forM hcs

theorem evalAll : ∀ {as : List Expr}, (∀ e ∈ as, e ∈ es) → (as.mapM Expr.eval).Local A es
  | [], _      => by rw [List.mapM_nil]; exact pure _
  | e :: as, h => by
      obtain ⟨he, has⟩ := List.forall_mem_cons.mp h
      rw [List.mapM_cons]
      exact bind (eval he) fun _ => bind (evalAll has) fun _ => pure _

/-! ### The pieces of expressions -/

/-- To look a name up changes nothing. -/
theorem lookup (x : String) (p : Position) : (lookup x p).Local A es := consult p _

/-- To assign to a name changes what it may change. -/
theorem assign {x : String} (hx : A x) (v : Value) (p : Position) : (assign x v p).Local A es :=
  update fun _ _ h => .assign h hx v

theorem expectInt (v : Value) (p : Position) : (expectInt v p).Local A es := by
  cases v <;> first | exact pure _ | exact fail _ _

theorem expectString (v : Value) (p : Position) : (expectString v p).Local A es := by
  cases v <;> first | exact pure _ | exact fail _ _

theorem expectObject (v : Value) (p : Position) : (expectObject v p).Local A es := by
  cases v <;> first | exact pure _ | exact bind (textOf _) fun _ => fail _ _

theorem lookupArray (x : String) (p : Position) : (lookupArray x p).Local A es :=
  bind (lookup x p) fun v => by
    cases v <;> first | exact pure _ | exact fail _ _

/-- A new array changes no frame. -/
theorem newArray (t : Ty) (n : Int64) (p : Position) : (newArray t n p).Local A es :=
  of_finished fun m => by
    simp only [Eval.newArray]
    split
    · exact ⟨_, m, rfl, .refl _ _ m⟩
    · split
      · exact ⟨_, m, rfl, .refl _ _ m⟩
      · exact ⟨_, _, rfl, .ofHeap (.newArray ‹_›)⟩

theorem setElement (id : ArrayId) (i : Int64) (v : Value) (p : Position) :
    (setElement id i v p).Local A es := update fun _ _ _ => .ofHeap (.write ..)

theorem setField (o : Object) (x : String) (v : Value) : (setField o x v).Local A es :=
  change fun _ => .ofHeap (.setField ..)

theorem bindMethod (o : Object) (method : Tier × FuncDecl) :
    (Eval.make (·.bindMethod o method)).Local A es :=
  make fun _ => .bindMethod (Nat.le_refl _) o method

/-- To get a property changes no binding that was there. -/
theorem property (o : Object) (x : String) (p : Position) : (property o x p).Local A es :=
  bind (view _) fun v => by
    cases v with
    | some v => exact pure v
    | none =>
        cases o.cls.method? x with
        | some method => exact bind (bindMethod o method) fun _ => pure _
        | none => exact fail _ p

/-- A place that is a variable is named by its target. -/
theorem atPlace {target : Expr} (h : ∀ c ∈ target.children, c ∈ es) {f : Place → Eval α}
    (hf : ∀ here, (∀ x, here = .var x → x ∈ target.named) → (f here).Local A es) :
    (place target >>= f).Local A es := by
  have only {c : Expr} (hc : target.children = [c]) : c ∈ es := h c (hc ▸ .head _)
  cases target with
  | name n x =>
      refine hf (.var x) ?_
      rintro _ ⟨⟩
      exact .head _
  | index n x i =>
      simp only [Eval.place, bind_assoc, pure_bind]
      exact bind (lookupArray _ _) fun _ => bind (eval (only rfl)) fun _ =>
        bind (expectInt _ _) fun _ => hf (.element _ _) nofun
  | get n o x =>
      simp only [Eval.place, bind_assoc, pure_bind]
      exact bind (eval (only rfl)) fun _ => bind (expectObject _ _) fun _ => hf (.field _ _) nofun
  | _ => exact fail _ _

/-- To read a place changes no binding that was there. -/
theorem read (p : Position) (here : Place) : (here.read p).Local A es := by
  cases here with
  | var x => exact lookup x p
  | element id i => exact consult p _
  | field o x => exact property o x p

/-- To write a place changes a binding if it is that of a variable, which may be assigned to then. -/
theorem write (v : Value) (p : Position) {here : Place} (hx : ∀ x, here = .var x → A x) :
    (here.write v p).Local A es := by
  cases here with
  | var x => exact assign (hx x rfl) v p
  | element id i => exact setElement id i v p
  | field o x => exact setField o x v

/-- A step assigns to a variable that the target names. -/
theorem step (form : StepForm) {target : Expr} (h : ∀ c ∈ target.children, c ∈ es)
    (hA : ∀ x ∈ target.named, A x) : (step form target).Local A es :=
  atPlace h fun here hx => bind (read _ here) fun _ => bind (ofExcept _ _) fun _ =>
    bind (write _ _ fun x e => hA x (hx x e)) fun _ => pure _

theorem formatted {format : Expr} {args : List Expr} (h : ∀ e ∈ format :: args, e ∈ es) :
    (formatted format args).Local A es := by
  obtain ⟨hf, ha⟩ := List.forall_mem_cons.mp h
  exact bind (eval hf) fun _ => bind (expectString _ _) fun _ => bind (evalAll ha) fun _ =>
    bind (view _) fun
      | some _ => ofExcept _ _
      | none   => endless

/-- What is read from the input is assigned to a variable that the target names. -/
theorem scanInto (p : Position) (s : Specifier) {target : Expr}
    (h : ∀ c ∈ target.children, c ∈ es) (hA : ∀ x ∈ target.named, A x) :
    (scanInto p s target).Local A es :=
  bind (make fun m => .readWord m) fun word => by
    cases word with
    | none => exact fail _ p
    | some word =>
        dsimp only
        cases s.read word with
        | some v => exact atPlace h fun here hx => write v _ fun x e => hA x (hx x e)
        | none => exact fail _ p

theorem scan (p : Position) (template : String) {targets : List Expr}
    (h : ∀ t ∈ targets, ∀ c ∈ t.children, c ∈ es) (hA : ∀ t ∈ targets, ∀ x ∈ t.named, A x) :
    (scan p template targets).Local A es := by
  simp only [Eval.scan]
  split
  · refine forM (f := fun x : Specifier × Expr => Eval.scanInto p x.1 x.2) fun x hx => ?_
    have inside := (List.of_mem_zip hx).2
    exact scanInto p x.1 (h x.2 inside) (hA x.2 inside)
  · exact fail _ _

theorem superMethod (x : String) (p : Position) : (superMethod x p).Local A es :=
  bind (lookup "super" p) fun v => by
    cases v with
    | cls c =>
        refine bind (lookup "this" p) fun v => bind (expectObject v p) fun o => ?_
        cases c.method? x with
        | some method => exact bind (bindMethod o method) fun _ => pure _
        | none => exact fail _ p
    | _ => exact fail _ _

end Eval.Local

/-! ### Expressions -/

/-- An expression is inside itself. -/
theorem Expr.self_mem_subexprs (e : Expr) : e ∈ e.subexprs := by
  rw [subexprs_eq]
  exact .head _

/-- A child is inside. -/
theorem Expr.mem_subexprs_of_child {e c : Expr} (h : c ∈ e.children) : c ∈ e.subexprs := by
  rw [subexprs_eq]
  exact .tail _ (List.mem_flatMap.mpr ⟨c, h, self_mem_subexprs c⟩)

/-- What is inside something directly inside an expression is inside the expression. -/
theorem Expr.mem_subexprs_of_inner {e c s : Expr} (h : c ∈ e.children) (hs : s ∈ c.subexprs) :
    s ∈ e.subexprs := by
  rw [subexprs_eq e]
  exact .tail _ (List.mem_flatMap.mpr ⟨c, h, hs⟩)

/-- Less is inside a child. -/
theorem Expr.length_subexprs_child {e c : Expr} (h : c ∈ e.children) :
    c.subexprs.length < e.subexprs.length := by
  rw [subexprs_eq e, List.length_cons, List.flatMap_def]
  exact Nat.lt_succ_of_le (List.sublist_flatten_of_mem (List.mem_map_of_mem h)).length_le

/-- What is inside something inside an expression is inside the expression. -/
theorem Expr.mem_subexprs_trans {a b e : Expr} (hb : b ∈ e.subexprs) (ha : a ∈ b.subexprs) :
    a ∈ e.subexprs := by
  rw [subexprs_eq e] at hb
  rcases List.mem_cons.mp hb with rfl | hb
  · exact ha
  · obtain ⟨c, hc, hb⟩ := List.mem_flatMap.mp hb
    exact mem_subexprs_of_inner hc (mem_subexprs_trans hb ha)
termination_by e.subexprs.length
decreasing_by exact length_subexprs_child hc

/-- The evaluation of an expression stays where it was started, assigns only to names that it tells,
and asks for nothing but expressions inside it and calls. -/
theorem Expr.local_start (e : Expr) : e.start.Local (· ∈ e.assigned) e.subexprs := by
  have inner : ∀ c ∈ e.children, c ∈ e.subexprs := fun c => mem_subexprs_of_child
  have only {c : Expr} (hc : e.children = [c]) : c ∈ e.subexprs := inner c (hc ▸ .head _)
  have both {a b : Expr} (hc : e.children = [a, b]) : a ∈ e.subexprs ∧ b ∈ e.subexprs :=
    ⟨inner a (hc ▸ .head _), inner b (hc ▸ .tail _ (.head _))⟩
  -- The targets of a step or of `scanf` are not evaluated themselves, but what is inside them is.
  have inTarget {t : Expr} (ht : t ∈ e.children) : ∀ c ∈ t.children, c ∈ e.subexprs :=
    fun c hc => mem_subexprs_of_inner ht (mem_subexprs_of_child hc)
  cases e with
  | literal n l => exact .pure _
  | name n x => exact .lookup x n.pos
  | group n a => exact .eval (only rfl)
  | arrayNew n t a =>
      exact .bind (.eval (only rfl)) fun _ => .bind (.expectInt _ _) fun _ => .newArray t _ n.pos
  | index n x i =>
      exact .bind (.lookupArray _ _) fun _ => .bind (.eval (only rfl)) fun _ =>
        .bind (.expectInt _ _) fun _ => .consult _ _
  | indexAssign n x i a =>
      exact .bind (.lookupArray _ _) fun _ => .bind (.eval (both rfl).1) fun _ =>
        .bind (.expectInt _ _) fun _ => .bind (.eval (both rfl).2) fun _ =>
          .bind (.setElement _ _ _ _) fun _ => .pure _
  | assign n x a =>
      exact .bind (.eval (only rfl)) fun _ => .bind (.assign (.head _) _ _) fun _ => .pure _
  | compound n op x a =>
      exact .bind (.lookup _ _) fun _ => .bind (.eval (only rfl)) fun _ =>
        .bind (.ofExcept _ _) fun _ => .bind (.assign (.head _) _ _) fun _ => .pure _
  | binary n op a b =>
      exact .bind (.eval (both rfl).1) fun _ => .bind (.eval (both rfl).2) fun _ => .ofExcept _ _
  | logical n op a b =>
      refine .bind (.eval (both rfl).1) fun v => ?_
      show Eval.Local _ _ (if Eval.settles op v then Pure.pure v else b.eval)
      split
      · exact .pure _
      · exact .eval (both rfl).2
  | unary n op a => exact .bind (.eval (only rfl)) fun _ => .ofExcept _ _
  | step n form target => exact .step form (inTarget (.head _)) fun _ hx => hx
  | cast n target a => exact .bind (.eval (only rfl)) fun _ => .ofExcept _ _
  | intToFloat n a => exact .bind (.eval (only rfl)) fun v => by cases v <;> exact .pure _
  | get n o x =>
      exact .bind (.eval (only rfl)) fun _ => .bind (.expectObject _ _) fun o => .property o x _
  | set n o x a =>
      exact .bind (.eval (both rfl).1) fun _ => .bind (.expectObject _ _) fun _ =>
        .bind (.eval (both rfl).2) fun _ => .bind (.setField _ _ _) fun _ => .pure _
  | receiver n => exact .lookup "this" n.pos
  | superMethod n x => exact .superMethod x n.pos
  | call n callee args =>
      exact .bind (.eval (inner _ (.head _))) fun _ =>
        .bind (.evalAll fun e he => inner e (.tail _ he)) fun _ => .ask trivial
  | printf n format args =>
      exact .bind (.formatted inner) fun _ => .bind (.change fun m => .io m _ _) fun _ => .pure _
  | sprintf n x format args =>
      exact .bind (.formatted inner) fun _ => .bind (.assign (.head _) _ _) fun _ => .pure _
  | scanf n format targets =>
      exact .bind (.eval (inner _ (.head _))) fun _ => .bind (.expectString _ _) fun _ =>
        .bind (.scan n.pos _ (fun t ht => inTarget (.tail _ ht))
          fun t ht x hx => List.mem_flatMap.mpr ⟨t, ht, hx⟩) fun _ => .pure _

end Brace
