import Brace.Proofs.Loops.Machines

/-!
# Loops — pieces of evaluation side by side

Two computations go abreast from two machines where they ask for alike jobs in machines alike, and, when
these are answered alike, end alike (`Eval.Abreast`). Whatever else is known of the answers to the jobs may
be used. The pieces that evaluation is put together from go abreast with themselves from machines alike.
-/

namespace Brace

variable {α β γ δ : Type} {w w₁ : Matching} {m m' m₁ m₁' : Machine}

/-! ### Jobs and computations -/

/-- The same code is to be run, or what is called and what is passed is alike. -/
inductive Job.Alike (w : Matching) : Job → Job → Prop where
  | expr (e : Expr) : Alike w (.expr e) (.expr e)
  | stmt (s : Stmt) : Alike w (.stmt s) (.stmt s)
  | loop (cond : Expr) (update : Option Expr) (body : Stmt) :
      Alike w (.loop cond update body) (.loop cond update body)
  | apply {f f' : Value} {args args' : List Value} (hf : f.Alike w f')
      (ha : List.Forall₂ (Value.Alike w) args args') (p : Position) :
      Alike w (.apply f args p) (.apply f' args' p)

/-- What two jobs of one kind give is alike. -/
def Job.Agrees (w : Matching) : (j j' : Job) → j.Answer → j'.Answer → Prop
  | .expr _, .expr _     => Value.Alike w
  | .stmt _, .stmt _     => Flow.Alike w
  | .loop .., .loop ..   => Flow.Alike w
  | .apply .., .apply .. => Value.Alike w
  | _, _                 => fun _ _ => False

namespace Progress

/-- The computations ask for alike jobs in machines alike, and end in `Q`. -/
inductive Abreast (Q : Except Error α → Machine → Except Error β → Machine → Prop) :
    Progress α → Progress β → Prop where
  | finished {r : Except Error α} {m : Machine} {r' : Except Error β} {m' : Machine} (h : Q r m r' m') :
      Abreast Q (.finished r m) (.finished r' m')
  | waiting {w : Matching} {j j' : Job} {m m' : Machine}
      {resume : Except Error j.Answer → Machine → Progress α}
      {resume' : Except Error j'.Answer → Machine → Progress β} (hm : m.Alike w m') (hj : j.Alike w j')
      (h : ∀ w₁ r m₁ r' m₁', Alongside w m m' w₁ m₁ m₁' → Agree (j.Agrees w₁ j') r r' →
        j.Answers m r m₁ → j'.Answers m' r' m₁' → Abreast Q (resume r m₁) (resume' r' m₁')) :
      Abreast Q (.waiting j m resume) (.waiting j' m' resume')
  | endless : Abreast Q .endless .endless

namespace Abreast

variable {p : Progress α} {q : Progress β}

/-- What goes on after computations that go abreast goes abreast. -/
theorem andThen {P : Except Error α → Machine → Except Error β → Machine → Prop}
    {Q : Except Error γ → Machine → Except Error δ → Machine → Prop}
    {k : Except Error α → Machine → Progress γ} {l : Except Error β → Machine → Progress δ}
    (h : p.Abreast P q) (hk : ∀ r m r' m', P r m r' m' → (k r m).Abreast Q (l r' m')) :
    (p.andThen k).Abreast Q (q.andThen l) := by
  induction h with
  | finished h => exact hk _ _ _ _ h
  | waiting hm hj _ ih => exact .waiting hm hj ih
  | endless => exact .endless

theorem mono {P Q : Except Error α → Machine → Except Error β → Machine → Prop}
    (le : ∀ r m r' m', P r m r' m' → Q r m r' m') (h : p.Abreast P q) : p.Abreast Q q := by
  induction h with
  | finished h => exact .finished (le _ _ _ _ h)
  | waiting hm hj _ ih => exact .waiting hm hj ih
  | endless => exact .endless

end Abreast

end Progress

/-- Two computations that have got further have ended in machines alike, and what they give is related. -/
inductive Ended (w : Matching) (m m' : Machine) (R : Matching → α → β → Prop) (r : Except Error α)
    (m₁ : Machine) (r' : Except Error β) (m₁' : Machine) : Prop where
  | intro {w₁ : Matching} (s : Alongside w m m' w₁ m₁ m₁') (h : Agree (R w₁) r r')

/-- What has ended since then has ended since before. -/
theorem Ended.since {R : Matching → α → β → Prop} {r : Except Error α} {r' : Except Error β}
    {m₂ m₂' : Machine} (s : Alongside w m m' w₁ m₁ m₁') (h : Ended w₁ m₁ m₁' R r m₂ r' m₂') :
    Ended w m m' R r m₂ r' m₂' := by
  obtain ⟨s', hr⟩ := h
  exact ⟨s.trans s', hr⟩

/-- The computations go abreast from two machines. -/
def Eval.Abreast (w : Matching) (m m' : Machine) (R : Matching → α → β → Prop) (x : Eval α) (y : Eval β) :
    Prop := (x m).Abreast (Ended w m m' R) (y m')

/-- What is given has nothing to do with frames. -/
abbrev Same : Matching → α → α → Prop := fun _ => Eq

namespace Eval.Abreast

open Machine

variable {R : Matching → α → β → Prop} {Q : Matching → γ → δ → Prop}

/-! ### Single steps -/

theorem ended {x : Eval α} {y : Eval β} {r : Except Error α} {r' : Except Error β}
    (s : Alongside w m m' w₁ m₁ m₁') (hr : Agree (R w₁) r r') (hx : x m = .finished r m₁)
    (hy : y m' = .finished r' m₁') : Abreast w m m' R x y := by
  rw [Abreast, hx, hy]
  exact .finished ⟨s, hr⟩

/-- What is made of machines alike is alike. -/
theorem make {f : Machine → α × Machine} {g : Machine → β × Machine}
    (s : Alongside w m m' w₁ (f m).2 (g m').2) (hr : R w₁ (f m).1 (g m').1) :
    Abreast w m m' R (Eval.make f) (Eval.make g) := ended s (.ok hr) rfl rfl

/-- What is done to machines alike leaves them alike. -/
theorem change {f g : Machine → Machine} (s : Alongside w m m' w₁ (f m) (g m')) :
    Abreast w m m' Same (Eval.change f) (Eval.change g) := ended s (.ok rfl) rfl rfl

theorem endless : Abreast w m m' R Eval.endless Eval.endless :=
  Progress.Abreast.endless

section Step

variable (h : m.Alike w m')

include h

theorem pure {a : α} {b : β} (hab : R w a b) : Abreast w m m' R (Pure.pure a) (Pure.pure b) :=
  ended (.refl h) (.ok hab) rfl rfl

theorem fail (c : Cause) (p : Position) : Abreast w m m' R (Eval.fail c p) (Eval.fail c p) :=
  ended (.refl h) (.error _) rfl rfl

/-- An operation that has the same outcome, or fails alike. -/
theorem ofExcept (p : Position) {r : Except Cause α} {r' : Except Cause β} (hr : Agree (R w) r r') :
    Abreast w m m' R (Eval.ofExcept p r) (Eval.ofExcept p r') := by
  cases hr with
  | ok hab => exact pure h hab
  | error c => exact fail h c p

theorem view {f : Machine → α} {g : Machine → β} (hr : R w (f m) (g m')) :
    Abreast w m m' R (Eval.view f) (Eval.view g) := ended (.refl h) (.ok hr) rfl rfl

/-- What is read off machines alike, or refused alike. -/
theorem consult (p : Position) {f : Machine → Except Cause α} {g : Machine → Except Cause β}
    (hr : Agree (R w) (f m) (g m')) : Abreast w m m' R (Eval.consult p f) (Eval.consult p g) := by
  rw [Abreast, Eval.consult, Eval.consult]
  generalize f m = r, g m' = r' at hr
  cases hr with
  | ok hab => exact .finished ⟨.refl h, .ok hab⟩
  | error c => exact .finished ⟨.refl h, .error _⟩

/-- What the checks allow is written. -/
theorem update (p : Position) {check : Machine → Except Cause γ} {check' : Machine → Except Cause δ}
    {write : γ → Machine → Machine} {write' : δ → Machine → Machine} {S : γ → δ → Prop}
    (hr : Agree S (check m) (check' m'))
    (hw : ∀ c c', S c c' → Alongside w m m' w (write c m) (write' c' m')) :
    Abreast w m m' Same (Eval.update p check write) (Eval.update p check' write') := by
  rw [Abreast, Eval.update, Eval.update]
  generalize check m = r, check' m' = r' at hr
  cases hr with
  | ok hcc => exact .finished ⟨hw _ _ hcc, .ok rfl⟩
  | error c => exact .finished ⟨.refl h, .error _⟩

/-- Alike jobs are asked for. -/
theorem ask {j j' : Job} (hj : j.Alike w j') :
    Abreast w m m' (fun w => j.Agrees w j') (Eval.ask j) (Eval.ask j') :=
  .waiting h hj fun _ _ _ _ _ s hr _ _ => .finished ⟨s, hr⟩

theorem textOf {v v' : Value} (hv : v.Alike w v') :
    Abreast w m m' Same (Eval.textOf v) (Eval.textOf v') := by
  rw [Abreast, Eval.textOf, Eval.textOf, h.heap.text? hv]
  cases m'.heap.text? v' with
  | some s => exact .finished ⟨.refl h, .ok rfl⟩
  | none => exact .endless

end Step

/-! ### One thing after another -/

/-- One after another: what goes on may use that the first results are alike. -/
theorem bind {x : Eval α} {y : Eval β} {f : α → Eval γ} {g : β → Eval δ} (hx : Abreast w m m' R x y)
    (hf : ∀ {w₁ m₁ m₁' a b}, Alongside w m m' w₁ m₁ m₁' → R w₁ a b → Abreast w₁ m₁ m₁' Q (f a) (g b)) :
    Abreast w m m' Q (x >>= f) (y >>= g) := by
  refine Progress.Abreast.andThen hx ?_
  rintro r m₁ r' m₁' ⟨s, hr⟩
  cases hr with
  | ok hab => exact (hf s hab).mono fun _ _ _ _ => .since s
  | error e => exact .finished ⟨s, .error e⟩

theorem forM {S : Matching → γ → δ → Prop}
    (mono : ∀ {w w₁ c d}, w.Later w₁ → S w c d → S w₁ c d) {f : γ → Eval Unit} {g : δ → Eval Unit}
    {cs : List γ} {ds : List δ} (h : m.Alike w m') (hcs : List.Forall₂ (S w) cs ds)
    (hf : ∀ {w₁ m₁ m₁' c d}, Alongside w m m' w₁ m₁ m₁' → S w₁ c d →
      Abreast w₁ m₁ m₁' Same (f c) (g d)) : Abreast w m m' Same (cs.forM f) (ds.forM g) := by
  induction cs generalizing w m m' ds with
  | nil =>
      cases hcs
      exact pure h rfl
  | cons c cs ih =>
      cases hcs with
      | cons hcd hcs =>
          refine bind (hf (.refl h) hcd) fun s _ => ?_
          exact ih s.alike (hcs.imp fun _ _ => mono s.later) fun s' => hf (s.trans s')

/-! ### What is put back on the way out -/

/-- Both leave their blocks, so the frames that they entered are no matter any more. -/
theorem inBlock (p p' : Position) (h : m.Alike w m') {x : Eval α} {y : Eval β}
    (hx : ∀ {w₁}, w.Later w₁ → m.pushScope.Alike w₁ m'.pushScope →
      w₁.pairs m.pushScope.here.frame m'.pushScope.here.frame →
      Abreast w₁ m.pushScope m'.pushScope R x y) :
    Abreast w m m' R (Eval.inBlock p x) (Eval.inBlock p' y) := by
  obtain ⟨w₁, le, alike, here⟩ := h.pushScope
  refine Progress.Abreast.andThen (hx le alike here) ?_
  rintro r m₁ r' m₁' ⟨s, hr⟩
  simp only [popScope_of_restored s.left, popScope_of_restored s.right]
  exact .finished ⟨h.leave le s, hr⟩

/-- Only the second works in a frame of its own. -/
theorem besides (p : Position) (h : m.Alike w m') {x : Eval α} {y : Eval β}
    (hx : ∀ {w₁}, w.Later w₁ → m.Alike w₁ m'.pushScope → Abreast w₁ m m'.pushScope R x y) :
    Abreast w m m' R x (Eval.inBlock p y) := by
  obtain ⟨w₁, le, alike⟩ := h.besides
  rw [Abreast, ← Progress.andThen_finished (x m)]
  refine Progress.Abreast.andThen (hx le alike) ?_
  rintro r m₁ r' m₁' ⟨s, hr⟩
  simp only [popScope_of_restored s.right]
  exact .finished ⟨h.rejoin le s, hr⟩

/-- The work itself is done elsewhere. -/
theorem inScope {k k' : Handle} (h : m.Alike w m') {x : Eval α}
    {y : Eval β} (hx : Abreast w { m with here := k } { m' with here := k' } R x y) :
    Abreast w m m' R (Eval.inScope k x) (Eval.inScope k' y) := by
  refine Progress.Abreast.andThen hx ?_
  rintro r m₁ r' m₁' ⟨s, hr⟩
  refine .finished ⟨⟨s.later, h.back s.later s.alike s.left.scopes s.right.scopes, ?_, ?_⟩, hr⟩
  · exact ⟨rfl, s.left.callDepth, s.left.scopes, s.left.heap⟩
  · exact ⟨rfl, s.right.callDepth, s.right.scopes, s.right.heap⟩

/-- Both count the call, and both may find that calls nest too deep. -/
theorem counted (p : Position) (h : m.Alike w m') {x : Eval α} {y : Eval β}
    (hx : ∀ n, Abreast w { m with callDepth := n } { m' with callDepth := n } R x y) :
    Abreast w m m' R (Eval.counted p x) (Eval.counted p y) := by
  have room : (m.callDepth < m.settings.maxCallDepth) =
      (m'.callDepth < m'.settings.maxCallDepth) := by rw [h.callDepth, h.settings]
  rw [Abreast, Eval.counted, Eval.counted]
  by_cases within : m.callDepth < m.settings.maxCallDepth
  · rw [if_pos within, if_pos (room ▸ within), ← h.callDepth]
    refine Progress.Abreast.andThen (hx (m.callDepth + 1)) ?_
    rintro r m₁ r' m₁' ⟨s, hr⟩
    have left : m₁.callDepth - 1 = m.callDepth := by rw [s.left.callDepth]; rfl
    have right : m₁'.callDepth - 1 = m.callDepth := by rw [s.right.callDepth]; rfl
    rw [left, right]
    refine .finished ⟨⟨s.later, s.alike.counting _, ?_, ?_⟩, hr⟩
    · exact ⟨s.left.here, rfl, s.left.scopes, s.left.heap⟩
    · exact ⟨s.right.here, h.callDepth, s.right.scopes, s.right.heap⟩
  · rw [if_neg within, if_neg (room ▸ within), ← h.settings]
    exact .finished ⟨.refl h, .error _⟩

theorem orAt (p : Position) {x : Eval α} {y : Eval β} (hx : Abreast w m m' R x y) :
    Abreast w m m' R (Eval.orAt p x) (Eval.orAt p y) := by
  refine Progress.Abreast.andThen hx ?_
  rintro r m₁ r' m₁' ⟨s, hr⟩
  cases hr with
  | ok hab => exact .finished ⟨s, .ok hab⟩
  | error e => exact .finished ⟨s, .error _⟩

/-! ### The pieces of expressions -/

section Piece

variable (h : m.Alike w m') {v v' : Value} (p : Position)

include h

/-- A name is looked up alike. -/
theorem lookup (x : String) : Abreast w m m' Value.Alike (Eval.lookup x p) (Eval.lookup x p) :=
  consult h p (h.lookup x)

/-- A name is assigned to in frames that go together. -/
theorem assign (hv : v.Alike w v') (x : String) :
    Abreast w m m' Same (Eval.assign x v p) (Eval.assign x v' p) :=
  update h p (h.scopes.assignable h.chain x) fun _ _ hp => h.bind hp x (.some hv)

/-- A name is defined in the frames of two handles that go together. -/
theorem defineAt (hv : v.Alike w v') {k k' : Handle} (hk : w.pairs k.frame k'.frame) (x : String) :
    Abreast w m m' Same (Eval.defineAt k x v p) (Eval.defineAt k' x v' p) :=
  update h p (h.scopes.definable hk x) fun _ _ hp => h.bind hp x (.some hv)

/-- A name is defined in frames that go together. -/
theorem define (hv : v.Alike w v') (here : w.pairs m.here.frame m'.here.frame) (x : String) :
    Abreast w m m' Same (Eval.define x v p) (Eval.define x v' p) :=
  update h p (h.scopes.definable here x) fun _ _ hp => h.bind hp x (.some hv)

theorem declare (here : w.pairs m.here.frame m'.here.frame) (x : String) :
    Abreast w m m' Same (Eval.declare x p) (Eval.declare x p) :=
  update h p (h.scopes.declarable here x) fun _ _ hp => h.bind hp x .none

theorem expectInt (hv : v.Alike w v') :
    Abreast w m m' Same (Eval.expectInt v p) (Eval.expectInt v' p) := by
  have refused : Abreast w m m' Same
      (Eval.fail (.internalError ("expected an int, found " ++ v.typeName)) p : Eval Int64)
      (Eval.fail (.internalError ("expected an int, found " ++ v'.typeName)) p) := by
    rw [hv.typeName]
    exact fail h _ p
  cases hv with
  | int n => exact pure h rfl
  | _ => exact refused

theorem expectString (hv : v.Alike w v') :
    Abreast w m m' Same (Eval.expectString v p) (Eval.expectString v' p) := by
  have refused : Abreast w m m' Same
      (Eval.fail (.internalError ("expected a string, found " ++ v.typeName)) p : Eval String)
      (Eval.fail (.internalError ("expected a string, found " ++ v'.typeName)) p) := by
    rw [hv.typeName]
    exact fail h _ p
  cases hv with
  | str s => exact pure h rfl
  | _ => exact refused

theorem expectObject (hv : v.Alike w v') :
    Abreast w m m' Object.Alike (Eval.expectObject v p) (Eval.expectObject v' p) := by
  have refused : Abreast w m m' Object.Alike
      (do let text ← Eval.textOf v
          Eval.fail (.notAnInstance text) p : Eval Object)
      (do let text ← Eval.textOf v'
          Eval.fail (.notAnInstance text) p) :=
    (textOf h hv).bind fun s e => e ▸ fail s.alike _ p
  cases hv with
  | object ho => exact pure h ho
  | _ => exact refused

/-- The array under a name is the same one, as arrays keep their identities. -/
theorem lookupArray (x : String) :
    Abreast w m m' Same (Eval.lookupArray x p) (Eval.lookupArray x p) := by
  refine (lookup h p x).bind fun {w₁ m₁ m₁' v v'} s hv => ?_
  have refused : Abreast w₁ m₁ m₁' Same
      (Eval.fail (.internalError (Text.quote x ++ " holds a " ++ v.typeName ++ ", not an array")) p :
        Eval ArrayId)
      (Eval.fail (.internalError (Text.quote x ++ " holds a " ++ v'.typeName ++ ", not an array")) p) := by
    rw [hv.typeName]
    exact fail s.alike _ p
  cases hv with
  | array id => exact pure s.alike rfl
  | _ => exact refused

/-- Both make the same new array. -/
theorem newArray (t : Ty) (size : Int64) :
    Abreast w m m' Value.Alike (Eval.newArray t size p) (Eval.newArray t size p) := by
  have made := h.heap.newArray t size.toInt.toNat
  rw [Abreast, Eval.newArray, Eval.newArray]
  split
  · exact .finished ⟨.refl h, .error _⟩
  · cases e : m.heap.newArray t size.toInt.toNat with
    | error c =>
        rw [e] at made
        generalize m'.heap.newArray t size.toInt.toNat = r' at made
        cases made
        exact .finished ⟨.refl h, .error _⟩
    | ok r =>
        cases e' : m'.heap.newArray t size.toInt.toNat with
        | error c => rw [e, e'] at made; cases made
        | ok r' =>
            rw [e, e'] at made
            cases made with
            | ok made =>
                have s := h.withHeap made.2 (.newArray e) (.newArray e')
                obtain ⟨id, heap⟩ := r
                obtain ⟨id', heap'⟩ := r'
                obtain rfl : id = id' := made.1
                exact .finished ⟨s, .ok (.array id)⟩

theorem element (id : ArrayId) (i : Int64) :
    Abreast w m m' Value.Alike (Eval.element id i p) (Eval.element id i p) :=
  consult h p (h.heap.at? id i)

theorem setElement (hv : v.Alike w v') (id : ArrayId) (i : Int64) :
    Abreast w m m' Same (Eval.setElement id i v p) (Eval.setElement id i v' p) :=
  update h p (S := Eq) (.of_eq (h.heap.slot id i) fun _ _ => rfl) fun k _ e => e ▸ h.writeElement id k hv

theorem setField {o o' : Object} (ho : o.Alike w o') (x : String) (hv : v.Alike w v') :
    Abreast w m m' Same (Eval.setField o x v) (Eval.setField o' x v') := change (h.setField ho x hv)

/-- A method of one of two classes alike is bound to an object. -/
theorem bindMethod {c c' : Class} (hc : c.Alike w c') {o o' : Object} (ho : o.Alike w o') (x : String) :
    Abreast w m m' Value.Alike
      (match c.method? x with
      | some method => do
          let f ← Eval.make (·.bindMethod o method)
          Pure.pure (.function f)
      | none => Eval.fail (.undefinedProperty x) p)
      (match c'.method? x with
      | some method => do
          let f ← Eval.make (·.bindMethod o' method)
          Pure.pure (.function f)
      | none => Eval.fail (.undefinedProperty x) p) := by
  have found := hc.method? x
  generalize c.method? x = method, c'.method? x = method' at found
  cases found with
  | none => exact fail h _ p
  | @some a b hab =>
      obtain ⟨w₁, s, hf⟩ := h.bindMethod ho hab
      have made : Abreast w m m' Closure.Alike (Eval.make (·.bindMethod o a))
          (Eval.make (·.bindMethod o' b)) := make s hf
      exact made.bind fun s hf => pure s.alike (.function hf)

/-- A method is bound alike, in frames that have just been entered. -/
theorem property {o o' : Object} (ho : o.Alike w o') (x : String) :
    Abreast w m m' Value.Alike (Eval.property o x p) (Eval.property o' x p) := by
  have field := h.heap.fields o.id x
  rw [ho.id] at field
  have found : Abreast w m m' (fun w => Option.Rel (Value.Alike w)) (Eval.view (·.heap.field? o.id x))
      (Eval.view (·.heap.field? o'.id x)) := view h (by rw [ho.id]; exact field)
  refine found.bind fun s hv => ?_
  cases hv with
  | some hv => exact pure s.alike hv
  | none => exact bindMethod s.alike p (ho.later s.later).cls (ho.later s.later) x

/-- The method of the superclass is bound alike. -/
theorem superMethod (x : String) :
    Abreast w m m' Value.Alike (Eval.superMethod x p) (Eval.superMethod x p) := by
  refine (lookup h p "super").bind fun {w₁ m₁ m₁' v v'} s hv => ?_
  have refused : Abreast w₁ m₁ m₁' Value.Alike
      (Eval.fail (.internalError ("`super` is bound to a " ++ v.typeName)) p)
      (Eval.fail (.internalError ("`super` is bound to a " ++ v'.typeName)) p) := by
    rw [hv.typeName]
    exact fail s.alike _ p
  cases hv with
  | cls hc =>
      refine (lookup s.alike p "this").bind fun s₁ hv => ?_
      refine (expectObject s₁.alike p hv).bind fun s₂ ho => ?_
      exact bindMethod s₂.alike p ((hc.later s₁.later).later s₂.later) ho x
  | _ => exact refused

end Piece

end Eval.Abreast

end Brace
