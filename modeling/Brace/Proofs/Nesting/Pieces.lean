import Brace.Proofs.Nesting.Limit

/-!
# Nesting — computations under two limits

The limit is looked at in one place: a call that would nest too deep fails there. All else is the same
under every limit. So a computation that is made of such pieces does under a higher limit what it does
under a lower one, unless calls nest too deep, and it asks for the same jobs (`Eval.Nests`). What it
passes on lets nothing be called but what it has been given.

* `Eval.Nests.counted`: where the limit is looked at.
* `Eval.Nests.inBlock`: leaving a block never hides that calls nest too deep.
-/

namespace Brace

open Eval

variable {α β : Type}

/-! ### Machines and jobs -/

/-- What the job gives lets nothing be called that is not in `P`. -/
def Job.Gives (P : FuncDecl → Prop) : (j : Job) → j.Answer → Prop
  | .expr _, v | .apply .., v    => Value.Of P v
  | .stmt _, flow | .loop .., flow => Flow.Of P flow

/-- Calls may nest `k` deep in the machine and `d` are under way, and its functions are in `P`. -/
structure Machine.At (P : FuncDecl → Prop) (k d : Nat) (m : Machine) : Prop where
  of     : m.Of P
  limit  : m.settings.maxCallDepth = k
  depth  : m.callDepth = d
  within : d ≤ k

/-- Jobs in `J` may be asked for where calls nest no deeper than `k`. -/
def limiting (P : FuncDecl → Prop) (k : Nat) (J : Nat → Job → Prop) : Contract where
  Ghost := Unit
  pre _ j m := m.At P k m.callDepth ∧ J m.callDepth j
  post _ j m r m' := m.Follows P m' ∧ ∀ a, r = .ok a → j.Gives P a

/-- Where `d` calls are under way, the computation asks for jobs in `J` alone and gives what is in
`R`, and does the same under every limit that is not below `k`, unless calls nest deeper than `k`. -/
def Eval.Nests (P : FuncDecl → Prop) (k : Nat) (J : Nat → Job → Prop) (d : Nat) (R : α → Prop)
    (x : Eval α) : Prop :=
  ∀ n, k ≤ n → ∀ m, m.At P k d → (x m).Tracks (limiting P k J) k n
    (fun r m' => m.Follows P m' ∧ ∀ a, r = .ok a → R a) (x (m.limit n))

/-- Nothing is said of the outcome. -/
abbrev anything : α → Prop := fun _ => True

variable {P : FuncDecl → Prop} {k d : Nat} {J J' : Nat → Job → Prop}

/-- What follows a machine in which calls may nest so deep is such a machine. -/
theorem Machine.Follows.at {m m' : Machine} (h : m.Follows P m') (hm : m.At P k d) :
    m'.At P k d :=
  ⟨h.of hm.of, (congrArg Settings.maxCallDepth h.settings).trans hm.limit,
    h.callDepth.trans hm.depth, hm.within⟩

/-- More may be asked for. -/
theorem Progress.Tracks.limiting_mono (le : ∀ d j, J d j → J' d j) {n : Nat}
    {Q : Except Error α → Machine → Prop} : ∀ {p q : Progress α},
    p.Tracks (limiting P k J) k n Q q → p.Tracks (limiting P k J') k n Q q := by
  intro p
  induction p with
  | finished r m => exact fun h => h
  | waiting j m resume ih =>
      rintro q ⟨g, ⟨hm, hJ⟩, resume', e, hr⟩
      exact ⟨g, ⟨hm, le _ _ hJ⟩, resume', e, fun r m' hp => ⟨ih r m' (hr r m' hp).1, (hr r m' hp).2⟩⟩
  | endless => exact fun h => h

namespace Eval.Nests

open Machine

variable {R : α → Prop}

/-- More may be asked for. -/
theorem mono {x : Eval α} (hx : x.Nests P k J d R) (le : ∀ d j, J d j → J' d j) :
    x.Nests P k J' d R := fun n hn m hm => (hx n hn m hm).limiting_mono le

/-! ### Single steps -/

/-- A computation that ends at once or never, and does not look at the limit. -/
theorem of_ends {x : Eval α} (h : ∀ m n, (x m = .endless ∧ x (m.limit n) = .endless) ∨
      ∃ r m', x m = .finished r m' ∧ x (m.limit n) = .finished r (m'.limit n) ∧
        (m.Of P → m.Follows P m' ∧ ∀ a, r = .ok a → R a)) : x.Nests P k J d R := by
  intro n _ m hm
  obtain ⟨e, e'⟩ | ⟨r, m', e, e', hQ⟩ := h m n <;> rw [e, e']
  · exact ⟨trivial, rfl⟩
  · exact ⟨hQ hm.of, .inr rfl⟩

theorem pure {a : α} (ha : R a) : (Pure.pure a : Eval α).Nests P k J d R := of_ends fun m _ =>
  .inr ⟨_, m, rfl, rfl, fun _ => ⟨.refl m, by rintro _ ⟨⟩; exact ha⟩⟩

theorem fail (c : Cause) (p : Position) : (Eval.fail c p : Eval α).Nests P k J d R :=
  of_ends fun m _ => .inr ⟨_, m, rfl, rfl, fun _ => ⟨.refl m, by rintro _ ⟨⟩⟩⟩

theorem ofExcept (p : Position) {r : Except Cause α} (hr : ∀ a, r = .ok a → R a) :
    (Eval.ofExcept p r).Nests P k J d R := by
  cases r with
  | ok a => exact pure (hr a rfl)
  | error c => exact fail c p

theorem endless : (Eval.endless : Eval α).Nests P k J d R := of_ends fun _ _ => .inl ⟨rfl, rfl⟩

/-- What is read off the machine is not the limit. -/
theorem view {f : Machine → α} (same : ∀ m n, f (m.limit n) = f m) (hR : ∀ m, m.Of P → R (f m)) :
    (Eval.view f).Nests P k J d R := of_ends fun m n =>
  .inr ⟨_, m, rfl, by rw [Eval.view, same], fun hm => ⟨.refl m, by rintro _ ⟨⟩; exact hR m hm⟩⟩

/-- What is read off the machine, or refused, is not the limit. -/
theorem consult (p : Position) {f : Machine → Except Cause α} (same : ∀ m n, f (m.limit n) = f m)
    (hR : ∀ m a, m.Of P → f m = .ok a → R a) : (Eval.consult p f).Nests P k J d R :=
  of_ends fun m n => .inr <| by
    simp only [Eval.consult, same m n]
    split
    · exact ⟨_, m, rfl, rfl, fun hm => ⟨.refl m, by rintro _ ⟨⟩; exact hR m _ hm ‹_›⟩⟩
    · exact ⟨_, m, rfl, rfl, fun _ => ⟨.refl m, by rintro _ ⟨⟩⟩⟩

theorem textOf (v : Value) : (Eval.textOf v).Nests P k J d anything := of_ends fun m n => by
  have same : (m.limit n).heap = m.heap := rfl
  simp only [Eval.textOf, same]
  split
  · exact .inr ⟨_, m, rfl, rfl, fun _ => ⟨.refl m, fun _ _ => trivial⟩⟩
  · exact .inl ⟨rfl, rfl⟩

/-- What is made does not depend on the limit, and brings in no other functions. -/
theorem make {f : Machine → α × Machine}
    (same : ∀ m n, f (m.limit n) = ((f m).1, (f m).2.limit n))
    (h : ∀ m, m.Of P → m.Follows P (f m).2 ∧ R (f m).1) : (Eval.make f).Nests P k J d R :=
  of_ends fun m n => .inr ⟨_, (f m).2, rfl, by simp only [Eval.make, same],
    fun hm => ⟨(h m hm).1, by rintro _ ⟨⟩; exact (h m hm).2⟩⟩

/-- What is changed does not depend on the limit, and brings in no other functions. -/
theorem change {f : Machine → Machine} (same : ∀ m n, f (m.limit n) = (f m).limit n)
    (h : ∀ m : Machine, m.Follows P (f m)) : (Eval.change f).Nests P k J d anything :=
  of_ends fun m n =>
  .inr ⟨_, f m, rfl, by rw [Eval.change, same], fun _ => ⟨h m, fun _ _ => trivial⟩⟩

theorem update {p : Position} {check : Machine → Except Cause β} {write : β → Machine → Machine}
    (same : ∀ m n, check (m.limit n) = check m)
    (same' : ∀ b m n, write b (m.limit n) = (write b m).limit n)
    (h : ∀ (b : β) (m : Machine), m.Follows P (write b m)) :
    (Eval.update p check write).Nests P k J d anything :=
  of_ends fun m n => .inr <| by
    simp only [Eval.update, same m n]
    split
    · exact ⟨_, m, rfl, rfl, fun _ => ⟨.refl m, by rintro _ ⟨⟩⟩⟩
    · exact ⟨_, _, rfl, by rw [same'], fun _ => ⟨h _ m, fun _ _ => trivial⟩⟩

/-- A job that may be asked for is asked for under every limit. -/
theorem ask {j : Job} (hj : J d j) : (Eval.ask j).Nests P k J d (j.Gives P) := by
  intro n _ m hm
  refine ⟨(), ⟨hm.depth ▸ hm, hm.depth ▸ hj⟩, _, rfl, fun r m' hp => ?_⟩
  exact ⟨⟨hp, .inr rfl⟩, fun ended => ⟨r, m', rfl, ended, hp⟩⟩

/-! ### One thing after another -/

/-- One after another: what goes on may use what is known of the result. -/
theorem bind {x : Eval α} {f : α → Eval β} {Q : β → Prop} (hx : x.Nests P k J d R)
    (hf : ∀ a, R a → (f a).Nests P k J d Q) : (x >>= f).Nests P k J d Q := by
  intro n hn m hm
  refine Progress.Tracks.andThen (fun r m₁ ⟨h, hR⟩ => ?_) (fun r m₁ ⟨h, _⟩ ended => ?_) (hx n hn m hm)
  · cases r with
    | ok a =>
        exact Progress.Tracks.mono (fun _ _ h' => ⟨h.trans h'.1, h'.2⟩)
          (hf a (hR a rfl) n hn m₁ (h.at hm))
    | error e => exact ⟨⟨h, by rintro _ ⟨⟩⟩, .inr rfl⟩
  · obtain ⟨p, rfl⟩ := ended
    exact ⟨_, m₁, rfl, ⟨p, rfl⟩, h, by rintro _ ⟨⟩⟩

theorem map {x : Eval α} {f : α → β} {Q : β → Prop} (hx : x.Nests P k J d R)
    (hf : ∀ a, R a → Q (f a)) : (f <$> x).Nests P k J d Q := hx.bind fun a ha => pure (hf a ha)

theorem forM {γ : Type} {f : γ → Eval Unit} : ∀ {cs : List γ},
    (∀ c ∈ cs, (f c).Nests P k J d anything) → (cs.forM f).Nests P k J d anything
  | [], _      => pure trivial
  | c :: cs, h => by
      obtain ⟨hc, hcs⟩ := List.forall_mem_cons.mp h
      exact hc.bind fun _ _ => forM hcs

/-! ### What is put back on the way out -/

theorem inBlock (p : Position) {x : Eval α} (hx : x.Nests P k J d R) :
    (inBlock p x).Nests P k J d R := by
  intro n hn m hm
  refine Progress.Tracks.andThen (fun r m₁ ⟨h, hR⟩ => ?_) (fun r m₁ ⟨h, hR⟩ ended => ?_)
    (hx n hn m.pushScope ⟨Follows.of_pushScope hm.of, hm.limit, hm.depth, hm.within⟩)
  · have left := popScope_of_restored h.toRestored
    simp only [left, popScope_limit left n]
    exact ⟨⟨h.leave, hR⟩, .inr rfl⟩
  · simp only [popScope_of_restored h.toRestored]
    exact ⟨r, _, rfl, ended, h.leave, hR⟩

/-- Working in another scope changes neither the limit nor the depth. -/
theorem inScope (h : Handle) {x : Eval α} (hx : x.Nests P k J d R) :
    (inScope h x).Nests P k J d R := by
  intro n hn m hm
  have back {m' : Machine} (h' : { m with here := h }.Follows P m') :
      m.Follows P { m' with here := m.here } :=
    ⟨⟨rfl, h'.callDepth, h'.scopes, h'.heap⟩, h'.settings,
      fun hm => (h'.of (hm.congr rfl rfl)).congr rfl rfl⟩
  exact Progress.Tracks.andThen (fun r m₁ ⟨h', hR⟩ => ⟨⟨back h', hR⟩, .inr rfl⟩)
    (fun r m₁ ⟨h', hR⟩ ended => ⟨r, _, rfl, ended, back h', hR⟩)
    (hx n hn { m with here := h } ⟨hm.of.congr rfl rfl, hm.limit, hm.depth, hm.within⟩)

/-- The work is one call deeper, if that is not too deep. -/
theorem counted (p : Position) {x : Eval α} (hx : x.Nests P k J (d + 1) R) :
    (counted p x).Nests P k J d R := by
  intro n hn m hm
  have limit : (m.limit n).settings.maxCallDepth = n := rfl
  have depth : (m.limit n).callDepth = m.callDepth := rfl
  simp only [Eval.counted, limit, depth, hm.limit]
  by_cases room : m.callDepth < k
  · rw [if_pos room, if_pos (Nat.lt_of_lt_of_le room hn)]
    have back {m' : Machine} (h' : { m with callDepth := m.callDepth + 1 }.Follows P m') :
        m.Follows P { m' with callDepth := m'.callDepth - 1 } :=
      ⟨⟨h'.here, by simp [h'.callDepth], h'.scopes, h'.heap⟩, h'.settings,
        fun hm => (h'.of (hm.congr rfl rfl)).congr rfl rfl⟩
    refine Progress.Tracks.andThen (fun r m₁ h => ?_) (fun r m₁ h ended => ?_)
      (hx n hn { m with callDepth := m.callDepth + 1 } ⟨hm.of.congr rfl rfl, hm.limit,
        congrArg (· + 1) hm.depth, hm.depth ▸ room⟩)
    · exact ⟨⟨back h.1, h.2⟩, .inr rfl⟩
    · exact ⟨r, _, rfl, ended, back h.1, h.2⟩
  · rw [if_neg room]
    exact ⟨⟨.refl m, by rintro _ ⟨⟩⟩, .inl ⟨p, rfl⟩⟩

/-- Naming the place of a failure does not hide that calls nest too deep. -/
theorem orAt (p : Position) {x : Eval α} (hx : x.Nests P k J d R) : (orAt p x).Nests P k J d R := by
  intro n hn m hm
  have same {r : Except Error α} {m₁ : Machine} (h : m.Follows P m₁ ∧ ∀ a, r = .ok a → R a) :
      m.Follows P m₁ ∧ ∀ a, r.mapError (·.orAt p) = .ok a → R a :=
    ⟨h.1, fun a e => h.2 a (by cases r <;> cases e; rfl)⟩
  refine Progress.Tracks.andThen (fun r m₁ h => ?_) (fun r m₁ h ended => ?_) (hx n hn m hm)
  · exact ⟨same h, .inr rfl⟩
  · obtain ⟨q, rfl⟩ := ended
    exact ⟨_, m₁, rfl, ⟨_, rfl⟩, same h⟩

/-! ### The pieces of expressions -/

/-- A value that is looked up lets nothing be called that the machine does not have. -/
theorem lookup (x : String) (p : Position) : (lookup x p).Nests P k J d (Value.Of P) :=
  consult p (fun _ _ => rfl) fun _ _ hm e => hm.lookup e

theorem assign (x : String) {v : Value} (hv : v.Of P) (p : Position) :
    (assign x v p).Nests P k J d anything :=
  update (fun _ _ => rfl) (fun _ _ _ => rfl) fun i m => .bind m i x (by rintro _ ⟨⟩; exact hv)

theorem defineAt (h : Handle) (x : String) {v : Value} (hv : v.Of P) (p : Position) :
    (defineAt h x v p).Nests P k J d anything :=
  update (fun _ _ => rfl) (fun _ _ _ => rfl) fun i m => .bind m i x (by rintro _ ⟨⟩; exact hv)

theorem define (x : String) {v : Value} (hv : v.Of P) (p : Position) :
    (define x v p).Nests P k J d anything :=
  update (fun _ _ => rfl) (fun _ _ _ => rfl) fun i m => .bind m i x (by rintro _ ⟨⟩; exact hv)

theorem declare (x : String) (p : Position) : (declare x p).Nests P k J d anything :=
  update (fun _ _ => rfl) (fun _ _ _ => rfl) fun i m => .bind m i x nofun

theorem expectInt (v : Value) (p : Position) : (expectInt v p).Nests P k J d anything := by
  cases v <;> first | exact pure trivial | exact fail _ _

theorem expectString (v : Value) (p : Position) : (expectString v p).Nests P k J d anything := by
  cases v <;> first | exact pure trivial | exact fail _ _

theorem expectObject {v : Value} (hv : v.Of P) (p : Position) :
    (expectObject v p).Nests P k J d fun o => o.cls.Of P := by
  cases v with
  | object o => exact pure hv
  | _ => exact bind (textOf _) fun _ _ => fail _ _

/-- An array is found alike under every limit. -/
theorem lookupArray (x : String) (p : Position) : (lookupArray x p).Nests P k J d anything :=
  bind (lookup x p) fun v _ => by
    cases v <;> first | exact pure trivial | exact fail _ _

theorem newArray (t : Ty) (size : Int64) (p : Position) :
    (newArray t size p).Nests P k J d (Value.Of P) := of_ends fun m n => .inr <| by
  have same : (m.limit n).heap = m.heap := rfl
  simp only [Eval.newArray, same]
  split
  · exact ⟨_, m, rfl, rfl, fun _ => ⟨.refl m, by rintro _ ⟨⟩⟩⟩
  · split
    · exact ⟨_, m, rfl, rfl, fun _ => ⟨.refl m, by rintro _ ⟨⟩⟩⟩
    · exact ⟨_, _, rfl, rfl, fun _ => ⟨.newArray ‹_›, by rintro _ ⟨⟩; trivial⟩⟩

/-- An element lets nothing be called that the machine does not have. -/
theorem element (id : ArrayId) (i : Int64) (p : Position) :
    (element id i p).Nests P k J d (Value.Of P) :=
  consult p (fun _ _ => rfl) fun _ _ hm e => hm.element e

theorem setElement (id : ArrayId) (i : Int64) {v : Value} (hv : v.Of P) (p : Position) :
    (setElement id i v p).Nests P k J d anything :=
  update (fun _ _ => rfl) (fun _ _ _ => rfl) fun slot m => .writeElement m id slot hv

theorem setField (o : Object) (x : String) {v : Value} (hv : v.Of P) :
    (setField o x v).Nests P k J d anything := change (fun _ _ => rfl) fun m => .setField m o x hv

/-- A method that is bound to its object is one of its class. -/
theorem bindMethod {c : Class} (hc : c.Of P) {o : Object} (ho : o.cls.Of P) (x : String)
    (p : Position) : (match c.method? x with
      | some method => do
          let f ← Eval.make (·.bindMethod o method)
          Pure.pure (.function f)
      | none => Eval.fail (.undefinedProperty x) p : Eval Value).Nests P k J d (Value.Of P) := by
  split
  · rename_i method e
    exact bind (make (fun _ _ => rfl) fun m _ => ⟨.bindMethod m ho method, hc.method e⟩)
      fun f (hf : P f.decl) => pure hf
  · exact fail _ p

/-- A method or field of an object lets nothing be called that the object's class does not have, nor
the machine. -/
theorem property {o : Object} (ho : o.cls.Of P) (x : String) (p : Position) :
    (property o x p).Nests P k J d (Value.Of P) := by
  refine bind (R := fun v => ∀ w, v = some w → w.Of P)
    (view (fun _ _ => rfl) fun m hm w e => hm.heap.fields _ _ w e) fun v hv => ?_
  cases v with
  | some v => exact pure (hv v rfl)
  | none => exact bindMethod ho ho x p

/-- The method of a superclass is one of the machine. -/
theorem superMethod (x : String) (p : Position) :
    (superMethod x p).Nests P k J d (Value.Of P) := by
  refine bind (lookup "super" p) fun v hv => ?_
  cases v with
  | cls c =>
      exact bind (lookup "this" p) fun v hv' => bind (expectObject hv' p) fun o ho =>
        bindMethod hv ho x p
  | _ => exact fail _ _

end Eval.Nests

end Brace
