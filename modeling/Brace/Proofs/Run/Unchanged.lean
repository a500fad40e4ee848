import Brace.Proofs.Run.Closed
import Brace.Proofs.Scope.Refusals

/-!
# Run — what fails without a trace

An element of an array is looked for before anything is written, and so is the function that a program
starts with before anything is executed. So an index that is out of bounds, and a program that has
nothing to start with, leave the machine as it is. Nothing that is executed fails as such a program does
(`Job.begun_run`), so wherever a run fails like this, it has not begun.

* `Eval.setElement_eq_error_iff`: which elements cannot be set.
* `Program.run_eq_entry_iff`: which programs cannot be started.
* `failures_change_nothing`: these, and what is refused in scopes.
-/

namespace Brace

variable {α β : Type}

/-! ### Elements of arrays -/

/-- The index is out of bounds of the array. -/
def Heap.Lacks (h : Heap) (id : ArrayId) (i : Int64) : Prop :=
  ¬ (0 ≤ i.toInt ∧ i.toInt < h.length id)

namespace Heap

variable {h : Heap} {id : ArrayId} {i : Int64}

/-- Where the index is out of bounds, there is no place. -/
theorem slot_of_lacks (out : h.Lacks id i) :
    h.slot id i = .error (.indexOutOfBounds i.toInt (h.length id)) := if_neg out

/-- Otherwise there is one. -/
theorem slot_of_not_lacks (within : ¬ h.Lacks id i) : h.slot id i = .ok i.toInt.toNat :=
  if_pos (Decidable.not_not.mp within)

end Heap

namespace Eval

variable {m m' : Machine} {id : ArrayId} {i : Int64} {p : Position} {e : Error}

/-- An element cannot be got exactly where the index is out of bounds, and then nothing has changed. -/
theorem element_eq_error_iff : element id i p m = .finished (.error e) m' ↔
    m.heap.Lacks id i ∧ e = ⟨.indexOutOfBounds i.toInt (m.heap.length id), p⟩ ∧ m' = m := by
  rw [element, consult, Heap.element]
  by_cases out : m.heap.Lacks id i
  · simp [Heap.slot_of_lacks out, out, eq_comm]
  · simp [Heap.slot_of_not_lacks out, out]

/-- An element cannot be set exactly where the index is out of bounds, and then nothing has changed. -/
theorem setElement_eq_error_iff {v : Value} : setElement id i v p m = .finished (.error e) m' ↔
    m.heap.Lacks id i ∧ e = ⟨.indexOutOfBounds i.toInt (m.heap.length id), p⟩ ∧ m' = m := by
  rw [setElement, update]
  by_cases out : m.heap.Lacks id i
  · simp [Heap.slot_of_lacks out, out, eq_comm]
  · simp [Heap.slot_of_not_lacks out, out]

end Eval

/-! ### What is executed -/

/-- If what it asks for does not fail as a program does that cannot be started, neither does the
computation. -/
def Progress.Begins : Progress α → Prop
  | .finished r _       => Begun (r.mapError Error.cause)
  | .waiting _ _ resume => ∀ r m, Begun (r.mapError Error.cause) → (resume r m).Begins
  | .endless            => True

/-- What does not fail for want of a start goes on to what does not fail so. -/
theorem Progress.Begins.andThen {k : Except Error α → Machine → Progress β}
    {p : Progress α} (hp : p.Begins)
    (hk : ∀ r m, Begun (r.mapError Error.cause) → (k r m).Begins) : (p.andThen k).Begins := by
  induction p with
  | finished r m => exact hk r m hp
  | waiting j m resume ih => exact fun r m begun => ih r m (hp r m begun)
  | endless => trivial

/-- Wherever it is started. -/
def Eval.Begins (x : Eval α) : Prop := ∀ m, (x m).Begins

/-- Nothing that is executed fails for want of something to start with. -/
theorem Eval.Begins.underway : Eval.Underway Begins where
  ends h m := by
    obtain e | ⟨r, m', e, -, ordinary⟩ := h m <;> rw [e]
    · trivial
    · exact ordinary.begun
  toOperates := .of_begun fun h m => by
    obtain ⟨r, e, begun⟩ := h m
    rw [e]
    exact begun
  ask _ _ := fun _ _ begun => begun
  bind hx hf m := (hx m).andThen fun r m₁ begun => by
    cases r with
    | ok a => exact hf a m₁
    | error e => exact begun
  inBlock p x hx m := (hx m.pushScope).andThen fun r m₁ begun => by
    split
    · exact begun
    · exact (m₁.ordinary_popScope.error ‹_›).1
  inScope h x hx m := (hx { m with here := h }).andThen fun _ _ begun => begun
  counted p x hx m := by
    simp only [Eval.counted]
    split
    · exact (hx { m with callDepth := m.callDepth + 1 }).andThen fun _ _ begun => begun
    · trivial
  orAt p x hx m := (hx m).andThen fun r _ begun => by
    cases r <;> exact begun

/-- A computation that does not fail for want of a start does not end so. -/
theorem Progress.Begins.complete {p : Progress α} (hp : p.Begins)
    {answer : (j : Job) → Machine → Option (Except Error j.Answer × Machine)}
    (ha : ∀ j m r m', answer j m = some (r, m') → Begun (r.mapError Error.cause))
    {r : Except Error α} {m : Machine} (h : p.complete answer = some (r, m)) :
    Begun (r.mapError Error.cause) := by
  induction p with
  | finished r m =>
      cases h
      exact hp
  | endless => cases h
  | waiting j m resume ih =>
      simp only [Progress.complete] at h
      split at h
      · rename_i r₁ m₁ e
        exact ih r₁ m₁ (hp r₁ m₁ (ha j m r₁ m₁ e)) h
      · cases h

/-- Nothing that is executed fails as a program does that cannot be started. -/
theorem Job.begun_run : ∀ (depth : Nat) (j : Job) (m : Machine) (r : Except Error j.Answer)
    (m' : Machine), j.run depth m = some (r, m') → Begun (r.mapError Error.cause) := by
  intro depth
  induction depth with
  | zero =>
      intro j m r m' h
      cases h
  | succ depth ih =>
      intro j m r m' h
      exact (j.start_underway Eval.Begins.underway m).complete ih h

/-! ### Programs -/

/-- The program cannot be started, and fails with this. -/
inductive Program.Stops (p : Program) : Error → Prop where
  | missing (h : Program.function? p "main" = none) :
      Stops p ⟨.missingEntryPoint "no function named `main` is declared", .unknown⟩
  | params {main : FuncDecl} (h : Program.function? p "main" = some main) (some : main.arity ≠ 0) :
      Stops p ⟨.missingEntryPoint ("`main` must take no parameters, it takes " ++
        toString main.arity), main.pos⟩

/-- A program that has nothing to start with fails at once, and leaves the machine as it was. -/
theorem Program.Stops.run {p : Program} {e : Error} (h : p.Stops e) (depth : Nat) (m : Machine) :
    (Program.run p).run depth m = some (.error e, m) := by
  cases h with
  | missing h => simp only [Program.run, h]; rfl
  | params h some => simp only [Program.run, h, if_neg some]; rfl

/-- A run fails for want of something to start with exactly where the program has nothing to start
with. -/
theorem Program.run_eq_entry_iff {p : Program} {depth : Nat} {m m' : Machine} {e : Error} :
    (Program.run p).run depth m = some (.error e, m') ∧ e.cause.isOfEntry = true ↔
      p.Stops e ∧ m' = m := by
  constructor
  · rintro ⟨h, ofEntry⟩
    have stopped {e' : Error} (h' : p.Stops e') : p.Stops e ∧ m' = m := by
      rw [h'.run] at h
      cases h
      exact ⟨h', rfl⟩
    cases found : Program.function? p "main" with
    | none => exact stopped (.missing found)
    | some main =>
        by_cases none : main.arity = 0
        · have begins := p.run_sparing Eval.Begins.underway.sparing found none
          have begun : e.cause.isOfEntry = false := (begins m).complete (Job.begun_run depth) h
          rw [begun] at ofEntry
          cases ofEntry
        · exact stopped (.params found none)
  · rintro ⟨h, rfl⟩
    exact ⟨h.run depth m', by cases h <;> rfl⟩

open Family Eval

/-- **What fails without a trace.**  Whatever has been done in scopes: an action fails exactly for the
causes that its frames give, and then all frames and handles are as they were; so failed actions can
be left out. In every machine: an element cannot be got or set exactly where the index is out of bounds,
and a run fails for want of something to start with exactly where the program has no function `main`, or
has one with parameters; and then the machine is as it was. -/
theorem failures_change_nothing {f : Family α} (hf : f.Reached) (m : Machine) :
    (∀ (i : Fin f.handles.size) a c f', f.act i a = (.error c, f') ↔
      a.Denied f.forest (f.handle i).frame c ∧ f' = f) ∧
    (∀ i done f', Acts i f done f' → Acts i f (done.filter (·.2.isOk)) f') ∧
    (∀ id i v p e m', (element id i p m = .finished (.error e) m' ↔
        m.heap.Lacks id i ∧ e = ⟨.indexOutOfBounds i.toInt (m.heap.length id), p⟩ ∧ m' = m) ∧
      (setElement id i v p m = .finished (.error e) m' ↔
        m.heap.Lacks id i ∧ e = ⟨.indexOutOfBounds i.toInt (m.heap.length id), p⟩ ∧ m' = m)) ∧
    ∀ p depth e m', (Program.run p).run depth m = some (.error e, m') ∧ e.cause.isOfEntry = true ↔
      p.Stops e ∧ m' = m :=
  ⟨fun _ _ _ _ => act_eq_error_iff hf.sound, fun _ _ _ acts => acts.without_refused,
    fun _ _ _ _ _ _ => ⟨element_eq_error_iff, setElement_eq_error_iff⟩,
    fun _ _ _ _ => Program.run_eq_entry_iff⟩

/-- A machine with one array, of two elements. -/
def Machine.paired : Machine :=
  { Machine.start .standard "" with heap := (Heap.empty.addArray .int #[.int 1, .int 2]).2 }

/-- A constant is assigned to, an array of two elements is set after its end and got before its start,
and nothing is run. -/
theorem failures_change_nothing_empty : named.Reached ∧
    named.act ⟨1, by decide⟩ (.assign "PI" 4) = (.error (.assignToConstant "PI"), named) ∧
    setElement 0 2 (.int 3) .unknown .paired =
      .finished (.error ⟨.indexOutOfBounds 2 2, .unknown⟩) .paired ∧
    element 0 (-1) .unknown .paired =
      .finished (.error ⟨.indexOutOfBounds (-1) 2, .unknown⟩) .paired ∧
    ∃ e, e.cause.isOfEntry = true ∧
      (Program.run []).run 0 .paired = some (.error e, .paired) := by
  have constant : named.forest.Owns "PI" 0 2 := ⟨.out rfl rfl (.out rfl rfl .here), some 3, rfl⟩
  have after : Machine.paired.heap.Lacks 0 2 := fun ⟨_, lt⟩ => absurd lt (by decide)
  have before : Machine.paired.heap.Lacks 0 (-1) := fun ⟨le, _⟩ => absurd le (by decide)
  obtain ⟨refused, -, elements, programs⟩ := failures_change_nothing reached_named .paired
  obtain ⟨stopped, ofEntry⟩ := (programs [] 0 _ _).mpr ⟨.missing rfl, rfl⟩
  exact ⟨reached_named, (refused _ _ _ _).mpr ⟨.constant constant rfl, rfl⟩,
    (elements 0 2 _ _ _ _).2.mpr ⟨after, rfl, rfl⟩,
    (elements 0 (-1) .nil _ _ _).1.mpr ⟨before, rfl, rfl⟩, _, ofEntry, stopped⟩

end Brace
