import Brace.Proofs.Run.Accounts
import Brace.Proofs.Run.Closed

/-!
# Run — arrays in a run

What a run tells of arrays is all that it does with them. Nothing but the expressions that tell changes
an array, so at each place of a run the arrays are what its history makes of those that were there at the
beginning, and all that has come of it is what comes of the same accesses to a heap. There each array is
a map. It is known by its number, so it does not matter which name it is reached through.

* `Job.recount_honest`: a job tells of all that it does with arrays, and tells what comes of it.
* `Account.Comes.replays`: the history of a run is what its accesses come to in the heap that it starts
  with.
* `arrays_are_maps`: sequences of accesses to a heap, and runs of programs.
-/

namespace Brace

open Eval

variable {α β γ : Type}

/-! ### Honest accounts -/

/-- From the heap on, what the account tells is what comes of it, and arrays change in no other way. -/
def Account.Tells : Account α → Heap → Prop
  | .finished _ m, h       => m.heap.arrays = h.arrays
  | .waiting _ m resume, h => m.heap.arrays = h.arrays ∧ ∀ r m', (resume r m').Tells m'.heap
  | .endless, _            => True
  | .telling e rest, h     => e.result = (h.access e.what).1 ∧ rest.Tells (h.access e.what).2

namespace Account.Tells

/-- What an account tells is a matter of the arrays alone. -/
theorem congr {a : Account α} : ∀ {h h' : Heap}, h'.arrays = h.arrays → a.Tells h → a.Tells h' := by
  induction a with
  | finished r m => exact fun e told => Eq.trans told e.symm
  | waiting j m resume _ => exact fun e told => ⟨told.1.trans e.symm, told.2⟩
  | endless => exact fun _ _ => trivial
  | telling e rest ih =>
      intro h h' same told
      obtain ⟨result, arrays⟩ := Heap.access_congr same e.what
      exact ⟨told.1.trans result.symm, ih arrays told.2⟩

/-- What tells the truth and goes on to what tells it does so as a whole. -/
theorem andThen {k : Except Error α → Machine → Account β} {a : Account α}
    (hk : ∀ r m, (k r m).Tells m.heap) : ∀ {h : Heap}, a.Tells h → (a.andThen k).Tells h := by
  induction a with
  | finished r m => exact fun told => (hk r m).congr (Eq.symm told)
  | waiting j m resume ih => exact fun told => ⟨told.1, fun r m' => ih r m' (told.2 r m')⟩
  | endless => exact fun _ => trivial
  | telling e rest ih => exact fun told => ⟨told.1, ih told.2⟩

end Account.Tells

/-- Wherever it is started. -/
def Telling.Honest (x : Telling α) : Prop := ∀ m, (x m).Tells m.heap

/-- The computation has nothing to tell: it leaves arrays alone, apart from what it asks for. -/
def Eval.Spares (x : Eval α) : Prop := (Telling.quiet x).Honest

/-- A quiet computation tells the truth if it leaves arrays alone and goes on to what does. -/
theorem Progress.tells_andThen {p : Progress α} {h : Heap} {k : Except Error α → Machine → Progress β}
    (hp : p.quiet.Tells h) (hk : ∀ r m, (k r m).quiet.Tells m.heap) : (p.andThen k).quiet.Tells h := by
  rw [quiet_andThen]
  exact hp.andThen hk

/-- What spares arrays tells the truth about them by saying nothing. -/
theorem Eval.Spares.sparing : Eval.Sparing Spares where
  ends h m := by
    obtain e | ⟨r, m', e, hm, -⟩ := h m <;> rw [Telling.quiet, e]
    · trivial
    · exact hm.arrays
  ask _ _ := ⟨rfl, fun _ _ => rfl⟩
  bind hx hf m := Progress.tells_andThen (hx m) fun r m₁ => by
    cases r with
    | ok a => exact hf a m₁
    | error e => rfl
  inBlock p x hx m := Progress.tells_andThen (hx m.pushScope) fun r m₁ => by
    cases left : m₁.popScope with
    | ok m₂ =>
        obtain ⟨here, rfl⟩ := Machine.eq_of_popScope left
        rfl
    | error c => rfl
  inScope h x hx m := Progress.tells_andThen (hx { m with here := h }) fun _ _ => rfl
  counted p x hx m := by
    simp only [Telling.quiet, Eval.counted]
    split
    · exact Progress.tells_andThen (hx { m with callDepth := m.callDepth + 1 }) fun _ _ => rfl
    · rfl

/-- Operators spare arrays, and so does what finds an array. -/
theorem Eval.Spares.operates : Eval.Operates Spares := .of_begun fun h m => by
  obtain ⟨r, e, -⟩ := h m
  rw [Telling.quiet, e]
  rfl

/-- What is made of parts that spare arrays spares them. -/
theorem Eval.Spares.passed : Eval.Passed Spares where
  toJoined := Spares.sparing.toJoined
  orAt _ _ hx m := Progress.tells_andThen (hx m) fun _ _ => rfl

/-! ### What tells is honest -/

namespace Telling.Honest

theorem pure (a : α) : (Pure.pure a : Telling α).Honest := fun _ => rfl

/-- One thing after another tells the truth if both parts do. -/
theorem bind {x : Telling α} {f : α → Telling β} (hx : x.Honest) (hf : ∀ a, (f a).Honest) :
    (x >>= f).Honest := fun m => (hx m).andThen fun r m₁ => by
  cases r with
  | ok a => exact hf a m₁
  | error e => rfl

theorem forM {f : γ → Telling Unit} (h : ∀ c, (f c).Honest) : ∀ cs : List γ, (cs.forM f).Honest
  | []      => pure ()
  | c :: cs => bind (h c) fun _ => forM h cs

/-- An access tells what it does. -/
theorem access (a : Access) (p : Position) : (Telling.access a p).Honest := fun _ => ⟨rfl, rfl⟩

/-- A job that is asked for tells nothing itself. -/
theorem ask (j : Job) : (quiet (Eval.ask j)).Honest := by
  have sparing := Spares.sparing
  exact sparing.ask j

/-- A new array is told of. -/
theorem newArray (t : Ty) (size : Int64) (p : Position) : (Telling.newArray t size p).Honest := by
  have sparing := Spares.sparing
  simp only [Telling.newArray]
  split
  · exact sparing.fail _ p ⟨rfl, rfl⟩
  · exact bind (access _ p) fun _ => pure _

/-- So is an element that is read. -/
theorem read (p : Position) (here : Place) : (Telling.read p here).Honest := by
  have sparing := Spares.sparing
  cases here with
  | element id i => exact access _ p
  | var x => exact sparing.read p (.var x)
  | field o x => exact sparing.read p (.field o x)

/-- So is one that is written. -/
theorem write (v : Value) (p : Position) (here : Place) : (Telling.write v p here).Honest := by
  have sparing := Spares.sparing
  cases here with
  | element id i => exact access _ p
  | var x => exact sparing.assign x v p
  | field o x => exact sparing.setField o x v

/-- So is a step. -/
theorem step (form : StepForm) (target : Expr) : (Telling.step form target).Honest := by
  have sparing := Spares.sparing
  refine bind (sparing.place target fun x p _ => Spares.operates.array x p) fun here => ?_
  refine bind (read _ here) fun _ => ?_
  refine bind (sparing.ofExcept _ (Value.ordinary_stepped ..)) fun _ => ?_
  exact bind (write _ _ here) fun _ => pure _

/-- So is what is read from the input. -/
theorem scanInto (p : Position) (s : Specifier) (target : Expr) :
    (Telling.scanInto p s target).Honest := by
  have sparing := Spares.sparing
  refine bind (x := quiet (scanned p s)) ?_ fun v =>
    bind (sparing.place target fun x p _ => Spares.operates.array x p) fun here => write v _ here
  refine sparing.bind (sparing.make fun m => ⟨.readWord m, rfl⟩) fun word => ?_
  cases word with
  | none => exact sparing.fail _ p ⟨rfl, rfl⟩
  | some word =>
      dsimp only
      cases s.read word with
      | some v => exact sparing.pure v
      | none => exact sparing.fail _ p ⟨rfl, rfl⟩

theorem scan (p : Position) (template : String) (targets : List Expr) :
    (Telling.scan p template targets).Honest := by
  have sparing := Spares.sparing
  simp only [Telling.scan]
  split
  · exact forM (f := fun x : Specifier × Expr => Telling.scanInto p x.1 x.2)
      (fun x => scanInto p x.1 x.2) _
  · rename_i few
    rw [Eval.scan, if_neg few]
    exact sparing.fail _ p ⟨rfl, rfl⟩

end Telling.Honest

/-- Every form of expression tells what it does to arrays. -/
theorem Expr.recount_honest (e : Expr) : e.recount.Honest := by
  have sparing := Spares.sparing
  have asked (e : Expr) : (Telling.quiet e.eval).Honest := .ask (.expr e)
  cases e with
  | arrayNew n t e =>
      exact .bind (asked e) fun _ => .bind (sparing.expectInt _ _) fun _ => .newArray t _ n.pos
  | index n x i =>
      exact .bind (Spares.operates.array _ _) fun _ => .bind (asked i) fun _ =>
        .bind (sparing.expectInt _ _) fun _ => .access _ n.pos
  | indexAssign n x i e =>
      exact .bind (Spares.operates.array _ _) fun _ => .bind (asked i) fun _ =>
        .bind (sparing.expectInt _ _) fun _ => .bind (asked e) fun _ =>
          .bind (.access _ n.pos) fun _ => .pure _
  | step n form target => exact .step form target
  | scanf n format targets =>
      exact .bind (asked format) fun _ => .bind (sparing.expectString _ _) fun _ =>
        .bind (.scan n.pos _ targets) fun _ => .pure _
  | _ => exact Expr.start_sparing sparing _ (fun _ => Spares.operates) rfl

/-- A job tells of all that it does with arrays, and tells what comes of it. -/
theorem Job.recount_honest : ∀ j : Job, j.recount.Honest
  | .expr e                => e.recount_honest
  | .stmt s                => s.start_closed Spares.sparing
  | .loop cond update body => loopTurn_closed Spares.sparing cond update body
  | .apply callee args p   => applyTo_closed Spares.sparing Spares.passed callee args p

/-- A program uses arrays in what it asks for alone. -/
theorem Program.run_spares (p : Program) : (Program.run p).Spares :=
  p.run_sparing_of_fail Spares.sparing fun _ _ _ => rfl

/-! ### Histories of runs -/

/-- The history is what its accesses come to in the heap, and the run has got to a place where the arrays
are those that they leave. -/
structure History.Replays (es : History) (h : Heap) (q : Progress α) : Prop where
  results : (h.accesses (es.map (·.what))).1 = es
  arrays  : ∀ m, q.machine? = some m → m.heap.arrays = (h.accesses (es.map (·.what))).2.arrays

namespace History.Replays

variable {es : History} {h : Heap} {q : Progress α}

/-- Each array behaves as a map. -/
theorem ofMaps (hr : es.Replays h q) : es.OfMaps := hr.results ▸ h.accesses_agree _

/-- At the place that the run has got to, an array has what has been set last. -/
theorem mirrors (hr : es.Replays h q) {before since : History} {id : ArrayId} {t : Ty} {n : Nat}
    (made : es = before ++ ⟨.make t n, .ok id⟩ :: since) {m : Machine} (here : q.machine? = some m) :
    m.heap.Mirrors id t n since :=
  (Heap.accesses_mirror (hr.results.trans made)).congr (hr.arrays m here)

end History.Replays

/-- A history that an account comes to is one that can be replayed. -/
theorem Account.Comes.replays {a : Account α} {es : History} {q : Progress α} (c : a.Comes es q) :
    ∀ {h : Heap}, a.Tells h → History.Replays es h q := by
  induction c with
  | finished r m => exact fun told => ⟨rfl, fun _ here => by cases here; exact told⟩
  | endless => exact fun _ => ⟨rfl, nofun⟩
  | waiting j m resume => exact fun told => ⟨rfl, fun _ here => by cases here; exact told.1⟩
  | @telling e rest es q _ ih =>
      intro h told
      have rest := ih told.2
      refine ⟨?_, rest.arrays⟩
      rw [List.map_cons, Heap.accesses, rest.results, ← told.1]
  | @more j m resume es q _ ih =>
      intro h told
      -- The job starts where it is asked for, with the arrays as they are there.
      have begun : ((j.recount m).andThen resume).Tells m.heap :=
        (j.recount_honest m).andThen told.2
      exact ih (begun.congr told.1.symm)

/-- A program, with what it tells. -/
def Program.recount (p : Program) : Telling Value := Telling.quiet (Program.run p)

/-- **Arrays are maps.**  Where there is room for an array, one is made, of any element type. Whatever is
done with arrays from then on, in whatever order and with whatever indexes: to get or to set an element of
it succeeds exactly where the index is not below zero and is below the length, and is refused elsewhere, with
the index and the length; one gets what has been set there last, or else the default of the type; and the
array keeps its length. In a program it is a few forms of expressions that make arrays, get elements and set
them, under whatever names they know an array. Each place that a run gets to has a history of what these
have done. It is what the same accesses come to, one after another, in the heap that the run has started
with, and the arrays are those that they leave. So in any run, too, arrays are maps from where they are made
on. -/
theorem arrays_are_maps :
    (∀ (h : Heap) t n as, n ≤ Heap.maxLength → ∃ id since,
      (h.accesses (.make t n :: as)).1 = ⟨.make t n, .ok id⟩ :: since ∧
      (h.accesses (.make t n :: as)).1.OfMaps ∧
      (h.accesses (.make t n :: as)).2.Mirrors id t n since) ∧
    ∀ (p : Program) m q,
      ((Program.run p m).Steps q ↔ ∃ es, (Program.recount p m).Comes es q) ∧
      ∀ es, (Program.recount p m).Comes es q →
        History.Replays es m.heap q ∧ es.OfMaps ∧
        ∀ before id t n since, es = before ++ ⟨.make t n, .ok id⟩ :: since →
          ∀ m', q.machine? = some m' → m'.heap.Mirrors id t n since := by
  refine ⟨fun h t n as room => ?_, fun p m q => ⟨?_, fun es c => ?_⟩⟩
  · have made : (h.access (.make t n)).1 = .ok h.arrays.size := by
      rw [Heap.access_make, if_neg (Nat.not_lt.mpr room)]
    have history : (h.accesses (.make t n :: as)).1 =
        ⟨.make t n, .ok h.arrays.size⟩ :: ((h.access (.make t n)).2.accesses as).1 := by
      rw [Heap.accesses, made]
    exact ⟨_, _, history, h.accesses_agree _, (Heap.mirrors_made made).accesses as⟩
  · have whole := (Program.recount p m).comes_iff_steps q
    rwa [Program.recount, Telling.quiet, Progress.forget_quiet] at whole
  · have replays := c.replays (p.run_spares m)
    exact ⟨replays, replays.ofMaps, fun _ _ _ _ _ made _ here => replays.mirrors made here⟩

/-- `int main() { int[] a = new int[3]; int[] b = a; b[1] = 5; a[1]++;`
`scanf("%d", b[0]); return a[3]; }` -/
def aliasing : Program := [.func ⟨.ofLine 1, .int, "main", [],
  [⟨.ofLine 1, .array .int, "a", some (.arrayNew .blank .int (.literal .blank (.int 3)))⟩,
    ⟨.ofLine 1, .array .int, "b", some (.name .blank "a")⟩],
  [.expr (.ofLine 1) (.indexAssign .blank "b" (.literal .blank (.int 1)) (.literal .blank (.int 5))),
    .expr (.ofLine 1) (.step .blank .postInc (.index .blank "a" (.literal .blank (.int 1)))),
    .expr (.ofLine 1) (.scanf .blank (.literal .blank (.str "%d"))
      [.index .blank "b" (.literal .blank (.int 0))]),
    .ret (.ofLine 1) (some (.index .blank "a" (.literal .blank (.int 3))))]⟩]

/-- An array of three numbers has been made first, two of them have been set since, and the last that is
asked for is a fourth. -/
def overrun : History × Account Value → Bool
  | (⟨.make .int 3, .ok 0⟩ :: since, .finished (.error e) _) =>
      (History.lastSet? since 0 0).any (·.isInt 12) && (History.lastSet? since 0 1).any (·.isInt 6) &&
        e.cause == .indexOutOfBounds 3 3
  | _ => false

/-- One array, under two names and by four forms of expressions. -/
theorem arrays_are_maps_aliasing :
    (∃ id since, (Heap.empty.accesses [.make .int 3, .set 0 1 (.int 5), .get 0 3]).1 =
        ⟨.make .int 3, .ok id⟩ :: since ∧
      (Heap.empty.accesses [.make .int 3, .set 0 1 (.int 5), .get 0 3]).2.Mirrors id .int 3 since) ∧
    ∃ checked, aliasing.check = .ok checked ∧ ∃ since e m,
      (Program.recount checked.program (.start .standard "12")).Comes
        (⟨.make .int 3, .ok 0⟩ :: since) (.finished (.error e) m) ∧
      e.cause = .indexOutOfBounds 3 3 ∧ m.heap.Mirrors 0 .int 3 since ∧
      History.lastSet? since 0 0 = some (.int 12) ∧ History.lastSet? since 0 1 = some (.int 6) := by
  obtain ⟨heaps, runs⟩ := arrays_are_maps
  constructor
  · obtain ⟨id, since, made, -, mirrors⟩ := heaps .empty .int 3 [.set 0 1 (.int 5), .get 0 3] (by decide)
    exact ⟨id, since, made, mirrors⟩
  · have overruns : aliasing.admits (fun checked =>
        overrun ((Program.recount checked.program (.start .standard "12")).after 60)) = true := by
      decide +kernel
    obtain ⟨checked, hc, h⟩ := Program.of_admits overruns
    have comes := (Program.recount checked.program (.start .standard "12")).comes_after 60
    rw [overrun.eq_def] at h
    split at h
    · rename_i since e m ends
      rw [ends] at comes
      rw [Bool.and_eq_true, Bool.and_eq_true, beq_iff_eq] at h
      obtain ⟨⟨first, second⟩, cause⟩ := h
      have there := ((runs checked.program _ _).2 _ comes).2.2 [] 0 .int 3 since rfl m rfl
      exact ⟨checked, hc, since, e, m, comes, cause, there, Value.some_of_isInt first,
        Value.some_of_isInt second⟩
    · cases h

end Brace
