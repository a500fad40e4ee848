import Brace.Proofs.Safety.Failures

/-!
# Safety — showing a value comes to an end

A value is shown by going down into it, and nothing keeps a program from writing an array into itself
where an array may hold anything. Where checking has noted no type with `any` in it, types keep it from
doing so, and whatever is shown has a text.

* `run_renders_values`: wherever a run gets to, no array contains itself and every value has a text.
* `run_goes_round`: with `any`, or where a predefined name is taken, a run may show an array that
  contains itself.
-/

namespace Brace

section

variable {p : Program} {checked : Checked}

/-- **Rendering ends.**  Where no expression has a type with `any` in it, and no name that means
something predefined where it is used is taken by the program, no array ever contains itself, and every
value has a text. This holds wherever a run gets to and whenever a job is answered, and whatever a run
shows, it does not go on forever over it. -/
theorem run_renders_values (h : p.check = .ok checked) (settled : checked.program.Settled)
    (settings : Settings) (stdin : String) {q : Progress Value}
    (hq : (checked.program.run (.start settings stdin)).Steps q) :
    q ≠ .endless ∧ (∀ m, q.machine? = some m → m.heap.Straight) ∧
    ∀ j m resume, q = .waiting j m resume → ∀ r m', j.Answers m r m' → m'.heap.Straight := by
  have left := (Program.ends_run h settings stdin).steps (sound_kept _) hq
  refine ⟨?_, ?_, ?_⟩
  · rintro rfl
    -- A run that keeps the contract is only endless where types are not settled.
    exact left settled
  · intro m hm
    obtain ⟨W, ok⟩ := left.site (fun _ _ ⟨W, ok, _⟩ => ⟨W, ok⟩) hm
    exact ok.straight settled
  · rintro j m resume rfl r m' answers
    obtain ⟨W, Γ, -, answered⟩ := left.asked
    obtain ⟨-, W', reached, -⟩ := answered r m' answers
    exact reached.ok.straight settled

/-- `int main() { int[][] a = new int[][1]; a[0] = new int[1]; print(a); return 0; }` -/
def layering : Program := [.func ⟨.ofLine 1, .int, "main", [],
  [⟨.ofLine 1, .array (.array .int), "a",
    some (.arrayNew .blank (.array .int) (.literal .blank (.int 1)))⟩],
  [.expr (.ofLine 1) (.indexAssign .blank "a" (.literal .blank (.int 0))
      (.arrayNew .blank .int (.literal .blank (.int 1)))),
    .expr (.ofLine 1) (.call .blank (.name .blank "print") [.name .blank "a"]),
    .ret (.ofLine 1) (some (.literal .blank (.int 0)))]⟩]

/-- Looks for an array among the elements of another. -/
def Heap.holds (h : Heap) (id inner : ArrayId) : Bool :=
  (h.cells id).items.any fun
    | .array other => other == inner
    | _            => false

/-- A test of a heap tells whether an array holds another. -/
theorem Heap.holds_of_eq {h : Heap} {id inner : ArrayId} (e : h.holds id inner = true) :
    h.Holds id inner := by
  obtain ⟨v, hv, found⟩ := Array.any_eq_true'.mp e
  cases v with
  | array other =>
      cases beq_iff_eq.mp found
      exact hv
  | _ => cases found

/-- One array holds another when the run has come so far, and they are shown. -/
theorem run_renders_values_layering : ∃ checked, layering.check = .ok checked ∧
    checked.program.Settled ∧ ∃ q m, (checked.program.run (.start .standard "")).Steps q ∧
      q.machine? = some m ∧ m.heap.Holds 0 1 ∧ q ≠ .endless ∧ m.heap.Straight := by
  have accepted : layering.admits (fun checked => checked.program.settled &&
      ((checked.program.run (.start .standard "")).after 12).machine?.any (·.heap.holds 0 1)) =
        true := by
    decide +kernel
  obtain ⟨checked, hc, test⟩ := Program.of_admits accepted
  rw [Bool.and_eq_true, Option.any_eq_true] at test
  obtain ⟨settled, m, hm, holds⟩ := test
  have settled := Program.settled_of_eq settled
  have comes := Progress.steps_after 12 (checked.program.run (.start .standard ""))
  obtain ⟨ends, straight, -⟩ := run_renders_values hc settled .standard "" comes
  exact ⟨checked, hc, settled, _, m, comes, hm, Heap.holds_of_eq holds, ends, straight m hm⟩

/-! ### Arrays in themselves -/

/-- `int main() { any[] a = new any[1]; a[0] = a; print(a); return 0; }` -/
def winding : Program := [.func ⟨.ofLine 1, .int, "main", [],
  [⟨.ofLine 1, .array .any, "a", some (.arrayNew .blank .any (.literal .blank (.int 1)))⟩],
  [.expr (.ofLine 1) (.indexAssign .blank "a" (.literal .blank (.int 0)) (.name .blank "a")),
    .expr (.ofLine 1) (.call .blank (.name .blank "print") [.name .blank "a"]),
    .ret (.ofLine 1) (some (.literal .blank (.int 0)))]⟩]

/-- `int[] a = new int[1]; int f() { a[0] = len("x"); return 0; }`
`int[] len(string s) { return a; } int main() { f(); print(a); return 0; }` -/
def rewinding : Program := [
  .var ⟨.ofLine 1, .array .int, "a", some (.arrayNew .blank .int (.literal .blank (.int 1)))⟩,
  .func ⟨.ofLine 1, .int, "f", [], [], [
    .expr (.ofLine 1) (.indexAssign .blank "a" (.literal .blank (.int 0))
      (.call .blank (.name .blank "len") [.literal .blank (.str "x")])),
    .ret (.ofLine 1) (some (.literal .blank (.int 0)))]⟩,
  .func ⟨.ofLine 2, .array .int, "len", [⟨.str, "s"⟩], [],
    [.ret (.ofLine 2) (some (.name .blank "a"))]⟩,
  .func ⟨.ofLine 2, .int, "main", [], [], [
    .expr (.ofLine 2) (.call .blank (.name .blank "f") []),
    .expr (.ofLine 2) (.call .blank (.name .blank "print") [.name .blank "a"]),
    .ret (.ofLine 2) (some (.literal .blank (.int 0)))]⟩]

def Progress.isEndless {α : Type} : Progress α → Bool
  | .endless => true
  | _        => false

/-- The program is accepted and passes a test, its first array contains itself when its run has begun so
many jobs, and with the next job it shows something that has no text. -/
def Program.goesRound (p : Program) (n : Nat) (test : Program → Bool) : Bool :=
  p.admits fun checked => test checked.program &&
    (((checked.program.run (.start .standard "")).after n).machine?.any (·.heap.holds 0 0) &&
      ((checked.program.run (.start .standard "")).after (n + 1)).isEndless)

/-- A program that is found to show an array that contains itself has been accepted and goes on
forever. -/
theorem Program.endless_of_goesRound {p : Program} {n : Nat} {test : Program → Bool}
    (h : p.goesRound n test = true) : ∃ checked, p.check = .ok checked ∧
      test checked.program = true ∧
      (∃ q m id, (checked.program.run (.start .standard "")).Steps q ∧ q.machine? = some m ∧
        m.heap.Contains id id) ∧
      (checked.program.run (.start .standard "")).Steps .endless := by
  obtain ⟨checked, hc, h⟩ := of_admits h
  rw [Bool.and_eq_true, Bool.and_eq_true, Option.any_eq_true] at h
  obtain ⟨test, ⟨m, hm, holds⟩, ends⟩ := h
  have comes := Progress.steps_after n (checked.program.run (.start .standard ""))
  have left := Progress.steps_after (n + 1) (checked.program.run (.start .standard ""))
  have round : m.heap.Contains 0 0 := .single (Heap.holds_of_eq holds)
  refine ⟨checked, hc, test, ⟨_, m, 0, comes, hm, round⟩, ?_⟩
  generalize (checked.program.run (.start .standard "")).after (n + 1) = q at left ends
  cases q with
  | endless => exact left
  | _ => cases ends

/-- An array may be written into itself where it holds anything, and also where no type has `any` in it,
by a function of the program that has taken a predefined name. A run that shows it never ends. -/
theorem run_goes_round :
    (∃ checked, winding.check = .ok checked ∧
      (∃ q m id, (checked.program.run (.start .standard "")).Steps q ∧ q.machine? = some m ∧
        m.heap.Contains id id) ∧
      (checked.program.run (.start .standard "")).Steps .endless) ∧
    ∃ checked, rewinding.check = .ok checked ∧
      (∀ e t, .expr e ∈ checked.program.parts → e.ty? = some t → t.isAnyFree = true) ∧
      (∃ q m id, (checked.program.run (.start .standard "")).Steps q ∧ q.machine? = some m ∧
        m.heap.Contains id id) ∧
      (checked.program.run (.start .standard "")).Steps .endless := by
  have wound : winding.goesRound 11 (fun _ => true) = true := by decide +kernel
  have rewound : rewinding.goesRound 22 Program.isAnyFree = true := by decide +kernel
  constructor
  · obtain ⟨checked, hc, -, rest⟩ := Program.endless_of_goesRound wound
    exact ⟨checked, hc, rest⟩
  · obtain ⟨checked, hc, free, rest⟩ := Program.endless_of_goesRound rewound
    exact ⟨checked, hc, Program.anyFree_of_isAnyFree free, rest⟩

end

end Brace
