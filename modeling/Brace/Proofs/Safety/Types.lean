import Brace.Proofs.Safety.Start

/-!
# Safety — values are of the types that checking noted

Where a program has no classes and nothing is left to be known only when it runs, what an expression
gives is of the type that checking noted on it. That holds through and through: the elements of an
array are of its element type, whoever has stored them and through whatever name, and they stay so.

* `run_preserves_types`: what an expression gives is of its type then and ever after.
-/

namespace Brace

/-- The value is of the type through and through. -/
def Value.Inhabits (h : Heap) : Ty → Value → Prop
  | .void, v | .nil, v => v = .nil
  | .bool, v     => ∃ b, v = .bool b
  | .int, v      => ∃ n, v = .int n
  | .float, v    => ∃ x, v = .float x
  | .str, v      => ∃ s, v = .str s
  | .array t, v  => v = .nil ∨ ∃ id, v = .array id ∧ id < h.arrays.size ∧
      ∀ w ∈ (h.cells id).items, Value.Inhabits h t w
  | .object x, v => v = .nil ∨ ∃ o, v = .object o ∧ o.cls.isA x = true
  | .function, v => (∃ f, v = .function f) ∨ ∃ b, v = .builtin b
  | .any, _      => True

variable {P : Plan} {s : Site}

/-- What is stored in arrays is of their element types, so one look tells all. -/
theorem Site.Ok.inhabits (ok : s.Ok P) (hT : P.program.Typed) : ∀ {t : Ty} {v : Value},
    t.isAnyFree = true → v.Fits P.program.Typed s.heap t → v.Inhabits s.heap t := by
  intro t
  induction t with
  | array t ih =>
      intro v ha hv
      cases hv with
      | noArray => exact .inl rfl
      | @array id _ hi ht =>
          refine .inr ⟨id, rfl, hi, fun w hw => ih ha ?_⟩
          have fit := (ok.items id w hw).2
          rw [ht] at fit
          exact fit hT.settled ha
  | any =>
      intro v ha
      cases ha
  | object x =>
      intro v _ hv
      cases hv
      exact .inl rfl
  | function =>
      intro v _ hv
      cases hv with
      | closure f => exact .inl ⟨f, rfl⟩
      | builtin b => exact .inr ⟨b, rfl⟩
      | noFunction hn => exact absurd hT hn
  | void | nil =>
      intro v _ hv
      cases hv
      rfl
  | _ =>
      intro v _ hv
      cases hv
      exact ⟨_, rfl⟩

/-- **Type preservation.**  What an expression gives in a run of a program without classes, in which
nothing is left to be known only when it runs, is of the type that checking noted on the expression.
Wherever the run gets to from there, the value is of the type still. -/
theorem run_preserves_types {p : Program} {checked : Checked} (h : p.check = .ok checked)
    (ht : checked.program.Typed) (settings : Settings) (stdin : String) {e : Expr}
    {m m' : Machine} {v : Value} {resume : Except Error Value → Machine → Progress Value}
    (hq : (checked.program.run (.start settings stdin)).Steps (.waiting (.expr e) m resume))
    (hv : (Job.expr e).Answers m (.ok v) m') :
    ∃ t, e.ty? = some t ∧ v.Inhabits m'.heap t ∧ ∀ q m'', (resume (.ok v) m').Steps q →
      q.machine? = some m'' → v.Inhabits m''.heap t := by
  have waits := (Program.meets_run h settings stdin).steps (sound_kept _) hq
  obtain ⟨W, Γ, ⟨-, -, covers⟩, answered⟩ := waits.asked
  obtain ⟨after, W', reached, yields⟩ := answered _ _ hv
  obtain ⟨t, hnote, fits⟩ := Expr.Yields.suits yields ht
  have ha := ht.annotated e t covers.self hnote
  refine ⟨t, hnote, reached.ok.inhabits ht ha (fits ha), fun q m'' hs hm => ?_⟩
  have grows : (resume (.ok v) m').Grows m'.heap := by
    have start := (Program.restores_run checked.program).grows (.start settings stdin)
    have hm := restoring_kept.answers (g := ()) trivial hv
    exact (start.steps hq).2 _ _ hm.heap
  obtain ⟨W'', ok⟩ := (after.steps (sound_kept _) hs).site (fun _ _ ⟨W, ok, _⟩ => ⟨W, ok⟩) hm
  exact ok.inhabits ht ha ((fits ha).grown ((grows.steps hs).machine hm))

/-- `int main() { int[] xs = new int[2]; xs[1] = 7; return xs[1]; }` -/
def storing : Program := [.func ⟨.ofLine 1, .int, "main", [],
  [⟨.ofLine 2, .array .int, "xs", some (.arrayNew .blank .int (.literal .blank (.int 2)))⟩],
  [.expr (.ofLine 3)
      (.indexAssign .blank "xs" (.literal .blank (.int 1)) (.literal .blank (.int 7))),
    .ret (.ofLine 4) (some (.index .blank "xs" (.literal .blank (.int 1))))]⟩]

/-- The new array has whole numbers for elements from the start, and goes on so when one is
stored. -/
theorem run_preserves_types_storing : ∃ checked, storing.check = .ok checked ∧
    checked.program.Typed ∧ ∃ e m resume v m',
      (checked.program.run (.start .standard "")).Steps (.waiting (.expr e) m resume) ∧
      (Job.expr e).Answers m (.ok v) m' ∧ e.ty? = some (.array .int) ∧
      v.Inhabits m'.heap (.array .int) ∧ ∀ q m'', (resume (.ok v) m').Steps q →
        q.machine? = some m'' → v.Inhabits m''.heap (.array .int) := by
  have accepted : storing.admits (fun checked => decide checked.program.Typed &&
      (checked.program.run (.start .standard "")).waitsFor 1 fun e m =>
        e.ty? == some (.array .int) && (Job.expr e).yields 3 m fun _ _ => true) = true := by
    decide +kernel
  obtain ⟨checked, hc, test⟩ := Program.of_admits accepted
  rw [Bool.and_eq_true, decide_eq_true_eq] at test
  obtain ⟨ht, test⟩ := test
  obtain ⟨e, m, resume, hq, test⟩ := Progress.steps_of_waitsFor test
  rw [Bool.and_eq_true, beq_iff_eq] at test
  obtain ⟨hnote, test⟩ := test
  obtain ⟨v, m', hv, -⟩ := Job.answers_of_yields test
  obtain ⟨t, ht', now, later⟩ := run_preserves_types hc ht .standard "" hq hv
  cases hnote.symm.trans ht'
  exact ⟨checked, hc, ht, e, m, resume, v, m', hq, hv, hnote, now, later⟩

end Brace
