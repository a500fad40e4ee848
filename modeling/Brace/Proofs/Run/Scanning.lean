import Brace.Proofs.Decimal.Numerals
import Brace.Proofs.Input.Reads
import Brace.Proofs.Run.Asks
import Brace.Proofs.Scope.Growth
import Brace.Proofs.Typing.Program

/-!
# Run — whole numbers that are read

A scan reads a word for each target, right before it stores there what the word says. So where numbers
stand in the input with blanks between them, and no target looks at the input itself, a scan does what
storing the numbers one after another does, and takes the input up to the last that it has read. A
target can look at the input, since an index may be any expression; what it reads is then missing for the
targets after it.

* `steps_scan`: a scan of numbers is their stores, one after another.
* `storesAll_names`: variables can be stored into, and hold the numbers then.
* `integers_survive`: whole numbers are written and read, cast and scanned, without a change.
* `scanf_loses_integer`: the index of a target may read a number that is meant for the next.
-/

namespace Brace

open Eval Progress

variable {α β : Type}

/-! ### Numbers in the input -/

/-- Numbers as they are shown, each with the text that stands in front of it. -/
def shown (items : List (List Char × Int64)) : List Char :=
  items.flatMap fun x => x.1 ++ (toString x.2.toInt).toList

/-- The text begins with these numbers. Between them there are blanks, and in front of them there may be
some; after them there is nothing, or a blank first. -/
structure Listed (items : List (List Char × Int64)) (rest text : List Char) : Prop where
  text  : text = shown items ++ rest
  blank : ∀ x ∈ items, ∀ c ∈ x.1, Text.isBlank c = true
  apart : ∀ x ∈ items.tail, x.1 ≠ []
  stop  : ∀ c ∈ rest.head?, Text.isBlank c = true

namespace Listed

variable {items : List (List Char × Int64)} {gap rest text : List Char} {n : Int64}

/-- After the first number the others are listed still. -/
theorem tail (h : Listed ((gap, n) :: items) rest text) :
    Listed items rest (shown items ++ rest) where
  text := rfl
  blank x hx := h.blank x (List.mem_cons_of_mem _ hx)
  apart x hx := h.apart x (List.mem_of_mem_tail hx)
  stop := h.stop

/-- What comes after a number is nothing, or a blank first. -/
theorem head (h : Listed ((gap, n) :: items) rest text) :
    ∀ c ∈ (shown items ++ rest).head?, Text.isBlank c = true := by
  cases items with
  | nil => exact h.stop
  | cons x items =>
      obtain ⟨d, gap', e⟩ := List.exists_cons_of_ne_nil (h.apart x (List.mem_cons_self ..))
      intro c hc
      rw [shown, List.flatMap_cons, e] at hc
      cases hc
      refine h.blank x (List.mem_cons_of_mem _ (List.mem_cons_self ..)) d ?_
      rw [e]
      exact List.mem_cons_self ..

/-- The first number is the first word. -/
theorem readWord (h : Listed ((gap, n) :: items) rest text) :
    Input.readWord ⟨text⟩ = (some (toString n.toInt).toList, ⟨shown items ++ rest⟩) := by
  obtain ⟨ne, word⟩ := (Decimal.spells_toString n.toInt).solid
  have blank := h.blank _ (List.mem_cons_self ..)
  have text : text = gap ++ (toString n.toInt).toList ++ (shown items ++ rest) := by
    rw [h.text, shown, List.flatMap_cons, shown, List.append_assoc, List.append_assoc]
  rw [text, Input.readWord_append blank ne word h.head]

end Listed

/-! ### Stores -/

namespace Eval

/-- Stores a value where a target says. -/
def store (v : Value) (target : Expr) : Eval Unit := do
  let here ← place target
  here.write v target.pos

/-- A word that can be read is stored. -/
theorem scanInto_eq {p : Position} {s : Specifier} {target : Expr} {m : Machine} {w : List Char}
    {v : Value} {i : Input} (word : m.input.readWord = (some w, i)) (read : s.read w = some v) :
    scanInto p s target m = store v target { m with input := i } := by
  simp only [scanInto, bind_apply, make, Machine.readWord, word, finished_andThen, onValue, read]
  rfl

/-- Where numbers are listed, the first of them is stored. -/
theorem scanInto_listed {p : Position} {target : Expr} {m : Machine} {gap rest text : List Char}
    {n : Int64} {items : List (List Char × Int64)} (h : Listed ((gap, n) :: items) rest text) :
    scanInto p .int target { m with input := ⟨text⟩ } =
      store (.int n) target { m with input := ⟨shown items ++ rest⟩ } :=
  scanInto_eq h.readWord (Specifier.read_toString n)

/-- The computation ends so whatever the input is, which it leaves as it is. -/
def EndsUnread (x : Eval α) (m : Machine) (r : Except Error α) (m' : Machine) : Prop :=
  ∀ input, (x { m with input }).Steps (.finished r { m' with input })

/-- What follows passes an end on as it is. -/
theorem steps_map {x : Eval α} {m m' : Machine} {r : Except Error α} (b : β)
    (h : (x m).Steps (.finished r m')) :
    ((x >>= fun _ => pure b) m).Steps (.finished (r.map fun _ => b) m') := by
  have ends := h.andThen (onValue fun _ => (pure b : Eval β))
  cases r <;> exact ends

end Eval

/-- Numbers are stored in targets one after another, without a look at the input: all of them, or up to
the first that cannot be stored, after which some are left. -/
inductive StoresAll : List Expr → List (List Char × Int64) → Machine → Except Error Unit → Machine →
    (left : List (List Char × Int64)) → Prop
  | done (m : Machine) : StoresAll [] [] m (.ok ()) m []
  | more {target : Expr} {targets : List Expr} {gap : List Char} {n : Int64}
      {items left : List (List Char × Int64)} {m m₁ m' : Machine} {r : Except Error Unit}
      (stored : (store (.int n) target).EndsUnread m (.ok ()) m₁)
      (others : StoresAll targets items m₁ r m' left) :
      StoresAll (target :: targets) ((gap, n) :: items) m r m' left
  | failed {target : Expr} {gap : List Char} {n : Int64} {m m' : Machine} {e : Error}
      (failure : (store (.int n) target).EndsUnread m (.error e) m') (targets : List Expr)
      (items : List (List Char × Int64)) :
      StoresAll (target :: targets) ((gap, n) :: items) m (.error e) m' items

/-- A scan of numbers is their stores, one after another. -/
theorem steps_scan {targets : List Expr} {items left : List (List Char × Int64)} {rest : List Char}
    {m m' : Machine} {r : Except Error Unit} (p : Position)
    (stores : StoresAll targets items m r m' left) (text : Listed items rest (shown items ++ rest)) :
    ((((List.replicate items.length Specifier.int).zip targets).forM fun x => scanInto p x.1 x.2)
        { m with input := ⟨shown items ++ rest⟩ }).Steps
      (.finished r { m' with input := ⟨shown left ++ rest⟩ }) := by
  induction stores with
  | done m => exact .refl _
  | more stored others ih =>
      rw [List.length_cons, List.replicate_succ, List.zip_cons_cons]
      refine steps_bind (x := scanInto p .int _) (a := ()) ?_ (ih text.tail)
      rw [scanInto_listed text]
      exact stored _
  | @failed target gap n m m' e failure targets items =>
      rw [List.length_cons, List.replicate_succ, List.zip_cons_cons]
      show ((scanInto p .int target >>= fun _ => List.forM _ _) _).Steps _
      rw [bind_apply, scanInto_listed text]
      exact (failure _).andThen _

/-- So it is for a `scanf` whose format has as many specifiers for numbers. -/
theorem answers_scanf {note : Note} {format : Expr} {targets : List Expr} {template : String}
    {items left : List (List Char × Int64)} {rest : List Char} {m₀ m m' : Machine}
    {r : Except Error Unit} (formatted : (Job.expr format).Answers m₀ (.ok (.str template)) m)
    (text : Listed items rest m.input.rest)
    (specifiers : Template.specifiers template = List.replicate items.length .int)
    (many : targets.length = items.length) (stores : StoresAll targets items m r m' left) :
    (Job.expr (.scanf note format targets)).Answers m₀ (r.map fun _ => .nil)
      { m' with input := ⟨shown left ++ rest⟩ } := by
  rw [Job.answers_iff_steps]
  have same : { m with input := ⟨shown items ++ rest⟩ } = m := by rw [← text.text]
  have scanned : (scan note.pos template targets m).Steps
      (.finished r { m' with input := ⟨shown left ++ rest⟩ }) := by
    rw [scan, specifiers, if_pos (by rw [List.length_replicate, many])]
    have steps := steps_scan note.pos stores (text.text ▸ text)
    rw [same] at steps
    exact steps
  exact steps_bind (formatted.steps .finished) (steps_map Value.nil scanned)

/-! ### Variables -/

namespace Forest

variable {s : Forest α} {x y : String} {i : FrameId}

/-- A name whose nearest binding is changed is found there still. -/
theorem nearestIn_bind_self {b : Option α} (b' : Option α) : ∀ {is : List FrameId},
    s.nearestIn x is = some (i, b) → (s.bind i x b').nearestIn x is = some (i, b')
  | j :: is, found => by
      obtain ⟨-, hb⟩ := binding?_of_nearestIn found
      rw [nearestIn] at found ⊢
      cases e : s.binding? j x with
      | some b₀ =>
          rw [e] at found
          cases found
          rw [binding?_bind_self s (lt_of_binding? hb)]
      | none =>
          have ne : i ≠ j := by
            rintro rfl
            rw [hb] at e
            cases e
          rw [e] at found
          rw [binding?_bind_frame s ne, e]
          exact nearestIn_bind_self b' found

/-- A name that is found is found in the same frame when it has been bound anew. -/
theorem nearest?_bind_self {k : Handle} {b : Option α} (found : s.nearest? k x = some (i, b))
    (b' : Option α) : (s.bind i x b').nearest? k x = some (i, b') := by
  rw [nearest?, chain_bind]
  exact nearestIn_bind_self b' found

/-- Another name is found where it was. -/
theorem nearest?_bind_name (s : Forest α) (i : FrameId) (ne : x ≠ y) (b : Option α) (k : Handle) :
    (s.bind i x b).nearest? k y = s.nearest? k y := by
  rw [nearest?, chain_bind]
  exact nearestIn_congr fun j _ => binding?_bind_name s i j ne b

end Forest

namespace Machine

variable {m : Machine} {x y : String} {i : FrameId}

/-- A variable that has been assigned to holds what it has been assigned. -/
theorem lookup_bind_self (hi : m.scopes.assignable m.here x = .ok i) (v : Value) :
    (m.bind i x (some v)).lookup x = .ok v := by
  obtain ⟨b, found⟩ := Forest.finds_of_assignable hi
  have bound : (m.scopes.bind i x (some v)).nearest? m.here x = some (i, some v) :=
    Forest.nearest?_bind_self found (some v)
  rw [lookup, Machine.bind, Forest.lookup, bound]

/-- Other names hold what they held. -/
theorem lookup_bind_name (m : Machine) (i : FrameId) (ne : x ≠ y) (b : Option Value) :
    (m.bind i x b).lookup y = m.lookup y := by
  rw [lookup, Machine.bind, Forest.lookup, Forest.nearest?_bind_name m.scopes i ne b]
  rfl

/-- Other variables may be assigned to as before. -/
theorem assignable_bind_name (m : Machine) (i : FrameId) (ne : x ≠ y) (b : Option Value) :
    (m.bind i x b).scopes.assignable m.here y = m.scopes.assignable m.here y := by
  rw [Machine.bind, Forest.assignable, Forest.nearest?_bind_name m.scopes i ne b, Forest.assignable]
  simp only [Forest.isFrozen_bind]

end Machine

/-- To store a value in a variable reads nothing from the input. -/
theorem Eval.endsUnread_store_name {m : Machine} {x : String} {i : FrameId}
    (hi : m.scopes.assignable m.here x = .ok i) (n : Note) (v : Value) :
    (store v (.name n x)).EndsUnread m (.ok ()) (m.bind i x (some v)) := fun input => by
  have stored : store v (.name n x) { m with input } =
      .finished (.ok ()) { m.bind i x (some v) with input } := by
    simp only [store, bind_apply, place, pure_apply, finished_andThen, onValue, Place.write, assign,
      update, hi]
    rfl
  rw [stored]
  exact .refl _

/-- Numbers can be stored in variables, one in each, which hold them then. Other names stand for what
they stood for. -/
theorem storesAll_names : ∀ {xs : List (Note × String)} {items : List (List Char × Int64)}
    {m : Machine}, xs.length = items.length → (xs.map Prod.snd).Nodup →
    (∀ x ∈ xs, ∃ i, m.scopes.assignable m.here x.2 = .ok i) →
    ∃ m', StoresAll (xs.map fun x => .name x.1 x.2) items m (.ok ()) m' [] ∧
      (∀ p ∈ (xs.map Prod.snd).zip (items.map Prod.snd), m'.lookup p.1 = .ok (.int p.2)) ∧
      ∀ y ∉ xs.map Prod.snd, m'.lookup y = m.lookup y
  | [], [], m, _, _, _ => ⟨m, .done m, nofun, fun _ _ => rfl⟩
  | (note, x) :: xs, (gap, n) :: items, m, same, distinct, free => by
      rw [List.map_cons, List.nodup_cons] at distinct
      obtain ⟨new, distinct⟩ := distinct
      obtain ⟨i, hi⟩ := free _ (List.mem_cons_self ..)
      have others {y : Note × String} (hy : y ∈ xs) : x ≠ y.2 := by
        rintro rfl
        have mem : y.2 ∈ xs.map Prod.snd := List.mem_map_of_mem hy
        exact new mem
      obtain ⟨m', stores, held, kept⟩ := storesAll_names (m := m.bind i x (some (.int n)))
        (Nat.succ.inj same) distinct fun y hy => by
          obtain ⟨j, hj⟩ := free y (List.mem_cons_of_mem _ hy)
          exact ⟨j, (m.assignable_bind_name i (others hy) _).trans hj⟩
      refine ⟨m', .more (endsUnread_store_name hi note _) stores, ?_, ?_⟩
      · rw [List.map_cons, List.map_cons, List.zip_cons_cons, List.forall_mem_cons]
        exact ⟨(kept x new).trans (Machine.lookup_bind_self hi _), held⟩
      · intro y hy
        rw [List.map_cons, List.mem_cons, not_or] at hy
        exact (kept y hy.2).trans (m.lookup_bind_name i (Ne.symm hy.1) _)

/-! ### Elements -/

namespace Eval

/-- One thing after another reads nothing if neither part does. -/
theorem EndsUnread.bind {x : Eval α} {f : α → Eval β} {m m₁ m₂ : Machine} {a : α}
    {r : Except Error β} (hx : x.EndsUnread m (.ok a) m₁) (hf : (f a).EndsUnread m₁ r m₂) :
    (x >>= f).EndsUnread m r m₂ := fun input => steps_bind (hx input) (hf input)

/-- A literal reads nothing. -/
theorem endsUnread_literal (m : Machine) (n : Note) (l : Literal) :
    (Expr.literal n l).eval.EndsUnread m (.ok (.ofLiteral l)) m := fun _ =>
  .more (.refl _)

/-- An element can be stored into whose index does not look at the input. -/
theorem endsUnread_store_element {m m₁ : Machine} {x : String} {id : ArrayId} {index : Expr}
    {i : Int64} {k : Nat} (array : m.lookup x = .ok (.array id))
    (value : index.eval.EndsUnread m (.ok (.int i)) m₁) (slot : m₁.heap.slot id i = .ok k) (n : Note)
    (v : Value) :
    (store v (.index n x index)).EndsUnread m (.ok ()) (m₁.writeElement id k v) := by
  have found : (lookupArray x n.pos).EndsUnread m (.ok id) m := fun input => by
    have same : ({ m with input } : Machine).lookup x = .ok (.array id) := array
    simp only [lookupArray, bind_apply, Eval.lookup, consult, same, finished_andThen, onValue]
    exact .refl _
  have written : (setElement id i v n.pos).EndsUnread m₁ (.ok ()) (m₁.writeElement id k v) :=
    fun input => by
      simp only [setElement, update, slot]
      exact .refl _
  have placed : (place (.index n x index)).EndsUnread m (.ok (.element id i)) m₁ :=
    found.bind (value.bind fun _ => .refl _)
  exact placed.bind written

end Eval

/-- **Whole numbers survive.**  A number is shown as text that is read as this number again, by the
specifier for whole numbers and by a cast, and a cast gives this text. What the specifier reads as a whole
number is a text that spells one of 64 bits, and nothing else. Where such numbers stand in the input with
blanks between them, a `scanf` with as many specifiers does what storing them in its targets one after
another does, provided that no target looks at the input: it ends as the stores end, and what is left of
the input is what stands after the last number that was to be stored. In particular variables, one
for each number, hold the numbers afterwards. -/
theorem integers_survive :
    (∀ (h : Heap) (n : Int64), ∃ text, h.text? (.int n) = some text ∧
      Specifier.int.read text.toList = some (.int n) ∧
      Value.castTo "int" (.str text) = .ok (.int n) ∧
      Value.castTo "string" (.int n) = .ok (.str text)) ∧
    (∀ word v, Specifier.int.read word = some v ↔
      ∃ n : Int64, v = .int n ∧ Decimal.Spells word n.toInt) ∧
    ∀ items rest (m₀ m : Machine) note format template,
      (Job.expr format).Answers m₀ (.ok (.str template)) m →
      Template.specifiers template = List.replicate items.length .int →
      Listed items rest m.input.rest →
      (∀ targets r m' left, targets.length = items.length → StoresAll targets items m r m' left →
        (Job.expr (.scanf note format targets)).Answers m₀ (r.map fun _ => .nil)
          { m' with input := ⟨shown left ++ rest⟩ }) ∧
      ∀ xs : List (Note × String), xs.length = items.length → (xs.map Prod.snd).Nodup →
        (∀ x ∈ xs, ∃ i, m.scopes.assignable m.here x.2 = .ok i) →
        ∃ m', (Job.expr (.scanf note format (xs.map fun x => .name x.1 x.2))).Answers m₀
            (.ok .nil) m' ∧ m'.input.rest = rest ∧
          (∀ p ∈ (xs.map Prod.snd).zip (items.map Prod.snd), m'.lookup p.1 = .ok (.int p.2)) ∧
          ∀ y ∉ xs.map Prod.snd, m'.lookup y = m.lookup y := by
  refine ⟨fun h n => ⟨_, h.text?_int n, Specifier.read_toString n, Value.castTo_toString n, rfl⟩,
    fun word v => Specifier.read_int_iff, ?_⟩
  intro items rest m₀ m note format template formatted specifiers listed
  refine ⟨fun targets r m' left many stores =>
    answers_scanf formatted listed specifiers many stores, fun xs same distinct free => ?_⟩
  obtain ⟨m', stores, held, kept⟩ := storesAll_names same distinct free
  have many : (xs.map fun x : Note × String => Expr.name x.1 x.2).length = items.length := by
    rw [List.length_map, same]
  exact ⟨_, answers_scanf formatted listed specifiers many stores, rfl, held, kept⟩

/-- An array `a` of two numbers, a variable `x`, and two numbers to read. -/
def awaiting : Machine :=
  let m := Machine.start .standard " 12\t-7\n"
  (({ m with heap := (m.heap.addArray .int #[.int 0, .int 0]).2 }).bind 1 "a" (some (.array 0))).bind 1
    "x" (some .nil)

/-- `scanf("%d and %d", a[1], x)` and `scanf("%d and %d", x, a)` store both numbers. -/
theorem integers_survive_awaiting :
    (∃ m', (Job.expr (.scanf .blank (.literal .blank (.str "%d and %d"))
        [.index .blank "a" (.literal .blank (.int 1)), .name .blank "x"])).Answers awaiting
          (.ok .nil) m' ∧
      m'.heap.element 0 1 = .ok (.int 12) ∧ m'.lookup "x" = .ok (.int (-7)) ∧
        m'.input.rest = ['\n']) ∧
    ∃ m', (Job.expr (.scanf .blank (.literal .blank (.str "%d and %d"))
        [.name .blank "x", .name .blank "a"])).Answers awaiting (.ok .nil) m' ∧
      m'.lookup "x" = .ok (.int 12) ∧ m'.lookup "a" = .ok (.int (-7)) := by
  have listed : Listed [([' '], 12), (['\t'], -7)] ['\n'] awaiting.input.rest :=
    ⟨by decide +kernel, by simp [Text.isBlank], by decide, by simp [Text.isBlank]⟩
  have formatted : (Job.expr (.literal .blank (.str "%d and %d"))).Answers awaiting
      (.ok (.str "%d and %d")) awaiting := ⟨1, rfl⟩
  obtain ⟨anywhere, named⟩ := integers_survive.2.2 _ _ _ _ .blank _ _ formatted
    (by decide +kernel) listed
  constructor
  · have first := endsUnread_store_element (m := awaiting) (x := "a") (k := 1) rfl
      (endsUnread_literal awaiting .blank (.int 1)) rfl .blank (.int 12)
    have second := endsUnread_store_name (m := awaiting.writeElement 0 1 (.int 12)) (x := "x")
      (i := 1) (by decide +kernel) .blank (.int (-7))
    refine ⟨_, anywhere _ _ _ _ rfl (.more first (.more second (.done _))), ?_, ?_, ?_⟩
    · rfl
    · rfl
    · rfl
  · obtain ⟨m', answers, -, held, -⟩ := named [(.blank, "x"), (.blank, "a")] rfl (by decide)
      (by
        intro x hx
        rw [List.mem_cons, List.mem_singleton] at hx
        obtain rfl | rfl := hx <;> exact ⟨1, by decide +kernel⟩)
    exact ⟨m', answers, held ("x", 12) (by decide), held ("a", -7) (by decide)⟩

/-- `int main() { int[] a = new int[3]; int b = 0;`
`scanf("%d%d", a[len(input(""))], b); return b; }` -/
def starving : Program := [.func ⟨.ofLine 1, .int, "main", [],
  [⟨.ofLine 1, .array .int, "a", some (.arrayNew .blank .int (.literal .blank (.int 3)))⟩,
    ⟨.ofLine 1, .int, "b", some (.literal .blank (.int 0))⟩],
  [.expr (.ofLine 1) (.scanf .blank (.literal .blank (.str "%d%d"))
      [.index .blank "a" (.call .blank (.name .blank "len")
        [.call .blank (.name .blank "input") [.literal .blank (.str "")]]), .name .blank "b"]),
    .ret (.ofLine 1) (some (.name .blank "b"))]⟩]

/-- The run has missed an input for a scan, after it has stored the number 1. -/
def starved : Except Error Value × Machine → Bool
  | (.error e, m) => e.cause == .builtinCallFailure "scanf" "input stream is exhausted" &&
      (m.heap.element 0 2).toOption.any (·.isInt 1)
  | (.ok _, _)    => false

/-- The second number is what the index of the first target reads. So the first is stored, and there is
none for the second target. -/
theorem scanf_loses_integer : Template.specifiers "%d%d" = List.replicate 2 .int ∧
    "1 2".toList = shown [([], 1), ([' '], 2)] ∧
    ∃ checked, starving.check = .ok checked ∧ ∃ e m,
      (checked.program.run (.start .standard "1 2")).Steps (.finished (.error e) m) ∧
      e.cause = .builtinCallFailure "scanf" "input stream is exhausted" ∧
      m.heap.element 0 2 = .ok (.int 1) := by
  have starves : starving.admits (fun checked =>
      ((Program.run checked.program).run 20 (.start .standard "1 2")).any starved) = true := by
    decide +kernel
  obtain ⟨checked, hc, h⟩ := Program.of_admits starves
  rw [Option.any_eq_true] at h
  obtain ⟨⟨r, m⟩, ends, h⟩ := h
  refine ⟨by decide +kernel, by decide +kernel, checked, hc, ?_⟩
  cases r with
  | error e =>
      rw [starved, Bool.and_eq_true, beq_iff_eq] at h
      exact ⟨e, m, steps_of_complete _ ends, h.1, Value.ok_of_isInt h.2⟩
  | ok v => cases h

end Brace
