import Brace.Proofs.Loops.Frames
import Brace.Proofs.Loops.Heaps
import Brace.Proofs.Run.Stores

/-!
# Loops — machines alike

Machines alike work in scopes alike, on forests and heaps alike. Each operation that evaluation makes does
the same to both. What is done next may add to the matching, so of two computations it is said how they
get further (`Alongside`).

A machine is sound where each scope that it knows of is there. This is just when it is like some other
machine (`Machine.Sound.alike`, `Machine.Alike.sound`).
-/

namespace Brace

variable {w w₁ w₂ : Matching} {m m' m₁ m₁' m₂ m₂' : Machine} {v v' : Value} {x : String}

/-! ### Machines -/

structure Machine.Alike (w : Matching) (m m' : Machine) : Prop where
  scopes    : m.scopes.Alike w m'.scopes
  chain     : Thins w (m.scopes.chain m.here) (m'.scopes.chain m'.here)
  heap      : m.heap.Alike w m'.heap
  callDepth : m.callDepth = m'.callDepth
  settings  : m.settings = m'.settings
  input     : m.input = m'.input
  output    : m.output = m'.output

/-- Two machines have got further, and are alike. -/
structure Alongside (w : Matching) (m m' : Machine) (w₁ : Matching) (m₁ m₁' : Machine) : Prop where
  later : w.Later w₁
  alike : m₁.Alike w₁ m₁'
  left  : m.Restored m₁
  right : m'.Restored m₁'

namespace Alongside

theorem refl (h : m.Alike w m') : Alongside w m m' w m m' := ⟨.refl w, h, .refl m, .refl m'⟩

theorem trans (h : Alongside w m m' w₁ m₁ m₁') (h' : Alongside w₁ m₁ m₁' w₂ m₂ m₂') :
    Alongside w m m' w₂ m₂ m₂' :=
  ⟨h.later.trans h'.later, h'.alike, h.left.trans h'.left, h.right.trans h'.right⟩

/-- Where both work in frames that go together, they do so later on. -/
theorem here (h : Alongside w m m' w₁ m₁ m₁') (hp : w.pairs m.here.frame m'.here.frame) :
    w₁.pairs m₁.here.frame m₁'.here.frame := by
  rw [h.left.here, h.right.here]
  exact h.later.pairs hp

/-- Where both work in scopes alike, they do so later on. -/
theorem handle (h : Alongside w m m' w₁ m₁ m₁') (hk : m.here.Alike w m'.here) :
    m₁.here.Alike w₁ m₁'.here := by
  rw [h.left.here, h.right.here]
  exact hk.later h.later

end Alongside

namespace Machine.Alike

variable (h : m.Alike w m')

include h

/-! ### Names -/

theorem lookup (x : String) : Agree (Value.Alike w) (m.lookup x) (m'.lookup x) := by
  have found := h.scopes.lookup h.chain x
  rw [Machine.lookup, Machine.lookup]
  generalize m.scopes.lookup m.here x = r, m'.scopes.lookup m'.here x = r' at found
  cases found with
  | ok hv => exact .ok hv
  | error c => cases c <;> exact .error _

theorem bind {i j : FrameId} (hp : w.pairs i j) (x : String) {b b' : Option Value}
    (hb : Option.Rel (Value.Alike w) b b') :
    Alongside w m m' w (m.bind i x b) (m'.bind j x b') where
  later := .refl w
  alike := { h with
    scopes := h.scopes.bind hp x hb
    chain := by
      simp only [Machine.bind, Forest.chain_bind]
      exact h.chain }
  left := m.restored_bind i x b
  right := m'.restored_bind j x b'

/-! ### Frames -/

/-- Both work in scopes that are there. -/
theorem inside : m.here.frame < m.scopes.next ∧ m'.here.frame < m'.scopes.next := by
  obtain ⟨j, hj⟩ := h.chain.paired m.here.frame (.head _)
  exact ⟨h.scopes.left hj, h.chain.inside h.scopes.toBetween m'.here.frame (.head _)⟩

/-- The scopes that they work in stay alike. -/
theorem chain_later (le : w.Later w₁) {s s' : Forest Value} (grown : m.scopes.Grown s)
    (grown' : m'.scopes.Grown s') : Thins w₁ (s.chain m.here) (s'.chain m'.here) := by
  have chain := h.chain.later le
  rw [Forest.chain, Forest.chain] at chain ⊢
  rw [grown.outer _ h.inside.1, grown'.outer _ h.inside.2]
  exact chain

/-- Later on, both work again where they did. -/
theorem back (le : w.Later w₁) (h₁ : m₁.Alike w₁ m₁') (grown : m.scopes.Grown m₁.scopes)
    (grown' : m'.scopes.Grown m₁'.scopes) :
    Alike w₁ { m₁ with here := m.here } { m₁' with here := m'.here } :=
  { h₁ with chain := h.chain_later le grown grown' }

/-- A new frame for each of the two. -/
theorem opened {k k' : Handle} (hk : Thins w (m.scopes.chain k) (m'.scopes.chain k')) :
    Alongside w m m' (w.pair m.scopes.next m'.scopes.next) (m.openFrame k).2 (m'.openFrame k').2 where
  later := w.later_pair ..
  alike := { h with
    scopes := h.scopes.push hk
    chain := h.chain_later (w.later_pair ..) (.push ..) (.push ..)
    heap := h.heap.later (w.later_pair ..) }
  left := m.restored_openFrame k
  right := m'.restored_openFrame k'

theorem openFrame {k k' : Handle} (hk : k.Alike w k') :
    ∃ w₁, Alongside w m m' w₁ (m.openFrame k).2 (m'.openFrame k').2 ∧
      (m.openFrame k).1.Alike w₁ (m'.openFrame k').1 :=
  ⟨_, h.opened (h.scopes.chain hk.frame), .inr ⟨rfl, rfl⟩, congrArg (· + 1) hk.depth⟩

theorem pushScope : ∃ w₁, w.Later w₁ ∧ m.pushScope.Alike w₁ m'.pushScope ∧
    w₁.pairs m.pushScope.here.frame m'.pushScope.here.frame := by
  have new : (w.pair m.scopes.next m'.scopes.next).pairs m.scopes.next m'.scopes.next :=
    .inr ⟨rfl, rfl⟩
  have opened := (h.opened h.chain).alike
  exact ⟨_, w.later_pair .., { opened with chain := opened.scopes.chain new }, new⟩

/-- What is done in the frames that both have entered, they have done when they are back. -/
theorem leave (le : w.Later w₁) (s : Alongside w₁ m.pushScope m'.pushScope w₂ m₁ m₁') :
    Alongside w m m' w₂ { m₁ with here := m.here } { m₁' with here := m'.here } :=
  have left := s.left.leave
  have right := s.right.leave
  ⟨le.trans s.later, h.back (le.trans s.later) s.alike left.scopes right.scopes, left, right⟩

/-- The second enters a frame, and the first does without. -/
theorem besides : ∃ w₁, w.Later w₁ ∧ m.Alike w₁ m'.pushScope :=
  ⟨w.besides m'.scopes.next, w.later_besides _, { h with
    scopes := h.scopes.besides m'.here
    chain := by
      have new : (w.besides m'.scopes.next).spare m'.scopes.next := .inr rfl
      have chain := Thins.skip new (h.chain.later (w.later_besides m'.scopes.next))
      rw [← Forest.chain_push] at chain
      exact chain
    heap := h.heap.later (w.later_besides _) }⟩

/-- What is done in the frame that the second has entered, both have done when it is back. -/
theorem rejoin (le : w.Later w₁) (s : Alongside w₁ m m'.pushScope w₂ m₁ m₁') :
    Alongside w m m' w₂ m₁ { m₁' with here := m'.here } := by
  have right := s.right.leave
  have same : m₁ = { m₁ with here := m.here } := by rw [← s.left.here]
  refine ⟨le.trans s.later, ?_, s.left, right⟩
  -- The first has not moved, so it is where it is put back to.
  rw [same]
  exact h.back (le.trans s.later) s.alike s.left.scopes right.scopes

/-- Both work elsewhere. -/
theorem enter {k k' : Handle} (hk : w.pairs k.frame k'.frame) :
    Alike w { m with here := k } { m' with here := k' } :=
  { h with chain := h.scopes.chain hk }

theorem counting (n : Nat) : Alike w { m with callDepth := n } { m' with callDepth := n } :=
  { h with callDepth := rfl }

/-! ### Heap -/

/-- A change of the heaps alone. -/
theorem withHeap {heap heap' : Heap} (hh : heap.Alike w heap') (grown : m.heap.Grown heap)
    (grown' : m'.heap.Grown heap') : Alongside w m m' w { m with heap } { m' with heap := heap' } where
  later := .refl w
  alike := { h with heap := hh }
  left := .ofHeap grown
  right := .ofHeap grown'

theorem newClosure (f : FuncDecl) {k k' : Handle} (hk : k.Alike w k') :
    (m.newClosure f k).1.Alike w (m'.newClosure f k').1 ∧
      Alongside w m m' w (m.newClosure f k).2 (m'.newClosure f k').2 :=
  ⟨⟨h.heap.newId.1, rfl, hk⟩, h.withHeap h.heap.newId.2 (.newId _) (.newId _)⟩

theorem newObject {c c' : Class} (hc : c.Alike w c') :
    (m.newObject c).1.Alike w (m'.newObject c').1 ∧
      Alongside w m m' w (m.newObject c).2 (m'.newObject c').2 :=
  ⟨⟨h.heap.newObject.1, hc⟩, h.withHeap h.heap.newObject.2 (.newObject _) (.newObject _)⟩

theorem writeElement (id : ArrayId) (k : Nat) (hv : v.Alike w v') :
    Alongside w m m' w (m.writeElement id k v) (m'.writeElement id k v') :=
  h.withHeap (h.heap.write id k hv) (.write ..) (.write ..)

theorem setField {o o' : Object} (ho : o.Alike w o') (x : String) (hv : v.Alike w v') :
    Alongside w m m' w (m.setField o x v) (m'.setField o' x v') := by
  rw [Machine.setField, Machine.setField, ← ho.id]
  exact h.withHeap (h.heap.setField o.id x hv) (.setField ..) (.setField ..)

/-- The method of an object sees a new frame that binds the object. -/
theorem bindMethod {o o' : Object} (ho : o.Alike w o') {a b : Tier × FuncDecl}
    (hab : a.1.Alike w b.1 ∧ a.2 = b.2) :
    ∃ w₁, Alongside w m m' w₁ (m.bindMethod o a).2 (m'.bindMethod o' b).2 ∧
      (m.bindMethod o a).1.Alike w₁ (m'.bindMethod o' b).1 := by
  obtain ⟨t, f⟩ := a
  obtain ⟨t', f'⟩ := b
  obtain ⟨tier, rfl⟩ := hab
  obtain ⟨w₁, opened, scope⟩ := h.openFrame tier.scope
  have bound := opened.alike.bind scope.frame "this" (.some (.object (ho.later opened.later)))
  obtain ⟨closure, made⟩ := bound.alike.newClosure f scope
  exact ⟨w₁, (opened.trans bound).trans made, closure⟩

/-- The methods of a class see a new frame that binds the class that it inherits from. -/
theorem superFrame (here : m.here.Alike w m'.here) {c c' : Class} (hc : c.Alike w c') :
    ∃ w₁, Alongside w m m' w₁ (m.superFrame c).2 (m'.superFrame c').2 ∧
      (m.superFrame c).1.Alike w₁ (m'.superFrame c').1 := by
  obtain ⟨w₁, opened, scope⟩ := h.openFrame here
  have bound := opened.alike.bind scope.frame "super" (.some (.cls (hc.later opened.later)))
  exact ⟨w₁, opened.trans bound, scope⟩

/-! ### Input and output -/

/-- A change of what has been read or written. -/
theorem io {input input' : Input} {output output' : String} (hi : input = input')
    (ho : output = output') : Alongside w m m' w { m with input, output }
      { m' with input := input', output := output' } where
  later := .refl w
  alike := { h with input := hi, output := ho }
  left := m.restored_io input output
  right := m'.restored_io input' output'

theorem print (text : String) : Alongside w m m' w (m.print text) (m'.print text) :=
  h.io h.input (congrArg (· ++ text) h.output)

theorem readLine :
    m.readLine.1 = m'.readLine.1 ∧ Alongside w m m' w m.readLine.2 m'.readLine.2 :=
  ⟨congrArg (·.readLine.1) h.input, h.io (congrArg (·.readLine.2) h.input) h.output⟩

theorem readWord :
    m.readWord.1 = m'.readWord.1 ∧ Alongside w m m' w m.readWord.2 m'.readWord.2 :=
  ⟨congrArg (·.readWord.1) h.input, h.io (congrArg (·.readWord.2) h.input) h.output⟩

end Machine.Alike

/-! ### Soundness -/

/-- The frames that the scopes of a class are in. -/
def Class.frames (c : Class) : List FrameId := c.tiers.map (·.scope.frame)

/-- The frames that the scopes of the value are in. -/
def Value.frames : Value → List FrameId
  | .function f => [f.scope.frame]
  | .cls c      => c.frames
  | .object o   => o.cls.frames
  | _           => []

/-- Each frame that the machine knows of is there. -/
structure Machine.Sound (m : Machine) : Prop where
  here   : m.here.frame < m.scopes.next
  outer  : ∀ i, ∀ j ∈ m.scopes.outer i, j < m.scopes.next
  stored : ∀ v, m.Stores v → ∀ i ∈ v.frames, i < m.scopes.next

theorem Class.Alike.same {n : FrameId} {c : Class} (h : ∀ i ∈ c.frames, i < n) :
    c.Alike (.same n) c := by
  have tier (t : Tier) (ht : t ∈ c.tiers) : t.Alike (.same n) t :=
    ⟨rfl, rfl, rfl, ⟨rfl, h _ (List.mem_map_of_mem ht)⟩, rfl⟩
  exact ⟨tier c.own (.head _), List.forall₂_same.mpr fun t ht => tier t (.tail _ ht)⟩

theorem Value.Alike.same {n : FrameId} (h : ∀ i ∈ v.frames, i < n) : v.Alike (.same n) v := by
  cases v with
  | function f => exact .function ⟨rfl, rfl, ⟨rfl, h _ (.head _)⟩, rfl⟩
  | cls c => exact .cls (.same h)
  | object o => exact .object ⟨rfl, .same h⟩
  | _ => constructor

theorem Class.Alike.paired {c c' : Class} (h : c.Alike w c') : ∀ i ∈ c.frames, ∃ j, w.pairs i j := by
  intro i hi
  obtain ⟨t, ht, rfl⟩ := List.mem_map.mp hi
  obtain ⟨t', tier⟩ := exists_related h.tiers t ht
  exact ⟨_, tier.scope.frame⟩

theorem Value.Alike.paired (h : v.Alike w v') : ∀ i ∈ v.frames, ∃ j, w.pairs i j := by
  cases h with
  | function h => exact List.forall_mem_singleton.mpr ⟨_, h.scope.frame⟩
  | cls h => exact h.paired
  | object h => exact h.cls.paired
  | _ => exact nofun

/-- A sound machine is like itself. -/
theorem Machine.Sound.alike (h : m.Sound) : m.Alike (.same m.scopes.next) m where
  scopes := {
    toBetween := .same _
    names := by
      rintro i j ⟨rfl, -⟩ x
      rcases e : m.scopes.binding? i x with _ | _ | v
      · exact .none
      · exact .some .none
      · exact .some (.some (.same (h.stored v (.name e))))
    frozen := by rintro i j ⟨rfl, -⟩; rfl
    outer := by rintro i j ⟨rfl, -⟩; exact .same (h.outer i)
    empty := nofun }
  chain := .same (List.forall_mem_cons.mpr ⟨h.here, h.outer _⟩)
  heap := {
    arrays := rfl
    objects := rfl
    fresh := rfl
    element := fun _ => rfl
    items := fun id => List.forall₂_same.mpr fun v hv =>
      .same (h.stored v (.item (Array.mem_toList_iff.mp hv)))
    fields := fun id x => by
      rcases e : m.heap.field? id x with _ | v
      · exact .none
      · exact .some (.same (h.stored v (.field e))) }
  callDepth := rfl
  settings := rfl
  input := rfl
  output := rfl

namespace Machine.Alike

/-- What the first stores, the second stores alike. -/
theorem stored (h : m.Alike w m') (hv : m.Stores v) : ∃ v', v.Alike w v' := by
  cases hv with
  | @name i x v e =>
      obtain ⟨j, hij⟩ := h.scopes.total i (Forest.lt_of_binding? e)
      have names := h.scopes.names hij x
      rw [e] at names
      obtain ⟨b, -, hb⟩ := some_of_rel names
      exact (some_of_rel hb).imp fun _ => And.right
  | @item id v hv => exact exists_related (h.heap.items id) v (Array.mem_toList_iff.mpr hv)
  | @field id x v e =>
      have fields := h.heap.fields id x
      rw [e] at fields
      exact (some_of_rel fields).imp fun _ => And.right

/-- A machine that is like another is sound. -/
theorem sound (h : m.Alike w m') : m.Sound where
  here := h.inside.1
  outer i j hj := by
    by_cases hi : i < m.scopes.next
    · obtain ⟨k, hik⟩ := h.scopes.total i hi
      obtain ⟨l, hjl⟩ := (h.scopes.outer hik).paired j hj
      exact h.scopes.left hjl
    · rw [Forest.outer_beyond _ (Nat.not_lt.mp hi)] at hj
      cases hj
  stored v hv i hi := by
    obtain ⟨v', alike⟩ := h.stored hv
    obtain ⟨j, hij⟩ := alike.paired i hi
    exact h.scopes.left hij

end Machine.Alike

end Brace
