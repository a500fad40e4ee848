import Brace.Scope.Family

/-!
# Scope — what an action does

An action through a handle is refused and leaves everything as it is, or it only tells something, or
it binds a name in some frame, or it moves the handle or adds one. That is all (`Family.act_step`), and
what is to be shown of every action is shown of these.

* `Family.Action.Refused`, `Family.Action.Binds`: what is decided by looking, before a write.
* `Family.Step`: what an action answers, and what it leaves.
* `Family.Acts.of_cons`, `Family.Acts.of_append`, `Family.exists_acts`: one action after another.
-/

namespace Brace.Family

variable {α : Type}

/-- The action binds the name so in the frame. -/
inductive Action.Binds (s : Forest α) (k : Handle) :
    Action α → FrameId → String → Option α → Prop where
  | define {x : String} {v : α} {o : FrameId} (e : s.definable k x = .ok o) :
      Binds s k (.define x v) o x (some v)
  | declare {x : String} {o : FrameId} (e : s.declarable k x = .ok o) :
      Binds s k (.declare x) o x none
  | assign {x : String} {v : α} {o : FrameId} (e : s.assignable k x = .ok o) :
      Binds s k (.assign x v) o x (some v)

/-- The action is refused for this cause. -/
inductive Action.Refused (s : Forest α) (k : Handle) : Action α → Cause → Prop where
  | pop {c : Cause} (e : s.pop k = .error c) : Refused s k .pop c
  | define {x : String} {v : α} {c : Cause} (e : s.definable k x = .error c) :
      Refused s k (.define x v) c
  | declare {x : String} {c : Cause} (e : s.declarable k x = .error c) : Refused s k (.declare x) c
  | assign {x : String} {v : α} {c : Cause} (e : s.assignable k x = .error c) :
      Refused s k (.assign x v) c
  | lookup {x : String} {c : Cause} (e : s.lookup k x = .error c) : Refused s k (.lookup x) c

/-- What an action through the handle of number `i` answers, and what it leaves. -/
inductive Step (f : Family α) (i : Fin f.handles.size) :
    Action α → Except Cause (Reply α) → Family α → Prop where
  | refused {a : Action α} {c : Cause} (h : a.Refused f.forest (f.handle i) c) :
      Step f i a (.error c) f
  | lookup (x : String) (v : α) : Step f i (.lookup x) (.ok (.value v)) f
  | readOnly (x : String) (b : Bool) : Step f i (.readOnly x) (.ok (.flag b)) f
  | binds {a : Action α} {o : FrameId} {x : String} {b : Option α}
      (h : a.Binds f.forest (f.handle i) o x b) :
      Step f i a (.ok .done) { f with forest := f.forest.bind o x b }
  | push : Step f i .push (.ok .done)
      ⟨(f.forest.push (f.handle i)).1, f.handles.set i (f.forest.push (f.handle i)).2 i.2⟩
  | pop {k : Handle} (e : f.forest.pop (f.handle i) = .ok k) :
      Step f i .pop (.ok .done) { f with handles := f.handles.set i k i.2 }
  | child : Step f i .child (.ok (.handle f.handles.size))
      ⟨(f.forest.push (f.handle i)).1, f.handles.push (f.forest.push (f.handle i)).2⟩
  | copy : Step f i .copy (.ok (.handle f.handles.size))
      { f with handles := f.handles.push (f.handle i) }

section

variable {f : Family α} {i : Fin f.handles.size} {a : Action α}

theorem act_of_binds {o : FrameId} {x : String} {b : Option α}
    (h : a.Binds f.forest (f.handle i) o x b) :
    f.act i a = (.ok .done, { f with forest := f.forest.bind o x b }) := by
  cases h with
  | define e => simp only [act, Forest.define, e]; rfl
  | declare e => simp only [act, Forest.declare, e]; rfl
  | assign e => simp only [act, Forest.assign, e]; rfl

theorem act_of_refused {c : Cause} (h : a.Refused f.forest (f.handle i) c) :
    f.act i a = (.error c, f) := by
  cases h with
  | pop e => simp only [act, e]
  | define e => simp only [act, Forest.define, e]; rfl
  | declare e => simp only [act, Forest.declare, e]; rfl
  | assign e => simp only [act, Forest.assign, e]; rfl
  | lookup e => simp only [act, e]; rfl

theorem act_step (f : Family α) (i : Fin f.handles.size) (a : Action α) :
    f.Step i a (f.act i a).1 (f.act i a).2 := by
  cases a with
  | push => exact .push
  | child => exact .child
  | copy => exact .copy
  | readOnly x => exact .readOnly x _
  | pop =>
      simp only [act]
      cases e : f.forest.pop (f.handle i) with
      | error c => exact .refused (.pop e)
      | ok k => exact .pop e
  | lookup x =>
      simp only [act]
      cases e : f.forest.lookup (f.handle i) x with
      | error c => exact .refused (.lookup e)
      | ok v => exact .lookup x v
  | define x v =>
      simp only [act, Forest.define]
      cases e : f.forest.definable (f.handle i) x with
      | error c => exact .refused (.define e)
      | ok o => exact .binds (.define e)
  | declare x =>
      simp only [act, Forest.declare]
      cases e : f.forest.declarable (f.handle i) x with
      | error c => exact .refused (.declare e)
      | ok o => exact .binds (.declare e)
  | assign x v =>
      simp only [act, Forest.assign]
      cases e : f.forest.assignable (f.handle i) x with
      | error c => exact .refused (.assign e)
      | ok o => exact .binds (.assign e)

end

theorem Step.size_le {f f' : Family α} {i : Fin f.handles.size} {a : Action α}
    {r : Except Cause (Reply α)} (st : f.Step i a r f') : f.handles.size ≤ f'.handles.size := by
  cases st <;> simp

/-! ### One action after another -/

/-- What was done first, and then the rest. -/
theorem Acts.of_cons {i : Nat} {f f' : Family α} {done : Done α} {a : Action α}
    {as : List (Action α)} (h : Acts i f done f') (e : done.map Prod.fst = a :: as) :
    ∃ (hi : i < f.handles.size) (rest : Done α), done = (a, (f.act ⟨i, hi⟩ a).1) :: rest ∧
      rest.map Prod.fst = as ∧ Acts i (f.act ⟨i, hi⟩ a).2 rest f' := by
  cases h with
  | nothing => cases e
  | more hi b t =>
      rw [List.map_cons] at e
      obtain ⟨rfl, e'⟩ := List.cons.inj e
      exact ⟨hi, _, rfl, e', t⟩

theorem Acts.of_append {i : Nat} {as bs : List (Action α)} :
    ∀ {f f' : Family α} {done : Done α}, Acts i f done f' → done.map Prod.fst = as ++ bs →
      ∃ f₁ before after, done = before ++ after ∧ before.map Prod.fst = as ∧ Acts i f before f₁ ∧
        after.map Prod.fst = bs ∧ Acts i f₁ after f' := by
  induction as with
  | nil => exact fun h e => ⟨_, [], _, rfl, rfl, .nothing _, e, h⟩
  | cons a as ih =>
      intro f f' done h e
      obtain ⟨hi, rest, rfl, e, t⟩ := h.of_cons e
      obtain ⟨f₁, before, after, rfl, e₁, h₁, e₂, h₂⟩ := ih t e
      exact ⟨f₁, _ :: before, after, rfl, congrArg (a :: ·) e₁, .more hi a h₁, e₂, h₂⟩

/-- Through a handle that there is, anything can be done. -/
theorem exists_acts {i : Nat} (as : List (Action α)) :
    ∀ f : Family α, i < f.handles.size → ∃ done f', Acts i f done f' ∧ done.map Prod.fst = as := by
  induction as with
  | nil => exact fun f _ => ⟨_, f, .nothing f, rfl⟩
  | cons a as ih =>
      intro f hi
      have kept : i < (f.act ⟨i, hi⟩ a).2.handles.size :=
        Nat.lt_of_lt_of_le hi (act_step f ⟨i, hi⟩ a).size_le
      obtain ⟨done, f', acts, e⟩ := ih _ kept
      exact ⟨_, f', .more hi a acts, congrArg (a :: ·) e⟩

end Brace.Family
