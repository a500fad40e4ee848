import Brace.Template

/-!
# Template — escapes are resolved in one pass

Escapes for newlines are resolved first and those for tabs after them, in the text that is then there.
The first pass leaves a newline where it finds an escape, and a newline neither ends with a backslash nor
starts with a letter, so the second pass finds what it would have found without the first. Together they
do what one pass does.

* `unescape_eq_onePass`: the two passes are one.
* `clean_onePass`: no escape is left, nor has one come about.
* `onePass_append_iff`: two texts can be resolved on their own unless an escape goes across the seam.
* `unescape_scans`: all of this together.
-/

namespace Brace.Template

/-- From left to right, a newline in the place of each `\n`, a tab in the place of each `\t`, and all
else as it is. -/
def onePass : List Char → List Char
  | []                => []
  | '\\' :: 'n' :: cs => '\n' :: onePass cs
  | '\\' :: 't' :: cs => '\t' :: onePass cs
  | c :: cs           => c :: onePass cs

/-- The first text ends with a backslash, and the second starts with a letter that makes an escape of
it. -/
def Straddles (a b : List Char) : Prop :=
  a.getLast? = some '\\' ∧ (b.head? = some 'n' ∨ b.head? = some 't')

/-- Nowhere does a letter that makes an escape stand right after a backslash. -/
def Clean (cs : List Char) : Prop := ∀ a b, cs = a ++ b → ¬ Straddles a b

/-! ### One pass -/

theorem onePass_newline (cs : List Char) : onePass ('\\' :: 'n' :: cs) = '\n' :: onePass cs := rfl

theorem onePass_tab (cs : List Char) : onePass ('\\' :: 't' :: cs) = '\t' :: onePass cs := rfl

theorem onePass_cons {c : Char} {cs : List Char} (h : ¬ Straddles [c] cs) :
    onePass (c :: cs) = c :: onePass cs := by
  rw [onePass]
  · rintro rest rfl rfl
    exact h ⟨rfl, .inl rfl⟩
  · rintro rest rfl rfl
    exact h ⟨rfl, .inr rfl⟩

/-- What the pass meets at each of its steps: the end, an escape, or a character that makes none. -/
@[elab_as_elim]
theorem onePass_induction {motive : List Char → Prop} (nil : motive [])
    (newline : ∀ cs, motive cs → motive ('\\' :: 'n' :: cs))
    (tab : ∀ cs, motive cs → motive ('\\' :: 't' :: cs))
    (cons : ∀ c cs, ¬ Straddles [c] cs → motive cs → motive (c :: cs)) (cs : List Char) :
    motive cs := by
  induction cs using onePass.induct with
  | case1 => exact nil
  | case2 cs ih => exact newline cs ih
  | case3 cs ih => exact tab cs ih
  | case4 c cs noNewline noTab ih =>
      refine cons c cs ?_ ih
      rintro ⟨last, first | first⟩
      · obtain ⟨rest, rfl⟩ := List.head?_eq_some_iff.mp first
        exact noNewline rest (Option.some.inj last) rfl
      · obtain ⟨rest, rfl⟩ := List.head?_eq_some_iff.mp first
        exact noTab rest (Option.some.inj last) rfl

/-- A letter that comes out in front was there in front. -/
theorem head?_of_head?_onePass {cs : List Char} {c : Char} (h : (onePass cs).head? = some c)
    (newline : c ≠ '\n') (tab : c ≠ '\t') : cs.head? = some c := by
  cases cs using onePass_induction with
  | nil => cases h
  | newline cs => exact absurd (Option.some.inj h).symm newline
  | tab cs => exact absurd (Option.some.inj h).symm tab
  | cons d cs plain =>
      rw [onePass_cons plain] at h
      exact h

/-! ### Two passes -/

theorem resolve_cons {letter mark c : Char} {cs : List Char}
    (h : ¬ (c = '\\' ∧ cs.head? = some letter)) :
    resolve letter mark (c :: cs) = c :: resolve letter mark cs := by
  cases cs with
  | nil => rfl
  | cons d rest =>
      rw [resolve, if_neg]
      rintro ⟨back, rfl⟩
      exact h ⟨back, rfl⟩

theorem resolve_escape (letter mark : Char) (cs : List Char) :
    resolve letter mark ('\\' :: letter :: cs) = mark :: resolve letter mark cs := by
  rw [resolve, if_pos ⟨rfl, rfl⟩]

/-- What comes out in front was there in front, or is the mark. -/
theorem head?_of_head?_resolve {letter mark c : Char} {cs : List Char}
    (h : (resolve letter mark cs).head? = some c) (other : c ≠ mark) : cs.head? = some c := by
  cases cs with
  | nil => cases h
  | cons d cs =>
      by_cases escape : d = '\\' ∧ cs.head? = some letter
      · obtain ⟨rfl, first⟩ := escape
        obtain ⟨rest, rfl⟩ := List.head?_eq_some_iff.mp first
        rw [resolve_escape] at h
        exact absurd (Option.some.inj h).symm other
      · rw [resolve_cons escape] at h
        exact h

/-- The two passes are one. -/
theorem unescape_eq_onePass (cs : List Char) : unescape cs = onePass cs := by
  induction cs using onePass_induction with
  | nil => rfl
  | newline cs ih =>
      have newline : ¬ ('\n' = '\\' ∧ (resolve 'n' '\n' cs).head? = some 't') := fun h => by cases h.1
      rw [onePass_newline, ← ih, unescape, resolve_escape, resolve_cons newline, unescape]
  | tab cs ih =>
      have back : ¬ ('\\' = '\\' ∧ ('t' :: cs).head? = some 'n') := fun h => by cases h.2
      have letter : ¬ ('t' = '\\' ∧ cs.head? = some 'n') := fun h => by cases h.1
      rw [onePass_tab, ← ih, unescape, resolve_cons back, resolve_cons letter, resolve_escape,
        unescape]
  | cons c cs plain ih =>
      have first : ¬ (c = '\\' ∧ cs.head? = some 'n') := by
        rintro ⟨rfl, h⟩
        exact plain ⟨rfl, .inl h⟩
      -- A tab's letter that stands in front after the first pass has stood there before it.
      have second : ¬ (c = '\\' ∧ (resolve 'n' '\n' cs).head? = some 't') := by
        rintro ⟨rfl, h⟩
        exact plain ⟨rfl, .inr (head?_of_head?_resolve h (by decide))⟩
      rw [onePass_cons plain, ← ih, unescape, resolve_cons first, resolve_cons second, unescape]

/-! ### What is left -/

theorem Straddles.cons {c : Char} {a b : List Char} (h : Straddles a b) : Straddles (c :: a) b :=
  ⟨by rw [List.getLast?_cons, h.1, Option.getD_some], h.2⟩

theorem Clean.tail {c : Char} {cs : List Char} (h : Clean (c :: cs)) : Clean cs :=
  fun a b e seam => h (c :: a) b (by rw [e, List.cons_append]) seam.cons

theorem Clean.cons {c : Char} {cs : List Char} (h : ¬ Straddles [c] cs) (clean : Clean cs) :
    Clean (c :: cs) := by
  intro a b e seam
  cases a with
  | nil => cases seam.1
  | cons d a =>
      obtain ⟨rfl, rfl⟩ := List.cons.inj e
      cases a with
      | nil => exact h seam
      | cons d' a => exact clean (d' :: a) b rfl ⟨by simpa using seam.1, seam.2⟩

theorem clean_onePass (cs : List Char) : Clean (onePass cs) := by
  induction cs using onePass_induction with
  | nil =>
      rintro a b e ⟨last, -⟩
      rw [(List.append_eq_nil_iff.mp e.symm).1] at last
      cases last
  | newline cs ih =>
      rw [onePass_newline]
      exact ih.cons fun h => by cases h.1
  | tab cs ih =>
      rw [onePass_tab]
      exact ih.cons fun h => by cases h.1
  | cons c cs plain ih =>
      rw [onePass_cons plain]
      refine ih.cons fun ⟨last, first⟩ => plain ⟨last, ?_⟩
      exact first.imp (fun h => head?_of_head?_onePass h (by decide) (by decide))
        fun h => head?_of_head?_onePass h (by decide) (by decide)

/-- Where there is no escape, nothing is changed. -/
theorem Clean.onePass_eq {cs : List Char} (h : Clean cs) : onePass cs = cs := by
  induction cs with
  | nil => rfl
  | cons c cs ih => rw [onePass_cons (h [c] cs rfl), ih h.tail]

/-! ### Texts put together -/

theorem onePass_append {a b : List Char} (h : ¬ Straddles a b) :
    onePass (a ++ b) = onePass a ++ onePass b := by
  induction a using onePass_induction with
  | nil => rfl
  | newline a ih =>
      have rest : ¬ Straddles a b := fun seam => h seam.cons.cons
      rw [List.cons_append, List.cons_append, onePass_newline, onePass_newline, ih rest,
        List.cons_append]
  | tab a ih =>
      have rest : ¬ Straddles a b := fun seam => h seam.cons.cons
      rw [List.cons_append, List.cons_append, onePass_tab, onePass_tab, ih rest, List.cons_append]
  | cons c a plain ih =>
      have rest : ¬ Straddles a b := fun seam => h seam.cons
      have whole : ¬ Straddles [c] (a ++ b) := by
        cases a with
        | nil => exact h
        | cons d a => exact plain
      rw [List.cons_append, onePass_cons whole, onePass_cons plain, ih rest, List.cons_append]

/-- An escape across a seam goes across it also when both sides have been resolved. -/
theorem Straddles.onePass {a b : List Char} (h : Straddles a b) :
    Straddles (onePass a) (onePass b) := by
  obtain ⟨last, first⟩ := h
  constructor
  · obtain ⟨a, rfl⟩ := List.getLast?_eq_some_iff.mp last
    have back : ¬ Straddles a ['\\'] := by
      rintro ⟨-, first | first⟩ <;> cases first
    rw [onePass_append back, onePass_cons fun h => by rcases h with ⟨-, h | h⟩ <;> cases h]
    exact List.getLast?_concat
  · refine first.imp (fun first => ?_) fun first => ?_
    all_goals
      obtain ⟨b, rfl⟩ := List.head?_eq_some_iff.mp first
      rw [onePass_cons fun h => by cases h.1]
      rfl

/-- Two texts can be resolved on their own unless an escape goes across the seam. -/
theorem onePass_append_iff {a b : List Char} :
    onePass (a ++ b) = onePass a ++ onePass b ↔ ¬ Straddles a b := by
  constructor
  · intro e seam
    exact clean_onePass (a ++ b) _ _ e seam.onePass
  · exact onePass_append

/-- **Escapes are resolved in one clean pass.**  To resolve escapes for newlines and then those for tabs
is to go once from left to right and resolve each escape that is met. No backslash with one of the two
letters after it is left, so to resolve what has been resolved changes nothing. Texts that are put
together are resolved each on its own, except where the first ends with a backslash that makes an escape
with the first letter of the second, and never there. -/
theorem unescape_scans :
    (∀ cs, unescape cs = onePass cs) ∧
    (∀ cs, ¬ ['\\', 'n'] <:+: unescape cs ∧ ¬ ['\\', 't'] <:+: unescape cs) ∧
    (∀ cs, unescape (unescape cs) = unescape cs) ∧
    ∀ a b, unescape (a ++ b) = unescape a ++ unescape b ↔
      ¬ (a.getLast? = some '\\' ∧ (b.head? = some 'n' ∨ b.head? = some 't')) := by
  refine ⟨unescape_eq_onePass, ?_⟩
  simp only [unescape_eq_onePass]
  refine ⟨fun cs => ?_, fun cs => (clean_onePass cs).onePass_eq, fun _ _ => onePass_append_iff⟩
  have clean := clean_onePass cs
  constructor
  · rintro ⟨a, b, e⟩
    exact clean (a ++ ['\\']) ('n' :: b) (by simp [← e]) ⟨List.getLast?_concat, .inl rfl⟩
  · rintro ⟨a, b, e⟩
    exact clean (a ++ ['\\']) ('t' :: b) (by simp [← e]) ⟨List.getLast?_concat, .inr rfl⟩

end Brace.Template
