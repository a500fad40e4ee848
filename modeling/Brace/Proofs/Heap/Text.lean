import Mathlib.Data.Finset.Card
import Mathlib.Data.Finset.Range
import Mathlib.Logic.Relation
import Brace.Heap

/-!
# Heap — which values have a text

An array shows its elements, so its text is made by going down into it. That comes to an end when
nothing further down contains itself, and never does otherwise. The text of a value is sought as deep
as there are arrays (`Heap.text?`), and this is deep enough: on the way down the arrays below get fewer
with each step (`Heap.card_below_lt`).

* `text?_isSome_iff`: an array has a text where it comes down to none that contains itself.
* `text?_eq_some_iff`: to look further down than there are arrays finds no other text.
-/

namespace Brace.Heap

variable {h : Heap}

/-- The array has the other one as an element. -/
def Holds (h : Heap) (id inner : ArrayId) : Prop := .array inner ∈ (h.cells id).items

/-- The array has the other one as an element, or as an element of an element, and so on. -/
def Contains (h : Heap) : ArrayId → ArrayId → Prop := Relation.TransGen h.Holds

/-- The value is no array that the heap does not have. -/
def Has (h : Heap) : Value → Prop
  | .array id => id < h.arrays.size
  | _         => True

/-- The heap has every array that an array of it holds. -/
def Closed (h : Heap) : Prop := ∀ id, ∀ v ∈ (h.cells id).items, h.Has v

/-- The array comes down to one that contains itself. -/
def Loops (h : Heap) (id : ArrayId) : Prop :=
  ∃ inner, Relation.ReflTransGen h.Holds id inner ∧ h.Contains inner inner

/-- Arrays are straight: none contains itself, and every value has a text. -/
structure Straight (h : Heap) : Prop where
  loopless : ∀ id, ¬ h.Contains id id
  texts    : ∀ v, h.Has v → (h.text? v).isSome = true

theorem Loops.outer {id inner : ArrayId} (hh : h.Holds id inner) (hl : h.Loops inner) :
    h.Loops id := by
  obtain ⟨last, down, round⟩ := hl
  exact ⟨last, .head hh down, round⟩

/-- Whoever comes down to an array that contains itself has an element that does so too. -/
theorem Loops.inner {id : ArrayId} (hl : h.Loops id) : ∃ inner, h.Holds id inner ∧ h.Loops inner := by
  obtain ⟨last, down, round⟩ := hl
  rcases Relation.ReflTransGen.cases_head down with rfl | ⟨inner, hh, down⟩
  · obtain ⟨inner, hh, back⟩ := Relation.TransGen.head'_iff.mp round
    exact ⟨inner, hh, id, back, round⟩
  · exact ⟨inner, hh, last, down, round⟩

/-! ### How far down -/

open Classical in
/-- The arrays that are somewhere inside an array. -/
noncomputable def below (h : Heap) (id : ArrayId) : Finset ArrayId :=
  (Finset.range h.arrays.size).filter (h.Contains id)

theorem mem_below {id inner : ArrayId} :
    inner ∈ h.below id ↔ inner < h.arrays.size ∧ h.Contains id inner := by
  simp only [below, Finset.mem_filter, Finset.mem_range]

/-- With each step down there are fewer arrays below. -/
theorem card_below_lt {id inner : ArrayId} (hh : h.Holds id inner) (hi : inner < h.arrays.size)
    (straight : ¬ h.Contains inner inner) : (h.below inner).card < (h.below id).card := by
  have sub : h.below inner ⊆ h.below id := by
    intro k hk
    obtain ⟨hlt, hc⟩ := mem_below.mp hk
    exact mem_below.mpr ⟨hlt, .head hh hc⟩
  have mem : inner ∈ h.below id := mem_below.mpr ⟨hi, .single hh⟩
  have notMem : inner ∉ h.below inner := fun hm => straight (mem_below.mp hm).2
  exact Finset.card_lt_card (Finset.ssubset_iff_subset_ne.mpr ⟨sub, fun e => notMem (e ▸ mem)⟩)

/-- An array that does not contain itself has fewer below it than there are. -/
theorem card_below_lt_size {id : ArrayId} (hi : id < h.arrays.size) (straight : ¬ h.Contains id id) :
    (h.below id).card < h.arrays.size := by
  have sub : h.below id ⊆ (Finset.range h.arrays.size).erase id := by
    intro k hk
    obtain ⟨hlt, hc⟩ := mem_below.mp hk
    refine Finset.mem_erase.mpr ⟨?_, Finset.mem_range.mpr hlt⟩
    rintro rfl
    exact straight hc
  have card := Finset.card_erase_lt_of_mem (Finset.mem_range.mpr hi)
  rw [Finset.card_range] at card
  exact Nat.lt_of_le_of_lt (Finset.card_le_card sub) card

/-! ### Texts -/

/-- Only an array is shown by what it holds. -/
theorem isSome_textWithin_of_ne {v : Value} (hv : ∀ id, v ≠ .array id) (n : Nat) :
    (h.textWithin n v).isSome = true := by
  cases v with
  | array id => exact absurd rfl (hv id)
  | _ => cases n <;> rfl

theorem isSome_mapM {f : Value → Option String} : ∀ {vs : List Value},
    (vs.mapM f).isSome = true ↔ ∀ v ∈ vs, (f v).isSome = true
  | []      => by simp
  | v :: vs => by
      rw [List.mapM_cons, List.forall_mem_cons, ← isSome_mapM]
      cases f v <;> cases vs.mapM f <;> simp

/-- An array has a text where its elements have one. -/
theorem isSome_textWithin_array {n : Nat} {id : ArrayId} :
    (h.textWithin (n + 1) (.array id)).isSome = true ↔
      ∀ v ∈ (h.cells id).items, (h.textWithin n v).isSome = true := by
  rw [textWithin, Option.isSome_map, isSome_mapM]
  simp only [Array.mem_toList_iff]

/-- To look down further than there are arrays below is to see everything. -/
theorem isSome_textWithin_of_card_lt (closed : h.Closed) : ∀ {n : Nat} {id : ArrayId},
    ¬ h.Loops id → (h.below id).card < n → (h.textWithin n (.array id)).isSome = true
  | n + 1, id, straight, hn => isSome_textWithin_array.mpr fun v hv => by
      by_cases array : ∃ inner, v = .array inner
      · obtain ⟨inner, rfl⟩ := array
        have loopless : ¬ h.Loops inner := fun hl => straight (hl.outer hv)
        -- One step down leaves fewer arrays below, so one step less is deep enough.
        have fewer : (h.below inner).card < (h.below id).card :=
          card_below_lt hv (closed id _ hv) fun round => loopless ⟨inner, .refl, round⟩
        exact isSome_textWithin_of_card_lt closed loopless
          (Nat.lt_of_lt_of_le fewer (Nat.le_of_lt_succ hn))
      · exact isSome_textWithin_of_ne (fun inner e => array ⟨inner, e⟩) n

/-- However far one looks down, an array that comes down to one that contains itself goes on. -/
theorem textWithin_of_loops : ∀ (n : Nat) {id : ArrayId}, h.Loops id →
    h.textWithin n (.array id) = none
  | 0, _, _ => rfl
  | n + 1, id, hl => by
      obtain ⟨inner, hh, hl⟩ := hl.inner
      have missing := textWithin_of_loops n hl
      rw [← Option.not_isSome_iff_eq_none, isSome_textWithin_array]
      intro texts
      have found := texts _ hh
      rw [missing] at found
      cases found

theorem mapM_mono {f g : Value → Option String} (le : ∀ v t, f v = some t → g v = some t) :
    ∀ {vs : List Value} {ts : List String}, vs.mapM f = some ts → vs.mapM g = some ts
  | [], _, e => e
  | v :: vs, _, e => by
      rw [List.mapM_cons] at e ⊢
      obtain ⟨t, ht, e⟩ := Option.bind_eq_some_iff.mp e
      obtain ⟨ts, hts, e⟩ := Option.bind_eq_some_iff.mp e
      exact Option.bind_eq_some_iff.mpr ⟨t, le v t ht,
        Option.bind_eq_some_iff.mpr ⟨ts, mapM_mono le hts, e⟩⟩

/-- To look down further is to find the same. -/
theorem textWithin_succ : ∀ {n : Nat} {v : Value} {t : String}, h.textWithin n v = some t →
    h.textWithin (n + 1) v = some t
  | 0, v, _, e => by
      cases v with
      | array id => cases e
      | _ => exact e
  | n + 1, v, _, e => by
      cases v with
      | array id =>
          rw [textWithin] at e ⊢
          obtain ⟨texts, hm, rfl⟩ := Option.map_eq_some_iff.mp e
          exact Option.map_eq_some_iff.mpr ⟨texts, mapM_mono (fun _ _ => textWithin_succ) hm, rfl⟩
      | _ => exact e

theorem textWithin_mono {n k : Nat} (le : n ≤ k) {v : Value} {t : String}
    (e : h.textWithin n v = some t) : h.textWithin k v = some t := by
  induction le with
  | refl => exact e
  | step _ ih => exact textWithin_succ ih

/-- An array has a text where it comes down to none that contains itself. -/
theorem text?_isSome_iff (closed : h.Closed) {v : Value} (hv : h.Has v) :
    (h.text? v).isSome = true ↔ ∀ id, v = .array id → ¬ h.Loops id := by
  constructor
  · rintro texts id rfl loops
    rw [text?, textWithin_of_loops _ loops] at texts
    cases texts
  · intro straight
    by_cases array : ∃ id, v = .array id
    · obtain ⟨id, rfl⟩ := array
      have loopless := straight id rfl
      exact isSome_textWithin_of_card_lt closed loopless
        (card_below_lt_size hv fun round => loopless ⟨id, .refl, round⟩)
    · exact isSome_textWithin_of_ne (fun id e => array ⟨id, e⟩) _

/-- Where no array contains itself, every value has a text. -/
theorem Straight.of_closed (closed : h.Closed) (loopless : ∀ id, ¬ h.Contains id id) :
    h.Straight where
  loopless := loopless
  texts v hv := by
    refine (text?_isSome_iff closed hv).mpr ?_
    rintro id - ⟨inner, -, round⟩
    exact loopless inner round

/-- The text of a value is what is found at any depth. -/
theorem text?_eq_some_iff (closed : h.Closed) {v : Value} (hv : h.Has v) {t : String} :
    h.text? v = some t ↔ ∃ n, h.textWithin n v = some t := by
  constructor
  · exact fun e => ⟨_, e⟩
  · rintro ⟨n, e⟩
    have straight (id : ArrayId) (array : v = .array id) : ¬ h.Loops id := by
      subst array
      intro loops
      rw [textWithin_of_loops n loops] at e
      cases e
    obtain ⟨t', e'⟩ := Option.isSome_iff_exists.mp ((text?_isSome_iff closed hv).mpr straight)
    -- Both texts are found at the greater of the two depths, where there is only one.
    have deep := textWithin_mono (Nat.le_max_left n h.arrays.size) e
    rw [textWithin_mono (Nat.le_max_right n h.arrays.size) e'] at deep
    rw [e', deep]

end Brace.Heap
