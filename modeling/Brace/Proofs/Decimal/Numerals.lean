import Mathlib.Data.Nat.Digits.Defs
import Brace.Heap
import Brace.Template

/-!
# Decimal — whole numbers as text

A whole number is spelled by digits with perhaps a sign in front of them. Leading zeros, a plus and the
minus of a zero are allowed, so a number has many spellings; the text that it is shown as is one of them.
Reading finds the number that a text spells if that fits 64 bits, and finds none otherwise.

* `readInt_eq_some_iff`: which texts are read, and as which numbers.
* `spells_toString`: the text of a number spells it.
* `Specifier.read_toString`, `Value.castTo_toString`: so a number that is turned into text and back is
  what it was.
-/

namespace Brace

namespace Decimal

/-- At least one digit, and nothing else. -/
def Digits (cs : List Char) : Prop := cs ≠ [] ∧ ∀ c ∈ cs, c.isDigit = true

/-- The text spells the number. -/
inductive Spells : List Char → Int → Prop
  | bare {cs : List Char} (h : Digits cs) : Spells cs (Nat.ofDigitChars 10 cs 0)
  | plus {cs : List Char} (h : Digits cs) : Spells ('+' :: cs) (Nat.ofDigitChars 10 cs 0)
  | minus {cs : List Char} (h : Digits cs) : Spells ('-' :: cs) (-(Nat.ofDigitChars 10 cs 0 : Int))

/-! ### Digits -/

theorem readDigits_of_digits {cs : List Char} (h : Digits cs) :
    readDigits cs = some (Nat.ofDigitChars 10 cs 0) := by
  have ne : ¬ cs.isEmpty = true := by simpa using h.1
  rw [readDigits, if_neg ne, if_pos (List.all_eq_true.mpr h.2)]
  rfl

theorem digits_of_readDigits {cs : List Char} {n : Nat} (h : readDigits cs = some n) :
    Digits cs ∧ n = Nat.ofDigitChars 10 cs 0 := by
  rw [readDigits] at h
  split at h
  · cases h
  · rename_i ne
    split at h
    · rename_i all
      cases h
      exact ⟨⟨by simpa using ne, List.all_eq_true.mp all⟩, rfl⟩
    · cases h

theorem isBlank_of_isDigit {c : Char} (h : c.isDigit = true) : Text.isBlank c = false := by
  obtain ⟨low, high⟩ : 48 ≤ c.toNat ∧ c.toNat ≤ 57 := Char.isDigit_iff_toNat.mp h
  simp only [Text.isBlank, Bool.or_eq_false_iff, Bool.and_eq_false_iff, decide_eq_false_iff_not,
    beq_eq_false_iff_ne]
  omega

/-- No digit is a sign. -/
theorem splitSign_of_digits {cs : List Char} (h : Digits cs) : splitSign cs = (false, cs) := by
  rw [splitSign.eq_def]
  split
  · cases h.2 _ (List.mem_cons_self ..)
  · cases h.2 _ (List.mem_cons_self ..)
  · rfl

/-! ### Whole numbers -/

/-- The number of 64 bits that an integer is, if there is one. -/
def fitted (z : Int) : Option Int64 :=
  if minInt ≤ z ∧ z ≤ maxInt then some (Int64.ofInt z) else none

theorem fitted_eq_some_iff {z : Int} {n : Int64} : fitted z = some n ↔ n.toInt = z := by
  rw [fitted]
  constructor
  · intro h
    split at h
    · rename_i range
      cases h
      exact Int64.toInt_ofInt_of_le range.1 (Int.lt_add_one_of_le range.2)
    · cases h
  · rintro rfl
    have low : minInt ≤ n.toInt := n.le_toInt
    have high : n.toInt ≤ maxInt := Int.le_of_lt_add_one n.toInt_lt
    rw [if_pos ⟨low, high⟩, Int64.ofInt_toInt]

theorem readInt_of_split {cs digits : List Char} {negative : Bool}
    (split : splitSign cs = (negative, digits)) : readInt cs = (readDigits digits).bind fun n =>
      fitted (if negative then -(n : Int) else n) := by
  simp only [readInt, split]
  cases readDigits digits <;> rfl

theorem Spells.readInt_eq {cs : List Char} {z : Int} (h : Spells cs z) : readInt cs = fitted z := by
  cases h with
  | bare h => rw [readInt_of_split (splitSign_of_digits h), readDigits_of_digits h]; rfl
  | plus h => rw [readInt_of_split (splitSign.eq_2 _), readDigits_of_digits h]; rfl
  | minus h => rw [readInt_of_split (splitSign.eq_1 _), readDigits_of_digits h]; rfl

/-- What is read is spelled by digits after a sign or without one. -/
theorem spells_of_split {cs digits : List Char} {negative : Bool}
    (split : splitSign cs = (negative, digits)) (h : Digits digits) :
    Spells cs (if negative then -(Nat.ofDigitChars 10 digits 0 : Int)
      else Nat.ofDigitChars 10 digits 0) := by
  rw [splitSign.eq_def] at split
  split at split <;> cases split
  · exact .minus h
  · exact .plus h
  · exact .bare h

/-- **What is read as a whole number.**  It is a text that spells one, and one that fits 64 bits. -/
theorem readInt_eq_some_iff {cs : List Char} {n : Int64} :
    readInt cs = some n ↔ Spells cs n.toInt := by
  constructor
  · intro h
    have split : splitSign cs = ((splitSign cs).1, (splitSign cs).2) := rfl
    rw [readInt_of_split split] at h
    obtain ⟨k, found, fits⟩ := Option.bind_eq_some_iff.mp h
    obtain ⟨digits, rfl⟩ := digits_of_readDigits found
    rw [fitted_eq_some_iff.mp fits]
    exact spells_of_split split digits
  · intro h
    rw [h.readInt_eq]
    exact fitted_eq_some_iff.mpr rfl

/-! ### The text of a number -/

theorem digits_toDigits (n : Nat) : Digits (Nat.toDigits 10 n) :=
  ⟨Nat.toDigits_ne_nil, fun _ hc => Nat.isDigit_of_mem_toDigits (by decide) (by decide) hc⟩

/-- The text that a number is shown as spells it. -/
theorem spells_toString (z : Int) : Spells (toString z).toList z := by
  cases z with
  | ofNat n =>
      have text : (toString (Int.ofNat n)).toList = Nat.toDigits 10 n := Nat.toList_repr
      have spelled := Spells.bare (digits_toDigits n)
      rw [Nat.ofDigitChars_ten_toDigits] at spelled
      rw [text]
      exact spelled
  | negSucc n =>
      have text : (toString (Int.negSucc n)).toList = '-' :: Nat.toDigits 10 (n + 1) := by
        show ("-" ++ (n + 1).repr).toList = _
        rw [String.toList_append, Nat.toList_repr]
        rfl
      have spelled := Spells.minus (digits_toDigits (n + 1))
      rw [Nat.ofDigitChars_ten_toDigits] at spelled
      rw [text]
      exact spelled

theorem readInt_toString (n : Int64) : readInt (toString n.toInt).toList = some n :=
  readInt_eq_some_iff.mpr (spells_toString n.toInt)

/-- A text that spells a number has no blanks in it, and there is something of it. -/
theorem Spells.solid {cs : List Char} {z : Int} (h : Spells cs z) :
    cs ≠ [] ∧ ∀ c ∈ cs, Text.isBlank c = false := by
  have digits {ds : List Char} (h : Digits ds) : ∀ c ∈ ds, Text.isBlank c = false :=
    fun c hc => isBlank_of_isDigit (h.2 c hc)
  cases h with
  | bare h => exact ⟨h.1, digits h⟩
  | plus h => exact ⟨List.cons_ne_nil _ _, List.forall_mem_cons.mpr ⟨rfl, digits h⟩⟩
  | minus h => exact ⟨List.cons_ne_nil _ _, List.forall_mem_cons.mpr ⟨rfl, digits h⟩⟩

end Decimal

/-- Nothing is trimmed off a text without blanks. -/
theorem Text.trim_of_solid {cs : List Char} (h : ∀ c ∈ cs, isBlank c = false) : trim cs = cs := by
  have kept {ds : List Char} (hd : ∀ c ∈ ds, isBlank c = false) : ds.dropWhile isBlank = ds := by
    cases ds with
    | nil => rfl
    | cons d ds => exact List.dropWhile_cons_of_neg (by simp [hd d])
  rw [trim, kept h, kept fun c hc => h c (List.mem_reverse.mp hc), List.reverse_reverse]

open Decimal

/-- A whole number is shown as its digits, after a minus if it is less than zero. -/
theorem Heap.text?_int (h : Heap) (n : Int64) : h.text? (.int n) = some (toString n.toInt) := by
  rw [text?]
  cases h.arrays.size <;> rfl

/-! ### Words and casts -/

/-- Words that are read as whole numbers spell them. -/
theorem Specifier.read_int_iff {word : List Char} {v : Value} :
    Specifier.int.read word = some v ↔ ∃ n : Int64, v = .int n ∧ Spells word n.toInt := by
  rw [read, Option.map_eq_some_iff]
  constructor
  · rintro ⟨n, found, rfl⟩
    exact ⟨n, rfl, readInt_eq_some_iff.mp found⟩
  · rintro ⟨n, rfl, spelled⟩
    exact ⟨n, readInt_eq_some_iff.mpr spelled, rfl⟩

theorem Specifier.read_toString (n : Int64) :
    Specifier.int.read (toString n.toInt).toList = some (.int n) :=
  read_int_iff.mpr ⟨n, rfl, spells_toString n.toInt⟩

/-- The text of a number is cast to the number. -/
theorem Value.castTo_toString (n : Int64) :
    castTo "int" (.str (toString n.toInt)) = .ok (.int n) := by
  have solid := (spells_toString n.toInt).solid.2
  have read : toInt "int" (.str (toString n.toInt)) = .ok n := by
    rw [toInt, readAs, Text.trim_of_solid solid, readInt_toString]
  show (toInt "int" (.str (toString n.toInt))).map Value.int = .ok (.int n)
  rw [read]
  rfl

end Brace
