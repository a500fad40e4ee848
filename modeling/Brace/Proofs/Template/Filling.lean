import Mathlib.Data.List.Basic
import Brace.Heap
import Brace.Template

/-!
# Template — what is filled in, and where

A specifier is a place of the template: a percent sign with one of three letters right after it. No two
specifiers share a character, since no letter is a percent sign, so cutting them out leaves the pieces
of text before, between and after them. To fill a template is to put the texts of the arguments where
the specifiers were cut out, and to resolve the escapes of what that gives. No text of an argument is
looked at for specifiers.

* `specifiers_eq`: the specifiers are those at the places, from left to right.
* `weave_literals`: with its specifiers put back, the template is whole again.
* `fill_weaves`: what filling gives, and when it fails.
-/

namespace Brace

/-- The two characters of a specifier. -/
def Specifier.chars : Specifier → List Char
  | .int   => ['%', 'd']
  | .float => ['%', 'f']
  | .str   => ['%', 's']

namespace Template

/-! ### Places -/

/-- The specifier whose percent sign stands at this place, right before one of the three letters. -/
def specifierAt (cs : List Char) (i : Nat) : Option Specifier :=
  match cs[i]?, cs[i + 1]? with
  | some '%', some 'd' => some .int
  | some '%', some 'f' => some .float
  | some '%', some 's' => some .str
  | _, _               => none

/-- The places of percent signs of specifiers, from left to right. -/
def places (cs : List Char) : List Nat :=
  (List.range cs.length).filter fun i => (specifierAt cs i).isSome

/-- What is left from one place on when two characters are cut out at each of the later places. -/
def cutFrom (cs : List Char) : Nat → List Nat → List (List Char)
  | i, []      => [cs.drop i]
  | i, k :: ks => (cs.take k).drop i :: cutFrom cs (k + 2) ks

/-- The pieces of text that are left of a template when its specifiers are cut out. -/
def literals (cs : List Char) : List (List Char) := cutFrom cs 0 (places cs)

/-- Pieces of text, with another text after each of them but the last. -/
def weave : List (List Char) → List (List Char) → List Char
  | l :: ls, t :: ts => l ++ t ++ weave ls ts
  | ls, []           => ls.flatten
  | [], ts           => ts.flatten

theorem specifierAt_succ (c : Char) (cs : List Char) (i : Nat) :
    specifierAt (c :: cs) (i + 1) = specifierAt cs i := rfl

/-- After a percent sign, the next character tells. -/
theorem specifierAt_percent (d : Char) (cs : List Char) :
    specifierAt ('%' :: d :: cs) 0 = Specifier.ofLetter? d := by
  by_cases letter : d = 'd' ∨ d = 'f' ∨ d = 's'
  · obtain rfl | rfl | rfl := letter <;> rfl
  · simp only [not_or] at letter
    obtain ⟨notInt, notFloat, notStr⟩ := letter
    simp [specifierAt, Specifier.ofLetter?, notInt, notFloat, notStr]

/-- No other character begins a specifier. -/
theorem specifierAt_of_ne {c : Char} (h : c ≠ '%') (cs : List Char) :
    specifierAt (c :: cs) 0 = none := by
  rw [specifierAt]
  split <;> simp_all

/-- The letter of a specifier begins no specifier. -/
theorem specifierAt_letter {d : Char} {s : Specifier} (h : Specifier.ofLetter? d = some s)
    (cs : List Char) : specifierAt (d :: cs) 0 = none := by
  refine specifierAt_of_ne ?_ cs
  rintro rfl
  cases h

theorem chars_of_ofLetter? {d : Char} {s : Specifier} (h : Specifier.ofLetter? d = some s) :
    s.chars = ['%', d] := by
  rw [Specifier.ofLetter?.eq_def] at h
  split at h <;> cases h <;> rfl

section

variable {c : Char} {cs : List Char}

theorem filterMap_specifierAt_cons :
    (List.range (c :: cs).length).filterMap (specifierAt (c :: cs)) =
      (specifierAt (c :: cs) 0).toList ++ (List.range cs.length).filterMap (specifierAt cs) := by
  rw [List.length_cons, List.range_succ_eq_map, List.filterMap_cons, List.filterMap_map]
  have shifted : specifierAt (c :: cs) ∘ Nat.succ = specifierAt cs :=
    funext (specifierAt_succ c cs)
  rw [shifted]
  cases specifierAt (c :: cs) 0 <;> rfl

theorem filter_range_cons :
    ((List.range cs.length).map Nat.succ).filter (fun i => (specifierAt (c :: cs) i).isSome) =
      (places cs).map Nat.succ := by
  rw [List.filter_map, places]
  rfl

theorem places_of_none (h : specifierAt (c :: cs) 0 = none) :
    places (c :: cs) = (places cs).map Nat.succ := by
  rw [places, List.length_cons, List.range_succ_eq_map, List.filter_cons_of_neg (by simp [h]),
    filter_range_cons]

theorem places_of_some {s : Specifier} (h : specifierAt (c :: cs) 0 = some s) :
    places (c :: cs) = 0 :: (places cs).map Nat.succ := by
  rw [places, List.length_cons, List.range_succ_eq_map, List.filter_cons_of_pos (by simp [h]),
    filter_range_cons]

/-! ### Pieces of text -/

/-- With one more character in front, all places are one further on. -/
theorem cutFrom_succ (c : Char) (cs : List Char) (ks : List Nat) (i : Nat) :
    cutFrom (c :: cs) (i + 1) (ks.map Nat.succ) = cutFrom cs i ks := by
  induction ks generalizing i with
  | nil => rfl
  | cons k ks ih => rw [List.map_cons, cutFrom, cutFrom, ← ih (k + 2)]; rfl

theorem cutFrom_zero (c : Char) (cs : List Char) (ks : List Nat) :
    cutFrom (c :: cs) 0 (ks.map Nat.succ) = (cutFrom cs 0 ks).modifyHead (c :: ·) := by
  cases ks with
  | nil => rfl
  | cons k ks => rw [List.map_cons, cutFrom, cutFrom, List.modifyHead_cons,
      ← cutFrom_succ c cs ks (k + 2)]; rfl

/-- A character that begins no specifier is the first of the first piece. -/
theorem literals_of_none (h : specifierAt (c :: cs) 0 = none) :
    literals (c :: cs) = (literals cs).modifyHead (c :: ·) := by
  rw [literals, places_of_none h, cutFrom_zero, literals]

/-- Before a specifier that stands in front there is nothing. -/
theorem literals_of_some {d : Char} {s : Specifier} (h : Specifier.ofLetter? d = some s) :
    literals ('%' :: d :: cs) = [] :: literals cs := by
  have first : specifierAt ('%' :: d :: cs) 0 = some s := (specifierAt_percent d cs).trans h
  rw [literals, places_of_some first, places_of_none (specifierAt_letter h cs), cutFrom,
    cutFrom_succ, cutFrom_succ, literals]
  rfl

theorem pieces_of_none (h : specifierAt (c :: cs) 0 = none) :
    pieces (c :: cs) = .char c :: pieces cs := by
  cases cs with
  | nil => rfl
  | cons d rest =>
      rw [pieces]
      split
      · subst c
        have letter : Specifier.ofLetter? d = none := (specifierAt_percent d rest).symm.trans h
        rw [letter]
      · rfl

theorem pieces_of_some {d : Char} {s : Specifier} (h : Specifier.ofLetter? d = some s) :
    pieces ('%' :: d :: cs) = .spec s :: pieces cs := by
  rw [pieces, if_pos rfl, h]

/-- A template is empty, or it begins with a character that stands for itself or with a specifier. -/
theorem scan_induction {P : List Char → Prop} (nil : P [])
    (char : ∀ c cs, specifierAt (c :: cs) 0 = none → P cs → P (c :: cs))
    (spec : ∀ d s cs, Specifier.ofLetter? d = some s → P cs → P ('%' :: d :: cs)) (cs : List Char) :
    P cs := by
  induction cs using pieces.induct with
  | case1 => exact nil
  | case2 c =>
      refine char c [] ?_ nil
      rw [specifierAt]
      split <;> simp_all
  | case3 d rest s letter ih => exact spec d s rest letter ih
  | case4 d rest letter ih => exact char _ _ ((specifierAt_percent d rest).trans letter) ih
  | case5 c d rest other ih => exact char c _ (specifierAt_of_ne other _) ih

/-- The specifiers are those at the places, from left to right. -/
theorem specifiers_eq (cs : List Char) : (pieces cs).filterMap Piece.specifier? =
    (List.range cs.length).filterMap (specifierAt cs) := by
  induction cs using scan_induction with
  | nil => rfl
  | char c cs h ih =>
      rw [pieces_of_none h, filterMap_specifierAt_cons, h, ← ih]
      rfl
  | spec d s cs h ih =>
      have first : specifierAt ('%' :: d :: cs) 0 = some s := (specifierAt_percent d cs).trans h
      rw [pieces_of_some h, filterMap_specifierAt_cons, first, filterMap_specifierAt_cons,
        specifierAt_letter h, ← ih]
      rfl

/-! ### Putting together -/

theorem literals_ne_nil (cs : List Char) : literals cs ≠ [] := by
  rw [literals]
  cases places cs <;> simp [cutFrom]

theorem weave_modifyHead (c : Char) {ls : List (List Char)} (h : ls ≠ []) (ts : List (List Char)) :
    weave (ls.modifyHead (c :: ·)) ts = c :: weave ls ts := by
  cases ls with
  | nil => exact absurd rfl h
  | cons l ls => cases ts <;> simp [weave]

/-- There is one piece of text more than there are specifiers. -/
theorem length_literals (cs : List Char) :
    (literals cs).length = ((pieces cs).filterMap Piece.specifier?).length + 1 := by
  induction cs using scan_induction with
  | nil => rfl
  | char c cs h ih =>
      rw [literals_of_none h, pieces_of_none h, List.length_modifyHead, ih]
      rfl
  | spec d s cs h ih =>
      rw [literals_of_some h, pieces_of_some h, List.length_cons, ih]
      rfl

/-- With its specifiers put back, a template is whole again. -/
theorem weave_literals (cs : List Char) : weave (literals cs)
    (((pieces cs).filterMap Piece.specifier?).map Specifier.chars) = cs := by
  induction cs using scan_induction with
  | nil => rfl
  | char c cs h ih =>
      rw [literals_of_none h, pieces_of_none h, weave_modifyHead c (literals_ne_nil cs)]
      exact congrArg (c :: ·) ih
  | spec d s cs h ih =>
      rw [literals_of_some h, pieces_of_some h, List.filterMap_cons, Piece.specifier?, List.map_cons,
        weave, ih, chars_of_ofLetter? h]
      rfl

end

/-! ### Filling -/

section

variable {α : Type} (text : α → Option String)

/-- Where an argument is missing, those that there are have been shown before it is missed. -/
theorem fillPieces_of_lt (ps : List Piece) (args : List α)
    (h : args.length < (ps.filterMap Piece.specifier?).length) :
    fillPieces text ps args = (args.mapM text).map fun _ =>
      .error (.malformedFormat "more specifiers than arguments") := by
  induction ps generalizing args with
  | nil => cases h
  | cons p ps ih =>
      cases p with
      | char c =>
          rw [fillPieces, ih args h, Option.map_map]
          rfl
      | spec s =>
          cases args with
          | nil => rfl
          | cons a args =>
              rw [fillPieces, ih args (Nat.lt_of_succ_lt_succ h), List.mapM_cons]
              cases text a with
              | none => rfl
              | some t => cases args.mapM text <;> rfl

/-- Where there is an argument too many, those before it have been shown. -/
theorem fillPieces_of_gt (ps : List Piece) (args : List α)
    (h : (ps.filterMap Piece.specifier?).length < args.length) :
    fillPieces text ps args =
      ((args.take (ps.filterMap Piece.specifier?).length).mapM text).map fun _ =>
        .error (.malformedFormat "more arguments than specifiers") := by
  induction ps generalizing args with
  | nil =>
      cases args with
      | nil => cases h
      | cons a args => rfl
  | cons p ps ih =>
      cases p with
      | char c =>
          rw [fillPieces, ih args h, Option.map_map]
          rfl
      | spec s =>
          cases args with
          | nil => cases h
          | cons a args =>
              rw [fillPieces, ih args (Nat.lt_of_succ_lt_succ h), List.filterMap_cons,
                Piece.specifier?, List.length_cons, List.take_succ_cons, List.mapM_cons]
              cases text a with
              | none => rfl
              | some t => cases (args.take _).mapM text <;> rfl

/-- With an argument for each specifier, the texts of the arguments stand where specifiers were. -/
theorem fillPieces_of_eq (cs : List Char) (args : List α)
    (h : args.length = ((pieces cs).filterMap Piece.specifier?).length) :
    fillPieces text (pieces cs) args = (args.mapM text).map fun texts =>
      .ok (weave (literals cs) (texts.map String.toList)) := by
  induction cs using scan_induction generalizing args with
  | nil =>
      cases args with
      | nil => rfl
      | cons a args => cases h
  | char c cs none ih =>
      rw [pieces_of_none none] at h ⊢
      rw [fillPieces, ih args h, literals_of_none none, Option.map_map]
      congr 1
      funext texts
      exact congrArg Except.ok (weave_modifyHead c (literals_ne_nil cs) _).symm
  | spec d s cs some ih =>
      rw [pieces_of_some some] at h ⊢
      cases args with
      | nil => cases h
      | cons a args =>
          rw [fillPieces, ih args (Nat.succ.inj h), literals_of_some some, List.mapM_cons]
          cases text a with
          | none => rfl
          | some t => cases args.mapM text <;> rfl

end

/-- **What filling gives.**  The specifiers of a template are those at its places, from left to right, and
cutting them out leaves one piece of text more, between which they can be put back. Filling succeeds
where there are as many arguments as specifiers, and gives the pieces with the texts of the arguments in
between, with the escapes resolved in all of that; otherwise the format is malformed. An argument
without a text is never done being shown, if it comes to be shown at all. -/
theorem fill_weaves (h : Heap) (template : String) (args : List Value) :
    specifiers template =
      (List.range template.toList.length).filterMap (specifierAt template.toList) ∧
    (literals template.toList).length = (specifiers template).length + 1 ∧
    weave (literals template.toList) ((specifiers template).map Specifier.chars) =
      template.toList ∧
    fill h.text? template args =
      if args.length = (specifiers template).length then
        (args.mapM h.text?).map fun texts => .ok (String.ofList
          (unescape (weave (literals template.toList) (texts.map String.toList))))
      else if args.length < (specifiers template).length then
        (args.mapM h.text?).map fun _ =>
          .error (.malformedFormat "more specifiers than arguments")
      else
        ((args.take (specifiers template).length).mapM h.text?).map fun _ =>
          .error (.malformedFormat "more arguments than specifiers") := by
  refine ⟨specifiers_eq _, length_literals _, weave_literals _, ?_⟩
  rw [fill, specifiers]
  split
  · rename_i same
    rw [fillPieces_of_eq h.text? _ args same, Option.map_map]
    rfl
  · rename_i other
    split
    · rename_i fewer
      rw [fillPieces_of_lt h.text? _ args fewer, Option.map_map]
      rfl
    · rename_i notFewer
      have more := Nat.lt_of_le_of_ne (Nat.not_lt.mp notFewer) (Ne.symm other)
      rw [fillPieces_of_gt h.text? _ args more, Option.map_map]
      rfl

/-- Neither `%%` nor `%x` is a specifier, and a percent sign in the text of an argument begins none. -/
example : fill (fun s : String => some s) "%%d is %s%x\\n" ["1", "%f"] = some (.ok "%1 is %f%x\n") := by
  rfl

end Template

end Brace
