/-!
# Table — values under names

A table holds values under names, each name at most where it was first put: putting a value under
a name that is there already replaces the value, and a new name goes to the end. What a table says
about a name is `get?`, and the two laws `get?_put_self` and `get?_put_other` are all that the
rest of the library needs to know about it. In a table that is filled from a list, the last of the
values under a name counts (`get?_foldl_put`).
-/

namespace Brace

/-- Values under names, in the order in which the names came. -/
structure Table (β : Type) where
  entries : List (String × β)
  deriving Inhabited

namespace Table

variable {β : Type}

def empty : Table β := ⟨[]⟩

/-- The first value under the name. -/
def find (x : String) : List (String × β) → Option β
  | []            => none
  | (y, b) :: rest => if y = x then some b else find x rest

/-- The list with `b` under `x`, in place of what was there. -/
def replace (x : String) (b : β) : List (String × β) → List (String × β)
  | []            => [(x, b)]
  | (y, c) :: rest => if y = x then (y, b) :: rest else (y, c) :: replace x b rest

def get? (t : Table β) (x : String) : Option β := find x t.entries

def contains (t : Table β) (x : String) : Bool := (t.get? x).isSome

def put (t : Table β) (x : String) (b : β) : Table β := ⟨replace x b t.entries⟩

/-- The table of a list of pairs, where a later value replaces an earlier one. -/
def ofList (pairs : List (String × β)) : Table β :=
  pairs.foldl (fun t p => t.put p.1 p.2) empty

@[simp] theorem get?_empty (x : String) : (empty : Table β).get? x = none := rfl

@[simp] theorem get?_put_self (t : Table β) (x : String) (b : β) : (t.put x b).get? x = some b := by
  simp only [get?, put]
  induction t.entries with
  | nil => simp [replace, find]
  | cons p rest ih =>
      obtain ⟨y, c⟩ := p
      by_cases h : y = x <;> simp [replace, find, h, ih]

theorem get?_put_other (t : Table β) {x y : String} (h : x ≠ y) (b : β) :
    (t.put x b).get? y = t.get? y := by
  simp only [get?, put]
  induction t.entries with
  | nil => simp [replace, find, h]
  | cons p rest ih =>
      obtain ⟨z, c⟩ := p
      by_cases hz : z = x
      · subst hz; simp [replace, find, h]
      · by_cases hy : z = y
        · subst hy; simp [replace, find, hz]
        · simp [replace, find, hz, hy, ih]

/-- What a table says about a name is one of its entries. -/
theorem mem_of_get? {t : Table β} {x : String} {b : β} (h : t.get? x = some b) :
    (x, b) ∈ t.entries := by
  rw [get?] at h
  revert h
  induction t.entries with
  | nil => exact nofun
  | cons p rest ih =>
      obtain ⟨y, c⟩ := p
      intro h
      rw [find] at h
      split at h
      · cases h
        subst y
        exact List.mem_cons_self
      · exact List.mem_cons_of_mem _ (ih h)

theorem contains_put (t : Table β) (x y : String) (b : β) :
    (t.put x b).contains y = (x == y || t.contains y) := by
  by_cases h : x = y
  · subst h; simp [contains]
  · simp [contains, get?_put_other t h, h]

/-- A table that is filled from a list: the last of those with the name counts. -/
theorem get?_foldl_put {γ : Type} (name : γ → String) (value : γ → β) (x : String) :
    ∀ (cs : List γ) (t : Table β), (cs.foldl (fun t c => t.put (name c) (value c)) t).get? x =
      ((cs.reverse.find? fun c => name c = x).map value).or (t.get? x)
  | [], t => by simp
  | c :: cs, t => by
      rw [List.foldl_cons, get?_foldl_put name value x cs, List.reverse_cons, List.find?_append]
      cases cs.reverse.find? fun c => name c = x with
      | some c' => rfl
      | none =>
          by_cases e : name c = x
          · simp [e]
          · simp [e, get?_put_other t e]

theorem get?_ofList (ps : List (String × β)) (x : String) :
    (ofList ps).get? x = (ps.reverse.find? fun p => p.1 = x).map (·.2) := by
  have h := get?_foldl_put (fun p : String × β => p.1) (·.2) x ps empty
  rwa [get?_empty, Option.or_none] at h

/-- A table of a list whose values are changed. -/
theorem get?_ofList_map {γ : Type} (f : β → γ) (ps : List (String × β)) (x : String) :
    (ofList (ps.map fun p => (p.1, f p.2))).get? x = ((ofList ps).get? x).map f := by
  rw [get?_ofList, get?_ofList, ← List.map_reverse, List.find?_map, Option.map_map, Option.map_map]
  rfl

end Table

end Brace
