/-!
# Name tables

A `Dict` maps names to values. It keeps its entries in the order in which the names were first
written; a later write to a name replaces the value where it stands. So the names never repeat,
and the order in which a table was filled can be read off it.
-/

namespace Scriptlet

/-- A table from names to values, as a list of its entries. -/
structure Dict (α : Type) where
  entries : List (String × α)
deriving DecidableEq, Repr, Inhabited

namespace Dict

variable {α β : Type}

/-- The table without entries. -/
def empty : Dict α := ⟨[]⟩

/-- The value written under `name` in a list of entries. -/
def find (name : String) : List (String × α) → Option α
  | [] => none
  | (key, value) :: rest => if key = name then some value else find name rest

/-- The entries after writing `value` under `name`. -/
def put (name : String) (value : α) : List (String × α) → List (String × α)
  | [] => [(name, value)]
  | (key, old) :: rest =>
    if key = name then (key, value) :: rest else (key, old) :: put name value rest

/-- The value under `name`, if there is one. -/
def get? (d : Dict α) (name : String) : Option α := find name d.entries

/-- The table after writing `value` under `name`. -/
def insert (d : Dict α) (name : String) (value : α) : Dict α := ⟨put name value d.entries⟩

/-- Whether `name` has an entry. -/
def contains (d : Dict α) (name : String) : Bool := (d.get? name).isSome

/-- The names in the order of their first writing. -/
def keys (d : Dict α) : List String := d.entries.map (·.1)

/-- The names in the order of their code points. -/
def sortedKeys (d : Dict α) : List String := d.keys.mergeSort (fun a b => decide (a ≤ b))

/-- The entries in the order of their names. -/
def sorted (d : Dict α) : List (String × α) :=
  d.entries.mergeSort (fun a b => decide (a.1 ≤ b.1))

/-- Write a list of entries one after the other, so that the last write to a name wins. -/
def insertMany (d : Dict α) (entries : List (String × α)) : Dict α :=
  entries.foldl (fun acc e => acc.insert e.1 e.2) d

theorem find_put (name other : String) (value : α) (l : List (String × α)) :
    find other (put name value l) = if name = other then some value else find other l := by
  induction l with
  | nil => simp [put, find]
  | cons e rest ih =>
    obtain ⟨key, old⟩ := e
    by_cases hk : key = name
    · by_cases ho : name = other <;> simp_all [put, find]
    · by_cases ho : key = other
      · have : ¬ name = other := fun h => hk (ho.trans h.symm)
        simp_all [put, find]
      · simp_all [put, find]

@[simp] theorem get?_empty (name : String) : (empty : Dict α).get? name = none := rfl

@[simp] theorem get?_insert_self (d : Dict α) (name : String) (value : α) :
    (d.insert name value).get? name = some value := by
  simp [get?, insert, find_put]

theorem get?_insert (d : Dict α) (name other : String) (value : α) :
    (d.insert name value).get? other = if name = other then some value else d.get? other :=
  find_put name other value d.entries

theorem contains_insert (d : Dict α) (name other : String) (value : α) :
    (d.insert name value).contains other = (decide (name = other) || d.contains other) := by
  by_cases h : name = other <;> simp [contains, get?_insert, h]

/-! ### Tables that were filled in turn -/

theorem find_append (name : String) (xs ys : List (String × α)) :
    find name (xs ++ ys) = (find name xs).or (find name ys) := by
  induction xs with
  | nil => rfl
  | cons e rest ih =>
    simp only [List.cons_append, find]
    split
    · rfl
    · exact ih

/-- Of several entries under a name the last one counts. -/
theorem get?_insertMany (d : Dict α) (entries : List (String × α)) (name : String) :
    (d.insertMany entries).get? name = (find name entries.reverse).or (d.get? name) := by
  induction entries generalizing d with
  | nil => rfl
  | cons e rest ih =>
    have written : (d.insert e.1 e.2).get? name = (find name [e]).or (d.get? name) := by
      rw [get?_insert, find, find]
      split <;> rfl
    rw [List.reverse_cons, find_append, Option.or_assoc, ← written]
    exact ih (d.insert e.1 e.2)

theorem keys_insert (d : Dict α) (name : String) (value : α) :
    (d.insert name value).keys = if name ∈ d.keys then d.keys else d.keys ++ [name] := by
  obtain ⟨entries⟩ := d
  simp only [keys, insert]
  induction entries with
  | nil => rfl
  | cons e rest ih =>
    simp only [put]
    split
    · next same => simp [same]
    · next other =>
      have apart : name ≠ e.1 := fun same => other same.symm
      by_cases known : name ∈ rest.map (·.1) <;> simp [apart, ih, known]

theorem nodup_keys_insert {d : Dict α} (distinct : d.keys.Nodup) (name : String) (value : α) :
    (d.insert name value).keys.Nodup := by
  rw [keys_insert]
  split
  · exact distinct
  · next new =>
    have grown := List.nodup_cons.2 ⟨new, distinct⟩
    exact (List.perm_append_singleton name d.keys).nodup_iff.2 grown

theorem nodup_keys_insertMany {d : Dict α} (distinct : d.keys.Nodup)
    (entries : List (String × α)) : (d.insertMany entries).keys.Nodup := by
  induction entries generalizing d with
  | nil => exact distinct
  | cons e rest ih => exact ih (nodup_keys_insert distinct e.1 e.2)

/-- Where no name repeats, the order of the entries does not matter. -/
theorem find_of_perm {xs ys : List (String × α)} (perm : xs.Perm ys)
    (distinct : (xs.map (·.1)).Nodup) (name : String) : find name xs = find name ys := by
  induction perm with
  | nil => rfl
  | cons e _ ih =>
    simp only [find]
    split
    · rfl
    · exact ih (List.nodup_cons.1 distinct).2
  | swap e f rest =>
    have apart : f.1 ≠ e.1 := fun same => (List.nodup_cons.1 distinct).1 (by simp [same])
    simp only [find]
    split
    · next first =>
      rw [if_neg fun second => apart (first.trans second.symm)]
    · rfl
  | trans first _ ih₁ ih₂ =>
    exact (ih₁ distinct).trans (ih₂ ((first.map (·.1)).nodup_iff.1 distinct))

/-- A table can be copied in any order. -/
theorem get?_copy {d : Dict α} (distinct : d.keys.Nodup) {entries : List (String × α)}
    (perm : entries.Perm d.entries) (name : String) :
    (empty.insertMany entries).get? name = d.get? name := by
  rw [get?_insertMany, get?_empty, Option.or_none]
  exact (find_of_perm (perm.symm.trans entries.reverse_perm.symm) distinct name).symm

end Dict
end Scriptlet
