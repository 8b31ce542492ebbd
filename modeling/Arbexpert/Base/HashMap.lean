import Mathlib.Data.Finmap

/-!
# Hash maps

The order of the entries of a hash map is never observed, so it is a finite map. Where
only lookups matter a map is also read as a function.
-/

namespace Arbexpert.Base

/-- A hash map. -/
abbrev HashMap (K V : Type*) := Finmap fun _ : K => V

variable {K V : Type*} [DecidableEq K]

/-- Inserting a key adds it to the keys. -/
theorem keys_insert (map : HashMap K V) (key : K) (value : V) :
    (map.insert key value).keys = insert key map.keys := by
  ext other
  simp only [Finmap.mem_keys, Finmap.mem_insert, Finset.mem_insert]

/-- Erasing a key undoes its insertion. -/
theorem erase_insert (map : HashMap K V) (key : K) (value : V) :
    (map.insert key value).erase key = map.erase key := by
  refine Finmap.ext_lookup fun other => ?_
  by_cases hother : other = key
  · rw [hother, Finmap.lookup_erase, Finmap.lookup_erase]
  · rw [Finmap.lookup_erase_ne hother, Finmap.lookup_erase_ne hother,
      Finmap.lookup_insert_of_ne _ hother]

/-- Inserting the value of a key undoes its removal. -/
theorem insert_erase {map : HashMap K V} {key : K} {value : V}
    (hvalue : map.lookup key = some value) : (map.erase key).insert key value = map := by
  refine Finmap.ext_lookup fun other => ?_
  by_cases hother : other = key
  · rw [hother, Finmap.lookup_insert, hvalue]
  · rw [Finmap.lookup_insert_of_ne _ hother, Finmap.lookup_erase_ne hother]

/-- Inserting the value that a key has changes nothing. -/
theorem insert_of_lookup {map : HashMap K V} {key : K} {value : V}
    (hvalue : map.lookup key = some value) : map.insert key value = map := by
  refine Finmap.ext_lookup fun other => ?_
  by_cases hother : other = key
  · rw [hother, Finmap.lookup_insert, hvalue]
  · exact Finmap.lookup_insert_of_ne _ hother

/-- Inserting a value at a key changes nothing exactly if the key has it. -/
theorem insert_eq_self_iff {map : HashMap K V} {key : K} {value : V} :
    (∀ other, (map.insert key value).lookup other = map.lookup other) ↔
      map.lookup key = some value := by
  constructor
  · intro hsame
    rw [← hsame key, Finmap.lookup_insert]
  · intro hvalue other
    rw [insert_of_lookup hvalue]

section Lists

variable {A : Type*} {R : A → V → Prop} {f : K → Option A} {map : HashMap K V}

/-- A function lists the entries of a map, up to a relation of their values. -/
def Lists (R : A → V → Prop) (f : K → Option A) (map : HashMap K V) : Prop :=
  ∀ key, Option.Rel R (f key) (map.lookup key)

/-- Nothing lists the empty map. -/
theorem lists_empty : Lists R (fun _ => none) (∅ : HashMap K V) := by
  intro key
  rw [Finmap.lookup_empty]
  exact .none

/-- Inserting related values at a key. -/
theorem Lists.insert (h : Lists R f map) (key : K) {a : A} {value : V} (hvalue : R a value) :
    Lists R (Function.update f key (some a)) (map.insert key value) := by
  intro other
  by_cases hother : other = key
  · rw [hother, Function.update_self, Finmap.lookup_insert]
    exact .some hvalue
  · rw [Function.update_of_ne hother, Finmap.lookup_insert_of_ne _ hother]
    exact h other

/-- Erasing a key. -/
theorem Lists.erase (h : Lists R f map) (key : K) :
    Lists R (Function.update f key none) (map.erase key) := by
  intro other
  by_cases hother : other = key
  · rw [hother, Function.update_self, Finmap.lookup_erase]
    exact .none
  · rw [Function.update_of_ne hother, Finmap.lookup_erase_ne hother]
    exact h other

/-- Erasing a key that is not listed. -/
theorem Lists.erase_of_none (h : Lists R f map) {key : K} (hkey : f key = none) :
    Lists R f (map.erase key) := by
  have herase := h.erase key
  rwa [← hkey, Function.update_eq_self] at herase

end Lists

end Arbexpert.Base
