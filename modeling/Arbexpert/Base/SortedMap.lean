import Arbexpert.Base.OrderBook
import Mathlib.Data.Finset.Sort
import Mathlib.Data.String.Basic

/-!
# The entries of a sorted map

A sorted map is run through in the order of its keys. The entries are the only list of pairs with
increasing keys that has what the map has, so they tell the map, and an entry with a new key
joins them somewhere without a change to the others.
-/

namespace Arbexpert.Base

variable {V : Type*} {map : BTreeMap String V} {pairs : List (String × V)}

/-- The entries of a sorted map in the order of their keys. -/
def entries (map : BTreeMap String V) : List (String × V) :=
  (map.keys.sort (· ≤ ·)).filterMap fun key => (map.lookup key).map fun value => (key, value)

/-- The entries are what the map has. -/
theorem mem_entries {pair : String × V} : pair ∈ entries map ↔ map.lookup pair.1 = some pair.2 := by
  simp only [entries, List.mem_filterMap, Finset.mem_sort, Option.map_eq_some_iff]
  constructor
  · rintro ⟨key, _, value, hvalue, rfl⟩
    exact hvalue
  · intro hvalue
    exact ⟨pair.1, Finmap.mem_keys.mpr (Finmap.mem_of_lookup_eq_some hvalue), pair.2, hvalue, rfl⟩

/-- The keys of the entries increase. -/
theorem pairwise_entries (map : BTreeMap String V) :
    (entries map).Pairwise fun first second => first.1 < second.1 := by
  have hkeys : (map.keys.sort (· ≤ ·)).Pairwise (· < ·) := (Finset.sortedLT_sort map.keys).pairwise
  refine hkeys.filterMap _ fun first second hlt pair hpair other hother => ?_
  obtain ⟨_, _, rfl⟩ := Option.map_eq_some_iff.mp hpair
  obtain ⟨_, _, rfl⟩ := Option.map_eq_some_iff.mp hother
  exact hlt

/-- Lists of pairs with increasing keys are equal when they have the same pairs. -/
theorem eq_of_increasing {others : List (String × V)}
    (hpairs : pairs.Pairwise fun first second => first.1 < second.1)
    (hothers : others.Pairwise fun first second => first.1 < second.1)
    (hsame : ∀ pair, pair ∈ pairs ↔ pair ∈ others) : pairs = others := by
  have hnodup {list : List (String × V)}
      (hlist : list.Pairwise fun first second => first.1 < second.1) : list.Nodup :=
    hlist.imp fun hlt heq => absurd (congrArg Prod.fst heq) hlt.ne
  apply List.Perm.eq_of_pairwise _ hpairs hothers
    ((List.perm_ext_iff_of_nodup (hnodup hpairs) (hnodup hothers)).mpr hsame)
  intro first second _ _ hlt hgt
  exact absurd hgt hlt.asymm

/-- A list of pairs with increasing keys that has what the map has is the list of its entries. -/
theorem entries_eq (hpairs : pairs.Pairwise fun first second => first.1 < second.1)
    (hsame : ∀ pair, pair ∈ pairs ↔ map.lookup pair.1 = some pair.2) : entries map = pairs :=
  eq_of_increasing (pairwise_entries map) hpairs fun pair => mem_entries.trans (hsame pair).symm

/-- A list of pairs with increasing keys is the list of the entries of a map that has these pairs
and no other keys. -/
theorem entries_eq_of_keys (hpairs : pairs.Pairwise fun first second => first.1 < second.1)
    (hlookup : ∀ pair ∈ pairs, map.lookup pair.1 = some pair.2)
    (hkeys : ∀ key ∈ map.keys, key ∈ pairs.map Prod.fst) : entries map = pairs := by
  apply entries_eq hpairs
  intro pair
  constructor
  · exact hlookup pair
  · intro hvalue
    have hkey := hkeys pair.1 (Finmap.mem_keys.mpr (Finmap.mem_of_lookup_eq_some hvalue))
    obtain ⟨other, hother, hsame⟩ := List.mem_map.mp hkey
    have hvalues := hlookup other hother
    rw [hsame, hvalue] at hvalues
    rwa [← Prod.ext hsame (Option.some.inj hvalues).symm]

/-- The entries tell the map. -/
theorem entries_injective {other : BTreeMap String V} (h : entries map = entries other) :
    map = other := by
  refine Finmap.ext_lookup fun key => Option.ext fun value => ?_
  have hpair : (key, value) ∈ entries map ↔ (key, value) ∈ entries other := by rw [h]
  rwa [mem_entries, mem_entries] at hpair

/-- An entry with a new key joins the others. -/
theorem entries_insert {key : String} (hkey : map.lookup key = none) (value : V) :
    ∃ earlier later, entries map = earlier ++ later ∧
      entries (map.insert key value) = earlier ++ (key, value) :: later := by
  have hentry : (key, value) ∈ entries (map.insert key value) :=
    mem_entries.mpr (Finmap.lookup_insert map)
  obtain ⟨earlier, later, hsplit⟩ := List.append_of_mem hentry
  have hincreasing := pairwise_entries (map.insert key value)
  rw [hsplit] at hincreasing
  have hothers : (earlier ++ later).Pairwise fun first second => first.1 < second.1 :=
    hincreasing.sublist ((List.sublist_cons_self _ _).append_left earlier)
  have hmem {pair : String × V} : pair ∈ entries (map.insert key value) ↔
      pair = (key, value) ∨ pair ∈ earlier ++ later := by
    rw [hsplit, List.mem_append, List.mem_cons, List.mem_append, or_left_comm]
  have hne : ∀ pair ∈ earlier ++ later, pair.1 ≠ key := by
    obtain ⟨_, hlater, hearlier⟩ := List.pairwise_append.mp hincreasing
    intro pair hpair
    rcases List.mem_append.mp hpair with hbefore | hafter
    · exact (hearlier pair hbefore _ List.mem_cons_self).ne
    · exact ((List.pairwise_cons.mp hlater).1 pair hafter).ne'
  refine ⟨earlier, later, entries_eq hothers fun pair => ?_, hsplit⟩
  constructor
  · intro hpair
    have hvalue := mem_entries.mp (hmem.mpr (Or.inr hpair))
    rwa [Finmap.lookup_insert_of_ne _ (hne pair hpair)] at hvalue
  · intro hvalue
    have hkeys : pair.1 ≠ key := by
      intro hsame
      rw [hsame, hkey] at hvalue
      cases hvalue
    have hpair : pair ∈ entries (map.insert key value) := by
      rw [mem_entries, Finmap.lookup_insert_of_ne _ hkeys]
      exact hvalue
    exact (hmem.mp hpair).resolve_left fun hsame => hkeys (congrArg Prod.fst hsame)

end Arbexpert.Base
