import Mathlib.Data.Finmap
import Mathlib.Data.List.ProdSigma

/-!
# Groups of a list by a key

A map from keys to lists that is filled element by element holds the groups of the list. The
groups together are the list up to order, and joining two lists group by group gives the pairs of
equal key of their product.
-/

namespace Grouping

variable {α β K V : Type*} [DecidableEq K] {key : α → K} {wrap : List α → V} {l : List α}

/-- The elements of a list with one key, in their order. -/
def group (key : α → K) (l : List α) (k : K) : List α := l.filter fun x => key x = k

/-- A map holds the groups of a list in some wrapping; keys without elements are absent. -/
def Holds (key : α → K) (wrap : List α → V) (l : List α) (map : Finmap fun _ : K => V) : Prop :=
  ∀ k, map.lookup k = if group key l k = [] then none else some (wrap (group key l k))

/-- The empty map holds the groups of the empty list. -/
theorem holds_nil : Holds key wrap [] (∅ : Finmap fun _ : K => V) := fun _ => rfl

/-- An appended element joins the group of its key and no other. -/
theorem group_append_singleton (l : List α) (x : α) (k : K) :
    group key (l ++ [x]) k = if key x = k then group key l k ++ [x] else group key l k := by
  unfold group
  rw [List.filter_append]
  by_cases h : key x = k <;> simp [h]

/-- Storing the longer group of an element that is appended to the list. -/
theorem Holds.insert {map : Finmap fun _ : K => V} (h : Holds key wrap l map) (x : α) :
    Holds key wrap (l ++ [x]) (map.insert (key x) (wrap (group key l (key x) ++ [x]))) := by
  intro k
  rw [group_append_singleton]
  by_cases hk : key x = k
  · subst hk
    rw [Finmap.lookup_insert, if_pos rfl, if_neg (by simp)]
  · rw [Finmap.lookup_insert_of_ne _ (Ne.symm hk), if_neg hk]
    exact h k

/-- The keys of the groups are the keys of the elements. -/
theorem Holds.mem_keys {map : Finmap fun _ : K => V} (h : Holds key wrap l map) {k : K} :
    k ∈ map.keys ↔ ∃ x ∈ l, key x = k := by
  rw [Finmap.mem_keys, ← Finmap.lookup_isSome, h k]
  simp [group]

/-- The group of a key that some element has. -/
theorem Holds.lookup {map : Finmap fun _ : K => V} (h : Holds key wrap l map) {k : K}
    (hk : k ∈ map.keys) : map.lookup k = some (wrap (group key l k)) := by
  rw [h k, if_neg]
  obtain ⟨x, hx, hkey⟩ := h.mem_keys.mp hk
  exact List.ne_nil_of_mem (List.mem_filter.mpr ⟨hx, by simp [hkey]⟩)

/-- The stored group of a key, or that of no elements. -/
theorem Holds.getD {map : Finmap fun _ : K => V} (h : Holds key wrap l map) (k : K) :
    (map.lookup k).getD (wrap []) = wrap (group key l k) := by
  rw [h k]
  split
  · rename_i hempty
    rw [hempty]
    rfl
  · rfl

/-- The entries of the map are the groups of its keys. -/
theorem Holds.entries {map : Finmap fun _ : K => V} (h : Holds key wrap l map) :
    map.entries = map.keys.val.map fun k => ⟨k, wrap (group key l k)⟩ := by
  have hentry : ∀ entry ∈ map.entries, entry = ⟨entry.1, wrap (group key l entry.1)⟩ := by
    intro ⟨k, v⟩ hmem
    have hlookup : map.lookup k = some v := Finmap.mem_lookup_iff.mpr hmem
    have hk : k ∈ map.keys := by
      rw [Finmap.mem_keys, ← Finmap.lookup_isSome, hlookup]
      rfl
    rw [h.lookup hk] at hlookup
    exact congrArg (Sigma.mk k) (Option.some.inj hlookup).symm
  calc map.entries
    _ = map.entries.map fun entry => ⟨entry.1, wrap (group key l entry.1)⟩ := by
      rw [← Multiset.map_congr rfl hentry, Multiset.map_id']
    _ = map.keys.val.map fun k => ⟨k, wrap (group key l k)⟩ := by
      rw [show map.keys.val = map.entries.map Sigma.fst from rfl, Multiset.map_map]
      rfl

/-- The group of a key in the groups of all keys, each taken once, is its group in the list. -/
theorem group_flatMap_group {keys : List K} (hnodup : keys.Nodup) {k : K} (hk : k ∈ keys) :
    group key (keys.flatMap (group key l)) k = group key l k := by
  have hgroup (other : K) :
      group key (group key l other) k = if other = k then group key l k else [] := by
    unfold group
    rw [List.filter_filter]
    split
    · rename_i heq
      simp [heq]
    · rename_i hne
      refine List.filter_eq_nil_iff.mpr fun x _ => ?_
      simp only [Bool.and_eq_true, decide_eq_true_eq]
      rintro ⟨hk, hother⟩
      exact hne (hother.symm.trans hk)
  have hnone {others : List K} (hothers : k ∉ others) :
      (others.flatMap fun other => if other = k then group key l k else []) = [] :=
    List.flatMap_eq_nil_iff.mpr fun other hother =>
      if_neg (ne_of_mem_of_not_mem hother hothers)
  obtain ⟨before, after, rfl⟩ := List.append_of_mem hk
  have honce : k ∉ before ++ after := (List.nodup_cons.mp (List.nodup_middle.mp hnodup)).1
  have hbefore : k ∉ before := fun hmem => honce (List.mem_append_left _ hmem)
  have hafter : k ∉ after := fun hmem => honce (List.mem_append_right _ hmem)
  calc group key ((before ++ k :: after).flatMap (group key l)) k
    _ = (before ++ k :: after).flatMap fun other => group key (group key l other) k :=
      List.filter_flatMap
    _ = group key l k := by
      simp only [hgroup, List.flatMap_append, List.flatMap_cons, hnone hbefore, hnone hafter,
        if_true, List.nil_append, List.append_nil]

/-- The groups of all keys, each taken once, are the list up to order. -/
theorem perm_flatMap_group {keys : List K} (hnodup : keys.Nodup)
    (hkeys : ∀ x ∈ l, key x ∈ keys) : (keys.flatMap (group key l)).Perm l := by
  induction keys generalizing l with
  | nil =>
    cases l with
    | nil => exact .nil
    | cons x rest => exact absurd (hkeys x List.mem_cons_self) List.not_mem_nil
  | cons k ks ih =>
    obtain ⟨hk, hks⟩ := List.nodup_cons.mp hnodup
    have hothers : ks.flatMap (group key l) =
        ks.flatMap (group key (l.filter fun x => !decide (key x = k))) := by
      refine List.flatMap_congr fun other hother => ?_
      unfold group
      rw [List.filter_filter]
      refine List.filter_congr fun x _ => ?_
      by_cases hx : key x = other
      · have hne : key x ≠ k := fun heq => hk (heq ▸ hx ▸ hother)
        simp [hx, hx ▸ hne]
      · simp [hx]
    have hrest : ∀ x ∈ l.filter fun x => !decide (key x = k), key x ∈ ks := by
      intro x hx
      obtain ⟨hmem, hne⟩ := List.mem_filter.mp hx
      exact (List.mem_cons.mp (hkeys x hmem)).resolve_left (by simpa using hne)
    rw [List.flatMap_cons, hothers]
    exact ((ih hks hrest).append_left _).trans (List.filter_append_perm _ l)

section Join

variable (kl : α → K) (kr : β → K)

/-- The pairs of two lists whose keys are equal. -/
def join (l : List α) (r : List β) : List (α × β) := (l ×ˢ r).filter fun p => kl p.1 = kr p.2

/-- The pairs of one key are those of the two groups of this key. -/
theorem group_join (l : List α) (r : List β) (k : K) :
    group (fun p => kl p.1) (join kl kr l r) k = group kl l k ×ˢ group kr r k := by
  unfold group join
  rw [List.filter_filter]
  induction l with
  | nil => rfl
  | cons x rest ih =>
    rw [List.product_cons, List.filter_append, ih, List.filter_map]
    have hpairs (y : β) : (decide (kl x = k) && decide (kl x = kr y)) =
        (decide (kl x = k) && decide (kr y = k)) := by
      by_cases hx : kl x = k
      · simp [hx, eq_comm]
      · simp [hx]
    simp only [Function.comp_def, hpairs]
    by_cases hx : kl x = k
    · rw [List.filter_cons_of_pos (by simpa using hx), List.product_cons]
      simp [hx]
    · rw [List.filter_cons_of_neg (by simpa using hx)]
      simp [hx]

/-- Joining two lists group by group gives the pairs of equal key, up to order. -/
theorem perm_flatMap_product {keys : List K} (hnodup : keys.Nodup) {l : List α} {r : List β}
    (hkeys : ∀ x ∈ l, kl x ∈ keys) :
    (keys.flatMap fun k => group kl l k ×ˢ group kr r k).Perm (join kl kr l r) := by
  have hgroups : (keys.flatMap fun k => group kl l k ×ˢ group kr r k) =
      keys.flatMap (group (fun p => kl p.1) (join kl kr l r)) :=
    List.flatMap_congr fun k _ => (group_join kl kr l r k).symm
  rw [hgroups]
  refine perm_flatMap_group hnodup fun p hp => hkeys p.1 ?_
  exact (List.mem_product.mp (List.mem_filter.mp hp).1).1

end Join

end Grouping
