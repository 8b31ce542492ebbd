import Mathlib.Data.Finset.Card
import Mathlib.Data.Finset.Insert

/-!
# Families of small disjoint sets

Elements are spread over named sets of bounded size, some of which are listed. The
listed sets share no element. An element may be added to a set exactly if the set has
room, and if no listed set has the element in case the set is listed itself.
-/

namespace BoundedFamily

variable {ι α : Type*}

/-- All sets are small, and listed sets share no element. -/
structure IsBounded (bound : ℕ) (listed : List ι) (sets : ι → Finset α) : Prop where
  card_le : ∀ c, (sets c).card ≤ bound
  disjoint : ∀ c ∈ listed, ∀ d ∈ listed, ∀ x ∈ sets c, x ∈ sets d → c = d

variable {bound : ℕ} {listed listed' : List ι} {sets sets' : ι → Finset α}

/-- Nothing is listed at the start, and all sets are empty. -/
theorem isBounded_empty : IsBounded bound ([] : List ι) (fun _ => (∅ : Finset α)) where
  card_le _ := by simp
  disjoint := nofun

/-- Smaller sets, fewer of them listed. -/
theorem IsBounded.mono (h : IsBounded bound listed sets) (hlisted : listed' ⊆ listed)
    (hsets : ∀ c, sets' c ⊆ sets c) : IsBounded bound listed' sets' where
  card_le c := (Finset.card_le_card (hsets c)).trans (h.card_le c)
  disjoint c hc d hd x hx hxd :=
    h.disjoint c (hlisted hc) d (hlisted hd) x (hsets c hx) (hsets d hxd)

/-- Listing an empty set. -/
theorem IsBounded.append (h : IsBounded bound listed sets) {c : ι} (hc : sets c = ∅) :
    IsBounded bound (listed ++ [c]) sets := by
  have hlisted {d : ι} (hd : d ∈ listed ++ [c]) {x : α} (hx : x ∈ sets d) : d ∈ listed := by
    rcases List.mem_append.mp hd with hold | hnew
    · exact hold
    · rw [List.mem_singleton.mp hnew, hc] at hx
      simp at hx
  exact ⟨h.card_le, fun d hd e he x hx hxe =>
    h.disjoint d (hlisted hd hx) e (hlisted he hxe) x hx hxe⟩

/-- Listing a set that shares no element with the listed ones. -/
theorem IsBounded.append_of_disjoint (h : IsBounded bound listed sets) {c : ι}
    (hc : ∀ d ∈ listed, ∀ x ∈ sets c, x ∉ sets d) : IsBounded bound (listed ++ [c]) sets := by
  refine ⟨h.card_le, fun d hd e he x hx hxe => ?_⟩
  rcases List.mem_append.mp hd with hd | hd <;> rcases List.mem_append.mp he with he | he
  · exact h.disjoint d hd e he x hx hxe
  · rw [List.mem_singleton.mp he] at hxe
    exact absurd hx (hc d hd x hxe)
  · rw [List.mem_singleton.mp hd] at hx
    exact absurd hxe (hc e he x hx)
  · rw [List.mem_singleton.mp hd, List.mem_singleton.mp he]

variable [DecidableEq ι] [DecidableEq α]

/-- Adding an element that a set has changes nothing. -/
theorem update_insert_of_mem (sets : ι → Finset α) {c : ι} {x : α} (hx : x ∈ sets c) :
    Function.update sets c (insert x (sets c)) = sets := by
  rw [Finset.insert_eq_of_mem hx, Function.update_eq_self]

/-- Adding a new element to a set. -/
theorem IsBounded.insert_iff (h : IsBounded bound listed sets) {c : ι} {x : α}
    (hx : x ∉ sets c) : IsBounded bound listed (Function.update sets c (insert x (sets c))) ↔
      (sets c).card < bound ∧ (c ∈ listed → ∀ d ∈ listed, x ∉ sets d) := by
  constructor
  · intro hnew
    refine ⟨?_, fun hc d hd hxd => ?_⟩
    · have hcard := hnew.card_le c
      rwa [Function.update_self, Finset.card_insert_of_notMem hx] at hcard
    · have hne : d ≠ c := by
        rintro rfl
        exact hx hxd
      have heq := hnew.disjoint c hc d hd x (by simp) (by rwa [Function.update_of_ne hne])
      exact hne heq.symm
  · rintro ⟨hcard, hfresh⟩
    refine ⟨fun d => ?_, fun d hd e he y hy hye => ?_⟩
    · by_cases hdc : d = c
      · rw [hdc, Function.update_self, Finset.card_insert_of_notMem hx]
        exact hcard
      · rw [Function.update_of_ne hdc]
        exact h.card_le d
    · by_contra hne
      by_cases hdc : d = c
      · subst hdc
        rw [Function.update_of_ne (Ne.symm hne)] at hye
        rw [Function.update_self] at hy
        rcases Finset.mem_insert.mp hy with rfl | hold
        · exact hfresh hd e he hye
        · exact hne (h.disjoint d hd e he y hold hye)
      · rw [Function.update_of_ne hdc] at hy
        by_cases hec : e = c
        · subst hec
          rw [Function.update_self] at hye
          rcases Finset.mem_insert.mp hye with rfl | hold
          · exact hfresh he d hd hy
          · exact hne (h.disjoint d hd e he y hy hold)
        · rw [Function.update_of_ne hec] at hye
          exact hne (h.disjoint d hd e he y hy hye)

end BoundedFamily
