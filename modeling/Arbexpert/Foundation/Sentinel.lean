import Mathlib.Data.List.Nodup
import Mathlib.Data.Set.Insert
import Mathlib.Logic.Function.Basic

/-!
# Phases that are coded in a number

A cell holds a number. The number 0 stands for a cell that is not settled, the number 1 for a cell
that a worker is busy with, and any other number is that of a settled cell. Some cells are live
under a name. As long as the workers alone write the number 1, a live cell carries it exactly while
one worker is busy with the cell; a cell that is settled with a number of its own may break this.
-/

namespace Sentinel

variable {ν ρ : Type*}

/-- The numbers of the cells, the live cells, the cells that workers are busy with, and the cells
that were opened so far. -/
structure Cells (ν ρ : Type*) where
  live : ν → Option ρ
  number : ρ → ℕ
  busy : List ρ
  opened : Set ρ

/-- Different workers are busy with different cells, whose number is one; the cells that are
referred to were opened. -/
structure Cells.Sound (s : Cells ν ρ) : Prop where
  number : ∀ cell ∈ s.busy, s.number cell = 1
  nodup : s.busy.Nodup
  busyOpened : ∀ cell ∈ s.busy, cell ∈ s.opened
  liveOpened : ∀ name cell, s.live name = some cell → cell ∈ s.opened

/-- A cell is live under some name. -/
def Cells.Live (s : Cells ν ρ) (cell : ρ) : Prop := ∃ name, s.live name = some cell

/-- Each live cell with the number one has a worker. -/
def Cells.Attended (s : Cells ν ρ) : Prop :=
  ∀ name cell, s.live name = some cell → s.number cell = 1 → cell ∈ s.busy

/-- A cell has the number one, though no worker is busy with it. -/
def Cells.Abandoned (s : Cells ν ρ) (cell : ρ) : Prop := s.number cell = 1 ∧ cell ∉ s.busy

/-- A cell with another number than one has no worker. -/
theorem Cells.Sound.not_mem {s : Cells ν ρ} (h : s.Sound) {cell : ρ}
    (hcell : s.number cell ≠ 1) : cell ∉ s.busy := fun hmem => hcell (h.number cell hmem)

/-- A worker that starts on a cell with the number one. -/
theorem Cells.Sound.append {s : Cells ν ρ} (h : s.Sound) {cell : ρ} 
    (hnumber : s.number cell = 1) (hcell : cell ∉ s.busy) (hopened : cell ∈ s.opened) :
    ({ s with busy := s.busy ++ [cell] } : Cells ν ρ).Sound where
  number other hother := by
    rcases List.mem_append.mp hother with hold | hnew
    · exact h.number other hold
    · rwa [List.mem_singleton.mp hnew]
  nodup := by
    simpa using h.nodup.concat hcell
  busyOpened other hother := by
    rcases List.mem_append.mp hother with hold | hnew
    · exact h.busyOpened other hold
    · rwa [List.mem_singleton.mp hnew]
  liveOpened := h.liveOpened

variable [DecidableEq ρ]

/-- Write the number of a cell. -/
def Cells.write (s : Cells ν ρ) (cell : ρ) (n : ℕ) : Cells ν ρ :=
  { s with number := Function.update s.number cell n }

/-- A live cell has the number one exactly while one worker is busy with it. -/
def Cells.Agree (s : Cells ν ρ) : Prop :=
  ∀ name cell, s.live name = some cell → (s.number cell = 1 ↔ s.busy.count cell = 1)

variable [DecidableEq ν]

/-- One move; its label is the cell that it settles, with the number. A worker starts on a cell
with number zero, and writes its cell when it stops or settles it. -/
inductive Move (s : Cells ν ρ) : Option (ρ × ℕ) → Cells ν ρ → Prop
  | rest : Move s none s
  | forget (live : ν → Option ρ)
      (h : ∀ name cell, live name = some cell → s.live name = some cell) :
      Move s none { s with live }
  | grow (opened : Set ρ) (h : s.opened ⊆ opened) : Move s none { s with opened }
  | create (name : ν) (cell : ρ) (opened : Set ρ) (hnew : cell ∉ s.opened)
      (h : insert cell s.opened ⊆ opened) :
      Move s none { s.write cell 0 with live := Function.update s.live name (some cell), opened }
  | start (cell : ρ) (hzero : s.number cell = 0) (hopened : cell ∈ s.opened) :
      Move s none { s.write cell 1 with busy := s.busy ++ [cell] }
  | reset (cell : ρ) (h : s.number cell ≠ 1) : Move s none (s.write cell 0)
  | settle (cell : ρ) (n : ℕ) (h : s.number cell ≠ 1) : Move s (some (cell, n)) (s.write cell n)
  | stop (i : ℕ) (cell : ρ) (h : s.busy[i]? = some cell) :
      Move s none { s.write cell 0 with busy := s.busy.eraseIdx i }
  | finish (i : ℕ) (cell : ρ) (n : ℕ) (h : s.busy[i]? = some cell) :
      Move s (some (cell, n)) { s.write cell n with busy := s.busy.eraseIdx i }
  | fail : Move s none { s with live := fun _ => none, busy := [] }

variable {s t : Cells ν ρ} {label : Option (ρ × ℕ)}

/-- A settled cell has the number with which it was settled. -/
theorem Move.settled {cell : ρ} {n : ℕ} (h : Move s (some (cell, n)) t) : t.number cell = n := by
  cases h with
  | settle => exact Function.update_self cell n s.number
  | finish => exact Function.update_self cell n s.number

namespace Cells

omit [DecidableEq ν]

/-- A worker that ends leaves the other workers with the other cells. -/
theorem Sound.mem_eraseIdx (h : s.Sound) {i : ℕ} {cell other : ρ} (hi : s.busy[i]? = some cell) :
    other ∈ s.busy.eraseIdx i ↔ other ≠ cell ∧ other ∈ s.busy := by
  obtain ⟨hlt, rfl⟩ := List.getElem?_eq_some_iff.mp hi
  rw [← h.nodup.erase_getElem i hlt]
  exact h.nodup.mem_erase_iff

/-- Writing a cell that no worker is busy with. -/
theorem Sound.write (h : s.Sound) {cell : ρ} (hcell : cell ∉ s.busy) (n : ℕ) :
    (s.write cell n).Sound where
  number other hother :=
    (Function.update_of_ne (ne_of_mem_of_not_mem hother hcell) _ _).trans (h.number other hother)
  nodup := h.nodup
  busyOpened := h.busyOpened
  liveOpened := h.liveOpened

/-- Writing another cell leaves an abandoned one as it is. -/
theorem Abandoned.write {cell other : ρ} {n : ℕ} {busy : List ρ}
    (h : s.Abandoned cell) (hne : cell ≠ other) (hbusy : cell ∈ busy → cell ∈ s.busy) :
    ({ s.write other n with busy } : Cells ν ρ).Abandoned cell :=
  ⟨(Function.update_of_ne hne _ _).trans h.1, mt hbusy h.2⟩

/-- A worker that ends may write its cell. -/
theorem Sound.eraseIdx (h : s.Sound) {i : ℕ} {cell : ρ} (hi : s.busy[i]? = some cell) (n : ℕ) :
    ({ s.write cell n with busy := s.busy.eraseIdx i } : Cells ν ρ).Sound where
  number other hother := by
    obtain ⟨hne, hmem⟩ := (h.mem_eraseIdx hi).mp hother
    exact (Function.update_of_ne hne _ _).trans (h.number other hmem)
  nodup := h.nodup.eraseIdx i
  busyOpened other hother := h.busyOpened other ((h.mem_eraseIdx hi).mp hother).2
  liveOpened := h.liveOpened

/-- Numbers and workers agree exactly if the live cells with the number one are attended. -/
theorem Sound.agree_iff (h : s.Sound) : s.Agree ↔ s.Attended := by
  refine forall_congr' fun name => forall_congr' fun cell => imp_congr_right fun _ => ?_
  rw [h.nodup.count]
  constructor
  · intro hiff hnumber
    by_contra hmem
    rw [if_neg hmem] at hiff
    exact absurd (hiff.mp hnumber) Nat.zero_ne_one
  · intro hattended
    refine ⟨fun hnumber => if_pos (hattended hnumber), fun hcount => ?_⟩
    by_contra hnumber
    rw [if_neg (h.not_mem hnumber)] at hcount
    exact absurd hcount Nat.zero_ne_one

/-- Writing a cell while only its own worker may come or go. -/
theorem Attended.write (h : s.Attended) {cell : ρ} {n : ℕ} {busy : List ρ}
    (hcell : s.Live cell → n = 1 → cell ∈ busy)
    (hbusy : ∀ other ∈ s.busy, other ≠ cell → other ∈ busy) :
    ({ s.write cell n with busy } : Cells ν ρ).Attended := by
  intro name other hlive hnumber
  by_cases heq : other = cell
  · subst heq
    exact hcell ⟨name, hlive⟩ ((Function.update_self _ _ _).symm.trans hnumber)
  · exact hbusy other (h name other hlive ((Function.update_of_ne heq _ _).symm.trans hnumber)) heq

end Cells

/-- Every move keeps the workers apart. -/
theorem Move.sound (hmove : Move s label t) (h : s.Sound) : t.Sound := by
  cases hmove with
  | rest => exact h
  | forget live hlive =>
    exact ⟨h.number, h.nodup, h.busyOpened, fun name cell hcell =>
      h.liveOpened name cell (hlive name cell hcell)⟩
  | grow opened hopened =>
    exact ⟨h.number, h.nodup, fun cell hcell => hopened (h.busyOpened cell hcell),
      fun name cell hcell => hopened (h.liveOpened name cell hcell)⟩
  | create name cell opened hnew hopened =>
    refine ⟨fun other hother => ?_, h.nodup,
      fun other hother => hopened (Or.inr (h.busyOpened other hother)), fun other ref href => ?_⟩
    · have hne : other ≠ cell := ne_of_mem_of_not_mem (h.busyOpened other hother) hnew
      exact (Function.update_of_ne hne _ _).trans (h.number other hother)
    · by_cases heq : other = name
      · subst heq
        cases (Function.update_self other _ s.live).symm.trans href
        exact hopened (Set.mem_insert _ _)
      · have hold : s.live other = some ref := (Function.update_of_ne heq _ _).symm.trans href
        exact hopened (Or.inr (h.liveOpened other ref hold))
  | start cell hzero hopened =>
    have hcell : cell ∉ s.busy := h.not_mem (by omega)
    exact (h.write hcell 1).append (Function.update_self _ _ _) hcell hopened
  | reset cell hcell => exact h.write (h.not_mem hcell) 0
  | settle cell n hcell => exact h.write (h.not_mem hcell) n
  | stop i cell hi => exact h.eraseIdx hi 0
  | finish i cell n hi => exact h.eraseIdx hi n
  | fail => exact ⟨nofun, List.nodup_nil, nofun, nofun⟩

/-- No cell is closed again. -/
theorem Move.opened_subset (hmove : Move s label t) : s.opened ⊆ t.opened := by
  cases hmove with
  | create name cell opened hnew hopened => exact (Set.subset_insert _ _).trans hopened
  | grow opened hopened => exact hopened
  | _ => exact subset_rfl

/-- No move brings an abandoned cell back. -/
theorem Move.abandoned (hmove : Move s label t) {cell : ρ} (hopened : cell ∈ s.opened)
    (h : s.Abandoned cell) : t.Abandoned cell := by
  have hne {other : ρ} (hnumber : s.number other ≠ 1) : cell ≠ other := by
    rintro rfl
    exact hnumber h.1
  have hbusy {i : ℕ} {other : ρ} (hi : s.busy[i]? = some other) : cell ≠ other :=
    (ne_of_mem_of_not_mem (List.mem_of_getElem? hi) h.2).symm
  cases hmove with
  | rest => exact h
  | forget live hlive => exact h
  | grow opened hopened => exact h
  | create name other opened hnew hopened' =>
    exact h.write (ne_of_mem_of_not_mem hopened hnew) id
  | start other hzero hopened' =>
    have hother : cell ≠ other := hne (hzero.trans_ne Nat.zero_ne_one)
    exact h.write hother fun hmem => by simpa [hother] using hmem
  | reset other hnumber => exact h.write (hne hnumber) id
  | settle other n hnumber => exact h.write (hne hnumber) id
  | stop i other hi => exact h.write (hbusy hi) List.mem_of_mem_eraseIdx
  | finish i other n hi => exact h.write (hbusy hi) List.mem_of_mem_eraseIdx
  | fail => exact ⟨h.1, List.not_mem_nil⟩

/-- A move keeps the live cells attended if it settles none with the number one. -/
theorem Move.attended (hmove : Move s label t) (h : s.Sound) (hattended : s.Attended)
    (hlabel : ∀ cell n, label = some (cell, n) → s.Live cell → n ≠ 1) : t.Attended := by
  cases hmove with
  | rest => exact hattended
  | forget live hlive => exact fun name cell hcell => hattended name cell (hlive name cell hcell)
  | grow opened hopened => exact hattended
  | create name cell opened hnew hopened =>
    intro other ref href hnumber
    by_cases heq : other = name
    · subst heq
      cases (Function.update_self other _ s.live).symm.trans href
      exact absurd ((Function.update_self _ _ _).symm.trans hnumber) Nat.zero_ne_one
    · have hold : s.live other = some ref := (Function.update_of_ne heq _ _).symm.trans href
      have hne : ref ≠ cell := ne_of_mem_of_not_mem (h.liveOpened other ref hold) hnew
      exact hattended other ref hold ((Function.update_of_ne hne _ _).symm.trans hnumber)
  | start cell hzero hopened =>
    exact hattended.write (fun _ _ => by simp) fun _ hother _ => List.mem_append_left _ hother
  | reset cell hcell => exact hattended.write (fun _ => nofun) fun _ hother _ => hother
  | settle cell n hcell =>
    exact hattended.write (fun hlive hone => absurd hone (hlabel cell n rfl hlive))
      fun _ hother _ => hother
  | stop i cell hi =>
    exact hattended.write (fun _ => nofun)
      fun _ hother hne => (h.mem_eraseIdx hi).mpr ⟨hne, hother⟩
  | finish i cell n hi =>
    exact hattended.write (fun hlive hone => absurd hone (hlabel cell n rfl hlive))
      fun _ hother hne => (h.mem_eraseIdx hi).mpr ⟨hne, hother⟩
  | fail => exact nofun

/-- A move keeps numbers and workers in agreement if it settles no live cell with the number
one. -/
theorem Move.agree (hmove : Move s label t) (h : s.Sound) (hagree : s.Agree)
    (hlabel : ∀ cell n, label = some (cell, n) → s.Live cell → n ≠ 1) : t.Agree :=
  (hmove.sound h).agree_iff.mpr (hmove.attended h (h.agree_iff.mp hagree) hlabel)

end Sentinel
