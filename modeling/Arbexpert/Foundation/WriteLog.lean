import Mathlib.Data.List.Basic
import Mathlib.Data.Nat.Init
import Mathlib.Logic.Function.Basic

/-!
# A store replicated from a log of absolute writes

The writes of a store are numbered from one. A write replaces the value of its key,
or removes it. A delta lists some keys with their values after a given write; it
brings a replica up to date when no key written in between is missing from it.
-/

namespace WriteLog

variable {K V : Type*} [DecidableEq K]

/-- The store after a list of writes was applied to it, the last one winning. -/
def applyWrites (store : K → Option V) (writes : List (K × Option V)) : K → Option V :=
  writes.foldl (fun current write => Function.update current write.1 write.2) store

/-- The store after the first `n` writes of a log; number zero is not used. -/
def after (log : ℕ → K × Option V) : ℕ → K → Option V
  | 0 => fun _ => none
  | n + 1 => Function.update (after log n) (log (n + 1)).1 (log (n + 1)).2

/-- A delta to the state after write `last`: what it lists holds after that write,
and it lists every key written from write `first` on. -/
structure Delta (log : ℕ → K × Option V) (first last : ℕ) (writes : List (K × Option V)) :
    Prop where
  listed : ∀ write ∈ writes, write.2 = after log last write.1
  covers : ∀ n, first ≤ n → n ≤ last → ∃ write ∈ writes, write.1 = (log n).1

/-- A complete list of the state after write `last`. -/
structure Complete (log : ℕ → K × Option V) (last : ℕ) (writes : List (K × Option V)) :
    Prop where
  listed : ∀ write ∈ writes, write.2 = after log last write.1
  covers : ∀ key, after log last key ≠ none → ∃ write ∈ writes, write.1 = key

@[simp] theorem applyWrites_cons (store : K → Option V) (write : K × Option V)
    (writes : List (K × Option V)) : applyWrites store (write :: writes) =
      applyWrites (Function.update store write.1 write.2) writes := rfl

/-- Lists of writes are applied one after the other. -/
theorem applyWrites_append (store : K → Option V) (earlier later : List (K × Option V)) :
    applyWrites store (earlier ++ later) = applyWrites (applyWrites store earlier) later :=
  List.foldl_append

/-- A key that is not listed keeps its value. -/
theorem applyWrites_of_not_listed {store : K → Option V} {writes : List (K × Option V)} {key : K}
    (h : ∀ write ∈ writes, write.1 ≠ key) : applyWrites store writes key = store key := by
  induction writes generalizing store with
  | nil => rfl
  | cons write rest ih =>
    rw [applyWrites_cons, ih fun other hother => h other (List.mem_cons_of_mem _ hother)]
    exact Function.update_of_ne (h write List.mem_cons_self).symm _ _

/-- A key that is always listed with the same value takes that value. -/
theorem applyWrites_of_listed {store : K → Option V} {writes : List (K × Option V)} {key : K}
    {value : Option V} (h : ∀ write ∈ writes, write.1 = key → write.2 = value)
    (hlisted : ∃ write ∈ writes, write.1 = key) : applyWrites store writes key = value := by
  induction writes generalizing store with
  | nil => simp at hlisted
  | cons write rest ih =>
    rw [applyWrites_cons]
    by_cases hrest : ∃ other ∈ rest, other.1 = key
    · exact ih (fun other hother => h other (List.mem_cons_of_mem _ hother)) hrest
    · have hnot : ∀ other ∈ rest, other.1 ≠ key := fun other hother heq =>
        hrest ⟨other, hother, heq⟩
      rw [applyWrites_of_not_listed hnot]
      obtain ⟨other, hother, heq⟩ := hlisted
      rcases List.mem_cons.mp hother with rfl | hother
      · rw [← heq, Function.update_self]
        exact h other List.mem_cons_self heq
      · exact absurd heq (hnot other hother)

/-- A list that has a write of a key has a last one. -/
theorem exists_last_write {writes : List (K × Option V)} {key : K}
    (h : ∃ write ∈ writes, write.1 = key) :
    ∃ earlier write later, writes = earlier ++ write :: later ∧ write.1 = key ∧
      ∀ other ∈ later, other.1 ≠ key := by
  induction writes with
  | nil => simp at h
  | cons write rest ih =>
    by_cases hrest : ∃ other ∈ rest, other.1 = key
    · obtain ⟨earlier, last, later, rfl, hkey, hlater⟩ := ih hrest
      exact ⟨write :: earlier, last, later, rfl, hkey, hlater⟩
    · obtain ⟨other, hother, hkey⟩ := h
      rcases List.mem_cons.mp hother with rfl | hother
      · exact ⟨[], other, rest, rfl, hkey, fun later hlater heq => hrest ⟨later, hlater, heq⟩⟩
      · exact absurd ⟨other, hother, hkey⟩ hrest

/-- A key takes the value of its last write. -/
theorem applyWrites_last {store : K → Option V} {earlier later : List (K × Option V)}
    {write : K × Option V} (h : ∀ other ∈ later, other.1 ≠ write.1) :
    applyWrites store (earlier ++ write :: later) write.1 = write.2 := by
  rw [applyWrites_append, applyWrites_cons, applyWrites_of_not_listed h, Function.update_self]

/-- What holds of the values of a store and of a list of writes holds of the values that the
writes lead to. -/
theorem applyWrites_invariant {I : Option V → Prop} {store : K → Option V}
    {writes : List (K × Option V)} (hstore : ∀ key, I (store key))
    (hwrites : ∀ write ∈ writes, I write.2) (key : K) : I (applyWrites store writes key) := by
  induction writes generalizing store with
  | nil => exact hstore key
  | cons write rest ih =>
    rw [applyWrites_cons]
    apply ih _ fun other hother => hwrites other (List.mem_cons_of_mem _ hother)
    intro other
    by_cases hother : other = write.1
    · rw [hother, Function.update_self]
      exact hwrites write List.mem_cons_self
    · rw [Function.update_of_ne hother]
      exact hstore other

/-- A key takes the same value from two stores when it is listed, or the stores agree on it. -/
theorem applyWrites_congr {store other : K → Option V} {writes : List (K × Option V)} {key : K}
    (h : (∃ write ∈ writes, write.1 = key) ∨ store key = other key) :
    applyWrites store writes key = applyWrites other writes key := by
  by_cases hlisted : ∃ write ∈ writes, write.1 = key
  · obtain ⟨earlier, write, later, rfl, rfl, hlater⟩ := exists_last_write hlisted
    rw [applyWrites_last hlater, applyWrites_last hlater]
  · have hunlisted : ∀ write ∈ writes, write.1 ≠ key :=
      fun write hwrite heq => hlisted ⟨write, hwrite, heq⟩
    rw [applyWrites_of_not_listed hunlisted, applyWrites_of_not_listed hunlisted]
    exact h.resolve_left hlisted

/-- Applying the last writes of a list again changes nothing. -/
theorem applyWrites_replay (store : K → Option V) (earlier later : List (K × Option V)) :
    applyWrites (applyWrites store (earlier ++ later)) later =
      applyWrites store (earlier ++ later) := by
  funext key
  rw [applyWrites_append store earlier later]
  apply applyWrites_congr
  by_cases hlisted : ∃ write ∈ later, write.1 = key
  · exact Or.inl hlisted
  · right
    exact applyWrites_of_not_listed fun write hwrite heq => hlisted ⟨write, hwrite, heq⟩

/-- A key that is not written in between keeps its value. -/
theorem after_eq_of_unwritten {log : ℕ → K × Option V} {key : K} {m n : ℕ} (hle : m ≤ n)
    (h : ∀ i, m < i → i ≤ n → (log i).1 ≠ key) : after log n key = after log m key := by
  induction n, hle using Nat.le_induction with
  | base => rfl
  | succ n hle ih =>
    have hne : key ≠ (log (n + 1)).1 := (h (n + 1) (by omega) (by omega)).symm
    rw [after, Function.update_of_ne hne]
    exact ih fun i hi hin => h i hi (by omega)

/-- A log that repeats one write. -/
theorem after_const (write : K × Option V) {n : ℕ} (hn : 1 ≤ n) :
    after (fun _ => write) n = Function.update (fun _ => none) write.1 write.2 := by
  induction n, hn using Nat.le_induction with
  | base => rfl
  | succ n _ ih => rw [after, ih, Function.update_idem]

/-- A delta that starts at the next write, or before it, brings a replica up to
date. -/
theorem Delta.applyWrites_eq {log : ℕ → K × Option V} {first last n : ℕ}
    {writes : List (K × Option V)} (h : Delta log first last writes) (hfirst : first ≤ n + 1)
    (hlast : n ≤ last) : applyWrites (after log n) writes = after log last := by
  funext key
  by_cases hlisted : ∃ write ∈ writes, write.1 = key
  · exact applyWrites_of_listed (fun write hwrite heq => heq ▸ h.listed write hwrite) hlisted
  · rw [applyWrites_of_not_listed fun write hwrite heq => hlisted ⟨write, hwrite, heq⟩]
    refine (after_eq_of_unwritten hlast fun i hi hin heq => hlisted ?_).symm
    obtain ⟨write, hwrite, hkey⟩ := h.covers i (by omega) hin
    exact ⟨write, hwrite, hkey.trans heq⟩

/-- A complete list, applied to the empty store, gives the state it lists. -/
theorem Complete.applyWrites_eq {log : ℕ → K × Option V} {last : ℕ}
    {writes : List (K × Option V)} (h : Complete log last writes) :
    applyWrites (fun _ => none) writes = after log last := by
  funext key
  by_cases hlisted : ∃ write ∈ writes, write.1 = key
  · exact applyWrites_of_listed (fun write hwrite heq => heq ▸ h.listed write hwrite) hlisted
  · rw [applyWrites_of_not_listed fun write hwrite heq => hlisted ⟨write, hwrite, heq⟩]
    by_contra hvalue
    exact hlisted (h.covers key (Ne.symm hvalue))

end WriteLog
