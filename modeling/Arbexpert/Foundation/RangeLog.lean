import Mathlib.Data.Nat.Notation
import Mathlib.Data.List.Basic

/-!
# Streams of numbered ranges

A stream reports the writes of a store in consecutive ranges: each report starts with the
number after the last one of the report before it. The report that continues a snapshot is the
one whose range holds the number after that of the snapshot.
-/

namespace RangeLog

variable {α : Type*} (first last : α → ℕ)

/-- The ranges after number `n` are not empty and follow each other without a gap. -/
def GapFree : ℕ → List α → Prop
  | _, [] => True
  | n, a :: rest => first a = n + 1 ∧ first a ≤ last a ∧ GapFree (last a) rest

/-- The last number reported, which is `n` when nothing is reported after it. -/
def lastAfter (n : ℕ) (reports : List α) : ℕ := reports.foldl (fun _ a => last a) n

/-- Each report starts no later than after the last number applied, and goes on beyond it. -/
def Continues : ℕ → List α → Prop
  | _, [] => True
  | n, a :: rest => first a ≤ n + 1 ∧ n < last a ∧ Continues (last a) rest

variable {first last} {n snapshot : ℕ} {reports later : List α}

@[simp] theorem lastAfter_nil : lastAfter last n [] = n := rfl

@[simp] theorem lastAfter_cons (a : α) :
    lastAfter last n (a :: reports) = lastAfter last (last a) reports := rfl

/-- The last number of two lists of reports. -/
theorem lastAfter_append :
    lastAfter last n (reports ++ later) = lastAfter last (lastAfter last n reports) later :=
  List.foldl_append

/-- Two lists of reports without a gap. -/
theorem gapFree_append : GapFree first last n (reports ++ later) ↔
    GapFree first last n reports ∧ GapFree first last (lastAfter last n reports) later := by
  induction reports generalizing n with
  | nil => simp [GapFree]
  | cons a rest ih => simp [GapFree, ih, and_assoc]

/-- Numbers only grow. -/
theorem GapFree.le_lastAfter (h : GapFree first last n reports) : n ≤ lastAfter last n reports := by
  induction reports generalizing n with
  | nil => exact Nat.le_refl n
  | cons a rest ih =>
    obtain ⟨hfirst, hrange, hrest⟩ := h
    have hle := ih hrest
    rw [lastAfter_cons]
    omega

/-- Reports after `n` start after it, and end before the last number. -/
theorem GapFree.bounds (h : GapFree first last n reports) :
    ∀ a ∈ reports, n < first a ∧ last a ≤ lastAfter last n reports := by
  induction reports generalizing n with
  | nil => exact nofun
  | cons b rest ih =>
    obtain ⟨hfirst, hrange, hrest⟩ := h
    intro a ha
    rw [lastAfter_cons]
    rcases List.mem_cons.mp ha with rfl | ha
    · exact ⟨by omega, hrest.le_lastAfter⟩
    · obtain ⟨hstart, hend⟩ := ih hrest a ha
      exact ⟨by omega, hend⟩

/-- Reports without a gap continue each other. -/
theorem GapFree.continues (h : GapFree first last n reports) : Continues first last n reports := by
  induction reports generalizing n with
  | nil => trivial
  | cons a rest ih =>
    obtain ⟨hfirst, hrange, hrest⟩ := h
    exact ⟨by omega, by omega, ih hrest⟩

/-- When the reports go on beyond a snapshot that is not older than `n`, one of them continues
the snapshot, those before it are covered by the snapshot, and those after it follow. -/
theorem GapFree.exists_split (h : GapFree first last n reports) (hn : n ≤ snapshot)
    (hlast : snapshot < lastAfter last n reports) :
    ∃ front a back, reports = front ++ a :: back ∧ (∀ b ∈ front, last b ≤ snapshot) ∧
      first a ≤ snapshot + 1 ∧ snapshot < last a ∧ GapFree first last (last a) back := by
  induction reports generalizing n with
  | nil => exact absurd hlast (Nat.not_lt.mpr hn)
  | cons b rest ih =>
    obtain ⟨hfirst, hrange, hrest⟩ := h
    by_cases hb : snapshot < last b
    · exact ⟨[], b, rest, rfl, nofun, by omega, hb, hrest⟩
    · obtain ⟨front, a, back, rfl, hfront, hsplit⟩ := ih hrest (by omega) hlast
      refine ⟨b :: front, a, back, rfl, fun c hc => ?_, hsplit⟩
      rcases List.mem_cons.mp hc with rfl | hc
      · omega
      · exact hfront c hc

end RangeLog
