import Mathlib.Data.List.Induction

/-!
# A log with numbered entries

The entries of a log are numbered from one in the order of their arrival. A reader that
knows the number of the last entry it has read asks for the entries with larger numbers.
-/

namespace NumberedLog

variable {α : Type*}

/-- The entries with their numbers. -/
def numbered (items : List α) : List (ℕ × α) :=
  items.mapIdx fun k item => (k + 1, item)

/-- The entries of a log whose numbers are larger than the last number read. -/
def since (log : List (ℕ × α)) (last : ℕ) : List α :=
  (log.filter fun entry => last < entry.1).map Prod.snd

/-- A new entry has the next number. -/
theorem numbered_concat (items : List α) (item : α) :
    numbered (items ++ [item]) = numbered items ++ [(items.length + 1, item)] := by
  simp [numbered, List.mapIdx_append]

/-- The entries after a number are what is left when the first ones, up to that number, are
dropped. -/
theorem since_numbered (items : List α) (last : ℕ) :
    since (numbered items) last = items.drop last := by
  induction items using List.reverseRecOn with
  | nil => simp [numbered, since]
  | append_singleton items item ih =>
    have hsplit : since (numbered (items ++ [item])) last =
        since (numbered items) last ++ if last < items.length + 1 then [item] else [] := by
      rw [numbered_concat, since, List.filter_append, List.map_append, ← since]
      congr 1
      by_cases hlast : last < items.length + 1
      · simp [hlast]
      · simp [hlast]
    rw [hsplit, ih]
    by_cases hlast : last < items.length + 1
    · rw [if_pos hlast, List.drop_append_of_le_length (by omega)]
    · rw [if_neg hlast, List.append_nil, List.drop_eq_nil_of_le (by omega),
        List.drop_eq_nil_of_le (by simp; omega)]

end NumberedLog
