import Mathlib.Data.List.Pairwise
import Mathlib.Data.Nat.Notation

/-!
# Queues whose old entries expire

Entries join a queue at its back with the time of their arrival, and those that are too old
leave it at its front. Arrivals come in the order of their times, so the queue holds the young
part of the log of all of them. When nothing joins while an entry with its key is in the
queue, entries with one key are further apart than the age at which they expire.
-/

namespace ExpiringLog

variable {ε κ : Type*}

/-- An entry is too old at a time. -/
def Expired (time : ε → ℕ) (age now : ℕ) (entry : ε) : Prop := age < now - time entry

/-- Whether an entry is too old is computed. -/
instance (time : ε → ℕ) (age now : ℕ) (entry : ε) : Decidable (Expired time age now entry) :=
  inferInstanceAs (Decidable (_ < _))

/-- What is left of a queue when the old entries at its front have gone. -/
def evict (time : ε → ℕ) (age now : ℕ) (queue : List ε) : List ε :=
  queue.dropWhile fun entry => Expired time age now entry

/-- The young part of a log. -/
def recent (time : ε → ℕ) (age now : ℕ) (log : List ε) : List ε :=
  log.filter fun entry => ¬Expired time age now entry

/-- A log in the order of the times, in which entries with one key are far apart. -/
structure Log (time : ε → ℕ) (key : ε → κ) (age : ℕ) where
  entries : List ε
  sorted : entries.Pairwise fun a b => time a ≤ time b
  spaced : entries.Pairwise fun a b => key a = key b → age < time b - time a

variable {time : ε → ℕ} {key : ε → κ} {age earlier now : ℕ} {log : List ε} {entry : ε}

/-- The entries of the young part. -/
theorem mem_recent : entry ∈ recent time age now log ↔ entry ∈ log ∧ now - time entry ≤ age := by
  simp [recent, Expired]

/-- In a sorted queue the old entries are at the front. -/
theorem evict_eq_recent (hsorted : log.Pairwise fun a b => time a ≤ time b) :
    evict time age now log = recent time age now log := by
  induction log with
  | nil => rfl
  | cons first rest ih =>
    obtain ⟨hfirst, hrest⟩ := List.pairwise_cons.mp hsorted
    by_cases hold : Expired time age now first
    · have hevict : evict time age now (first :: rest) = evict time age now rest := by
        simp [evict, hold]
      have hrecent : recent time age now (first :: rest) = recent time age now rest := by
        simp [recent, hold]
      rw [hevict, hrecent, ih hrest]
    · have hevict : evict time age now (first :: rest) = first :: rest := by simp [evict, hold]
      rw [hevict]
      refine (List.filter_eq_self.mpr fun other hother => decide_eq_true ?_).symm
      -- what arrived after a young entry is young
      rcases List.mem_cons.mp hother with rfl | hother
      · exact hold
      · have hle := hfirst other hother
        simp only [Expired] at hold ⊢
        omega

/-- The young part gets smaller with time. -/
theorem recent_recent (hle : earlier ≤ now) :
    recent time age now (recent time age earlier log) = recent time age now log := by
  rw [recent, recent, recent, List.filter_filter]
  refine List.filter_congr fun entry _ => ?_
  rw [Bool.eq_iff_iff, Bool.and_eq_true, decide_eq_true_eq, decide_eq_true_eq]
  simp only [Expired]
  omega

/-- An entry is in the young part of a log when it arrives. -/
theorem recent_concat (hnow : time entry = now) :
    recent time age now (log ++ [entry]) = recent time age now log ++ [entry] := by
  have hyoung : ¬Expired time age now entry := by
    simp only [Expired]
    omega
  simp [recent, List.filter_append, hyoung]

namespace Log

/-- The log without entries. -/
def empty : Log time key age := ⟨[], .nil, .nil⟩

/-- A log with one more entry, when its key is not in the young part. -/
def add (log : Log time key age) (entry : ε)
    (hpast : ∀ other ∈ log.entries, time other ≤ time entry)
    (hnew : ∀ other ∈ recent time age (time entry) log.entries, key other ≠ key entry) :
    Log time key age where
  entries := log.entries ++ [entry]
  sorted := by
    refine List.pairwise_append.mpr ⟨log.sorted, List.pairwise_singleton _ _, ?_⟩
    intro other hother new hentry
    rw [List.mem_singleton.mp hentry]
    exact hpast other hother
  spaced := by
    refine List.pairwise_append.mpr ⟨log.spaced, List.pairwise_singleton _ _, ?_⟩
    intro other hother new hentry hkey
    rw [List.mem_singleton.mp hentry] at hkey ⊢
    by_contra hyoung
    exact hnew other (mem_recent.mpr ⟨hother, by omega⟩) hkey

/-- The keys of the young part are distinct. -/
theorem nodup_recent (log : Log time key age) (hpast : ∀ entry ∈ log.entries, time entry ≤ now) :
    ((recent time age now log.entries).map key).Nodup := by
  refine List.pairwise_map.mpr (List.Pairwise.imp_of_mem ?_ (log.spaced.filter _))
  intro first second hfirst hsecond hspaced hkey
  have hfar := hspaced hkey
  obtain ⟨_, hyoung⟩ := mem_recent.mp hfirst
  have hle := hpast second (mem_recent.mp hsecond).1
  omega

/-- The young part is in the order of the times. -/
theorem sorted_recent (log : Log time key age) (now : ℕ) :
    (recent time age now log.entries).Pairwise fun a b => time a ≤ time b :=
  log.sorted.filter _

end Log

end ExpiringLog
