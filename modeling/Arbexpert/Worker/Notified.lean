import Arbexpert.Worker.Legs
import Mathlib.Algebra.Order.Group.Abs
import Mathlib.Algebra.Order.Ring.Rat
import Mathlib.Tactic.NormNum

/-!
# What the last notification says

A step sends a notification when a percentage has changed by more than 0.05 since the step
before it. So small changes that lead the same way are never announced: after the last
notification each step can move the stored percentages by up to 0.05. No notification has the
percentages whose change has caused it.
-/

namespace Arbexpert.Worker

open Arbexpert.Base

variable {D : Type*} [DecimalArith D] [LinearOrder D]

/-- Both percentages of two snapshots differ by at most 0.05. -/
def Near (new old : ArbitrageSnaphot D) : Prop :=
  DecimalArith.abs (new.entryPercent - old.entryPercent) ≤ DecimalArith.literal 5 2 ∧
    DecimalArith.abs (new.exitPercent - old.exitPercent) ≤ DecimalArith.literal 5 2

/-- A snapshot has four positive prices and both percentages below 50. -/
def Valid (snapshot : ArbitrageSnaphot D) : Prop :=
  (0 < snapshot.spotAsk ∧ 0 < snapshot.spotBid ∧ 0 < snapshot.futureAsk ∧
      0 < snapshot.futureBid) ∧
    DecimalArith.abs snapshot.entryPercent < DecimalArith.literal 50 0 ∧
      DecimalArith.abs snapshot.exitPercent < DecimalArith.literal 50 0

/-- A decimal that a step can store as a percentage: a truncation to two decimals, below 50. -/
def IsPercent (x : D) : Prop :=
  (∃ y, x = DecimalArith.truncWithScale 2 y) ∧ DecimalArith.abs x < DecimalArith.literal 50 0

/-- A reading of decimals as rationals that keeps their order and is exact on the threshold and
on the difference of two percentages. -/
structure DecimalReading (D : Type*) [DecimalArith D] [LinearOrder D] where
  value : D → ℚ
  value_le : ∀ x y : D, x ≤ y → value x ≤ value y
  value_threshold : value (DecimalArith.literal 5 2) = 1 / 20
  value_sub : ∀ x y : D, IsPercent x → IsPercent y →
    value (DecimalArith.abs (x - y)) = |value x - value y|

/-- How far the entry percentages of two snapshots are apart. -/
def DecimalReading.entryGap (reading : DecimalReading D) (new old : ArbitrageSnaphot D) : ℚ :=
  |reading.value new.entryPercent - reading.value old.entryPercent|

/-- How far the exit percentages of two snapshots are apart. -/
def DecimalReading.exitGap (reading : DecimalReading D) (new old : ArbitrageSnaphot D) : ℚ :=
  |reading.value new.exitPercent - reading.value old.exitPercent|

/-- Whether percentages differ by at most 0.05 is computed. -/
instance (new old : ArbitrageSnaphot D) : Decidable (Near new old) :=
  inferInstanceAs (Decidable (_ ∧ _))

/-- Whether a snapshot is valid is computed. -/
instance (snapshot : ArbitrageSnaphot D) : Decidable (Valid snapshot) :=
  inferInstanceAs (Decidable ((_ ∧ _ ∧ _ ∧ _) ∧ _ ∧ _))

namespace Monitor

/-- The stored percentages differ by at most 0.05 from those of the last notification. -/
def NotifiedNear (s : Monitor D) : Prop :=
  ∀ last ∈ s.notifications.getLast?, Near s.arbitrage.snapshot last.snapshot

/-- What the step stores is valid. -/
def StoresValid (s : Monitor D) (action : MonitorAction D) : Prop :=
  ∀ t ∈ s.step action, Valid t.arbitrage.snapshot

/-- A run from `s` to `u` has a last step that sends a notification. The steps since then have
moved the stored percentages by at most 0.05 each, from those that this step has stored, and so
from those of the notification. -/
def DriftsFromLast (reading : DecimalReading D) (s : Monitor D) (actions : List (MonitorAction D))
    (u : Monitor D) : Prop :=
  ∃ earlier action later v t sent, actions = earlier ++ action :: later ∧
    GuardedRun.exec Monitor.step s earlier = some v ∧ v.step action = some t ∧
    t.notifications ≠ v.notifications ∧ GuardedRun.exec Monitor.step t later = some u ∧
    u.notifications = t.notifications ∧ u.notifications.getLast? = some sent ∧
    reading.entryGap u.arbitrage.snapshot t.arbitrage.snapshot ≤ later.length / 20 ∧
    reading.exitGap u.arbitrage.snapshot t.arbitrage.snapshot ≤ later.length / 20 ∧
    reading.entryGap u.arbitrage.snapshot sent.snapshot ≤
      reading.entryGap t.arbitrage.snapshot sent.snapshot + later.length / 20 ∧
    reading.exitGap u.arbitrage.snapshot sent.snapshot ≤
      reading.exitGap t.arbitrage.snapshot sent.snapshot + later.length / 20

/-- A notification that the step sends has the snapshot that the step stores. -/
def CarriesChange (s : Monitor D) (action : MonitorAction D) : Prop :=
  ∀ t ∈ s.step action, ∀ sent, t.notifications = s.notifications ++ [sent] → sent = t.arbitrage

/-- The percentages of the prices that a step reads differ by at most 0.05 from the stored ones,
or a price is not positive, or a percentage is not below 50. -/
def ReadsQuiet (s : Monitor D) (action : MonitorAction D) : Prop :=
  ∀ book ∈ action.result, ∀ new ∈ newSnapshot s.arbitrage.snapshot action.symbol book,
    Near new s.arbitrage.snapshot ∨ ¬Valid new

/-- Whether the last notification is near is computed. -/
instance (s : Monitor D) : Decidable s.NotifiedNear :=
  inferInstanceAs (Decidable (∀ last ∈ s.notifications.getLast?,
    Near s.arbitrage.snapshot last.snapshot))

/-- Whether a step sends nothing is computed. -/
instance (s : Monitor D) (action : MonitorAction D) : Decidable (s.ReadsQuiet action) :=
  inferInstanceAs (Decidable (∀ book ∈ action.result,
    ∀ new ∈ newSnapshot s.arbitrage.snapshot action.symbol book,
      Near new s.arbitrage.snapshot ∨ ¬Valid new))

/-- Whether a step stores a valid snapshot is computed. -/
instance (s : Monitor D) (action : MonitorAction D) : Decidable (s.StoresValid action) :=
  inferInstanceAs (Decidable (∀ t ∈ s.step action, Valid t.arbitrage.snapshot))

/-- A step sends a notification exactly if a percentage has changed by more than 0.05 and the
result is valid. -/
theorem needNotification_iff_valid {old new : ArbitrageSnaphot D} :
    needNotification old new = true ↔ ¬Near new old ∧ Valid new := by
  simp only [needNotification, decide_eq_true_eq, Near, not_and_or, not_le]
  exact Iff.rfl

/-- A step with a valid result sends a notification exactly if a percentage has changed by more
than 0.05. -/
theorem needNotification_iff {old new : ArbitrageSnaphot D} (hvalid : Valid new) :
    needNotification old new = true ↔ ¬Near new old :=
  needNotification_iff_valid.trans (and_iff_left hvalid)

/-- The failure path stores an invalid snapshot. -/
theorem not_valid_default : ¬Valid (ArbitrageSnaphot.default : ArbitrageSnaphot D) :=
  fun hvalid => lt_irrefl _ hvalid.1.1

variable {s t u : Monitor D} {action : MonitorAction D}

/-- A step that stores a valid snapshot stores that of the book that it read, and sends the
arbitrage with the old one when a percentage has changed by more than 0.05. -/
theorem of_step_valid (hvalid : Valid t.arbitrage.snapshot) (hstep : s.step action = some t) :
    ∃ book, action.result = some book ∧
      newSnapshot s.arbitrage.snapshot action.symbol book = some t.arbitrage.snapshot ∧
      t.notifications = if needNotification s.arbitrage.snapshot t.arbitrage.snapshot then
        s.notifications ++ [s.arbitrage] else s.notifications := by
  unfold Monitor.step at hstep
  split at hstep
  · cases hstep
    exact absurd hvalid not_valid_default
  · rename_i book hresult
    obtain ⟨new, hnew, rfl⟩ := Option.map_eq_some_iff.mp hstep
    exact ⟨book, hresult, hnew, rfl⟩

/-- A step keeps the notifications that were sent. -/
theorem notifications_grow (hstep : s.step action = some t) :
    s.notifications <+: t.notifications := by
  unfold Monitor.step at hstep
  split at hstep
  · cases hstep
    exact List.prefix_refl _
  · obtain ⟨new, _, rfl⟩ := Option.map_eq_some_iff.mp hstep
    dsimp only
    split
    · exact List.prefix_append _ _
    · exact List.prefix_refl _

/-- Between two states with the same notifications none was sent. -/
theorem notifications_between {rest : List (MonitorAction D)} (hstep : s.step action = some t)
    (hrun : GuardedRun.exec Monitor.step t rest = some u)
    (hsame : u.notifications = s.notifications) : t.notifications = s.notifications := by
  have hlater : t.notifications <+: u.notifications :=
    GuardedRun.invariant_of_exec (I := fun v => t.notifications <+: v.notifications)
      (fun _ _ _ hprefix hnext => hprefix.trans (notifications_grow hnext)) hrun
      (List.prefix_refl _)
  exact ((notifications_grow hstep).eq_of_length_le (hsame ▸ hlater.length_le)).symm

/-- A step that stores a valid snapshot stores percentages. -/
theorem isPercent_of_step (hvalid : Valid t.arbitrage.snapshot) (hstep : s.step action = some t) :
    IsPercent t.arbitrage.snapshot.entryPercent ∧ IsPercent t.arbitrage.snapshot.exitPercent := by
  obtain ⟨book, _, hnew, _⟩ := of_step_valid hvalid hstep
  obtain ⟨ask, _, hbids⟩ := Option.bind_eq_some_iff.mp hnew
  obtain ⟨bid, _, hsnapshot⟩ := Option.map_eq_some_iff.mp hbids
  refine ⟨⟨?_, hvalid.2.1⟩, ⟨?_, hvalid.2.2⟩⟩
  · rw [← hsnapshot]
    exact ⟨_, rfl⟩
  · rw [← hsnapshot]
    exact ⟨_, rfl⟩

variable (reading : DecimalReading D)

/-- Percentages that differ by at most 0.05 are so far apart at most. -/
theorem value_sub_le {x y : D} (hx : IsPercent x) (hy : IsPercent y)
    (hnear : DecimalArith.abs (x - y) ≤ DecimalArith.literal 5 2) :
    |reading.value x - reading.value y| ≤ 1 / 20 := by
  have hvalue := reading.value_le _ _ hnear
  rwa [reading.value_sub x y hx hy, reading.value_threshold] at hvalue

/-- Without a notification each step moves the stored percentages by at most 0.05. -/
theorem drift_le {rest : List (MonitorAction D)}
    (hentry : IsPercent t.arbitrage.snapshot.entryPercent)
    (hexit : IsPercent t.arbitrage.snapshot.exitPercent)
    (hvalid : GuardedRun.StepsSatisfy Monitor.step StoresValid t rest)
    (hrun : GuardedRun.exec Monitor.step t rest = some u)
    (hquiet : u.notifications = t.notifications) :
    reading.entryGap u.arbitrage.snapshot t.arbitrage.snapshot ≤ rest.length / 20 ∧
      reading.exitGap u.arbitrage.snapshot t.arbitrage.snapshot ≤ rest.length / 20 := by
  induction rest generalizing t with
  | nil =>
    cases hrun
    simp [DecimalReading.entryGap, DecimalReading.exitGap]
  | cons action rest ih =>
    obtain ⟨w, hstep, hrest⟩ := Option.bind_eq_some_iff.mp hrun
    obtain ⟨hstores, hvalid⟩ := hvalid w hstep
    have hw : Valid w.arbitrage.snapshot := hstores w hstep
    have hsame : w.notifications = t.notifications := notifications_between hstep hrest hquiet
    have hnear : Near w.arbitrage.snapshot t.arbitrage.snapshot := by
      obtain ⟨_, _, _, hsent⟩ := of_step_valid hw hstep
      by_contra hfar
      rw [if_pos ((needNotification_iff hw).mpr hfar), hsame] at hsent
      exact absurd (congrArg List.length hsent) (by simp)
    obtain ⟨hwentry, hwexit⟩ := isPercent_of_step hw hstep
    obtain ⟨hle, hle'⟩ := ih hwentry hwexit hvalid hrest (hquiet.trans hsame.symm)
    have hone := value_sub_le reading hwentry hentry hnear.1
    have hone' := value_sub_le reading hwexit hexit hnear.2
    unfold DecimalReading.entryGap at hle ⊢
    unfold DecimalReading.exitGap at hle' ⊢
    rw [List.length_cons, Nat.cast_add, Nat.cast_one, add_div]
    exact ⟨(abs_sub_le _ _ _).trans (add_le_add hle hone),
      (abs_sub_le _ _ _).trans (add_le_add hle' hone')⟩

/-- In a run that stores valid snapshots, once a notification was sent, the stored percentages
differ from those that the step of the last notification has stored by at most 0.05 for each step
since, and from those of the notification by at most so much more than they did then. -/
theorem notified_drift {actions : List (MonitorAction D)}
    (hvalid : GuardedRun.StepsSatisfy Monitor.step StoresValid s actions)
    (hrun : GuardedRun.exec Monitor.step s actions = some u)
    (hsent : u.notifications ≠ s.notifications) : DriftsFromLast reading s actions u := by
  induction actions generalizing s with
  | nil =>
    cases hrun
    exact absurd rfl hsent
  | cons action rest ih =>
    obtain ⟨t, hstep, hrest⟩ := Option.bind_eq_some_iff.mp hrun
    obtain ⟨hstores, hvalid⟩ := hvalid t hstep
    by_cases hquiet : u.notifications = t.notifications
    · -- The first step sends the last notification.
      have ht : Valid t.arbitrage.snapshot := hstores t hstep
      have hne : t.notifications ≠ s.notifications := hquiet ▸ hsent
      obtain ⟨hentry, hexit⟩ := isPercent_of_step ht hstep
      obtain ⟨hle, hle'⟩ := drift_le reading hentry hexit hvalid hrest hquiet
      have hlast : u.notifications.getLast? = some s.arbitrage := by
        obtain ⟨_, _, _, hnotified⟩ := of_step_valid ht hstep
        split at hnotified
        · rw [hquiet, hnotified, List.getLast?_concat]
        · exact absurd hnotified hne
      refine ⟨[], action, rest, s, t, s.arbitrage, rfl, rfl, hstep, hne, hrest, hquiet, hlast,
        hle, hle', ?_, ?_⟩
      · exact (abs_sub_le _ _ _).trans ((add_le_add_left hle _).trans_eq (add_comm _ _))
      · exact (abs_sub_le _ _ _).trans ((add_le_add_left hle' _).trans_eq (add_comm _ _))
    · obtain ⟨earlier, last, later, v, w, sent, rfl, hearlier, hlast⟩ := ih hvalid hrest hquiet
      refine ⟨action :: earlier, last, later, v, w, sent, rfl, ?_, hlast⟩
      rw [GuardedRun.exec, hstep]
      exact hearlier

/-- A step has its change in the notification exactly when it sends none: what it sends was
serialised before the new snapshot was stored. The hypothesis says that a decimal less itself
is within 0.05 of zero. -/
theorem carriesChange_iff (s : Monitor D) (action : MonitorAction D)
    (hself : ∀ x : D, DecimalArith.abs (x - x) ≤ DecimalArith.literal 5 2) :
    s.CarriesChange action ↔ s.ReadsQuiet action := by
  cases hresult : action.result with
  | none => simp [CarriesChange, ReadsQuiet, Monitor.step, hresult]
  | some book =>
    cases hnew : newSnapshot s.arbitrage.snapshot action.symbol book with
    | none => simp [CarriesChange, ReadsQuiet, Monitor.step, hresult, hnew]
    | some new =>
      have hneed : needNotification s.arbitrage.snapshot new = true ↔
          ¬Near new s.arbitrage.snapshot ∧ Valid new := needNotification_iff_valid
      simp only [CarriesChange, ReadsQuiet, Monitor.step, hresult, hnew, Option.map_some,
        Option.mem_def, Option.some.injEq, forall_eq']
      split
      · rename_i hsend
        obtain ⟨hfar, hvalid⟩ := hneed.mp hsend
        refine iff_of_false (fun hcarries => hfar ?_) fun hquiet => hquiet.elim hfar (· hvalid)
        have hold : s.arbitrage = { s.arbitrage with snapshot := new } := hcarries _ rfl
        have hsnapshot : s.arbitrage.snapshot = new := congrArg Arbitrage.snapshot hold
        rw [hsnapshot]
        exact ⟨hself _, hself _⟩
      · rename_i hquiet
        refine iff_of_true (fun sent hsent => ?_) ?_
        · simp at hsent
        · rw [hneed, not_and_or, not_not] at hquiet
          exact hquiet

/-- A book with one level on both sides, at one price. -/
def flatBook (price : ℚ) : OrderBook ℚ :=
  ⟨(∅ : BTreeMap ℚᵒᵈ ℚ).insert (OrderDual.toDual price) 1, (∅ : BTreeMap ℚ ℚ).insert price 1, 7⟩

/-- The monitor of a pair, after a step of both legs at a price of 100 and one of the futures
leg at another price. -/
def flatRun (price : ℚ) : Option (Monitor ℚ) :=
  GuardedRun.exec Monitor.step
    (.start ⟨"BTC/USDT", "BTC", "USDT", .spot, "Gate"⟩
      ⟨"BTC/USDT:USDT", "BTC", "USDT", .future, "Gate"⟩)
    [⟨"BTC/USDT", some (flatBook 100)⟩, ⟨"BTC/USDT:USDT", some (flatBook 100)⟩,
      ⟨"BTC/USDT:USDT", some (flatBook price)⟩]

/-- A rational less itself is zero. -/
theorem abs_sub_self_le (x : ℚ) :
    DecimalArith.abs (x - x) ≤ (DecimalArith.literal 5 2 : ℚ) := by
  have hzero : DecimalArith.abs (0 : ℚ) ≤ DecimalArith.literal 5 2 := by decide +kernel
  rwa [← sub_self x] at hzero

/-- A step that reads the stored prices once more sends nothing. -/
theorem same_price_quiet : ∃ s : Monitor ℚ, flatRun 100 = some s ∧
    s.CarriesChange ⟨"BTC/USDT:USDT", some (flatBook 100)⟩ := by
  obtain ⟨s, hs⟩ : ∃ s, flatRun 100 = some s := Option.isSome_iff_exists.mp (by decide +kernel)
  have hquiet : ∀ s ∈ flatRun 100, s.ReadsQuiet ⟨"BTC/USDT:USDT", some (flatBook 100)⟩ := by
    decide +kernel
  exact ⟨s, hs, (carriesChange_iff s _ abs_sub_self_le).mpr (hquiet s hs)⟩

/-- When the futures price moves up by 0.06 percent, the notification says that the entry
percentage is zero, and the step stores 0.06. -/
theorem rising_price_stale : ∃ s : Monitor ℚ, flatRun 100 = some s ∧
    ¬s.CarriesChange ⟨"BTC/USDT:USDT", some (flatBook (10006 / 100))⟩ := by
  obtain ⟨s, hs⟩ : ∃ s, flatRun 100 = some s := Option.isSome_iff_exists.mp (by decide +kernel)
  have hchecks : ∀ s ∈ flatRun 100,
      ∃ t ∈ s.step ⟨"BTC/USDT:USDT", some (flatBook (10006 / 100))⟩,
        t.notifications = s.notifications ++ [s.arbitrage] ∧
          s.arbitrage.snapshot.entryPercent ≠ t.arbitrage.snapshot.entryPercent := by
    decide +kernel
  obtain ⟨t, ht, hsent, hpercent⟩ := hchecks s hs
  refine ⟨s, hs, fun hcarries => hpercent ?_⟩
  rw [hcarries t ht s.arbitrage hsent]

/-- Rationals are read as they are. -/
def rationalReading : DecimalReading ℚ where
  value x := x
  value_le _ _ h := h
  value_threshold := by norm_num [DecimalArith.literal]
  value_sub _ _ _ _ := rfl

/-- A step of the futures leg at a price. -/
def futureStep (price : ℚ) : MonitorAction ℚ := ⟨"BTC/USDT:USDT", some (flatBook price)⟩

/-- The futures price moves from 100.06 down in three steps of 0.04 percent. -/
def smallFalls : List (MonitorAction ℚ) :=
  [futureStep (10002 / 100), futureStep (9998 / 100), futureStep (9994 / 100)]

/-- The futures price moves up by 0.06 percent, which sends a notification, and down again in
small steps. -/
theorem falling_price_drifts : ∃ s u : Monitor ℚ, flatRun 100 = some s ∧
    GuardedRun.exec Monitor.step s (futureStep (10006 / 100) :: smallFalls) = some u ∧
      u.notifications ≠ s.notifications ∧
        DriftsFromLast rationalReading s (futureStep (10006 / 100) :: smallFalls) u := by
  obtain ⟨s, hs⟩ : ∃ s, flatRun 100 = some s := Option.isSome_iff_exists.mp (by decide +kernel)
  have hchecks : ∀ s ∈ flatRun 100,
      GuardedRun.StepsSatisfy Monitor.step StoresValid s
        (futureStep (10006 / 100) :: smallFalls) ∧
      ∃ u ∈ GuardedRun.exec Monitor.step s (futureStep (10006 / 100) :: smallFalls),
        u.notifications.length ≠ s.notifications.length := by
    decide +kernel
  obtain ⟨hvalid, u, hu, hlength⟩ := hchecks s hs
  have hsent : u.notifications ≠ s.notifications := fun heq => hlength (congrArg List.length heq)
  exact ⟨s, u, hs, hu, hsent, notified_drift rationalReading hvalid hu hsent⟩

/-- In three steps of 0.04 percent, none of which sends a notification, the entry percentage
falls from 0.06 to -0.06: that is more than 0.05 away from what the last notification says, and
also from what was stored by the step that sent it. -/
theorem unannounced_drift : ∃ s t u : Monitor ℚ, flatRun 100 = some s ∧
    s.notifications.length = 1 ∧ s.step (futureStep (10006 / 100)) = some t ∧
    t.notifications.length = 2 ∧ GuardedRun.exec Monitor.step t smallFalls = some u ∧
    GuardedRun.StatesSatisfy Monitor.step (fun v => Valid v.arbitrage.snapshot) s
      (futureStep (10006 / 100) :: smallFalls) ∧
    u.notifications.length = 2 ∧ ¬u.NotifiedNear ∧
    ¬Near u.arbitrage.snapshot t.arbitrage.snapshot := by
  obtain ⟨s, hs⟩ : ∃ s, flatRun 100 = some s := Option.isSome_iff_exists.mp (by decide +kernel)
  have hchecks : ∀ s ∈ flatRun 100, s.notifications.length = 1 ∧
      GuardedRun.StatesSatisfy Monitor.step (fun v => Valid v.arbitrage.snapshot) s
        (futureStep (10006 / 100) :: smallFalls) ∧
      ∃ t ∈ s.step (futureStep (10006 / 100)), t.notifications.length = 2 ∧
        ∃ u ∈ GuardedRun.exec Monitor.step t smallFalls,
          u.notifications.length = 2 ∧ ¬u.NotifiedNear ∧
            ¬Near u.arbitrage.snapshot t.arbitrage.snapshot := by
    decide +kernel
  obtain ⟨hone, hvalid, t, ht, htwo, u, hu, hrest⟩ := hchecks s hs
  exact ⟨s, t, u, hs, hone, ht, htwo, hu, hvalid, hrest⟩

end Monitor

end Arbexpert.Worker
