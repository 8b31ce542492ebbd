import Arbexpert.Web.Clients
import Arbexpert.Worker.Notified
import Arbexpert.Worker.StartMonitor

/-!
# What a web client sees of an arbitrage

The workers broadcast the notifications of their arbitrages to one channel, from which the web
clients receive them. So, for each arbitrage, a client sees a part of the notifications of one run
of its monitor, in their order and without a gap, whatever else the workers and the clients do.
-/

namespace Arbexpert.Web

variable {C D : Type*}

/-- The workers, and the clients with the texts; a text is marked with its worker and with the
number of its arbitrage there. -/
structure Site (C D : Type*) where
  workers : List (Worker.WorkerLoop C D)
  hub : Hub (ℕ × ℕ × Worker.Arbitrage D)

/-- A step of a worker, or of the clients. -/
inductive SiteAction (C D : Type*)
  | work (w : ℕ) (action : Worker.WorkerAction C D)
  | web (action : HubAction (ℕ × ℕ × Worker.Arbitrage D))

/-- The texts of one worker. -/
def texts {V : Type*} (w : ℕ) (history : List (ℕ × V)) : List V :=
  (history.filter fun text => text.1 = w).map Prod.snd

/-- The texts about one arbitrage of a worker. -/
def about (w k : ℕ) (history : List (ℕ × ℕ × Worker.Arbitrage D)) : List (Worker.Arbitrage D) :=
  texts k (texts w history)

namespace Site

/-- A number of workers that have set up the exchanges, and no clients. -/
def start (exchanges : List String) (n : ℕ) (arbitrages : ℕ → ℕ → Worker.Arbitrage D) : Site C D :=
  ⟨(List.range n).map fun w => .start exchanges (arbitrages w), .start⟩

variable [Worker.DecimalArith D] [LinearOrder D]

/-- A step of a worker; its notifications are broadcast. -/
def work (s : Site C D) (w : ℕ) (action : Worker.WorkerAction C D) : Option (Site C D) :=
  s.workers[w]?.bind fun worker => (worker.step action).map fun next =>
    { workers := s.workers.set w next
      hub := { s.hub with
        history := s.hub.history ++
          (next.broadcast.drop worker.broadcast.length).map fun sent => (w, sent) } }

/-- One step; only workers broadcast. -/
def step (lossy : List UInt8 → String) (s : Site C D) : SiteAction C D → Option (Site C D)
  | .work w action => s.work w action
  | .web (.broadcast _) => none
  | .web action => (s.hub.step lossy action).map fun hub => { s with hub }

/-- The channel keeps its documentation. -/
def Documented (s : Site C D) : SiteAction C D → Prop
  | .work _ _ => True
  | .web action => s.hub.Documented action

/-- Whether the channel keeps its documentation is computed. -/
instance [DecidableEq D] (s : Site C D) : DecidablePred s.Documented
  | .work _ _ => isTrue trivial
  | .web action => inferInstanceAs (Decidable (s.hub.Documented action))

/-- What an action does to an arbitrage. -/
def own (w k : ℕ) (s : Site C D) : SiteAction C D → Option (Worker.MonitorAction D)
  | .work v action =>
    if v = w then
      s.workers[w]?.bind fun worker => Worker.WorkerLoop.ownAction k worker action
    else none
  | .web _ => none

end Site

section Texts

variable {V : Type*} {w : ℕ}

/-- The texts of a worker in two parts of a history. -/
theorem texts_append (w : ℕ) (history more : List (ℕ × V)) :
    texts w (history ++ more) = texts w history ++ texts w more := by
  rw [texts, List.filter_append, List.map_append]
  rfl

/-- The texts of a worker about texts that are all its own. -/
theorem texts_map_self (w : ℕ) (sent : List V) :
    texts w (sent.map fun text => (w, text)) = sent := by
  simp [texts, List.filter_map, Function.comp_def]

/-- The texts of a worker about texts of another one. -/
theorem texts_map_of_ne {v : ℕ} (hv : v ≠ w) (sent : List V) :
    texts w (sent.map fun text => (v, text)) = [] := by
  simp [texts, List.filter_map, Function.comp_def, hv]

/-- The texts of a worker in a first part of a history. -/
theorem texts_mono {seen history : List (ℕ × V)} (h : seen <+: history) :
    texts w seen <+: texts w history := by
  obtain ⟨rest, rfl⟩ := h
  rw [texts_append]
  exact List.prefix_append _ _

end Texts

namespace Site

/-- The texts are those that their workers have broadcast, and what is known of the clients. -/
structure Sound (s : Site C D) : Prop where
  texts : ∀ (w : ℕ) worker, s.workers[w]? = some worker →
    Web.texts w s.hub.history = worker.broadcast
  clients : ∀ client ∈ s.hub.clients, client.Sound s.hub.history

/-- A site without clients and notifications. -/
theorem sound_start (exchanges : List String) (n : ℕ) (arbitrages : ℕ → ℕ → Worker.Arbitrage D) :
    (start exchanges n arbitrages : Site C D).Sound where
  texts := by
    intro w worker hworker
    obtain ⟨v, _, rfl⟩ := List.mem_map.mp (List.mem_of_getElem? hworker)
    rfl
  clients := List.forall_mem_nil _

variable [Worker.DecimalArith D] [LinearOrder D] {s t : Site C D} {action : SiteAction C D}
  {lossy : List UInt8 → String} {w k : ℕ}

/-- A worker only adds to its notifications. -/
theorem broadcast_mono {worker next : Worker.WorkerLoop C D} {action : Worker.WorkerAction C D}
    (hstep : worker.step action = some next) : worker.broadcast <+: next.broadcast := by
  cases action with
  | send request =>
    cases hstep
    exact List.prefix_rfl
  | recv =>
    simp only [Worker.WorkerLoop.step] at hstep
    split at hstep
    · cases hstep
    · rename_i request channel hchannel
      cases request with
      | startArbitrage command =>
        cases hstep
        exact List.prefix_rfl
      | startMonitor items =>
        obtain ⟨tasks, _, rfl⟩ := Option.map_eq_some_iff.mp hstep
        exact List.prefix_rfl
  | finish call i result =>
    obtain ⟨_, _, _, _, _, _, rfl⟩ := Worker.WorkerLoop.finish_eq_some hstep
    exact List.prefix_append _ _

/-- A step of the clients leaves the workers and the texts alone. -/
theorem web_eq_some {action : HubAction (ℕ × ℕ × Worker.Arbitrage D)}
    (hstep : s.step lossy (.web action) = some t) :
    ∃ hub, s.hub.step lossy action = some hub ∧ t = { s with hub } ∧
      hub.history = s.hub.history := by
  unfold step at hstep
  split at hstep
  · rename_i heq
    cases heq
  · cases hstep
  · rename_i web hbroadcast heq
    cases heq
    obtain ⟨hub, hhub, rfl⟩ := Option.map_eq_some_iff.mp hstep
    exact ⟨hub, hhub, rfl, Hub.history_of_step hhub fun text h => hbroadcast text h⟩

/-- Every step keeps this. -/
theorem Sound.step (h : s.Sound) (hdocumented : s.Documented action)
    (hstep : s.step lossy action = some t) : t.Sound := by
  cases action with
  | work v action =>
    obtain ⟨worker, hworker, hmap⟩ := Option.bind_eq_some_iff.mp hstep
    obtain ⟨next, hnext, rfl⟩ := Option.map_eq_some_iff.mp hmap
    obtain ⟨sent, hsent⟩ := broadcast_mono hnext
    rw [← hsent, List.drop_left]
    refine ⟨fun w other hother => ?_, fun client hmem => (h.clients client hmem).append _⟩
    dsimp only at hother ⊢
    rw [texts_append]
    by_cases hv : v = w
    · subst hv
      obtain ⟨hlt, _⟩ := List.getElem?_eq_some_iff.mp hworker
      rw [List.getElem?_set_self hlt] at hother
      cases hother
      rw [h.texts v worker hworker, texts_map_self, hsent]
    · rw [List.getElem?_set_ne hv] at hother
      rw [h.texts w other hother, texts_map_of_ne hv, List.append_nil]
  | web action =>
    obtain ⟨hub, hhub, rfl, hhistory⟩ := web_eq_some hstep
    refine ⟨fun w worker hworker => ?_, Hub.sound_step h.clients hdocumented hhub⟩
    dsimp only
    rw [hhistory]
    exact h.texts w worker hworker

/-- A worker shows the run of the monitor of an arbitrage. -/
def Shows (w k : ℕ) (s : Site C D) (monitor : Worker.Monitor D) : Prop :=
  ∃ worker, s.workers[w]? = some worker ∧ worker.Shows k monitor

/-- Every step is a step of the monitor, or does not matter to it. -/
theorem Shows.step {monitor : Worker.Monitor D} (h : s.Shows w k monitor)
    (hstep : s.step lossy action = some t) :
    (own w k s action = none → t.Shows w k monitor) ∧
      ∀ a, own w k s action = some a → ∃ next, monitor.step a = some next ∧ t.Shows w k next := by
  obtain ⟨worker, hworker, hshows⟩ := h
  cases action with
  | work v action =>
    obtain ⟨other, hother, hmap⟩ := Option.bind_eq_some_iff.mp hstep
    obtain ⟨changed, hchanged, rfl⟩ := Option.map_eq_some_iff.mp hmap
    by_cases hv : v = w
    · subst hv
      cases hother.symm.trans hworker
      obtain ⟨hlt, _⟩ := List.getElem?_eq_some_iff.mp hworker
      have hset : (s.workers.set v changed)[v]? = some changed := List.getElem?_set_self hlt
      have hown : own v k s (.work v action) = Worker.WorkerLoop.ownAction k worker action := by
        rw [own, if_pos rfl, hworker, Option.bind_some]
      rw [hown]
      obtain ⟨hkept, hmoved⟩ := hshows.step hchanged
      refine ⟨fun hnone => ⟨changed, hset, hkept hnone⟩, fun a ha => ?_⟩
      obtain ⟨next, hnext, hlater⟩ := hmoved a ha
      exact ⟨next, hnext, changed, hset, hlater⟩
    · have hown : own w k s (.work v action) = none := if_neg hv
      rw [hown]
      exact ⟨fun _ => ⟨worker, (List.getElem?_set_ne hv).trans hworker, hshows⟩, nofun⟩
  | web action =>
    obtain ⟨hub, _, rfl, _⟩ := web_eq_some hstep
    exact ⟨fun _ => ⟨worker, hworker, hshows⟩, nofun⟩

/-- In every run of the site, for each arbitrage of each worker, there is a run of its monitor
alone, and each client has received the notifications of that run that were sent since the client
came, up to some notification; a client that has received all texts has received all of these. -/
theorem client_follows_monitor (lossy : List UInt8 → String) {exchanges : List String} {n : ℕ}
    {arbitrages : ℕ → ℕ → Worker.Arbitrage D} (hw : w < n) {actions : List (SiteAction C D)}
    (hdocumented : GuardedRun.StepsSatisfy (step lossy) Documented (start exchanges n arbitrages)
      actions)
    (hrun : GuardedRun.exec (step lossy) (start exchanges n arbitrages) actions = some s) (k : ℕ) :
    ∃ monitor, GuardedRun.exec Worker.Monitor.step
        (⟨arbitrages w k, [], fun _ => none⟩ : Worker.Monitor D)
        (Projection.project (step lossy) (own w k) (start exchanges n arbitrages) actions) =
          some monitor ∧
      ∀ client ∈ s.hub.clients,
        about w k client.received <+: monitor.notifications.drop
          (about w k (s.hub.history.take client.joined)).length ∧
        (s.hub.history.length ≤ client.position → about w k client.received =
          monitor.notifications.drop (about w k (s.hub.history.take client.joined)).length) := by
  have hsound : s.Sound := (GuardedRun.reaches_of_exec hdocumented hrun).invariant
    (I := Sound) (sound_start exchanges n arbitrages)
    fun _ _ _ h hguard hstep => h.step hguard hstep
  have hstart : (start exchanges n arbitrages : Site C D).Shows w k
      ⟨arbitrages w k, [], fun _ => none⟩ := by
    refine ⟨.start exchanges (arbitrages w), ?_, rfl, rfl⟩
    rw [start, List.getElem?_map, List.getElem?_range hw, Option.map_some]
  obtain ⟨monitor, hmonitor, worker, hworker, hshows⟩ := Projection.exec_project (R := Shows w k)
    (fun _ _ _ a _ h hown hstep => (h.step hstep).2 a hown)
    (fun _ _ _ _ h hown hstep => (h.step hstep).1 hown) hstart hrun
  refine ⟨monitor, hmonitor, fun client hmem => ?_⟩
  have hnotified : monitor.notifications = about w k (s.hub.history.take client.joined) ++
      about w k (s.hub.history.drop client.joined) := by
    rw [hshows.2, ← hsound.texts w worker hworker, about, about, ← texts_append, ← texts_append,
      List.take_append_drop]
    rfl
  have hclient := hsound.clients client hmem
  rw [hnotified, List.drop_left]
  refine ⟨texts_mono (texts_mono hclient.segment), fun hall => ?_⟩
  rw [hclient.received_eq hall, List.take_length]

/-- A site with one worker. -/
def oneWorker : Site Unit ℚ := start ["Gate", "Binance"] 1 fun _ => Worker.WorkerLoop.crossedPair

/-- The notification that a worker sends when both legs have a price. -/
def firstText : ℕ × ℕ × Worker.Arbitrage ℚ :=
  (0, 0, { Worker.WorkerLoop.crossedPair 0 with
    snapshot := ⟨"", "", 100, 100, 0, 0, 0, -100, 0⟩ })

/-- Both legs of an arbitrage are watched, and a client receives the notification. -/
def watchedRun : List (SiteAction Unit ℚ) :=
  [.web .connect, .work 0 (.send (.startMonitor [0])), .work 0 .recv,
    .work 0 (.finish 0 0 (some (Worker.Monitor.flatBook 100))),
    .work 0 (.finish 0 0 (some (Worker.Monitor.flatBook 100))),
    .web (.poll 0 (some (some firstText)) none)]

/-- The client has received a notification of the monitor. -/
theorem watchedRun_follows : ∃ s, GuardedRun.exec (step fun _ => "") oneWorker watchedRun = some s ∧
    ∃ (monitor : Worker.Monitor ℚ) (client : _), client ∈ s.hub.clients ∧
      about 0 0 client.received ≠ [] ∧ about 0 0 client.received <+:
        monitor.notifications.drop (about 0 0 (s.hub.history.take client.joined)).length := by
  obtain ⟨s, hs⟩ : ∃ s, GuardedRun.exec (step fun _ => "") oneWorker watchedRun = some s :=
    Option.isSome_iff_exists.mp (by decide +kernel)
  have hdocumented :
      GuardedRun.StepsSatisfy (step fun _ => "") Documented oneWorker watchedRun := by
    decide +kernel
  have hclients : ∀ s ∈ GuardedRun.exec (step fun _ => "") oneWorker watchedRun,
      ∃ client ∈ s.hub.clients, about 0 0 client.received ≠ [] := by
    decide +kernel
  obtain ⟨client, hmem, hreceived⟩ := hclients s hs
  obtain ⟨monitor, _, hfollows⟩ :=
    client_follows_monitor (fun _ => "") Nat.zero_lt_one hdocumented hs 0
  exact ⟨s, hs, monitor, client, hmem, hreceived, (hfollows client hmem).1⟩

end Site

end Arbexpert.Web
