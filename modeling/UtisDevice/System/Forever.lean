import UtisDevice.Machinery.Forever
import UtisDevice.System.Log
import UtisDevice.System.Replay
import UtisDevice.System.Tempo
import UtisDevice.Worker.Lag

/-!
# System/Forever — what the program comes to

    clicks ──▸ … ──▸ no more clicks ──▸ … ──▸ │ the same rows, the same devices, polled for ever

Run for ever, with no thread and no timer passed over, the program answers every request
(`answers_shown`), and settles once nobody clicks: from some moment on nothing is on its way, and
the devices online and the rows are what the requests sent make of an empty registry (`settles`).
What `getCmd` answers for a device that stays online is sent again and again, however badly the two
timers fit (`polled_again`); so what goes out in the end is the commands of the devices online, sent
for these devices alone (`polls_settled`).
-/

namespace UtisDevice

open Machinery UtisDeviceWorker

section Forever

variable {count : ℤ} {cfg : Option QSettings} {s₀ : Application} {r : application.Forever s₀}
  {N n : ℕ}

/-! ## The three queues

Signals, notices and commands: each is served by one input, which fairness keeps coming. -/

/-- The worker serves the signals. -/
theorem serves_signals (hinit : Application.init count cfg = some s₀) (hprocess : r.Fair .process) :
    r.Serves .process (·.signals) posts takesUp where
  fair := hprocess
  flow n := signals_flow (r.run n)
  enabled n hne := (kept_of_run hinit (r.run n)).process_enabled hne
  takes n hi hne := by
    have hne : (r.entry n).pre.signals ≠ [] := hne
    simpa [takesUp, hi] using hne

/-- The window serves the notices. -/
theorem serves_notices (hinit : Application.init count cfg = some s₀) (hdeliver : r.Fair .deliver) :
    r.Serves .deliver (·.notices) (fun e => notices e.out) heard where
  fair := hdeliver
  flow n := by
    rw [← notices_emitted]
    exact notices_flow (r.run n)
  enabled n hne := (kept_of_run hinit (r.run n)).deliver_enabled hne
  takes n hi hne := by
    have hne : (r.entry n).pre.notices ≠ [] := hne
    simpa [heard, hi] using hne

/-- The devices a step of the program polls. -/
def polledBy (e : ApplicationEntry) : List AShuErDevive := polledFor (startedEntry e).toList

/-- The commands it queues. -/
def queued (e : ApplicationEntry) : List QByteArray := (snapshots (startedEntry e).toList).flatten

theorem queued_eq (e : ApplicationEntry) : queued e = (polledBy e).map AShuErDevive.getCmd :=
  (polledFor_map_getCmd _).symm

theorem flatMap_polledBy (h : List ApplicationEntry) :
    h.flatMap polledBy = polledFor (h.filterMap startedEntry) := by
  induction h with
  | nil => rfl
  | cons e h ih =>
    rw [List.flatMap_cons, ih, polledBy, ← polledFor_append,
      List.filterMap_eq_flatMap_toList, List.filterMap_eq_flatMap_toList, List.flatMap_cons]

theorem flatMap_queued (h : List ApplicationEntry) :
    h.flatMap queued = (snapshots (h.filterMap startedEntry)).flatten := by
  rw [← polledFor_map_getCmd, ← flatMap_polledBy, List.map_flatMap]
  exact congrArg (h.flatMap ·) (funext queued_eq)

/-- Only devices online are polled, and while the timer is stopped. -/
theorem mem_polledBy {e : ApplicationEntry} {d : AShuErDevive} (hd : d ∈ polledBy e) :
    e.pre.worker.timer.isActive = false ∧ d ∈ e.pre.worker.onlineDev := by
  obtain ⟨we, hwe, hd⟩ := List.mem_flatMap.mp hd
  obtain ⟨hwe, haccepts⟩ := List.mem_filter.mp hwe
  obtain ⟨wi, -, rfl⟩ := Option.map_eq_some_iff.mp (Option.mem_toList.mp hwe)
  exact ⟨(accepts_iff.mp haccepts).2, hd⟩

theorem mem_queued {e : ApplicationEntry} {c : QByteArray} (hc : c ∈ queued e) :
    e.pre.worker.timer.isActive = false ∧ c ∈ commandList e.pre.worker := by
  rw [queued_eq] at hc
  obtain ⟨d, hd, rfl⟩ := List.mem_map.mp hc
  obtain ⟨hinactive, honline⟩ := mem_polledBy hd
  exact ⟨hinactive, List.mem_map_of_mem honline⟩

/-- A poll that finds the timer stopped is of them all. -/
theorem polledBy_of_poll {e : ApplicationEntry} (hpoll : .signalGetLatestData ∈ takesUp e)
    (hinactive : e.pre.worker.timer.isActive = false) : polledBy e = e.pre.worker.onlineDev := by
  obtain ⟨pre, i, out, post⟩ := e
  cases i with
  | process =>
    have hhead : pre.signals.head? = some .signalGetLatestData := by simpa [takesUp] using hpoll
    have hstarted : startedEntry ⟨pre, .process, out, post⟩
        = some ⟨pre.worker, .slotGetLatestData, out, post.worker⟩ := by
      simp [startedEntry, workerInput, hhead, UtisDeviceSignal.slot?]
    have hinactive : pre.worker.timer.isActive = false := hinactive
    simp [polledBy, polledFor, hstarted, accepts, hinactive]
  | openBtn row => simp [takesUp] at hpoll
  | clearBtn => simp [takesUp] at hpoll
  | edit history => simp [takesUp] at hpoll
  | timer => simp [takesUp] at hpoll
  | timeout => simp [takesUp] at hpoll
  | datagram d => simp [takesUp] at hpoll
  | slotReadyRead => simp [takesUp] at hpoll
  | deliver => simp [takesUp] at hpoll

/-- **What a timeout of the command timer does** in a run: it sends the next command, or ends the
round. -/
theorem timeout_of_run (hinit : Application.init count cfg = some s₀)
    {s s' : Application} {h : List ApplicationEntry} {out : List Effect}
    (hr : application.Run s₀ h s) (hs : application.step s .timeout = some (s', out)) :
    (∃ c, s.worker.cmdList = c :: s'.worker.cmdList ∧ commands out = [c]) ∨
      s.worker.cmdList = [] ∧ s'.worker.timer.isActive = false := by
  have hk := kept_of_run hinit hr
  cases tempo_of_step hk hs with
  | timeout _ hactive hworker =>
    obtain ⟨c, cs, hq, hpost, rfl⟩ | ⟨hq, hpost, -⟩ :=
      timeout_cases (hk.started_of_active (idle_of_run hinit hr) hactive) hworker
    · exact Or.inl ⟨c, by rw [hq, hpost], rfl⟩
    · exact Or.inr ⟨hq, by rw [hpost]⟩
  | quiet _ htimeout => exact absurd rfl htimeout

/-- The command timer serves the commands. -/
theorem serves_commands (hinit : Application.init count cfg = some s₀)
    (htimeout : r.Fair .timeout) :
    r.Serves .timeout (·.worker.cmdList) queued (fun e => commands e.out) where
  fair := htimeout
  flow n := by
    have hflow := commands_flow hinit (r.run n)
    have hempty : s₀.worker.cmdList = [] := by
      obtain ⟨b, -, rfl⟩ := Option.map_eq_some_iff.mp hinit
      rfl
    have hsent : commands (emitted (r.past n)) = (r.past n).flatMap fun e => commands e.out := by
      rw [emitted, commands, List.filterMap_flatMap]
      rfl
    rw [flatMap_queued, ← hflow, hsent, hempty, List.nil_append]
  enabled n hne := by
    have hactive : (r.state n).worker.timer.isActive = true := by
      by_contra hinactive
      exact hne (idle_of_run hinit (r.run n) (by simpa using hinactive))
    simpa [application, worker] using hactive
  takes n hi hne := by
    rcases timeout_of_run hinit (r.run n) (r.step_of_input hi) with ⟨c, -, hc⟩ | ⟨hq, -⟩
    · simp [hc]
    · exact absurd hq hne

/-! ## Every request is answered

The request is a signal that is taken up, and its answer a notice that is. -/

/-- The requests among the signals posted are those sent. -/
theorem filterMap_posts (e : ApplicationEntry) :
    (posts e).filterMap UtisDeviceSignal.request? = requested e := by
  obtain ⟨pre, i, out, post⟩ := e
  cases i with
  | openBtn row => cases hclick : pre.widget.click row <;> simp [posts, requested, hclick]
  | clearBtn => rfl
  | edit history => rfl
  | timer => rfl
  | process => rfl
  | timeout => rfl
  | datagram d => rfl
  | slotReadyRead => rfl
  | deliver => rfl

theorem requests_eq (hinit : Application.init count cfg = some s₀) (h : List ApplicationEntry) :
    requests s₀ h = (s₀.signals ++ h.flatMap posts).filterMap UtisDeviceSignal.request? := by
  have hstart : s₀.signals.filterMap UtisDeviceSignal.request? = s₀.names.map .signalAddDev :=
    congrArg Threads.requests (threads_of_init hinit)
  rw [List.filterMap_append, List.filterMap_flatMap, hstart, requests]
  simp only [filterMap_posts]

/-- The answers are those to the requests taken up. -/
theorem results_of_takesUp (hinit : Application.init count cfg = some s₀)
    {s : Application} {h : List ApplicationEntry} (hr : application.Run s₀ h s) :
    results (emitted h) = (serveAll isvalid categoryOf (((h.flatMap takesUp).filterMap
      UtisDeviceSignal.request?).map Request.ask) []).2 := by
  obtain ⟨done, hdone, hreplay⟩ := replay_of_application hinit hr
  rw [requests_eq hinit, signals_flow hr, List.filterMap_append] at hdone
  rw [List.append_cancel_right hdone, ← hreplay]

/-- **Every request is answered, and the answer shown**, though the clicks may never end: in a run
that passes over neither thread, the answers to all requests sent so far are, at some later moment,
among those the window has taken up, in order. -/
theorem answers_shown (hinit : Application.init count cfg = some s₀) (hprocess : r.Fair .process)
    (hdeliver : r.Fair .deliver) (n : ℕ) :
    ∃ m, n ≤ m ∧ (serveAll isvalid categoryOf ((requests s₀ (r.past n)).map Request.ask) []).2
      <+: ((r.past m).flatMap heard).filterMap Notice.result? := by
  obtain ⟨m₁, hm₁, htaken⟩ := (serves_signals hinit hprocess).taken n
  obtain ⟨m₂, hm₂, hheard⟩ := (serves_notices hinit hdeliver).taken m₁
  refine ⟨m₂, Nat.le_trans hm₁ hm₂, ?_⟩
  have hanswered : (serveAll isvalid categoryOf ((requests s₀ (r.past n)).map Request.ask) []).2
      <+: results (emitted (r.past m₁)) := by
    obtain ⟨rest, hrest⟩ := (htaken.filterMap UtisDeviceSignal.request?).map Request.ask
    rw [results_of_takesUp hinit (r.run m₁), ← hrest, serveAll_append, requests_eq hinit]
    exact List.prefix_append _ _
  rw [← notices_emitted, notices_init hinit, List.nil_append] at hheard
  rw [results_eq] at hanswered
  exact hanswered.trans (hheard.filterMap Notice.result?)

/-- A row clicked for ever, and twice before an answer. -/
theorem answers_shown_run : ∃ r : application.Forever (.ofNames ["RD3000B", "RD3000C"]),
    (∀ n, ∃ m, n ≤ m ∧ (r.entry m).input = .openBtn 0) ∧
    ∀ n, ∃ m, n ≤ m ∧ (serveAll isvalid categoryOf
        ((requests (.ofNames ["RD3000B", "RD3000C"]) (r.past n)).map Request.ask) []).2
      <+: ((r.past m).flatMap heard).filterMap Notice.result? := by
  obtain ⟨r, h, h', -, -, -, hoften⟩ := Machine.Forever.exists_forever
    (M := application) (s := .ofNames ["RD3000B", "RD3000C"])
    [.process, .process, .process, .deliver, .deliver, .deliver, .deliver, .clearBtn]
    [.openBtn 0, .openBtn 0, .process, .process, .deliver, .deliver, .openBtn 0, .process, .deliver,
      .deliver, .clearBtn] (by simp) (P := fun _ _ => True) (by decide)
  exact ⟨r, hoften (.openBtn 0) (by simp), answers_shown (Application.init_ofNames 0 _)
    (.of_often (hoften .process (by simp))) (.of_often (hoften .deliver (by simp)))⟩

/-! ## The program settles

Without clicks there are no more requests, then no more answers, then no more changes. -/

/-- Nothing is asked for once nobody clicks. -/
theorem requests_of_past (hclicks : ∀ k, N ≤ k → (r.entry k).input.isClick = false)
    (hn : N ≤ n) : requests s₀ (r.past n) = requests s₀ (r.past N) := by
  obtain ⟨later, hlater, hmem⟩ := r.past_of_le hn
  have hnone : later.flatMap requested = [] := List.flatMap_eq_nil_iff.mpr fun e he => by
    obtain ⟨k, hk, rfl⟩ := hmem e he
    exact requested_of_unclicked (hclicks k hk)
  rw [requests, requests, hlater, List.flatMap_append, hnone, List.append_nil]

/-- **Nobody clicking, the program settles.**  In a run that passes over neither thread, and in
which nobody clicks from some moment on, there is a moment from which no request and no answer is on
its way, and the devices online and the rows are — for ever — what the requests sent make of an
empty registry. -/
theorem settles (hinit : Application.init count cfg = some s₀) (hprocess : r.Fair .process)
    (hdeliver : r.Fair .deliver) (hclicks : ∀ k, N ≤ k → (r.entry k).input.isClick = false) :
    ∃ n, N ≤ n ∧ ∀ k, n ≤ k →
      (r.state k).Answered ∧
      (r.state k).worker.online
        = (serveAll isvalid categoryOf ((requests s₀ (r.past N)).map Request.ask) []).1 ∧
      (r.state k).widget.rows = s₀.names.map fun name => (name, latest false name
        (serveAll isvalid categoryOf ((requests s₀ (r.past N)).map Request.ask) []).2) := by
  obtain ⟨n₁, hn₁, htaken⟩ := (serves_signals hinit hprocess).drained (n := N)
    (P := fun signal => signal.request? = none) fun k hk => List.filterMap_eq_nil_iff.mp
      ((filterMap_posts _).trans (requested_of_unclicked (hclicks k hk)))
  have hreplay : ∀ k, n₁ ≤ k → (r.state k).threads.requests = [] ∧
      ((r.state k).worker.online, results (emitted (r.past k)))
        = serveAll isvalid categoryOf ((requests s₀ (r.past N)).map Request.ask) [] := by
    intro k hk
    have hnone : (r.state k).threads.requests = [] :=
      List.filterMap_eq_nil_iff.mpr (htaken k hk)
    have hreplay := replay_of_answered hinit (r.run k) hnone
    rw [requests_of_past hclicks (Nat.le_trans hn₁ hk)] at hreplay
    exact ⟨hnone, hreplay⟩
  -- the answers are complete, so no more are posted
  have hposted : ∀ k, n₁ ≤ k → ∀ notice ∈ notices (r.entry k).out, notice.result? = none := by
    intro k hk
    have hnext := (hreplay (k + 1) (Nat.le_succ_of_le hk)).2
    rw [← (hreplay k hk).2, r.past_succ, emitted_append, emitted_singleton, results_append,
      Prod.mk.injEq, List.append_right_eq_self] at hnext
    exact List.filterMap_eq_nil_iff.mp ((results_eq _).symm.trans hnext.2)
  obtain ⟨n₂, hn₂, hheard⟩ := (serves_notices hinit hdeliver).drained (n := n₁)
    (P := fun notice => notice.result? = none) hposted
  refine ⟨n₂, Nat.le_trans hn₁ hn₂, fun k hk => ?_⟩
  obtain ⟨hrequests, hserved⟩ := hreplay k (Nat.le_trans hn₂ hk)
  have hanswered : (r.state k).Answered :=
    ⟨hrequests, List.filterMap_eq_nil_iff.mpr (hheard k hk)⟩
  refine ⟨hanswered, by rw [← hserved], ?_⟩
  rw [← hserved]
  exact rows_of_answered hinit (r.run k) hanswered

/-- Three devices, one of them refused and one closed, and then nothing but polls. -/
theorem settles_run : ∃ (r : application.Forever (.ofNames ["MWS600", "RD3000B", "RD3000C"]))
    (n : ℕ), ∀ k, n ≤ k → (r.state k).Answered ∧ (r.state k).worker.online = ["MWS600"] ∧
      (r.state k).widget.rows = [("MWS600", true), ("RD3000B", false), ("RD3000C", false)] := by
  obtain ⟨r, h, h', hpast, ⟨hclicks, hserved⟩, hmem, hoften⟩ := Machine.Forever.exists_forever
    (M := application) (s := .ofNames ["MWS600", "RD3000B", "RD3000C"])
    [.process, .process, .process, .deliver, .process, .deliver, .deliver, .deliver, .deliver,
      .deliver, .openBtn 1, .process, .deliver, .deliver, .clearBtn]
    [.timer, .process, .timeout, .deliver, .timeout, .clearBtn] (by simp)
    (P := fun h h' => (∀ e ∈ h', e.input.isClick = false) ∧
      requests (.ofNames ["MWS600", "RD3000B", "RD3000C"]) h = [.signalAddDev "MWS600",
        .signalAddDev "RD3000B", .signalAddDev "RD3000C", .signalDelDev "RD3000B"]) (by decide)
  obtain ⟨n, -, hsettled⟩ := settles (N := h.length) (Application.init_ofNames 0 _)
    (.of_often (hoften .process (by simp))) (.of_often (hoften .deliver (by simp)))
    fun k hk => hclicks _ (hmem k hk)
  rw [hpast, hserved, Application.names_ofNames] at hsettled
  exact ⟨r, n, hsettled⟩

/-! ## No device starves

A poll is ignored while a round is out; but rounds end, and the polls go on coming. -/

/-- A stopped timer stays stopped until a poll is taken up. -/
theorem stopped_of_step {s s' : Application} {i : ApplicationInput} {out : List Effect}
    (hk : Kept s) (hs : application.step s i = some (s', out))
    (hstopped : s.worker.timer.isActive = false)
    (hnone : .signalGetLatestData ∉ takesUp ⟨s, i, out, s'⟩) :
    s'.worker.timer.isActive = false := by
  cases tempo_of_step hk hs with
  | timer hpost => rwa [hpost]
  | takeUp hsignals => simp [takesUp, hsignals] at hnone
  | timeout _ hactive => exact absurd (hstopped.symm.trans hactive) Bool.false_ne_true
  | quiet _ _ _ _ hactive => rwa [hactive]

/-- **Every round ends**, so the timer is stopped again and again. -/
theorem exists_stopped (hinit : Application.init count cfg = some s₀)
    (htimeout : r.Fair .timeout) (n : ℕ) :
    ∃ m, n ≤ m ∧ (r.state m).worker.timer.isActive = false := by
  by_contra hnone
  have hactive : ∀ m, n ≤ m → (r.state m).worker.timer.isActive = true := fun m hnm => by
    by_contra hstopped
    exact hnone ⟨m, hnm, by simpa using hstopped⟩
  -- no poll is heeded any more, so the queue runs empty; the timeout after that stops the timer
  obtain ⟨m, hnm, hempty⟩ := (serves_commands hinit htimeout).drained (n := n)
    (P := fun _ => False) fun k hk c hc =>
      absurd ((mem_queued hc).1.symm.trans (hactive k hk)) Bool.false_ne_true
  obtain ⟨k, hmk, hi⟩ := htimeout m fun k hmk => by
    simpa [application, worker] using hactive k (Nat.le_trans hnm hmk)
  rcases timeout_of_run hinit (r.run k) (r.step_of_input hi) with ⟨c, hq, -⟩ | ⟨-, hstopped⟩
  · exact hempty k hmk c (hq ▸ List.mem_cons_self)
  · exact hnone ⟨k + 1, Nat.le_trans hnm (Nat.le_succ_of_le hmk), hstopped⟩

/-- **Again and again a poll is heeded.** -/
theorem exists_poll (hinit : Application.init count cfg = some s₀) (htimer : r.Fair .timer)
    (hprocess : r.Fair .process) (htimeout : r.Fair .timeout) (n : ℕ) :
    ∃ m, n ≤ m ∧ polledBy (r.entry m) = (r.state m).worker.onlineDev := by
  obtain ⟨m₁, hm₁, hstopped⟩ := exists_stopped hinit htimeout n
  obtain ⟨m₂, hm₂, hi⟩ := htimer m₁ fun m _ => by simp [application]
  have hposted : .signalGetLatestData ∈ posts (r.entry m₂) := by simp [posts, hi]
  obtain ⟨m₃, hm₃, htaken⟩ := (serves_signals hinit hprocess).exists_take hposted
  obtain ⟨m₄, hm₄, hstopped, hpoll⟩ := r.exists_good
    (P := fun s => s.worker.timer.isActive = false)
    (G := fun e => .signalGetLatestData ∈ takesUp e) hstopped
    (fun k _ => stopped_of_step (kept_of_run hinit (r.run k)) (r.step_of_input rfl))
    (Nat.le_trans hm₂ hm₃) htaken
  exact ⟨m₄, Nat.le_trans hm₁ hm₄, polledBy_of_poll hpoll hstopped⟩

/-- **No device starves**: in a run that passes over neither timer nor the worker, what `getCmd`
answers for a device that stays online is sent again and again — whatever is clicked and received,
and however the timers fit, so that polls may be ignored.  For an `RD3000B` these are the bytes that
address the weather station. -/
theorem polled_again (hinit : Application.init count cfg = some s₀) (htimer : r.Fair .timer)
    (hprocess : r.Fair .process) (htimeout : r.Fair .timeout) {d : AShuErDevive}
    (honline : ∀ k, N ≤ k → d ∈ (r.state k).worker.onlineDev) :
    ∀ n, ∃ m, n ≤ m ∧ d.getCmd ∈ commands (r.entry m).out := by
  intro n
  obtain ⟨m₁, hm₁, hpoll⟩ := exists_poll hinit htimer hprocess htimeout (max n N)
  have hqueued : d.getCmd ∈ queued (r.entry m₁) := by
    rw [queued_eq, hpoll]
    exact List.mem_map_of_mem (honline m₁ (by omega))
  obtain ⟨m₂, hm₂, hsent⟩ := (serves_commands hinit htimeout).exists_take hqueued
  exact ⟨m₂, by omega, hsent⟩

/-- Polls ignored in every round, with a device closed and opened again in between. -/
theorem polled_again_run : ∃ r : application.Forever (.ofNames ["MWS600", "VD920G"]),
    (∀ n, ∃ m, n ≤ m ∧ (r.entry m).input = .openBtn 1) ∧
    ∀ n, ∃ m, n ≤ m ∧ cmdMWS600Read ∈ commands (r.entry m).out := by
  obtain ⟨r, h, h', -, honline, hmem, hoften⟩ := Machine.Forever.exists_forever
    (M := application) (s := .ofNames ["MWS600", "VD920G"])
    [.process, .process, .process, .deliver, .deliver, .deliver, .deliver, .clearBtn]
    [.timer, .process, .openBtn 1, .timer, .process, .timeout, .process, .timeout, .timeout,
      .deliver, .deliver, .deliver, .deliver, .openBtn 1, .process, .deliver, .deliver, .clearBtn]
    (by simp) (P := fun _ h' => ∀ e ∈ h', .new "MWS600" ∈ e.pre.worker.onlineDev) (by decide)
  exact ⟨r, hoften (.openBtn 1) (by simp), polled_again (N := h.length)
    (Application.init_ofNames 0 _) (.of_often (hoften .timer (by simp)))
    (.of_often (hoften .process (by simp))) (.of_often (hoften .timeout (by simp)))
    fun k hk => honline _ (hmem k hk)⟩

/-! ## What goes out in the end

Two models may share a command, so the bytes on the bus do not say what device they are for; the
queue does, device by device. -/

/-- **Every poll is sent for**, in the end. -/
theorem exists_sentFor_eq (hinit : Application.init count cfg = some s₀)
    (htimeout : r.Fair .timeout) (n : ℕ) : ∃ m, n ≤ m ∧
      sentFor ((r.past m).filterMap startedEntry) = (r.past m).flatMap polledBy := by
  obtain ⟨m, hnm, hstopped⟩ := exists_stopped hinit htimeout n
  have hempty := idle_of_run hinit (r.run m) hstopped
  rw [← (kept_of_run hinit (r.run m)).started_cmdList,
    cmdList_eq (worker_of_application hinit (r.run m)), List.map_eq_nil_iff] at hempty
  refine ⟨m, hnm, ?_⟩
  rw [flatMap_polledBy, ← sentFor_append_queuedFor, hempty, List.append_nil]

theorem countP_polledBy_mono {m : ℕ} (p : AShuErDevive → Bool) (hnm : n ≤ m) :
    ((r.past n).flatMap polledBy).countP p ≤ ((r.past m).flatMap polledBy).countP p :=
  (Machine.Forever.Serves.flatMap_mono r polledBy hnm).sublist.countP_le

/-- **A device that stays online is sent for without end.** -/
theorem sentFor_again (hinit : Application.init count cfg = some s₀) (htimer : r.Fair .timer)
    (hprocess : r.Fair .process) (htimeout : r.Fair .timeout) {d : AShuErDevive}
    (honline : ∀ k, N ≤ k → d ∈ (r.state k).worker.onlineDev) (times : ℕ) : ∃ m, times ≤
      (sentFor ((r.past m).filterMap startedEntry)).countP (named d.devTypeStr) := by
  have hpolled : ∃ m, times ≤ ((r.past m).flatMap polledBy).countP (named d.devTypeStr) := by
    induction times with
    | zero => exact ⟨0, Nat.zero_le _⟩
    | succ times ih =>
      obtain ⟨m, hm⟩ := ih
      obtain ⟨m', hm', hpoll⟩ := exists_poll hinit htimer hprocess htimeout (max m N)
      have hmono := countP_polledBy_mono (r := r) (named d.devTypeStr) (le_of_max_le_left hm')
      have hone : 0 < (polledBy (r.entry m')).countP (named d.devTypeStr) := by
        rw [hpoll]
        exact List.countP_pos_iff.mpr ⟨d, honline m' (by omega), named_eq_true.mpr rfl⟩
      refine ⟨m' + 1, ?_⟩
      rw [r.past_succ, List.flatMap_append, List.flatMap_singleton, List.countP_append]
      omega
  obtain ⟨m, hm⟩ := hpolled
  obtain ⟨m', hmm', hsent⟩ := exists_sentFor_eq hinit htimeout m
  exact ⟨m', hsent ▸ hm.trans (countP_polledBy_mono _ hmm')⟩

/-- A device that stays off is sent for no more often than it was polled before. -/
theorem countP_sentFor_le {name : String}
    (hoff : ∀ k, N ≤ k → name ∉ (r.state k).worker.online) (m : ℕ) :
    (sentFor ((r.past m).filterMap startedEntry)).countP (named name)
      ≤ ((r.past N).flatMap polledBy).countP (named name) := by
  have hsent : (sentFor ((r.past m).filterMap startedEntry)).countP (named name)
      ≤ ((r.past m).flatMap polledBy).countP (named name) := by
    rw [flatMap_polledBy, ← sentFor_append_queuedFor, List.countP_append]
    exact Nat.le_add_right _ _
  refine hsent.trans ?_
  rcases Nat.le_total m N with hmN | hNm
  · exact countP_polledBy_mono _ hmN
  · obtain ⟨later, hlater, hmem⟩ := r.past_of_le hNm
    have hzero : (later.flatMap polledBy).countP (named name) = 0 := by
      refine List.countP_eq_zero.mpr fun d hd hname => ?_
      obtain ⟨e, he, hd⟩ := List.mem_flatMap.mp hd
      obtain ⟨k, hk, rfl⟩ := hmem e he
      exact hoff k hk (List.mem_map.mpr ⟨d, (mem_polledBy hd).2, named_eq_true.mp hname⟩)
    rw [hlater, List.flatMap_append, List.countP_append, hzero, Nat.add_zero]

section Settled

variable {names : List String}

/-- The devices online, by their names. -/
theorem onlineDev_of_online (hinit : Application.init count cfg = some s₀)
    (hn : (r.state n).worker.online = names) : (r.state n).worker.onlineDev = names.map .new := by
  rw [(kept_of_run hinit (r.run n)).registered.eq_map_new, hn]

/-- **With the registry fixed**, a command goes out again and again exactly if it is that of a
device online. -/
theorem sent_often_iff (hinit : Application.init count cfg = some s₀) (htimer : r.Fair .timer)
    (hprocess : r.Fair .process) (htimeout : r.Fair .timeout)
    (honline : ∀ k, N ≤ k → (r.state k).worker.online = names) (c : QByteArray) :
    (∀ n, ∃ m, n ≤ m ∧ c ∈ commands (r.entry m).out) ↔
      ∃ name ∈ names, (AShuErDevive.new name).getCmd = c := by
  constructor
  · intro hoften
    have hserves := serves_commands hinit htimeout
    have hqueued : ∀ k, N ≤ k → ∀ c ∈ queued (r.entry k),
        c ∈ (names.map .new).map AShuErDevive.getCmd := by
      intro k hk c hc
      rw [← onlineDev_of_online hinit (honline k hk)]
      exact (mem_queued hc).2
    obtain ⟨m, hNm, hqueue⟩ := hserves.drained hqueued
    obtain ⟨k, hmk, hc⟩ := hoften m
    have hmem := (hserves.mem_of_take hc).elim (hqueue k hmk c)
      (hqueued k (Nat.le_trans hNm hmk) c)
    simpa using hmem
  · rintro ⟨name, hname, rfl⟩
    refine polled_again hinit htimer hprocess htimeout (N := N) fun k hk => ?_
    rw [onlineDev_of_online hinit (honline k hk)]
    exact List.mem_map_of_mem hname

/-- …and a device is sent for without end exactly if it is online. -/
theorem sentFor_often_iff (hinit : Application.init count cfg = some s₀) (htimer : r.Fair .timer)
    (hprocess : r.Fair .process) (htimeout : r.Fair .timeout)
    (honline : ∀ k, N ≤ k → (r.state k).worker.online = names) (name : String) :
    (∀ times, ∃ m, times ≤
        (sentFor ((r.past m).filterMap startedEntry)).countP (named name)) ↔ name ∈ names := by
  constructor
  · intro hoften
    by_contra hoff
    obtain ⟨m, hm⟩ := hoften (((r.past N).flatMap polledBy).countP (named name) + 1)
    have hle := countP_sentFor_le (N := N) (fun k hk => by rwa [honline k hk]) m
    omega
  · intro hname
    refine sentFor_again hinit htimer hprocess htimeout (N := N) (d := .new name) fun k hk => ?_
    rw [onlineDev_of_online hinit (honline k hk)]
    exact List.mem_map_of_mem hname

end Settled

/-- **The bus in the end.**  In a run that passes over nothing, and in which nobody clicks from some
moment on, a command goes out again and again exactly if it is that of a device the requests leave
online.  The commands are sent for devices, in order; and a device is sent for without end exactly
if the requests leave it online — though the command of one that is closed may go on for another
that shares it. -/
theorem polls_settled (hinit : Application.init count cfg = some s₀) (htimer : r.Fair .timer)
    (hprocess : r.Fair .process) (htimeout : r.Fair .timeout) (hdeliver : r.Fair .deliver)
    (hclicks : ∀ k, N ≤ k → (r.entry k).input.isClick = false) :
    (∀ c : QByteArray, (∀ n, ∃ m, n ≤ m ∧ c ∈ commands (r.entry m).out) ↔
      ∃ name ∈ (serveAll isvalid categoryOf ((requests s₀ (r.past N)).map Request.ask) []).1,
        (AShuErDevive.new name).getCmd = c) ∧
    (∀ m, commands (emitted (r.past m)) =
      (sentFor ((r.past m).filterMap startedEntry)).map AShuErDevive.getCmd) ∧
    ∀ name, (∀ times, ∃ m, times ≤
        (sentFor ((r.past m).filterMap startedEntry)).countP (named name)) ↔
      name ∈ (serveAll isvalid categoryOf ((requests s₀ (r.past N)).map Request.ask) []).1 := by
  obtain ⟨n, -, hsettled⟩ := settles hinit hprocess hdeliver hclicks
  have honline := fun k (hk : n ≤ k) => (hsettled k hk).2.1
  refine ⟨sent_often_iff hinit htimer hprocess htimeout honline, fun m => ?_,
    sentFor_often_iff hinit htimer hprocess htimeout honline⟩
  rw [← emitted_started hinit (r.run m)]
  exact commands_sentFor (worker_of_application hinit (r.run m))

/-- Two devices are closed.  The command of the one is sent no more; that of the other goes on for
an `RD3000B`, which shares it. -/
theorem polls_settled_run : ∃ r : application.Forever (.ofNames ["MWS600", "RD3000B", "VD920G"]),
    (∀ n, ∃ m, n ≤ m ∧ cmdMWS600Read ∈ commands (r.entry m).out) ∧
    (¬ ∀ n, ∃ m, n ≤ m ∧ cmdVD920GRead ∈ commands (r.entry m).out) ∧
    ∀ name, (∀ times, ∃ m, times ≤
      (sentFor ((r.past m).filterMap startedEntry)).countP (named name)) ↔ name = "RD3000B" := by
  obtain ⟨r, h, h', hpast, ⟨hclicks, hserved⟩, hmem, hoften⟩ := Machine.Forever.exists_forever
    (M := application) (s := .ofNames ["MWS600", "RD3000B", "VD920G"])
    [.process, .process, .process, .process, .timer, .process, .deliver, .deliver, .deliver,
      .deliver, .deliver, .deliver, .openBtn 0, .openBtn 2, .timeout, .process, .process, .timeout,
      .timeout, .timeout, .deliver, .deliver, .deliver, .deliver, .deliver, .deliver, .deliver,
      .clearBtn]
    [.timer, .process, .timeout, .deliver, .timeout, .clearBtn] (by simp)
    (P := fun h h' => (∀ e ∈ h', e.input.isClick = false) ∧
      requests (.ofNames ["MWS600", "RD3000B", "VD920G"]) h =
        [.signalAddDev "MWS600", .signalAddDev "RD3000B", .signalAddDev "VD920G",
          .signalDelDev "MWS600", .signalDelDev "VD920G"]) (by decide)
  obtain ⟨hbytes, -, hdevices⟩ := polls_settled (N := h.length) (Application.init_ofNames 0 _)
    (.of_often (hoften .timer (by simp))) (.of_often (hoften .process (by simp)))
    (.of_often (hoften .timeout (by simp))) (.of_often (hoften .deliver (by simp)))
    fun k hk => hclicks _ (hmem k hk)
  rw [hpast, hserved] at hbytes hdevices
  refine ⟨r, (hbytes _).mpr (by decide), mt (hbytes _).mp (by decide), fun name => ?_⟩
  rw [hdevices]
  exact List.mem_singleton

end Forever

end UtisDevice
