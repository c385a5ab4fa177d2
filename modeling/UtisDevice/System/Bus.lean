import UtisDevice.Machinery.Flow
import UtisDevice.System.Projection
import UtisDevice.Worker.Bus

/-!
# System/Bus — what the program sends, and how much of it

Signals reach the worker as they were posted (`signals_flow`), so it is polled no more often than
`m_timer` of the window has timed out.  Together with what a worker sends for a poll: the program
sends three read commands at most for each of those timeouts, and nothing else, and to nowhere but
the bus (`bus_safe`).
-/

namespace UtisDevice

open Machinery UtisDeviceWorker

/-! ## Signals posted and taken up -/

/-- The signals a step of the program posts. -/
def posts (e : ApplicationEntry) : List UtisDeviceSignal :=
  match e.input with
  | .openBtn row => ((e.pre.widget.click row).map fun r => r.2.signal).toList
  | .timer => [.signalGetLatestData]
  | _ => []

/-- The signal a step of the program takes up. -/
def takesUp (e : ApplicationEntry) : List UtisDeviceSignal :=
  match e.input with
  | .process => e.pre.signals.head?.toList
  | _ => []

/-- The timeout of `m_timer`. -/
def IsTimer (e : ApplicationEntry) : Prop := e.input = .timer

instance : DecidablePred IsTimer := fun e => inferInstanceAs (Decidable (e.input = .timer))

section Signals

variable {s₀ s : Application} {h : List ApplicationEntry}

/-- Nothing from outside touches the signals. -/
theorem posts_of_outer {e : ApplicationEntry} {wi : WorkerInput} (hi : e.input.outer = some wi) :
    posts e = [] ∧ takesUp e = [] := by
  obtain ⟨pre, i, out, post⟩ := e
  cases i <;> simp [ApplicationInput.outer] at hi <;> exact ⟨rfl, rfl⟩

/-- **No signal is lost, repeated or reordered.** -/
theorem signals_flow (hr : application.Run s₀ h s) :
    s₀.signals ++ h.flatMap posts = h.flatMap takesUp ++ s.signals := by
  refine hr.flow (·.signals) posts takesUp fun {t i u out} _ hs => ?_
  cases advance_of_step hs with
  | openBtn hclick => simp [posts, takesUp, hclick]
  | clearBtn => simp [posts, takesUp, Application.on_clearBtn_clicked]
  | edit => simp [posts, takesUp]
  | timer => simp [posts, takesUp, Application.timer]
  | process hsignals => simp [posts, takesUp, hsignals, Application.works]
  | @occur i wi w out hi =>
    obtain ⟨hposts, htakes⟩ :=
      posts_of_outer (e := ⟨t, i, out, (t.works (w, out)).1⟩) hi
    rw [hposts, htakes]
    simp [Application.works]
  | shown => simp [posts, takesUp, Application.showMsg]
  | answered => simp [posts, takesUp]

/-! ## Polls -/

theorem Request.signal_ne_poll (r : Request) : r.signal ≠ .signalGetLatestData := by
  cases r <;> simp [signal]

/-- Only `m_timer` posts a poll. -/
theorem count_posts (h : List ApplicationEntry) :
    (h.flatMap posts).count .signalGetLatestData = h.countP fun e => decide (IsTimer e) := by
  induction h with
  | nil => rfl
  | cons e h ih =>
    have hone : (posts e).count .signalGetLatestData = if IsTimer e then 1 else 0 := by
      obtain ⟨pre, i, out, post⟩ := e
      cases i <;> simp [posts, IsTimer]
      cases pre.widget.click _ <;> simp [Request.signal_ne_poll]
    rw [List.flatMap_cons, List.count_append, ih, hone, List.countP_cons, Nat.add_comm]
    simp

/-- The started worker is polled when a poll is taken up. -/
theorem count_takesUp (h : List ApplicationEntry) :
    ((h.filterMap startedEntry).countP fun e => decide (IsPoll e))
      = (h.flatMap takesUp).count .signalGetLatestData := by
  induction h with
  | nil => rfl
  | cons e h ih =>
    have hone : (([e].filterMap startedEntry).countP fun e => decide (IsPoll e))
        = (takesUp e).count .signalGetLatestData := by
      obtain ⟨pre, i, out, post⟩ := e
      cases i with
      | process =>
        cases hhead : pre.signals.head? with
        | none => simp [startedEntry, workerInput, takesUp, hhead]
        | some signal =>
          cases signal <;>
            simp [startedEntry, workerInput, hhead, takesUp, UtisDeviceSignal.slot?, IsPoll]
      | openBtn row => rfl
      | clearBtn => rfl
      | edit history => rfl
      | timer => rfl
      | timeout => rfl
      | datagram d => rfl
      | slotReadyRead => rfl
      | deliver => rfl
    rw [← List.singleton_append, List.filterMap_append, List.countP_append, List.flatMap_append,
      List.count_append, List.flatMap_singleton, hone, ih]

variable {count : ℤ} {cfg : Option QSettings}

/-- Start-up polls nothing. -/
theorem count_init (hinit : Application.init count cfg = some s₀) :
    s₀.signals.count .signalGetLatestData = 0 := by
  obtain ⟨r, -, rfl⟩ := Option.map_eq_some_iff.mp hinit
  refine List.count_eq_zero.mpr fun hmem => ?_
  obtain h | h := List.mem_cons.mp hmem
  · simp at h
  · obtain ⟨request, -, heq⟩ := List.mem_map.mp h
    exact request.signal_ne_poll heq

/-- The worker is polled no more often than the window's timer times out. -/
theorem polls_le_timers (hinit : Application.init count cfg = some s₀)
    (hr : application.Run s₀ h s) :
    ((h.filterMap startedEntry).countP fun e => decide (IsPoll e))
      ≤ h.countP fun e => decide (IsTimer e) := by
  have hflow := congrArg (List.count UtisDeviceSignal.signalGetLatestData) (signals_flow hr)
  rw [List.count_append, List.count_append, count_init hinit, count_posts] at hflow
  have htaken := count_takesUp h
  omega

/-- No more than three commands for each timeout of the window's timer. -/
theorem length_commands_le_timers (hinit : Application.init count cfg = some s₀)
    (hr : application.Run s₀ h s) :
    (commands (emitted h)).length ≤ 3 * h.countP fun e => decide (IsTimer e) := by
  have hle := length_commands_le (worker_of_application hinit hr)
  have hpolls := polls_le_timers hinit hr
  rw [emitted_started hinit hr] at hle
  omega

/-- **What the bus gets**: read commands, to the one address the worker is built with, and no more
than three of them for each time `m_timer` has timed out — whatever is clicked and received. -/
theorem bus_safe (hinit : Application.init count cfg = some s₀) (hr : application.Run s₀ h s) :
    (∀ e ∈ emitted h, e.ToBus) ∧
      (commands (emitted h)).length ≤ 3 * h.countP fun e => decide (IsTimer e) := by
  refine ⟨?_, length_commands_le_timers hinit hr⟩
  rw [← emitted_started hinit hr]
  exact (written_of_run (worker_of_application hinit hr)).2

/-- Three devices, a device refused, and two timeouts: the bound is met. -/
theorem bus_safe_run : ∃ h s,
    application.Run (.ofNames ["MWS600", "RD3000C", "RD3000B", "VD920G"]) h s ∧
    (commands (emitted h)).length = 6 ∧ (h.countP fun e => decide (IsTimer e)) = 2 ∧
    (∀ e ∈ emitted h, e.ToBus) ∧
    (commands (emitted h)).length ≤ 3 * h.countP fun e => decide (IsTimer e) := by
  obtain ⟨h, s, hr, hsent, htimers⟩ := Machine.exists_run (M := application)
    (s := .ofNames ["MWS600", "RD3000C", "RD3000B", "VD920G"])
    [.process, .process, .process, .process, .process, .timer, .process, .timeout, .timeout,
      .timeout, .timeout, .timer, .process, .timeout, .timeout, .timeout]
    (P := fun h _ => (commands (emitted h)).length = 6 ∧
      (h.countP fun e => decide (IsTimer e)) = 2) (by decide)
  obtain ⟨hbus, hle⟩ := bus_safe (Application.init_ofNames 0 _) hr
  exact ⟨h, s, hr, hsent, htimers, hbus, hle⟩

end Signals

end UtisDevice
