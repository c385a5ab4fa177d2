import UtisDevice.System.Bus

/-!
# System/Tempo — what a step does to the round

    timer:   a poll is posted          process:  it is taken up, and its commands queued
    timeout: a command is sent, or the round is over

To the polls, the command timer and the queue a step of the program is one of these or nothing
(`tempo_of_step`); and what was queued is sent or waits (`commands_flow`).
-/

namespace UtisDevice

open Machinery UtisDeviceWorker

/-! ## The steps of a round -/

/-- The queue of a worker whose timer is stopped is empty, started or not. -/
def Idle (w : UtisDeviceWorker) : Prop := w.timer.isActive = false → w.cmdList = []

section Tempo

variable {s s' : Application} {i : ApplicationInput} {out : List Effect}

theorem Kept.started_of_active (hk : Kept s) (hidle : Idle s.worker)
    (ha : s.worker.timer.isActive = true) : Started s.worker := by
  refine ⟨?_, hidle⟩
  rcases hk.start with ⟨hstarted, -⟩ | ⟨hnew, -⟩
  · exact hstarted
  · rw [hnew] at ha
    exact absurd ha (by decide)

/-- **What a step does to the round**: it asks for a poll, takes one up, is a timeout of the command
timer, or leaves the polls, the timer and the queue alone. -/
inductive Tempo (s s' : Application) (out : List Effect) : ApplicationInput → Prop
  | timer (hpost : s' = s.timer) : Tempo s s' out .timer
  | takeUp (hsignals : s.signals = .signalGetLatestData :: s'.signals)
      (hworker : s'.worker = s.worker.slotGetLatestData) : Tempo s s' out .process
  | timeout (hsignals : s'.signals = s.signals) (hactive : s.worker.timer.isActive = true)
      (hworker : s.worker.timeout = (s'.worker, out)) : Tempo s s' out .timeout
  | quiet {i : ApplicationInput} (htimer : i ≠ .timer) (htimeout : i ≠ .timeout)
      (hhead : i = .process → s.signals.head? ≠ some .signalGetLatestData)
      (hpolls : s'.signals.count .signalGetLatestData = s.signals.count .signalGetLatestData)
      (hactive : s'.worker.timer.isActive = s.worker.timer.isActive)
      (hqueue : s'.worker.cmdList = s.worker.cmdList) : Tempo s s' out i

/-- A worker that is not polled and does not time out keeps its timer and its queue. -/
theorem round_of_step {w w' : UtisDeviceWorker} {wi : WorkerInput}
    (hs : worker.step w wi = some (w', out)) (hpoll : wi ≠ .slotGetLatestData)
    (htimeout : wi ≠ .timeout) : w'.timer = w.timer ∧ w'.cmdList = w.cmdList := by
  obtain ⟨-, ⟨devs, rfl⟩, -⟩ | ⟨hi, -⟩ | ⟨hi, -⟩ | ⟨d, socket, -, -, rfl, -⟩ |
    ⟨socket, -, -, rfl, -⟩ := worker_cases hs
  · exact ⟨rfl, rfl⟩
  · exact absurd hi hpoll
  · exact absurd hi htimeout
  · exact ⟨rfl, rfl⟩
  · exact ⟨rfl, rfl⟩

theorem tempo_of_process {signal : UtisDeviceSignal} {signals : List UtisDeviceSignal}
    (hk : Kept s) (hsignals : s.signals = signal :: signals) {w : UtisDeviceWorker}
    (hslot : utisDeviceSlots.step s.worker signal = some (w, out)) :
    Tempo s ({ s with signals := signals }.works (w, out)).1 out .process := by
  by_cases hpoll : signal = .signalGetLatestData
  · subst hpoll
    obtain ⟨-, -, ⟨hstart, -⟩ | ⟨wi, hwi, -, hw⟩⟩ := hk.process_cases hsignals hslot
    · exact absurd hstart (by simp)
    · obtain rfl := Option.some.inj hwi
      obtain ⟨rfl, -⟩ := Prod.mk.inj (Option.some.inj hw)
      exact .takeUp hsignals rfl
  · have hround : w.timer.isActive = s.worker.timer.isActive ∧ w.cmdList = s.worker.cmdList := by
      obtain ⟨-, -, ⟨-, hnew, rfl, -⟩ | ⟨wi, hwi, -, hw⟩⟩ := hk.process_cases hsignals hslot
      · rw [hnew]
        exact ⟨rfl, rfl⟩
      · have hne : wi ≠ .slotGetLatestData ∧ wi ≠ .timeout := by
          cases signal with
          | signalStart => simp [UtisDeviceSignal.slot?] at hwi
          | signalGetLatestData => exact absurd rfl hpoll
          | signalAddDev n => obtain rfl := Option.some.inj hwi; simp
          | signalDelDev n => obtain rfl := Option.some.inj hwi; simp
        obtain ⟨htimer, hqueue⟩ := round_of_step hw hne.1 hne.2
        exact ⟨by rw [htimer], hqueue⟩
    refine .quiet (by simp) (by simp) (fun _ => by simpa [hsignals] using hpoll) ?_ hround.1
      hround.2
    simp [Application.works, hsignals, hpoll]

theorem tempo_of_step (hk : Kept s) (hs : application.step s i = some (s', out)) :
    Tempo s s' out i := by
  cases advance_of_step hs with
  | @openBtn row msg request =>
    exact .quiet (by simp) (by simp) (by simp) (by simp [request.signal_ne_poll]) rfl rfl
  | clearBtn => exact .quiet (by simp) (by simp) (by simp) rfl rfl rfl
  | edit => exact .quiet (by simp) (by simp) (by simp) rfl rfl rfl
  | timer => exact .timer rfl
  | @process signal signals w out hsignals hslot =>
    exact tempo_of_process hk hsignals hslot
  | @occur i wi w out hi hw =>
    cases i <;> simp only [ApplicationInput.outer, Option.some.injEq, reduceCtorEq] at hi <;>
      subst hi
    · obtain ⟨hactive, ht⟩ : s.worker.timer.isActive = true ∧ s.worker.timeout = (w, out) := by
        simpa [worker] using hw
      exact .timeout rfl hactive ht
    all_goals
      obtain ⟨htimer, hqueue⟩ := round_of_step hw (by simp) (by simp)
      exact .quiet (by simp) (by simp) (by simp) rfl (congrArg QTimer.isActive htimer) hqueue
  | shown => exact .quiet (by simp) (by simp) (by simp) rfl rfl rfl
  | answered => exact .quiet (by simp) (by simp) (by simp) rfl rfl rfl

end Tempo

/-! ## The queue -/

section Queue

variable {count : ℤ} {cfg : Option QSettings} {s₀ s : Application} {h : List ApplicationEntry}

/-- The worker has nothing to send before it is started. -/
theorem Kept.started_cmdList (hk : Kept s) : s.started.cmdList = s.worker.cmdList := by
  rcases hk.start with ⟨hstarted, -⟩ | ⟨hnew, -⟩
  · rw [Application.started_eq hstarted]
  · rw [Application.started, hnew]
    rfl

/-- **What is sent and what is queued**, poll by poll. -/
theorem commands_flow (hinit : Application.init count cfg = some s₀)
    (hr : application.Run s₀ h s) :
    commands (emitted h) ++ s.worker.cmdList = (snapshots (h.filterMap startedEntry)).flatten := by
  have hsent := sent_append_cmdList (worker_of_application hinit hr)
  rwa [emitted_started hinit hr, (kept_of_run hinit hr).started_cmdList] at hsent

theorem idle_of_run (hinit : Application.init count cfg = some s₀) (hr : application.Run s₀ h s) :
    Idle s.worker := by
  intro hinactive
  rcases (kept_of_run hinit hr).start with ⟨hstarted, -⟩ | ⟨hnew, -⟩
  · have hworker := worker_of_application hinit hr
    rw [Application.started_eq hstarted] at hworker
    exact (started_of_reaches hworker.reaches).cmdList hinactive
  · rw [hnew]

end Queue

end UtisDevice
