import Mathlib.Data.Finset.Insert
import UtisDevice.Machinery.Timed
import UtisDevice.System.Tempo

/-!
# System/Clock — the polls in time

    window   ├─────────────────── 10000 ms ───────────────────┼─────
             ╰▸ poll taken up
    worker      ├─ 500 ─┼─ 500 ─┼─ 500 ─┼─ 500 ─┤ round over

The window's timer asks for a poll, the worker takes it up, and its own timer sends one command a
timeout.  How exact the timers are, and how soon a poll is taken up, is Qt's and the system's, and
is here two numbers; with four timeouts between two polls nothing else is asked of them
(`Precision`).  A round is then over before the window's timer times out again, so that each of its
timeouts has a round of its own (`polls_on_time`), what `getCmd` answers for a device that stays
online is sent every `11500 + 5 * latency` ms (`polled_in_time`), and the bus gets three commands a
period at most (`bus_rate`).
-/

namespace UtisDevice

open Machinery UtisDeviceWorker

/-! ## The timers

The program's own clockwork: what waits for time to pass, and between which two times it ends. -/

/-- What `Widget::initTimer` sets as the interval of `m_timer`. -/
def Widget.timerInterval : ℕ := 10000

/-- What is waited for: the two timers, and that the worker takes up a poll. -/
inductive Alarm
  | window
  | command
  | poll
  deriving DecidableEq

instance : Fintype Alarm := ⟨{.window, .command, .poll}, fun a => by cases a <;> decide⟩

/-- How exact the timers are: the window's may be early by `jitter`, each may be late by `latency`,
and so may the worker be in taking up a poll. -/
structure Precision where
  jitter : ℕ
  latency : ℕ
  fits : jitter + latency + 4 * (startUp.timer.interval + latency) < Widget.timerInterval

namespace Precision

variable (p : Precision)

/-- The longest the command timer may take. -/
def gap : ℕ := startUp.timer.interval + p.latency

/-- `cmdInterval` is 500. -/
theorem gap_eq : p.gap = 500 + p.latency := rfl

theorem jitter_add_lt : p.jitter + p.latency + 4 * p.gap < 10000 := p.fits

/-- The command timer may be early by any time. -/
def alarms : Alarms Application ApplicationInput Alarm where
  isSet s
    | .window => true
    | .command => s.worker.timer.isActive
    | .poll => decide (.signalGetLatestData ∈ s.signals)
  answers s i
    | .window => decide (i = .timer)
    | .command => decide (i = .timeout)
    | .poll => decide (i = .process ∧ s.signals.head? = some .signalGetLatestData)
  early
    | .window => Widget.timerInterval - p.jitter
    | .command => 0
    | .poll => 0
  late
    | .window => Widget.timerInterval + p.latency
    | .command => p.gap
    | .poll => p.latency

/-- The timers within five percent of the window's interval, and half a second for a poll. -/
def coarse : Precision := ⟨500, 500, by decide⟩

/-- The program against the clock. -/
def clocked : Machine (Timed Application Alarm) (TimedInput ApplicationInput) Effect :=
  application.timed p.alarms

end Precision

abbrev ClockedEntry := TimedEntry Application ApplicationInput Effect Alarm

/-- `Widget::init` ends with starting the window's timer. -/
def Application.atZero (s : Application) : Timed Application Alarm := ⟨s, fun _ => 0⟩

/-! ## A round is over in time

From the window's timeout on, a poll waits no longer than `latency`, and then each of three commands
and the end of the round no longer than `gap`: together less than the window's timer takes. -/

section OnTime

variable {p : Precision} {t u : Timed Application Alarm} {i : TimedInput ApplicationInput}
  {out : List Effect}

/-- Whether a poll waits to be taken up. -/
abbrev Polled (s : Application) : Prop := .signalGetLatestData ∈ s.signals

/-! ### What an input rewinds

An alarm that is set goes on waiting through every input but its own. -/

section Rewind

variable {j : ApplicationInput}

theorem rewind_window (hj : j ≠ .timer) : p.alarms.rewind t j .window = t.waited .window :=
  Alarms.rewind_of_isSet rfl (decide_eq_false hj)

theorem rewind_command (ha : t.state.worker.timer.isActive = true) (hj : j ≠ .timeout) :
    p.alarms.rewind t j .command = t.waited .command :=
  Alarms.rewind_of_isSet ha (decide_eq_false hj)

theorem rewind_poll (hp : Polled t.state)
    (hj : j = .process → t.state.signals.head? ≠ some .signalGetLatestData) :
    p.alarms.rewind t j .poll = t.waited .poll :=
  Alarms.rewind_of_isSet (decide_eq_true hp) (decide_eq_false fun h => hj h.1 h.2)

end Rewind

/-! ### The invariant

`round` is the budget: what the round has taken so far, and what the commands left may take. -/

/-- **What holds at any time.**  A poll waits since the window's timer last timed out, and finds the
worker idle; a round out has had its time for each command sent. -/
structure OnTime (p : Precision) (t : Timed Application Alarm) : Prop where
  kept : Kept t.state
  idle : Idle t.state.worker
  punctual : p.alarms.Punctual t
  once : t.state.signals.count .signalGetLatestData ≤ 1
  polled : Polled t.state →
    t.state.worker.timer.isActive = false ∧ t.waited .poll = t.waited .window
  short : t.state.worker.cmdList.length ≤ 3
  round : t.state.worker.timer.isActive = true →
    t.waited .window + t.state.worker.cmdList.length * p.gap
      ≤ p.latency + 3 * p.gap + t.waited .command

/-- A poll that waits is not late yet… -/
theorem OnTime.waited_poll_le (ht : OnTime p t) (hp : Polled t.state) :
    t.waited .poll ≤ p.latency := ht.punctual .poll (decide_eq_true hp)

/-- …nor is a timeout of the command timer. -/
theorem OnTime.waited_command_le (ht : OnTime p t)
    (ha : t.state.worker.timer.isActive = true) : t.waited .command ≤ p.gap :=
  ht.punctual .command ha

/-- **When the window's timer times out, the round before is over**: its poll was taken up, and its
commands are sent. -/
theorem OnTime.quiet_of_early (ht : OnTime p t)
    (hearly : Widget.timerInterval - p.jitter ≤ t.waited .window) :
    ¬ Polled t.state ∧ t.state.worker.timer.isActive = false := by
  have hfits := p.jitter_add_lt
  have hinterval : Widget.timerInterval = 10000 := rfl
  constructor
  · intro hp
    have hwaited := (ht.polled hp).2
    have hlate := ht.waited_poll_le hp
    omega
  · by_contra ha
    have ha : t.state.worker.timer.isActive = true := by simpa using ha
    have hround := ht.round ha
    have hlate := ht.waited_command_le ha
    omega

/-- During a round no poll waits. -/
theorem OnTime.not_polled_of_active (ht : OnTime p t)
    (ha : t.state.worker.timer.isActive = true) : ¬ Polled t.state :=
  fun hp => absurd (ha.symm.trans (ht.polled hp).1) (by simp)

/-- **A poll that finds the worker idle starts a round**, of the devices online. -/
theorem OnTime.taken (ht : OnTime p t) (hinactive : t.state.worker.timer.isActive = false)
    {w : UtisDeviceWorker} (hw : w = t.state.worker.slotGetLatestData) :
    w.timer.isActive = true ∧ w.cmdList = commandList t.state.worker ∧ w.cmdList.length ≤ 3 := by
  have hqueue : w.cmdList = commandList t.state.worker := by
    rw [hw, slotGetLatestData_of_inactive hinactive, ht.idle hinactive, List.nil_append]
    rfl
  refine ⟨by rw [hw, slotGetLatestData_of_inactive hinactive], hqueue, ?_⟩
  rw [hqueue, commandList, List.length_map]
  exact ht.kept.registered.length_le

/-- Time that passes is time both the round and its timers have taken. -/
theorem onTime_wait (ht : OnTime p t) {time : ℕ}
    (hlate : ∀ a, p.alarms.isSet t.state a = true → t.waited a + time ≤ p.alarms.late a) :
    OnTime p (t.later time) where
  kept := ht.kept
  idle := ht.idle
  punctual := hlate
  once := ht.once
  polled hp := ⟨(ht.polled hp).1, congrArg (· + time) (ht.polled hp).2⟩
  short := ht.short
  round ha := by
    have hround := ht.round ha
    change t.waited .window + time + t.state.worker.cmdList.length * p.gap
      ≤ p.latency + 3 * p.gap + (t.waited .command + time)
    omega

/-- An input keeps the budget: the window's timeout finds it spent, a poll opens a new one, and each
command sent gives back the time of one. -/
theorem onTime_act (ht : OnTime p t) {j : ApplicationInput}
    (hearly : ∀ a, p.alarms.answers t.state j a = true → p.alarms.early a ≤ t.waited a)
    (hs : application.step t.state j = some (u.state, out))
    (hw : u.waited = p.alarms.rewind t j) (hpunctual : p.alarms.Punctual u) : OnTime p u := by
  have hkept := kept_step ht.kept hs
  cases tempo_of_step ht.kept hs with
  | timer hpost =>
    obtain ⟨hnone, hinactive⟩ := ht.quiet_of_early (hearly .window rfl)
    have hworker : u.state.worker = t.state.worker := by rw [hpost]; rfl
    have hpoll : u.waited .poll = 0 := by
      rw [hw, Alarms.rewind_of_not_isSet (decide_eq_false hnone)]
    have hwindow : u.waited .window = 0 := by rw [hw, Alarms.rewind_of_answers rfl]
    rw [← hworker] at hinactive
    refine ⟨hkept, hworker ▸ ht.idle, hpunctual, ?_, fun _ => ⟨hinactive, hpoll.trans hwindow.symm⟩,
      hworker ▸ ht.short, fun ha => ?_⟩
    · simp [hpost, Application.timer, List.count_eq_zero.mpr hnone]
    · exact absurd (ha.symm.trans hinactive) (by simp)
  | takeUp hsignals hworker =>
    have hp : Polled t.state := by simp [Polled, hsignals]
    obtain ⟨hinactive, hwaited⟩ := ht.polled hp
    have honce := ht.once
    rw [hsignals, List.count_cons_self] at honce
    have hzero : u.state.signals.count .signalGetLatestData = 0 := by omega
    obtain ⟨hactive, hqueue, hlen⟩ := ht.taken hinactive hworker
    have hwindow : u.waited .window = t.waited .window := by rw [hw, rewind_window (by simp)]
    refine ⟨hkept, fun ha => ?_, hpunctual, hzero.trans_le (Nat.zero_le 1),
      fun h => absurd h (List.count_eq_zero.mp hzero), hlen, fun _ => ?_⟩
    · exact absurd (hactive.symm.trans ha) (by simp)
    · have hlate := ht.waited_poll_le hp
      have hmul := Nat.mul_le_mul_right p.gap hlen
      omega
  | timeout hsignals hactive hworker =>
    have hnone : ¬ Polled u.state := by
      rw [Polled, hsignals]
      exact ht.not_polled_of_active hactive
    have honce : u.state.signals.count .signalGetLatestData ≤ 1 := hsignals ▸ ht.once
    have hround := ht.round hactive
    have hlate := ht.waited_command_le hactive
    have hwindow : u.waited .window = t.waited .window := by rw [hw, rewind_window (by simp)]
    obtain ⟨cmd, cmds, hq, hpost, -⟩ | ⟨hq, hpost, -⟩ :=
      timeout_cases (ht.kept.started_of_active ht.idle hactive) hworker
    · have hshort := ht.short
      have hcmds : u.state.worker.cmdList = cmds := by rw [hpost]
      rw [hq, List.length_cons] at hshort
      rw [hq, List.length_cons, Nat.succ_mul] at hround
      refine ⟨hkept, fun ha => ?_, hpunctual, honce, fun h => absurd h hnone, ?_, fun _ => ?_⟩
      · rw [hpost] at ha
        exact absurd (hactive.symm.trans ha) (by simp)
      · rw [hcmds]
        omega
      · rw [hcmds, hwindow]
        omega
    · have hcmds : u.state.worker.cmdList = [] := by rw [hpost, hq]
      refine ⟨hkept, fun _ => hcmds, hpunctual, honce, fun h => absurd h hnone, by simp [hcmds],
        fun ha => ?_⟩
      rw [hpost] at ha
      exact absurd ha (by simp)
  | quiet htimer htimeout hhead hpolls hactive hqueue =>
    have hp : Polled u.state → Polled t.state := by
      rw [Polled, Polled, ← List.count_pos_iff, ← List.count_pos_iff, hpolls]
      exact id
    refine ⟨hkept, fun ha => ?_, hpunctual, hpolls ▸ ht.once, fun h => ?_, hqueue ▸ ht.short,
      fun ha => ?_⟩
    · rw [hqueue]
      exact ht.idle (hactive ▸ ha)
    · obtain ⟨hinactive, hwaited⟩ := ht.polled (hp h)
      refine ⟨hactive.trans hinactive, ?_⟩
      rw [hw, rewind_poll (hp h) hhead, rewind_window htimer, hwaited]
    · have hround := ht.round (hactive ▸ ha)
      rwa [hw, hqueue, rewind_window htimer, rewind_command (hactive.symm.trans ha) htimeout]

theorem onTime_step (ht : OnTime p t) (hs : p.clocked.step t i = some (u, out)) : OnTime p u := by
  have hpunctual := punctual_step ht.punctual hs
  obtain ⟨time, -, hlate, rfl, -⟩ | ⟨j, v, -, hearly, hv, rfl⟩ := timed_cases hs
  · exact onTime_wait ht hlate
  · exact onTime_act ht hearly hv rfl hpunctual

variable {count : ℤ} {cfg : Option QSettings} {s₀ : Application} {h : List ClockedEntry}

theorem onTime_init (hinit : Application.init count cfg = some s₀) : OnTime p s₀.atZero := by
  have hkept := kept_init hinit
  have hnone := count_init hinit
  obtain ⟨r, -, rfl⟩ := Option.map_eq_some_iff.mp hinit
  refine ⟨hkept, fun _ => rfl, fun a _ => Nat.zero_le _, hnone.trans_le (Nat.zero_le 1),
    fun hp => ?_, Nat.zero_le _, fun ha => ?_⟩
  · exact absurd hp (List.count_eq_zero.mp hnone)
  · exact absurd ha Bool.false_ne_true

/-- **At any time of a run the round is on time.** -/
theorem onTime_of_run (hinit : Application.init count cfg = some s₀)
    (hr : p.clocked.Run s₀.atZero h t) : OnTime p t :=
  hr.invariant (OnTime p) (onTime_init hinit) onTime_step

/-! ## Every poll has its round

Since each poll finds the worker idle, none is ignored, and the queue is filled by all of them. -/

/-- The polls the worker takes up. -/
def pollsTaken (h : List ClockedEntry) : List WorkerEntry :=
  ((h.filterMap actEntry).filterMap startedEntry).filter fun e => decide (IsPoll e)

/-- A poll is taken up where one waits. -/
theorem polled_of_startedEntry {e : ApplicationEntry} {we : WorkerEntry}
    (he : startedEntry e = some we) (hpoll : IsPoll we) : Polled e.pre ∧ we.pre = e.pre.worker := by
  obtain ⟨pre, i, out, post⟩ := e
  obtain ⟨wi, hwi, rfl⟩ := Option.map_eq_some_iff.mp he
  obtain rfl : wi = .slotGetLatestData := hpoll
  refine ⟨?_, rfl⟩
  cases i with
  | process =>
    obtain ⟨signal, hsignal, hslot⟩ := Option.bind_eq_some_iff.mp hwi
    obtain rfl : signal = .signalGetLatestData := by
      cases signal <;> simp [UtisDeviceSignal.slot?] at hslot ⊢
    exact List.mem_of_head? hsignal
  | openBtn row => simp [workerInput, ApplicationInput.outer] at hwi
  | clearBtn => simp [workerInput, ApplicationInput.outer] at hwi
  | edit history => simp [workerInput, ApplicationInput.outer] at hwi
  | timer => simp [workerInput, ApplicationInput.outer] at hwi
  | timeout => simp [workerInput, ApplicationInput.outer] at hwi
  | datagram d => simp [workerInput, ApplicationInput.outer] at hwi
  | slotReadyRead => simp [workerInput, ApplicationInput.outer] at hwi
  | deliver => simp [workerInput, ApplicationInput.outer] at hwi

/-- Each finds the worker idle. -/
theorem inactive_of_pollsTaken (hinit : Application.init count cfg = some s₀)
    (hr : p.clocked.Run s₀.atZero h t) :
    ∀ e ∈ pollsTaken h, e.pre.timer.isActive = false := by
  intro we hwe
  obtain ⟨hwe, hpoll⟩ := List.mem_filter.mp hwe
  obtain ⟨e, he, hstarted⟩ := List.mem_filterMap.mp hwe
  obtain ⟨te, hte, hact⟩ := List.mem_filterMap.mp he
  obtain ⟨pre, post, rfl⟩ := List.append_of_mem hte
  have hontime := onTime_of_run hinit hr.step_at.1
  obtain ⟨hp, hpre⟩ := polled_of_startedEntry hstarted (of_decide_eq_true hpoll)
  obtain ⟨before, i, out, after⟩ := te
  cases i with
  | wait time => simp [actEntry] at hact
  | act j =>
    obtain rfl := Option.some.inj hact
    rw [hpre]
    exact (hontime.polled hp).1

/-- The timeouts of the window's timer, with and without the clock. -/
theorem timers_actEntry (p : Precision) (h : List ClockedEntry) :
    ((h.filterMap actEntry).countP fun e => decide (IsTimer e))
      = h.countP (p.alarms.isAnswer .window) := by
  rw [List.countP_filterMap]
  refine List.countP_congr fun e _ => ?_
  obtain ⟨pre, i, out, post⟩ := e
  cases i <;> rfl

/-- The longest it may take until a command is sent, that of a device that stays online: it is in
the queue, or it comes with a poll that waits, or with the next. -/
def Precision.remaining (p : Precision) (c : QByteArray) (t : Timed Application Alarm) : ℕ :=
  if c ∈ t.state.worker.cmdList then
    (t.state.worker.cmdList.idxOf c + 1) * p.gap - t.waited .command
  else if Polled t.state then p.latency - t.waited .poll + 3 * p.gap
  else Widget.timerInterval + p.latency - t.waited .window + (p.latency + 3 * p.gap)

section Remaining

variable {c : QByteArray}

theorem remaining_of_mem (hc : c ∈ t.state.worker.cmdList) : p.remaining c t =
    (t.state.worker.cmdList.idxOf c + 1) * p.gap - t.waited .command := if_pos hc

theorem remaining_of_polled (hc : c ∉ t.state.worker.cmdList) (hp : Polled t.state) :
    p.remaining c t = p.latency - t.waited .poll + 3 * p.gap := by
  rw [Precision.remaining, if_neg hc, if_pos hp]

theorem remaining_of_not_polled (hc : c ∉ t.state.worker.cmdList) (hp : ¬ Polled t.state) :
    p.remaining c t =
      Widget.timerInterval + p.latency - t.waited .window + (p.latency + 3 * p.gap) := by
  rw [Precision.remaining, if_neg hc, if_neg hp]

/-- What remains depends on the queue, on whether a poll waits, and on the alarms that are set. -/
theorem remaining_congr (hqueue : u.state.worker.cmdList = t.state.worker.cmdList)
    (hpolled : Polled u.state ↔ Polled t.state)
    (hcommand : c ∈ t.state.worker.cmdList → u.waited .command = t.waited .command)
    (hpoll : Polled t.state → u.waited .poll = t.waited .poll)
    (hwindow : u.waited .window = t.waited .window) : p.remaining c u = p.remaining c t := by
  by_cases hc : c ∈ t.state.worker.cmdList
  · rw [remaining_of_mem hc, remaining_of_mem (hqueue ▸ hc), hqueue, hcommand hc]
  · have hc' : c ∉ u.state.worker.cmdList := hqueue ▸ hc
    by_cases hp : Polled t.state
    · rw [remaining_of_polled hc hp, remaining_of_polled hc' (hpolled.mpr hp), hpoll hp]
    · rw [remaining_of_not_polled hc hp, remaining_of_not_polled hc' (mt hpolled.mp hp), hwindow]

/-- A command waits in a round only. -/
theorem OnTime.active_of_mem (ht : OnTime p t) (hc : c ∈ t.state.worker.cmdList) :
    t.state.worker.timer.isActive = true := by
  by_contra ha
  rw [ht.idle (by simpa using ha)] at hc
  exact absurd hc (by simp)

/-- A command is no further back than third. -/
theorem idxOf_mul_le {cs : List QByteArray} (hc : c ∈ cs) (hlen : cs.length ≤ 3) (g : ℕ) :
    (cs.idxOf c + 1) * g ≤ 3 * g := by
  have hidx := List.idxOf_lt_length_of_mem hc
  exact Nat.mul_le_mul_right g (by omega)

/-- **What remains is bounded**, wherever the command is. -/
theorem OnTime.remaining_le (ht : OnTime p t) : p.remaining c t ≤ 11500 + 5 * p.latency := by
  have hinterval : Widget.timerInterval = 10000 := rfl
  have hgap := p.gap_eq
  by_cases hc : c ∈ t.state.worker.cmdList
  · rw [remaining_of_mem hc]
    have hmul := idxOf_mul_le hc ht.short p.gap
    omega
  · by_cases hp : Polled t.state
    · rw [remaining_of_polled hc hp]
      omega
    · rw [remaining_of_not_polled hc hp]
      omega

/-- Waiting takes its time off what remains. -/
theorem remaining_wait (ht : OnTime p t) {time : ℕ}
    (hlate : ∀ a, p.alarms.isSet t.state a = true → t.waited a + time ≤ p.alarms.late a) :
    time + p.remaining c (t.later time) ≤ p.remaining c t := by
  by_cases hc : c ∈ t.state.worker.cmdList
  · have hcommand : t.waited .command + time ≤ p.gap := hlate .command (ht.active_of_mem hc)
    have hlater : p.remaining c (t.later time) =
      (t.state.worker.cmdList.idxOf c + 1) * p.gap - (t.waited .command + time) :=
        remaining_of_mem hc
    rw [hlater, remaining_of_mem hc, Nat.succ_mul]
    omega
  · by_cases hp : Polled t.state
    · have hpoll : t.waited .poll + time ≤ p.latency := hlate .poll (decide_eq_true hp)
      have hlater : p.remaining c (t.later time) =
        p.latency - (t.waited .poll + time) + 3 * p.gap := remaining_of_polled hc hp
      rw [hlater, remaining_of_polled hc hp]
      omega
    · have hwindow : t.waited .window + time ≤ Widget.timerInterval + p.latency :=
        hlate .window rfl
      have hlater : p.remaining c (t.later time) =
        Widget.timerInterval + p.latency - (t.waited .window + time) + (p.latency + 3 * p.gap) :=
        remaining_of_not_polled hc hp
      rw [hlater, remaining_of_not_polled hc hp]
      omega

/-- …and no input adds to what remains for a device that stays online, unless it is polled. -/
theorem remaining_act (ht : OnTime p t) {d : AShuErDevive} (hd : d ∈ t.state.worker.onlineDev)
    {j : ApplicationInput} (hs : application.step t.state j = some (u.state, out))
    (hw : u.waited = p.alarms.rewind t j) (hsent : d.getCmd ∉ commands out) :
    p.remaining d.getCmd u ≤ p.remaining d.getCmd t := by
  cases tempo_of_step ht.kept hs with
  | timer hpost =>
    have hworker : u.state.worker = t.state.worker := by rw [hpost]; rfl
    have hpolled : Polled u.state := by simp [hpost, Application.timer, Polled]
    by_cases hc : d.getCmd ∈ t.state.worker.cmdList
    · rw [remaining_of_mem hc, remaining_of_mem (hworker ▸ hc), hw, hworker,
        rewind_command (ht.active_of_mem hc) (by simp)]
    · rw [remaining_of_polled (hworker ▸ hc) hpolled]
      by_cases hp : Polled t.state
      · rw [remaining_of_polled hc hp, hw, rewind_poll hp (by simp)]
      · rw [remaining_of_not_polled hc hp]
        omega
  | takeUp hsignals hworker =>
    have hp : Polled t.state := by simp [Polled, hsignals]
    have hinactive := (ht.polled hp).1
    obtain ⟨-, hqueue, hlen⟩ := ht.taken hinactive hworker
    have hc : d.getCmd ∈ u.state.worker.cmdList := hqueue ▸ List.mem_map_of_mem hd
    have hnone : d.getCmd ∉ t.state.worker.cmdList := by simp [ht.idle hinactive]
    have hmul := idxOf_mul_le hc hlen p.gap
    rw [remaining_of_mem hc, remaining_of_polled hnone hp]
    omega
  | timeout hsignals hactive hworker =>
    have hp : ¬ Polled t.state := ht.not_polled_of_active hactive
    have hp' : ¬ Polled u.state := by rwa [Polled, hsignals]
    have hlate := ht.waited_command_le hactive
    have hwindow : u.waited .window = t.waited .window := by rw [hw, rewind_window (by simp)]
    obtain ⟨cmd, cmds, hq, hpost, hout⟩ | ⟨hq, hpost, -⟩ :=
      timeout_cases (ht.kept.started_of_active ht.idle hactive) hworker
    · have hne : cmd ≠ d.getCmd := by
        rintro rfl
        exact hsent (by simp [hout, commands, Effect.command?, List.filterMap_cons])
      have hcmds : u.state.worker.cmdList = cmds := by rw [hpost]
      by_cases hc : d.getCmd ∈ cmds
      · -- one further to the front, with the timer wound up again
        rw [remaining_of_mem (hcmds ▸ hc), remaining_of_mem (hq ▸ List.mem_cons_of_mem _ hc), hq,
          List.idxOf_cons_ne _ hne, hcmds, Nat.succ_mul (_ + 1)]
        omega
      · rw [remaining_of_not_polled (hcmds ▸ hc) hp',
          remaining_of_not_polled (by simp [hq, hc, Ne.symm hne]) hp, hwindow]
    · have hnone : d.getCmd ∉ t.state.worker.cmdList := by simp [hq]
      have hnone' : d.getCmd ∉ u.state.worker.cmdList := by simp [hpost, hq]
      rw [remaining_of_not_polled hnone' hp', remaining_of_not_polled hnone hp, hwindow]
  | quiet htimer htimeout hhead hpolls hactive hqueue =>
    have hpolled : Polled u.state ↔ Polled t.state := by
      rw [Polled, Polled, ← List.count_pos_iff, ← List.count_pos_iff, hpolls]
    refine (remaining_congr hqueue hpolled (fun hc => ?_) (fun hp => ?_) ?_).le
    · rw [hw, rewind_command (ht.active_of_mem hc) htimeout]
    · rw [hw, rewind_poll hp hhead]
    · rw [hw, rewind_window htimer]

/-- **A step takes its time off what remains**, unless the command is sent. -/
theorem remaining_step (ht : OnTime p t) {d : AShuErDevive} (hd : d ∈ t.state.worker.onlineDev)
    (hs : p.clocked.step t i = some (u, out)) (hsent : d.getCmd ∉ commands out) :
    duration (⟨t, i, out, u⟩ : ClockedEntry) + p.remaining d.getCmd u
      ≤ p.remaining d.getCmd t := by
  obtain ⟨time, rfl, hlate, rfl, -⟩ | ⟨j, v, rfl, -, hv, rfl⟩ := timed_cases hs
  · exact remaining_wait ht hlate
  · rw [duration, Nat.zero_add]
    exact remaining_act ht hd hv rfl hsent

end Remaining

/-- **A device that stays online is polled in time**: in any stretch of a run that takes longer than
`11500 + 5 * latency` ms, with the device online throughout, the bytes `getCmd` answers for it are
sent. -/
theorem polled_in_time (hinit : Application.init count cfg = some s₀) {h₀ : List ClockedEntry}
    (hr : p.clocked.Run s₀.atZero (h₀ ++ h) t) {d : AShuErDevive}
    (honline : ∀ e ∈ h, d ∈ e.pre.state.worker.onlineDev)
    (hlong : 11500 + 5 * p.latency < elapsed h) : ∃ e ∈ h, d.getCmd ∈ commands e.out := by
  obtain ⟨t₀, hr₀, hr⟩ := hr.split
  refine hr.exists_of_elapsed (R := p.remaining d.getCmd) (fun e he hsent => ?_)
    ((onTime_of_run hinit hr₀).remaining_le.trans_lt hlong)
  have hd := honline e he
  obtain ⟨pre, post, rfl⟩ := List.append_of_mem he
  obtain ⟨hpre, hs, -⟩ := hr.step_at
  exact remaining_step (onTime_of_run hinit (hr₀.append hpre)) hd hs hsent

/-- Closed and opened again before the stretch begins. -/
theorem polled_in_time_run : ∃ h₀ h t,
    Precision.coarse.clocked.Run (Application.ofNames ["MWS600"]).atZero (h₀ ++ h) t ∧
    elapsed h = 14400 ∧ ∃ e ∈ h, cmdMWS600Read ∈ commands e.out := by
  obtain ⟨h, t, hr, honline, hlong⟩ := Machine.exists_run (M := Precision.coarse.clocked)
    (s := (Application.ofNames ["MWS600"]).atZero)
    [.act .process, .act .process, .act .deliver, .act .deliver, .wait 9000, .act (.openBtn 0),
      .act .process, .act .deliver, .act .deliver, .act (.openBtn 0), .act .process, .wait 1000,
      .act .timer, .act .process, .wait 900, .act .timeout, .wait 900, .act .timeout, .wait 8000,
      .act .timer, .wait 100, .act .process, .wait 500, .act .timeout, .wait 1000, .act .timeout,
      .wait 2000]
    (P := fun h _ => (∀ e ∈ h.drop 11, .new "MWS600" ∈ e.pre.state.worker.onlineDev) ∧
      elapsed (h.drop 11) = 14400) (by decide)
  rw [← List.take_append_drop 11 h] at hr
  exact ⟨h.take 11, h.drop 11, t, hr, hlong,
    polled_in_time (Application.init_ofNames 0 _) hr honline (by rw [hlong]; decide)⟩

/-- **The bus is not flooded**: three commands are sent at most for each `10000 - jitter` ms.  As
long as the timers fit, of their precision only the jitter counts. -/
theorem bus_rate (hinit : Application.init count cfg = some s₀)
    (hr : p.clocked.Run s₀.atZero h t) :
    (commands (emitted h)).length * (10000 - p.jitter) ≤ 3 * elapsed h := by
  have hsent := length_commands_le_timers hinit hr.untimed
  rw [emitted_actEntry hr, timers_actEntry p] at hsent
  have htimers : h.countP (p.alarms.isAnswer .window) * (10000 - p.jitter) + t.waited .window
      ≤ elapsed h + 0 := answers_mul_early_le .window hr
  calc (commands (emitted h)).length * (10000 - p.jitter)
      ≤ 3 * h.countP (p.alarms.isAnswer .window) * (10000 - p.jitter) :=
        Nat.mul_le_mul_right _ hsent
    _ = 3 * (h.countP (p.alarms.isAnswer .window) * (10000 - p.jitter)) := Nat.mul_assoc ..
    _ ≤ 3 * elapsed h := Nat.mul_le_mul_left 3 (by omega)

/-- Three commands just after the first timeout. -/
theorem bus_rate_run : ∃ h t,
    Precision.coarse.clocked.Run (Application.ofNames ["MWS600", "RD3000C", "VD920G"]).atZero h t ∧
    (commands (emitted h)).length = 3 ∧ 3 * 9500 ≤ 3 * elapsed h := by
  obtain ⟨h, t, hr, hlen⟩ := Machine.exists_run (M := Precision.coarse.clocked)
    (s := (Application.ofNames ["MWS600", "RD3000C", "VD920G"]).atZero)
    [.act .process, .act .process, .act .process, .act .process, .wait 9500, .act .timer,
      .act .process, .wait 500, .act .timeout, .wait 500, .act .timeout, .wait 500, .act .timeout]
    (P := fun h _ => (commands (emitted h)).length = 3) (by decide)
  have hrate := bus_rate (Application.init_ofNames 0 _) hr
  exact ⟨h, t, hr, hlen, by rwa [hlen] at hrate⟩

end OnTime

end UtisDevice
