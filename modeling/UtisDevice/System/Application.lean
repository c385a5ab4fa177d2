import UtisDevice.Machinery.Diamond
import UtisDevice.System.Range
import UtisDevice.System.Restart
import UtisDevice.Worker.Messages

/-!
# System/Application — the whole program

      buttons, m_timer                       network, command timer
             │                                         │
             ▾                                         ▾
          window ────────────signals──────────────▸ worker ──▸ bus
          │    ▴                                      │
          ▾    └──────────────notices─────────────────┘
       history

`Widget::init` posts everything start-up asks for; from then on each thread takes up what is posted
to it one by one, between clicks and timeouts.  Both `showMsg` and `signalAddDevResult` of the
worker go through one queue, so the window sees them in the order they were emitted;
`signalLatestDataReady` is connected to nothing.

A slot is one step: what it emits, the datagram it writes and the change it makes to the registry
are seen together.  In the program the window's thread may take up a slot's first notice while the
slot is still running; the queues keep their order all the same, and the two threads share nothing
else, but a moment between two emits of one slot is no state here.

What `Kept` says of a state holds throughout, and is enough for no slot to fail: the worker is
started before it is asked for anything, and the rows are in range.  So the two threads always get
through what is posted — to the same end, in whatever order they take turns (`drains_one_way`).
-/

namespace UtisDevice

open Machinery UtisDeviceWorker

/-! ## The machine -/

/-- What the worker posts to the window. -/
inductive Notice
  | showMsg (msg : String)
  | signalAddDevResult (devType : String) (success : Bool)
  deriving DecidableEq, Repr

def Effect.notice? : Effect → Option Notice
  | .showMsg msg => some (.showMsg msg)
  | .signalAddDevResult devType success => some (.signalAddDevResult devType success)
  | _ => none

/-- What some effects post to the window, in order. -/
def notices (out : List Effect) : List Notice := out.filterMap Effect.notice?

@[simp] theorem notices_nil : notices [] = [] := rfl

@[simp] theorem notices_append (o o' : List Effect) : notices (o ++ o') = notices o ++ notices o' :=
  List.filterMap_append

/-- The signal of `utisDevice` a request is. -/
def Request.signal : Request → UtisDeviceSignal
  | signalAddDev devType => .signalAddDev devType
  | signalDelDev devType => .signalDelDev devType

/-- The window with its message log, the worker, and what is posted from one to the other. -/
structure Application where
  widget : Widget
  history : List String
  signals : List UtisDeviceSignal
  worker : UtisDeviceWorker
  notices : List Notice
  deriving DecidableEq, Repr

inductive ApplicationInput
  /-- A click on the button of a row. -/
  | openBtn (row : ℕ)
  | clearBtn
  /-- The message log is not read-only: it can be typed over. -/
  | edit (history : List String)
  /-- The timeout of the window's `m_timer`, which never stops. -/
  | timer
  /-- The worker takes up the next signal. -/
  | process
  /-- The timeout of the worker's `m_timer`. -/
  | timeout
  | datagram (d : QByteArray)
  | slotReadyRead
  /-- The window takes up the next notice. -/
  | deliver
  deriving DecidableEq, Repr

namespace Application

/-- What the worker has done: its state, and what it posts to the window. -/
def works (s : Application) (r : UtisDeviceWorker × List Effect) : Application × List Effect :=
  ({ s with worker := r.1, notices := s.notices ++ UtisDevice.notices r.2 }, r.2)

/-- `Widget::showMsg`; the log is kept by messages, not by lines. -/
def showMsg (s : Application) (msg : String) : Application :=
  { s with history := s.history ++ [msg] }

def on_clearBtn_clicked (s : Application) : Application := { s with history := [] }

/-- The lambda `Widget::initTimer` connects to the timeout of `m_timer`. -/
def timer (s : Application) : Application :=
  { s with signals := s.signals ++ [.signalGetLatestData] }

/-- `Widget::init`, where `count` is what the count was before.  `initHttpServer` starts a thread of
its own; `none` is an access to a row out of range. -/
def init (count : ℤ) (cfg : Option QSettings) : Option Application :=
  let built := (⟨count, []⟩ : Widget).initCfg cfg
  built.1.initHuaYunDevice.map fun r =>
    { widget := built.1
      history := built.2 ++ [r.1]
      signals := .signalStart :: r.2.map Request.signal
      worker := {}
      notices := [] }

/-- The program after `init`, for a `cfg.ini` that lists some names. -/
def ofNames (names : List String) : Application where
  widget := .ofNames names
  history := [toString (names.length : ℤ)]
  signals := .signalStart :: names.map .signalAddDev
  worker := {}
  notices := []

theorem init_ofNames (count : ℤ) (names : List String) :
    init count (some (.ofNames names)) = some (ofNames names) := by
  have hwidget : ((⟨count, []⟩ : Widget).initCfg (some (.ofNames names))).1 = .ofNames names := by
    rw [Widget.ofNames, Widget.initCfg_some, Widget.initCfg_some]
  have hcount : (Widget.ofNames names).huaYunDevCount = names.length := by
    rw [Widget.ofNames, Widget.initCfg_some]
    rfl
  have hmsgs : ((⟨count, []⟩ : Widget).initCfg (some (.ofNames names))).2 = [] := by
    simp only [Widget.initCfg, QSettings.ofNames, Option.getD_some]
    exact if_neg (by omega)
  simp only [init, hwidget, hmsgs, Widget.initHuaYunDevice_eq (Widget.counted_ofNames names),
    Widget.rows_ofNames, Option.map_some, hcount]
  simp [ofNames, Request.signal, Function.comp_def]

end Application

/-- The two threads, in steps of whole slots.  The program emits what the worker emits. -/
def application : Machine Application ApplicationInput Effect where
  step s
    | .openBtn row => (s.widget.click row).map fun r =>
      ({ s.showMsg r.1 with signals := s.signals ++ [r.2.signal] }, [])
    | .clearBtn => some (s.on_clearBtn_clicked, [])
    | .edit history => some ({ s with history := history }, [])
    | .timer => some (s.timer, [])
    | .process =>
      match s.signals with
      | [] => none
      | signal :: signals =>
        (utisDeviceSlots.step s.worker signal).map { s with signals := signals }.works
    | .timeout => (worker.step s.worker .timeout).map s.works
    | .datagram d => (worker.step s.worker (.datagram d)).map s.works
    | .slotReadyRead => (worker.step s.worker .slotReadyRead).map s.works
    | .deliver =>
      match s.notices with
      | [] => none
      | .showMsg msg :: notices => some ({ s with notices := notices }.showMsg msg, [])
      | .signalAddDevResult devType success :: notices =>
        (s.widget.signalAddDevResult devType success).map fun widget =>
          ({ s with widget := widget, notices := notices }, [])

abbrev ApplicationEntry := Entry Application ApplicationInput Effect

/-! ## Taking a step apart -/

/-- What happens to the worker from outside the program. -/
def ApplicationInput.outer : ApplicationInput → Option WorkerInput
  | timeout => some .timeout
  | datagram d => some (.datagram d)
  | slotReadyRead => some .slotReadyRead
  | _ => none

def ApplicationInput.isClick : ApplicationInput → Bool
  | openBtn _ => true
  | _ => false

/-- **All a step can do.** -/
inductive Advance (s : Application) : ApplicationInput → Application → List Effect → Prop
  | openBtn {row : ℕ} {msg : String} {request : Request}
      (hclick : s.widget.click row = some (msg, request)) :
      Advance s (.openBtn row) { s.showMsg msg with signals := s.signals ++ [request.signal] } []
  | clearBtn : Advance s .clearBtn s.on_clearBtn_clicked []
  | edit {history : List String} : Advance s (.edit history) { s with history := history } []
  | timer : Advance s .timer s.timer []
  | process {signal : UtisDeviceSignal} {signals : List UtisDeviceSignal} {w : UtisDeviceWorker}
      {out : List Effect} (hsignals : s.signals = signal :: signals)
      (hslot : utisDeviceSlots.step s.worker signal = some (w, out)) :
      Advance s .process ({ s with signals := signals }.works (w, out)).1 out
  | occur {i : ApplicationInput} {wi : WorkerInput} {w : UtisDeviceWorker} {out : List Effect}
      (hi : i.outer = some wi) (hs : worker.step s.worker wi = some (w, out)) :
      Advance s i (s.works (w, out)).1 out
  | shown {msg : String} {notices : List Notice} (hnotices : s.notices = .showMsg msg :: notices) :
      Advance s .deliver ({ s with notices := notices }.showMsg msg) []
  | answered {n : String} {success : Bool} {notices : List Notice} {widget : Widget}
      (hnotices : s.notices = .signalAddDevResult n success :: notices)
      (hset : s.widget.signalAddDevResult n success = some widget) :
      Advance s .deliver { s with widget := widget, notices := notices } []

section Inversion

variable {s s' : Application} {i : ApplicationInput} {out : List Effect}

theorem Advance.of_occur {wi : WorkerInput} (hi : i.outer = some wi)
    (hs : (worker.step s.worker wi).map s.works = some (s', out)) : Advance s i s' out := by
  obtain ⟨⟨w, o⟩, hw, hr⟩ := Option.map_eq_some_iff.mp hs
  obtain ⟨rfl, rfl⟩ := Prod.mk.inj hr
  exact .occur hi hw

theorem advance_of_step (hs : application.step s i = some (s', out)) : Advance s i s' out := by
  cases i with
  | openBtn row =>
    obtain ⟨⟨msg, request⟩, hclick, hr⟩ := Option.map_eq_some_iff.mp hs
    obtain ⟨rfl, rfl⟩ := Prod.mk.inj hr
    exact .openBtn hclick
  | clearBtn =>
    obtain ⟨rfl, rfl⟩ := Prod.mk.inj (Option.some.inj hs)
    exact .clearBtn
  | edit history =>
    obtain ⟨rfl, rfl⟩ := Prod.mk.inj (Option.some.inj hs)
    exact .edit
  | timer =>
    obtain ⟨rfl, rfl⟩ := Prod.mk.inj (Option.some.inj hs)
    exact .timer
  | process =>
    simp only [application] at hs
    split at hs
    · simp at hs
    · rename_i signal signals hsignals
      obtain ⟨⟨w, o⟩, hslot, hr⟩ := Option.map_eq_some_iff.mp hs
      obtain ⟨rfl, rfl⟩ := Prod.mk.inj hr
      exact .process hsignals hslot
  | timeout => exact .of_occur rfl hs
  | datagram d => exact .of_occur rfl hs
  | slotReadyRead => exact .of_occur rfl hs
  | deliver =>
    simp only [application] at hs
    split at hs
    · simp at hs
    · rename_i msg notices hnotices
      obtain ⟨rfl, rfl⟩ := Prod.mk.inj (Option.some.inj hs)
      exact .shown hnotices
    · rename_i n success notices hnotices
      obtain ⟨widget, hset, hr⟩ := Option.map_eq_some_iff.mp hs
      obtain ⟨rfl, rfl⟩ := Prod.mk.inj hr
      exact .answered hnotices hset

end Inversion

/-! ## What a run keeps -/

/-- The input of the started worker a signal is. -/
def UtisDeviceSignal.slot? : UtisDeviceSignal → Option WorkerInput
  | signalStart => none
  | signalAddDev devType => some (.slotAddDev devType)
  | signalDelDev devType => some (.slotDelDev devType)
  | signalGetLatestData => some .slotGetLatestData

theorem UtisDeviceSignal.slot?_eq_none {signal : UtisDeviceSignal} :
    signal.slot? = none ↔ signal = .signalStart := by cases signal <;> simp [slot?]

/-- **The slots of a started worker are its inputs.** -/
theorem slots_eq_worker {w : UtisDeviceWorker} {signal : UtisDeviceSignal} {wi : WorkerInput}
    (hw : w.udpClient.isSome = true) (hi : signal.slot? = some wi) :
    utisDeviceSlots.step w signal = worker.step w wi := by
  cases signal with
  | signalStart => simp [UtisDeviceSignal.slot?] at hi
  | signalAddDev t => obtain rfl := Option.some.inj hi; rfl
  | signalDelDev t => obtain rfl := Option.some.inj hi; rfl
  | signalGetLatestData =>
    obtain rfl := Option.some.inj hi
    exact if_pos hw

/-- Nothing closes the socket. -/
theorem udpClient_of_step {w w' : UtisDeviceWorker} {wi : WorkerInput} {out : List Effect}
    (hw : w.udpClient.isSome = true) (hs : worker.step w wi = some (w', out)) :
    w'.udpClient.isSome = true := by
  obtain ⟨-, ⟨devs, rfl⟩, -⟩ | ⟨-, rfl, -⟩ | ⟨-, -, ht⟩ | ⟨d, socket, -, -, rfl, -⟩ |
    ⟨socket, -, -, rfl, -⟩ := worker_cases hs
  · exact hw
  · rw [slotGetLatestData, getLatestData]
    split <;> exact hw
  · rw [UtisDeviceWorker.timeout] at ht
    split at ht <;> · obtain ⟨rfl, -⟩ := Prod.mk.inj ht; exact hw
  · rfl
  · rfl

/-- Nothing happens to a worker that was not started. -/
theorem occur_unstarted {i : ApplicationInput} {wi : WorkerInput} (hi : i.outer = some wi) :
    worker.step {} wi = none := by
  cases i <;> simp only [ApplicationInput.outer, Option.some.injEq, reduceCtorEq] at hi <;>
    rw [← hi] <;> rfl

/-- **What holds throughout**: the worker is started before anything else, its registry keeps its
invariant, and the count is the number of rows. -/
structure Kept (s : Application) : Prop where
  start : (s.worker.udpClient.isSome = true ∧ .signalStart ∉ s.signals) ∨
    (s.worker = {} ∧ ∃ signals, s.signals = .signalStart :: signals ∧ .signalStart ∉ signals)
  registered : Registered s.worker.onlineDev
  count : s.widget.huaYunDevCount.toNat = s.widget.huaYunDevList.length

theorem Request.signal_ne_start (r : Request) : r.signal ≠ .signalStart := by
  cases r <;> simp [signal]

section Kept

variable {s s' : Application} {i : ApplicationInput} {out : List Effect}

/-- A signal posted behind the others does not change what is taken up first. -/
theorem Kept.post (hk : Kept s) {signal : UtisDeviceSignal} (hne : signal ≠ .signalStart) :
    Kept { s with signals := s.signals ++ [signal] } := by
  refine ⟨?_, hk.registered, hk.count⟩
  rcases hk.start with ⟨hstarted, hnone⟩ | ⟨hnew, signals, hsignals, hnone⟩
  · exact Or.inl ⟨hstarted, by simpa using ⟨hnone, Ne.symm hne⟩⟩
  · exact Or.inr ⟨hnew, signals ++ [signal], by simp [hsignals],
      by simpa using ⟨hnone, Ne.symm hne⟩⟩

/-- What happens from outside happens to a started worker. -/
theorem Kept.started_of_occur (hk : Kept s) {wi : WorkerInput} {r : UtisDeviceWorker × List Effect}
    (hi : i.outer = some wi) (hs : worker.step s.worker wi = some r) :
    s.worker.udpClient.isSome = true ∧ .signalStart ∉ s.signals := by
  refine hk.start.resolve_right fun hnew => ?_
  rw [hnew.1, occur_unstarted hi] at hs
  exact absurd hs (by simp)

/-- A signal taken up is `signalStart`, by a new worker, or an input of a started one. -/
theorem Kept.process_cases (hk : Kept s) {signal : UtisDeviceSignal}
    {signals : List UtisDeviceSignal} {w : UtisDeviceWorker}
    (hsignals : s.signals = signal :: signals)
    (hslot : utisDeviceSlots.step s.worker signal = some (w, out)) :
    .signalStart ∉ signals ∧ w.udpClient.isSome = true ∧
      ((signal = .signalStart ∧ s.worker = {} ∧ w = startUp ∧ out = []) ∨
        ∃ wi, signal.slot? = some wi ∧ s.worker.udpClient.isSome = true ∧
          worker.step s.worker wi = some (w, out)) := by
  rcases hk.start with ⟨hstarted, hnone⟩ | ⟨hnew, rest, hrest, hnone⟩
  · rw [hsignals, List.mem_cons, not_or] at hnone
    obtain ⟨wi, hwi⟩ := Option.ne_none_iff_exists'.mp
      (mt UtisDeviceSignal.slot?_eq_none.mp (Ne.symm hnone.1))
    have hstep := slots_eq_worker hstarted hwi ▸ hslot
    exact ⟨hnone.2, udpClient_of_step hstarted hstep, Or.inr ⟨wi, hwi, hstarted, hstep⟩⟩
  · obtain ⟨rfl, rfl⟩ := List.cons.inj (hsignals.symm.trans hrest)
    rw [hnew] at hslot
    obtain ⟨rfl, rfl⟩ := Prod.mk.inj (Option.some.inj hslot)
    exact ⟨hnone, rfl, Or.inl ⟨rfl, hnew, rfl, rfl⟩⟩

theorem kept_step (hk : Kept s) (hs : application.step s i = some (s', out)) : Kept s' := by
  cases advance_of_step hs with
  | @openBtn row msg request hclick =>
    exact (show Kept (s.showMsg msg) from ⟨hk.start, hk.registered, hk.count⟩).post
      request.signal_ne_start
  | clearBtn => exact ⟨hk.start, hk.registered, hk.count⟩
  | edit => exact ⟨hk.start, hk.registered, hk.count⟩
  | timer => exact hk.post (by simp)
  | process hsignals hslot =>
    obtain ⟨hnone, hstarted, ⟨-, -, rfl, -⟩ | ⟨wi, -, -, hw⟩⟩ := hk.process_cases hsignals hslot
    · exact ⟨Or.inl ⟨rfl, hnone⟩, .nil, hk.count⟩
    · exact ⟨Or.inl ⟨hstarted, hnone⟩, registered_step hk.registered hw, hk.count⟩
  | occur hi hw =>
    obtain ⟨hstarted, hnone⟩ := hk.started_of_occur hi hw
    exact ⟨Or.inl ⟨udpClient_of_step hstarted hw, hnone⟩, registered_step hk.registered hw,
      hk.count⟩
  | shown => exact ⟨hk.start, hk.registered, hk.count⟩
  | answered _ hset =>
    obtain ⟨hcount, hlen⟩ := Widget.signalAddDevResult_length hset
    exact ⟨hk.start, hk.registered, by rw [hcount, hlen]; exact hk.count⟩

/-- **Start-up makes as many rows as it counts**, wherever it gets through. -/
theorem count_of_init {count : ℤ} {cfg : Option QSettings}
    (h : ((⟨count, []⟩ : Widget).initCfg cfg).1.initHuaYunDevice.isSome = true) :
    ((⟨count, []⟩ : Widget).initCfg cfg).1.huaYunDevCount.toNat =
      ((⟨count, []⟩ : Widget).initCfg cfg).1.huaYunDevList.length := by
  cases cfg with
  | none => exact Nat.le_antisymm (Widget.toNat_le_of_initHuaYunDevice h) (Nat.zero_le _)
  | some settings => rw [Widget.initCfg_some, List.length_map, List.length_range]

variable {count : ℤ} {cfg : Option QSettings} {s₀ : Application} {h : List ApplicationEntry}

theorem kept_init (hinit : Application.init count cfg = some s₀) : Kept s₀ := by
  obtain ⟨r, hr, rfl⟩ := Option.map_eq_some_iff.mp hinit
  refine ⟨Or.inr ⟨rfl, _, rfl, fun hmem => ?_⟩, .nil, count_of_init (by rw [hr]; rfl)⟩
  obtain ⟨request, -, heq⟩ := List.mem_map.mp hmem
  exact request.signal_ne_start heq

theorem kept_of_run (hinit : Application.init count cfg = some s₀)
    (hr : application.Run s₀ h s) : Kept s := hr.invariant Kept (kept_init hinit) kept_step

end Kept

/-! ## Both threads get through -/

/-- The steps the program takes by itself, nothing being clicked, timed out or received. -/
def ApplicationInput.Internal (i : ApplicationInput) : Prop := i = .process ∨ i = .deliver

section Drain

variable {s u v : Application} {out out' : List Effect}

/-- **A signal posted is taken up**: its slot returns. -/
theorem Kept.process_enabled (hk : Kept s) (hsignals : s.signals ≠ []) :
    application.step s .process ≠ none := by
  obtain ⟨signal, signals, hcons⟩ := List.exists_cons_of_ne_nil hsignals
  have hslot : utisDeviceSlots.step s.worker signal ≠ none := by
    rcases hk.start with ⟨hstarted, -⟩ | ⟨-, rest, hrest, -⟩
    · obtain ⟨w, o, hw, -⟩ := serving_utisDeviceSlots.serve s.worker signal hstarted
      simp [hw]
    · obtain ⟨rfl, -⟩ := List.cons.inj (hcons.symm.trans hrest)
      simp [utisDeviceSlots]
  simpa [application, hcons] using hslot

/-- **A notice posted is shown**: the rows are in range. -/
theorem Kept.deliver_enabled (hk : Kept s) (hnotices : s.notices ≠ []) :
    application.step s .deliver ≠ none := by
  obtain ⟨notice, notices, hcons⟩ := List.exists_cons_of_ne_nil hnotices
  have hrange : s.widget.InRange := Widget.inRange_iff.mpr (Nat.le_of_eq hk.count)
  cases notice with
  | showMsg msg => simp [application, hcons]
  | signalAddDevResult n success =>
    obtain ⟨widget, hset⟩ := Option.isSome_iff_exists.mp (hrange.signalAddDevResult n success)
    simp [application, hcons, hset]

theorem Kept.quiet_iff (hk : Kept s) :
    application.Quiet ApplicationInput.Internal s ↔ s.signals = [] ∧ s.notices = [] := by
  constructor
  · intro hq
    constructor
    · by_contra hne
      exact hk.process_enabled hne (hq .process (Or.inl rfl))
    · by_contra hne
      exact hk.deliver_enabled hne (hq .deliver (Or.inr rfl))
  · rintro ⟨hsignals, hnotices⟩ i (rfl | rfl)
    · simp [application, hsignals]
    · simp [application, hnotices]

/-- **The threads work at different ends of the notices**, and share nothing else. -/
theorem process_deliver_commute (hp : application.step s .process = some (u, out))
    (hd : application.step s .deliver = some (v, out')) :
    out' = [] ∧ ∃ w, application.step u .deliver = some (w, []) ∧
      application.step v .process = some (w, out) := by
  cases advance_of_step hp with
  | process hsignals hslot =>
    cases advance_of_step hd with
    | shown hnotices =>
      refine ⟨rfl, _, by simp [application, Application.works, hnotices]; rfl, ?_⟩
      simp [application, Application.works, Application.showMsg, hsignals, hslot]
    | answered hnotices hset =>
      refine ⟨rfl, _, by simp [application, Application.works, hnotices, hset]; rfl, ?_⟩
      simp [application, Application.works, hsignals, hslot]
    | occur hi => simp [ApplicationInput.outer] at hi
  | occur hi => simp [ApplicationInput.outer] at hi

theorem diamond_application : application.Diamond ApplicationInput.Internal Kept where
  closed hk _ hs := kept_step hk hs
  commute := by
    rintro s i j u v o p - (rfl | rfl) (rfl | rfl) hne hi hj
    · exact absurd rfl hne
    · obtain ⟨rfl, w, hu, hv⟩ := process_deliver_commute hi hj
      exact ⟨Or.inr rfl, w, hu, hv⟩
    · obtain ⟨rfl, w, hu, hv⟩ := process_deliver_commute hj hi
      exact ⟨Or.inl rfl, w, hv, hu⟩
    · exact absurd rfl hne

theorem spoken_of_slot {w w' : UtisDeviceWorker} {signal : UtisDeviceSignal}
    (hw : Registered w.onlineDev) (hs : utisDeviceSlots.step w signal = some (w', out)) :
    Spoken out := by
  cases signal with
  | signalStart =>
    obtain rfl : [] = out := congrArg Prod.snd (Option.some.inj hs)
    exact .silent
  | signalAddDev t =>
    obtain rfl : (w.slotAddDev t).2 = out := congrArg Prod.snd (Option.some.inj hs)
    exact spoken_slotAddDev w t
  | signalDelDev t => exact spoken_slotDelDev hw hs
  | signalGetLatestData =>
    simp only [utisDeviceSlots] at hs
    split at hs
    · obtain rfl : [] = out := congrArg Prod.snd (Option.some.inj hs)
      exact .silent
    · simp at hs

/-- A step of the worker posts a message and a result at most. -/
theorem Spoken.length_notices (h : Spoken out) : (notices out).length ≤ 2 := by
  refine (List.length_filterMap_le _ _).trans ?_
  cases h <;> simp

/-- Each step of its own brings the program nearer to having nothing left to do. -/
theorem internal_decreases (hk : Kept s) {i : ApplicationInput} (hi : i.Internal)
    (hs : application.step s i = some (u, out)) :
    3 * u.signals.length + u.notices.length < 3 * s.signals.length + s.notices.length := by
  cases advance_of_step hs with
  | process hsignals hslot =>
    have hlen := (spoken_of_slot hk.registered hslot).length_notices
    simp only [Application.works, hsignals, List.length_cons, List.length_append]
    omega
  | shown hnotices => simp [Application.showMsg, hnotices]
  | answered hnotices => simp [hnotices]
  | occur houter => rcases hi with rfl | rfl <;> simp [ApplicationInput.outer] at houter
  | openBtn => simp [ApplicationInput.Internal] at hi
  | clearBtn => simp [ApplicationInput.Internal] at hi
  | edit => simp [ApplicationInput.Internal] at hi
  | timer => simp [ApplicationInput.Internal] at hi

/-- The program can get through everything posted by itself. -/
theorem Kept.exists_drained (hk : Kept s) : ∃ h₁ t, Machine.Within ApplicationInput.Internal h₁ ∧
    application.Run s h₁ t ∧ t.signals = [] ∧ t.notices = [] := by
  obtain ⟨h₁, t, hI, hr, hq⟩ := Machine.exists_quiet
    (fun s : Application => 3 * s.signals.length + s.notices.length)
    (fun hk hi hs => ⟨kept_step hk hs, internal_decreases hk hi hs⟩) hk
  exact ⟨h₁, t, hI, hr, (hr.invariant Kept hk kept_step).quiet_iff.mp hq⟩

/-- **Left to themselves the two threads get through everything posted, to one end.**  From any
state the program reaches there is a state with nothing posted which they come to in whatever order
they take turns: each way of going on can be completed to it, and has then taken the same steps and
sent the same to the bus. -/
theorem drains_one_way {count : ℤ} {cfg : Option QSettings} {s₀ : Application}
    {h : List ApplicationEntry} (hinit : Application.init count cfg = some s₀)
    (hr : application.Run s₀ h s) :
    ∃ h₁ t, Machine.Within ApplicationInput.Internal h₁ ∧ application.Run s h₁ t ∧
      t.signals = [] ∧ t.notices = [] ∧
      ∀ h₂ u, Machine.Within ApplicationInput.Internal h₂ → application.Run s h₂ u →
        (u.signals = [] → u.notices = [] → u = t) ∧
        ∃ h₃, Machine.Within ApplicationInput.Internal h₃ ∧ application.Run u h₃ t ∧
          emitted (h₂ ++ h₃) = emitted h₁ ∧
          ((h₂ ++ h₃).map (·.input)).Perm (h₁.map (·.input)) := by
  have hk : Kept s := kept_of_run hinit hr
  obtain ⟨h₁, t, hI₁, hr₁, hsignals, hnotices⟩ := hk.exists_drained
  have hq := (hr₁.invariant Kept hk kept_step).quiet_iff.mpr ⟨hsignals, hnotices⟩
  refine ⟨h₁, t, hI₁, hr₁, hsignals, hnotices, fun h₂ u hI₂ hr₂ => ⟨fun hu hu' => ?_, ?_⟩⟩
  · have hqu := (hr₂.invariant Kept hk kept_step).quiet_iff.mpr ⟨hu, hu'⟩
    exact (diamond_application.unique hk hI₁ hr₁ hq hI₂ hr₂ hqu).1
  · obtain ⟨h₃, hI₃, hr₃, hout, hperm⟩ := diamond_application.complete hk hI₁ hr₁ hq hI₂ hr₂
    exact ⟨h₃, hI₃, hr₃, hout.symm, hperm.symm⟩

end Drain

/-- A start-up with a device to be refused, a poll and a click posted behind it. -/
theorem drains_one_way_run : ∃ h s,
    application.Run (.ofNames ["MWS600", "RD3000B", "RD3000C"]) h s ∧
    s.signals.length = 4 ∧ s.notices.length = 2 ∧
    ∃ h₁ t, Machine.Within ApplicationInput.Internal h₁ ∧ application.Run s h₁ t ∧
      t.signals = [] ∧ t.notices = [] := by
  obtain ⟨h, s, hr, hlen⟩ := Machine.exists_run (M := application)
    (s := .ofNames ["MWS600", "RD3000B", "RD3000C"]) [.process, .process, .timer, .openBtn 1]
    (P := fun _ s => s.signals.length = 4 ∧ s.notices.length = 2) (by decide)
  obtain ⟨h₁, t, hI, hr₁, hsignals, hnotices, -⟩ := drains_one_way (Application.init_ofNames 0 _) hr
  exact ⟨h, s, hr, hlen.1, hlen.2, h₁, t, hI, hr₁, hsignals, hnotices⟩

end UtisDevice
