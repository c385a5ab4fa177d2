import UtisDevice.Machinery.Hosted
import UtisDevice.Worker.Registry

/-!
# System/Restart — `utisDevice::start` and `utisDevice::stop`

`utisDevice` makes its worker once, in the constructor, and connects the end of the thread to the
deletion of the worker.  A first `start` is answered in full: the worker takes up `signalStart` and
then every request, in order, as the machine `worker` does (`worker_of_returned`).  A `start` after
a `stop` that ended the thread runs a thread nobody lives in, and every request is lost
(`restart_attended_iff`, `lost_of_stopped`).
-/

namespace UtisDevice

open Machinery UtisDeviceWorker

/-! ## The device -/

/-- The signals of `utisDevice` a slot of its worker is connected to. -/
inductive UtisDeviceSignal
  | signalStart
  | signalAddDev (devType : String)
  | signalDelDev (devType : String)
  | signalGetLatestData
  deriving DecidableEq, Repr

/-- The slots they are connected to.  A worker that has not been started has no timer to ask.  Where
`slotStart` runs again, the source leaves the `QTimer` it made before alive and, if it was active,
ticking; here the old timer is gone. -/
def utisDeviceSlots : Machine UtisDeviceWorker UtisDeviceSignal Effect where
  step w
    | .signalStart => some (w.slotStart, [])
    | .signalAddDev devType => some (w.slotAddDev devType)
    | .signalDelDev devType => w.slotDelDev devType
    | .signalGetLatestData => if w.udpClient.isSome then some (w.slotGetLatestData, []) else none

/-- `start`, `stop`, the signals, and the event loop of `m_workerThread`. -/
def utisDevice : Machine (Hosted UtisDeviceWorker UtisDeviceSignal) (HostedInput UtisDeviceSignal)
    (UtisDeviceSignal × List Effect) := hosted utisDeviceSlots .signalStart

/-- The constructor. -/
def newUtisDevice : Hosted UtisDeviceWorker UtisDeviceSignal := { work := some {} }

abbrev UtisDeviceEntry := HostedEntry UtisDeviceWorker UtisDeviceSignal Effect

/-! ## The slots return -/

/-- The slots of a started worker but `slotStart`, as steps of `worker`. -/
theorem worker_step_of_slot {w w' : UtisDeviceWorker} {signal : UtisDeviceSignal}
    {out : List Effect} (hne : signal ≠ .signalStart)
    (hs : utisDeviceSlots.step w signal = some (w', out)) : worker.Reaches w w' := by
  cases signal with
  | signalStart => exact absurd rfl hne
  | signalAddDev t => exact .of_step (i := .slotAddDev t) hs
  | signalDelDev t => exact .of_step (i := .slotDelDev t) hs
  | signalGetLatestData =>
    simp only [utisDeviceSlots] at hs
    split at hs
    · exact .of_step (i := .slotGetLatestData) hs
    · simp at hs

/-- A slot does not close the socket. -/
theorem udpClient_of_slot {w w' : UtisDeviceWorker} {signal : UtisDeviceSignal} {out : List Effect}
    (hw : w.udpClient.isSome = true) (hs : utisDeviceSlots.step w signal = some (w', out)) :
    w'.udpClient.isSome = true := by
  cases signal with
  | signalStart =>
    obtain ⟨rfl, -⟩ := Prod.mk.inj (Option.some.inj hs)
    rfl
  | signalAddDev t =>
    obtain rfl : (w.slotAddDev t).1 = w' := congrArg Prod.fst (Option.some.inj hs)
    obtain ⟨-, hadd, -⟩ | ⟨-, -, hadd, -⟩ | ⟨-, -, hadd, -⟩ := w.slotAddDev_cases t <;>
      rw [hadd] <;> exact hw
  | signalDelDev t =>
    obtain ⟨devs, rfl⟩ := (slotDelDev_silent hs).1
    exact hw
  | signalGetLatestData =>
    obtain ⟨rfl, -⟩ : w.slotGetLatestData = w' ∧ [] = out := by simpa [utisDeviceSlots, hw] using hs
    rw [slotGetLatestData, getLatestData]
    split <;> exact hw

/-- **The slots return**, `slotStart` always and the others once it has. -/
theorem serving_utisDeviceSlots : Serving utisDeviceSlots .signalStart (·.udpClient.isSome = true)
    where
  start w := ⟨w.slotStart, [], rfl, rfl⟩
  serve w signal hw := by
    have hreturn : ∃ r, utisDeviceSlots.step w signal = some r := by
      cases signal with
      | signalStart => exact ⟨_, rfl⟩
      | signalAddDev t => exact ⟨_, rfl⟩
      | signalDelDev t => exact Option.isSome_iff_exists.mp (slotDelDev_isSome w t)
      | signalGetLatestData => exact ⟨_, if_pos hw⟩
    obtain ⟨⟨w', out⟩, hs⟩ := hreturn
    exact ⟨w', out, hs, udpClient_of_slot hw hs⟩

/-! ## A first start -/

/-- **The worker of a device started once is `worker`**: `slotStart` is the first slot to run, and
what follows is a run of `worker` from there. -/
theorem worker_of_returned {h : List UtisDeviceEntry}
    {s : Hosted UtisDeviceWorker UtisDeviceSignal} (hr : utisDevice.Run newUtisDevice h s)
    {w : UtisDeviceWorker} (hw : s.work = some w) :
    (returned h = [] ∧ w = {}) ∨ ∃ signals, returned h = .signalStart :: signals ∧
      (.signalStart ∉ signals → worker.Reaches startUp w) := by
  induction hr generalizing w with
  | nil =>
    obtain rfl : {} = w := Option.some.inj hw
    exact Or.inl ⟨rfl, rfl⟩
  | @snoc h t u i out hr hs ih =>
    rw [returned_append]
    cases hostedStep_of_step hs with
    | start => simpa [returned] using ih (by simpa using hw)
    | stop => simp at hw
    | idle => simpa [returned] using ih hw
    | emit => simpa [returned] using ih (by simpa using hw)
    | @served v v' signal posted out _ hv hposted hslot =>
      obtain rfl : v' = w := Option.some.inj hw
      obtain ⟨hnone, rfl⟩ | ⟨signals, hsignals, hreach⟩ := ih hv
      · -- the first signal taken up is the one `start` posted
        rcases (fit_of_run serving_utisDeviceSlots hr).next _ hv with hready | hhead | ⟨-, hempty⟩
        · exact absurd hready (by decide)
        · obtain rfl : signal = .signalStart := by simpa [hposted] using hhead
          obtain ⟨rfl, -⟩ := Prod.mk.inj (Option.some.inj hslot)
          exact Or.inr ⟨[], by rw [hnone]; rfl, fun _ => .refl _ _⟩
        · simp [hposted] at hempty
      · refine Or.inr ⟨signals ++ [signal], by rw [hsignals]; rfl, fun hmem => ?_⟩
        simp only [List.mem_append, List.mem_singleton, not_or] at hmem
        exact (hreach hmem.1).trans (worker_step_of_slot (Ne.symm hmem.2) hslot)
    | stuck => simpa [returned] using ih hw

/-! ## Starting again -/

/-- **A start is answered exactly if no `stop` ever came after a `start`**: only then does the
worker exist, and take up every request that follows. -/
theorem restart_attended_iff {h : List UtisDeviceEntry}
    {s : Hosted UtisDeviceWorker UtisDeviceSignal} (hr : utisDevice.Run newUtisDevice h s)
    (hlast : h.getLast?.map (·.input) = some .start) :
    s.Attended utisDeviceSlots .signalStart ↔ Unstopped h :=
  attended_iff serving_utisDeviceSlots hr hlast

/-- Stopped before it was started, then started twice. -/
theorem restart_attended_iff_run : ∃ h s, utisDevice.Run newUtisDevice h s ∧
    h.map (·.input) = [.stop, .start, .emit (.signalAddDev "MWS600"), .loop, .start] ∧
    s.posted = [.signalAddDev "MWS600", .signalStart] ∧
    (s.Attended utisDeviceSlots .signalStart ↔ Unstopped h) ∧ Unstopped h := by
  obtain ⟨h, s, hr, hinputs, hposted, hun, hlast⟩ := Machine.exists_run (M := utisDevice)
    (s := newUtisDevice) [.stop, .start, .emit (.signalAddDev "MWS600"), .loop, .start]
    (P := fun h s =>
      h.map (·.input) = [.stop, .start, .emit (.signalAddDev "MWS600"), .loop, .start] ∧
      s.posted = [.signalAddDev "MWS600", .signalStart] ∧ Unstopped h ∧
      h.getLast?.map (·.input) = some .start) (by decide)
  exact ⟨h, s, hr, hinputs, hposted, restart_attended_iff hr hlast, hun⟩

/-- **Once stopped, nothing is ever taken up again.** -/
theorem lost_of_stopped {h h' : List UtisDeviceEntry}
    {s s' : Hosted UtisDeviceWorker UtisDeviceSignal} (hr : utisDevice.Run newUtisDevice h s)
    (hstop : ¬ Unstopped h) (hr' : utisDevice.Run s h' s') : returned h' = [] := by
  have hnone : s.work = none := by
    rw [← (isSome_work_iff hr).1] at hstop
    simpa using hstop
  rw [returned, (emitted_of_deleted hr' hnone).2]
  rfl

/-- Started, stopped and started again, the device has lost its worker. -/
theorem restart_loses_worker : ∃ h s, utisDevice.Run newUtisDevice h s ∧
    h.map (·.input) = [.start, .stop, .start] ∧ s.isRunning = true ∧ s.work = none ∧
    ¬ s.Attended utisDeviceSlots .signalStart := by
  obtain ⟨h, s, hr, hinputs, hrun, hnone⟩ := Machine.exists_run (M := utisDevice)
    (s := newUtisDevice) [.start, .stop, .start]
    (P := fun h s => h.map (·.input) = [.start, .stop, .start] ∧ s.isRunning = true ∧
      s.work = none) (by decide)
  refine ⟨h, s, hr, hinputs, hrun, hnone, fun hserved => ?_⟩
  have hsome := (hserved [] s .nil (by simp)).1
  rw [hnone] at hsome
  exact absurd hsome (by decide)

end UtisDevice
