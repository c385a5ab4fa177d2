import UtisDevice.Machinery.Unwinding
import UtisDevice.System.Application

/-!
# System/Blind — what the bus answers changes nothing

`slotReadyRead` gathers what has arrived in `m_dataGram`, and nothing reads that: `parseData`, which
would, is never called.  So the datagrams a run received, and when they were read, make no
difference to anything else — what is sent and shown, which devices are online, what is polled next
(`blind`).
-/

namespace UtisDevice

open Machinery UtisDeviceWorker

/-! ## A worker that has received nothing -/

def QUdpSocket.unread (socket : QUdpSocket) : QUdpSocket := { socket with pendingDatagrams := [] }

/-- The worker, but for what it has received. -/
def UtisDeviceWorker.unread (w : UtisDeviceWorker) : UtisDeviceWorker :=
  { w with udpClient := w.udpClient.map .unread, dataGram := [] }

/-- The inputs that bring nothing from the bus. -/
def WorkerInput.isVisible : WorkerInput → Bool
  | datagram _ => false
  | slotReadyRead => false
  | _ => true

section Worker

variable {w w' : UtisDeviceWorker} {wi : WorkerInput} {out : List Effect}

/-- **Receiving changes only what is received.** -/
theorem unread_of_received (hi : wi.isVisible = false) (hs : worker.step w wi = some (w', out)) :
    w'.unread = w.unread ∧ out = [] := by
  cases wi with
  | datagram d =>
    obtain ⟨w', hw, hr⟩ := Option.map_eq_some_iff.mp hs
    obtain ⟨rfl, rfl⟩ := Prod.mk.inj hr
    obtain ⟨socket, hsocket, rfl⟩ := Option.map_eq_some_iff.mp hw
    simp [unread, hsocket, QUdpSocket.unread]
  | slotReadyRead =>
    obtain ⟨w', hw, hr⟩ := Option.map_eq_some_iff.mp hs
    obtain ⟨rfl, rfl⟩ := Prod.mk.inj hr
    obtain ⟨socket, hsocket, rfl⟩ := Option.map_eq_some_iff.mp hw
    simp [unread, hsocket, QUdpSocket.unread]
  | slotAddDev devType => simp [WorkerInput.isVisible] at hi
  | slotDelDev devType => simp [WorkerInput.isVisible] at hi
  | slotGetLatestData => simp [WorkerInput.isVisible] at hi
  | timeout => simp [WorkerInput.isVisible] at hi

theorem timeout_unread (w : UtisDeviceWorker) :
    w.unread.timeout = (w.timeout.1.unread, w.timeout.2) := by
  cases hsocket : w.udpClient <;> cases hq : w.cmdList <;> simp [timeout, unread, hsocket, hq]

theorem getLatestData_unread (w : UtisDeviceWorker) :
    w.unread.getLatestData = w.getLatestData.unread := by
  unfold getLatestData
  split <;> rename_i hactive
  · rw [if_pos (show w.timer.isActive = true from hactive)]
  · rw [if_neg (show ¬w.timer.isActive = true from hactive)]
    rfl

theorem slotAddDev_unread (w : UtisDeviceWorker) (devType : String) :
    w.unread.slotAddDev devType =
      ((w.slotAddDev devType).1.unread, (w.slotAddDev devType).2) := by
  have hallow : ∀ dev, w.unread.allow2Create dev = w.allow2Create dev := fun dev => by
    cases dev <;> rfl
  simp only [slotAddDev, hallow]
  split
  · rfl
  · split <;> rfl

theorem slotDelDev_unread (w : UtisDeviceWorker) (devType : String) :
    w.unread.slotDelDev devType = (w.slotDelDev devType).map fun r => (r.1.unread, r.2) := by
  rw [slotDelDev, slotDelDev]
  split
  · rfl
  · rw [Option.map_map]
    rfl

/-- **What a slot does, it does without looking at what was received.** -/
theorem step_unread (w : UtisDeviceWorker) (hi : wi.isVisible = true) :
    worker.step w.unread wi = (worker.step w wi).map fun r => (r.1.unread, r.2) := by
  cases wi with
  | slotAddDev devType => exact congrArg some (slotAddDev_unread w devType)
  | slotDelDev devType => exact slotDelDev_unread w devType
  | slotGetLatestData => exact congrArg (fun w => some (w, [])) (getLatestData_unread w)
  | timeout =>
    simp only [worker, timeout_unread]
    rw [show w.unread.timer = w.timer from rfl]
    split <;> rfl
  | datagram d => simp [WorkerInput.isVisible] at hi
  | slotReadyRead => simp [WorkerInput.isVisible] at hi

theorem slots_unread (w : UtisDeviceWorker) (signal : UtisDeviceSignal) :
    utisDeviceSlots.step w.unread signal =
      (utisDeviceSlots.step w signal).map fun r => (r.1.unread, r.2) := by
  cases signal with
  | signalStart => rfl
  | signalAddDev devType => exact congrArg some (slotAddDev_unread w devType)
  | signalDelDev devType => exact slotDelDev_unread w devType
  | signalGetLatestData =>
    have hsocket : w.unread.udpClient.isSome = w.udpClient.isSome := Option.isSome_map
    simp only [utisDeviceSlots, hsocket]
    split
    · exact congrArg (fun w => some (w, [])) (getLatestData_unread w)
    · rfl

end Worker

/-! ## The program -/

namespace Application

/-- The program, but for what it has received. -/
def unread (s : Application) : Application := { s with worker := s.worker.unread }

end Application

def ApplicationInput.isVisible : ApplicationInput → Bool
  | datagram _ => false
  | slotReadyRead => false
  | _ => true

theorem works_unread (s : Application) (r : Option (UtisDeviceWorker × List Effect)) :
    (r.map fun r => (r.1.unread, r.2)).map s.unread.works =
      (r.map s.works).map fun r => (r.1.unread, r.2) := by
  cases r <;> rfl

theorem application_unread (s : Application) (i : ApplicationInput) (hi : i.isVisible = true) :
    application.step s.unread i = (application.step s i).map fun r => (r.1.unread, r.2) := by
  cases i with
  | openBtn row =>
    simp only [application, Option.map_map]
    rfl
  | clearBtn => rfl
  | edit history => rfl
  | timer => rfl
  | process =>
    cases hsignals : s.signals with
    | nil => simp [application, Application.unread, hsignals]
    | cons signal signals =>
      simp only [application, Application.unread, hsignals, slots_unread]
      exact works_unread { s with signals := signals } _
  | timeout =>
    simp only [application, Application.unread]
    rw [step_unread s.worker rfl]
    exact works_unread s _
  | datagram d => simp [ApplicationInput.isVisible] at hi
  | slotReadyRead => simp [ApplicationInput.isVisible] at hi
  | deliver =>
    simp only [application, Application.unread]
    split
    · rfl
    · rfl
    · rw [Option.map_map]
      rfl

theorem unwinding_application :
    application.Unwinding Application.unread ApplicationInput.isVisible := by
  refine .of_commute ?_ fun s i hi => application_unread s i hi
  intro s i s' out hi hs
  have hreceived : ∃ wi, i.outer = some wi ∧ wi.isVisible = false := by
    cases i <;> simp [ApplicationInput.isVisible] at hi
    · exact ⟨_, rfl, rfl⟩
    · exact ⟨_, rfl, rfl⟩
  obtain ⟨wi, houter, hwi⟩ := hreceived
  cases advance_of_step hs with
  | @occur i wi' w out hi' hw =>
    obtain rfl := Option.some.inj (houter.symm.trans hi')
    obtain ⟨hunread, rfl⟩ := unread_of_received hwi hw
    exact ⟨by simp [Application.unread, Application.works, hunread], rfl⟩
  | openBtn => simp [ApplicationInput.outer] at houter
  | clearBtn => simp [ApplicationInput.outer] at houter
  | edit => simp [ApplicationInput.outer] at houter
  | timer => simp [ApplicationInput.outer] at houter
  | process => simp [ApplicationInput.outer] at houter
  | shown => simp [ApplicationInput.outer] at houter
  | answered => simp [ApplicationInput.outer] at houter

/-- **What the bus answers makes no difference.**  Two runs from one state that differ only in the
datagrams received, and in when they were read, have emitted the same, and end in the same state but
for what they hold of those datagrams. -/
theorem blind {s₀ s s' : Application} {h h' : List ApplicationEntry}
    (hr : application.Run s₀ h s) (hr' : application.Run s₀ h' s')
    (hsame : Machine.visibles ApplicationInput.isVisible h =
      Machine.visibles ApplicationInput.isVisible h') :
    emitted h = emitted h' ∧ s.unread = s'.unread :=
  unwinding_application.noninterference hr hr' rfl hsame

/-- A round answered at once, and the same round never answered. -/
theorem blind_run : ∃ h s h' s', application.Run (.ofNames ["MWS600"]) h s ∧
    application.Run (.ofNames ["MWS600"]) h' s' ∧ s.worker.dataGram = bytes ":0110" ∧
    s'.worker.dataGram = [] ∧ emitted h = emitted h' ∧ s.unread = s'.unread := by
  obtain ⟨h, s, hr, hdata, hvisible⟩ := Machine.exists_run (M := application)
    (s := .ofNames ["MWS600"]) [.process, .process, .timer, .process, .timeout,
      .datagram (bytes ":01"), .datagram (bytes "10"), .slotReadyRead, .timeout, .openBtn 0]
    (P := fun h s => s.worker.dataGram = bytes ":0110" ∧
      Machine.visibles ApplicationInput.isVisible h =
        [.process, .process, .timer, .process, .timeout, .timeout, .openBtn 0]) (by decide)
  obtain ⟨h', s', hr', hdata', hvisible'⟩ := Machine.exists_run (M := application)
    (s := .ofNames ["MWS600"])
    [.process, .process, .timer, .process, .timeout, .timeout, .openBtn 0]
    (P := fun h s => s.worker.dataGram = [] ∧
      Machine.visibles ApplicationInput.isVisible h =
        [.process, .process, .timer, .process, .timeout, .timeout, .openBtn 0]) (by decide)
  exact ⟨h, s, h', s', hr, hr', hdata, hdata',
    blind hr hr' (hvisible.trans hvisible'.symm)⟩

end UtisDevice
