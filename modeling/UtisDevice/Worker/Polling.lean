import UtisDevice.Machinery.Batch
import UtisDevice.Worker.Registry

/-!
# Worker/Polling — a round of commands is a clocked batch

Of the queue, the timer and what is sent, the worker is `Batch.machine` over commands: the timer is
the clock, an accepted `slotGetLatestData` requests the commands of the devices online, and
`signalLatestDataReady` is `done` (`batch_of_run`).  What the batch machine guarantees — nothing
lost, repeated or reordered, one `done` a batch, `n + 1` ticks for `n` items — is then what the
worker guarantees, whatever adds, deletes and datagrams come in between.
-/

namespace UtisDevice

open Machinery UtisDeviceWorker

/-! ## Reading a history -/

/-- A `slotGetLatestData` that finds the timer stopped. -/
def accepts (e : WorkerEntry) : Bool :=
  decide (e.input = .slotGetLatestData) && !e.pre.timer.isActive

theorem accepts_iff {e : WorkerEntry} :
    accepts e = true ↔ e.input = .slotGetLatestData ∧ e.pre.timer.isActive = false := by
  simp [accepts]

/-- The commands of the devices online, in order. -/
def commandList (w : UtisDeviceWorker) : List QByteArray := w.onlineDev.map AShuErDevive.getCmd

/-- The command lists of the devices online at the accepted polls. -/
def snapshots (h : List WorkerEntry) : List (List QByteArray) :=
  (h.filter accepts).map fun e => commandList e.pre

@[simp] theorem snapshots_append (h h' : List WorkerEntry) :
    snapshots (h ++ h') = snapshots h ++ snapshots h' := by simp [snapshots]

/-! ## The worker is a clocked batch -/

/-- The batch the worker has out. -/
def batchOf (w : UtisDeviceWorker) : Option (List QByteArray) :=
  if w.timer.isActive then some w.cmdList else none

theorem batchOf_eq_none {w : UtisDeviceWorker} : batchOf w = none ↔ w.timer.isActive = false := by
  simp [batchOf]

theorem batchOf_of_active {w : UtisDeviceWorker} (h : w.timer.isActive = true) :
    batchOf w = some w.cmdList := by simp [batchOf, h]

def Effect.batchOutput? : Effect → Option (Batch.Output QByteArray)
  | .writeDatagram datagram _ _ => some (.hand datagram)
  | .signalLatestDataReady _ => some .done
  | _ => none

abbrev BatchEntry := Entry (Option (List QByteArray)) (Batch.Input QByteArray)
  (Batch.Output QByteArray)

/-- What a step of the worker is to the batch machine: a poll is a request, a timeout a tick. -/
def batchEntry (e : WorkerEntry) : Option BatchEntry :=
  match e.input with
  | .slotGetLatestData =>
    some ⟨batchOf e.pre, .request (commandList e.pre), e.out.filterMap Effect.batchOutput?,
      batchOf e.post⟩
  | .timeout =>
    some ⟨batchOf e.pre, .tick, e.out.filterMap Effect.batchOutput?, batchOf e.post⟩
  | _ => none

/-- The worker has its socket, and an idle worker has an empty queue. -/
structure Started (w : UtisDeviceWorker) : Prop where
  udpClient : w.udpClient.isSome = true
  cmdList : w.timer.isActive = false → w.cmdList = []

/-- **All the timeout of a started worker can do**: send the first command, or stop. -/
theorem timeout_cases {w w' : UtisDeviceWorker} {out : List Effect} (hw : Started w)
    (h : w.timeout = (w', out)) :
    (∃ cmd cmds, w.cmdList = cmd :: cmds ∧ w' = { w with cmdList := cmds } ∧
      out = [.writeDatagram cmd w.destIp w.destPort,
        .showMsg ("发送命令[" ++ toQString cmd ++ "]")]) ∨
    (w.cmdList = [] ∧ w' = { w with timer := { w.timer with isActive := false } } ∧
      out = [.signalLatestDataReady "signalLatestDataReady"]) := by
  rw [timeout] at h
  split at h
  · rename_i cmd cmds _ hq
    obtain ⟨rfl, rfl⟩ := Prod.mk.inj h
    exact Or.inl ⟨cmd, cmds, hq, rfl, rfl⟩
  · rename_i hempty
    obtain ⟨socket, hsocket⟩ := Option.isSome_iff_exists.mp hw.udpClient
    have hq : w.cmdList = [] := by
      by_contra hne
      obtain ⟨cmd, cmds, hq⟩ := List.exists_cons_of_ne_nil hne
      exact hempty socket cmd cmds hsocket hq
    obtain ⟨rfl, rfl⟩ := Prod.mk.inj h
    exact Or.inr ⟨hq, rfl, rfl⟩

theorem started_startUp : Started startUp := ⟨rfl, fun _ => rfl⟩

theorem started_step {w w' : UtisDeviceWorker} {i : WorkerInput} {out : List Effect}
    (hw : Started w) (hs : worker.step w i = some (w', out)) : Started w' := by
  obtain ⟨-, ⟨devs, rfl⟩, -⟩ | ⟨-, rfl, -⟩ | ⟨-, hactive, ht⟩ | ⟨d, socket, -, -, rfl, -⟩ |
    ⟨socket, -, -, rfl, -⟩ := worker_cases hs
  · exact ⟨hw.udpClient, hw.cmdList⟩
  · by_cases ha : w.timer.isActive = true
    · rwa [slotGetLatestData_of_active ha]
    · rw [slotGetLatestData_of_inactive (by simpa using ha)]
      exact ⟨hw.udpClient, fun h => absurd h (by simp)⟩
  · obtain ⟨cmd, cmds, -, rfl, -⟩ | ⟨hq, rfl, -⟩ := timeout_cases hw ht
    · exact ⟨hw.udpClient, fun h => absurd h (by simp [hactive])⟩
    · exact ⟨hw.udpClient, fun _ => hq⟩
  · exact ⟨rfl, hw.cmdList⟩
  · exact ⟨rfl, hw.cmdList⟩

theorem started_of_reaches {w : UtisDeviceWorker} (hr : worker.Reaches startUp w) : Started w :=
  let ⟨_, hr⟩ := hr
  hr.invariant Started started_startUp started_step

/-- **A run of the worker is a run of the batch machine.** -/
theorem batch_of_run {w₀ w : UtisDeviceWorker} {h : List WorkerEntry}
    (h₀ : worker.Reaches startUp w₀) (hr : worker.Run w₀ h w) :
    (Batch.machine QByteArray).Run (batchOf w₀) (h.filterMap batchEntry) (batchOf w) := by
  refine hr.simulate batchOf batchEntry fun {t i u out} ht hs => ?_
  have hw : Started t := started_of_reaches (h₀.trans ht)
  obtain ⟨⟨s, rfl | rfl⟩, ⟨devs, rfl⟩, -⟩ | ⟨rfl, rfl, rfl⟩ | ⟨rfl, hactive, htick⟩ |
    ⟨d, socket, rfl, -, rfl, -⟩ | ⟨socket, rfl, -, rfl, -⟩ := worker_cases hs
  · rfl
  · rfl
  · refine ⟨rfl, rfl, ?_⟩
    by_cases ha : t.timer.isActive = true
    · simp [slotGetLatestData_of_active ha, batchOf_of_active ha, Batch.machine]
    · have hidle : t.timer.isActive = false := by simpa using ha
      simp [slotGetLatestData_of_inactive hidle, batchOf, hidle, hw.cmdList hidle, commandList,
        Batch.machine]
  · refine ⟨rfl, rfl, ?_⟩
    obtain ⟨cmd, cmds, hq, rfl, rfl⟩ | ⟨hq, rfl, rfl⟩ := timeout_cases hw htick <;>
    simp [batchOf, hactive, hq, Batch.machine, Effect.batchOutput?, List.filterMap_cons]
  · rfl
  · rfl

/-- Steps that are nothing to the batch machine send nothing and report nothing. -/
theorem silent_of_batchEntry_eq_none {w w' : UtisDeviceWorker} {i : WorkerInput}
    {out : List Effect} (hs : worker.step w i = some (w', out))
    (hb : batchEntry ⟨w, i, out, w'⟩ = none) : commands out = [] ∧ readies out = 0 := by
  obtain ⟨-, -, hout⟩ | ⟨rfl, -⟩ | ⟨rfl, -⟩ | ⟨d, socket, -, -, -, rfl⟩ |
    ⟨socket, -, -, -, rfl⟩ := worker_cases hs
  · exact hout
  · simp [batchEntry] at hb
  · simp [batchEntry] at hb
  · exact ⟨rfl, rfl⟩
  · exact ⟨rfl, rfl⟩

/-- What a step that matters to the batch machine sends and reports is what the machine says. -/
theorem batchEntry_out {e : WorkerEntry} {b : BatchEntry} (h : batchEntry e = some b) :
    b.out = e.out.filterMap Effect.batchOutput? := by
  obtain ⟨w, i, out, w'⟩ := e
  cases i <;> simp only [batchEntry, Option.some.injEq, reduceCtorEq] at h <;> rw [← h]

theorem commands_eq (out : List Effect) :
    commands out = (out.filterMap Effect.batchOutput?).filterMap Batch.Output.item? := by
  rw [commands, List.filterMap_filterMap]
  exact List.filterMap_congr fun e _ => by cases e <;> rfl

theorem readies_eq (out : List Effect) :
    readies out = (out.filterMap Effect.batchOutput?).countP Batch.Output.isDone := by
  induction out with
  | nil => rfl
  | cons e out ih =>
    rw [readies] at ih
    cases e <;> simp [readies, Effect.batchOutput?, Effect.isReady, Batch.Output.isDone,
      List.filterMap_cons, List.countP_cons, ih]

/-- **What the worker sends is what the batch machine hands out, and what it reports is its
`done`s.** -/
theorem handed_batch {w₀ w : UtisDeviceWorker} {h : List WorkerEntry} (hr : worker.Run w₀ h w) :
    Batch.handed (h.filterMap batchEntry) = commands (emitted h) ∧
      Batch.dones (h.filterMap batchEntry) = readies (emitted h) := by
  induction hr with
  | nil => exact ⟨rfl, rfl⟩
  | @snoc h t u i out _ hs ih =>
    rw [List.filterMap_append, Batch.handed_append, Batch.dones_append, emitted_append,
      commands_append, readies_append, ih.1, ih.2, emitted_singleton]
    rcases hb : batchEntry ⟨t, i, out, u⟩ with _ | b
    · obtain ⟨hc, hd⟩ := silent_of_batchEntry_eq_none hs hb
      simp [hb, hc, hd]
    · have hout := batchEntry_out hb
      constructor
      · simp [Batch.handed, hb, hout, commands_eq]
      · simp [Batch.dones, hb, hout, readies_eq]

theorem accepted_batch (h : List WorkerEntry) :
    Batch.accepted (h.filterMap batchEntry) = snapshots h := by
  induction h with
  | nil => rfl
  | cons e h ih =>
    obtain ⟨w, i, out, w'⟩ := e
    rw [show (⟨w, i, out, w'⟩ : WorkerEntry) :: h = [⟨w, i, out, w'⟩] ++ h from rfl,
      List.filterMap_append, Batch.accepted_append, snapshots_append, ih]
    congr 1
    cases i <;> cases ha : w.timer.isActive <;>
      simp [batchEntry, Batch.accepted, Batch.acceptedAt, snapshots, accepts, batchOf, ha]

/-- An accepted poll starts the timer. -/
theorem post_of_accepts {e : WorkerEntry} (ha : accepts e = true)
    (hs : worker.step e.pre e.input = some (e.post, e.out)) :
    e.post = { e.pre with
      cmdList := e.pre.cmdList ++ commandList e.pre
      timer := { e.pre.timer with isActive := true } } := by
  obtain ⟨hi, hidle⟩ := accepts_iff.mp ha
  rw [hi] at hs
  obtain ⟨hpost, -⟩ : e.pre.slotGetLatestData = e.post ∧ [] = e.out := by simpa [worker] using hs
  rw [← hpost, slotGetLatestData_of_inactive hidle]
  rfl

/-- …with a batch of the commands of the devices online. -/
theorem batchOf_of_accepts {e : WorkerEntry} (hw : Started e.pre) (ha : accepts e = true)
    (hs : worker.step e.pre e.input = some (e.post, e.out)) :
    batchOf e.post = some (commandList e.pre) := by
  rw [post_of_accepts ha hs, batchOf_of_active rfl, hw.cmdList (accepts_iff.mp ha).2]
  rfl

/-! ## Nothing is lost, repeated or reordered -/

/-- A round is reported by a timeout that finds the queue empty, and by nothing else. -/
theorem readies_pos_inv {w w' : UtisDeviceWorker} {i : WorkerInput} {out : List Effect}
    (hw : Started w) (hs : worker.step w i = some (w', out)) (hout : 0 < readies out) :
    i = .timeout ∧ w'.timer.isActive = false ∧
      out = [.signalLatestDataReady "signalLatestDataReady"] := by
  obtain ⟨-, -, -, hr⟩ | ⟨-, -, rfl⟩ | ⟨rfl, -, ht⟩ | ⟨d, socket, -, -, -, rfl⟩ |
    ⟨socket, -, -, -, rfl⟩ := worker_cases hs
  · omega
  · simp at hout
  · obtain ⟨cmd, cmds, -, -, rfl⟩ | ⟨-, rfl, rfl⟩ := timeout_cases hw ht
    · simp [readies, Effect.isReady] at hout
    · exact ⟨rfl, rfl, rfl⟩
  · simp at hout
  · simp at hout

/-- A step that reports a round is a `done` of the batch machine. -/
theorem batchEntry_of_readies_pos {e : WorkerEntry} (hw : Started e.pre)
    (hs : worker.step e.pre e.input = some (e.post, e.out)) (hout : 0 < readies e.out) :
    ∃ b, batchEntry e = some b ∧ Batch.Output.done ∈ b.out := by
  obtain ⟨hi, -, ho⟩ := readies_pos_inv hw hs hout
  obtain ⟨w, i, out, w'⟩ := e
  subst hi ho
  exact ⟨_, rfl, List.mem_singleton_self _⟩

/-- **Polling is exact.**  After any run: what was sent and what is queued are the command lists at
the accepted polls, in order; an idle worker has an empty queue; every accepted poll but the one
still running was reported once; and each report comes when exactly the command lists up to its own
have been sent. -/
theorem polling_exact {h : List WorkerEntry} {w : UtisDeviceWorker}
    (hr : worker.Run startUp h w) :
    commands (emitted h) ++ w.cmdList = (snapshots h).flatten ∧
    (w.timer.isActive = false → w.cmdList = []) ∧
    (w.timer.isActive = false → readies (emitted h) = (snapshots h).length) ∧
    (w.timer.isActive = true → readies (emitted h) + 1 = (snapshots h).length) ∧
    ∀ pre e post, h = pre ++ e :: post → 0 < readies e.out →
      commands e.out = [] ∧ readies e.out = 1 ∧
        commands (emitted pre) = ((snapshots h).take (readies (emitted pre) + 1)).flatten := by
  have hw : Started w := started_of_reaches hr.reaches
  have hb : (Batch.machine QByteArray).Run none (h.filterMap batchEntry) (batchOf w) :=
    batch_of_run (.refl worker startUp) hr
  have hsent := Batch.handed_append_queue hb
  have hdone := Batch.dones_add_isSome hb
  rw [(handed_batch hr).1, accepted_batch] at hsent
  rw [(handed_batch hr).2, accepted_batch] at hdone
  refine ⟨?_, hw.cmdList, fun ha => ?_, fun ha => ?_, ?_⟩
  · by_cases ha : w.timer.isActive = true
    · rwa [batchOf_of_active ha] at hsent
    · rw [hw.cmdList (by simpa using ha)]
      rwa [batchOf_eq_none.mpr (by simpa using ha)] at hsent
  · simpa [batchOf_eq_none.mpr ha] using hdone
  · simpa [batchOf_of_active ha] using hdone
  · rintro pre e post rfl hout
    obtain ⟨hpre, hstep, -⟩ := hr.step_at
    have hwe : Started e.pre := started_of_reaches hpre.reaches
    obtain ⟨b, hbe, hmem⟩ := batchEntry_of_readies_pos hwe hstep hout
    obtain ⟨-, -, ho⟩ := readies_pos_inv hwe hstep hout
    rw [← accepted_batch, ← (handed_batch hpre).1, ← (handed_batch hpre).2]
    rw [List.filterMap_append, List.filterMap_cons, hbe] at hb ⊢
    exact ⟨by rw [ho]; rfl, by rw [ho]; rfl, Batch.handed_at_done hb hmem⟩

/-- Two rounds, the registry changing in the middle of the first and a poll ignored there. -/
theorem polling_exact_run : ∃ h w, worker.Run startUp h w ∧ w.timer.isActive = true ∧
    snapshots h = [[cmdMWS600Read, cmdVD920GRead], [cmdVD920GRead]] ∧
    commands (emitted h) ++ w.cmdList = [cmdMWS600Read, cmdVD920GRead, cmdVD920GRead] ∧
    readies (emitted h) = 1 := by
  obtain ⟨h, w, hr, hactive, hsnap⟩ := Machine.exists_run (M := worker) (s := startUp)
    [.slotAddDev "MWS600", .slotAddDev "VD920G", .slotGetLatestData, .timeout,
      .slotDelDev "MWS600", .slotGetLatestData, .timeout, .timeout, .slotGetLatestData]
    (P := fun h w => w.timer.isActive = true ∧
      snapshots h = [[cmdMWS600Read, cmdVD920GRead], [cmdVD920GRead]]) (by decide)
  obtain ⟨hsent, -, -, hcount, -⟩ := polling_exact hr
  refine ⟨h, w, hr, hactive, hsnap, by rw [hsent, hsnap]; rfl, ?_⟩
  have := hcount hactive
  rw [hsnap] at this
  simpa using this

end UtisDevice
