import Mathlib.Algebra.Order.BigOperators.Group.List
import Mathlib.Algebra.Order.Ring.Nat
import UtisDevice.Worker.Pacing

/-!
# Worker/Bus — what ever goes out

Of the four commands the tables declare, and the error command `-1`, three are ever sent, and only
to the address the constructor sets (`written_of_run`); and no more than three of them for each poll
(`length_commands_le`), since no more devices are online.
-/

namespace UtisDevice

open Machinery UtisDeviceWorker

/-! ## Where it goes -/

/-- The commands of valid models. -/
def readCommands : List QByteArray := [cmdMWS600Read, cmdRD3000CRead, cmdVD920GRead]

theorem getCmdOf_mem_readCommands {t : EAShuErDevType} (ht : t.isvalid = true) :
    getCmdOf t ∈ readCommands := by
  revert ht
  cases t <;> decide

/-- A read command, to the bus. -/
def Effect.ToBus : Effect → Prop
  | writeDatagram datagram host port =>
    datagram ∈ readCommands ∧ host = "192.168.1.85" ∧ port = 8899
  | _ => True

/-- The bus is where the worker sends to, and read commands are all it has queued. -/
structure Addressed (w : UtisDeviceWorker) : Prop where
  destIp : w.destIp = "192.168.1.85"
  destPort : w.destPort = 8899
  cmdList : ∀ cmd ∈ w.cmdList, cmd ∈ readCommands

theorem addressed_startUp : Addressed startUp := ⟨rfl, rfl, by simp [startUp, slotStart,
  initUdpClient, UtisDeviceWorker.initTimer]⟩

theorem cmd_of_registered {devs : List AShuErDevive} (h : Registered devs) {d : AShuErDevive}
    (hd : d ∈ devs) : d.getCmd ∈ readCommands := by
  rw [h.built d hd]
  exact getCmdOf_mem_readCommands (h.valid d hd)

variable {w w' : UtisDeviceWorker} {h : List WorkerEntry} {wi : WorkerInput} {out : List Effect}

/-- A registry request sends nothing. -/
theorem toBus_of_commands (hnone : commands out = []) : ∀ e ∈ out, e.ToBus := by
  intro e he
  cases e with
  | writeDatagram datagram host port =>
    have hmem : datagram ∈ commands out := List.mem_filterMap.mpr ⟨_, he, rfl⟩
    rw [hnone] at hmem
    exact absurd hmem List.not_mem_nil
  | showMsg => trivial
  | signalLatestDataReady => trivial
  | signalAddDevResult => trivial

theorem addressed_step (hs : Started w) (hr : Registered w.onlineDev) (ha : Addressed w)
    (hstep : worker.step w wi = some (w', out)) : Addressed w' ∧ ∀ e ∈ out, e.ToBus := by
  obtain ⟨-, ⟨devs, rfl⟩, hnone, -⟩ | ⟨-, rfl, rfl⟩ | ⟨-, -, ht⟩ | ⟨d, socket, -, -, rfl, rfl⟩ |
    ⟨socket, -, -, rfl, rfl⟩ := worker_cases hstep
  · exact ⟨⟨ha.destIp, ha.destPort, ha.cmdList⟩, toBus_of_commands hnone⟩
  · refine ⟨?_, by simp⟩
    by_cases hactive : w.timer.isActive = true
    · rwa [slotGetLatestData_of_active hactive]
    · rw [slotGetLatestData_of_inactive (by simpa using hactive)]
      refine ⟨ha.destIp, ha.destPort, fun cmd hcmd => ?_⟩
      rcases List.mem_append.mp hcmd with hcmd | hcmd
      · exact ha.cmdList cmd hcmd
      · obtain ⟨d, hd, rfl⟩ := List.mem_map.mp hcmd
        exact cmd_of_registered hr hd
  · obtain ⟨cmd, cmds, hq, rfl, rfl⟩ | ⟨-, rfl, rfl⟩ := timeout_cases hs ht
    · have hmem := ha.cmdList
      rw [hq, List.forall_mem_cons] at hmem
      exact ⟨⟨ha.destIp, ha.destPort, hmem.2⟩,
        by simpa [Effect.ToBus] using ⟨hmem.1, ha.destIp, ha.destPort⟩⟩
    · exact ⟨⟨ha.destIp, ha.destPort, ha.cmdList⟩, by simp [Effect.ToBus]⟩
  · exact ⟨⟨ha.destIp, ha.destPort, ha.cmdList⟩, by simp⟩
  · exact ⟨⟨ha.destIp, ha.destPort, ha.cmdList⟩, by simp⟩

/-- **Only read commands are ever sent, and only to the bus.** -/
theorem written_of_run (hr : worker.Run startUp h w) :
    Addressed w ∧ ∀ e ∈ emitted h, e.ToBus := by
  induction hr with
  | nil => exact ⟨addressed_startUp, by simp⟩
  | @snoc h t u i out hr hs ih =>
    obtain ⟨ha, hout⟩ :=
      addressed_step (started_of_reaches hr.reaches) (registered_of_run hr) ih.1 hs
    refine ⟨ha, fun e he => ?_⟩
    rw [emitted_append, emitted_singleton] at he
    rcases List.mem_append.mp he with he | he
    · exact ih.2 e he
    · exact hout e he

/-! ## How much -/

/-- What is sent and what is queued, poll by poll. -/
theorem sent_append_cmdList (hr : worker.Run startUp h w) :
    commands (emitted h) ++ w.cmdList = (snapshots h).flatten := by
  have hsent := Batch.handed_append_queue (batch_of_run (.refl worker startUp) hr)
  have hqueue : (batchOf w).getD [] = w.cmdList := by
    cases ha : w.timer.isActive with
    | true => rw [batchOf_of_active ha, Option.getD_some]
    | false =>
      rw [batchOf_eq_none.mpr ha, (started_of_reaches hr.reaches).cmdList ha, Option.getD_none]
  rwa [(handed_batch hr).1, accepted_batch, hqueue] at hsent

/-- **At most three commands for each poll.** -/
theorem length_commands_le (hr : worker.Run startUp h w) :
    (commands (emitted h)).length ≤ 3 * h.countP fun e => decide (IsPoll e) := by
  have hlen : (snapshots h).flatten.length ≤ 3 * (snapshots h).length := by
    have hle : ∀ n ∈ (snapshots h).map List.length, n ≤ 3 := by
      simp only [snapshots, List.map_map, List.forall_mem_map]
      intro e he
      obtain ⟨pre, post, rfl⟩ := List.append_of_mem (List.mem_of_mem_filter he)
      rw [Function.comp_apply, commandList, List.length_map]
      exact (registered_of_run hr.step_at.1).length_le
    calc (snapshots h).flatten.length = ((snapshots h).map List.length).sum := List.length_flatten
      _ ≤ ((snapshots h).map List.length).length • 3 := List.sum_le_card_nsmul _ 3 hle
      _ = 3 * (snapshots h).length := by
        rw [List.length_map, Nat.nsmul_eq_mul, Nat.mul_comm]
  have hpolls : (snapshots h).length ≤ h.countP fun e => decide (IsPoll e) := by
    rw [snapshots, List.length_map, ← List.countP_eq_length_filter]
    refine List.countP_mono_left fun e _ ha => ?_
    exact decide_eq_true (accepts_iff.mp ha).1
  have hle := congrArg List.length (sent_append_cmdList hr)
  rw [List.length_append] at hle
  omega

end UtisDevice
