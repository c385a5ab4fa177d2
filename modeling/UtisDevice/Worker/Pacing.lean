import UtisDevice.Worker.Polling

/-!
# Worker/Pacing — four timeouts between polls are enough

A poll that finds the timer running is ignored.  With at most three devices online a round is at
most three commands, so the fourth timeout stops the timer (`idle_of_gap`); polls that leave each
other four timeouts, or the timer's own stop, are therefore all accepted (`polls_paced`).  Devices
added or removed in the middle of a round do not lengthen it: its batch is fixed when it is
accepted.
-/

namespace UtisDevice

open Machinery UtisDeviceWorker

/-! ## Polls and the time between them -/

/-- A step that is a poll. -/
def IsPoll (e : WorkerEntry) : Prop := e.input = .slotGetLatestData

/-- A step that stops the timer. -/
def Stops (e : WorkerEntry) : Prop :=
  e.pre.timer.isActive = true ∧ e.post.timer.isActive = false

/-- How often the timer timed out. -/
def timeouts (h : List WorkerEntry) : ℕ := h.countP fun e => decide (e.input = .timeout)

/-- The timer stops, or times out four times. -/
def LeavesTime (h : List WorkerEntry) : Prop := (∃ e ∈ h, Stops e) ∨ 4 ≤ timeouts h

/-- **Paced polls**: any two consecutive ones leave each other time. -/
def Paced (h : List WorkerEntry) : Prop :=
  ∀ pre a mid b post, h = pre ++ a :: (mid ++ b :: post) → IsPoll a → IsPoll b →
    (∀ e ∈ mid, ¬ IsPoll e) → LeavesTime mid

theorem Paced.of_append {h h' : List WorkerEntry} (hp : Paced (h ++ h')) : Paced h := by
  rintro pre a mid b post rfl
  exact hp pre a mid b (post ++ h') (by simp)

instance : DecidablePred IsPoll := fun e =>
  inferInstanceAs (Decidable (e.input = .slotGetLatestData))

instance : DecidablePred Stops := fun e =>
  inferInstanceAs (Decidable (e.pre.timer.isActive = true ∧ e.post.timer.isActive = false))

instance : DecidablePred LeavesTime := fun h =>
  inferInstanceAs (Decidable ((∃ e ∈ h, Stops e) ∨ 4 ≤ timeouts h))

/-- The polls at two positions have no other between them. -/
def Consecutive (h : List WorkerEntry) (i j : ℕ) : Prop :=
  h[i]?.any (fun a => decide (IsPoll a)) = true ∧ h[j]?.any (fun b => decide (IsPoll b)) = true ∧
    ∀ e ∈ (h.take j).drop (i + 1), ¬ IsPoll e

instance (h : List WorkerEntry) (i j : ℕ) : Decidable (Consecutive h i j) :=
  inferInstanceAs (Decidable (_ ∧ _ ∧ _))

/-- Pacing, by the positions of the two polls. -/
theorem paced_iff {h : List WorkerEntry} : Paced h ↔ ∀ j < h.length, ∀ i < j,
    Consecutive h i j → LeavesTime ((h.take j).drop (i + 1)) := by
  constructor
  · rintro hp j hj i hij ⟨ha, hb, hmid⟩
    have hi : i < (h.take j).length := by rw [List.length_take]; omega
    have hsplit : h = (h.take j).take i ++ (h.take j)[i] ::
        ((h.take j).drop (i + 1) ++ h[j] :: h.drop (j + 1)) := by
      rw [← List.cons_append, ← List.drop_eq_getElem_cons hi, ← List.append_assoc,
        List.take_append_drop, ← List.drop_eq_getElem_cons hj, List.take_append_drop]
    rw [List.getElem?_eq_getElem (by omega : i < h.length)] at ha
    rw [List.getElem?_eq_getElem hj] at hb
    refine hp _ _ _ _ _ hsplit ?_ (of_decide_eq_true hb) hmid
    rw [List.getElem_take]
    exact of_decide_eq_true ha
  · rintro hp pre a mid b post rfl ha hb hmid
    have hmid' : ((pre ++ a :: (mid ++ b :: post)).take (pre.length + (mid.length + 1))).drop
        (pre.length + 1) = mid := by
      simp [List.take_append, List.drop_append, List.take_succ_cons]
    have key := hp (pre.length + (mid.length + 1)) (by simp) pre.length (by omega)
    rw [hmid'] at key
    refine key ⟨by simpa using ha, by simpa using hb, ?_⟩
    rwa [hmid']

instance (h : List WorkerEntry) : Decidable (Paced h) := decidable_of_iff' _ paced_iff

/-- Only the report of a round stops the timer. -/
theorem readies_pos_of_stops {e : WorkerEntry} (hw : Started e.pre)
    (hs : worker.step e.pre e.input = some (e.post, e.out)) (hstop : Stops e) :
    0 < readies e.out := by
  obtain ⟨hactive, hidle⟩ := hstop
  obtain ⟨-, ⟨devs, hpost⟩, -⟩ | ⟨-, hpost, -⟩ | ⟨-, -, ht⟩ | ⟨d, socket, -, -, hpost, -⟩ |
    ⟨socket, -, -, hpost, -⟩ := worker_cases hs
  · simp [hpost, hactive] at hidle
  · simp [hpost, slotGetLatestData_of_active hactive, hactive] at hidle
  · obtain ⟨cmd, cmds, -, hpost, -⟩ | ⟨-, -, hout⟩ := timeout_cases hw ht
    · simp [hpost, hactive] at hidle
    · rw [hout]
      exact Nat.one_pos
  · simp [hpost, hactive] at hidle
  · simp [hpost, hactive] at hidle

theorem readies_emitted_pos {h : List WorkerEntry} :
    0 < readies (emitted h) ↔ ∃ e ∈ h, 0 < readies e.out := by
  simp only [readies, List.countP_pos_iff, emitted, List.mem_flatMap]
  constructor
  · rintro ⟨x, ⟨e, he, hx⟩, hr⟩
    exact ⟨e, he, x, hx, hr⟩
  · rintro ⟨e, he, x, hx, hr⟩
    exact ⟨x, ⟨e, he, hx⟩, hr⟩

/-- Between polls the batch machine only ticks. -/
theorem isTick_of_no_poll {h : List WorkerEntry} (hp : ∀ e ∈ h, ¬ IsPoll e) :
    ∀ b ∈ h.filterMap batchEntry, b.input.isTick = true := by
  intro b hb
  obtain ⟨e, he, hbe⟩ := List.mem_filterMap.mp hb
  have hne := hp e he
  obtain ⟨w, i, out, w'⟩ := e
  cases i <;> simp only [batchEntry, Option.some.injEq, reduceCtorEq] at hbe
  · exact absurd rfl hne
  · rw [← hbe]
    rfl

theorem ticks_batch (h : List WorkerEntry) :
    Batch.ticks (h.filterMap batchEntry) = timeouts h := by
  induction h with
  | nil => rfl
  | cons e h ih =>
    have hone : Batch.ticks ([e].filterMap batchEntry) = timeouts [e] := by
      obtain ⟨w, i, out, w'⟩ := e
      cases i <;> rfl
    rw [← List.singleton_append, List.filterMap_append, Batch.ticks_append, hone, ih]
    exact List.countP_append.symm

/-! ## A round is over in time -/

variable {w : UtisDeviceWorker}

/-- **A round is over once the timer stopped, or timed out four times**: it was reported, and the
worker is idle. -/
theorem idle_of_gap {pre mid : List WorkerEntry} {a : WorkerEntry}
    (hr : worker.Run startUp (pre ++ a :: mid) w) (ha : accepts a = true)
    (hmid : ∀ e ∈ mid, ¬ IsPoll e) (hgap : LeavesTime mid) :
    w.timer.isActive = false ∧ 0 < readies (emitted mid) := by
  obtain ⟨hpre, hs, hpost⟩ := hr.step_at
  have hreach := hpre.reaches.trans (.of_step hs)
  have hb := batch_of_run hreach hpost
  rw [batchOf_of_accepts (started_of_reaches hpre.reaches) ha hs] at hb
  have hlen : (commandList a.pre).length ≤ 3 := by
    rw [commandList, List.length_map]
    exact (registered_of_run hpre).length_le
  have hdone : 0 < readies (emitted mid) := by
    rcases hgap with ⟨e, he, hstop⟩ | hticks
    · obtain ⟨m, m', rfl⟩ := List.append_of_mem he
      obtain ⟨hme, hse, -⟩ := hpost.step_at
      exact readies_emitted_pos.mpr ⟨e, he,
        readies_pos_of_stops (started_of_reaches (hreach.trans hme.reaches)) hse hstop⟩
    · rw [← (handed_batch hpost).2]
      refine Batch.dones_pos_of_ticks hb ?_
      rw [ticks_batch]
      omega
  refine ⟨batchOf_eq_none.mp (Batch.idle_of_dones_pos hb ?_ (isTick_of_no_poll hmid)), hdone⟩
  rwa [(handed_batch hpost).2]

/-- Paced polls all find the worker idle. -/
theorem accepts_of_paced {h : List WorkerEntry} (hr : worker.Run startUp h w) (hp : Paced h) :
    ∀ e ∈ h, IsPoll e → accepts e = true := by
  induction hr with
  | nil => simp
  | @snoc h t u i out hr hs ih =>
    intro e he hpoll
    rcases List.mem_append.mp he with he | he
    · exact ih hp.of_append e he hpoll
    · obtain rfl := List.mem_singleton.mp he
      refine accepts_iff.mpr ⟨hpoll, ?_⟩
      rcases exists_last_or_none IsPoll h with hnone | ⟨pre, a, mid, rfl, ha, hmid⟩
      · have hb := batch_of_run (.refl worker startUp) hr
        exact batchOf_eq_none.mp (Batch.idle_of_no_request hb (isTick_of_no_poll hnone))
      · have haccept : accepts a = true := ih hp.of_append a (by simp) ha
        exact (idle_of_gap hr haccept hmid (hp pre a mid _ [] (by simp) ha hpoll hmid)).1

/-- **No paced poll is dropped**: each finds the timer stopped and the queue empty, and the round of
each is reported before the next. -/
theorem polls_paced {h : List WorkerEntry} (hr : worker.Run startUp h w) (hp : Paced h) :
    (∀ e ∈ h, IsPoll e → e.pre.timer.isActive = false ∧ e.pre.cmdList = []) ∧
    ∀ pre a mid b post, h = pre ++ a :: (mid ++ b :: post) → IsPoll a → IsPoll b →
      (∀ e ∈ mid, ¬ IsPoll e) → ∃ e ∈ mid, 0 < readies e.out := by
  have haccepts := accepts_of_paced hr hp
  constructor
  · intro e he hpoll
    obtain ⟨pre, post, rfl⟩ := List.append_of_mem he
    have hidle := (accepts_iff.mp (haccepts e he hpoll)).2
    exact ⟨hidle, (started_of_reaches hr.step_at.1.reaches).cmdList hidle⟩
  · rintro pre a mid b post rfl ha hb hmid
    have hgap := hp pre a mid b post rfl ha hb hmid
    rw [show pre ++ a :: (mid ++ b :: post) = (pre ++ a :: mid) ++ b :: post by simp] at hr
    exact readies_emitted_pos.mp
      (idle_of_gap hr.step_at.1 (haccepts a (by simp) ha) hmid hgap).2

/-- Full rounds and short ones, the registry changing in between. -/
theorem polls_paced_run : ∃ h w, worker.Run startUp h w ∧ Paced h ∧
    (snapshots h).map List.length = [3, 2] ∧
    ∀ e ∈ h, IsPoll e → e.pre.timer.isActive = false ∧ e.pre.cmdList = [] := by
  obtain ⟨h, w, hr, hp, hsnap⟩ := Machine.exists_run (M := worker) (s := startUp)
    [.slotAddDev "MWS600", .slotAddDev "RD3000C", .slotAddDev "VD920G", .slotGetLatestData,
      .timeout, .slotDelDev "VD920G", .timeout, .timeout, .slotAddDev "RD3000B", .timeout,
      .slotGetLatestData]
    (P := fun h _ => Paced h ∧ (snapshots h).map List.length = [3, 2]) (by decide)
  exact ⟨h, w, hr, hp, hsnap, (polls_paced hr hp).1⟩

end UtisDevice
