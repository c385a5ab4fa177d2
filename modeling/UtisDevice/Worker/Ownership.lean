import UtisDevice.Worker.Polling

/-!
# Worker/Ownership — whom a queued command is for

A queued command is bytes; `queuedFor` replays the two lines that touch the queue on devices
instead, so that it names the device behind each entry (`cmdList_eq`).  The queue is a snapshot: it
is not revised when the registry is, so a device closed in the middle of a round is still polled
(`polls_closed_device`).  What holds is that an entry's device was online when the round was
accepted, and still is unless it was closed since (`queue_owned`).
-/

namespace UtisDevice

open Machinery UtisDeviceWorker

/-! ## The devices behind the queue -/

/-- The queue operations of a step — `m_cmdList << dev->getCmd()` for each device,
`m_cmdList.removeFirst()` — on the devices. -/
def queueStep (q : List AShuErDevive) (e : WorkerEntry) : List AShuErDevive :=
  match e.input with
  | .slotGetLatestData => if e.pre.timer.isActive then q else q ++ e.pre.onlineDev
  | .timeout => q.tail
  | _ => q

/-- The devices the queued commands are for. -/
def queuedFor (h : List WorkerEntry) : List AShuErDevive := h.foldl queueStep []

@[simp] theorem queuedFor_nil : queuedFor [] = [] := rfl

@[simp] theorem queuedFor_concat (h : List WorkerEntry) (e : WorkerEntry) :
    queuedFor (h ++ [e]) = queueStep (queuedFor h) e := by simp [queuedFor]

variable {h : List WorkerEntry} {w : UtisDeviceWorker}

/-- **The queue is the commands of those devices.** -/
theorem cmdList_eq (hr : worker.Run startUp h w) :
    w.cmdList = (queuedFor h).map AShuErDevive.getCmd := by
  induction hr with
  | nil => rfl
  | @snoc h t u i out hr hs ih =>
    have ht : Started t := started_of_reaches hr.reaches
    rw [queuedFor_concat]
    obtain ⟨⟨s, rfl | rfl⟩, ⟨devs, rfl⟩, -⟩ | ⟨rfl, rfl, rfl⟩ | ⟨rfl, -, htick⟩ |
      ⟨d, socket, rfl, -, rfl, -⟩ | ⟨socket, rfl, -, rfl, -⟩ := worker_cases hs
    · exact ih
    · exact ih
    · by_cases ha : t.timer.isActive = true
      · simpa [slotGetLatestData_of_active ha, queueStep, ha] using ih
      · have hidle : t.timer.isActive = false := by simpa using ha
        simp [slotGetLatestData_of_inactive hidle, queueStep, hidle, ih]
    · obtain ⟨cmd, cmds, hq, rfl, -⟩ | ⟨hq, rfl, -⟩ := timeout_cases ht htick
      · rw [hq] at ih
        simp [queueStep, List.map_tail, ← ih]
      · simp [queueStep, List.map_tail, ← ih, hq]
    · exact ih
    · exact ih

/-- An idle worker has no one queued. -/
theorem queuedFor_of_inactive (hr : worker.Run startUp h w) (ha : w.timer.isActive = false) :
    queuedFor h = [] := by
  have hq := (started_of_reaches hr.reaches).cmdList ha
  rw [cmdList_eq hr] at hq
  exact List.map_eq_nil_iff.mp hq

/-- Only a timeout sends, and what it sends is the command of the first device queued. -/
theorem sent_for_head {h' : List WorkerEntry} {e : WorkerEntry}
    (hr : worker.Run startUp (h ++ e :: h') w) {c : QByteArray} (hc : c ∈ commands e.out) :
    e.input = .timeout ∧ ∃ d, (queuedFor h).head? = some d ∧ c = d.getCmd := by
  obtain ⟨hpre, hs, -⟩ := hr.step_at
  have hq := cmdList_eq hpre
  obtain ⟨-, -, hsilent, -⟩ | ⟨-, -, hout⟩ | ⟨hi, -, ht⟩ | ⟨d, socket, -, -, -, hout⟩ |
    ⟨socket, -, -, -, hout⟩ := worker_cases hs
  · simp [hsilent] at hc
  · simp [hout] at hc
  · obtain ⟨cmd, cmds, hcmd, -, hout⟩ | ⟨-, -, hout⟩ :=
      timeout_cases (started_of_reaches hpre.reaches) ht
    · rw [hcmd] at hq
      obtain ⟨d, ds, hds, hd, -⟩ := List.map_eq_cons_iff.mp hq.symm
      have hcc : c = cmd := by
        rw [hout] at hc
        simpa [commands, Effect.command?, List.filterMap_cons] using hc
      exact ⟨hi, d, by rw [hds]; rfl, hcc.trans hd.symm⟩
    · rw [hout] at hc
      simp [commands, Effect.command?, List.filterMap_cons] at hc
  · simp [hout] at hc
  · simp [hout] at hc

/-- **A timeout sends the command of the first device queued.** -/
theorem sends_head {h' : List WorkerEntry} {e : WorkerEntry}
    (hr : worker.Run startUp (h ++ e :: h') w) (hi : e.input = .timeout) {d : AShuErDevive}
    (hd : (queuedFor h).head? = some d) : commands e.out = [d.getCmd] := by
  obtain ⟨hpre, hs, -⟩ := hr.step_at
  obtain ⟨ds, hds⟩ := List.head?_eq_some_iff.mp hd
  have hq : e.pre.cmdList = d.getCmd :: ds.map AShuErDevive.getCmd := by
    rw [cmdList_eq hpre, hds, List.map_cons]
  rw [hi] at hs
  obtain ⟨-, ht⟩ : e.pre.timer.isActive = true ∧ e.pre.timeout = (e.post, e.out) := by
    simpa [worker] using hs
  obtain ⟨cmd, cmds, hcmd, -, hout⟩ | ⟨hnil, -⟩ :=
    timeout_cases (started_of_reaches hpre.reaches) ht
  · obtain ⟨rfl, -⟩ := List.cons.inj (hq.symm.trans hcmd)
    simp [hout, commands, Effect.command?, List.filterMap_cons]
  · simp [hq] at hnil

/-! ## Where the devices come from -/

/-- A delete takes out no device but those it names. -/
theorem mem_of_slotDelDev {w w' : UtisDeviceWorker} {t : String} {out : List Effect}
    (hw : Registered w.onlineDev) (hs : w.slotDelDev t = some (w', out)) {d : AShuErDevive}
    (hd : d ∈ w.onlineDev) : d ∈ w'.onlineDev ∨ d.devTypeStr = t := by
  by_cases ht : d.devTypeStr = t
  · exact Or.inr ht
  · rw [slotDelDev_of_registered hw] at hs
    obtain ⟨rfl, -⟩ := Prod.mk.inj (Option.some.inj hs)
    exact Or.inl (List.mem_filter.mpr ⟨hd, by simpa using named_eq_false.mpr ht⟩)

/-- An add keeps every device. -/
theorem mem_of_slotAddDev {t : String} {d : AShuErDevive} (hd : d ∈ w.onlineDev) :
    d ∈ (w.slotAddDev t).1.onlineDev := by
  obtain ⟨-, hw, -⟩ | ⟨-, -, hw, -⟩ | ⟨-, -, hw, -⟩ := w.slotAddDev_cases t
  · rwa [hw]
  · rw [hw]
    exact List.mem_append_left _ hd
  · rwa [hw]

/-- Where a queued device comes from: the latest accepted poll found it online, and it is online
still unless it was closed since. -/
def FromLatestPoll (h : List WorkerEntry) (w : UtisDeviceWorker) (d : AShuErDevive) : Prop :=
  ∃ pre a mid, h = pre ++ a :: mid ∧ accepts a = true ∧ (∀ e ∈ mid, accepts e = false) ∧
    d ∈ a.pre.onlineDev ∧ (d ∈ w.onlineDev ∨ ∃ e ∈ mid, e.input = .slotDelDev d.devTypeStr)

/-- A step that accepts no poll, and takes the device out only by closing it, keeps its origin. -/
theorem FromLatestPoll.concat {d : AShuErDevive} {e : WorkerEntry} (hd : FromLatestPoll h w d)
    (he : accepts e = false) {w' : UtisDeviceWorker}
    (hmem : d ∈ w.onlineDev → d ∈ w'.onlineDev ∨ e.input = .slotDelDev d.devTypeStr) :
    FromLatestPoll (h ++ [e]) w' d := by
  obtain ⟨pre, a, mid, rfl, ha, hmid, hda, hdw⟩ := hd
  refine ⟨pre, a, mid ++ [e], by simp, ha, fun e' he' => ?_, hda, ?_⟩
  · rcases List.mem_append.mp he' with he' | he'
    · exact hmid e' he'
    · rwa [List.mem_singleton.mp he']
  · rcases hdw with hdw | ⟨e', he', hclose⟩
    · exact (hmem hdw).imp_right fun hclose => ⟨e, by simp, hclose⟩
    · exact Or.inr ⟨e', List.mem_append_left _ he', hclose⟩

theorem fromLatestPoll_of_mem (hr : worker.Run startUp h w) {d : AShuErDevive}
    (hd : d ∈ queuedFor h) : FromLatestPoll h w d := by
  induction hr with
  | nil => simp at hd
  | @snoc h t u i out hr hs ih =>
    have hreg : Registered t.onlineDev := registered_of_run hr
    rw [queuedFor_concat] at hd
    obtain ⟨⟨s, rfl | rfl⟩, -⟩ | ⟨rfl, rfl, rfl⟩ | ⟨rfl, -, htick⟩ |
      ⟨_, socket, rfl, -, rfl, -⟩ | ⟨socket, rfl, -, rfl, -⟩ := worker_cases hs
    · obtain rfl : (t.slotAddDev s).1 = u := congrArg Prod.fst (Option.some.inj hs)
      exact (ih hd).concat (by simp [accepts]) fun hdt => Or.inl (mem_of_slotAddDev hdt)
    · refine (ih hd).concat (by simp [accepts]) fun hdt => ?_
      exact (mem_of_slotDelDev hreg hs hdt).imp_right fun hname => by rw [hname]
    · by_cases ha : t.timer.isActive = true
      · refine (ih (by simpa [queueStep, ha] using hd)).concat (by simp [accepts, ha]) fun hdt => ?_
        rw [slotGetLatestData_of_active ha]
        exact Or.inl hdt
      · have hidle : t.timer.isActive = false := by simpa using ha
        have hdt : d ∈ t.onlineDev := by
          simpa [queueStep, hidle, queuedFor_of_inactive hr hidle] using hd
        refine ⟨h, _, [], rfl, accepts_iff.mpr ⟨rfl, hidle⟩, by simp, hdt, Or.inl ?_⟩
        rwa [slotGetLatestData_of_inactive hidle]
    · refine (ih (List.mem_of_mem_tail hd)).concat (by simp [accepts]) fun hdt => Or.inl ?_
      obtain ⟨cmd, cmds, -, rfl, -⟩ | ⟨-, rfl, -⟩ :=
        timeout_cases (started_of_reaches hr.reaches) htick <;> exact hdt
    · exact (ih hd).concat (by simp [accepts]) Or.inl
    · exact (ih hd).concat (by simp [accepts]) Or.inl

/-- **A queued command is for a device the latest accepted poll found online** — and which is online
still, unless it was closed since.  The queue is those commands, and a timeout sends the first. -/
theorem queue_owned (hr : worker.Run startUp h w) :
    w.cmdList = (queuedFor h).map AShuErDevive.getCmd ∧
    (∀ d ∈ queuedFor h, ∃ pre a mid, h = pre ++ a :: mid ∧ accepts a = true ∧
      (∀ e ∈ mid, accepts e = false) ∧ d ∈ a.pre.onlineDev ∧
      (d ∈ w.onlineDev ∨ ∃ e ∈ mid, e.input = .slotDelDev d.devTypeStr)) ∧
    ∀ pre e post, h = pre ++ e :: post → ∀ c ∈ commands e.out,
      ∃ d, (queuedFor pre).head? = some d ∧ c = d.getCmd := by
  refine ⟨cmdList_eq hr, fun d hd => fromLatestPoll_of_mem hr hd, ?_⟩
  rintro pre e post rfl c hc
  exact (sent_for_head hr hc).2

/-- A round in which one of the two devices polled is closed, and one opened. -/
theorem queue_owned_run : ∃ h w, worker.Run startUp h w ∧ w.online = ["VD920G", "RD3000C"] ∧
    queuedFor h = [.new "MWS600", .new "VD920G"] ∧
    w.cmdList = [cmdMWS600Read, cmdVD920GRead] := by
  obtain ⟨h, w, hr, hw, hq⟩ := Machine.exists_run (M := worker) (s := startUp)
    [.slotAddDev "MWS600", .slotAddDev "VD920G", .slotGetLatestData, .slotDelDev "MWS600",
      .slotAddDev "RD3000C"]
    (P := fun h w => w.online = ["VD920G", "RD3000C"] ∧
      queuedFor h = [.new "MWS600", .new "VD920G"]) (by decide)
  obtain ⟨hcmd, -, -⟩ := queue_owned hr
  exact ⟨h, w, hr, hw, hq, by rw [hcmd, hq]; rfl⟩

/-- **A closed device is still polled**: closed between the poll and its timeout, it leaves a
command that the timeout sends with no device online at all. -/
theorem polls_closed_device : ∃ h w, worker.Run startUp h w ∧
    ∃ e ∈ h, e.input = .timeout ∧ commands e.out ≠ [] ∧ e.pre.cmdList ≠ [] ∧
      e.pre.onlineDev = [] :=
  Machine.exists_run (M := worker) (s := startUp)
    [.slotAddDev "MWS600", .slotGetLatestData, .slotDelDev "MWS600", .timeout] (by decide)

end UtisDevice
