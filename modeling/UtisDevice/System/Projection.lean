import UtisDevice.System.Application

/-!
# System/Projection — the two smaller systems inside the program

        application ──▸ threads     requests and answers, and nothing else
             │
             ▾
           worker                   the slots and timeouts of the started worker

A run of the program, read for the rows, the registry and the requests and answers between them, is
a run of `threads`: polls, datagrams, messages and the log are invisible there
(`threads_of_application`).  Read for the worker alone it is a run of `worker` from `startUp`
(`worker_of_application`): `slotStart` comes first, once.  What holds of all runs of the two holds
of the program.
-/

namespace UtisDevice

open Machinery UtisDeviceWorker

/-! ## Requests and answers -/

/-- The request a signal carries. -/
def UtisDeviceSignal.request? : UtisDeviceSignal → Option Request
  | signalAddDev devType => some (.signalAddDev devType)
  | signalDelDev devType => some (.signalDelDev devType)
  | _ => none

/-- The answer a notice carries. -/
def Notice.result? : Notice → Option (String × Bool)
  | showMsg _ => none
  | signalAddDevResult devType success => some (devType, success)

/-- The rows, counted. -/
def Widget.recount (w : Widget) : Widget := { w with huaYunDevCount := w.huaYunDevList.length }

/-- A started worker with this registry, and nothing else to do. -/
def UtisDeviceWorker.registry (w : UtisDeviceWorker) : UtisDeviceWorker :=
  { startUp with onlineDev := w.onlineDev }

namespace Application

/-- What there is to `threads`. -/
def threads (s : Application) : Threads where
  widget := s.widget.recount
  requests := s.signals.filterMap UtisDeviceSignal.request?
  worker := s.worker.registry
  results := s.notices.filterMap Notice.result?

/-- The names of the rows. -/
def names (s : Application) : List String := s.widget.huaYunDevList.map (·.name)

@[simp] theorem names_ofNames (names : List String) : (ofNames names).names = names := by
  have hrows := congrArg (List.map Prod.fst) (Widget.rows_ofNames names)
  simpa [Widget.rows, Application.names, ofNames, Function.comp_def] using hrows

end Application

@[simp] theorem Request.signal_request? (r : Request) : r.signal.request? = some r := by
  cases r <;> rfl

theorem UtisDeviceSignal.slot?_of_request? {signal : UtisDeviceSignal} {r : Request}
    (h : signal.request? = some r) : signal.slot? = some r.slot := by
  cases signal <;> simp only [request?, Option.some.injEq, reduceCtorEq] at h <;> rw [← h] <;> rfl

theorem results_eq (out : List Effect) : results out = (notices out).filterMap Notice.result? := by
  rw [results, notices, List.filterMap_filterMap]
  exact List.filterMap_congr fun e _ => by cases e <;> rfl

/-- **A request reads and writes the registry only.** -/
theorem registry_step (w : UtisDeviceWorker) (r : Request) : worker.step w.registry r.slot =
    (worker.step w r.slot).map fun p => (p.1.registry, p.2) := by
  cases r with
  | signalAddDev t =>
    change some (w.registry.slotAddDev t) = some ((w.slotAddDev t).1.registry, (w.slotAddDev t).2)
    have hallow : ∀ dev, w.registry.allow2Create dev = w.allow2Create dev := fun dev => by
      cases dev <;> rfl
    simp only [slotAddDev, hallow]
    split
    · rfl
    · split <;> rfl
  | signalDelDev t =>
    change w.registry.slotDelDev t = (w.slotDelDev t).map fun p => (p.1.registry, p.2)
    rw [slotDelDev, slotDelDev]
    split
    · rfl
    · rw [Option.map_map]
      rfl

/-- What is no request leaves the registry alone and answers nothing. -/
theorem registry_of_other {w w' : UtisDeviceWorker} {wi : WorkerInput} {out : List Effect}
    (hne : ∀ r : Request, wi ≠ r.slot) (hs : worker.step w wi = some (w', out)) :
    w'.registry = w.registry ∧ results out = [] := by
  obtain ⟨⟨t, rfl | rfl⟩, -⟩ | ⟨-, rfl, rfl⟩ | ⟨-, -, ht⟩ | ⟨d, socket, -, -, rfl, rfl⟩ |
    ⟨socket, -, -, rfl, rfl⟩ := worker_cases hs
  · exact absurd rfl (hne (.signalAddDev t))
  · exact absurd rfl (hne (.signalDelDev t))
  · rw [slotGetLatestData, getLatestData]
    split <;> exact ⟨rfl, rfl⟩
  · rw [UtisDeviceWorker.timeout] at ht
    split at ht <;> · obtain ⟨rfl, rfl⟩ := Prod.mk.inj ht; exact ⟨rfl, rfl⟩
  · exact ⟨rfl, rfl⟩
  · exact ⟨rfl, rfl⟩

theorem ApplicationInput.outer_ne_slot {i : ApplicationInput} {wi : WorkerInput}
    (hi : i.outer = some wi) (r : Request) : wi ≠ r.slot := by
  cases i <;> simp only [outer, Option.some.injEq, reduceCtorEq] at hi <;> rw [← hi] <;>
    cases r <;> simp [Request.slot]

theorem UtisDeviceSignal.slot?_ne_slot {signal : UtisDeviceSignal} {wi : WorkerInput}
    (hnone : signal.request? = none) (hi : signal.slot? = some wi) (r : Request) : wi ≠ r.slot := by
  cases signal <;> simp only [request?, reduceCtorEq] at hnone <;>
    simp only [slot?, Option.some.injEq, reduceCtorEq] at hi
  rw [← hi]
  cases r <;> simp [Request.slot]

/-! ## The rows -/

theorem Widget.click_recount (w : Widget) (row : ℕ) : w.recount.click row = w.click row := rfl

/-- Where the count is right, counting again changes nothing. -/
theorem Widget.signalAddDevResult_recount {w w' : Widget} {n : String} {success : Bool}
    (hcount : w.huaYunDevCount.toNat = w.huaYunDevList.length)
    (hset : w.signalAddDevResult n success = some w') :
    w.recount.signalAddDevResult n success = some w'.recount := by
  obtain ⟨rows, hrows, rfl⟩ := Option.map_eq_some_iff.mp hset
  rw [hcount] at hrows
  rw [signalAddDevResult, recount, Int.toNat_natCast, hrows, Option.map_some]
  simp only [recount, (le_of_updateEach hrows).2]

/-- A row of the grid depends on its own key only. -/
theorem HuaYunDevInfo.nth_congr {settings settings' : QSettings} {k : ℕ}
    (h : (settings.value (devKey k)).getD "-1" = (settings'.value (devKey k)).getD "-1") :
    nth settings k = nth settings' k := by simp only [nth, ofCfg, h]

/-- **The rows `init` builds are those of a `cfg.ini` that lists their names.** -/
theorem Widget.recount_initCfg (count : ℤ) (cfg : Option QSettings) :
    ((⟨count, []⟩ : Widget).initCfg cfg).1.recount =
      .ofNames (((⟨count, []⟩ : Widget).initCfg cfg).1.huaYunDevList.map (·.name)) := by
  cases cfg with
  | none =>
    rw [ofNames, initCfg_some]
    rfl
  | some settings =>
    rw [initCfg_some]
    generalize hn : (settings.devCount.getD (-1)).toNat = n
    generalize hnames : ((List.range n).map (.nth settings)).map HuaYunDevInfo.name = names
    have hlen : names.length = n := by simp [← hnames]
    have hrows : ∀ k ∈ List.range n,
        HuaYunDevInfo.nth settings k = .nth (.ofNames names) k := fun k hk => by
      have hk' : k < names.length := by rw [hlen]; exact List.mem_range.mp hk
      refine HuaYunDevInfo.nth_congr ?_
      rw [QSettings.ofNames_value names hk', Option.getD_some]
      simp [← hnames, HuaYunDevInfo.nth, HuaYunDevInfo.ofCfg]
    have hcount : (QSettings.ofNames names).devCount.getD (-1) = n :=
      congrArg (Nat.cast (R := ℤ)) hlen
    rw [ofNames, initCfg_some, hcount, Int.toNat_natCast, recount, List.length_map,
      List.length_range, List.map_congr_left hrows]

/-! ## The program as `threads` -/

/-- The input of `threads` a step of the program is. -/
def threadsInput (e : ApplicationEntry) : Option ThreadsInput :=
  match e.input with
  | .openBtn row => some (.click row)
  | .process => (e.pre.signals.head?.bind UtisDeviceSignal.request?).map fun _ => .process
  | .deliver => (e.pre.notices.head?.bind Notice.result?).map fun _ => .deliver
  | _ => none

def threadsEntry (e : ApplicationEntry) : Option ThreadsEntry :=
  (threadsInput e).map fun i => ⟨e.pre.threads, i, results e.out, e.post.threads⟩

theorem threads_of_works (s : Application) {w : UtisDeviceWorker} {out : List Effect}
    (hw : w.registry = s.worker.registry) (hout : results out = []) :
    (s.works (w, out)).1.threads = s.threads := by
  rw [results_eq] at hout
  simp [Application.works, Application.threads, hw, hout]

section Threads

variable {s s' : Application} {i : ApplicationInput} {out : List Effect}

/-- **A step of the program is a step of `threads`, or nothing there.** -/
theorem threads_of_advance (hk : Kept s) (hs : Advance s i s' out) :
    match threadsEntry ⟨s, i, out, s'⟩ with
    | none => s'.threads = s.threads ∧ results out = []
    | some e => e.pre = s.threads ∧ e.post = s'.threads ∧ e.out = results out ∧
        UtisDevice.threads.step e.pre e.input = some (e.post, e.out) := by
  cases hs with
  | @openBtn row msg request hclick =>
    refine ⟨rfl, rfl, rfl, ?_⟩
    simp [UtisDevice.threads, Application.threads, Widget.click_recount, hclick,
      Application.showMsg]
  | clearBtn => exact ⟨rfl, rfl⟩
  | edit => exact ⟨rfl, rfl⟩
  | timer =>
    exact ⟨by simp [Application.threads, Application.timer, UtisDeviceSignal.request?], rfl⟩
  | @process signal signals w out hsignals hslot =>
    obtain ⟨-, -, ⟨rfl, hnew, rfl, rfl⟩ | ⟨wi, hwi, hstarted, hw⟩⟩ :=
      hk.process_cases hsignals hslot
    · have hnone : threadsEntry ⟨s, .process, [], ({ s with signals := signals }.works
          (startUp, [])).1⟩ = none := by
        simp [threadsEntry, threadsInput, hsignals, UtisDeviceSignal.request?]
      rw [hnone]
      refine ⟨?_, rfl⟩
      simp only [Application.works, Application.threads, hsignals, hnew, notices_nil,
        List.append_nil]
      rfl
    · cases hr : signal.request? with
      | none =>
        obtain ⟨hreg, hout⟩ := registry_of_other (signal.slot?_ne_slot hr hwi) hw
        have hnone : threadsEntry ⟨s, .process, out, ({ s with signals := signals }.works
            (w, out)).1⟩ = none := by simp [threadsEntry, threadsInput, hsignals, hr]
        rw [hnone, threads_of_works { s with signals := signals } hreg hout]
        refine ⟨?_, hout⟩
        simp [Application.threads, hsignals, hr]
      | some request =>
        obtain rfl : wi = request.slot := by
          simpa [hwi] using UtisDeviceSignal.slot?_of_request? hr
        have hsome : threadsEntry ⟨s, .process, out, ({ s with signals := signals }.works
            (w, out)).1⟩ = some ⟨s.threads, .process, results out,
              ({ s with signals := signals }.works (w, out)).1.threads⟩ := by
          simp [threadsEntry, threadsInput, hsignals, hr]
        rw [hsome]
        refine ⟨rfl, rfl, rfl, ?_⟩
        have hreg := registry_step s.worker request
        rw [hw] at hreg
        simp [UtisDevice.threads, Application.threads, hsignals, hr, hreg, Application.works,
          results_eq]
  | @occur i wi w out hi hw =>
    obtain ⟨hreg, hout⟩ := registry_of_other (ApplicationInput.outer_ne_slot hi) hw
    have hnone : threadsEntry ⟨s, i, out, (s.works (w, out)).1⟩ = none := by
      cases i <;> simp [ApplicationInput.outer] at hi <;> rfl
    rw [hnone]
    exact ⟨threads_of_works s hreg hout, hout⟩
  | @shown msg notices hnotices =>
    have hnone : threadsEntry ⟨s, .deliver, [], { s with notices := notices }.showMsg msg⟩
        = none := by simp [threadsEntry, threadsInput, hnotices, Notice.result?]
    rw [hnone]
    simp [Application.threads, Application.showMsg, hnotices, Notice.result?, List.filterMap_cons]
  | @answered n success notices widget hnotices hset =>
    have hsome : threadsEntry ⟨s, .deliver, [], { s with widget := widget, notices := notices }⟩
        = some ⟨s.threads, .deliver, [],
            { s with widget := widget, notices := notices : Application }.threads⟩ := by
      simp [threadsEntry, threadsInput, hnotices, Notice.result?]
    rw [hsome]
    refine ⟨rfl, rfl, rfl, ?_⟩
    simp [UtisDevice.threads, Application.threads, hnotices, Notice.result?,
      Widget.signalAddDevResult_recount hk.count hset]

variable {count : ℤ} {cfg : Option QSettings} {s₀ : Application} {h : List ApplicationEntry}

/-- Start-up asks for every row, in order. -/
theorem asked_of_initHuaYunDevice {w : Widget} {r : String × List Request}
    (hcount : w.huaYunDevCount.toNat = w.huaYunDevList.length)
    (h : w.initHuaYunDevice = some r) :
    r.2 = (w.huaYunDevList.map (·.name)).map .signalAddDev := by
  rw [Widget.initHuaYunDevice, hcount, readEach_eq _ (Nat.le_refl _), List.take_length,
    Option.map_some] at h
  obtain rfl := Option.some.inj h
  exact (List.map_map ..).symm

theorem threads_of_init (hinit : Application.init count cfg = some s₀) :
    s₀.threads = .ofNames s₀.names := by
  obtain ⟨r, hr, rfl⟩ := Option.map_eq_some_iff.mp hinit
  have hasked := asked_of_initHuaYunDevice (count_of_init (by rw [hr]; rfl)) hr
  have hrequests : (r.2.map Request.signal).filterMap UtisDeviceSignal.request? = r.2 := by
    simp [List.filterMap_map]
  simp only [Application.threads, Application.names, Threads.ofNames, Widget.recount_initCfg,
    Threads.mk.injEq, true_and]
  exact ⟨hrequests.trans hasked, rfl, rfl⟩

/-- **A run of the program is a run of `threads`.** -/
theorem threads_of_application (hinit : Application.init count cfg = some s₀)
    (hr : application.Run s₀ h s) :
    threads.Run (.ofNames s₀.names) (h.filterMap threadsEntry) s.threads := by
  rw [← threads_of_init hinit]
  refine hr.simulate Application.threads threadsEntry fun {t i u out} ht hs => ?_
  obtain ⟨h', ht⟩ := ht
  have hone := threads_of_advance (kept_of_run hinit ht) (advance_of_step hs)
  split at hone <;> rename_i hg <;> rw [hg]
  · exact hone.1
  · exact ⟨hone.1, hone.2.1, hone.2.2.2⟩

/-- …that emits the answers among what the program does. -/
theorem emitted_threads (hinit : Application.init count cfg = some s₀)
    (hr : application.Run s₀ h s) :
    emitted (h.filterMap threadsEntry) = results (emitted h) := by
  induction hr with
  | nil => rfl
  | @snoc h t u i out hr hs ih =>
    have hone := threads_of_advance (kept_of_run hinit hr) (advance_of_step hs)
    rw [List.filterMap_append, emitted_append, emitted_append, results_append, ih,
      emitted_singleton]
    split at hone <;> rename_i hg
    · simp [hg, hone.2]
    · simp [hg, hone.2.2.1]

end Threads

/-! ## The worker of the program -/

/-- The input of the started worker a step of the program is. -/
def workerInput (e : ApplicationEntry) : Option WorkerInput :=
  match e.input with
  | .process => e.pre.signals.head?.bind UtisDeviceSignal.slot?
  | i => i.outer

def startedEntry (e : ApplicationEntry) : Option WorkerEntry :=
  (workerInput e).map fun wi => ⟨e.pre.worker, wi, e.out, e.post.worker⟩

/-- The worker, as it is once started. -/
def Application.started (s : Application) : UtisDeviceWorker :=
  if s.worker.udpClient.isSome then s.worker else startUp

theorem Application.started_eq {s : Application} (h : s.worker.udpClient.isSome = true) :
    s.started = s.worker := if_pos h

section Worker

variable {s s' : Application} {i : ApplicationInput} {out : List Effect}

/-- **A step of the program is a step of the started worker, or nothing there.** -/
theorem started_of_advance (hk : Kept s) (hs : Advance s i s' out) :
    match startedEntry ⟨s, i, out, s'⟩ with
    | none => s'.started = s.started ∧ out = []
    | some e => e.pre = s.started ∧ e.post = s'.started ∧ e.out = out ∧
        worker.step e.pre e.input = some (e.post, e.out) := by
  cases hs with
  | openBtn => exact ⟨rfl, rfl⟩
  | clearBtn => exact ⟨rfl, rfl⟩
  | edit => exact ⟨rfl, rfl⟩
  | timer => exact ⟨rfl, rfl⟩
  | @process signal signals w out hsignals hslot =>
    obtain ⟨-, hopen, ⟨rfl, hnew, rfl, rfl⟩ | ⟨wi, hwi, hstarted, hw⟩⟩ :=
      hk.process_cases hsignals hslot
    · have hnone : startedEntry ⟨s, .process, [], ({ s with signals := signals }.works
          (startUp, [])).1⟩ = none := by
        simp [startedEntry, workerInput, hsignals, UtisDeviceSignal.slot?]
      rw [hnone]
      exact ⟨by rw [Application.started, Application.started, hnew]; rfl, rfl⟩
    · have hsome : startedEntry ⟨s, .process, out, ({ s with signals := signals }.works
          (w, out)).1⟩ = some ⟨s.worker, wi, out, w⟩ := by
        simp [startedEntry, workerInput, hsignals, hwi, Application.works]
      rw [hsome]
      exact ⟨(Application.started_eq hstarted).symm, (if_pos hopen).symm, rfl, hw⟩
  | @occur i wi w out hi hw =>
    obtain ⟨hstarted, -⟩ := hk.started_of_occur hi hw
    have hsome : startedEntry ⟨s, i, out, (s.works (w, out)).1⟩ = some ⟨s.worker, wi, out, w⟩ := by
      cases i <;> simp only [ApplicationInput.outer, Option.some.injEq, reduceCtorEq] at hi <;>
        rw [← hi] <;> rfl
    rw [hsome]
    exact ⟨(Application.started_eq hstarted).symm, (if_pos (udpClient_of_step hstarted hw)).symm,
      rfl, hw⟩
  | shown => exact ⟨rfl, rfl⟩
  | answered => exact ⟨rfl, rfl⟩

variable {count : ℤ} {cfg : Option QSettings} {s₀ : Application} {h : List ApplicationEntry}

theorem started_of_init (hinit : Application.init count cfg = some s₀) : s₀.started = startUp := by
  obtain ⟨r, -, rfl⟩ := Option.map_eq_some_iff.mp hinit
  rfl

/-- **A run of the program is a run of the started worker.** -/
theorem worker_of_application (hinit : Application.init count cfg = some s₀)
    (hr : application.Run s₀ h s) : worker.Run startUp (h.filterMap startedEntry) s.started := by
  rw [← started_of_init hinit]
  refine hr.simulate Application.started startedEntry fun {t i u out} ht hs => ?_
  obtain ⟨h', ht⟩ := ht
  have hone := started_of_advance (kept_of_run hinit ht) (advance_of_step hs)
  split at hone <;> rename_i hg <;> rw [hg]
  · exact hone.1
  · exact ⟨hone.1, hone.2.1, hone.2.2.2⟩

/-- …that does all the program does. -/
theorem emitted_started (hinit : Application.init count cfg = some s₀)
    (hr : application.Run s₀ h s) : emitted (h.filterMap startedEntry) = emitted h := by
  induction hr with
  | nil => rfl
  | @snoc h t u i out hr hs ih =>
    have hone := started_of_advance (kept_of_run hinit hr) (advance_of_step hs)
    rw [List.filterMap_append, emitted_append, emitted_append, ih, emitted_singleton]
    split at hone <;> rename_i hg
    · obtain ⟨-, rfl⟩ := hone
      simp [hg]
    · simp [hg, hone.2.2.1]

/-- **The program refines the two systems it is made of**, whatever `cfg.ini` says and whatever
happens in between: its requests and answers are a run of `threads`, with the answers it emits; its
worker, once started, a run of `worker`, with all it emits. -/
theorem application_refines (hinit : Application.init count cfg = some s₀)
    (hr : application.Run s₀ h s) :
    (threads.Run (.ofNames s₀.names) (h.filterMap threadsEntry) s.threads ∧
      emitted (h.filterMap threadsEntry) = results (emitted h)) ∧
    worker.Run startUp (h.filterMap startedEntry) s.started ∧
      emitted (h.filterMap startedEntry) = emitted h :=
  ⟨⟨threads_of_application hinit hr, emitted_threads hinit hr⟩,
    worker_of_application hinit hr, emitted_started hinit hr⟩

/-- A click and a poll, a round with a reply, and the log cleared. -/
theorem application_refines_run : ∃ h s, application.Run (.ofNames ["MWS600"]) h s ∧
    (h.filterMap threadsEntry).length = 3 ∧ (h.filterMap startedEntry).length = 6 ∧
    threads.Run (.ofNames ["MWS600"]) (h.filterMap threadsEntry) s.threads ∧
    worker.Run startUp (h.filterMap startedEntry) s.started := by
  obtain ⟨h, s, hr, hlen⟩ := Machine.exists_run (M := application) (s := .ofNames ["MWS600"])
    [.process, .process, .timer, .deliver, .deliver, .process, .timeout, .datagram (bytes ":0110"),
      .slotReadyRead, .timeout, .openBtn 0, .clearBtn, .deliver]
    (P := fun h _ => (h.filterMap threadsEntry).length = 3 ∧
      (h.filterMap startedEntry).length = 6) (by decide)
  obtain ⟨⟨hthreads, -⟩, hworker, -⟩ :=
    application_refines (Application.init_ofNames 0 ["MWS600"]) hr
  exact ⟨h, s, hr, hlen.1, hlen.2, by simpa using hthreads, hworker⟩

end Worker

end UtisDevice
