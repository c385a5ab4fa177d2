import UtisDevice.Machinery.Flow
import UtisDevice.System.Display
import UtisDevice.System.Projection
import UtisDevice.System.Requests

/-!
# System/Replay — the program is its requests, one after the other

Two threads and two queues make the registry and the answers no less sequential: at any moment they
are what the registry of cells makes of the requests taken up so far, and those are all that were
sent but the ones still posted (`replayed`).  As categories do not touch each other, only the order
of the requests *within each category* matters in the end: two runs that agree there have the same
devices online and the same rows once nothing is posted, however their threads took turns and
whatever was clicked, polled and received besides (`schedule_independent`).
-/

namespace UtisDevice

open Machinery UtisDeviceWorker

/-! ## Requests sent and taken up -/

/-- The request a click sends. -/
def asks (e : ThreadsEntry) : List Request :=
  match e.input with
  | .click row => ((e.pre.widget.click row).map Prod.snd).toList
  | _ => []

/-- The request a step takes up. -/
def takes (e : ThreadsEntry) : List Request :=
  match e.input with
  | .process => e.pre.requests.head?.toList
  | _ => []

section Threads

variable {names : List String} {s : Threads} {h : List ThreadsEntry}

/-- **No request is lost, repeated or reordered.** -/
theorem requests_flow (hr : threads.Run (.ofNames names) h s) :
    names.map .signalAddDev ++ h.flatMap asks = h.flatMap takes ++ s.requests := by
  refine hr.flow (·.requests) asks takes fun {t i u out} _ hs => ?_
  cases i with
  | click row =>
    obtain ⟨r, hclick, rfl, -⟩ := click_inv hs
    simp [asks, takes, hclick]
  | process =>
    obtain ⟨request, requests, w, o, hreq, -, -, rfl⟩ := process_inv hs
    simp [asks, takes, hreq]
  | deliver =>
    obtain ⟨n, success, rest, widget, -, -, -, rfl⟩ := deliver_inv hs
    simp [asks, takes]

/-- **The worker has done what the requests taken up make of an empty registry.** -/
theorem replay_of_run (hr : threads.Run (.ofNames names) h s) :
    (s.worker.online, emitted h) =
      serveAll isvalid categoryOf ((h.flatMap takes).map Request.ask) [] := by
  induction hr with
  | nil => rfl
  | @snoc h t u i out hr hs ih =>
    rw [emitted_append, emitted_singleton, List.flatMap_append, List.flatMap_singleton,
      List.map_append]
    cases i with
    | click row =>
      obtain ⟨r, -, rfl, rfl⟩ := click_inv hs
      simpa [takes] using ih
    | process =>
      obtain ⟨request, requests, w, o, hreq, hstep, rfl, rfl⟩ := process_inv hs
      obtain ⟨w', o', hserves, -, hserve⟩ := step_serves (wired_of_run hr).registered request
      obtain ⟨rfl, rfl⟩ : w' = w ∧ o' = o := by simpa [hserves] using hstep
      rw [show takes ⟨t, .process, _, _⟩ = [request] by simp [takes, hreq], List.map_singleton,
        serveAll_concat, ← ih, ← hserve]
    | deliver =>
      obtain ⟨n, success, rest, widget, -, -, rfl, rfl⟩ := deliver_inv hs
      simpa [takes] using ih

end Threads

/-! ## The program -/

/-- The request a step of the program sends. -/
def requested (e : ApplicationEntry) : List Request :=
  match e.input with
  | .openBtn row => ((e.pre.widget.click row).map Prod.snd).toList
  | _ => []

/-- Only a click sends one. -/
theorem requested_of_unclicked {e : ApplicationEntry} (hi : e.input.isClick = false) :
    requested e = [] := by
  obtain ⟨pre, i, out, post⟩ := e
  cases i with
  | openBtn row => simp [ApplicationInput.isClick] at hi
  | clearBtn => rfl
  | edit history => rfl
  | timer => rfl
  | process => rfl
  | timeout => rfl
  | datagram d => rfl
  | slotReadyRead => rfl
  | deliver => rfl

/-- The requests of a history of the program, those of start-up first. -/
def requests (s₀ : Application) (h : List ApplicationEntry) : List Request :=
  s₀.names.map .signalAddDev ++ h.flatMap requested

theorem asks_threads (h : List ApplicationEntry) :
    (h.filterMap threadsEntry).flatMap asks = h.flatMap requested := by
  rw [List.filterMap_eq_flatMap_toList, List.flatMap_assoc]
  refine List.flatMap_congr fun e _ => ?_
  obtain ⟨s, i, out, s'⟩ := e
  cases i with
  | openBtn row => exact List.flatMap_singleton ..
  | process =>
    cases hr : s.signals.head?.bind UtisDeviceSignal.request? <;>
      simp [threadsEntry, threadsInput, hr, asks, requested]
  | deliver =>
    cases hr : s.notices.head?.bind Notice.result? <;>
      simp [threadsEntry, threadsInput, hr, asks, requested]
  | clearBtn => rfl
  | edit history => rfl
  | timer => rfl
  | timeout => rfl
  | datagram d => rfl
  | slotReadyRead => rfl

section Application

variable {count : ℤ} {cfg : Option QSettings} {s₀ s : Application} {h : List ApplicationEntry}

@[simp] theorem online_registry (w : UtisDeviceWorker) : w.registry.online = w.online := rfl

/-- The requests sent are those taken up and those still posted; the registry and the answers are
what the first make of an empty one. -/
theorem replay_of_application (hinit : Application.init count cfg = some s₀)
    (hr : application.Run s₀ h s) :
    ∃ done, requests s₀ h = done ++ s.threads.requests ∧
      (s.worker.online, results (emitted h))
        = serveAll isvalid categoryOf (done.map Request.ask) [] := by
  have hrun := threads_of_application hinit hr
  have hreplay := replay_of_run hrun
  rw [emitted_threads hinit hr] at hreplay
  refine ⟨_, ?_, hreplay⟩
  rw [requests, ← asks_threads]
  exact requests_flow hrun

/-- Once every request is taken up, they are what was made of an empty registry. -/
theorem replay_of_answered (hinit : Application.init count cfg = some s₀)
    (hr : application.Run s₀ h s) (hnone : s.threads.requests = []) :
    (s.worker.online, results (emitted h))
      = serveAll isvalid categoryOf ((requests s₀ h).map Request.ask) [] := by
  obtain ⟨done, hdone, hreplay⟩ := replay_of_application hinit hr
  rw [hreplay, hdone, hnone, List.append_nil]

/-- The requests that count for a category, in order. -/
def requestsFor (category : EDeviceCategory) (rs : List Request) : List Request :=
  rs.filter fun r => isvalid r.devType = true ∧ categoryOf r.devType = category

theorem ofClass_map_ask (category : EDeviceCategory) (rs : List Request) :
    Ask.ofClass isvalid categoryOf category (rs.map Request.ask)
      = (requestsFor category rs).map Request.ask := by
  rw [Ask.ofClass, requestsFor, List.filter_map]
  refine congrArg _ (List.filter_congr fun r _ => ?_)
  rw [Function.comp_apply, Request.ask_member]

/-- No request and no answer is posted. -/
def Application.Answered (s : Application) : Prop :=
  s.threads.requests = [] ∧ s.threads.results = []

/-- Once every answer is shown, the rows show the last one for their name. -/
theorem rows_of_answered (hinit : Application.init count cfg = some s₀)
    (hr : application.Run s₀ h s) (ha : s.Answered) :
    s.widget.rows = s₀.names.map fun n => (n, latest false n (results (emitted h))) := by
  have hrun := threads_of_application hinit hr
  have hrows : s.widget.rows = _ := rows_eq hrun
  have hemitted := emitted_eq hrun
  rw [emitted_threads hinit hr, ha.2, List.append_nil] at hemitted
  rw [hrows, hemitted]

/-- **The program is its requests, one after the other.**  Whatever happened, the requests sent are
some that were taken up and those still posted; the devices online, in order, and all answers so far
are what an empty registry makes of the first; and in each category they are what the requests for
that category alone make of its one cell. -/
theorem replayed (hinit : Application.init count cfg = some s₀) (hr : application.Run s₀ h s) :
    ∃ done, requests s₀ h = done ++ s.signals.filterMap UtisDeviceSignal.request? ∧
      (s.worker.online, results (emitted h))
        = serveAll isvalid categoryOf (done.map Request.ask) [] ∧
      ∀ category, (cells categoryOf s.worker.online category,
          Ask.answersOf categoryOf category (results (emitted h)))
        = Ask.cellAll ((requestsFor category done).map Request.ask) none := by
  obtain ⟨done, hdone, hreplay⟩ := replay_of_application hinit hr
  refine ⟨done, hdone, hreplay, fun category => ?_⟩
  have hclass :
      (cells categoryOf (serveAll isvalid categoryOf (done.map Request.ask) []).1 category,
        Ask.answersOf categoryOf category (serveAll isvalid categoryOf (done.map Request.ask) []).2)
        = Ask.cellAll (Ask.ofClass isvalid categoryOf category (done.map Request.ask)) none :=
    Ask.cells_serveAll category _ .nil
  rwa [← hreplay, ofClass_map_ask] at hclass

/-- A registry with requests posted still, one of them for a device refused before. -/
theorem replayed_run : ∃ h s, application.Run (.ofNames ["RD3000B", "RD3000C"]) h s ∧
    s.signals = [.signalDelDev "RD3000B", .signalGetLatestData, .signalAddDev "RD3000C"] ∧
    ∃ done, requests (.ofNames ["RD3000B", "RD3000C"]) h
        = done ++ s.signals.filterMap UtisDeviceSignal.request? ∧
      (s.worker.online, results (emitted h))
        = serveAll isvalid categoryOf (done.map Request.ask) [] := by
  obtain ⟨h, s, hr, hsignals⟩ := Machine.exists_run (M := application)
    (s := .ofNames ["RD3000B", "RD3000C"])
    [.process, .process, .process, .deliver, .deliver, .openBtn 0, .timer, .openBtn 1]
    (P := fun _ s => s.signals =
      [.signalDelDev "RD3000B", .signalGetLatestData, .signalAddDev "RD3000C"]) (by decide)
  obtain ⟨done, hdone, hreplay, -⟩ := replayed (Application.init_ofNames 0 _) hr
  exact ⟨h, s, hr, hsignals, done, hdone, hreplay⟩

/-- **How the threads took turns does not matter**, nor what else happened: two runs that sent the
same requests for each category, in the same order there, have once all are answered the same
devices online and show the same. -/
theorem schedule_independent {s' : Application} {h' : List ApplicationEntry}
    (hinit : Application.init count cfg = some s₀) (hr : application.Run s₀ h s)
    (hr' : application.Run s₀ h' s') (ha : s.Answered) (ha' : s'.Answered)
    (hsame : ∀ category,
      requestsFor category (requests s₀ h) = requestsFor category (requests s₀ h')) :
    s.worker.onlineDev.Perm s'.worker.onlineDev ∧ s.widget.rows = s'.widget.rows := by
  have hserve := replay_of_answered hinit hr ha.1
  have hserve' := replay_of_answered hinit hr' ha'.1
  obtain ⟨hperm, hanswers⟩ := Ask.perm_of_ofClass (.nil : Exclusive categoryOf [])
    (show ∀ category, Ask.ofClass isvalid categoryOf category ((requests s₀ h).map Request.ask)
        = Ask.ofClass isvalid categoryOf category ((requests s₀ h').map Request.ask) from
      fun category => by rw [ofClass_map_ask, ofClass_map_ask, hsame])
  rw [← hserve, ← hserve'] at hperm
  simp only [← hserve, ← hserve'] at hanswers
  constructor
  · rw [(kept_of_run hinit hr).registered.eq_map_new, (kept_of_run hinit hr').registered.eq_map_new]
    exact hperm.map _
  · rw [rows_of_answered hinit hr ha, rows_of_answered hinit hr' ha']
    refine List.map_congr_left fun n _ => ?_
    have hown : ∀ out : List (String × Bool), latest false n out
        = latest false n (Ask.answersOf categoryOf (categoryOf n) out) := fun out =>
      (latest_filter false fun w _ hw => by simp [hw]).symm
    rw [hown, hown (results (emitted h')), hanswers]

instance (s : Application) : Decidable s.Answered :=
  inferInstanceAs (Decidable (s.threads.requests = [] ∧ s.threads.results = []))

/-- Two devices closed and opened again in one order and in the other, with a poll in between. -/
theorem schedule_independent_run : ∃ h s h' s',
    application.Run (.ofNames ["MWS600", "VD920G"]) h s ∧
    application.Run (.ofNames ["MWS600", "VD920G"]) h' s' ∧
    s.worker.online = ["MWS600", "VD920G"] ∧ s'.worker.online = ["VD920G", "MWS600"] ∧
    s.worker.onlineDev.Perm s'.worker.onlineDev ∧ s.widget.rows = s'.widget.rows := by
  obtain ⟨h, s, hr, ha, honline, hreq⟩ := Machine.exists_run (M := application)
    (s := .ofNames ["MWS600", "VD920G"])
    [.process, .process, .process, .deliver, .deliver, .deliver, .deliver, .openBtn 0, .openBtn 1,
      .process, .process, .deliver, .deliver, .deliver, .deliver, .openBtn 0, .openBtn 1, .process,
      .process, .deliver, .deliver, .deliver, .deliver]
    (P := fun h s => s.Answered ∧ s.worker.online = ["MWS600", "VD920G"] ∧
      requests (.ofNames ["MWS600", "VD920G"]) h =
        [.signalAddDev "MWS600", .signalAddDev "VD920G", .signalDelDev "MWS600",
          .signalDelDev "VD920G", .signalAddDev "MWS600", .signalAddDev "VD920G"]) (by decide)
  obtain ⟨h', s', hr', ha', honline', hreq'⟩ := Machine.exists_run (M := application)
    (s := .ofNames ["MWS600", "VD920G"])
    [.process, .process, .process, .deliver, .deliver, .deliver, .deliver, .timer, .openBtn 1,
      .process, .process, .deliver, .deliver, .openBtn 1, .process, .openBtn 0, .process, .deliver,
      .deliver, .deliver, .deliver, .openBtn 0, .process, .deliver, .deliver]
    (P := fun h s => s.Answered ∧ s.worker.online = ["VD920G", "MWS600"] ∧
      requests (.ofNames ["MWS600", "VD920G"]) h =
        [.signalAddDev "MWS600", .signalAddDev "VD920G", .signalDelDev "VD920G",
          .signalAddDev "VD920G", .signalDelDev "MWS600", .signalAddDev "MWS600"]) (by decide)
  exact ⟨h, s, h', s', hr, hr', honline, honline',
    schedule_independent (Application.init_ofNames 0 _) hr hr' ha ha' fun category => by
      rw [hreq, hreq']
      cases category <;> decide⟩

end Application

end UtisDevice
