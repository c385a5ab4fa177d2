import UtisDevice.Machinery.Latest
import UtisDevice.Ui.Widget
import UtisDevice.Worker.Registry

/-!
# System/Threads — the window and the worker, joined by two queues

    rows ──click──▸ requests ──process──▸ registry ──emit──▸ results ──deliver──▸ rows

Each thread handles its queued signals one at a time and in order, so the system is a machine with
three inputs.  Its state keeps only what is in flight; what was emitted and what was delivered are
read off the history, and the first is the second followed by the results in flight
(`emitted_eq`).  A row shows the result last delivered for its name (`rows_eq`); the registry is
the worker's, after a run of the worker (`worker_of_run`).

Polls, timeouts and datagrams leave the registry alone and answer nothing, so they are no steps
here.
-/

namespace UtisDevice

open Machinery UtisDeviceWorker

/-! ## The machine -/

/-- The window, the worker, and the signals in flight between them. -/
structure Threads where
  widget : Widget
  requests : List Request
  worker : UtisDeviceWorker
  results : List (String × Bool)
  deriving DecidableEq, Repr

inductive ThreadsInput
  /-- A click on the button of a row. -/
  | click (row : ℕ)
  /-- The worker takes up the next request. -/
  | process
  /-- The window takes up the next result. -/
  | deliver
  deriving DecidableEq, Repr

/-- The slot `utisDevice` connects a request to. -/
def Request.slot : Request → WorkerInput
  | signalAddDev devType => .slotAddDev devType
  | signalDelDev devType => .slotDelDev devType

@[simp] def Request.devType : Request → String
  | signalAddDev devType => devType
  | signalDelDev devType => devType

/-- The system emits the results the worker emits. -/
def threads : Machine Threads ThreadsInput (String × Bool) where
  step s
    | .click row =>
      (s.widget.click row).map fun r => ({ s with requests := s.requests ++ [r.2] }, [])
    | .process =>
      match s.requests with
      | [] => none
      | request :: requests =>
        (worker.step s.worker request.slot).map fun r =>
          ({ s with
             requests := requests
             worker := r.1
             results := s.results ++ UtisDevice.results r.2 },
            UtisDevice.results r.2)
    | .deliver =>
      match s.results with
      | [] => none
      | (devType, success) :: results =>
        (s.widget.signalAddDevResult devType success).map fun widget =>
          ({ s with widget := widget, results := results }, [])

abbrev ThreadsEntry := Entry Threads ThreadsInput (String × Bool)

/-- `Widget::init`, once the worker has started: every row has been asked for. -/
def Threads.init (widget : Widget) : Option Threads :=
  widget.initHuaYunDevice.map fun r =>
    { widget := widget, requests := r.2, worker := startUp, results := [] }

/-- The system `init` builds for the names of `cfg.ini`. -/
def Threads.ofNames (names : List String) : Threads where
  widget := .ofNames names
  requests := names.map .signalAddDev
  worker := startUp
  results := []

theorem init_ofNames (names : List String) :
    Threads.init (.ofNames names) = some (.ofNames names) := by
  rw [Threads.init, Widget.initHuaYunDevice_eq (Widget.counted_ofNames names),
    Widget.rows_ofNames]
  simp [Threads.ofNames, Function.comp_def]

/-- The result a step delivers. -/
def delivered? (e : ThreadsEntry) : Option (String × Bool) :=
  match e.input with
  | .deliver => e.pre.results.head?
  | _ => none

/-- The results delivered to the window, in order. -/
def delivered (h : List ThreadsEntry) : List (String × Bool) := h.filterMap delivered?

@[simp] theorem delivered_append (h h' : List ThreadsEntry) :
    delivered (h ++ h') = delivered h ++ delivered h' := List.filterMap_append

theorem delivered_eq_nil {e : ThreadsEntry} (h : e.input ≠ .deliver) : delivered [e] = [] := by
  obtain ⟨s, i, out, s'⟩ := e
  cases i with
  | click => rfl
  | process => rfl
  | deliver => exact absurd rfl h

theorem delivered_of_results {e : ThreadsEntry} {r : String × Bool} {rest : List (String × Bool)}
    (hi : e.input = .deliver) (h : e.pre.results = r :: rest) : delivered [e] = [r] := by
  simp [delivered, delivered?, hi, h]

/-! ## Taking a step apart -/

section Inversion

variable {s s' : Threads} {out : List (String × Bool)}

theorem click_inv {row : ℕ} (hs : threads.step s (.click row) = some (s', out)) :
    ∃ r, s.widget.click row = some r ∧
      s' = { s with requests := s.requests ++ [r.2] } ∧ out = [] := by
  obtain ⟨r, hclick, hr⟩ := Option.map_eq_some_iff.mp hs
  obtain ⟨rfl, rfl⟩ := Prod.mk.inj hr
  exact ⟨r, hclick, rfl, rfl⟩

theorem process_inv (hs : threads.step s .process = some (s', out)) :
    ∃ request requests w o, s.requests = request :: requests ∧
      worker.step s.worker request.slot = some (w, o) ∧ out = results o ∧
      s' = { s with requests := requests, worker := w, results := s.results ++ results o } := by
  cases hreq : s.requests with
  | nil => simp [threads, hreq] at hs
  | cons request requests =>
    simp only [threads, hreq] at hs
    obtain ⟨⟨w, o⟩, hstep, hr⟩ := Option.map_eq_some_iff.mp hs
    obtain ⟨rfl, rfl⟩ := Prod.mk.inj hr
    exact ⟨request, requests, w, o, rfl, hstep, rfl, rfl⟩

theorem deliver_inv (hs : threads.step s .deliver = some (s', out)) :
    ∃ n success rest widget, s.results = (n, success) :: rest ∧
      s.widget.signalAddDevResult n success = some widget ∧ out = [] ∧
      s' = { s with widget := widget, results := rest } := by
  cases hres : s.results with
  | nil => simp [threads, hres] at hs
  | cons r rest =>
    obtain ⟨n, success⟩ := r
    simp only [threads, hres] at hs
    obtain ⟨widget, hset, hr⟩ := Option.map_eq_some_iff.mp hs
    obtain ⟨rfl, rfl⟩ := Prod.mk.inj hr
    exact ⟨n, success, rest, widget, rfl, hset, rfl, rfl⟩

end Inversion

/-! ## The worker's side -/

/-- The step of the worker in a step of the system. -/
def workerEntry (e : ThreadsEntry) : Option WorkerEntry :=
  match e.input, e.pre.requests with
  | .process, request :: _ =>
    (worker.step e.pre.worker request.slot).map fun r =>
      ⟨e.pre.worker, request.slot, r.2, r.1⟩
  | _, _ => none

/-- **A run of the system is a run of the worker.** -/
theorem worker_of_run {s s' : Threads} {h : List ThreadsEntry} (hr : threads.Run s h s') :
    worker.Run s.worker (h.filterMap workerEntry) s'.worker := by
  refine hr.simulate (·.worker) workerEntry fun {t i u out} _ hs => ?_
  cases i with
  | click row =>
    obtain ⟨r, -, rfl, -⟩ := click_inv hs
    rfl
  | process =>
    obtain ⟨request, requests, w, o, hreq, hstep, -, rfl⟩ := process_inv hs
    simp [workerEntry, hreq, hstep]
  | deliver =>
    obtain ⟨n, success, rest, widget, -, -, -, rfl⟩ := deliver_inv hs
    rfl

/-- **All the worker can answer to a request**, on the names online. -/
inductive Served (w : UtisDeviceWorker) :
    Request → UtisDeviceWorker → List (String × Bool) → Prop
  | invalid {n : String} (hn : n ∉ w.online) : Served w (.signalAddDev n) w []
  | admitted {n : String} {w' : UtisDeviceWorker}
      (hfree : ∀ m ∈ w.online, categoryOf m ≠ categoryOf n) (hw : w'.online = w.online ++ [n]) :
      Served w (.signalAddDev n) w' [(n, true)]
  | refused {n : String} (htaken : ∃ m ∈ w.online, categoryOf m = categoryOf n) :
      Served w (.signalAddDev n) w [(n, false)]
  | absent {n : String} (hn : n ∉ w.online) : Served w (.signalDelDev n) w []
  | removed {n : String} {w' : UtisDeviceWorker} (hn : n ∈ w.online)
      (hw : w'.online = w.online.filter (· ≠ n)) : Served w (.signalDelDev n) w' [(n, false)]

theorem served_of_step {w w' : UtisDeviceWorker} {request : Request} {out : List Effect}
    (h : Registered w.onlineDev) (hs : worker.step w request.slot = some (w', out)) :
    Served w request w' (results out) := by
  cases request with
  | signalAddDev n =>
    obtain rfl : (w.slotAddDev n).1 = w' := congrArg Prod.fst (Option.some.inj hs)
    obtain rfl : (w.slotAddDev n).2 = out := congrArg Prod.snd (Option.some.inj hs)
    obtain ⟨hv, hw, hout⟩ | ⟨-, hfree, hw, hout⟩ | ⟨-, htaken, hw, hout⟩ := addDev_registered h n
    · rw [hw, hout]
      refine .invalid fun hn => ?_
      rw [isvalid_of_mem_online h hn] at hv
      exact absurd hv (by decide)
    · rw [hout]
      exact .admitted hfree hw
    · rw [hw, hout]
      exact .refused htaken
  | signalDelDev n =>
    replace hs : w.slotDelDev n = some (w', out) := hs
    obtain ⟨hn, hw⟩ | ⟨hn, u, o, hdel, hw, hout⟩ := delDev_registered h n
    · obtain ⟨rfl, rfl⟩ : w = w' ∧ [] = out := by simpa [hw] using hs
      exact .absent hn
    · obtain ⟨rfl, rfl⟩ : u = w' ∧ o = out := by simpa [hdel] using hs
      rw [hout]
      exact .removed hn hw

/-- A request is answered at most once. -/
theorem Served.length_le {w w' : UtisDeviceWorker} {request : Request}
    {out : List (String × Bool)} (h : Served w request w' out) : out.length ≤ 1 := by
  cases h <;> simp

/-- Other names are left alone, and not answered. -/
theorem Served.frame {w w' : UtisDeviceWorker} {request : Request} {out : List (String × Bool)}
    (h : Served w request w' out) {n : String} (hn : request.devType ≠ n) :
    (n ∈ w'.online ↔ n ∈ w.online) ∧ ∀ b, (n, b) ∉ out := by
  replace hn := Ne.symm hn
  cases h with
  | invalid => exact ⟨Iff.rfl, by simp⟩
  | admitted _ hw => exact ⟨by simpa [hw] using fun h => absurd h hn, by simpa using hn⟩
  | refused => exact ⟨Iff.rfl, by simpa using hn⟩
  | absent => exact ⟨Iff.rfl, by simp⟩
  | removed _ hw => exact ⟨by simpa [hw] using fun _ => hn, by simpa using hn⟩

/-- Only a name that was offline is answered with `true`. -/
theorem Served.notMem_of_true {w w' : UtisDeviceWorker} {request : Request}
    {out : List (String × Bool)} (h : Served w request w' out) {n : String} :
    (n, true) ∈ out → n ∉ w.online := by
  intro hout
  cases h with
  | @admitted m _ hfree =>
    obtain rfl : n = m := by simpa using hout
    exact fun hn => hfree n hn rfl
  | invalid => simp at hout
  | refused => simp at hout
  | absent => simp at hout
  | removed => simp at hout

/-- Only a delete of it takes a name off. -/
theorem Served.mem_online {w w' : UtisDeviceWorker} {request : Request}
    {out : List (String × Bool)} (h : Served w request w' out) {n : String}
    (hne : request ≠ .signalDelDev n) (hn : n ∈ w.online) : n ∈ w'.online := by
  cases h with
  | invalid => exact hn
  | admitted _ hw => simp [hw, hn]
  | refused => exact hn
  | absent => exact hn
  | @removed m _ _ hw =>
    have hm : n ≠ m := fun he => hne (by rw [he])
    simp [hw, hn, hm]

/-! ## All a step can do -/

/-- The rows keep their names, the registry its invariant, and whatever is asked for or online is
the name of a row. -/
structure Wired (names : List String) (s : Threads) : Prop where
  counted : s.widget.Counted
  rows : s.widget.rows.map Prod.fst = names
  registered : Registered s.worker.onlineDev
  requests : ∀ r ∈ s.requests, r.devType ∈ names
  online : ∀ n ∈ s.worker.online, n ∈ names

/-- **All a step can do.** -/
inductive Stepped (s : Threads) : ThreadsInput → Threads → List (String × Bool) → Prop
  | click {row : ℕ} {n : String} {shown : Bool} (hrow : s.widget.rows[row]? = some (n, shown)) :
      Stepped s (.click row)
        { s with requests :=
            s.requests ++ [if shown then .signalDelDev n else .signalAddDev n] } []
  | process {request : Request} {requests : List Request} {w : UtisDeviceWorker}
      {out : List (String × Bool)} (hreq : s.requests = request :: requests)
      (hserved : Served s.worker request w out) :
      Stepped s .process
        { s with requests := requests, worker := w, results := s.results ++ out } out
  | deliver {n : String} {success : Bool} {results : List (String × Bool)} {widget : Widget}
      (hres : s.results = (n, success) :: results) (hcount : widget.Counted)
      (hrows : widget.rows =
        s.widget.rows.map fun row => if n = row.1 then (row.1, success) else row) :
      Stepped s .deliver { s with widget := widget, results := results } []

variable {names : List String} {s s' : Threads} {i : ThreadsInput} {out : List (String × Bool)}

theorem stepped_of_step (hw : Wired names s) (hs : threads.step s i = some (s', out)) :
    Stepped s i s' out := by
  cases i with
  | click row =>
    obtain ⟨r, hclick, rfl, rfl⟩ := click_inv hs
    have hrow := s.widget.click_map_snd row
    rw [hclick, Option.map_some] at hrow
    obtain ⟨⟨n, shown⟩, hrow, hreq⟩ := Option.map_eq_some_iff.mp hrow.symm
    rw [← hreq]
    exact .click hrow
  | process =>
    obtain ⟨request, requests, w, o, hreq, hstep, rfl, rfl⟩ := process_inv hs
    exact .process hreq (served_of_step hw.registered hstep)
  | deliver =>
    obtain ⟨n, success, rest, widget, hres, hset, rfl, rfl⟩ := deliver_inv hs
    obtain ⟨widget', hset', hcount, hrows⟩ := Widget.signalAddDevResult_eq hw.counted n success
    obtain rfl : widget' = widget := Option.some.inj (hset'.symm.trans hset)
    exact .deliver hres hcount hrows

/-- A request queued can be processed… -/
theorem process_enabled {request : Request} {requests : List Request}
    (hreq : s.requests = request :: requests) :
    ∃ s' out, threads.step s .process = some (s', out) ∧ s'.requests = requests := by
  have hslot : (worker.step s.worker request.slot).isSome = true := by
    cases request with
    | signalAddDev n => rfl
    | signalDelDev n => exact slotDelDev_isSome s.worker n
  obtain ⟨r, hr⟩ := Option.isSome_iff_exists.mp hslot
  simp [threads, hreq, hr]

/-- …a result in flight delivered… -/
theorem deliver_enabled (hw : Wired names s) {r : String × Bool} {results : List (String × Bool)}
    (hres : s.results = r :: results) :
    ∃ s' out, threads.step s .deliver = some (s', out) ∧ s'.results = results := by
  obtain ⟨n, success⟩ := r
  obtain ⟨widget, hset, -⟩ := Widget.signalAddDevResult_eq hw.counted n success
  simp [threads, hres, hset]

/-- …and a row clicked. -/
theorem click_enabled {row : ℕ} {n : String} {shown : Bool}
    (hrow : s.widget.rows[row]? = some (n, shown)) :
    ∃ s' out, threads.step s (.click row) = some (s', out) ∧ s'.requests =
      s.requests ++ [if shown then .signalDelDev n else .signalAddDev n] := by
  have hclick := s.widget.click_map_snd row
  rw [hrow, Option.map_some] at hclick
  obtain ⟨r, hr, hreq⟩ := Option.map_eq_some_iff.mp hclick
  simp [threads, hr, hreq]

/-! ## What a run keeps -/

theorem wired_ofNames (names : List String) : Wired names (.ofNames names) where
  counted := Widget.counted_ofNames names
  rows := by simp [Threads.ofNames, Widget.rows_ofNames, Function.comp_def]
  registered := .nil
  requests := by simp [Threads.ofNames]
  online := by simp [Threads.ofNames, startUp, slotStart, initTimer, initUdpClient, online]

theorem wired_step (hw : Wired names s) (hstep : Stepped s i s' out)
    (hreg : Registered s'.worker.onlineDev) : Wired names s' := by
  cases hstep with
  | @click row n shown hrow =>
    refine ⟨hw.counted, hw.rows, hreg, fun r hr => ?_, hw.online⟩
    rcases List.mem_append.mp hr with hr | hr
    · exact hw.requests r hr
    · have hn : n ∈ names := by
        rw [← hw.rows]
        exact List.mem_map_of_mem (List.mem_of_getElem? hrow)
      obtain rfl := List.mem_singleton.mp hr
      cases shown <;> exact hn
  | @process request requests w out hreq hserved =>
    have hask : request.devType ∈ names := hw.requests request (by simp [hreq])
    refine ⟨hw.counted, hw.rows, hreg, fun r hr => hw.requests r (by simp [hreq, hr]), ?_⟩
    intro n hn
    cases hserved with
    | invalid => exact hw.online n hn
    | admitted hfree honline =>
      rw [honline] at hn
      rcases List.mem_append.mp hn with hn | hn
      · exact hw.online n hn
      · obtain rfl := List.mem_singleton.mp hn
        exact hask
    | refused => exact hw.online n hn
    | absent => exact hw.online n hn
    | removed hm honline =>
      rw [honline] at hn
      exact hw.online n (List.mem_of_mem_filter hn)
  | @deliver n success results widget hres hcount hrows =>
    refine ⟨hcount, ?_, hreg, hw.requests, hw.online⟩
    rw [← hw.rows, hrows, List.map_map]
    refine List.map_congr_left fun row _ => ?_
    simp only [Function.comp_apply]
    split <;> rfl

variable {h : List ThreadsEntry}

theorem wired_of_run (hr : threads.Run (.ofNames names) h s) : Wired names s := by
  induction hr with
  | nil => exact wired_ofNames names
  | snoc hr hs ih =>
    exact wired_step ih (stepped_of_step ih hs) (registered_of_run (worker_of_run (hr.snoc hs)))

theorem wired_of_reaches (hr : threads.Reaches (.ofNames names) s) : Wired names s :=
  let ⟨_, hr⟩ := hr
  wired_of_run hr

/-- **No result is lost, repeated or reordered**: what was emitted is what was delivered and what is
in flight. -/
theorem emitted_eq (hr : threads.Run (.ofNames names) h s) :
    emitted h = delivered h ++ s.results := by
  induction hr with
  | nil => rfl
  | @snoc h t u i out hr hs ih =>
    rw [emitted_append, emitted_singleton, delivered_append, ih]
    cases stepped_of_step (wired_of_run hr) hs with
    | click => rw [delivered_eq_nil (by simp)]; simp
    | process => rw [delivered_eq_nil (by simp)]; simp
    | deliver hres => rw [delivered_of_results rfl hres, hres]; simp

/-- **A row shows the result last delivered for its name.** -/
theorem rows_eq (hr : threads.Run (.ofNames names) h s) :
    s.widget.rows = names.map fun n => (n, latest false n (delivered h)) := by
  induction hr with
  | nil => exact Widget.rows_ofNames names
  | @snoc h t u i out hr hs ih =>
    rw [delivered_append]
    cases stepped_of_step (wired_of_run hr) hs with
    | click => rwa [delivered_eq_nil (by simp), List.append_nil]
    | process => rwa [delivered_eq_nil (by simp), List.append_nil]
    | @deliver n success results widget hres hcount hrows =>
      rw [delivered_of_results rfl hres, hrows, ih, List.map_map]
      refine List.map_congr_left fun m _ => ?_
      simp only [Function.comp_apply, latest_append, latest_singleton]
      split <;> rfl

/-- What a row shows, read off the history. -/
theorem shown_iff (hr : threads.Run (.ofNames names) h s) {row : HuaYunDevInfo}
    (hrow : row ∈ s.widget.huaYunDevList) :
    row.stateWidget.online = latest false row.name (delivered h) := by
  have hmem : (row.name, row.stateWidget.online) ∈ s.widget.rows :=
    List.mem_map.mpr ⟨row, hrow, rfl⟩
  rw [rows_eq hr] at hmem
  obtain ⟨n, -, heq⟩ := List.mem_map.mp hmem
  obtain ⟨rfl, hon⟩ := Prod.mk.inj heq
  exact hon.symm

end UtisDevice
