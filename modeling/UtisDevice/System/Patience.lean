import UtisDevice.System.Projection

/-!
# System/Patience — one request at a time for a row

A row goes wrong when it is clicked again before its last click is answered.  Take a name that is
listed once, and whose row is clicked only while nothing for it is on its way — other rows clicked
as they may be.  Then there is at most one request or answer for it at a time, and it is always in
one of four phases (`Phase`):

    idle ──click──▸ asked (add or delete) ──process──▸ answered ──deliver──▸ idle

In `idle` the row shows what the registry holds; and a device online is closed by waiting, clicking
once and waiting again (`patient_row`).
-/

namespace UtisDevice

open Machinery UtisDeviceWorker

/-! ## The phases of a name

Of the threads' state, what concerns one name: its requests, its answers, its rows, and whether it
is online. -/

/-- The requests for a name. -/
def requestsOf (n : String) (rs : List Request) : List Request := rs.filter fun r => r.devType = n

/-- The answers for a name. -/
def resultsOf (n : String) (rs : List (String × Bool)) : List (String × Bool) :=
  rs.filter fun r => r.1 = n

/-- Nothing for the name is on its way. -/
def Threads.Idle (n : String) (s : Threads) : Prop :=
  requestsOf n s.requests = [] ∧ resultsOf n s.results = []

instance (n : String) (s : Threads) : Decidable (s.Idle n) :=
  inferInstanceAs (Decidable (_ ∧ _))

/-- **Where a name is** between a click and its answer: nothing on its way and the row right, one
request posted that will be heeded, or one answer posted that says what is so. -/
inductive Phase (n : String) (s : Threads) : Prop
  | idle (hidle : s.Idle n) (hrow : ∀ b, (n, b) ∈ s.widget.rows → (b = true ↔ n ∈ s.worker.online))
  | adding (hreq : requestsOf n s.requests = [.signalAddDev n]) (hres : resultsOf n s.results = [])
      (hoff : n ∉ s.worker.online) (hrow : (n, true) ∉ s.widget.rows)
  | closing (hreq : requestsOf n s.requests = [.signalDelDev n])
      (hres : resultsOf n s.results = []) (hon : n ∈ s.worker.online)
  | answered {b : Bool} (hreq : requestsOf n s.requests = [])
      (hres : resultsOf n s.results = [(n, b)]) (hb : b = true ↔ n ∈ s.worker.online)

section Phase

variable {names : List String} {n : String} {s s' : Threads} {i : ThreadsInput}
  {out : List (String × Bool)} {h : List ThreadsEntry}

/-! ### Requests and answers of one name -/

theorem requestsOf_append (rs rs' : List Request) :
    requestsOf n (rs ++ rs') = requestsOf n rs ++ requestsOf n rs' := List.filter_append _ _

theorem resultsOf_append (rs rs' : List (String × Bool)) :
    resultsOf n (rs ++ rs') = resultsOf n rs ++ resultsOf n rs' := List.filter_append _ _

/-- What is posted for another name does not count. -/
theorem requestsOf_of_ne {r : Request} (hr : r.devType ≠ n) (rs : List Request) :
    requestsOf n (r :: rs) = requestsOf n rs :=
  List.filter_cons_of_neg (Bool.eq_false_iff.mp (decide_eq_false hr))

theorem requestsOf_own {r : Request} (hr : r.devType = n) (rs : List Request) :
    requestsOf n (r :: rs) = r :: requestsOf n rs := List.filter_cons_of_pos (decide_eq_true hr)

/-- Nor does what is answered for one. -/
theorem resultsOf_of_ne {r : String × Bool} (hr : r.1 ≠ n) (rs : List (String × Bool)) :
    resultsOf n (r :: rs) = resultsOf n rs := List.filter_cons_of_neg (by simpa using hr)

theorem resultsOf_own {r : String × Bool} (hr : r.1 = n) (rs : List (String × Bool)) :
    resultsOf n (r :: rs) = r :: resultsOf n rs := List.filter_cons_of_pos (by simpa using hr)

/-- No answer names it. -/
theorem resultsOf_eq_nil {rs : List (String × Bool)} (h : ∀ b, (n, b) ∉ rs) :
    resultsOf n rs = [] := by
  refine List.filter_eq_nil_iff.mpr fun r hr => ?_
  obtain ⟨m, b⟩ := r
  simpa using fun hm : m = n => h b (hm ▸ hr)

/-! ### What a step does to the phase -/

/-- A phase is a matter of the requests and answers for the name, its rows, and whether it is
online. -/
theorem Phase.congr (hp : Phase n s) (hreq : requestsOf n s'.requests = requestsOf n s.requests)
    (hres : resultsOf n s'.results = resultsOf n s.results)
    (honline : n ∈ s'.worker.online ↔ n ∈ s.worker.online)
    (hrows : ∀ b, (n, b) ∈ s'.widget.rows ↔ (n, b) ∈ s.widget.rows) : Phase n s' := by
  cases hp with
  | idle hidle hrow =>
    exact .idle ⟨hreq.trans hidle.1, hres.trans hidle.2⟩ fun b hb => by
      rw [honline]
      exact hrow b ((hrows b).mp hb)
  | adding hr hr' hoff hrow =>
    exact .adding (hreq.trans hr) (hres.trans hr') (mt honline.mp hoff) (mt (hrows true).mp hrow)
  | closing hr hr' hon => exact .closing (hreq.trans hr) (hres.trans hr') (honline.mpr hon)
  | answered hr hr' hb => exact .answered (hreq.trans hr) (hres.trans hr') (hb.trans honline.symm)

/-- While nothing is on its way the row is right, whichever phase it came from. -/
theorem Phase.row_of_idle (hp : Phase n s) (hidle : s.Idle n) {b : Bool}
    (hrow : (n, b) ∈ s.widget.rows) : b = true ↔ n ∈ s.worker.online := by
  cases hp with
  | idle _ hrows => exact hrows b hrow
  | adding hreq => simp [hidle.1] at hreq
  | closing hreq => simp [hidle.1] at hreq
  | answered _ hres => simp [hidle.2] at hres

/-- A click on a row of the name happens while nothing for it is on its way. -/
def Patient (n : String) (e : ThreadsEntry) : Prop :=
  ∀ row b, e.input = .click row → e.pre.widget.rows[row]? = some (n, b) → e.pre.Idle n

/-- **A patient click starts the next round; the other steps go through it.** -/
theorem phase_step (hp : Phase n s) (hs : Stepped s i s' out)
    (hpatient : Patient n ⟨s, i, out, s'⟩) : Phase n s' := by
  cases hs with
  | @click row m shown hrow =>
    by_cases hm : m = n
    · subst hm
      have hidle : s.Idle m := hpatient row shown rfl hrow
      have hshown := hp.row_of_idle hidle (List.mem_of_getElem? hrow)
      cases shown with
      | true =>
        refine .closing ?_ hidle.2 (hshown.mp rfl)
        rw [requestsOf_append, hidle.1]
        exact requestsOf_own rfl []
      | false =>
        have hoff : m ∉ s.worker.online := fun hon => by simpa using hshown.mpr hon
        refine .adding ?_ hidle.2 hoff fun htrue => hoff ((hp.row_of_idle hidle htrue).mp rfl)
        rw [requestsOf_append, hidle.1]
        exact requestsOf_own rfl []
    · refine hp.congr ?_ rfl Iff.rfl fun b => Iff.rfl
      rw [requestsOf_append, requestsOf_of_ne (by cases shown <;> simpa using hm)]
      exact List.append_nil _
  | @process request requests w out hreq hserved =>
    by_cases hn : request.devType = n
    · have hown : requestsOf n s.requests = request :: requestsOf n requests := by
        rw [hreq, requestsOf_own hn]
      cases hp with
      | idle hidle => simp [hidle.1] at hown
      | adding hr hres hoff hrow =>
        obtain ⟨rfl, hnil⟩ := List.cons.inj (hr.symm.trans hown)
        cases hserved with
        | invalid =>
          refine .idle ⟨hnil.symm, by simpa using hres⟩ fun b hb => ?_
          cases b with
          | true => exact absurd hb hrow
          | false => simpa using hoff
        | admitted _ hw =>
          refine .answered (b := true) hnil.symm ?_ (by simp [hw])
          rw [resultsOf_append, hres]
          exact resultsOf_own rfl []
        | refused =>
          refine .answered (b := false) hnil.symm ?_ (by simpa using hoff)
          rw [resultsOf_append, hres]
          exact resultsOf_own rfl []
      | closing hr hres hon =>
        obtain ⟨rfl, hnil⟩ := List.cons.inj (hr.symm.trans hown)
        cases hserved with
        | absent hoff => exact absurd hon hoff
        | removed _ hw =>
          refine .answered (b := false) hnil.symm ?_ (by simp [hw])
          rw [resultsOf_append, hres]
          exact resultsOf_own rfl []
      | answered hr => simp [hr] at hown
    · obtain ⟨honline, hout⟩ := hserved.frame hn
      refine hp.congr ?_ ?_ honline fun b => Iff.rfl
      · rw [hreq, requestsOf_of_ne hn]
      · rw [resultsOf_append, resultsOf_eq_nil hout, List.append_nil]
  | @deliver m success results widget hres hcount hrows =>
    by_cases hm : m = n
    · subst hm
      have hown : resultsOf m s.results = (m, success) :: resultsOf m results := by
        rw [hres]
        exact resultsOf_own rfl results
      cases hp with
      | idle hidle => simp [hidle.2] at hown
      | adding _ hr => simp [hr] at hown
      | closing _ hr => simp [hr] at hown
      | answered hreq hr hb =>
        obtain ⟨heq, hnil⟩ := List.cons.inj (hr.symm.trans hown)
        obtain ⟨-, rfl⟩ := Prod.mk.inj heq
        refine .idle ⟨hreq, hnil.symm⟩ fun b hmem => ?_
        rw [hrows] at hmem
        obtain ⟨row, -, hrow⟩ := List.mem_map.mp hmem
        split at hrow
        · obtain ⟨-, rfl⟩ := Prod.mk.inj hrow
          exact hb
        · rename_i hne
          exact absurd (congrArg Prod.fst hrow).symm hne
    · refine hp.congr rfl ?_ Iff.rfl fun b => ?_
      · rw [hres, resultsOf_of_ne hm]
      · rw [hrows]
        constructor
        · intro hmem
          obtain ⟨row, hrow, heq⟩ := List.mem_map.mp hmem
          split at heq
          · rename_i hrow'
            obtain ⟨hname, -⟩ := Prod.mk.inj heq
            exact absurd (hrow'.trans hname) hm
          · exact heq ▸ hrow
        · exact fun hmem => List.mem_map.mpr ⟨_, hmem, if_neg hm⟩

/-- A name listed once is asked for once. -/
theorem phase_ofNames (honce : names.count n ≤ 1) : Phase n (.ofNames names) := by
  have hreq : requestsOf n (Threads.ofNames names).requests =
      List.replicate (names.count n) (.signalAddDev n) := by
    rw [requestsOf, Threads.ofNames, List.filter_map, ← List.map_replicate, ← List.filter_eq]
    rfl
  have hoff : n ∉ (Threads.ofNames names).worker.online := List.not_mem_nil
  have hrow : (n, true) ∉ (Threads.ofNames names).widget.rows := by
    simp [Threads.ofNames, Widget.rows_ofNames]
  obtain hzero | hone : names.count n = 0 ∨ names.count n = 1 := by omega
  · rw [hzero] at hreq
    refine .idle ⟨hreq, rfl⟩ fun b hb => ?_
    cases b with
    | true => exact absurd hb hrow
    | false => simpa using hoff
  · rw [hone] at hreq
    exact .adding hreq rfl hoff hrow

/-- **A name clicked patiently is always in a phase.** -/
theorem phase_of_run (hr : threads.Run (.ofNames names) h s) (honce : names.count n ≤ 1)
    (hpatient : ∀ e ∈ h, Patient n e) : Phase n s := by
  induction hr with
  | nil => exact phase_ofNames honce
  | @snoc h t u i out hr hs ih =>
    exact phase_step (ih fun e he => hpatient e (List.mem_append_left _ he))
      (stepped_of_step (wired_of_run hr) hs)
      (hpatient _ (List.mem_append_right _ (List.mem_singleton_self _)))

end Phase

/-! ## The program

Its requests and answers are a run of `threads`, so the phases are those of its names too. -/

section Application

variable {count : ℤ} {cfg : Option QSettings} {s₀ s : Application} {h : List ApplicationEntry}
  {n : String}

/-- A click on a row of the name happens while nothing for it is on its way. -/
def ClicksPatiently (n : String) (e : ApplicationEntry) : Prop :=
  match e.input with
  | .openBtn row => e.pre.names[row]? = some n → e.pre.threads.Idle n
  | _ => True

instance (n : String) : DecidablePred (ClicksPatiently n) := fun e => by
  unfold ClicksPatiently
  split <;> infer_instance

/-- The names of the rows, read off what they show. -/
theorem names_eq (s : Application) : s.names = s.threads.widget.rows.map Prod.fst :=
  (List.map_map (g := Prod.fst) (f := fun row : HuaYunDevInfo => (row.name, row.stateWidget.online))
    (l := s.widget.huaYunDevList)).symm

/-- A row clicked patiently in the program is clicked patiently in `threads`. -/
theorem patient_threads (hpatient : ∀ e ∈ h, ClicksPatiently n e) :
    ∀ e ∈ h.filterMap threadsEntry, Patient n e := by
  intro e he row b hi hrow
  obtain ⟨⟨pre, i, out, post⟩, hmem, hentry⟩ := List.mem_filterMap.mp he
  obtain ⟨i', hi', rfl⟩ := Option.map_eq_some_iff.mp hentry
  obtain rfl : i' = .click row := hi
  cases i with
  | openBtn row' =>
    obtain rfl : row' = row := by simpa [threadsInput] using hi'
    refine hpatient _ hmem ?_
    have hname := congrArg (Option.map Prod.fst) hrow
    rwa [← List.getElem?_map, ← names_eq] at hname
  | process =>
    obtain ⟨_, -, hclick⟩ := Option.map_eq_some_iff.mp hi'
    exact absurd hclick (by simp)
  | deliver =>
    obtain ⟨_, -, hclick⟩ := Option.map_eq_some_iff.mp hi'
    exact absurd hclick (by simp)
  | clearBtn => simp [threadsInput] at hi'
  | edit history => simp [threadsInput] at hi'
  | timer => simp [threadsInput] at hi'
  | timeout => simp [threadsInput] at hi'
  | datagram d => simp [threadsInput] at hi'
  | slotReadyRead => simp [threadsInput] at hi'

/-- So a name clicked patiently in the program is always in a phase. -/
theorem phase_of_application (hinit : Application.init count cfg = some s₀)
    (hr : application.Run s₀ h s) (honce : s₀.names.count n ≤ 1)
    (hpatient : ∀ e ∈ h, ClicksPatiently n e) : Phase n s.threads :=
  phase_of_run (threads_of_application hinit hr) honce (patient_threads hpatient)

/-- A delete taken up leaves the name off. -/
theorem Served.notMem_of_delete {w w' : UtisDeviceWorker} {out : List (String × Bool)}
    (h : Served w (.signalDelDev n) w' out) : n ∉ w'.online := by
  cases h with
  | absent hn => exact hn
  | removed _ hw => simp [hw]

/-- A click on a row that shows its device open, taken up, takes the device off. -/
theorem offline_of_click (hk : Kept s) (hsignals : s.signals = []) {row : ℕ}
    (hrow : s.widget.rows[row]? = some (n, true)) : ∃ h₁ t, application.Run s h₁ t ∧
      (h₁.countP fun e => e.input.isClick) = 1 ∧ n ∉ t.worker.online := by
  have hclick := s.widget.click_map_snd row
  rw [hrow, Option.map_some] at hclick
  obtain ⟨⟨msg, request⟩, hclick, rfl⟩ := Option.map_eq_some_iff.mp hclick
  have hs : application.step s (.openBtn row) =
      some ({ s.showMsg msg with signals := [.signalDelDev n] }, []) := by
    simp [application, hclick, hsignals, Request.signal]
  obtain ⟨⟨t, out⟩, ht⟩ := Option.ne_none_iff_exists'.mp
    ((kept_step hk hs).process_enabled (by simp))
  refine ⟨_, t, (Machine.Run.single hs).append (.single ht), by simp [ApplicationInput.isClick], ?_⟩
  cases advance_of_step ht with
  | process hsignals hslot =>
    obtain ⟨rfl, rfl⟩ := List.cons.inj hsignals
    have hdelete : worker.step s.worker (Request.signalDelDev n).slot = some _ := hslot
    exact (served_of_step hk.registered hdelete).notMem_of_delete
  | occur hi => simp [ApplicationInput.outer] at hi

/-- **A row clicked patiently is right, and closes at one click.**  Take a name listed once whose
row is clicked only while no request and no answer for it is on its way.  While none is, the row
shows whether the device is online; and a device online can be closed by clicking its row no more
than once. -/
theorem patient_row (hinit : Application.init count cfg = some s₀) (hr : application.Run s₀ h s)
    (honce : s₀.names.count n ≤ 1) (hpatient : ∀ e ∈ h, ClicksPatiently n e) :
    (s.threads.Idle n → ∀ b, (n, b) ∈ s.widget.rows → (b = true ↔ n ∈ s.worker.online)) ∧
    ∃ h₁ t, application.Run s h₁ t ∧ (h₁.countP fun e => e.input.isClick) ≤ 1 ∧
      n ∉ t.worker.online := by
  refine ⟨fun hidle b hrow => (phase_of_application hinit hr honce hpatient).row_of_idle hidle hrow,
    ?_⟩
  obtain ⟨h₁, t, hI, hr₁, hsignals, hnotices⟩ := (kept_of_run hinit hr).exists_drained
  have hnone : (h₁.countP fun e => e.input.isClick) = 0 := List.countP_eq_zero.mpr fun e he => by
    rcases hI e he with hi | hi <;> simp [hi, ApplicationInput.isClick]
  by_cases hon : n ∈ t.worker.online
  · have hrt := hr.append hr₁
    -- nothing is on its way, so its row shows it open
    have hphase : Phase n t.threads := phase_of_application hinit hrt honce fun e he => by
      rcases List.mem_append.mp he with he | he
      · exact hpatient e he
      · rcases hI e he with hi | hi <;> simp [ClicksPatiently, hi]
    have hidle : t.threads.Idle n := by
      simp [Threads.Idle, Application.threads, hsignals, hnotices, requestsOf, resultsOf]
    have hwired := wired_of_run (threads_of_application hinit hrt)
    have hname := hwired.online n hon
    rw [← hwired.rows] at hname
    obtain ⟨⟨m, b⟩, hmem, rfl⟩ := List.mem_map.mp hname
    obtain rfl : b = true := (hphase.row_of_idle hidle hmem).mpr hon
    obtain ⟨row, hrow⟩ := List.mem_iff_getElem?.mp hmem
    obtain ⟨h₂, u, hr₂, hclicks, hoff⟩ := offline_of_click (kept_of_run hinit hrt) hsignals hrow
    exact ⟨h₁ ++ h₂, u, hr₁.append hr₂, by rw [List.countP_append, hnone, hclicks], hoff⟩
  · exact ⟨h₁, t, hr₁, by omega, hon⟩

/-- A row closed and opened again in its own time, while another is clicked twice at once. -/
theorem patient_row_run : ∃ h s, application.Run (.ofNames ["MWS600", "RD3000B"]) h s ∧
    s.signals = [.signalDelDev "RD3000B", .signalDelDev "RD3000B"] ∧ s.threads.Idle "MWS600" ∧
    (∀ b, ("MWS600", b) ∈ s.widget.rows → (b = true ↔ "MWS600" ∈ s.worker.online)) ∧
    ∃ h₁ t, application.Run s h₁ t ∧ (h₁.countP fun e => e.input.isClick) ≤ 1 ∧
      "MWS600" ∉ t.worker.online := by
  obtain ⟨h, s, hr, hpatient, hsignals, hidle⟩ := Machine.exists_run (M := application)
    (s := .ofNames ["MWS600", "RD3000B"])
    [.process, .process, .process, .deliver, .deliver, .deliver, .deliver, .openBtn 0, .process,
      .deliver, .deliver, .openBtn 0, .openBtn 1, .openBtn 1, .process, .deliver, .deliver]
    (P := fun h s => (∀ e ∈ h, ClicksPatiently "MWS600" e) ∧
      s.signals = [.signalDelDev "RD3000B", .signalDelDev "RD3000B"] ∧ s.threads.Idle "MWS600")
    (by decide)
  obtain ⟨hshown, hclose⟩ := patient_row (Application.init_ofNames 0 _) hr
    (by rw [Application.names_ofNames]; decide) hpatient
  exact ⟨h, s, hr, hsignals, hidle, hshown hidle, hclose⟩

end Application

end UtisDevice
