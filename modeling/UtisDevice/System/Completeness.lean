import UtisDevice.System.Display

/-!
# System/Completeness — when every device online is shown open

The result of an add is the *outcome of the request*, and the window takes it for the *state of the
device*: an add refused because its own name is online already is shown as a close.  A name is
`Settled` when each such add was followed by a delete of it.  After any run the last answer emitted
for a name online is `true` exactly when the name is settled (`faithful_of_run`); so once the
answers are delivered, the screen is complete exactly when every name is (`complete_iff`).  Two
requests for one row, one behind the other, are enough to unsettle it (`hides_device`).
-/

namespace UtisDevice

open Machinery UtisDeviceWorker

/-! ## Adds of a name online -/

/-- The step takes up an add of a name that is online. -/
def AddsOnline (n : String) (e : ThreadsEntry) : Prop :=
  e.input = .process ∧ e.pre.requests.head? = some (.signalAddDev n) ∧ n ∈ e.pre.worker.online

/-- The step takes up a delete of the name. -/
def Deletes (n : String) (e : ThreadsEntry) : Prop :=
  e.input = .process ∧ e.pre.requests.head? = some (.signalDelDev n)

instance (n : String) : DecidablePred (AddsOnline n) := fun e =>
  inferInstanceAs (Decidable (e.input = .process ∧
    e.pre.requests.head? = some (.signalAddDev n) ∧ n ∈ e.pre.worker.online))

instance (n : String) : DecidablePred (Deletes n) := fun e =>
  inferInstanceAs (Decidable (e.input = .process ∧
    e.pre.requests.head? = some (.signalDelDev n)))

/-- **Settled**: every add of the name taken up while it was online was followed by a delete. -/
def Settled (n : String) (h : List ThreadsEntry) : Prop :=
  ∀ pre e post, h = pre ++ e :: post → AddsOnline n e → ∃ e' ∈ post, Deletes n e'

variable {names : List String} {s : Threads} {h : List ThreadsEntry} {n : String}

theorem settled_nil : Settled n [] := fun pre e post hsplit => by simp at hsplit

theorem settled_of_forall (hnone : ∀ e ∈ h, ¬ AddsOnline n e) : Settled n h := by
  rintro pre e post rfl hadd
  exact absurd hadd (hnone e (by simp))

theorem settled_concat {e : ThreadsEntry} :
    Settled n (h ++ [e]) ↔ ¬ AddsOnline n e ∧ (Deletes n e ∨ Settled n h) := by
  constructor
  · intro hset
    constructor
    · intro hadd
      obtain ⟨e', he', -⟩ := hset h e [] rfl hadd
      simp at he'
    · refine or_iff_not_imp_left.mpr fun hdel => ?_
      rintro pre e₀ post rfl hadd
      obtain ⟨e', he', hdel'⟩ := hset pre e₀ (post ++ [e]) (by simp) hadd
      rcases List.mem_append.mp he' with he' | he'
      · exact ⟨e', he', hdel'⟩
      · obtain rfl := List.mem_singleton.mp he'
        exact absurd hdel' hdel
  · rintro ⟨hadd, hdel⟩ pre e₀ post hsplit hadd₀
    obtain ⟨rfl, rfl, rfl⟩ | ⟨post, rfl, rfl⟩ := concat_eq_append_cons.mp hsplit
    · exact absurd hadd₀ hadd
    · rcases hdel with hdel | hset
      · exact ⟨e, by simp, hdel⟩
      · obtain ⟨e', he', hdel'⟩ := hset pre e₀ post rfl hadd₀
        exact ⟨e', List.mem_append_left _ he', hdel'⟩

theorem not_addsOnline_of_deletes {e : ThreadsEntry} (hdel : Deletes n e) : ¬ AddsOnline n e :=
  fun hadd => by simpa [hdel.2] using hadd.2.1

/-- A name is settled when the last of its deletes and its adds while online was a delete. -/
theorem settled_iff_find : Settled n h ↔ (h.reverse.find? fun e =>
    decide (AddsOnline n e ∨ Deletes n e)).all (fun e => decide (Deletes n e)) = true := by
  induction h using List.reverseRecOn with
  | nil => simp [settled_nil]
  | append_singleton h e ih =>
    rw [settled_concat, ih, List.reverse_concat, List.find?_cons]
    by_cases hdel : Deletes n e
    · simp [hdel, not_addsOnline_of_deletes hdel]
    · by_cases hadd : AddsOnline n e
      · simp [hdel, hadd]
      · simp [hdel, hadd]

instance (n : String) (h : List ThreadsEntry) : Decidable (Settled n h) :=
  decidable_of_iff' _ settled_iff_find

/-! ## The last answer for a name -/

/-- The last answer for a name online is `true` exactly when the name is settled; a name offline is
settled. -/
def Faithful (n : String) (h : List ThreadsEntry) (s : Threads) : Prop :=
  (n ∈ s.worker.online → (latest false n (emitted h) = true ↔ Settled n h)) ∧
    (n ∉ s.worker.online → Settled n h)

/-- A step that neither asks for the name nor answers it keeps the last answer faithful. -/
theorem Faithful.frame {t : Threads} {e : ThreadsEntry} (hf : Faithful n h t)
    (honline : n ∈ e.post.worker.online ↔ n ∈ t.worker.online) (hout : ∀ b, (n, b) ∉ e.out)
    (hadd : ¬ AddsOnline n e) (hdel : ¬ Deletes n e) : Faithful n (h ++ [e]) e.post := by
  have hset : Settled n (h ++ [e]) ↔ Settled n h := by simp [settled_concat, hadd, hdel]
  have hlatest : latest false n (emitted (h ++ [e])) = latest false n (emitted h) := by
    rw [emitted_append, emitted_singleton, latest_append, latest_eq_of_notMem hout]
  rw [Faithful, hset, hlatest, honline]
  exact hf

/-- So does an add of the name… -/
theorem Faithful.add {t : Threads} {e : ThreadsEntry} (hf : Faithful n h t)
    (hadd : AddsOnline n e ↔ n ∈ t.worker.online)
    (hserved : Served t.worker (.signalAddDev n) e.post.worker e.out) :
    Faithful n (h ++ [e]) e.post := by
  rw [Faithful, emitted_append, emitted_singleton, latest_append, settled_concat, hadd]
  generalize e.post.worker = w, e.out = out at hserved ⊢
  cases hserved with
  | invalid hn => exact ⟨fun hon => absurd hon hn, fun _ => ⟨hn, Or.inr (hf.2 hn)⟩⟩
  | admitted hfree hw =>
    have hn : n ∉ t.worker.online := fun hn => hfree n hn rfl
    simp [hw, hn, hf.2 hn]
  | refused =>
    refine ⟨fun hn => ?_, fun hn => ⟨hn, Or.inr (hf.2 hn)⟩⟩
    -- refused for a name online: the answer is `false`, and no delete has followed
    simp [hn]

/-- …and a delete of it. -/
theorem Faithful.delete {t : Threads} {e : ThreadsEntry} (hadd : ¬ AddsOnline n e)
    (hdel : Deletes n e) (hserved : Served t.worker (.signalDelDev n) e.post.worker e.out) :
    Faithful n (h ++ [e]) e.post := by
  have hset : Settled n (h ++ [e]) := settled_concat.mpr ⟨hadd, Or.inl hdel⟩
  refine ⟨fun hn => absurd hn ?_, fun _ => hset⟩
  generalize e.post.worker = w, e.out = out at hserved ⊢
  cases hserved with
  | absent hn => exact hn
  | removed _ hw => simp [hw]

/-- **The last answer for a name is faithful after every run.** -/
theorem faithful_of_run (hr : threads.Run (.ofNames names) h s) : Faithful n h s := by
  induction hr with
  | nil =>
    refine ⟨fun hn => ?_, fun _ => settled_nil⟩
    simp [Threads.ofNames, startUp, slotStart, initTimer, initUdpClient, online] at hn
  | @snoc h t u i out hr hs ih =>
    cases stepped_of_step (wired_of_run hr) hs with
    | click => exact ih.frame Iff.rfl (by simp) (by simp [AddsOnline]) (by simp [Deletes])
    | deliver => exact ih.frame Iff.rfl (by simp) (by simp [AddsOnline]) (by simp [Deletes])
    | @process request requests w out hreq hserved =>
      by_cases hn : request.devType = n
      · subst hn
        cases request with
        | signalAddDev m =>
          exact ih.add (by simp [AddsOnline, hreq]) hserved
        | signalDelDev m =>
          exact .delete (by simp [AddsOnline, hreq]) (by simp [Deletes, hreq]) hserved
      · obtain ⟨honline, hout⟩ := hserved.frame hn
        refine ih.frame honline hout ?_ ?_
        · rintro ⟨-, hask, -⟩
          obtain rfl : request = .signalAddDev n := by simpa [hreq] using hask
          exact hn rfl
        · rintro ⟨-, hask⟩
          obtain rfl : request = .signalDelDev n := by simpa [hreq] using hask
          exact hn rfl

/-! ## Completeness -/

/-- Every device online is shown open by every row of its name. -/
def Complete (s : Threads) : Prop :=
  ∀ d ∈ s.worker.onlineDev, ∀ row ∈ s.widget.huaYunDevList,
    row.name = d.geteAShuErDevTypeStr → row.stateWidget.online = true

/-- Whatever is online has a row. -/
theorem exists_row (hw : Wired names s) (hn : n ∈ s.worker.online) :
    ∃ row ∈ s.widget.huaYunDevList, row.name = n := by
  have hmem := hw.online n hn
  rw [← hw.rows, Widget.rows, List.map_map] at hmem
  exact List.mem_map.mp hmem

/-- **Once the answers are delivered, the screen is complete exactly when every name is
settled.** -/
theorem complete_iff (hr : threads.Run (.ofNames names) h s) (hdone : s.results = []) :
    Complete s ↔ ∀ n, Settled n h := by
  have hshown : ∀ row ∈ s.widget.huaYunDevList,
      row.stateWidget.online = latest false row.name (emitted h) := by
    intro row hrow
    rw [shown_iff hr hrow, emitted_eq hr, hdone, List.append_nil]
  constructor
  · intro hcomplete n
    by_cases hn : n ∈ s.worker.online
    · obtain ⟨row, hrow, rfl⟩ := exists_row (wired_of_run hr) hn
      obtain ⟨d, hd, hname⟩ := mem_online.mp hn
      have hopen := hcomplete d hd row hrow hname.symm
      rw [hshown row hrow] at hopen
      exact ((faithful_of_run hr).1 hn).mp hopen
    · exact (faithful_of_run hr).2 hn
  · intro hset d hd row hrow hname
    have hn : row.name ∈ s.worker.online := mem_online.mpr ⟨d, hd, hname.symm⟩
    rw [hshown row hrow]
    exact ((faithful_of_run hr).1 hn).mpr (hset row.name)

/-- An add too many, settled by a delete, and one more click. -/
theorem complete_iff_run : ∃ h s, threads.Run (.ofNames ["MWS600"]) h s ∧
    (∃ e ∈ h, AddsOnline "MWS600" e) ∧ s.requests = [] ∧ s.results = [] ∧
    s.worker.online = ["MWS600"] ∧ Complete s := by
  obtain ⟨h, s, hr, hset, honly, hadd, hreq, hres, honline⟩ := Machine.exists_run (M := threads)
    (s := .ofNames ["MWS600"])
    [.click 0, .process, .process, .deliver, .click 0, .deliver, .process, .deliver, .click 0,
      .process, .deliver]
    (P := fun h s => Settled "MWS600" h ∧ (∀ e ∈ h, ∀ n ∈ e.pre.worker.online, n = "MWS600") ∧
      (∃ e ∈ h, AddsOnline "MWS600" e) ∧ s.requests = [] ∧ s.results = [] ∧
      s.worker.online = ["MWS600"])
    (by decide)
  refine ⟨h, s, hr, hadd, hreq, hres, honline, (complete_iff hr hres).mpr fun n => ?_⟩
  by_cases hn : n = "MWS600"
  · rwa [hn]
  · exact settled_of_forall fun e he hadd => hn (honly e he n hadd.2.2)

/-- **A second click before the first is answered hides a device**: the row asks for an add twice,
the second is refused, and everything in flight delivered leaves the device online and its row
closed. -/
theorem hides_device : ∃ s, threads.Reaches (.ofNames ["MWS600"]) s ∧
    s.requests = [] ∧ s.results = [] ∧ ∃ d ∈ s.worker.onlineDev,
      ∃ row ∈ s.widget.huaYunDevList, row.name = d.geteAShuErDevTypeStr ∧
        row.stateWidget.online = false := by
  obtain ⟨h, s, hr, hquiet⟩ := Machine.exists_run (M := threads) (s := .ofNames ["MWS600"])
    [.click 0, .process, .process, .deliver, .deliver]
    (P := fun _ s => s.requests = [] ∧ s.results = [] ∧ ∃ d ∈ s.worker.onlineDev,
      ∃ row ∈ s.widget.huaYunDevList, row.name = d.geteAShuErDevTypeStr ∧
        row.stateWidget.online = false)
    (by decide)
  exact ⟨s, hr.reaches, hquiet⟩

end UtisDevice
