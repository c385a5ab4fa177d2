import UtisDevice.System.Completeness

/-!
# System/Closable — when a device can still be closed

A delete of a name is only ever sent by a row that shows it open, and a row shows what the worker
last answered.  So a device online can be closed exactly when a delete of it is queued, or some row
shows it open, or an answer in flight will make one (`closable_iff`); otherwise it is `Stuck`: every
click asks for an add, every add is refused, every refusal shows the row closed again.  Settled
names are never stuck.
-/

namespace UtisDevice

open Machinery UtisDeviceWorker

variable {names : List String} {s : Threads} {h : List ThreadsEntry} {n : String}

/-- Some continuation takes the device off the registry. -/
def Closable (s : Threads) (d : AShuErDevive) : Prop :=
  ∃ t, threads.Reaches s t ∧ d ∉ t.worker.onlineDev

/-! ## Stuck devices -/

/-- Online, and nothing queued, in flight or shown that would lead to a delete. -/
structure Stuck (n : String) (s : Threads) : Prop where
  online : n ∈ s.worker.online
  request : .signalDelDev n ∉ s.requests
  result : (n, true) ∉ s.results
  row : (n, true) ∉ s.widget.rows

/-- **No step frees a stuck device.** -/
theorem Stuck.step {s' : Threads} {i : ThreadsInput} {out : List (String × Bool)}
    (hst : Stuck n s) (hstep : Stepped s i s' out) : Stuck n s' := by
  obtain ⟨honline, hrequest, hresult, hshown⟩ := hst
  cases hstep with
  | @click row m shown hrow =>
    refine ⟨honline, ?_, hresult, hshown⟩
    -- a row of the name shows it closed, so the click asks for an add
    intro hmem
    rcases List.mem_append.mp hmem with hmem | hmem
    · exact hrequest hmem
    · cases shown with
      | false => simp at hmem
      | true =>
        obtain rfl : n = m := by simpa using hmem
        exact hshown (List.mem_of_getElem? hrow)
  | @process request requests w out hreq hserved =>
    have hne : request ≠ .signalDelDev n := fun he => hrequest (by simp [hreq, he])
    refine ⟨hserved.mem_online hne honline, fun hmem => hrequest (by simp [hreq, hmem]), ?_, hshown⟩
    -- the name is online, so it is not answered with `true`
    intro hmem
    rcases List.mem_append.mp hmem with hmem | hmem
    · exact hresult hmem
    · exact hserved.notMem_of_true hmem honline
  | @deliver m success results widget hres hcount hrows =>
    refine ⟨honline, hrequest, fun hmem => hresult (by simp [hres, hmem]), ?_⟩
    rw [hrows]
    intro hmem
    obtain ⟨⟨m', shown⟩, hrow, heq⟩ := List.mem_map.mp hmem
    split at heq
    · rename_i hm
      obtain ⟨rfl, rfl⟩ := Prod.mk.inj heq
      exact hresult (by simp [hres, show m = m' from hm])
    · exact hshown (heq ▸ hrow)

/-- **A stuck device stays online on every continuation.** -/
theorem not_closable_of_stuck (hr : threads.Reaches (.ofNames names) s) {d : AShuErDevive}
    (hd : d ∈ s.worker.onlineDev) (hst : Stuck d.devTypeStr s) : ¬ Closable s d := by
  have hbuilt : d.Built := (wired_of_reaches hr).registered.built d hd
  refine Machine.not_reaches_of_trap
    (fun t => threads.Reaches (.ofNames names) t ∧ Stuck d.devTypeStr t)
    (fun t => d ∉ t.worker.onlineDev) ⟨hr, hst⟩ ?_ ?_
  · rintro t i u out ⟨ht, hstuck⟩ hs
    exact ⟨ht.trans (.of_step hs), hstuck.step (stepped_of_step (wired_of_reaches ht) hs)⟩
  · rintro t ⟨ht, hstuck⟩ hgone
    obtain ⟨d', hd', hname⟩ := mem_online.mp hstuck.online
    have hbuilt' : d'.Built := (wired_of_reaches ht).registered.built d' hd'
    refine hgone ?_
    rwa [hbuilt, ← hname, ← hbuilt']

/-! ## Ways out -/

/-- A delete queued will be taken up, and the name is off then at the latest. -/
theorem offline_of_delete : ∀ {ahead behind : List Request} {s : Threads},
    threads.Reaches (.ofNames names) s → s.requests = ahead ++ .signalDelDev n :: behind →
      ∃ t, threads.Reaches s t ∧ n ∉ t.worker.online
  | [], behind, s, hr, hreq => by
    obtain ⟨t, out, hs, -⟩ := process_enabled hreq
    refine ⟨t, .of_step hs, ?_⟩
    cases stepped_of_step (wired_of_reaches hr) hs with
    | process hreq' hserved =>
      obtain ⟨rfl, rfl⟩ := List.cons.inj (hreq.symm.trans hreq')
      cases hserved with
      | absent hn => exact hn
      | removed _ hw => simp [hw]
  | request :: ahead, behind, s, hr, hreq => by
    obtain ⟨u, out, hs, hrest⟩ := process_enabled hreq
    obtain ⟨t, hut, hn⟩ := offline_of_delete (hr.trans (.of_step hs)) hrest
    exact ⟨t, (Machine.Reaches.of_step hs).trans hut, hn⟩

/-- An answer of `true` will be shown by the rows of its name. -/
theorem shown_of_answer (hn : n ∈ names) : ∀ {ahead behind : List (String × Bool)} {s : Threads},
    threads.Reaches (.ofNames names) s → s.results = ahead ++ (n, true) :: behind →
      ∃ t, threads.Reaches s t ∧ (n, true) ∈ t.widget.rows
  | [], behind, s, hr, hres => by
    have hw : Wired names s := wired_of_reaches hr
    obtain ⟨t, out, hs, -⟩ := deliver_enabled hw hres
    refine ⟨t, .of_step hs, ?_⟩
    cases stepped_of_step hw hs with
    | deliver hres' hcount hrows =>
      obtain ⟨he, rfl⟩ := List.cons.inj (hres.symm.trans hres')
      obtain ⟨rfl, rfl⟩ := Prod.mk.inj he
      rw [← hw.rows] at hn
      obtain ⟨row, hrow, rfl⟩ := List.mem_map.mp hn
      rw [hrows]
      exact List.mem_map.mpr ⟨row, hrow, by simp⟩
  | r :: ahead, behind, s, hr, hres => by
    obtain ⟨u, out, hs, hrest⟩ := deliver_enabled (wired_of_reaches hr) hres
    obtain ⟨t, hut, hshown⟩ := shown_of_answer hn (hr.trans (.of_step hs)) hrest
    exact ⟨t, (Machine.Reaches.of_step hs).trans hut, hshown⟩

/-- **Whatever is not stuck has a way out.** -/
theorem offline_of_not_stuck (hr : threads.Reaches (.ofNames names) s) (hst : ¬ Stuck n s) :
    ∃ t, threads.Reaches s t ∧ n ∉ t.worker.online := by
  have hdelete : ∀ {u}, threads.Reaches s u → .signalDelDev n ∈ u.requests →
      ∃ t, threads.Reaches s t ∧ n ∉ t.worker.online := by
    intro u hu hmem
    obtain ⟨ahead, behind, hreq⟩ := List.append_of_mem hmem
    obtain ⟨t, ht, hn⟩ := offline_of_delete (hr.trans hu) hreq
    exact ⟨t, hu.trans ht, hn⟩
  have hclick : ∀ {u}, threads.Reaches s u → (n, true) ∈ u.widget.rows →
      ∃ t, threads.Reaches s t ∧ n ∉ t.worker.online := by
    intro u hu hmem
    obtain ⟨row, hrow, he⟩ := List.mem_iff_getElem.mp hmem
    obtain ⟨v, out, hs, hreq⟩ := click_enabled (List.getElem?_eq_some_iff.mpr ⟨hrow, he⟩)
    exact hdelete (hu.trans (.of_step hs)) (by simp [hreq])
  by_contra hnone
  refine hst ⟨?_, fun hmem => hnone (hdelete (.refl _ _) hmem), fun hmem => hnone ?_,
    fun hmem => hnone (hclick (.refl _ _) hmem)⟩
  · by_contra hn
    exact hnone ⟨s, .refl _ _, hn⟩
  · obtain ⟨ahead, behind, hres⟩ := List.append_of_mem hmem
    have hn : n ∈ names := (wired_of_reaches hr).online n (by
      by_contra hn
      exact hnone ⟨s, .refl _ _, hn⟩)
    obtain ⟨u, hu, hshown⟩ := shown_of_answer hn hr hres
    exact hclick hu hshown

/-! ## Which devices can be closed -/

theorem mem_rows {b : Bool} : (n, b) ∈ s.widget.rows ↔
    ∃ row ∈ s.widget.huaYunDevList, row.name = n ∧ row.stateWidget.online = b := by
  simp [Widget.rows]

theorem closable_of_not_stuck (hr : threads.Reaches (.ofNames names) s) {d : AShuErDevive}
    (hst : ¬ Stuck d.devTypeStr s) : Closable s d := by
  obtain ⟨t, ht, hn⟩ := offline_of_not_stuck hr hst
  exact ⟨t, ht, fun hd => hn (mem_online.mpr ⟨d, hd, rfl⟩)⟩

/-- A settled name is not stuck: the `true` last emitted for it is shown, or in flight. -/
theorem not_stuck_of_settled (hr : threads.Run (.ofNames names) h s) (hset : Settled n h) :
    ¬ Stuck n s := by
  intro hst
  have hlatest := ((faithful_of_run hr).1 hst.online).mpr hset
  have hrow : (n, latest false n (delivered h)) ∈ s.widget.rows := by
    rw [rows_eq hr]
    exact List.mem_map.mpr ⟨n, (wired_of_run hr).online n hst.online, rfl⟩
  rw [emitted_eq hr, latest_append] at hlatest
  cases hshown : latest false n (delivered h) with
  | true => exact hst.row (hshown ▸ hrow)
  | false =>
    rw [hshown] at hlatest
    have hmem : (n, latest false n s.results) ∈ s.results := mem_of_latest_ne (by simp [hlatest])
    rw [hlatest] at hmem
    exact hst.result hmem

/-- **A device online can be closed exactly when** a delete of it is queued, an answer of `true` for
it is in flight, or a row of its name shows it open — and always where its name is settled. -/
theorem closable_iff (hr : threads.Run (.ofNames names) h s) {d : AShuErDevive}
    (hd : d ∈ s.worker.onlineDev) :
    (Closable s d ↔
      .signalDelDev d.geteAShuErDevTypeStr ∈ s.requests ∨
      (d.geteAShuErDevTypeStr, true) ∈ s.results ∨
      ∃ row ∈ s.widget.huaYunDevList, row.name = d.geteAShuErDevTypeStr ∧
        row.stateWidget.online = true) ∧
    (Settled d.geteAShuErDevTypeStr h → Closable s d) := by
  constructor
  · constructor
    · intro hclose
      by_contra hnone
      push Not at hnone
      obtain ⟨hrequest, hresult, hrow⟩ := hnone
      have hclosed : (d.devTypeStr, true) ∉ s.widget.rows := by
        rw [mem_rows]
        rintro ⟨row, hmem, hname, hshown⟩
        exact hrow row hmem hname hshown
      have hstuck : Stuck d.devTypeStr s :=
        ⟨mem_online.mpr ⟨d, hd, rfl⟩, hrequest, hresult, hclosed⟩
      exact not_closable_of_stuck hr.reaches hd hstuck hclose
    · intro hway
      refine closable_of_not_stuck hr.reaches fun hst => ?_
      rcases hway with hrequest | hresult | hrow
      · exact hst.request hrequest
      · exact hst.result hresult
      · exact hst.row (mem_rows.mpr hrow)
  · exact fun hset => closable_of_not_stuck hr.reaches (not_stuck_of_settled hr hset)

/-- A device whose row shows it closed, its answer still in flight. -/
theorem closable_iff_run : ∃ h s, threads.Run (.ofNames ["MWS600", "RD3000B"]) h s ∧
    s.results = [("MWS600", true)] ∧ ∃ d ∈ s.worker.onlineDev,
      d.geteAShuErDevTypeStr = "MWS600" ∧ Closable s d := by
  obtain ⟨h, s, hr, hres, d, hd, hname⟩ := Machine.exists_run (M := threads)
    (s := .ofNames ["MWS600", "RD3000B"]) [.process]
    (P := fun _ s => s.results = [("MWS600", true)] ∧ ∃ d ∈ s.worker.onlineDev,
      d.geteAShuErDevTypeStr = "MWS600")
    (by decide)
  refine ⟨h, s, hr, hres, d, hd, hname, (closable_iff hr hd).1.mpr (Or.inr (Or.inl ?_))⟩
  simp [hres, hname]

/-- **The device a second click hides is stuck open**: no clicks close it any more. -/
theorem sticks_open : ∃ s d, threads.Reaches (.ofNames ["MWS600"]) s ∧
    d ∈ s.worker.onlineDev ∧ ¬ Closable s d := by
  obtain ⟨h, s, hr, d, hd, hname, hreq, hres, hrow⟩ := Machine.exists_run (M := threads)
    (s := .ofNames ["MWS600"]) [.click 0, .process, .process, .deliver, .deliver]
    (P := fun _ s => ∃ d ∈ s.worker.onlineDev, d.devTypeStr = "MWS600" ∧ s.requests = [] ∧
      s.results = [] ∧ ("MWS600", true) ∉ s.widget.rows)
    (by decide)
  refine ⟨s, d, hr.reaches, hd, not_closable_of_stuck hr.reaches hd ?_⟩
  rw [hname]
  exact ⟨mem_online.mpr ⟨d, hd, hname⟩, by simp [hreq], by simp [hres], hrow⟩

end UtisDevice
