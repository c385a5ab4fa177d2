import UtisDevice.System.Threads

/-!
# System/Display — what the screen shows is a past of the registry

The last answer emitted for a name is `true` only while the name is online (`online_of_emitted`).
The screen replays a prefix of the answers, which is everything that had been emitted at some
earlier moment: so it shows as open only what was online then (`exists_past_of_run`).  Two
consequences.  A name none of whose answers is in flight is shown open only if it is online now
(`shown_online`); and two models of one category are never shown open together, whatever is in
flight (`screen_exclusive`), since at no moment were they online together.
-/

namespace UtisDevice

open Machinery UtisDeviceWorker

variable {names : List String} {s : Threads} {h : List ThreadsEntry} {n : String}

/-! ## The answers and the registry -/

/-- An answer of `true` puts its name online, and a name goes offline only with an answer. -/
theorem Served.online_of_latest {w w' : UtisDeviceWorker} {request : Request}
    {out : List (String × Bool)} (hs : Served w request w' out) {b : Bool}
    (hb : b = true → n ∈ w.online) : latest b n out = true → n ∈ w'.online := by
  intro hlatest
  cases hs with
  | invalid => exact hb hlatest
  | @admitted m w' _ hw =>
    rw [latest_singleton] at hlatest
    rw [hw, List.mem_append, List.mem_singleton]
    by_cases hm : m = n
    · exact Or.inr hm.symm
    · exact Or.inl (hb (by rwa [if_neg hm] at hlatest))
  | @refused m _ =>
    rw [latest_singleton] at hlatest
    by_cases hm : m = n
    · simp [hm] at hlatest
    · exact hb (by rwa [if_neg hm] at hlatest)
  | absent => exact hb hlatest
  | @removed m w' _ hw =>
    rw [latest_singleton] at hlatest
    by_cases hm : m = n
    · simp [hm] at hlatest
    · rw [hw]
      have hn : n ∈ w.online := hb (by rwa [if_neg hm] at hlatest)
      exact List.mem_filter.mpr ⟨hn, by simpa using Ne.symm hm⟩

/-- **The last answer for a name is `true` only while it is online.** -/
theorem online_of_emitted (hr : threads.Run (.ofNames names) h s) :
    latest false n (emitted h) = true → n ∈ s.worker.online := by
  induction hr with
  | nil => simp
  | @snoc h t u i out hr hs ih =>
    rw [emitted_append, emitted_singleton, latest_append]
    cases stepped_of_step (wired_of_run hr) hs with
    | click => exact ih
    | process _ hserved => exact hserved.online_of_latest ih
    | deliver => exact ih

theorem emits_le_one {t u : Threads} {i : ThreadsInput} {out : List (String × Bool)}
    (ht : threads.Reaches (.ofNames names) t) (hs : threads.step t i = some (u, out)) :
    out.length ≤ 1 := by
  cases stepped_of_step (wired_of_reaches ht) hs with
  | click => simp
  | process _ hserved => exact hserved.length_le
  | deliver => simp

/-- **The screen shows a past of the registry**: there was a moment at which everything delivered by
now, and nothing else, had been emitted. -/
theorem exists_past_of_run (hr : threads.Run (.ofNames names) h s) :
    ∃ h₁ t, threads.Run (.ofNames names) h₁ t ∧ emitted h₁ = delivered h := by
  have hprefix : delivered h <+: emitted h := ⟨s.results, (emitted_eq hr).symm⟩
  obtain ⟨h₁, -, t, -, ht, hpast⟩ := hr.exists_past emits_le_one hprefix
  exact ⟨h₁, t, ht, hpast⟩

/-! ## Soundness -/

/-- **What the screen shows open is online**, unless an answer for it is in flight. -/
theorem shown_online (hr : threads.Reaches (.ofNames names) s) (hflight : ∀ b, (n, b) ∉ s.results)
    {row : HuaYunDevInfo} (hrow : row ∈ s.widget.huaYunDevList) (hname : row.name = n)
    (hshown : row.stateWidget.online = true) :
    ∃ d ∈ s.worker.onlineDev, d.geteAShuErDevTypeStr = n := by
  obtain ⟨h, hr⟩ := hr
  rw [shown_iff hr hrow, hname] at hshown
  have hemitted : latest false n (emitted h) = true := by
    rw [emitted_eq hr, latest_append, latest_eq_of_notMem hflight]
    exact hshown
  exact mem_online.mp (online_of_emitted hr hemitted)

/-- A row opened at start-up, with a request and an answer for another name in flight. -/
theorem shown_online_run : ∃ s, threads.Reaches (.ofNames ["MWS600", "RD3000B", "RD3000C"]) s ∧
    s.requests = [.signalAddDev "RD3000C"] ∧ s.results = [("RD3000B", true)] ∧
    ∃ d ∈ s.worker.onlineDev, d.geteAShuErDevTypeStr = "MWS600" := by
  obtain ⟨h, s, hr, hreq, hres, row, hrow, hname, hshown⟩ := Machine.exists_run (M := threads)
    (s := .ofNames ["MWS600", "RD3000B", "RD3000C"]) [.process, .process, .deliver]
    (P := fun _ s => s.requests = [.signalAddDev "RD3000C"] ∧ s.results = [("RD3000B", true)] ∧
      ∃ row ∈ s.widget.huaYunDevList, row.name = "MWS600" ∧ row.stateWidget.online = true)
    (by decide)
  exact ⟨s, hr.reaches, hreq, hres,
    shown_online hr.reaches (by simp [hres]) hrow hname hshown⟩

/-! ## Exclusion -/

/-- **The screen never shows two models of one category open**, whatever is in flight. -/
theorem screen_exclusive (hr : threads.Reaches (.ofNames names) s) {row row' : HuaYunDevInfo}
    (hrow : row ∈ s.widget.huaYunDevList) (hrow' : row' ∈ s.widget.huaYunDevList)
    (hne : row.name ≠ row'.name) (hcat : categoryOf row.name = categoryOf row'.name) :
    ¬ (row.stateWidget.online = true ∧ row'.stateWidget.online = true) := by
  rintro ⟨hshown, hshown'⟩
  obtain ⟨h, hr⟩ := hr
  obtain ⟨h₁, t, ht, hpast⟩ := exists_past_of_run hr
  rw [shown_iff hr hrow, ← hpast] at hshown
  rw [shown_iff hr hrow', ← hpast] at hshown'
  exact hne (eq_of_mem_online (wired_of_run ht).registered (online_of_emitted ht hshown)
    (online_of_emitted ht hshown') hcat)

/-- The rival is opened right behind a close, before the answer to either is shown. -/
theorem screen_exclusive_run : ∃ s, threads.Reaches (.ofNames ["VD920G", "VD930A"]) s ∧
    s.worker.online = ["VD930A"] ∧ s.results = [("VD920G", false), ("VD930A", true)] ∧
    ∃ row ∈ s.widget.huaYunDevList, ∃ row' ∈ s.widget.huaYunDevList,
      row.name = "VD920G" ∧ row'.name = "VD930A" ∧
      ¬ (row.stateWidget.online = true ∧ row'.stateWidget.online = true) := by
  obtain ⟨h, s, hr, honline, hres, row, hrow, row', hrow', hname, hname'⟩ :=
    Machine.exists_run (M := threads) (s := .ofNames ["VD920G", "VD930A"])
      [.process, .process, .deliver, .deliver, .click 0, .click 1, .process, .process]
      (P := fun _ s => s.worker.online = ["VD930A"] ∧
        s.results = [("VD920G", false), ("VD930A", true)] ∧
        ∃ row ∈ s.widget.huaYunDevList, ∃ row' ∈ s.widget.huaYunDevList,
          row.name = "VD920G" ∧ row'.name = "VD930A")
      (by decide)
  have hne : row.name ≠ row'.name := by rw [hname, hname']; decide
  have hcat : categoryOf row.name = categoryOf row'.name := by rw [hname, hname']; decide
  exact ⟨s, hr.reaches, honline, hres, row, hrow, row', hrow', hname, hname',
    screen_exclusive hr.reaches hrow hrow' hne hcat⟩

end UtisDevice
