import UtisDevice.System.Replay

/-!
# System/StartUp — what a start-up comes to

Left alone, the program asks for every name of `cfg.ini` and answers each.  However the threads take
turns, and whatever is polled and received meanwhile, the devices online are then the first of each
category; and a row shows its device open if it is online *and listed once* (`startUp_shows`).  A
device listed twice is online and shown closed by both of its rows: its second request is refused
because of the first.
-/

namespace UtisDevice

open Machinery UtisDeviceWorker

variable {count : ℤ} {cfg : Option QSettings} {s₀ s : Application} {h : List ApplicationEntry}

/-- Nothing is asked for but at start-up, where nothing is clicked. -/
theorem requests_of_unclicked (hnone : ∀ e ∈ h, e.input.isClick = false) :
    requests s₀ h = s₀.names.map .signalAddDev := by
  have hask : h.flatMap requested = [] :=
    List.flatMap_eq_nil_iff.mpr fun e he => requested_of_unclicked (hnone e he)
  rw [requests, hask, List.append_nil]

/-- **Start-up, in any order of turns**: with no click, and every request answered, the devices
online are the first of each category in `cfg.ini`, in its order, and a row shows its device open
exactly if it is one of them and the only row of its name. -/
theorem startUp_shows (hinit : Application.init count cfg = some s₀)
    (hr : application.Run s₀ h s) (hnone : ∀ e ∈ h, e.input.isClick = false)
    (ha : s.Answered) :
    s.worker.online =
      (s₀.names.zipIdx.filter fun e => FirstAt isvalid categoryOf s₀.names e).map Prod.fst ∧
    s.widget.rows = s₀.names.map fun n =>
      (n, decide (n ∈ s.worker.online ∧ s₀.names.count n = 1)) := by
  have hserve := replay_of_answered hinit hr ha.1
  rw [requests_of_unclicked hnone, List.map_map,
    show Request.ask ∘ Request.signalAddDev = Ask.put from rfl, serveAll_put, Prod.mk.injEq]
    at hserve
  refine ⟨hserve.1, ?_⟩
  rw [rows_of_answered hinit hr ha, hserve.1, hserve.2]
  refine List.map_congr_left fun n _ => congrArg (Prod.mk n) ?_
  rw [Bool.eq_iff_iff, latest_marks, decide_eq_true_eq]

/-- A device listed twice, one that is excluded, one that is unknown, and one that is shown. -/
theorem startUp_shows_run : ∃ h s,
    application.Run (.ofNames ["MWS600", "RD3000C", "-1", "RD3000B", "MWS600"]) h s ∧
    s.worker.online = ["MWS600", "RD3000C"] ∧
    s.widget.rows = [("MWS600", false), ("RD3000C", true), ("-1", false), ("RD3000B", false),
      ("MWS600", false)] := by
  obtain ⟨h, s, hr, hnone, ha⟩ := Machine.exists_run (M := application)
    (s := .ofNames ["MWS600", "RD3000C", "-1", "RD3000B", "MWS600"])
    [.process, .process, .timer, .process, .deliver, .process, .process, .deliver, .deliver,
      .process, .deliver, .deliver, .process, .deliver, .deliver, .deliver]
    (P := fun h s => (∀ e ∈ h, e.input.isClick = false) ∧ s.Answered) (by decide)
  obtain ⟨honline, hrows⟩ := startUp_shows (Application.init_ofNames 0 _) hr hnone ha
  have hfirsts : s.worker.online = ["MWS600", "RD3000C"] := by
    rw [honline, Application.names_ofNames]
    decide
  refine ⟨h, s, hr, hfirsts, ?_⟩
  rw [hrows, hfirsts, Application.names_ofNames]
  decide

end UtisDevice
