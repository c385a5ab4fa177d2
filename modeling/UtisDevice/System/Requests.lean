import UtisDevice.Machinery.Cells
import UtisDevice.System.Threads

/-!
# System/Requests — what a list of requests makes of the registry

To its requests the worker is a registry with one cell per category (`step_serves`, and
`exec_serves` for lists of them).  Hence what start-up selects, whatever the list of names
(`startUp_selects`); that requests for different categories commute (`requests_commute`); and that a
delete takes off the device it names and nothing else, though its loop steps over elements
(`delete_exact`).
-/

namespace UtisDevice

open Machinery UtisDeviceWorker

/-! ## The worker is a registry of cells -/

/-- A request, as the registry sees it. -/
def Request.ask : Request → Ask String
  | signalAddDev devType => .put devType
  | signalDelDev devType => .take devType

@[simp] theorem Request.ask_member (r : Request) : r.ask.member = r.devType := by cases r <;> rfl

/-- Devices are what their names say. -/
theorem Registered.eq_map_new {w : UtisDeviceWorker} (h : Registered w.onlineDev) :
    w.onlineDev = w.online.map .new := by
  rw [online, List.map_map]
  exact (List.map_id _).symm.trans (List.map_congr_left h.built)

/-- One name per category is online. -/
theorem Registered.exclusive_online {w : UtisDeviceWorker} (h : Registered w.onlineDev) :
    Exclusive categoryOf w.online := by
  have hcat : w.onlineDev.map AShuErDevive.devCategory = w.online.map categoryOf := by
    rw [online, List.map_map]
    exact List.map_congr_left fun d hd => congrArg AShuErDevive.devCategory (h.built d hd)
  rw [Exclusive, ← hcat]
  exact h.exclusive

/-- **The worker serves a request as the registry of cells does**, and keeps its invariant. -/
theorem step_serves {w : UtisDeviceWorker} (h : Registered w.onlineDev) (r : Request) :
    ∃ w' out, worker.step w r.slot = some (w', out) ∧ Registered w'.onlineDev ∧
      (w'.online, results out) = r.ask.serve isvalid categoryOf w.online := by
  cases r with
  | signalAddDev n =>
    refine ⟨(w.slotAddDev n).1, (w.slotAddDev n).2, rfl, registered_slotAddDev h n, ?_⟩
    obtain ⟨hv, hw, hout⟩ | ⟨hv, hfree, hw, hout⟩ | ⟨hv, htaken, hw, hout⟩ :=
      addDev_registered h n
    · rw [hw, hout, Ask.serve_of_not_ok (by simp [Request.ask, Ask.member, hv])]
    · rw [hw, hout, Request.ask, Ask.serve_put_free hv hfree]
    · rw [hw, hout, Request.ask, Ask.serve_put_taken hv (by simpa using htaken)]
  | signalDelDev n =>
    obtain ⟨hn, hdel⟩ | ⟨hn, w', out, hdel, hw, hout⟩ := delDev_registered h n
    · refine ⟨w, [], hdel, h, ?_⟩
      rw [Request.ask, Ask.serve_take_notMem hn]
      rfl
    · refine ⟨w', out, hdel, registered_slotDelDev h hdel, ?_⟩
      rw [hw, hout, Request.ask, Ask.serve_take_mem (isvalid_of_mem_online h hn) hn]

/-- **So it serves a list of them**, leaving nothing but the registry changed. -/
theorem exec_serves : ∀ (rs : List Request) {w : UtisDeviceWorker}, Registered w.onlineDev →
    ∃ h w', worker.exec w (rs.map Request.slot) = some (h, w') ∧ Registered w'.onlineDev ∧
      (w'.online, results (emitted h))
        = serveAll isvalid categoryOf (rs.map Request.ask) w.online
  | [], w, hreg => ⟨[], w, rfl, hreg, rfl⟩
  | r :: rs, w, hreg => by
    obtain ⟨u, out, hs, hu, hserve⟩ := step_serves hreg r
    obtain ⟨h, w', he, hw', hrest⟩ := exec_serves rs hu
    refine ⟨⟨w, r.slot, out, u⟩ :: h, w', by simp [Machine.exec, hs, he], hw', ?_⟩
    have hemit : emitted (⟨w, r.slot, out, u⟩ :: h) = out ++ emitted h := List.flatMap_cons
    rw [List.map_cons, serveAll, ← hserve, ← hrest, hemit, results_append]

/-! ## Start-up -/

/-- **Start-up selects the first device of each category.**  Adding any list of names to an empty
registry puts online, in order, the valid names no valid name of their category comes before, and
answers the valid names in order: `true` for those, `false` for the others. -/
theorem startUp_selects (w : UtisDeviceWorker) (names : List String) :
    ∃ h w', worker.exec { w with onlineDev := [] } (names.map .slotAddDev) = some (h, w') ∧
      w'.online = (names.zipIdx.filter fun e => FirstAt isvalid categoryOf names e).map Prod.fst ∧
      results (emitted h) = (names.zipIdx.filter fun e => isvalid e.1).map
        fun e => (e.1, decide (FirstAt isvalid categoryOf names e)) := by
  obtain ⟨h, w', he, -, hserve⟩ :=
    exec_serves (names.map .signalAddDev) (w := { w with onlineDev := [] }) .nil
  rw [List.map_map] at he
  rw [List.map_map, show Request.ask ∘ Request.signalAddDev = Ask.put from rfl,
    show UtisDeviceWorker.online { w with onlineDev := [] } = [] from rfl, serveAll_put,
    Prod.mk.injEq] at hserve
  exact ⟨h, w', he, hserve.1, hserve.2⟩

/-- A `cfg.ini` with a repeated, an unknown and an excluded name. -/
example : (["RD3000C", "RD3000C", "-1", "RD3000B", "MWS600"].zipIdx.filter fun e =>
    FirstAt isvalid categoryOf ["RD3000C", "RD3000C", "-1", "RD3000B", "MWS600"] e).map Prod.fst
      = ["RD3000C", "MWS600"] := by decide

/-! ## Requests for different categories -/

/-- **Requests for different categories commute**: in either order the same devices are online, and
each request gets the same answers. -/
theorem requests_commute {h : List WorkerEntry} {w : UtisDeviceWorker}
    (hr : worker.Run startUp h w) (r r' : Request)
    (hne : ¬ (isvalid r.devType = true ∧ isvalid r'.devType = true ∧
      categoryOf r.devType = categoryOf r'.devType)) :
    ∃ w₁ w₁₂ w₂ w₂₁ out₁ out₁₂ out₂ out₂₁,
      worker.step w r.slot = some (w₁, out₁) ∧ worker.step w₁ r'.slot = some (w₁₂, out₁₂) ∧
      worker.step w r'.slot = some (w₂, out₂) ∧ worker.step w₂ r.slot = some (w₂₁, out₂₁) ∧
      w₁₂.onlineDev.Perm w₂₁.onlineDev ∧
      results out₁ = results out₂₁ ∧ results out₁₂ = results out₂ := by
  have hreg : Registered w.onlineDev := registered_of_run hr
  obtain ⟨w₁, out₁, hs₁, hreg₁, hserve₁⟩ := step_serves hreg r
  obtain ⟨w₁₂, out₁₂, hs₁₂, hreg₁₂, hserve₁₂⟩ := step_serves hreg₁ r'
  obtain ⟨w₂, out₂, hs₂, hreg₂, hserve₂⟩ := step_serves hreg r'
  obtain ⟨w₂₁, out₂₁, hs₂₁, hreg₂₁, hserve₂₁⟩ := step_serves hreg₂ r
  have hne' : ¬ (isvalid r.ask.member = true ∧ isvalid r'.ask.member = true ∧
      categoryOf r.ask.member = categoryOf r'.ask.member) := by simpa using hne
  obtain ⟨hperm, hans, hans'⟩ := Ask.serve_comm hreg.exclusive_online hne'
  rw [← hserve₁, ← hserve₂, ← hserve₁₂, ← hserve₂₁] at hperm
  rw [← hserve₁, ← hserve₂, ← hserve₂₁] at hans
  rw [← hserve₁, ← hserve₂, ← hserve₁₂] at hans'
  refine ⟨w₁, w₁₂, w₂, w₂₁, out₁, out₁₂, out₂, out₂₁, hs₁, hs₁₂, hs₂, hs₂₁, ?_, hans.symm, hans'⟩
  rw [hreg₁₂.eq_map_new, hreg₂₁.eq_map_new]
  exact hperm.map _

/-- Two adds, which the two orders list differently. -/
theorem requests_commute_run : ∃ h w, worker.Run startUp h w ∧ w.online = ["RD3000B"] ∧
    ∃ w₁ w₁₂ w₂ w₂₁ out₁ out₁₂ out₂ out₂₁,
      worker.step w (.slotAddDev "MWS600") = some (w₁, out₁) ∧
      worker.step w₁ (.slotAddDev "VD920G") = some (w₁₂, out₁₂) ∧
      worker.step w (.slotAddDev "VD920G") = some (w₂, out₂) ∧
      worker.step w₂ (.slotAddDev "MWS600") = some (w₂₁, out₂₁) ∧
      w₁₂.onlineDev.Perm w₂₁.onlineDev ∧
      results out₁ = results out₂₁ ∧ results out₁₂ = results out₂ := by
  obtain ⟨h, w, hr, hw⟩ := Machine.exists_run (M := worker) (s := startUp)
    [.slotAddDev "RD3000B"] (P := fun _ w => w.online = ["RD3000B"]) (by decide)
  exact ⟨h, w, hr, hw,
    requests_commute hr (.signalAddDev "MWS600") (.signalAddDev "VD920G") (by decide)⟩

/-! ## A delete -/

/-- **A delete takes off exactly the device it names**: the loop ends in range, what it steps over
stays, and there is one answer if the device was online and none if it was not. -/
theorem delete_exact {h : List WorkerEntry} {w : UtisDeviceWorker} (hr : worker.Run startUp h w)
    (devType : String) :
    ∃ out, w.slotDelDev devType = some ({ w with
        onlineDev := w.onlineDev.filter fun d => d.geteAShuErDevTypeStr ≠ devType }, out) ∧
      results out = if ∃ d ∈ w.onlineDev, d.geteAShuErDevTypeStr = devType
        then [(devType, false)] else [] := by
  have hreg : Registered w.onlineDev := registered_of_run hr
  have hfilter : (w.onlineDev.filter fun d => !named devType d)
      = w.onlineDev.filter fun d => d.geteAShuErDevTypeStr ≠ devType :=
    List.filter_congr fun d _ => by simp [named]
  refine ⟨_, by rw [slotDelDev_of_registered hreg, hfilter], ?_⟩
  by_cases hn : devType ∈ w.online
  · have hsome : ∃ d ∈ w.onlineDev, d.geteAShuErDevTypeStr = devType := mem_online.mp hn
    obtain ⟨d, hd⟩ := filter_named_of_mem_online hreg hn
    rw [if_pos hsome, hd]
    rfl
  · have hnone : ¬ ∃ d ∈ w.onlineDev, d.geteAShuErDevTypeStr = devType := fun hd =>
      hn (mem_online.mpr hd)
    rw [if_neg hnone, (filter_named_of_notMem_online hn).2]
    rfl

/-- A delete that steps over the device behind the deleted one. -/
theorem delete_exact_run : ∃ h w, worker.Run startUp h w ∧
    w.online = ["MWS600", "RD3000B", "VD930A"] ∧
    ∃ out, w.slotDelDev "MWS600" = some ({ w with
        onlineDev := w.onlineDev.filter fun d => d.geteAShuErDevTypeStr ≠ "MWS600" }, out) ∧
      results out = if ∃ d ∈ w.onlineDev, d.geteAShuErDevTypeStr = "MWS600"
        then [("MWS600", false)] else [] := by
  obtain ⟨h, w, hr, hw⟩ := Machine.exists_run (M := worker) (s := startUp)
    [.slotAddDev "MWS600", .slotAddDev "RD3000B", .slotAddDev "VD930A"]
    (P := fun _ w => w.online = ["MWS600", "RD3000B", "VD930A"]) (by decide)
  exact ⟨h, w, hr, hw, delete_exact hr "MWS600"⟩

end UtisDevice
