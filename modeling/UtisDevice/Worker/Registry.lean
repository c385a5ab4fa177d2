import UtisDevice.Worker.Slots

/-!
# Worker/Registry — the devices online exclude one another

`Registered` is the registry invariant: every device online was built from a valid name, and no two
share a category.  It holds after every run of the worker (`registered_of_run`), bounds the registry
by the three categories, and is what makes the deletion loop of `slotDelDev` a filter
(`slotDelDev_of_registered`).  `addDev_registered` and `delDev_registered` restate the two slots on
the names online — the form everything outside the worker sees.
-/

namespace UtisDevice

open Machinery UtisDeviceWorker

/-! ## The invariant -/

/-- **The registry invariant.** -/
structure Registered (devs : List AShuErDevive) : Prop where
  valid : ∀ d ∈ devs, isvalid d.devTypeStr = true
  built : ∀ d ∈ devs, d.Built
  exclusive : Exclusive AShuErDevive.devCategory devs

namespace Registered

variable {devs devs' : List AShuErDevive}

theorem nil : Registered [] := ⟨by simp, by simp, .nil⟩

theorem sublist (h : Registered devs) (hs : devs'.Sublist devs) : Registered devs' where
  valid d hd := h.valid d (hs.subset hd)
  built d hd := h.built d (hs.subset hd)
  exclusive := h.exclusive.sublist hs

/-- A valid device that clashes with none online may join. -/
theorem concat (h : Registered devs) {t : String} (ht : isvalid t = true)
    (hfree : ∀ d ∈ devs, AShuErDevive.isExclusion (some d) (some (.new t)) = false) :
    Registered (devs ++ [.new t]) where
  valid d hd := by
    rcases List.mem_append.mp hd with hd | hd
    · exact h.valid d hd
    · obtain rfl := List.mem_singleton.mp hd
      exact ht
  built d hd := by
    rcases List.mem_append.mp hd with hd | hd
    · exact h.built d hd
    · obtain rfl := List.mem_singleton.mp hd
      exact AShuErDevive.built_new t
  exclusive := exclusive_concat.mpr ⟨h.exclusive, fun d hd =>
    (AShuErDevive.isExclusion_eq_false (h.built d hd) (AShuErDevive.built_new t)).mp (hfree d hd)⟩

/-- **At most three devices are online.** -/
theorem length_le (h : Registered devs) : devs.length ≤ 3 := by
  refine (h.exclusive.length_le categories fun d hd => ?_).trans_eq card_categories
  rw [h.built d hd]
  exact category_mem_categories (h.valid d hd)

/-- A device online is determined by its name. -/
theorem eq_of_name (h : Registered devs) {d d' : AShuErDevive} (hd : d ∈ devs) (hd' : d' ∈ devs)
    (hn : d.devTypeStr = d'.devTypeStr) : d = d' := by
  rw [h.built d hd, h.built d' hd', hn]

theorem pairwise_named (h : Registered devs) (t : String) :
    devs.Pairwise fun d d' => named t d = true → named t d' = false := by
  refine h.exclusive.pairwise.imp_of_mem fun {d d'} hd hd' hne ht =>
    named_eq_false.mpr fun ht' => hne (congrArg AShuErDevive.devCategory ?_)
  exact h.eq_of_name hd hd' ((named_eq_true.mp ht).trans ht'.symm)

end Registered

/-! ## Every run keeps it -/

theorem registered_slotAddDev {w : UtisDeviceWorker} (h : Registered w.onlineDev) (t : String) :
    Registered (w.slotAddDev t).1.onlineDev := by
  obtain ⟨-, hw, -⟩ | ⟨hv, ha, hw, -⟩ | ⟨-, -, hw, -⟩ := w.slotAddDev_cases t
  · rwa [hw]
  · rw [hw]
    exact h.concat hv (allow2Create_eq_true.mp ha)
  · rwa [hw]

theorem registered_slotDelDev {w w' : UtisDeviceWorker} {t : String} {out : List Effect}
    (h : Registered w.onlineDev) (hs : w.slotDelDev t = some (w', out)) :
    Registered w'.onlineDev := by
  cases hv : isvalid t with
  | false =>
    obtain ⟨rfl, -⟩ : w = w' ∧ [] = out := by simpa [slotDelDev_of_invalid hv] using hs
    exact h
  | true =>
    rw [slotDelDev_eq hv, Option.some.injEq, Prod.mk.injEq] at hs
    obtain ⟨rfl, -⟩ := hs
    exact h.sublist (eraseSkip_sublist _)

theorem registered_step {w w' : UtisDeviceWorker} {i : WorkerInput} {out : List Effect}
    (h : Registered w.onlineDev) (hs : worker.step w i = some (w', out)) :
    Registered w'.onlineDev := by
  obtain ⟨⟨t, rfl | rfl⟩, -⟩ | ⟨-, rfl, -⟩ | ⟨-, -, hw⟩ | ⟨d, socket, -, -, rfl, -⟩ |
    ⟨socket, -, -, rfl, -⟩ := worker_cases hs
  · obtain rfl : (w.slotAddDev t).1 = w' := congrArg Prod.fst (Option.some.inj hs)
    exact registered_slotAddDev h t
  · exact registered_slotDelDev h hs
  · rw [slotGetLatestData, getLatestData]
    split <;> exact h
  · rw [timeout] at hw
    split at hw <;> · obtain ⟨rfl, -⟩ := Prod.mk.inj hw; exact h
  · exact h
  · exact h

/-- **The registry invariant holds after every run.** -/
theorem registered_of_run {h : List WorkerEntry} {w : UtisDeviceWorker}
    (hr : worker.Run startUp h w) : Registered w.onlineDev :=
  hr.invariant (fun w => Registered w.onlineDev) .nil registered_step

/-! ## The slots, on the names online -/

namespace UtisDeviceWorker

variable {w : UtisDeviceWorker} {t : String}

/-- The names of the devices online, in order. -/
def online (w : UtisDeviceWorker) : List String := w.onlineDev.map (·.devTypeStr)

theorem mem_online : t ∈ w.online ↔ ∃ d ∈ w.onlineDev, d.devTypeStr = t := List.mem_map

/-- Only valid names are online. -/
theorem isvalid_of_mem_online (h : Registered w.onlineDev) (ht : t ∈ w.online) :
    isvalid t = true := by
  obtain ⟨d, hd, rfl⟩ := mem_online.mp ht
  exact h.valid d hd

/-- The category of a name. -/
def categoryOf (t : String) : EDeviceCategory := getDeviceCategory (str2eAShuErDevType t)

/-- **No two names online share a category.** -/
theorem eq_of_mem_online (h : Registered w.onlineDev) {t' : String} (ht : t ∈ w.online)
    (ht' : t' ∈ w.online) (hc : categoryOf t = categoryOf t') : t = t' := by
  obtain ⟨d, hd, rfl⟩ := mem_online.mp ht
  obtain ⟨d', hd', rfl⟩ := mem_online.mp ht'
  refine congrArg _ (h.exclusive.eq_of_cls hd hd' ?_)
  rw [h.built d hd, h.built d' hd']
  exact hc

/-- **An add request, on the names online**: a valid name whose category is free is admitted, any
other valid name is refused — one already online included. -/
theorem addDev_registered (h : Registered w.onlineDev) (t : String) :
    (isvalid t = false ∧ (w.slotAddDev t).1 = w ∧ results (w.slotAddDev t).2 = []) ∨
    (isvalid t = true ∧ (∀ s ∈ w.online, categoryOf s ≠ categoryOf t) ∧
      (w.slotAddDev t).1.online = w.online ++ [t] ∧
      results (w.slotAddDev t).2 = [(t, true)]) ∨
    (isvalid t = true ∧ (∃ s ∈ w.online, categoryOf s = categoryOf t) ∧ (w.slotAddDev t).1 = w ∧
      results (w.slotAddDev t).2 = [(t, false)]) := by
  have hcat : ∀ d ∈ w.onlineDev, d.devCategory = categoryOf d.devTypeStr := fun d hd =>
    congrArg AShuErDevive.devCategory (h.built d hd)
  obtain hinv | ⟨hv, ha, hw, hout⟩ | ⟨hv, ha, hw, hout⟩ := w.slotAddDev_cases t
  · exact Or.inl hinv
  · refine Or.inr (Or.inl ⟨hv, fun s hs => ?_, by simp [hw, online], hout⟩)
    obtain ⟨d, hd, rfl⟩ := mem_online.mp hs
    rw [← hcat d hd]
    exact (AShuErDevive.isExclusion_eq_false (h.built d hd) (AShuErDevive.built_new t)).mp
      (allow2Create_eq_true.mp ha d hd)
  · refine Or.inr (Or.inr ⟨hv, ?_, hw, hout⟩)
    rw [← Bool.not_eq_true, allow2Create_eq_true] at ha
    push Not at ha
    obtain ⟨d, hd, hx⟩ := ha
    refine ⟨d.devTypeStr, mem_online.mpr ⟨d, hd, rfl⟩, ?_⟩
    rw [← hcat d hd]
    exact (AShuErDevive.isExclusion_eq_true (h.built d hd) (AShuErDevive.built_new t)).mp
      (by simpa using hx)

/-- A name that is not online names no device. -/
theorem filter_named_of_notMem_online (ht : t ∉ w.online) :
    (w.onlineDev.filter fun d => !named t d) = w.onlineDev ∧ w.onlineDev.filter (named t) = [] := by
  have hnone : ∀ d ∈ w.onlineDev, named t d = false := fun d hd =>
    named_eq_false.mpr fun hdt => ht (mem_online.mpr ⟨d, hd, hdt⟩)
  exact ⟨List.filter_eq_self.mpr fun d hd => by simp [hnone d hd],
    List.filter_eq_nil_iff.mpr fun d hd => by simp [hnone d hd]⟩

/-- A name online names one device. -/
theorem filter_named_of_mem_online (h : Registered w.onlineDev) (ht : t ∈ w.online) :
    ∃ d, w.onlineDev.filter (named t) = [d] := by
  obtain ⟨d, hd, hdt⟩ := mem_online.mp ht
  have hmem : d ∈ w.onlineDev.filter (named t) := List.mem_filter.mpr ⟨hd, named_eq_true.mpr hdt⟩
  have hpair := (h.pairwise_named t).filter (named t)
  have hall : ∀ a ∈ w.onlineDev.filter (named t), named t a = true := fun a ha =>
    (List.mem_filter.mp ha).2
  match hf : w.onlineDev.filter (named t) with
  | [] => simp [hf] at hmem
  | [a] => exact ⟨a, rfl⟩
  | a :: b :: l =>
    rw [hf] at hpair hall
    have hb : named t b = false := (List.pairwise_cons.mp hpair).1 b (by simp) (hall a (by simp))
    rw [hall b (by simp)] at hb
    exact absurd hb (by decide)

/-- **Under the invariant `slotDelDev` is a filter**, and emits once for each device taken out. -/
theorem slotDelDev_of_registered (h : Registered w.onlineDev) (t : String) :
    w.slotDelDev t = some ({ w with onlineDev := w.onlineDev.filter fun d => !named t d },
      (w.onlineDev.filter (named t)).flatMap fun _ => closed t) := by
  cases ht : isvalid t with
  | true => rw [slotDelDev_eq ht, eraseSkip_eq_filter (h.pairwise_named t)]
  | false =>
    have hn : t ∉ w.online := fun hn => by simp [isvalid_of_mem_online h hn] at ht
    obtain ⟨hkeep, hgone⟩ := filter_named_of_notMem_online hn
    rw [slotDelDev_of_invalid ht, hkeep, hgone]
    rfl

/-- **A delete request, on the names online**: a name online is taken off and reported once, any
other changes and reports nothing. -/
theorem delDev_registered (h : Registered w.onlineDev) (t : String) :
    (t ∉ w.online ∧ w.slotDelDev t = some (w, [])) ∨
    (t ∈ w.online ∧ ∃ w' out, w.slotDelDev t = some (w', out) ∧
      w'.online = w.online.filter (· ≠ t) ∧ results out = [(t, false)]) := by
  by_cases ht : t ∈ w.online
  · refine Or.inr ⟨ht, _, _, slotDelDev_of_registered h t, ?_, ?_⟩
    · rw [online, online, List.filter_map]
      refine congrArg _ (List.filter_congr fun d _ => ?_)
      rw [Bool.eq_iff_iff]
      simp
    · obtain ⟨d, hd⟩ := filter_named_of_mem_online h ht
      rw [hd]
      rfl
  · refine Or.inl ⟨ht, ?_⟩
    obtain ⟨hkeep, hgone⟩ := filter_named_of_notMem_online ht
    rw [slotDelDev_of_registered h t, hkeep, hgone]
    rfl

/-- `slotDelDev` never fails. -/
theorem slotDelDev_isSome (w : UtisDeviceWorker) (t : String) : (w.slotDelDev t).isSome = true := by
  cases hv : isvalid t with
  | false => rw [slotDelDev_of_invalid hv]; rfl
  | true => rw [slotDelDev_eq hv]; rfl

end UtisDeviceWorker

/-! ## What the registry guarantees -/

/-- **The registry after any run**: every device is what its name says, no two exclude each other —
so there are at most three — and a further valid name is admitted exactly when it is excluded by no
device online. -/
theorem registry_sound {h : List WorkerEntry} {w : UtisDeviceWorker}
    (hr : worker.Run startUp h w) :
    (∀ d ∈ w.onlineDev, isvalid d.devTypeStr = true ∧
      d.devType = str2eAShuErDevType d.devTypeStr ∧
      d.devCategory = getDeviceCategory d.devType) ∧
    (∀ i j (hi : i < w.onlineDev.length) (hj : j < w.onlineDev.length), i ≠ j →
      AShuErDevive.isExclusion (some w.onlineDev[i]) (some w.onlineDev[j]) = false) ∧
    w.onlineDev.length ≤ 3 ∧
    ∀ t, isvalid t = true →
      if ∀ d ∈ w.onlineDev, AShuErDevive.isExclusion (some d) (some (.new t)) = false then
        (w.slotAddDev t).1 = { w with onlineDev := w.onlineDev ++ [.new t] } ∧
          results (w.slotAddDev t).2 = [(t, true)]
      else (w.slotAddDev t).1 = w ∧ results (w.slotAddDev t).2 = [(t, false)] := by
  have hreg : Registered w.onlineDev := registered_of_run hr
  refine ⟨fun d hd => ⟨hreg.valid d hd, ?_, ?_⟩, fun i j hi hj hij => ?_, hreg.length_le,
    fun t ht => ?_⟩
  · exact congrArg AShuErDevive.devType (hreg.built d hd)
  · rw [hreg.built d hd]
    rfl
  · exact (AShuErDevive.isExclusion_eq_false (hreg.built _ (List.getElem_mem hi))
      (hreg.built _ (List.getElem_mem hj))).mpr (hreg.exclusive.ne_of_ne hi hj hij)
  · obtain ⟨hv, -⟩ | ⟨-, ha, hw⟩ | ⟨-, ha, hw⟩ := w.slotAddDev_cases t
    · simp [hv] at ht
    · rwa [if_pos (allow2Create_eq_true.mp ha)]
    · rwa [if_neg fun hall => by simp [allow2Create_eq_true.mpr hall] at ha]

/-- A run that adds, refuses, deletes and polls. -/
theorem registry_sound_run : ∃ h w, worker.Run startUp h w ∧ w.online = ["RD3000B", "VD930A"] ∧
    w.onlineDev.length ≤ 3 ∧
    if ∀ d ∈ w.onlineDev, AShuErDevive.isExclusion (some d) (some (.new "RD3000C")) = false then
      (w.slotAddDev "RD3000C").1 = { w with onlineDev := w.onlineDev ++ [.new "RD3000C"] } ∧
        results (w.slotAddDev "RD3000C").2 = [("RD3000C", true)]
    else (w.slotAddDev "RD3000C").1 = w ∧
      results (w.slotAddDev "RD3000C").2 = [("RD3000C", false)] := by
  obtain ⟨h, w, hr, hw⟩ := Machine.exists_run (M := worker) (s := startUp)
    [.slotAddDev "MWS600", .slotAddDev "RD3000B", .slotAddDev "RD3000C", .slotGetLatestData,
      .slotDelDev "MWS600", .timeout, .slotAddDev "-1", .slotAddDev "VD930A"]
    (P := fun _ w => w.online = ["RD3000B", "VD930A"]) (by decide)
  obtain ⟨-, -, hlen, hadd⟩ := registry_sound hr
  exact ⟨h, w, hr, hw, hlen, hadd "RD3000C" (by decide)⟩

end UtisDevice
