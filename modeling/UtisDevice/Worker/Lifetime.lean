import UtisDevice.Worker.Registry

/-!
# Worker/Lifetime — every device is online or given up, once

    new ──▸ m_onlineDev ──deleteLater──▸ scheduled ──event loop──▸ deleted
      └────────────deleteLater──────────────▴

The registry holds pointers.  Here a device has an address, counted up by `new`, and `slotAddDev`
and `slotDelDev` are what they were with the objects in place: a device refused is given up at once,
a device closed when it is taken out; the event loop deletes it some time after.  Without the
addresses they are the slots of the worker (`worker_of_devices`).  Every device made is in one of
the three places, once (`Owned`): none is leaked, given up twice, or used after it was given up.
-/

namespace UtisDevice

open Machinery UtisDeviceWorker

/-! ## The slots, with the objects in place -/

/-- A device where `new` put it. -/
structure DeviceObject where
  address : ℕ
  dev : AShuErDevive
  deriving DecidableEq, Repr

/-- The devices made so far are numbered from 0. -/
structure DeviceHeap where
  created : ℕ := 0
  onlineDev : List DeviceObject := []
  /-- Given up with `deleteLater`, and not deleted yet. -/
  scheduled : List ℕ := []
  deleted : List ℕ := []
  deriving DecidableEq, Repr

inductive DeviceInput
  | slotAddDev (devType : String)
  | slotDelDev (devType : String)
  /-- The event loop deletes an object that was given up. -/
  | deferredDelete
  deriving DecidableEq, Repr

namespace DeviceHeap

/-- The devices online, by value. -/
def devs (s : DeviceHeap) : List AShuErDevive := s.onlineDev.map (·.dev)

/-- A started worker with these devices online, and nothing else to do. -/
def toWorker (s : DeviceHeap) : UtisDeviceWorker := { startUp with onlineDev := s.devs }

/-- `QObject::deleteLater`. -/
def deleteLater (s : DeviceHeap) (address : ℕ) : DeviceHeap :=
  { s with scheduled := s.scheduled ++ [address] }

def slotAddDev (s : DeviceHeap) (devType : String) : DeviceHeap × List Effect :=
  if !isvalid devType then (s, [])
  else
    let dev : DeviceObject := ⟨s.created, .new devType⟩
    let s' : DeviceHeap := { s with created := s.created + 1 }
    if s.toWorker.allow2Create dev.dev then
      ({ s' with onlineDev := s.onlineDev ++ [dev] },
        [.showMsg ("添加成功，设备【" ++ dev.dev.geteAShuErDevTypeStr ++ "】"),
          .signalAddDevResult devType true])
    else
      (s'.deleteLater dev.address,
        [.showMsg ("添加失败，设备【" ++ dev.dev.geteAShuErDevTypeStr ++ "】"),
          .signalAddDevResult devType false])

/-- The loop of `slotDelDev`. -/
def slotDelDevLoop (devType : String) : ℕ → ℕ → DeviceHeap → Option (DeviceHeap × List Effect)
  | 0, _, _ => none
  | fuel + 1, i, s =>
    if i < s.onlineDev.length then
      match s.onlineDev[i]? with
      | none => none
      | some object =>
        if object.dev.geteAShuErDevTypeStr = devType then
          (slotDelDevLoop devType fuel (i + 1)
              { s.deleteLater object.address with onlineDev := s.onlineDev.eraseIdx i }).map
            fun r => (r.1, [.showMsg ("关闭设备【" ++ devType ++ "】"),
              .signalAddDevResult devType false] ++ r.2)
        else slotDelDevLoop devType fuel (i + 1) s
    else some (s, [])

def slotDelDev (s : DeviceHeap) (devType : String) : Option (DeviceHeap × List Effect) :=
  if !isvalid devType then some (s, [])
  else slotDelDevLoop devType (s.onlineDev.length + 1) 0 s

end DeviceHeap

def devices : Machine DeviceHeap DeviceInput Effect where
  step s
    | .slotAddDev devType => some (s.slotAddDev devType)
    | .slotDelDev devType => s.slotDelDev devType
    | .deferredDelete =>
      match s.scheduled with
      | [] => none
      | address :: scheduled =>
        some ({ s with scheduled := scheduled, deleted := s.deleted ++ [address] }, [])

abbrev DeviceEntry := Entry DeviceHeap DeviceInput Effect

/-! ## Without the addresses -/

section Forget

variable {s s' : DeviceHeap} {t : String} {out : List Effect}

theorem toWorker_slotAddDev (s : DeviceHeap) (t : String) :
    s.toWorker.slotAddDev t = ((s.slotAddDev t).1.toWorker, (s.slotAddDev t).2) := by
  unfold UtisDeviceWorker.slotAddDev DeviceHeap.slotAddDev
  split
  · rfl
  · dsimp only
    split
    · simp [DeviceHeap.toWorker, DeviceHeap.devs]
    · rfl

theorem devs_eraseIdx (s : DeviceHeap) (i address : ℕ) :
    { s.deleteLater address with onlineDev := s.onlineDev.eraseIdx i : DeviceHeap }.devs
      = s.devs.eraseIdx i := (List.eraseIdx_map ..).symm

theorem devs_slotDelDevLoop (t : String) : ∀ (fuel i : ℕ) (s : DeviceHeap),
    slotDelDevLoop t fuel i s.devs = (s.slotDelDevLoop t fuel i).map fun r => (r.1.devs, r.2)
  | 0, _, _ => rfl
  | fuel + 1, i, s => by
    have hget : s.devs[i]? = s.onlineDev[i]?.map (·.dev) := List.getElem?_map ..
    have hlen : s.devs.length = s.onlineDev.length := List.length_map ..
    rw [slotDelDevLoop, DeviceHeap.slotDelDevLoop, hlen, hget]
    split
    · cases s.onlineDev[i]? with
      | none => rfl
      | some object =>
        simp only [Option.map_some]
        split
        · rw [← devs_eraseIdx s i object.address, devs_slotDelDevLoop t fuel, Option.map_map,
            Option.map_map]
          rfl
        · exact devs_slotDelDevLoop t fuel (i + 1) s
    · rfl

theorem toWorker_slotDelDev (s : DeviceHeap) (t : String) :
    s.toWorker.slotDelDev t = (s.slotDelDev t).map fun r => (r.1.toWorker, r.2) := by
  unfold UtisDeviceWorker.slotDelDev DeviceHeap.slotDelDev
  split
  · rfl
  · have hlen : s.toWorker.onlineDev.length = s.onlineDev.length := List.length_map ..
    rw [show s.toWorker.onlineDev = s.devs from rfl] at hlen ⊢
    rw [hlen, devs_slotDelDevLoop, Option.map_map]
    rfl

/-- The slot a step with objects is. -/
def DeviceInput.slot? : DeviceInput → Option WorkerInput
  | slotAddDev devType => some (.slotAddDev devType)
  | slotDelDev devType => some (.slotDelDev devType)
  | deferredDelete => none

def slotEntry (e : DeviceEntry) : Option WorkerEntry :=
  e.input.slot?.map fun wi => ⟨e.pre.toWorker, wi, e.out, e.post.toWorker⟩

/-- Deleting an object is no step of the worker, and the slots are its slots. -/
theorem slotEntry_of_step {i : DeviceInput} (hs : devices.step s i = some (s', out)) :
    match slotEntry ⟨s, i, out, s'⟩ with
    | none => s'.toWorker = s.toWorker ∧ out = []
    | some e => e.pre = s.toWorker ∧ e.post = s'.toWorker ∧ e.out = out ∧
        worker.step e.pre e.input = some (e.post, e.out) := by
  cases i with
  | slotAddDev t =>
    obtain ⟨rfl, rfl⟩ : (s.slotAddDev t).1 = s' ∧ (s.slotAddDev t).2 = out :=
      Prod.mk.inj (Option.some.inj hs)
    exact ⟨rfl, rfl, rfl, congrArg some (toWorker_slotAddDev s t)⟩
  | slotDelDev t =>
    refine ⟨rfl, rfl, rfl, (toWorker_slotDelDev s t).trans ?_⟩
    rw [show s.slotDelDev t = some (s', out) from hs]
    rfl
  | deferredDelete =>
    simp only [devices] at hs
    split at hs
    · simp at hs
    · obtain ⟨rfl, rfl⟩ := Prod.mk.inj (Option.some.inj hs)
      exact ⟨rfl, rfl⟩

variable {h : List DeviceEntry}

/-- **Without the addresses, a run is a run of the worker…** -/
theorem worker_of_devices (hr : devices.Run {} h s) :
    worker.Run startUp (h.filterMap slotEntry) s.toWorker := by
  refine hr.simulate DeviceHeap.toWorker slotEntry fun {t i u out} _ hs => ?_
  have hone := slotEntry_of_step hs
  split at hone <;> rename_i hg <;> rw [hg]
  · exact hone.1
  · exact ⟨hone.1, hone.2.1, hone.2.2.2⟩

/-- …that emits the same. -/
theorem emitted_slotEntry (hr : devices.Run {} h s) :
    emitted (h.filterMap slotEntry) = emitted h := by
  induction hr with
  | nil => rfl
  | @snoc h t u i out hr hs ih =>
    have hone := slotEntry_of_step hs
    rw [List.filterMap_append, emitted_append, emitted_append, ih, emitted_singleton]
    split at hone <;> rename_i hg
    · obtain ⟨-, rfl⟩ := hone
      simp [hg]
    · simp [hg, hone.2.2.1]

end Forget

/-! ## Where the objects are -/

/-- **Every device made is in one place, once.** -/
def Owned (s : DeviceHeap) : Prop :=
  (s.onlineDev.map (·.address) ++ (s.scheduled ++ s.deleted)).Perm (List.range s.created)

section Owned

variable {s s' : DeviceHeap} {i : DeviceInput} {t : String} {out : List Effect}
  {h : List DeviceEntry}

/-- A device taken out of the registry is given up. -/
theorem Owned.take {object : DeviceObject} {k : ℕ} (ho : Owned s)
    (hobject : s.onlineDev[k]? = some object) :
    Owned { s.deleteLater object.address with onlineDev := s.onlineDev.eraseIdx k } := by
  refine List.Perm.trans ?_ ho
  obtain ⟨hk, hget⟩ := List.getElem?_eq_some_iff.mp hobject
  have hperm := (List.getElem_cons_eraseIdx_perm hk).map (·.address)
  rw [hget, List.map_cons] at hperm
  have hback : (s.scheduled ++ [object.address] ++ s.deleted).Perm
      (object.address :: (s.scheduled ++ s.deleted)) := by
    rw [List.append_assoc]
    exact List.perm_middle
  exact ((hback.append_left _).trans List.perm_middle).trans (hperm.append_right _)

theorem owned_slotDelDevLoop (t : String) : ∀ (fuel k : ℕ) {s s' : DeviceHeap}
    {out : List Effect}, Owned s → s.slotDelDevLoop t fuel k = some (s', out) → Owned s'
  | 0, _, _, _, _, _, hs => by simp [DeviceHeap.slotDelDevLoop] at hs
  | fuel + 1, k, s, s', out, ho, hs => by
    rw [DeviceHeap.slotDelDevLoop] at hs
    split at hs
    · split at hs
      · simp at hs
      · rename_i object hobject
        split at hs
        · obtain ⟨r, hrest, hr⟩ := Option.map_eq_some_iff.mp hs
          obtain ⟨rfl, -⟩ := Prod.mk.inj hr
          exact owned_slotDelDevLoop t fuel (k + 1) (ho.take hobject) hrest
        · exact owned_slotDelDevLoop t fuel (k + 1) ho hs
    · obtain ⟨rfl, -⟩ := Prod.mk.inj (Option.some.inj hs)
      exact ho

/-- A device made is online or given up. -/
theorem Owned.slotAddDev (ho : Owned s) (t : String) : Owned (s.slotAddDev t).1 := by
  have hnew : (s.created :: (s.onlineDev.map (·.address) ++ (s.scheduled ++ s.deleted))).Perm
      (List.range (s.created + 1)) := by
    rw [List.range_succ]
    exact (ho.cons _).trans (List.perm_append_singleton _ _).symm
  unfold DeviceHeap.slotAddDev
  split
  · exact ho
  · dsimp only
    split
    · refine List.Perm.trans ?_ hnew
      rw [List.map_append, List.append_assoc]
      exact List.perm_middle
    · refine List.Perm.trans ?_ hnew
      rw [DeviceHeap.deleteLater, List.append_assoc]
      exact (List.perm_middle.append_left _).trans List.perm_middle

theorem owned_empty : Owned {} := List.Perm.nil

theorem owned_step (ho : Owned s) (hs : devices.step s i = some (s', out)) : Owned s' := by
  cases i with
  | slotAddDev t =>
    obtain ⟨rfl, -⟩ : (s.slotAddDev t).1 = s' ∧ (s.slotAddDev t).2 = out :=
      Prod.mk.inj (Option.some.inj hs)
    exact ho.slotAddDev t
  | slotDelDev t =>
    replace hs : s.slotDelDev t = some (s', out) := hs
    rw [DeviceHeap.slotDelDev] at hs
    split at hs
    · obtain ⟨rfl, -⟩ := Prod.mk.inj (Option.some.inj hs)
      exact ho
    · exact owned_slotDelDevLoop t _ _ ho hs
  | deferredDelete =>
    simp only [devices] at hs
    split at hs
    · simp at hs
    · rename_i address scheduled hscheduled
      obtain ⟨rfl, -⟩ := Prod.mk.inj (Option.some.inj hs)
      refine List.Perm.trans ?_ ho
      rw [hscheduled]
      refine List.Perm.append_left _ ?_
      rw [← List.append_assoc]
      exact List.perm_append_singleton address (scheduled ++ s.deleted)

/-- **Devices are neither leaked nor used too late.**  However adds, deletes and deletions by the
event loop follow each other, every device made is online, given up or deleted, and only one of
these, once; the slots are those of the worker otherwise, and never fail. -/
theorem devices_owned (hr : devices.Run {} h s) :
    Owned s ∧ (∀ object ∈ s.onlineDev, object.address ∉ s.scheduled ∧ object.address ∉ s.deleted) ∧
    (worker.Run startUp (h.filterMap slotEntry) s.toWorker ∧
      emitted (h.filterMap slotEntry) = emitted h) ∧
    ∀ t, (s.slotDelDev t).isSome = true := by
  have ho : Owned s := hr.invariant Owned owned_empty owned_step
  refine ⟨ho, fun object hobject => ?_, ⟨worker_of_devices hr, emitted_slotEntry hr⟩, fun t => ?_⟩
  · have hnodup := ho.nodup_iff.mpr List.nodup_range
    have hapart : object.address ∉ s.scheduled ++ s.deleted :=
      List.disjoint_of_nodup_append hnodup (List.mem_map_of_mem hobject)
    rwa [List.mem_append, not_or] at hapart
  · have hsome := slotDelDev_isSome s.toWorker t
    rwa [toWorker_slotDelDev, Option.isSome_map] at hsome

/-- One refused, one closed, and one of the two deleted. -/
theorem devices_owned_run : ∃ h s, devices.Run {} h s ∧
    s.created = 3 ∧ s.scheduled = [0] ∧ s.deleted = [1] ∧ s.devs = [.new "VD930A"] ∧
    (s.onlineDev.map (·.address) ++ (s.scheduled ++ s.deleted)).Perm (List.range s.created) := by
  obtain ⟨h, s, hr, hcreated, hscheduled, hdeleted, hdevs⟩ := Machine.exists_run (M := devices)
    (s := {}) [.slotAddDev "VD920G", .slotAddDev "VD930A", .deferredDelete, .slotAddDev "-1",
      .slotDelDev "VD920G", .slotAddDev "VD930A"]
    (P := fun _ s => s.created = 3 ∧ s.scheduled = [0] ∧ s.deleted = [1] ∧
      s.devs = [.new "VD930A"]) (by decide)
  exact ⟨h, s, hr, hcreated, hscheduled, hdeleted, hdevs, (devices_owned hr).1⟩

end Owned

end UtisDevice
