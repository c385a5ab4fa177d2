import UtisDevice.System.Threads

/-!
# System/Range — the loops over the rows, and the count they trust

Three loops count up to `m_HuaYunDevCount` and read `m_HuaYunDevList.at(i)`.  They stay in range
together (`inRange_iff`), and neither the count nor the number of rows changes once `initCfg` has
returned (`inRange_of_reaches`).  So all rests on `initCfg`: with a `cfg.ini` the two agree or the
count is negative, whatever the file says; without one the count is whatever was in memory, the list
is empty, and start-up reads past its end if the count is positive (`inRange_forever_iff`).
-/

namespace UtisDevice

open Machinery

/-- Every index under the count is an index of the list, and the loops find it so. -/
structure Widget.InRange (w : Widget) : Prop where
  index : ∀ i : ℤ, 0 ≤ i → i < w.huaYunDevCount → i < w.huaYunDevList.length
  initHuaYunDevice : w.initHuaYunDevice.isSome = true
  signalAddDevResult : ∀ devType success, (w.signalAddDevResult devType success).isSome = true
  slotAddDevResult : ∀ devType success, (w.slotAddDevResult devType success).isSome = true

namespace Widget

variable {w w' : Widget}

theorem toNat_le_of_initHuaYunDevice (h : w.initHuaYunDevice.isSome = true) :
    w.huaYunDevCount.toNat ≤ w.huaYunDevList.length := by
  rw [Widget.initHuaYunDevice, Option.isSome_map] at h
  obtain ⟨requests, hread⟩ := Option.isSome_iff_exists.mp h
  exact le_of_readEach hread

/-- **The three loops need the same**: a count no larger than the list. -/
theorem inRange_iff : w.InRange ↔ w.huaYunDevCount.toNat ≤ w.huaYunDevList.length := by
  constructor
  · exact fun h => toNat_le_of_initHuaYunDevice h.initHuaYunDevice
  · intro hle
    have hset : ∀ devType success, (w.signalAddDevResult devType success).isSome = true :=
      fun devType success => by
        rw [Widget.signalAddDevResult, updateEach_eq _ hle]
        rfl
    refine ⟨fun i hi hlt => by omega, ?_, hset, fun devType success => ?_⟩
    · rw [Widget.initHuaYunDevice, readEach_eq _ hle]
      rfl
    · rw [slotAddDevResult_eq]
      exact hset devType success

/-- A result changes neither the count nor the number of rows. -/
theorem signalAddDevResult_length {devType : String} {success : Bool}
    (h : w.signalAddDevResult devType success = some w') :
    w'.huaYunDevCount = w.huaYunDevCount ∧ w'.huaYunDevList.length = w.huaYunDevList.length := by
  obtain ⟨rows, hset, rfl⟩ := Option.map_eq_some_iff.mp h
  exact ⟨rfl, (le_of_updateEach hset).2⟩

/-- **With a `cfg.ini` the rows are in range**, whatever it says. -/
theorem inRange_initCfg_some (count : ℤ) (settings : QSettings) :
    ((⟨count, []⟩ : Widget).initCfg (some settings)).1.InRange := by
  rw [initCfg_some, inRange_iff, List.length_map, List.length_range]

/-- Without one the count stays what it was, over no rows. -/
theorem inRange_initCfg_none {count : ℤ} :
    ((⟨count, []⟩ : Widget).initCfg none).1.InRange ↔ count ≤ 0 := by
  rw [inRange_iff]
  exact ⟨fun h => Int.toNat_eq_zero.mp (Nat.le_zero.mp h),
    fun h => Nat.le_of_eq (Int.toNat_eq_zero.mpr h)⟩

end Widget

/-! ## Whole runs -/

theorem inRange_step {s s' : Threads} {i : ThreadsInput} {out : List (String × Bool)}
    (h : s.widget.InRange) (hs : threads.step s i = some (s', out)) : s'.widget.InRange := by
  cases i with
  | click row =>
    obtain ⟨r, -, rfl, -⟩ := click_inv hs
    exact h
  | process =>
    obtain ⟨request, requests, w, o, -, -, -, rfl⟩ := process_inv hs
    exact h
  | deliver =>
    obtain ⟨n, success, rest, widget, -, hset, -, rfl⟩ := deliver_inv hs
    obtain ⟨hcount, hlen⟩ := Widget.signalAddDevResult_length hset
    rw [Widget.inRange_iff] at h ⊢
    rwa [hcount, hlen]

theorem inRange_of_reaches {s s' : Threads} (h : s.widget.InRange)
    (hr : threads.Reaches s s') : s'.widget.InRange :=
  let ⟨_, hr⟩ := hr
  hr.invariant (fun s => s.widget.InRange) h inRange_step

/-- The rows are in range once `initCfg` has returned, and in every state the system reaches. -/
def InRangeForever (count : ℤ) (cfg : Option QSettings) : Prop :=
  ((⟨count, []⟩ : Widget).initCfg cfg).1.InRange ∧
    ∀ s s', Threads.init ((⟨count, []⟩ : Widget).initCfg cfg).1 = some s →
      threads.Reaches s s' → s'.widget.InRange

/-- **The rows stay in range exactly where there is a `cfg.ini`, or the uninitialised count happens
not to be positive.** -/
theorem inRange_forever_iff (count : ℤ) (cfg : Option QSettings) :
    InRangeForever count cfg ↔ cfg.isSome = true ∨ count ≤ 0 := by
  have hstart : InRangeForever count cfg ↔ ((⟨count, []⟩ : Widget).initCfg cfg).1.InRange := by
    refine ⟨And.left, fun h => ⟨h, fun s s' hinit hr => inRange_of_reaches ?_ hr⟩⟩
    obtain ⟨r, -, rfl⟩ := Option.map_eq_some_iff.mp hinit
    exact h
  rw [hstart]
  cases cfg with
  | none => simpa using Widget.inRange_initCfg_none
  | some settings => simpa using Widget.inRange_initCfg_some count settings

/-- Without a `cfg.ini`, a count of 1 left in memory makes start-up read row 0 of none. -/
theorem starts_out_of_range : ¬ InRangeForever 1 none ∧
    ((⟨1, []⟩ : Widget).initCfg none).1.initHuaYunDevice = none := by
  refine ⟨fun h => ?_, by decide⟩
  exact absurd (Widget.inRange_initCfg_none.mp h.1) (by decide)

end UtisDevice
