import UtisDevice.System.Log
import UtisDevice.Ui.Layout

/-!
# System/Screen — all there is to see of the rows, at any time

A row has a name, a place, four texts and pictures and a flag, and several steps write parts of it.
Together they leave it as `initCfg` built it but for the flag and what shows it, and these follow
the last result for its name: so the rows are at any time a function of `cfg.ini` and of the results
taken up (`screen_exact`).  In particular they never move; whether they are clear of the log, and
inside the window at the size `widget.ui` gives it, depends on `DevCount` alone (`screen_fits_iff`).
-/

namespace UtisDevice

open Machinery

/-! ## The look of a row

What a row shows is decided by its index and one bit, and showing a bit forgets the last one. -/

/-- The row of an index, as it looks with its device online or not. -/
def HuaYunDevInfo.showing (settings : QSettings) (shown : String → Bool) (k : ℕ) : HuaYunDevInfo :=
  { nth settings k with
    stateWidget := (nth settings k).stateWidget.updateOnlineState (shown (nth settings k).name) }

theorem DeviceStateWidget.updateOnlineState_twice (w : DeviceStateWidget) (online online' : Bool) :
    (w.updateOnlineState online).updateOnlineState online' = w.updateOnlineState online' := by
  cases online <;> cases online' <;> rfl

/-- **A result changes what the rows of its name show**, and nothing else of them. -/
theorem HuaYunDevInfo.addDevResult_showing (settings : QSettings) (shown : String → Bool) (k : ℕ)
    (devType : String) (success : Bool) :
    (showing settings shown k).addDevResult devType success =
      showing settings (fun n => if devType = n then success else shown n) k := by
  rw [addDevResult, showing, showing]
  split
  · rw [DeviceStateWidget.updateOnlineState_twice]
  · rfl

theorem HuaYunDevInfo.rect_showing (settings : QSettings) (shown : String → Bool) (k : ℕ) :
    (showing settings shown k).stateWidget.rect = (nth settings k).stateWidget.rect := by
  rw [showing]
  cases shown (nth settings k).name <;> rfl

section Screen

variable {count : ℤ} {settings : QSettings} {s₀ s : Application} {h : List ApplicationEntry}

/-- What the results taken up so far say of a name. -/
def shownBy (h : List ApplicationEntry) (n : String) : Bool :=
  latest false n ((h.flatMap heard).filterMap Notice.result?)

theorem shownBy_concat (h : List ApplicationEntry) (e : ApplicationEntry) :
    shownBy (h ++ [e]) =
      fun n => latest (shownBy h n) n ((heard e).filterMap Notice.result?) := by
  funext n
  rw [shownBy, List.flatMap_append, List.flatMap_singleton, List.filterMap_append, latest_append]
  rfl

/-- A step that takes up no result changes no row. -/
theorem shownBy_of_heard {e : ApplicationEntry} (he : (heard e).filterMap Notice.result? = []) :
    shownBy (h ++ [e]) = shownBy h := by
  rw [shownBy_concat, he]
  rfl

/-- **The rows at any time**: those `cfg.ini` asks for, in order, each as it was built but for
showing the last result taken up for its name. -/
theorem screen_exact (hinit : Application.init count (some settings) = some s₀)
    (hr : application.Run s₀ h s) : s.widget.huaYunDevList =
      (List.range (settings.devCount.getD (-1)).toNat).map (.showing settings (shownBy h)) := by
  induction hr with
  | nil =>
    obtain ⟨r, -, rfl⟩ := Option.map_eq_some_iff.mp hinit
    exact congrArg Widget.huaYunDevList (Widget.initCfg_some count settings)
  | @snoc h t u i out hr hs ih =>
    cases advance_of_step hs with
    | openBtn => rwa [shownBy_of_heard rfl]
    | clearBtn => rwa [shownBy_of_heard rfl]
    | edit => rwa [shownBy_of_heard rfl]
    | timer => rwa [shownBy_of_heard rfl]
    | process => rwa [shownBy_of_heard rfl]
    | @occur i wi w out hi =>
      have hnone := (heard_of_outer (e := ⟨t, i, out, (t.works (w, out)).1⟩) hi).1
      rwa [shownBy_of_heard (by rw [hnone]; rfl)]
    | shown hnotices =>
      rwa [shownBy_of_heard (by simp [heard, hnotices, Notice.result?])]
    | @answered n success notices widget hnotices hset =>
      let e : ApplicationEntry := ⟨t, .deliver, [], { t with widget := widget, notices := notices }⟩
      have hresult : (heard e).filterMap Notice.result? = [(n, success)] := by
        simp [e, heard, hnotices, Notice.result?]
      rw [shownBy_concat, hresult]
      obtain ⟨rows, hrows, rfl⟩ := Option.map_eq_some_iff.mp hset
      rw [(kept_of_run hinit hr).count, updateEach_eq _ (le_refl _), List.take_length,
        List.drop_length, List.append_nil, ih, List.map_map] at hrows
      rw [← Option.some.inj hrows]
      exact List.map_congr_left fun k _ => HuaYunDevInfo.addDevResult_showing ..

/-- Two cameras share a cell, so one is shown on. -/
theorem screen_exact_run : ∃ h s, application.Run (.ofNames ["VD920G", "VD930A"]) h s ∧
    shownBy h "VD920G" = true ∧ shownBy h "VD930A" = false ∧
    s.widget.huaYunDevList = (List.range 2).map
      (.showing (.ofNames ["VD920G", "VD930A"]) (shownBy h)) := by
  obtain ⟨h, s, hr, hon, hoff⟩ := Machine.exists_run (M := application)
    (s := .ofNames ["VD920G", "VD930A"])
    [.process, .process, .process, .deliver, .deliver, .deliver, .deliver]
    (P := fun h _ => shownBy h "VD920G" = true ∧ shownBy h "VD930A" = false) (by decide)
  exact ⟨h, s, hr, hon, hoff, screen_exact (Application.init_ofNames 0 _) hr⟩

/-- **The rows are clear of the log for up to twelve devices, and for up to sixteen inside the
window at the size `widget.ui` gives it**, at any time; beyond that some are not.  Nothing keeps the
window at that size: a larger one shows more of the rows. -/
theorem screen_fits_iff (hinit : Application.init count (some settings) = some s₀)
    (hr : application.Run s₀ h s) :
    ((∀ row ∈ s.widget.huaYunDevList, Disjoint row.stateWidget.rect historyRect) ↔
      settings.devCount.getD (-1) ≤ 12) ∧
    ((∀ row ∈ s.widget.huaYunDevList, row.stateWidget.rect ⊆ windowRect) ↔
      settings.devCount.getD (-1) ≤ 16) := by
  rw [screen_exact hinit hr]
  simp only [List.forall_mem_map, List.mem_range, HuaYunDevInfo.rect_showing,
    HuaYunDevInfo.disjoint_historyRect_iff, HuaYunDevInfo.subset_windowRect_iff]
  constructor
  · constructor
    · intro hall
      by_contra hmore
      have := hall 12 (by omega)
      omega
    · intro hle k hk
      omega
  · constructor
    · intro hall
      by_contra hmore
      have := hall 16 (by omega)
      omega
    · intro hle k hk
      omega

/-- Thirteen names: the last row is under the log. -/
theorem screen_fits_iff_run : ∃ h s,
    application.Run (.ofNames (List.replicate 13 "MWS600")) h s ∧
    (∀ row ∈ s.widget.huaYunDevList, row.stateWidget.rect ⊆ windowRect) ∧
    ¬ ∀ row ∈ s.widget.huaYunDevList, Disjoint row.stateWidget.rect historyRect := by
  obtain ⟨h, s, hr, -⟩ := Machine.exists_run (M := application)
    (s := .ofNames (List.replicate 13 "MWS600")) [.process, .process, .deliver, .openBtn 12]
    (P := fun _ _ => True) (by decide)
  obtain ⟨hclear, hinside⟩ := screen_fits_iff (Application.init_ofNames 0 _) hr
  exact ⟨h, s, hr, hinside.mpr (by decide), hclear.not.mpr (by decide)⟩

end Screen

end UtisDevice
