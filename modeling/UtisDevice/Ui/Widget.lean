import Mathlib.Data.Int.Basic
import Mathlib.Data.String.Lemmas
import UtisDevice.Machinery.Indexed

/-!
# Ui/Widget — the rows of the main window

`DeviceStateWidget` is a row: a name, the state it shows and a button that asks for the opposite
state.  `Widget` reads the rows from `cfg.ini` (`initCfg`), asks for every one of them at start-up
(`initHuaYunDevice`) and sets the rows of a name to the result that comes back for it
(`signalAddDevResult`).  The two loops over the rows are bounded by `m_HuaYunDevCount`, not by the
list: an access out of range is `none`.
-/

namespace UtisDevice

open Machinery

/-! ## A row -/

/-- The members of `DeviceStateWidget`, and its position; a label or button stands for its text or
style sheet. -/
structure DeviceStateWidget where
  devName : String
  devNameLabel : String
  stateLabel : String
  statePic : String
  openBtn : String
  online : Bool
  x : ℕ := 0
  y : ℕ := 0
  deriving DecidableEq, Repr

namespace DeviceStateWidget

/-- `setFixedSize(180, 110)`. -/
def width : ℕ := 180
def height : ℕ := 110

def updateOnlineState (w : DeviceStateWidget) (online : Bool) : DeviceStateWidget :=
  if online then
    { w with
      online := online
      statePic := "border-image: url(:/resources/icons/online.png);"
      openBtn := "关闭" }
  else
    { w with
      online := online
      statePic := "border-image: url(:/resources/icons/offline.png);"
      openBtn := "打开" }

/-- The constructor, `init` included. -/
def new (devName : String) : DeviceStateWidget :=
  updateOnlineState
    { devName := devName
      devNameLabel := "设备型号：" ++ devName
      stateLabel := "状    态:：" ++ devName
      statePic := ""
      openBtn := ""
      online := false }
    false

def move (w : DeviceStateWidget) (x y : ℕ) : DeviceStateWidget := { w with x := x, y := y }

/-- The lambda on the button: the message it shows, and what `signalOpenDevice` carries. -/
def clicked (w : DeviceStateWidget) (click : Bool) : String × Bool :=
  (w.devName ++ "点击: " ++ toString click.toNat, !w.online)

@[simp] theorem online_updateOnlineState (w : DeviceStateWidget) (online : Bool) :
    (w.updateOnlineState online).online = online := by cases online <;> rfl

end DeviceStateWidget

/-! ## The rows of `cfg.ini` -/

/-- `cfg.ini` as `QSettings` reads it: the count under `DevicesHuaYun/DevCount`, as `toInt` converts
it, and the strings under the other keys. -/
structure QSettings where
  devCount : Option ℤ
  value : String → Option String

structure HuaYunDevInfo where
  name : String
  stateWidget : DeviceStateWidget
  online : Bool
  deriving DecidableEq, Repr

/-- The members of `Widget` that carry the rows; no code initialises the count. -/
structure Widget where
  huaYunDevCount : ℤ
  huaYunDevList : List HuaYunDevInfo := []
  deriving DecidableEq, Repr

/-- `QString("DevicesHuaYun/Dev%1").arg(index, 2, 10, QLatin1Char('0'))`. -/
def devKey (index : ℕ) : String := "DevicesHuaYun/Dev" ++ (toString index).leftpad 2 '0'

/-- The body of the loops of `initCfg`. -/
def HuaYunDevInfo.ofCfg (settings : QSettings) (index i j : ℕ) : HuaYunDevInfo :=
  let name := (settings.value (devKey index)).getD "-1"
  { online := false
    name := name
    stateWidget := (DeviceStateWidget.new name).move
      ((j + 1) * 10 + j * DeviceStateWidget.width) ((i + 1) * 10 + i * DeviceStateWidget.height) }

/-- The inner loop of `initCfg`, over the columns left of line `i`, with `index` counting on. -/
def initCfgColumns (settings : QSettings) (count : ℤ) (i : ℕ) :
    List ℕ → List HuaYunDevInfo × ℕ → List HuaYunDevInfo × ℕ
  | [], r => r
  | j :: js, (rows, index) =>
    if (index : ℤ) < count then
      initCfgColumns settings count i js (rows ++ [.ofCfg settings index i j], index + 1)
    else (rows, index)

/-- The outer loop. -/
def initCfgLines (settings : QSettings) (count : ℤ) (line : ℕ) (rows : List HuaYunDevInfo) :
    List HuaYunDevInfo × ℕ :=
  (List.range line).foldl (fun r i => initCfgColumns settings count i (List.range 4) r) (rows, 0)

/-- `%` and `/` of C++ truncate. -/
def lineCount (count : ℤ) : ℤ := (if count.tmod 4 > 0 then 1 else 0) + count.tdiv 4

namespace Widget

/-- The messages come with the widget; `none` is a missing `cfg.ini`. -/
def initCfg (w : Widget) : Option QSettings → Widget × List String
  | none => (w, ["****** cfg.ini 配置文件丢失 ******"])
  | some settings =>
    let count := settings.devCount.getD (-1)
    ({ huaYunDevCount := count
       huaYunDevList :=
        (initCfgLines settings count (lineCount count).toNat w.huaYunDevList).1 },
      if count < 0 then
        ["************ cfg.ini 配置文件数据有误<DevicesHuaYun/DevCount == -1>，请检查配置并重启 ************"]
      else [])

end Widget

/-- A row of the grid, by its index alone. -/
def HuaYunDevInfo.nth (settings : QSettings) (k : ℕ) : HuaYunDevInfo :=
  .ofCfg settings k (k / 4) (k % 4)

theorem initCfgColumns_eq (settings : QSettings) {n : ℕ} {i : ℕ} : ∀ (m j k : ℕ), k = 4 * i + j →
    j + m ≤ 4 → k ≤ n →
      initCfgColumns settings n i (List.range' j m) ((List.range k).map (.nth settings), k)
        = ((List.range (min (k + m) n)).map (.nth settings), min (k + m) n)
  | 0, j, k, _, _, hk => by simp [initCfgColumns, hk]
  | m + 1, j, k, hkj, hj, hk => by
    rw [List.range'_succ, initCfgColumns]
    split
    · have hlt : k < n := by omega
      have hrow : HuaYunDevInfo.ofCfg settings k i j = .nth settings k := by
        rw [HuaYunDevInfo.nth, show k / 4 = i by omega, show k % 4 = j by omega]
      rw [hrow, ← List.map_singleton, ← List.map_append, ← List.range_succ,
        initCfgColumns_eq settings m (j + 1) (k + 1) (by omega) (by omega) (by omega),
        show k + 1 + m = k + (m + 1) by omega]
    · rw [show min (k + (m + 1)) n = k by omega]

/-- **The grid loops create each row once, in order.** -/
theorem initCfgLines_eq (settings : QSettings) (n : ℕ) : ∀ {line : ℕ}, 4 * line ≤ n + 3 →
    initCfgLines settings n line []
      = ((List.range (min (4 * line) n)).map (.nth settings), min (4 * line) n)
  | 0, _ => by simp [initCfgLines]
  | line + 1, hline => by
    have ih := initCfgLines_eq settings n (show 4 * line ≤ n + 3 by omega)
    rw [initCfgLines] at ih ⊢
    rw [List.range_succ (n := line), List.foldl_append, ih, List.foldl_cons, List.foldl_nil,
      List.range_eq_range', initCfgColumns_eq settings 4 0 _ (by omega) (by omega) (by omega),
      show min (min (4 * line) n + 4) n = min (4 * (line + 1)) n by omega]

theorem lineCount_of_nonneg (n : ℕ) :
    4 * (lineCount n).toNat ≤ n + 3 ∧ n ≤ 4 * (lineCount n).toNat := by
  have hline : lineCount n = (if (n : ℤ) % 4 > 0 then 1 else 0) + (n : ℤ) / 4 := by
    rw [lineCount, Int.tmod_eq_emod_of_nonneg (by omega), Int.tdiv_eq_ediv_of_nonneg (by omega)]
  rw [hline]
  split <;> omega

theorem lineCount_of_neg {count : ℤ} (h : count < 0) : (lineCount count).toNat = 0 := by
  obtain ⟨n, rfl⟩ : ∃ n : ℕ, count = -n := ⟨count.natAbs, by omega⟩
  rw [lineCount, Int.neg_tmod, Int.neg_tdiv, Int.tmod_eq_emod_of_nonneg (by omega),
    Int.tdiv_eq_ediv_of_nonneg (by omega)]
  split <;> omega

namespace Widget

/-- **`initCfg` makes one row for each index under the count**, whatever the count is. -/
theorem initCfg_some (count : ℤ) (settings : QSettings) :
    ((⟨count, []⟩ : Widget).initCfg (some settings)).1 =
      ⟨settings.devCount.getD (-1),
        (List.range (settings.devCount.getD (-1)).toNat).map (.nth settings)⟩ := by
  simp only [initCfg]
  generalize settings.devCount.getD (-1) = count
  rcases Int.lt_or_le count 0 with hneg | hpos
  · rw [lineCount_of_neg hneg, show count.toNat = 0 by omega]
    rfl
  · obtain ⟨n, rfl⟩ := Int.eq_ofNat_of_zero_le hpos
    obtain ⟨hle, hge⟩ := lineCount_of_nonneg n
    rw [initCfgLines_eq settings n hle, Int.toNat_natCast, Nat.min_eq_right hge]

end Widget

/-! ## A `cfg.ini` for a list of names -/

theorem devKey_injective : Function.Injective devKey := by
  have hread : ∀ k : ℕ, Nat.ofDigitChars 10 ((toString k).leftpad 2 '0').toList 0 = k := by
    intro k
    rw [String.leftpad, String.toList_ofList, List.leftpad, Nat.ofDigitChars_append,
      Nat.ofDigitChars_replicate_zero, Nat.mul_zero, Nat.toString_eq_repr, Nat.toList_repr,
      Nat.ofDigitChars_ten_toDigits]
  intro k l h
  have hlist : "DevicesHuaYun/Dev".toList ++ ((toString k).leftpad 2 '0').toList
      = "DevicesHuaYun/Dev".toList ++ ((toString l).leftpad 2 '0').toList :=
    String.toList_append.symm.trans ((congrArg String.toList h).trans String.toList_append)
  have hdigits := List.append_cancel_left hlist
  calc k = Nat.ofDigitChars 10 ((toString k).leftpad 2 '0').toList 0 := (hread k).symm
    _ = Nat.ofDigitChars 10 ((toString l).leftpad 2 '0').toList 0 := by rw [hdigits]
    _ = l := hread l

/-- The `cfg.ini` that lists some names. -/
def QSettings.ofNames (names : List String) : QSettings where
  devCount := some names.length
  value key := ((List.range names.length).find? fun k => devKey k == key).bind fun k => names[k]?

theorem QSettings.ofNames_value (names : List String) {k : ℕ} (hk : k < names.length) :
    (ofNames names).value (devKey k) = some names[k] := by
  have hfind : ((List.range names.length).find? fun l => devKey l == devKey k) = some k := by
    rw [List.find?_range_eq_some]
    refine ⟨by simp, List.mem_range.mpr hk, fun l hl => ?_⟩
    simpa using fun h => Nat.ne_of_lt hl (devKey_injective h)
  simp [ofNames, hfind]

/-! ## Requests and results -/

/-- What the window asks of the worker. -/
inductive Request
  | signalAddDev (devType : String)
  | signalDelDev (devType : String)
  deriving DecidableEq, Repr

/-- The lambda `initCfg` connects to a row's `signalOpenDevice`. -/
def HuaYunDevInfo.signalOpenDevice (row : HuaYunDevInfo) (online : Bool) : Request :=
  if online then .signalAddDev row.name else .signalDelDev row.name

/-- The body of the loop that sets the rows of a name. -/
def HuaYunDevInfo.addDevResult (devType : String) (success : Bool) (row : HuaYunDevInfo) :
    HuaYunDevInfo :=
  if devType = row.name then
    { row with stateWidget := row.stateWidget.updateOnlineState success }
  else row

/-- The body of the loop of `slotAddDevResult`, which compares the other way round. -/
def HuaYunDevInfo.slotAddDevResult (devType : String) (success : Bool) (row : HuaYunDevInfo) :
    HuaYunDevInfo :=
  if row.name = devType then
    { row with stateWidget := row.stateWidget.updateOnlineState success }
  else row

namespace Widget

/-- The lambda `initHuaYunDevice` connects to `signalAddDevResult`. -/
def signalAddDevResult (w : Widget) (devType : String) (success : Bool) : Option Widget :=
  (updateEach (.addDevResult devType success) w.huaYunDevCount.toNat w.huaYunDevList).map
    fun rows => { w with huaYunDevList := rows }

/-- A slot nothing is connected to. -/
def slotAddDevResult (w : Widget) (devType : String) (success : Bool) : Option Widget :=
  (updateEach (.slotAddDevResult devType success) w.huaYunDevCount.toNat w.huaYunDevList).map
    fun rows => { w with huaYunDevList := rows }

/-- The message shown and the requests sent at start-up. -/
def initHuaYunDevice (w : Widget) : Option (String × List Request) :=
  (readEach (fun row => Request.signalAddDev row.name) w.huaYunDevCount.toNat w.huaYunDevList).map
    fun requests => (toString w.huaYunDevCount, requests)

/-- A click on the button of row `i`, if there is one: the message shown and the request sent. -/
def click (w : Widget) (i : ℕ) : Option (String × Request) :=
  w.huaYunDevList[i]?.map fun row =>
    ((row.stateWidget.clicked false).1, row.signalOpenDevice (row.stateWidget.clicked false).2)

/-- The name of each row, and the state it shows. -/
def rows (w : Widget) : List (String × Bool) :=
  w.huaYunDevList.map fun row => (row.name, row.stateWidget.online)

/-- The count is the number of rows. -/
def Counted (w : Widget) : Prop := w.huaYunDevCount = w.huaYunDevList.length

/-- The window `initCfg` builds for a list of names. -/
def ofNames (names : List String) : Widget :=
  ((⟨0, []⟩ : Widget).initCfg (some (.ofNames names))).1

theorem counted_ofNames (names : List String) : (ofNames names).Counted := by
  rw [ofNames, initCfg_some, Counted]
  simp [QSettings.ofNames]

/-- **The window for a list of names shows each of them closed**, in order. -/
theorem rows_ofNames (names : List String) :
    (ofNames names).rows = names.map fun name => (name, false) := by
  rw [ofNames, initCfg_some, rows, List.map_map]
  have hcount : ((QSettings.ofNames names).devCount.getD (-1)).toNat = names.length := rfl
  rw [hcount]
  refine List.ext_getElem (by simp) fun k hk _ => ?_
  have hlt : k < names.length := by simpa using hk
  simp [HuaYunDevInfo.nth, HuaYunDevInfo.ofCfg, QSettings.ofNames_value names hlt,
    DeviceStateWidget.move, DeviceStateWidget.new]

variable {w : Widget}

/-- **A result sets the rows of its name, and only them.** -/
theorem signalAddDevResult_eq (hw : w.Counted) (devType : String) (success : Bool) :
    ∃ w', w.signalAddDevResult devType success = some w' ∧ w'.Counted ∧
      w'.rows = w.rows.map fun row => if devType = row.1 then (row.1, success) else row := by
  have hcount : w.huaYunDevCount.toNat = w.huaYunDevList.length := by
    rw [hw]
    rfl
  rw [signalAddDevResult, hcount, updateEach_eq _ (le_refl _)]
  refine ⟨_, rfl, ?_, ?_⟩
  · simpa [Counted] using hw
  · simp only [rows, List.take_length, List.drop_length, List.append_nil, List.map_map]
    refine List.map_congr_left fun row _ => ?_
    simp only [Function.comp_apply, HuaYunDevInfo.addDevResult]
    split <;> simp

/-- **The slot does what the lambda does.** -/
theorem slotAddDevResult_eq (w : Widget) (devType : String) (success : Bool) :
    w.slotAddDevResult devType success = w.signalAddDevResult devType success := by
  have hbody : HuaYunDevInfo.slotAddDevResult devType success = .addDevResult devType success := by
    funext row
    simp only [HuaYunDevInfo.slotAddDevResult, HuaYunDevInfo.addDevResult, eq_comm]
  rw [slotAddDevResult, signalAddDevResult, hbody]

theorem initHuaYunDevice_eq (hw : w.Counted) :
    w.initHuaYunDevice = some (toString w.huaYunDevCount,
      w.rows.map fun row => Request.signalAddDev row.1) := by
  have hcount : w.huaYunDevCount.toNat = w.huaYunDevList.length := by
    rw [hw]
    rfl
  rw [initHuaYunDevice, hcount, readEach_eq _ (le_refl _), List.take_length]
  simp [rows]

/-- **A click asks for the opposite of what its row shows.** -/
theorem click_map_snd (w : Widget) (i : ℕ) : (w.click i).map Prod.snd =
    w.rows[i]?.map fun row => if row.2 then .signalDelDev row.1 else .signalAddDev row.1 := by
  rw [click, rows, List.getElem?_map]
  cases w.huaYunDevList[i]? with
  | none => rfl
  | some row =>
    simp only [Option.map_some, DeviceStateWidget.clicked, HuaYunDevInfo.signalOpenDevice]
    by_cases hshown : row.stateWidget.online = true <;> simp [hshown]

end Widget

end UtisDevice
