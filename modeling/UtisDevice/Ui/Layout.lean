import Mathlib.Data.Set.Prod
import Mathlib.Order.CompletePartialOrder
import Mathlib.Order.Interval.Set.Disjoint
import UtisDevice.Ui.Widget

/-!
# Ui/Layout — the rows tile the window

    (0,0) (0,1) (0,2) (0,3)
    (1,0) (1,1) …               row k at line k / 4, column k % 4

The cells of a line start `width` and a gap of 10 apart, the lines `height` and a gap
(`disjoint_tiles`).  So two rows, differing in line or column, do not overlap; and each reads a key
of its own (`grid_covers`).
-/

namespace UtisDevice

/-! ## Tiles -/

/-- The start of tile `i`, with a gap before each tile. -/
def tile (gap size i : ℕ) : ℕ := (i + 1) * gap + i * size

theorem tile_add_le {gap size i j : ℕ} (h : i < j) : tile gap size i + size ≤ tile gap size j :=
  calc tile gap size i + size = (i + 1) * gap + (i + 1) * size := by
        rw [tile, Nat.add_assoc, Nat.succ_mul i size]
    _ ≤ (j + 1) * gap + j * size :=
        Nat.add_le_add (Nat.mul_le_mul_right gap (by omega)) (Nat.mul_le_mul_right size h)
    _ = tile gap size j := rfl

/-- **Different tiles are apart.** -/
theorem disjoint_tiles {gap size i j : ℕ} (h : i ≠ j) :
    Disjoint (Set.Ico (tile gap size i) (tile gap size i + size))
      (Set.Ico (tile gap size j) (tile gap size j + size)) := by
  rw [Set.Ico_disjoint_Ico]
  rcases Nat.lt_or_gt_of_ne h with hlt | hlt
  · exact (min_le_left _ _).trans ((tile_add_le hlt).trans (le_max_right _ _))
  · exact (min_le_right _ _).trans ((tile_add_le hlt).trans (le_max_left _ _))

/-! ## The grid -/

/-- The pixels of the window a row takes up. -/
def DeviceStateWidget.rect (w : DeviceStateWidget) : Set (ℕ × ℕ) :=
  Set.Ico w.x (w.x + width) ×ˢ Set.Ico w.y (w.y + height)

theorem HuaYunDevInfo.disjoint_nth (settings : QSettings) {k l : ℕ} (h : k ≠ l) :
    Disjoint (nth settings k).stateWidget.rect (nth settings l).stateWidget.rect := by
  refine Set.disjoint_prod.mpr ?_
  by_cases hcol : k % 4 = l % 4
  · have hline : k / 4 ≠ l / 4 := by omega
    exact Or.inr (disjoint_tiles hline)
  · exact Or.inl (disjoint_tiles hcol)

/-! ### What else is in the window

The log has a place of its own in `widget.ui`, and the window a size to begin with. -/

/-- The window at the size `widget.ui` gives it, before anyone resizes it. -/
def windowRect : Set (ℕ × ℕ) := Set.Ico 0 800 ×ˢ Set.Ico 0 574

/-- The message log, as `widget.ui` places it. -/
def historyRect : Set (ℕ × ℕ) := Set.Ico 10 (10 + 780) ×ˢ Set.Ico 429 (429 + 121)

theorem HuaYunDevInfo.rect_nth (settings : QSettings) (k : ℕ) :
    (nth settings k).stateWidget.rect =
      Set.Ico (tile 10 180 (k % 4)) (tile 10 180 (k % 4) + 180) ×ˢ
        Set.Ico (tile 10 110 (k / 4)) (tile 10 110 (k / 4) + 110) := rfl

/-- The first three lines are above the log; from the sixth on they are below it. -/
theorem HuaYunDevInfo.disjoint_historyRect_iff (settings : QSettings) (k : ℕ) :
    Disjoint (nth settings k).stateWidget.rect historyRect ↔ k < 12 ∨ 20 ≤ k := by
  rw [rect_nth, historyRect, Set.disjoint_prod, Set.Ico_disjoint_Ico, Set.Ico_disjoint_Ico, tile,
    tile]
  omega

/-- The first four lines are inside the window, at that size. -/
theorem HuaYunDevInfo.subset_windowRect_iff (settings : QSettings) (k : ℕ) :
    (nth settings k).stateWidget.rect ⊆ windowRect ↔ k < 16 := by
  rw [rect_nth, windowRect, Set.prod_subset_prod_iff, Set.Ico_eq_empty_iff, Set.Ico_eq_empty_iff,
    Set.Ico_subset_Ico_iff (by omega), Set.Ico_subset_Ico_iff (by omega), tile, tile]
  omega

/-- **The grid covers every configured device once.**  Whatever count `cfg.ini` gives, there is a
row for each index under it and no other; the row of index `k` takes its name from the key of `k`,
which no other index has, and stands in column `k % 4` of line `k / 4`, where it overlaps no other
row. -/
theorem grid_covers (count : ℤ) (settings : QSettings) :
    let devs := ((⟨count, []⟩ : Widget).initCfg (some settings)).1.huaYunDevList
    (devs.length : ℤ) = max 0 (settings.devCount.getD (-1)) ∧
    (∀ k (hk : k < devs.length),
      devs[k].name =
        (settings.value ("DevicesHuaYun/Dev" ++ (toString k).leftpad 2 '0')).getD "-1" ∧
      devs[k].stateWidget.x = (k % 4 + 1) * 10 + k % 4 * 180 ∧
      devs[k].stateWidget.y = (k / 4 + 1) * 10 + k / 4 * 110) ∧
    ∀ k l (hk : k < devs.length) (hl : l < devs.length), k ≠ l →
      "DevicesHuaYun/Dev" ++ (toString k).leftpad 2 '0'
          ≠ "DevicesHuaYun/Dev" ++ (toString l).leftpad 2 '0' ∧
        Disjoint devs[k].stateWidget.rect devs[l].stateWidget.rect := by
  intro devs
  have hdevs : devs = (List.range (settings.devCount.getD (-1)).toNat).map (.nth settings) :=
    congrArg Widget.huaYunDevList (Widget.initCfg_some count settings)
  clear_value devs
  subst hdevs
  refine ⟨?_, fun k hk => ?_, fun k l hk hl hkl => ⟨?_, ?_⟩⟩
  · rw [List.length_map, List.length_range, Int.toNat_eq_max, max_comm]
  · rw [List.getElem_map, List.getElem_range]
    exact ⟨rfl, rfl, rfl⟩
  · exact fun h => hkl (devKey_injective h)
  · simp only [List.getElem_map, List.getElem_range]
    exact HuaYunDevInfo.disjoint_nth settings hkl

end UtisDevice
