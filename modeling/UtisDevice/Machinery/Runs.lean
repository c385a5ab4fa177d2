import Mathlib.Data.List.Basic
import Mathlib.Data.List.TakeWhile

/-!
# Machinery/Runs — the maximal runs between separators

    runs ␣ "  SCAN  02␣" = ["SCAN", "02"]

`runs sep l` splits `l` at every separator and drops what is empty.  Two equations determine it: a
nonempty block without separators is its own run (`runs_eq_singleton`), and a list may be cut at any
separator (`runs_append_cons`).  The first run and what stands behind it are read off the list
itself; where other elements separate as well, the runs are those of the two parts (`runs_first`).
-/

namespace Machinery

variable {α : Type*}

/-- The maximal runs of elements that are no separators. -/
def runs (sep : α → Bool) (l : List α) : List (List α) :=
  (l.splitOnP sep).filter fun r => !r.isEmpty

section Runs

variable {sep : α → Bool} {l : List α}

@[simp] theorem runs_nil : runs sep [] = [] := rfl

/-- **A block without separators is one run.** -/
theorem runs_eq_singleton (h : ∀ a ∈ l, sep a = false) (hne : l ≠ []) : runs sep l = [l] := by
  rw [runs, List.splitOnP_eq_singleton h, List.filter_cons_of_pos (by simpa using hne),
    List.filter_nil]

/-- **A list may be cut at any separator.** -/
theorem runs_append_cons {a : α} (ha : sep a = true) (l l' : List α) :
    runs sep (l ++ a :: l') = runs sep l ++ runs sep l' := by
  rw [runs, List.splitOnP_append_cons l l' ha, List.filter_append, runs, runs]

/-- Separators at the end belong to no run. -/
theorem runs_append_of_seps {l' : List α} (h : ∀ a ∈ l', sep a = true) :
    runs sep (l ++ l') = runs sep l := by
  induction l' generalizing l with
  | nil => rw [List.append_nil]
  | cons a l' ih =>
    obtain ⟨ha, hl'⟩ := List.forall_mem_cons.mp h
    rw [runs_append_cons ha, ← List.nil_append l', ih hl', runs_nil, List.append_nil]

/-- Separators at the front belong to no run. -/
theorem runs_seps_append {s : List α} (h : ∀ a ∈ s, sep a = true) :
    runs sep (s ++ l) = runs sep l := by
  induction s with
  | nil => rfl
  | cons a s ih =>
    obtain ⟨ha, hs⟩ := List.forall_mem_cons.mp h
    rw [List.cons_append, ← List.nil_append (a :: (s ++ l)), runs_append_cons ha, runs_nil,
      List.nil_append, ih hs]

/-- A list may be cut before a separator. -/
theorem runs_append {l' : List α} (h : ∀ a ∈ l'.head?, sep a = true) :
    runs sep (l ++ l') = runs sep l ++ runs sep l' := by
  cases l' with
  | nil => rw [List.append_nil, runs_nil, List.append_nil]
  | cons a l' =>
    have ha : sep a = true := h a rfl
    rw [runs_append_cons ha, ← List.nil_append (a :: l'), runs_append_cons ha, runs_nil,
      List.nil_append]

end Runs

/-! ## The first run

As a part of the list, with what stands behind it. -/

/-- The first run, `[]` if there is none. -/
def firstRun (sep : α → Bool) (l : List α) : List α :=
  (l.dropWhile sep).takeWhile fun a => !sep a

/-- What stands behind the first run. -/
def behindFirst (sep : α → Bool) (l : List α) : List α :=
  (l.dropWhile sep).dropWhile fun a => !sep a

section First

variable {sep : α → Bool} {l : List α}

theorem sep_of_mem_firstRun {a : α} (ha : a ∈ firstRun sep l) : sep a = false := by
  have h := List.mem_takeWhile_imp (p := fun a => !sep a) ha
  simpa using h

theorem sep_of_head_behindFirst : ∀ a ∈ (behindFirst sep l).head?, sep a = true := by
  intro a ha
  have h := List.head?_dropWhile_not (fun a => !sep a) (l.dropWhile sep)
  rw [behindFirst] at ha
  rw [ha] at h
  simpa using h

/-- **Runs between more separators** are those of the first run, then those behind it. -/
theorem runs_first {coarse : α → Bool} (h : ∀ a, sep a = true → coarse a = true) (l : List α) :
    runs coarse l = runs coarse (firstRun sep l) ++ runs coarse (behindFirst sep l) := by
  have hcut : l = l.takeWhile sep ++ (firstRun sep l ++ behindFirst sep l) := by
    rw [firstRun, behindFirst, List.takeWhile_append_dropWhile, List.takeWhile_append_dropWhile]
  conv_lhs => rw [hcut]
  rw [runs_seps_append fun a ha => h a (List.mem_takeWhile_imp ha),
    runs_append fun a ha => h a (sep_of_head_behindFirst a ha)]

/-- **The first run is the first of the runs.** -/
theorem runs_eq_cons (h : firstRun sep l ≠ []) :
    runs sep l = firstRun sep l :: runs sep (behindFirst sep l) := by
  rw [runs_first (fun _ => id) l, runs_eq_singleton (fun _ => sep_of_mem_firstRun) h,
    List.singleton_append]

/-- Where there is no first run there are separators only. -/
theorem sep_of_firstRun_eq_nil (h : firstRun sep l = []) : ∀ a ∈ l, sep a = true := by
  cases hd : l.dropWhile sep with
  | nil => exact List.dropWhile_eq_nil_iff.mp hd
  | cons a l' =>
    have ha := List.head?_dropWhile_not sep l
    rw [hd] at ha
    simp only [List.head?_cons] at ha
    rw [firstRun, hd, List.takeWhile_cons_of_pos (by simpa using ha)] at h
    exact absurd h (List.cons_ne_nil _ _)

theorem runs_eq_nil_iff : runs sep l = [] ↔ ∀ a ∈ l, sep a = true := by
  constructor
  · intro h
    by_cases hfirst : firstRun sep l = []
    · exact sep_of_firstRun_eq_nil hfirst
    · rw [runs_eq_cons hfirst] at h
      exact absurd h (List.cons_ne_nil _ _)
  · intro h
    rw [← List.append_nil l, runs_seps_append h, runs_nil]

theorem behindFirst_eq_nil (h : firstRun sep l = []) : behindFirst sep l = [] := by
  rw [behindFirst, List.dropWhile_eq_nil_iff.mpr (sep_of_firstRun_eq_nil h), List.dropWhile_nil]

end First

end Machinery
