import Mathlib.Data.List.Perm.Basic
import UtisDevice.Machinery.Machine

/-!
# Machinery/Diamond — schedules that end the same

         s ──i──▸ u
         │        │
         j        j        out of s, i and j in either order
         ▾        ▾
         v ──i──▸ w

Where any two of some inputs commute (`Diamond`), the order in which they are taken does not matter:
a run of them can always be completed, to the same state, the same outputs and the same inputs up to
order (`Diamond.complete`).  So two runs that cannot go on have ended the same (`Diamond.unique`).
-/

namespace Machinery

variable {σ ι ο : Type*}

namespace Machine

/-- All inputs of a history are among `I`. -/
def Within (I : ι → Prop) (h : List (Entry σ ι ο)) : Prop := ∀ e ∈ h, I e.input

/-- None of the inputs `I` is enabled. -/
def Quiet (M : Machine σ ι ο) (I : ι → Prop) (s : σ) : Prop := ∀ i, I i → M.step s i = none

/-- **The diamond**, over the states `R` the inputs `I` stay in: two different ones enabled commute,
and one of them is silent. -/
structure Diamond (M : Machine σ ι ο) (I : ι → Prop) (R : σ → Prop) : Prop where
  closed : ∀ {s i t out}, R s → I i → M.step s i = some (t, out) → R t
  commute : ∀ {s i j u v o p}, R s → I i → I j → i ≠ j →
    M.step s i = some (u, o) → M.step s j = some (v, p) →
    (o = [] ∨ p = []) ∧ ∃ w, M.step u j = some (w, p) ∧ M.step v i = some (w, o)

section Diamond

variable {M : Machine σ ι ο} {I : ι → Prop} {R : σ → Prop} {s t t' u : σ}
  {h h' : List (Entry σ ι ο)}

theorem Run.eq_of_quiet (hq : M.Quiet I s) (hI : Within I h) (hr : M.Run s h t) :
    h = [] ∧ s = t := by
  cases h with
  | nil => exact ⟨rfl, hr.nil_inv⟩
  | cons e h =>
    have hnone := hq e.input (hI e List.mem_cons_self)
    rw [hr.cons_inv.1] at hnone
    exact absurd hnone (by simp)

/-- **Any first step is on the way** to a state where nothing is left to do. -/
theorem Diamond.first (hd : M.Diamond I R) : ∀ {h : List (Entry σ ι ο)} {s u : σ} {i : ι}
    {out : List ο}, R s → Within I h → M.Run s h t → M.Quiet I t → I i →
    M.step s i = some (u, out) →
    ∃ h', Within I h' ∧ M.Run u h' t ∧ emitted h = out ++ emitted h' ∧
      (h.map (·.input)).Perm (i :: h'.map (·.input)) := by
  intro h
  induction h with
  | nil =>
    intro s u i out _ _ hr hq hi hs
    obtain rfl := hr.nil_inv
    rw [hq i hi] at hs
    exact absurd hs (by simp)
  | cons e h ih =>
    intro s u i out hR hI hr hq hi hs
    obtain ⟨hj, hI'⟩ := List.forall_mem_cons.mp hI
    obtain ⟨hstep, hrest⟩ := hr.cons_inv
    have hemit : emitted (e :: h) = e.out ++ emitted h := List.flatMap_cons
    by_cases hij : i = e.input
    · subst hij
      obtain ⟨rfl, rfl⟩ : e.post = u ∧ e.out = out := by simpa [hstep] using hs
      exact ⟨h, hI', hrest, hemit, .refl _⟩
    · -- close the diamond, and go round the rest of the run
      obtain ⟨hsilent, w, hu, hv⟩ := hd.commute hR hi hj hij hs hstep
      obtain ⟨h', hh', hr', hout, hperm⟩ := ih (hd.closed hR hj hstep) hI' hrest hq hi hv
      refine ⟨⟨u, e.input, e.out, w⟩ :: h', List.forall_mem_cons.mpr ⟨hj, hh'⟩,
        (Run.single hu).append hr', ?_, ?_⟩
      · rw [hemit, hout, show emitted (⟨u, e.input, e.out, w⟩ :: h') = e.out ++ emitted h' from
          List.flatMap_cons]
        rcases hsilent with rfl | hnil
        · simp
        · simp [hnil]
      · exact (hperm.cons e.input).trans (.swap i e.input _)

/-- **Whatever has been done can be completed**, to the end any other schedule comes to. -/
theorem Diamond.complete (hd : M.Diamond I R) : ∀ {h₁ h : List (Entry σ ι ο)} {s u : σ}, R s →
    Within I h → M.Run s h t → M.Quiet I t → Within I h₁ → M.Run s h₁ u →
    ∃ h₂, Within I h₂ ∧ M.Run u h₂ t ∧ emitted h = emitted (h₁ ++ h₂) ∧
      (h.map (·.input)).Perm ((h₁ ++ h₂).map (·.input)) := by
  intro h₁
  induction h₁ with
  | nil =>
    intro h s u _ hI hr _ _ hr₁
    obtain rfl := hr₁.nil_inv
    exact ⟨h, hI, hr, rfl, .refl _⟩
  | cons e h₁ ih =>
    intro h s u hR hI hr hq hI₁ hr₁
    obtain ⟨he, hI₁'⟩ := List.forall_mem_cons.mp hI₁
    obtain ⟨hs, hrest⟩ := hr₁.cons_inv
    obtain ⟨h', hI', hr', hout, hperm⟩ := hd.first hR hI hr hq he hs
    obtain ⟨h₂, hI₂, hr₂, hout₂, hperm₂⟩ := ih (hd.closed hR he hs) hI' hr' hq hI₁' hrest
    refine ⟨h₂, hI₂, hr₂, ?_, hperm.trans (hperm₂.cons e.input)⟩
    rw [hout, hout₂]
    exact List.flatMap_cons.symm

/-- **Two schedules that are done have ended the same.** -/
theorem Diamond.unique (hd : M.Diamond I R) (hR : R s) (hI : Within I h) (hr : M.Run s h t)
    (hq : M.Quiet I t) (hI' : Within I h') (hr' : M.Run s h' t') (hq' : M.Quiet I t') :
    t' = t ∧ emitted h' = emitted h ∧ (h'.map (·.input)).Perm (h.map (·.input)) := by
  obtain ⟨h₂, hI₂, hr₂, hout, hperm⟩ := hd.complete hR hI hr hq hI' hr'
  obtain ⟨rfl, rfl⟩ := Run.eq_of_quiet hq' hI₂ hr₂
  rw [List.append_nil] at hout hperm
  exact ⟨rfl, hout.symm, hperm.symm⟩

end Diamond

/-- **Inputs that use something up come to an end.** -/
theorem exists_quiet {M : Machine σ ι ο} {I : ι → Prop} {R : σ → Prop} (μ : σ → ℕ)
    (hclosed : ∀ {s i t out}, R s → I i → M.step s i = some (t, out) → R t ∧ μ t < μ s) :
    ∀ {s : σ}, R s → ∃ h t, Within I h ∧ M.Run s h t ∧ M.Quiet I t := by
  intro s
  induction hn : μ s using Nat.strongRecOn generalizing s with
  | _ n ih =>
    intro hR
    by_cases hq : M.Quiet I s
    · exact ⟨[], s, fun e he => absurd he List.not_mem_nil, .nil, hq⟩
    · obtain ⟨i, hi, hsome⟩ : ∃ i, I i ∧ M.step s i ≠ none := by
        simpa [Quiet] using hq
      obtain ⟨⟨u, out⟩, hs⟩ := Option.ne_none_iff_exists'.mp hsome
      obtain ⟨hu, hlt⟩ := hclosed hR hi hs
      obtain ⟨h, t, hI, hr, hqt⟩ := ih (μ u) (hn ▸ hlt) rfl hu
      exact ⟨⟨s, i, out, u⟩ :: h, t, List.forall_mem_cons.mpr ⟨hi, hI⟩,
        (Run.single hs).append hr, hqt⟩

end Machine

end Machinery
