import UtisDevice.Machinery.Machine

/-!
# Machinery/Unwinding — inputs that make no difference

A `view` of the state leaves something out.  It *unwinds* if a hidden input neither changes it nor
puts anything out, and a visible input does to it, and puts out, what the view alone determines.
Then the hidden inputs of a run can be erased (`Unwinding.erase`), and two runs with the same
visible inputs have put out the same and end in the same view (`Unwinding.noninterference`).
-/

namespace Machinery.Machine

variable {σ ι ο τ : Type*} {M : Machine σ ι ο} {s s' t t' : σ} {h h' : List (Entry σ ι ο)}

/-- What each step must do for the hidden inputs to make no difference. -/
structure Unwinding (M : Machine σ ι ο) (view : σ → τ) (visible : ι → Bool) : Prop where
  hidden : ∀ {t i u out}, visible i = false → M.step t i = some (u, out) →
    view u = view t ∧ out = []
  visible : ∀ {t t' i u out}, visible i = true → view t = view t' → M.step t i = some (u, out) →
    ∃ u', M.step t' i = some (u', out) ∧ view u = view u'

/-- The visible inputs of a history, in order. -/
def visibles (visible : ι → Bool) (h : List (Entry σ ι ο)) : List ι :=
  (h.map (·.input)).filter visible

theorem visibles_concat (visible : ι → Bool) (h : List (Entry σ ι ο)) (e : Entry σ ι ο) :
    visibles visible (h ++ [e]) =
      visibles visible h ++ if visible e.input = true then [e.input] else [] := by
  rw [visibles, visibles, List.map_append, List.filter_append, List.map_singleton]
  cases hi : visible e.input <;> simp [hi]

namespace Unwinding

/-- A view that *is* a state — what is left out put back to nothing — unwinds if leaving out and
stepping commute. -/
theorem of_commute {view : σ → σ} {visible : ι → Bool}
    (hidden : ∀ {t i u out}, visible i = false → M.step t i = some (u, out) →
      view u = view t ∧ out = [])
    (hcomm : ∀ t i, visible i = true →
      M.step (view t) i = (M.step t i).map fun r => (view r.1, r.2)) :
    Unwinding M view visible where
  hidden := hidden
  visible := by
    intro t t' i u out hi hv hs
    have h := hcomm t i hi
    rw [hv, hcomm t' i hi, hs, Option.map_some] at h
    obtain ⟨⟨u', out'⟩, hs', heq⟩ := Option.map_eq_some_iff.mp h
    obtain ⟨hu, rfl⟩ := Prod.mk.inj heq
    exact ⟨u', hs', hu.symm⟩

variable {view : σ → τ} {visible : ι → Bool}

/-- **Hidden inputs can be erased**: from any state with the same view, the visible ones alone put
out the same and lead to the same view. -/
theorem erase (hu : Unwinding M view visible) (hr : M.Run s h t) (hv : view s = view s') :
    ∃ h' t', M.Run s' h' t' ∧ h'.map (·.input) = visibles visible h ∧
      emitted h' = emitted h ∧ view t = view t' := by
  induction hr with
  | nil => exact ⟨[], s', .nil, rfl, rfl, hv⟩
  | @snoc h t u i out hr hs ih =>
    obtain ⟨h', t', hr', hin, hout, hview⟩ := ih
    rw [visibles_concat, emitted_append, emitted_singleton, ← hin, ← hout]
    cases hi : visible i with
    | false =>
      obtain ⟨hkeep, rfl⟩ := hu.hidden hi hs
      exact ⟨h', t', hr', by simp, by simp, hkeep.trans hview⟩
    | true =>
      obtain ⟨u', hs', hview'⟩ := hu.visible hi hview hs
      exact ⟨_, u', .snoc hr' hs', by simp, by simp, hview'⟩

/-- **Hidden inputs make no difference** to what is put out or to the view. -/
theorem noninterference (hu : Unwinding M view visible) (hr : M.Run s h t) (hr' : M.Run s' h' t')
    (hv : view s = view s') (hin : visibles visible h = visibles visible h') :
    emitted h = emitted h' ∧ view t = view t' := by
  obtain ⟨k, u, hk, hkin, hkout, hku⟩ := hu.erase hr hv
  obtain ⟨k', u', hk', hkin', hkout', hku'⟩ := hu.erase hr' rfl
  obtain ⟨rfl, rfl⟩ := hk.eq_of_inputs hk' (hkin.trans (hin.trans hkin'.symm))
  exact ⟨hkout.symm.trans hkout', hku.trans hku'.symm⟩

end Unwinding

end Machinery.Machine
