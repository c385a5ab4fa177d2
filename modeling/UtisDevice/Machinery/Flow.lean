import UtisDevice.Machinery.Machine

/-!
# Machinery/Flow — what goes into a queue comes out of it, in order

    ──put──▸ [ queue ] ──take──▸

A queue of a machine is read off its state; the history says what each step put at the back and
what it took from the front.  If every step keeps the balance, so does every run (`Run.flow`): what
was there and what was put is what was taken and what is there.  What was taken is then a prefix of
what there was to take (`Run.prefix_of_flow`), and all of it once the queue is empty.
-/

namespace Machinery.Machine.Run

variable {σ ι ο α : Type*} {M : Machine σ ι ο} {s t : σ} {h : List (Entry σ ι ο)}

/-- **The queue rule.** -/
theorem flow (queue : σ → List α) (put take : Entry σ ι ο → List α)
    (hstep : ∀ {t i u out}, M.Reaches s t → M.step t i = some (u, out) →
      queue t ++ put ⟨t, i, out, u⟩ = take ⟨t, i, out, u⟩ ++ queue u)
    (hr : M.Run s h t) : queue s ++ h.flatMap put = h.flatMap take ++ queue t := by
  induction hr with
  | nil => simp
  | @snoc h t u i out hr hs ih =>
    have hone := hstep hr.reaches hs
    simp only [List.flatMap_append, List.flatMap_singleton]
    rw [← List.append_assoc, ih, List.append_assoc, hone, List.append_assoc]

/-- **What is taken out was put in**, in the same order. -/
theorem prefix_of_flow {queue : σ → List α} {put take : Entry σ ι ο → List α}
    (hflow : queue s ++ h.flatMap put = h.flatMap take ++ queue t) :
    h.flatMap take <+: queue s ++ h.flatMap put := ⟨queue t, hflow.symm⟩

end Machinery.Machine.Run
