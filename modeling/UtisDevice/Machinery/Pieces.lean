import Mathlib.Data.List.Basic

/-!
# Machinery/Pieces — what a buffer still holds

A buffer *holds* pieces when each is a contiguous part of it, they come in order and do not overlap
(`Holds`).  A buffer that is overwritten by the concatenation of each new batch holds its last batch
(`holds_flatten`), and of the batches before exactly the empty pieces (`holds_getLast_iff`): held
pieces take up their length (`Holds.length_le`), and the last batch has filled the buffer.
-/

namespace Machinery

variable {α : Type*}

/-- The pieces are contiguous parts of the buffer, in order and apart. -/
def Holds : List α → List (List α) → Prop
  | _, [] => True
  | buf, d :: ds => ∃ before after, buf = before ++ d ++ after ∧ Holds after ds

theorem holds_flatten : ∀ ds : List (List α), Holds ds.flatten ds
  | [] => trivial
  | d :: ds => ⟨[], ds.flatten, by simp, holds_flatten ds⟩

/-- Held pieces take up their length. -/
theorem Holds.length_le : ∀ {ds : List (List α)} {buf : List α}, Holds buf ds →
    ds.flatten.length ≤ buf.length
  | [], _, _ => Nat.zero_le _
  | d :: ds, _, ⟨before, after, hbuf, hds⟩ => by
    have hrest : ds.flatten.length ≤ after.length := hds.length_le
    rw [hbuf, List.flatten_cons]
    simp only [List.length_append]
    omega

/-- Empty pieces are held anywhere. -/
theorem Holds.append_empty {buf : List α} {ds es : List (List α)} (hes : Holds buf es)
    (hds : ∀ d ∈ ds, d = []) : Holds buf (ds ++ es) := by
  induction ds with
  | nil => exact hes
  | cons d ds ih =>
    obtain rfl : d = [] := hds d List.mem_cons_self
    exact ⟨[], buf, rfl, ih fun e he => hds e (List.mem_cons_of_mem _ he)⟩

/-- **A buffer overwritten batch by batch holds them all exactly when the batches before the last
are empty.** -/
theorem holds_getLast_iff {bs : List (List (List α))} {b : List (List α)}
    (hb : b ∈ bs.getLast?) :
    Holds b.flatten bs.flatten ↔ ∀ c ∈ bs.dropLast, ∀ d ∈ c, d = [] := by
  have hsplit : bs.flatten = bs.dropLast.flatten ++ b := by
    conv_lhs => rw [← List.dropLast_append_getLast? b hb]
    simp
  rw [hsplit]
  constructor
  · intro hholds c hc d hd
    have hlen : (bs.dropLast.flatten ++ b).flatten.length ≤ b.flatten.length := hholds.length_le
    rw [List.flatten_append, List.length_append] at hlen
    have hempty : bs.dropLast.flatten.flatten = [] := List.length_eq_zero_iff.mp (by omega)
    exact List.flatten_eq_nil_iff.mp hempty d (List.mem_flatten.mpr ⟨c, hc, hd⟩)
  · intro hempty
    refine (holds_flatten b).append_empty fun d hd => ?_
    obtain ⟨c, hc, hdc⟩ := List.mem_flatten.mp hd
    exact hempty c hc d hdc

end Machinery
