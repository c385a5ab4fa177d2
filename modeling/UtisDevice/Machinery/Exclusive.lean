import Mathlib.Data.Finset.Card
import Mathlib.Data.List.Nodup

/-!
# Machinery/Exclusive — registries with at most one member of each class

A registry is a list; `Exclusive cls l` says no two members share a class.  Such a list is no longer
than there are classes (`Exclusive.length_le`), grows by a member exactly when the member's class is
free (`exclusive_concat`), and survives deletions (`Exclusive.sublist`).

`eraseSkip` is what a deletion loop that counts up while it deletes computes: it steps over the
element that slides into a deleted position.  Where at most one member matches it is the filter it
was meant to be (`eraseSkip_eq_filter`).
-/

namespace Machinery

variable {α κ : Type*}

/-! ## One member per class -/

/-- No two members share a class. -/
def Exclusive (cls : α → κ) (l : List α) : Prop := (l.map cls).Nodup

namespace Exclusive

variable {cls : α → κ} {l l' : List α}

theorem nil : Exclusive cls [] := List.nodup_nil

theorem sublist (h : Exclusive cls l) (hl : l'.Sublist l) : Exclusive cls l' :=
  List.Nodup.sublist (hl.map cls) h

theorem pairwise (h : Exclusive cls l) : l.Pairwise fun a b => cls a ≠ cls b :=
  List.pairwise_map.mp h

/-- Members at different positions are of different classes. -/
theorem ne_of_ne (h : Exclusive cls l) {i j : ℕ} (hi : i < l.length) (hj : j < l.length)
    (hij : i ≠ j) : cls l[i] ≠ cls l[j] := by
  rcases Nat.lt_or_gt_of_ne hij with hlt | hlt
  · exact List.pairwise_iff_getElem.mp h.pairwise i j hi hj hlt
  · exact (List.pairwise_iff_getElem.mp h.pairwise j i hj hi hlt).symm

/-- A member is determined by its class. -/
theorem eq_of_cls (h : Exclusive cls l) {a b : α} (ha : a ∈ l) (hb : b ∈ l)
    (hab : cls a = cls b) : a = b :=
  List.inj_on_of_nodup_map h ha hb hab

/-- **A registry is no longer than its supply of classes.** -/
theorem length_le [DecidableEq κ] (h : Exclusive cls l) (S : Finset κ) (hS : ∀ a ∈ l, cls a ∈ S) :
    l.length ≤ S.card := by
  rw [← List.length_map cls, ← List.toFinset_card_of_nodup h]
  refine Finset.card_le_card fun k hk => ?_
  obtain ⟨a, ha, rfl⟩ := List.mem_map.mp (List.mem_toFinset.mp hk)
  exact hS a ha

/-- Of members that would share a class there is one. -/
theorem countP_le_one [DecidableEq κ] (h : Exclusive cls l) {p : α → Bool}
    (hp : ∀ a ∈ l, ∀ b ∈ l, p a = true → p b = true → cls a = cls b) : l.countP p ≤ 1 := by
  rw [List.countP_eq_length_filter]
  by_cases hnil : l.filter p = []
  · rw [hnil]
    exact Nat.zero_le 1
  · obtain ⟨a, ha⟩ := List.exists_mem_of_ne_nil _ hnil
    refine ((h.sublist List.filter_sublist).length_le {cls a} fun b hb => ?_).trans_eq
      (Finset.card_singleton _)
    rw [List.mem_filter] at ha hb
    exact Finset.mem_singleton.mpr (hp b hb.1 a ha.1 hb.2 ha.2)

end Exclusive

/-- **A registry admits a member exactly when its class is free.** -/
theorem exclusive_concat {cls : α → κ} {l : List α} {a : α} :
    Exclusive cls (l ++ [a]) ↔ Exclusive cls l ∧ ∀ b ∈ l, cls b ≠ cls a := by
  simp only [Exclusive, List.map_append, List.map_cons, List.map_nil, List.nodup_append,
    List.nodup_singleton, List.mem_map, List.mem_singleton, true_and, forall_exists_index, and_imp,
    forall_apply_eq_imp_iff₂, forall_eq]

/-! ## Deleting while counting up -/

/-- What `for (i = 0; i < size; i++) if (p(at(i))) removeAt(i);` leaves, and what it takes out: the
element after a deleted one is stepped over unseen. -/
def eraseSkip (p : α → Bool) : List α → List α × List α
  | [] => ([], [])
  | a :: l =>
    if p a then
      match l with
      | [] => ([], [a])
      | b :: l => (b :: (eraseSkip p l).1, a :: (eraseSkip p l).2)
    else (a :: (eraseSkip p l).1, (eraseSkip p l).2)

section EraseSkip

variable {p : α → Bool}

theorem eraseSkip_cons_of_neg {a : α} (h : p a = false) (l : List α) :
    eraseSkip p (a :: l) = (a :: (eraseSkip p l).1, (eraseSkip p l).2) := by
  rw [eraseSkip.eq_def]; simp [h]

theorem eraseSkip_singleton_of_pos {a : α} (h : p a = true) :
    eraseSkip p [a] = ([], [a]) := by
  rw [eraseSkip.eq_def]; simp [h]

theorem eraseSkip_cons_cons_of_pos {a : α} (h : p a = true) (b : α) (l : List α) :
    eraseSkip p (a :: b :: l) = (b :: (eraseSkip p l).1, a :: (eraseSkip p l).2) := by
  rw [eraseSkip.eq_def]; simp [h]

/-- Deletion only deletes. -/
theorem eraseSkip_sublist (l : List α) : (eraseSkip p l).1.Sublist l := by
  induction l using eraseSkip.induct (p := p) with
  | case1 => exact .slnil
  | case2 a ha => simp [eraseSkip_singleton_of_pos ha]
  | case3 a ha b l ih =>
    rw [eraseSkip_cons_cons_of_pos ha]
    exact (ih.cons_cons b).cons a
  | case4 a l ha ih =>
    rw [eraseSkip_cons_of_neg (by simpa using ha)]
    exact ih.cons_cons a

/-- Where nothing matches, nothing is deleted. -/
theorem eraseSkip_of_forall_neg : ∀ {l : List α}, (∀ a ∈ l, p a = false) → eraseSkip p l = (l, [])
  | [], _ => by rw [eraseSkip.eq_def]
  | a :: l, h => by
    rw [eraseSkip_cons_of_neg (h a List.mem_cons_self),
      eraseSkip_of_forall_neg fun b hb => h b (List.mem_cons_of_mem _ hb)]

/-- **Where at most one member matches, the loop is a filter**: the element it steps over would not
have matched. -/
theorem eraseSkip_eq_filter : ∀ {l : List α}, l.Pairwise (fun a b => p a = true → p b = false) →
    eraseSkip p l = (l.filter fun a => !p a, l.filter p)
  | [], _ => by rw [eraseSkip.eq_def]; rfl
  | a :: l, h => by
    obtain ⟨ha, hl⟩ := List.pairwise_cons.mp h
    cases hp : p a with
    | false => simp [eraseSkip_cons_of_neg hp, hp, eraseSkip_eq_filter hl]
    | true =>
      have hnone : ∀ b ∈ l, p b = false := fun b hb => ha b hb hp
      have hkeep : (l.filter fun b => !p b) = l :=
        List.filter_eq_self.mpr fun b hb => by simp [hnone b hb]
      have hgone : l.filter p = [] := List.filter_eq_nil_iff.mpr fun b hb => by simp [hnone b hb]
      cases l with
      | nil => simp [eraseSkip_singleton_of_pos hp, hp]
      | cons b l =>
        have hrest : eraseSkip p l = (l, []) :=
          eraseSkip_of_forall_neg fun c hc => hnone c (List.mem_cons_of_mem _ hc)
        simp [eraseSkip_cons_cons_of_pos hp, hp, hrest, hkeep, hgone]

end EraseSkip

end Machinery
