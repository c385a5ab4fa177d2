import Mathlib.Data.List.Basic

/-!
# Machinery/Indexed — counting loops over a list

`for (i = 0; i < n; i++) … at(i) …` with the bound `n` kept apart from the list: a loop that reads
(`readEach`) or updates (`updateEach`) the elements at its indices, and fails at the first index out
of range.  Within the list the loops are `map` on the first `n` elements; a loop that ends was
within the list (`le_of_updateEach`, `le_of_readEach`).
-/

namespace Machinery

variable {α β : Type*}

/-- Update the elements at the first `n` indices, one by one. -/
def updateEach (f : α → α) (n : ℕ) (l : List α) : Option (List α) :=
  (List.range n).foldlM (fun l i => l[i]?.map fun a => l.set i (f a)) l

/-- Read the elements at the first `n` indices, one by one. -/
def readEach (f : α → β) (n : ℕ) (l : List α) : Option (List β) :=
  (List.range n).foldlM (fun bs i => l[i]?.map fun a => bs ++ [f a]) []

theorem updateEach_succ (f : α → α) (n : ℕ) (l : List α) : updateEach f (n + 1) l =
    (updateEach f n l).bind fun l => l[n]?.map fun a => l.set n (f a) := by
  rw [updateEach, List.range_succ, List.foldlM_append]
  simp only [List.foldlM_cons, List.foldlM_nil]
  exact Option.bind_congr fun l _ => bind_pure _

theorem readEach_succ (f : α → β) (n : ℕ) (l : List α) : readEach f (n + 1) l =
    (readEach f n l).bind fun bs => l[n]?.map fun a => bs ++ [f a] := by
  rw [readEach, List.range_succ, List.foldlM_append]
  simp only [List.foldlM_cons, List.foldlM_nil]
  exact Option.bind_congr fun bs _ => bind_pure _

/-- **A loop within the list updates its first `n` elements.** -/
theorem updateEach_eq (f : α → α) {n : ℕ} {l : List α} (h : n ≤ l.length) :
    updateEach f n l = some ((l.take n).map f ++ l.drop n) := by
  induction n with
  | zero => simp [updateEach]
  | succ n ih =>
    have hn : n < l.length := h
    have hlen : ((l.take n).map f).length = n := by
      rw [List.length_map, List.length_take]; omega
    have hat : ((l.take n).map f ++ l.drop n)[n]? = some l[n] := by
      rw [List.getElem?_append_right (by omega), hlen, Nat.sub_self, List.getElem?_drop,
        Nat.add_zero, List.getElem?_eq_getElem hn]
    rw [updateEach_succ, ih (by omega), Option.bind_some, hat, Option.map_some,
      List.set_append_right _ _ (by omega), hlen, Nat.sub_self, List.drop_eq_getElem_cons hn,
      List.set_cons_zero, List.take_succ_eq_append_getElem hn, List.map_append]
    simp

/-- **A loop within the list reads its first `n` elements.** -/
theorem readEach_eq (f : α → β) {n : ℕ} {l : List α} (h : n ≤ l.length) :
    readEach f n l = some ((l.take n).map f) := by
  induction n with
  | zero => simp [readEach]
  | succ n ih =>
    have hn : n < l.length := h
    rw [readEach_succ, ih (by omega), List.take_succ_eq_append_getElem hn,
      List.getElem?_eq_getElem hn, List.map_append]
    rfl

/-- **An updating loop that ends was within the list**, and leaves its length. -/
theorem le_of_updateEach {f : α → α} {n : ℕ} {l l' : List α} (h : updateEach f n l = some l') :
    n ≤ l.length ∧ l'.length = l.length := by
  induction n generalizing l' with
  | zero =>
    obtain rfl : l = l' := Option.some.inj h
    exact ⟨Nat.zero_le _, rfl⟩
  | succ n ih =>
    rw [updateEach_succ] at h
    obtain ⟨m, hm, hset⟩ := Option.bind_eq_some_iff.mp h
    obtain ⟨a, hat, rfl⟩ := Option.map_eq_some_iff.mp hset
    have hlen : m.length = l.length := (ih hm).2
    obtain ⟨hn, -⟩ := List.getElem?_eq_some_iff.mp hat
    rw [List.length_set]
    exact ⟨hlen ▸ hn, hlen⟩

/-- **A reading loop that ends was within the list.** -/
theorem le_of_readEach {f : α → β} {n : ℕ} {l : List α} {bs : List β}
    (h : readEach f n l = some bs) : n ≤ l.length := by
  cases n with
  | zero => exact Nat.zero_le _
  | succ n =>
    rw [readEach_succ] at h
    obtain ⟨bs, -, hread⟩ := Option.bind_eq_some_iff.mp h
    obtain ⟨a, hat, -⟩ := Option.map_eq_some_iff.mp hread
    exact (List.getElem?_eq_some_iff.mp hat).1

end Machinery
