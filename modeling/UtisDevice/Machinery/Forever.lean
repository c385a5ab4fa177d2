import Mathlib.Data.Stream.Init
import UtisDevice.Machinery.Flow

/-!
# Machinery/Forever — runs that never end

    s ──▸ · ──▸ · ──▸ · ──▸ ⋯          past n = the first n steps

What a run does in the end is said of runs that go on forever, and needs that no part of the machine
is passed over: a run is fair to an input that it takes again whenever the input stays enabled.  A
queue that such an input serves keeps nothing (`Serves`): whatever is put in it is taken out in the
end (`Serves.taken`), so what is put in no more is in it no more (`Serves.drained`).

A run that comes back to where it was can go round forever, and is then fair to all it does on the
way (`exists_lasso`).
-/

namespace Machinery

variable {σ ι ο α : Type*}

/-- **A run that never ends**, step by step. -/
structure Machine.Forever (M : Machine σ ι ο) (s : σ) where
  entry : ℕ → Entry σ ι ο
  start : (entry 0).pre = s
  step : ∀ n, M.step (entry n).pre (entry n).input = some ((entry n).post, (entry n).out)
  next : ∀ n, (entry n).post = (entry (n + 1)).pre

namespace Machine.Forever

variable {M : Machine σ ι ο} {s t : σ} {i : ι} {n m : ℕ}

section Past

variable (r : M.Forever s)

/-- The state after so many steps. -/
def state (n : ℕ) : σ := (r.entry n).pre

theorem step_of_input (hi : (r.entry n).input = i) :
    M.step (r.state n) i = some (r.state (n + 1), (r.entry n).out) := by
  rw [state, state, ← r.next, ← hi]
  exact r.step n

/-- The history so many steps leave behind. -/
def past (n : ℕ) : List (Entry σ ι ο) := (List.range n).map r.entry

theorem past_succ (n : ℕ) : r.past (n + 1) = r.past n ++ [r.entry n] := by
  rw [past, List.range_succ, List.map_append, List.map_singleton, past]

/-- **Up to any moment it is a run.** -/
theorem run : ∀ n, M.Run s (r.past n) (r.state n)
  | 0 => by
    rw [state, r.start]
    exact .nil
  | n + 1 => by
    rw [past_succ, state, ← r.next]
    exact .snoc (run n) (r.step n)

/-- What came later is behind what came before. -/
theorem past_of_le (hnm : n ≤ m) : ∃ later, r.past m = r.past n ++ later ∧
    ∀ e ∈ later, ∃ k, n ≤ k ∧ e = r.entry k := by
  induction m, hnm using Nat.le_induction with
  | base => exact ⟨[], (List.append_nil _).symm, by simp⟩
  | succ m hnm ih =>
    obtain ⟨later, hlater, hmem⟩ := ih
    refine ⟨later ++ [r.entry m], by rw [past_succ, hlater, List.append_assoc], fun e he => ?_⟩
    rcases List.mem_append.mp he with he | he
    · exact hmem e he
    · exact ⟨m, hnm, List.mem_singleton.mp he⟩

/-- **The first good step**: what every step keeps but a good one still holds where one is taken. -/
theorem exists_good {P : σ → Prop} {G : Entry σ ι ο → Prop} (hn : P (r.state n))
    (hkeep : ∀ k, n ≤ k → P (r.state k) → ¬ G (r.entry k) → P (r.state (k + 1))) (hnm : n ≤ m)
    (hm : G (r.entry m)) : ∃ k, n ≤ k ∧ P (r.state k) ∧ G (r.entry k) := by
  by_contra hnone
  have hall : ∀ k, n ≤ k → P (r.state k) := fun k hnk => by
    induction k, hnk using Nat.le_induction with
    | base => exact hn
    | succ k hnk ih => exact hkeep k hnk ih fun hgood => hnone ⟨k, hnk, ih, hgood⟩
  exact hnone ⟨m, hnm, hall m hnm, hm⟩

/-- **Fairness**: an input that stays enabled is taken. -/
def Fair (i : ι) : Prop :=
  ∀ n, (∀ m, n ≤ m → M.step (r.state m) i ≠ none) → ∃ m, n ≤ m ∧ (r.entry m).input = i

variable {r}

/-- What is taken again and again is. -/
theorem Fair.of_often (hoften : ∀ n, ∃ m, n ≤ m ∧ (r.entry m).input = i) : r.Fair i :=
  fun n _ => hoften n

end Past

/-! ## Queues -/

/-- **An input serves a queue**: it is enabled while there is something in the queue, and takes some
of it; and all that is put in comes out again, in order. -/
structure Serves (r : M.Forever s) (i : ι) (queue : σ → List α) (put take : Entry σ ι ο → List α) :
    Prop where
  fair : r.Fair i
  flow : ∀ n, queue s ++ (r.past n).flatMap put = (r.past n).flatMap take ++ queue (r.state n)
  enabled : ∀ n, queue (r.state n) ≠ [] → M.step (r.state n) i ≠ none
  takes : ∀ n, (r.entry n).input = i → queue (r.state n) ≠ [] → take (r.entry n) ≠ []

namespace Serves

variable {r : M.Forever s} {queue : σ → List α} {put take : Entry σ ι ο → List α}

theorem flatMap_mono (r : M.Forever s) (f : Entry σ ι ο → List α) (hnm : n ≤ m) :
    (r.past n).flatMap f <+: (r.past m).flatMap f := by
  obtain ⟨later, hlater, -⟩ := r.past_of_le hnm
  rw [hlater, List.flatMap_append]
  exact List.prefix_append _ _

/-- So much of what was put in is taken out, in the end. -/
theorem exists_length_le (hq : r.Serves i queue put take) (n : ℕ) :
    ∀ k, k ≤ (queue s ++ (r.past n).flatMap put).length →
      ∃ m, n ≤ m ∧ k ≤ ((r.past m).flatMap take).length
  | 0, _ => ⟨n, le_refl n, Nat.zero_le _⟩
  | k + 1, hk => by
    obtain ⟨m, hnm, hm⟩ := hq.exists_length_le n k (Nat.le_of_succ_le hk)
    by_cases hempty : ∃ l, m ≤ l ∧ queue (r.state l) = []
    · -- all that was put in by then is out
      obtain ⟨l, hml, hl⟩ := hempty
      have hflow := hq.flow l
      rw [hl, List.append_nil] at hflow
      have hput := (flatMap_mono r put (Nat.le_trans hnm hml)).length_le
      rw [List.length_append] at hk
      refine ⟨l, Nat.le_trans hnm hml, ?_⟩
      rw [← hflow, List.length_append]
      omega
    · have hne : ∀ l, m ≤ l → queue (r.state l) ≠ [] := fun l hml hl => hempty ⟨l, hml, hl⟩
      obtain ⟨l, hml, hi⟩ := hq.fair m fun l hml => hq.enabled l (hne l hml)
      have htakes := List.length_pos_iff.mpr (hq.takes l hi (hne l hml))
      have hle := (flatMap_mono r take hml).length_le
      refine ⟨l + 1, Nat.le_succ_of_le (Nat.le_trans hnm hml), ?_⟩
      rw [past_succ, List.flatMap_append, List.flatMap_singleton, List.length_append]
      omega

/-- **What is put in is taken out**, in the end. -/
theorem taken (hq : r.Serves i queue put take) (n : ℕ) :
    ∃ m, n ≤ m ∧ queue s ++ (r.past n).flatMap put <+: (r.past m).flatMap take := by
  obtain ⟨m, hnm, hlen⟩ := hq.exists_length_le n _ (le_refl _)
  have hput := (List.prefix_append_right_inj (queue s)).mpr (flatMap_mono r put hnm)
  exact ⟨m, hnm, List.prefix_of_prefix_length_le hput (Run.prefix_of_flow (hq.flow m)) hlen⟩

/-- **What a step puts in, a later one takes out.** -/
theorem exists_take [DecidableEq α] (hq : r.Serves i queue put take) {a : α}
    (ha : a ∈ put (r.entry n)) : ∃ m, n ≤ m ∧ a ∈ take (r.entry m) := by
  obtain ⟨m, hnm, hm⟩ := hq.taken (n + 1)
  obtain ⟨later, hlater, hmem⟩ := r.past_of_le (Nat.le_of_succ_le hnm)
  by_contra hnone
  have hlate : (later.flatMap take).count a = 0 := List.count_eq_zero.mpr fun htaken => by
    obtain ⟨e, he, ha'⟩ := List.mem_flatMap.mp htaken
    obtain ⟨k, hnk, rfl⟩ := hmem e he
    exact hnone ⟨k, hnk, ha'⟩
  -- more of it was put in than is ever taken out
  have hin := hm.sublist.count_le a
  rw [past_succ, List.flatMap_append, List.flatMap_singleton, hlater, List.flatMap_append,
    List.count_append, List.count_append, List.count_append, hlate] at hin
  have hout := (Run.prefix_of_flow (hq.flow n)).sublist.count_le a
  rw [List.count_append] at hout
  have hpos := List.count_pos_iff.mpr ha
  omega

/-- What a step takes out was in the queue, or was put in by it. -/
theorem mem_of_take (hq : r.Serves i queue put take) {a : α} (ha : a ∈ take (r.entry n)) :
    a ∈ queue (r.state n) ∨ a ∈ put (r.entry n) := by
  have hflow := hq.flow (n + 1)
  rw [past_succ, List.flatMap_append, List.flatMap_append, List.flatMap_singleton,
    List.flatMap_singleton, ← List.append_assoc, hq.flow n, List.append_assoc, List.append_assoc]
    at hflow
  have hmem := List.mem_append_left (queue (r.state (n + 1))) ha
  rw [← List.append_cancel_left hflow] at hmem
  exact List.mem_append.mp hmem

/-- **What is put in no more is in the queue no more**, in the end. -/
theorem drained (hq : r.Serves i queue put take) {P : α → Prop}
    (hput : ∀ m, n ≤ m → ∀ a ∈ put (r.entry m), P a) :
    ∃ m, n ≤ m ∧ ∀ k, m ≤ k → ∀ a ∈ queue (r.state k), P a := by
  obtain ⟨m, hnm, hm⟩ := hq.taken n
  refine ⟨m, hnm, fun k hmk a ha => ?_⟩
  obtain ⟨later, hlater, hmem⟩ := r.past_of_le (Nat.le_trans hnm hmk)
  obtain ⟨rest, hrest⟩ := hm.trans (flatMap_mono r take hmk)
  have hflow := hq.flow k
  rw [hlater, List.flatMap_append, ← hlater, ← hrest, ← List.append_assoc, List.append_assoc _ rest]
    at hflow
  have hin : a ∈ later.flatMap put := by
    rw [List.append_cancel_left hflow]
    exact List.mem_append_right _ ha
  obtain ⟨e, he, ha⟩ := List.mem_flatMap.mp hin
  obtain ⟨l, hnl, rfl⟩ := hmem e he
  exact hput l hnl a ha

end Serves

/-! ## Going round -/

section Lasso

open Stream'

variable {u : σ} {h h' l : List (Entry σ ι ο)}

/-- Before a circle there is always one more step. -/
theorem exists_cons_lasso (hne : h' ≠ []) (hr' : M.Run t h' t) (hl : M.Run u l t) :
    ∃ e l', M.Run u (e :: l') t ∧ l ++ₛ cycle h' hne = (e :: l') ++ₛ cycle h' hne := by
  cases l with
  | nil =>
    obtain rfl := hl.nil_inv
    obtain ⟨e, l', rfl⟩ := List.exists_cons_of_ne_nil hne
    exact ⟨e, l', hr', cycle_eq _ hne⟩
  | cons e l' => exact ⟨e, l', hl, rfl⟩

theorem lasso_start (hne : h' ≠ []) (hr' : M.Run t h' t) (hl : M.Run u l t) :
    ((l ++ₛ cycle h' hne).get 0).pre = u := by
  obtain ⟨e, l', hl, heq⟩ := exists_cons_lasso hne hr' hl
  rw [heq]
  exact (Run.step_at (h := []) hl).1.nil_inv.symm

theorem lasso_step (hne : h' ≠ []) (hr' : M.Run t h' t) : ∀ (n : ℕ) {u : σ}
    {l : List (Entry σ ι ο)}, M.Run u l t →
      M.step ((l ++ₛ cycle h' hne).get n).pre ((l ++ₛ cycle h' hne).get n).input
        = some (((l ++ₛ cycle h' hne).get n).post, ((l ++ₛ cycle h' hne).get n).out) ∧
      ((l ++ₛ cycle h' hne).get n).post = ((l ++ₛ cycle h' hne).get (n + 1)).pre
  | 0, u, l, hl => by
    obtain ⟨e, l', hl, heq⟩ := exists_cons_lasso hne hr' hl
    obtain ⟨-, hs, hrest⟩ := Run.step_at (h := []) hl
    rw [heq]
    exact ⟨hs, (lasso_start hne hr' hrest).symm⟩
  | n + 1, u, l, hl => by
    obtain ⟨e, l', hl, heq⟩ := exists_cons_lasso hne hr' hl
    rw [heq]
    exact lasso_step hne hr' n (Run.step_at (h := []) hl).2.2

theorem mem_of_cycle (hne : h' ≠ []) (n : ℕ) : (cycle h' hne).get n ∈ h' := by
  induction n using Nat.strong_induction_on with
  | _ n ih =>
    rw [cycle_eq]
    by_cases hn : n < h'.length
    · rw [get_append_left _ _ _ hn]
      exact List.getElem_mem hn
    · obtain ⟨k, rfl⟩ := Nat.exists_eq_add_of_le (Nat.le_of_not_lt hn)
      rw [get_append_right]
      have hpos := List.length_pos_iff.mpr hne
      exact ih k (by omega)

theorem cycle_often (hne : h' ≠ []) {e : Entry σ ι ο} (he : e ∈ h') :
    ∀ n, ∃ m, n ≤ m ∧ (cycle h' hne).get m = e
  | 0 => by
    obtain ⟨m, hm, rfl⟩ := List.getElem_of_mem he
    exact ⟨m, Nat.zero_le m, by rw [cycle_eq, get_append_left _ _ _ hm]⟩
  | n + 1 => by
    obtain ⟨m, hnm, hm⟩ := cycle_often hne he n
    have hpos := List.length_pos_iff.mpr hne
    exact ⟨h'.length + m, by omega, by rw [cycle_eq, get_append_right, hm]⟩

/-- **A run that comes back can go round forever**, taking every step of the circle again and
again. -/
theorem exists_lasso (hr : M.Run s h t) (hr' : M.Run t h' t) (hne : h' ≠ []) :
    ∃ r : M.Forever s, r.past h.length = h ∧ (∀ n, h.length ≤ n → r.entry n ∈ h') ∧
      ∀ e ∈ h', ∀ n, ∃ m, n ≤ m ∧ r.entry m = e := by
  refine ⟨⟨(h ++ₛ cycle h' hne).get, lasso_start hne hr' hr,
    fun n => (lasso_step hne hr' n hr).1, fun n => (lasso_step hne hr' n hr).2⟩,
    ?_, fun n hn => ?_, fun e he n => ?_⟩
  · refine List.ext_getElem (by simp [past]) fun n _ hn => ?_
    simp [past, get_append_left _ _ _ hn]
  · obtain ⟨k, rfl⟩ := Nat.exists_eq_add_of_le hn
    change (h ++ₛ cycle h' hne).get (h.length + k) ∈ h'
    rw [get_append_right]
    exact mem_of_cycle hne k
  · obtain ⟨m, hnm, hm⟩ := cycle_often hne he n
    exact ⟨h.length + m, by omega, (get_append_right _ _ _).trans hm⟩

/-- **Execution finds such runs**: a list of inputs, and one that leads back where it started. -/
theorem exists_forever [DecidableEq σ] (is js : List ι) (hne : js ≠ [])
    {P : List (Entry σ ι ο) → List (Entry σ ι ο) → Prop} [∀ h h', Decidable (P h h')]
    (hP : (M.exec s is).any (fun p => (M.exec p.2 js).any fun c =>
      decide (c.2 = p.2 ∧ P p.1 c.1)) = true) :
    ∃ (r : M.Forever s) (h h' : List (Entry σ ι ο)), r.past h.length = h ∧ P h h' ∧
      (∀ n, h.length ≤ n → r.entry n ∈ h') ∧
      ∀ i ∈ js, ∀ n, ∃ m, n ≤ m ∧ (r.entry m).input = i := by
  cases hexec : M.exec s is with
  | none => simp [hexec] at hP
  | some p =>
    obtain ⟨h, t⟩ := p
    rw [hexec, Option.any_some] at hP
    cases hexec' : M.exec t js with
    | none => simp [hexec'] at hP
    | some c =>
      obtain ⟨h', t'⟩ := c
      rw [hexec', Option.any_some, decide_eq_true_eq] at hP
      obtain ⟨rfl, hP⟩ := hP
      have hinputs := map_input_of_exec hexec'
      have hne' : h' ≠ [] := fun hnil => hne (by rw [← hinputs, hnil]; rfl)
      obtain ⟨r, hpast, hmem, hoften⟩ :=
        exists_lasso (Run.of_exec hexec) (Run.of_exec hexec') hne'
      refine ⟨r, h, h', hpast, hP, hmem, fun i hi n => ?_⟩
      rw [← hinputs] at hi
      obtain ⟨e, he, rfl⟩ := List.mem_map.mp hi
      obtain ⟨m, hnm, rfl⟩ := hoften e he n
      exact ⟨m, hnm, rfl⟩

end Lasso

end Machine.Forever

end Machinery
