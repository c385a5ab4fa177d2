import Mathlib.Data.List.Induction
import Mathlib.Data.Option.Basic

/-!
# Machinery/Machine — partial machines, their runs, and the histories runs leave behind

    s ──i₁/o₁──▸ s₁ ──i₂/o₂──▸ ⋯ ──iₙ/oₙ──▸ t        history = [⟨s,i₁,o₁,s₁⟩, …, ⟨_,iₙ,oₙ,t⟩]

A machine answers an input with the state after it and what it emitted, or refuses it.  A run keeps
every step it took, so a statement about *all moments of a run* is a statement about the splittings
of one list (`Run.step_at`), and a statement about all reachable states is an induction on that list
(`Run.invariant`).
-/

namespace Machinery

variable {σ ι ο σ' ι' ο' : Type*}

/-- What an input does to a state — the state after it and the outputs on the way — or `none`
where the input is not enabled. -/
structure Machine (σ ι ο : Type*) where
  step : σ → ι → Option (σ × List ο)

/-- One step of a run, as its history records it. -/
structure Entry (σ ι ο : Type*) where
  pre : σ
  input : ι
  out : List ο
  post : σ

/-- Everything a history emitted, in order. -/
def emitted (h : List (Entry σ ι ο)) : List ο := h.flatMap (·.out)

@[simp] theorem emitted_nil : emitted ([] : List (Entry σ ι ο)) = [] := rfl

@[simp] theorem emitted_append (h h' : List (Entry σ ι ο)) :
    emitted (h ++ h') = emitted h ++ emitted h' := List.flatMap_append

@[simp] theorem emitted_singleton (e : Entry σ ι ο) : emitted [e] = e.out := by simp [emitted]

namespace Machine

/-- **A run**: from `s` to a state, leaving a history of the steps taken. -/
inductive Run (M : Machine σ ι ο) (s : σ) : List (Entry σ ι ο) → σ → Prop
  | nil : Run M s [] s
  | snoc {h : List (Entry σ ι ο)} {t u : σ} {i : ι} {out : List ο} :
      Run M s h t → M.step t i = some (u, out) → Run M s (h ++ [⟨t, i, out, u⟩]) u

/-- Some run leads from `s` to `t`. -/
def Reaches (M : Machine σ ι ο) (s t : σ) : Prop := ∃ h, M.Run s h t

/-- Run a list of inputs, or fail at the first that is not enabled. -/
def exec (M : Machine σ ι ο) : σ → List ι → Option (List (Entry σ ι ο) × σ)
  | s, [] => some ([], s)
  | s, i :: is =>
    match M.step s i with
    | none => none
    | some (u, out) => (M.exec u is).map fun r => (⟨s, i, out, u⟩ :: r.1, r.2)

namespace Run

variable {M : Machine σ ι ο} {N : Machine σ' ι' ο'} {s t u : σ} {h h' : List (Entry σ ι ο)}

theorem single {i : ι} {out : List ο} (hs : M.step s i = some (t, out)) :
    M.Run s [⟨s, i, out, t⟩] t := .snoc .nil hs

theorem append (hr : M.Run s h t) (hr' : M.Run t h' u) : M.Run s (h ++ h') u := by
  induction hr' with
  | nil => simpa using hr
  | snoc _ hs ih => rw [← List.append_assoc]; exact .snoc ih hs

/-- The last entry of a history is the last step of its run. -/
theorem snoc_inv {e : Entry σ ι ο} (hr : M.Run s (h ++ [e]) u) :
    M.Run s h e.pre ∧ M.step e.pre e.input = some (u, e.out) ∧ e.post = u := by
  generalize hg : h ++ [e] = g at hr
  cases hr with
  | nil => simp at hg
  | snoc hr hs =>
    obtain ⟨rfl, he⟩ := List.append_inj' hg rfl
    obtain rfl : e = _ := List.singleton_inj.mp he
    exact ⟨hr, hs, rfl⟩

/-- An empty history leads nowhere. -/
theorem nil_inv (hr : M.Run s [] u) : s = u := by
  generalize hg : ([] : List (Entry σ ι ο)) = g at hr
  cases hr with
  | nil => rfl
  | snoc => simp at hg

/-- **A run passes through a state at every point of its history.** -/
theorem split : ∀ {h' : List (Entry σ ι ο)} {u : σ}, M.Run s (h ++ h') u →
    ∃ t, M.Run s h t ∧ M.Run t h' u := by
  intro h'
  induction h' using List.reverseRecOn with
  | nil => exact fun {u} hr => ⟨u, by simpa using hr, .nil⟩
  | append_singleton h' e ih =>
    intro u hr
    rw [← List.append_assoc] at hr
    obtain ⟨hpre, hs, rfl⟩ := hr.snoc_inv
    obtain ⟨t, hst, htu⟩ := ih hpre
    exact ⟨t, hst, .snoc htu hs⟩

/-- **Every entry of a history is a step the run took**, between the run before it and the run
after it. -/
theorem step_at {e : Entry σ ι ο} (hr : M.Run s (h ++ e :: h') u) :
    M.Run s h e.pre ∧ M.step e.pre e.input = some (e.post, e.out) ∧ M.Run e.post h' u := by
  rw [show h ++ e :: h' = (h ++ [e]) ++ h' by simp] at hr
  obtain ⟨t, hst, htu⟩ := hr.split
  obtain ⟨hpre, hstep, rfl⟩ := hst.snoc_inv
  exact ⟨hpre, hstep, htu⟩

/-- The first entry of a history is the first step of its run. -/
theorem cons_inv {e : Entry σ ι ο} (hr : M.Run s (e :: h) u) :
    M.step s e.input = some (e.post, e.out) ∧ M.Run e.post h u := by
  obtain ⟨hnil, hs, hrest⟩ := Run.step_at (h := []) hr
  obtain rfl := hnil.nil_inv
  exact ⟨hs, hrest⟩

/-- The inputs of a run determine it. -/
theorem eq_of_inputs (hr : M.Run s h t) (hr' : M.Run s h' u)
    (hin : h.map (·.input) = h'.map (·.input)) : h = h' ∧ t = u := by
  induction hr generalizing h' u with
  | nil =>
    obtain rfl := List.map_eq_nil_iff.mp hin.symm
    exact ⟨rfl, hr'.nil_inv⟩
  | @snoc h t v i out hr hs ih =>
    obtain rfl | ⟨k, e, rfl⟩ : h' = [] ∨ ∃ k e, h' = k ++ [e] := by
      simpa using List.eq_nil_or_concat h'
    · simp at hin
    rw [List.map_append, List.map_append] at hin
    obtain ⟨hpre, hlast⟩ := List.append_inj' hin rfl
    obtain ⟨hk, hv, rfl⟩ := hr'.snoc_inv
    obtain ⟨rfl, rfl⟩ := ih hk hpre
    obtain ⟨pre, j, p, w⟩ := e
    obtain rfl : i = j := List.singleton_inj.mp hlast
    obtain ⟨rfl, rfl⟩ : v = w ∧ out = p := by simpa [hs] using hv
    exact ⟨rfl, rfl⟩

theorem reaches (hr : M.Run s h t) : M.Reaches s t := ⟨h, hr⟩

/-- **The invariant rule.** -/
theorem invariant (I : σ → Prop) (hs : I s)
    (hstep : ∀ {t i u out}, I t → M.step t i = some (u, out) → I u) (hr : M.Run s h t) : I t := by
  induction hr with
  | nil => exact hs
  | snoc _ hst ih => exact hstep ih hst

/-- **The simulation rule.**  Where every step reached is a step of `N` under `f`, or leaves `f`
alone, a run of `M` is a run of `N` and `g` rewrites its history. -/
theorem simulate (f : σ → σ') (g : Entry σ ι ο → Option (Entry σ' ι' ο'))
    (hstep : ∀ {t i u out}, M.Reaches s t → M.step t i = some (u, out) →
      match g ⟨t, i, out, u⟩ with
      | none => f u = f t
      | some e => e.pre = f t ∧ e.post = f u ∧ N.step e.pre e.input = some (e.post, e.out))
    (hr : M.Run s h t) : N.Run (f s) (h.filterMap g) (f t) := by
  induction hr with
  | nil => exact .nil
  | @snoc h t u i out hr hs ih =>
    have key := hstep hr.reaches hs
    rw [List.filterMap_append, List.filterMap_cons, List.filterMap_nil]
    split at key <;> rename_i hg
    · simpa only [hg, List.append_nil, key] using ih
    · rename_i e
      obtain ⟨hpre, hpost, hN⟩ := key
      obtain ⟨pre, i', out', post⟩ := e
      obtain rfl : pre = f t := hpre
      obtain rfl : post = f u := hpost
      simpa only [hg] using Run.snoc ih hN

/-- **Every prefix of what was emitted is all that had been emitted at some earlier moment**, where
a step emits at most once. -/
theorem exists_past {p : List ο} (hone : ∀ {t i u out}, M.Reaches s t →
      M.step t i = some (u, out) → out.length ≤ 1)
    (hr : M.Run s h t) (hp : p <+: emitted h) :
    ∃ h₁ h₂ u, h = h₁ ++ h₂ ∧ M.Run s h₁ u ∧ emitted h₁ = p := by
  induction hr with
  | nil => exact ⟨[], [], s, rfl, .nil, (List.prefix_nil.mp hp).symm⟩
  | @snoc h t u i out hr hs ih =>
    rw [emitted_append, emitted_singleton] at hp
    by_cases hpre : p <+: emitted h
    · obtain ⟨h₁, h₂, v, rfl, hv, hp₁⟩ := ih hpre
      exact ⟨h₁, h₂ ++ [⟨t, i, out, u⟩], v, by simp, hv, hp₁⟩
    · -- a prefix that is not one of `emitted h` ends in the one output of the step
      refine ⟨_, [], u, (List.append_nil _).symm, .snoc hr hs, ?_⟩
      rw [emitted_append, emitted_singleton]
      rcases out with _ | ⟨o, _ | ⟨o', out⟩⟩
      · exact absurd (by simpa using hp) hpre
      · exact ((List.prefix_concat_iff.mp hp).resolve_right hpre).symm
      · have := hone hr.reaches hs
        simp at this

theorem of_exec : ∀ {is : List ι} {s t : σ} {h : List (Entry σ ι ο)},
    M.exec s is = some (h, t) → M.Run s h t
  | [], s, t, h, he => by
    obtain ⟨rfl, rfl⟩ : [] = h ∧ s = t := by simpa [exec] using he
    exact .nil
  | i :: is, s, t, h, he => by
    rw [exec] at he
    split at he
    · simp at he
    · rename_i u out hs
      obtain ⟨⟨h', t'⟩, hr, he⟩ := Option.map_eq_some_iff.mp he
      obtain ⟨rfl, rfl⟩ : ⟨s, i, out, u⟩ :: h' = h ∧ t' = t := by simpa using he
      exact (Run.single hs).append (of_exec hr)

end Run

/-- What is executed is what was asked for. -/
theorem map_input_of_exec {M : Machine σ ι ο} : ∀ {is : List ι} {s t : σ} {h : List (Entry σ ι ο)},
    M.exec s is = some (h, t) → h.map (·.input) = is
  | [], s, t, h, he => by
    obtain ⟨rfl, -⟩ : [] = h ∧ s = t := by simpa [exec] using he
    rfl
  | i :: is, s, t, h, he => by
    rw [exec] at he
    split at he
    · simp at he
    · rename_i u out hs
      obtain ⟨⟨h', t'⟩, hr, he⟩ := Option.map_eq_some_iff.mp he
      obtain ⟨rfl, -⟩ : ⟨s, i, out, u⟩ :: h' = h ∧ t' = t := by simpa using he
      rw [List.map_cons, map_input_of_exec hr]

/-- **Execution finds runs**: what a list of inputs computes, some run does. -/
theorem exists_run {M : Machine σ ι ο} {s : σ} (is : List ι)
    {P : List (Entry σ ι ο) → σ → Prop} [∀ h t, Decidable (P h t)]
    (hP : (M.exec s is).any (fun r => P r.1 r.2) = true) : ∃ h t, M.Run s h t ∧ P h t := by
  cases hr : M.exec s is with
  | none => simp [hr] at hP
  | some r => exact ⟨r.1, r.2, .of_exec hr, by simpa [hr] using hP⟩

theorem Reaches.refl (M : Machine σ ι ο) (s : σ) : M.Reaches s s := ⟨[], .nil⟩

theorem Reaches.trans {M : Machine σ ι ο} {s t u : σ} :
    M.Reaches s t → M.Reaches t u → M.Reaches s u
  | ⟨_, h⟩, ⟨_, h'⟩ => ⟨_, h.append h'⟩

theorem Reaches.of_step {M : Machine σ ι ο} {s t : σ} {i : ι} {out : List ο}
    (hs : M.step s i = some (t, out)) : M.Reaches s t := ⟨_, .single hs⟩

/-- **The trap rule.**  What a step-closed set excludes, no run out of it reaches. -/
theorem not_reaches_of_trap {M : Machine σ ι ο} {s : σ} (T G : σ → Prop) (hT : T s)
    (hstep : ∀ {t i u out}, T t → M.step t i = some (u, out) → T u) (hG : ∀ t, T t → ¬ G t) :
    ¬ ∃ t, M.Reaches s t ∧ G t := by
  rintro ⟨t, ⟨h, hr⟩, hg⟩
  exact hG t (hr.invariant T hT hstep) hg

end Machine

/-! ## Cutting a history -/

/-- A cut of `l ++ [a]` is at `a`, or a cut of `l`. -/
theorem concat_eq_append_cons {α : Type*} {l pre post : List α} {a b : α} :
    l ++ [a] = pre ++ b :: post ↔ (l = pre ∧ a = b ∧ post = []) ∨
      ∃ post', post = post' ++ [a] ∧ l = pre ++ b :: post' := by
  constructor
  · intro hsplit
    induction post using List.reverseRecOn with
    | nil =>
      obtain ⟨rfl, he⟩ := List.append_inj' hsplit rfl
      exact Or.inl ⟨rfl, List.singleton_inj.mp he, rfl⟩
    | append_singleton post c =>
      rw [← List.cons_append, ← List.append_assoc] at hsplit
      obtain ⟨rfl, he⟩ := List.append_inj' hsplit rfl
      obtain rfl := List.singleton_inj.mp he
      exact Or.inr ⟨post, rfl, rfl⟩
  · rintro (⟨rfl, rfl, rfl⟩ | ⟨post, rfl, rfl⟩) <;> simp

/-- A list has no entry satisfying `p`, or splits at the last one. -/
theorem exists_last_or_none {α : Type*} (p : α → Prop) (l : List α) :
    (∀ a ∈ l, ¬ p a) ∨ ∃ pre a post, l = pre ++ a :: post ∧ p a ∧ ∀ b ∈ post, ¬ p b := by
  induction l using List.reverseRecOn with
  | nil => exact Or.inl (by simp)
  | append_singleton l a ih =>
    by_cases ha : p a
    · exact Or.inr ⟨l, a, [], rfl, ha, by simp⟩
    · rcases ih with hnone | ⟨pre, b, post, rfl, hb, hpost⟩
      · exact Or.inl fun c hc => by
          rcases List.mem_append.mp hc with hc | hc
          · exact hnone c hc
          · obtain rfl := List.mem_singleton.mp hc
            exact ha
      · refine Or.inr ⟨pre, b, post ++ [a], by simp, hb, fun c hc => ?_⟩
        rcases List.mem_append.mp hc with hc | hc
        · exact hpost c hc
        · obtain rfl := List.mem_singleton.mp hc
          exact ha

end Machinery
