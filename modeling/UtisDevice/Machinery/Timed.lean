import Mathlib.Algebra.Order.Ring.Nat
import Mathlib.Data.Fintype.Defs
import UtisDevice.Machinery.Machine

/-!
# Machinery/Timed — a machine against the clock

       wait 3          act i          wait 5
    w ────────▸ w + 3 ───────▸ w′ ──────────▸ w′ + 5        w′ a = 0 for an alarm set or answered

An alarm is something a state asks to be answered for: it is set in some states, some inputs answer
it, and an answer comes no earlier than `early` and no later than `late` after the alarm was set or
last answered.  A state keeps how long each alarm has waited.  Time does not pass beyond the latest
time of an alarm, so a run is one in which all are answered in time (`punctual_step`); nothing is
said of what happens between.

What is to happen within some time is shown by a bound on the time still needed, which time passing
lowers and no other step raises (`Run.exists_of_elapsed`).
-/

namespace Machinery

variable {σ ι ο α : Type*}

/-- What a machine is to answer, and when. -/
structure Alarms (σ ι α : Type*) where
  isSet : σ → α → Bool
  /-- What an input, in a state, answers. -/
  answers : σ → ι → α → Bool
  early : α → ℕ
  late : α → ℕ

/-- A state, and how long each alarm has waited in it; an alarm that is not set may have any
time. -/
structure Timed (σ α : Type*) where
  state : σ
  waited : α → ℕ

/-- The same state some time later. -/
def Timed.later (t : Timed σ α) (time : ℕ) : Timed σ α :=
  { t with waited := fun a => t.waited a + time }

inductive TimedInput (ι : Type*)
  | wait (time : ℕ)
  | act (i : ι)
  deriving DecidableEq

namespace Alarms

variable (A : Alarms σ ι α)

/-- How long the alarms have waited after an input. -/
def rewind (t : Timed σ α) (i : ι) (a : α) : ℕ :=
  if A.isSet t.state a && !A.answers t.state i a then t.waited a else 0

/-- No alarm is overdue. -/
def Punctual (t : Timed σ α) : Prop := ∀ a, A.isSet t.state a = true → t.waited a ≤ A.late a

variable {A} {t : Timed σ α} {i : ι} {a : α}

theorem rewind_of_answers (h : A.answers t.state i a = true) : A.rewind t i a = 0 := by
  simp [rewind, h]

theorem rewind_of_not_isSet (h : A.isSet t.state a = false) : A.rewind t i a = 0 := by
  simp [rewind, h]

theorem rewind_of_isSet (h : A.isSet t.state a = true) (hi : A.answers t.state i a = false) :
    A.rewind t i a = t.waited a := by simp [rewind, h, hi]

theorem rewind_le (A : Alarms σ ι α) (t : Timed σ α) (i : ι) (a : α) :
    A.rewind t i a ≤ t.waited a := by
  rw [rewind]
  split
  · exact le_refl _
  · exact Nat.zero_le _

end Alarms

/-- **The machine against the clock.** -/
def Machine.timed [Fintype α] (M : Machine σ ι ο) (A : Alarms σ ι α) :
    Machine (Timed σ α) (TimedInput ι) ο where
  step t
    | .wait time =>
      if ∀ a, A.isSet t.state a = true → t.waited a + time ≤ A.late a then
        some (t.later time, [])
      else none
    | .act i =>
      if ∀ a, A.answers t.state i a = true → A.early a ≤ t.waited a then
        (M.step t.state i).map fun r => (⟨r.1, A.rewind t i⟩, r.2)
      else none

abbrev TimedEntry (σ ι ο α : Type*) := Entry (Timed σ α) (TimedInput ι) ο

/-- The time an entry takes. -/
def duration (e : TimedEntry σ ι ο α) : ℕ :=
  match e.input with
  | .wait time => time
  | .act _ => 0

/-- The time that passes in a history. -/
def elapsed (h : List (TimedEntry σ ι ο α)) : ℕ := (h.map duration).sum

@[simp] theorem elapsed_nil : elapsed ([] : List (TimedEntry σ ι ο α)) = 0 := rfl

@[simp] theorem elapsed_concat (h : List (TimedEntry σ ι ο α)) (e : TimedEntry σ ι ο α) :
    elapsed (h ++ [e]) = elapsed h + duration e := by simp [elapsed]

/-- The step of the untimed machine an entry is. -/
def actEntry (e : TimedEntry σ ι ο α) : Option (Entry σ ι ο) :=
  match e.input with
  | .wait _ => none
  | .act i => some ⟨e.pre.state, i, e.out, e.post.state⟩

/-- Whether an entry answers an alarm. -/
def Alarms.isAnswer (A : Alarms σ ι α) (a : α) (e : TimedEntry σ ι ο α) : Bool :=
  match e.input with
  | .wait _ => false
  | .act i => A.answers e.pre.state i a

section Run

variable [Fintype α] {M : Machine σ ι ο} {A : Alarms σ ι α} {s t u : Timed σ α}
  {i : TimedInput ι} {out : List ο} {h : List (TimedEntry σ ι ο α)}

/-- **All a timed step can do**: let time pass, or act without being early. -/
theorem timed_cases (hs : (M.timed A).step t i = some (u, out)) :
    (∃ time, i = .wait time ∧
      (∀ a, A.isSet t.state a = true → t.waited a + time ≤ A.late a) ∧
      u = t.later time ∧ out = []) ∨
    ∃ j v, i = .act j ∧ (∀ a, A.answers t.state j a = true → A.early a ≤ t.waited a) ∧
      M.step t.state j = some (v, out) ∧ u = ⟨v, A.rewind t j⟩ := by
  cases i with
  | wait time =>
    simp only [Machine.timed] at hs
    split at hs
    · rename_i hlate
      obtain ⟨rfl, rfl⟩ := Prod.mk.inj (Option.some.inj hs)
      exact Or.inl ⟨time, rfl, hlate, rfl, rfl⟩
    · exact absurd hs (by simp)
  | act j =>
    simp only [Machine.timed] at hs
    split at hs
    · rename_i hearly
      obtain ⟨⟨v, o⟩, hv, hr⟩ := Option.map_eq_some_iff.mp hs
      obtain ⟨rfl, rfl⟩ := Prod.mk.inj hr
      exact Or.inr ⟨j, v, rfl, hearly, hv, rfl⟩
    · exact absurd hs (by simp)

/-- **No alarm is ever overdue.** -/
theorem punctual_step (hp : A.Punctual t) (hs : (M.timed A).step t i = some (u, out)) :
    A.Punctual u := by
  obtain ⟨time, -, hlate, rfl, -⟩ | ⟨j, v, -, -, -, rfl⟩ := timed_cases hs
  · exact hlate
  · intro a _
    change A.rewind t j a ≤ A.late a
    rw [Alarms.rewind]
    split
    · rename_i hset
      exact hp a (Bool.and_eq_true_iff.mp hset).1
    · exact Nat.zero_le _

/-- **A timed run is a run**, with the waiting left out. -/
theorem Machine.Run.untimed (hr : (M.timed A).Run s h u) :
    M.Run s.state (h.filterMap actEntry) u.state := by
  refine hr.simulate Timed.state actEntry fun {t i u out} _ hs => ?_
  obtain ⟨time, rfl, -, rfl, -⟩ | ⟨j, v, rfl, -, hv, rfl⟩ := timed_cases hs
  · rfl
  · exact ⟨rfl, rfl, hv⟩

/-- …that does all the timed run does. -/
theorem emitted_actEntry (hr : (M.timed A).Run s h u) :
    emitted (h.filterMap actEntry) = emitted h := by
  induction hr with
  | nil => rfl
  | @snoc h t u i out hr hs ih =>
    rw [List.filterMap_append, emitted_append, emitted_append, ih, emitted_singleton]
    obtain ⟨time, rfl, -, -, rfl⟩ | ⟨j, v, rfl, -, -, -⟩ := timed_cases hs
    · rfl
    · exact congrArg (emitted h ++ ·) (emitted_singleton _)

/-- **Answers keep their distance**: each comes `early` after the one before, or later. -/
theorem answers_mul_early_le (a : α) (hr : (M.timed A).Run s h u) :
    h.countP (A.isAnswer a) * A.early a + u.waited a ≤ elapsed h + s.waited a := by
  induction hr with
  | nil => simp
  | @snoc h t u i out hr hs ih =>
    rw [List.countP_append, List.countP_singleton, elapsed_concat]
    obtain ⟨time, rfl, -, rfl, -⟩ | ⟨j, v, rfl, hearly, -, rfl⟩ := timed_cases hs
    · rw [if_neg (by simp [Alarms.isAnswer]), Nat.add_zero]
      change _ + (t.waited a + time) ≤ elapsed h + time + _
      omega
    · change _ + A.rewind t j a ≤ elapsed h + 0 + _
      split <;> rename_i hanswers
      · have hwaited := hearly a hanswers
        rw [Alarms.rewind_of_answers hanswers, Nat.succ_mul]
        omega
      · have hle := A.rewind_le t j a
        rw [Nat.add_zero]
        omega

/-- What a run spends and what it may still spend is no more than it could at first. -/
theorem Machine.Run.spend {N : Machine σ ι ο} {cost : Entry σ ι ο → ℕ} {R : σ → ℕ} {s u : σ}
    {h : List (Entry σ ι ο)} (hr : N.Run s h u) (hstep : ∀ e ∈ h, cost e + R e.post ≤ R e.pre) :
    (h.map cost).sum + R u ≤ R s := by
  induction hr with
  | nil => simp
  | @snoc h t u i out hr hs ih =>
    have hpre := ih fun e he => hstep e (List.mem_append_left _ he)
    have hlast := hstep ⟨t, i, out, u⟩ (by simp)
    simp only [List.map_append, List.sum_append, List.map_cons, List.map_nil, List.sum_cons,
      List.sum_nil]
    simp only at hlast
    omega

/-- **The deadline rule.**  Where time lowers the bound and no step but a good one raises it, a good
step is taken before more time has passed than the bound allows. -/
theorem Machine.Run.exists_of_elapsed {R : Timed σ α → ℕ} {G : TimedEntry σ ι ο α → Prop}
    (hr : (M.timed A).Run s h u)
    (hstep : ∀ e ∈ h, ¬ G e → duration e + R e.post ≤ R e.pre) (hlate : R s < elapsed h) :
    ∃ e ∈ h, G e := by
  by_contra hnone
  have hspent := hr.spend fun e he => hstep e he fun hgood => hnone ⟨e, he, hgood⟩
  rw [elapsed] at hlate
  omega

end Run

end Machinery
