import UtisDevice.Machinery.Machine

/-!
# Machinery/Batch — batches handed out one item per tick of a clock

    none ──request b──▸ some b ──tick/hand──▸ ⋯ ──tick/hand──▸ some [] ──tick/done──▸ none

The clock of a batch runs while a batch is out (`some q`, `q` still to be handed out); a request
that finds it running is ignored.  Nothing is lost, repeated or reordered (`handed_append_queue`),
each accepted batch ends in one `done` (`dones_add_isSome`), and a batch of `n` items is over after
`n + 1` ticks (`dones_pos_of_ticks`).
-/

namespace Machinery

namespace Batch

variable {α : Type*}

inductive Input (α : Type*)
  | request (batch : List α)
  | tick

inductive Output (α : Type*)
  | hand (item : α)
  | done

/-- The clocked batch: `none` while idle, `some q` while `q` is still to be handed out. -/
def machine (α : Type*) : Machine (Option (List α)) (Input α) (Output α) where
  step
    | none, .request b => some (some b, [])
    | some q, .request _ => some (some q, [])
    | some (a :: q), .tick => some (some q, [.hand a])
    | some [], .tick => some (none, [.done])
    | none, .tick => none

/-- **All a step can do.** -/
theorem step_cases {s t : Option (List α)} {i : Input α} {out : List (Output α)}
    (h : (machine α).step s i = some (t, out)) :
    (∃ b, s = none ∧ i = .request b ∧ t = some b ∧ out = []) ∨
    (∃ q b, s = some q ∧ i = .request b ∧ t = some q ∧ out = []) ∨
    (∃ a q, s = some (a :: q) ∧ i = .tick ∧ t = some q ∧ out = [.hand a]) ∨
    (s = some [] ∧ i = .tick ∧ t = none ∧ out = [.done]) := by
  match s, i with
  | none, .request b =>
    obtain ⟨rfl, rfl⟩ : some b = t ∧ [] = out := by simpa [machine] using h
    exact Or.inl ⟨b, rfl, rfl, rfl, rfl⟩
  | some q, .request b =>
    obtain ⟨rfl, rfl⟩ : some q = t ∧ [] = out := by simpa [machine] using h
    exact Or.inr (Or.inl ⟨q, b, rfl, rfl, rfl, rfl⟩)
  | some (a :: q), .tick =>
    obtain ⟨rfl, rfl⟩ : some q = t ∧ [.hand a] = out := by simpa [machine] using h
    exact Or.inr (Or.inr (Or.inl ⟨a, q, rfl, rfl, rfl, rfl⟩))
  | some [], .tick =>
    obtain ⟨rfl, rfl⟩ : none = t ∧ [.done] = out := by simpa [machine] using h
    exact Or.inr (Or.inr (Or.inr ⟨rfl, rfl, rfl, rfl⟩))
  | none, .tick => exact absurd h (by simp [machine])

/-! ## What a history says -/

abbrev History (α : Type*) := List (Entry (Option (List α)) (Input α) (Output α))

/-- The batch a step accepted: one requested while idle. -/
def acceptedAt (e : Entry (Option (List α)) (Input α) (Output α)) : Option (List α) :=
  match e.pre, e.input with
  | none, .request b => some b
  | _, _ => none

def Output.item? : Output α → Option α
  | .hand a => some a
  | .done => none

def Output.isDone : Output α → Bool
  | .hand _ => false
  | .done => true

def Input.isTick : Input α → Bool
  | .request _ => false
  | .tick => true

/-- The batches accepted, in order. -/
def accepted (h : History α) : List (List α) := h.filterMap acceptedAt

/-- The items handed out, in order. -/
def handed (h : History α) : List α := h.flatMap fun e => e.out.filterMap Output.item?

/-- How many batches ended. -/
def dones (h : History α) : ℕ := (h.flatMap (·.out)).countP Output.isDone

/-- How often the clock ticked. -/
def ticks (h : History α) : ℕ := h.countP (·.input.isTick)

@[simp] theorem accepted_nil : accepted ([] : History α) = [] := rfl
@[simp] theorem handed_nil : handed ([] : History α) = [] := rfl
@[simp] theorem dones_nil : dones ([] : History α) = 0 := rfl
@[simp] theorem ticks_nil : ticks ([] : History α) = 0 := rfl

@[simp] theorem accepted_append (h h' : History α) :
    accepted (h ++ h') = accepted h ++ accepted h' := List.filterMap_append

@[simp] theorem handed_append (h h' : History α) : handed (h ++ h') = handed h ++ handed h' :=
  List.flatMap_append

@[simp] theorem dones_append (h h' : History α) : dones (h ++ h') = dones h + dones h' := by
  simp [dones, List.flatMap_append, List.countP_append]

@[simp] theorem ticks_append (h h' : History α) : ticks (h ++ h') = ticks h + ticks h' :=
  List.countP_append

/-! ## Conservation -/

variable {h h' : History α} {s t : Option (List α)} {q : List α}

/-- **Nothing is lost, repeated or reordered**: what was handed out and what is still queued are
the accepted batches, in order. -/
theorem handed_append_queue (hr : (machine α).Run none h s) :
    handed h ++ s.getD [] = (accepted h).flatten := by
  induction hr with
  | nil => rfl
  | snoc _ hs ih =>
    rw [handed_append, accepted_append, List.flatten_append, ← ih]
    obtain ⟨b, rfl, rfl, rfl, rfl⟩ | ⟨q, b, rfl, rfl, rfl, rfl⟩ | ⟨a, q, rfl, rfl, rfl, rfl⟩ |
      ⟨rfl, rfl, rfl, rfl⟩ := step_cases hs <;>
    simp [handed, accepted, acceptedAt, Output.item?, List.filterMap_cons]

/-- **Every accepted batch ends once**, the one still out excepted. -/
theorem dones_add_isSome (hr : (machine α).Run none h s) :
    dones h + s.isSome.toNat = (accepted h).length := by
  induction hr with
  | nil => rfl
  | snoc _ hs ih =>
    rw [dones_append, accepted_append, List.length_append, ← ih]
    obtain ⟨b, rfl, rfl, rfl, rfl⟩ | ⟨q, b, rfl, rfl, rfl, rfl⟩ | ⟨a, q, rfl, rfl, rfl, rfl⟩ |
      ⟨rfl, rfl, rfl, rfl⟩ := step_cases hs <;>
    simp [dones, accepted, acceptedAt, Output.isDone]

/-- **A batch ends after it was handed out and before the next is**: at the `j`-th `done`, the items
handed out are those of the first `j` accepted batches. -/
theorem handed_at_done {e : Entry (Option (List α)) (Input α) (Output α)}
    (hr : (machine α).Run none (h ++ e :: h') s) (he : Output.done ∈ e.out) :
    handed h = ((accepted (h ++ e :: h')).take (dones h + 1)).flatten := by
  obtain ⟨hpre, hstep, -⟩ := hr.step_at
  obtain ⟨pre, i, out, post⟩ := e
  have hrest : pre = some [] := by
    obtain ⟨b, rfl, rfl, rfl, rfl⟩ | ⟨q, b, rfl, rfl, rfl, rfl⟩ | ⟨a, q, rfl, rfl, rfl, rfl⟩ |
      ⟨rfl, rfl, rfl, rfl⟩ := step_cases hstep <;> simp_all
  subst hrest
  have hcount : dones h + 1 = (accepted h).length := by simpa using dones_add_isSome hpre
  rw [accepted_append, hcount, List.take_left' rfl, ← handed_append_queue hpre]
  simp

/-! ## One batch -/

/-- **While a batch is out**, each tick hands out its next item. -/
theorem handed_of_dones_eq_zero (hr : (machine α).Run (some q) h t) (hd : dones h = 0) :
    ∃ q', t = some q' ∧ handed h ++ q' = q ∧ ticks h = (handed h).length := by
  induction hr with
  | nil => exact ⟨q, rfl, rfl, rfl⟩
  | snoc _ hs ih =>
    rw [dones_append, Nat.add_eq_zero_iff] at hd
    obtain ⟨q', rfl, hq, ht⟩ := ih hd.1
    obtain ⟨b, hb, -, -, -⟩ | ⟨r, b, hr', rfl, rfl, rfl⟩ | ⟨a, r, hr', rfl, rfl, rfl⟩ |
      ⟨-, -, -, rfl⟩ := step_cases hs
    · simp at hb
    · obtain rfl : q' = r := Option.some.inj hr'
      exact ⟨q', rfl, by simpa [handed] using hq, by simpa [handed, ticks, Input.isTick] using ht⟩
    · obtain rfl : q' = a :: r := Option.some.inj hr'
      refine ⟨r, rfl, by simpa [handed, Output.item?] using hq, ?_⟩
      rw [ticks_append, handed_append, List.length_append, ht]
      simp [handed, ticks, Output.item?, Input.isTick]
    · simp [dones, Output.isDone] at hd

/-- **A batch of `n` items is over after `n + 1` ticks.** -/
theorem dones_pos_of_ticks (hr : (machine α).Run (some q) h t) (ht : q.length < ticks h) :
    0 < dones h := by
  by_contra hd
  obtain ⟨q', -, rfl, hticks⟩ := handed_of_dones_eq_zero hr (by omega)
  rw [hticks, List.length_append] at ht
  omega

/-- Idle without requests is idle: the clock does not run. -/
theorem idle_of_no_request (hr : (machine α).Run none h t) (hq : ∀ e ∈ h, e.input.isTick = true) :
    t = none := by
  induction hr with
  | nil => rfl
  | snoc _ hs ih =>
    obtain rfl := ih fun e he => hq e (List.mem_append_left _ he)
    obtain ⟨b, -, rfl, -, -⟩ | ⟨q, b, hn, -, -, -⟩ | ⟨a, q, hn, -, -, -⟩ | ⟨hn, -, -, -⟩ :=
      step_cases hs
    · exact absurd (hq _ (List.mem_append_right _ (List.mem_singleton_self _)))
        (by simp [Input.isTick])
    all_goals simp at hn

/-- Without a new request, a batch that is over leaves the clock stopped. -/
theorem idle_of_dones_pos (hr : (machine α).Run (some q) h t) (hd : 0 < dones h)
    (hq : ∀ e ∈ h, e.input.isTick = true) : t = none := by
  induction hr with
  | nil => simp at hd
  | @snoc h t u i out hr hs ih =>
    have hq' : ∀ e ∈ h, e.input.isTick = true := fun e he => hq e (List.mem_append_left _ he)
    by_cases hpos : 0 < dones h
    · obtain rfl := ih hpos hq'
      have hone := Machine.Run.single hs
      exact idle_of_no_request hone fun e he => hq e (List.mem_append_right _ he)
    · obtain ⟨q', rfl, -, -⟩ := handed_of_dones_eq_zero hr (by omega)
      obtain ⟨b, hn, -, -, -⟩ | ⟨r, b, -, -, -, rfl⟩ | ⟨a, r, -, -, -, rfl⟩ | ⟨-, -, rfl, -⟩ :=
        step_cases hs
      · simp at hn
      · exact absurd hd (by simpa [dones] using hpos)
      · exact absurd hd (by simpa [dones, Output.isDone] using hpos)
      · rfl

end Batch

end Machinery
