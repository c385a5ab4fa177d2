import UtisDevice.Machinery.Machine

/-!
# Machinery/Hosted — a worker that lives and dies with its thread

    start ──▸ the thread runs, startCall posted    emit c ──▸ c posted
    loop  ──▸ the worker takes up the next call    stop   ──▸ the thread ends, the worker with it

A worker object is made once and moved to a thread.  Calls to it are posted, and the event loop of
the thread takes them up in order; a call may not return, and then the thread is `blocked`.  When
the thread ends the worker is deleted, and what is posted to a deleted worker is lost: a run has a
worker left exactly if no `stop` came after a `start` (`isSome_work_iff`).  While there is one,
every call posted has returned, is the one the thread is stuck in, or is posted still
(`postedCalls_of_run`); and given calls that return, everything emitted is taken up in order
(`backlog_of_run`, `exists_drain`).
-/

namespace Machinery

variable {ω σ ο : Type*}

/-! ## The machine -/

/-- A worker, until it is deleted, and the thread it lives in. -/
structure Hosted (ω σ : Type*) where
  work : Option ω
  isRunning : Bool := false
  /-- The thread is in a call that does not return. -/
  blocked : Bool := false
  posted : List σ := []

inductive HostedInput (σ : Type*)
  | start
  | stop
  | emit (call : σ)
  | loop
  deriving DecidableEq

/-- Nothing is posted to a deleted worker. -/
def Hosted.post (s : Hosted ω σ) (call : σ) : Hosted ω σ :=
  if s.work.isSome then { s with posted := s.posted ++ [call] } else s

/-- The thread of a worker with the calls of `M`.  It outputs the calls that have returned, with
what they put out.  Nothing is emitted to a worker before it was first started; `stop` waits for the
thread to end. -/
def hosted (M : Machine ω σ ο) (startCall : σ) :
    Machine (Hosted ω σ) (HostedInput σ) (σ × List ο) where
  step s
    | .start => some ({ s with isRunning := true }.post startCall, [])
    | .stop =>
      if s.isRunning then
        if s.blocked then none else some ({ work := none }, [])
      else some (s, [])
    | .emit call => if s.isRunning || s.work.isNone then some (s.post call, []) else none
    | .loop =>
      if s.isRunning && !s.blocked then
        match s.work, s.posted with
        | some w, call :: posted =>
          match M.step w call with
          | some (w', out) => some ({ s with work := some w', posted := posted }, [(call, out)])
          | none => some ({ s with blocked := true, posted := posted }, [])
        | _, _ => none
      else none

/-- **All a step can do.** -/
inductive HostedStep (M : Machine ω σ ο) (startCall : σ) (s : Hosted ω σ) :
    HostedInput σ → Hosted ω σ → List (σ × List ο) → Prop
  | start : HostedStep M startCall s .start ({ s with isRunning := true }.post startCall) []
  | stop (hrun : s.isRunning = true) (hfree : s.blocked = false) :
      HostedStep M startCall s .stop { work := none } []
  | idle (hrun : s.isRunning = false) : HostedStep M startCall s .stop s []
  | emit {call : σ} (hmay : s.isRunning = true ∨ s.work = none) :
      HostedStep M startCall s (.emit call) (s.post call) []
  | served {w w' : ω} {call : σ} {posted : List σ} {out : List ο} (hfree : s.blocked = false)
      (hw : s.work = some w) (hposted : s.posted = call :: posted)
      (hs : M.step w call = some (w', out)) :
      HostedStep M startCall s .loop { s with work := some w', posted := posted } [(call, out)]
  | stuck {w : ω} {call : σ} {posted : List σ} (hfree : s.blocked = false) (hw : s.work = some w)
      (hposted : s.posted = call :: posted) (hs : M.step w call = none) :
      HostedStep M startCall s .loop { s with blocked := true, posted := posted } []

section Step

variable {M : Machine ω σ ο} {startCall : σ} {s s' : Hosted ω σ} {i : HostedInput σ}
  {out : List (σ × List ο)}

theorem hostedStep_of_step (hs : (hosted M startCall).step s i = some (s', out)) :
    HostedStep M startCall s i s' out := by
  cases i with
  | start =>
    obtain ⟨rfl, rfl⟩ := Prod.mk.inj (Option.some.inj hs)
    exact .start
  | stop =>
    simp only [hosted] at hs
    split at hs
    · rename_i hrun
      split at hs
      · simp at hs
      · rename_i hfree
        obtain ⟨rfl, rfl⟩ := Prod.mk.inj (Option.some.inj hs)
        exact .stop hrun (by simpa using hfree)
    · rename_i hrun
      obtain ⟨rfl, rfl⟩ := Prod.mk.inj (Option.some.inj hs)
      exact .idle (by simpa using hrun)
  | emit call =>
    simp only [hosted] at hs
    split at hs
    · rename_i hmay
      obtain ⟨rfl, rfl⟩ := Prod.mk.inj (Option.some.inj hs)
      exact .emit (by simpa using hmay)
    · simp at hs
  | loop =>
    simp only [hosted] at hs
    split at hs
    · rename_i hmay
      have hfree : s.blocked = false := by simpa using (Bool.and_eq_true_iff.mp hmay).2
      split at hs
      · rename_i w call posted hw hposted
        split at hs
        · rename_i w' o hcall
          obtain ⟨rfl, rfl⟩ := Prod.mk.inj (Option.some.inj hs)
          exact .served hfree hw hposted hcall
        · rename_i hcall
          obtain ⟨rfl, rfl⟩ := Prod.mk.inj (Option.some.inj hs)
          exact .stuck hfree hw hposted hcall
      · simp at hs
    · simp at hs

@[simp] theorem Hosted.work_post (s : Hosted ω σ) (call : σ) : (s.post call).work = s.work := by
  unfold Hosted.post
  split <;> rfl

@[simp] theorem Hosted.isRunning_post (s : Hosted ω σ) (call : σ) :
    (s.post call).isRunning = s.isRunning := by
  unfold Hosted.post
  split <;> rfl

@[simp] theorem Hosted.blocked_post (s : Hosted ω σ) (call : σ) :
    (s.post call).blocked = s.blocked := by
  unfold Hosted.post
  split <;> rfl

theorem Hosted.posted_post {w : ω} (hw : s.work = some w) (call : σ) :
    (s.post call).posted = s.posted ++ [call] := by simp [Hosted.post, hw]

end Step

/-! ## The life of the worker -/

abbrev HostedEntry (ω σ ο : Type*) := Entry (Hosted ω σ) (HostedInput σ) (σ × List ο)

/-- No `stop` comes after a `start`. -/
def Unstopped (h : List (HostedEntry ω σ ο)) : Prop :=
  h.Pairwise fun e e' => ¬ (e.input = .start ∧ e'.input = .stop)

instance [DecidableEq σ] (h : List (HostedEntry ω σ ο)) : Decidable (Unstopped h) :=
  inferInstanceAs (Decidable (List.Pairwise _ _))

theorem unstopped_concat {h : List (HostedEntry ω σ ο)} {e : HostedEntry ω σ ο} :
    Unstopped (h ++ [e]) ↔
      Unstopped h ∧ ∀ e' ∈ h, ¬ (e'.input = .start ∧ e.input = .stop) := by
  simp [Unstopped, List.pairwise_append]

section Life

variable {M : Machine ω σ ο} {startCall : σ} {s s' : Hosted ω σ} {w₀ : ω}
  {h : List (HostedEntry ω σ ο)}

/-- **The worker is left exactly if no `stop` came after a `start`**, and then its thread is running
once it was started. -/
theorem isSome_work_iff (hr : (hosted M startCall).Run { work := some w₀ } h s) :
    (s.work.isSome = true ↔ Unstopped h) ∧
      (s.work.isSome = true → (s.isRunning = true ↔ ∃ e ∈ h, e.input = .start)) := by
  induction hr with
  | nil => simp [Unstopped]
  | @snoc h t u i out hr hs ih =>
    obtain ⟨hwork, hrunning⟩ := ih
    -- an input that is no `stop` neither deletes the worker nor can follow a `start` wrongly
    have hkeep : i ≠ .stop → (Unstopped (h ++ [⟨t, i, out, u⟩]) ↔ Unstopped h) := fun hi => by
      rw [unstopped_concat]
      exact and_iff_left fun e' _ hpair => hi hpair.2
    cases hostedStep_of_step hs with
    | start => simp [hkeep, hwork]
    | stop hrun =>
      refine ⟨⟨fun hnone => by simp at hnone, fun hun => ?_⟩, fun hnone => by simp at hnone⟩
      obtain ⟨hpre, hlast⟩ := unstopped_concat.mp hun
      obtain ⟨e, he, hstart⟩ := (hrunning (hwork.mpr hpre)).mp hrun
      exact absurd ⟨hstart, rfl⟩ (hlast e he)
    | idle hrun =>
      refine ⟨⟨fun hsome => unstopped_concat.mpr ⟨hwork.mp hsome, fun e he hpair => ?_⟩,
        fun hun => hwork.mpr (unstopped_concat.mp hun).1⟩, fun hsome => ?_⟩
      · rw [(hrunning hsome).mpr ⟨e, he, hpair.1⟩] at hrun
        exact absurd hrun (by decide)
      · simp [hrunning hsome]
    | emit => simpa [hkeep, hwork] using hrunning
    | @served w w' call posted out hfree hw =>
      simp only [hkeep (by simp), Option.isSome_some, true_iff, true_implies]
      have hsome : t.work.isSome = true := by rw [hw]; rfl
      exact ⟨hwork.mp hsome, by simp [hrunning hsome]⟩
    | stuck => simpa [hkeep, hwork] using hrunning

/-- **A deleted worker takes up nothing**, whatever is started or emitted. -/
theorem emitted_of_deleted (hr : (hosted M startCall).Run s h s') (hw : s.work = none) :
    s'.work = none ∧ emitted h = [] := by
  induction hr with
  | nil => exact ⟨hw, rfl⟩
  | @snoc h t u i out hr hs ih =>
    obtain ⟨hnone, hemit⟩ := ih
    rw [emitted_append, emitted_singleton, hemit]
    cases hostedStep_of_step hs with
    | start => exact ⟨by simpa using hnone, rfl⟩
    | stop => exact ⟨rfl, rfl⟩
    | idle => exact ⟨hnone, rfl⟩
    | emit => exact ⟨by simpa using hnone, rfl⟩
    | served _ hsome => simp [hnone] at hsome
    | stuck _ hsome => simp [hnone] at hsome

/-- **A blocked thread stays blocked**: it takes nothing up, and no `stop` returns. -/
theorem blocked_of_run (hr : (hosted M startCall).Run s h s')
    (hb : s.isRunning = true ∧ s.blocked = true) :
    (s'.isRunning = true ∧ s'.blocked = true) ∧ emitted h = [] ∧
      (hosted M startCall).step s' .stop = none := by
  have hstop : ∀ t : Hosted ω σ, t.isRunning = true ∧ t.blocked = true →
      (hosted M startCall).step t .stop = none := fun t ht => by simp [hosted, ht]
  induction hr with
  | nil => exact ⟨hb, rfl, hstop s hb⟩
  | @snoc h t u i out hr hs ih =>
    obtain ⟨⟨hrun, hblocked⟩, hemit, -⟩ := ih
    have hkeep : (u.isRunning = true ∧ u.blocked = true) ∧ out = [] := by
      cases hostedStep_of_step hs with
      | start => simp [hblocked]
      | stop _ hfree => simp [hblocked] at hfree
      | idle hidle => simp [hrun] at hidle
      | emit => simp [hrun, hblocked]
      | served hfree => simp [hblocked] at hfree
      | stuck hfree => simp [hblocked] at hfree
    obtain ⟨hu, rfl⟩ := hkeep
    exact ⟨hu, by rw [emitted_append, emitted_singleton, hemit]; rfl, hstop u hu⟩

end Life

/-! ## Calls that return -/

/-- The start call returns and makes the worker ready; a ready worker returns from every call and
stays ready. -/
structure Serving (M : Machine ω σ ο) (startCall : σ) (Ready : ω → Prop) : Prop where
  start : ∀ w, ∃ w' out, M.step w startCall = some (w', out) ∧ Ready w'
  serve : ∀ w call, Ready w → ∃ w' out, M.step w call = some (w', out) ∧ Ready w'

/-- The thread is not stuck in a call, and what is posted next to a worker will return. -/
structure Hosted.Fit (startCall : σ) (Ready : ω → Prop) (s : Hosted ω σ) : Prop where
  free : s.blocked = false
  next : ∀ w, s.work = some w → Ready w ∨ s.posted.head? = some startCall ∨
    s.isRunning = false ∧ s.posted = []

/-- The calls a history emitted. -/
def emits (h : List (HostedEntry ω σ ο)) : List σ := h.filterMap fun e =>
  match e.input with
  | .emit call => some call
  | _ => none

@[simp] theorem emits_nil : emits ([] : List (HostedEntry ω σ ο)) = [] := rfl

@[simp] theorem emits_append (h h' : List (HostedEntry ω σ ο)) :
    emits (h ++ h') = emits h ++ emits h' := List.filterMap_append

/-- The calls that have returned. -/
def returned (h : List (HostedEntry ω σ ο)) : List σ := (emitted h).map Prod.fst

@[simp] theorem returned_append (h h' : List (HostedEntry ω σ ο)) :
    returned (h ++ h') = returned h ++ returned h' := by simp [returned]

/-- The calls a history posted: those emitted, and the start call for each `start`. -/
def postedCalls (startCall : σ) (h : List (HostedEntry ω σ ο)) : List σ := h.filterMap fun e =>
  match e.input with
  | .start => some startCall
  | .emit call => some call
  | _ => none

@[simp] theorem postedCalls_append (startCall : σ) (h h' : List (HostedEntry ω σ ο)) :
    postedCalls startCall (h ++ h') = postedCalls startCall h ++ postedCalls startCall h' :=
  List.filterMap_append

/-- **As long as there is a worker, every call posted has returned, is the one the thread is stuck
in, or is posted still**, in order. -/
theorem postedCalls_of_run {M : Machine ω σ ο} {startCall : σ} {s : Hosted ω σ} {w₀ : ω}
    {h : List (HostedEntry ω σ ο)} (hr : (hosted M startCall).Run { work := some w₀ } h s)
    (hsome : s.work.isSome = true) :
    ∃ stuck, postedCalls startCall h = returned h ++ stuck ++ s.posted ∧
      stuck.length = s.blocked.toNat ∧ (s.blocked = true → s.isRunning = true) := by
  induction hr with
  | nil => exact ⟨[], rfl, rfl, by simp⟩
  | @snoc h t u i out hr hs ih =>
    have hstep := hostedStep_of_step hs
    have hlive : t.work.isSome = true := by
      cases hstep with
      | start => simpa using hsome
      | stop => simp at hsome
      | idle => exact hsome
      | emit => simpa using hsome
      | served _ hw => rw [hw]; rfl
      | stuck _ hw => rw [hw]; rfl
    obtain ⟨w, hw⟩ := Option.isSome_iff_exists.mp hlive
    obtain ⟨stuck, hcalls, hlen, hrun⟩ := ih hlive
    rw [postedCalls_append, returned_append, hcalls]
    cases hstep with
    | start =>
      refine ⟨stuck, ?_, by simpa using hlen, by simp⟩
      rw [Hosted.posted_post (s := { t with isRunning := true }) hw]
      simp [postedCalls, returned]
    | stop => simp at hsome
    | idle => exact ⟨stuck, by simp [postedCalls, returned], hlen, hrun⟩
    | emit =>
      refine ⟨stuck, ?_, by simpa using hlen, by simpa using hrun⟩
      rw [Hosted.posted_post hw]
      simp [postedCalls, returned]
    | served hfree _ hposted =>
      obtain rfl : stuck = [] := List.eq_nil_of_length_eq_zero (by rw [hlen, hfree]; rfl)
      refine ⟨[], ?_, by simp [hfree], hrun⟩
      simp [postedCalls, returned, hposted]
    | @stuck w' call posted hfree _ hposted =>
      obtain rfl : stuck = [] := List.eq_nil_of_length_eq_zero (by rw [hlen, hfree]; rfl)
      refine ⟨[call], ?_, rfl, fun _ => ?_⟩
      · simp [postedCalls, returned, hposted]
      · by_contra hidle
        simp [hosted, show t.isRunning ≠ true from hidle] at hs

section Serving

variable {M : Machine ω σ ο} {startCall : σ} {Ready : ω → Prop} {s s' : Hosted ω σ} {w₀ : ω}
  {h : List (HostedEntry ω σ ο)}

/-- What is posted next returns. -/
theorem Hosted.Fit.returns (hM : Serving M startCall Ready) (hfit : s.Fit startCall Ready) {w : ω}
    (hw : s.work = some w) {call : σ} {posted : List σ} (hposted : s.posted = call :: posted) :
    ∃ w' out, M.step w call = some (w', out) ∧ Ready w' := by
  rcases hfit.next w hw with hready | hhead | ⟨-, hnone⟩
  · exact hM.serve w call hready
  · obtain rfl : call = startCall := by simpa [hposted] using hhead
    exact hM.start w
  · simp [hposted] at hnone

/-- A call posted behind others does not change what is next. -/
theorem Hosted.Fit.post_behind (hfit : s.Fit startCall Ready) (hrun : s.isRunning = true)
    (call : σ) : (s.post call).Fit startCall Ready := by
  refine ⟨by simpa using hfit.free, fun w hw => ?_⟩
  have hsome : s.work = some w := by simpa using hw
  rw [posted_post hsome]
  rcases hfit.next w hsome with hready | hhead | ⟨hidle, -⟩
  · exact Or.inl hready
  · exact Or.inr (Or.inl (by rw [List.head?_append, hhead]; rfl))
  · rw [hrun] at hidle
    exact absurd hidle (by decide)

theorem fit_step (hM : Serving M startCall Ready) (hfit : s.Fit startCall Ready)
    {i : HostedInput σ} {out : List (σ × List ο)}
    (hs : (hosted M startCall).step s i = some (s', out)) : s'.Fit startCall Ready := by
  cases hostedStep_of_step hs with
  | start =>
    refine ⟨by simpa using hfit.free, fun w hw => ?_⟩
    have hsome : ({ s with isRunning := true } : Hosted ω σ).work = some w := by simpa using hw
    rw [Hosted.posted_post hsome]
    rcases hfit.next w hsome with hready | hhead | ⟨-, hnone⟩
    · exact Or.inl hready
    · exact Or.inr (Or.inl (by rw [List.head?_append, hhead]; rfl))
    · exact Or.inr (Or.inl (by rw [hnone]; rfl))
  | stop => exact ⟨rfl, fun w hw => by simp at hw⟩
  | idle => exact hfit
  | @emit call hmay =>
    rcases hmay with hrun | hnone
    · exact hfit.post_behind hrun call
    · exact ⟨by simpa using hfit.free, fun w hw => by simp [hnone] at hw⟩
  | @served w w' call posted out hfree hw hposted hcall =>
    obtain ⟨v, o, hstep, hready⟩ := hfit.returns hM hw hposted
    obtain ⟨rfl, -⟩ := Prod.mk.inj (Option.some.inj (hcall.symm.trans hstep))
    exact ⟨hfree, fun u hu => Or.inl (Option.some.inj hu ▸ hready)⟩
  | @stuck w call posted hfree hw hposted hcall =>
    obtain ⟨v, o, hstep, -⟩ := hfit.returns hM hw hposted
    simp [hcall] at hstep

theorem fit_of_run (hM : Serving M startCall Ready)
    (hr : (hosted M startCall).Run { work := some w₀ } h s) : s.Fit startCall Ready :=
  hr.invariant (·.Fit startCall Ready) ⟨rfl, fun _ _ => Or.inr (Or.inr ⟨rfl, rfl⟩)⟩
    fun ht hs => fit_step hM ht hs

/-- The event loop takes up what is posted next. -/
theorem loop_of_fit (hM : Serving M startCall Ready) (hfit : s.Fit startCall Ready)
    (hrun : s.isRunning = true) {w : ω} (hw : s.work = some w) {call : σ} {posted : List σ}
    (hposted : s.posted = call :: posted) :
    ∃ w' out, (hosted M startCall).step s .loop
      = some ({ s with work := some w', posted := posted }, [(call, out)]) := by
  obtain ⟨w', out, hcall, -⟩ := hfit.returns hM hw hposted
  exact ⟨w', out, by simp [hosted, hrun, hfit.free, hw, hposted, hcall]⟩

/-- **Left alone, the event loop gets through what is posted**, in order. -/
theorem exists_drain (hM : Serving M startCall Ready) (hfit : s.Fit startCall Ready)
    (hrun : s.isRunning = true) {w : ω} (hw : s.work = some w) :
    ∃ h s', (hosted M startCall).Run s h s' ∧ (∀ e ∈ h, e.input = .loop) ∧
      returned h = s.posted ∧ s'.work.isSome = true := by
  generalize hcalls : s.posted = calls
  induction calls generalizing s w with
  | nil => exact ⟨[], s, .nil, by simp, rfl, by rw [hw]; rfl⟩
  | cons call calls ih =>
    obtain ⟨w', out, hstep⟩ := loop_of_fit hM hfit hrun hw hcalls
    obtain ⟨h, s', hr, hloop, hreturned, hsome⟩ := ih (fit_step hM hfit hstep) hrun rfl rfl
    refine ⟨_ :: h, s', (Machine.Run.single hstep).append hr, ?_, ?_, hsome⟩
    · exact List.forall_mem_cons.mpr ⟨rfl, hloop⟩
    · rw [← List.singleton_append, returned_append, hreturned]
      rfl

/-- **Between a `start` and the next `stop` nothing is lost**: what was posted and emitted is what
has returned and what is posted still, in order. -/
theorem backlog_of_run (hM : Serving M startCall Ready) (hfit : s.Fit startCall Ready)
    (hrun : s.isRunning = true) (hsome : s.work.isSome = true)
    (hr : (hosted M startCall).Run s h s')
    (hh : ∀ e ∈ h, e.input ≠ .start ∧ e.input ≠ .stop) :
    s'.Fit startCall Ready ∧ s'.isRunning = true ∧ s'.work.isSome = true ∧
      returned h ++ s'.posted = s.posted ++ emits h := by
  induction hr with
  | nil => exact ⟨hfit, hrun, hsome, by simp [returned]⟩
  | @snoc h t u i out hr hs ih =>
    obtain ⟨hpre, hlast⟩ := List.forall_mem_append.mp hh
    obtain ⟨hfit', hrun', hsome', hbacklog⟩ := ih hpre
    have hi := hlast _ (List.mem_singleton_self _)
    refine ⟨fit_step hM hfit' hs, ?_⟩
    rw [returned_append, emits_append, ← List.append_assoc, ← hbacklog]
    cases hostedStep_of_step hs with
    | start => exact absurd rfl hi.1
    | stop => exact absurd rfl hi.2
    | idle => exact absurd rfl hi.2
    | @emit call =>
      obtain ⟨w, hw⟩ := Option.isSome_iff_exists.mp hsome'
      refine ⟨by simpa using hrun', by simpa using hsome', ?_⟩
      rw [Hosted.posted_post hw]
      simp [returned, emits]
    | served _ hw hposted => exact ⟨hrun', rfl, by simp [returned, emits, hposted]⟩
    | stuck =>
      have hfree := (fit_step hM hfit' hs).free
      exact absurd hfree (by simp)

/-- **The worker is attended to from here on**: whatever is emitted before the next `start` or
`stop`, the worker is there, and the event loop gets through all of it in order. -/
def Hosted.Attended (M : Machine ω σ ο) (startCall : σ) (s : Hosted ω σ) : Prop :=
  ∀ h s', (hosted M startCall).Run s h s' → (∀ e ∈ h, e.input ≠ .start ∧ e.input ≠ .stop) →
    s'.work.isSome = true ∧ ∃ h' s'', (hosted M startCall).Run s' h' s'' ∧
      (∀ e ∈ h', e.input = .loop) ∧ s''.work.isSome = true ∧
      returned (h ++ h') = s.posted ++ emits h

/-- **After a `start` the worker is attended to exactly if no `stop` ever came after a `start`.** -/
theorem attended_iff (hM : Serving M startCall Ready)
    (hr : (hosted M startCall).Run { work := some w₀ } h s)
    (hlast : h.getLast?.map (·.input) = some .start) :
    s.Attended M startCall ↔ Unstopped h := by
  obtain ⟨hwork, hrunning⟩ := isSome_work_iff hr
  rw [← hwork]
  refine ⟨fun hserved => (hserved [] s .nil (by simp)).1, fun hsome h' s' hr' hh' => ?_⟩
  have hstarted : ∃ e ∈ h, e.input = .start := by
    obtain ⟨e, he, hstart⟩ := Option.map_eq_some_iff.mp hlast
    exact ⟨e, List.mem_of_getLast? he, hstart⟩
  have hfit : s.Fit startCall Ready := fit_of_run hM hr
  obtain ⟨hfit', hrun', hsome', hbacklog⟩ :=
    backlog_of_run hM hfit ((hrunning hsome).mpr hstarted) hsome hr' hh'
  obtain ⟨w, hw⟩ := Option.isSome_iff_exists.mp hsome'
  obtain ⟨h'', s'', hr'', hloop, hreturned, hsome''⟩ := exists_drain hM hfit' hrun' hw
  exact ⟨hsome', h'', s'', hr'', hloop, hsome'', by rw [returned_append, hreturned, hbacklog]⟩

end Serving

end Machinery
