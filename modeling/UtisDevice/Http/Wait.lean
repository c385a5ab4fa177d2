import Mathlib.Data.Int.Basic
import UtisDevice.Machinery.Hosted

/-!
# Http/Wait — `MyHttpServerWorker::slotStart` waits for Enter

The slot starts the server and then reads standard input up to a newline, one `getchar` at a time.
At the end of the input `getchar` answers EOF on every call, which is no newline: the loop ends
exactly on the inputs that hold one (`waitEnter_isSome_iff`).  On the others the slot never returns,
its thread never sees its event loop again, and `MyHttpServer::stop` waits for it for ever
(`stop_never_returns`).  Each start uses up a newline, so the same happens when there were more
starts than newlines (`starts_need_newlines`).

What the slot calls of the HTTP library — `server.start()`, which starts a thread and does not wait,
`hv::async::cleanup()` and the destructor of the server — is taken to return.
-/

namespace UtisDevice

open Machinery

/-! ## The loop -/

/-- `getchar()`: the next byte of standard input as an `int`, and what is left; `EOF` at the end. -/
def getchar : List UInt8 → ℤ × List UInt8
  | [] => (-1, [])
  | c :: stdin => (c.toNat, stdin)

/-- `while (getchar() != '\n');`: what it leaves of the input, or `none` if it has not ended after
`calls` calls. -/
def waitEnter : ℕ → List UInt8 → Option (List UInt8)
  | 0, _ => none
  | calls + 1, stdin =>
    if (getchar stdin).1 ≠ 10 then waitEnter calls (getchar stdin).2 else some (getchar stdin).2

theorem waitEnter_nil : ∀ calls : ℕ, waitEnter calls [] = none
  | 0 => rfl
  | calls + 1 => waitEnter_nil calls

theorem waitEnter_cons (calls : ℕ) (c : UInt8) (stdin : List UInt8) :
    waitEnter (calls + 1) (c :: stdin) =
      if c = 0x0A then some stdin else waitEnter calls stdin := by
  have hbyte : ((c.toNat : ℤ) = 10) ↔ c = 0x0A := by
    rw [← UInt8.toNat_inj, show (0x0A : UInt8).toNat = 10 from rfl]
    omega
  simp only [waitEnter, getchar, ne_eq, hbyte, ite_not]

/-- **The loop ends with the call that reads the first newline**, and not before. -/
theorem waitEnter_append {pre : List UInt8} (hpre : 0x0A ∉ pre) (post : List UInt8) (calls : ℕ) :
    waitEnter calls (pre ++ 0x0A :: post) = if pre.length < calls then some post else none := by
  induction pre generalizing calls with
  | nil =>
    cases calls with
    | zero => rfl
    | succ calls => rw [List.nil_append, waitEnter_cons, if_pos rfl, List.length_nil,
        if_pos (Nat.succ_pos calls)]
  | cons c pre ih =>
    obtain ⟨hc, hpre⟩ : 0x0A ≠ c ∧ 0x0A ∉ pre := by simpa using hpre
    cases calls with
    | zero => rfl
    | succ calls =>
      rw [List.cons_append, waitEnter_cons, if_neg hc.symm, ih hpre]
      simp

/-- **Without a newline it never ends.** -/
theorem waitEnter_eq_none {stdin : List UInt8} (h : 0x0A ∉ stdin) (calls : ℕ) :
    waitEnter calls stdin = none := by
  induction stdin generalizing calls with
  | nil => exact waitEnter_nil calls
  | cons c stdin ih =>
    obtain ⟨hc, hstdin⟩ : 0x0A ≠ c ∧ 0x0A ∉ stdin := by simpa using h
    cases calls with
    | zero => rfl
    | succ calls => rw [waitEnter_cons, if_neg hc.symm, ih hstdin]

/-- **A newline is what it takes.** -/
theorem waitEnter_isSome_iff {stdin : List UInt8} :
    (∃ calls, (waitEnter calls stdin).isSome = true) ↔ 0x0A ∈ stdin := by
  constructor
  · rintro ⟨calls, hends⟩
    by_contra hnone
    rw [waitEnter_eq_none hnone] at hends
    exact absurd hends (by decide)
  · intro hmem
    obtain ⟨pre, post, rfl, hpre⟩ := List.eq_append_cons_of_mem hmem
    exact ⟨pre.length + 1, by rw [waitEnter_append hpre, if_pos (Nat.lt_succ_self _)]; rfl⟩

/-! ## The server -/

/-- What the slot does to the HTTP library. -/
inductive HttpEffect
  | serverStart (port : ℕ)
  | asyncCleanup
  deriving DecidableEq, Repr

/-- The port, and the standard input the slot reads. -/
structure MyHttpServerWorker where
  port : ℕ := 2333
  stdin : List UInt8
  deriving DecidableEq, Repr

/-- `none` is a slot that does not return: where the loop ends at all, a call for each byte and one
more are enough for it (`waitEnter_bound`), and the calls of the library all return.  What a slot
did is told when it returns; one that does not has started the server all the same. -/
def MyHttpServerWorker.slotStart (w : MyHttpServerWorker) :
    Option (MyHttpServerWorker × List HttpEffect) :=
  (waitEnter (w.stdin.length + 1) w.stdin).map fun stdin =>
    ({ w with stdin := stdin }, [.serverStart w.port, .asyncCleanup])

theorem waitEnter_bound (stdin : List UInt8) :
    (waitEnter (stdin.length + 1) stdin).isSome = true ↔
      ∃ calls, (waitEnter calls stdin).isSome = true := by
  refine ⟨fun h => ⟨_, h⟩, fun h => ?_⟩
  obtain ⟨pre, post, rfl, hpre⟩ := List.eq_append_cons_of_mem (waitEnter_isSome_iff.mp h)
  rw [waitEnter_append hpre, if_pos (by rw [List.length_append]; omega)]
  rfl

/-- The one signal of `MyHttpServer` a slot is connected to. -/
inductive MyHttpServerSignal
  | signalStart
  deriving DecidableEq, Repr

def myHttpServerSlots : Machine MyHttpServerWorker MyHttpServerSignal HttpEffect where
  step w
    | .signalStart => w.slotStart

/-- `start`, `stop` and the event loop of `m_workerThread`. -/
def myHttpServer : Machine (Hosted MyHttpServerWorker MyHttpServerSignal)
    (HostedInput MyHttpServerSignal) (MyHttpServerSignal × List HttpEffect) :=
  hosted myHttpServerSlots .signalStart

/-- The constructor, in a process with this standard input. -/
def newMyHttpServer (stdin : List UInt8) : Hosted MyHttpServerWorker MyHttpServerSignal :=
  { work := some { stdin := stdin } }

/-! ## The thread that takes up `signalStart` -/

/-- The server after its first `start`. -/
def startedMyHttpServer (stdin : List UInt8) : Hosted MyHttpServerWorker MyHttpServerSignal :=
  { work := some { stdin := stdin }, isRunning := true, posted := [.signalStart] }

theorem start_newMyHttpServer (stdin : List UInt8) :
    myHttpServer.step (newMyHttpServer stdin) .start = some (startedMyHttpServer stdin, []) := rfl

/-- With a newline ahead the slot returns, and the thread is back in its event loop. -/
theorem loop_of_mem {stdin : List UInt8} (h : 0x0A ∈ stdin) :
    ∃ rest, myHttpServer.step (startedMyHttpServer stdin) .loop =
      some ({ work := some { stdin := rest }, isRunning := true },
        [(.signalStart, [.serverStart 2333, .asyncCleanup])]) := by
  obtain ⟨rest, hends⟩ := Option.isSome_iff_exists.mp
    ((waitEnter_bound stdin).mpr (waitEnter_isSome_iff.mpr h))
  exact ⟨rest, by simp [myHttpServer, startedMyHttpServer, hosted, myHttpServerSlots,
    MyHttpServerWorker.slotStart, hends]⟩

/-- Without one the thread stays in the slot. -/
theorem loop_of_notMem {stdin : List UInt8} (h : 0x0A ∉ stdin) :
    myHttpServer.step (startedMyHttpServer stdin) .loop =
      some ({ work := some { stdin := stdin }, isRunning := true, blocked := true }, []) := by
  simp [myHttpServer, startedMyHttpServer, hosted, myHttpServerSlots,
    MyHttpServerWorker.slotStart, waitEnter_eq_none h]

/-- **The wait ends**: the loop does, after some number of calls; and in the thread that took up
`signalStart` the slot runs to its end, `cleanup` included, and a `stop` completes. -/
def WaitEnds (stdin : List UInt8) : Prop :=
  (∃ calls, (waitEnter calls stdin).isSome = true) ∧
    ∃ h s, myHttpServer.exec (newMyHttpServer stdin) [.start, .loop, .stop] = some (h, s) ∧
      emitted h = [(.signalStart, [.serverStart 2333, .asyncCleanup])] ∧ s.isRunning = false

/-- **The wait ends exactly where standard input holds a newline.** -/
theorem wait_ends_iff (stdin : List UInt8) : WaitEnds stdin ↔ 0x0A ∈ stdin := by
  refine ⟨fun h => waitEnter_isSome_iff.mp h.1, fun h => ⟨waitEnter_isSome_iff.mpr h, ?_⟩⟩
  obtain ⟨rest, hloop⟩ := loop_of_mem h
  have hstop : myHttpServer.step { work := some { stdin := rest }, isRunning := true } .stop
      = some ({ work := none }, []) := rfl
  simp [Machine.exec, start_newMyHttpServer, hloop, hstop, emitted]

/-- With standard input closed, as in a program without a console, it does not. -/
theorem never_ends_at_eof : ¬ WaitEnds [] ∧
    myHttpServer.exec (newMyHttpServer []) [.start, .loop, .stop] = none := by
  refine ⟨fun h => ?_, by decide⟩
  obtain ⟨calls, hends⟩ := h.1
  rw [waitEnter_nil] at hends
  exact absurd hends (by decide)

/-- **Without a newline no `stop` returns** once the slot has been taken up, whatever happens after;
no slot returns, so nothing is emitted — though the server runs by then — and `cleanup` is not
reached. -/
theorem stop_never_returns {stdin : List UInt8} (h : 0x0A ∉ stdin) :
    ∃ h₀ s, myHttpServer.Run (newMyHttpServer stdin) h₀ s ∧
      h₀.map (·.input) = [.start, .loop] ∧
      ∀ h' s', myHttpServer.Run s h' s' →
        emitted (h₀ ++ h') = [] ∧ myHttpServer.step s' .stop = none := by
  refine ⟨_, _, (Machine.Run.single (start_newMyHttpServer stdin)).append
    (.single (loop_of_notMem h)), rfl, fun h' s' hr' => ?_⟩
  obtain ⟨-, hemit, hstop⟩ := blocked_of_run hr' ⟨rfl, rfl⟩
  exact ⟨by rw [emitted_append, hemit]; rfl, hstop⟩

/-! ## A newline for each start -/

/-- The newlines in an input. -/
def newlines (stdin : List UInt8) : ℕ := stdin.count 0x0A

/-- The slot that returns uses up one newline… -/
theorem newlines_of_slotStart {w w' : MyHttpServerWorker} {out : List HttpEffect}
    (hs : w.slotStart = some (w', out)) : newlines w.stdin = newlines w'.stdin + 1 := by
  obtain ⟨rest, hends, hr⟩ := Option.map_eq_some_iff.mp hs
  obtain ⟨rfl, -⟩ := Prod.mk.inj hr
  have hmem : 0x0A ∈ w.stdin := by
    by_contra hnone
    simp [waitEnter_eq_none hnone] at hends
  obtain ⟨pre, post, hsplit, hpre⟩ := List.eq_append_cons_of_mem hmem
  rw [hsplit, waitEnter_append hpre] at hends
  split at hends
  · obtain rfl := Option.some.inj hends
    simp [newlines, hsplit, List.count_eq_zero.mpr hpre]
  · simp at hends

/-- …and the one that does not has found none. -/
theorem newlines_of_slotStart_eq_none {w : MyHttpServerWorker} (hs : w.slotStart = none) :
    newlines w.stdin = 0 := by
  refine List.count_eq_zero.mpr fun hmem => ?_
  have hends := (waitEnter_bound w.stdin).mpr (waitEnter_isSome_iff.mpr hmem)
  rw [Option.isSome_iff_exists] at hends
  obtain ⟨rest, hends⟩ := hends
  simp [MyHttpServerWorker.slotStart, hends] at hs

abbrev MyHttpServerEntry := HostedEntry MyHttpServerWorker MyHttpServerSignal HttpEffect

section Starts

variable {stdin : List UInt8} {h : List MyHttpServerEntry}
  {s : Hosted MyHttpServerWorker MyHttpServerSignal}

/-- **The newlines are those used up and those ahead**; a thread that is stuck has none ahead. -/
theorem newlines_of_run (hr : myHttpServer.Run (newMyHttpServer stdin) h s) {w : MyHttpServerWorker}
    (hw : s.work = some w) : newlines stdin = (returned h).length + newlines w.stdin ∧
      (s.blocked = true → newlines w.stdin = 0) := by
  induction hr generalizing w with
  | nil =>
    obtain rfl : { stdin := stdin } = w := Option.some.inj hw
    simp [returned, newMyHttpServer]
  | @snoc h t u i out hr hs ih =>
    rw [returned_append, List.length_append]
    cases hostedStep_of_step hs with
    | start => simpa [returned] using ih (by simpa using hw)
    | stop => simp at hw
    | idle => simpa [returned] using ih hw
    | emit => simpa [returned] using ih (by simpa using hw)
    | @served v v' call posted out hfree hv _ hslot =>
      obtain rfl : v' = w := Option.some.inj hw
      have hone := newlines_of_slotStart (show v.slotStart = some (v', out) from hslot)
      have hbefore := (ih hv).1
      refine ⟨?_, by simp [hfree]⟩
      simp only [returned, emitted_singleton, List.map_singleton, List.length_singleton]
        at hbefore ⊢
      omega
    | @stuck v call posted _ hv _ hslot =>
      obtain rfl : v = w := Option.some.inj (hv.symm.trans hw)
      have hzero := newlines_of_slotStart_eq_none (show v.slotStart = none from hslot)
      exact ⟨by simpa [returned] using (ih hv).1, fun _ => hzero⟩

/-- **Every start needs a newline of its own.**  Once the event loop has nothing left to take up, or
is stuck in a slot, the slot has returned for as many starts as there are newlines, and no more; a
`stop` returns exactly if there were enough of them. -/
theorem starts_need_newlines (hr : myHttpServer.Run (newMyHttpServer stdin) h s)
    (hun : Unstopped h) (hidle : s.blocked = true ∨ s.posted = []) :
    (returned h).length = min (postedCalls .signalStart h).length (newlines stdin) ∧
      (myHttpServer.step s .stop ≠ none ↔
        (postedCalls .signalStart h).length ≤ newlines stdin) := by
  have hsome := (isSome_work_iff hr).1.mpr hun
  obtain ⟨w, hw⟩ := Option.isSome_iff_exists.mp hsome
  obtain ⟨hspent, hnone⟩ := newlines_of_run hr hw
  obtain ⟨stuck, hcalls, hlen, hrun⟩ := postedCalls_of_run hr hsome
  have hcount := congrArg List.length hcalls
  rw [List.length_append, List.length_append, hlen] at hcount
  cases hb : s.blocked with
  | true =>
    rw [hb, Bool.toNat_true] at hcount
    have hzero := hnone hb
    have hstuck : myHttpServer.step s .stop = none := by simp [myHttpServer, hosted, hrun hb, hb]
    rw [hstuck]
    simp only [ne_eq, not_true_eq_false, false_iff]
    omega
  | false =>
    have hempty : s.posted = [] := hidle.resolve_left (by simp [hb])
    rw [hb, hempty, Bool.toNat_false, List.length_nil] at hcount
    have hfree : myHttpServer.step s .stop ≠ none := by
      cases hrunning : s.isRunning <;> simp [myHttpServer, hosted, hrunning, hb]
    refine ⟨by omega, iff_of_true hfree (by omega)⟩

/-- Two starts and one newline. -/
theorem starts_need_newlines_run : ∃ h s,
    myHttpServer.Run (newMyHttpServer [0x41, 0x0A, 0x42]) h s ∧
    h.map (·.input) = [.start, .start, .loop, .loop] ∧ (returned h).length = 1 ∧
    myHttpServer.step s .stop = none := by
  obtain ⟨h, s, hr, hinputs, hun, hblocked⟩ := Machine.exists_run (M := myHttpServer)
    (s := newMyHttpServer [0x41, 0x0A, 0x42]) [.start, .start, .loop, .loop]
    (P := fun h s => h.map (·.input) = [.start, .start, .loop, .loop] ∧ Unstopped h ∧
      s.blocked = true ∧ (postedCalls .signalStart h).length = 2) (by decide)
  obtain ⟨hreturned, hstop⟩ := starts_need_newlines hr hun (Or.inl hblocked.1)
  refine ⟨h, s, hr, hinputs, by rw [hreturned, hblocked.2]; decide, ?_⟩
  by_contra hne
  exact absurd (hstop.mp hne) (by rw [hblocked.2]; decide)

end Starts

end UtisDevice
