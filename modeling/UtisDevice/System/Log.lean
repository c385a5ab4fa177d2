import UtisDevice.Machinery.Flow
import UtisDevice.System.Projection

/-!
# System/Log — what the log says is so

The log and the rows are fed through one queue, and the worker posts a device's text right before
its result.  So unless a result is the next thing to be taken up, the rows show what the log last
said of their devices (`log_agrees`); and the commands the log reports are those that went out, in
order, up to the reports still on their way (`bus_logged`).  The window's own texts — the count, the
clicks, what is wrong with `cfg.ini` — are never mistaken for either.
-/

namespace UtisDevice

open Machinery UtisDeviceWorker

/-! ## What is shown

Texts are shown when a notice is taken up, and when a row is clicked; the log keeps them until it is
cleared or typed over. -/

/-- The text a notice carries. -/
def Notice.msg? : Notice → Option String
  | showMsg msg => some msg
  | signalAddDevResult _ _ => none

/-- The notice a step of the program takes up. -/
def heard (e : ApplicationEntry) : List Notice :=
  match e.input with
  | .deliver => e.pre.notices.head?.toList
  | _ => []

/-- The text a step of the program shows. -/
def shown (e : ApplicationEntry) : List String :=
  match e.input with
  | .openBtn row => ((e.pre.widget.click row).map Prod.fst).toList
  | _ => (heard e).filterMap Notice.msg?

/-- The texts shown, those of start-up first. -/
def messages (s₀ : Application) (h : List ApplicationEntry) : List String :=
  s₀.history ++ h.flatMap shown

/-- What some texts last said of a device. -/
def lastVerdict? (devType : String) (msgs : List String) : Option Bool :=
  (msgs.filterMap (verdict? devType)).getLast?

/-- What happens to the worker from outside shows nothing by itself. -/
theorem heard_of_outer {e : ApplicationEntry} {wi : WorkerInput} (hi : e.input.outer = some wi) :
    heard e = [] ∧ shown e = [] := by
  obtain ⟨pre, i, out, post⟩ := e
  cases i <;> simp [ApplicationInput.outer] at hi <;> exact ⟨rfl, rfl⟩

section Run

variable {s₀ s : Application} {h : List ApplicationEntry}

/-- What is posted is what the worker emits, step by step. -/
theorem notices_emitted (h : List ApplicationEntry) :
    notices (emitted h) = h.flatMap fun e => notices e.out := by
  rw [emitted, notices, List.filterMap_flatMap]
  rfl

/-- **No notice is lost, repeated or reordered.** -/
theorem notices_flow (hr : application.Run s₀ h s) :
    s₀.notices ++ notices (emitted h) = h.flatMap heard ++ s.notices := by
  rw [notices_emitted]
  refine hr.flow (·.notices) (fun e => notices e.out) heard fun {t i u out} _ hs => ?_
  cases advance_of_step hs with
  | openBtn => simp [heard, Application.showMsg]
  | clearBtn => simp [heard, Application.on_clearBtn_clicked]
  | edit => simp [heard]
  | timer => simp [heard, Application.timer]
  | process => simp [heard, Application.works]
  | @occur i wi w out hi =>
    rw [(heard_of_outer (e := ⟨t, i, out, (t.works (w, out)).1⟩) hi).1]
    simp [Application.works]
  | shown hnotices => simp [heard, hnotices, Application.showMsg]
  | answered hnotices => simp [heard, hnotices]

/-- **Unless it is typed over, the log holds the last of what was shown.** -/
theorem history_suffix (hr : application.Run s₀ h s)
    (hkept : ∀ e ∈ h, ∀ history, e.input ≠ .edit history) : s.history <:+ messages s₀ h := by
  induction hr with
  | nil => simp [messages]
  | @snoc h t u i out hr hs ih =>
    obtain ⟨gone, hgone⟩ := ih fun e he => hkept e (List.mem_append_left _ he)
    rw [messages, List.flatMap_append, List.flatMap_singleton, ← List.append_assoc]
    have hgrow : ∀ msgs, msgs = shown ⟨t, i, out, u⟩ →
        u.history = t.history ++ msgs →
        u.history <:+ s₀.history ++ h.flatMap shown ++ shown ⟨t, i, out, u⟩ := by
      rintro _ rfl hu
      exact ⟨gone, by rw [hu, ← List.append_assoc, hgone, messages]⟩
    cases advance_of_step hs with
    | openBtn hclick => exact hgrow [_] (by simp [shown, hclick]) rfl
    | clearBtn => exact List.nil_suffix
    | @edit history =>
      exact absurd rfl (hkept _ (List.mem_append_right _ (List.mem_singleton_self _)) history)
    | timer => exact hgrow [] rfl (by simp [Application.timer])
    | process => exact hgrow [] rfl (by simp [Application.works])
    | @occur i wi w out hi =>
      exact hgrow [] (heard_of_outer (e := ⟨t, i, out, (t.works (w, out)).1⟩) hi).2.symm
        (by simp [Application.works])
    | shown hnotices => exact hgrow [_] (by simp [shown, heard, hnotices, Notice.msg?]) rfl
    | answered hnotices =>
      exact hgrow [] (by simp [shown, heard, hnotices, Notice.msg?]) (by simp)

end Run

/-! ## The window's own texts

The count closes with a digit, a click with the index of its row, what is wrong with `cfg.ini` with
a star: none closes as a text of the worker does, so none is read as one. -/

/-- A text about no device and no command. -/
def Plain (msg : String) : Prop := closing msg ≠ some '】' ∧ closing msg ≠ some ']'

theorem plain_of_closing {msg : String} {c : Char} (hmsg : closing msg = some c)
    (hc : c ≠ '】' ∧ c ≠ ']') : Plain msg := by
  simpa [Plain, hmsg] using hc

/-- A plain text is read as saying nothing of a device… -/
theorem Plain.verdict?_eq_none {msg : String} (h : Plain msg) (t : String) :
    verdict? t msg = none := by
  cases hv : verdict? t msg with
  | none => rfl
  | some b => exact absurd (closing_of_verdict? hv) h.1

/-- …and nothing of a command. -/
theorem Plain.sent?_eq_none {msg : String} (h : Plain msg) : sent? msg = none := by
  cases hv : sent? msg with
  | none => rfl
  | some cmd => exact absurd (closing_of_sent? hv) h.2

/-- A click says which row it was. -/
theorem plain_of_click {w : Widget} {row : ℕ} {msg : String} {request : Request}
    (h : w.click row = some (msg, request)) : Plain msg := by
  obtain ⟨info, -, hr⟩ := Option.map_eq_some_iff.mp h
  obtain ⟨rfl, -⟩ := Prod.mk.inj hr
  exact plain_of_closing (closing_append _ (by decide : closing (toString (0 : ℕ)) = some '0'))
    (by decide)

/-- A count closes with a digit. -/
theorem plain_toString (count : ℤ) : Plain (toString count) := by
  have hnat : ∀ n : ℕ, ∃ c, closing (Nat.repr n) = some c ∧ c.isDigit = true := by
    intro n
    obtain ⟨c, hc⟩ := Option.ne_none_iff_exists'.mp
      (mt List.getLast?_eq_none_iff.mp (Nat.toDigits_ne_nil (n := n) (b := 10)))
    rw [closing, Nat.toList_repr]
    exact ⟨c, hc, Nat.isDigit_of_mem_toDigits (by decide) (by decide) (List.mem_of_getLast? hc)⟩
  have hdigit : ∃ c, closing (toString count) = some c ∧ c.isDigit = true := by
    cases count with
    | ofNat n => exact hnat n
    | negSucc n =>
      obtain ⟨c, hc, hd⟩ := hnat (n + 1)
      exact ⟨c, closing_append "-" hc, hd⟩
  obtain ⟨c, hc, hd⟩ := hdigit
  refine plain_of_closing hc ⟨?_, ?_⟩ <;> rintro rfl <;> exact absurd hd (by decide)

/-- What is wrong with `cfg.ini` is said between stars. -/
theorem plain_initCfg (w : Widget) (cfg : Option QSettings) :
    ∀ msg ∈ (w.initCfg cfg).2, Plain msg := by
  have hstar : ∀ {msg : String}, closing msg = some '*' → Plain msg := fun h =>
    plain_of_closing h (by decide)
  cases cfg with
  | none => simpa [Widget.initCfg] using hstar (by decide)
  | some settings =>
    simp only [Widget.initCfg]
    split
    · simpa using hstar (by decide)
    · simp

section Init

variable {count : ℤ} {cfg : Option QSettings} {s₀ s : Application} {h : List ApplicationEntry}

/-- **All start-up shows is plain.** -/
theorem plain_init (hinit : Application.init count cfg = some s₀) :
    ∀ msg ∈ s₀.history, Plain msg := by
  obtain ⟨r, hr, rfl⟩ := Option.map_eq_some_iff.mp hinit
  obtain ⟨requests, -, rfl⟩ := Option.map_eq_some_iff.mp hr
  intro msg hmsg
  rcases List.mem_append.mp hmsg with hmsg | hmsg
  · exact plain_initCfg _ _ msg hmsg
  · rw [List.mem_singleton.mp hmsg]
    exact plain_toString _

theorem filterMap_plain {β : Type} {f : String → Option β} (hf : ∀ msg, Plain msg → f msg = none)
    {msgs : List String} (h : ∀ msg ∈ msgs, Plain msg) : msgs.filterMap f = [] :=
  List.filterMap_eq_nil_iff.mpr fun msg hmsg => hf msg (h msg hmsg)

/-- **What a text of the worker says, no text of the window says.** -/
theorem messages_filterMap {β : Type} {f : String → Option β} (hf : ∀ msg, Plain msg → f msg = none)
    (hinit : Application.init count cfg = some s₀) (h : List ApplicationEntry) :
    (messages s₀ h).filterMap f = ((h.flatMap heard).filterMap Notice.msg?).filterMap f := by
  rw [messages, List.filterMap_append, filterMap_plain hf (plain_init hinit), List.nil_append,
    List.filterMap_flatMap, List.filterMap_flatMap, List.filterMap_flatMap]
  refine List.flatMap_congr fun e _ => ?_
  obtain ⟨pre, i, out, post⟩ := e
  cases i with
  | openBtn row =>
    rw [show heard ⟨pre, .openBtn row, out, post⟩ = [] from rfl]
    refine filterMap_plain hf fun msg hmsg => ?_
    obtain ⟨⟨msg', request⟩, hclick, rfl⟩ :=
      Option.map_eq_some_iff.mp (Option.mem_toList.mp hmsg)
    exact plain_of_click hclick
  | clearBtn => rfl
  | edit history => rfl
  | timer => rfl
  | process => rfl
  | timeout => rfl
  | datagram d => rfl
  | slotReadyRead => rfl
  | deliver => rfl

end Init

/-! ## A text before every result

The queue of notices is one of pairs, a text and its result, with single texts in between; cut
anywhere but inside a pair, its texts say of each device what its results say. -/

/-- **Every result follows the text that announces it.** -/
inductive Announced : List Notice → Prop
  | nil : Announced []
  | result {notices : List Notice} {devType msg : String} {success : Bool}
      (hmsg : ∀ t, verdict? t msg = if t = devType then some success else none)
      (hrest : Announced notices) :
      Announced (.showMsg msg :: .signalAddDevResult devType success :: notices)
  | note {notices : List Notice} {msg : String} (hmsg : ∀ t, verdict? t msg = none)
      (hrest : Announced notices) : Announced (.showMsg msg :: notices)

namespace Announced

theorem append {l r : List Notice} (hl : Announced l) (hr : Announced r) : Announced (l ++ r) := by
  induction hl with
  | nil => exact hr
  | result hmsg _ ih => exact .result hmsg ih
  | note hmsg _ ih => exact .note hmsg ih

/-- A part that does not end between a text and its result. -/
theorem of_append {l r x : List Notice} (hx : Announced x) (hsplit : x = l ++ r)
    (hnext : r.head?.bind Notice.result? = none) : Announced l := by
  induction hx generalizing l with
  | nil => rw [(List.nil_eq_append_iff.mp hsplit).1]; exact .nil
  | @result notices t msg success hmsg _ ih =>
    match l with
    | [] => exact .nil
    | [_] =>
      obtain ⟨-, hr⟩ := List.cons.inj hsplit
      rw [← show _ :: notices = r from hr] at hnext
      simp [Notice.result?] at hnext
    | _ :: _ :: l =>
      obtain ⟨rfl, htail⟩ := List.cons.inj hsplit
      obtain ⟨rfl, hrest⟩ := List.cons.inj htail
      exact .result hmsg (ih hrest)
  | note hmsg _ ih =>
    cases l with
    | nil => exact .nil
    | cons _ l =>
      obtain ⟨rfl, hrest⟩ := List.cons.inj hsplit
      exact .note hmsg (ih hrest)

/-- **The texts say what the results say.** -/
theorem verdicts {l : List Notice} (h : Announced l) (t : String) :
    (l.filterMap Notice.msg?).filterMap (verdict? t) = valuesOf t (l.filterMap Notice.result?) := by
  induction h with
  | nil => rfl
  | @result notices t' msg success hmsg _ ih =>
    rw [valuesOf] at ih ⊢
    by_cases ht : t = t'
    · subst ht
      simpa [List.filterMap_cons, Notice.msg?, Notice.result?, hmsg] using ih
    · simpa [List.filterMap_cons, Notice.msg?, Notice.result?, hmsg, ht, Ne.symm ht] using ih
  | @note notices msg hmsg _ ih =>
    simpa [Notice.msg?, Notice.result?, List.filterMap_cons, hmsg] using ih

end Announced

/-- What one step of the worker says, it announces. -/
theorem Spoken.announced {out : List Effect} (h : Spoken out) : Announced (notices out) := by
  cases h with
  | silent => exact .nil
  | verdict hmsg => exact .result hmsg .nil
  | sent cmd =>
    refine .note (fun t => ?_) .nil
    cases hv : verdict? t (sentText cmd) with
    | none => rfl
    | some b => simpa using closing_of_verdict? hv
  | ready => exact .nil

/-- What a text says was sent was sent. -/
theorem Spoken.sent_eq {out : List Effect} (h : Spoken out) (hbus : ∀ e ∈ out, e.ToBus) :
    ((notices out).filterMap Notice.msg?).filterMap sent? = commands out := by
  cases h with
  | silent => rfl
  | @verdict t msg success hmsg =>
    have hnone : sent? msg = none := by
      cases hv : sent? msg with
      | none => rfl
      | some cmd =>
        have hown := closing_of_verdict? ((hmsg t).trans (if_pos rfl))
        rw [closing_of_sent? hv] at hown
        simp at hown
    simp [notices, List.filterMap_cons, Effect.notice?, Notice.msg?, hnone, commands,
      Effect.command?]
  | sent cmd host port =>
    have hcmd := sent?_sentText (hbus _ List.mem_cons_self).1
    simp [notices, List.filterMap_cons, Effect.notice?, Notice.msg?, hcmd, commands,
      Effect.command?]
  | ready => rfl

/-! ## The log, the rows and the bus

What was emitted is what was heard and what waits; so what holds of all that was emitted comes down
to the rows and the log. -/

section Agree

variable {count : ℤ} {cfg : Option QSettings} {s₀ s s' : Application} {i : ApplicationInput}
  {out : List Effect} {h : List ApplicationEntry}

/-- A step of the program says what one step of the worker may. -/
theorem spoken_of_advance (hk : Kept s) (hs : Advance s i s' out) : Spoken out := by
  cases hs with
  | process _ hslot => exact spoken_of_slot hk.registered hslot
  | occur _ hw => exact spoken_step hk.registered hw
  | openBtn => exact .silent
  | clearBtn => exact .silent
  | edit => exact .silent
  | timer => exact .silent
  | shown => exact .silent
  | answered => exact .silent

/-- **In a run every result is announced.** -/
theorem announced_of_run (hinit : Application.init count cfg = some s₀)
    (hr : application.Run s₀ h s) : Announced (notices (emitted h)) := by
  induction hr with
  | nil => exact .nil
  | @snoc h t u i out hr hs ih =>
    rw [emitted_append, emitted_singleton, notices_append]
    exact ih.append (spoken_of_advance (kept_of_run hinit hr) (advance_of_step hs)).announced

theorem notices_init (hinit : Application.init count cfg = some s₀) : s₀.notices = [] := by
  obtain ⟨r, -, rfl⟩ := Option.map_eq_some_iff.mp hinit
  rfl

/-- All that was posted was heard or waits. -/
theorem heard_of_run (hinit : Application.init count cfg = some s₀)
    (hr : application.Run s₀ h s) : notices (emitted h) = h.flatMap heard ++ s.notices := by
  rw [← notices_flow hr, notices_init hinit, List.nil_append]

/-- The results the rows were set to are those heard. -/
theorem delivered_threads (hinit : Application.init count cfg = some s₀)
    (hr : application.Run s₀ h s) :
    delivered (h.filterMap threadsEntry) = (h.flatMap heard).filterMap Notice.result? := by
  have hemitted := emitted_eq (threads_of_application hinit hr)
  rw [emitted_threads hinit hr, results_eq, heard_of_run hinit hr, List.filterMap_append]
    at hemitted
  exact (List.append_cancel_right hemitted).symm

/-- What the end of the texts last said of a device, all of them did. -/
theorem lastVerdict?_of_suffix {t : String} {b : Bool} {msgs msgs' : List String}
    (h : msgs' <:+ msgs) (hb : lastVerdict? t msgs' = some b) : lastVerdict? t msgs = some b := by
  obtain ⟨gone, rfl⟩ := h
  rw [lastVerdict?] at hb ⊢
  rw [List.filterMap_append, List.getLast?_append, hb, Option.some_or]

/-- **The rows show what the log last said.**  Unless the next notice to be taken up is a result,
every row shows the last verdict on its device among the texts shown, and offline if there is none;
so it shows the last verdict in the log, where the log was cleared but not typed over. -/
theorem log_agrees (hinit : Application.init count cfg = some s₀) (hr : application.Run s₀ h s)
    (hnext : s.notices.head?.bind Notice.result? = none) :
    s.widget.rows = s₀.names.map (fun n => (n, (lastVerdict? n (messages s₀ h)).getD false)) ∧
    ((∀ e ∈ h, ∀ history, e.input ≠ .edit history) → ∀ n ∈ s₀.names, ∀ b,
      lastVerdict? n s.history = some b → (n, b) ∈ s.widget.rows) := by
  have hheard := (announced_of_run hinit hr).of_append (heard_of_run hinit hr) hnext
  have hlatest : ∀ n, latest false n (delivered (h.filterMap threadsEntry)) =
      (lastVerdict? n (messages s₀ h)).getD false := fun n => by
    rw [latest_eq_getLast?, delivered_threads hinit hr, ← hheard.verdicts n, lastVerdict?,
      messages_filterMap (fun msg hmsg => hmsg.verdict?_eq_none n) hinit]
  have hrows : s.widget.rows =
      s₀.names.map fun n => (n, (lastVerdict? n (messages s₀ h)).getD false) := by
    simp only [← hlatest]
    exact rows_eq (threads_of_application hinit hr)
  refine ⟨hrows, fun hkept n hn b hb => ?_⟩
  rw [hrows]
  refine List.mem_map.mpr ⟨n, hn, ?_⟩
  rw [lastVerdict?_of_suffix (history_suffix hr hkept) hb, Option.getD_some]

/-- A device added, closed and refused, with the log cleared before the last two. -/
theorem log_agrees_run : ∃ h s, application.Run (.ofNames ["RD3000B", "RD3000C"]) h s ∧
    s.history = ["关闭设备【RD3000B】"] ∧ s.widget.rows = [("RD3000B", false), ("RD3000C", false)] ∧
    s.widget.rows = ["RD3000B", "RD3000C"].map fun n =>
      (n, (lastVerdict? n (messages (.ofNames ["RD3000B", "RD3000C"]) h)).getD false) := by
  obtain ⟨h, s, hr, hnext, hhistory, hrows⟩ := Machine.exists_run (M := application)
    (s := .ofNames ["RD3000B", "RD3000C"])
    [.process, .process, .process, .deliver, .deliver, .deliver, .deliver, .openBtn 0, .process,
      .clearBtn, .deliver, .deliver]
    (P := fun _ s => s.notices.head?.bind Notice.result? = none ∧
      s.history = ["关闭设备【RD3000B】"] ∧
      s.widget.rows = [("RD3000B", false), ("RD3000C", false)]) (by decide)
  obtain ⟨hagree, -⟩ := log_agrees (Application.init_ofNames 0 _) hr hnext
  exact ⟨h, s, hr, hhistory, hrows, by simpa using hagree⟩

/-- The texts emitted report the commands emitted. -/
theorem sent_of_run (hinit : Application.init count cfg = some s₀) (hr : application.Run s₀ h s)
    (hbus : ∀ e ∈ emitted h, e.ToBus) :
    ((notices (emitted h)).filterMap Notice.msg?).filterMap sent? = commands (emitted h) := by
  induction hr with
  | nil => rfl
  | @snoc h t u i out hr hs ih =>
    rw [emitted_append, emitted_singleton] at hbus ⊢
    have hspoken := spoken_of_advance (kept_of_run hinit hr) (advance_of_step hs)
    rw [notices_append, List.filterMap_append, List.filterMap_append, commands_append,
      ih fun e he => hbus e (List.mem_append_left _ he),
      hspoken.sent_eq fun e he => hbus e (List.mem_append_right _ he)]

/-- **The log reports what went out**: the commands its texts report, and those the texts still on
their way report, are the commands written to the socket, in order. -/
theorem bus_logged (hinit : Application.init count cfg = some s₀) (hr : application.Run s₀ h s) :
    commands (emitted h) =
      (messages s₀ h).filterMap sent? ++ (s.notices.filterMap Notice.msg?).filterMap sent? := by
  have hbus := (written_of_run (worker_of_application hinit hr)).2
  rw [emitted_started hinit hr] at hbus
  rw [← sent_of_run hinit hr hbus, heard_of_run hinit hr, List.filterMap_append,
    List.filterMap_append, messages_filterMap (fun msg hmsg => hmsg.sent?_eq_none) hinit]

/-- Two commands sent, one of them reported. -/
theorem bus_logged_run : ∃ h s, application.Run (.ofNames ["MWS600", "VD920G"]) h s ∧
    (messages (.ofNames ["MWS600", "VD920G"]) h).filterMap sent? = [cmdMWS600Read] ∧
    commands (emitted h) = (messages (.ofNames ["MWS600", "VD920G"]) h).filterMap sent? ++
      (s.notices.filterMap Notice.msg?).filterMap sent? := by
  obtain ⟨h, s, hr, hreported⟩ := Machine.exists_run (M := application)
    (s := .ofNames ["MWS600", "VD920G"])
    [.process, .process, .process, .timer, .process, .timeout, .timeout, .openBtn 0, .deliver,
      .deliver, .deliver, .deliver, .deliver]
    (P := fun h _ => (messages (.ofNames ["MWS600", "VD920G"]) h).filterMap sent? =
      [cmdMWS600Read]) (by decide)
  exact ⟨h, s, hr, hreported, bus_logged (Application.init_ofNames 0 _) hr⟩

end Agree

end UtisDevice
