import UtisDevice.Machinery.Pieces
import UtisDevice.Worker.Polling

/-!
# Worker/Receive — the receive store is the last batch read

`slotReadyRead` empties `m_dataGram` before it reads what is pending.  Datagrams are read whole,
once and in the order they arrived (`arrivals_eq_of_run`), and the store is the concatenation of the
last batch read (`dataGram_of_run`): of the replies of a round a report finds those of the last
`slotReadyRead`, and the earlier ones only if they were empty (`round_replies`).
-/

namespace UtisDevice

open Machinery UtisDeviceWorker

/-! ## Arrivals and batches -/

/-- The datagrams that wait to be read. -/
def pending (w : UtisDeviceWorker) : List QByteArray :=
  (w.udpClient.map (·.pendingDatagrams)).getD []

def arrival? (e : WorkerEntry) : Option QByteArray :=
  match e.input with
  | .datagram d => some d
  | _ => none

def batch? (e : WorkerEntry) : Option (List QByteArray) :=
  match e.input with
  | .slotReadyRead => some (pending e.pre)
  | _ => none

/-- The datagrams the network delivered, in order. -/
def arrivals (h : List WorkerEntry) : List QByteArray := h.filterMap arrival?

/-- What each `slotReadyRead` read, call by call. -/
def batches (h : List WorkerEntry) : List (List QByteArray) := h.filterMap batch?

@[simp] theorem arrivals_append (h h' : List WorkerEntry) :
    arrivals (h ++ h') = arrivals h ++ arrivals h' := List.filterMap_append

@[simp] theorem batches_append (h h' : List WorkerEntry) :
    batches (h ++ h') = batches h ++ batches h' := List.filterMap_append

/-- **All a step can do to the receiving side**: nothing, take in a datagram, or read what is
pending. -/
theorem receive_cases {e : WorkerEntry}
    (hw : Started e.pre) (hs : worker.step e.pre e.input = some (e.post, e.out)) :
    (arrivals [e] = [] ∧ batches [e] = [] ∧ pending e.post = pending e.pre ∧
      e.post.dataGram = e.pre.dataGram) ∨
    (∃ d, arrivals [e] = [d] ∧ batches [e] = [] ∧ pending e.post = pending e.pre ++ [d] ∧
      e.post.dataGram = e.pre.dataGram) ∨
    (arrivals [e] = [] ∧ batches [e] = [pending e.pre] ∧ pending e.post = [] ∧
      e.post.dataGram = (pending e.pre).flatten) := by
  obtain ⟨⟨t, ht⟩, ⟨devs, hpost⟩, -⟩ | ⟨hi, hpost, -⟩ | ⟨hi, -, ht⟩ |
    ⟨d, socket, hi, hsocket, hpost, -⟩ | ⟨socket, hi, hsocket, hpost, -⟩ := worker_cases hs
  · rcases ht with hi | hi <;>
    exact Or.inl (by simp [arrivals, batches, arrival?, batch?, hi, hpost, pending])
  · refine Or.inl ⟨by simp [arrivals, arrival?, hi], by simp [batches, batch?, hi], ?_⟩
    rw [hpost]
    unfold slotGetLatestData getLatestData
    split <;> exact ⟨rfl, rfl⟩
  · refine Or.inl ⟨by simp [arrivals, arrival?, hi], by simp [batches, batch?, hi], ?_⟩
    obtain ⟨cmd, cmds, -, hpost, -⟩ | ⟨-, hpost, -⟩ := timeout_cases hw ht <;>
    simp [hpost, pending]
  · exact Or.inr (Or.inl ⟨d, by
      simp [arrivals, batches, arrival?, batch?, hi, hpost, pending, hsocket]⟩)
  · exact Or.inr (Or.inr (by
      simp [arrivals, batches, arrival?, batch?, hi, hpost, pending, hsocket]))

variable {w₀ w : UtisDeviceWorker} {h : List WorkerEntry}

/-- **No datagram is lost before it is read, and none is read out of order.** -/
theorem arrivals_eq_of_run (h₀ : worker.Reaches startUp w₀) (hr : worker.Run w₀ h w) :
    pending w₀ ++ arrivals h = (batches h).flatten ++ pending w := by
  induction hr with
  | nil => simp [arrivals, batches]
  | @snoc h t u i out hr hs ih =>
    have hw : Started t := started_of_reaches (h₀.trans hr.reaches)
    rw [arrivals_append, batches_append, ← List.append_assoc, ih, List.flatten_append]
    obtain ⟨ha, hb, hp, -⟩ | ⟨d, ha, hb, hp, -⟩ | ⟨ha, hb, hp, -⟩ := 
      receive_cases (e := ⟨t, i, out, u⟩) hw hs <;>
    simp [ha, hb, hp]

/-- **The store is the last batch read**, or what it was. -/
theorem dataGram_of_run (h₀ : worker.Reaches startUp w₀) (hr : worker.Run w₀ h w) :
    w.dataGram = ((batches h).getLast?.map List.flatten).getD w₀.dataGram := by
  induction hr with
  | nil => rfl
  | @snoc h t u i out hr hs ih =>
    have hw : Started t := started_of_reaches (h₀.trans hr.reaches)
    rw [batches_append]
    obtain ⟨-, hb, -, hd⟩ | ⟨d, -, hb, -, hd⟩ | ⟨-, hb, -, hd⟩ :=
      receive_cases (e := ⟨t, i, out, u⟩) hw hs
    · rw [hb, List.append_nil, hd, ih]
    · rw [hb, List.append_nil, hd, ih]
    · rw [hb, hd]
      simp

/-! ## The replies of a round -/

/-- Neither an accepted poll nor a report touches the receiving side. -/
theorem receive_of_accepts {e : WorkerEntry} (hs : worker.step e.pre e.input = some (e.post, e.out))
    (ha : accepts e = true) : pending e.post = pending e.pre := by
  rw [post_of_accepts ha hs]
  rfl

theorem receive_of_report {e : WorkerEntry} (hw : Started e.pre)
    (hs : worker.step e.pre e.input = some (e.post, e.out)) (ht : 0 < readies e.out) :
    arrivals [e] = [] ∧ batches [e] = [] := by
  obtain ⟨hi, -, -⟩ := readies_pos_inv hw hs ht
  simp [arrivals, batches, arrival?, batch?, hi]

/-- **A report finds the last batch of its round.**  The datagrams read since the poll was accepted
are those that had arrived, in order; the store is the last batch of them, and holds them all
exactly when every batch before it read only empty ones — so a round read in one `slotReadyRead` is
kept whole. -/
theorem round_replies {pre mid : List WorkerEntry} {a t : WorkerEntry}
    (hr : worker.Run startUp (pre ++ a :: (mid ++ [t])) w) (ha : accepts a = true)
    (ht : 0 < readies t.out) :
    pending a.pre ++ arrivals mid = (batches mid).flatten ++ pending w ∧
    (∀ b ∈ (batches mid).getLast?, w.dataGram = b.flatten) ∧
    (Holds w.dataGram (batches mid).flatten ↔
      ∀ b ∈ (batches mid).dropLast, ∀ d ∈ b, d = []) := by
  obtain ⟨hpre, hsa, hround⟩ := hr.step_at
  obtain ⟨hmid, hst, -⟩ := hround.snoc_inv
  have hstart : worker.Reaches startUp a.post := hpre.reaches.trans (.of_step hsa)
  have hwt : Started t.pre := started_of_reaches (hstart.trans hmid.reaches)
  obtain ⟨hnone, hunread⟩ := receive_of_report hwt (hround.snoc_inv.2.2 ▸ hst) ht
  have horder := arrivals_eq_of_run hstart hround
  have hstore := dataGram_of_run hstart hround
  rw [arrivals_append, batches_append, hnone, hunread, List.append_nil, List.append_nil,
    receive_of_accepts hsa ha] at horder
  rw [batches_append, hunread, List.append_nil] at hstore
  have hlast : ∀ b ∈ (batches mid).getLast?, w.dataGram = b.flatten := by
    intro b hb
    rw [hstore, Option.mem_def.mp hb]
    rfl
  refine ⟨horder, hlast, ?_⟩
  cases hb : (batches mid).getLast? with
  | none =>
    rw [List.getLast?_eq_none_iff.mp hb]
    simp [Holds]
  | some b =>
    rw [hlast b hb]
    exact holds_getLast_iff hb

/-- Both replies of a round are pending when they are read. -/
theorem round_replies_run : ∃ pre a mid t w, worker.Run startUp (pre ++ a :: (mid ++ [t])) w ∧
    accepts a = true ∧ 0 < readies t.out ∧
    (batches mid).flatten = [bytes ":0110", bytes "0x 02 2.5"] ∧
    Holds w.dataGram (batches mid).flatten := by
  have hr : worker.Run startUp ([_, _] ++ _ :: ([_, _, _, _, _] ++ [_])) _ :=
    .of_exec (show worker.exec startUp
      [.slotAddDev "MWS600", .slotAddDev "RD3000C", .slotGetLatestData, .timeout, .timeout,
        .datagram (bytes ":0110"), .datagram (bytes "0x 02 2.5"), .slotReadyRead, .timeout]
      = some (_, _) from rfl)
  exact ⟨_, _, _, _, _, hr, rfl, by decide, by decide,
    (round_replies hr rfl (by decide)).2.2.mpr (by decide)⟩

/-- **A second batch of a round overwrites the first**: the weather station's reply is gone when the
round is reported. -/
theorem round_loses_reply : ∃ pre a mid t w, worker.Run startUp (pre ++ a :: (mid ++ [t])) w ∧
    accepts a = true ∧ (∀ e ∈ mid, readies e.out = 0) ∧ 0 < readies t.out ∧
    (batches mid).flatten = [bytes ":0110", bytes "0x 02 2.5"] ∧
    ¬ Holds w.dataGram (batches mid).flatten := by
  refine ⟨[_, _], _, [_, _, _, _, _, _], _, _, .of_exec (show worker.exec startUp
      [.slotAddDev "MWS600", .slotAddDev "RD3000C", .slotGetLatestData, .timeout,
        .datagram (bytes ":0110"), .slotReadyRead, .timeout, .datagram (bytes "0x 02 2.5"),
        .slotReadyRead, .timeout]
      = some (_, _) from rfl), rfl, by decide, by decide, by decide, fun hholds => ?_⟩
  -- fourteen bytes were read, and the store is nine long
  have hlen := hholds.length_le
  revert hlen
  decide

end UtisDevice
