import UtisDevice.Worker.Bus

/-!
# Worker/Messages — what the worker says of what it does

The worker tells the window about a device in a text before it reports the result, and about a
command after it has sent it.  The texts are told apart by how they close: `】` around the name of a
device, `]` around a command.  So a text can be read back: what it says of a device (`verdict?`), or
which command it says was sent (`sent?`).  All the worker says in one step is `Spoken`.
-/

namespace UtisDevice

open Machinery UtisDeviceWorker

/-! ## The texts

Each is something fixed around the name of a device or a command, so it determines what is in
between; what is fixed tells the kinds apart. -/

/-- `slotAddDev` has admitted the device. -/
def addedText (devType : String) : String := "添加成功，设备【" ++ devType ++ "】"

/-- `slotAddDev` has not. -/
def refusedText (devType : String) : String := "添加失败，设备【" ++ devType ++ "】"

/-- `slotDelDev` has taken it off. -/
def closedText (devType : String) : String := "关闭设备【" ++ devType ++ "】"

/-- A timeout has sent the command. -/
def sentText (cmd : QByteArray) : String := "发送命令[" ++ toQString cmd ++ "]"

/-- The character a text closes with. -/
def closing (msg : String) : Option Char := msg.toList.getLast?

/-- A text closes as its end does. -/
theorem closing_append (s : String) {t : String} {c : Char} (h : closing t = some c) :
    closing (s ++ t) = some c := by
  rw [closing] at h ⊢
  rw [String.toList_append, List.getLast?_append, h, Option.some_or]

/-- Texts that begin differently differ. -/
theorem between_ne {p p' : String} (k : ℕ) (hk : k ≤ p.toList.length) (hk' : k ≤ p'.toList.length)
    (h : p.toList.take k ≠ p'.toList.take k) (s q s' q' : String) :
    p ++ s ++ q ≠ p' ++ s' ++ q' := by
  intro heq
  have htake := congrArg (List.take k) (congrArg String.toList heq)
  simp only [String.toList_append, List.append_assoc, List.take_append_of_le_length hk,
    List.take_append_of_le_length hk'] at htake
  exact h htake

/-- Texts with the same around them differ in between. -/
theorem between_inj (p q : String) {s s' : String} : p ++ s ++ q = p ++ s' ++ q ↔ s = s' := by
  rw [String.append_left_inj, String.append_right_inj]

/-! ### How each closes -/

@[simp] theorem closing_addedText (t : String) : closing (addedText t) = some '】' :=
  closing_append _ (by decide)

@[simp] theorem closing_refusedText (t : String) : closing (refusedText t) = some '】' :=
  closing_append _ (by decide)

@[simp] theorem closing_closedText (t : String) : closing (closedText t) = some '】' :=
  closing_append _ (by decide)

@[simp] theorem closing_sentText (cmd : QByteArray) : closing (sentText cmd) = some ']' :=
  closing_append _ (by decide)

/-- The first three characters tell an admission from a refusal… -/
theorem addedText_ne_refusedText (t t' : String) : addedText t ≠ refusedText t' :=
  between_ne 3 (by decide) (by decide) (by decide) _ _ _ _

/-- …and the first one tells either from a device taken off. -/
theorem addedText_ne_closedText (t t' : String) : addedText t ≠ closedText t' :=
  between_ne 1 (by decide) (by decide) (by decide) _ _ _ _

theorem refusedText_ne_closedText (t t' : String) : refusedText t ≠ closedText t' :=
  between_ne 1 (by decide) (by decide) (by decide) _ _ _ _

/-! ## Reading them back

`verdict?` and `sent?` undo the texts: each answers for the texts of its own kind, with what was put
in, and for no other. -/

/-- What a text says of a device: that it is online, or not. -/
def verdict? (devType msg : String) : Option Bool :=
  if msg = addedText devType then some true
  else if msg = refusedText devType ∨ msg = closedText devType then some false
  else none

/-- The command a text says was sent. -/
def sent? (msg : String) : Option QByteArray := readCommands.find? fun cmd => msg = sentText cmd

/-- **An admission says of its device, and of no other, that it is online.** -/
theorem verdict?_addedText (t t' : String) :
    verdict? t' (addedText t) = if t' = t then some true else none := by
  have hinj : addedText t = addedText t' ↔ t' = t := (between_inj _ _).trans eq_comm
  rw [verdict?, if_neg (not_or.mpr ⟨addedText_ne_refusedText t t', addedText_ne_closedText t t'⟩)]
  exact if_congr hinj rfl rfl

/-- **A refusal says that it is not.** -/
theorem verdict?_refusedText (t t' : String) :
    verdict? t' (refusedText t) = if t' = t then some false else none := by
  have hinj : refusedText t = refusedText t' ↔ t' = t := (between_inj _ _).trans eq_comm
  rw [verdict?, if_neg (addedText_ne_refusedText t' t).symm]
  exact if_congr ((or_iff_left (refusedText_ne_closedText t t')).trans hinj) rfl rfl

/-- **So does a device taken off.** -/
theorem verdict?_closedText (t t' : String) :
    verdict? t' (closedText t) = if t' = t then some false else none := by
  have hinj : closedText t = closedText t' ↔ t' = t := (between_inj _ _).trans eq_comm
  rw [verdict?, if_neg (addedText_ne_closedText t' t).symm]
  exact if_congr ((or_iff_right (refusedText_ne_closedText t' t).symm).trans hinj) rfl rfl

/-- Only a text about a device says anything of one. -/
theorem closing_of_verdict? {t msg : String} {b : Bool} (h : verdict? t msg = some b) :
    closing msg = some '】' := by
  unfold verdict? at h
  split at h
  · rename_i hmsg; rw [hmsg, closing_addedText]
  · split at h
    · rename_i hmsg
      rcases hmsg with rfl | rfl
      · exact closing_refusedText t
      · exact closing_closedText t
    · simp at h

/-- Only a text about a command says that one was sent. -/
theorem closing_of_sent? {msg : String} {cmd : QByteArray} (h : sent? msg = some cmd) :
    closing msg = some ']' := by
  have hmsg := List.find?_some h
  rw [decide_eq_true_iff] at hmsg
  rw [hmsg, closing_sentText]

/-- **The report of a command of the table is read back as that command.** -/
theorem sent?_sentText {cmd : QByteArray} (hcmd : cmd ∈ readCommands) :
    sent? (sentText cmd) = some cmd := by
  revert cmd
  decide

/-! ## All it says

Slot by slot: a text about a device comes with a result right behind it, a text about a command
right behind the command. -/

/-- **What one step of the worker emits**: nothing, a device's text and then its result, a command
and then its text, or the end of a round. -/
inductive Spoken : List Effect → Prop
  | silent : Spoken []
  | verdict {devType msg : String} {success : Bool}
      (hmsg : ∀ t, verdict? t msg = if t = devType then some success else none) :
      Spoken [.showMsg msg, .signalAddDevResult devType success]
  | sent (cmd : QByteArray) (host : String) (port : ℕ) :
      Spoken [.writeDatagram cmd host port, .showMsg (sentText cmd)]
  | ready (data : String) : Spoken [.signalLatestDataReady data]

section Spoken

variable {w w' : UtisDeviceWorker} {wi : WorkerInput} {out : List Effect}

/-- An add that is not ignored says and answers the same. -/
theorem spoken_slotAddDev (w : UtisDeviceWorker) (t : String) : Spoken (w.slotAddDev t).2 := by
  unfold slotAddDev
  split
  · exact .silent
  · dsimp only
    split
    · exact .verdict (verdict?_addedText t)
    · exact .verdict (verdict?_refusedText t)

/-- A delete finds one device of the name at most, so it says one text at most. -/
theorem spoken_slotDelDev (hw : Registered w.onlineDev) {t : String}
    (hs : w.slotDelDev t = some (w', out)) : Spoken out := by
  rw [slotDelDev_of_registered hw] at hs
  obtain ⟨-, rfl⟩ := Prod.mk.inj (Option.some.inj hs)
  by_cases ht : t ∈ w.online
  · obtain ⟨d, hd⟩ := filter_named_of_mem_online hw ht
    rw [hd, List.flatMap_singleton]
    exact .verdict (verdict?_closedText t)
  · rw [(filter_named_of_notMem_online ht).2]
    exact .silent

/-- A timeout sends and reports, or ends the round. -/
theorem spoken_timeout (w : UtisDeviceWorker) : Spoken w.timeout.2 := by
  unfold UtisDeviceWorker.timeout
  split
  · exact .sent _ _ _
  · exact .ready _

/-- **Whatever the worker does, it says no more than that.** -/
theorem spoken_step (hw : Registered w.onlineDev) (hs : worker.step w wi = some (w', out)) :
    Spoken out := by
  cases wi with
  | slotAddDev t =>
    obtain rfl : (w.slotAddDev t).2 = out := congrArg Prod.snd (Option.some.inj hs)
    exact spoken_slotAddDev w t
  | slotDelDev t => exact spoken_slotDelDev hw hs
  | slotGetLatestData =>
    obtain rfl : [] = out := congrArg Prod.snd (Option.some.inj hs)
    exact .silent
  | timeout =>
    simp only [worker] at hs
    split at hs
    · obtain rfl : w.timeout.2 = out := congrArg Prod.snd (Option.some.inj hs)
      exact spoken_timeout w
    · simp at hs
  | datagram d =>
    obtain ⟨_, -, hr⟩ := Option.map_eq_some_iff.mp hs
    obtain ⟨-, rfl⟩ := Prod.mk.inj hr
    exact .silent
  | slotReadyRead =>
    obtain ⟨_, -, hr⟩ := Option.map_eq_some_iff.mp hs
    obtain ⟨-, rfl⟩ := Prod.mk.inj hr
    exact .silent

end Spoken

end UtisDevice
