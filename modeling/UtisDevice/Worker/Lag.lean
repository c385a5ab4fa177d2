import UtisDevice.Worker.Addressing
import UtisDevice.Worker.Bus

/-!
# Worker/Lag — how long a closed device is still polled

    polled     d₁ d₂ d₃ │ d₁ d₃ │ …        at the accepted polls
    sent       d₁ d₂
    queued           d₃

What is sent is, device by device, what was polled, less the queue (`sentFor_append_queuedFor`).
A device closed in the middle of a round stays in the queue; but it is there once at most, and is
not polled again unless it is added again, so at most one command more is sent for it, and none
where it was closed between two rounds (`closed_polled_once`).
-/

namespace UtisDevice

open Machinery UtisDeviceWorker

/-! ## Device by device -/

/-- The devices sent for so far, and those queued. -/
def sendStep (r : List AShuErDevive × List AShuErDevive) (e : WorkerEntry) :
    List AShuErDevive × List AShuErDevive :=
  (if e.input = .timeout then r.1 ++ r.2.head?.toList else r.1, queueStep r.2 e)

/-- The devices commands were sent for, in order. -/
def sentFor (h : List WorkerEntry) : List AShuErDevive := (h.foldl sendStep ([], [])).1

/-- The devices online at the accepted polls, in order. -/
def polledFor (h : List WorkerEntry) : List AShuErDevive :=
  (h.filter accepts).flatMap fun e => e.pre.onlineDev

theorem foldl_sendStep_snd (h : List WorkerEntry) :
    (h.foldl sendStep ([], [])).2 = queuedFor h := by
  induction h using List.reverseRecOn with
  | nil => rfl
  | append_singleton h e ih =>
    rw [List.foldl_append, queuedFor_concat, ← ih]
    rfl

@[simp] theorem sentFor_concat (h : List WorkerEntry) (e : WorkerEntry) : sentFor (h ++ [e]) =
    if e.input = .timeout then sentFor h ++ (queuedFor h).head?.toList else sentFor h := by
  rw [← foldl_sendStep_snd, sentFor, List.foldl_append]
  rfl

@[simp] theorem polledFor_append (h h' : List WorkerEntry) :
    polledFor (h ++ h') = polledFor h ++ polledFor h' := by simp [polledFor]

/-- **What was polled is sent or queued.** -/
theorem sentFor_append_queuedFor (h : List WorkerEntry) :
    sentFor h ++ queuedFor h = polledFor h := by
  induction h using List.reverseRecOn with
  | nil => rfl
  | append_singleton h e ih =>
    rw [sentFor_concat, queuedFor_concat, polledFor_append, ← ih]
    obtain ⟨w, i, out, w'⟩ := e
    cases i with
    | slotGetLatestData =>
      cases ha : w.timer.isActive <;> simp [queueStep, polledFor, accepts, ha]
    | timeout =>
      cases hq : queuedFor h <;> simp [queueStep, polledFor, accepts]
    | slotAddDev t => simp [queueStep, polledFor, accepts]
    | slotDelDev t => simp [queueStep, polledFor, accepts]
    | datagram d => simp [queueStep, polledFor, accepts]
    | slotReadyRead => simp [queueStep, polledFor, accepts]

section Lag

variable {h h' : List WorkerEntry} {w : UtisDeviceWorker} {n : String}

theorem polledFor_map_getCmd (h : List WorkerEntry) :
    (polledFor h).map AShuErDevive.getCmd = (snapshots h).flatten := by
  rw [polledFor, snapshots, List.map_flatMap, ← List.flatMap_def]
  rfl

/-- **The commands sent are those of the devices.** -/
theorem commands_sentFor (hr : worker.Run startUp h w) :
    commands (emitted h) = (sentFor h).map AShuErDevive.getCmd := by
  have hsent := (sent_append_cmdList hr).trans (polledFor_map_getCmd h).symm
  rw [← sentFor_append_queuedFor, List.map_append, ← cmdList_eq hr] at hsent
  exact List.append_cancel_right hsent

/-- No name is there twice. -/
theorem Registered.countP_named_le {devs : List AShuErDevive} (hreg : Registered devs)
    (n : String) : devs.countP (named n) ≤ 1 := by
  refine hreg.exclusive.countP_le_one fun d hd d' hd' hn hn' => ?_
  rw [hreg.eq_of_name hd hd' ((named_eq_true.mp hn).trans (named_eq_true.mp hn').symm)]

/-! ## A device that is closed -/

theorem notMem_online_of_slotDelDev {w' : UtisDeviceWorker} {out : List Effect}
    (hreg : Registered w.onlineDev) (hs : w.slotDelDev n = some (w', out)) : n ∉ w'.online := by
  obtain ⟨hn, hnone⟩ | ⟨-, u, o, hsome, honline, -⟩ := delDev_registered hreg n
  · obtain ⟨rfl, -⟩ := Prod.mk.inj (Option.some.inj (hs.symm.trans hnone))
    exact hn
  · obtain ⟨rfl, -⟩ := Prod.mk.inj (Option.some.inj (hs.symm.trans hsome))
    simp [honline]

/-- It stays closed, unless it is added. -/
theorem notMem_online_step {w' : UtisDeviceWorker} {i : WorkerInput} {out : List Effect}
    (hreg : Registered w.onlineDev) (hn : n ∉ w.online) (hs : worker.step w i = some (w', out))
    (hi : i ≠ .slotAddDev n) : n ∉ w'.online := by
  obtain ⟨⟨t, rfl | rfl⟩, -⟩ | ⟨-, rfl, -⟩ | ⟨-, -, ht⟩ | ⟨d, socket, -, -, rfl, -⟩ |
    ⟨socket, -, -, rfl, -⟩ := worker_cases hs
  · obtain rfl : (w.slotAddDev t).1 = w' := congrArg Prod.fst (Option.some.inj hs)
    obtain ⟨-, hw, -⟩ | ⟨-, -, hw, -⟩ | ⟨-, -, hw, -⟩ := addDev_registered hreg t
    · rwa [hw]
    · rw [hw, List.mem_append, List.mem_singleton, not_or]
      exact ⟨hn, fun h => hi (by rw [h])⟩
    · rwa [hw]
  · obtain ⟨-, hnone⟩ | ⟨-, u, o, hsome, honline, -⟩ := delDev_registered hreg t
    · obtain ⟨rfl, -⟩ := Prod.mk.inj (Option.some.inj (hs.symm.trans hnone))
      exact hn
    · obtain ⟨rfl, -⟩ := Prod.mk.inj (Option.some.inj (hs.symm.trans hsome))
      rw [honline]
      exact fun h => hn (List.mem_of_mem_filter h)
  · rw [slotGetLatestData, getLatestData]
    split <;> exact hn
  · rw [UtisDeviceWorker.timeout] at ht
    split at ht <;> · obtain ⟨rfl, -⟩ := Prod.mk.inj ht; exact hn
  · exact hn
  · exact hn

/-- A device that stays closed is not polled. -/
theorem countP_polledFor {w' : UtisDeviceWorker} (hr : worker.Run w h w')
    (hreg : Registered w.onlineDev) (hn : n ∉ w.online) (hno : ∀ e ∈ h, e.input ≠ .slotAddDev n) :
    (Registered w'.onlineDev ∧ n ∉ w'.online) ∧ (polledFor h).countP (named n) = 0 := by
  induction hr with
  | nil => exact ⟨⟨hreg, hn⟩, rfl⟩
  | @snoc h t u i out hr hs ih =>
    obtain ⟨⟨hregt, hnt⟩, hzero⟩ := ih fun e he => hno e (List.mem_append_left _ he)
    refine ⟨⟨registered_step hregt hs,
      notMem_online_step hregt hnt hs (hno ⟨t, i, out, u⟩ (by simp))⟩, ?_⟩
    have hnone : t.onlineDev.countP (named n) = 0 := by
      rw [List.countP_eq_length_filter, (filter_named_of_notMem_online hnt).2, List.length_nil]
    rw [polledFor_append, List.countP_append, hzero, Nat.zero_add]
    cases ha : accepts ⟨t, i, out, u⟩ <;> simp [polledFor, ha, hnone]

/-- **A closed device is polled once more at most.**  From when it is closed, until it is added
again, no more than one command is sent for it, and none if no round was out. -/
theorem closed_polled_once {a : WorkerEntry} (hr : worker.Run startUp (h ++ a :: h') w)
    (ha : a.input = .slotDelDev n) (hno : ∀ e ∈ h', e.input ≠ .slotAddDev n) :
    commands (emitted (h ++ a :: h')) = (sentFor (h ++ a :: h')).map AShuErDevive.getCmd ∧
    (sentFor (h ++ a :: h')).countP (named n)
      ≤ (sentFor h).countP (named n) + a.pre.timer.isActive.toNat := by
  refine ⟨commands_sentFor hr, ?_⟩
  obtain ⟨hpre, hs, hpost⟩ := hr.step_at
  have hreg := registered_of_run hpre
  have hclosed : n ∉ a.post.online := notMem_online_of_slotDelDev hreg (ha ▸ hs)
  obtain ⟨-, hzero⟩ := countP_polledFor hpost (registered_step hreg hs) hclosed hno
  have hskip : polledFor [a] = [] := by simp [polledFor, accepts, ha]
  -- what is polled from then on is not it, so what is sent was polled before
  have hpolled : (polledFor (h ++ a :: h')).countP (named n) = (polledFor h).countP (named n) := by
    rw [← List.singleton_append, polledFor_append, polledFor_append, hskip, List.nil_append,
      List.countP_append, hzero, Nat.add_zero]
  rw [← sentFor_append_queuedFor, ← sentFor_append_queuedFor, List.countP_append,
    List.countP_append] at hpolled
  have hqueue : (queuedFor h).countP (named n) ≤ a.pre.timer.isActive.toNat := by
    cases hactive : a.pre.timer.isActive with
    | true => exact (registered_queuedFor hpre).countP_named_le n
    | false =>
      rw [queuedFor_of_inactive hpre hactive]
      exact le_refl 0
  omega

/-- Closed before its command was sent, and polled no more in the next round. -/
theorem closed_polled_once_run : ∃ h a h' w, worker.Run startUp (h ++ a :: h') w ∧
    a.input = .slotDelDev "VD920G" ∧ (sentFor h).countP (named "VD920G") = 0 ∧
    (sentFor (h ++ a :: h')).map (·.devTypeStr) = ["MWS600", "VD920G", "MWS600"] ∧
    (sentFor (h ++ a :: h')).countP (named "VD920G") ≤ 0 + a.pre.timer.isActive.toNat := by
  obtain ⟨h, w, hr, hinput, hno, hbefore, hsent⟩ := Machine.exists_run (M := worker) (s := startUp)
    [.slotAddDev "MWS600", .slotAddDev "VD920G", .slotGetLatestData, .slotDelDev "VD920G",
      .timeout, .timeout, .timeout, .slotGetLatestData, .timeout, .timeout]
    (P := fun h _ => (h.drop 3).head?.map (·.input) = some (.slotDelDev "VD920G") ∧
      (∀ e ∈ (h.drop 3).tail, e.input ≠ .slotAddDev "VD920G") ∧
      (sentFor (h.take 3)).countP (named "VD920G") = 0 ∧
      (sentFor h).map (·.devTypeStr) = ["MWS600", "VD920G", "MWS600"]) (by decide)
  obtain ⟨a, ha, hinput⟩ := Option.map_eq_some_iff.mp hinput
  obtain ⟨h', hdrop⟩ := List.head?_eq_some_iff.mp ha
  rw [← List.take_append_drop 3 h, hdrop] at hr hsent
  rw [hdrop, List.tail_cons] at hno
  have hlag := (closed_polled_once hr hinput hno).2
  rw [hbefore] at hlag
  exact ⟨h.take 3, a, h', w, hr, hinput, hbefore, hsent, hlag⟩

end Lag

end UtisDevice
