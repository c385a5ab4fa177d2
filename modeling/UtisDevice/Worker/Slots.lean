import UtisDevice.Machinery.Machine
import UtisDevice.Device.Model

/-!
# Worker/Slots — `utisDeviceWorker`, slot by slot

The worker's state and its slots, translated line by line: what a slot emits or writes to the
socket comes out as a list of effects, in order.  `worker` is the machine the slots make once
`slotStart` has run, with two inputs that come from outside: the timeout of the command timer, which
a stopped timer does not give, and a datagram the network delivers to the socket.
-/

namespace UtisDevice

open Machinery

/-! ## State and effects -/

/-- `QTimer`, as far as the worker sees it. -/
structure QTimer where
  interval : ℕ := 0
  isActive : Bool := false
  deriving DecidableEq, Repr

/-- A bound `QUdpSocket`: the datagrams that have arrived and wait to be read. -/
structure QUdpSocket where
  localPort : ℕ
  pendingDatagrams : List QByteArray := []
  deriving DecidableEq, Repr

/-- What a slot does to the outside. -/
inductive Effect
  | showMsg (msg : String)
  | signalLatestDataReady (data : String)
  | signalAddDevResult (devType : String) (success : Bool)
  | writeDatagram (datagram : QByteArray) (host : String) (port : ℕ)
  deriving DecidableEq, Repr

/-- The members of `utisDeviceWorker` its slots use, without the prefix `m_`; the timer stands for
the object `initTimer` creates. -/
structure UtisDeviceWorker where
  udpClient : Option QUdpSocket := none
  localPort : ℕ := 8899
  destPort : ℕ := 8899
  destIp : String := "192.168.1.85"
  dataGram : QByteArray := []
  onlineDev : List AShuErDevive := []
  timer : QTimer := {}
  cmdList : List QByteArray := []
  cmdInterval : ℕ := 500
  deriving DecidableEq, Repr

namespace UtisDeviceWorker

/-! ## Start-up -/

def initUdpClient (w : UtisDeviceWorker) : UtisDeviceWorker :=
  { w with udpClient := some { localPort := w.localPort } }

def initTimer (w : UtisDeviceWorker) : UtisDeviceWorker :=
  { w with timer := { interval := w.cmdInterval } }

def slotStart (w : UtisDeviceWorker) : UtisDeviceWorker :=
  w.initUdpClient.initTimer

/-- A worker as its constructor makes it and `slotStart` leaves it. -/
def startUp : UtisDeviceWorker := slotStart {}

/-! ## Polling -/

/-- The lambda `initTimer` connects to `QTimer::timeout`.  It does not look at what `writeDatagram`
answers: a command that is not sent is told and reported like one that is. -/
def timeout (w : UtisDeviceWorker) : UtisDeviceWorker × List Effect :=
  match w.udpClient, w.cmdList with
  | some _, cmd :: cmds =>
    ({ w with cmdList := cmds },
      [.writeDatagram cmd w.destIp w.destPort, .showMsg ("发送命令[" ++ toQString cmd ++ "]")])
  | _, _ =>
    ({ w with timer := { w.timer with isActive := false } },
      [.signalLatestDataReady "signalLatestDataReady"])

def getLatestData (w : UtisDeviceWorker) : UtisDeviceWorker :=
  if w.timer.isActive then w
  else
    { w with
      cmdList := w.onlineDev.foldl (fun cmds dev => cmds ++ [dev.getCmd]) w.cmdList
      timer := { w.timer with isActive := true } }

def slotGetLatestData (w : UtisDeviceWorker) : UtisDeviceWorker :=
  w.getLatestData

/-! ## The registry -/

/-- The `foreach` of `allow2Create`: it returns at the first clash. -/
def allow2CreateLoop (dev : AShuErDevive) : List AShuErDevive → Bool
  | [] => true
  | devive :: devs =>
    if devive.geteAShuErDevType == dev.geteAShuErDevType
        || devive.geteDeviceCategory == dev.geteDeviceCategory then
      false
    else allow2CreateLoop dev devs

def allow2Create (w : UtisDeviceWorker) : Option AShuErDevive → Bool
  | none => false
  | some dev => allow2CreateLoop dev w.onlineDev

def slotAddDev (w : UtisDeviceWorker) (devType : String) : UtisDeviceWorker × List Effect :=
  if !isvalid devType then (w, [])
  else
    let dev := AShuErDevive.new devType
    if w.allow2Create dev then
      ({ w with onlineDev := w.onlineDev ++ [dev] },
        [.showMsg ("添加成功，设备【" ++ dev.geteAShuErDevTypeStr ++ "】"),
          .signalAddDevResult devType true])
    else
      (w, [.showMsg ("添加失败，设备【" ++ dev.geteAShuErDevTypeStr ++ "】"),
        .signalAddDevResult devType false])

/-- The loop of `slotDelDev` from index `i`, on the list as the deletions before left it.  `none` is
an `at(i)` out of range, or a loop that has not ended after `fuel` rounds. -/
def slotDelDevLoop (devType : String) :
    ℕ → ℕ → List AShuErDevive → Option (List AShuErDevive × List Effect)
  | 0, _, _ => none
  | fuel + 1, i, devs =>
    if i < devs.length then
      match devs[i]? with
      | none => none
      | some dev =>
        if dev.geteAShuErDevTypeStr = devType then
          (slotDelDevLoop devType fuel (i + 1) (devs.eraseIdx i)).map fun r =>
            (r.1, [.showMsg ("关闭设备【" ++ devType ++ "】"), .signalAddDevResult devType false]
              ++ r.2)
        else slotDelDevLoop devType fuel (i + 1) devs
    else some (devs, [])

def slotDelDev (w : UtisDeviceWorker) (devType : String) :
    Option (UtisDeviceWorker × List Effect) :=
  if !isvalid devType then some (w, [])
  else
    (slotDelDevLoop devType (w.onlineDev.length + 1) 0 w.onlineDev).map fun r =>
      ({ w with onlineDev := r.1 }, r.2)

/-! ## Receiving -/

/-- The loop of `slotReadyRead`, over the datagrams the socket has pending. -/
def readPending (dataGram : QByteArray) : List QByteArray → QByteArray
  | [] => dataGram
  | d :: ds => readPending (dataGram ++ d) ds

/-- `none` is a call through the null socket of a worker that was not started. -/
def slotReadyRead (w : UtisDeviceWorker) : Option UtisDeviceWorker :=
  w.udpClient.map fun socket =>
    { w with
      dataGram := readPending [] socket.pendingDatagrams
      udpClient := some { socket with pendingDatagrams := [] } }

/-- The network delivers a datagram to the socket. -/
def arrive (w : UtisDeviceWorker) (d : QByteArray) : Option UtisDeviceWorker :=
  w.udpClient.map fun socket =>
    { w with
      udpClient := some { socket with pendingDatagrams := socket.pendingDatagrams ++ [d] } }

end UtisDeviceWorker

/-! ## The machine -/

open UtisDeviceWorker

inductive WorkerInput
  | slotAddDev (devType : String)
  | slotDelDev (devType : String)
  | slotGetLatestData
  | timeout
  | datagram (d : QByteArray)
  | slotReadyRead
  deriving DecidableEq, Repr

/-- The started worker: any slot may be called at any time, and the timer times out only while it is
active. -/
def worker : Machine UtisDeviceWorker WorkerInput Effect where
  step w
    | .slotAddDev devType => some (w.slotAddDev devType)
    | .slotDelDev devType => w.slotDelDev devType
    | .slotGetLatestData => some (w.slotGetLatestData, [])
    | .timeout => if w.timer.isActive then some w.timeout else none
    | .datagram d => (w.arrive d).map fun w' => (w', [])
    | .slotReadyRead => w.slotReadyRead.map fun w' => (w', [])

abbrev WorkerEntry := Entry UtisDeviceWorker WorkerInput Effect

/-! ## What a run leaves behind -/

/-- The result a `signalAddDevResult` carries. -/
def Effect.result? : Effect → Option (String × Bool)
  | .signalAddDevResult devType success => some (devType, success)
  | _ => none

/-- The command a `writeDatagram` sends. -/
def Effect.command? : Effect → Option QByteArray
  | .writeDatagram datagram _ _ => some datagram
  | _ => none

def Effect.isReady : Effect → Bool
  | .signalLatestDataReady _ => true
  | _ => false

/-- The `signalAddDevResult` emissions among some effects, in order. -/
def results (out : List Effect) : List (String × Bool) := out.filterMap Effect.result?

/-- The commands passed to `writeDatagram`, in order. -/
def commands (out : List Effect) : List QByteArray := out.filterMap Effect.command?

/-- The number of `signalLatestDataReady` emissions. -/
def readies (out : List Effect) : ℕ := out.countP Effect.isReady

@[simp] theorem results_nil : results [] = [] := rfl
@[simp] theorem commands_nil : commands [] = [] := rfl
@[simp] theorem readies_nil : readies [] = 0 := rfl

@[simp] theorem results_append (o o' : List Effect) : results (o ++ o') = results o ++ results o' :=
  List.filterMap_append

@[simp] theorem commands_append (o o' : List Effect) :
    commands (o ++ o') = commands o ++ commands o' := List.filterMap_append

@[simp] theorem readies_append (o o' : List Effect) : readies (o ++ o') = readies o + readies o' :=
  List.countP_append

/-! ## One lemma per slot -/

namespace UtisDeviceWorker

variable {w w' : UtisDeviceWorker} {devType : String} {out : List Effect}

theorem allow2CreateLoop_eq (dev : AShuErDevive) : ∀ devs : List AShuErDevive,
    allow2CreateLoop dev devs = devs.all fun d => !AShuErDevive.isExclusion (some d) (some dev)
  | [] => rfl
  | d :: devs => by
    rw [allow2CreateLoop, allow2CreateLoop_eq dev devs, List.all_cons]
    simp only [AShuErDevive.geteAShuErDevType, AShuErDevive.geteDeviceCategory,
      AShuErDevive.isExclusion, Bool.or_comm]
    split <;> rename_i h <;> simp [h]

/-- **`allow2Create` is `isExclusion` against every device online**, though it repeats the rule
rather than calling it. -/
theorem allow2Create_eq_true {dev : AShuErDevive} : w.allow2Create (some dev) = true ↔
    ∀ d ∈ w.onlineDev, AShuErDevive.isExclusion (some d) (some dev) = false := by
  simp [allow2Create, allow2CreateLoop_eq]

/-- **All `slotAddDev` can do**: nothing, admit the device, or refuse it. -/
theorem slotAddDev_cases (w : UtisDeviceWorker) (devType : String) :
    (isvalid devType = false ∧ (w.slotAddDev devType).1 = w ∧
      results (w.slotAddDev devType).2 = []) ∨
    (isvalid devType = true ∧ w.allow2Create (some (.new devType)) = true ∧
      (w.slotAddDev devType).1 = { w with onlineDev := w.onlineDev ++ [.new devType] } ∧
      results (w.slotAddDev devType).2 = [(devType, true)]) ∨
    (isvalid devType = true ∧ w.allow2Create (some (.new devType)) = false ∧
      (w.slotAddDev devType).1 = w ∧ results (w.slotAddDev devType).2 = [(devType, false)]) := by
  cases hv : isvalid devType with
  | false => exact Or.inl ⟨rfl, by simp [slotAddDev, hv]⟩
  | true =>
    cases ha : w.allow2Create (some (.new devType)) with
    | false => exact Or.inr (Or.inr ⟨rfl, rfl, by
        simp [slotAddDev, hv, ha, results, Effect.result?, List.filterMap_cons]⟩)
    | true => exact Or.inr (Or.inl ⟨rfl, rfl, by
        simp [slotAddDev, hv, ha, results, Effect.result?, List.filterMap_cons]⟩)

theorem slotAddDev_silent (w : UtisDeviceWorker) (devType : String) :
    commands (w.slotAddDev devType).2 = [] ∧ readies (w.slotAddDev devType).2 = 0 := by
  unfold slotAddDev
  split
  · exact ⟨rfl, rfl⟩
  · dsimp only
    split <;> exact ⟨rfl, rfl⟩

/-- What `slotDelDev` emits for each device it takes out. -/
def closed (devType : String) : List Effect :=
  [.showMsg ("关闭设备【" ++ devType ++ "】"), .signalAddDevResult devType false]

/-- The test of the deletion loop. -/
def named (devType : String) (dev : AShuErDevive) : Bool :=
  decide (dev.geteAShuErDevTypeStr = devType)

@[simp] theorem named_eq_true {dev : AShuErDevive} :
    named devType dev = true ↔ dev.devTypeStr = devType := decide_eq_true_iff

@[simp] theorem named_eq_false {dev : AShuErDevive} :
    named devType dev = false ↔ dev.devTypeStr ≠ devType := decide_eq_false_iff_not

/-- The loop ends in range, having stepped over what slid into a deleted position.  The list is cut
at the index: `kept` is behind the loop, `devs` still ahead of it. -/
theorem slotDelDevLoop_eq (devType : String) (devs : List AShuErDevive) :
    ∀ (fuel : ℕ) (kept : List AShuErDevive), devs.length < fuel →
      slotDelDevLoop devType fuel kept.length (kept ++ devs)
        = some (kept ++ (eraseSkip (named devType) devs).1,
            (eraseSkip (named devType) devs).2.flatMap fun _ => closed devType) := by
  induction devs using eraseSkip.induct (p := named devType) with
  | case1 =>
    intro fuel kept hfuel
    obtain ⟨fuel, rfl⟩ := Nat.exists_eq_succ_of_ne_zero (Nat.ne_of_gt hfuel)
    rw [eraseSkip.eq_def]
    simp [slotDelDevLoop]
  | case2 dev hdev =>
    intro fuel kept hfuel
    obtain ⟨fuel, rfl⟩ : ∃ f, fuel = f + 2 := ⟨fuel - 2, by simp at hfuel; omega⟩
    have hname : dev.geteAShuErDevTypeStr = devType := named_eq_true.mp hdev
    rw [eraseSkip_singleton_of_pos hdev]
    simp [slotDelDevLoop, hname, closed, List.eraseIdx_append_of_length_le]
  | case3 dev hdev next devs ih =>
    intro fuel kept hfuel
    obtain ⟨fuel, rfl⟩ := Nat.exists_eq_succ_of_ne_zero (Nat.ne_of_gt (Nat.zero_lt_of_lt hfuel))
    have hname : dev.geteAShuErDevTypeStr = devType := named_eq_true.mp hdev
    have hrest := ih fuel (kept ++ [next]) (by simp at hfuel; omega)
    rw [List.length_append, List.length_singleton, List.append_assoc, List.singleton_append]
      at hrest
    rw [eraseSkip_cons_cons_of_pos hdev]
    simp [slotDelDevLoop, hname, closed, List.eraseIdx_append_of_length_le, hrest]
  | case4 dev devs hdev ih =>
    intro fuel kept hfuel
    obtain ⟨fuel, rfl⟩ := Nat.exists_eq_succ_of_ne_zero (Nat.ne_of_gt (Nat.zero_lt_of_lt hfuel))
    have hname : ¬ dev.geteAShuErDevTypeStr = devType := fun hn => hdev (named_eq_true.mpr hn)
    have hrest := ih fuel (kept ++ [dev]) (by simp at hfuel; omega)
    rw [List.length_append, List.length_singleton, List.append_assoc, List.singleton_append]
      at hrest
    rw [eraseSkip_cons_of_neg (by simpa using hdev)]
    simp [slotDelDevLoop, hname, hrest]

/-- **`slotDelDev` ends in range on every registry**, and is the deletion loop. -/
theorem slotDelDev_eq (h : isvalid devType = true) : w.slotDelDev devType = some
    ({ w with onlineDev := (eraseSkip (named devType) w.onlineDev).1 },
      (eraseSkip (named devType) w.onlineDev).2.flatMap fun _ => closed devType) := by
  have key := slotDelDevLoop_eq devType w.onlineDev (w.onlineDev.length + 1) []
    (Nat.lt_succ_self _)
  rw [List.nil_append, List.length_nil] at key
  simp [slotDelDev, h, key]

theorem slotDelDev_of_invalid (h : isvalid devType = false) :
    w.slotDelDev devType = some (w, []) := by simp [slotDelDev, h]

theorem slotDelDev_silent (h : w.slotDelDev devType = some (w', out)) :
    (∃ devs, w' = { w with onlineDev := devs }) ∧ commands out = [] ∧ readies out = 0 := by
  cases hv : isvalid devType with
  | false =>
    obtain ⟨rfl, rfl⟩ : w = w' ∧ [] = out := by simpa [slotDelDev_of_invalid hv] using h
    exact ⟨⟨_, rfl⟩, rfl, rfl⟩
  | true =>
    rw [slotDelDev_eq hv, Option.some.injEq, Prod.mk.injEq] at h
    obtain ⟨rfl, rfl⟩ := h
    refine ⟨⟨_, rfl⟩, ?_⟩
    induction (eraseSkip (named devType) w.onlineDev).2 with
    | nil => exact ⟨rfl, rfl⟩
    | cons _ _ ih =>
      rw [List.flatMap_cons, commands_append, readies_append, ih.1, ih.2]
      exact ⟨rfl, rfl⟩

theorem slotGetLatestData_of_active (h : w.timer.isActive = true) : w.slotGetLatestData = w := by
  simp [slotGetLatestData, getLatestData, h]

/-- A poll that finds the timer stopped queues the command of every device online, in order. -/
theorem slotGetLatestData_of_inactive (h : w.timer.isActive = false) :
    w.slotGetLatestData =
      { w with
        cmdList := w.cmdList ++ w.onlineDev.map AShuErDevive.getCmd
        timer := { w.timer with isActive := true } } := by
  have hfold : ∀ (devs : List AShuErDevive) (cmds : List QByteArray),
      devs.foldl (fun cmds dev => cmds ++ [dev.getCmd]) cmds
        = cmds ++ devs.map AShuErDevive.getCmd := by
    intro devs
    induction devs with
    | nil => simp
    | cons dev devs ih => intro cmds; simp [ih]
  simp [slotGetLatestData, getLatestData, h, hfold]

theorem readPending_eq (dataGram : QByteArray) : ∀ ds : List QByteArray,
    readPending dataGram ds = dataGram ++ ds.flatten
  | [] => by simp [readPending]
  | d :: ds => by rw [readPending, readPending_eq _ ds, List.flatten_cons, List.append_assoc]

end UtisDeviceWorker

/-- **All a step of the worker can do.**  The slots touch disjoint parts of it: the registry, the
queue and the timer, the receive store. -/
theorem worker_cases {w w' : UtisDeviceWorker} {i : WorkerInput} {out : List Effect}
    (h : worker.step w i = some (w', out)) :
    ((∃ t, i = .slotAddDev t ∨ i = .slotDelDev t) ∧ (∃ devs, w' = { w with onlineDev := devs }) ∧
      commands out = [] ∧ readies out = 0) ∨
    (i = .slotGetLatestData ∧ w' = w.slotGetLatestData ∧ out = []) ∨
    (i = .timeout ∧ w.timer.isActive = true ∧ w.timeout = (w', out)) ∨
    (∃ d socket, i = .datagram d ∧ w.udpClient = some socket ∧ w' = { w with
      udpClient := some { socket with pendingDatagrams := socket.pendingDatagrams ++ [d] } } ∧
      out = []) ∨
    (∃ socket, i = .slotReadyRead ∧ w.udpClient = some socket ∧ w' = { w with
      dataGram := socket.pendingDatagrams.flatten
      udpClient := some { socket with pendingDatagrams := [] } } ∧ out = []) := by
  cases i with
  | slotAddDev t =>
    obtain rfl : (w.slotAddDev t).1 = w' := congrArg Prod.fst (Option.some.inj h)
    obtain rfl : (w.slotAddDev t).2 = out := congrArg Prod.snd (Option.some.inj h)
    refine Or.inl ⟨⟨t, Or.inl rfl⟩, ?_, w.slotAddDev_silent t⟩
    obtain ⟨-, hw, -⟩ | ⟨-, -, hw, -⟩ | ⟨-, -, hw, -⟩ := w.slotAddDev_cases t <;> exact ⟨_, hw⟩
  | slotDelDev t => exact Or.inl ⟨⟨t, Or.inr rfl⟩, slotDelDev_silent h⟩
  | slotGetLatestData =>
    obtain ⟨rfl, rfl⟩ : w.slotGetLatestData = w' ∧ [] = out := by simpa [worker] using h
    exact Or.inr (Or.inl ⟨rfl, rfl, rfl⟩)
  | timeout =>
    obtain ⟨hactive, hw⟩ : w.timer.isActive = true ∧ w.timeout = (w', out) := by
      simpa [worker] using h
    exact Or.inr (Or.inr (Or.inl ⟨rfl, hactive, hw⟩))
  | datagram d =>
    obtain ⟨socket, hs, rfl, rfl⟩ := by simpa [worker, arrive] using h
    exact Or.inr (Or.inr (Or.inr (Or.inl ⟨d, socket, rfl, hs, rfl, rfl⟩)))
  | slotReadyRead =>
    obtain ⟨socket, hs, rfl, rfl⟩ := by simpa [worker, slotReadyRead, readPending_eq] using h
    exact Or.inr (Or.inr (Or.inr (Or.inr ⟨socket, rfl, hs, rfl, rfl⟩)))

end UtisDevice
