import UtisDevice.Worker.Ownership

/-!
# Worker/Addressing — one poll per bus unit and round

The header assigns each category a unit on the bus: `:01…` the weather station, `… 02` the road
surface, `… 03` the visibility.  The registry has at most one device of each category online, so a
round would poll each unit at most once — were the command of every model addressed to the unit of
its category.  `getCmd` answers `RD3000B` with the command of `MWS600`: it is the one model whose
command goes to another unit (`carriesUnitAddress_iff`), and a run polls as declared exactly when it
never gets to poll one (`pollsAsDeclared_iff`).
-/

namespace UtisDevice

open Machinery UtisDeviceWorker

/-! ## Unit addresses -/

/-- A command is addressed to the unit of a category. -/
def CarriesUnitAddress (category : EDeviceCategory) (cmd : QByteArray) : Prop :=
  match category with
  | .qiXiangZhan => bytes ":01" <+: cmd
  | .luMian => bytes " 02\r\n" <:+ cmd
  | .nengJianDu => bytes " 03\r\n" <:+ cmd
  | .eDeviceCategoryError => False

instance (category : EDeviceCategory) (cmd : QByteArray) :
    Decidable (CarriesUnitAddress category cmd) := by
  cases category <;> unfold CarriesUnitAddress <;> infer_instance

/-- The command the header declares for each model. -/
def declaredCmd : EAShuErDevType → QByteArray
  | .MWS600 => cmdMWS600Read
  | .RD3000B => cmdRD3000BRead
  | .RD3000C => cmdRD3000CRead
  | .VD920G => cmdVD920GRead
  | .VD930A => cmdVD930ARead
  | .eAShuErDevTypeError => bytes "-1"

/-- **The command table and the header differ on one model.** -/
theorem getCmdOf_eq_declaredCmd (t : EAShuErDevType) :
    getCmdOf t = declaredCmd t ↔ t ≠ .RD3000B := by cases t <;> decide

/-- The declared commands carry the unit address of their category. -/
theorem carriesUnitAddress_declaredCmd {t : EAShuErDevType} (ht : t.isvalid = true) :
    CarriesUnitAddress (getDeviceCategory t) (declaredCmd t) := by
  revert ht
  cases t <;> decide

/-- **A model's command goes to the unit of its category, unless the model is `RD3000B`.** -/
theorem carriesUnitAddress_iff {t : EAShuErDevType} (ht : t.isvalid = true) :
    CarriesUnitAddress (getDeviceCategory t) (getCmdOf t) ↔ t ≠ .RD3000B := by
  refine ⟨?_, fun hne => ?_⟩
  · rintro h rfl
    exact absurd h (by decide)
  · rw [(getCmdOf_eq_declaredCmd t).mpr hne]
    exact carriesUnitAddress_declaredCmd ht

/-- Declared commands of different categories differ. -/
theorem declaredCmd_ne {t t' : EAShuErDevType} (h : getDeviceCategory t ≠ getDeviceCategory t') :
    declaredCmd t ≠ declaredCmd t' := by
  revert h
  cases t <;> cases t' <;> decide

theorem str2e_eq_RD3000B {s : String} : str2eAShuErDevType s = .RD3000B ↔ s = "RD3000B" := by
  refine ⟨fun h => ?_, fun h => h ▸ rfl⟩
  have hv : isvalid s = true := by rw [isvalid, h]; rfl
  exact str2e_injOn hv rfl h

/-! ## The devices a round polls -/

variable {h : List WorkerEntry} {w : UtisDeviceWorker}

/-- The devices queued are registered ones. -/
theorem registered_queuedFor (hr : worker.Run startUp h w) : Registered (queuedFor h) := by
  induction hr with
  | nil => exact .nil
  | @snoc h t u i out hr hs ih =>
    rw [queuedFor_concat]
    obtain ⟨⟨s, rfl | rfl⟩, -⟩ | ⟨rfl, -⟩ | ⟨rfl, -⟩ | ⟨d, socket, rfl, -⟩ | ⟨socket, rfl, -⟩ :=
      worker_cases hs
    · exact ih
    · exact ih
    · by_cases ha : t.timer.isActive = true
      · simpa [queueStep, ha] using ih
      · have hidle : t.timer.isActive = false := by simpa using ha
        simpa [queueStep, hidle, queuedFor_of_inactive hr hidle] using registered_of_run hr
    · exact ih.sublist (List.tail_sublist _)
    · exact ih
    · exact ih

/-- The timer runs until the round is reported. -/
theorem active_of_round {pre mid : List WorkerEntry} {a : WorkerEntry}
    (hr : worker.Run startUp (pre ++ a :: mid) w) (ha : accepts a = true)
    (hmid : readies (emitted mid) = 0) : w.timer.isActive = true := by
  obtain ⟨hpre, hs, hpost⟩ := hr.step_at
  have hb := batch_of_run (hpre.reaches.trans (.of_step hs)) hpost
  rw [batchOf_of_accepts (started_of_reaches hpre.reaches) ha hs] at hb
  obtain ⟨q, hq, -, -⟩ := Batch.handed_of_dones_eq_zero hb ((handed_batch hpost).2.trans hmid)
  rw [← Bool.not_eq_false, ← batchOf_eq_none, hq]
  simp

/-- A property of every device a run polls: of the first device queued, at every timeout. -/
def AllPolled (P : AShuErDevive → Prop) (h : List WorkerEntry) : Prop :=
  ∀ pre e post, h = pre ++ e :: post → e.input = .timeout → ∀ d ∈ (queuedFor pre).head?, P d

theorem AllPolled.of_append {P : AShuErDevive → Prop} {h' : List WorkerEntry}
    (hp : AllPolled P (h ++ h')) : AllPolled P h := by
  rintro pre e post rfl
  exact hp pre e (post ++ h') (by simp)

/-- **A round polls the devices its poll found online**, from the first on. -/
theorem polled_of_round {P : AShuErDevive → Prop} {pre : List WorkerEntry} {a : WorkerEntry}
    (ha : accepts a = true) : ∀ {mid : List WorkerEntry} {w : UtisDeviceWorker},
    worker.Run startUp (pre ++ a :: mid) w → readies (emitted mid) = 0 →
    AllPolled P (pre ++ a :: mid) →
    ∃ ds, a.pre.onlineDev = ds ++ queuedFor (pre ++ a :: mid) ∧
      commands (emitted mid) = ds.map AShuErDevive.getCmd ∧ ∀ d ∈ ds, P d := by
  intro mid
  induction mid using List.reverseRecOn with
  | nil =>
    intro w hr _ _
    obtain ⟨hpre, -, -⟩ := hr.step_at
    obtain ⟨hi, hidle⟩ := accepts_iff.mp ha
    refine ⟨[], ?_, rfl, by simp⟩
    simp [queueStep, hi, hidle, queuedFor_of_inactive hpre hidle]
  | append_singleton mid e ih =>
    intro w hr hmid hp
    rw [show pre ++ a :: (mid ++ [e]) = (pre ++ a :: mid) ++ [e] by simp] at hr hp ⊢
    obtain ⟨hrm, hs, -⟩ := hr.snoc_inv
    rw [emitted_append, readies_append, emitted_singleton, Nat.add_eq_zero_iff] at hmid
    obtain ⟨ds, hds, hsent, hPds⟩ := ih hrm hmid.1 hp.of_append
    have hactive : e.pre.timer.isActive = true := active_of_round hrm ha hmid.1
    have hq := cmdList_eq hrm
    rw [queuedFor_concat, emitted_append, commands_append, emitted_singleton]
    obtain ⟨⟨s, hi | hi⟩, -, hsilent, -⟩ | ⟨hi, -, hout⟩ | ⟨hi, -, ht⟩ |
      ⟨d, socket, hi, -, -, hout⟩ | ⟨socket, hi, -, -, hout⟩ := worker_cases hs
    · exact ⟨ds, by simpa [queueStep, hi] using hds, by simpa [hsilent] using hsent, hPds⟩
    · exact ⟨ds, by simpa [queueStep, hi] using hds, by simpa [hsilent] using hsent, hPds⟩
    · exact ⟨ds, by simpa [queueStep, hi, hactive] using hds, by simpa [hout] using hsent, hPds⟩
    · obtain ⟨cmd, cmds, hcmd, -, hout⟩ | ⟨-, -, hout⟩ :=
        timeout_cases (started_of_reaches hrm.reaches) ht
      · rw [hcmd] at hq
        obtain ⟨d, q, hdq, hd, -⟩ := List.map_eq_cons_iff.mp hq.symm
        have hsend : commands e.out = [d.getCmd] := by
          simp [hout, commands, Effect.command?, List.filterMap_cons, hd]
        refine ⟨ds ++ [d], by simp [hds, queueStep, hi, hdq], by simp [hsent, hsend],
          fun d' hd' => ?_⟩
        rcases List.mem_append.mp hd' with hd' | hd'
        · exact hPds d' hd'
        · rw [List.mem_singleton.mp hd']
          exact hp _ e [] rfl hi d (by simp [hdq])
      · simp [hout, readies, Effect.isReady] at hmid
    · exact ⟨ds, by simpa [queueStep, hi] using hds, by simpa [hout] using hsent, hPds⟩
    · exact ⟨ds, by simpa [queueStep, hi] using hds, by simpa [hout] using hsent, hPds⟩

/-! ## Polling as declared -/

/-- **A run polls as declared**: in each round no command is sent twice, and the command sent for a
device carries the unit address of its category. -/
def PollsAsDeclared (h : List WorkerEntry) : Prop :=
  (∀ pre a mid post, h = pre ++ a :: (mid ++ post) → accepts a = true →
    readies (emitted mid) = 0 → (commands (emitted mid)).Nodup) ∧
  ∀ pre e post, h = pre ++ e :: post → ∀ c ∈ commands e.out, ∀ d ∈ (queuedFor pre).head?,
    CarriesUnitAddress d.devCategory c

/-- Registered devices other than an `RD3000B` answer to commands of their own. -/
theorem nodup_getCmd {devs : List AShuErDevive} (hreg : Registered devs)
    (hne : ∀ d ∈ devs, d.devTypeStr ≠ "RD3000B") : (devs.map AShuErDevive.getCmd).Nodup := by
  have hcmd : ∀ d ∈ devs, d.getCmd = declaredCmd (str2eAShuErDevType d.devTypeStr) := by
    intro d hd
    rw [hreg.built d hd]
    exact (getCmdOf_eq_declaredCmd _).mpr fun ht => hne d hd (str2e_eq_RD3000B.mp ht)
  refine List.pairwise_map.mpr (hreg.exclusive.pairwise.imp_of_mem fun {d d'} hd hd' hc => ?_)
  rw [hcmd d hd, hcmd d' hd']
  refine declaredCmd_ne fun hcat => hc ?_
  rw [hreg.built d hd, hreg.built d' hd']
  exact hcat

/-- The first device queued is a registered one. -/
theorem registered_head {d : AShuErDevive} (hr : worker.Run startUp h w)
    (hd : (queuedFor h).head? = some d) : isvalid d.devTypeStr = true ∧ d.Built := by
  have hmem : d ∈ queuedFor h := List.mem_of_mem_head? hd
  have hreg := registered_queuedFor hr
  exact ⟨hreg.valid d hmem, hreg.built d hmem⟩

/-- A device's own command carries the address of its category unless the device is an
`RD3000B`. -/
theorem carriesUnitAddress_getCmd {d : AShuErDevive} (hv : isvalid d.devTypeStr = true)
    (hb : d.Built) : CarriesUnitAddress d.devCategory d.getCmd ↔ d.devTypeStr ≠ "RD3000B" := by
  rw [hb, AShuErDevive.new_devTypeStr, Ne, ← str2e_eq_RD3000B]
  exact carriesUnitAddress_iff hv

/-- **A run polls as declared exactly when it polls no `RD3000B`.** -/
theorem pollsAsDeclared_iff (hr : worker.Run startUp h w) :
    PollsAsDeclared h ↔ AllPolled (fun d => d.devTypeStr ≠ "RD3000B") h := by
  constructor
  · rintro ⟨-, haddr⟩ pre e post rfl hi d hd
    obtain ⟨hv, hb⟩ := registered_head hr.step_at.1 hd
    have hc : d.getCmd ∈ commands e.out := by rw [sends_head hr hi hd]; exact List.mem_cons_self
    exact (carriesUnitAddress_getCmd hv hb).mp (haddr pre e post rfl _ hc d hd)
  · intro hp
    refine ⟨?_, ?_⟩
    · rintro pre a mid post rfl ha hmid
      rw [show pre ++ a :: (mid ++ post) = (pre ++ a :: mid) ++ post by simp] at hr hp
      obtain ⟨t, hrm, -⟩ := hr.split
      obtain ⟨ds, hds, hsent, hne⟩ := polled_of_round ha hrm hmid (AllPolled.of_append hp)
      have hreg : Registered a.pre.onlineDev := registered_of_run hrm.step_at.1
      rw [hsent]
      exact nodup_getCmd (hreg.sublist (hds ▸ List.sublist_append_left _ _)) hne
    · rintro pre e post rfl c hc d hd
      obtain ⟨hi, d', hd', rfl⟩ := sent_for_head hr hc
      obtain rfl : d = d' := Option.some.inj (Eq.trans hd.symm hd')
      obtain ⟨hv, hb⟩ := registered_head hr.step_at.1 hd'
      exact (carriesUnitAddress_getCmd hv hb).mpr (hp pre e post rfl hi d hd)

/-- A run that polls all three units as declared. -/
theorem pollsAsDeclared_run : ∃ h w, worker.Run startUp h w ∧
    commands (emitted h) = [cmdVD930ARead, cmdMWS600Read, cmdRD3000CRead] ∧
    (PollsAsDeclared h ↔ AllPolled (fun d => d.devTypeStr ≠ "RD3000B") h) := by
  obtain ⟨h, w, hr, hc⟩ := Machine.exists_run (M := worker) (s := startUp)
    [.slotAddDev "VD930A", .slotAddDev "MWS600", .slotAddDev "RD3000C", .slotGetLatestData,
      .timeout, .timeout, .timeout, .timeout]
    (P := fun h _ => commands (emitted h) = [cmdVD930ARead, cmdMWS600Read, cmdRD3000CRead])
    (by decide)
  exact ⟨h, w, hr, hc, pollsAsDeclared_iff hr⟩

/-- **With a weather station and an `RD3000B` open, a round sends the command of the weather station
twice**, and the road sensor none. -/
theorem polls_weather_twice : ∃ h w, worker.Run startUp h w ∧ ¬ PollsAsDeclared h := by
  obtain ⟨h, w, hr, hlen, hacc, hmid, hdup⟩ := Machine.exists_run (M := worker) (s := startUp)
    [.slotAddDev "MWS600", .slotAddDev "RD3000B", .slotGetLatestData, .timeout, .timeout]
    (P := fun h _ => 2 < h.length ∧ (h[2]?.any accepts) = true ∧
      readies (emitted (h.drop 3)) = 0 ∧ ¬ (commands (emitted (h.drop 3))).Nodup) (by decide)
  refine ⟨h, w, hr, fun hp => hdup ?_⟩
  have hsplit : h = h.take 2 ++ h[2] :: (h.drop 3 ++ []) := by
    rw [List.append_nil, ← List.drop_eq_getElem_cons hlen, List.take_append_drop]
  exact hp.1 _ _ _ _ hsplit (by simpa [List.getElem?_eq_getElem hlen] using hacc) hmid

end UtisDevice
