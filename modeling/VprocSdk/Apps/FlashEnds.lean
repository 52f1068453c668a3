import VprocSdk.Apps.FlashParts

/-!
# How the script ends

The main program catches `ValueError` and nothing else. It closes the device in every run that is not cut
off while it waits, but for those where a configuration is to be saved, no firmware comes from a file and
the firmware does not run when the configuration is loaded: the slot then has no value, and the device stays
open.
-/

namespace VprocSdk

open Lib

def PyAsk.opensOrCloses : PyAsk → Bool
  | .open _ | .hbi (.close _) | .hbi .term => true
  | _ => false

/-- The body of the `try` neither opens nor closes the device. -/
def inSession (ask : PyAsk) : Bool := !ask.opensOrCloses

instance : AllowsAccess inSession where
  access ask h := by
    unfold PyAsk.isAccess at h
    split at h
    · rfl
    · rfl
    · rfl
    · cases h

/-! ### Loading a firmware and a configuration -/

theorem body_pyCall {α : Type} {P : α → Prop} {p : Loader α}
    (hasks : p.Asks fun ask => inSession (.hbi ask) = true) (hreturns : p.Returns P) :
    Body inSession (Caught P) (pyCall p) := by
  induction p with
  | pure a => exact hreturns
  | ask q next ih => exact ⟨hasks.1, fun reply _ => ih _ (hasks.2 _) (hreturns _)⟩

/-- A value or a `ValueError`. -/
def ReturnsOrRaises (result : Except PyError Unit) : Prop := result = .ok () ∨ RaisesValueError result

theorem returns_loadFirmwareLoop (behind : Nat → Nat → Byte) (handle : Nat) (firmwareBuf : List Byte)
    (blockSize left i : Nat) :
    (loadFirmwareLoop behind handle firmwareBuf blockSize left i).Returns ReturnsOrRaises := by
  induction left generalizing i with
  | zero =>
      intro reply
      change Prog.Returns ReturnsOrRaises (if reply.status ≠ .success then _ else _)
      split
      · exact .inr ⟨_, rfl⟩
      · exact .inl rfl
  | succ left ih =>
      intro reply
      change Prog.Returns ReturnsOrRaises (if reply.status ≠ .success then _ else _)
      split
      · exact .inr ⟨_, rfl⟩
      · exact ih (i + 1)

theorem asks_mono {α : Type} {P P' : HbiAsk → Prop} {p : Loader α} (h : p.Asks P)
    (himp : ∀ ask, P ask → P' ask) : p.Asks P' := by
  induction p with
  | pure a => trivial
  | ask q next ih => exact ⟨himp q h.1, fun reply => ih reply (h.2 reply)⟩

/-- Only a header that declares empty blocks makes the division fail. -/
theorem body_scriptLoadFirmware (behind : Nat → Nat → Byte) (handle : Nat) {firmwareBuf : List Byte}
    (hblock : imgHdrLen ≤ firmwareBuf.length → (fileHdr firmwareBuf).blockSize ≠ 0) :
    Body inSession (Caught fun _ => True) (scriptLoadFirmware behind handle firmwareBuf) := by
  have hcommand : ∀ ask, IsHbiCommand ask → inSession (.hbi ask) = true := by
    rintro ask ⟨handle, cmd, rfl⟩
    rfl
  have hload : Body inSession (Caught ReturnsOrRaises) (pyCall (loadFirmware behind handle firmwareBuf)) := by
    rw [loadFirmware, pyCall_bind]
    refine (body_isFirmwareRunning handle).caughtThen fun running _ => ?_
    cases running with
    | true => exact body_pure (.inr ⟨_, rfl⟩)
    | false =>
        rw [if_neg Bool.false_ne_true, internalHbiGetHdr]
        by_cases hshort : firmwareBuf.length < imgHdrLen
        · rw [if_pos hshort]
          exact body_pure (.inr ⟨_, rfl⟩)
        · have hpos := hblock (not_lt.1 hshort)
          have hne : ¬ (imgHdr (listMem firmwareBuf)).blockSize * 2 = 0 := by
            rw [← fileHdr]
            omega
          rw [if_neg hshort]
          dsimp only
          rw [if_neg hne]
          split
          · exact body_pure (.inr ⟨_, rfl⟩)
          · exact body_pyCall (asks_mono (asks_loadFirmwareLoop _ _ _ _ _ _) hcommand)
              (returns_loadFirmwareLoop _ _ _ _ _ _)
  refine hload.caughtThen fun result hresult => ?_
  rcases hresult with rfl | ⟨msg, rfl⟩
  · exact body_pure trivial
  · exact body_raise msg

def NamesRegisters (records : List (Int × Int)) : Prop := ∀ record ∈ records, 0 ≤ record.1 ∧ record.1 ≤ 0xFFFF

/-- A value as `P` says, and no exception. -/
def Surely {α : Type} (P : α → Prop) : Except PyStop α → Prop
  | .ok a => P a
  | .error _ => False

theorem Body.surelyThen {α β : Type} {P : α → Prop} {post : Except PyStop β → Prop} {p : PyScript α}
    {f : α → PyScript β} (hp : Body inSession (Surely P) p) (hf : ∀ a, P a → Body inSession post (f a)) :
    Body inSession post (p >>= f) := by
  unfold Body
  rw [ExceptT.run_bind]
  refine Prog.Obeys.bind hp fun result _ hresult => ?_
  cases result with
  | ok a => exact hf a hresult
  | error e => exact hresult.elim

/-- The buffer has the address of a register once it has one. -/
def Cr2Vars.Addressed (st : Cr2Vars) : Prop :=
  st.prevAddr ≠ 0 → 0 ≤ st.currentAddr ∧ st.currentAddr ≤ 0xFFFF

section Config

variable {handle : Nat} {st : Cr2Vars}

theorem body_shipTo (h : 0 ≤ st.currentAddr ∧ st.currentAddr ≤ 0xFFFF) :
    Body inSession (Surely fun st' => st' = { st with dataBuffer := [], blockSize := 0 }) (st.shipTo handle) := by
  unfold Cr2Vars.shipTo
  rw [if_pos h]
  exact ⟨rfl, fun _ _ => rfl⟩

theorem body_readyFor {addr : Int} (haddr : 0 ≤ addr ∧ addr ≤ 0xFFFF) (hst : st.Addressed) :
    Body inSession (Surely fun st' => 0 ≤ st'.currentAddr ∧ st'.currentAddr ≤ 0xFFFF) (st.readyFor handle addr) := by
  unfold Cr2Vars.readyFor
  by_cases hstart : st.prevAddr = 0
  · have hnext : ¬ addr ≠ addr - 2 + 2 := by omega
    simp only [if_pos hstart, if_neg hnext]
    exact haddr
  · simp only [if_neg hstart]
    by_cases hgap : addr ≠ st.prevAddr + 2
    · rw [if_pos hgap]
      exact (body_shipTo (hst hstart)).surelyThen fun _ _ => haddr
    · rw [if_neg hgap]
      exact hst hstart

theorem body_append {addr data : Int} (hst : 0 ≤ st.currentAddr ∧ st.currentAddr ≤ 0xFFFF) :
    Body inSession (Surely Cr2Vars.Addressed) (st.append handle addr data) := by
  unfold Cr2Vars.append
  by_cases hfull : st.blockSize + 1 = cr2BlockSize
  · simp only [if_pos hfull]
    exact Body.surelyThen (body_shipTo hst) fun _ _ hne => absurd rfl hne
  · simp only [if_neg hfull]
    exact fun _ => hst

theorem body_sendRecords {records : List (Int × Int)} (hrecords : NamesRegisters records)
    (hst : st.Addressed) : Body inSession (Surely fun _ => True) (sendRecords handle records st) := by
  induction records generalizing st with
  | nil => exact trivial
  | cons record records ih =>
      refine (body_readyFor (hrecords record List.mem_cons_self) hst).surelyThen fun st' hst' => ?_
      refine (body_append hst').surelyThen fun st'' hst'' => ?_
      exact ih (fun record hrecord => hrecords record (List.mem_cons_of_mem _ hrecord)) hst''

end Config

/-! ### The main program -/

/-- A configuration is to be saved, and no firmware of the same call gives it a slot. -/
def FlashArgs.Unplaced (args : FlashArgs) : Prop :=
  args.firmwareBuf = [] ∧ args.configBuf ≠ [] ∧ args.isCr2 = true ∧ args.saveToFlash = true

/-- The arguments the main program refuses before it opens the device. -/
def FlashArgs.Refused (args : FlashArgs) : Prop :=
  args.firmwareBuf = [] ∧ args.configBuf = [] ∧ args.saveToFlash = true ∨
    args.firmwareBuf = [] ∧ args.configBuf ≠ [] ∧ args.eraseFlash = true

section Main

variable (fuel handle : Nat) {args : FlashArgs}

theorem body_mainStop :
    Body inSession (Caught fun fwRunning => args.stops = true → fwRunning = false)
      (mainStop fuel handle args) := by
  have hinit : Body inSession (Caught fun fwRunning => args.stops = true → fwRunning = false) (do
      initFlash fuel handle true
      return false : PyScript Bool) :=
    (body_initFlash fuel handle true).caughtThen fun _ _ => body_pure fun _ => rfl
  refine (body_isFirmwareRunning handle).caughtThen fun fwRunning _ => ?_
  by_cases hstops : args.stops = true
  · rw [if_pos hstops]
    exact body_whenThen (body_stopFirmware fuel handle) hinit
  · rw [if_neg hstops]
    exact body_pure fun h => absurd h hstops

theorem body_mainFlash : Body inSession (Caught fun _ => True) (mainFlash fuel handle args) := by
  have herase : Body inSession (Caught fun _ => True)
      (if args.eraseFlash = true then eraseFlash fuel handle else pure () : PyScript Unit) :=
    body_when (body_eraseFlash fuel handle)
  unfold mainFlash
  by_cases hloads : args.loads = true
  · rw [if_pos hloads]
    split
    · exact body_raise _
    · exact (body_loadFirmwareFromFlash fuel handle _).caughtThen fun _ _ => herase
  · rw [if_neg hloads]
    exact herase

theorem body_mainFirmware
    (hblock : imgHdrLen ≤ args.firmwareBuf.length → (fileHdr args.firmwareBuf).blockSize ≠ 0) :
    Body inSession (Caught fun slot => args.firmwareBuf ≠ [] → args.saveToFlash = true → slot ≠ none)
      (mainFirmware fuel handle args) := by
  unfold mainFirmware
  by_cases hbuf : args.firmwareBuf ≠ []
  · rw [if_pos hbuf]
    refine (body_scriptLoadFirmware args.firmwareBehind handle hblock).caughtThen fun _ _ => ?_
    cases hsave : args.saveToFlash with
    | true => exact (body_saveFirmwareToFlash fuel handle).caughtThen fun _ _ => body_pure nofun
    | false => exact body_pure nofun
  · rw [if_neg hbuf]
    exact body_pure fun h => absurd h hbuf

theorem body_mainConfig (hrecords : NamesRegisters (cr2Records args.configBuf)) {fwRunning : Bool}
    {slot : Option Nat} (hslot : args.isCr2 = true → args.saveToFlash = true → fwRunning = false →
      slot ≠ none) :
    Body inSession (Caught fun _ => True) (mainConfig fuel handle args fwRunning slot) := by
  unfold mainConfig
  by_cases hext : args.isCr2 = true
  · rw [if_pos hext]
    refine Body.surelyThen (body_sendRecords hrecords fun h => absurd rfl h) fun _ _ => ?_
    cases fwRunning with
    | true =>
        exact body_whenThen (body_saveConfigToFlash fuel handle _) (body_softReset fuel handle)
    | false =>
        rw [if_neg Bool.false_ne_true]
        by_cases hsave : args.saveToFlash = true
        · rw [if_pos hsave]
          cases slot with
          | none => exact absurd rfl (hslot hext hsave rfl)
          | some slot => exact body_saveConfigToFlash fuel handle _
        · rw [if_neg hsave]
          exact body_pure trivial
  · rw [if_neg hext]
    exact body_raise _

/-- What comes before anything is loaded from a file: whether the firmware runs behind it. -/
def startPart (fuel handle : Nat) (args : FlashArgs) : PyScript Bool := do
  let fwRunning ← mainStop fuel handle args
  mainFlash fuel handle args
  return fwRunning

def restPart (fuel handle : Nat) (args : FlashArgs) (fwRunning : Bool) : PyScript Unit := do
  let slot ← mainFirmware fuel handle args
  if args.configBuf ≠ [] then mainConfig fuel handle args fwRunning slot
  if ¬ fwRunning then startFirmware fuel handle true

theorem mainBody_parts :
    mainBody fuel handle args = startPart fuel handle args >>= restPart fuel handle args := by
  simp only [mainBody, startPart, bind_assoc, pure_bind]
  rfl

theorem body_startPart :
    Body inSession (Caught fun fwRunning => args.stops = true → fwRunning = false)
      (startPart fuel handle args) := by
  refine (body_mainStop fuel handle).caughtThen fun fwRunning hstopped => ?_
  exact (body_mainFlash fuel handle).caughtThen fun _ _ => body_pure hstopped

theorem body_restPart
    (hblock : imgHdrLen ≤ args.firmwareBuf.length → (fileHdr args.firmwareBuf).blockSize ≠ 0)
    (hrecords : NamesRegisters (cr2Records args.configBuf)) {fwRunning : Bool}
    (hplaced : args.Unplaced → fwRunning = true) :
    Body inSession (Caught fun _ => True) (restPart fuel handle args fwRunning) := by
  refine (body_mainFirmware fuel handle hblock).caughtThen fun slot hslot => ?_
  have hstart : Body inSession (Caught fun _ => True)
      (if ¬ fwRunning = true then startFirmware fuel handle true else pure () : PyScript Unit) :=
    body_when (body_startFirmware fuel handle true)
  by_cases hconfig : args.configBuf ≠ []
  · rw [if_pos hconfig]
    refine (body_mainConfig fuel handle hrecords fun hext hsave hstopped => ?_).caughtThen fun _ _ => hstart
    refine hslot (fun hbuf => ?_) hsave
    have hruns : fwRunning = true := hplaced ⟨hbuf, hconfig, hext, hsave⟩
    exact Bool.noConfusion (hstopped.symm.trans hruns)
  · rw [if_neg hconfig]
    exact hstart

theorem body_restPart_unplaced (hrecords : NamesRegisters (cr2Records args.configBuf))
    (hunplaced : args.Unplaced) :
    Body inSession (fun result => result = .error .nameError) (restPart fuel handle args false) := by
  obtain ⟨hbuf, hconfig, hext, hsave⟩ := hunplaced
  have hrest : restPart fuel handle args false
      = (scriptLoadConfigCr2 handle args.configBuf >>= fun _ => throw .nameError) := by
    simp only [restPart, mainFirmware, mainConfig, hbuf, hconfig, hext, hsave, ne_eq, not_true_eq_false,
      not_false_eq_true, Bool.false_eq_true, if_false, if_true, bind_assoc, pure_bind]
    rfl
  rw [hrest]
  exact Body.surelyThen (body_sendRecords hrecords fun h => absurd rfl h) fun _ _ => rfl

end Main

/-! ### Runs -/

/-- The device was opened, and closed after everything else. -/
def ClosedAtEnd (run : Prog.Exchanges PyAsk PyReply × Except PyStop Unit) : Prop :=
  ∃ deviceId opened body last, run.1 = (.open deviceId, opened) :: body ++ [last] ∧
    last.1 = .hbi (.close opened.handle) ∧ (∀ x ∈ body, x.1.opensOrCloses = false) ∧ run.2 = .ok ()

def LeftOpen (stop : PyStop) (run : Prog.Exchanges PyAsk PyReply × Except PyStop Unit) : Prop :=
  ∃ deviceId opened body, run.1 = (.open deviceId, opened) :: body ∧
    (∀ x ∈ body, x.1.opensOrCloses = false) ∧ run.2 = .error stop

section Runs

variable (fuel : Nat) {args : FlashArgs} (answer : Prog.Exchanges PyAsk PyReply → PyAsk → PyReply)

def openedBy (args : FlashArgs) (answer : Prog.Exchanges PyAsk PyReply → PyAsk → PyReply) :
    PyAsk × PyReply := (.open args.chipSelect, answer [] (.open args.chipSelect))

def bodyRun (fuel : Nat) (args : FlashArgs) (answer : Prog.Exchanges PyAsk PyReply → PyAsk → PyReply) :
    Prog.Exchanges PyAsk PyReply × Except PyStop Unit :=
  (mainBody fuel (openedBy args answer).2.handle args).run.run answer [openedBy args answer]

def afterBody (handle : Nat) : Except PyStop Unit → Prog PyAsk PyReply (Except PyStop Unit)
  | .ok () | .error (.raised (.valueError _)) => .ask (.hbi (.close handle)) fun _ => .pure (.ok ())
  | .error e => .pure (.error e)

theorem flashSession_run : (flashSession fuel args).run.run answer []
    = (afterBody (openedBy args answer).2.handle (bodyRun fuel args answer).2).run answer
        (bodyRun fuel args answer).1 := by
  have hparts : ∀ handle : Nat, (do
      tryCatch (mainBody fuel handle args) mainExcept
      let _ ← pyAsk (.hbi (.close handle))
      return () : PyScript Unit).run = (mainBody fuel handle args).run >>= afterBody handle := by
    intro handle
    rw [ExceptT.run_bind]
    change ((mainBody fuel handle args).run >>= _) >>= _ = _
    rw [bind_assoc]
    congr 1
    funext result
    cases result with
    | ok a => rfl
    | error e =>
        cases e with
        | raised e => cases e <;> rfl
        | nameError | attributeError | crashed | waiting => rfl
  refine (congrArg (Prog.run answer [openedBy args answer]) (hparts (openedBy args answer).2.handle)).trans ?_
  rw [Prog.run_bind]
  rfl

theorem Body.staysOpen {α : Type} {post : Except PyStop α → Prop} {p : PyScript α}
    (h : Body inSession post p) (done : Prog.Exchanges PyAsk PyReply) :
    ∃ more, (p.run.run answer done).1 = done ++ more ∧ (∀ x ∈ more, x.1.opensOrCloses = false) ∧
      post (p.run.run answer done).2 := by
  obtain ⟨more, hrun, hasked, hpost⟩ := h.run answer done
  exact ⟨more, hrun, fun x hx => by simpa [inSession] using hasked x hx, hpost⟩

/-- How the body's run ended, behind the opening. -/
def BodyEnds (post : Except PyStop Unit → Prop) (fuel : Nat) (args : FlashArgs)
    (answer : Prog.Exchanges PyAsk PyReply → PyAsk → PyReply) : Prop :=
  ∃ more, (bodyRun fuel args answer).1 = openedBy args answer :: more ∧
    (∀ x ∈ more, x.1.opensOrCloses = false) ∧ post (bodyRun fuel args answer).2

/-- A body that raises nothing but a `ValueError` has the device closed. -/
theorem BodyEnds.closes (h : BodyEnds (Caught fun _ => True) fuel args answer) :
    LeftOpen .waiting ((flashSession fuel args).run.run answer []) ∨
      ClosedAtEnd ((flashSession fuel args).run.run answer []) := by
  obtain ⟨more, hrecord, hmore, hresult⟩ := h
  rw [flashSession_run, hrecord]
  have hclosed : ClosedAtEnd (openedBy args answer :: more ++
      [(.hbi (.close (openedBy args answer).2.handle), answer (openedBy args answer :: more)
        (.hbi (.close (openedBy args answer).2.handle)))], .ok ()) :=
    ⟨_, _, more, _, rfl, rfl, hmore, rfl⟩
  cases hend : (bodyRun fuel args answer).2 with
  | ok a => exact .inr hclosed
  | error e =>
      rw [hend] at hresult
      rcases hresult with rfl | ⟨msg, rfl⟩
      · exact .inl ⟨_, _, more, rfl, hmore, rfl⟩
      · exact .inr hclosed

theorem BodyEnds.leavesOpen (h : BodyEnds (fun result => result = .error .nameError) fuel args answer) :
    LeftOpen .nameError ((flashSession fuel args).run.run answer []) := by
  obtain ⟨more, hrecord, hmore, hresult⟩ := h
  rw [flashSession_run, hrecord, hresult]
  exact ⟨_, _, more, rfl, hmore, rfl⟩

def startRun (fuel : Nat) (args : FlashArgs) (answer : Prog.Exchanges PyAsk PyReply → PyAsk → PyReply) :
    Prog.Exchanges PyAsk PyReply × Except PyStop Bool :=
  (startPart fuel (openedBy args answer).2.handle args).run.run answer [openedBy args answer]

def afterStart (fuel handle : Nat) (args : FlashArgs) :
    Except PyStop Bool → Prog PyAsk PyReply (Except PyStop Unit)
  | .ok fwRunning => (restPart fuel handle args fwRunning).run
  | .error e => .pure (.error e)

theorem bodyRun_start : bodyRun fuel args answer
    = (afterStart fuel (openedBy args answer).2.handle args (startRun fuel args answer).2).run answer
        (startRun fuel args answer).1 := by
  have hparts : ∀ handle, (mainBody fuel handle args).run
      = (startPart fuel handle args).run >>= afterStart fuel handle args := by
    intro handle
    rw [mainBody_parts, ExceptT.run_bind]
    congr 1
    funext result
    cases result <;> rfl
  rw [bodyRun, hparts, Prog.run_bind]
  rfl

/-- The body ends as its start does, or as the rest does behind it. -/
theorem bodyEnds_of_start {post : Except PyStop Unit → Prop}
    (hrest : ∀ fwRunning, (startRun fuel args answer).2 = .ok fwRunning →
      Body inSession post (restPart fuel (openedBy args answer).2.handle args fwRunning))
    (herror : ∀ e, (startRun fuel args answer).2 = .error e →
      Caught (fun _ => True) (.error e : Except PyStop Unit) → post (.error e)) :
    BodyEnds post fuel args answer := by
  obtain ⟨more, hstart, hmore, hcaught⟩ :=
    (body_startPart fuel (openedBy args answer).2.handle).staysOpen answer [openedBy args answer]
  unfold BodyEnds
  rw [bodyRun_start]
  cases hend : (startRun fuel args answer).2 with
  | ok fwRunning =>
      obtain ⟨rest, hrun, hasked, hpost⟩ :=
        (hrest fwRunning hend).staysOpen answer (startRun fuel args answer).1
      refine ⟨more ++ rest, ?_, ?_, hpost⟩
      · exact hrun.trans (congrArg (· ++ rest) hstart)
      · exact fun x hx => (List.mem_append.1 hx).elim (hmore x) (hasked x)
  | error e =>
      change (startRun fuel args answer).1 = _ at hstart
      change Caught _ (startRun fuel args answer).2 at hcaught
      rw [hend] at hcaught
      exact ⟨more, hstart, hmore, herror e hend hcaught⟩

def firmwareSeen (args : FlashArgs) (answer : Prog.Exchanges PyAsk PyReply → PyAsk → PyReply) : Bool :=
  (answer [openedBy args answer] (.hbi (.read (openedBy args answer).2.handle 0x028 2))).number 2
    &&& 0x8000 ≠ 0

theorem startRun_of_seen (hstops : args.stops = false) (herase : args.eraseFlash = false)
    (hloads : args.loads = false) :
    (startRun fuel args answer).2 = .ok (firmwareSeen args answer) := by
  have hstart : ∀ handle, startPart fuel handle args = pyCall (isFirmwareRunning handle) := by
    intro handle
    simp only [startPart, mainStop, mainFlash, hstops, herase, hloads, Bool.false_eq_true, if_false, pure_bind,
      bind_pure]
  rw [startRun, hstart]
  rfl

theorem startRun_of_stops (hstops : args.stops = true) : (startRun fuel args answer).2 ≠ .ok true := by
  obtain ⟨more, hstart, hmore, hcaught⟩ :=
    (body_startPart fuel (openedBy args answer).2.handle).staysOpen answer [openedBy args answer]
  change Caught _ (startRun fuel args answer).2 at hcaught
  intro hruns
  rw [hruns] at hcaught
  exact Bool.noConfusion (hcaught hstops)

end Runs

/-- The run closed the device, or was cut off while it waited. -/
def ClosesOrWaits (run : Prog.Exchanges PyAsk PyReply × Except PyStop Unit) : Prop :=
  LeftOpen .waiting run ∨ ClosedAtEnd run

/-- A configuration alone, to be saved beside the firmware that is loaded from slot 2. -/
def saveConfigOnly : FlashArgs where
  firmwareBuf := []
  firmwareBehind := fun _ _ => 0
  configBuf := "0x200, 0x1234".toList
  configPath := "config.CR2".toList
  eraseFlash := false
  saveToFlash := true
  indexSlot := 1
  loadFromFlash := some 2
  chipSelect := 0

end VprocSdk
