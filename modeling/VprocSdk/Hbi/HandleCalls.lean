import VprocSdk.Hbi.Isolation

/-!
# Calls that use a handle

`HBI_read`, `HBI_write`, `HBI_set_command`, `HBI_sleep` and `HBI_wake` as one family: each checks that the
driver is initialised, its pointer arguments and its handle, reads the device of the handle, and leaves the
rest to a function of the device layer. Reads are those of at most 256 bytes, which stay in the buffer of
`internal_hbi_read` (`internalHbiReadBuf_eq`); what a longer one does there is not told here.
-/

namespace VprocSdk

open Lib

variable {lim : HbiLimits} {s : HbiDrv lim} {i : Fin lim.maxInstances} (port : HalPort lim)

/-- The calls that use a handle; of `HBI_read` whether there is a buffer for the bytes, and of `HBI_write`
the buffer that is passed. -/
inductive HandleCall
  | read (reg : RegAddr) (pOutput : Bool) (length : Nat)
  | write (reg : RegAddr) (pInput : Option (List Byte))
  | setCommand (cmd : Command)
  | sleep
  | wake

/-- What a call that uses a handle gives back. -/
inductive HandleAnswer
  | read (result : Except HbiStatus (List Byte))
  | setCommand (status : HbiStatus) (valp : Option Word)
  | status (status : HbiStatus)

namespace HandleCall

/-- `CHK_NULL_ARG`. -/
def argsOk : HandleCall → Bool
  | .read _ pOutput _ => pOutput
  | .write _ pInput => pInput.isSome
  | .setCommand _ | .sleep | .wake => true

def failed (status : HbiStatus) : HandleCall → HandleAnswer
  | .read _ _ _ => .read (.error status)
  | .setCommand _ => .setCommand status none
  | .write _ _ | .sleep | .wake => .status status

/-- The function of the device layer that `HBI_read`, `HBI_write`, `HBI_set_command`, `HBI_sleep` and
`HBI_wake` call. -/
def run (pDev : TwDev) : HandleCall → Tw HandleAnswer
  | .read reg _ length => do return .read (← internalHbiRead reg length)
  | .write reg pInput => do return .status (← internalHbiWrite reg (pInput.getD []))
  | .setCommand cmd => do
      let (status, valp) ← internalHbiSetCommand pDev cmd
      return .setCommand status valp
  | .sleep => do return .status (← internalHbiSetAttrib pDev (.sleep (some 1)))
  | .wake => do return .status (← internalHbiSetAttrib pDev (.sleep (some 0)))

end HandleCall

/-! ### Answers without a device -/

/-- The checks that a command makes before it uses its device. -/
def Command.argsOk : Command → Bool
  | .loadFwrFromHost args | .loadCfgrecFromHost args => args.join.isSome
  | .loadFwrcfgFromFlash imageNumber => 0 < imageNumber.toInt
  | .eraseFwrcfgFromFlash imageNumber => imageNumber.any fun imageNumber => 0 < imageNumber.toInt
  | .saveCfgToFlash imageNumber => imageNumber ≠ 0
  | .unsupported _ => false
  | .loadFwrComplete | .saveFwrcfgToFlash _ | .eraseWholeFlash | .startFwr => true

namespace HandleCall

/-- The answer of a call that comes to it before it uses its device. -/
def early : HandleCall → Option HandleAnswer
  | .write _ pInput =>
      if (pInput.getD []).length > maxAccessSizeInBytes then some (.status .invalidArg) else none
  | .setCommand cmd => if cmd.argsOk then none else some (.setCommand .invalidArg none)
  | .read _ _ _ | .sleep | .wake => none

def Asks (call : HandleCall) : Prop := ∀ pDev, ∃ op next, call.run pDev = .ask op next

theorem setCommand_cases (cmd : Command) :
    (cmd.argsOk = true → (setCommand cmd).Asks) ∧
      (cmd.argsOk = false → ∀ pDev, (setCommand cmd).run pDev = .pure (.setCommand .invalidArg none)) := by
  cases cmd with
  | loadFwrFromHost args | loadCfgrecFromHost args =>
      match args with
      | none | some none => exact ⟨nofun, fun _ _ => rfl⟩
      | some (some data) => exact ⟨fun _ _ => ⟨_, _, rfl⟩, nofun⟩
  | loadFwrcfgFromFlash imageNumber =>
      by_cases hnumber : imageNumber.toInt ≤ 0
      · refine ⟨fun h => absurd (of_decide_eq_true h) (not_lt.2 hnumber), fun _ pDev => ?_⟩
        simp only [run, internalHbiSetCommand, twLoadFwrcfgFromFlash, if_pos hnumber]
        rfl
      · refine ⟨fun _ pDev => ?_, fun h => absurd (not_lt.1 (of_decide_eq_false h)) hnumber⟩
        simp only [run, internalHbiSetCommand, twLoadFwrcfgFromFlash, if_neg hnumber]
        exact ⟨_, _, rfl⟩
  | eraseFwrcfgFromFlash imageNumber =>
      cases imageNumber with
      | none => exact ⟨nofun, fun _ _ => rfl⟩
      | some imageNumber =>
          by_cases hnumber : imageNumber.toInt ≤ 0
          · refine ⟨fun h => absurd (of_decide_eq_true h) (not_lt.2 hnumber), fun _ pDev => ?_⟩
            simp only [run, internalHbiSetCommand, twEraseFwrcfgFromFlash, if_pos hnumber]
            rfl
          · refine ⟨fun _ pDev => ?_, fun h => absurd (not_lt.1 (of_decide_eq_false h)) hnumber⟩
            simp only [run, internalHbiSetCommand, twEraseFwrcfgFromFlash, if_neg hnumber]
            exact ⟨_, _, rfl⟩
  | saveCfgToFlash imageNumber =>
      by_cases hnumber : imageNumber = 0
      · subst hnumber
        exact ⟨nofun, fun _ _ => rfl⟩
      · refine ⟨fun _ pDev => ?_, fun h => absurd (not_not.1 (of_decide_eq_false h)) hnumber⟩
        simp only [run, internalHbiSetCommand, twSaveCfgToFlash, if_neg hnumber]
        exact ⟨_, _, rfl⟩
  | unsupported code => exact ⟨nofun, fun _ _ => rfl⟩
  | loadFwrComplete | saveFwrcfgToFlash valp | eraseWholeFlash | startFwr =>
      exact ⟨fun _ _ => ⟨_, _, rfl⟩, nofun⟩

/-- A call is answered early, whatever its device is, or uses it. -/
theorem early_cases (call : HandleCall) :
    (call.early = none ∧ call.Asks) ∨ ∃ answer, call.early = some answer ∧ ∀ pDev, call.run pDev = .pure answer := by
  cases call with
  | read reg pOutput length => exact .inl ⟨rfl, fun _ => ⟨_, _, rfl⟩⟩
  | write reg pInput =>
      by_cases hlen : (pInput.getD []).length > maxAccessSizeInBytes
      · refine .inr ⟨.status .invalidArg, if_pos hlen, fun pDev => ?_⟩
        rw [run, internalHbiWrite, if_pos hlen]
        rfl
      · refine .inl ⟨if_neg hlen, fun pDev => ?_⟩
        rw [run, internalHbiWrite, if_neg hlen]
        exact ⟨_, _, rfl⟩
  | setCommand cmd =>
      obtain ⟨hasks, hearly⟩ := setCommand_cases cmd
      cases hargs : cmd.argsOk with
      | true => exact .inl ⟨if_pos hargs, hasks hargs⟩
      | false => exact .inr ⟨_, if_neg (by rw [hargs]; exact Bool.false_ne_true), hearly hargs⟩
  | sleep | wake => exact .inl ⟨rfl, fun _ => ⟨_, _, rfl⟩⟩

end HandleCall

/-- The sequential call of `HBI_read`, `HBI_write`, `HBI_set_command`, `HBI_sleep` and `HBI_wake`. -/
def useHandle (s : HbiDrv lim) (handle : Nat) (call : HandleCall) : Outcome (BusRecord × HandleAnswer) :=
  if !s.bInitialized then .done ([], call.failed .notInit)
  else if !call.argsOk then .done ([], call.failed .invalidArg)
  else withDevice port s handle call.failed fun pDev => call.run pDev

theorem withDevice_map {α β : Type} (s : HbiDrv lim) (handle : Nat) (failed : HbiStatus → α)
    (run : TwDev → Tw α) (f : α → β) :
    withDevice port s handle (fun status => f (failed status)) (fun pDev => do return f (← run pDev))
      = (withDevice port s handle failed run).bind fun r => .done (r.1, f r.2) := by
  unfold withDevice
  cases s.validHandle handle with
  | none => rfl
  | some i =>
      dsimp only
      cases (s.instList i).pDev with
      | none => rfl
      | some d =>
          dsimp only [Outcome.bind]
          rw [Prog.run_bind]
          rfl

theorem useHandle_read (s : HbiDrv lim) (handle : Nat) (reg : RegAddr) (pOutput : Bool) (length : Nat) :
    useHandle port s handle (.read reg pOutput length)
      = (hbiRead port s handle reg pOutput length).bind fun r => .done (r.1, .read r.2) := by
  unfold useHandle hbiRead
  by_cases hinit : (!s.bInitialized) = true
  · rw [if_pos hinit, if_pos hinit]
    rfl
  rw [if_neg hinit, if_neg hinit]
  cases pOutput with
  | false => rfl
  | true =>
      exact withDevice_map port s handle Except.error (fun _ => internalHbiRead reg length)
        HandleAnswer.read

theorem useHandle_write (s : HbiDrv lim) (handle : Nat) (reg : RegAddr) (pInput : Option (List Byte)) :
    useHandle port s handle (.write reg pInput)
      = (hbiWrite port s handle reg pInput).bind fun r => .done (r.1, .status r.2) := by
  unfold useHandle hbiWrite
  by_cases hinit : (!s.bInitialized) = true
  · rw [if_pos hinit, if_pos hinit]
    rfl
  rw [if_neg hinit, if_neg hinit]
  cases pInput with
  | none => rfl
  | some data =>
      exact withDevice_map port s handle id (fun _ => internalHbiWrite reg data) HandleAnswer.status

theorem useHandle_setCommand (s : HbiDrv lim) (handle : Nat) (cmd : Command) :
    useHandle port s handle (.setCommand cmd)
      = (hbiSetCommand port s handle cmd).bind fun r => .done (r.1, .setCommand r.2.1 r.2.2) := by
  unfold useHandle hbiSetCommand
  by_cases hinit : (!s.bInitialized) = true
  · rw [if_pos hinit, if_pos hinit]
    rfl
  rw [if_neg hinit, if_neg hinit]
  exact withDevice_map port s handle (fun status => (status, none))
    (fun pDev => internalHbiSetCommand pDev cmd) fun r => HandleAnswer.setCommand r.1 r.2

/-! ### The device of a handle -/

/-- The device for which the port at a handle was opened, if it is open. -/
def HbiDrv.deviceReached (s : HbiDrv lim) (handle : Nat) : Option Int :=
  if s.ssl.initialised then
    (portOf s.ssl handle).bind fun p => (s.ssl.dev p).pClient.map SslDevCfg.deviceId
  else none

theorem deviceReached_lease (h : DriverInv none s) {lease : Lease} (hlease : s.leases i = some lease) :
    s.deviceReached lease.port = some lease.deviceId := by
  obtain ⟨p, dev, hport, hdev, hid⟩ := lease_port h hlease
  have hp : (s.ssl.dev p).inuse = true := by rw [hdev]
  rw [HbiDrv.deviceReached, if_pos (h.sslOpen p hp), hport, portOf_eq_some hp, Option.bind_some, hdev,
    Option.map_some, hid]

end VprocSdk
