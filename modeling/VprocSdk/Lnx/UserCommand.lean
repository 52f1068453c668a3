import VprocSdk.Tw.Commands

/-!
# Host commands from user space

`HBI_set_command` of `hbi_u.c` makes an ioctl of a command and its argument, and
`internal_hbi_drv_ioctl` of `hbi_k.c` makes a command and an argument of the ioctl again, for the
kernel's `HBI_set_command`. Programs here ask for the commands that the device layer carries out: two
programs are equal when they have the same commands carried out with the same arguments and return the
same, whatever the outcome.

The device file is open, so the kernel's device and its handle exist, and the copies of the ioctl's
argument from and to the user's memory succeed. The handle in that argument is not read by the kernel.
-/

namespace VprocSdk

open Lib

/-! ### Commands and their arguments -/

/-- `hbi_data_t`: the size of a `NULL` buffer, or the bytes of the buffer. -/
inductive HbiData
  | null (size : Nat)
  | buffer (bytes : List Byte)
  deriving DecidableEq, Repr

namespace HbiData

def size : HbiData → Nat
  | .null size => size
  | .buffer bytes => bytes.length

def pData : HbiData → Option (List Byte)
  | .null _ => none
  | .buffer bytes => some bytes

/-- What `memcpy` copies; none when it reads through `NULL`. -/
def copied : HbiData → Option (List Byte)
  | .null 0 => some []
  | .null (_ + 1) => none
  | .buffer bytes => some bytes

end HbiData

/-- `hbi_cmd_t` with what a user passes through `pCmdArgs`. A command that either side checks for
`NULL` takes an option, one that ignores its argument takes none, and one that stores through it takes
whether there is a place to store to. -/
inductive UserCommand
  | loadFwrFromHost (pCmdArgs : Option HbiData)
  | loadCfgrecFromHost (pCmdArgs : Option HbiData)
  | loadFwrComplete
  | loadFwrcfgFromFlash (imageNum : BitVec 32)
  | saveFwrcfgToFlash (pCmdArgs : Bool)
  | eraseWholeFlash
  | eraseFwrcfgFromFlash (pCmdArgs : Option (BitVec 32))
  | startFwr
  | saveCfgToFlash (imageNum : BitVec 32)
  | unsupported (code : Nat)
  deriving DecidableEq, Repr

/-- An image number as the kernel's commands expect it: they send its two bytes to the device as they
are, and the device reads the high byte first. -/
def deviceOrder (imageNum : BitVec 32) : Word := hbiVal .big (imageNum.setWidth 16)

def UserCommand.command : UserCommand → Command
  | .loadFwrFromHost pCmdArgs => .loadFwrFromHost (pCmdArgs.map HbiData.pData)
  | .loadCfgrecFromHost pCmdArgs => .loadCfgrecFromHost (pCmdArgs.map HbiData.pData)
  | .loadFwrComplete => .loadFwrComplete
  | .loadFwrcfgFromFlash imageNum => .loadFwrcfgFromFlash (deviceOrder imageNum)
  | .saveFwrcfgToFlash pCmdArgs => .saveFwrcfgToFlash pCmdArgs
  | .eraseWholeFlash => .eraseWholeFlash
  | .eraseFwrcfgFromFlash pCmdArgs => .eraseFwrcfgFromFlash (pCmdArgs.map deviceOrder)
  | .startFwr => .startFwr
  | .saveCfgToFlash imageNum => .saveCfgToFlash (deviceOrder imageNum)
  | .unsupported code => .unsupported code

/-! ### The kernel -/

/-- The status of a command that was carried out, and what it stored through its argument. -/
abbrev CommandOutcome := HbiStatus × Option Word

abbrev Commands (α : Type) := Prog Command CommandOutcome α

/-- The kernel's `HBI_set_command` on an open device: only one command stores through its argument, and
one that is not supported is not carried out. -/
def kernelSetCommand : Command → Commands (HbiStatus × Option Word)
  | .unsupported _ => return (.invalidArg, none)
  | .saveFwrcfgToFlash true => Prog.query (.saveFwrcfgToFlash true)
  | cmd => do
      let (status, _) ← Prog.query cmd
      return (status, none)

/-- The ioctl codes of the host commands, with the data of their arguments. -/
inductive HbiIoctl
  | loadFw (data : HbiData)
  | loadFwComplete
  | startFw
  | loadCfg (data : HbiData)
  | flashSaveFwrCfgrec (imageNum : BitVec 32)
  | flashSaveCfgrec (imageNum : BitVec 32)
  | flashLoadFwrCfgrec (imageNum : BitVec 32)
  | flashEraseFwrcfgrec (imageNum : BitVec 32)
  | flashEraseWhole (imageNum : BitVec 32)
  deriving DecidableEq, Repr

/-- The handler reads through `NULL`, or returns, with the status and the image number it copied back.
-/
inductive IoctlResult
  | oops
  | returned (ret : Int) (status : HbiStatus) (imageNum : Option (BitVec 32))
  deriving DecidableEq, Repr

def enomem : Int := 12

/-- `HBI_LOAD_FW` and `HBI_LOAD_CFG`: the data is copied to the device's buffer, and the command gets
that buffer. -/
def sendData (cmd : Option (Option (List Byte)) → Command) (data : HbiData) : Commands IoctlResult :=
  if hbiLnxBufMaxLen < data.size then return .returned (-enomem) .resourceErr none
  else
    match data.copied with
    | none => return .oops
    | some buf => do
        let (status, _) ← kernelSetCommand (cmd (some (some buf)))
        return .returned 0 status none

/-- `image_num[2]`: the high byte of the number's low half first. -/
def imageNumBytes (imageNum : BitVec 32) : List Byte :=
  [((imageNum.sshiftRight 8) &&& 0xFF).setWidth 8, (imageNum &&& 0xFF).setWidth 8]

/-- The commands that read an image number, from the two bytes it was put in. -/
def withImageNum (cmd : Word → Command) (imageNum : BitVec 32) : Commands IoctlResult := do
  let (status, _) ← kernelSetCommand (cmd (hostWord (imageNumBytes imageNum)))
  return .returned 0 status (some imageNum)

/-- `internal_hbi_drv_ioctl` for the host commands. -/
def internalHbiDrvIoctl : HbiIoctl → Commands IoctlResult
  | .loadFw data => sendData .loadFwrFromHost data
  | .loadFwComplete => do
      let (status, _) ← kernelSetCommand .loadFwrComplete
      return .returned 0 status none
  | .startFw => do
      let (status, _) ← kernelSetCommand .startFwr
      return .returned 0 status none
  | .loadCfg data => sendData .loadCfgrecFromHost data
  | .flashSaveFwrCfgrec imageNum => do
      let (status, stored) ← kernelSetCommand (.saveFwrcfgToFlash true)
      return .returned 0 status (some ((stored.map (BitVec.setWidth 32)).getD imageNum))
  | .flashSaveCfgrec imageNum => withImageNum .saveCfgToFlash imageNum
  | .flashLoadFwrCfgrec imageNum => withImageNum .loadFwrcfgFromFlash imageNum
  | .flashEraseFwrcfgrec imageNum => withImageNum (fun n => .eraseFwrcfgFromFlash (some n)) imageNum
  | .flashEraseWhole imageNum => do
      let (status, _) ← kernelSetCommand .eraseWholeFlash
      return .returned 0 status (some imageNum)

/-! ### The user's side -/

/-- The call reads through `NULL` in the program or in the kernel, or returns, with what it stored
through `pCmdArgs`. -/
inductive UserResult
  | segfault
  | oops
  | returned (status : HbiStatus) (stored : Option Word)
  deriving DecidableEq, Repr

/-- The status made of an ioctl's return value and of the status in its argument. -/
def ioctlStatus : IoctlResult → UserResult
  | .oops => .oops
  | .returned ret status _ => .returned (if ret < 0 then .resourceErr else status) none

def ioctl (cmd : HbiIoctl) : Commands UserResult := do
  return ioctlStatus (← internalHbiDrvIoctl cmd)

/-- The two commands that send data read through `pCmdArgs` before the ioctl. -/
def userSendData (cmd : HbiData → HbiIoctl) : Option HbiData → Commands UserResult
  | none => return .segfault
  | some data => ioctl (cmd data)

/-- `HBI_set_command` of `hbi_u.c`. -/
def userHbiSetCommand (drvInitialised : Bool) (cmd : UserCommand) : Commands UserResult :=
  if !drvInitialised then return .returned .notInit none
  else
    match cmd with
    | .loadFwrFromHost pCmdArgs => userSendData .loadFw pCmdArgs
    | .loadCfgrecFromHost pCmdArgs => userSendData .loadCfg pCmdArgs
    | .loadFwrComplete => ioctl .loadFwComplete
    | .startFwr => ioctl .startFw
    | .loadFwrcfgFromFlash imageNum => ioctl (.flashLoadFwrCfgrec imageNum)
    -- the branch shared with the whole erase takes a command without a number for one
    | .eraseFwrcfgFromFlash (some imageNum) => ioctl (.flashEraseFwrcfgrec imageNum)
    | .eraseFwrcfgFromFlash none | .eraseWholeFlash => ioctl (.flashEraseWhole 0)
    | .saveFwrcfgToFlash _ => ioctl (.flashSaveFwrCfgrec 0)
    | .saveCfgToFlash imageNum => ioctl (.flashSaveCfgrec imageNum)
    | .unsupported _ => return .returned .invalidArg none

/-! ### The two encodings of an image number -/

theorem setWidth_and_255 (n : BitVec 32) : (n &&& 0xFF).setWidth 8 = n.setWidth 8 := by
  apply BitVec.eq_of_toNat_eq
  have hmask : n.toNat &&& 255 = n.toNat % 2 ^ 8 := Nat.and_two_pow_sub_one_eq_mod n.toNat 8
  rw [BitVec.toNat_setWidth, BitVec.toNat_setWidth, BitVec.toNat_and]
  change (n.toNat &&& 255) % 2 ^ 8 = _
  rw [hmask, Nat.mod_mod]

theorem setWidth_sshiftRight (n : BitVec 32) :
    (n.sshiftRight 8).setWidth 8 = ((n.setWidth 16) >>> 8).setWidth 8 := by
  apply BitVec.eq_of_getLsbD_eq
  intro i hi
  have hlow : 8 + i < 16 := by omega
  have hword : 8 + i < 32 := by omega
  have hbyte : i < 32 := by omega
  rw [BitVec.getLsbD_setWidth, BitVec.getLsbD_setWidth, BitVec.getLsbD_sshiftRight,
    BitVec.getLsbD_ushiftRight, BitVec.getLsbD_setWidth]
  simp [hi, hlow, hword, hbyte]

theorem hostWord_imageNumBytes (n : BitVec 32) : hostWord (imageNumBytes n) = deviceOrder n := by
  rw [deviceOrder, ← devWord_hostBytes]
  simp only [imageNumBytes, setWidth_and_255, setWidth_sshiftRight, hostWord, devWord, hostBytes,
    List.getD_cons_zero, List.getD_cons_succ]
  simp

/-! ### Refinement -/

/-- The user's call has the kernel carry out the command with the argument that calling the kernel
does, and returns and stores the same, whatever the outcome. -/
def SetCommandRefines (drvInitialised : Bool) (cmd : UserCommand) : Prop :=
  userHbiSetCommand drvInitialised cmd = do
    let (status, stored) ← kernelSetCommand cmd.command
    return .returned status stored

def ErasesOnRequest (drvInitialised : Bool) (cmd : UserCommand) : Prop :=
  cmd ≠ .eraseWholeFlash →
    (userHbiSetCommand drvInitialised cmd).Asks fun command => command ≠ .eraseWholeFlash

/-- The data is there and fits, the command stores nothing, and an erase has its image number. -/
def UserCommand.Carried : UserCommand → Prop
  | .loadFwrFromHost pCmdArgs | .loadCfgrecFromHost pCmdArgs =>
      ∃ bytes, pCmdArgs = some (.buffer bytes) ∧ bytes.length ≤ hbiLnxBufMaxLen
  | .saveFwrcfgToFlash _ => False
  | .eraseFwrcfgFromFlash pCmdArgs => pCmdArgs ≠ none
  | _ => True

/-- A command without an output argument, whose status is returned. -/
def plainCommand (cmd : Command) : Commands UserResult :=
  .ask cmd fun outcome => .pure (.returned outcome.1 none)

/-- Any image number reaches the kernel as calling it directly would pass it. -/
theorem withImageNum_eq (cmd : Word → Command) (imageNum : BitVec 32) :
    withImageNum cmd imageNum = do
      let (status, _) ← kernelSetCommand (cmd (deviceOrder imageNum))
      return .returned 0 status (some imageNum) := by
  rw [withImageNum, hostWord_imageNumBytes]

/-- Data reaches the kernel as it is exactly when it is there and fits. -/
theorem sendData_eq_iff {cmd : Option (Option (List Byte)) → Command}
    (hinj : Function.Injective cmd)
    (hplain : ∀ args, kernelSetCommand (cmd args)
      = .ask (cmd args) fun outcome => .pure (outcome.1, none)) (data : HbiData) :
    (do return ioctlStatus (← sendData cmd data)) = plainCommand (cmd (some data.pData)) ↔
      ∃ bytes, data = .buffer bytes ∧ bytes.length ≤ hbiLnxBufMaxLen := by
  unfold sendData
  by_cases hfits : hbiLnxBufMaxLen < data.size
  · rw [if_pos hfits]
    constructor
    · intro h
      cases h
    · intro hexists
      obtain ⟨bytes, rfl, hlen⟩ := hexists
      exact absurd hfits (Nat.not_lt_of_le hlen)
  · rw [if_neg hfits]
    cases data with
    | buffer bytes =>
        simp only [HbiData.copied, hplain]
        exact ⟨fun _ => ⟨bytes, rfl, Nat.le_of_not_lt hfits⟩, fun _ => rfl⟩
    | null size =>
        constructor
        · intro h
          cases size with
          | zero =>
              simp only [HbiData.copied, hplain] at h
              have hsame := hinj (Prog.ask.inj h).1
              cases hsame
          | succ size => cases h
        · intro hexists
          obtain ⟨bytes, hbuffer, -⟩ := hexists
          cases hbuffer

theorem userSendData_eq_iff {ioctlCmd : HbiData → HbiIoctl}
    {cmd : Option (Option (List Byte)) → Command} (hinj : Function.Injective cmd)
    (hplain : ∀ args, kernelSetCommand (cmd args)
      = .ask (cmd args) fun outcome => .pure (outcome.1, none))
    (hioctl : ∀ data, internalHbiDrvIoctl (ioctlCmd data) = sendData cmd data)
    (pCmdArgs : Option HbiData) :
    userSendData ioctlCmd pCmdArgs = plainCommand (cmd (pCmdArgs.map HbiData.pData)) ↔
      ∃ bytes, pCmdArgs = some (.buffer bytes) ∧ bytes.length ≤ hbiLnxBufMaxLen := by
  cases pCmdArgs with
  | none =>
      constructor
      · intro h
        cases h
      · simp
  | some data =>
      simp only [userSendData, ioctl, hioctl, Option.some.injEq]
      exact sendData_eq_iff hinj hplain data

theorem not_refines_uninitialised (cmd : UserCommand) : ¬ SetCommandRefines false cmd := by
  intro h
  cases cmd with
  | saveFwrcfgToFlash pCmdArgs => cases pCmdArgs <;> cases h
  | _ => cases h

theorem refines_iff (drvInitialised : Bool) (cmd : UserCommand) :
    SetCommandRefines drvInitialised cmd ↔ drvInitialised = true ∧ cmd.Carried := by
  cases drvInitialised with
  | false => simp [not_refines_uninitialised]
  | true =>
      rw [and_iff_right rfl]
      cases cmd with
      | loadFwrFromHost pCmdArgs =>
          have hinj : Function.Injective Command.loadFwrFromHost :=
            fun _ _ => Command.loadFwrFromHost.inj
          exact userSendData_eq_iff hinj (fun _ => rfl) (fun _ => rfl) pCmdArgs
      | loadCfgrecFromHost pCmdArgs =>
          have hinj : Function.Injective Command.loadCfgrecFromHost :=
            fun _ _ => Command.loadCfgrecFromHost.inj
          exact userSendData_eq_iff hinj (fun _ => rfl) (fun _ => rfl) pCmdArgs
      | loadFwrComplete | startFwr | eraseWholeFlash | unsupported _ =>
          exact ⟨fun _ => trivial, fun _ => rfl⟩
      | loadFwrcfgFromFlash imageNum | saveCfgToFlash imageNum =>
          refine ⟨fun _ => trivial, fun _ => ?_⟩
          simp only [SetCommandRefines, userHbiSetCommand, ioctl, internalHbiDrvIoctl,
            withImageNum_eq]
          rfl
      | saveFwrcfgToFlash pCmdArgs =>
          refine ⟨fun h => ?_, False.elim⟩
          cases pCmdArgs with
          | false => cases (Prog.ask.inj h).1
          | true =>
              -- the outcome that stores an image number is not handed back
              have hstored := congrFun (Prog.ask.inj h).2 (.success, some 0)
              cases hstored
      | eraseFwrcfgFromFlash pCmdArgs =>
          cases pCmdArgs with
          | none =>
              refine ⟨fun h => ?_, fun h => (h rfl).elim⟩
              cases (Prog.ask.inj h).1
          | some imageNum =>
              refine ⟨fun _ => Option.some_ne_none _, fun _ => ?_⟩
              simp only [SetCommandRefines, userHbiSetCommand, ioctl, internalHbiDrvIoctl,
                withImageNum_eq]
              rfl

theorem kernelSetCommand_asks {cmd : Command} (h : cmd ≠ .eraseWholeFlash) :
    (kernelSetCommand cmd).Asks fun command => command ≠ .eraseWholeFlash := by
  cases cmd with
  | unsupported _ => trivial
  | saveFwrcfgToFlash valp => cases valp <;> exact ⟨h, fun _ => trivial⟩
  | _ => exact ⟨h, fun _ => trivial⟩

theorem UserCommand.command_eraseWholeFlash {cmd : UserCommand}
    (h : cmd.command = .eraseWholeFlash) : cmd = .eraseWholeFlash := by
  cases cmd <;> first | rfl | cases h

/-- The user's call does what calling the kernel does, and in particular erases the whole flash only on
request, exactly when the user-space driver is initialised, the data of the command is there and fits,
the command stores nothing, and an erase of one image has its number. -/
theorem set_command_refines_iff (drvInitialised : Bool) (cmd : UserCommand) :
    (SetCommandRefines drvInitialised cmd ∧ ErasesOnRequest drvInitialised cmd) ↔
      drvInitialised = true ∧ cmd.Carried := by
  constructor
  · intro hboth
    obtain ⟨hrefines, -⟩ := hboth
    exact (refines_iff drvInitialised cmd).1 hrefines
  · intro hcarried
    have hrefines := (refines_iff drvInitialised cmd).2 hcarried
    refine ⟨hrefines, fun hother => ?_⟩
    have hcommand : cmd.command ≠ .eraseWholeFlash :=
      fun herase => hother (UserCommand.command_eraseWholeFlash herase)
    rw [show userHbiSetCommand drvInitialised cmd = _ from hrefines]
    exact (kernelSetCommand_asks hcommand).bind fun _ => trivial

/-- An erase of one image without its number erases the whole flash; the kernel refuses it. -/
theorem erase_without_number :
    (userHbiSetCommand true (.eraseFwrcfgFromFlash none)
        = plainCommand .eraseWholeFlash) ∧
      ¬ SetCommandRefines true (.eraseFwrcfgFromFlash none) ∧
      ¬ ErasesOnRequest true (.eraseFwrcfgFromFlash none) ∧
      ∀ pDev answer, (internalHbiSetCommand pDev
        (UserCommand.eraseFwrcfgFromFlash none).command).run answer [] = ([], .invalidArg, none) := by
  refine ⟨rfl, ?_, ?_, fun _ _ => rfl⟩
  · intro h
    cases (Prog.ask.inj h).1
  · intro h
    exact (h (by decide)).1 rfl

/-! ### The device layer below -/

theorem twSaveFwrcfgToFlash_returns (pDev : TwDev) :
    (twSaveFwrcfgToFlash pDev false).Returns fun outcome => outcome.2 = none := by
  unfold twSaveFwrcfgToFlash
  refine .bind fun status => ?_
  split
  · rfl
  refine .bind fun status => ?_
  split
  · rfl
  refine .bind fun status => ?_
  split
  · rfl
  refine .bind fun status => ?_
  split
  · rfl
  refine .bind fun hmiResponse => ?_
  dsimp only
  split
  · rfl
  · rfl

/-- With the device layer carrying the commands out, the kernel's `HBI_set_command` is the device
layer's. -/
theorem handled_kernelSetCommand (pDev : TwDev) (cmd : Command) :
    (kernelSetCommand cmd).handled (internalHbiSetCommand pDev) = internalHbiSetCommand pDev cmd := by
  cases cmd with
  | unsupported _ => rfl
  | saveFwrcfgToFlash valp =>
      cases valp with
      | true => exact Prog.handled_query _ _
      | false =>
          refine (twSaveFwrcfgToFlash_returns pDev).bind_eq ?_
          intro hexists heq
          obtain ⟨status, stored⟩ := hexists
          subst heq
          rfl
  | _ => exact Prog.bind_assoc _ _ _

/-- A call that refines the kernel's makes the same accesses to the device, whatever it answers. -/
theorem SetCommandRefines.handled {drvInitialised : Bool} {cmd : UserCommand}
    (h : SetCommandRefines drvInitialised cmd) (pDev : TwDev) :
    (userHbiSetCommand drvInitialised cmd).handled (internalHbiSetCommand pDev) = do
      let (status, stored) ← internalHbiSetCommand pDev cmd.command
      return .returned status stored := by
  rw [show userHbiSetCommand drvInitialised cmd = _ from h, Prog.handled_bind,
    handled_kernelSetCommand]
  rfl

end VprocSdk
