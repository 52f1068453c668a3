import VprocSdk.Tw.Access

/-!
# The device commands of `hbi_tw.c`

Each function of the file is a program of register accesses, under the source's name and in the
source's order. Delays and debug prints carry no data and are left out. The build is the default one:
flash present, no open-drain interrupt.

`hmi_response` is a 16-bit value here: `tw_cmdresult_check` returns either the two bytes it read or,
when the read fails, the number of a status code.
-/

namespace VprocSdk

open Lib

def twolfMbcmdregSpinwait : Nat := 10000
def twRstWaitCnt : Nat := 10000

/-- The wait loop of `tw_mbox_acquire` and `tw_cmdreg_acquire`: read a register until its value is
the one waited for, at most `n` times. -/
def spin (reg : RegAddr) (released : Word → Bool) : Nat → Tw HbiStatus
  | 0 => return .resourceErr
  | n + 1 => do
      match ← readWord reg with
      | .error status => return status
      | .ok temp => if released temp then return .success else spin reg released n

def hostCmdFlagClear (pDev : TwDev) (temp : Word) : Bool :=
  hbiVal pDev.endianness temp &&& hostSwFlagsHostCmd = 0

/-- `tw_mbox_acquire`: wait until the host owns the mailbox. -/
def twMboxAcquire (pDev : TwDev) : Tw HbiStatus :=
  spin Reg.hostSwFlags (hostCmdFlagClear pDev) twolfMbcmdregSpinwait

/-- `tw_cmdreg_acquire`: wait until the last command is completed. -/
def twCmdregAcquire : Tw HbiStatus :=
  spin Reg.hostCmd (fun temp => temp = HostCmd.idle) twolfMbcmdregSpinwait

def twCmdresultCheck : Tw Word := do
  match ← readWord Reg.hostCmdParamResult with
  | .error status => return BitVec.ofNat 16 status.code
  | .ok buf => return buf

/-- `tw_wr_cmdreg`: write a host command, notify the firmware, wait for completion. -/
def twWrCmdreg (pDev : TwDev) (cmd : Word) : Tw HbiStatus := do
  let status ← twMboxAcquire pDev
  if status ≠ .success then return status
  let status ← writeWord Reg.hostCmd (hbiVal pDev.endianness cmd)
  if status ≠ .success then return status
  let status ← writeWord Reg.hostSwFlags (hbiVal pDev.endianness hostSwFlagsHostCmd)
  if status ≠ .success then return status
  twCmdregAcquire

/-! ### Reset and boot mode -/

inductive RstMode
  | hardwareRam | hardwareRom | software | aec | toBoot
  deriving DecidableEq, Repr

/-- The `do .. while` of the two polled resets: read the register while the bit waited on is set and
the count, increased at each test, is below the limit. Returns the last status, the last value read
and the count. -/
def rstPoll (pDev : TwDev) (reg : RegAddr) : Nat → Nat → Word → Tw (HbiStatus × Word × Nat)
  | 0, count, val => return (.success, val, count)
  | fuel + 1, count, val => do
      match ← readWord reg with
      | .error status => return (status, val, count)
      | .ok val =>
          if hbiVal pDev.endianness val &&& 1 = 0 then return (.success, val, count)
          if count < twRstWaitCnt then rstPoll pDev reg fuel (count + 1) val
          else return (.success, val, count + 1)

def twReset (pDev : TwDev) (mode : RstMode) : Tw HbiStatus := do
  match mode with
  | .hardwareRam =>
      writeWord Reg.clkStatus (hbiVal pDev.endianness (clkStatusHwrst ||| clkStatusRst))
  | .hardwareRom =>
      writeWord Reg.clkStatus (hbiVal pDev.endianness (clkStatusHwrst ||| clkStatusPor))
  | .aec =>
      match ← readWord Reg.aecCtrl0 with
      | .error status => return status
      | .ok val =>
          let val := val ||| hbiVal pDev.endianness aecRst
          let status ← writeWord Reg.aecCtrl0 val
          if status ≠ .success then return status
          let (status, _, count) ← rstPoll pDev Reg.aecCtrl0 (twRstWaitCnt + 1) 0 val
          if status ≠ .success then return status
          if count ≥ twRstWaitCnt then return .internalErr
          return status
  | .software =>
      let val := hbiVal pDev.endianness hostSwFlagsAppReboot
      let status ← writeWord Reg.hostSwFlags val
      if status ≠ .success then return status
      let (status, val, count) ← rstPoll pDev Reg.hostSwFlags (twRstWaitCnt + 1) 0 val
      if hbiVal pDev.endianness val &&& 1 ≠ 0 ∧ count ≥ twRstWaitCnt then return .internalErr
      return status
  | .toBoot =>
      let status ← writeWord Reg.clkStatus (hbiVal pDev.endianness clkStatusHwrst)
      if status ≠ .success then return status
      match ← readWord Reg.hostCmdParamResult with
      | .error _ => return .internalErr
      | .ok val => if val ≠ 0xD3D3 then return .internalErr else return .success

/-- `tw_chk_dev_boot_rom_mode`: zero when the application runs, one in boot ROM mode; a failed read
returns its status code through the same integer. -/
def twChkDevBootRomMode (pDev : TwDev) : Tw Int := do
  match ← readWord Reg.curLoadedFwImg with
  | .error status => return status.code
  | .ok val1 =>
      if hbiVal pDev.endianness val1 &&& curFwAppRunning ≠ 0 then return 0 else return 1

/-- The opening of the commands that need the boot ROM: test the mode, and reset into the boot ROM
when the application runs. -/
def enterBootRom (pDev : TwDev) : Tw HbiStatus := do
  let ret ← twChkDevBootRomMode pDev
  if ret < 0 then return .internalErr
  if ret = 0 then twReset pDev .toBoot else return .success

/-! ### Reading the response of a command -/

def bootConcludeStatus (hmiResponse : Word) : HbiStatus :=
  if hmiResponse = HmiResp.incompatApp then .incompatApp
  else if hmiResponse = HmiResp.success then .success else .commandErr

def initCheckFlashStatus (hmiResponse : Word) : HbiStatus :=
  if hmiResponse = HmiResp.flashInitOk then .success
  else if hmiResponse = HmiResp.flashInitNoDev then .noFlashPresent else .internalErr

/-- The switch of `tw_erase_flash` and `tw_erase_fwrcfg_from_flash`, which differ in the response
they take for success. -/
def eraseStatus (succeeded hmiResponse : Word) : HbiStatus :=
  if hmiResponse = succeeded then .success
  else if hmiResponse = HmiResp.badImage then .badImage
  else if hmiResponse = HmiResp.incompatApp then .incompatApp
  else if hmiResponse = HmiResp.noFlashPresent then .noFlashPresent else .commandErr

def plainStatus (hmiResponse : Word) : HbiStatus :=
  if hmiResponse ≠ HmiResp.success then .commandErr else .success

/-- The status `tw_save_fwrcfg_to_flash` makes of a response already passed through `HBI_VAL`: it
applies `HBI_VAL` a second time before comparing with the flash-full code. -/
def saveFwrcfgStatus (pDev : TwDev) (hmiResponse : Word) : HbiStatus :=
  if hmiResponse ≠ HmiResp.success then
    if hbiVal pDev.endianness hmiResponse = HmiResp.flashFull then .flashFull else .commandErr
  else .success

/-! ### The commands -/

def twBootConclude (pDev : TwDev) : Tw HbiStatus := do
  let status ← twWrCmdreg pDev HostCmd.hostLoadCmp
  if status ≠ .success then return status
  let hmiResponse ← twCmdresultCheck
  return bootConcludeStatus (hbiVal pDev.endianness hmiResponse)

def twWrTransportCmd (pDev : TwDev) (cmdword : Word) : Tw HbiStatus := do
  let sslStatus ← sslPortWrite (hostBytes (hbiVal pDev.endianness cmdword))
  return if sslStatus = .ok then .success else .internalErr

def twInitCheckFlash (pDev : TwDev) : Tw HbiStatus := do
  let status ← twWrCmdreg pDev HostCmd.hostFlashInit
  if status ≠ .success then return status
  let hmiResponse ← twCmdresultCheck
  return initCheckFlashStatus (hbiVal pDev.endianness hmiResponse)

/-- `tw_save_cfg_to_flash`. The image number is an unsigned variable, so only zero is refused. -/
def twSaveCfgToFlash (pDev : TwDev) (imageNumber : Word) : Tw HbiStatus := do
  if imageNumber = 0 then return .invalidArg
  match ← readWord Reg.fwrCount with
  | .error status => return status
  | .ok val =>
    let val := hbiVal pDev.endianness val
    let imageNumber := hbiVal pDev.endianness imageNumber
    if imageNumber > val then return .invalidArg
    let status ← writeWord Reg.cfgRecChksum 0
    if status ≠ .success then return status
    let status ← internalHbiWrite Reg.hostCmdParamResult (commandBytes imageNumber)
    if status ≠ .success then return status
    let status ← twMboxAcquire pDev
    if status ≠ .success then return status
    let ret ← twChkDevBootRomMode pDev
    if ret ≠ 0 then
      let status ← twInitCheckFlash pDev
      if status ≠ .success then return status
      let status ← writeWord Reg.hostCmd (hbiVal pDev.endianness HostCmd.imgCfgSave)
      if status ≠ .success then return status
      saveCfgNotify pDev hostSwFlagsHostCmd
    else
      let status ← writeWord Reg.hostCmd (hbiVal pDev.endianness HostCmd.appSaveCfgToFlash)
      if status ≠ .success then return status
      saveCfgNotify pDev hostSwFlagsAppHostCmd
where
  /-- The end both modes share: set the mode's flag and read the result at once. -/
  saveCfgNotify (pDev : TwDev) (flag : Word) : Tw HbiStatus := do
    let status ← writeWord Reg.hostSwFlags (hbiVal pDev.endianness flag)
    if status ≠ .success then return status
    let hmiResponse ← twCmdresultCheck
    return plainStatus (hbiVal pDev.endianness hmiResponse)

def twSleep (pDev : TwDev) : Tw HbiStatus := do
  let status ← twMboxAcquire pDev
  if status ≠ .success then return status
  let status ← writeWord Reg.hostCmd (hbiVal pDev.endianness HostCmd.appSleep)
  if status ≠ .success then return status
  writeWord Reg.hostSwFlags (hbiVal pDev.endianness hostSwFlagsAppHostCmd)

def twLoadFwrcfgFromFlash (pDev : TwDev) (imageNumber : Word) : Tw HbiStatus := do
  if imageNumber.toInt ≤ 0 then return .invalidArg
  let status ← enterBootRom pDev
  if status ≠ .success then return status
  let status ← twInitCheckFlash pDev
  if status ≠ .success then return status
  let status ← writeWord Reg.hostCmdParamResult imageNumber
  if status ≠ .success then return status
  let status ← twWrCmdreg pDev HostCmd.imgCfgLoad
  if status ≠ .success then return status
  let hmiResponse ← twCmdresultCheck
  return plainStatus (hbiVal pDev.endianness hmiResponse)

/-- `tw_save_fwrcfg_to_flash`. The second component is what is stored through `pVal`. -/
def twSaveFwrcfgToFlash (pDev : TwDev) (pVal : Bool) : Tw (HbiStatus × Option Word) := do
  let status ← enterBootRom pDev
  if status ≠ .success then return (status, none)
  let status ← twInitCheckFlash pDev
  if status ≠ .success then return (status, none)
  let status ← writeWord Reg.cfgRecChksum 0
  if status ≠ .success then return (status, none)
  let status ← twWrCmdreg pDev HostCmd.imgCfgSave
  if status ≠ .success then return (status, none)
  let hmiResponse ← twCmdresultCheck
  let status := saveFwrcfgStatus pDev (hbiVal pDev.endianness hmiResponse)
  if status ≠ .success then return (status, none)
  if !pVal then return (.success, none)
  match ← readWord Reg.fwrCount with
  | .error status => return (status, none)
  | .ok numFwrImages => return (.success, some (hbiVal pDev.endianness numFwrImages))

def twEraseFlash (pDev : TwDev) : Tw HbiStatus := do
  let status ← enterBootRom pDev
  if status ≠ .success then return status
  let status ← twInitCheckFlash pDev
  if status ≠ .success then return status
  let status ← writeWord Reg.hostCmdParamResult (hbiVal pDev.endianness 0xAA55)
  if status ≠ .success then return status
  let status ← twWrCmdreg pDev HostCmd.eraseFlashInit
  if status ≠ .success then return status
  let hmiResponse ← twCmdresultCheck
  return eraseStatus HmiResp.flashInitOk (hbiVal pDev.endianness hmiResponse)

/-- `tw_start_fwr_from_ram`: the one command that refuses to reset into the boot ROM. -/
def twStartFwrFromRam (pDev : TwDev) : Tw HbiStatus := do
  let ret ← twChkDevBootRomMode pDev
  if ret < 0 then return .internalErr
  if ret = 0 then return .invalidState
  let status ← twWrCmdreg pDev HostCmd.fwrGo
  if status ≠ .success then return status
  let hmiResponse ← twCmdresultCheck
  return plainStatus (hbiVal pDev.endianness hmiResponse)

def twEraseFwrcfgFromFlash (pDev : TwDev) (pCmdArgs : Option Word) : Tw HbiStatus := do
  match pCmdArgs with
  | none => return .invalidArg
  | some imageNumber =>
    if imageNumber.toInt ≤ 0 then return .invalidArg
    let status ← enterBootRom pDev
    if status ≠ .success then return status
    let status ← twInitCheckFlash pDev
    if status ≠ .success then return status
    let status ← writeWord Reg.hostCmdParamResult imageNumber
    if status ≠ .success then return status
    let status ← twWrCmdreg pDev HostCmd.imgCfgErase
    if status ≠ .success then return status
    let hmiResponse ← twCmdresultCheck
    return eraseStatus HmiResp.success (hbiVal pDev.endianness hmiResponse)

/-- `tw_boot_write`: one chunk of firmware, sent raw to the port. -/
def twBootWrite (pDev : TwDev) (pCmdArgs : Option (Option (List Byte))) : Tw HbiStatus := do
  match pCmdArgs with
  | none | some none => return .invalidArg
  | some (some pFwrData) =>
    let status ← enterBootRom pDev
    if status ≠ .success then return status
    let sslStatus ← sslPortWrite pFwrData
    return if sslStatus = .ok then .success else .internalErr

/-- `tw_config_write`: one chunk of a configuration record, sent raw to the port in any mode. -/
def twConfigWrite (pCmdArgs : Option (Option (List Byte))) : Tw HbiStatus := do
  match pCmdArgs with
  | none | some none => return .invalidArg
  | some (some pCfgData) =>
    let sslStatus ← sslPortWrite pCfgData
    return if sslStatus = .ok then .success else .internalErr

/-! ### Entry points -/

inductive HbiAttrib
  | devEndian (pVal : Option DevEndian)
  | sleep (pVal : Option Nat)
  | configInt

def hbiConfigIfCmd : Word := 0xFD00
def hbiConfigIfEndianLittle : Word := 0x0001
def hbiConfigIntModeOd : Word := 0x0002
def hbiConfigWake : Word := 0x0080

def internalHbiSetAttrib (pDev : TwDev) (attrib : HbiAttrib) : Tw HbiStatus := do
  match attrib with
  | .devEndian none | .sleep none => return .invalidArg
  | .devEndian (some .big) => twWrTransportCmd pDev hbiConfigIfCmd
  | .devEndian (some .little) => twWrTransportCmd pDev (hbiConfigIfCmd ||| hbiConfigIfEndianLittle)
  | .sleep (some 0) =>
      let _ ← twWrTransportCmd pDev (hbiConfigIfCmd ||| hbiConfigWake)
      twWrTransportCmd pDev hbiConfigIfCmd
  | .sleep (some _) => twSleep pDev
  | .configInt => twWrTransportCmd pDev (hbiConfigIfCmd ||| hbiConfigIntModeOd)

/-- `internal_hbi_set_command`: the status, and what the command stores through its argument. -/
def internalHbiSetCommand (pDev : TwDev) (cmd : Command) : Tw (HbiStatus × Option Word) :=
  let plain (p : Tw HbiStatus) : Tw (HbiStatus × Option Word) := do return (← p, none)
  match cmd with
  | .loadFwrcfgFromFlash imageNumber => plain (twLoadFwrcfgFromFlash pDev imageNumber)
  | .loadCfgrecFromHost args => plain (twConfigWrite args)
  | .saveFwrcfgToFlash valp => twSaveFwrcfgToFlash pDev valp
  | .saveCfgToFlash imageNumber => plain (twSaveCfgToFlash pDev imageNumber)
  | .eraseFwrcfgFromFlash args => plain (twEraseFwrcfgFromFlash pDev args)
  | .eraseWholeFlash => plain (twEraseFlash pDev)
  | .loadFwrFromHost args => plain (twBootWrite pDev args)
  | .loadFwrComplete => plain (twBootConclude pDev)
  | .startFwr => plain (twStartFwrFromRam pDev)
  | .unsupported _ => return (.invalidArg, none)

end VprocSdk
