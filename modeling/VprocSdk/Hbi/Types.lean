import Mathlib.Data.List.Basic
import Mathlib.Tactic.IntervalCases

/-!
# Status codes, registers and commands

The enumerations of `hbi.h` and `ssl.h`, the register map of `zl380xx_tw.h` as far as the driver uses
it, and the byte order of 16-bit register values. The host is little-endian, as the default build
configures it; the device is big- or little-endian.
-/

namespace VprocSdk

abbrev Byte := BitVec 8
abbrev Word := BitVec 16

inductive HbiStatus
  | notInit | internalErr | resourceErr | invalidArg | badHandle | badImage | flashFull
  | noFlashPresent | commandErr | incompatApp | invalidState | opIncomplete | success
  deriving DecidableEq, Repr

/-- The number the compiler gives an `hbi_status_t`: the enumeration counts from zero. -/
def HbiStatus.code : HbiStatus → Nat
  | .notInit => 0 | .internalErr => 1 | .resourceErr => 2 | .invalidArg => 3 | .badHandle => 4
  | .badImage => 5 | .flashFull => 6 | .noFlashPresent => 7 | .commandErr => 8
  | .incompatApp => 9 | .invalidState => 10 | .opIncomplete => 11 | .success => 12

inductive SslStatus
  | notInit | invalidArg | internalErr | badHandle | resourceErr | timeout | failed | opIncomplete
  | ok
  deriving DecidableEq, Repr

inductive DevEndian
  | big | little
  deriving DecidableEq, Repr

/-- `hbi_dev_cfg_t`. A lock handle of zero is `NULL`. -/
structure DevCfg where
  deviceId : Int
  pDevName : Option String
  devAddr : Byte
  busNum : Byte
  devLock : Nat
  deriving DecidableEq, Repr

/-- `hbi_cmd_t` together with the argument each command takes through `pCmdArgs`. A command that
checks its pointer takes an option, with `none` for `NULL`; one that reads through it unchecked takes
the value it points to. -/
inductive Command
  | loadFwrFromHost (args : Option (Option (List Byte)))
  | loadCfgrecFromHost (args : Option (Option (List Byte)))
  | loadFwrComplete
  | loadFwrcfgFromFlash (imageNumber : Word)
  | saveFwrcfgToFlash (valp : Bool)
  | eraseWholeFlash
  | eraseFwrcfgFromFlash (imageNumber : Option Word)
  | startFwr
  | saveCfgToFlash (imageNumber : Word)
  | unsupported (code : Nat)
  deriving DecidableEq, Repr

abbrev Command.firmware (chunk : List Byte) : Command := .loadFwrFromHost (some (some chunk))

/-! ### Buffers -/

/-- `HBI_BUFFER_SIZE`, as the default build sets it. -/
def hbiBufferSize : Nat := 1024

def hbiLnxBufMaxLen : Nat := 512 * 1024

/-! ### Registers -/

abbrev RegAddr := Word

namespace Reg

def hostSwFlags : RegAddr := 0x0006
def clkStatus : RegAddr := 0x0014
def fwrCount : RegAddr := 0x0026
def curLoadedFwImg : RegAddr := 0x0028
def hostCmd : RegAddr := 0x0032
def hostCmdParamResult : RegAddr := 0x0034
def cfgRecChksum : RegAddr := 0x01F2
def aecCtrl0 : RegAddr := 0x0300

end Reg

def hostSwFlagsHostCmd : Word := 0x0001
def hostSwFlagsAppReboot : Word := 0x0002
def hostSwFlagsAppHostCmd : Word := 0x0004
def clkStatusHwrst : Word := 0x0001
def clkStatusRst : Word := 0x0004
def clkStatusPor : Word := 0x0008
def curFwAppRunning : Word := 0x8000
def aecRst : Word := 0x0001

/-! `ZL380xx_HOST_CMD`: the host commands the driver issues. -/

namespace HostCmd

def idle : Word := 0x0000
def imgCfgLoad : Word := 0x0002
def imgCfgSave : Word := 0x0004
def imgCfgErase : Word := 0x0005
def fwrGo : Word := 0x0008
def eraseFlashInit : Word := 0x0009
def hostFlashInit : Word := 0x000B
def hostLoadCmp : Word := 0x000D
def appSaveCfgToFlash : Word := 0x8002
def appSleep : Word := 0x8005

end HostCmd

/-! `ZL380xx_HMI_RESPONSE`: the responses the driver tells apart. -/

namespace HmiResp

def success : Word := 0x0000
def badImage : Word := 0x0001
def flashFull : Word := 0x0003
def noFlashPresent : Word := 0x0006
def incompatApp : Word := 0x000B
def flashInitNoDev : Word := 0x0000
def flashInitOk : Word := 0x6000

end HmiResp

/-! ### Byte order -/

/-- The bytes a 16-bit variable occupies in the host's memory. -/
def hostBytes (val : Word) : List Byte := [val.setWidth 8, (val >>> 8).setWidth 8]

/-- The 16-bit variable the host reads from the first two bytes of a buffer. -/
def hostWord (buf : List Byte) : Word := buf.getD 1 0 ++ buf.getD 0 0

/-- `HBI_VAL`: swap the bytes when host and device disagree on their order. -/
def hbiVal (endianness : DevEndian) (val : Word) : Word :=
  match endianness with
  | .big => ((val &&& 0xFF) <<< 8) ||| (val >>> 8)
  | .little => val

/-- The value a device reads in two bytes sent to it. -/
def devWord (endianness : DevEndian) (buf : List Byte) : Word :=
  match endianness with
  | .big => buf.getD 0 0 ++ buf.getD 1 0
  | .little => buf.getD 1 0 ++ buf.getD 0 0

/-- The two bytes in which a device sends a value. -/
def devBytes (endianness : DevEndian) (val : Word) : List Byte :=
  match endianness with
  | .big => [(val >>> 8).setWidth 8, val.setWidth 8]
  | .little => [val.setWidth 8, (val >>> 8).setWidth 8]

private theorem getLsbD_255 (i : Nat) (hi : i < 8) : (255#16).getLsbD i = true := by
  interval_cases i <;> rfl

private theorem swap_append (hi lo : Byte) :
    (((hi ++ lo : Word) &&& 0xFF) <<< 8) ||| ((hi ++ lo : Word) >>> 8) = (lo ++ hi : Word) := by
  apply BitVec.eq_of_getLsbD_eq
  intro i hi'
  simp only [BitVec.getLsbD_or, BitVec.getLsbD_shiftLeft, BitVec.getLsbD_and,
    BitVec.getLsbD_ushiftRight, BitVec.getLsbD_append]
  by_cases h : i < 8
  · simp [h]
  · have hlow : i - 8 < 8 := by omega
    simp [h, hlow, hi', getLsbD_255 _ hlow, BitVec.getLsbD_of_ge hi i (by omega)]

private theorem append_split (val : Word) :
    ((val >>> 8).setWidth 8 ++ val.setWidth 8 : Word) = val := by
  apply BitVec.eq_of_getLsbD_eq
  intro i hi
  simp only [BitVec.getLsbD_append, BitVec.getLsbD_setWidth, BitVec.getLsbD_ushiftRight]
  by_cases h : i < 8
  · simp [h]
  · have h1 : i - 8 < 8 := by omega
    have h2 : 8 + (i - 8) = i := by omega
    simp [h, h1, h2]

@[simp] theorem hbiVal_hostWord_devBytes (e : DevEndian) (val : Word) :
    hbiVal e (hostWord (devBytes e val)) = val := by
  cases e with
  | big => simpa [hbiVal, hostWord, devBytes] using (swap_append _ _).trans (append_split val)
  | little => simpa [hbiVal, hostWord, devBytes] using append_split val

@[simp] theorem devWord_hostBytes (e : DevEndian) (val : Word) :
    devWord e (hostBytes val) = hbiVal e val := by
  cases e with
  | big =>
      have h := swap_append ((val >>> 8).setWidth 8) (val.setWidth 8)
      rw [append_split] at h
      simpa [devWord, hostBytes, hbiVal] using h.symm
  | little => simpa [devWord, hostBytes, hbiVal] using append_split val

@[simp] theorem hostBytes_length (val : Word) : (hostBytes val).length = 2 := rfl

@[simp] theorem devBytes_length (e : DevEndian) (val : Word) : (devBytes e val).length = 2 := by
  cases e <;> rfl

@[simp] theorem hbiVal_hbiVal (e : DevEndian) (val : Word) : hbiVal e (hbiVal e val) = val := by
  cases e with
  | little => rfl
  | big =>
      have h := swap_append ((val >>> 8).setWidth 8) (val.setWidth 8)
      rw [append_split] at h
      simp only [hbiVal]
      rw [h, swap_append, append_split]

theorem hbiVal_eq_zero (e : DevEndian) (val : Word) : hbiVal e val = 0 ↔ val = 0 := by
  constructor
  · intro h
    rw [← hbiVal_hbiVal e val, h]
    cases e <;> rfl
  · intro heq
    subst heq
    cases e <;> rfl

end VprocSdk
