import VprocSdk.Apps.ConfigRecord
import VprocSdk.Image.HeaderCodec
import VprocSdk.Image.ScriptLoad
import VprocSdk.Lib.PyText

/-!
# The firmware and flash script

`hbi_load_firmware.py`: the functions that stop, start and load a firmware and that keep it in flash, and
the main program that calls them as its arguments say. Each is a program that asks the Python wrapper of
the driver and may raise. A loop that waits for the device takes fuel and is cut off when it runs out;
delays and messages to the terminal are left out.

The status of a read or a write is not looked at. A read returns as many bytes as are asked for, whatever
the driver has put in them.
-/

namespace VprocSdk

open Lib

/-- What the script asks: the driver's calls, a write of registers, whether a wait has taken more than a
number of seconds, and a device to open. -/
inductive PyAsk
  | hbi (ask : HbiAsk)
  | write (handle : Nat) (reg : RegAddr) (data : List Byte)
  | past (seconds : Nat)
  | open (deviceId : Int)
  deriving DecidableEq, Repr

structure PyReply where
  hbi : HbiReply
  late : Bool
  handle : Nat
  deriving DecidableEq, Repr

/-- How a script leaves a function before its end: an exception, a variable or an attribute that has no value
yet, a null pointer of the wrapper, or a loop that is cut off. -/
inductive PyStop
  | raised (e : PyError)
  | nameError
  | attributeError
  | crashed
  | waiting
  deriving DecidableEq, Repr

abbrev PyScript (α : Type) := ExceptT PyStop (Prog PyAsk PyReply) α

def pyRaise {α : Type} (msg : String) : PyScript α := throw (.raised (.valueError msg))

def pyAsk (ask : PyAsk) : PyScript PyReply := ExceptT.lift (Prog.query ask)

/-- A program of driver calls, as a part of the script. -/
def pyCall {α : Type} (p : Loader α) : PyScript α :=
  ExceptT.lift (p.handled fun ask => do
    let reply ← Prog.query (.hbi ask)
    return reply.hbi)

theorem pyCall_bind {α β : Type} (p : Loader α) (f : α → Loader β) :
    pyCall (p >>= f) = pyCall p >>= fun a => pyCall (f a) := by
  induction p with
  | pure a => rfl
  | ask q next ih => exact congrArg (Prog.ask (PyAsk.hbi q)) (funext fun reply => ih reply.hbi)

def PyReply.bytes (reply : PyReply) (length : Nat) : List Byte :=
  (List.range length).map (reply.hbi.data.getD · 0)

def PyReply.number (reply : PyReply) (length : Nat) : Nat := formatNumber (reply.bytes length)

/-- `HBI_read`, and the number its bytes are. -/
def pyRead (handle : Nat) (reg : RegAddr) (length : Nat) : PyScript Nat := do
  let reply ← pyAsk (.hbi (.read handle reg length))
  return reply.number length

def pyWrite (handle : Nat) (reg : RegAddr) (data : List Byte) : PyScript Unit := do
  let _ ← pyAsk (.write handle reg data)
  return ()

/-- `sys.maxint` of the board. -/
def pyMaxInt : Int := 2 ^ 31 - 1

/-- `HBI_write` of a pair whose second element is a number the script was given. -/
def pyWriteIndex (handle : Nat) (reg : RegAddr) (index : Int) : PyScript Unit :=
  if -pyMaxInt - 1 ≤ index ∧ index ≤ pyMaxInt then pyWrite handle reg [0x00, BitVec.ofInt 8 index]
  else pyRaise "Expecting a list of ints"

/-- A number as `%X` prints it. -/
def pyHex (n : Nat) : String := (String.ofList (Nat.toDigits 16 n)).map Char.toUpper

/-! ### The functions -/

/-- `BusySpinWait`: the register 0x032 reads 0xFFFF while a command is processed. -/
def busySpinWait (handle : Nat) : Nat → PyScript Unit
  | 0 => throw .waiting
  | fuel + 1 => do
      if (← pyRead handle 0x032 2) = 0xFFFF then
        if (← pyAsk (.past 30)).late then pyRaise "Error - BusySpinWait(): Timeout"
        busySpinWait handle fuel

def softReset (fuel handle : Nat) : PyScript Unit := do
  pyWrite handle 0x006 [0x00, 0x02]
  busySpinWait handle fuel

/-- The wait of `StopFirmware`: the register 0x034 reads 0xD3D3 when the reboot is complete. -/
def stopSpinWait (handle : Nat) : Nat → PyScript Unit
  | 0 => throw .waiting
  | fuel + 1 => do
      if (← pyRead handle 0x034 2) ≠ 0xD3D3 then
        if (← pyAsk (.past 5)).late then pyRaise "Error - StopFirmware(): Timeout in StopFirmware"
        stopSpinWait handle fuel

def stopFirmware (fuel handle : Nat) : PyScript Unit := do
  pyWrite handle 0x014 [0x00, 0x01]
  stopSpinWait handle fuel

def startFirmware (fuel handle : Nat) (skipError : Bool) : PyScript Unit := do
  pyWrite handle 0x032 [0x00, 0x08]
  pyWrite handle 0x006 [0x00, 0x01]
  busySpinWait handle fuel
  if ¬ (← pyCall (isFirmwareRunning handle)) then
    if ¬ skipError then pyRaise "Error - StartFirmware(): Firmware cannot start"

/-- The end of the flash commands: the low bits of the result are a status. -/
def flashResult (handle : Nat) : PyScript Nat := do
  return (← pyRead handle 0x034 2) &&& 0x000F

def initFlash (fuel handle : Nat) (skipError : Bool) : PyScript Unit := do
  if ← pyCall (isFirmwareRunning handle) then pyRaise "Error - InitFlash(): Firmware running"
  pyWrite handle 0x032 [0x00, 0x0B]
  pyWrite handle 0x006 [0x00, 0x01]
  busySpinWait handle fuel
  let status ← flashResult handle
  if status ≠ 0 then
    if ¬ skipError then
      pyRaise ("Error - InitFlash(): Cannot initialize the flash (0x" ++ pyHex status ++ ")")

def eraseFlash (fuel handle : Nat) : PyScript Unit := do
  if ← pyCall (isFirmwareRunning handle) then pyRaise "Error - EraseFlash(): Firmware running"
  initFlash fuel handle false
  pyWrite handle 0x032 [0x00, 0x09]
  pyWrite handle 0x034 [0xAA, 0x55]
  pyWrite handle 0x006 [0x00, 0x01]
  busySpinWait handle fuel
  let status ← flashResult handle
  if status ≠ 0 then
    pyRaise ("Error - EraseFlash(): Cannot erase the flash (0x" ++ pyHex status ++ ")")

def loadFirmwareFromFlash (fuel handle : Nat) (firmwareIndex : Int) : PyScript Unit := do
  if ← pyCall (isFirmwareRunning handle) then
    pyRaise "Error - LoadFirmwareFromFlash(): Firmware running"
  pyWrite handle 0x032 [0x00, 0x02]
  pyWriteIndex handle 0x034 firmwareIndex
  pyWrite handle 0x006 [0x00, 0x01]
  busySpinWait handle fuel
  let status ← flashResult handle
  if status ≠ 0 then
    pyRaise ("Error - LoadFirmwareFromFlash(): Cannot load the firmware " ++ toString firmwareIndex ++
      " from flash (" ++ toString status ++ ")")

/-- `LoadFirmware`, as a part of the script. -/
def scriptLoadFirmware (behind : Nat → Nat → Byte) (handle : Nat) (firmwareBuf : List Byte) :
    PyScript Unit := do
  match ← pyCall (loadFirmware behind handle firmwareBuf) with
  | .ok () => return ()
  | .error e => throw (.raised e)

def saveFirmwareToFlash (fuel handle : Nat) : PyScript Nat := do
  pyWrite handle 0x01F2 [0x00, 0x00]
  pyWrite handle 0x032 [0x00, 0x04]
  pyWrite handle 0x006 [0x00, 0x01]
  busySpinWait handle fuel
  let status ← flashResult handle
  if status ≠ 0 then
    pyRaise ("Error - SaveFirmwareToFlash(): Cannot save the firmware and configuration to flash (0x"
      ++ pyHex status ++ ")")
  pyRead handle 0x026 2

def saveConfigToFlash (fuel handle : Nat) (flashSlot : Int) : PyScript Unit := do
  if ← pyCall (isFirmwareRunning handle) then do
    pyWrite handle 0x032 [0x80, 0x02]
    pyWriteIndex handle 0x034 flashSlot
    pyWrite handle 0x006 [0x00, 0x04]
  else do
    pyWrite handle 0x01F2 [0x00, 0x00]
    pyWrite handle 0x032 [0x00, 0x07]
    pyWriteIndex handle 0x034 flashSlot
    pyWrite handle 0x006 [0x00, 0x01]
  busySpinWait handle fuel
  let status ← flashResult handle
  if status ≠ 0 then
    pyRaise ("Error - SaveConfigToFlash(): Cannot save the configuration to flash (0x" ++ pyHex status
      ++ ")")

def IsHbiCommand (ask : HbiAsk) : Prop := ∃ handle cmd, ask = .setCommand handle cmd

theorem asks_loadFirmwareLoop (behind : Nat → Nat → Byte) (handle : Nat) (firmwareBuf : List Byte)
    (blockSize left i : Nat) :
    (loadFirmwareLoop behind handle firmwareBuf blockSize left i).Asks IsHbiCommand := by
  induction left generalizing i with
  | zero =>
      refine ⟨⟨_, _, rfl⟩, fun reply => ?_⟩
      change Prog.Asks IsHbiCommand (if reply.status ≠ .success then _ else _)
      split
      · trivial
      · trivial
  | succ left ih =>
      refine ⟨⟨_, _, rfl⟩, fun reply => ?_⟩
      change Prog.Asks IsHbiCommand (if reply.status ≠ .success then _ else _)
      split
      · trivial
      · exact ih (i + 1)

/-! ### `LoadConfigCr2` -/

/-- The variables of the loop. -/
structure Cr2Vars where
  dataBuffer : List Int
  prevAddr : Int
  currentAddr : Int
  blockSize : Nat
  deriving DecidableEq, Repr

namespace Cr2Vars

def start : Cr2Vars := ⟨[], 0, 0, 0⟩

/-- `HBI_write` of the buffer. The wrapper converts the address to a `reg_addr_t`. -/
def shipTo (handle : Nat) (st : Cr2Vars) : PyScript Cr2Vars := do
  if 0 ≤ st.currentAddr ∧ st.currentAddr ≤ 0xFFFF then
    pyWrite handle (BitVec.ofInt 16 st.currentAddr) (st.dataBuffer.map byteOf)
    return { st with dataBuffer := [], blockSize := 0 }
  else throw (.raised .overflowError)

def readyFor (handle : Nat) (st : Cr2Vars) (addr : Int) : PyScript Cr2Vars := do
  let st := if st.prevAddr = 0 then { st with currentAddr := addr, prevAddr := addr - 2 } else st
  if addr ≠ st.prevAddr + 2 then do
    let st ← st.shipTo handle
    return { st with currentAddr := addr }
  else return st

def append (handle : Nat) (st : Cr2Vars) (addr data : Int) : PyScript Cr2Vars := do
  let st := { st with
    blockSize := st.blockSize + 1
    dataBuffer := st.dataBuffer ++ [data / 2 ^ 8 % 0x100, data % 0x100]
    prevAddr := addr }
  if st.blockSize = cr2BlockSize then do
    let st ← st.shipTo handle
    return { st with prevAddr := 0 }
  else return st

end Cr2Vars

def sendRecords (handle : Nat) : List (Int × Int) → Cr2Vars → PyScript Unit
  | [], _ => return ()
  | (addr, data) :: records, st => do
      let st ← st.readyFor handle addr
      let st ← st.append handle addr data
      sendRecords handle records st

/-- `LoadConfigCr2`, as a part of the script. -/
def scriptLoadConfigCr2 (handle : Nat) (configRecordBuf : List Char) : PyScript Unit :=
  sendRecords handle (cr2Records configRecordBuf) .start

/-! ### The main program -/

/-- The arguments: the contents of the files, what lies in memory behind each slice of the firmware, the
path of the configuration record, and the options. -/
structure FlashArgs where
  firmwareBuf : List Byte
  firmwareBehind : Nat → Nat → Byte
  configBuf : List Char
  configPath : List Char
  eraseFlash : Bool
  saveToFlash : Bool
  indexSlot : Int
  loadFromFlash : Option Int
  chipSelect : Int

/-- `if args.loadFromFlash`: neither no index nor index 0. -/
def FlashArgs.loads (args : FlashArgs) : Bool := args.loadFromFlash.getD 0 ≠ 0

def FlashArgs.isCr2 (args : FlashArgs) : Bool :=
  (splitext args.configPath).2.map Char.toLower = ".cr2".toList

/-- Do not stop the firmware to only load a configuration. -/
def FlashArgs.stops (args : FlashArgs) : Bool := args.firmwareBuf ≠ [] || args.eraseFlash || args.loads

/-- The part of the configuration record, behind the firmware's. -/
def mainConfig (fuel handle : Nat) (args : FlashArgs) (fwRunning : Bool) (slot : Option Nat) :
    PyScript Unit := do
  if args.isCr2 then scriptLoadConfigCr2 handle args.configBuf
  else pyRaise ("Error - Main(): Unknown configuration extension (" ++
    String.ofList (splitext args.configPath).2 ++ ")")
  if fwRunning then do
    if args.saveToFlash then saveConfigToFlash fuel handle args.indexSlot
    softReset fuel handle
  else if args.saveToFlash then
    match slot with
    | none => throw .nameError
    | some slot => saveConfigToFlash fuel handle slot

/-- The part that stops the firmware: whether it runs behind it. -/
def mainStop (fuel handle : Nat) (args : FlashArgs) : PyScript Bool := do
  let fwRunning ← pyCall (isFirmwareRunning handle)
  if args.stops then do
    if fwRunning then stopFirmware fuel handle
    initFlash fuel handle true
    return false
  else return fwRunning

def mainFlash (fuel handle : Nat) (args : FlashArgs) : PyScript Unit := do
  if args.loads then
    if args.firmwareBuf ≠ [] || args.eraseFlash then
      pyRaise "Error - Main(): Incompatible input arguments for loading from flash"
    else loadFirmwareFromFlash fuel handle (args.loadFromFlash.getD 0)
  if args.eraseFlash then eraseFlash fuel handle

/-- The part that loads a firmware: the slot it is saved in. -/
def mainFirmware (fuel handle : Nat) (args : FlashArgs) : PyScript (Option Nat) := do
  if args.firmwareBuf ≠ [] then do
    scriptLoadFirmware args.firmwareBehind handle args.firmwareBuf
    if args.saveToFlash then
      let slot ← saveFirmwareToFlash fuel handle
      return some slot
    else return none
  else return none

/-- The body of the `try`. -/
def mainBody (fuel handle : Nat) (args : FlashArgs) : PyScript Unit := do
  let fwRunning ← mainStop fuel handle args
  mainFlash fuel handle args
  let slot ← mainFirmware fuel handle args
  if args.configBuf ≠ [] then mainConfig fuel handle args fwRunning slot
  if ¬ fwRunning then startFirmware fuel handle true

/-- The `except` clause. `ValueError` is caught, and printed. -/
def mainExcept : PyStop → PyScript Unit
  | .raised (.valueError _) => return ()
  | e => throw e

def flashSession (fuel : Nat) (args : FlashArgs) : PyScript Unit := do
  let handle := (← pyAsk (.open args.chipSelect)).handle
  tryCatch (mainBody fuel handle args) mainExcept
  let _ ← pyAsk (.hbi (.close handle))
  return ()

def flashMain (fuel : Nat) (args : FlashArgs) : PyScript Unit := do
  if args.firmwareBuf = [] ∧ args.configBuf = [] ∧ args.saveToFlash then
    pyRaise "Error - Main(): Both firmware and configuration are invalid, nothing to save to flash"
  if args.firmwareBuf = [] ∧ args.configBuf ≠ [] ∧ args.eraseFlash then
    pyRaise "Error - Main(): Cannot erase the flash and only load a configuration"
  flashSession fuel args

end VprocSdk
