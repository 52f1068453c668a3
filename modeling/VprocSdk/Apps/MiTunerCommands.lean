import VprocSdk.Apps.FlashScript
import VprocSdk.Apps.HexText
import VprocSdk.Apps.MiTunerServer

/-!
# The commands of the MiTuner server

`MiTuner_socket_server.py`: what the server does for each request that its receive loop takes. Registers are
read and written as hexadecimal text, a firmware comes as the text of an S3 file in pieces, and the flash is
kept through the functions of the firmware script. An answer is a tag, four digits of length and a text.

The server lives longer than a connection: the text of an upload and the globals of the converter stay from
one client to the next. What comes from a client is `unicode`. Any exception that is not a `ValueError` of a
flash or firmware function ends the server.
-/

namespace VprocSdk

open Lib

/-- What an exception becomes in a function of the script. -/
def pyLift {α : Type} : Except PyError α → PyScript α
  | .ok a => return a
  | .error e => throw (.raised e)

/-! ### The registers -/

/-- `HBI_read`, of numbers the server was given. The wrapper converts the address to a `reg_addr_t`; a negative
size is a huge one, for which there is no memory. -/
def pyReadList (handle : Nat) (address numBytes : Int) : PyScript (List Byte) := do
  if 0 ≤ address ∧ address ≤ 0xFFFF then
    if numBytes < 0 then throw .crashed
    else
      let reply ← pyAsk (.hbi (.read handle (BitVec.ofInt 16 address) numBytes.toNat))
      return reply.bytes numBytes.toNat
  else throw (.raised .overflowError)

/-- `HBI_write`, likewise. -/
def pyWriteList (handle : Nat) (address : Int) (byteList : List Int) : PyScript Unit :=
  if 0 ≤ address ∧ address ≤ 0xFFFF then
    pyWrite handle (BitVec.ofInt 16 address) (byteList.map byteOf)
  else throw (.raised .overflowError)

def spiBufferRead (handle : Nat) (address numBytes : Int) : PyScript (List Char) := do
  let byteList ← pyReadList handle address numBytes
  return bufferString byteList

def spiBufferWrite (handle : Nat) (address : Int) (text : List Char) : PyScript Unit := do
  let byteList ← pyLift (bufferBytes (text.map unicodeSpace))
  pyWriteList handle address byteList

/-- `SpiHwBufferRead`: the start address is set up through page 255. -/
def spiHwBufferRead (handle : Nat) (address numBytes : Int) : PyScript (List Char) := do
  if 0 ≤ address ∧ address ≤ 0xFFFFFFFF then
    pyWriteList handle 0x00C (addrBytes address)
    let byteList ← pyReadList handle (0xFF00 + address % 0x100) numBytes
    return bufferString byteList
  else throw (.raised .structError)

/-! ### The firmware and the flash -/

/-- What the server keeps between requests: the text of the upload, and the globals of the converter. -/
structure MiTunerVars where
  s3File : Option (List Char)
  globals : ConverterGlobals
  deriving DecidableEq, Repr

def MiTunerVars.start : MiTunerVars := ⟨none, .initial⟩

/-- The end of a function that is tried: a `ValueError` is printed and answered. -/
def answerError : PyStop → PyScript (List Char)
  | .raised (.valueError _) => return "ERROR".toList
  | e => throw e

def answering (body : PyScript Unit) : PyScript (List Char) :=
  tryCatch (do body; return "OK".toList) answerError

/-- The lines of an upload. The text is a `unicode`, which only `splitlines` and `int` can tell. -/
def uploadLines (text : List Char) : List (List Char) :=
  (unicodeSplitlines text).map fun line => line.map unicodeSpace

/-- Convert the text of an upload and load it. The globals of the converter are left as they are after an
exception. An image of the converter has the payload it declares, so nothing behind it is read. -/
def loadUpload (fuel handle : Nat) (text : List Char) (globals : ConverterGlobals) :
    PyScript (MiTunerVars × List Char) :=
  match generateFwLines fuel (uploadLines text) 38040 64 globals with
  | none => throw .waiting
  | some (fwBin, globals) => do
      let answer ← answering do
        let fwBin ← pyLift fwBin
        scriptLoadFirmware (fun _ _ => 0) handle (fwBin.map byteOf)
      return (⟨some text, globals⟩, answer)

def firmwareLoading (fuel handle : Nat) (type cmd : List Char) (vars : MiTunerVars) :
    PyScript (MiTunerVars × List Char) :=
  if type = "FA".toList then return ({ vars with s3File := some cmd }, "OK".toList)
  else
    match vars.s3File with
    | none => throw .attributeError
    | some s3File =>
        if type = "FB".toList then return ({ vars with s3File := some (s3File ++ cmd) }, "OK".toList)
        else loadUpload fuel handle (s3File ++ cmd) vars.globals

def eraseSpiFlash (fuel handle : Nat) : PyScript (List Char) := answering (eraseFlash fuel handle)

def saveFirmware2Flash (fuel handle : Nat) : PyScript (List Char) := answering do
  initFlash fuel handle false
  let _ ← saveFirmwareToFlash fuel handle

def saveConfig2Flash (fuel handle : Nat) (index : Int) : PyScript (List Char) := answering do
  if ¬ (← pyCall (isFirmwareRunning handle)) then initFlash fuel handle false
  saveConfigToFlash fuel handle index

def loadFwfromFlash (fuel handle : Nat) (index : Int) : PyScript (List Char) := answering do
  initFlash fuel handle false
  loadFirmwareFromFlash fuel handle index

/-! ### One request -/

/-- A command that uses neither the upload nor the converter. -/
def parsePlain (fuel handle : Nat) (type cmd : List Char) : PyScript (List Char) := do
  if type = "RD".toList then
    let byteList ← pyReadList handle (← pyLift (unicodeIntHex (pySlice cmd 0 3))) 2
    return percentX 4 (formatNumber byteList)
  else if type = "WR".toList then
    let address ← pyLift (unicodeIntHex (pySlice cmd 0 3))
    let high ← pyLift (unicodeIntHex (pySlice cmd 3 5))
    let low ← pyLift (unicodeIntHex (pySlice cmd 5 7))
    pyWriteList handle address [high, low]
    return "OK".toList
  else if type = "BR".toList then
    let address ← pyLift (unicodeIntHex (pySlice cmd 0 3))
    let numWords ← pyLift (unicodeIntHex (pySlice cmd 3 7))
    spiBufferRead handle address (numWords * 2)
  else if type = "BW".toList then
    let address ← pyLift (unicodeIntHex (pySlice cmd 0 3))
    spiBufferWrite handle address (cmd.drop 3)
    return "OK".toList
  else if type = "HR".toList then
    let address ← pyLift (unicodeIntHex (pySlice cmd 0 8))
    let numBytes ← pyLift (unicodeIntHex (pySlice cmd 8 10))
    spiHwBufferRead handle address numBytes
  else if type = "ER".toList then eraseSpiFlash fuel handle
  else if type = "SF".toList then saveFirmware2Flash fuel handle
  else if type = "SC".toList then
    let index ← pyLift (unicodeIntHex cmd)
    saveConfig2Flash fuel handle index
  else if type = "LF".toList then
    let index ← pyLift (unicodeIntHex cmd)
    loadFwfromFlash fuel handle index
  else return "ERROR".toList

def isUpload (type : List Char) : Bool :=
  type = "FA".toList || type = "FB".toList || type = "FC".toList

def answerText (retval : List Char) : List Char := "ANS".toList ++ percentX 4 retval.length ++ retval

/-- `ParseCmd`: what it leaves of the variables, and its answer. -/
def parseMiTunerCmd (fuel handle : Nat) (vars : MiTunerVars) (header cmd : List Char) :
    PyScript (MiTunerVars × List Char) := do
  let type := pySlice header 0 2
  if isUpload type then
    let served ← firmwareLoading fuel handle type cmd vars
    return (served.1, answerText served.2)
  else
    let retval ← parsePlain fuel handle type cmd
    return (vars, answerText retval)

/-! ### The server -/

def serveCmd (fuel handle : Nat) (st : ServerState MiTunerVars) : PyScript (ServerState MiTunerVars) :=
  if st.waitType = .cmd ∧ st.message.length ≥ st.cmdLen then do
    let served ← parseMiTunerCmd fuel handle st.device st.header (pySlice st.message 0 st.cmdLen)
    return { st with
      message := pySlice st.message st.cmdLen st.message.length
      waitType := .header
      device := served.1
      answers := st.answers ++ [served.2] }
  else return st

/-- The receive loop on what `recv` returns, until an empty string. -/
def serveClient (fuel handle : Nat) : List (List Byte) → ServerState MiTunerVars →
    PyScript (ServerState MiTunerVars)
  | [], st => return st
  | piece :: pieces, st => do
      let buff ← pyLift (pyDecode piece)
      if buff = [] then return st
      else
        let st ← pyLift (receiveHeader (st.collect buff))
        let st ← serveCmd fuel handle st
        serveClient fuel handle pieces st

/-- The clients one after another: what each was answered. -/
def serveClients (fuel handle : Nat) : List (List (List Byte)) → MiTunerVars →
    PyScript (MiTunerVars × List (List (List Char)))
  | [], vars => return (vars, [])
  | pieces :: clients, vars => do
      let st ← serveClient fuel handle pieces (.start vars)
      let rest ← serveClients fuel handle clients st.device
      return (rest.1, st.answers :: rest.2)

end VprocSdk
