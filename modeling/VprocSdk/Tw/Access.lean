import VprocSdk.Lib.Prog
import VprocSdk.Hbi.Types

/-!
# Register accesses

`internal_hbi_read` and `internal_hbi_write` of `hbi_tw.c`, and the frame header they put in front of
an access. The functions of the device layer are programs whose questions are register accesses and
raw port writes; each is one message on the bus, and the answer is what the System Service Layer
reports for it.
-/

namespace VprocSdk

open Lib

/-- What the device layer asks of the port of its device. -/
inductive BusOp
  | read (reg : RegAddr) (size : Nat)
  | write (reg : RegAddr) (data : List Byte)
  | portWrite (data : List Byte)
  deriving DecidableEq, Repr

/-- What the port reports: the status of the transfer and, for a read, the bytes received. -/
structure BusAnswer where
  status : SslStatus
  data : List Byte
  deriving DecidableEq, Repr

abbrev Tw (α : Type) := Prog BusOp BusAnswer α

abbrev BusRecord := Prog.Exchanges BusOp BusAnswer

/-- The fields of `struct vproc_dev` the device layer reads. -/
structure TwDev where
  endianness : DevEndian
  portHandle : Nat
  deriving DecidableEq, Repr

def maxAccessSizeInBytes : Nat := 256

/-- `internal_hbi_read`: on success the caller's buffer holds the bytes the port received. -/
def internalHbiRead (reg : RegAddr) (size : Nat) : Tw (Except HbiStatus (List Byte)) := do
  let ans ← Prog.query (.read reg size)
  if ans.status ≠ .ok then return .error .internalErr
  return .ok ((List.range size).map (ans.data.getD · 0))

def readWord (reg : RegAddr) : Tw (Except HbiStatus Word) := do
  match ← internalHbiRead reg 2 with
  | .error status => return .error status
  | .ok buf => return .ok (hostWord buf)

def internalHbiWrite (reg : RegAddr) (data : List Byte) : Tw HbiStatus := do
  if data.length > maxAccessSizeInBytes then return .invalidArg
  let ans ← Prog.query (.write reg data)
  if ans.status = .opIncomplete then return .opIncomplete
  if ans.status ≠ .ok then return .internalErr
  return .success

/-- A write of a 16-bit variable as it lies in the host's memory. -/
def writeWord (reg : RegAddr) (val : Word) : Tw HbiStatus := internalHbiWrite reg (hostBytes val)

/-- `SSL_port_write` on the device's port, as the callers that send raw bytes read its status. -/
def sslPortWrite (data : List Byte) : Tw SslStatus := do
  let ans ← Prog.query (.portWrite data)
  return ans.status

/-! ### Frames -/

def hbiPagedRead (offset length : Byte) : Word := (offset.setWidth 16 <<< 8) ||| length.setWidth 16
def hbiDirectRead (offset length : Byte) : Word := 0x8000 ||| hbiPagedRead offset length
def hbiPagedWrite (offset length : Byte) : Word := hbiPagedRead offset length ||| 0x0080
def hbiDirectWrite (offset length : Byte) : Word := hbiDirectRead offset length ||| 0x0080
def hbiSelectPage (page : Byte) : Word := 0xFE00 ||| page.setWidth 16

def commandBytes (val : Word) : List Byte := [(val >>> 8).setWidth 8, val.setWidth 8]

/-- `tw_hbi_tp_frame_hdr`: the command words in front of an access to `addr`. -/
def twHbiTpFrameHdr (addr : RegAddr) (read : Bool) (size : Nat) : List Byte :=
  let page : Byte := (addr >>> 8).setWidth 8
  let offset : Byte := ((addr &&& 0xFF) >>> 1).setWidth 8
  let numWords : Byte := BitVec.ofNat 8 (size / 2) - 1
  if page ≠ 0 then
    let page := if page ≠ 0xFF then page - 1 else page
    commandBytes (hbiSelectPage page) ++
      commandBytes (if read then hbiPagedRead offset numWords else hbiPagedWrite offset numWords)
  else
    commandBytes (if read then hbiDirectRead offset numWords else hbiDirectWrite offset numWords)

/-- The bytes an access puts on the port and the number of bytes it reads back. -/
def BusOp.transfer : BusOp → List Byte × Nat
  | .read reg size => (twHbiTpFrameHdr reg true size, size)
  | .write reg data => (twHbiTpFrameHdr reg false data.length ++ data, 0)
  | .portWrite data => (data, 0)

/-! ### Keeping a contract -/

section Contract

variable {γ : Type} {c : Prog.Contract BusOp BusAnswer γ} {g : γ}

/-- The answer `internal_hbi_read` of a word makes of what the port reports. -/
def readResult (ans : BusAnswer) : Except HbiStatus Word :=
  if ans.status ≠ .ok then .error .internalErr
  else .ok (hostWord ((List.range 2).map (ans.data.getD · 0)))

/-- The status `internal_hbi_write` makes of what the port reports. -/
def writeResult (ans : BusAnswer) : HbiStatus :=
  if ans.status = .opIncomplete then .opIncomplete
  else if ans.status ≠ .ok then .internalErr else .success

theorem readResult_ok {ans : BusAnswer} (h : ans.status = .ok) :
    readResult ans = .ok (hostWord ans.data) := by
  rw [readResult, if_neg (not_not.2 h)]
  rfl

theorem readResult_failed {ans : BusAnswer} (h : ans.status ≠ .ok) :
    readResult ans = .error .internalErr := by
  rw [readResult, if_pos h]

theorem writeResult_ok {ans : BusAnswer} (h : ans.status = .ok) : writeResult ans = .success := by
  simp [writeResult, h]

theorem readWord_eq (reg : RegAddr) :
    readWord reg = .ask (.read reg 2) fun ans => .pure (readResult ans) := by
  simp only [readWord, internalHbiRead, readResult, Prog.query_bind, Prog.ask_bind]
  congr 1
  funext ans
  by_cases h : ans.status = .ok <;> simp [h]

theorem writeWord_eq (reg : RegAddr) (val : Word) :
    writeWord reg val = .ask (.write reg (hostBytes val)) fun ans => .pure (writeResult ans) := by
  have hlen : ¬ (hostBytes val).length > maxAccessSizeInBytes := by
    simp [maxAccessSizeInBytes]
  simp only [writeWord, internalHbiWrite, writeResult, if_neg hlen, Prog.query_bind]
  congr 1
  funext ans
  by_cases h : ans.status = .opIncomplete
  · simp [h]
  · by_cases h' : ans.status = .ok <;> simp [h, h']

theorem sslPortWrite_eq (data : List Byte) :
    sslPortWrite data = .ask (.portWrite data) fun ans => .pure ans.status := rfl

theorem obeys_readWord {reg : RegAddr} {post : Except HbiStatus Word → γ → Prop}
    (hmay : c.may g (.read reg 2))
    (hpost : ∀ ans, c.relies g (.read reg 2) ans → post (readResult ans) (c.after g (.read reg 2) ans)) :
    (readWord reg).Obeys c g post := by
  rw [readWord_eq]
  exact ⟨hmay, hpost⟩

theorem obeys_writeWord {reg : RegAddr} {val : Word} {post : HbiStatus → γ → Prop}
    (hmay : c.may g (.write reg (hostBytes val)))
    (hpost : ∀ ans, c.relies g (.write reg (hostBytes val)) ans →
      post (writeResult ans) (c.after g (.write reg (hostBytes val)) ans)) :
    (writeWord reg val).Obeys c g post := by
  rw [writeWord_eq]
  exact ⟨hmay, hpost⟩

end Contract

end VprocSdk
