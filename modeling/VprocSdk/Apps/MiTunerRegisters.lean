import VprocSdk.Apps.MiTunerStream
import VprocSdk.Image.Delivery

/-!
# Registers through the server

A client reads and writes registers by requests, and what it is answered are texts. Below the server are the
wrapper, the driver and a device whose registers are pages and whose accesses are messages. For the client
it is a store of registers: each request that the server takes reads or writes it, in the order of the
stream.
-/

namespace VprocSdk

open Lib

/-! ### The device -/

/-- What the driver answers on a chip that every transfer reaches. -/
def chipAsk (raw : Chip → List Byte → Chip) (pDev : TwDev) (chip : Chip) : PyAsk → Chip × PyReply
  | .hbi ask =>
      let served := (driven pDev ask).servedBy (Chip.device raw fun _ => ⟨.ok, true⟩) (chip, 0)
      (served.1.1, ⟨served.2, false, 0⟩)
  | .write _ reg data =>
      let served := (internalHbiWrite reg data).servedBy (Chip.device raw fun _ => ⟨.ok, true⟩) (chip, 0)
      (served.1.1, ⟨⟨served.2, []⟩, false, 0⟩)
  | .past _ | .open _ => (chip, ⟨⟨.success, []⟩, false, 0⟩)

/-- An access to registers that three digits can name. -/
structure RemoteAccess (reg : RegAddr) (read : Bool) (size : Nat) : Prop extends IsRegAccess reg size where
  digits : reg.toNat < 16 ^ 3
  plain : ¬ Shadowed reg read size

section Chips

variable (raw : Chip → List Byte → Chip) (pDev : TwDev) (chip : Chip) (handle : Nat) {reg : RegAddr}

theorem byteOf_toNat (b : Byte) : byteOf (b.toNat : Int) = b := by
  simp [byteOf]

theorem address_reg (reg : RegAddr) : BitVec.ofInt 16 (reg.toNat : Int) = reg := by
  simp

theorem address_range (reg : RegAddr) : 0 ≤ (reg.toNat : Int) ∧ (reg.toNat : Int) ≤ 0xFFFF := by
  have hlt := reg.isLt
  omega

theorem chipAsk_read {size : Nat} (h : IsRegAccess reg size) (hnot : ¬ Shadowed reg true size) :
    chipAsk raw pDev chip (.hbi (.read handle reg size))
      = (chip, ⟨⟨.success, slice chip.regs reg.toNat size⟩, false, 0⟩) := by
  have hread := read_call chip raw h hnot fun _ => ⟨.ok, true⟩
  unfold chipAsk driven
  dsimp only
  rw [Prog.servedBy_bind, hread]
  rfl

theorem pyReadList_chip {size : Nat} (h : RemoteAccess reg true size) :
    (pyReadList handle reg.toNat size).run.servedBy (chipAsk raw pDev) chip
      = (chip, .ok (slice chip.regs reg.toNat size)) := by
  have hbytes : (⟨⟨.success, slice chip.regs reg.toNat size⟩, false, 0⟩ : PyReply).bytes size
      = slice chip.regs reg.toNat size := Except.ok.inj (@bytesResult_slice size chip.regs reg.toNat)
  rw [pyReadList, if_pos (address_range reg), if_neg (by omega), address_reg, Int.toNat_natCast]
  show ((chipAsk raw pDev chip (.hbi (.read handle reg size))).1,
    Except.ok ((chipAsk raw pDev chip (.hbi (.read handle reg size))).2.bytes size)) = _
  rw [chipAsk_read raw pDev chip handle h.toIsRegAccess h.plain, hbytes]

theorem chipAsk_write {data : List Byte} (h : IsRegAccess reg data.length)
    (hnot : ¬ Shadowed reg false data.length) :
    (chipAsk raw pDev chip (.write handle reg data)).1.regs = overlay chip.regs reg.toNat data ∧
      (chipAsk raw pDev chip (.write handle reg data)).2 = ⟨⟨.success, []⟩, false, 0⟩ := by
  have hserved : (internalHbiWrite reg data).servedBy (Chip.device raw fun _ => ⟨.ok, true⟩) (chip, 0)
      = ((chip.receive raw (twHbiTpFrameHdr reg false data.length ++ data), 1), .success) := by
    rw [internalHbiWrite_eq _ h.size_range.2]
    rfl
  dsimp only [chipAsk]
  rw [hserved]
  exact ⟨write_served chip raw h hnot, rfl⟩

theorem pyWriteList_chip {data : List Byte} (h : RemoteAccess reg false data.length) :
    ∃ chip', (pyWriteList handle reg.toNat (data.map fun b => (b.toNat : Int))).run.servedBy
        (chipAsk raw pDev) chip = (chip', .ok ()) ∧
      chip'.regs = overlay chip.regs reg.toNat data := by
  have hbytes : (data.map fun b => (b.toNat : Int)).map byteOf = data := by
    rw [List.map_map]
    exact List.map_id'' byteOf_toNat data
  refine ⟨_, ?_, (chipAsk_write raw pDev chip handle h.toIsRegAccess h.plain).1⟩
  rw [pyWriteList, if_pos (address_range reg), address_reg, hbytes]
  rfl

end Chips

/-! ### A client -/

/-- What a client asks for: a register as a number, or registers as a buffer. -/
inductive RemoteCall
  | rd (reg : RegAddr)
  | wr (reg : RegAddr) (high low : Byte)
  | br (reg : RegAddr) (numWords : Nat)
  | bw (reg : RegAddr) (data : List Byte)
  deriving DecidableEq, Repr

namespace RemoteCall

def Valid : RemoteCall → Prop
  | .rd reg => RemoteAccess reg true 2
  | .wr reg _ _ => RemoteAccess reg false 2
  | .br reg numWords => RemoteAccess reg true (2 * numWords)
  | .bw reg data => RemoteAccess reg false data.length

def code : RemoteCall → List Char
  | .rd _ => "RD".toList
  | .wr _ _ _ => "WR".toList
  | .br _ _ => "BR".toList
  | .bw _ _ => "BW".toList

def body : RemoteCall → List Char
  | .rd reg => percentX 3 reg.toNat
  | .wr reg high low => percentX 3 reg.toNat ++ bufferString [high, low]
  | .br reg numWords => percentX 3 reg.toNat ++ percentX 4 numWords
  | .bw reg data => percentX 3 reg.toNat ++ bufferString data

/-- The registers after the call, and the bytes it reads. -/
def serve (m : Nat → Byte) : RemoteCall → (Nat → Byte) × List Byte
  | .rd reg => (m, slice m reg.toNat 2)
  | .wr reg high low => (overlay m reg.toNat [high, low], [])
  | .br reg numWords => (m, slice m reg.toNat (2 * numWords))
  | .bw reg data => (overlay m reg.toNat data, [])

/-- The bytes that an answer gives: of a write it says that it is done. -/
def payloadOf (text : List Char) : RemoteCall → Option (List Byte)
  | .rd _ | .br _ _ => (bufferBytes text).toOption.map (List.map byteOf)
  | .wr _ _ _ | .bw _ _ => if text = "OK".toList then some [] else none

/-- What the client takes from an answer: the tag, the length of the text, and the text. -/
def receives (call : RemoteCall) (answer : List Char) : Option (List Byte) :=
  if answer.take 3 = "ANS".toList ∧ intHex ((answer.drop 3).take 4) = .ok ((answer.drop 7).length : Int) then
    call.payloadOf (answer.drop 7)
  else none

theorem body_length {call : RemoteCall} (h : call.Valid) : call.body.length < 16 ^ (3 + 1) := by
  have hreg : ∀ {reg : RegAddr} {read : Bool} {size : Nat}, RemoteAccess reg read size →
      (percentX 3 reg.toNat).length = 3 := fun hreg => length_percentX hreg.digits
  cases call with
  | rd reg =>
      rw [body, hreg h]
      decide
  | wr reg high low =>
      rw [body, List.length_append, hreg h, length_bufferString]
      simp
  | br reg numWords =>
      have hsize := h.size_range.2
      rw [body, List.length_append, hreg h, length_percentX (by omega)]
      decide
  | bw reg data =>
      have hsize := h.size_range.2
      rw [body, List.length_append, hreg h, length_bufferString]
      omega

theorem body_hex {call : RemoteCall} (h : call.Valid) : ∀ c ∈ call.body, isHex c = true := by
  have hreg : ∀ {reg : RegAddr} {read : Bool} {size : Nat}, RemoteAccess reg read size →
      ∀ c ∈ percentX 3 reg.toNat, isHex c = true := fun hreg => isHex_percentX hreg.digits
  cases call with
  | rd reg => exact hreg h
  | wr reg high low => exact List.forall_mem_append.2 ⟨hreg h, isHex_bufferString _⟩
  | br reg numWords =>
      have hsize := h.size_range.2
      exact List.forall_mem_append.2 ⟨hreg h, isHex_percentX (by omega)⟩
  | bw reg data => exact List.forall_mem_append.2 ⟨hreg h, isHex_bufferString _⟩

theorem code_length (call : RemoteCall) : call.code.length = 2 := by
  cases call with
  | rd | wr | br | bw => rfl

theorem code_letters (call : RemoteCall) : ∀ c ∈ call.code, c.isAlpha = true := by
  apply List.all_eq_true.1
  cases call with
  | rd | wr | br | bw => rfl

def request (call : RemoteCall) (h : call.Valid) : MiTunerRequest where
  code := call.code
  digits := percentX 4 call.body.length
  body := call.body
  code_length := call.code_length
  code_letters := call.code_letters
  digits_length := length_percentX (body_length h)
  digits_hex := isHex_percentX (body_length h)
  body_length := (hexValue_percentX (body_length h)).symm
  body_bytes := fun c hc => (toNat_of_isHex (body_hex h c hc)).trans (by decide)

theorem request_ascii {call : RemoteCall} (h : call.Valid) : (call.request h).IsAscii :=
  fun c hc => toNat_of_isHex (body_hex h c hc)

theorem receives_answerText (call : RemoteCall) {text : List Char} (h : text.length < 16 ^ (3 + 1)) :
    call.receives (answerText text) = call.payloadOf text := by
  have hlen : (percentX 4 text.length).length = 4 := length_percentX h
  have hanswer : answerText text = "ANS".toList ++ (percentX 4 text.length ++ text) :=
    List.append_assoc _ _ _
  have hdigits : (answerText text).drop 3 = percentX 4 text.length ++ text := by
    rw [hanswer]
    rfl
  have htext : (answerText text).drop 7 = text := by
    rw [show 7 = 3 + 4 from rfl, ← List.drop_drop, hdigits, List.drop_left' hlen]
  have hread : intHex (percentX 4 text.length) = .ok (text.length : Int) := intHex_percentX h
  rw [receives, htext, hdigits, List.take_left' hlen, hanswer, if_pos ⟨rfl, hread⟩]

theorem payloadOf_bufferString {data : List Byte} :
    (bufferBytes (bufferString data)).toOption.map (List.map byteOf) = some data := by
  rw [bufferBytes_bufferString]
  show some ((data.map fun b => (b.toNat : Int)).map byteOf) = some data
  rw [List.map_map]
  exact congrArg some (List.map_id'' byteOf_toNat data)

end RemoteCall

/-! ### One request -/

section Request

variable {fuel handle : Nat} {reg : RegAddr}

theorem percentX_formatNumber (high low : Byte) :
    percentX 4 (formatNumber [high, low]) = bufferString [high, low] := by
  have hhigh := high.isLt
  have hlow := low.isLt
  have hnumber : formatNumber [high, low] = high.toNat * 256 + low.toNat := by
    simp [formatNumber, Nat.shiftLeft_eq]
  have hrest : (high.toNat * 256 + low.toNat) / 16 / 16 = high.toNat := by omega
  have hfirst : (high.toNat * 256 + low.toNat) / 16 % 16 = low.toNat / 16 := by omega
  have hsecond : (high.toNat * 256 + low.toNat) % 16 = low.toNat % 16 := by omega
  have hpair : percentX 2 low.toNat = [hexChar (low.toNat / 16), hexChar (low.toNat % 16)] := by
    rw [percentX_of_lt (byte_two_digits low), lastDigits, lastDigits, lastDigits,
      Nat.mod_eq_of_lt (by omega : low.toNat / 16 < 16)]
    rfl
  rw [hnumber, percentX_succ (by decide), percentX_succ (by decide), hrest, hfirst, hsecond,
    bufferString, List.flatMap_cons, List.flatMap_cons, List.flatMap_nil, List.append_nil, hpair,
    List.append_assoc]
  rfl

theorem intHex_reg {read : Bool} {size : Nat} (h : RemoteAccess reg read size) (rest : List Char) :
    unicodeIntHex (pySlice (percentX 3 reg.toNat ++ rest) 0 3) = .ok (reg.toNat : Int) := by
  have hslice := pySlice_prefix (percentX 3 reg.toNat ++ rest) 3
  have hread : unicodeIntHex (percentX 3 reg.toNat) = .ok (reg.toNat : Int) := unicodeIntHex_percentX h.digits
  push_cast at hslice
  rw [hslice, List.take_left' (length_percentX h.digits), hread]

theorem drop_reg {read : Bool} {size : Nat} (h : RemoteAccess reg read size) (rest : List Char) :
    (percentX 3 reg.toNat ++ rest).drop 3 = rest := List.drop_left' (length_percentX h.digits)

theorem parsePlain_rd (h : RemoteAccess reg true 2) :
    parsePlain fuel handle "RD".toList (percentX 3 reg.toNat)
      = pyReadList handle reg.toNat (2 : Nat) >>= fun byteList => pure (percentX 4 (formatNumber byteList)) := by
  have hreg := intHex_reg h []
  rw [List.append_nil] at hreg
  rw [parsePlain, if_pos rfl, hreg]
  rfl

theorem parsePlain_br {numWords : Nat} (h : RemoteAccess reg true (2 * numWords)) :
    parsePlain fuel handle "BR".toList (percentX 3 reg.toNat ++ percentX 4 numWords)
      = pyReadList handle reg.toNat ((2 * numWords : Nat) : Int) >>= fun byteList =>
          pure (bufferString byteList) := by
  have hsize := h.size_range.2
  have hwords : numWords < 16 ^ (3 + 1) := by omega
  have hslice := pySlice_add (percentX 3 reg.toNat ++ percentX 4 numWords) 3 4
  have hread : unicodeIntHex (percentX 4 numWords) = .ok (numWords : Int) := unicodeIntHex_percentX hwords
  have hlen : (percentX 4 numWords).length = 4 := length_percentX hwords
  have hdouble : (numWords : Int) * 2 = ((2 * numWords : Nat) : Int) := by omega
  push_cast at hslice
  rw [drop_reg h, List.take_of_length_le (by omega)] at hslice
  have hcount : unicodeIntHex (pySlice (percentX 3 reg.toNat ++ percentX 4 numWords) 3 7) = .ok (numWords : Int) := by
    rw [hslice, hread]
  rw [parsePlain, if_neg (by decide), if_neg (by decide), if_pos rfl, intHex_reg h, hcount, ← hdouble]
  simp only [pyLift, pure_bind, spiBufferRead]

theorem parsePlain_wr {high low : Byte} (h : RemoteAccess reg false 2) :
    parsePlain fuel handle "WR".toList (percentX 3 reg.toNat ++ bufferString [high, low])
      = pyWriteList handle reg.toNat ([high, low].map fun b => (b.toNat : Int)) >>= fun _ =>
          pure "OK".toList := by
  have hread : ∀ b : Byte, unicodeIntHex (percentX 2 b.toNat) = .ok (b.toNat : Int) :=
    fun b => unicodeIntHex_percentX (byte_two_digits b)
  have hlen : ∀ b : Byte, (percentX 2 b.toNat).length = 2 := fun b => length_percentX (byte_two_digits b)
  have hpair : bufferString [high, low] = percentX 2 high.toNat ++ percentX 2 low.toNat :=
    congrArg (percentX 2 high.toNat ++ ·) (List.append_nil _)
  have hdrop : (percentX 3 reg.toNat ++ bufferString [high, low]).drop 5 = percentX 2 low.toNat := by
    rw [show 5 = 3 + 2 from rfl, ← List.drop_drop, drop_reg h, hpair, List.drop_left' (hlen high)]
  have hhigh := pySlice_add (percentX 3 reg.toNat ++ bufferString [high, low]) 3 2
  have hlow := pySlice_add (percentX 3 reg.toNat ++ bufferString [high, low]) 5 2
  push_cast at hhigh hlow
  rw [drop_reg h, hpair, List.take_left' (hlen high), ← hpair] at hhigh
  rw [hdrop, List.take_of_length_le (by rw [hlen])] at hlow
  have hhigh' : unicodeIntHex (pySlice (percentX 3 reg.toNat ++ bufferString [high, low]) 3 5)
      = .ok (high.toNat : Int) := by
    rw [hhigh, hread]
  have hlow' : unicodeIntHex (pySlice (percentX 3 reg.toNat ++ bufferString [high, low]) 5 7)
      = .ok (low.toNat : Int) := by
    rw [hlow, hread]
  rw [parsePlain, if_neg (by decide), if_pos rfl, intHex_reg h, hhigh', hlow']
  simp only [pyLift, pure_bind, List.map_cons, List.map_nil]

theorem parsePlain_bw {data : List Byte} (h : RemoteAccess reg false data.length) :
    parsePlain fuel handle "BW".toList (percentX 3 reg.toNat ++ bufferString data)
      = pyWriteList handle reg.toNat (data.map fun b => (b.toNat : Int)) >>= fun _ =>
          pure "OK".toList := by
  rw [parsePlain, if_neg (by decide), if_neg (by decide), if_neg (by decide), if_pos rfl, intHex_reg h,
    drop_reg h]
  simp only [pyLift, pure_bind, spiBufferWrite, map_unicodeSpace (isHex_bufferString data), bufferBytes_bufferString]

variable (raw : Chip → List Byte → Chip) (pDev : TwDev) (chip : Chip) (fuel handle) in
theorem parsePlain_remote {call : RemoteCall} (h : call.Valid) :
    ∃ chip' retval, (parsePlain fuel handle call.code call.body).run.servedBy (chipAsk raw pDev) chip
        = (chip', .ok retval) ∧ retval.length < 16 ^ (3 + 1) ∧
      chip'.regs = (call.serve chip.regs).1 ∧ call.payloadOf retval = some (call.serve chip.regs).2 := by
  cases call with
  | rd reg =>
      have hserved := pyReadList_chip raw pDev chip handle h
      have hnumber : percentX 4 (formatNumber (slice chip.regs reg.toNat 2))
          = bufferString (slice chip.regs reg.toNat 2) := percentX_formatNumber _ _
      refine ⟨chip, bufferString (slice chip.regs reg.toNat 2), ?_, ?_, rfl,
        RemoteCall.payloadOf_bufferString⟩
      · dsimp only [RemoteCall.code, RemoteCall.body]
        rw [parsePlain_rd h, Prog.servedBy_andThen hserved, hnumber]
        rfl
      · rw [length_bufferString, slice_length]
        decide
  | br reg numWords =>
      have hsize := h.size_range.2
      have hserved := pyReadList_chip raw pDev chip handle h
      refine ⟨chip, bufferString (slice chip.regs reg.toNat (2 * numWords)), ?_, ?_, rfl,
        RemoteCall.payloadOf_bufferString⟩
      · dsimp only [RemoteCall.code, RemoteCall.body]
        rw [parsePlain_br h, Prog.servedBy_andThen hserved]
        rfl
      · rw [length_bufferString, slice_length]
        omega
  | wr reg high low =>
      have hwrite : RemoteAccess reg false [high, low].length := h
      obtain ⟨chip', hserved, hregs⟩ := pyWriteList_chip raw pDev chip handle hwrite
      refine ⟨chip', "OK".toList, ?_, by decide, hregs, rfl⟩
      dsimp only [RemoteCall.code, RemoteCall.body]
      rw [parsePlain_wr h, Prog.servedBy_andThen hserved]
      rfl
  | bw reg data =>
      obtain ⟨chip', hserved, hregs⟩ := pyWriteList_chip raw pDev chip handle h
      refine ⟨chip', "OK".toList, ?_, by decide, hregs, rfl⟩
      dsimp only [RemoteCall.code, RemoteCall.body]
      rw [parsePlain_bw h, Prog.servedBy_andThen hserved]
      rfl

variable (raw : Chip → List Byte → Chip) (pDev : TwDev) (chip : Chip) (fuel handle) in
/-- A request of a client is served as the store of registers does, and its answer says what it read. -/
theorem parseMiTunerCmd_remote {call : RemoteCall} (h : call.Valid) (vars : MiTunerVars) :
    ∃ chip' answer, (parseMiTunerCmd fuel handle vars (call.request h).header (call.request h).body).run.servedBy
        (chipAsk raw pDev) chip = (chip', .ok (vars, answer)) ∧
      chip'.regs = (call.serve chip.regs).1 ∧ call.receives answer = some (call.serve chip.regs).2 := by
  obtain ⟨chip', retval, hserved, hlen, hregs, hpayload⟩ :=
    parsePlain_remote fuel handle raw pDev chip h
  have htype : pySlice (call.request h).header 0 2 = call.code := by
    have hslice := pySlice_prefix (call.request h).header 2
    push_cast at hslice
    rw [hslice]
    exact List.take_left' call.code_length
  have hplain : isUpload call.code = false := by
    cases call with
    | rd | wr | br | bw => rfl
  refine ⟨chip', answerText retval, ?_, hregs, (call.receives_answerText hlen).trans hpayload⟩
  rw [parseMiTunerCmd, htype, if_neg (by rw [hplain]; decide)]
  exact Prog.servedBy_andThen hserved _

end Request

/-! ### A session -/

/-- A call of a client that names registers as it should. -/
abbrev RegisterRequest : Type := { call : RemoteCall // call.Valid }

def RegisterRequest.request (r : RegisterRequest) : MiTunerRequest := r.1.request r.2

def serveStore (m : Nat → Byte) : List RegisterRequest → (Nat → Byte) × List (List Byte)
  | [] => (m, [])
  | r :: calls =>
      let served := r.1.serve m
      let rest := serveStore served.1 calls
      (rest.1, served.2 :: rest.2)

section Session

variable (fuel handle : Nat) (raw : Chip → List Byte → Chip) (pDev : TwDev)

theorem serveCmds_remote (calls : List RegisterRequest) (vars : MiTunerVars) (chip : Chip) :
    ∃ chip' answers, (serveCmds fuel handle (calls.map fun r => (r.request.header, r.request.body))
        vars).run.servedBy (chipAsk raw pDev) chip = (chip', .ok (vars, answers)) ∧
      chip'.regs = (serveStore chip.regs calls).1 ∧
      answers.length = calls.length ∧
      List.zipWith (fun r answer => r.1.receives answer) calls answers
        = (serveStore chip.regs calls).2.map some := by
  induction calls generalizing chip with
  | nil => exact ⟨chip, [], rfl, rfl, rfl, rfl⟩
  | cons r calls ih =>
      obtain ⟨mid, answer, hserved, hregs, hreceives⟩ :=
        parseMiTunerCmd_remote fuel handle raw pDev chip r.2 vars
      obtain ⟨chip', answers, hrest, hregs', hlen, hzip⟩ := ih mid
      refine ⟨chip', answer :: answers, ?_, ?_, congrArg (· + 1) hlen, ?_⟩
      · rw [List.map_cons, serveCmds]
        refine (Prog.servedBy_andThen hserved _).trans ?_
        exact Prog.servedBy_andThen hrest _
      · rw [hregs', hregs]
        rfl
      · rw [List.zipWith_cons_cons, hzip, hreceives, hregs]
        rfl

end Session

/-- The requests that the server takes of a stream: all but the backlog. -/
def takenOf (calls : List RegisterRequest) (pieces : List (List Byte)) : List RegisterRequest :=
  calls.take (calls.length - (backlog (calls.map RegisterRequest.request) 0 pieces).length)

theorem writeWord_valid : RemoteAccess 0x0200 false 2 :=
  ⟨⟨⟨by decide, by decide, by decide⟩, by decide⟩, by decide, by unfold Shadowed; decide⟩

theorem readWord_valid : RemoteAccess 0x0200 true 2 :=
  ⟨⟨⟨by decide, by decide, by decide⟩, by decide⟩, by decide, by unfold Shadowed; decide⟩

/-- A register is written as a number and read as a buffer. -/
def writeThenBuffer : List RegisterRequest :=
  [⟨.wr 0x0200 0x12 0x34, writeWord_valid⟩, ⟨.br 0x0200 1, readWord_valid⟩]

/-- The second request comes in two pieces, and the first of them comes with the first request. -/
def twoPieces : List (List Byte) :=
  ["WR00072001234BR00".toList.map charByte, "072000001".toList.map charByte]

end VprocSdk
