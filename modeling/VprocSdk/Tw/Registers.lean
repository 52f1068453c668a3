import VprocSdk.Lib.Regions
import VprocSdk.Tw.Frames

/-!
# A device that holds registers

What a device makes of the messages the System Service Layer sends it, when it takes them by the macros of
`hbi_prv.h`: a message that begins with the header of an access writes the words behind it or has the words
at its address read, and a configuration word leaves the registers alone. What any other message does is up
to the device. The registers the driver's callers see are the bytes at their addresses, and an access within
one page reads or writes the bytes from its address on.
-/

namespace VprocSdk

open Lib

/-- The bytes of the direct registers and of each page. -/
abbrev Chip := HbiPage → Nat → Byte

/-- What a message asks of the device. -/
inductive Message
  | access (access : HbiAccess) (data : List Byte)
  | configure (pinConfig : Byte)
  | other
  deriving DecidableEq, Repr

def decodeMessage : List Byte → Message
  | hi :: lo :: rest =>
      match opcodeOf hi lo with
      | .direct offset write words => .access ⟨.direct, offset, write, words⟩ rest
      | .selectPage page =>
          match rest with
          | hi' :: lo' :: rest =>
              match opcodeOf hi' lo' with
              | .paged offset write words => .access ⟨.paged page, offset, write, words⟩ rest
              | _ => .other
          | _ => .other
      | .configure pinConfig => if rest = [] then .configure pinConfig else .other
      | _ => .other
  | _ => .other

namespace Chip

/-- The registers after a message; `raw` is what the device does with one that is no access. -/
def receive (raw : Chip → List Byte → Chip) (chip : Chip) (message : List Byte) : Chip :=
  match decodeMessage message with
  | .access access data =>
      if access.write then
        if data.length = 2 * access.words then
          Function.update chip access.page (overlay (chip access.page) (2 * access.offset) data)
        else raw chip message
      else chip
  | .configure _ => chip
  | .other => raw chip message

/-- The bytes the device sends when they are read after a message. -/
def send (chip : Chip) (message : List Byte) : List Byte :=
  match decodeMessage message with
  | .access access _ => slice (chip access.page) (2 * access.offset) (2 * access.words)
  | .configure _ | .other => []

/-- The byte at an address, as the callers of the driver count them. -/
def regs (chip : Chip) : Nat → Byte := fun addr =>
  if addr < 0x10000 then chip (accessPage (BitVec.ofNat 16 addr)) (addr % 0x100) else 0

end Chip

/-- What becomes of a transfer: the status the port reports, and whether the device gets the message of a
transfer that is reported as failed. -/
structure Fate where
  status : SslStatus
  reaches : Bool
  deriving DecidableEq, Repr

def Chip.serve (raw : Chip → List Byte → Chip) (fate : Fate) (chip : Chip) (op : BusOp) :
    Chip × BusAnswer :=
  if fate.status = .ok then (chip.receive raw op.transfer.1, ⟨.ok, chip.send op.transfer.1⟩)
  else (if fate.reaches then chip.receive raw op.transfer.1 else chip, ⟨fate.status, []⟩)

/-- The device during a call: its registers, and how many transfers the call has made. -/
def Chip.device (raw : Chip → List Byte → Chip) (fates : Nat → Fate) (state : Chip × Nat) (op : BusOp) :
    (Chip × Nat) × BusAnswer :=
  (((state.1.serve raw (fates state.2) op).1, state.2 + 1), (state.1.serve raw (fates state.2) op).2)

/-- An access to registers of one page. -/
structure IsRegAccess (addr : RegAddr) (size : Nat) : Prop extends IsAccess addr size where
  within : addr.toNat % 0x100 + size ≤ 0x100

variable {addr : RegAddr} {size : Nat} {read : Bool} {chip : Chip} {raw : Chip → List Byte → Chip}

theorem decodeMessage_header {header : List Byte} {access : HbiAccess}
    (h : decodeHeader header = some access) (data : List Byte) :
    decodeMessage (header ++ data) = .access access data := by
  unfold decodeHeader at h
  split at h
  · next hi lo =>
      cases hword : opcodeOf hi lo with
      | direct offset write words =>
          rw [hword, Option.some.injEq] at h
          simp [decodeMessage, hword, h]
      | _ =>
          rw [hword] at h
          cases h
  · next hi lo hi' lo' =>
      cases hword : opcodeOf hi lo with
      | selectPage page =>
          cases hword' : opcodeOf hi' lo' with
          | paged offset write words =>
              rw [hword, hword', Option.some.injEq] at h
              simp [decodeMessage, hword, hword', h]
          | _ =>
              rw [hword, hword'] at h
              cases h
      | _ =>
          rw [hword] at h
          cases h
  · cases h

/-! ### Addresses and pages -/

theorem accessPage_direct (hpage : pageByte addr = 0) : accessPage addr = .direct := if_pos hpage

theorem accessPage_paged (hpage : pageByte addr ≠ 0) : accessPage addr = .paged (selectedPage addr) := by
  rw [accessPage, if_neg hpage, selectedPage]
  by_cases hlast : pageByte addr = 0xFF
  · rw [if_pos hlast, if_neg (not_not.2 hlast), hlast]
  · rw [if_neg hlast, if_pos hlast]

theorem accessPage_eq_iff {addr' : RegAddr} :
    accessPage addr' = accessPage addr ↔ addr'.toNat / 0x100 = addr.toNat / 0x100 := by
  rw [← pageByte_toNat, ← pageByte_toNat, BitVec.toNat_inj]
  constructor
  · intro hsame
    by_cases hpage : pageByte addr = 0
    · by_cases hpage' : pageByte addr' = 0
      · rw [hpage, hpage']
      · rw [accessPage_direct hpage, accessPage_paged hpage'] at hsame
        cases hsame
    · by_cases hpage' : pageByte addr' = 0
      · rw [accessPage_direct hpage', accessPage_paged hpage] at hsame
        cases hsame
      · rw [accessPage_paged hpage, accessPage_paged hpage', HbiPage.paged.injEq] at hsame
        exact pageByte_eq_of_selectedPage hpage hpage' hsame
  · intro hsame
    rw [accessPage, accessPage, hsame]

theorem Chip.regs_same_page {a : Nat} (hsame : a / 0x100 = addr.toNat / 0x100) :
    chip.regs a = chip (accessPage addr) (a % 0x100) := by
  have hlt : a < 0x10000 := by
    have := addr.isLt
    omega
  have hpage : accessPage (BitVec.ofNat 16 a) = accessPage addr := by
    rw [accessPage_eq_iff, BitVec.toNat_ofNat, Nat.mod_eq_of_lt hlt, hsame]
  rw [Chip.regs, if_pos hlt, hpage]

theorem IsRegAccess.slice_page (h : IsRegAccess addr size) :
    slice (chip (accessPage addr)) (addr.toNat % 0x100) size = slice chip.regs addr.toNat size := by
  have hwithin := h.within
  refine slice_congr fun k hk => ?_
  have hbyte : chip.regs (addr.toNat + k) = chip (accessPage addr) ((addr.toNat + k) % 0x100) :=
    Chip.regs_same_page (by omega)
  rw [hbyte]
  congr 1
  omega

theorem IsRegAccess.regs_update (h : IsRegAccess addr size) {data : List Byte} (hdata : data.length = size) :
    Chip.regs (Function.update chip (accessPage addr)
      (overlay (chip (accessPage addr)) (addr.toNat % 0x100) data))
      = overlay chip.regs addr.toNat data := by
  have hwithin := h.within
  funext a
  by_cases hlt : a < 0x10000
  · by_cases hsame : a / 0x100 = addr.toNat / 0x100
    · rw [Chip.regs_same_page hsame, Function.update_self]
      by_cases hbefore : a < addr.toNat
      · rw [overlay_before (by omega), overlay_before hbefore, Chip.regs_same_page hsame]
      · have hindex : a % 0x100 - addr.toNat % 0x100 = a - addr.toNat := by omega
        simp only [overlay, if_pos (not_lt.1 hbefore), hindex, Chip.regs_same_page hsame]
        rw [if_pos (by omega)]
    · have hother : accessPage (BitVec.ofNat 16 a) ≠ accessPage addr := by
        rw [Ne, accessPage_eq_iff, BitVec.toNat_ofNat, Nat.mod_eq_of_lt hlt]
        exact hsame
      have hout : overlay chip.regs addr.toNat data a = chip.regs a := by
        by_cases hbefore : a < addr.toNat
        · exact overlay_before hbefore
        · exact overlay_behind (by omega)
      rw [hout, Chip.regs, Chip.regs, if_pos hlt, if_pos hlt, Function.update_of_ne hother]
  · have haddr := addr.isLt
    rw [overlay_behind (by omega), Chip.regs, Chip.regs, if_neg hlt, if_neg hlt]

/-! ### Serving an access -/

theorem decodeMessage_access (h : IsRegAccess addr size) (hnot : ¬ Shadowed addr read size)
    (data : List Byte) :
    decodeMessage (twHbiTpFrameHdr addr read size ++ data) = .access (requested addr read size) data :=
  decodeMessage_header ((unambiguous_iff h.toIsAccess).2 hnot).decodes data

theorem IsRegAccess.offset (h : IsRegAccess addr size) (read : Bool) :
    2 * (requested addr read size).offset = addr.toNat % 0x100 ∧
      2 * (requested addr read size).words = size := by
  have heven := h.addr_even
  have hsize := h.size_even
  dsimp only [requested]
  omega

variable (chip raw) in
theorem read_served (h : IsRegAccess addr size) (hnot : ¬ Shadowed addr true size) :
    chip.receive raw (twHbiTpFrameHdr addr true size) = chip ∧
      chip.send (twHbiTpFrameHdr addr true size) = slice chip.regs addr.toNat size := by
  have hdecode := decodeMessage_access h hnot []
  rw [List.append_nil] at hdecode
  obtain ⟨hoffset, hwords⟩ := h.offset true
  constructor
  · rw [Chip.receive, hdecode]
    rfl
  · rw [Chip.send, hdecode]
    dsimp only
    rw [hoffset, hwords]
    exact h.slice_page

variable (chip raw) in
theorem write_served {data : List Byte} (h : IsRegAccess addr data.length)
    (hnot : ¬ Shadowed addr false data.length) :
    (chip.receive raw (twHbiTpFrameHdr addr false data.length ++ data)).regs
      = overlay chip.regs addr.toNat data := by
  obtain ⟨hoffset, hwords⟩ := h.offset false
  rw [Chip.receive, decodeMessage_access h hnot data]
  dsimp only
  rw [hoffset, hwords, if_pos rfl, if_pos (by rfl)]
  exact h.regs_update rfl

/-- What `internal_hbi_read` makes of what the port reports. -/
def bytesResult (size : Nat) (ans : BusAnswer) : Except HbiStatus (List Byte) :=
  if ans.status ≠ .ok then .error .internalErr else .ok ((List.range size).map (ans.data.getD · 0))

theorem internalHbiRead_eq (reg : RegAddr) (size : Nat) : internalHbiRead reg size
    = .ask (.read reg size) fun ans => .pure (bytesResult size ans) := by
  simp only [internalHbiRead, bytesResult, Prog.query_bind]
  congr 1
  funext ans
  by_cases h : ans.status = .ok <;> simp [h]

theorem internalHbiWrite_eq (reg : RegAddr) {data : List Byte} (hlen : data.length ≤ maxAccessSizeInBytes) :
    internalHbiWrite reg data = .ask (.write reg data) fun ans => .pure (writeResult ans) := by
  simp only [internalHbiWrite, writeResult, if_neg (not_lt.2 hlen), Prog.query_bind]
  congr 1
  funext ans
  by_cases h : ans.status = .opIncomplete
  · simp [h]
  · by_cases h' : ans.status = .ok <;> simp [h, h']

theorem bytesResult_slice {m : Nat → Byte} {start : Nat} :
    bytesResult size ⟨.ok, slice m start size⟩ = .ok (slice m start size) := by
  rw [bytesResult, if_neg (not_not.2 rfl)]
  congr 1
  refine List.ext_getElem (by simp) fun k hk hk' => ?_
  rw [List.getElem_map, List.getElem_range, List.getD_eq_getElem _ _ hk']

variable (chip raw) in
/-- `internal_hbi_read` of registers: on success the bytes at the address, and no register changes. -/
theorem read_call (h : IsRegAccess addr size) (hnot : ¬ Shadowed addr true size) (fates : Nat → Fate) :
    (internalHbiRead addr size).servedBy (Chip.device raw fates) (chip, 0)
      = ((chip, 1), if (fates 0).status = .ok then .ok (slice chip.regs addr.toNat size)
          else .error .internalErr) := by
  obtain ⟨hreceive, hsend⟩ := read_served chip raw h hnot
  rw [internalHbiRead_eq]
  dsimp only [Prog.servedBy, Chip.device, Chip.serve, BusOp.transfer]
  by_cases hok : (fates 0).status = .ok
  · rw [if_pos hok, if_pos hok, hreceive, hsend, bytesResult_slice]
  · rw [if_neg hok, if_neg hok, hreceive, ite_self, bytesResult, if_pos hok]

variable (chip raw) in
/-- `internal_hbi_write` of registers: on success the bytes are at the address; after an error they are
there or no register has changed. -/
theorem write_call {data : List Byte} (h : IsRegAccess addr data.length)
    (hnot : ¬ Shadowed addr false data.length) (fates : Nat → Fate) :
    ∃ chip' status, (internalHbiWrite addr data).servedBy (Chip.device raw fates) (chip, 0)
        = ((chip', 1), status) ∧
      (chip'.regs = overlay chip.regs addr.toNat data ∨ status ≠ .success ∧ chip' = chip) ∧
      ((fates 0).status = .ok → status = .success) := by
  have hlen : data.length ≤ maxAccessSizeInBytes := h.size_range.2
  have hwritten := write_served chip raw h hnot
  rw [internalHbiWrite_eq _ hlen]
  dsimp only [Prog.servedBy, Chip.device, Chip.serve, BusOp.transfer]
  refine ⟨_, _, rfl, ?_, fun hok => by rw [if_pos hok]; rfl⟩
  by_cases hok : (fates 0).status = .ok
  · left
    rw [if_pos hok]
    exact hwritten
  · rw [if_neg hok]
    by_cases hreaches : (fates 0).reaches = true
    · left
      rw [if_pos hreaches]
      exact hwritten
    · right
      rw [if_neg hreaches]
      refine ⟨?_, rfl⟩
      unfold writeResult
      by_cases hinc : (fates 0).status = .opIncomplete
      · simp [hinc]
      · simp [hinc, hok]

end VprocSdk
