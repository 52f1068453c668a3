import VprocSdk.Apps.ConfigRecord
import VprocSdk.Apps.MiTunerRegisters
import VprocSdk.Lnx.Cr2Lines

/-!
# Two ways of a configuration record

The script writes the records of a file itself, in blocks of consecutive registers. A user writes the file to
an entry of the driver, which writes its lines one after another, some of them twice. On a file of plain lines
both end with the same registers, but for what the script keeps in its last block and the flag that the driver
sets behind the file.
-/

namespace VprocSdk

open Lib

/-! ### Registers behind writes -/

def applyWrites (m : Nat → Byte) (writes : List (Int × Int)) : Nat → Byte :=
  writes.foldl (fun m w => Function.update m w.1.toNat (byteOf w.2)) m

def configured (m : Nat → Byte) (records : List (Int × Int)) : Nat → Byte :=
  applyWrites m (records.flatMap recordWrites)

section Writes

variable (m : Nat → Byte)

theorem applyWrites_append (writes more : List (Int × Int)) :
    applyWrites m (writes ++ more) = applyWrites (applyWrites m writes) more := List.foldl_append

theorem configured_append (records more : List (Int × Int)) :
    configured m (records ++ more) = configured (configured m records) more := by
  rw [configured, List.flatMap_append, applyWrites_append]
  rfl

theorem applyWrites_writesAt {addr : Int} (haddr : 0 ≤ addr) (bytes : List Int) :
    applyWrites m (writesAt addr bytes) = overlay m addr.toNat (bytes.map byteOf) := by
  induction bytes generalizing m addr with
  | nil => exact (overlay_nil m _).symm
  | cons b bytes ih =>
      have hnext : (addr + 1).toNat = addr.toNat + [byteOf b].length := by
        rw [List.length_singleton]
        omega
      show applyWrites (Function.update m addr.toNat (byteOf b)) (writesAt (addr + 1) bytes) = _
      rw [ih _ (by omega), update_eq_overlay, hnext, overlay_append]
      rfl

theorem configured_singleton {record : Int × Int} (haddr : 0 ≤ record.1) :
    configured m [record] = overlay m record.1.toNat ((dataBytes record.2).map byteOf) := by
  rw [configured, List.flatMap_singleton, recordWrites, applyWrites_writesAt m haddr]

theorem overlay_twice (start : Nat) (xs : List Byte) : overlay (overlay m start xs) start xs = overlay m start xs := by
  funext i
  unfold overlay
  by_cases hi : start ≤ i
  · rw [if_pos hi, if_pos hi]
    by_cases hlen : i - start < xs.length
    · rw [List.getD_eq_getElem _ _ hlen, List.getD_eq_getElem _ _ hlen]
    · rw [List.getD_eq_default _ _ (Nat.le_of_not_lt hlen)]
  · rw [if_neg hi, if_neg hi]

theorem foundFrom_mem {lines : List Cr2Line} {record : Int × Int} (h : foundFrom lines = some record) :
    record ∈ fileRecords lines := by
  induction lines with
  | nil => cases h
  | cons line lines ih =>
      cases line with
      | entry e =>
          obtain rfl : e.record = record := Option.some.inj h
          exact List.mem_cons_self
      | comment indent text hindent htext => cases h
      | blank space hspace => exact ih h

theorem driverRecords_mem {lines : List Cr2Line} {record : Int × Int} (h : record ∈ driverRecords lines) :
    record ∈ fileRecords lines := by
  induction lines with
  | nil => exact h
  | cons line lines ih =>
      have hbehind : fileRecords lines ⊆ fileRecords (line :: lines) := fun r hr => by
        cases line with
        | entry e => exact List.mem_cons_of_mem e.record hr
        | comment | blank => exact hr
      rcases List.mem_append.1 h with hfound | hothers
      · exact foundFrom_mem (Option.mem_toList.1 hfound)
      · exact hbehind (ih hothers)

theorem configured_twice {lines : List Cr2Line} (haddr : ∀ r ∈ fileRecords lines, 0 ≤ r.1) :
    configured m ((foundFrom lines).toList ++ (foundFrom lines).toList) = configured m (foundFrom lines).toList := by
  cases hfound : foundFrom lines with
  | none => rfl
  | some record =>
      have hrecord := haddr record (foundFrom_mem hfound)
      rw [configured_append, Option.toList_some, configured_singleton _ hrecord, configured_singleton _ hrecord,
        overlay_twice]

/-- What the driver finds from a blank line is what it writes next, so that the registers come out as if it
had written each record once. -/
theorem configured_driverRecords {lines : List Cr2Line} (haddr : ∀ r ∈ fileRecords lines, 0 ≤ r.1) :
    configured m (driverRecords lines) = configured m (fileRecords lines) ∧
      configured m ((foundFrom lines).toList ++ driverRecords lines) = configured m (driverRecords lines) := by
  induction lines generalizing m with
  | nil => exact ⟨rfl, rfl⟩
  | cons line lines ih =>
      refine ⟨?_, ?_⟩
      · cases line with
        | entry e =>
            have hothers := (ih (configured m [e.record]) fun r hr =>
              haddr r (List.mem_cons_of_mem e.record hr)).1
            show configured m ([e.record] ++ driverRecords lines) = configured m ([e.record] ++ fileRecords lines)
            rw [configured_append, configured_append, hothers]
        | comment indent text hindent htext => exact (ih m haddr).1
        | blank space hspace => exact (ih m haddr).2.trans (ih m haddr).1
      · rw [driverRecords, ← List.append_assoc, configured_append, configured_twice m haddr, ← configured_append]

end Writes

/-! ### The driver's entry -/

/-- What the entries of the driver are answered, who call the same functions as the wrapper. -/
def chipReg (raw : Chip → List Byte → Chip) (pDev : TwDev) (chip : Chip) : RegAsk → Chip × HbiReply
  | .read handle reg length =>
      let answered := chipAsk raw pDev chip (.hbi (.read handle reg length))
      (answered.1, answered.2.hbi)
  | .write handle reg data =>
      let answered := chipAsk raw pDev chip (.write handle reg data)
      (answered.1, answered.2.hbi)

theorem record_access {record : Int × Int} (h : IsRecord record.1 record.2) {words : Nat} (hwords : 0 < words)
    (hpage : record.1 % 0x100 + 2 * words ≤ 0x100) :
    (BitVec.ofInt 16 record.1).toNat = record.1.toNat ∧ IsRegAccess (BitVec.ofInt 16 record.1) (2 * words) ∧
      ∀ read size, ¬ Shadowed (BitVec.ofInt 16 record.1) read size := by
  obtain ⟨heven, hlow, hhigh, -⟩ := h
  have hreg : (BitVec.ofInt 16 record.1).toNat = record.1.toNat := by
    rw [BitVec.toNat_ofInt]
    omega
  refine ⟨hreg, ⟨⟨?_, ?_, ?_⟩, ?_⟩, ?_⟩
  · omega
  · omega
  · omega
  · omega
  · intro read size hshadowed
    have hsmall : (BitVec.ofInt 16 record.1).toNat < 0x100 := by
      rcases hshadowed with heq | heq | heq | ⟨heq, -⟩ <;> rw [heq] <;> decide
    omega

section Driver

variable (raw : Chip → List Byte → Chip) (pDev : TwDev) (chip : Chip) (handle : Nat)

theorem chipReg_read {reg : RegAddr} {size : Nat} (h : IsRegAccess reg size) (hnot : ¬ Shadowed reg true size) :
    chipReg raw pDev chip (.read handle reg size) = (chip, ⟨.success, slice chip.regs reg.toNat size⟩) := by
  have hread := chipAsk_read raw pDev chip handle h hnot
  unfold chipReg
  dsimp only
  rw [hread]

theorem chipReg_write {reg : RegAddr} {data : List Byte} (h : IsRegAccess reg data.length)
    (hnot : ¬ Shadowed reg false data.length) :
    ∃ chip', chipReg raw pDev chip (.write handle reg data) = (chip', ⟨.success, []⟩) ∧
      chip'.regs = overlay chip.regs reg.toNat data := by
  obtain ⟨hregs, hreply⟩ := chipAsk_write raw pDev chip handle h hnot
  refine ⟨_, ?_, hregs⟩
  unfold chipReg
  dsimp only
  rw [hreply]

theorem writeRecords_chip {records : List (Int × Int)} (h : ∀ r ∈ records, IsRecord r.1 r.2) (cfgrecSize : Nat) :
    ∃ chip', (writeRecords handle records cfgrecSize).servedBy (chipReg raw pDev) chip
        = (chip', cfgrecSize + 2 * records.length) ∧
      chip'.regs = configured chip.regs records := by
  induction records generalizing chip cfgrecSize with
  | nil => exact ⟨chip, rfl, rfl⟩
  | cons record records ih =>
      have hrecord := h record List.mem_cons_self
      obtain ⟨hreg, haccess, hplain⟩ := record_access hrecord one_pos (by have := hrecord.1; omega)
      have haccess' : IsRegAccess (BitVec.ofInt 16 record.1) ((dataBytes record.2).map byteOf).length := haccess
      obtain ⟨written, hwrite, hregs⟩ := chipReg_write raw pDev chip handle haccess' (hplain false 2)
      obtain ⟨chip', hserved, hregs'⟩ := ih written (fun r hr => h r (List.mem_cons_of_mem record hr))
        (cfgrecSize + 2)
      refine ⟨chip', ?_, ?_⟩
      · rw [writeRecords, Prog.servedBy_query_bind, hwrite]
        dsimp only
        rw [if_pos rfl, hserved, List.length_cons, Nat.mul_add, Nat.mul_one, Nat.add_assoc, Nat.add_comm 2]
      · have hone : configured chip.regs [record]
            = overlay chip.regs record.1.toNat ((dataBytes record.2).map byteOf) :=
          configured_singleton chip.regs (by have := hrecord.2.1; omega)
        have happend := configured_append chip.regs [record] records
        rw [hregs', hregs, hreg, ← hone, ← happend]
        rfl

theorem hostSwFlags_access : IsRegAccess Reg.hostSwFlags 2 := ⟨⟨by decide, by decide, by decide⟩, by decide⟩

theorem hostSwFlags_plain (read : Bool) : ¬ Shadowed Reg.hostSwFlags read 2 := by
  unfold Shadowed
  decide +revert

theorem resetWait_chip (count : Nat) :
    (resetWait handle count).servedBy (chipReg raw pDev) chip = (chip, ()) := by
  induction count with
  | zero => rfl
  | succ count ih =>
      rw [resetWait, Prog.servedBy_query_bind,
        chipReg_read raw pDev chip handle hostSwFlags_access (hostSwFlags_plain true)]
      exact ih

/-- The text of a file written to the entry. Of the record it has counted every write it made. -/
theorem hbiProcWrCfgrec_chip {lines : List Cr2Line} (hne : lines ≠ []) (hends : EndsPlain lines)
    (hrecords : ∀ r ∈ fileRecords lines, IsRecord r.1 r.2) :
    ∃ chip', (hbiProcWrCfgrec (some handle) ((fileText lines).map chr) true).servedBy (chipReg raw pDev) chip
        = (chip', .ok (some (2 * (driverRecords lines).length), ((fileText lines).length : Int))) ∧
      chip'.regs = overlay (configured chip.regs (fileRecords lines)) Reg.hostSwFlags.toNat [0x00, 0x02] := by
  have hlen : ¬ ((fileText lines).map chr).length = 0 := by
    cases lines with
    | nil => exact absurd rfl hne
    | cons line lines =>
        rw [fileText_cons, List.length_map, List.length_append, List.length_cons]
        omega
  have haddr : ∀ r ∈ fileRecords lines, 0 ≤ r.1 := fun r hr => by
    have hlow := (hrecords r hr).2.1
    omega
  have hloop : cfgrecLoop handle ((fileText lines).map chr) 0 0
      = writeRecords handle (driverRecords lines) 0 >>= fun cfgrecSize => .pure (.ok cfgrecSize) :=
    cfgrecLoop_lines handle hends List.drop_zero 0
  obtain ⟨chip', hserved, hregs⟩ := writeRecords_chip raw pDev chip handle
    (fun r hr => hrecords r (driverRecords_mem hr)) 0
  have hreboot : IsRegAccess Reg.hostSwFlags
      [(hostSwFlagsAppReboot >>> 8).setWidth 8, hostSwFlagsAppReboot.setWidth 8].length := hostSwFlags_access
  obtain ⟨rebooting, hwrite, hflags⟩ := chipReg_write raw pDev chip' handle hreboot (hostSwFlags_plain false)
  refine ⟨rebooting, ?_, hflags.trans ?_⟩
  · rw [hbiProcWrCfgrec]
    dsimp only
    rw [if_neg hlen, Bool.not_true, if_neg Bool.false_ne_true, hloop, bind_assoc, Prog.servedBy_bind, hserved]
    dsimp only [Prog.pure_eq, Prog.pure_bind]
    rw [Prog.servedBy_query_bind, hwrite]
    dsimp only
    rw [if_pos rfl, Prog.servedBy_bind, resetWait_chip]
    dsimp only [Prog.servedBy]
    rw [Nat.zero_add, List.length_map]
  · rw [hregs, (configured_driverRecords chip.regs haddr).1]
    rfl

end Driver

/-! ### The script -/

/-- The variables of the script, with the words it has written. -/
def Cr2Vars.having (st : Cr2Vars) (device : List (Int × Int)) : Cr2State :=
  ⟨device, st.dataBuffer, st.prevAddr, st.currentAddr, st.blockSize⟩

/-- A register that begins a page begins a block, so that no block goes on to another page. -/
def PagesBeginBlocks (records : List (Int × Int)) : Prop :=
  ∀ before ∈ records.inits, ∀ record ∈ before.getLast?, record.1 % 0x100 = 0 → lastRun before % cr2BlockSize = 1

instance (records : List (Int × Int)) : Decidable (PagesBeginBlocks records) :=
  inferInstanceAs (Decidable (∀ before ∈ records.inits, ∀ record ∈ before.getLast?, _ → _))

/-- Between two records: the registers hold what is written, and the buffer goes to one page. -/
structure Configuring (m : Nat → Byte) (records : List (Int × Int)) (st : Cr2Vars) (chip : Chip)
    (sent pending : List (Int × Int)) : Prop where
  hold : Holding records (st.having sent) sent pending
  order : InOrder records (st.having sent) sent pending
  regs : chip.regs = configured m sent
  paged : st.currentAddr % 0x100 + 2 * pending.length ≤ 0x100

/-- Before a record goes to the buffer, which has its place. -/
structure Placing (m : Nat → Byte) (records : List (Int × Int)) (st : Cr2Vars) (chip : Chip)
    (sent pending : List (Int × Int)) (record : Int × Int) : Prop where
  hold : Holding records (st.having sent) sent pending
  next : NextInOrder records (st.having sent) sent pending record
  regs : chip.regs = configured m sent
  paged : st.currentAddr % 0x100 + 2 * (pending.length + 1) ≤ 0x100

theorem recordBytes_length (records : List (Int × Int)) : (recordBytes records).length = 2 * records.length := by
  induction records with
  | nil => rfl
  | cons record records ih =>
      have hcons : (recordBytes (record :: records)).length = 2 + (recordBytes records).length := by
        rw [recordBytes, List.flatMap_cons, List.length_append]
        rfl
      rw [hcons, ih, List.length_cons, Nat.mul_succ, Nat.add_comm]

theorem placed_writes (addr : Int) {records : List (Int × Int)} (hvalue : ∀ r ∈ records, IsValue r.2) :
    (placedAt addr records).flatMap recordWrites = writesAt addr (recordBytes records) := by
  induction records generalizing addr with
  | nil => rfl
  | cons record records ih =>
      obtain ⟨hlow, hhigh⟩ := hvalue record List.mem_cons_self
      have hnext : addr + 2 = addr + 1 + 1 := by omega
      have hmsb : record.2 / 2 ^ 8 % 0x100 = record.2 / 2 ^ 8 := by omega
      have hbytes : recordBytes (record :: records) = dataBytes record.2 ++ recordBytes records := by
        rw [recordBytes, List.flatMap_cons, hmsb]
        rfl
      rw [placedAt, List.flatMap_cons, ih _ fun r hr => hvalue r (List.mem_cons_of_mem record hr), hbytes, hnext]
      rfl

theorem configured_placed (m : Nat → Byte) {addr : Int} (haddr : 0 ≤ addr) {records : List (Int × Int)}
    (hvalue : ∀ r ∈ records, IsValue r.2) (hplaced : records = placedAt addr records) :
    configured m records = overlay m addr.toNat ((recordBytes records).map byteOf) := by
  have hwrites := placed_writes addr hvalue
  rw [← hplaced] at hwrites
  rw [configured, hwrites, applyWrites_writesAt m haddr]

section Script

variable {m : Nat → Byte} {records sent pending : List (Int × Int)} {st : Cr2Vars}
variable (raw : Chip → List Byte → Chip) (pDev : TwDev) {chip : Chip} (handle : Nat)

variable (chip st) in
theorem shipTo_chip (hne : pending ≠ []) (hrecords : ∀ r ∈ pending, IsRecord r.1 r.2)
    (hbytes : st.dataBuffer = recordBytes pending) (hplaced : pending = placedAt st.currentAddr pending)
    (hpage : st.currentAddr % 0x100 + 2 * pending.length ≤ 0x100) :
    ∃ chip', (st.shipTo handle).run.servedBy (chipAsk raw pDev) chip
        = (chip', .ok { st with dataBuffer := [], blockSize := 0 }) ∧
      chip'.regs = configured chip.regs pending := by
  obtain ⟨data, hfirst⟩ : ∃ data, (st.currentAddr, data) ∈ pending := by
    cases pending with
    | nil => exact absurd rfl hne
    | cons first rest =>
        rw [hplaced]
        exact ⟨first.2, List.mem_cons_self⟩
  have hrecord := hrecords _ hfirst
  have hrange : 0 ≤ st.currentAddr ∧ st.currentAddr ≤ 0xFFFF := by
    have hlow := hrecord.2.1
    have hhigh := hrecord.2.2.1
    dsimp only at hlow hhigh
    omega
  obtain ⟨hreg, haccess, hplain⟩ := record_access hrecord (List.length_pos_iff.2 hne) hpage
  have hlength : ((st.dataBuffer.map byteOf)).length = 2 * pending.length := by
    rw [List.length_map, hbytes, recordBytes_length]
  rw [← hlength] at haccess
  obtain ⟨hregs, -⟩ := chipAsk_write raw pDev chip handle haccess (hplain false _)
  refine ⟨_, ?_, hregs.trans ?_⟩
  · rw [Cr2Vars.shipTo, if_pos hrange]
    rfl
  · rw [configured_placed chip.regs hrange.1 (fun r hr => (hrecords r hr).2.2.2) hplaced, hreg, hbytes]

theorem Configuring.pending_records (h : Configuring m records st chip sent pending)
    (hrecords : ∀ r ∈ records, IsRecord r.1 r.2) : ∀ r ∈ pending, IsRecord r.1 r.2 := fun r hr =>
  hrecords r (by rw [h.hold.divided]; exact List.mem_append_right _ hr)

theorem Configuring.restart (h : Configuring m records st chip sent pending) (hprev : st.prevAddr = 0)
    {addr : Int} (heven : addr % 2 = 0) (data : Int) :
    ∃ st', (st.readyFor handle addr).run.servedBy (chipAsk raw pDev) chip = (chip, .ok st') ∧
      Placing m records st' chip sent pending (addr, data) := by
  have hempty : pending = [] := by
    by_contra hne
    obtain ⟨-, -, -, hnonzero, -⟩ := h.order.prev hne
    exact hnonzero hprev
  subst hempty
  refine ⟨{ st with currentAddr := addr, prevAddr := addr - 2 }, ?_,
    ⟨h.hold.divided, h.hold.dataBuffer, h.hold.blockSize, h.hold.device, h.hold.value⟩,
    h.order.restart hprev addr data, h.regs, ?_⟩
  · unfold Cr2Vars.readyFor
    rw [if_pos hprev]
    dsimp only
    rw [if_neg (by omega)]
    rfl
  · show addr % 0x100 + 2 * (0 + 1) ≤ 0x100
    omega

theorem Configuring.follow (h : Configuring m records st chip sent pending) (hprev : st.prevAddr ≠ 0)
    {addr : Int} (hnext : addr = st.prevAddr + 2) (heven : addr % 2 = 0) (data : Int)
    (hpages : addr % 0x100 = 0 → lastRun (records ++ [(addr, data)]) % cr2BlockSize = 1) :
    (st.readyFor handle addr).run.servedBy (chipAsk raw pDev) chip = (chip, .ok st) ∧
      Placing m records st chip sent pending (addr, data) := by
  have hpending : pending ≠ [] := fun hempty => hprev (h.order.empty hempty)
  have hpos := List.length_pos_iff.2 hpending
  have hplacing := h.order.follow hprev hnext data
  obtain ⟨last, -, -, -, hplace⟩ := h.order.prev hpending
  have hplace' : addr = st.currentAddr + 2 * (pending.length : Int) := hnext.trans hplace
  refine ⟨?_, h.hold, hplacing, h.regs, ?_⟩
  · unfold Cr2Vars.readyFor
    rw [if_neg hprev]
    dsimp only
    rw [if_neg (not_not.2 hnext)]
    rfl
  · -- the place behind a full page begins a page, where a block begins
    have hnot : addr % 0x100 ≠ 0 := by
      intro hzero
      have hrun := hplacing.run
      have hsmall := hplacing.small
      rw [hpages hzero] at hrun
      unfold cr2BlockSize at hrun hsmall
      omega
    have hpaged := h.paged
    omega

theorem Configuring.gap (h : Configuring m records st chip sent pending)
    (hrecords : ∀ r ∈ records, IsRecord r.1 r.2) (hprev : st.prevAddr ≠ 0) {addr : Int}
    (hgap : addr ≠ st.prevAddr + 2) (heven : addr % 2 = 0) (data : Int) :
    ∃ chip' st', (st.readyFor handle addr).run.servedBy (chipAsk raw pDev) chip = (chip', .ok st') ∧
      Placing m records st' chip' (sent ++ pending) [] (addr, data) := by
  have hpending : pending ≠ [] := fun hempty => hprev (h.order.empty hempty)
  obtain ⟨chip', hship, hregs⟩ := shipTo_chip st raw pDev chip handle hpending
    (h.pending_records hrecords) h.hold.dataBuffer h.order.buffer h.paged
  refine ⟨chip', { st with dataBuffer := [], blockSize := 0, currentAddr := addr }, ?_,
    ⟨?_, rfl, rfl, rfl, h.hold.value⟩, ?_, ?_, ?_⟩
  · unfold Cr2Vars.readyFor
    rw [if_neg hprev]
    dsimp only
    rw [if_pos hgap, Prog.servedBy_andThen hship]
    rfl
  · rw [List.append_nil]
    exact h.hold.divided
  · have hplacing := h.order.gap hprev hgap data
    have hdevice : sent ++ placedAt st.currentAddr pending = sent ++ pending :=
      congrArg (sent ++ ·) h.order.buffer.symm
    dsimp only [Cr2Vars.having] at hplacing
    rw [hdevice] at hplacing
    exact hplacing
  · rw [hregs, h.regs, configured_append]
  · show addr % 0x100 + 2 * (0 + 1) ≤ 0x100
    omega

theorem Configuring.ready (h : Configuring m records st chip sent pending)
    (hrecords : ∀ r ∈ records, IsRecord r.1 r.2) {addr data : Int} (heven : addr % 2 = 0)
    (hpages : addr % 0x100 = 0 → lastRun (records ++ [(addr, data)]) % cr2BlockSize = 1) :
    ∃ chip' st' sent' pending', (st.readyFor handle addr).run.servedBy (chipAsk raw pDev) chip
        = (chip', .ok st') ∧ Placing m records st' chip' sent' pending' (addr, data) := by
  by_cases hprev : st.prevAddr = 0
  · obtain ⟨st', hready⟩ := h.restart raw pDev handle hprev heven data
    exact ⟨chip, st', sent, pending, hready⟩
  · by_cases hnext : addr = st.prevAddr + 2
    · exact ⟨chip, st, sent, pending, h.follow raw pDev handle hprev hnext heven data hpages⟩
    · obtain ⟨chip', st', hready⟩ := h.gap raw pDev handle hrecords hprev hnext heven data
      exact ⟨chip', st', sent ++ pending, [], hready⟩

theorem Placing.place {addr data : Int} (h : Placing m records st chip sent pending (addr, data)) :
    addr = st.currentAddr + 2 * (pending.length : Int) := by
  have hbuffer := h.next.buffer
  rw [placedAt_snoc] at hbuffer
  have hlast := List.append_inj_right hbuffer (placedAt_length _ pending).symm
  rw [List.cons.injEq, Prod.mk.injEq] at hlast
  exact hlast.1.1

theorem Placing.bytes {addr data : Int} (h : Placing m records st chip sent pending (addr, data)) :
    st.dataBuffer ++ [data / 2 ^ 8 % 0x100, data % 0x100] = recordBytes (pending ++ [(addr, data)]) := by
  have hbuffer : st.dataBuffer = recordBytes pending := h.hold.dataBuffer
  rw [hbuffer, recordBytes, recordBytes, List.flatMap_append]
  rfl

theorem Placing.records_written {addr data : Int} (h : Placing m records st chip sent pending (addr, data))
    (hrecords : ∀ r ∈ records ++ [(addr, data)], IsRecord r.1 r.2) :
    ∀ r ∈ pending ++ [(addr, data)], IsRecord r.1 r.2 := by
  intro r hr
  apply hrecords
  rw [h.hold.divided, List.append_assoc]
  exact List.mem_append_right _ hr

theorem Placing.fills {addr data : Int} (h : Placing m records st chip sent pending (addr, data))
    (hrecords : ∀ r ∈ records ++ [(addr, data)], IsRecord r.1 r.2)
    (hfull : pending.length + 1 = cr2BlockSize) :
    ∃ chip' st', (st.append handle addr data).run.servedBy (chipAsk raw pDev) chip = (chip', .ok st') ∧
      Configuring m (records ++ [(addr, data)]) st' chip' (sent ++ (pending ++ [(addr, data)])) [] := by
  have hwritten := h.records_written hrecords
  have hdata : IsValue data := (hwritten (addr, data) (List.mem_append_right _ List.mem_cons_self)).2.2.2
  have hsize : st.blockSize = pending.length := h.hold.blockSize
  have hlength : (pending ++ [(addr, data)]).length = pending.length + 1 := List.length_append
  obtain ⟨chip', hship, hregs⟩ := shipTo_chip
    ⟨recordBytes (pending ++ [(addr, data)]), addr, st.currentAddr, pending.length + 1⟩ raw pDev chip handle
    (List.append_ne_nil_of_right_ne_nil _ (List.cons_ne_nil _ _)) hwritten rfl h.next.buffer
    (by rw [hlength]; exact h.paged)
  refine ⟨chip', { st with dataBuffer := [], blockSize := 0, prevAddr := 0 }, ?_,
    ⟨?_, rfl, rfl, rfl, h.hold.value_snoc hdata⟩,
    ⟨rfl, rfl, fun hne => absurd rfl hne, fun _ => rfl, ?_⟩, ?_, ?_⟩
  · unfold Cr2Vars.append
    dsimp only
    rw [h.bytes, hsize, if_pos hfull, Prog.servedBy_andThen hship]
    rfl
  · rw [h.hold.divided, List.append_nil, List.append_assoc]
  · rw [h.next.run, hfull]
    rfl
  · rw [hregs, h.regs, ← configured_append m sent]
  · have hpaged := h.paged
    show st.currentAddr % 0x100 + 2 * 0 ≤ 0x100
    omega

theorem Placing.keeps {addr data : Int} (h : Placing m records st chip sent pending (addr, data))
    (hrecords : ∀ r ∈ records ++ [(addr, data)], IsRecord r.1 r.2)
    (hroom : pending.length + 1 ≠ cr2BlockSize) :
    ∃ st', (st.append handle addr data).run.servedBy (chipAsk raw pDev) chip = (chip, .ok st') ∧
      Configuring m (records ++ [(addr, data)]) st' chip sent (pending ++ [(addr, data)]) := by
  have hrecord := hrecords (addr, data) (List.mem_append_right _ List.mem_cons_self)
  have hplace := h.place
  have hsize : st.blockSize = pending.length := h.hold.blockSize
  have hlength : (pending ++ [(addr, data)]).length = pending.length + 1 := List.length_append
  refine ⟨⟨recordBytes (pending ++ [(addr, data)]), addr, st.currentAddr, pending.length + 1⟩, ?_,
    hsize ▸ h.hold.kept hrecord.2.2.2,
    ⟨h.next.device, h.next.buffer, fun _ => ⟨(addr, data), List.getLast?_concat, rfl, ?_, ?_⟩, ?_, ?_⟩,
    h.regs, ?_⟩
  · unfold Cr2Vars.append
    dsimp only
    rw [h.bytes, hsize, if_neg hroom]
    rfl
  · have hlow := hrecord.2.1
    show addr ≠ 0
    dsimp only at hlow
    omega
  · rw [hlength]
    show addr + 2 = st.currentAddr + 2 * ((pending.length + 1 : Nat) : Int)
    omega
  · intro hempty
    exact absurd hempty (List.append_ne_nil_of_right_ne_nil _ (List.cons_ne_nil _ _))
  · have hsmall := h.next.small
    rw [h.next.run, hlength]
    exact Nat.mod_eq_of_lt (by omega)
  · rw [hlength]
    exact h.paged

theorem Placing.append {addr data : Int} (h : Placing m records st chip sent pending (addr, data))
    (hrecords : ∀ r ∈ records ++ [(addr, data)], IsRecord r.1 r.2) :
    ∃ chip' st' sent' pending', (st.append handle addr data).run.servedBy (chipAsk raw pDev) chip
        = (chip', .ok st') ∧ Configuring m (records ++ [(addr, data)]) st' chip' sent' pending' := by
  by_cases hfull : pending.length + 1 = cr2BlockSize
  · obtain ⟨chip', st', happend⟩ := h.fills raw pDev handle hrecords hfull
    exact ⟨chip', st', sent ++ (pending ++ [(addr, data)]), [], happend⟩
  · obtain ⟨st', happend⟩ := h.keeps raw pDev handle hrecords hfull
    exact ⟨chip, st', sent, pending ++ [(addr, data)], happend⟩

/-- The records that are left, one after another. -/
theorem Configuring.run {more : List (Int × Int)} (h : Configuring m records st chip sent pending)
    (hrecords : ∀ r ∈ records ++ more, IsRecord r.1 r.2) (hpages : PagesBeginBlocks (records ++ more)) :
    ∃ chip' st' sent' pending', (sendRecords handle more st).run.servedBy (chipAsk raw pDev) chip
        = (chip', .ok ()) ∧ Configuring m (records ++ more) st' chip' sent' pending' := by
  induction more generalizing records st chip sent pending with
  | nil =>
      rw [List.append_nil]
      exact ⟨chip, st, sent, pending, rfl, h⟩
  | cons record more ih =>
      obtain ⟨addr, data⟩ := record
      have hassoc : records ++ (addr, data) :: more = records ++ [(addr, data)] ++ more := by
        rw [List.append_assoc]
        rfl
      rw [hassoc] at hrecords hpages ⊢
      have hsofar : ∀ r ∈ records ++ [(addr, data)], IsRecord r.1 r.2 := fun r hr =>
        hrecords r (List.mem_append_left _ hr)
      have hbegins := hpages (records ++ [(addr, data)]) ((List.mem_inits _ _).2 (List.prefix_append _ _))
        (addr, data) List.getLast?_concat
      obtain ⟨chip', st', sent', pending', hready, hplacing⟩ := h.ready raw pDev handle
        (fun r hr => hsofar r (List.mem_append_left _ hr))
        (hsofar (addr, data) (List.mem_append_right _ List.mem_cons_self)).1 hbegins
      obtain ⟨chip', st', sent', pending', happend, hconfiguring⟩ := hplacing.append raw pDev handle hsofar
      obtain ⟨chip'', st'', sent'', pending'', hrest, hdone⟩ := ih hconfiguring hrecords hpages
      refine ⟨chip'', st'', sent'', pending'', ?_, hdone⟩
      rw [sendRecords, Prog.servedBy_andThen hready, Prog.servedBy_andThen happend]
      exact hrest

/-- The records that the script writes: all but those in its buffer at the end. -/
def shippedRecords (records : List (Int × Int)) : List (Int × Int) :=
  records.take (records.length - lastRun records % cr2BlockSize)

def keptRecords (records : List (Int × Int)) : List (Int × Int) :=
  records.drop (records.length - lastRun records % cr2BlockSize)

theorem Configuring.sent_eq (h : Configuring m records st chip sent pending) : sent = shippedRecords records := by
  have hrun : lastRun records % cr2BlockSize = pending.length := h.order.run
  rw [shippedRecords, hrun, h.hold.divided, List.length_append, Nat.add_sub_cancel, List.take_left]

end Script

theorem scriptLoadConfigCr2_chip (raw : Chip → List Byte → Chip) (pDev : TwDev) (chip : Chip) (handle : Nat)
    (text : List Char) (hrecords : ∀ r ∈ cr2Records text, IsRecord r.1 r.2)
    (hpages : PagesBeginBlocks (cr2Records text)) :
    ∃ chip', (scriptLoadConfigCr2 handle text).run.servedBy (chipAsk raw pDev) chip = (chip', .ok ()) ∧
      chip'.regs = configured chip.regs (shippedRecords (cr2Records text)) := by
  have hstart : Configuring chip.regs [] .start chip [] [] :=
    ⟨⟨rfl, rfl, rfl, rfl, List.forall_mem_nil _⟩, ⟨rfl, rfl, fun hne => absurd rfl hne, fun _ => rfl, rfl⟩,
      rfl, by decide⟩
  obtain ⟨chip', st', sent, pending, hserved, hdone⟩ := hstart.run raw pDev handle hrecords hpages
  exact ⟨chip', hserved, hdone.regs.trans (congrArg _ hdone.sent_eq)⟩

/-! ### The two ways -/

/-- A file of plain lines, handed to the script or written to the driver's entry: the registers come out the
same, but for the records that the script keeps in its buffer at the end and the flag that the driver sets
behind the file. The driver looks at nothing behind the text. -/
theorem configuration_paths (raw : Chip → List Byte → Chip) (pDev : TwDev) (chip : Chip) (handle : Nat)
    (lines : List Cr2Line) (hne : lines ≠ []) (hends : EndsPlain lines)
    (hrecords : ∀ r ∈ fileRecords lines, IsRecord r.1 r.2) (hpages : PagesBeginBlocks (fileRecords lines)) :
    ∃ scripted driven : Chip,
      (scriptLoadConfigCr2 handle (fileText lines)).run.servedBy (chipAsk raw pDev) chip = (scripted, .ok ()) ∧
      (hbiProcWrCfgrec (some handle) ((fileText lines).map chr) true).servedBy (chipReg raw pDev) chip
        = (driven, .ok (some (2 * (driverRecords lines).length), ((fileText lines).length : Int))) ∧
      scripted.regs = configured chip.regs (shippedRecords (fileRecords lines)) ∧
      driven.regs = overlay (configured scripted.regs (keptRecords (fileRecords lines)))
        Reg.hostSwFlags.toNat [0x00, 0x02] := by
  have htext := cr2Records_fileText lines
  obtain ⟨scripted, hscript, hshipped⟩ := scriptLoadConfigCr2_chip raw pDev chip handle (fileText lines)
    (by rw [htext]; exact hrecords) (by rw [htext]; exact hpages)
  obtain ⟨driven, hdriver, hregs⟩ := hbiProcWrCfgrec_chip raw pDev chip handle hne hends hrecords
  rw [htext] at hshipped
  refine ⟨scripted, driven, hscript, hdriver, hshipped, hregs.trans ?_⟩
  rw [hshipped, ← configured_append, shippedRecords, keptRecords, List.take_append_drop]

/-- A line with a comma between the numbers, and nothing else. -/
def Cr2Entry.ofDigits (addr data : List Char) (haddr : addr ≠ [] ∧ ∀ c ∈ addr, isHex c = true)
    (hdata : data ≠ [] ∧ ∀ c ∈ data, isHex c = true) : Cr2Entry where
  indent := []
  addr := addr
  gap := []
  sep := ','
  gap' := [' ']
  data := data
  note := []
  indent_blank := List.forall_mem_nil _
  addr_ne := haddr.1
  addr_hex := haddr.2
  gap_blank := List.forall_mem_nil _
  sep_plain := by decide
  gap'_blank := List.all_eq_true.1 rfl
  data_ne := hdata.1
  data_hex := hdata.2
  note_inLine := List.forall_mem_nil _
  note_apart := fun _ hc => nomatch hc
  note_plain := rfl

def twoRunsFile : List Cr2Line :=
  [.comment [] [] (List.forall_mem_nil _) (List.forall_mem_nil _),
    .entry (.ofDigits "0200".toList "1234".toList ⟨by decide, List.all_eq_true.1 rfl⟩
      ⟨by decide, List.all_eq_true.1 rfl⟩),
    .blank [' '] (List.all_eq_true.1 rfl),
    .entry (.ofDigits "0202".toList "5678".toList ⟨by decide, List.all_eq_true.1 rfl⟩
      ⟨by decide, List.all_eq_true.1 rfl⟩),
    .entry (.ofDigits "0300".toList "FFFF".toList ⟨by decide, List.all_eq_true.1 rfl⟩
      ⟨by decide, List.all_eq_true.1 rfl⟩)]

/-- The driver writes the second register twice, and the script never writes the third. -/
theorem configuration_paths_twoRuns : ∃ scripted driven : Chip,
    (scriptLoadConfigCr2 0 (fileText twoRunsFile)).run.servedBy (chipAsk (fun chip _ => chip) ⟨.big, 0⟩)
        (fun _ _ => 0) = (scripted, .ok ()) ∧
      (hbiProcWrCfgrec (some 0) ((fileText twoRunsFile).map chr) true).servedBy
          (chipReg (fun chip _ => chip) ⟨.big, 0⟩) (fun _ _ => 0) = (driven, .ok (some 8, 49)) ∧
      scripted.regs = configured (Chip.regs fun _ _ => 0) [(0x0200, 0x1234), (0x0202, 0x5678)] ∧
      driven.regs = overlay (configured scripted.regs [(0x0300, 0xFFFF)]) 6 [0x00, 0x02] :=
  configuration_paths (fun chip _ => chip) ⟨.big, 0⟩ (fun _ _ => 0) 0 twoRunsFile (List.cons_ne_nil _ _)
    (by decide) (by decide) (by decide)

end VprocSdk
