import VprocSdk.Apps.Cr2Paths
import VprocSdk.Lnx.DumpReads

/-!
# Registers through the procfs entries

A user at a shell writes a register and its bytes to one entry, a register and a size to another, and reads
the bytes from a third. The entries take their numbers from the text in any digits that come to them, and
share the bytes of the last read. Below them are the driver and a device whose registers are pages and whose
accesses are messages. For the user they are a store of registers.
-/

namespace VprocSdk

open Lib

/-! ### Commands and the store -/

def pairByte (pair : Byte × Byte) : Byte := BitVec.ofNat 8 (hexTextValue [pair.1, pair.2])

def procReg (digits : List Byte) : RegAddr := BitVec.ofNat 16 (hexTextValue digits)

/-- What a user does at the entries: `echo` of a register and bytes, `echo` of a register and a size, and a
read of the dump. -/
inductive ProcCmd
  | write (reg : List Byte) (data : List (Byte × Byte))
  | read (reg size : List Byte)
  | dump (asked : DumpRead)

/-- The result of a write or a read of an entry, and the text that is read. -/
structure ProcReply where
  result : Int
  text : List Byte
  deriving DecidableEq, Repr

namespace ProcCmd

/-- The text that `echo` writes, with its newline. -/
def text : ProcCmd → List Byte
  | .write reg data => reg ++ chr ' ' :: (data.flatMap (fun pair => [pair.1, pair.2]) ++ [chr '\n'])
  | .read reg size => reg ++ chr ' ' :: (size ++ [chr '\n'])
  | .dump _ => []

/-- A number of up to 255 digits. -/
def HasDigits (reg : List Byte) : Prop := reg.length ≤ 255 ∧ ∀ c ∈ reg, (hexDigitOf c).isSome = true

/-- The numbers are numbers, the registers are registers, and the text fits the entry's array. A read is of
170 bytes at most, whose listing fits the buffer of the dump, and the dump is read in one. -/
def Valid (maxRwSize : Nat) (cmd : ProcCmd) : Prop :=
  cmd.text.length ≤ maxRwSize ∧
    match cmd with
    | .write reg data => HasDigits reg ∧ (∀ pair ∈ data, (hexDigitOf pair.1).isSome = true) ∧
        IsRegAccess (procReg reg) data.length ∧ ¬ Shadowed (procReg reg) false data.length
    | .read reg size => HasDigits reg ∧ decTextValue size ≤ 170 ∧ decTextValue size ≤ maxRwSize ∧
        IsRegAccess (procReg reg) (decTextValue size) ∧ ¬ Shadowed (procReg reg) true (decTextValue size)
    | .dump asked => 511 ≤ asked.size

/-- The registers, and the bytes of the last read until they are dumped. -/
abbrev ProcStore := (Nat → Byte) × List Byte

def serve (store : ProcStore) : ProcCmd → ProcStore × ProcReply
  | .write reg data =>
      ((overlay store.1 (procReg reg).toNat (data.map pairByte), store.2),
        ⟨(ProcCmd.write reg data).text.length, []⟩)
  | .read reg size =>
      ((store.1, slice store.1 (procReg reg).toNat (decTextValue size)),
        ⟨(ProcCmd.read reg size).text.length, []⟩)
  | .dump _ => ((store.1, []), ⟨(hexListing store.2).length, hexListing store.2⟩)

end ProcCmd

def procStore (store : ProcCmd.ProcStore) : List ProcCmd → ProcCmd.ProcStore × List ProcReply
  | [] => (store, [])
  | cmd :: cmds =>
      let served := cmd.serve store
      let rest := procStore served.1 cmds
      (rest.1, served.2 :: rest.2)

/-! ### The entries -/

/-- A part of the entries that may end with a fault. -/
abbrev ProcShell (α : Type) := ExceptT TextFault (Prog RegAsk HbiReply) α

def procPart {α : Type} (p : RegProg (TextResult α)) : ProcShell α := ExceptT.mk p

theorem procPart_andThen {α β : Type} {device : Chip → RegAsk → Chip × HbiReply} {chip chip' : Chip} {a : α}
    {p : RegProg (TextResult α)} (h : p.servedBy device chip = (chip', .ok a)) (f : α → ProcShell β) :
    (procPart p >>= f).run.servedBy device chip = (f a).run.servedBy device chip' :=
  Prog.servedBy_andThen h f

section Entries

variable (maxRwSize handle : Nat)

/-- A command at the entries, on the transaction that they share. -/
def procCmd (hbiRw : HbiRw) : ProcCmd → ProcShell (HbiRw × ProcReply)
  | .write reg data => do
      let result ← procPart (hbiProcRegWr maxRwSize (some handle) (ProcCmd.write reg data).text)
      return (hbiRw, ⟨result, []⟩)
  | .read reg size => do
      let (hbiRw, result) ← procPart
        (hbiProcRegRd maxRwSize (some handle) (ProcCmd.read reg size).text true hbiRw)
      return (hbiRw, ⟨result, []⟩)
  | .dump asked =>
      let call := hbiProcRegRdDump hbiRw asked.kbuf asked.size
      return (call.hbiRw, ⟨call.result, call.text⟩)

def procRun (hbiRw : HbiRw) : List ProcCmd → ProcShell (HbiRw × List ProcReply)
  | [] => return (hbiRw, [])
  | cmd :: cmds => do
      let (hbiRw, reply) ← procCmd maxRwSize handle hbiRw cmd
      let (hbiRw, replies) ← procRun hbiRw cmds
      return (hbiRw, reply :: replies)

end Entries

/-! ### The texts -/

theorem scanPast_first {c : Byte} {text : List Byte} (hnot : c ∉ text) (more : List Byte) :
    scanPast c (text ++ c :: more) 0 = some (text.length + 1) := by
  have hidx : (text ++ c :: more).idxOf c = text.length := by
    rw [List.idxOf_append_of_notMem hnot, List.idxOf_cons_self, Nat.add_zero]
  rw [scanPast_eq, hidx, if_pos (by rw [List.length_append, List.length_cons]; omega), Nat.zero_add]

theorem digit_ne_space {c : Byte} (h : (hexDigitOf c).isSome = true) : c ≠ chr ' ' := by
  rintro rfl
  exact absurd h (by decide)

theorem ProcCmd.HasDigits.no_space {reg : List Byte} (h : ProcCmd.HasDigits reg) : chr ' ' ∉ reg :=
  fun hmem => digit_ne_space (h.2 _ hmem) rfl

theorem atoh_register {reg : List Byte} (h : ProcCmd.HasDigits reg) (more : List Byte) :
    atoh (reg ++ more) reg.length = some (BitVec.ofNat 32 (hexTextValue reg)) := by
  rw [atoh_eq h.1 (by rw [List.length_append]; omega), List.take_left]

theorem procReg_eq (reg : List Byte) : (BitVec.ofNat 32 (hexTextValue reg)).setWidth 16 = procReg reg := by
  apply BitVec.eq_of_toNat_eq
  simp [procReg]

theorem regWrLoop_pairs {maxRwSize : Nat} {data : List (Byte × Byte)}
    (hdata : ∀ pair ∈ data, (hexDigitOf pair.1).isSome = true) {dataLen : Nat}
    (hfit : dataLen + data.length ≤ maxRwSize) :
    regWrLoop maxRwSize (data.flatMap (fun pair => [pair.1, pair.2]) ++ [chr '\n']) dataLen
      = some (data.map pairByte) := by
  induction data generalizing dataLen with
  | nil => rfl
  | cons pair data ih =>
      have hrest : regWrLoop maxRwSize (data.flatMap (fun pair => [pair.1, pair.2]) ++ [chr '\n']) (dataLen + 1)
          = some (data.map pairByte) := by
        apply ih fun p hp => hdata p (List.mem_cons_of_mem pair hp)
        rw [List.length_cons] at hfit
        omega
      have hnot := digit_ne_space (hdata pair List.mem_cons_self)
      have hroom : dataLen < maxRwSize := by
        rw [List.length_cons] at hfit
        omega
      have hbyte : (BitVec.ofNat 32 (hexTextValue [pair.1, pair.2])).setWidth 8 = pairByte pair := by
        apply BitVec.eq_of_toNat_eq
        simp [pairByte]
      rw [List.flatMap_cons, List.append_assoc]
      show regWrLoop maxRwSize (pair.1 :: pair.2 :: (data.flatMap (fun pair => [pair.1, pair.2]) ++ [chr '\n']))
        dataLen = _
      rw [regWrLoop, if_pos ⟨hnot, hroom⟩, atoh_eq (by decide) (by simp), hrest]
      show some (_ :: data.map pairByte) = _
      rw [List.map_cons]
      exact congrArg (fun b => some (b :: data.map pairByte)) hbyte

theorem atoi_size (size : List Byte) :
    atoi (size ++ [chr '\n']) (size ++ [chr '\n']).length = some (BitVec.ofNat 32 (decTextValue size)) := by
  have hnewline : decDigitOf (chr '\n') = none := rfl
  rw [atoi_eq (Nat.le_refl _), List.take_length, decTextValue, decTextValue, List.filterMap_append,
    List.filterMap_cons_none hnewline, List.filterMap_nil, List.append_nil]

theorem drop_past (reg : List Byte) (c : Byte) (more : List Byte) :
    (reg ++ c :: more).drop (reg.length + 1) = more := by
  rw [List.drop_append, List.drop_eq_nil_of_le (Nat.le_succ _), Nat.add_sub_cancel_left]
  rfl

section Entry

variable {maxRwSize : Nat} (handle : Nat)

theorem hbiProcRegWr_eq {reg : List Byte} {data : List (Byte × Byte)}
    (hvalid : (ProcCmd.write reg data).Valid maxRwSize) :
    hbiProcRegWr maxRwSize (some handle) (ProcCmd.write reg data).text = (do
      let reply ← Prog.query (.write handle (procReg reg) (data.map pairByte))
      if reply.status ≠ .success then .pure (.ok (-1)) else .pure (.ok (ProcCmd.write reg data).text.length)) := by
  obtain ⟨hfit, hreg, hdata, -, -⟩ := hvalid
  have hscan : scanPast (chr ' ') (ProcCmd.write reg data).text 0 = some (reg.length + 1) :=
    scanPast_first hreg.no_space _
  have hlen : (ProcCmd.write reg data).text.length = reg.length + (2 * data.length + 1 + 1) := by
    rw [ProcCmd.text, List.length_append, List.length_cons, List.length_append, List.length_flatMap]
    simp [Nat.mul_comm]
  have hbytes : regWrLoop maxRwSize ((ProcCmd.write reg data).text.drop (reg.length + 1)) 0
      = some (data.map pairByte) := by
    rw [ProcCmd.text, drop_past, regWrLoop_pairs hdata (by omega)]
  have hnumber : atoh (ProcCmd.write reg data).text (reg.length + 1 - 1)
      = some (BitVec.ofNat 32 (hexTextValue reg)) := atoh_register hreg _
  unfold hbiProcRegWr
  dsimp only
  rw [if_neg (Nat.not_lt.2 hfit), hscan]
  unfold within
  dsimp only
  rw [if_neg (by omega), hnumber]
  dsimp only
  rw [hbytes]
  dsimp only
  rw [procReg_eq]

theorem hbiProcRegRd_eq {reg size : List Byte} (hvalid : (ProcCmd.read reg size).Valid maxRwSize)
    (hbiRw : HbiRw) :
    hbiProcRegRd maxRwSize (some handle) (ProcCmd.read reg size).text true hbiRw = (do
      let reply ← Prog.query (.read handle (procReg reg) (decTextValue size))
      let buf := overlay (overlay hbiRw.buf 0 (List.replicate (decTextValue size) 0)) 0 reply.data
      if reply.status ≠ .success then .pure (.ok ({ hbiRw with buf }, -1))
      else .pure (.ok (⟨buf, decTextValue size⟩, (ProcCmd.read reg size).text.length))) := by
  obtain ⟨hfit, hreg, hshort, hroom, -, -⟩ := hvalid
  have hscan : scanPast (chr ' ') (ProcCmd.read reg size).text 0 = some (reg.length + 1) :=
    scanPast_first hreg.no_space _
  have hlen : (ProcCmd.read reg size).text.length = reg.length + ((size ++ [chr '\n']).length + 1) := by
    rw [ProcCmd.text, List.length_append, List.length_cons]
  have hpos : 0 < (size ++ [chr '\n']).length := by
    rw [List.length_append]
    exact Nat.succ_pos _
  have hnumber : atoh (ProcCmd.read reg size).text (reg.length + 1 - 1)
      = some (BitVec.ofNat 32 (hexTextValue reg)) := atoh_register hreg _
  have hrest : (ProcCmd.read reg size).text.length - (reg.length + 1) = (size ++ [chr '\n']).length := by
    omega
  have hsize : atoi ((ProcCmd.read reg size).text.drop (reg.length + 1))
      ((ProcCmd.read reg size).text.length - (reg.length + 1)) = some (BitVec.ofNat 32 (decTextValue size)) := by
    rw [hrest, ProcCmd.text, drop_past, atoi_size]
  have hnat : (BitVec.ofNat 32 (decTextValue size)).toNat = decTextValue size := by
    rw [BitVec.toNat_ofNat, Nat.mod_eq_of_lt (by omega)]
  unfold hbiProcRegRd
  dsimp only
  rw [if_neg (Nat.not_lt.2 hfit), if_neg (by decide), hscan]
  unfold within
  dsimp only
  rw [if_neg (by omega), hnumber]
  dsimp only
  rw [hsize]
  dsimp only
  rw [hnat, if_neg (by omega), procReg_eq]

end Entry

/-! ### The store behind the entries -/

theorem dumpWidths_short {bytes : List Byte} (h : bytes.length ≤ 170) : dumpWidths bytes ≤ 511 := by
  have hwidths : dumpWidths bytes ≤ 3 * bytes.length := by
    clear h
    induction bytes with
    | nil => exact Nat.le_refl 0
    | cons b bytes ih =>
        have hwidth : dumpWidth b ≤ 3 := by
          unfold dumpWidth
          split <;> omega
        rw [dumpWidths_cons, List.length_cons]
        omega
  omega

section Shell

variable (raw : Chip → List Byte → Chip) (pDev : TwDev) (chip : Chip) {maxRwSize : Nat} (handle : Nat)

theorem hbiProcRegWr_chip {reg : List Byte} {data : List (Byte × Byte)}
    (hvalid : (ProcCmd.write reg data).Valid maxRwSize) :
    ∃ chip', (hbiProcRegWr maxRwSize (some handle) (ProcCmd.write reg data).text).servedBy (chipReg raw pDev) chip
        = (chip', .ok ((ProcCmd.write reg data).text.length : Int)) ∧
      chip'.regs = overlay chip.regs (procReg reg).toNat (data.map pairByte) := by
  obtain ⟨-, -, -, haccess, hplain⟩ := id hvalid
  have hlength : (data.map pairByte).length = data.length := List.length_map _
  rw [← hlength] at haccess hplain
  obtain ⟨chip', hwrite, hregs⟩ := chipReg_write raw pDev chip handle haccess hplain
  refine ⟨chip', ?_, hregs⟩
  rw [hbiProcRegWr_eq handle hvalid, Prog.servedBy_query_bind, hwrite]
  rfl

theorem hbiProcRegRd_chip {reg size : List Byte} (hvalid : (ProcCmd.read reg size).Valid maxRwSize)
    (hbiRw : HbiRw) :
    ∃ hbiRw', (hbiProcRegRd maxRwSize (some handle) (ProcCmd.read reg size).text true hbiRw).servedBy
        (chipReg raw pDev) chip = (chip, .ok (hbiRw', ((ProcCmd.read reg size).text.length : Int))) ∧
      hbiRw'.len = decTextValue size ∧
      hbiRw'.bytes = slice chip.regs (procReg reg).toNat (decTextValue size) := by
  obtain ⟨-, -, -, -, haccess, hplain⟩ := id hvalid
  have hread := chipReg_read raw pDev chip handle haccess hplain
  have hwhole := slice_overlay (overlay hbiRw.buf 0 (List.replicate (decTextValue size) 0)) 0
    (slice chip.regs (procReg reg).toNat (decTextValue size))
  rw [slice_length] at hwhole
  refine ⟨⟨overlay (overlay hbiRw.buf 0 (List.replicate (decTextValue size) 0)) 0
    (slice chip.regs (procReg reg).toNat (decTextValue size)), decTextValue size⟩, ?_, rfl, hwhole⟩
  rw [hbiProcRegRd_eq handle hvalid, Prog.servedBy_query_bind, hread]
  rfl

/-- A command does to the device and to the transaction what it does to the store, and gives back the same. -/
theorem procCmd_serve {cmd : ProcCmd} (hvalid : cmd.Valid maxRwSize) {hbiRw : HbiRw} (hshort : hbiRw.len ≤ 170) :
    ∃ chip' hbiRw' reply, (procCmd maxRwSize handle hbiRw cmd).run.servedBy (chipReg raw pDev) chip
        = (chip', .ok (hbiRw', reply)) ∧
      ((chip'.regs, hbiRw'.bytes), reply) = cmd.serve (chip.regs, hbiRw.bytes) ∧ hbiRw'.len ≤ 170 := by
  cases cmd with
  | write reg data =>
      obtain ⟨chip', hwrite, hregs⟩ := hbiProcRegWr_chip raw pDev chip handle hvalid
      refine ⟨chip', hbiRw, ⟨(ProcCmd.write reg data).text.length, []⟩, ?_, ?_, hshort⟩
      · rw [procCmd, procPart_andThen hwrite]
        rfl
      · rw [hregs]
        rfl
  | read reg size =>
      obtain ⟨hbiRw', hread, hlen, hbytes⟩ := hbiProcRegRd_chip raw pDev chip handle hvalid hbiRw
      refine ⟨chip, hbiRw', ⟨(ProcCmd.read reg size).text.length, []⟩, ?_, ?_, ?_⟩
      · rw [procCmd, procPart_andThen hread]
        rfl
      · rw [hbytes]
        rfl
      · rw [hlen]
        exact hvalid.2.2.1
  | dump asked =>
      have hlisting : 511 ≤ asked.size := hvalid.2
      have hall : hbiRw.asked asked.size = hbiRw.bytes := HbiRw.asked_all (by omega)
      have hbytes : hbiRw.bytes.length ≤ 170 := by
        rw [HbiRw.bytes, slice_length]
        exact hshort
      have hdumped : dumped hbiRw.bytes 0 = hbiRw.bytes := dumped_all (by
        rw [Nat.zero_add]
        exact dumpWidths_short hbytes)
      obtain ⟨htext, hresult, hrest⟩ := hbiProcRegRdDump_spec hbiRw asked.kbuf asked.size
      rw [hall, hdumped] at htext hresult
      refine ⟨chip, _, _, rfl, ?_, ?_⟩
      · have hnone : hbiRw.len - asked.size = 0 := by omega
        rw [htext, hresult, hrest, hnone, ← hexListing_length]
        rfl
      · rw [hrest]
        dsimp only
        omega

end Shell

/-- `echo 0200 12aB`, `echo 200 2`, and a read of the dump with a page of room. -/
def writeThenDump : List ProcCmd :=
  [.write ("0200".toList.map chr) [(chr '1', chr '2'), (chr 'a', chr 'B')],
    .read ("200".toList.map chr) ("2".toList.map chr), .dump ⟨4096, fun _ => 0⟩]

theorem writeThenDump_valid : ∀ cmd ∈ writeThenDump, cmd.Valid 256 := by
  have hplain : ∀ read, ¬ Shadowed (procReg ("200".toList.map chr)) read 2 := by
    unfold Shadowed
    decide
  have haccess : IsRegAccess (procReg ("200".toList.map chr)) 2 :=
    ⟨⟨by decide, by decide, by decide⟩, by decide⟩
  intro cmd hcmd
  simp only [writeThenDump, List.mem_cons, List.not_mem_nil, or_false] at hcmd
  rcases hcmd with rfl | rfl | rfl
  · exact ⟨by decide, ⟨by decide, List.all_eq_true.1 rfl⟩, List.all_eq_true.1 rfl, haccess, hplain false⟩
  · exact ⟨by decide, ⟨by decide, List.all_eq_true.1 rfl⟩, by decide, by decide, haccess, hplain true⟩
  · exact ⟨by decide, by decide⟩

end VprocSdk
