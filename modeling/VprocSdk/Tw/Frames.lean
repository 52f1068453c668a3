import VprocSdk.Tw.Access

/-!
# The words in front of an access

What `tw_hbi_tp_frame_hdr` builds, read back with the opcode macros of the same file: a page is
selected first unless it is the direct one, and then one word names the offset, the direction and the
count. Four opcodes share the range of the direct words, so a few direct accesses are read back as
something else.
-/

namespace VprocSdk

/-- What a command word says. -/
inductive HbiOpcode
  | noOp
  | selectPage (page : Byte)
  | configure (pinConfig : Byte)
  | globalDirectWrite (operands : Byte)
  | direct (offset : Nat) (write : Bool) (words : Nat)
  | paged (offset : Nat) (write : Bool) (words : Nat)
  deriving DecidableEq, Repr

/-- A command word by the macros `HBI_NO_OP` to `HBI_PAGED_READ`, the special ones first. -/
def opcodeOf (hi lo : Byte) : HbiOpcode :=
  if hi = 0xFF ∧ lo = 0xFF then .noOp
  else if hi = 0xFE then .selectPage lo
  else if hi = 0xFD then .configure lo
  else if hi = 0xFC then .globalDirectWrite lo
  else if 0x80 ≤ hi.toNat then .direct (hi.toNat - 0x80) (0x80 ≤ lo.toNat) (lo.toNat % 0x80 + 1)
  else .paged hi.toNat (0x80 ≤ lo.toNat) (lo.toNat % 0x80 + 1)

inductive HbiPage
  | direct
  | paged (page : Byte)
  deriving DecidableEq, Repr

structure HbiAccess where
  page : HbiPage
  offset : Nat
  write : Bool
  words : Nat
  deriving DecidableEq, Repr

/-- The access a header stands for: a direct word, or a page selected and a paged word. -/
def decodeHeader : List Byte → Option HbiAccess
  | [hi, lo] =>
      match opcodeOf hi lo with
      | .direct offset write words => some ⟨.direct, offset, write, words⟩
      | _ => none
  | [hi, lo, hi', lo'] =>
      match opcodeOf hi lo, opcodeOf hi' lo' with
      | .selectPage page, .paged offset write words => some ⟨.paged page, offset, write, words⟩
      | _, _ => none
  | _ => none

def pageByte (addr : RegAddr) : Byte := (addr >>> 8).setWidth 8

/-- Page byte 0 is accessed directly, page bytes 1 to 0xFE select the page before, and page byte 0xFF
selects page 255. -/
def accessPage (addr : RegAddr) : HbiPage :=
  if pageByte addr = 0 then .direct
  else if pageByte addr = 0xFF then .paged 0xFF
  else .paged (pageByte addr - 1)

def requested (addr : RegAddr) (read : Bool) (size : Nat) : HbiAccess :=
  ⟨accessPage addr, addr.toNat % 0x100 / 2, !read, size / 2⟩

structure IsAccess (addr : RegAddr) (size : Nat) : Prop where
  addr_even : addr.toNat % 2 = 0
  size_even : size % 2 = 0
  size_range : 2 ≤ size ∧ size ≤ 256

/-- The header of an access is read back as that access, and no other access has it. -/
structure Unambiguous (addr : RegAddr) (read : Bool) (size : Nat) : Prop where
  decodes : decodeHeader (twHbiTpFrameHdr addr read size) = some (requested addr read size)
  distinct : ∀ addr' read' size', IsAccess addr' size' →
    twHbiTpFrameHdr addr' read' size' = twHbiTpFrameHdr addr read size →
      addr' = addr ∧ read' = read ∧ size' = size

/-- A direct access whose word is one of the special opcodes. -/
def Shadowed (addr : RegAddr) (read : Bool) (size : Nat) : Prop :=
  addr = 0xF8 ∨ addr = 0xFA ∨ addr = 0xFC ∨ addr = 0xFE ∧ read = false ∧ size = 256

/-! ### The bytes of a header -/

theorem hbiPagedRead_bytes (offset length : Byte) :
    (hbiPagedRead offset length >>> 8).setWidth 8 = offset ∧
      (hbiPagedRead offset length).setWidth 8 = length := by
  constructor
  · ext i hi
    simp [hbiPagedRead]
    grind
  · ext i hi
    simp [hbiPagedRead]

theorem commandBytes_pagedRead (offset length : Byte) :
    commandBytes (hbiPagedRead offset length) = [offset, length] := by
  rw [commandBytes, (hbiPagedRead_bytes offset length).1, (hbiPagedRead_bytes offset length).2]

theorem commandBytes_or (val val' : Word) : commandBytes (val ||| val')
    = [(val >>> 8).setWidth 8 ||| (val' >>> 8).setWidth 8, val.setWidth 8 ||| val'.setWidth 8] := by
  have hhigh : ((val ||| val') >>> 8).setWidth 8
      = (val >>> 8).setWidth 8 ||| (val' >>> 8).setWidth 8 := by
    rw [BitVec.ushiftRight_or_distrib, BitVec.setWidth_or]
  rw [commandBytes, hhigh, BitVec.setWidth_or]

def offsetByte (addr : RegAddr) : Byte := ((addr &&& 0xFF) >>> 1).setWidth 8

def numWordsByte (size : Nat) : Byte := BitVec.ofNat 8 (size / 2) - 1

/-- The page a header selects. -/
def selectedPage (addr : RegAddr) : Byte :=
  if pageByte addr ≠ 0xFF then pageByte addr - 1 else pageByte addr

/-- The count of words, with the write bit for a write. -/
def countByte (read : Bool) (size : Nat) : Byte := numWordsByte size ||| if read then 0 else 0x80

theorem twHbiTpFrameHdr_eq (addr : RegAddr) (read : Bool) (size : Nat) :
    twHbiTpFrameHdr addr read size =
      if pageByte addr ≠ 0 then
        commandBytes (hbiSelectPage (selectedPage addr)) ++
          commandBytes (if read then hbiPagedRead (offsetByte addr) (numWordsByte size)
            else hbiPagedWrite (offsetByte addr) (numWordsByte size))
      else
        commandBytes (if read then hbiDirectRead (offsetByte addr) (numWordsByte size)
          else hbiDirectWrite (offsetByte addr) (numWordsByte size)) := rfl

theorem header_direct {addr : RegAddr} (h : pageByte addr = 0) (read : Bool) (size : Nat) :
    twHbiTpFrameHdr addr read size = [0x80 ||| offsetByte addr, countByte read size] := by
  obtain ⟨hoffset, hlength⟩ := hbiPagedRead_bytes (offsetByte addr) (numWordsByte size)
  rw [twHbiTpFrameHdr_eq, if_neg (not_not.2 h)]
  cases read with
  | true =>
      rw [if_pos rfl, hbiDirectRead, commandBytes_or, hoffset, hlength]
      simp [countByte]
  | false =>
      rw [if_neg Bool.false_ne_true, hbiDirectWrite, hbiDirectRead, commandBytes_or,
        BitVec.ushiftRight_or_distrib, BitVec.setWidth_or, BitVec.setWidth_or, hoffset, hlength]
      simp [countByte]

theorem header_paged {addr : RegAddr} (h : pageByte addr ≠ 0) (read : Bool) (size : Nat) :
    twHbiTpFrameHdr addr read size
      = [0xFE, selectedPage addr, offsetByte addr, countByte read size] := by
  have hselect : commandBytes (hbiSelectPage (selectedPage addr)) = [0xFE, selectedPage addr] :=
    commandBytes_pagedRead 0xFE (selectedPage addr)
  obtain ⟨hoffset, hlength⟩ := hbiPagedRead_bytes (offsetByte addr) (numWordsByte size)
  rw [twHbiTpFrameHdr_eq, if_pos h, hselect]
  cases read with
  | true =>
      rw [if_pos rfl, commandBytes_pagedRead]
      simp [countByte]
  | false =>
      rw [if_neg Bool.false_ne_true, hbiPagedWrite, commandBytes_or, hoffset, hlength]
      simp [countByte]

theorem pageByte_toNat (addr : RegAddr) : (pageByte addr).toNat = addr.toNat / 0x100 := by
  have hlt := addr.isLt
  rw [pageByte, BitVec.toNat_setWidth, BitVec.toNat_ushiftRight, Nat.shiftRight_eq_div_pow]
  omega

theorem offsetByte_toNat (addr : RegAddr) : (offsetByte addr).toNat = addr.toNat % 0x100 / 2 := by
  have hand : addr.toNat &&& 0xFF = addr.toNat % 0x100 := Nat.and_two_pow_sub_one_eq_mod _ 8
  have hmask : (addr &&& 0xFF).toNat = addr.toNat % 0x100 := by
    rw [BitVec.toNat_and]
    exact hand
  rw [offsetByte, BitVec.toNat_setWidth, BitVec.toNat_ushiftRight, hmask, Nat.shiftRight_eq_div_pow]
  omega

theorem or_toNat : ∀ b : Byte, b.toNat < 0x80 →
    (0x80 ||| b).toNat = 0x80 + b.toNat ∧ (b ||| 0x80).toNat = b.toNat + 0x80 := by
  decide

theorem directByte_toNat (addr : RegAddr) :
    (0x80 ||| offsetByte addr).toNat = 0x80 + addr.toNat % 0x100 / 2 := by
  have hoffset := offsetByte_toNat addr
  rw [(or_toNat (offsetByte addr) (by omega)).1, hoffset]

theorem numWordsByte_toNat {size : Nat} (h : 2 ≤ size ∧ size ≤ 513) :
    (numWordsByte size).toNat = size / 2 - 1 := by
  have hone : (1 : Byte).toNat = 1 := rfl
  rw [numWordsByte, BitVec.toNat_sub, BitVec.toNat_ofNat, hone]
  omega

theorem countByte_toNat (read : Bool) {size : Nat} (h : 2 ≤ size ∧ size ≤ 257) :
    (countByte read size).toNat = size / 2 - 1 + if read then 0 else 0x80 := by
  have hcount : (numWordsByte size).toNat = size / 2 - 1 := numWordsByte_toNat (by omega)
  cases read with
  | true => simp [countByte, hcount]
  | false =>
      rw [countByte, if_neg Bool.false_ne_true, (or_toNat _ (by omega)).2, hcount]
      rfl

/-! ### Reading it back -/

theorem opcodeOf_select (page : Byte) : opcodeOf 0xFE page = .selectPage page := by
  rw [opcodeOf, if_neg (by simp), if_pos rfl]

theorem opcodeOf_paged {hi lo : Byte} (h : hi.toNat < 0x80) :
    opcodeOf hi lo = .paged hi.toNat (0x80 ≤ lo.toNat) (lo.toNat % 0x80 + 1) := by
  have hne : ∀ b : Byte, 0x80 ≤ b.toNat → hi ≠ b := by
    intro b hb heq
    subst heq
    omega
  rw [opcodeOf, if_neg fun hnop => hne _ (by decide) hnop.1, if_neg (hne _ (by decide)),
    if_neg (hne _ (by decide)), if_neg (hne _ (by decide)), if_neg (by omega)]

theorem opcodeOf_direct {hi lo : Byte} (h : 0x80 ≤ hi.toNat)
    (hspecial : hi.toNat < 0xFC ∨ hi.toNat = 0xFF ∧ lo.toNat ≠ 0xFF) :
    opcodeOf hi lo = .direct (hi.toNat - 0x80) (0x80 ≤ lo.toNat) (lo.toNat % 0x80 + 1) := by
  have hnop : ¬ (hi = 0xFF ∧ lo = 0xFF) := by
    intro hboth
    obtain ⟨rfl, rfl⟩ := hboth
    simp at hspecial
  have hne : ∀ b : Byte, 0xFC ≤ b.toNat → b.toNat < 0xFF → hi ≠ b := by
    intro b hb hb' heq
    subst heq
    omega
  rw [opcodeOf, if_neg hnop, if_neg (hne _ (by decide) (by decide)),
    if_neg (hne _ (by decide) (by decide)), if_neg (hne _ (by decide) (by decide)), if_pos h]

theorem opcodeOf_special {hi lo : Byte} (h : 0xFC ≤ hi.toNat)
    (hspecial : hi.toNat = 0xFF → lo.toNat = 0xFF) (offset : Nat) (write : Bool) (words : Nat) :
    opcodeOf hi lo ≠ .direct offset write words := by
  have hlt := hi.isLt
  unfold opcodeOf
  split_ifs with hnop hpage hconfigure hglobal hdirect
  · simp
  · simp
  · simp
  · simp
  · exfalso
    have hvalue : hi.toNat = 0xFC ∨ hi.toNat = 0xFD ∨ hi.toNat = 0xFE ∨ hi.toNat = 0xFF := by omega
    rcases hvalue with hv | hv | hv | hv
    · exact hglobal (BitVec.eq_of_toNat_eq hv)
    · exact hconfigure (BitVec.eq_of_toNat_eq hv)
    · exact hpage (BitVec.eq_of_toNat_eq hv)
    · exact hnop ⟨BitVec.eq_of_toNat_eq hv, BitVec.eq_of_toNat_eq (hspecial hv)⟩
  · simp

section Access

variable {addr : RegAddr} {read : Bool} {size : Nat}

theorem requested_words (read : Bool) (h : IsAccess addr size) :
    decide (0x80 ≤ (countByte read size).toNat) = !read ∧ (countByte read size).toNat % 0x80 + 1 = size / 2 := by
  have hrange := h.size_range
  have hfits : 2 ≤ size ∧ size ≤ 257 := by omega
  have hcount := countByte_toNat read hfits
  cases read with
  | true =>
      simp only [if_true] at hcount
      simp
      omega
  | false =>
      simp only [Bool.false_eq_true, if_false] at hcount
      simp
      omega

theorem decode_paged (h : IsAccess addr size) (hpage : pageByte addr ≠ 0) :
    decodeHeader (twHbiTpFrameHdr addr read size) = some (requested addr read size) := by
  obtain ⟨hwrite, hwords⟩ := requested_words read h
  have hoffset := offsetByte_toNat addr
  have haccess : accessPage addr = .paged (selectedPage addr) := by
    rw [accessPage, if_neg hpage, selectedPage]
    by_cases hlast : pageByte addr = 0xFF
    · rw [if_pos hlast, if_neg (not_not.2 hlast), hlast]
    · rw [if_neg hlast, if_pos hlast]
  rw [header_paged hpage, decodeHeader, opcodeOf_select, opcodeOf_paged (by omega), hoffset, hwrite, hwords,
    requested, haccess]

theorem decode_direct (h : IsAccess addr size) (hpage : pageByte addr = 0)
    (hspecial : (0x80 ||| offsetByte addr).toNat < 0xFC ∨
      (0x80 ||| offsetByte addr).toNat = 0xFF ∧ (countByte read size).toNat ≠ 0xFF) :
    decodeHeader (twHbiTpFrameHdr addr read size) = some (requested addr read size) := by
  obtain ⟨hwrite, hwords⟩ := requested_words read h
  have hoffset := directByte_toNat addr
  have hback : 0x80 + addr.toNat % 0x100 / 2 - 0x80 = addr.toNat % 0x100 / 2 := by omega
  have haccess : accessPage addr = .direct := if_pos hpage
  rw [header_direct hpage, decodeHeader, opcodeOf_direct (by omega) hspecial, hoffset, hback, hwrite,
    hwords, requested, haccess]

/-- The word of a direct access is a special opcode just where the access is shadowed. -/
theorem shadowed_iff (h : IsAccess addr size) : Shadowed addr read size ↔ pageByte addr = 0 ∧
    ¬ ((0x80 ||| offsetByte addr).toNat < 0xFC ∨
      (0x80 ||| offsetByte addr).toNat = 0xFF ∧ (countByte read size).toNat ≠ 0xFF) := by
  have hrange := h.size_range
  have heven := h.addr_even
  have hsize := h.size_even
  have hfits : 2 ≤ size ∧ size ≤ 257 := by omega
  have hcount := countByte_toNat read hfits
  have hpage := pageByte_toNat addr
  have hlt := addr.isLt
  have hzero : pageByte addr = 0 ↔ addr.toNat < 0x100 := by
    rw [← BitVec.toNat_inj, hpage]
    simp
  have haddr : ∀ a : RegAddr, addr = a ↔ addr.toNat = a.toNat := fun a => BitVec.toNat_inj.symm
  rw [hzero, directByte_toNat, Shadowed, haddr, haddr, haddr, haddr]
  cases read with
  | true =>
      simp only [if_true] at hcount
      simp
      omega
  | false =>
      simp only [Bool.false_eq_true, if_false] at hcount
      simp
      omega

theorem pageByte_eq_of_selectedPage {addr' : RegAddr} (hpage : pageByte addr ≠ 0)
    (hpage' : pageByte addr' ≠ 0) (heq : selectedPage addr' = selectedPage addr) :
    pageByte addr' = pageByte addr := by
  have hback : ∀ b b' : Byte, b ≠ 0 → b' ≠ 0 →
      (if b' ≠ 0xFF then b' - 1 else b') = (if b ≠ 0xFF then b - 1 else b) → b' = b := by
    intro b b' hb hb' hsame
    have hpos : b.toNat ≠ 0 := fun hzero => hb (BitVec.eq_of_toNat_eq hzero)
    have hpos' : b'.toNat ≠ 0 := fun hzero => hb' (BitVec.eq_of_toNat_eq hzero)
    split_ifs at hsame
    · bv_omega
    · bv_omega
    · bv_omega
    · exact hsame
  exact hback _ _ hpage hpage' heq

theorem addr_eq {addr' : RegAddr} (heven : addr.toNat % 2 = 0) (heven' : addr'.toNat % 2 = 0)
    (hpage : pageByte addr' = pageByte addr) (hoffset : offsetByte addr' = offsetByte addr) :
    addr' = addr := by
  have hpages := congrArg BitVec.toNat hpage
  have hoffsets := congrArg BitVec.toNat hoffset
  rw [pageByte_toNat, pageByte_toNat] at hpages
  rw [offsetByte_toNat, offsetByte_toNat] at hoffsets
  apply BitVec.eq_of_toNat_eq
  omega

theorem count_eq {addr' : RegAddr} {read' : Bool} {size' : Nat} (h : IsAccess addr size)
    (h' : IsAccess addr' size') (heq : countByte read' size' = countByte read size) :
    read' = read ∧ size' = size := by
  have hrange := h.size_range
  have hrange' := h'.size_range
  have heven := h.size_even
  have heven' := h'.size_even
  have hcounts := congrArg BitVec.toNat heq
  rw [countByte_toNat read' (by omega), countByte_toNat read (by omega)] at hcounts
  cases read with
  | true =>
      cases read' with
      | true => exact ⟨rfl, by omega⟩
      | false =>
          simp only [Bool.false_eq_true, if_false, if_true] at hcounts
          omega
  | false =>
      cases read' with
      | true =>
          simp only [Bool.false_eq_true, if_false, if_true] at hcounts
          omega
      | false => exact ⟨rfl, by omega⟩

/-- Two accesses with one header are the same, also where the header is shadowed. -/
theorem header_injective {addr' : RegAddr} {read' : Bool} {size' : Nat} (h : IsAccess addr size)
    (h' : IsAccess addr' size')
    (heq : twHbiTpFrameHdr addr' read' size' = twHbiTpFrameHdr addr read size) :
    addr' = addr ∧ read' = read ∧ size' = size := by
  by_cases hpage : pageByte addr = 0
  · by_cases hpage' : pageByte addr' = 0
    · rw [header_direct hpage, header_direct hpage'] at heq
      simp only [List.cons.injEq, and_true] at heq
      have hoffset : offsetByte addr' = offsetByte addr := by
        have hbytes := congrArg BitVec.toNat heq.1
        rw [directByte_toNat, directByte_toNat] at hbytes
        apply BitVec.eq_of_toNat_eq
        rw [offsetByte_toNat, offsetByte_toNat]
        omega
      exact ⟨addr_eq h.addr_even h'.addr_even (hpage'.trans hpage.symm) hoffset, count_eq h h' heq.2⟩
    · rw [header_direct hpage, header_paged hpage'] at heq
      simp at heq
  · by_cases hpage' : pageByte addr' = 0
    · rw [header_paged hpage, header_direct hpage'] at heq
      simp at heq
    · rw [header_paged hpage, header_paged hpage'] at heq
      simp only [List.cons.injEq, true_and, and_true] at heq
      exact ⟨addr_eq h.addr_even h'.addr_even (pageByte_eq_of_selectedPage hpage hpage' heq.1) heq.2.1,
        count_eq h h' heq.2.2⟩

/-- A header is unambiguous just when its access is not shadowed. -/
theorem unambiguous_iff (h : IsAccess addr size) :
    Unambiguous addr read size ↔ ¬ Shadowed addr read size := by
  rw [shadowed_iff h]
  constructor
  · intro hsound hboth
    obtain ⟨hpage, hspecial⟩ := hboth
    have hdecode := hsound.decodes
    have hword : ∀ offset write words,
        opcodeOf (0x80 ||| offsetByte addr) (countByte read size) ≠ .direct offset write words := by
      apply opcodeOf_special
      · omega
      · omega
    rw [header_direct hpage, decodeHeader] at hdecode
    split at hdecode
    · rename_i hdirect
      exact hword _ _ _ hdirect
    · cases hdecode
  · intro hclear
    refine ⟨?_, fun addr' read' size' h' heq => header_injective h h' heq⟩
    by_cases hpage : pageByte addr = 0
    · exact decode_direct h hpage (not_not.1 fun hspecial => hclear ⟨hpage, hspecial⟩)
    · exact decode_paged h hpage

end Access

theorem unambiguous_iff_paged : Unambiguous 0x012E false 4 ↔ ¬ Shadowed 0x012E false 4 :=
  unambiguous_iff ⟨by decide, by decide, by decide⟩

/-- A read of register 0xF8 is read back as a global direct write. -/
theorem header_shadowed : ¬ ∀ addr read size, IsAccess addr size → Unambiguous addr read size := by
  intro hall
  have hread : decodeHeader (twHbiTpFrameHdr 0xF8 true 2) = some (requested 0xF8 true 2) :=
    (hall 0xF8 true 2 ⟨by decide, by decide, by decide⟩).decodes
  revert hread
  decide

end VprocSdk
