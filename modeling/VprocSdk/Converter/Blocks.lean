import VprocSdk.Converter.Format
import VprocSdk.Converter.Stream
import VprocSdk.Lib.Packing

/-!
# The blocks of a segment

Every turn of the loop of `FormatSegmentToHbi` appends one block. `LoopInv` is what holds between two
turns: how much of the segment is written, what is left of the last block, and, while a page is written,
that the interface stands where the next byte goes. `formatBlock_step` is one turn, for the three kinds
of block, and `formatSegmentToHbi_run` a whole segment.

A firmware segment that does not fit below 2^32 still becomes complete blocks; only the addresses are
then not its own. So what is written is claimed of a segment `InRange`, and the rest of any segment.
-/

namespace VprocSdk

open Lib

/-- A segment as it is parsed: 16-bit registers at even addresses. -/
structure Segment where
  addr : Int
  bytes : List Int
  addr_even : addr % 2 = 0
  length_even : bytes.length % 2 = 0
  isByte : ∀ b ∈ bytes, HbiCmd.IsByte b

/-- The address space of page 255. -/
def Segment.InRange (seg : Segment) : Prop := 0 ≤ seg.addr ∧ seg.addr + seg.bytes.length ≤ 2 ^ 32

/-- The address space of the other pages. -/
def Segment.Paged (seg : Segment) : Prop :=
  0x100 ≤ seg.addr ∧ seg.addr + seg.bytes.length ≤ 0xFF00

/-- What is left of the last block, and the page that later segments count on. -/
structure GlobalsInv (words : Nat) (isConfig : Bool) (globals : ConverterGlobals) (left : Nat)
    (hbi : HbiState) : Prop where
  leftOver : globals.leftOverBytes = left
  room : left = 0 ∨ 10 ≤ left ∧ left < 2 * words
  even : left % 2 = 0
  fresh : isConfig = false → globals.pageSelect = true → left = 0
  page : isConfig = false → globals.pageSelect = false → hbi.page = 0xFF

theorem globalsInv_initial (words : Nat) (isConfig : Bool) (hbi : HbiState) :
    GlobalsInv words isConfig .initial 0 hbi :=
  ⟨rfl, .inl rfl, rfl, fun _ _ => rfl, fun _ h => absurd h (by decide)⟩

/-- A page is being written, and the interface stands at the next byte. -/
structure PageInv (isConfig : Bool) (seg : Segment) (st : FormatState) (left : Nat) (hbi : HbiState) :
    Prop where
  pos : 0 < st.remPageBytes
  even : st.remPageBytes % 2 = 0
  left : left = 0
  selected : isConfig = false → st.pageSelect = false
  window : hbi.next + st.remPageBytes = hbi.window + 512
  next : seg.InRange → hbi.next = st.addr
  wrapped : hbi.next % 2 ^ 32 = st.addr % 2 ^ 32

/-- Between two turns of the loop, with `i` bytes of the segment written. -/
structure LoopInv (words : Nat) (isConfig : Bool) (seg : Segment) (st : FormatState) (left i : Nat)
    (hbi : HbiState) : Prop where
  globals : GlobalsInv words isConfig st.globals left hbi
  segIndex : st.segIndex = i
  addr : st.addr = seg.addr + i
  even : i % 2 = 0
  le : i ≤ seg.bytes.length
  space : i < seg.bytes.length → st.blockSizeBytes = roomFor (2 * words) left
  page : i < seg.bytes.length → st.remPageBytes = 0 ∨ PageInv isConfig seg st left hbi

/-! ### Leading to a page -/

def selectCmds (isConfig pageSelect : Bool) (addr : Int) : List HbiCmd :=
  if isConfig then [.page (addr / 2 ^ 8 - 1)]
  else (if pageSelect then [.page 0xFF] else []) ++
    [.base (addr / 2 ^ 24 % 0x100) (addr / 2 ^ 16 % 0x100) (addr / 2 ^ 8 % 0x100) 0x00]

theorem pageControl_eq (isConfig pageSelect : Bool) (addr : Int) :
    pageControl isConfig pageSelect addr = encodeAll (selectCmds isConfig pageSelect addr) := by
  cases isConfig <;> cases pageSelect <;> rfl

section Select

variable {isConfig pageSelect : Bool} {addr : Int} {hbi : HbiState} {exact : Prop}

theorem emits_select (hconfig : isConfig = true → 0x100 ≤ addr ∧ addr < 0xFF00) :
    Emits exact hbi (selectCmds isConfig pageSelect addr) [] := by
  cases isConfig with
  | true =>
      obtain ⟨hlow, hhigh⟩ := hconfig rfl
      refine ⟨?_, ⟨fun h => absurd rfl h, trivial⟩, fun _ => rfl, rfl⟩
      intro cmd hcmd
      rw [List.mem_singleton.1 hcmd]
      constructor
      · omega
      · omega
  | false =>
      have hbase : HbiCmd.Valid (.base (addr / 2 ^ 24 % 0x100) (addr / 2 ^ 16 % 0x100)
          (addr / 2 ^ 8 % 0x100) 0x00) := by
        simp only [HbiCmd.Valid, HbiCmd.IsByte]
        omega
      cases pageSelect with
      | true =>
          refine ⟨?_, ⟨fun h => absurd rfl h, fun h => absurd rfl h, trivial⟩, fun _ => rfl, rfl⟩
          intro cmd hcmd
          rcases List.mem_cons.1 hcmd with rfl | hlast
          · exact ⟨by decide, by decide⟩
          · rw [List.mem_singleton.1 hlast]
            exact hbase
      | false =>
          refine ⟨?_, ⟨fun h => absurd rfl h, trivial⟩, fun _ => rfl, rfl⟩
          intro cmd hcmd
          rw [List.mem_singleton.1 hcmd]
          exact hbase

theorem select_page (hpage : isConfig = false → pageSelect = false → hbi.page = 0xFF) :
    isConfig = false → (hbi.afterAll (selectCmds isConfig pageSelect addr)).page = 0xFF := by
  intro heq
  subst heq
  cases pageSelect with
  | true => rfl
  | false => exact hpage rfl rfl

theorem select_address (heven : addr % 2 = 0) (hconfig : isConfig = true → 0x100 ≤ addr ∧ addr < 0xFF00)
    (hpage : isConfig = false → pageSelect = false → hbi.page = 0xFF) :
    (hbi.afterAll (selectCmds isConfig pageSelect addr)).address (addr % 0x100 / 2) = addr % 2 ^ 32 := by
  cases isConfig with
  | true =>
      obtain ⟨hlow, hhigh⟩ := hconfig rfl
      have hother : ¬ addr / 2 ^ 8 - 1 = 0xFF := by omega
      simp only [selectCmds, if_true, HbiState.afterAll, List.foldl, HbiState.after, HbiState.address,
        hother, if_false]
      omega
  | false =>
      have hbase : (hbi.afterAll (selectCmds false pageSelect addr)).base
          = addr / 2 ^ 24 % 0x100 * 2 ^ 24 + addr / 2 ^ 16 % 0x100 * 2 ^ 16
            + addr / 2 ^ 8 % 0x100 * 2 ^ 8 + 0x00 := by
        cases pageSelect <;> rfl
      rw [HbiState.address, if_pos (select_page hpage rfl), hbase]
      omega

end Select

/-! ### The end of a block -/

/-- What the shared end of the blocks appends and leaves: the words that fit in `space` bytes, and
padding or room for the next segment when the segment is at its end. -/
theorem finishBlock_spec {seg : Segment} {i : Nat} (st : FormatState) (space : Nat) (writeBit : Int)
    (block : List Int) (hidx : st.segIndex = i) (hlt : i < seg.bytes.length) (heven : i % 2 = 0)
    (hspace : st.blockSizeBytes = space) (hpos : 2 ≤ space) (hwords : space % 2 = 0) :
    ∃ n pads left' : Nat, 1 ≤ n ∧ i + 2 * n ≤ seg.bytes.length ∧ 2 * n + 2 * pads + left' = space ∧
      (left' = 0 ∨ 10 ≤ left' ∧ i + 2 * n = seg.bytes.length) ∧
      finishBlock seg.bytes writeBit st block
        = (block ++ ((n - 1 : Int) + writeBit) :: (seg.bytes.drop i).take (2 * n) ++
            encodeAll (List.replicate pads .nop),
          { st with
            addr := st.addr + (2 * n : Nat)
            segIndex := (i + 2 * n : Nat)
            remPageBytes := st.remPageBytes - (2 * n : Nat)
            blockSizeBytes := (2 * n : Nat)
            leftOverBytes := left' }) := by
  have hlength := seg.length_even
  obtain ⟨n, pad, hn, hle, hsum, hdone, hsize, hpad⟩ : ∃ n pad : Nat, 1 ≤ n ∧
      i + 2 * n ≤ seg.bytes.length ∧ 2 * n + pad = space ∧ (pad = 0 ∨ i + 2 * n = seg.bytes.length) ∧
      (if st.blockSizeBytes > seg.bytes.length - st.segIndex then seg.bytes.length - st.segIndex
        else st.blockSizeBytes) = (2 * n : Nat) ∧
      (if st.blockSizeBytes > seg.bytes.length - st.segIndex then
        st.blockSizeBytes - (seg.bytes.length - st.segIndex) else 0) = (pad : Int) := by
    by_cases hover : st.blockSizeBytes > seg.bytes.length - st.segIndex
    · refine ⟨(seg.bytes.length - i) / 2, space - (seg.bytes.length - i), ?_⟩
      rw [if_pos hover, if_pos hover]
      omega
    · refine ⟨space / 2, 0, ?_⟩
      rw [if_neg hover, if_neg hover]
      omega
  have hdata : pySlice seg.bytes st.segIndex (st.segIndex + (2 * n : Nat))
      = (seg.bytes.drop i).take (2 * n) := by
    rw [hidx, pySlice_add]
  have hcount : ((2 * n : Nat) : Int) / 2 - 1 = n - 1 := by omega
  by_cases hroom : (pad : Int) ≥ 10
  · refine ⟨n, 0, pad, hn, hle, by omega, by omega, ?_⟩
    unfold finishBlock
    dsimp only
    rw [hsize, hpad, hdata, hcount, if_pos hroom, if_pos hroom, hidx]
    simp
  · refine ⟨n, pad / 2, 0, hn, hle, by omega, .inl rfl, ?_⟩
    have hnops : nopBytes pad = encodeAll (List.replicate (pad / 2) .nop) := by
      rw [encodeAll_nops, nopBytes, Int.toNat_natCast]
      congr 1
      omega
    unfold finishBlock
    dsimp only
    rw [hsize, hpad, hdata, hcount, if_neg hroom, if_neg hroom, hidx, hnops]
    simp

/-- A block, and the state it leaves, made at byte `i` of a segment: it is complete commands that write
the bytes from there on, it fills `room`, and the loop goes on behind them. -/
def Turn (words : Nat) (isConfig : Bool) (seg : Segment) (i : Nat) (hbi : HbiState) (room : Nat)
    (result : List Int × FormatState) : Prop :=
  ∃ (cmds : List HbiCmd) (left' i' : Nat), result.1 = encodeAll cmds ∧ i < i' ∧
    result.1.length + left' = room ∧
    Emits seg.InRange hbi cmds (writesAt (seg.addr + i) ((seg.bytes.drop i).take (i' - i))) ∧
    LoopInv words isConfig seg { result.2 with blockSizeBytes := words * 2 } left' i' (hbi.afterAll cmds)

section Turns

variable {words : Nat} {isConfig pageSelect : Bool} {seg : Segment} {st : FormatState} {hbi : HbiState}
  {left i space : Nat}

theorem Segment.isByte_of_mem_take {seg : Segment} {i n : Nat} :
    ∀ b ∈ (seg.bytes.drop i).take n, HbiCmd.IsByte b :=
  fun b hb => seg.isByte b (List.mem_of_mem_drop (List.mem_of_mem_take hb))

theorem Segment.length_take (seg : Segment) {i n : Nat} (h : i + n ≤ seg.bytes.length) :
    ((seg.bytes.drop i).take n).length = n := by
  rw [List.length_take, List.length_drop]
  omega

/-- The invariant behind a block that ends with `n` words at the interface `hbi`. -/
theorem finish_inv {n left' : Nat} (haddr : st.addr = seg.addr + i) (heven : i % 2 = 0)
    (hle : i + 2 * n ≤ seg.bytes.length) (hleft : left' = 0 ∨ 10 ≤ left' ∧ i + 2 * n = seg.bytes.length)
    (hless : left' < 2 * words) (hleven : left' % 2 = 0) (hrem : 2 * n ≤ st.remPageBytes)
    (hreven : st.remPageBytes % 2 = 0) (hselected : isConfig = false → st.pageSelect = false)
    (hpage : isConfig = false → hbi.page = 0xFF)
    (hwindow : hbi.next + (st.remPageBytes - (2 * n : Nat)) = hbi.window + 512)
    (hnext : seg.InRange → hbi.next = st.addr + (2 * n : Nat))
    (hwrapped : hbi.next % 2 ^ 32 = (st.addr + (2 * n : Nat)) % 2 ^ 32) :
    LoopInv words isConfig seg
      { st with
        addr := st.addr + (2 * n : Nat)
        segIndex := (i + 2 * n : Nat)
        remPageBytes := st.remPageBytes - (2 * n : Nat)
        blockSizeBytes := words * 2
        leftOverBytes := left' } left' (i + 2 * n) hbi := by
  have hnone : i + 2 * n < seg.bytes.length → left' = 0 := by omega
  refine ⟨⟨rfl, by omega, hleven, ?_, ?_⟩, rfl, ?_, by omega, hle, ?_, ?_⟩
  · intro hfw hselect
    have hclear := hselected hfw
    simp [FormatState.globals, hclear] at hselect
  · intro hfw _
    exact hpage hfw
  · simp only
    omega
  · intro hmore
    rw [hnone hmore, roomFor, if_pos rfl]
    simp only
    omega
  · intro hmore
    by_cases hfull : st.remPageBytes - (2 * n : Nat) = 0
    · exact .inl hfull
    · refine .inr ⟨?_, ?_, hnone hmore, hselected, hwindow, hnext, hwrapped⟩
      · simp only
        omega
      · simp only
        omega

theorem write_turn (st : FormatState) (pageSelect : Bool) (hidx : st.segIndex = i) (haddr : st.addr = seg.addr + i) (heven : i % 2 = 0)
    (hlt : i < seg.bytes.length) (hspace : st.blockSizeBytes = space) (hpos : 2 ≤ space)
    (hwords : space % 2 = 0) (hsmall : space ≤ 256) (hless : space < 2 * words)
    (hrem : st.remPageBytes = hbiMaxPageLen * 2 - st.addr % 0x100 / 2 * 2)
    (hpaged : isConfig = true → seg.Paged) (hselected : isConfig = false → st.pageSelect = false)
    (hpage : isConfig = false → pageSelect = false → hbi.page = 0xFF) :
    Turn words isConfig seg i hbi ((pageControl isConfig pageSelect st.addr).length + 2 + space)
      (finishBlock seg.bytes 0x80 st
        (pageControl isConfig pageSelect st.addr ++ [st.addr % 0x100 / 2])) := by
  have hseven := seg.addr_even
  have haeven : st.addr % 2 = 0 := by omega
  have hconfig : isConfig = true → 0x100 ≤ st.addr ∧ st.addr < 0xFF00 := by
    intro h
    obtain ⟨hlow, hhigh⟩ := hpaged h
    omega
  obtain ⟨n, pads, left', hn, hle, hsum, hleft, hfinish⟩ := finishBlock_spec st space 0x80
    (pageControl isConfig pageSelect st.addr ++ [st.addr % 0x100 / 2]) hidx hlt heven hspace hpos hwords
  have hdata := seg.length_take hle
  have haddress := select_address haeven hconfig hpage
  have hexact : seg.InRange → st.addr % 2 ^ 32 = st.addr := by
    intro hboth
    obtain ⟨hlow, hhigh⟩ := hboth
    omega
  have hwrite : Emits seg.InRange (hbi.afterAll (selectCmds isConfig pageSelect st.addr))
      [.write (st.addr % 0x100 / 2) (n - 1) ((seg.bytes.drop i).take (2 * n))]
      (writesAt st.addr ((seg.bytes.drop i).take (2 * n))) := by
    apply emits_write hdata (by omega) Segment.isByte_of_mem_take (by omega)
    · omega
    · intro hin
      rw [haddress, hexact hin]
    · rw [haddress, Int.emod_emod]
  refine ⟨selectCmds isConfig pageSelect st.addr ++
    [.write (st.addr % 0x100 / 2) (n - 1) ((seg.bytes.drop i).take (2 * n))] ++
    List.replicate pads .nop, left', i + 2 * n, ?_, by omega, ?_, ?_, ?_⟩
  · rw [hfinish, encodeAll_append, encodeAll_append, ← pageControl_eq]
    simp [HbiCmd.encode]
  · rw [hfinish, encodeAll_nops]
    simp only [List.length_append, List.length_cons, List.length_nil, hdata, List.length_replicate]
    omega
  · rw [← haddr, Nat.add_sub_cancel_left]
    exact ((emits_select hconfig).append hwrite).pad pads
  · have hpage' : isConfig = false → ((hbi.afterAll (selectCmds isConfig pageSelect st.addr)).after
        (.write (st.addr % 0x100 / 2) (n - 1) ((seg.bytes.drop i).take (2 * n)))).page = 0xFF :=
      select_page hpage
    rw [hfinish, HbiState.afterAll_pad, HbiState.afterAll_append]
    apply finish_inv haddr heven hle hleft (by omega) (by omega) _ _ hselected hpage'
    · simp only [HbiState.after, haddress, hdata, hrem, hbiMaxPageLen]
      omega
    · intro hin
      simp only [HbiState.after, haddress, hexact hin, hdata]
    · simp only [HbiState.after, haddress, hdata]
      omega
    · rw [hrem, hbiMaxPageLen]
      omega
    · rw [hrem, hbiMaxPageLen]
      omega

theorem emits_continue {n : Nat} (inv : LoopInv words isConfig seg st left i hbi)
    (page : PageInv isConfig seg st left hbi) (hn : 1 ≤ n ∧ n ≤ 128) (hle : i + 2 * n ≤ seg.bytes.length)
    (hfits : 2 * n ≤ st.remPageBytes) :
    Emits seg.InRange hbi [.cont (n - 1) ((seg.bytes.drop i).take (2 * n))]
      (writesAt (seg.addr + i) ((seg.bytes.drop i).take (2 * n))) := by
  have hdata := seg.length_take hle
  have hwindow := page.window
  apply emits_cont hdata hn Segment.isByte_of_mem_take
  · omega
  · intro hin
    rw [page.next hin, inv.addr]
  · rw [page.wrapped, inv.addr]

theorem GlobalsInv.control_fits {globals : ConverterGlobals} (addr : Int)
    (h : GlobalsInv words isConfig globals left hbi) (hwords : 16 ≤ words) :
    ∃ space, roomFor (2 * words) left
        = (pageControl isConfig globals.pageSelect addr).length + 2 + space ∧
      2 ≤ space ∧ space % 2 = 0 ∧ space < 2 * words := by
  have hroom := h.room
  have heven := h.even
  have hfresh := h.fresh
  have hsize : roomFor (2 * words) left % 2 = 0 ∧ 10 ≤ roomFor (2 * words) left ∧
      roomFor (2 * words) left ≤ 2 * words ∧ (left = 0 → roomFor (2 * words) left = 2 * words) := by
    unfold roomFor
    split
    · omega
    · omega
  rw [pageControl_length]
  cases isConfig with
  | true =>
      refine ⟨roomFor (2 * words) left - 4, ?_⟩
      simp only [if_true]
      omega
  | false =>
      cases hselect : globals.pageSelect with
      | true =>
          have hnone := hfresh rfl hselect
          refine ⟨roomFor (2 * words) left - 10, ?_⟩
          simp only [if_true, Bool.false_eq_true, if_false]
          omega
      | false =>
          refine ⟨roomFor (2 * words) left - 8, ?_⟩
          simp only [Bool.false_eq_true, if_false]
          omega

theorem addressedBlock_turn (inv : LoopInv words isConfig seg st left i hbi) (hlt : i < seg.bytes.length)
    (hwords : 16 ≤ words ∧ words ≤ 128) (hpaged : isConfig = true → seg.Paged) :
    Turn words isConfig seg i hbi (roomFor (2 * words) left) (addressedBlock seg.bytes isConfig st) := by
  obtain ⟨space, hroom, hpos, hseven, hless⟩ := inv.globals.control_fits st.addr hwords.1
  have hspace : st.blockSizeBytes
      - ((pageControl isConfig st.pageSelect st.addr ++ [st.addr % 0x100 / 2]).length + 1) = space := by
    rw [inv.space hlt, hroom, List.length_append, List.length_singleton]
    simp only [FormatState.globals]
    omega
  have hselected : isConfig = false → (if isConfig then st.pageSelect else false) = false := by
    intro heq
    subst heq
    rfl
  rw [hroom]
  exact write_turn
    { st with
      remPageBytes := hbiMaxPageLen * 2 - st.addr % 0x100 / 2 * 2
      blockSizeBytes := st.blockSizeBytes
        - ((pageControl isConfig st.pageSelect st.addr ++ [st.addr % 0x100 / 2]).length + 1)
      pageSelect := if isConfig then st.pageSelect else false }
    st.pageSelect inv.segIndex inv.addr inv.even hlt hspace hpos hseven (by omega) hless rfl hpaged
    hselected inv.globals.page

theorem continueBlock_turn (inv : LoopInv words isConfig seg st left i hbi)
    (page : PageInv isConfig seg st left hbi) (hlt : i < seg.bytes.length)
    (hwords : 16 ≤ words ∧ words ≤ 128) (hfull : st.remPageBytes ≥ st.blockSizeBytes - 2) :
    Turn words isConfig seg i hbi (roomFor (2 * words) left) (continueBlock seg.bytes st) := by
  have hspace := inv.space hlt
  rw [page.left, roomFor, if_pos rfl] at hspace ⊢
  obtain ⟨n, pads, left', hn, hle, hsum, hleft, hfinish⟩ := finishBlock_spec
    { st with blockSizeBytes := st.blockSizeBytes - 2 } (2 * words - 2) 0 [0xFB]
    inv.segIndex hlt inv.even (by simp only [hspace]; omega) (by omega) (by omega)
  have hdata := seg.length_take hle
  have hwindow := page.window
  have hreven := page.even
  refine ⟨[.cont (n - 1) ((seg.bytes.drop i).take (2 * n))] ++ List.replicate pads .nop, left',
    i + 2 * n, ?_, by omega, ?_, ?_, ?_⟩
  · rw [continueBlock, hfinish, encodeAll_append]
    simp [HbiCmd.encode]
  · rw [continueBlock, hfinish, encodeAll_nops]
    simp only [List.length_append, List.length_cons, List.length_nil, hdata, List.length_replicate]
    omega
  · rw [Nat.add_sub_cancel_left]
    exact (emits_continue inv page (by omega) hle (by omega)).pad pads
  · have hpage : isConfig = false → (hbi.after (.cont (n - 1) ((seg.bytes.drop i).take (2 * n)))).page
        = 0xFF := fun h => inv.globals.page h (page.selected h)
    rw [continueBlock, hfinish, HbiState.afterAll_pad]
    apply finish_inv inv.addr inv.even hle hleft (by omega) (by omega) _ hreven page.selected hpage
    · simp only [HbiState.after, hdata]
      omega
    · intro hin
      simp only [HbiState.after, hdata, page.next hin]
    · have hwrapped := page.wrapped
      simp only [HbiState.after, hdata]
      omega
    · omega

theorem Turn.prepend {cmds : List HbiCmd} {m room : Nat} {result : List Int × FormatState}
    (h : Turn words isConfig seg (i + m) (hbi.afterAll cmds) room result) (hpos : 0 < m)
    (hle : i + m ≤ seg.bytes.length)
    (hemits : Emits seg.InRange hbi cmds (writesAt (seg.addr + i) ((seg.bytes.drop i).take m))) :
    Turn words isConfig seg i hbi ((encodeAll cmds).length + room)
      (encodeAll cmds ++ result.1, result.2) := by
  obtain ⟨cmds', left', i', hbytes, hmore, hfill, hrest, hinv⟩ := h
  have hlen := seg.length_take hle
  have haddr : seg.addr + ((i + m : Nat) : Int)
      = seg.addr + i + ((seg.bytes.drop i).take m).length := by
    rw [hlen]
    omega
  have hdata : (seg.bytes.drop i).take m ++ (seg.bytes.drop (i + m)).take (i' - (i + m))
      = (seg.bytes.drop i).take (i' - i) := by
    have hsum : i' - i = m + (i' - (i + m)) := by omega
    rw [hsum, List.take_add, List.drop_drop]
  rw [haddr] at hrest
  have hboth := hemits.append hrest
  rw [← writesAt_append, hdata] at hboth
  refine ⟨cmds ++ cmds', left', i', ?_, by omega, ?_, hboth, ?_⟩
  · rw [hbytes, encodeAll_append]
  · rw [List.length_append]
    omega
  · rw [HbiState.afterAll_append]
    exact hinv

theorem finishBlock_append (segmentList : List Int) (writeBit : Int) (st : FormatState)
    (before block : List Int) : finishBlock segmentList writeBit st (before ++ block)
      = (before ++ (finishBlock segmentList writeBit st block).1,
          (finishBlock segmentList writeBit st block).2) := by
  unfold finishBlock
  dsimp only
  split_ifs
  all_goals simp

section Hybrid

variable {size : Int} {block start : List Int} {st' next : FormatState} {m : Nat}
  (inv : LoopInv words isConfig seg st left i hbi) (page : PageInv isConfig seg st left hbi)
  (parts : HybridParts seg.bytes isConfig st size block st' start next)
include inv page parts

/-- The beginning of a hybrid block goes on in its page, by whole words. -/
theorem HybridParts.continues :
    ∃ m : Nat, 1 ≤ m ∧ size = (2 * m : Nat) ∧ i + 2 * m ≤ seg.bytes.length ∧ 2 * m ≤ st.remPageBytes ∧
      (2 * m = st.remPageBytes ∨ i + 2 * m = seg.bytes.length) ∧
      block = encodeAll [.cont (m - 1) ((seg.bytes.drop i).take (2 * m))] := by
  obtain ⟨hpos, hfits, hrem⟩ := parts.bounds
  have hends := parts.ends
  have hreven := page.even
  have hlength := seg.length_even
  have hidx := inv.segIndex
  have hieven := inv.even
  obtain ⟨m, hm⟩ : ∃ m : Nat, size = (2 * m : Nat) := ⟨(size / 2).toNat, by omega⟩
  refine ⟨m, by omega, hm, by omega, by omega, by omega, ?_⟩
  have hcount : ((2 * m : Nat) : Int) / 2 - 1 = m - 1 := by omega
  rw [parts.block_eq, hidx, hm, pySlice_add, hcount]
  simp [HbiCmd.encode]

variable (hspace : st.blockSizeBytes = 2 * words) (hm : 1 ≤ m ∧ m < words ∧ words ≤ 128)
  (hsize : size = (2 * m : Nat)) (hle : i + 2 * m ≤ seg.bytes.length)
  (hblock : block = encodeAll [.cont (m - 1) ((seg.bytes.drop i).take (2 * m))])
  (hemits : Emits seg.InRange hbi [.cont (m - 1) ((seg.bytes.drop i).take (2 * m))]
    (writesAt (seg.addr + i) ((seg.bytes.drop i).take (2 * m))))
include hspace hm hsize hle hblock hemits

theorem HybridParts.padded_turn :
    Turn words isConfig seg i hbi (2 * words) (block ++ nopBytes st'.blockSizeBytes, { st' with remPageBytes := 0 }) := by
  have hpad := parts.space
  have hidx := inv.segIndex
  have hindex := parts.index
  have hieven := inv.even
  have hlength := parts.block_length
  have hnops : nopBytes st'.blockSizeBytes = encodeAll (List.replicate (words - 1 - m) .nop) := by
    rw [encodeAll_nops, nopBytes]
    congr 1
    omega
  have hglobals : GlobalsInv words isConfig st'.globals 0 hbi := by
    rw [parts.globals, ← page.left]
    exact inv.globals
  refine ⟨[.cont (m - 1) ((seg.bytes.drop i).take (2 * m))] ++ List.replicate (words - 1 - m) .nop, 0,
    i + 2 * m, ?_, by omega, ?_, ?_, ?_⟩
  · rw [hnops, hblock, encodeAll_append]
  · rw [hnops, encodeAll_nops, List.length_append, List.length_replicate]
    omega
  · rw [Nat.add_sub_cancel_left]
    exact hemits.pad _
  · rw [HbiState.afterAll_pad]
    refine ⟨⟨hglobals.leftOver, .inl rfl, rfl, fun _ _ => rfl, hglobals.page⟩, ?_, ?_, by omega, hle, ?_,
      fun _ => .inl rfl⟩
    · show st'.segIndex = _
      omega
    · show st'.addr = _
      rw [parts.addr, inv.addr, hsize]
      omega
    · intro _
      rw [roomFor, if_pos rfl]
      show (words * 2 : Int) = _
      omega

theorem HybridParts.next_turn (hlt : i + 2 * m < seg.bytes.length) (hroom : 10 ≤ st'.blockSizeBytes)
    (hpaged : isConfig = true → seg.Paged) :
    Turn words isConfig seg i hbi (2 * words) (finishBlock seg.bytes 0x80 next start) := by
  have hspace' := parts.space
  have hidx := inv.segIndex
  have hindex := parts.index
  have hieven := inv.even
  have hblen : (encodeAll [.cont (m - 1) ((seg.bytes.drop i).take (2 * m))]).length = 2 + 2 * m := by
    have hlength := parts.block_length
    rw [← hblock]
    omega
  obtain ⟨space, hfill, hpos, hseven, hnext⟩ : ∃ space, 2 * words = 2 + 2 * m +
      ((pageControl isConfig false next.addr).length + 2 + space) ∧ 2 ≤ space ∧ space % 2 = 0 ∧
        next.blockSizeBytes = space := by
    rw [pageControl_length, parts.next_space]
    cases isConfig with
    | true =>
        refine ⟨2 * words - 6 - 2 * m, ?_⟩
        simp only [if_true]
        omega
    | false =>
        refine ⟨2 * words - 10 - 2 * m, ?_⟩
        simp only [Bool.false_eq_true, if_false]
        omega
  rw [parts.start_eq, ← parts.next_addr, hblock, finishBlock_append, hfill, ← hblen]
  apply Turn.prepend _ (by omega) hle hemits
  apply write_turn
  · rw [parts.next_index, hindex, hidx, hsize]
    omega
  · rw [parts.next_addr, parts.addr, inv.addr, hsize]
    omega
  · omega
  · exact hlt
  · exact hnext
  · exact hpos
  · exact hseven
  · omega
  · omega
  · rw [parts.next_addr]
    exact parts.next_page
  · exact hpaged
  · intro hfw
    exact parts.next_select.trans (page.selected hfw)
  · intro hfw _
    exact inv.globals.page hfw (page.selected hfw)

end Hybrid

theorem hybridBlock_turn (inv : LoopInv words isConfig seg st left i hbi)
    (page : PageInv isConfig seg st left hbi) (hlt : i < seg.bytes.length)
    (hwords : 16 ≤ words ∧ words ≤ 128) (hpaged : isConfig = true → seg.Paged)
    (hsmall : ¬ st.remPageBytes ≥ st.blockSizeBytes - 2) :
    Turn words isConfig seg i hbi (roomFor (2 * words) left) (hybridBlock seg.bytes isConfig st) := by
  have hspace := inv.space hlt
  rw [page.left, roomFor, if_pos rfl] at hspace ⊢
  have hrpos := page.pos
  have hidx := inv.segIndex
  have hindex : 0 ≤ st.segIndex ∧ st.segIndex < seg.bytes.length := by omega
  obtain ⟨size, block, st', start, next, parts⟩ :=
    hybridBlock_parts isConfig (by omega : 1 ≤ st.remPageBytes) hindex
  obtain ⟨m, hm, hsize, hle, hfits, hends, hblock⟩ := parts.continues inv page
  have hemits := emits_continue inv page (by omega) hle hfits
  have hwhole : st.blockSizeBytes = 2 * words := by omega
  rw [parts.split]
  by_cases hlast : st'.blockSizeBytes < 10 ∨ seg.bytes.length - st.segIndex - size = 0
  · rw [if_pos hlast]
    exact parts.padded_turn inv page hwhole (by omega) hsize hle hblock hemits
  · rw [if_neg hlast]
    exact parts.next_turn inv page hwhole (by omega) hsize hle hblock hemits (by omega) (by omega) hpaged

theorem formatBlock_turn (inv : LoopInv words isConfig seg st left i hbi) (hlt : i < seg.bytes.length)
    (hwords : 16 ≤ words ∧ words ≤ 128) (hpaged : isConfig = true → seg.Paged) :
    Turn words isConfig seg i hbi (roomFor (2 * words) left)
      (formatBlock seg.bytes words isConfig st) := by
  unfold formatBlock
  by_cases hfresh : st.remPageBytes = 0
  · rw [if_pos hfresh]
    exact addressedBlock_turn inv hlt hwords hpaged
  · have page := (inv.page hlt).resolve_left hfresh
    rw [if_neg hfresh]
    by_cases hfull : st.remPageBytes ≥ st.blockSizeBytes - 2
    · rw [if_pos hfull]
      exact continueBlock_turn inv page hlt hwords hfull
    · rw [if_neg hfull]
      exact hybridBlock_turn inv page hlt hwords hpaged hfull

end Turns

/-! ### A whole segment -/

/-- Bytes, and the globals they leave, made where `left` bytes of the last block are left: they are
complete commands that perform `writes`, and put after packed chunks they leave packed chunks. -/
def Formatted (words : Nat) (isConfig : Bool) (exact : Prop) (hbi : HbiState) (left : Nat)
    (writes : List (Int × Int)) (result : List Int × ConverterGlobals) : Prop :=
  ∃ (cmds : List HbiCmd) (left' : Nat), result.1 = encodeAll cmds ∧ Emits exact hbi cmds writes ∧
    (∀ out, Packed (2 * words) IsStream out left → Packed (2 * words) IsStream (out ++ result.1) left') ∧
    GlobalsInv words isConfig result.2 left' (hbi.afterAll cmds)

section Segments

variable {words : Nat} {isConfig : Bool} {exact : Prop} {hbi : HbiState} {left : Nat}
  {globals globals' : ConverterGlobals} {writes writes' : List (Int × Int)} {block rest : List Int}

theorem packed_stream {size left' : Nat} {out : List Int} (h : Packed size IsStream out left)
    (hblock : IsStream block) (hfill : block.length + left' = roomFor size left) :
    Packed size IsStream (out ++ block) left' :=
  h.append (fun _ _ ha hb => ha.append hb) isStream_nil hblock hfill

theorem formatted_nil (h : GlobalsInv words isConfig globals left hbi) :
    Formatted words isConfig exact hbi left [] ([], globals) := by
  refine ⟨[], left, rfl, emits_nil, ?_, h⟩
  intro out hout
  rw [List.append_nil]
  exact hout

theorem Formatted.after {cmds : List HbiCmd} {left' : Nat}
    (h : Formatted words isConfig exact (hbi.afterAll cmds) left' writes' (rest, globals'))
    (hblock : block = encodeAll cmds) (hemits : Emits exact hbi cmds writes)
    (hpacked : ∀ out, Packed (2 * words) IsStream out left →
      Packed (2 * words) IsStream (out ++ block) left') :
    Formatted words isConfig exact hbi left (writes ++ writes') (block ++ rest, globals') := by
  obtain ⟨cmds', last, hrest, hemits', hpacked', hglobals⟩ := h
  refine ⟨cmds ++ cmds', last, ?_, hemits.append hemits', ?_, ?_⟩
  · rw [hblock, encodeAll_append]
    exact congrArg _ hrest
  · intro out hout
    have hboth := hpacked' (out ++ block) (hpacked out hout)
    rw [List.append_assoc] at hboth
    exact hboth
  · rw [HbiState.afterAll_append]
    exact hglobals

theorem Formatted.cons {cmds : List HbiCmd} {left' : Nat}
    (h : Formatted words isConfig exact (hbi.afterAll cmds) left' writes' (rest, globals'))
    (hblock : block = encodeAll cmds) (hfill : block.length + left' = roomFor (2 * words) left)
    (hemits : Emits exact hbi cmds writes) :
    Formatted words isConfig exact hbi left (writes ++ writes') (block ++ rest, globals') := by
  apply h.after hblock hemits
  intro out hout
  exact packed_stream hout ⟨cmds, hemits.valid, hblock⟩ hfill

theorem Formatted.mono {exact' : Prop} {result : List Int × ConverterGlobals}
    (h : Formatted words isConfig exact hbi left writes result) (himp : exact' → exact) :
    Formatted words isConfig exact' hbi left writes result := by
  obtain ⟨cmds, left', hbytes, hemits, hrest⟩ := h
  exact ⟨cmds, left', hbytes, hemits.mono himp, hrest⟩

theorem formatLoop_end {seg : Segment} {st : FormatState} {i : Nat} (fuel : Nat)
    (inv : LoopInv words isConfig seg st left i hbi) (hend : seg.bytes.length ≤ i) :
    ∃ blocks st', formatLoop seg.bytes words isConfig fuel st = some (blocks, st') ∧
      Formatted words isConfig seg.InRange hbi left (writesAt (seg.addr + i) (seg.bytes.drop i))
        (blocks, st'.globals) := by
  have hidx := inv.segIndex
  have hstop : ¬ st.segIndex < seg.bytes.length := by omega
  refine ⟨[], st, formatLoop_stop hstop fuel, ?_⟩
  rw [List.drop_eq_nil_of_le hend]
  exact formatted_nil inv.globals

theorem formatLoop_run {seg : Segment} (hwords : 16 ≤ words ∧ words ≤ 128)
    (hpaged : isConfig = true → seg.Paged) (fuel : Nat) {st : FormatState} {i : Nat}
    (inv : LoopInv words isConfig seg st left i hbi) (hfuel : seg.bytes.length ≤ i + fuel) :
    ∃ blocks st', formatLoop seg.bytes words isConfig fuel st = some (blocks, st') ∧
      Formatted words isConfig seg.InRange hbi left (writesAt (seg.addr + i) (seg.bytes.drop i))
        (blocks, st'.globals) := by
  induction fuel generalizing st i left hbi with
  | zero => exact formatLoop_end 0 inv hfuel
  | succ fuel ih =>
      by_cases hlt : i < seg.bytes.length
      · obtain ⟨cmds, left', i', hblock, hmore, hfill, hemits, hinv⟩ :=
          formatBlock_turn inv hlt hwords hpaged
        obtain ⟨blocks, st', hrun, hformatted⟩ := ih hinv (by omega)
        have hgo : st.segIndex < seg.bytes.length := by
          have hidx := inv.segIndex
          omega
        have hsplit : writesAt (seg.addr + i) (seg.bytes.drop i)
            = writesAt (seg.addr + i) ((seg.bytes.drop i).take (i' - i))
              ++ writesAt (seg.addr + i') (seg.bytes.drop i') := by
          have hle := hinv.le
          have hnext : seg.addr + (i' : Int) = seg.addr + i + (i' - i : Nat) := by omega
          have hdrop : i' = i + (i' - i) := by omega
          rw [writesAt_split (n := i' - i) _ (by rw [List.length_drop]; omega), List.drop_drop, ← hdrop,
            hnext]
        refine ⟨(formatBlock seg.bytes words isConfig st).1 ++ blocks, st', ?_, ?_⟩
        · rw [formatLoop, if_pos hgo]
          exact congrArg (Option.bind · _) hrun
        · rw [hsplit]
          exact hformatted.cons hblock hfill hemits
      · exact formatLoop_end (fuel + 1) inv (by omega)

theorem loopInv_enter (seg : Segment) (h : GlobalsInv words isConfig globals left hbi) :
    LoopInv words isConfig seg
      { addr := seg.addr
        segIndex := 0
        remPageBytes := 0
        blockSizeBytes := if globals.leftOverBytes > 0 then globals.leftOverBytes else words * 2
        pageSelect := globals.pageSelect
        leftOverBytes := globals.leftOverBytes } left 0 hbi := by
  have hleft := h.leftOver
  refine ⟨h, rfl, (Int.add_zero _).symm, rfl, Nat.zero_le _, ?_, fun _ => .inl rfl⟩
  intro _
  have hroom : (if globals.leftOverBytes > 0 then globals.leftOverBytes else (words : Int) * 2)
      = roomFor (2 * words) left := by
    unfold roomFor
    split
    · rw [if_neg (by omega)]
      omega
    · rw [if_pos (by omega)]
      omega
  exact hroom

/-- `FormatSegmentToHbi` on a segment: it ends, and writes the segment's bytes. -/
theorem formatSegmentToHbi_run (seg : Segment) (hwords : 16 ≤ words ∧ words ≤ 128)
    (hpaged : isConfig = true → seg.Paged) (fuel : Nat) (hfuel : seg.bytes.length ≤ fuel)
    (h : GlobalsInv words isConfig globals left hbi) :
    ∃ blocks globals', formatSegmentToHbi fuel seg.bytes seg.addr words isConfig globals
        = some (blocks, globals') ∧
      Formatted words isConfig seg.InRange hbi left (writesAt seg.addr seg.bytes) (blocks, globals') := by
  obtain ⟨blocks, st', hrun, hformatted⟩ :=
    formatLoop_run hwords hpaged fuel (loopInv_enter seg h) (by omega)
  refine ⟨blocks, st'.globals, ?_, ?_⟩
  · rw [formatSegmentToHbi, hrun]
    rfl
  · simpa using hformatted

end Segments

example : formatSegmentToHbi 2 [0x12, 0x34] 0x00200080 16 false .initial
    = some ([0xFE, 0xFF, 0x86, 0x81, 0x00, 0x20, 0x00, 0x00, 0x40, 0x80, 0x12, 0x34],
        { pageSelect := false, leftOverBytes := 20 }) := by
  decide

end VprocSdk
