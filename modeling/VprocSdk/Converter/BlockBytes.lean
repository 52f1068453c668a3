import VprocSdk.Converter.Format
import VprocSdk.Converter.Stream

/-!
# The bytes of a block

`FormatSegmentToHbi` on any segment, of any length and at any address: each turn of its loop takes at least
one byte, so the loop ends. What it makes are bytes, except for the length of a write that goes on in its
page with a single byte: half of one, less one, is negative. A segment of an odd length can end so, and
after one the blocks of the next segment can.
-/

namespace VprocSdk

open Lib HbiCmd

/-- All entries can be stored in an `array("B")`. -/
def AllBytes (xs : List Int) : Prop := ∀ b ∈ xs, IsByte b

theorem allBytes_append {xs ys : List Int} : AllBytes (xs ++ ys) ↔ AllBytes xs ∧ AllBytes ys := by
  unfold AllBytes
  exact List.forall_mem_append

theorem allBytes_nops (n : Int) : AllBytes (nopBytes n) := by
  intro b hb
  rw [List.eq_of_mem_replicate hb]
  exact ⟨by decide, by decide⟩

theorem length_nopBytes (n : Int) : (nopBytes n).length = n.toNat := List.length_replicate

theorem allBytes_pySlice {xs : List Int} (h : AllBytes xs) (i j : Int) : AllBytes (pySlice xs i j) :=
  fun b hb => h b (List.mem_of_mem_take (List.mem_of_mem_drop hb))

/-! ### One block -/

/-- The globals between two segments: what is left of the last block has room for an address, and the
page is selected then. -/
def GlobalsSound (globals : ConverterGlobals) : Prop :=
  globals.leftOverBytes = 0 ∨
    10 ≤ globals.leftOverBytes ∧ globals.leftOverBytes ≤ 256 ∧ globals.pageSelect = false

/-- The state between two turns of the loop over a segment of `len` bytes. -/
structure LoopSound (words len : Nat) (st : FormatState) : Prop where
  index : 0 ≤ st.segIndex ∧ st.segIndex ≤ len
  page : 0 ≤ st.remPageBytes
  space : st.blockSizeBytes = words * 2 ∨
    st.remPageBytes = 0 ∧ 10 ≤ st.blockSizeBytes ∧ st.blockSizeBytes ≤ 256 ∧ st.pageSelect = false
  selected : st.remPageBytes ≠ 0 → st.pageSelect = false
  globals : GlobalsSound st.globals

/-- The next write goes on in its page with a single byte: one is left of the page or of the segment. -/
def ContinuesByte (len : Nat) (st : FormatState) : Prop :=
  st.remPageBytes ≠ 0 ∧ (st.remPageBytes = 1 ∨ len - st.segIndex = 1)

section Blocks

variable {words : Nat} {segmentList : List Int} {st : FormatState}

/-- The end of a block takes as many bytes as fit, and pads what does not stay for the next segment. -/
theorem finishBlock_takes (writeBit : Int) (block : List Int)
    (hspace : 1 ≤ st.blockSizeBytes ∧ st.blockSizeBytes ≤ 256)
    (hindex : 0 ≤ st.segIndex ∧ st.segIndex < segmentList.length) :
    ∃ size left, 1 ≤ size ∧ size ≤ st.blockSizeBytes ∧ size ≤ segmentList.length - st.segIndex ∧
      (size = st.blockSizeBytes ∨ size = segmentList.length - st.segIndex) ∧
      (left = 0 ∨ 10 ≤ left ∧ left ≤ 256 ∧ size = segmentList.length - st.segIndex) ∧
      (finishBlock segmentList writeBit st block).2 = { st with
        addr := st.addr + size
        segIndex := st.segIndex + size
        remPageBytes := st.remPageBytes - size
        blockSizeBytes := size
        leftOverBytes := left } ∧
      (finishBlock segmentList writeBit st block).1.length + left = block.length + 1 + st.blockSizeBytes ∧
      (AllBytes segmentList → (AllBytes (finishBlock segmentList writeBit st block).1 ↔
        AllBytes block ∧ IsByte (size / 2 - 1 + writeBit))) := by
  have hbytes : ∀ (n i j : Int), AllBytes segmentList →
      (AllBytes (block ++ [n] ++ pySlice segmentList i j) ↔ AllBytes block ∧ IsByte n) := by
    intro n i j hall
    rw [allBytes_append, allBytes_append, and_iff_left (allBytes_pySlice hall i j)]
    simp [AllBytes]
  have hlength : ∀ (n size : Int), 0 ≤ size → size ≤ segmentList.length - st.segIndex →
      ((block ++ [n] ++ pySlice segmentList st.segIndex (st.segIndex + size)).length : Int)
        = block.length + 1 + size := by
    intro n size hpos hfit
    have hdata := length_pySlice hindex.1 hpos (by omega : st.segIndex + size ≤ segmentList.length)
    rw [List.length_append, List.length_append, List.length_singleton]
    omega
  by_cases hshort : st.blockSizeBytes > segmentList.length - st.segIndex
  · by_cases hpad : st.blockSizeBytes - (segmentList.length - st.segIndex) ≥ 10
    · refine ⟨segmentList.length - st.segIndex, st.blockSizeBytes - (segmentList.length - st.segIndex),
        by omega, by omega, by omega, .inr rfl, .inr ⟨by omega, by omega, rfl⟩, ?_, ?_, ?_⟩
      · simp only [finishBlock, if_pos hshort, if_pos hpad]
      · simp only [finishBlock, if_pos hshort, if_pos hpad]
        rw [hlength _ _ (by omega) (by omega)]
        omega
      · simp only [finishBlock, if_pos hshort, if_pos hpad]
        exact hbytes _ _ _
    · refine ⟨segmentList.length - st.segIndex, 0, by omega, by omega, by omega, .inr rfl, .inl rfl, ?_, ?_, ?_⟩
      · simp only [finishBlock, if_pos hshort, if_neg hpad]
      · simp only [finishBlock, if_pos hshort, if_neg hpad]
        rw [List.length_append, Int.natCast_add, hlength _ _ (by omega) (by omega), length_nopBytes]
        omega
      · simp only [finishBlock, if_pos hshort, if_neg hpad]
        rw [allBytes_append, and_iff_left (allBytes_nops _)]
        exact hbytes _ _ _
  · refine ⟨st.blockSizeBytes, 0, by omega, by omega, by omega, .inl rfl, .inl rfl, ?_, ?_, ?_⟩
    · simp only [finishBlock, if_neg hshort]
      rfl
    · simp only [finishBlock, if_neg hshort]
      rw [if_neg (by decide), List.length_append, Int.natCast_add, hlength _ _ (by omega) (by omega),
        length_nopBytes]
      omega
    · simp only [finishBlock, if_neg hshort]
      rw [if_neg (by decide), allBytes_append, and_iff_left (allBytes_nops _)]
      exact hbytes _ _ _

theorem allBytes_pageControl (pageSelect : Bool) (addr : Int) :
    AllBytes (pageControl false pageSelect addr ++ [addr % 0x100 / 2]) := by
  rw [allBytes_append]
  constructor
  · cases pageSelect
    all_goals
      simp only [pageControl, AllBytes, Bool.false_eq_true, if_false, if_true, List.cons_append,
        List.nil_append, List.forall_mem_cons, List.not_mem_nil, false_implies, implies_true, and_true,
        IsByte]
      omega
  · simp only [AllBytes, List.mem_singleton, forall_eq, IsByte]
    omega

theorem finishBlock_sound (words : Nat) (st : FormatState) (hbytes : AllBytes segmentList) (writeBit : Int)
    (block : List Int)
    (hspace : 1 ≤ st.blockSizeBytes ∧ st.blockSizeBytes ≤ 256) (hpage : st.blockSizeBytes ≤ st.remPageBytes)
    (hindex : 0 ≤ st.segIndex ∧ st.segIndex < segmentList.length) (hselect : st.pageSelect = false) :
    LoopSound words segmentList.length
        { (finishBlock segmentList writeBit st block).2 with blockSizeBytes := words * 2 } ∧
      st.segIndex < (finishBlock segmentList writeBit st block).2.segIndex ∧
      ∃ size, 1 ≤ size ∧ size ≤ st.blockSizeBytes ∧
        (size = st.blockSizeBytes ∨ size = segmentList.length - st.segIndex) ∧
        (size ≤ segmentList.length - st.segIndex) ∧
        (AllBytes (finishBlock segmentList writeBit st block).1 ↔
          AllBytes block ∧ IsByte (size / 2 - 1 + writeBit)) := by
  obtain ⟨size, left, hpos, hfit, hrem, htight, hleft, hstate, -, hout⟩ :=
    finishBlock_takes writeBit block hspace hindex
  rw [hstate]
  refine ⟨⟨⟨?_, ?_⟩, ?_, .inl rfl, fun _ => hselect, ?_⟩, ?_, size, hpos, hfit, htight, hrem, hout hbytes⟩
  · show 0 ≤ st.segIndex + size
    omega
  · show st.segIndex + size ≤ segmentList.length
    omega
  · show 0 ≤ st.remPageBytes - size
    omega
  · rcases hleft with hzero | ⟨hlow, hhigh, -⟩
    · exact .inl hzero
    · exact .inr ⟨hlow, hhigh, hselect⟩
  · show st.segIndex < st.segIndex + size
    omega

/-- A turn of the loop gets on, leaves a sound state, and makes bytes unless it continues with one. -/
structure TurnSound (words len : Nat) (st : FormatState) (result : List Int × FormatState) : Prop where
  sound : LoopSound words len result.2
  progress : st.segIndex < result.2.segIndex
  bytes : AllBytes result.1 ↔ ¬ ContinuesByte len st

section Turn

variable (hwords : 16 ≤ words ∧ words ≤ 128) (hbytes : AllBytes segmentList)
  (h : LoopSound words segmentList.length st) (hmore : st.segIndex < segmentList.length)
include hwords hbytes h hmore

theorem addressedBlock_sound (hpage : st.remPageBytes = 0) :
    TurnSound words segmentList.length st ((addressedBlock segmentList false st).1,
      { (addressedBlock segmentList false st).2 with blockSizeBytes := words * 2 }) := by
  have hindex := h.index
  obtain ⟨start, st', haddressed, hstart, hindex', hrem, hspace, hselect⟩ :=
    addressedBlock_finish segmentList false st
  have hctrl : start.length = if st.pageSelect then 9 else 7 := by
    rw [hstart]
    cases st.pageSelect <;> rfl
  have hfits : 1 ≤ st'.blockSizeBytes ∧ st'.blockSizeBytes ≤ 248 := by
    rw [hspace, hctrl]
    rcases h.space with hfull | ⟨-, hlow, hhigh, hselected⟩
    · split <;> omega
    · rw [if_neg (by rw [hselected]; decide)]
      omega
  obtain ⟨hsound, hprogress, size, hpos, hfit, -, -, hout⟩ := finishBlock_sound words st' hbytes 0x80 start
    ⟨hfits.1, by omega⟩ (by omega) (by omega) hselect
  rw [haddressed]
  refine ⟨hsound, by rw [← hindex']; exact hprogress, ?_⟩
  rw [hout]
  have hctrlBytes : AllBytes start := by
    rw [hstart]
    exact allBytes_pageControl _ _
  have hlength : IsByte (size / 2 - 1 + 0x80) := by
    unfold IsByte
    omega
  exact iff_of_true ⟨hctrlBytes, hlength⟩ fun hbyte => hbyte.1 hpage

theorem continueBlock_sound (hpage : st.remPageBytes ≠ 0) (hfull : st.remPageBytes ≥ st.blockSizeBytes - 2) :
    TurnSound words segmentList.length st ((continueBlock segmentList st).1,
      { (continueBlock segmentList st).2 with blockSizeBytes := words * 2 }) := by
  have hindex := h.index
  have hsize : st.blockSizeBytes = words * 2 := h.space.resolve_right fun hfirst => hpage hfirst.1
  obtain ⟨st', hcontinue, hindex', hrem', hspace, hselect⟩ := continueBlock_finish segmentList st
  obtain ⟨hsound, hprogress, size, hpos, hfit, htight, hrem, hout⟩ :=
    finishBlock_sound words st' hbytes 0 [0xFB] (by omega) (by omega) (by omega)
      (hselect.trans (h.selected hpage))
  rw [hcontinue]
  refine ⟨hsound, by rw [← hindex']; exact hprogress, ?_⟩
  rw [hout]
  have hctrlBytes : AllBytes [0xFB] := by
    simp [AllBytes, IsByte]
  rw [and_iff_right hctrlBytes]
  unfold IsByte ContinuesByte
  omega

theorem hybridBlock_sound (hpage : st.remPageBytes ≠ 0) (hpart : ¬ st.remPageBytes ≥ st.blockSizeBytes - 2) :
    TurnSound words segmentList.length st ((hybridBlock segmentList false st).1,
      { (hybridBlock segmentList false st).2 with blockSizeBytes := words * 2 }) := by
  have hindex := h.index
  have hpos := h.page
  have hsize : st.blockSizeBytes = words * 2 := h.space.resolve_right fun hfirst => hpage hfirst.1
  obtain ⟨size, block, st', start, next, parts⟩ :=
    hybridBlock_parts false (by omega : 1 ≤ st.remPageBytes) ⟨hindex.1, hmore⟩
  obtain ⟨hsizePos, hfits, hrem⟩ := parts.bounds
  have hends := parts.ends
  have hindex' := parts.index
  have hspace := parts.space
  have hblockBytes : AllBytes block ↔ ¬ ContinuesByte segmentList.length st := by
    rw [parts.block_eq, allBytes_append, and_iff_left (allBytes_pySlice hbytes _ _)]
    simp only [AllBytes, List.forall_mem_cons, List.not_mem_nil, false_implies, implies_true, and_true]
    unfold IsByte ContinuesByte
    omega
  rw [parts.split]
  by_cases hlast : st'.blockSizeBytes < 10 ∨ segmentList.length - st.segIndex - size = 0
  · rw [if_pos hlast]
    refine ⟨⟨⟨?_, ?_⟩, Int.le_refl 0, .inl rfl, fun hne => absurd rfl hne, ?_⟩, ?_, ?_⟩
    · show 0 ≤ st'.segIndex
      omega
    · show st'.segIndex ≤ segmentList.length
      omega
    · show GlobalsSound st'.globals
      rw [parts.globals]
      exact h.globals
    · show st.segIndex < st'.segIndex
      omega
    · rw [allBytes_append, and_iff_left (allBytes_nops _)]
      exact hblockBytes
  · rw [if_neg hlast]
    have hnextIndex := parts.next_index
    have hnextRem := parts.next_page
    have hnextSpace : next.blockSizeBytes = st'.blockSizeBytes - 8 := parts.next_space
    obtain ⟨hsound, hprogress, rest, hrestPos, hrestFit, -, -, hout⟩ := finishBlock_sound words next hbytes 0x80
      start (by omega) (by omega) (by omega) (parts.next_select.trans (h.selected hpage))
    refine ⟨hsound, ?_, ?_⟩
    · have hgoes : st.segIndex < next.segIndex := by omega
      exact Int.lt_trans hgoes hprogress
    · have hlength : IsByte (rest / 2 - 1 + 0x80) := by
        unfold IsByte
        omega
      rw [hout, and_iff_left hlength, parts.start_eq, allBytes_append, and_iff_left (allBytes_pageControl _ _)]
      exact hblockBytes

theorem formatBlock_sound :
    TurnSound words segmentList.length st (formatBlock segmentList words false st) := by
  unfold formatBlock
  by_cases hpage : st.remPageBytes = 0
  · rw [if_pos hpage]
    exact addressedBlock_sound hwords hbytes h hmore hpage
  · rw [if_neg hpage]
    by_cases hfull : st.remPageBytes ≥ st.blockSizeBytes - 2
    · rw [if_pos hfull]
      exact continueBlock_sound hwords hbytes h hmore hpage hfull
    · rw [if_neg hfull]
      exact hybridBlock_sound hwords hbytes h hmore hpage hfull

end Turn

end Blocks

/-! ### One segment -/

/-- The loop over a segment comes to a write that goes on in its page with a single byte. -/
inductive ReachesSingle (segmentList : List Int) (words : Nat) : FormatState → Prop
  | here {st : FormatState} (hmore : st.segIndex < segmentList.length)
      (hbyte : ContinuesByte segmentList.length st) : ReachesSingle segmentList words st
  | later {st : FormatState} (hmore : st.segIndex < segmentList.length)
      (hrest : ReachesSingle segmentList words (formatBlock segmentList words false st).2) :
      ReachesSingle segmentList words st

/-- The state in which `FormatSegmentToHbi` enters its loop. -/
def FormatState.enter (startAddress : Int) (words : Nat) (globals : ConverterGlobals) : FormatState where
  addr := startAddress
  segIndex := 0
  remPageBytes := 0
  blockSizeBytes := if globals.leftOverBytes > 0 then globals.leftOverBytes else words * 2
  pageSelect := globals.pageSelect
  leftOverBytes := globals.leftOverBytes

section Segments

variable {words : Nat} {segmentList : List Int} {st : FormatState} {globals : ConverterGlobals}
  (hwords : 16 ≤ words ∧ words ≤ 128) (hbytes : AllBytes segmentList)
include hwords hbytes

theorem formatLoop_ends (h : LoopSound words segmentList.length st) {fuel : Nat}
    (hfuel : segmentList.length - st.segIndex ≤ fuel) :
    ∃ blocks st', formatLoop segmentList words false fuel st = some (blocks, st') ∧
      GlobalsSound st'.globals ∧ (AllBytes blocks ↔ ¬ ReachesSingle segmentList words st) := by
  induction fuel generalizing st with
  | zero =>
      have hend : ¬ st.segIndex < segmentList.length := by omega
      refine ⟨[], st, if_neg hend, h.globals, iff_of_true (by simp [AllBytes]) ?_⟩
      intro hcases
      rcases hcases with ⟨hmore, -⟩ | ⟨hmore, -⟩
      · exact hend hmore
      · exact hend hmore
  | succ fuel ih =>
      by_cases hmore : st.segIndex < segmentList.length
      · have hturn := formatBlock_sound hwords hbytes h hmore
        have hprogress := hturn.progress
        obtain ⟨blocks, st', hrun, hglobals, hout⟩ := ih hturn.sound (by omega)
        refine ⟨(formatBlock segmentList words false st).1 ++ blocks, st', ?_, hglobals, ?_⟩
        · rw [formatLoop, if_pos hmore]
          exact congrArg (Option.bind · _) hrun
        · rw [allBytes_append, hturn.bytes, hout]
          constructor
          · intro hboth hcases
            obtain ⟨hnow, hrest⟩ := hboth
            rcases hcases with ⟨-, hbyte⟩ | ⟨-, hlater⟩
            · exact hnow hbyte
            · exact hrest hlater
          · intro hnever
            exact ⟨fun hbyte => hnever (.here hmore hbyte), fun hlater => hnever (.later hmore hlater)⟩
      · refine ⟨[], st, if_neg hmore, h.globals, iff_of_true (by simp [AllBytes]) ?_⟩
        intro hcases
        rcases hcases with ⟨hmore', -⟩ | ⟨hmore', -⟩
        · exact hmore hmore'
        · exact hmore hmore'

theorem formatSegmentToHbi_ends (h : GlobalsSound globals) (startAddress : Int) :
    ∃ blocks globals', formatSegmentToHbi segmentList.length segmentList startAddress words false globals
        = some (blocks, globals') ∧ GlobalsSound globals' ∧
      (AllBytes blocks ↔ ¬ ReachesSingle segmentList words (.enter startAddress words globals)) := by
  have hsound : LoopSound words segmentList.length (.enter startAddress words globals) := by
    refine ⟨⟨Int.le_refl 0, Int.natCast_nonneg _⟩, Int.le_refl 0, ?_, fun hne => absurd rfl hne, h⟩
    show (if globals.leftOverBytes > 0 then globals.leftOverBytes else (words : Int) * 2) = words * 2 ∨
      (0 : Int) = 0 ∧ 10 ≤ (if globals.leftOverBytes > 0 then globals.leftOverBytes else (words : Int) * 2) ∧
        (if globals.leftOverBytes > 0 then globals.leftOverBytes else (words : Int) * 2) ≤ 256 ∧
        globals.pageSelect = false
    rcases h with hzero | ⟨hlow, hhigh, hselect⟩
    · left
      rw [if_neg (by omega)]
    · right
      rw [if_pos (by omega)]
      exact ⟨rfl, hlow, hhigh, hselect⟩
  obtain ⟨blocks, st', hrun, hglobals, hout⟩ := formatLoop_ends hwords hbytes hsound
    (show (segmentList.length : Int) - 0 ≤ segmentList.length by omega)
  refine ⟨blocks, st'.globals, ?_, hglobals, hout⟩
  exact congrArg (Option.bind · _) hrun

end Segments

end VprocSdk
