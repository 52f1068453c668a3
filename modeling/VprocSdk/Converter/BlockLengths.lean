import Mathlib.Data.Int.ModEq
import VprocSdk.Converter.BlockBytes
import VprocSdk.Converter.Images
import VprocSdk.Converter.Text

/-!
# The length of an image

Each turn of the loop fills its block: what it appends and what it leaves for the next segment are together
the size of the block. So the blocks of a segment, with what is left behind them, are as many bytes as were
left before them, up to whole blocks, and so is the payload of an image: it is a multiple of the block size
exactly when nothing was left over before the conversion began.
-/

namespace VprocSdk

open Lib

/-- What is left of the last block has room for an address, and for firmware the page is selected then. -/
def RoomLeft (isConfig : Bool) (globals : ConverterGlobals) : Prop :=
  globals.leftOverBytes = 0 ∨ 10 ≤ globals.leftOverBytes ∧ globals.leftOverBytes ≤ 256 ∧
    (isConfig = false → globals.pageSelect = false)

theorem GlobalsSound.roomLeft {globals : ConverterGlobals} (h : GlobalsSound globals) (isConfig : Bool) :
    RoomLeft isConfig globals :=
  h.imp_right fun hleft => ⟨hleft.1, hleft.2.1, fun _ => hleft.2.2⟩

theorem RoomLeft.nonneg {isConfig : Bool} {globals : ConverterGlobals} (h : RoomLeft isConfig globals) :
    0 ≤ globals.leftOverBytes := by
  rcases h with hzero | ⟨hlow, -⟩
  · exact Int.le_of_eq hzero.symm
  · omega

/-- The state between two turns of the loop: while the segment goes on, the next block is a whole one, or
what the segment before it left. -/
structure RoomSound (words len : Nat) (isConfig : Bool) (st : FormatState) : Prop where
  index : 0 ≤ st.segIndex ∧ st.segIndex ≤ len
  page : 0 ≤ st.remPageBytes
  space : st.segIndex < len → st.blockSizeBytes = words * 2 ∧ st.leftOverBytes = 0 ∨
    st.remPageBytes = 0 ∧ st.blockSizeBytes = st.leftOverBytes ∧ st.leftOverBytes ≠ 0
  selected : st.remPageBytes ≠ 0 → isConfig = false → st.pageSelect = false
  globals : RoomLeft isConfig st.globals

/-- A turn of the loop fills its block. -/
structure TurnFills (words len : Nat) (isConfig : Bool) (st : FormatState)
    (result : List Int × FormatState) : Prop where
  sound : RoomSound words len isConfig result.2
  filled : result.1.length + result.2.leftOverBytes = st.blockSizeBytes

section Turn

variable {words : Nat} {segmentList : List Int} {isConfig : Bool} {st : FormatState}

theorem finishBlock_fills (words : Nat) (segmentList : List Int) (size writeBit : Int) (st' : FormatState)
    (block : List Int)
    (hspace : 1 ≤ st'.blockSizeBytes ∧ st'.blockSizeBytes ≤ 256)
    (hpage : st'.blockSizeBytes ≤ st'.remPageBytes)
    (hindex : 0 ≤ st'.segIndex ∧ st'.segIndex < segmentList.length)
    (hselect : isConfig = false → st'.pageSelect = false)
    (hfill : block.length + 1 + st'.blockSizeBytes = size) :
    RoomSound words segmentList.length isConfig
        { (finishBlock segmentList writeBit st' block).2 with blockSizeBytes := words * 2 } ∧
      (finishBlock segmentList writeBit st' block).1.length
        + (finishBlock segmentList writeBit st' block).2.leftOverBytes = size := by
  obtain ⟨size', left, hpos, hfit, hrem, -, hleft, hstate, hlength, -⟩ :=
    finishBlock_takes writeBit block hspace hindex
  rw [hstate]
  refine ⟨⟨⟨?_, ?_⟩, ?_, ?_, fun _ => hselect, ?_⟩, hlength.trans hfill⟩
  · show 0 ≤ st'.segIndex + size'
    omega
  · show st'.segIndex + size' ≤ segmentList.length
    omega
  · show 0 ≤ st'.remPageBytes - size'
    omega
  · intro hmore
    have hgoes : st'.segIndex + size' < segmentList.length := hmore
    exact .inl ⟨rfl, hleft.resolve_right (by omega)⟩
  · exact hleft.imp_right fun hroom => ⟨hroom.1, hroom.2.1, hselect⟩

theorem RoomSound.whole (h : RoomSound words segmentList.length isConfig st)
    (hmore : st.segIndex < segmentList.length) (hpage : st.remPageBytes ≠ 0) :
    st.blockSizeBytes = words * 2 ∧ st.leftOverBytes = 0 :=
  (h.space hmore).resolve_right fun hfirst => hpage hfirst.1

variable (hwords : 16 ≤ words ∧ words ≤ 128) (h : RoomSound words segmentList.length isConfig st)
  (hmore : st.segIndex < segmentList.length)
include hwords h hmore

theorem addressedBlock_fills :
    TurnFills words segmentList.length isConfig st ((addressedBlock segmentList isConfig st).1,
      { (addressedBlock segmentList isConfig st).2 with blockSizeBytes := words * 2 }) := by
  have hindex := h.index
  obtain ⟨start, st', haddressed, hstart, hindex', hrem, hspace, hselect⟩ :=
    addressedBlock_finish segmentList isConfig st
  have hctrl : start.length = if isConfig then 3 else if st.pageSelect then 9 else 7 := by
    rw [hstart, List.length_append, pageControl_length, List.length_singleton]
    split_ifs <;> rfl
  have hsize : 10 ≤ st.blockSizeBytes ∧ st.blockSizeBytes ≤ 256 ∧
      (st.blockSizeBytes = words * 2 ∨ (isConfig = false → st.pageSelect = false)) := by
    rcases h.space hmore with ⟨hfull, -⟩ | ⟨-, hleft, hsome⟩
    · exact ⟨by omega, by omega, .inl hfull⟩
    · obtain ⟨hlow, hhigh, hselected⟩ := h.globals.resolve_left hsome
      exact ⟨hleft ▸ hlow, hleft ▸ hhigh, .inr hselected⟩
  have hfits : 1 ≤ st'.blockSizeBytes ∧ st'.blockSizeBytes ≤ 252 := by
    rw [hspace, hctrl]
    cases hconfig : isConfig with
    | true =>
        simp only [if_true]
        omega
    | false =>
        simp only [Bool.false_eq_true, if_false]
        cases hselected : st.pageSelect with
        | true =>
            have hfull := hsize.2.2.resolve_right fun hall =>
              Bool.false_ne_true ((hall hconfig).symm.trans hselected)
            simp only [if_true]
            omega
        | false =>
            simp only [Bool.false_eq_true, if_false]
            omega
  have hselect' : isConfig = false → st'.pageSelect = false := by
    intro hconfig
    rw [hselect, hconfig]
    rfl
  obtain ⟨hsound, hfilled⟩ := finishBlock_fills words segmentList st.blockSizeBytes 0x80 st' start
    ⟨hfits.1, by omega⟩ (by omega) (by omega) hselect' (by omega)
  rw [haddressed]
  exact ⟨hsound, hfilled⟩

theorem continueBlock_fills (hpage : st.remPageBytes ≠ 0) (hfull : st.remPageBytes ≥ st.blockSizeBytes - 2) :
    TurnFills words segmentList.length isConfig st ((continueBlock segmentList st).1,
      { (continueBlock segmentList st).2 with blockSizeBytes := words * 2 }) := by
  have hindex := h.index
  have hwhole := h.whole hmore hpage
  obtain ⟨st', hcontinue, hindex', hrem, hspace, hselect⟩ := continueBlock_finish segmentList st
  have hselect' : isConfig = false → st'.pageSelect = false := by
    intro hconfig
    rw [hselect, h.selected hpage hconfig]
  obtain ⟨hsound, hfilled⟩ := finishBlock_fills words segmentList st.blockSizeBytes 0 st' [0xFB] (by omega)
    (by omega) (by omega) hselect' (by rw [List.length_singleton]; omega)
  rw [hcontinue]
  exact ⟨hsound, hfilled⟩

theorem hybridBlock_fills (hpage : st.remPageBytes ≠ 0) (hpart : ¬ st.remPageBytes ≥ st.blockSizeBytes - 2) :
    TurnFills words segmentList.length isConfig st ((hybridBlock segmentList isConfig st).1,
      { (hybridBlock segmentList isConfig st).2 with blockSizeBytes := words * 2 }) := by
  have hindex := h.index
  have hpos := h.page
  have hwhole := h.whole hmore hpage
  obtain ⟨size, block, st', start, next, parts⟩ :=
    hybridBlock_parts isConfig (by omega : 1 ≤ st.remPageBytes) ⟨hindex.1, hmore⟩
  obtain ⟨hsizePos, hfits, hrem⟩ := parts.bounds
  have hindex' := parts.index
  have hspace := parts.space
  have hblock := parts.block_length
  have hleft : st'.leftOverBytes = 0 := by
    have hglobals := congrArg ConverterGlobals.leftOverBytes parts.globals
    exact hglobals.trans hwhole.2
  rw [parts.split]
  by_cases hlast : st'.blockSizeBytes < 10 ∨ segmentList.length - st.segIndex - size = 0
  · rw [if_pos hlast]
    refine ⟨⟨⟨?_, ?_⟩, Int.le_refl 0, ?_, fun hne => absurd rfl hne, ?_⟩, ?_⟩
    · show 0 ≤ st'.segIndex
      omega
    · show st'.segIndex ≤ segmentList.length
      omega
    · exact fun _ => .inl ⟨rfl, hleft⟩
    · exact .inl hleft
    · show ((block ++ nopBytes st'.blockSizeBytes).length : Int) + st'.leftOverBytes = st.blockSizeBytes
      rw [List.length_append, Int.natCast_add, length_nopBytes]
      omega
  · rw [if_neg hlast]
    have hctrl : (start.length : Int) = block.length + if isConfig then 3 else 7 := by
      rw [parts.start_eq, List.length_append, List.length_append, pageControl_length, List.length_singleton]
      cases isConfig with
      | true => exact Int.natCast_add _ _
      | false => exact Int.natCast_add _ _
    have hnextIndex := parts.next_index
    have hnextRem := parts.next_page
    have hbounds : 1 ≤ next.blockSizeBytes ∧ next.blockSizeBytes ≤ 252 ∧
        start.length + 1 + next.blockSizeBytes = st.blockSizeBytes := by
      rw [parts.next_space, hctrl]
      split <;> omega
    have hselect : isConfig = false → next.pageSelect = false := by
      intro hconfig
      rw [parts.next_select, h.selected hpage hconfig]
    obtain ⟨hsound, hfilled⟩ := finishBlock_fills words segmentList st.blockSizeBytes 0x80 next start
      ⟨hbounds.1, by omega⟩ (by omega) (by omega) hselect hbounds.2.2
    exact ⟨hsound, hfilled⟩

theorem formatBlock_fills :
    TurnFills words segmentList.length isConfig st (formatBlock segmentList words isConfig st) := by
  unfold formatBlock
  by_cases hpage : st.remPageBytes = 0
  · rw [if_pos hpage]
    exact addressedBlock_fills hwords h hmore
  · rw [if_neg hpage]
    by_cases hfull : st.remPageBytes ≥ st.blockSizeBytes - 2
    · rw [if_pos hfull]
      exact continueBlock_fills hwords h hmore hpage hfull
    · rw [if_neg hfull]
      exact hybridBlock_fills hwords h hmore hpage hfull

end Turn

/-! ### Segments and images -/

theorem length_modEq_nil (size : Nat) (left : Int) : ([] : List Int).length + left ≡ left [ZMOD size] := by
  rw [List.length_nil, Int.natCast_zero, Int.zero_add]

theorem length_modEq_append {size : Nat} {blocks rest : List Int} {left left' left'' : Int}
    (h : blocks.length + left' ≡ left [ZMOD size])
    (hrest : rest.length + left'' ≡ left' [ZMOD size]) :
    (blocks ++ rest).length + left'' ≡ left [ZMOD size] := by
  calc ((blocks ++ rest).length : Int) + left''
      = blocks.length + (rest.length + left'') := by
        rw [List.length_append]
        omega
    _ ≡ blocks.length + left' [ZMOD size] := hrest.add_left _
    _ ≡ left [ZMOD size] := h

section Segments

variable {words fuel : Nat} {isConfig : Bool} {globals globals' : ConverterGlobals} {blocks : List Int}
  (hwords : 16 ≤ words ∧ words ≤ 128)
include hwords

/-- The turns of the loop telescope: what one leaves, the next one begins with. -/
theorem formatLoop_length {segmentList : List Int} {st st' : FormatState}
    (h : RoomSound words segmentList.length isConfig st)
    (hrun : formatLoop segmentList words isConfig fuel st = some (blocks, st')) :
    RoomSound words segmentList.length isConfig st' ∧
      blocks.length + st'.leftOverBytes ≡ st.leftOverBytes [ZMOD (words * 2 : Nat)] := by
  induction fuel generalizing st blocks with
  | zero =>
      by_cases hmore : st.segIndex < segmentList.length
      · exact absurd ((if_pos hmore).symm.trans hrun) (Option.some_ne_none _).symm
      · cases (if_neg hmore).symm.trans hrun
        exact ⟨h, length_modEq_nil _ _⟩
  | succ fuel ih =>
      by_cases hmore : st.segIndex < segmentList.length
      · obtain ⟨⟨rest, last⟩, hrest, hlast⟩ := Option.bind_eq_some_iff.1 ((if_pos hmore).symm.trans hrun)
        cases hlast
        have hturn := formatBlock_fills hwords h hmore
        have hblock : (formatBlock segmentList words isConfig st).1.length
            + (formatBlock segmentList words isConfig st).2.leftOverBytes
              ≡ st.leftOverBytes [ZMOD (words * 2 : Nat)] := by
          rw [hturn.filled]
          rcases h.space hmore with ⟨hfull, hnone⟩ | ⟨-, hleft, -⟩
          · rw [hfull, hnone]
            exact Int.modEq_zero_iff_dvd.2 ⟨1, by omega⟩
          · rw [hleft]
        obtain ⟨hsound, hlength⟩ := ih hturn.sound hrest
        exact ⟨hsound, length_modEq_append hblock hlength⟩
      · cases (if_neg hmore).symm.trans hrun
        exact ⟨h, length_modEq_nil _ _⟩

theorem formatSegmentToHbi_length {segmentList : List Int} {startAddress : Int} (h : RoomLeft isConfig globals)
    (hrun : formatSegmentToHbi fuel segmentList startAddress words isConfig globals
      = some (blocks, globals')) :
    RoomLeft isConfig globals' ∧
      blocks.length + globals'.leftOverBytes ≡ globals.leftOverBytes [ZMOD (words * 2 : Nat)] := by
  obtain ⟨⟨blocks', st'⟩, hloop, hlast⟩ := Option.bind_eq_some_iff.1 hrun
  cases hlast
  have hsound : RoomSound words segmentList.length isConfig (.enter startAddress words globals) := by
    refine ⟨⟨Int.le_refl 0, Int.natCast_nonneg _⟩, Int.le_refl 0, fun _ => ?_, fun hne => absurd rfl hne, h⟩
    show (if globals.leftOverBytes > 0 then globals.leftOverBytes else (words : Int) * 2) = words * 2 ∧
        globals.leftOverBytes = 0 ∨
      (0 : Int) = 0 ∧ (if globals.leftOverBytes > 0 then globals.leftOverBytes else (words : Int) * 2)
        = globals.leftOverBytes ∧ globals.leftOverBytes ≠ 0
    rcases h with hzero | ⟨hlow, -⟩
    · rw [if_neg (by omega)]
      exact .inl ⟨rfl, hzero⟩
    · rw [if_pos (by omega)]
      exact .inr ⟨rfl, rfl, by omega⟩
  obtain ⟨hsound', hlength⟩ := formatLoop_length hwords hsound hloop
  exact ⟨hsound'.globals, hlength⟩

theorem formatSegments_length {segs : List (Int × List Int)} (h : RoomLeft isConfig globals)
    (hrun : formatSegments fuel words isConfig segs globals = some (blocks, globals')) :
    RoomLeft isConfig globals' ∧
      blocks.length + globals'.leftOverBytes ≡ globals.leftOverBytes [ZMOD (words * 2 : Nat)] := by
  induction segs generalizing globals blocks with
  | nil =>
      cases hrun
      exact ⟨h, length_modEq_nil _ _⟩
  | cons seg segs ih =>
      obtain ⟨⟨segBlocks, mid⟩, hseg, hlater⟩ := Option.bind_eq_some_iff.1 hrun
      obtain ⟨⟨rest, last⟩, hrest, hlast⟩ := Option.bind_eq_some_iff.1 hlater
      cases hlast
      obtain ⟨hmid, hlength⟩ := formatSegmentToHbi_length hwords h hseg
      obtain ⟨hglobals, hlength'⟩ := ih hmid hrest
      exact ⟨hglobals, length_modEq_append hlength hlength'⟩

theorem formatTable_length {bufferList : List (List Char)} {table : List (Int × Int)}
    (h : RoomLeft false globals)
    (hrun : formatTable fuel bufferList words table globals = some (.ok blocks, globals')) :
    RoomLeft false globals' ∧
      blocks.length + globals'.leftOverBytes ≡ globals.leftOverBytes [ZMOD (words * 2 : Nat)] := by
  induction table generalizing globals blocks with
  | nil =>
      cases hrun
      exact ⟨h, length_modEq_nil _ _⟩
  | cons entry table ih =>
      rw [formatTable] at hrun
      split at hrun
      · cases hrun
      · obtain ⟨⟨segBlocks, mid⟩, hseg, hlater⟩ := Option.bind_eq_some_iff.1 hrun
        obtain ⟨⟨result, last⟩, hrest, hlast⟩ := Option.bind_eq_some_iff.1 hlater
        obtain ⟨hmid, hlength⟩ := formatSegmentToHbi_length hwords h hseg
        cases result with
        | error e => cases hlast
        | ok rest =>
            cases hlast
            obtain ⟨hglobals, hlength'⟩ := ih hmid hrest
            exact ⟨hglobals, length_modEq_append hlength hlength'⟩

theorem formatS7ToHbi_length {bufferList : List (List Char)} {left : Int} {s7 : List Int} (hleft : 0 ≤ left)
    (h : formatS7ToHbi bufferList words left = .ok s7) : s7.length ≡ left [ZMOD (words * 2 : Nat)] := by
  obtain ⟨line, -, -, hline⟩ := formatS7ToHbi_ok h
  unfold formatS7Line at hline
  dsimp only at hline
  split at hline
  · cases hline
  · split at hline
    · by_cases hfits : left ≥ 8
      · rw [if_pos hfits] at hline
        cases hline
        have hlength : (8 + (left - 8).toNat : Int) = left := by omega
        rw [List.length_append, length_nopBytes, Int.natCast_add]
        exact (congrArg (· % ((words * 2 : Nat) : Int)) hlength)
      · rw [if_neg hfits] at hline
        cases hline
        have hlength : (left.toNat + 8 + ((words : Int) * 2 - 8).toNat : Int) = left + (words * 2 : Nat) := by
          omega
        rw [List.length_append, List.length_append, length_nopBytes, length_nopBytes, Int.natCast_add,
          Int.natCast_add]
        exact (congrArg (· % ((words * 2 : Nat) : Int)) hlength).trans (Int.add_emod_right _ _)
    · cases hline

end Segments

end VprocSdk
