import VprocSdk.Image.Loaders
import VprocSdk.Lib.Stride

/-!
# Where the static loader ends

The loop of `hbi_load_staticimage_from_host` waits for its index to reach the image length. The index moves
by the block size the header gives and wraps around at 2^32, and the length is any number below that: a
block size of zero never gets there, nor does one whose blocks step over the places between the length and
2^32.
-/

namespace VprocSdk

open Lib

/-- The loader is done with an image of this header: it sends no block, or its index comes to the end. -/
def StaticLoadEnds (hdr : HbiImgHdr) : Prop :=
  hbiBufferSize < hdr.blockSize * 2 ∨ (hdr.imageType ≠ imgTypeFwr ∧ hdr.imageType ≠ imgTypeCr) ∨
    hdr.imgLen ≤ strideTop (2 ^ 32) (hdr.blockSize * 2) imgHdrLen

theorem imgHdr_blockSize_lt (pData : Nat → Byte) : (imgHdr pData).blockSize < 2 ^ 16 := by
  have hhigh : (pData 4).toNat <<< 8 < 2 ^ 16 := by
    rw [Nat.shiftLeft_eq]
    have hlt := (pData 4).isLt
    omega
  have hlow : (pData 5).toNat < 2 ^ 16 := Nat.lt_of_lt_of_le (pData 5).isLt (by decide)
  exact Nat.or_lt_two_pow hhigh hlow

section Loop

variable {answer : Prog.Exchanges HbiAsk HbiReply → HbiAsk → HbiReply} (hanswer : CommandsSucceed answer)
  (handle : Nat)
include hanswer

theorem setCommand_run {α : Type} (cmd : Command) (f : HbiStatus → Loader α)
    (done : Prog.Exchanges HbiAsk HbiReply) :
    ∃ more, (setCommand handle cmd >>= f).run answer done = (f .success).run answer more := by
  refine ⟨done ++ [(.setCommand handle cmd, answer done (.setCommand handle cmd))], ?_⟩
  have hsuccess := hanswer done handle cmd
  simp only [setCommand, Prog.query_bind, Prog.ask_bind, Prog.pure_eq, Prog.pure_bind, Prog.run_ask, hsuccess]

theorem completeStatic_run (imageType : Nat) (done : Prog.Exchanges HbiAsk HbiReply) :
    ∃ result, ((completeStatic handle imageType).run answer done).2 = some result := by
  rw [completeStatic]
  split
  · obtain ⟨more, hmore⟩ := setCommand_run hanswer handle .loadFwrComplete
      (fun status => (return some (status.code : Int) : Loader (Option Int))) done
    rw [hmore]
    exact ⟨_, rfl⟩
  · exact ⟨_, rfl⟩

variable {handle}

theorem staticLoop_turn {hdr : HbiImgHdr} (htype : hdr.imageType = imgTypeFwr ∨ hdr.imageType = imgTypeCr)
    (pArg : Nat → Byte) (blockSize fuel : Nat) {i : Nat} (hmore : i < hdr.imgLen)
    (done : Prog.Exchanges HbiAsk HbiReply) :
    ∃ done', ((staticLoop handle hdr pArg blockSize (fuel + 1) i).run answer done).2
      = ((staticLoop handle hdr pArg blockSize fuel ((i + blockSize) % 2 ^ 32)).run answer done').2 := by
  obtain ⟨cmd, hcmd⟩ : ∃ cmd, sendStaticBlock handle hdr.imageType (slice pArg i blockSize)
      = setCommand handle cmd := by
    rw [sendStaticBlock]
    by_cases hfwr : hdr.imageType = imgTypeFwr
    · exact ⟨_, if_pos hfwr⟩
    · rw [if_neg hfwr, if_pos (htype.resolve_left hfwr)]
      exact ⟨_, rfl⟩
  rw [staticLoop, if_pos hmore, hcmd]
  obtain ⟨done', hrun⟩ := setCommand_run hanswer handle cmd (fun status =>
    (if status ≠ .success then return some (status.code : Int)
      else staticLoop handle hdr pArg blockSize fuel ((i + blockSize) % 2 ^ 32) : Loader (Option Int))) done
  refine ⟨done', ?_⟩
  rw [hrun, if_neg (not_not.2 rfl)]

/-- The loop ends within its fuel when the index reaches the length within that many steps. -/
theorem staticLoop_ends {hdr : HbiImgHdr} (htype : hdr.imageType = imgTypeFwr ∨ hdr.imageType = imgTypeCr)
    (pArg : Nat → Byte) (blockSize : Nat) (fuel : Nat) {i : Nat} (hi : i < 2 ^ 32)
    (done : Prog.Exchanges HbiAsk HbiReply) :
    (∃ result, ((staticLoop handle hdr pArg blockSize fuel i).run answer done).2 = some result) ↔
      ∃ k < fuel, hdr.imgLen ≤ strideAt (2 ^ 32) blockSize i k := by
  induction fuel generalizing i done with
  | zero => simp [staticLoop]
  | succ fuel ih =>
      by_cases hmore : i < hdr.imgLen
      · obtain ⟨done', hturn⟩ := staticLoop_turn hanswer htype pArg blockSize fuel hmore done
        rw [hturn, ih (Nat.mod_lt _ (by decide))]
        simp only [strideAt_step]
        constructor
        · intro hexists
          obtain ⟨k, hk, hreach⟩ := hexists
          exact ⟨k + 1, Nat.succ_lt_succ hk, hreach⟩
        · intro hexists
          obtain ⟨k, hk, hreach⟩ := hexists
          cases k with
          | zero =>
              rw [strideAt_zero hi] at hreach
              exact absurd hmore (Nat.not_lt_of_le hreach)
          | succ k => exact ⟨k, Nat.lt_of_succ_lt_succ hk, hreach⟩
      · have hend := completeStatic_run hanswer handle hdr.imageType done
        rw [staticLoop, if_neg hmore]
        refine iff_of_true hend ⟨0, Nat.succ_pos fuel, ?_⟩
        rw [strideAt_zero hi]
        exact Nat.le_of_not_lt hmore

theorem staticLoop_other {hdr : HbiImgHdr} (htype : hdr.imageType ≠ imgTypeFwr ∧ hdr.imageType ≠ imgTypeCr)
    (pArg : Nat → Byte) (blockSize i : Nat) (done : Prog.Exchanges HbiAsk HbiReply) :
    ∃ result, ((staticLoop handle hdr pArg blockSize 1 i).run answer done).2 = some result := by
  rw [staticLoop]
  by_cases hmore : i < hdr.imgLen
  · rw [if_pos hmore, sendStaticBlock, if_neg htype.1, if_neg htype.2]
    exact ⟨_, rfl⟩
  · rw [if_neg hmore]
    exact completeStatic_run hanswer handle hdr.imageType done

end Loop

theorem hbiLoadStaticimageFromHost_header (fuel handle : Nat) (pArg : Nat → Byte) :
    hbiLoadStaticimageFromHost fuel handle pArg =
      if (imgHdr pArg).blockSize * 2 > hbiBufferSize then return some HbiStatus.resourceErr.code
      else staticLoop handle (imgHdr pArg) pArg ((imgHdr pArg).blockSize * 2) fuel imgHdrLen := by
  have hheader : internalHbiGetHdr pArg hbiBufferSize = .ok (imgHdr pArg) := if_neg (by decide)
  have hblock : (imgHdr pArg).blockSize * 2 % 2 ^ 32 = (imgHdr pArg).blockSize * 2 := by
    have hlt := imgHdr_blockSize_lt pArg
    exact Nat.mod_eq_of_lt (by omega)
  rw [hbiLoadStaticimageFromHost, hheader]
  dsimp only
  rw [hblock]
  rfl

/-- With every command accepted, the loader ends exactly on the headers whose blocks it does not send or
whose length its index reaches. -/
theorem static_load_ends_iff (handle : Nat) (pArg : Nat → Byte)
    (answer : Prog.Exchanges HbiAsk HbiReply → HbiAsk → HbiReply) (hanswer : CommandsSucceed answer) :
    (∃ fuel result, ((hbiLoadStaticimageFromHost fuel handle pArg).run answer []).2 = some result) ↔
      StaticLoadEnds (imgHdr pArg) := by
  simp only [hbiLoadStaticimageFromHost_header, StaticLoadEnds]
  by_cases hbuffer : (imgHdr pArg).blockSize * 2 > hbiBufferSize
  · simp only [if_pos hbuffer]
    exact iff_of_true ⟨0, _, rfl⟩ (.inl hbuffer)
  · simp only [if_neg hbuffer]
    rw [or_iff_right hbuffer]
    by_cases htype : (imgHdr pArg).imageType ≠ imgTypeFwr ∧ (imgHdr pArg).imageType ≠ imgTypeCr
    · exact iff_of_true ⟨1, staticLoop_other hanswer htype pArg _ _ []⟩ (.inl htype)
    · have hloaded : (imgHdr pArg).imageType = imgTypeFwr ∨ (imgHdr pArg).imageType = imgTypeCr := by
        rwa [not_and_or, not_not, not_not] at htype
      rw [or_iff_right htype, ← exists_le_strideAt_iff (by decide)]
      constructor
      · intro hexists
        obtain ⟨fuel, hresult⟩ := hexists
        obtain ⟨k, -, hreach⟩ := (staticLoop_ends hanswer hloaded pArg _ fuel (by decide) []).1 hresult
        exact ⟨k, hreach⟩
      · intro hexists
        obtain ⟨k, hreach⟩ := hexists
        exact ⟨k + 1, (staticLoop_ends hanswer hloaded pArg _ (k + 1) (by decide) []).2
          ⟨k, Nat.lt_succ_self k, hreach⟩⟩

def acceptingDevice (_ : Prog.Exchanges HbiAsk HbiReply) (_ : HbiAsk) : HbiReply := ⟨.success, []⟩

theorem acceptingDevice_succeeds : CommandsSucceed acceptingDevice := fun _ _ _ => rfl

theorem static_load_ends_iff_accepting :
    (∃ fuel result, ((hbiLoadStaticimageFromHost fuel 0 (listMem twoBlocks.bytes)).run acceptingDevice []).2
        = some result) ↔
      StaticLoadEnds (imgHdr (listMem twoBlocks.bytes)) :=
  static_load_ends_iff 0 (listMem twoBlocks.bytes) acceptingDevice acceptingDevice_succeeds

/-- A firmware header with a length of 28 bytes and a block size of zero: the index stays at 12. -/
theorem zero_block_size_never_ends : ∃ pArg : Nat → Byte, ¬ ∃ fuel result,
    ((hbiLoadStaticimageFromHost fuel 0 pArg).run acceptingDevice []).2 = some result := by
  obtain ⟨pArg, hpArg⟩ : ∃ pArg, pArg = listMem
    [0x00, 0x00, 0x50, 0x40, 0x00, 0x00, 0x00, 0x00, 0x00, 0x1C, 0x00, 0x00] := ⟨_, rfl⟩
  have hblock : (imgHdr pArg).blockSize = 0 := by
    rw [hpArg]
    decide
  have hlen : (imgHdr pArg).imgLen = 28 := by
    rw [hpArg]
    decide
  have htype : (imgHdr pArg).imageType = imgTypeFwr := by
    rw [hpArg]
    decide
  refine ⟨pArg, ?_⟩
  intro hexists
  obtain ⟨fuel, hresult⟩ := hexists
  rw [hbiLoadStaticimageFromHost_header, hblock, if_neg (by decide)] at hresult
  obtain ⟨k, -, hreach⟩ :=
    (staticLoop_ends acceptingDevice_succeeds (.inl htype) pArg _ fuel (by decide) []).1 hresult
  rw [hlen, strideAt, Nat.zero_mul, Nat.mul_zero] at hreach
  exact absurd hreach (by decide)

end VprocSdk
