import VprocSdk.Image.ProcLoad
import VprocSdk.Image.WrBin

/-!
# Loading an image at boot

`hbi_load_binimage_from_host` reads a file through `request_firmware` into the device's buffer and
writes the payload with one of the two loops. It holds the declared length in an `int`, compares it
with the length of the whole file, header included, and leaves by one exit with the length of the file
as its status.

Which bytes the device is handed is told by changing what lies behind the file: as long as nothing the
device is handed changes, no byte from there was handed over.
-/

namespace VprocSdk

open Lib

/-- The part of `hbi_load_binimage_from_host` that depends on the type of the image. -/
def writeBootImage (fuel handle imageType : Nat) (buf : Nat → Byte) (size blockSize : Nat) :
    Loader (Option HbiStatus) :=
  if imageType = imgTypeFwr then hbiWrBinFw fuel handle buf size blockSize
  else if imageType = imgTypeCr then hbiWrBinCfg fuel handle buf size blockSize
  else return some .invalidArg

/-- `hbi_load_binimage_from_host` on a device, with the file `request_firmware` returns. -/
def hbiLoadBinimageFromHost (fuel : Nat) (dev : HbiDev) (file : List Byte) :
    Loader (Option (HbiDev × Int)) :=
  if file.length > hbiLnxBufMaxLen ∨ file.length = 0 then
    return some ({ dev with hbiBuf := dev.hbiBuf.memset }, -1)
  else
    let b : HbiLnxBuf := ⟨overlay dev.hbiBuf.buf 0 file, file.length⟩
    match internalHbiGetHdr b.buf b.len with
    | .error _ => return some ({ dev with hbiBuf := b }, -1)
    | .ok hdr =>
        let totalImgLen := intOfSize hdr.imgLen
        if (b.len : Int) < totalImgLen then
          return some ({ dev with hbiBuf := b }, file.length)
        else do
          let result ← writeBootImage fuel dev.hbiHandle hdr.imageType
            (fun i => b.buf (hdr.hdrLen + i)) (sizeOfInt totalImgLen) hdr.blockSize
          return result.map fun status =>
            ({ dev with hbiBuf := b.memset }, if status ≠ .success then -1 else status.code)

/-! ### The file and what lies behind it -/

/-- What the loops read: the buffer behind the header. -/
def payloadMem (m : Nat → Byte) (file : List Byte) : Nat → Byte := fun i =>
  overlay m 0 file (imgHdrLen + i)

section File

variable {file : List Byte} {m : Nat → Byte} {start len : Nat}

theorem overlay_cell {i : Nat} (h : i < file.length) : overlay m 0 file i = file[i] := by
  rw [overlay, if_pos (Nat.zero_le i), Nat.sub_zero, List.getD_eq_getElem _ _ h]

theorem imgHdr_overlay (h : imgHdrLen ≤ file.length) : imgHdr (overlay m 0 file) = fileHdr file := by
  apply imgHdr_congr
  apply slice_congr
  intro k hk
  have hcell : 0 + k < file.length := by omega
  rw [overlay_cell hcell, listMem, List.getD_eq_getElem _ _ hcell]

theorem slice_payloadMem (h : imgHdrLen + start + len ≤ file.length) :
    slice (payloadMem m file) start len = (file.drop (imgHdrLen + start)).take len := by
  apply List.ext_getElem?
  intro k
  by_cases hk : k < len
  · have hcell : imgHdrLen + (start + k) < file.length := by omega
    rw [slice_getElem? hk, payloadMem, overlay_cell hcell, List.getElem?_take, if_pos hk,
      List.getElem?_drop, Nat.add_assoc, List.getElem?_eq_getElem hcell]
  · rw [List.getElem?_eq_none (by simp; omega), List.getElem?_eq_none (by simp; omega)]

/-- A region lies in the file exactly where it is read the same whatever is behind the file. -/
theorem slice_payloadMem_iff (hlen : 0 < len) :
    (∀ m', slice (payloadMem m' file) start len = slice (payloadMem m file) start len)
      ↔ imgHdrLen + start + len ≤ file.length := by
  constructor
  · intro hsame
    by_contra hout
    have hcell := slice_cell (hsame fun i => m i + 1) (show len - 1 < len by omega)
    have hlast : file.length ≤ imgHdrLen + (start + (len - 1)) := by omega
    rw [payloadMem, payloadMem, overlay, overlay, if_pos (Nat.zero_le _), if_pos (Nat.zero_le _),
      Nat.sub_zero, List.getD_eq_default _ _ hlast, List.getD_eq_default _ _ hlast] at hcell
    have hbyte : ∀ b : Byte, b + 1 ≠ b := by decide
    exact hbyte _ hcell
  · intro hin m'
    rw [slice_payloadMem hin, slice_payloadMem hin]

end File

theorem imgLen_lt (pData : Nat → Byte) : (imgHdr pData).imgLen < 2 ^ 32 := by
  have hshift : ∀ k s, s ≤ 24 → (pData k).toNat <<< s < 2 ^ 32 := by
    intro k s hs
    have hbyte := (pData k).isLt
    rw [Nat.shiftLeft_eq]
    calc (pData k).toNat * 2 ^ s < 2 ^ 8 * 2 ^ s := Nat.mul_lt_mul_of_pos_right hbyte (by positivity)
      _ ≤ 2 ^ 8 * 2 ^ 24 := Nat.mul_le_mul_left _ (Nat.pow_le_pow_right (by decide) hs)
      _ = 2 ^ 32 := by decide
  have hlast : (pData 9).toNat < 2 ^ 32 := by
    have := (pData 9).isLt
    omega
  exact Nat.or_lt_two_pow (Nat.or_lt_two_pow (Nat.or_lt_two_pow (hshift 6 24 (by decide))
    (hshift 7 16 (by decide))) (hshift 8 8 (by decide))) hlast

theorem sizeOfInt_intOfSize {n : Nat} (h : n < 2 ^ 32) : sizeOfInt (intOfSize n) = n := by
  unfold sizeOfInt intOfSize
  split
  · omega
  · omega

/-! ### What a run shows -/

/-- The file holds the header and the payload it declares, and the device was handed the payload. -/
structure PayloadLoaded (file : List Byte) (record : Prog.Exchanges HbiAsk HbiReply) : Prop where
  complete : imgHdrLen + (fileHdr file).imgLen ≤ file.length
  handed : handedBytes record = filePayload file

def bootRun (outcome : Nat → HbiStatus) (fuel : Nat) (dev : HbiDev) (file : List Byte) :
    Prog.Exchanges HbiAsk HbiReply × Option (HbiDev × Int) :=
  (hbiLoadBinimageFromHost fuel dev file).run (answered outcome) []

/-- A device whose buffer held something else before. -/
def HbiDev.holding (dev : HbiDev) (m : Nat → Byte) : HbiDev :=
  { dev with hbiBuf := ⟨m, dev.hbiBuf.len⟩ }

/-- Success means that the payload was loaded, and no command carries a byte from outside the file. -/
structure BootLoadSound (dev : HbiDev) (file : List Byte) (outcome : Nat → HbiStatus) : Prop where
  loaded : ∀ fuel record dev',
    bootRun outcome fuel dev file = (record, some (dev', (HbiStatus.success.code : Int))) →
      PayloadLoaded file record
  inside : ∀ fuel m, (bootRun outcome fuel (dev.holding m) file).1 = (bootRun outcome fuel dev file).1

/-- The status after the last of `n` blocks. -/
def bootFinal (imageType : Nat) (outcome : Nat → HbiStatus) (n : Nat) : HbiStatus :=
  if imageType = imgTypeFwr then outcome n else outcome (n - 1)

def BlocksInside (file : List Byte) (size chunkLen : Nat) (outcome : Nat → HbiStatus) : Prop :=
  ∀ j, Reached size chunkLen outcome j →
    imgHdrLen + chunkOffset chunkLen j + chunkLen ≤ file.length

section Loops

variable {file : List Byte} {m : Nat → Byte} {handle size chunkLen : Nat}
  {command : List Byte → Command} {conclude : HbiStatus → Loader HbiStatus}
  {outcome final : Nat → HbiStatus} {tail : Nat → Prog.Exchanges HbiAsk HbiReply}

/-- The commands are the same whatever is behind the file exactly where the blocks lie in it. -/
theorem blocksInside_iff (m : Nat → Byte) (conclude : HbiStatus → Loader HbiStatus) (hcarries : CarriesBlock handle command)
    (hfits : ¬ (size < chunkLen ∨ chunkLen = 0)) :
    (∀ fuel m', ((wrBinLoop handle command conclude (payloadMem m' file) size chunkLen fuel 0).run
        (answered outcome) []).1
      = ((wrBinLoop handle command conclude (payloadMem m file) size chunkLen fuel 0).run
        (answered outcome) []).1)
      ↔ BlocksInside file size chunkLen outcome := by
  constructor
  · intro hsame j hreached
    apply (slice_payloadMem_iff (m := m) (by omega)).1
    intro m'
    have hget := hreached.record_get handle command conclude (payloadMem m file) hfits
      (Nat.lt_succ_self j)
    rw [← hsame (j + 1) m', hreached.record_get handle command conclude (payloadMem m' file) hfits
      (Nat.lt_succ_self j)] at hget
    have hask : (chunkExchange handle command (payloadMem m' file) chunkLen outcome j).1.block
        = (chunkExchange handle command (payloadMem m file) chunkLen outcome j).1.block :=
      congrArg (fun x : HbiAsk × HbiReply => x.1.block) (Option.some.inj hget)
    rw [chunkExchange, chunkExchange, hcarries, hcarries] at hask
    exact hask
  · intro hinside fuel m'
    rw [wrBinLoop_run_congr handle command conclude hfits fun j hreached =>
      (slice_payloadMem_iff (by omega)).2 (hinside j hreached) m']

theorem BlocksInside.ends (h : BlocksInside file size chunkLen outcome)
    (hfile : file.length ≤ hbiLnxBufMaxLen) (hchunk : 0 < chunkLen) :
    ∃ n, ¬ Reached size chunkLen outcome n := by
  by_contra hend
  have hall := not_exists_not.1 hend ((2 ^ 32 - 1) / chunkLen)
  have hlast := h _ hall
  have hle : (2 ^ 32 - 1) / chunkLen * chunkLen ≤ 2 ^ 32 - 1 := Nat.div_mul_le_self _ _
  have hnext : 2 ^ 32 - 1 < (2 ^ 32 - 1) / chunkLen * chunkLen + chunkLen :=
    Nat.lt_div_mul_add hchunk
  rw [chunkOffset_lt (by omega) (Nat.le_refl _)] at hlast
  unfold hbiLnxBufMaxLen at hfile
  omega

/-- Where the blocks lie in the file and the run came to its end, the payload is loaded if the loop
handed over all it was given. -/
theorem payloadLoaded_iff (hloop : BlockLoop handle command conclude outcome final tail)
    (hsize : (fileHdr file).imgLen = size) (hlt : size < 2 ^ 32)
    (hfits : ¬ (size < chunkLen ∨ chunkLen = 0)) (hinside : BlocksInside file size chunkLen outcome)
    {k : Nat} (h : Reached size chunkLen outcome k) (hend : size ≤ chunkOffset chunkLen (k + 1)) :
    PayloadLoaded file (chunkExchanges handle command (payloadMem m file) chunkLen outcome (k + 1)
        ++ tail (k + 1))
      ↔ handedBytes (chunkExchanges handle command (payloadMem m file) chunkLen outcome (k + 1))
          = slice (payloadMem m file) 0 size := by
  have hbytes : handedBytes (chunkExchanges handle command (payloadMem m file) chunkLen outcome (k + 1)
        ++ tail (k + 1))
      = handedBytes (chunkExchanges handle command (payloadMem m file) chunkLen outcome (k + 1)) := by
    rw [handedBytes_append, hloop.silent, List.append_nil]
  have hpayload : imgHdrLen + size ≤ file.length →
      slice (payloadMem m file) 0 size = (file.drop imgHdrLen).take size := by
    intro hle
    exact slice_payloadMem (by omega)
  constructor
  · intro hboth
    obtain ⟨hcomplete, hhanded⟩ := hboth
    rw [hsize] at hcomplete
    rw [← hbytes, hhanded, hpayload hcomplete, filePayload, hsize]
  · intro hhanded
    obtain ⟨hdvd, -⟩ := (h.handed_iff hloop.carries hlt hfits hend).1 hhanded
    have hchunk : 0 < chunkLen := by omega
    have hfull : size / chunkLen * chunkLen = size := Nat.div_mul_cancel hdvd
    have hall := h.end_unique hend
      (endsAfter_of_eq hchunk (Nat.div_pos (by omega) hchunk) hfull hlt)
    have hlast := hinside k h
    rw [hall] at hfull
    rw [chunkOffset_lt (n := k + 1) (by omega) (by omega)] at hlast
    rw [Nat.succ_mul] at hfull
    have hcomplete : imgHdrLen + size ≤ file.length := by omega
    constructor
    · rw [hsize]
      exact hcomplete
    · rw [hbytes, hhanded, hpayload hcomplete, filePayload, hsize]

end Loops

/-! ### The exits before the loops, and the loops -/

section Exits

variable {file : List Byte} {dev : HbiDev} {outcome : Nat → HbiStatus}

theorem bootRun_noFile (h : file.length > hbiLnxBufMaxLen ∨ file.length = 0) (fuel : Nat) :
    bootRun outcome fuel dev file
      = ([], some ({ dev with hbiBuf := dev.hbiBuf.memset }, -1)) := by
  rw [bootRun, hbiLoadBinimageFromHost, if_pos h]
  rfl

theorem bootRun_noHeader (hfile : ¬ (file.length > hbiLnxBufMaxLen ∨ file.length = 0))
    (h : file.length < imgHdrLen) (fuel : Nat) :
    bootRun outcome fuel dev file
      = ([], some ({ dev with hbiBuf := ⟨overlay dev.hbiBuf.buf 0 file, file.length⟩ }, -1)) := by
  rw [bootRun, hbiLoadBinimageFromHost, if_neg hfile]
  dsimp only
  rw [internalHbiGetHdr, if_pos h]
  rfl

variable (hfile : ¬ (file.length > hbiLnxBufMaxLen ∨ file.length = 0)) (hhdr : imgHdrLen ≤ file.length)
include hfile hhdr

theorem bootRun_short (hshort : (file.length : Int) < intOfSize (fileHdr file).imgLen) (fuel : Nat) :
    bootRun outcome fuel dev file
      = ([], some ({ dev with hbiBuf := ⟨overlay dev.hbiBuf.buf 0 file, file.length⟩ },
          (file.length : Int))) := by
  rw [bootRun, hbiLoadBinimageFromHost, if_neg hfile]
  dsimp only
  rw [internalHbiGetHdr, if_neg (by omega), imgHdr_overlay hhdr]
  dsimp only
  rw [if_pos hshort]
  rfl

/-- The result of a run by the status of the loop. -/
def bootResult (dev : HbiDev) (file : List Byte) (status : HbiStatus) : HbiDev × Int :=
  ({ dev with hbiBuf := HbiLnxBuf.memset ⟨overlay dev.hbiBuf.buf 0 file, file.length⟩ },
    if status ≠ .success then -1 else status.code)

theorem bootRun_loop (hshort : ¬ (file.length : Int) < intOfSize (fileHdr file).imgLen) (fuel : Nat) :
    bootRun outcome fuel dev file
      = ((writeBootImage fuel dev.hbiHandle (fileHdr file).imageType (payloadMem dev.hbiBuf.buf file)
          (fileHdr file).imgLen (fileHdr file).blockSize).run (answered outcome) []).map id
            (Option.map (bootResult dev file)) := by
  rw [bootRun, hbiLoadBinimageFromHost, if_neg hfile]
  dsimp only
  rw [internalHbiGetHdr, if_neg (by omega), imgHdr_overlay hhdr]
  dsimp only
  have hlen : sizeOfInt (intOfSize (fileHdr file).imgLen) = (fileHdr file).imgLen :=
    sizeOfInt_intOfSize (imgLen_lt _)
  rw [if_neg hshort, Prog.run_bind, hlen]
  rfl

end Exits

theorem bootResult_success (dev : HbiDev) (file : List Byte) (status : HbiStatus) :
    (bootResult dev file status).2 = (HbiStatus.success.code : Int) ↔ status = .success := by
  unfold bootResult
  by_cases hsuccess : status = .success
  · simp [hsuccess]
  · simp [hsuccess, HbiStatus.code]

theorem exists_blockLoop (handle imageType : Nat) (outcome : Nat → HbiStatus)
    (htype : imageType = imgTypeFwr ∨ imageType = imgTypeCr) :
    ∃ command conclude tail,
      BlockLoop handle command conclude outcome (bootFinal imageType outcome) tail ∧
        ∀ fuel buf size blockSize, writeBootImage fuel handle imageType buf size blockSize
          = wrBinLoop handle command conclude buf size (blockSize <<< 1 % 2 ^ 32) fuel 0 := by
  rcases htype with rfl | rfl
  · refine ⟨.firmware, completeFw handle, fwTail handle outcome, blockLoop_fw handle outcome, ?_⟩
    intro fuel buf size blockSize
    exact wrBinFwLoop_eq_wrBinLoop handle buf size _ fuel 0
  · refine ⟨.cfgrec, completeCfg, fun _ => [], ⟨fun _ => rfl, ?_, fun _ => rfl⟩, ?_⟩
    · intro k done _
      rw [List.append_nil]
      rfl
    · intro fuel buf size blockSize
      rfl

/-! ### When it is sound -/

/-- When the loader is sound on a file: it refuses the file before a block and with another status than
success, or every block it comes to lies in the file and the loop fails or sends what it is given. -/
def BootLoads (file : List Byte) (outcome : Nat → HbiStatus) : Prop :=
  let hdr := fileHdr file
  let chunkLen := hdr.blockSize <<< 1 % 2 ^ 32
  (file.length > hbiLnxBufMaxLen ∨ file.length < imgHdrLen) ∨
    if (file.length : Int) < intOfSize hdr.imgLen then file.length ≠ HbiStatus.success.code
    else (hdr.imageType ≠ imgTypeFwr ∧ hdr.imageType ≠ imgTypeCr) ∨
      (hdr.imgLen < chunkLen ∨ chunkLen = 0) ∨
      BlocksInside file hdr.imgLen chunkLen outcome ∧
        WrBinSends hdr.imgLen chunkLen outcome (bootFinal hdr.imageType outcome)

section Sound

variable {file : List Byte} {dev : HbiDev} {outcome : Nat → HbiStatus}

/-- A run that sends nothing and does not return success. -/
def Refuses (run : Prog.Exchanges HbiAsk HbiReply × Option (HbiDev × Int)) : Prop :=
  run.1 = [] ∧ ∀ result ∈ run.2, result.2 ≠ (HbiStatus.success.code : Int)

theorem bootLoadSound_of_refuses (h : ∀ fuel m, Refuses (bootRun outcome fuel (dev.holding m) file)) :
    BootLoadSound dev file outcome where
  loaded := by
    intro fuel record dev' hrun
    have hrefused : Refuses (bootRun outcome fuel dev file) := h fuel dev.hbiBuf.buf
    rw [hrun] at hrefused
    exact absurd rfl (hrefused.2 _ rfl)
  inside := by
    intro fuel m
    have hrefused : Refuses (bootRun outcome fuel dev file) := h fuel dev.hbiBuf.buf
    rw [(h fuel m).1, hrefused.1]

theorem refuses_of_eq {run : Prog.Exchanges HbiAsk HbiReply × Option (HbiDev × Int)} {dev : HbiDev}
    {code : Int} (h : run = ([], some (dev, code))) (hcode : code ≠ (HbiStatus.success.code : Int)) :
    Refuses run := by
  rw [h]
  refine ⟨rfl, ?_⟩
  intro result hresult
  rw [← Option.some.inj hresult]
  exact hcode

theorem bootLoadSound_loop {size chunkLen : Nat} {command : List Byte → Command}
    {conclude : HbiStatus → Loader HbiStatus} {final : Nat → HbiStatus}
    {tail : Nat → Prog.Exchanges HbiAsk HbiReply}
    (hloop : BlockLoop dev.hbiHandle command conclude outcome final tail)
    (hrun : ∀ fuel m, bootRun outcome fuel (dev.holding m) file
      = ((wrBinLoop dev.hbiHandle command conclude (payloadMem m file) size chunkLen fuel 0).run
          (answered outcome) []).map id (Option.map (bootResult (dev.holding m) file)))
    (hfile : file.length ≤ hbiLnxBufMaxLen) (hsize : (fileHdr file).imgLen = size)
    (hfits : ¬ (size < chunkLen ∨ chunkLen = 0)) :
    BootLoadSound dev file outcome
      ↔ BlocksInside file size chunkLen outcome ∧ WrBinSends size chunkLen outcome final := by
  have hlt : size < 2 ^ 32 := by
    rw [← hsize]
    exact imgLen_lt _
  have hdev := fun fuel => hrun fuel dev.hbiBuf.buf
  have hlast : BlocksInside file size chunkLen outcome → ∀ fuel k,
      Reached size chunkLen outcome k → ¬ Reached size chunkLen outcome (k + 1) →
      ∃ record status, bootRun outcome (fuel + 1 + k) dev file
          = (record, some (bootResult dev file status)) ∧
        ((status ≠ .success ∨ PayloadLoaded file record) ↔ WrBinSends size chunkLen outcome final) := by
    intro hinside fuel k hreached hstop
    obtain ⟨more, status, hloopRun, hiff⟩ := hloop.last_sends
      (payloadMem dev.hbiBuf.buf file) (PayloadLoaded file) hlt hfits hreached hstop
      (fun hend _ => payloadLoaded_iff hloop hsize hlt hfits hinside hreached hend) fuel
    refine ⟨_, status, ?_, hiff⟩
    exact (hdev _).trans (congrArg _ hloopRun)
  constructor
  · intro hsound
    have hinside : BlocksInside file size chunkLen outcome := by
      apply (blocksInside_iff dev.hbiBuf.buf conclude hloop.carries hfits).1
      intro fuel m'
      have hsame := hsound.inside fuel m'
      rw [hrun fuel m'] at hsame
      exact hsame.trans (congrArg Prod.fst (hdev fuel))
    obtain ⟨n, hn⟩ := hinside.ends hfile (by omega)
    obtain ⟨k, -, hbefore, hstop⟩ := exists_last_turn hn
    obtain ⟨record, status, hboot, hiff⟩ := hlast hinside 0 k hbefore hstop
    refine ⟨hinside, hiff.1 ?_⟩
    by_cases hsuccess : status = .success
    · apply Or.inr
      apply hsound.loaded _ record (bootResult dev file status).1
      rw [hboot, ← (bootResult_success dev file status).2 hsuccess]
    · exact Or.inl hsuccess
  · intro hboth
    obtain ⟨hinside, hsends⟩ := hboth
    constructor
    · intro fuel record dev' hboot
      by_cases hreached : Reached size chunkLen outcome fuel
      · have hnone := (hdev fuel).symm.trans hboot
        rw [hreached.run_none dev.hbiHandle command conclude _ hfits] at hnone
        exact absurd (congrArg Prod.snd hnone) (by simp)
      · obtain ⟨k, hk, hbefore, hstop⟩ := exists_last_turn hreached
        obtain ⟨record', status, hboot', hiff⟩ := hlast hinside (fuel - k - 1) k hbefore hstop
        rw [show fuel - k - 1 + 1 + k = fuel by omega, hboot] at hboot'
        obtain ⟨rfl, hresult⟩ := Prod.mk.inj hboot'
        have hsuccess : status = .success := by
          apply (bootResult_success dev file status).1
          rw [← Option.some.inj hresult]
        exact (hiff.2 hsends).resolve_left (not_not.2 hsuccess)
    · intro fuel m
      rw [hrun fuel m]
      refine Eq.trans ?_ (congrArg Prod.fst (hdev fuel)).symm
      exact (blocksInside_iff dev.hbiBuf.buf conclude hloop.carries hfits).2 hinside fuel m

theorem refuses_noFit {size chunkLen : Nat} {command : List Byte → Command}
    {conclude : HbiStatus → Loader HbiStatus} (hfits : size < chunkLen ∨ chunkLen = 0)
    (fuel : Nat) (buf : Nat → Byte) :
    Refuses (((wrBinLoop dev.hbiHandle command conclude buf size chunkLen fuel 0).run
      (answered outcome) []).map id (Option.map (bootResult dev file))) := by
  cases fuel with
  | zero =>
      refine ⟨rfl, ?_⟩
      intro result hresult
      cases hresult
  | succ fuel =>
      rw [wrBinLoop, if_pos hfits]
      exact refuses_of_eq rfl (by decide)

section Header

variable (hfile : ¬ (file.length > hbiLnxBufMaxLen ∨ file.length = 0)) (hhdr : imgHdrLen ≤ file.length)
include hfile hhdr

/-- A file shorter than its length field: the exit returns the length of the file. -/
theorem bootLoadSound_short (hshort : (file.length : Int) < intOfSize (fileHdr file).imgLen) :
    BootLoadSound dev file outcome ↔ file.length ≠ HbiStatus.success.code := by
  constructor
  · intro hsound hlen
    have hrun : bootRun outcome 0 dev file = _ := bootRun_short hfile hhdr hshort 0
    rw [hlen] at hrun
    have hcomplete := (hsound.loaded 0 _ _ hrun).complete
    have hless : file.length < (fileHdr file).imgLen := by
      unfold intOfSize at hshort
      split at hshort
      · omega
      · omega
    omega
  · intro hlen
    apply bootLoadSound_of_refuses
    intro fuel m
    exact refuses_of_eq (bootRun_short hfile hhdr hshort fuel) (by exact_mod_cast hlen)

theorem bootLoadSound_write (hshort : ¬ (file.length : Int) < intOfSize (fileHdr file).imgLen) :
    BootLoadSound dev file outcome ↔
      ((fileHdr file).imageType ≠ imgTypeFwr ∧ (fileHdr file).imageType ≠ imgTypeCr) ∨
      ((fileHdr file).imgLen < (fileHdr file).blockSize <<< 1 % 2 ^ 32 ∨
        (fileHdr file).blockSize <<< 1 % 2 ^ 32 = 0) ∨
      BlocksInside file (fileHdr file).imgLen ((fileHdr file).blockSize <<< 1 % 2 ^ 32) outcome ∧
        WrBinSends (fileHdr file).imgLen ((fileHdr file).blockSize <<< 1 % 2 ^ 32) outcome
          (bootFinal (fileHdr file).imageType outcome) := by
  have hrun : ∀ fuel m, bootRun outcome fuel (dev.holding m) file
      = ((writeBootImage fuel dev.hbiHandle (fileHdr file).imageType (payloadMem m file)
          (fileHdr file).imgLen (fileHdr file).blockSize).run (answered outcome) []).map id
            (Option.map (bootResult (dev.holding m) file)) :=
    fun fuel m => bootRun_loop hfile hhdr hshort fuel
  by_cases htype : (fileHdr file).imageType = imgTypeFwr ∨ (fileHdr file).imageType = imgTypeCr
  · have hknown : ¬ ((fileHdr file).imageType ≠ imgTypeFwr ∧ (fileHdr file).imageType ≠ imgTypeCr) := by
      tauto
    obtain ⟨command, conclude, tail, hloop, hwrite⟩ :=
      exists_blockLoop dev.hbiHandle (fileHdr file).imageType outcome htype
    rw [or_iff_right hknown]
    simp only [hwrite] at hrun
    by_cases hfits : (fileHdr file).imgLen < (fileHdr file).blockSize <<< 1 % 2 ^ 32 ∨
        (fileHdr file).blockSize <<< 1 % 2 ^ 32 = 0
    · have hrefused : BootLoadSound dev file outcome := by
        apply bootLoadSound_of_refuses
        intro fuel m
        rw [hrun fuel m]
        exact refuses_noFit hfits fuel _
      exact iff_of_true hrefused (Or.inl hfits)
    · rw [or_iff_right hfits]
      exact bootLoadSound_loop hloop hrun (by omega) rfl hfits
  · have hunknown : (fileHdr file).imageType ≠ imgTypeFwr ∧ (fileHdr file).imageType ≠ imgTypeCr := by
      tauto
    have hrefused : BootLoadSound dev file outcome := by
      apply bootLoadSound_of_refuses
      intro fuel m
      rw [hrun fuel m, writeBootImage, if_neg hunknown.1, if_neg hunknown.2]
      exact refuses_of_eq rfl (by decide)
    exact iff_of_true hrefused (Or.inl hunknown)

end Header

end Sound

/-- The loader is sound exactly on the files it refuses in time, and on those whose blocks, as far as
the loop comes to them, lie in the file and are sent in full or fail. -/
theorem hbiLoadBinimageFromHost_sound_iff (dev : HbiDev) (file : List Byte)
    (outcome : Nat → HbiStatus) : BootLoadSound dev file outcome ↔ BootLoads file outcome := by
  unfold BootLoads
  dsimp only
  by_cases hnone : file.length > hbiLnxBufMaxLen ∨ file.length = 0
  · have hrefused : BootLoadSound dev file outcome := by
      apply bootLoadSound_of_refuses
      intro fuel m
      exact refuses_of_eq (bootRun_noFile hnone fuel) (by decide)
    have hfile : file.length > hbiLnxBufMaxLen ∨ file.length < imgHdrLen := by
      rcases hnone with hlarge | hempty
      · exact Or.inl hlarge
      · rw [hempty]
        exact Or.inr (by decide)
    exact iff_of_true hrefused (Or.inl hfile)
  by_cases hhdr : file.length < imgHdrLen
  · have hrefused : BootLoadSound dev file outcome := by
      apply bootLoadSound_of_refuses
      intro fuel m
      exact refuses_of_eq (bootRun_noHeader hnone hhdr fuel) (by decide)
    exact iff_of_true hrefused (Or.inl (Or.inr hhdr))
  have hhdr : imgHdrLen ≤ file.length := by omega
  have hfile : ¬ (file.length > hbiLnxBufMaxLen ∨ file.length < imgHdrLen) := by omega
  rw [or_iff_right hfile]
  by_cases hshort : (file.length : Int) < intOfSize (fileHdr file).imgLen
  · rw [if_pos hshort]
    exact bootLoadSound_short hnone hhdr hshort
  · rw [if_neg hshort]
    exact bootLoadSound_write hnone hhdr hshort

def bootDevice : HbiDev := ⟨5, ⟨fun _ => 0, 0⟩⟩

def headerOnly : List Byte := [0x40, 0, 0x50, 0x40, 0, 1, 0, 0, 0, 13, 0, 0]

/-- A payload of four bytes, of which the file holds two. -/
def cutPayload : List Byte := [0x40, 0, 0x50, 0x40, 0, 1, 0, 0, 0, 4, 0, 0, 1, 2]

/-- A header alone is reported as loaded, since its length is the number of the success status. A cut
payload is completed with what the buffer held before. -/
theorem hbiLoadBinimageFromHost_unsound :
    ¬ BootLoadSound bootDevice headerOnly (fun _ => .success) ∧
      handedBytes (bootRun (fun _ => .success) 2 (bootDevice.holding fun _ => 7) cutPayload).1
        = [1, 2, 7, 7] ∧
      ¬ BootLoadSound bootDevice cutPayload (fun _ => .success) := by
  refine ⟨?_, by decide, ?_⟩
  · intro hsound
    have hcomplete := (hsound.loaded 0 _ _ rfl).complete
    exact absurd hcomplete (by decide)
  · intro hsound
    have hsame := congrArg handedBytes (hsound.inside 2 fun _ => 7)
    exact absurd hsame (by decide)

end VprocSdk
