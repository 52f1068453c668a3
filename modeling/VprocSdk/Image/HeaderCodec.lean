import VprocSdk.Converter.Config
import VprocSdk.Converter.History
import VprocSdk.Image.Header

/-!
# The header of an image, written and read

One layout, given by the shifts and the indexes of the decoders, an encoder in the converter, and two
decoders, that of the kernel driver and that of the user-space library. A decoder shifts a byte without
masking it, so a field is read with the fields above it; the user-space one sets two fields only for a
firmware image; and a total length passes through `int` before it becomes a `size_t`.

A field of the structure is a number: an `int` is given by its bits, a `size_t` has `sizeBits` bits.
-/

namespace VprocSdk

open Lib

/-! ### The decoders -/

/-- A byte, promoted to `int` and shifted. -/
def intByte (b : Byte) (shift : Nat) : BitVec 32 := b.setWidth 32 <<< shift

/-- `img_len`: each `int` is converted to `size_t` when it is assigned or or-ed in. -/
def totalLen (sizeBits : Nat) (pData : Nat → Byte) : BitVec sizeBits :=
  (intByte (pData 6) 24).signExtend sizeBits ||| (intByte (pData 7) 16).signExtend sizeBits |||
    (intByte (pData 8) 8).signExtend sizeBits ||| (intByte (pData 9) 0).signExtend sizeBits

/-- `internal_hbi_get_hdr` of the kernel driver. -/
def kernelGetHdr (sizeBits : Nat) (pData : Nat → Byte) (size : Nat) (pHdr : HbiImgHdr) :
    HbiStatus × HbiImgHdr :=
  if size < imgHdrLen then (.invalidArg, pHdr)
  else (.success, { imgHdr pData with imgLen := (totalLen sizeBits pData).toNat })

/-- `internal_hbi_get_hdr` of the user-space library. -/
def userGetHdr (sizeBits : Nat) (pData : Nat → Byte) (size : Nat) (pHdr : HbiImgHdr) :
    HbiStatus × HbiImgHdr :=
  if size < imgHdrLen then (.invalidArg, pHdr)
  else
    let imageType := (pData 1).toNat >>> 6
    (.success,
      { imgHdr pData with
        imageType
        endianness := if imageType = imgTypeFwr then (pData 1).toNat >>> 5 else pHdr.endianness
        fwrCode := if imageType = imgTypeFwr then (pData 2).toNat <<< 8 ||| (pData 3).toNat
          else pHdr.fwrCode
        imgLen := (totalLen sizeBits pData).toNat })

/-- Both decoders read these bytes as that header, whatever the structure holds before. -/
def ReadsAs (sizeBits : Nat) (bytes : List Byte) (hdr : HbiImgHdr) : Prop :=
  ∀ pHdr, kernelGetHdr sizeBits (listMem bytes) bytes.length pHdr = (.success, hdr) ∧
    userGetHdr sizeBits (listMem bytes) bytes.length pHdr = (.success, hdr)

/-! ### The layout -/

structure HdrFields where
  majorVer : BitVec 2
  minorVer : BitVec 2
  imageType : BitVec 2
  endianness : BitVec 1
  fwrCode : BitVec 16
  blockSize : BitVec 16
  imgLen : BitVec 32
  deriving DecidableEq, Repr

namespace HdrFields

def encode (f : HdrFields) : List Byte :=
  [f.majorVer ++ f.minorVer ++ 0#4, f.imageType ++ f.endianness ++ 0#5,
    f.fwrCode.extractLsb' 8 8, f.fwrCode.extractLsb' 0 8,
    f.blockSize.extractLsb' 8 8, f.blockSize.extractLsb' 0 8,
    f.imgLen.extractLsb' 24 8, f.imgLen.extractLsb' 16 8, f.imgLen.extractLsb' 8 8,
    f.imgLen.extractLsb' 0 8, 0, 0]

def hdr (f : HdrFields) : HbiImgHdr where
  majorVer := f.majorVer.toNat
  minorVer := f.minorVer.toNat
  imageType := f.imageType.toNat
  endianness := f.endianness.toNat
  fwrCode := f.fwrCode.toNat
  blockSize := f.blockSize.toNat
  imgLen := f.imgLen.toNat
  hdrLen := imgHdrLen

@[simp] theorem encode_length (f : HdrFields) : f.encode.length = imgHdrLen := rfl

end HdrFields

theorem versionByte_decode : ∀ major minor : BitVec 2,
    (major ++ minor ++ 0#4 : Byte).toNat >>> 6 = major.toNat ∧
      (major ++ minor ++ 0#4 : Byte).toNat >>> 4 = 4 * major.toNat + minor.toNat := by
  decide

theorem formatByte_decode : ∀ (imageType : BitVec 2) (endianness : BitVec 1),
    (imageType ++ endianness ++ 0#5 : Byte).toNat >>> 6 = imageType.toNat ∧
      (imageType ++ endianness ++ 0#5 : Byte).toNat >>> 5 = 2 * imageType.toNat + endianness.toNat := by
  decide

theorem halves_decode (x : BitVec 16) :
    (x.extractLsb' 8 8).toNat <<< 8 ||| (x.extractLsb' 0 8).toNat = x.toNat := by
  rw [BitVec.extractLsb'_toNat, BitVec.extractLsb'_toNat, ← Nat.shiftLeft_add_eq_or_of_lt (by omega),
    Nat.shiftLeft_eq, Nat.shiftRight_eq_div_pow, Nat.shiftRight_zero]
  omega

theorem intBytes_decode (x : BitVec 32) :
    intByte (x.extractLsb' 24 8) 24 ||| intByte (x.extractLsb' 16 8) 16 |||
      intByte (x.extractLsb' 8 8) 8 ||| intByte (x.extractLsb' 0 8) 0 = x := by
  ext i hi
  simp [intByte]
  grind

theorem totalLen_decode {sizeBits : Nat} {pData : Nat → Byte} (x : BitVec 32)
    (h6 : pData 6 = x.extractLsb' 24 8) (h7 : pData 7 = x.extractLsb' 16 8)
    (h8 : pData 8 = x.extractLsb' 8 8) (h9 : pData 9 = x.extractLsb' 0 8) :
    totalLen sizeBits pData = x.signExtend sizeBits := by
  rw [totalLen, h6, h7, h8, h9, ← BitVec.signExtend_or, ← BitVec.signExtend_or, ← BitVec.signExtend_or,
    intBytes_decode]

/-- A total length survives the conversion unless its sign is spread over more bits. -/
theorem signExtend_eq_iff {sizeBits : Nat} (hsize : 32 ≤ sizeBits) (x : BitVec 32) :
    (x.signExtend sizeBits).toNat = x.toNat ↔ sizeBits = 32 ∨ x.toNat < 2 ^ 31 := by
  have hlt := x.isLt
  have hpow : 2 ^ 32 ≤ 2 ^ sizeBits := Nat.pow_le_pow_right (by decide) hsize
  have hsame : x.toNat % 2 ^ sizeBits = x.toNat := Nat.mod_eq_of_lt (by omega)
  have hwide : 2 ^ 32 < 2 ^ sizeBits ↔ 32 < sizeBits := Nat.pow_lt_pow_iff_right (by decide)
  rw [BitVec.toNat_signExtend, BitVec.toNat_setWidth, hsame, BitVec.msb_eq_decide]
  by_cases hsmall : x.toNat < 2 ^ 31
  · have hmsb : decide (2 ^ (32 - 1) ≤ x.toNat) = false := decide_eq_false (by omega)
    rw [hmsb]
    exact iff_of_true rfl (.inr hsmall)
  · have hmsb : decide (2 ^ (32 - 1) ≤ x.toNat) = true := decide_eq_true (by omega)
    rw [hmsb, if_pos rfl]
    omega

namespace HdrFields

variable {sizeBits : Nat} (f : HdrFields) (rest : List Byte)

def decoded (sizeBits : Nat) (f : HdrFields) : HbiImgHdr where
  majorVer := f.majorVer.toNat
  minorVer := 4 * f.majorVer.toNat + f.minorVer.toNat
  imageType := f.imageType.toNat
  endianness := 2 * f.imageType.toNat + f.endianness.toNat
  fwrCode := f.fwrCode.toNat
  blockSize := f.blockSize.toNat
  imgLen := (f.imgLen.signExtend sizeBits).toNat
  hdrLen := imgHdrLen

theorem decoded_eq : { imgHdr (listMem (f.encode ++ rest)) with
    imgLen := (totalLen sizeBits (listMem (f.encode ++ rest))).toNat } = f.decoded sizeBits := by
  obtain ⟨hmajor, hminor⟩ := versionByte_decode f.majorVer f.minorVer
  obtain ⟨htype, hendian⟩ := formatByte_decode f.imageType f.endianness
  have hlen : totalLen sizeBits (listMem (f.encode ++ rest)) = f.imgLen.signExtend sizeBits :=
    totalLen_decode f.imgLen rfl rfl rfl rfl
  rw [hlen, decoded, HbiImgHdr.mk.injEq]
  exact ⟨hmajor, hminor, htype, hendian, halves_decode f.fwrCode, halves_decode f.blockSize, rfl, rfl⟩

theorem not_short : ¬ (f.encode ++ rest).length < imgHdrLen := by
  rw [List.length_append, encode_length]
  omega

theorem kernelGetHdr_encode (pHdr : HbiImgHdr) :
    kernelGetHdr sizeBits (listMem (f.encode ++ rest)) (f.encode ++ rest).length pHdr
      = (.success, f.decoded sizeBits) := by
  rw [kernelGetHdr, if_neg (f.not_short rest), decoded_eq]

theorem userGetHdr_encode (hfwr : f.imageType = 0) (pHdr : HbiImgHdr) :
    userGetHdr sizeBits (listMem (f.encode ++ rest)) (f.encode ++ rest).length pHdr
      = (.success, f.decoded sizeBits) := by
  have htype : (listMem (f.encode ++ rest) 1).toNat >>> 6 = imgTypeFwr := by
    show (f.imageType ++ f.endianness ++ 0#5 : Byte).toNat >>> 6 = imgTypeFwr
    rw [(formatByte_decode f.imageType f.endianness).1, hfwr]
    rfl
  rw [userGetHdr, if_neg (f.not_short rest), ← decoded_eq f rest]
  dsimp only
  rw [if_pos htype, if_pos htype]
  rfl

/-- An encoded header is read back when the bits above each field are zero. -/
theorem readsAs_iff (hsize : 32 ≤ sizeBits) : ReadsAs sizeBits (f.encode ++ rest) f.hdr ↔
    f.majorVer = 0 ∧ f.imageType = 0 ∧ (sizeBits = 32 ∨ f.imgLen.toNat < 2 ^ 31) := by
  have hlen := signExtend_eq_iff hsize f.imgLen
  constructor
  · intro h
    have hkernel := (h f.hdr).1
    rw [kernelGetHdr_encode] at hkernel
    have hfields := (Prod.mk.inj hkernel).2
    rw [decoded, hdr, HbiImgHdr.mk.injEq] at hfields
    obtain ⟨-, hminor, -, hendian, -, -, himg, -⟩ := hfields
    refine ⟨BitVec.eq_of_toNat_eq ?_, BitVec.eq_of_toNat_eq ?_, hlen.1 himg⟩
    · show f.majorVer.toNat = 0
      omega
    · show f.imageType.toNat = 0
      omega
  · intro hboth pHdr
    obtain ⟨hmajor, hfwr, himg⟩ := hboth
    have hdecoded : f.decoded sizeBits = f.hdr := by
      rw [decoded, hdr, HbiImgHdr.mk.injEq, hmajor, hfwr]
      exact ⟨rfl, Nat.zero_add _, rfl, Nat.zero_add _, rfl, rfl, hlen.2 himg, rfl⟩
    rw [kernelGetHdr_encode, userGetHdr_encode f rest hfwr, hdecoded]
    exact ⟨rfl, rfl⟩

end HdrFields

theorem kernelGetHdr_eq {pData : Nat → Byte} {size : Nat} (pHdr : HbiImgHdr) :
    internalHbiGetHdr pData size = if (kernelGetHdr 32 pData size pHdr).1 = .success
      then .ok (kernelGetHdr 32 pData size pHdr).2 else .error (kernelGetHdr 32 pData size pHdr).1 := by
  have hbyte : ∀ (b : Byte) (shift : Nat), shift ≤ 24 →
      ((intByte b shift).signExtend 32).toNat = b.toNat <<< shift := by
    intro b shift hshift
    have hb : b.toNat <<< shift < 2 ^ 32 := by
      rw [Nat.shiftLeft_eq]
      calc b.toNat * 2 ^ shift < 2 ^ 8 * 2 ^ shift := Nat.mul_lt_mul_of_pos_right b.isLt (Nat.two_pow_pos _)
        _ = 2 ^ (8 + shift) := (Nat.pow_add 2 8 shift).symm
        _ ≤ 2 ^ 32 := Nat.pow_le_pow_right (by decide) (by omega)
    rw [BitVec.signExtend_eq, intByte, BitVec.toNat_shiftLeft, BitVec.toNat_setWidth,
      Nat.mod_eq_of_lt (by omega : b.toNat < 2 ^ 32), Nat.mod_eq_of_lt hb]
  have hlen : (totalLen 32 pData).toNat = (imgHdr pData).imgLen := by
    rw [totalLen, BitVec.toNat_or, BitVec.toNat_or, BitVec.toNat_or, hbyte _ 24 (by decide),
      hbyte _ 16 (by decide), hbyte _ 8 (by decide), hbyte _ 0 (by decide), Nat.shiftLeft_zero]
    rfl
  unfold internalHbiGetHdr kernelGetHdr
  split
  · rfl
  · rw [if_pos rfl, hlen]

/-! ### The headers of the converter -/

/-- An element of `array("B")`. -/
def byteOf (x : Int) : Byte := BitVec.ofInt 8 x

/-- The fields the converter writes: the firmware code and the length as far as their bytes hold them. -/
def converterFields (imageType : BitVec 2) (fwOpn blockSize : Int) (outListLen : Nat) : HdrFields where
  majorVer := 0
  minorVer := 0
  imageType := imageType
  endianness := 0
  fwrCode := BitVec.ofInt 16 fwOpn
  blockSize := BitVec.ofInt 16 blockSize
  imgLen := BitVec.ofNat 32 outListLen

theorem byteOf_halves (x : Int) : byteOf (x / 2 ^ 8 % 0x100) = (BitVec.ofInt 16 x).extractLsb' 8 8 ∧
    byteOf (x % 0x100) = (BitVec.ofInt 16 x).extractLsb' 0 8 := by
  constructor
  all_goals
    apply BitVec.eq_of_toNat_eq
    rw [byteOf, BitVec.toNat_ofInt, BitVec.extractLsb'_toNat, BitVec.toNat_ofInt, Nat.shiftRight_eq_div_pow]
    omega

theorem byteOf_quarters (n : Nat) :
    byteOf ((n : Int) / 2 ^ 24 % 0x100) = (BitVec.ofNat 32 n).extractLsb' 24 8 ∧
      byteOf ((n : Int) / 2 ^ 16 % 0x100) = (BitVec.ofNat 32 n).extractLsb' 16 8 ∧
      byteOf ((n : Int) / 2 ^ 8 % 0x100) = (BitVec.ofNat 32 n).extractLsb' 8 8 ∧
      byteOf ((n : Int) % 0x100) = (BitVec.ofNat 32 n).extractLsb' 0 8 := by
  refine ⟨?_, ?_, ?_, ?_⟩
  all_goals
    apply BitVec.eq_of_toNat_eq
    rw [byteOf, BitVec.toNat_ofInt, BitVec.extractLsb'_toNat, BitVec.toNat_ofNat, Nat.shiftRight_eq_div_pow]
    omega

theorem byteOf_format : ∀ imageType : BitVec 2,
    byteOf (imageType.toNat * 0x40 : Int) = imageType ++ (0 : BitVec 1) ++ 0#5 := by
  decide

theorem imageHeader_encode {fwOpn blockSize : Int} (imageType : BitVec 2) (outListLen : Nat)
    (hblock : HbiCmd.IsByte blockSize) :
    (imageHeader (imageType.toNat * 0x40) fwOpn blockSize outListLen).map byteOf
      = (converterFields imageType fwOpn blockSize outListLen).encode := by
  obtain ⟨hcodeHigh, hcodeLow⟩ := byteOf_halves fwOpn
  obtain ⟨hblockHigh, hblockLow⟩ := byteOf_halves blockSize
  obtain ⟨h3, h2, h1, h0⟩ := byteOf_quarters outListLen
  obtain ⟨hlow, hhigh⟩ := hblock
  have hzero : blockSize / 2 ^ 8 % 0x100 = 0 := by omega
  have hsame : blockSize % 0x100 = blockSize := by omega
  rw [hzero] at hblockHigh
  rw [hsame] at hblockLow
  simp only [imageHeader, HdrFields.encode, converterFields, List.map_cons, List.map_nil, byteOf_format,
    hcodeHigh, hcodeLow, ← hblockHigh, hblockLow, h3, h2, h1, h0]
  rfl

theorem arrayB_inv {xs image : List Int} (h : arrayB xs = .ok image) :
    image = xs ∧ ∀ b ∈ xs, HbiCmd.IsByte b := by
  unfold arrayB at h
  split at h
  · rename_i hall
    rw [List.all_eq_true] at hall
    refine ⟨(Except.ok.inj h).symm, ?_⟩
    intro b hb
    have hrange : 0 ≤ b ∧ b ≤ 0xFF := of_decide_eq_true (hall b hb)
    exact hrange
  · cases h

/-- A header and the payload it counts. -/
def HasHeader (imageType fwOpn blockSize : Int) (image : List Int) : Prop :=
  ∃ out : List Int, image = imageHeader imageType fwOpn blockSize out.length ++ out ∧
    HbiCmd.IsByte blockSize

theorem hasHeader_of_arrayB {imageType fwOpn blockSize : Int} {out image : List Int}
    (h : arrayB (imageHeader imageType fwOpn blockSize out.length ++ out) = .ok image) :
    HasHeader imageType fwOpn blockSize image := by
  obtain ⟨rfl, hbytes⟩ := arrayB_inv h
  exact ⟨out, rfl, hbytes blockSize (by simp [imageHeader])⟩

theorem generateFwLines_header {fuel : Nat} {bufferList : List (List Char)} {fwOpn blockSize : Int}
    {globals globals' : ConverterGlobals} {image : List Int}
    (h : generateFwLines fuel bufferList fwOpn blockSize globals = some (.ok image, globals'))
    (hne : image ≠ []) : HasHeader imgHdrFirmware fwOpn blockSize image := by
  unfold generateFwLines at h
  split at h
  · cases h
  · split at h
    · cases h
      exact absurd rfl hne
    · split at h
      · cases h
      · obtain ⟨⟨segBlocks, g⟩, -, hrest⟩ := Option.bind_eq_some_iff.1 h
        cases segBlocks with
        | error e => cases hrest
        | ok segBlocks =>
            obtain ⟨⟨headerBlocks, g'⟩, -, hlast⟩ := Option.bind_eq_some_iff.1 hrest
            dsimp only at hlast
            split at hlast
            · cases hlast
            · exact hasHeader_of_arrayB (Prod.mk.inj (Option.some.inj hlast)).1

theorem generateFwFile_header {fuel : Nat} {inFile : Option (List Char)} {fwOpn blockSize : Int}
    {globals globals' : ConverterGlobals} {image : List Int}
    (h : generateFwFile fuel inFile fwOpn blockSize globals = some (.ok image, globals'))
    (hne : image ≠ []) : HasHeader imgHdrFirmware fwOpn blockSize image := by
  unfold generateFwFile at h
  split at h
  · cases h
  · exact generateFwLines_header h hne

theorem generateConfigFile_header {fuel : Nat} {inFile : Option (List Char)} {blockSize : Int}
    {globals globals' : ConverterGlobals} {image : List Int}
    (h : generateConfigFile fuel inFile blockSize globals = some (.ok image, globals')) :
    HasHeader imgHdrConfig 0 blockSize image := by
  unfold generateConfigFile at h
  split at h
  · cases h
  · split at h
    · cases h
    · obtain ⟨⟨list, g⟩, himage, hlast⟩ := Option.bind_eq_some_iff.1 h
      have harray := (Prod.mk.inj (Option.some.inj hlast)).1
      rw [generateConfigImage_eq himage] at harray
      exact hasHeader_of_arrayB harray

theorem HasHeader.readsAs_iff {sizeBits : Nat} {fwOpn blockSize : Int} {image : List Int}
    (imageType : BitVec 2) (h : HasHeader (imageType.toNat * 0x40) fwOpn blockSize image)
    (hsize : 32 ≤ sizeBits) :
    ReadsAs sizeBits (image.map byteOf)
        (converterFields imageType fwOpn blockSize (image.drop 12).length).hdr ↔
      imageType = 0 ∧ (sizeBits = 32 ∨ (image.drop 12).length % 2 ^ 32 < 2 ^ 31) := by
  obtain ⟨out, rfl, hblock⟩ := h
  have hdrop : (imageHeader (imageType.toNat * 0x40) fwOpn blockSize out.length ++ out).drop 12 = out := rfl
  rw [hdrop, List.map_append, imageHeader_encode imageType _ hblock, HdrFields.readsAs_iff _ _ hsize]
  constructor
  · intro hboth
    obtain ⟨-, htype, hlen⟩ := hboth
    rw [converterFields, BitVec.toNat_ofNat] at hlen
    exact ⟨htype, hlen⟩
  · intro hboth
    obtain ⟨htype, hlen⟩ := hboth
    refine ⟨rfl, htype, ?_⟩
    rw [converterFields, BitVec.toNat_ofNat]
    exact hlen

/-- A header is read back by both decoders exactly when it is that of a firmware image of version 0 whose
length keeps its sign bit clear or a `size_t` has no more bits. The converter writes such a header for
firmware, and none for a configuration record. -/
theorem header_codec_iff (sizeBits : Nat) (hsize : 32 ≤ sizeBits) :
    (∀ (f : HdrFields) (rest : List Byte), ReadsAs sizeBits (f.encode ++ rest) f.hdr ↔
      f.majorVer = 0 ∧ f.imageType = 0 ∧ (sizeBits = 32 ∨ f.imgLen.toNat < 2 ^ 31)) ∧
    (∀ (fuel : Nat) (inFile : Option (List Char)) (fwOpn blockSize : Int)
        (globals globals' : ConverterGlobals) (image : List Int),
        generateFwFile fuel inFile fwOpn blockSize globals = some (.ok image, globals') → image ≠ [] →
      (ReadsAs sizeBits (image.map byteOf)
          (converterFields 0 fwOpn blockSize (image.drop 12).length).hdr ↔
        sizeBits = 32 ∨ (image.drop 12).length % 2 ^ 32 < 2 ^ 31)) ∧
    ∀ (fuel : Nat) (inFile : Option (List Char)) (blockSize : Int) (globals globals' : ConverterGlobals)
        (image : List Int), generateConfigFile fuel inFile blockSize globals = some (.ok image, globals') →
      ¬ ReadsAs sizeBits (image.map byteOf) (converterFields 1 0 blockSize (image.drop 12).length).hdr := by
  refine ⟨fun f rest => f.readsAs_iff rest hsize, ?_, ?_⟩
  · intro fuel inFile fwOpn blockSize globals globals' image h hne
    have hheader := generateFwFile_header h hne
    rw [HasHeader.readsAs_iff 0 hheader hsize]
    exact and_iff_right rfl
  · intro fuel inFile blockSize globals globals' image h hread
    have hheader := generateConfigFile_header h
    have htype := ((HasHeader.readsAs_iff 1 hheader hsize).1 hread).1
    exact absurd htype (by decide)

theorem header_codec_iff_word :
    ReadsAs 64 (HdrFields.encode ⟨0, 3, 0, 1, 0x9498, 64, 0x1234⟩ ++ [0xFE, 0xFF])
      ⟨0, 3, 0, 1, 38040, 64, 4660, 12⟩ ∧
    ∃ image, generateConfigFile 2 (some "0x200, 0x1234".toList) 16 .initial = some (.ok image, .initial) ∧
      ¬ ReadsAs 64 (image.map byteOf) (converterFields 1 0 16 (image.drop 12).length).hdr :=
  ⟨((header_codec_iff 64 (by decide)).1 ⟨0, 3, 0, 1, 0x9498, 64, 0x1234⟩ [0xFE, 0xFF]).2 (by decide),
    oneRegister 32, by decide,
    (header_codec_iff 64 (by decide)).2.2 2 (some "0x200, 0x1234".toList) 16 .initial .initial _ (by decide)⟩

/-- The header of a configuration record: the kernel decoder reads its type into the endianness, and the
user-space one leaves what was there. -/
theorem config_header_misread : ∃ image,
    generateConfigFile 2 (some "0x200, 0x1234".toList) 16 .initial = some (.ok image, .initial) ∧
    ∀ pHdr, (kernelGetHdr 32 (listMem (image.map byteOf)) image.length pHdr).2.endianness = 2 ∧
      (userGetHdr 32 (listMem (image.map byteOf)) image.length pHdr).2.endianness = pHdr.endianness :=
  ⟨oneRegister 32, by decide, fun _ => ⟨rfl, rfl⟩⟩

end VprocSdk
