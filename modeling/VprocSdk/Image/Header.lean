import VprocSdk.Hbi.Types
import VprocSdk.Lib.Regions

/-!
# Firmware images

The header of a firmware image and `internal_hbi_get_hdr`, which parses it. The hosts the driver is
built for have a 32-bit `size_t`. An image is a file of a header and the payload it declares.
-/

namespace VprocSdk

open Lib

/-- `IMG_HDR_LEN`: version, format, part number, block size, total length and two reserved bytes. -/
def imgHdrLen : Nat := 12

def imgTypeFwr : Nat := 0
def imgTypeCr : Nat := 1

structure HbiImgHdr where
  majorVer : Nat
  minorVer : Nat
  imageType : Nat
  endianness : Nat
  fwrCode : Nat
  blockSize : Nat
  imgLen : Nat
  hdrLen : Nat
  deriving DecidableEq, Repr

def imgHdr (pData : Nat → Byte) : HbiImgHdr where
  majorVer := (pData 0).toNat >>> 6
  minorVer := (pData 0).toNat >>> 4
  imageType := (pData 1).toNat >>> 6
  endianness := (pData 1).toNat >>> 5
  fwrCode := (pData 2).toNat <<< 8 ||| (pData 3).toNat
  blockSize := (pData 4).toNat <<< 8 ||| (pData 5).toNat
  imgLen := (pData 6).toNat <<< 24 ||| (pData 7).toNat <<< 16 ||| (pData 8).toNat <<< 8 |||
    (pData 9).toNat
  hdrLen := imgHdrLen

/-- `internal_hbi_get_hdr`, called with an image and a place for its header. -/
def internalHbiGetHdr (pData : Nat → Byte) (size : Nat) : Except HbiStatus HbiImgHdr :=
  if size < imgHdrLen then .error .invalidArg else .ok (imgHdr pData)

/-- A list of bytes in memory, with zeros behind it. -/
def listMem (xs : List Byte) : Nat → Byte := fun i => xs.getD i 0

theorem slice_listMem (xs : List Byte) : slice (listMem xs) 0 xs.length = xs := by
  have hcells : slice (listMem xs) 0 xs.length = slice (overlay (fun _ => 0) 0 xs) 0 xs.length := by
    apply slice_congr
    intro k _
    simp [listMem, overlay]
  rw [hcells, slice_overlay]

/-- The fields depend on the bytes of the header alone. -/
theorem imgHdr_congr {m m' : Nat → Byte} (h : slice m 0 imgHdrLen = slice m' 0 imgHdrLen) :
    imgHdr m = imgHdr m' := by
  have hcell : ∀ k, k < imgHdrLen → m k = m' k := by
    intro k hk
    have heq := slice_cell h hk
    rwa [Nat.zero_add] at heq
  unfold imgHdr
  rw [hcell 0 (by decide), hcell 1 (by decide), hcell 2 (by decide), hcell 3 (by decide),
    hcell 4 (by decide), hcell 5 (by decide), hcell 6 (by decide), hcell 7 (by decide),
    hcell 8 (by decide), hcell 9 (by decide)]

def fileHdr (file : List Byte) : HbiImgHdr := imgHdr (listMem file)

/-- What a file holds of the payload its header declares. -/
def filePayload (file : List Byte) : List Byte := (file.drop imgHdrLen).take (fileHdr file).imgLen

theorem filePayload_length_iff (file : List Byte) (hhdr : imgHdrLen ≤ file.length) :
    (filePayload file).length = (fileHdr file).imgLen
      ↔ imgHdrLen + (fileHdr file).imgLen ≤ file.length := by
  rw [filePayload, List.length_take, List.length_drop]
  omega

/-- A well-formed image: the payload is as long as the header declares, a positive number of blocks,
and the whole fits in the address space. -/
structure FwrImage where
  hdr : List Byte
  payload : List Byte
  hdr_length : hdr.length = imgHdrLen
  payload_length : payload.length = (imgHdr (listMem hdr)).imgLen
  payload_pos : 0 < payload.length
  block_dvd : 2 * (imgHdr (listMem hdr)).blockSize ∣ payload.length
  size_lt : imgHdrLen + payload.length < 2 ^ 32

namespace FwrImage

variable (image : FwrImage)

def bytes : List Byte := image.hdr ++ image.payload

def header : HbiImgHdr := imgHdr (listMem image.hdr)

def blockLen : Nat := 2 * image.header.blockSize

def numBlocks : Nat := image.payload.length / image.blockLen

def blocks : List (List Byte) := pieces image.blockLen image.numBlocks image.payload

theorem bytes_length : image.bytes.length = imgHdrLen + image.payload.length := by
  rw [bytes, List.length_append, image.hdr_length]

theorem imgLen_eq : image.header.imgLen = image.payload.length := image.payload_length.symm

theorem payload_eq : image.payload.length = image.numBlocks * image.blockLen :=
  (Nat.div_mul_cancel image.block_dvd).symm

theorem blockLen_pos : 0 < image.blockLen := by
  apply Nat.pos_of_ne_zero
  intro hzero
  have hpos := image.payload_pos
  rw [image.payload_eq, hzero] at hpos
  omega

theorem numBlocks_pos : 0 < image.numBlocks := by
  apply Nat.pos_of_ne_zero
  intro hzero
  have hpos := image.payload_pos
  rw [image.payload_eq, hzero] at hpos
  omega

theorem blockLen_le : image.blockLen ≤ image.payload.length :=
  Nat.le_of_dvd image.payload_pos image.block_dvd

theorem blockLen_lt : image.blockLen < 2 ^ 32 := by
  have hle := image.blockLen_le
  have hlt := image.size_lt
  omega

theorem numBlocks_le : image.numBlocks ≤ image.payload.length :=
  Nat.div_le_self _ _

variable {image} {m : Nat → Byte}

theorem getHdr_eq (h : slice m 0 imgHdrLen = image.hdr) {size : Nat} (hsize : imgHdrLen ≤ size) :
    internalHbiGetHdr m size = .ok image.header := by
  have hlist : slice (listMem image.hdr) 0 imgHdrLen = image.hdr := by
    rw [← image.hdr_length]
    exact slice_listMem _
  rw [internalHbiGetHdr, if_neg (by omega), imgHdr_congr (h.trans hlist.symm)]
  rfl

theorem slice_hdr {part rest : List Byte} (hpart : part ++ rest = image.bytes)
    (hlen : imgHdrLen ≤ part.length) (h : slice m 0 part.length = part) :
    slice m 0 imgHdrLen = image.hdr := by
  obtain ⟨more, hmore⟩ : ∃ more, part.length = imgHdrLen + more := ⟨part.length - imgHdrLen, by omega⟩
  rw [hmore, slice_add] at h
  rw [bytes, ← h, List.append_assoc] at hpart
  exact (List.append_inj hpart (by rw [slice_length, image.hdr_length])).1

theorem slice_payload (h : slice m 0 image.bytes.length = image.bytes) :
    slice m imgHdrLen (image.numBlocks * image.blockLen) = image.payload := by
  rw [image.bytes_length, slice_add] at h
  have hpayload := (List.append_inj h (by rw [slice_length, image.hdr_length])).2
  rw [Nat.zero_add] at hpayload
  rw [← image.payload_eq]
  exact hpayload

theorem blocks_eq (h : slice m 0 image.bytes.length = image.bytes) :
    pieces image.blockLen image.numBlocks (slice m imgHdrLen (image.numBlocks * image.blockLen))
      = image.blocks := by
  rw [slice_payload h]
  rfl

theorem blocks_spec (image : FwrImage) : image.blocks.flatten = image.payload ∧
    image.blocks.length = image.numBlocks ∧ ∀ block ∈ image.blocks, block.length = image.blockLen := by
  have hlen := image.payload_eq
  exact ⟨pieces_flatten hlen, pieces_length _ _ _, length_of_mem_pieces hlen⟩

end FwrImage

end VprocSdk
