import Mathlib.Logic.Function.Basic
import VprocSdk.Image.Loaders
import VprocSdk.Lib.Machine

/-!
# Uploading through procfs

`hbi_proc_load_fw`: a write to the proc file of a device appends to the device's buffer, and once the
buffer holds as many bytes as the header declares the image is loaded. What the header says is kept in
variables of the function, shared by all devices, and read from the first write only.

`Received` is the state while an image arrives. One lemma says what a write does while less has arrived
than the header declares, one what the write does that reaches it.
-/

namespace VprocSdk

open Lib

/-- `HBI_LNX_BUF`, and the memory that follows its bytes. -/
structure HbiLnxBuf where
  buf : Nat → Byte
  len : Nat

/-- The fields of `struct hbi_dev` the function uses. -/
structure HbiDev where
  hbiHandle : Nat
  hbiBuf : HbiLnxBuf

/-- The static variables of `hbi_proc_load_fw`. -/
structure LoadFwStatics where
  first : Bool
  totalImgLen : Int
  blockSize : Nat
  hdrLen : Nat
  deriving DecidableEq, Repr

def LoadFwStatics.loaded : LoadFwStatics := ⟨true, 1, 0, 0⟩

def HbiLnxBuf.memset (b : HbiLnxBuf) : HbiLnxBuf :=
  ⟨fun i => if i < hbiLnxBufMaxLen then 0 else b.buf i, 0⟩

/-- A `size_t` stored in an `int`. -/
def intOfSize (n : Nat) : Int := if n < 2 ^ 31 then n else n - 2 ^ 32

/-- An `int` passed as a `size_t`. -/
def sizeOfInt (n : Int) : Nat := (n % 2 ^ 32).toNat

/-- The variables once the first write has been looked at. -/
def LoadFwStatics.parse (st : LoadFwStatics) (b : HbiLnxBuf) : Except HbiStatus LoadFwStatics :=
  if st.first then
    match internalHbiGetHdr b.buf b.len with
    | .error status => .error status
    | .ok hdr => .ok ⟨false, intOfSize hdr.imgLen, hdr.blockSize, hdr.hdrLen⟩
  else .ok st

/-- `hbi_proc_load_fw` on a device. With a fault `copy_from_user` stops after that many bytes. -/
def hbiProcLoadFw (fuel : Nat) (st : LoadFwStatics) (dev : HbiDev) (data : List Byte)
    (fault : Option Nat) : Loader (Option (LoadFwStatics × HbiDev × Int)) :=
  let size := data.length
  let b := dev.hbiBuf
  if size = 0 then return some (st, dev, -1)
  else if (b.len + size) % 2 ^ 32 > hbiLnxBufMaxLen then
    return some (st, { dev with hbiBuf := b.memset }, -1)
  else
    match fault with
    | some copied =>
        return some (st, { dev with hbiBuf := ⟨overlay b.buf b.len (data.take copied), b.len⟩ }, -1)
    | none =>
        let b : HbiLnxBuf := ⟨overlay b.buf b.len data, (b.len + size) % 2 ^ 32⟩
        match st.parse b with
        | .error _ => return some (st, { dev with hbiBuf := b }, -1)
        | .ok st =>
            if (b.len : Int) < st.totalImgLen then
              return some (st, { dev with hbiBuf := b }, size)
            else do
              let result ← hbiWrBinFw fuel dev.hbiHandle (fun i => b.buf (st.hdrLen + i))
                (sizeOfInt st.totalImgLen) st.blockSize
              match result with
              | none => return none
              | some status =>
                  return some (st, { dev with hbiBuf := b.memset },
                    if status ≠ .success then -1 else size)

/-! ### While an image arrives -/

/-- The variables once the header of an image is kept. -/
def FwrImage.statics (image : FwrImage) : LoadFwStatics :=
  ⟨false, image.header.imgLen, image.header.blockSize, imgHdrLen⟩

def FwrImage.Fits (image : FwrImage) : Prop := image.bytes.length ≤ hbiLnxBufMaxLen

/-- The buffer holds the part of the file that has arrived, and the header kept is the image's. Before
the first write nothing need be kept. -/
structure Received (image : FwrImage) (part : List Byte) (st : LoadFwStatics) (b : HbiLnxBuf) :
    Prop where
  len : b.len = part.length
  buf : slice b.buf 0 part.length = part
  kept : st = image.statics ∨ st.first = true ∧ part = []

section Received

variable {image : FwrImage} {part data rest : List Byte} {st : LoadFwStatics} {b : HbiLnxBuf}

def HbiLnxBuf.appended (b : HbiLnxBuf) (data : List Byte) : HbiLnxBuf :=
  ⟨overlay b.buf b.len data, b.len + data.length⟩

theorem FwrImage.Fits.imgLen_lt (hfit : image.Fits) : image.header.imgLen < 2 ^ 31 := by
  unfold Fits hbiLnxBufMaxLen at hfit
  rw [image.bytes_length, ← image.imgLen_eq] at hfit
  omega

theorem FwrImage.Fits.numBlocks_lt (hfit : image.Fits) {fuel : Nat} (hfuel : hbiLnxBufMaxLen ≤ fuel) :
    image.numBlocks < fuel := by
  have hle := image.numBlocks_le
  unfold Fits at hfit
  rw [image.bytes_length, imgHdrLen] at hfit
  omega

theorem FwrImage.Fits.part_le (hfit : image.Fits) (hpart : part ++ data ++ rest = image.bytes) :
    part.length + data.length ≤ hbiLnxBufMaxLen := by
  unfold Fits at hfit
  rw [← hpart, List.length_append, List.length_append] at hfit
  omega

theorem Received.append_buf (h : Received image part st b) (data : List Byte) :
    slice (b.appended data).buf 0 (part ++ data).length = part ++ data := by
  have hread : slice (overlay b.buf (0 + part.length) data) 0 (part.length + data.length)
      = part ++ data := slice_overlay_append h.buf
  rw [Nat.zero_add] at hread
  rw [HbiLnxBuf.appended, h.len, List.length_append]
  exact hread

theorem Received.parse (h : Received image part st b) (hfit : image.Fits)
    (hpart : part ++ data ++ rest = image.bytes) (hlen : imgHdrLen ≤ (part ++ data).length) :
    st.parse (b.appended data) = .ok image.statics := by
  have hhdr := FwrImage.slice_hdr hpart hlen (h.append_buf data)
  rcases h.kept with rfl | ⟨hfirst, -⟩
  · rfl
  · have hsize : imgHdrLen ≤ (b.appended data).len := by
      rw [HbiLnxBuf.appended, h.len, ← List.length_append]
      exact hlen
    rw [LoadFwStatics.parse, if_pos hfirst, FwrImage.getHdr_eq hhdr hsize]
    dsimp only
    rw [intOfSize, if_pos hfit.imgLen_lt]
    rfl

variable (fuel handle : Nat)

theorem Received.write_eq (h : Received image part st b) (hfit : image.Fits)
    (hpart : part ++ data ++ rest = image.bytes) (hne : data ≠ [])
    (hlen : imgHdrLen ≤ (part ++ data).length) :
    hbiProcLoadFw fuel st ⟨handle, b⟩ data none
      = if ((b.appended data).len : Int) < image.header.imgLen then
          return some (image.statics, ⟨handle, b.appended data⟩, data.length)
        else do
          let result ← hbiWrBinFw fuel handle (fun i => (b.appended data).buf (imgHdrLen + i))
            image.header.imgLen image.header.blockSize
          match result with
          | none => return none
          | some status =>
              return some (image.statics, ⟨handle, (b.appended data).memset⟩,
                if status ≠ .success then -1 else data.length) := by
  have hle := hfit.part_le hpart
  have hsize : data.length ≠ 0 := by
    intro hzero
    exact hne (List.eq_nil_of_length_eq_zero hzero)
  have hmod : (b.len + data.length) % 2 ^ 32 = b.len + data.length := by
    apply Nat.mod_eq_of_lt
    rw [h.len]
    unfold hbiLnxBufMaxLen at hle
    omega
  have hroom : ¬ b.len + data.length > hbiLnxBufMaxLen := by
    rw [h.len]
    omega
  have hparse : st.parse ⟨overlay b.buf b.len data, b.len + data.length⟩ = .ok image.statics :=
    h.parse hfit hpart hlen
  have himg : sizeOfInt image.header.imgLen = image.header.imgLen := by
    have hlt := hfit.imgLen_lt
    unfold sizeOfInt
    omega
  unfold hbiProcLoadFw
  dsimp only
  rw [if_neg hsize, hmod, if_neg hroom, hparse]
  dsimp only [FwrImage.statics]
  rw [himg]
  rfl

/-- A write that does not reach the length the header declares is kept, and nothing is sent. -/
theorem Received.write_quiet (h : Received image part st b) (hfit : image.Fits)
    (hpart : part ++ data ++ rest = image.bytes) (hne : data ≠ [])
    (hlen : imgHdrLen ≤ (part ++ data).length) (hless : (part ++ data).length < image.header.imgLen) :
    hbiProcLoadFw fuel st ⟨handle, b⟩ data none
        = .pure (some (image.statics, ⟨handle, b.appended data⟩, (data.length : Int))) ∧
      Received image (part ++ data) image.statics (b.appended data) := by
  have hnew : (b.appended data).len = (part ++ data).length := by
    rw [HbiLnxBuf.appended, h.len, List.length_append]
  constructor
  · rw [h.write_eq fuel handle hfit hpart hne hlen, if_pos (by omega)]
    rfl
  · exact ⟨hnew, h.append_buf data, .inl rfl⟩

/-- The write that reaches it hands over the buffer as it is and empties it. -/
theorem Received.write_full (h : Received image part st b) (hfit : image.Fits)
    (hpart : part ++ data ++ rest = image.bytes) (hne : data ≠ [])
    (hlen : imgHdrLen ≤ (part ++ data).length) (hfull : image.header.imgLen ≤ (part ++ data).length) :
    hbiProcLoadFw fuel st ⟨handle, b⟩ data none
      = (hbiWrBinFw fuel handle (fun i => (b.appended data).buf (imgHdrLen + i)) image.header.imgLen
          image.header.blockSize >>= fun
        | none => return none
        | some status =>
            return some (image.statics, ⟨handle, (b.appended data).memset⟩,
              if status ≠ .success then -1 else (data.length : Int))) := by
  have hnew : (b.appended data).len = (part ++ data).length := by
    rw [HbiLnxBuf.appended, h.len, List.length_append]
  rw [h.write_eq fuel handle hfit hpart hne hlen, if_neg (by omega)]

end Received

end VprocSdk
