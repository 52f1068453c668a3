import Mathlib.Algebra.BigOperators.Group.List.Basic
import Mathlib.Algebra.Order.Ring.Int
import VprocSdk.Lib.Python

/-!
# The firmware converter

`FormatSegmentToHbi` turns a segment into blocks of HBI commands, `FormatS7ToHbi` adds the execution
address, and `GenerateFwFile` and `GenerateConfigFile` make an image of the segments they have parsed.

A Python integer is an `Int`, so that `>>`, `//` and `& 0xFF` are floor division and remainder. The
globals `page_select` and `left_over_bytes` are passed from call to call. A line of text is the list of
its characters. The loop over a segment has no bound of its own: it takes fuel, and has no result when
it runs out.
-/

namespace VprocSdk

open Lib

def hbiMaxPageLen : Int := 256

def imgHdrVersion : Int := 0

def imgHdrFirmware : Int := 0

def imgHdrConfig : Int := 0x40

def nopBytes (n : Int) : List Int := List.replicate n.toNat 0xFF

/-! ### `FormatSegmentToHbi` -/

structure ConverterGlobals where
  pageSelect : Bool
  leftOverBytes : Int
  deriving DecidableEq, Repr

/-- The globals as the module sets them, and as each image that is finished leaves them. -/
def ConverterGlobals.initial : ConverterGlobals := { pageSelect := true, leftOverBytes := 0 }

structure FormatState where
  addr : Int
  segIndex : Int
  remPageBytes : Int
  blockSizeBytes : Int
  pageSelect : Bool
  leftOverBytes : Int
  deriving DecidableEq, Repr

def FormatState.globals (st : FormatState) : ConverterGlobals :=
  { pageSelect := st.pageSelect, leftOverBytes := st.leftOverBytes }

/-- The control bytes that lead to the page of an address: paged access for a configuration record, page
255 and its base address for firmware. -/
def pageControl (isConfig pageSelect : Bool) (addr : Int) : List Int :=
  if isConfig then [0xFE, addr / 2 ^ 8 - 1]
  else (if pageSelect then [0xFE, 0xFF, 0x86, 0x81] else [0x86, 0x81]) ++
    [addr / 2 ^ 24 % 0x100, addr / 2 ^ 16 % 0x100, addr / 2 ^ 8 % 0x100, 0x00]

theorem pageControl_length (isConfig pageSelect : Bool) (addr : Int) :
    (pageControl isConfig pageSelect addr).length
      = if isConfig then 2 else if pageSelect then 8 else 6 := by
  cases isConfig <;> cases pageSelect <;> rfl

/-- The end of each kind of block: the length, the data that fits and the padding. -/
def finishBlock (segmentList : List Int) (writeBit : Int) (st : FormatState) (block : List Int) :
    List Int × FormatState :=
  let remSegBytes := segmentList.length - st.segIndex
  let padBytes := if st.blockSizeBytes > remSegBytes then st.blockSizeBytes - remSegBytes else 0
  let blockSizeBytes := if st.blockSizeBytes > remSegBytes then remSegBytes else st.blockSizeBytes
  let block := block ++ [blockSizeBytes / 2 - 1 + writeBit] ++
    pySlice segmentList st.segIndex (st.segIndex + blockSizeBytes)
  -- Room for the beginning of the next segment: 8 control bytes and 2 data bytes.
  let block := if padBytes ≥ 10 then block else block ++ nopBytes padBytes
  let leftOverBytes := if padBytes ≥ 10 then padBytes else 0
  (block, { st with
    addr := st.addr + blockSizeBytes
    segIndex := st.segIndex + blockSizeBytes
    remPageBytes := st.remPageBytes - blockSizeBytes
    blockSizeBytes
    leftOverBytes })

def addressedBlock (segmentList : List Int) (isConfig : Bool) (st : FormatState) :
    List Int × FormatState :=
  let offsetWords := st.addr % 0x100 / 2
  let block := pageControl isConfig st.pageSelect st.addr ++ [offsetWords]
  finishBlock segmentList 0x80
    { st with
      remPageBytes := hbiMaxPageLen * 2 - offsetWords * 2
      blockSizeBytes := st.blockSizeBytes - (block.length + 1)
      pageSelect := if isConfig then st.pageSelect else false }
    block

def continueBlock (segmentList : List Int) (st : FormatState) : List Int × FormatState :=
  finishBlock segmentList 0 { st with blockSizeBytes := st.blockSizeBytes - 2 } [0xFB]

/-- The hybrid block: what remains of the page is too small for a full block. -/
def hybridBlock (segmentList : List Int) (isConfig : Bool) (st : FormatState) :
    List Int × FormatState :=
  let remSegBytes := segmentList.length - st.segIndex
  let continueBytes := if st.remPageBytes ≥ remSegBytes then remSegBytes else st.remPageBytes
  let block := [0xFB, continueBytes / 2 - 1] ++
    pySlice segmentList st.segIndex (st.segIndex + continueBytes)
  let st := { st with
    addr := st.addr + continueBytes
    segIndex := st.segIndex + continueBytes
    remPageBytes := hbiMaxPageLen * 2
    blockSizeBytes := st.blockSizeBytes - (continueBytes + 2) }
  let remSegBytes := remSegBytes - continueBytes
  if st.blockSizeBytes < 10 ∨ remSegBytes = 0 then
    (block ++ nopBytes st.blockSizeBytes, { st with remPageBytes := 0 })
  else
    let ctrlBytes := if isConfig then 4 else 8
    let offsetWords := st.addr % 0x100 / 2
    finishBlock segmentList 0x80
      { st with
        remPageBytes := st.remPageBytes - offsetWords * 2
        blockSizeBytes := st.blockSizeBytes - ctrlBytes }
      (block ++ pageControl isConfig false st.addr ++ [offsetWords])

theorem addressedBlock_finish (segmentList : List Int) (isConfig : Bool) (st : FormatState) : ∃ start st',
    addressedBlock segmentList isConfig st = finishBlock segmentList 0x80 st' start ∧
      start = pageControl isConfig st.pageSelect st.addr ++ [st.addr % 0x100 / 2] ∧
      st'.segIndex = st.segIndex ∧ st'.remPageBytes = 0x100 * 2 - st.addr % 0x100 / 2 * 2 ∧
      st'.blockSizeBytes = st.blockSizeBytes - (start.length + 1) ∧
      st'.pageSelect = if isConfig then st.pageSelect else false :=
  ⟨_, _, rfl, rfl, rfl, rfl, rfl, rfl⟩

theorem continueBlock_finish (segmentList : List Int) (st : FormatState) : ∃ st',
    continueBlock segmentList st = finishBlock segmentList 0 st' [0xFB] ∧ st'.segIndex = st.segIndex ∧
      st'.remPageBytes = st.remPageBytes ∧ st'.blockSizeBytes = st.blockSizeBytes - 2 ∧
      st'.pageSelect = st.pageSelect :=
  ⟨_, rfl, rfl, rfl, rfl, rfl⟩

/-- The parts of a hybrid block: `block` ends the page or the segment with `size` bytes, and then comes the
padding, or the beginning of the next page. -/
structure HybridParts (segmentList : List Int) (isConfig : Bool) (st : FormatState) (size : Int)
    (block : List Int) (st' : FormatState) (start : List Int) (next : FormatState) : Prop where
  bounds : 1 ≤ size ∧ size ≤ st.remPageBytes ∧ size ≤ segmentList.length - st.segIndex
  ends : size = st.remPageBytes ∨ size = segmentList.length - st.segIndex
  block_eq : block = [0xFB, size / 2 - 1] ++ pySlice segmentList st.segIndex (st.segIndex + size)
  block_length : (block.length : Int) = size + 2
  addr : st'.addr = st.addr + size
  index : st'.segIndex = st.segIndex + size
  space : st'.blockSizeBytes = st.blockSizeBytes - (size + 2)
  globals : st'.globals = st.globals
  start_eq : start = block ++ (pageControl isConfig false st'.addr ++ [st'.addr % 0x100 / 2])
  next_addr : next.addr = st'.addr
  next_index : next.segIndex = st'.segIndex
  next_page : next.remPageBytes = 0x100 * 2 - st'.addr % 0x100 / 2 * 2
  next_space : next.blockSizeBytes = st'.blockSizeBytes - if isConfig then 4 else 8
  next_select : next.pageSelect = st.pageSelect
  split : hybridBlock segmentList isConfig st =
    if st'.blockSizeBytes < 10 ∨ segmentList.length - st.segIndex - size = 0 then
      (block ++ nopBytes st'.blockSizeBytes, { st' with remPageBytes := 0 })
    else finishBlock segmentList 0x80 next start

theorem hybridBlock_parts {segmentList : List Int} {st : FormatState} (isConfig : Bool)
    (hpage : 1 ≤ st.remPageBytes) (hindex : 0 ≤ st.segIndex ∧ st.segIndex < segmentList.length) :
    ∃ size block st' start next, HybridParts segmentList isConfig st size block st' start next := by
  obtain ⟨size, hsize⟩ : ∃ size, size = if st.remPageBytes ≥ segmentList.length - st.segIndex
      then segmentList.length - st.segIndex else st.remPageBytes := ⟨_, rfl⟩
  have hbounds : 1 ≤ size ∧ size ≤ st.remPageBytes ∧ size ≤ segmentList.length - st.segIndex ∧
      (size = st.remPageBytes ∨ size = segmentList.length - st.segIndex) := by
    rw [hsize]
    split <;> omega
  obtain ⟨hpos, hfits, hrem, hends⟩ := hbounds
  have hdata := length_pySlice hindex.1 (by omega : 0 ≤ size) (by omega : st.segIndex + size ≤ segmentList.length)
  obtain ⟨st', hst'⟩ : ∃ st', st' = { st with
    addr := st.addr + size
    segIndex := st.segIndex + size
    remPageBytes := hbiMaxPageLen * 2
    blockSizeBytes := st.blockSizeBytes - (size + 2) } := ⟨_, rfl⟩
  obtain ⟨block, hblock⟩ : ∃ block, block = [0xFB, size / 2 - 1] ++
      pySlice segmentList st.segIndex (st.segIndex + size) := ⟨_, rfl⟩
  refine ⟨size, block, st', block ++ (pageControl isConfig false st'.addr ++ [st'.addr % 0x100 / 2]),
    { st' with
      remPageBytes := st'.remPageBytes - st'.addr % 0x100 / 2 * 2
      blockSizeBytes := st'.blockSizeBytes - if isConfig then 4 else 8 }, ?_⟩
  subst hst'
  refine ⟨⟨hpos, hfits, hrem⟩, hends, hblock, ?_, rfl, rfl, rfl, rfl, rfl, rfl, rfl, rfl, rfl, rfl, ?_⟩
  · rw [hblock, List.length_append, Int.natCast_add, hdata, List.length_cons, List.length_singleton]
    omega
  · rw [← List.append_assoc, hblock, hsize]
    rfl

def formatBlock (segmentList : List Int) (blockSizeWords : Int) (isConfig : Bool) (st : FormatState) :
    List Int × FormatState :=
  let (block, st) :=
    if st.remPageBytes = 0 then addressedBlock segmentList isConfig st
    else if st.remPageBytes ≥ st.blockSizeBytes - 2 then continueBlock segmentList st
    else hybridBlock segmentList isConfig st
  (block, { st with blockSizeBytes := blockSizeWords * 2 })

def formatLoop (segmentList : List Int) (blockSizeWords : Int) (isConfig : Bool) :
    Nat → FormatState → Option (List Int × FormatState)
  | 0, st => if st.segIndex < segmentList.length then none else some ([], st)
  | fuel + 1, st =>
      if st.segIndex < segmentList.length then do
        let (block, st) := formatBlock segmentList blockSizeWords isConfig st
        let (blocks, st) ← formatLoop segmentList blockSizeWords isConfig fuel st
        return (block ++ blocks, st)
      else some ([], st)

theorem formatLoop_stop {segmentList : List Int} {words : Int} {isConfig : Bool} {st : FormatState}
    (h : ¬ st.segIndex < segmentList.length) (fuel : Nat) :
    formatLoop segmentList words isConfig fuel st = some ([], st) := by
  cases fuel with
  | zero => exact if_neg h
  | succ fuel => exact if_neg h

def formatSegmentToHbi (fuel : Nat) (segmentList : List Int) (startAddress blockSizeWords : Int)
    (isConfig : Bool) (globals : ConverterGlobals) : Option (List Int × ConverterGlobals) := do
  let blockSizeBytes := if globals.leftOverBytes > 0 then globals.leftOverBytes else blockSizeWords * 2
  let (blocks, st) ← formatLoop segmentList blockSizeWords isConfig fuel
    { addr := startAddress
      segIndex := 0
      remPageBytes := 0
      blockSizeBytes
      pageSelect := globals.pageSelect
      leftOverBytes := globals.leftOverBytes }
  return (blocks, st.globals)

/-! ### `FormatS7ToHbi` -/

def hexDigit (c : Char) : Option Int :=
  if '0' ≤ c ∧ c ≤ '9' then some (c.toNat - 48)
  else if 'a' ≤ c ∧ c ≤ 'f' then some (c.toNat - 87)
  else if 'A' ≤ c ∧ c ≤ 'F' then some (c.toNat - 55)
  else none

/-- The bytes of the pairs of hexadecimal digits of a text, found from the left. -/
def hexBytes : List Char → List Int
  | high :: low :: rest =>
      match hexDigit high, hexDigit low with
      | some h, some l => (16 * h + l) :: hexBytes rest
      | _, _ => hexBytes (low :: rest)
  | _ => []

def isS7 (line : List Char) : Bool := (line.take 2).map Char.toLower = ['s', '7']

/-- What one S7 record becomes: the 32-bit execution address for the registers 0x12C and 0x12E, in what
is left of the last block or in a block of its own. -/
def formatS7Line (line : List Char) (blockSize leftOverBytes : Int) : Except PyError (List Int) :=
  let splitLine := hexBytes (line.drop 2)
  if (splitLine.sum + 1) % 0x100 ≠ 0 then
    .error (.valueError "Error - FormatS7ToHbi(): S7 checksum mismatch")
  else
    match splitLine with
    | _ :: b3 :: b2 :: b1 :: b0 :: _ =>
        let tempListBytes := [0xFE, 0x00, 0x2C / 2, 0x81, b3, b2, b1, b0]
        if leftOverBytes ≥ 8 then .ok (tempListBytes ++ nopBytes (leftOverBytes - 8))
        else .ok (nopBytes leftOverBytes ++ tempListBytes ++ nopBytes (blockSize * 2 - 8))
    | _ => .error .indexError

/-- The loop over the lines, from the last to the first, which does not stop at an S7 record. -/
def formatS7Lines (blockSize leftOverBytes : Int) :
    List (List Char) → Option (List Int) → Except PyError (Option (List Int))
  | [], tempListBytes => .ok tempListBytes
  | line :: lines, tempListBytes =>
      if isS7 line then do
        let tempListBytes ← formatS7Line line blockSize leftOverBytes
        formatS7Lines blockSize leftOverBytes lines (some tempListBytes)
      else formatS7Lines blockSize leftOverBytes lines tempListBytes

def formatS7ToHbi (bufferList : List (List Char)) (blockSize leftOverBytes : Int) :
    Except PyError (List Int) := do
  let tempListBytes ← formatS7Lines blockSize leftOverBytes bufferList.reverse none
  match tempListBytes with
  | some tempListBytes => return tempListBytes
  | none => throw .unboundLocalError

/-! ### Images -/

def imageHeader (imageType fwOpn blockSize outListLen : Int) : List Int :=
  [imgHdrVersion, imageType, fwOpn / 2 ^ 8 % 0x100, fwOpn % 0x100, 0, blockSize,
    outListLen / 2 ^ 24 % 0x100, outListLen / 2 ^ 16 % 0x100, outListLen / 2 ^ 8 % 0x100,
    outListLen % 0x100, 0, 0]

def formatSegments (fuel : Nat) (blockSize : Int) (isConfig : Bool) :
    List (Int × List Int) → ConverterGlobals → Option (List Int × ConverterGlobals)
  | [], globals => some ([], globals)
  | (addr, seg) :: segs, globals => do
      let (blocks, globals) ← formatSegmentToHbi fuel seg addr blockSize isConfig globals
      let (rest, globals) ← formatSegments fuel blockSize isConfig segs globals
      return (blocks ++ rest, globals)

/-- `GenerateFwFile`, once the segments and the S3 header are parsed. An exception leaves the globals as
they are. -/
def generateFwImage (fuel : Nat) (segs : List (Int × List Int)) (headerBytes : List Int)
    (bufferList : List (List Char)) (fwOpn blockSize : Int) (globals : ConverterGlobals) :
    Option (Except PyError (List Int) × ConverterGlobals) := do
  let (segBlocks, globals) ← formatSegments fuel blockSize false segs globals
  let (headerBlocks, globals) ← formatSegmentToHbi fuel headerBytes 0x00080128 blockSize false globals
  match formatS7ToHbi bufferList blockSize globals.leftOverBytes with
  | .error e => return (.error e, globals)
  | .ok s7 =>
      let out := segBlocks ++ headerBlocks ++ s7
      return (.ok (imageHeader imgHdrFirmware fwOpn blockSize out.length ++ out), .initial)

/-- `GenerateConfigFile`, once the segments are parsed. -/
def generateConfigImage (fuel : Nat) (segs : List (Int × List Int)) (blockSize : Int)
    (globals : ConverterGlobals) : Option (List Int × ConverterGlobals) := do
  let (segBlocks, globals) ← formatSegments fuel blockSize true segs globals
  let out := segBlocks ++ nopBytes globals.leftOverBytes
  return (imageHeader imgHdrConfig 0 blockSize out.length ++ out, .initial)

end VprocSdk
