import VprocSdk.Image.Header
import VprocSdk.Lib.Prog
import VprocSdk.Lib.Python

/-!
# The firmware loaders

Three programs load a firmware image: the kernel driver's `hbi_load_staticimage_from_host` and
`hbi_wr_bin_fw`, and the script's `LoadFirmware`. Each is a program whose questions are calls of the
HBI driver. What they have in common is `sendBlocks`: the blocks in order and then the completion,
ended by the first status that is not accepted. Each loop is that program on the blocks of the image,
so the three agree wherever the device accepts what it is sent.

Integers of `size_t` are numbers below 2^32 and wrap around; so does an `int` that is compared with
one. A loop that has no bound of its own takes fuel and has no result when it runs out.
-/

namespace VprocSdk

open Lib

/-- What a loader asks of the driver. -/
inductive HbiAsk
  | setCommand (handle : Nat) (cmd : Command)
  | read (handle : Nat) (reg : RegAddr) (length : Nat)
  | close (handle : Nat)
  | term
  deriving DecidableEq, Repr

structure HbiReply where
  status : HbiStatus
  data : List Byte
  deriving DecidableEq, Repr

abbrev Loader (α : Type) := Prog HbiAsk HbiReply α

def setCommand (handle : Nat) (cmd : Command) : Loader HbiStatus := do
  let reply ← Prog.query (.setCommand handle cmd)
  return reply.status

/-! ### `hbi_load_staticimage_from_host` -/

def sendStaticBlock (handle imageType : Nat) (block : List Byte) : Loader HbiStatus :=
  if imageType = imgTypeFwr then setCommand handle (.firmware block)
  else if imageType = imgTypeCr then setCommand handle (.loadCfgrecFromHost (some (some block)))
  else return .invalidArg

def completeStatic (handle imageType : Nat) : Loader (Option Int) := do
  if imageType = imgTypeFwr then
    let status ← setCommand handle .loadFwrComplete
    return some status.code
  else return some HbiStatus.success.code

/-- The loop over the image from offset `i`, and what follows it. -/
def staticLoop (handle : Nat) (hdr : HbiImgHdr) (pArg : Nat → Byte) (blockSize : Nat) :
    Nat → Nat → Loader (Option Int)
  | 0, _ => return none
  | fuel + 1, i =>
      if i < hdr.imgLen then do
        let status ← sendStaticBlock handle hdr.imageType (slice pArg i blockSize)
        if status ≠ .success then return some status.code
        staticLoop handle hdr pArg blockSize fuel ((i + blockSize) % 2 ^ 32)
      else completeStatic handle hdr.imageType

/-- `hbi_load_staticimage_from_host`. The header is read from a copy of the image's first
`HBI_BUFFER_SIZE` bytes, and each block is sent from there too. -/
def hbiLoadStaticimageFromHost (fuel handle : Nat) (pArg : Nat → Byte) : Loader (Option Int) :=
  match internalHbiGetHdr pArg hbiBufferSize with
  | .error _ => do
      let _ ← Prog.query (.close handle)
      let _ ← Prog.query .term
      return some (-1)
  | .ok hdr =>
      let blockSize := hdr.blockSize * 2 % 2 ^ 32
      if blockSize > hbiBufferSize then return some HbiStatus.resourceErr.code
      else staticLoop handle hdr pArg blockSize fuel hdr.hdrLen

/-! ### `hbi_wr_bin_fw` -/

def wrBinFwLoop (handle : Nat) (buf : Nat → Byte) (size chunkLen : Nat) :
    Nat → Nat → Loader (Option HbiStatus)
  | 0, _ => return none
  | fuel + 1, i =>
      if size < chunkLen ∨ chunkLen = 0 then return some .resourceErr
      else do
        let status ← setCommand handle (.firmware (slice buf i chunkLen))
        if status ≠ .success ∧ status ≠ .opIncomplete then return some status
        let i := (i + chunkLen) % 2 ^ 32
        if i < size then wrBinFwLoop handle buf size chunkLen fuel i
        else
          let status ← setCommand handle .loadFwrComplete
          return some status

def hbiWrBinFw (fuel handle : Nat) (buf : Nat → Byte) (size blockSize : Nat) :
    Loader (Option HbiStatus) :=
  wrBinFwLoop handle buf size (blockSize <<< 1 % 2 ^ 32) fuel 0

/-! ### `LoadFirmware` -/

/-- The text of an error, with the status in parentheses. -/
def pyStatusError (msg : String) (status : HbiStatus) : PyError :=
  .valueError (msg ++ " (" ++ toString status.code ++ ")")

def formatNumber (resList : List Byte) : Nat :=
  resList.foldl (fun number byteNum => (number <<< 8) + byteNum.toNat) 0

def isFirmwareRunning (handle : Nat) : Loader Bool := do
  let reply ← Prog.query (.read handle 0x028 2)
  return formatNumber ((List.range 2).map (reply.data.getD · 0)) &&& 0x8000 ≠ 0

/-- The loop over `range(0, block_num)` from `i` on, and what follows it. The driver reads
`block_size` bytes of what it is passed, and behind the slice of block `i` lies the memory `behind i`. -/
def loadFirmwareLoop (behind : Nat → Nat → Byte) (handle : Nat) (firmwareBuf : List Byte)
    (blockSize : Nat) : Nat → Nat → Loader (Except PyError Unit)
  | 0, _ => do
      let status ← setCommand handle .loadFwrComplete
      if status ≠ .success then
        return .error (pyStatusError "Error - LoadFirmware(): Firmware final loading issue" status)
      return .ok ()
  | left + 1, i => do
      let offset := i * blockSize
      let data := overlay (behind i) 0 (pySlice firmwareBuf offset (offset + blockSize))
      let status ← setCommand handle (.firmware (slice data 0 blockSize))
      if status ≠ .success then
        return .error (pyStatusError "Error - LoadFirmware(): Firmware loading issue" status)
      loadFirmwareLoop behind handle firmwareBuf blockSize left (i + 1)

/-- `LoadFirmware`, up to the message it prints. -/
def loadFirmware (behind : Nat → Nat → Byte) (handle : Nat) (firmwareBuf : List Byte) :
    Loader (Except PyError Unit) := do
  if ← isFirmwareRunning handle then
    return .error (.valueError "Error - LoadFirmware(): Firmware running")
  match internalHbiGetHdr (listMem firmwareBuf) firmwareBuf.length with
  | .error status =>
      return .error (pyStatusError "Error - LoadFirmware(): Invalid Image Header Found" status)
  | .ok header =>
      let firmwareBuf := pySlice firmwareBuf header.hdrLen (header.hdrLen + header.imgLen)
      let blockSize := header.blockSize * 2
      if blockSize = 0 then return .error .zeroDivisionError
      let blockNum := header.imgLen / blockSize
      if header.imgLen % blockSize ≠ 0 then
        return .error (.valueError
          "Error - LoadFirmware(): The firmware size is not a multiple of block_size")
      loadFirmwareLoop behind handle firmwareBuf blockSize blockNum 0

/-! ### What they have in common -/

/-- Send the blocks in order and then the completion. The first status of a block that is not accepted
ends the program. -/
def sendBlocks {ρ : Type} (accept : HbiStatus → Bool) (failed finished : HbiStatus → ρ) (handle : Nat) :
    List (List Byte) → Loader ρ
  | [] => do
      let status ← setCommand handle .loadFwrComplete
      return finished status
  | block :: blocks => do
      let status ← setCommand handle (.firmware block)
      if accept status then sendBlocks accept failed finished handle blocks
      else return failed status

def loadCommands (handle : Nat) (blocks : List (List Byte)) : List HbiAsk :=
  blocks.map (fun block => .setCommand handle (.firmware block)) ++
    [.setCommand handle .loadFwrComplete]

def CommandsSucceed (answer : Prog.Exchanges HbiAsk HbiReply → HbiAsk → HbiReply) : Prop :=
  ∀ done handle cmd, (answer done (.setCommand handle cmd)).status = .success

theorem sendBlocks_run {ρ : Type} (accept : HbiStatus → Bool) (failed finished : HbiStatus → ρ)
    (handle : Nat) {answer : Prog.Exchanges HbiAsk HbiReply → HbiAsk → HbiReply}
    (hanswer : CommandsSucceed answer) (haccept : accept .success = true)
    (blocks : List (List Byte)) (done : Prog.Exchanges HbiAsk HbiReply) :
    ((sendBlocks accept failed finished handle blocks).run answer done).1.map Prod.fst
        = done.map Prod.fst ++ loadCommands handle blocks ∧
      ((sendBlocks accept failed finished handle blocks).run answer done).2 = finished .success := by
  induction blocks generalizing done with
  | nil => simp [sendBlocks, setCommand, loadCommands, hanswer done handle]
  | cons block blocks ih =>
      obtain ⟨hasked, hresult⟩ := ih (done ++ [(.setCommand handle (.firmware block),
        answer done (.setCommand handle (.firmware block)))])
      simp only [sendBlocks, setCommand, Prog.query_bind, Prog.ask_bind, Prog.pure_eq,
        Prog.pure_bind, Prog.run_ask, hanswer done handle, haccept, if_true]
      constructor
      · rw [hasked]
        simp [loadCommands]
      · exact hresult

/-! ### Each loop sends the blocks -/

def onlySuccess (status : HbiStatus) : Bool := status = .success

def returnCode (status : HbiStatus) : Option Int := some status.code

/-- With `left` blocks to go, the loop is at the offset that many blocks before the end of the file.
The offset counts the header and the length it is compared with does not, which makes no difference
while a block is longer than the header. -/
theorem staticLoop_eq (handle : Nat) {hdr : HbiImgHdr} (pArg : Nat → Byte) {blockSize : Nat}
    (htype : hdr.imageType = imgTypeFwr) (hblock : imgHdrLen < blockSize)
    (hsize : imgHdrLen + hdr.imgLen < 2 ^ 32) (left fuel i : Nat) (hfuel : left < fuel)
    (hi : i + left * blockSize = imgHdrLen + hdr.imgLen) :
    staticLoop handle hdr pArg blockSize fuel i
      = sendBlocks onlySuccess returnCode returnCode handle
          (pieces blockSize left (slice pArg i (left * blockSize))) := by
  induction left generalizing fuel i with
  | zero =>
      obtain ⟨fuel, rfl⟩ : ∃ rest, fuel = rest + 1 := ⟨fuel - 1, by omega⟩
      have hend : ¬ i < hdr.imgLen := by omega
      rw [staticLoop, if_neg hend, completeStatic, if_pos htype]
      rfl
  | succ left ih =>
      obtain ⟨fuel, rfl⟩ : ∃ rest, fuel = rest + 1 := ⟨fuel - 1, by omega⟩
      rw [Nat.succ_mul] at hi
      have hmore : i < hdr.imgLen := by omega
      have hnext : (i + blockSize) % 2 ^ 32 = i + blockSize := Nat.mod_eq_of_lt (by omega)
      have hrest := ih fuel (i + blockSize) (by omega) (by omega)
      rw [staticLoop, if_pos hmore, sendStaticBlock, if_pos htype, hnext, hrest, pieces_slice]
      simp only [sendBlocks]
      congr 1
      funext status
      by_cases hstatus : status = .success
      · simp [hstatus, onlySuccess]
      · simp [hstatus, onlySuccess, returnCode]

/-- A status `hbi_wr_bin_fw` goes on after. -/
def wrBinFwAccepts (status : HbiStatus) : Bool := status = .success || status = .opIncomplete

theorem wrBinFw_branch {α : Type} (status : HbiStatus) {stop go : α} :
    (if status ≠ .success ∧ status ≠ .opIncomplete then stop else go)
      = if wrBinFwAccepts status = true then go else stop := by
  by_cases haccept : wrBinFwAccepts status = true
  · have hgo : ¬ (status ≠ .success ∧ status ≠ .opIncomplete) := by
      simpa [wrBinFwAccepts, imp_iff_not_or, or_comm] using haccept
    rw [if_neg hgo, if_pos haccept]
  · have hstop : status ≠ .success ∧ status ≠ .opIncomplete := by
      simpa [wrBinFwAccepts] using haccept
    rw [if_pos hstop, if_neg haccept]

theorem wrBinFwLoop_eq (handle : Nat) (buf : Nat → Byte) {size chunkLen : Nat}
    (hchunk : 0 < chunkLen) (hsize : size < 2 ^ 32) (left fuel i : Nat) (hfuel : left < fuel)
    (hi : i + (left + 1) * chunkLen = size) :
    wrBinFwLoop handle buf size chunkLen fuel i
      = sendBlocks wrBinFwAccepts some some handle
          (pieces chunkLen (left + 1) (slice buf i ((left + 1) * chunkLen))) := by
  induction left generalizing fuel i with
  | zero =>
      obtain ⟨fuel, rfl⟩ : ∃ rest, fuel = rest + 1 := ⟨fuel - 1, by omega⟩
      have hnext : (i + chunkLen) % 2 ^ 32 = i + chunkLen := Nat.mod_eq_of_lt (by omega)
      have hfits : ¬ (size < chunkLen ∨ chunkLen = 0) := by omega
      have hend : ¬ i + chunkLen < size := by omega
      rw [wrBinFwLoop, if_neg hfits, pieces_slice]
      simp only [sendBlocks, hnext, if_neg hend, pieces]
      congr 1
      funext status
      exact wrBinFw_branch status
  | succ left ih =>
      obtain ⟨fuel, rfl⟩ : ∃ rest, fuel = rest + 1 := ⟨fuel - 1, by omega⟩
      rw [Nat.succ_mul] at hi
      have hpos : 0 < (left + 1) * chunkLen := Nat.mul_pos (by omega) hchunk
      have hnext : (i + chunkLen) % 2 ^ 32 = i + chunkLen := Nat.mod_eq_of_lt (by omega)
      have hfits : ¬ (size < chunkLen ∨ chunkLen = 0) := by omega
      have hmore : i + chunkLen < size := by omega
      have hrest := ih fuel (i + chunkLen) (by omega) (by omega)
      rw [wrBinFwLoop, if_neg hfits, pieces_slice]
      simp only [sendBlocks, hnext, if_pos hmore, hrest]
      congr 1
      funext status
      exact wrBinFw_branch status

def loadingIssue (status : HbiStatus) : Except PyError Unit :=
  .error (pyStatusError "Error - LoadFirmware(): Firmware loading issue" status)

def finalStatus (status : HbiStatus) : Except PyError Unit :=
  if status ≠ .success then
    .error (pyStatusError "Error - LoadFirmware(): Firmware final loading issue" status)
  else .ok ()

section Script

variable (behind : Nat → Nat → Byte)

/-- The blocks of the script's loop from block `i` on. -/
def scriptBlocks (firmwareBuf : List Byte) (blockSize i : Nat) : Nat → List (List Byte)
  | 0 => []
  | left + 1 =>
      slice (overlay (behind i) 0 ((firmwareBuf.drop (i * blockSize)).take blockSize)) 0 blockSize
        :: scriptBlocks firmwareBuf blockSize (i + 1) left

theorem scriptBlocks_length (firmwareBuf : List Byte) (blockSize left i : Nat) :
    (scriptBlocks behind firmwareBuf blockSize i left).length = left := by
  induction left generalizing i with
  | zero => rfl
  | succ left ih => rw [scriptBlocks, List.length_cons, ih]

theorem length_of_mem_scriptBlocks {behind : Nat → Nat → Byte} {firmwareBuf block : List Byte}
    {blockSize left i : Nat} (h : block ∈ scriptBlocks behind firmwareBuf blockSize i left) :
    block.length = blockSize := by
  induction left generalizing i with
  | zero => cases h
  | succ left ih =>
      rcases List.mem_cons.1 h with rfl | hrest
      · exact slice_length _ _ _
      · exact ih hrest

/-- Where no slice is short, nothing behind one is read. -/
theorem scriptBlocks_eq_pieces {firmwareBuf : List Byte} {blockSize left i : Nat}
    (hlen : firmwareBuf.length = (i + left) * blockSize) :
    scriptBlocks behind firmwareBuf blockSize i left
      = pieces blockSize left (firmwareBuf.drop (i * blockSize)) := by
  induction left generalizing i with
  | zero => rfl
  | succ left ih =>
      have hend : firmwareBuf.length = i * blockSize + (left * blockSize + blockSize) := by
        rw [hlen, Nat.add_mul, Nat.succ_mul]
      have hblock : ((firmwareBuf.drop (i * blockSize)).take blockSize).length = blockSize := by
        rw [List.length_take, List.length_drop]
        omega
      have hdata := slice_overlay (behind i) 0 ((firmwareBuf.drop (i * blockSize)).take blockSize)
      rw [hblock] at hdata
      have hnext : firmwareBuf.length = (i + 1 + left) * blockSize := by
        rwa [Nat.succ_add_eq_add_succ]
      rw [scriptBlocks, hdata, ih hnext, pieces, List.drop_drop, Nat.succ_mul]

theorem loadFirmwareLoop_eq_sendBlocks (handle : Nat) (firmwareBuf : List Byte)
    (blockSize left i : Nat) :
    loadFirmwareLoop behind handle firmwareBuf blockSize left i
      = sendBlocks onlySuccess loadingIssue finalStatus handle
          (scriptBlocks behind firmwareBuf blockSize i left) := by
  induction left generalizing i with
  | zero =>
      simp only [loadFirmwareLoop, scriptBlocks, sendBlocks, finalStatus]
      congr 1
      funext status
      by_cases hstatus : status = .success
      · simp [hstatus]
      · simp [hstatus]
  | succ left ih =>
      have hslice := pySlice_add firmwareBuf (i * blockSize) blockSize
      rw [Nat.cast_mul] at hslice
      rw [loadFirmwareLoop, Nat.cast_mul, hslice, ih, scriptBlocks]
      simp only [sendBlocks]
      congr 1
      funext status
      by_cases hstatus : status = .success
      · simp [hstatus, onlySuccess]
      · simp [hstatus, onlySuccess, loadingIssue]

theorem loadFirmwareLoop_eq (handle : Nat) {firmwareBuf : List Byte} {blockSize : Nat} (left i : Nat)
    (hlen : firmwareBuf.length = (i + left) * blockSize) :
    loadFirmwareLoop behind handle firmwareBuf blockSize left i
      = sendBlocks onlySuccess loadingIssue finalStatus handle
          (pieces blockSize left (firmwareBuf.drop (i * blockSize))) := by
  rw [loadFirmwareLoop_eq_sendBlocks, scriptBlocks_eq_pieces behind hlen]

end Script

/-! ### The loaders on an image -/

section Agreement

variable {image : FwrImage} {handle fuel : Nat} {m : Nat → Byte}

theorem hbiLoadStaticimageFromHost_eq (hmem : slice m 0 image.bytes.length = image.bytes)
    (htype : image.header.imageType = imgTypeFwr) (hhdr : imgHdrLen < image.blockLen)
    (hbuffer : image.blockLen ≤ hbiBufferSize) (hfuel : image.numBlocks < fuel) :
    hbiLoadStaticimageFromHost fuel handle m
      = sendBlocks onlySuccess returnCode returnCode handle image.blocks := by
  have hsize := image.size_lt
  have hpayload := image.payload_eq
  have hblock : image.header.blockSize * 2 % 2 ^ 32 = image.blockLen := by
    rw [Nat.mul_comm]
    exact Nat.mod_eq_of_lt image.blockLen_lt
  have hoffset : image.header.hdrLen + image.numBlocks * image.blockLen
      = imgHdrLen + image.header.imgLen := by
    rw [image.imgLen_eq, hpayload]
    rfl
  have hloop := staticLoop_eq handle m htype hhdr
    (by rw [image.imgLen_eq]; exact hsize) image.numBlocks fuel image.header.hdrLen hfuel hoffset
  have hstart : slice m 0 imgHdrLen = image.hdr :=
    FwrImage.slice_hdr (List.append_nil _) (by rw [image.bytes_length]; omega) hmem
  rw [hbiLoadStaticimageFromHost, FwrImage.getHdr_eq hstart (by decide)]
  dsimp only
  rw [hblock, if_neg (by omega), hloop]
  congr 1
  exact FwrImage.blocks_eq hmem

theorem hbiWrBinFw_eq (hmem : slice m 0 image.payload.length = image.payload)
    (hfuel : image.numBlocks < fuel) :
    hbiWrBinFw fuel handle m image.header.imgLen image.header.blockSize
      = sendBlocks wrBinFwAccepts some some handle image.blocks := by
  have hsize := image.size_lt
  obtain ⟨left, hleft⟩ : ∃ left, image.numBlocks = left + 1 :=
    ⟨image.numBlocks - 1, by have := image.numBlocks_pos; omega⟩
  have hchunk : image.header.blockSize <<< 1 % 2 ^ 32 = image.blockLen := by
    rw [Nat.shiftLeft_eq, Nat.mul_comm]
    exact Nat.mod_eq_of_lt image.blockLen_lt
  have hlen : 0 + (left + 1) * image.blockLen = image.header.imgLen := by
    rw [image.imgLen_eq, image.payload_eq, hleft, Nat.zero_add]
  have hloop := wrBinFwLoop_eq handle m image.blockLen_pos
    (by rw [image.imgLen_eq]; omega) left fuel 0 (by omega) hlen
  rw [hbiWrBinFw, hchunk, hloop, FwrImage.blocks, hleft, ← hleft, ← image.payload_eq, hmem]

theorem loadFirmware_eq (behind : Nat → Nat → Byte) (handle : Nat) :
    loadFirmware behind handle image.bytes
      = (isFirmwareRunning handle >>= fun running =>
          if running = true then
            return .error (.valueError "Error - LoadFirmware(): Firmware running")
          else sendBlocks onlySuccess loadingIssue finalStatus handle image.blocks) := by
  have hlen : imgHdrLen ≤ image.bytes.length := by
    rw [image.bytes_length]
    omega
  have hheader : internalHbiGetHdr (listMem image.bytes) image.bytes.length = .ok image.header :=
    FwrImage.getHdr_eq (FwrImage.slice_hdr (List.append_nil _) hlen (slice_listMem image.bytes)) hlen
  have hslice : pySlice image.bytes image.header.hdrLen (image.header.hdrLen + image.header.imgLen)
      = image.payload := by
    have hdrop : image.bytes.drop image.header.hdrLen = image.payload := by
      rw [FwrImage.bytes, List.drop_append_of_le_length (by rw [image.hdr_length]; exact Nat.le_refl _),
        List.drop_of_length_le (by rw [image.hdr_length]; exact Nat.le_refl _), List.nil_append]
    rw [pySlice_add, hdrop, image.imgLen_eq, List.take_length]
  have hblock : image.header.blockSize * 2 = image.blockLen := Nat.mul_comm _ _
  have hpos := image.blockLen_pos
  have hdvd : image.header.imgLen % image.blockLen = 0 := by
    rw [image.imgLen_eq]
    exact Nat.mod_eq_zero_of_dvd image.block_dvd
  have hnum : image.header.imgLen / image.blockLen = image.numBlocks := by
    rw [image.imgLen_eq]
    rfl
  have hblocks : image.payload.length = (0 + image.numBlocks) * image.blockLen := by
    rw [Nat.zero_add]
    exact image.payload_eq
  have hloop := loadFirmwareLoop_eq behind handle image.numBlocks 0 hblocks
  rw [Nat.zero_mul, List.drop_zero] at hloop
  unfold loadFirmware
  congr 1
  funext running
  by_cases hrunning : running = true
  · rw [if_pos hrunning, if_pos hrunning]
  · rw [if_neg hrunning, if_neg hrunning, hheader]
    dsimp only
    rw [hslice, hblock, hnum, hdvd, hloop, if_neg hpos.ne', if_neg (not_not.2 rfl)]
    rfl

def issuedCommands (record : Prog.Exchanges HbiAsk HbiReply) : List HbiAsk :=
  (record.map Prod.fst).filter fun
    | .setCommand _ _ => true
    | _ => false

theorem filter_loadCommands (handle : Nat) (blocks : List (List Byte)) :
    (loadCommands handle blocks).filter (fun
      | .setCommand _ _ => true
      | _ => false) = loadCommands handle blocks := by
  apply List.filter_eq_self.2
  intro ask hask
  rcases List.mem_append.1 hask with hblock | hlast
  · obtain ⟨block, -, rfl⟩ := List.mem_map.1 hblock
    rfl
  · rw [List.mem_singleton.1 hlast]

def FirmwareStopped (handle : Nat)
    (answer : Prog.Exchanges HbiAsk HbiReply → HbiAsk → HbiReply) : Prop :=
  ∀ done, ((isFirmwareRunning handle).run answer done).2 = false

/-- Where every command succeeds, the three loaders issue the same commands: the blocks of the image in
order, each as long as its header declares and together the payload, and then one completion. -/
theorem loaders_agree (image : FwrImage) (htype : image.header.imageType = imgTypeFwr)
    (hhdr : imgHdrLen < image.blockLen) (hbuffer : image.blockLen ≤ 1024) (handle : Nat)
    (behind : Nat → Nat → Byte)
    {answer : Prog.Exchanges HbiAsk HbiReply → HbiAsk → HbiReply} (hanswer : CommandsSucceed answer)
    (hstopped : FirmwareStopped handle answer) {fuel : Nat} (hfuel : image.numBlocks < fuel)
    {pArg buf : Nat → Byte} (hpArg : slice pArg 0 image.bytes.length = image.bytes)
    (hbuf : slice buf 0 image.payload.length = image.payload) :
    (image.blocks.flatten = image.payload ∧ image.blocks.length = image.numBlocks ∧
        ∀ block ∈ image.blocks, block.length = image.blockLen) ∧
      (issuedCommands ((hbiLoadStaticimageFromHost fuel handle pArg).run answer []).1
          = loadCommands handle image.blocks ∧
        ((hbiLoadStaticimageFromHost fuel handle pArg).run answer []).2
          = some HbiStatus.success.code) ∧
      (issuedCommands ((hbiWrBinFw fuel handle buf image.header.imgLen
          image.header.blockSize).run answer []).1 = loadCommands handle image.blocks ∧
        ((hbiWrBinFw fuel handle buf image.header.imgLen
          image.header.blockSize).run answer []).2 = some .success) ∧
      issuedCommands ((loadFirmware behind handle image.bytes).run answer []).1
          = loadCommands handle image.blocks ∧
        ((loadFirmware behind handle image.bytes).run answer []).2 = .ok () := by
  refine ⟨image.blocks_spec, ?_, ?_, ?_⟩
  · rw [hbiLoadStaticimageFromHost_eq hpArg htype hhdr hbuffer hfuel]
    obtain ⟨hasked, hresult⟩ := sendBlocks_run onlySuccess returnCode returnCode handle hanswer rfl
      image.blocks []
    constructor
    · rw [issuedCommands, hasked]
      exact filter_loadCommands handle image.blocks
    · exact hresult
  · rw [hbiWrBinFw_eq hbuf hfuel]
    obtain ⟨hasked, hresult⟩ := sendBlocks_run wrBinFwAccepts some some handle hanswer rfl
      image.blocks []
    constructor
    · rw [issuedCommands, hasked]
      exact filter_loadCommands handle image.blocks
    · exact hresult
  · have hrunning := hstopped []
    rw [loadFirmware_eq, Prog.run_bind, hrunning]
    simp only [Bool.false_eq_true, if_false]
    obtain ⟨hasked, hresult⟩ := sendBlocks_run onlySuccess loadingIssue finalStatus handle hanswer rfl
      image.blocks ((isFirmwareRunning handle).run answer []).1
    constructor
    · rw [issuedCommands, hasked, List.filter_append, filter_loadCommands]
      rfl
    · rw [hresult]
      rfl

end Agreement

def twoBlocks : FwrImage where
  hdr := [0x40, 0x00, 0x50, 0x40, 0x00, 0x07, 0x00, 0x00, 0x00, 0x1C, 0x00, 0x00]
  payload := (List.range 28).map (BitVec.ofNat 8 ·)
  hdr_length := rfl
  payload_length := by decide
  payload_pos := by decide
  block_dvd := by decide
  size_lt := by decide

def stoppedDevice (_ : Prog.Exchanges HbiAsk HbiReply) (_ : HbiAsk) : HbiReply :=
  ⟨.success, [0, 0]⟩

theorem loaders_agree_twoBlocks :
    issuedCommands ((hbiLoadStaticimageFromHost 3 5 (listMem twoBlocks.bytes)).run
        stoppedDevice []).1 = loadCommands 5 twoBlocks.blocks ∧
      issuedCommands ((hbiWrBinFw 3 5 (listMem twoBlocks.payload) 28 7).run stoppedDevice []).1
        = loadCommands 5 twoBlocks.blocks ∧
      issuedCommands ((loadFirmware (fun _ _ => 0) 5 twoBlocks.bytes).run stoppedDevice []).1
        = loadCommands 5 twoBlocks.blocks := by
  have hanswer : CommandsSucceed stoppedDevice := fun _ _ _ => rfl
  have hstopped : FirmwareStopped 5 stoppedDevice := by
    intro done
    simp [isFirmwareRunning, stoppedDevice, formatNumber, List.range_succ]
  obtain ⟨-, hstatic, hwrite, hpython⟩ := loaders_agree twoBlocks (by decide) (by decide) (by decide) 5
    (fun _ _ => 0) hanswer hstopped (show twoBlocks.numBlocks < 3 by decide) (slice_listMem twoBlocks.bytes)
    (slice_listMem twoBlocks.payload)
  exact ⟨hstatic.1, hwrite.1, hpython.1⟩

end VprocSdk
