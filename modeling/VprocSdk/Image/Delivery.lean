import VprocSdk.Converter.Images
import VprocSdk.Image.HeaderCodec
import VprocSdk.Image.WrBin
import VprocSdk.Tw.Registers

/-!
# What a device is sent by a loader

The commands of a loader go through the driver to the port of a device. Whatever the device answers, the
blocks that the port takes are the first blocks of the image, in order and each once. For an image that the
converter made, the device has then been sent complete commands that write a part of what the image writes,
from its beginning on, and the whole of it when the loader reports no error.
-/

namespace VprocSdk

open Lib HbiCmd

/-! ### The driver below a loader -/

/-- How the driver answers a loader, on the device of its handle. -/
def driven (pDev : TwDev) : HbiAsk → Tw HbiReply
  | .setCommand _ cmd => do
      let (status, _) ← internalHbiSetCommand pDev cmd
      return ⟨status, []⟩
  | .read _ reg length => do
      match ← internalHbiRead reg length with
      | .error status => return ⟨status, []⟩
      | .ok data => return ⟨.success, data⟩
  | .close _ | .term => return ⟨.success, []⟩

/-- The block a raw write to the port carries. -/
def BusOp.raw : BusOp → Option (List Byte)
  | .portWrite data => some data
  | .read _ _ | .write _ _ => none

def blocksSent (record : BusRecord) : List (List Byte) := record.filterMap fun x => x.1.raw

/-- The blocks the port reported as written. -/
def blocksTaken (record : BusRecord) : List (List Byte) :=
  blocksSent (record.filter fun x => x.2.status = .ok)

theorem blocksSent_append (record more : BusRecord) :
    blocksSent (record ++ more) = blocksSent record ++ blocksSent more := List.filterMap_append

theorem blocksTaken_append (record more : BusRecord) :
    blocksTaken (record ++ more) = blocksTaken record ++ blocksTaken more := by
  rw [blocksTaken, List.filter_append, blocksSent_append]
  rfl

theorem IsRegisterAccess.raw {op : BusOp} (h : IsRegisterAccess op) : op.raw = none := by
  cases op with
  | read | write => rfl
  | portWrite data => exact absurd rfl (h data)

theorem blocks_registers {record : BusRecord} (h : ∀ x ∈ record, IsRegisterAccess x.1) :
    blocksSent record = [] ∧ blocksTaken record = [] := by
  have hsent : ∀ record : BusRecord, (∀ x ∈ record, IsRegisterAccess x.1) → blocksSent record = [] :=
    fun record hrecord => List.filterMap_eq_nil_iff.2 fun x hx => (hrecord x hx).raw
  exact ⟨hsent record h, hsent _ fun x hx => h x (List.mem_of_mem_filter hx)⟩

theorem setCommand_driven (pDev : TwDev) (handle : Nat) (cmd : Command)
    (answer : BusRecord → BusOp → BusAnswer) (done : BusRecord) :
    ((setCommand handle cmd).handled (driven pDev)).run answer done
      = (((internalHbiSetCommand pDev cmd).run answer done).1,
          ((internalHbiSetCommand pDev cmd).run answer done).2.1) := by
  simp only [setCommand, Prog.handled_bind, Prog.handled_query, driven, Prog.run_bind]
  rfl

theorem firmware_driven (pDev : TwDev) (handle : Nat) (block : List Byte)
    (answer : BusRecord → BusOp → BusAnswer) (done : BusRecord) :
    ((setCommand handle (.firmware block)).handled (driven pDev)).run answer done
      = (twBootWrite pDev (some (some block))).run answer done := by
  rw [setCommand_driven]
  simp only [internalHbiSetCommand, Prog.run_bind]
  rfl

theorem loadFwrComplete_driven (pDev : TwDev) (handle : Nat) (answer : BusRecord → BusOp → BusAnswer)
    (done : BusRecord) :
    ((setCommand handle .loadFwrComplete).handled (driven pDev)).run answer done
      = (twBootConclude pDev).run answer done := by
  rw [setCommand_driven]
  simp only [internalHbiSetCommand, Prog.run_bind]
  rfl

theorem asks_twBootConclude (pDev : TwDev) : (twBootConclude pDev).Asks IsRegisterAccess :=
  asks_chk (asks_twWrCmdreg (isRegisterAccess_read _ _) (isRegisterAccess_write _ _)
    (isRegisterAccess_write _ _) (isRegisterAccess_read _ _))
    ((asks_twCmdresultCheck (isRegisterAccess_read _ _)).bind fun _ => trivial)

/-- The port takes the first `n` blocks, and is given no more than the one after them. -/
structure FirstBlocks (blocks : List (List Byte)) (more : BusRecord) (n : Nat) : Prop where
  le : n ≤ blocks.length
  taken : blocksTaken more = blocks.take n
  sent : blocksSent more = blocks.take n ∨ blocksSent more = blocks.take (n + 1)

/-- However the device answers, a loader that stops at the first block that fails has the first blocks
taken, and all of them if it comes to the completion. -/
theorem sendBlocks_delivers {ρ : Type} (failed finished : HbiStatus → ρ) (pDev : TwDev) (handle : Nat)
    (answer : BusRecord → BusOp → BusAnswer) (blocks : List (List Byte)) (done : BusRecord) :
    ∃ more result n, ((sendBlocks onlySuccess failed finished handle blocks).handled (driven pDev)).run
        answer done = (done ++ more, result) ∧ FirstBlocks blocks more n ∧
      (n = blocks.length ∧ (∃ status, result = finished status) ∨
        ∃ status, status ≠ .success ∧ result = failed status) := by
  induction blocks generalizing done with
  | nil =>
      obtain ⟨more, hmore, hasked⟩ := (asks_twBootConclude pDev).run answer done
      obtain ⟨hsent, htaken⟩ := blocks_registers hasked
      refine ⟨more, finished ((twBootConclude pDev).run answer done).2, 0, ?_,
        ⟨Nat.le_refl 0, htaken, .inl hsent⟩, .inl ⟨rfl, _, rfl⟩⟩
      rw [sendBlocks, Prog.handled_bind, Prog.run_bind, loadFwrComplete_driven, hmore]
      rfl
  | cons block blocks ih =>
      obtain ⟨before, hasked, hblock⟩ := twBootWrite_run pDev block answer done
      obtain ⟨hsent, htaken⟩ := blocks_registers hasked
      have hrun : ((sendBlocks onlySuccess failed finished handle (block :: blocks)).handled
          (driven pDev)).run answer done
          = ((if onlySuccess ((twBootWrite pDev (some (some block))).run answer done).2 then
              sendBlocks onlySuccess failed finished handle blocks
            else return failed ((twBootWrite pDev (some (some block))).run answer done).2 : Loader ρ).handled
              (driven pDev)).run answer ((twBootWrite pDev (some (some block))).run answer done).1 := by
        rw [sendBlocks, Prog.handled_bind, Prog.run_bind, firmware_driven]
      have hstop : ∀ {status : HbiStatus}, status ≠ .success → onlySuccess status = false := by
        intro status hstatus
        simpa [onlySuccess] using hstatus
      rw [hrun]
      rcases hblock with ⟨status, hstatus, heq⟩ | ⟨ans, heq⟩
      · rw [heq, hstop hstatus]
        exact ⟨before, failed status, 0, rfl, ⟨Nat.zero_le _, htaken, .inl hsent⟩,
          .inr ⟨status, hstatus, rfl⟩⟩
      · rw [heq]
        have hone : blocksSent (before ++ [(.portWrite block, ans)]) = [block] := by
          rw [blocksSent_append, hsent]
          rfl
        by_cases hok : ans.status = .ok
        · have hone' : blocksTaken (before ++ [(.portWrite block, ans)]) = [block] := by
            rw [blocksTaken_append, htaken, blocksTaken, List.filter_singleton, hok]
            rfl
          rw [if_pos hok]
          obtain ⟨more, result, n, hrest, hfirst, hend⟩ := ih (done ++ before ++ [(.portWrite block, ans)])
          refine ⟨before ++ [(.portWrite block, ans)] ++ more, result, n + 1, ?_, ?_, ?_⟩
          · simp only [onlySuccess, decide_true, ↓reduceIte]
            rw [hrest]
            simp only [List.append_assoc]
          · refine ⟨Nat.succ_le_succ hfirst.le, ?_, ?_⟩
            · rw [blocksTaken_append, hone', hfirst.taken]
              rfl
            · rw [blocksSent_append, hone]
              exact hfirst.sent.imp (congrArg (block :: ·)) (congrArg (block :: ·))
          · exact hend.imp_left fun hdone => ⟨congrArg (· + 1) hdone.1, hdone.2⟩
        · have hnone : blocksTaken (before ++ [(.portWrite block, ans)]) = [] := by
            rw [blocksTaken_append, htaken, blocksTaken, List.filter_singleton]
            simp [hok, blocksSent]
          have hfail : onlySuccess HbiStatus.internalErr = false := rfl
          rw [if_neg hok]
          dsimp only
          rw [hfail]
          refine ⟨before ++ [(.portWrite block, ans)], failed .internalErr, 0, ?_,
            ⟨Nat.zero_le _, hnone, .inr hone⟩, .inr ⟨.internalErr, by decide, rfl⟩⟩
          rw [← List.append_assoc]
          rfl

/-! ### A converted image -/

/-- The bytes as the converter and the stream of commands have them. -/
def intBytes (data : List Byte) : List Int := data.map fun b => (b.toNat : Int)

theorem intBytes_byteOf {bytes : List Int} (h : ∀ b ∈ bytes, IsByte b) :
    intBytes (bytes.map byteOf) = bytes := by
  rw [intBytes, List.map_map]
  refine (List.map_congr_left fun b hb => ?_).trans (List.map_id _)
  obtain ⟨hpos, hle⟩ := h b hb
  change ((BitVec.ofInt 8 b).toNat : Int) = b
  rw [BitVec.toNat_ofInt]
  omega

theorem HbiCmd.IsStream.isByte {bytes : List Int} (h : IsStream bytes) : ∀ b ∈ bytes, IsByte b := by
  obtain ⟨cmds, hvalid, rfl⟩ := h
  intro b hb
  obtain ⟨cmd, hcmd, hb⟩ := List.mem_flatMap.1 hb
  exact (hvalid cmd hcmd).isByte b hb

theorem HbiCmd.isStream_flatten {chunks : List (List Int)} (h : ∀ chunk ∈ chunks, IsStream chunk) :
    IsStream chunks.flatten := by
  induction chunks with
  | nil => exact isStream_nil
  | cons chunk chunks ih =>
      exact (h chunk List.mem_cons_self).append (ih fun c hc => h c (List.mem_cons_of_mem _ hc))

namespace StandsAlone

variable {size : Nat} {payload : List Int}

theorem isStream_chunk (h : StandsAlone size payload) :
    ∀ chunk ∈ pieces size (payload.length / size) payload, IsStream chunk := by
  intro chunk hchunk
  obtain ⟨cmds, hparse, hvalid, -⟩ := h.chunk chunk hchunk
  exact ⟨cmds, hvalid, (encodeAll_parse hparse).symm⟩

theorem flatten_pieces (h : StandsAlone size payload) :
    (pieces size (payload.length / size) payload).flatten = payload :=
  pieces_flatten (Nat.div_mul_cancel h.multiple).symm

theorem firstChunks (h : StandsAlone size payload) {all : List HbiCmd} (hparse : parse payload = some all)
    (n : Nat) : ∃ cmds rest, all = cmds ++ rest ∧ (∀ cmd ∈ cmds, cmd.Valid) ∧
      ((pieces size (payload.length / size) payload).take n).flatten = encodeAll cmds := by
  obtain ⟨cmds, hvalid, hfirst⟩ := @isStream_flatten
    ((pieces size (payload.length / size) payload).take n)
    fun chunk hchunk => h.isStream_chunk chunk (List.mem_of_mem_take hchunk)
  obtain ⟨rest, hvalid', hlast⟩ := @isStream_flatten
    ((pieces size (payload.length / size) payload).drop n)
    fun chunk hchunk => h.isStream_chunk chunk (List.mem_of_mem_drop hchunk)
  have hall : encodeAll (cmds ++ rest) = payload := by
    rw [encodeAll_append, ← hfirst, ← hlast, ← List.flatten_append, List.take_append_drop]
    exact h.flatten_pieces
  have hread : parse payload = some (cmds ++ rest) := by
    rw [← hall]
    exact parse_encodeAll fun cmd hcmd => (List.mem_append.1 hcmd).elim (hvalid cmd) (hvalid' cmd)
  rw [hparse] at hread
  exact ⟨cmds, rest, Option.some.inj hread, hvalid, hfirst⟩

end StandsAlone

theorem generateFwImage_header {fuel : Nat} {segs : List (Int × List Int)} {headerBytes image : List Int}
    {bufferList : List (List Char)} {fwOpn blockSize : Int} {globals globals' : ConverterGlobals}
    (h : generateFwImage fuel segs headerBytes bufferList fwOpn blockSize globals
      = some (.ok image, globals')) (hblock : IsByte blockSize) :
    HasHeader imgHdrFirmware fwOpn blockSize image := by
  unfold generateFwImage at h
  obtain ⟨⟨segBlocks, g⟩, -, hrest⟩ := Option.bind_eq_some_iff.1 h
  obtain ⟨⟨headerBlocks, g'⟩, -, hlast⟩ := Option.bind_eq_some_iff.1 hrest
  dsimp only at hlast
  split at hlast
  · cases hlast
  · cases hlast
    exact ⟨_, rfl, hblock⟩

theorem HasHeader.getHdr {fwOpn : Int} {words : Nat} {image : List Int}
    (h : HasHeader imgHdrFirmware fwOpn words image) :
    internalHbiGetHdr (listMem (image.map byteOf)) image.length
      = .ok (converterFields 0 fwOpn words (image.drop 12).length).hdr := by
  obtain ⟨out, rfl, hblock⟩ := h
  have hdrop : (imageHeader imgHdrFirmware fwOpn words out.length ++ out).drop 12 = out := rfl
  have hencode : (imageHeader imgHdrFirmware fwOpn words out.length ++ out).map byteOf
      = (converterFields 0 fwOpn words out.length).encode ++ out.map byteOf := by
    rw [List.map_append]
    exact congrArg (· ++ _) (imageHeader_encode 0 out.length hblock)
  have hread : ReadsAs 32 ((converterFields 0 fwOpn words out.length).encode ++ out.map byteOf)
      (converterFields 0 fwOpn words out.length).hdr :=
    (HdrFields.readsAs_iff _ _ (Nat.le_refl 32)).2 ⟨rfl, rfl, .inl rfl⟩
  have hget := @kernelGetHdr_eq (listMem ((converterFields 0 fwOpn words out.length).encode ++ out.map byteOf))
    ((converterFields 0 fwOpn words out.length).encode ++ out.map byteOf).length ⟨0, 0, 0, 0, 0, 0, 0, 0⟩
  rw [(hread _).1, if_pos rfl, ← hencode, List.length_map] at hget
  rw [hdrop]
  exact hget

/-- An image with a header of the converter and a payload in whole blocks is well-formed. -/
theorem HasHeader.wellFormed {fwOpn : Int} {words : Nat} {image : List Int}
    (h : HasHeader imgHdrFirmware fwOpn words image) (hwords : words ≤ 128)
    (hsize : image.length < 2 ^ 32) (hpos : 0 < (image.drop 12).length)
    (hblocks : 2 * words ∣ (image.drop 12).length) :
    ∃ fwr : FwrImage, fwr.bytes = image.map byteOf ∧ fwr.payload = (image.drop 12).map byteOf ∧
      fwr.header.imageType = imgTypeFwr ∧ fwr.blockLen = 2 * words := by
  have hget := h.getHdr
  obtain ⟨out, rfl, hblock⟩ := h
  have hdrop : (imageHeader imgHdrFirmware fwOpn words out.length ++ out).drop 12 = out := rfl
  rw [hdrop] at hget hpos hblocks ⊢
  have hlen : 12 + out.length < 2 ^ 32 := by
    rw [List.length_append] at hsize
    exact hsize
  have hhdr : imgHdr (listMem ((imageHeader imgHdrFirmware fwOpn words out.length).map byteOf))
      = (converterFields 0 fwOpn words out.length).hdr := by
    rw [internalHbiGetHdr, if_neg (by rw [List.length_append]; exact Nat.not_lt.2 (Nat.le_add_right 12 _)),
      List.map_append] at hget
    rw [← Except.ok.inj hget]
    exact imgHdr_congr rfl
  have hcount : (converterFields 0 fwOpn words out.length).hdr.imgLen = out.length := by
    change (BitVec.ofNat 32 out.length).toNat = out.length
    rw [BitVec.toNat_ofNat]
    omega
  have hblockSize : (converterFields 0 fwOpn words out.length).hdr.blockSize = words := by
    change (BitVec.ofInt 16 words).toNat = words
    rw [BitVec.toNat_ofInt]
    omega
  refine ⟨⟨(imageHeader imgHdrFirmware fwOpn words out.length).map byteOf, out.map byteOf, rfl, ?_, ?_, ?_,
    ?_⟩, List.map_append.symm, rfl, ?_, ?_⟩
  · rw [hhdr, hcount, List.length_map]
  · rw [List.length_map]
    exact hpos
  · rw [hhdr, hblockSize, List.length_map]
    exact hblocks
  · rw [List.length_map]
    exact hlen
  · rw [FwrImage.header, hhdr]
    rfl
  · rw [FwrImage.blockLen, FwrImage.header, hhdr, hblockSize]

/-! ### Loading it -/

/-- Whatever the device answers, the port takes the first blocks, and all of them when the program returns
a result that is `ok`. -/
def DeliversBlocks {ρ : Type} (program : Loader ρ) (ok : ρ → Prop) (blocks : List (List Byte)) : Prop :=
  ∀ (pDev : TwDev) (answer : BusRecord → BusOp → BusAnswer) (done : BusRecord),
    ∃ more result n, (program.handled (driven pDev)).run answer done = (done ++ more, result) ∧
      FirstBlocks blocks more n ∧ (ok result → n = blocks.length)

theorem delivers_sendBlocks {ρ : Type} {failed finished : HbiStatus → ρ} {ok : ρ → Prop}
    (hfailed : ∀ status, status ≠ .success → ¬ ok (failed status)) (handle : Nat)
    (blocks : List (List Byte)) :
    DeliversBlocks (sendBlocks onlySuccess failed finished handle blocks) ok blocks := by
  intro pDev answer done
  obtain ⟨more, result, n, hrun, hfirst, hend⟩ :=
    sendBlocks_delivers failed finished pDev handle answer blocks done
  refine ⟨more, result, n, hrun, hfirst, ?_⟩
  intro hok
  rcases hend with ⟨hall, -⟩ | ⟨status, hstatus, rfl⟩
  · exact hall
  · exact absurd hok (hfailed status hstatus)

theorem asks_isFirmwareRunning (pDev : TwDev) (handle : Nat) :
    ((isFirmwareRunning handle).handled (driven pDev)).Asks IsRegisterAccess := by
  have hread : (internalHbiRead 0x028 2).Asks IsRegisterAccess := by
    rw [internalHbiRead_eq]
    exact ⟨isRegisterAccess_read _ _, fun _ => trivial⟩
  rw [isFirmwareRunning, Prog.handled_bind, Prog.handled_query]
  refine Prog.Asks.bind (hread.bind fun result => ?_) fun reply => trivial
  cases result with
  | error status => trivial
  | ok data => trivial

theorem FirstBlocks.after {blocks : List (List Byte)} {before more : BusRecord} {n : Nat}
    (h : FirstBlocks blocks more n) (hbefore : ∀ x ∈ before, IsRegisterAccess x.1) :
    FirstBlocks blocks (before ++ more) n := by
  obtain ⟨hsent, htaken⟩ := blocks_registers hbefore
  refine ⟨h.le, ?_, ?_⟩
  · rw [blocksTaken_append, htaken]
    exact h.taken
  · rw [blocksSent_append, hsent]
    exact h.sent

theorem delivers_loadFirmware (image : FwrImage) (behind : Nat → Nat → Byte) (handle : Nat) :
    DeliversBlocks (loadFirmware behind handle image.bytes) (fun result => result = .ok ()) image.blocks := by
  intro pDev answer done
  obtain ⟨before, hbefore, hasked⟩ := (asks_isFirmwareRunning pDev handle).run answer done
  rw [loadFirmware_eq, Prog.handled_bind, Prog.run_bind, hbefore]
  by_cases hrunning : (((isFirmwareRunning handle).handled (driven pDev)).run answer done).2 = true
  · obtain ⟨hsent, htaken⟩ := blocks_registers hasked
    rw [if_pos hrunning]
    exact ⟨before, _, 0, rfl, ⟨Nat.zero_le _, htaken, .inl hsent⟩, fun hok => nomatch hok⟩
  · have hblocks : DeliversBlocks (sendBlocks onlySuccess loadingIssue finalStatus handle image.blocks)
        (fun result => result = .ok ()) image.blocks :=
      delivers_sendBlocks (fun status _ hok => nomatch hok) handle image.blocks
    obtain ⟨more, result, n, hrun, hfirst, hok⟩ := hblocks pDev answer (done ++ before)
    rw [if_neg hrunning]
    refine ⟨before ++ more, result, n, ?_, hfirst.after hasked, hok⟩
    rw [← List.append_assoc]
    exact hrun

theorem delivers_staticImage {image : FwrImage} {fuel handle : Nat} {m : Nat → Byte}
    (hmem : slice m 0 image.bytes.length = image.bytes) (htype : image.header.imageType = imgTypeFwr)
    (hhdr : imgHdrLen < image.blockLen) (hbuffer : image.blockLen ≤ hbiBufferSize)
    (hfuel : image.numBlocks < fuel) :
    DeliversBlocks (hbiLoadStaticimageFromHost fuel handle m)
      (fun result => result = some HbiStatus.success.code) image.blocks := by
  rw [hbiLoadStaticimageFromHost_eq hmem htype hhdr hbuffer hfuel]
  refine delivers_sendBlocks ?_ handle image.blocks
  intro status hstatus hok
  cases status with
  | success => exact hstatus rfl
  | _ => exact absurd (Option.some.inj hok) (by decide)

/-! ### What the device has been told -/

/-- The blocks of `words` words behind the header of an image. -/
def imageBlocks (words : Nat) (image : List Int) : List (List Byte) :=
  pieces (2 * words) ((image.drop 12).length / (2 * words)) ((image.drop 12).map byteOf)

/-- Whatever the device answers, its port takes the first blocks and is given no more than the one after
them. Their bytes are complete commands that stay in their windows and perform the first of the writes.
When the program returns a result that is `ok`, these are all blocks and all writes. -/
def Installs {ρ : Type} (program : Loader ρ) (ok : ρ → Prop) (blocks : List (List Byte))
    (writes : List (Int × Int)) : Prop :=
  ∀ (pDev : TwDev) (answer : BusRecord → BusOp → BusAnswer) (done : BusRecord),
    ∃ more result n cmds, (program.handled (driven pDev)).run answer done = (done ++ more, result) ∧
      FirstBlocks blocks more n ∧ (ok result → n = blocks.length) ∧
      parse (intBytes (blocksTaken more).flatten) = some cmds ∧ (∀ cmd ∈ cmds, cmd.Valid) ∧
      ∀ hbi : HbiState, hbi.InWindow cmds ∧ hbi.writesAll cmds <+: writes ∧
        (ok result → hbi.writesAll cmds = writes)

theorem pieces_map {α β : Type} (f : α → β) (b n : Nat) (xs : List α) :
    pieces b n (xs.map f) = (pieces b n xs).map (List.map f) := by
  induction n generalizing xs with
  | zero => rfl
  | succ n ih => rw [pieces, pieces, ← List.map_take, ← List.map_drop, ih, List.map_cons]

/-- A program that delivers the blocks of a payload that stands alone has its commands performed in
order. -/
theorem DeliversBlocks.installs {ρ : Type} {program : Loader ρ} {ok : ρ → Prop} {size : Nat} {payload : List Int}
    {all : List HbiCmd} {writes : List (Int × Int)}
    (h : DeliversBlocks program ok (pieces size (payload.length / size) (payload.map byteOf)))
    (hpayload : StandsAlone size payload) (hparse : parse payload = some all)
    (hall : ∀ hbi : HbiState, hbi.InWindow all ∧ hbi.writesAll all = writes) :
    Installs program ok (pieces size (payload.length / size) (payload.map byteOf)) writes := by
  intro pDev answer done
  obtain ⟨more, result, n, hrun, hfirst, hok⟩ := h pDev answer done
  obtain ⟨cmds, rest, hsplit, hvalid, hchunks⟩ := hpayload.firstChunks hparse n
  have htaken : intBytes (blocksTaken more).flatten = encodeAll cmds := by
    rw [hfirst.taken, pieces_map, ← List.map_take, ← List.map_flatten, hchunks,
      intBytes_byteOf (IsStream.isByte ⟨cmds, hvalid, rfl⟩)]
  refine ⟨more, result, n, cmds, hrun, hfirst, hok, ?_, hvalid, ?_⟩
  · rw [htaken]
    exact parse_encodeAll hvalid
  · intro hbi
    obtain ⟨hwindow, hwrites⟩ := hall hbi
    rw [hsplit, HbiState.inWindow_append] at hwindow
    refine ⟨hwindow.1, ?_, ?_⟩
    · rw [← hwrites, hsplit, HbiState.writesAll_append]
      exact List.prefix_append _ _
    · intro hresult
      have hwhole : encodeAll cmds = payload := by
        have hlen := hok hresult
        rw [pieces_length] at hlen
        rw [← hchunks, List.take_of_length_le (by rw [pieces_length, hlen])]
        exact hpayload.flatten_pieces
      have hread := parse_encodeAll hvalid
      rw [hwhole, hparse] at hread
      rw [← Option.some.inj hread]
      exact hwrites

/-- The images of `GenerateFwFile` are installed by both loaders: through every failure of the device its
port has taken the first blocks of the image, which write a first part of the segments, the S3 header and the execution address, in this
order, and all of it when the loader reports success. -/
theorem firmware_installed (segs : List Segment) (headerBytes : List Int)
    (bufferList : List (List Char)) (fwOpn addr : Int) (words fuel : Nat)
    (hwords : 16 ≤ words ∧ words ≤ 128) (hrange : ∀ seg ∈ segs, seg.InRange)
    (hheader : headerBytes.length = 216) (hbytes : ∀ b ∈ headerBytes, IsByte b)
    (hs7 : HasS7 bufferList addr) (hfuel : ∀ seg ∈ segs, seg.bytes.length ≤ fuel) (hfuel' : 216 ≤ fuel) :
    ∃ image, generateFwImage fuel (segs.map Segment.pair) headerBytes bufferList fwOpn words .initial
        = some (.ok image, .initial) ∧
      (image.length < 2 ^ 32 → ∀ (behind : Nat → Nat → Byte) (handle : Nat),
        Installs (loadFirmware behind handle (image.map byteOf)) (fun result => result = .ok ())
          (imageBlocks words image)
          (segs.flatMap Segment.writes ++
            (writesAt 0x00080128 headerBytes ++ writesAt 0x12C (addrBytes addr))) ∧
        ∀ (m : Nat → Byte) (turns : Nat), slice m 0 image.length = image.map byteOf →
            image.length < turns →
          Installs (hbiLoadStaticimageFromHost turns handle m)
            (fun result => result = some HbiStatus.success.code) (imageBlocks words image)
            (segs.flatMap Segment.writes ++
              (writesAt 0x00080128 headerBytes ++ writesAt 0x12C (addrBytes addr)))) := by
  obtain ⟨result, globals, hgen, hok, hread⟩ := generateFwImage_run segs bufferList fwOpn hwords hheader
    hbytes hfuel hfuel'
  obtain ⟨image, rfl⟩ := hok ⟨addr, hs7⟩
  obtain ⟨rfl, hformatted⟩ := hread image rfl
  have hwrites : ∀ hbi, ∃ writes, Formatted words false (∀ seg ∈ segs, seg.InRange) hbi 0 writes
      (image.drop 12, .initial) ∧ writes = segs.flatMap Segment.writes ++
        (writesAt 0x00080128 headerBytes ++ writesAt 0x12C (addrBytes addr)) := by
    intro hbi
    obtain ⟨line, hline, his, hformatted⟩ := hformatted hbi
    exact ⟨_, hformatted, by rw [hs7.address line hline his]⟩
  obtain ⟨all, hparse, hall⟩ := Formatted.read hwrites
  have hpayload : StandsAlone (2 * words) (image.drop 12) :=
    Formatted.standsAlone (by omega) fun hbi => (hwrites hbi).imp fun _ h => h.1
  have hperformed : ∀ hbi : HbiState, hbi.InWindow all ∧ hbi.writesAll all = segs.flatMap Segment.writes ++
      (writesAt 0x00080128 headerBytes ++ writesAt 0x12C (addrBytes addr)) :=
    fun hbi => ⟨(hall hbi).1, (hall hbi).2 hrange⟩
  refine ⟨image, hgen, fun hsize => ?_⟩
  have hpos : 0 < (image.drop 12).length := by
    apply Nat.pos_of_ne_zero
    intro hzero
    have hnone : all = [] := by
      rw [List.eq_nil_of_length_eq_zero hzero] at hparse
      exact (Option.some.inj hparse).symm
    have hlast := (hperformed ⟨0, 0, 0, 0⟩).2
    rw [hnone] at hlast
    have hempty := (List.append_eq_nil_iff.1 (List.append_eq_nil_iff.1 hlast.symm).2).1
    cases headerBytes with
    | nil => exact absurd hheader (by decide)
    | cons b bytes => cases hempty
  have hword : IsByte (words : Int) := ⟨by omega, by omega⟩
  obtain ⟨fwr, hall', hpayload', htype, hblock⟩ := (generateFwImage_header hgen hword).wellFormed hwords.2
    hsize hpos hpayload.multiple
  have hblocks : fwr.blocks = imageBlocks words image := by
    rw [imageBlocks, FwrImage.blocks, FwrImage.numBlocks, hblock, hpayload', List.length_map]
  intro behind handle
  constructor
  · have hloaded := delivers_loadFirmware fwr behind handle
    rw [hall', hblocks] at hloaded
    exact hloaded.installs hpayload hparse hperformed
  · intro m turns hmem hturns
    have hlen : fwr.bytes.length = image.length := by rw [hall', List.length_map]
    have hnum := fwr.numBlocks_le
    have hbytesLen := fwr.bytes_length
    have hloaded : DeliversBlocks (hbiLoadStaticimageFromHost turns handle m)
        (fun result => result = some HbiStatus.success.code) fwr.blocks := by
      apply delivers_staticImage
      · rw [hlen, hall']
        exact hmem
      · exact htype
      · rw [hblock, imgHdrLen]
        omega
      · rw [hblock, hbiBufferSize]
        omega
      · omega
    rw [hblocks] at hloaded
    exact hloaded.installs hpayload hparse hperformed

theorem firmware_installed_oneWord : ∃ image : List Int, ∀ (behind : Nat → Nat → Byte) (handle : Nat),
    Installs (loadFirmware behind handle (image.map byteOf)) (fun result => result = .ok ())
      (imageBlocks 16 image)
      ([(0x00200000, 0x12), (0x00200001, 0x34)] ++ (writesAt 0x00080128 (List.replicate 216 0) ++
        [(0x12C, 0x00), (0x12D, 0x20), (0x12E, 0x00), (0x12F, 0x00)])) := by
  obtain ⟨image, hgen, hload⟩ := firmware_installed
    [⟨0x00200000, [0x12, 0x34], by decide, by decide, by simp [IsByte]⟩] (List.replicate 216 0)
    [s7Record 0x00200000] 38040 0x00200000 16 216 (by decide) (by simp [Segment.InRange])
    List.length_replicate isByte_zeros (hasS7_s7Record 0x00200000) (by simp) (by decide)
  have hlen : (((generateFwImage 216 [(0x00200000, [0x12, 0x34])] (List.replicate 216 0)
      [s7Record 0x00200000] 38040 16 .initial).bind fun r => r.1.toOption).getD []).length < 2 ^ 32 := by
    decide +kernel
  have hsize : image.length < 2 ^ 32 := by
    have hgen' : generateFwImage 216 [(0x00200000, [0x12, 0x34])] (List.replicate 216 0)
        [s7Record 0x00200000] 38040 16 .initial = some (.ok image, .initial) := hgen
    rw [hgen'] at hlen
    exact hlen
  exact ⟨image, fun behind handle => (hload hsize behind handle).1⟩

end VprocSdk
