import VprocSdk.Apps.FlashParts
import VprocSdk.Apps.MiTunerStream
import VprocSdk.Converter.History
import VprocSdk.Image.Delivery
import VprocSdk.Lib.Trace

/-!
# Uploads through the server

A firmware comes to the server as the text of an S3 file, in a first piece, any number of further ones, and a
last one that has it converted and loaded. The pieces may come from several clients, with other requests in
between, and the globals of the converter stay over all of them. Whatever the driver answers, the server asks
exactly what it asks for the requests it takes, up to one that ends it, and what it reports as loaded is the
whole payload of the image.
-/

namespace VprocSdk

open Lib

/-! ### What a request has the driver load -/

def acceptedBlock (x : PyAsk × PyReply) : Option (List Byte) :=
  match x.1 with
  | .hbi (.setCommand _ (.loadFwrFromHost (some (some block)))) =>
      if x.2.hbi.status = .success then some block else none
  | _ => none

def acceptedBlocks (exchanges : Prog.Exchanges PyAsk PyReply) : List (List Byte) :=
  exchanges.filterMap acceptedBlock

/-- The exchanges of a load, of a payload: its first blocks are written, and all of them if it is `ok`. -/
structure Loads (payload : List Byte) (exchanges : Prog.Exchanges PyAsk PyReply) (ok : Bool) : Prop where
  first : (acceptedBlocks exchanges).flatten <+: payload
  whole : ok = true → (acceptedBlocks exchanges).flatten = payload

/-- The contract whose ghost state is the blocks that are written so far. -/
def loadContract : Prog.Contract PyAsk PyReply (List (List Byte)) where
  may := fun _ _ => True
  relies := fun _ _ _ => True
  after := fun blocks ask reply => blocks ++ (acceptedBlock (ask, reply)).toList

theorem loadContract_follow (blocks : List (List Byte)) (exchanges : Prog.Exchanges PyAsk PyReply) :
    loadContract.follow blocks exchanges = blocks ++ acceptedBlocks exchanges := by
  induction exchanges generalizing blocks with
  | nil => exact (List.append_nil blocks).symm
  | cons x exchanges ih =>
      have hstep : loadContract.follow blocks (x :: exchanges)
          = loadContract.follow (blocks ++ (acceptedBlock x).toList) exchanges := rfl
      rw [hstep, ih, List.append_assoc, acceptedBlocks, acceptedBlocks, List.filterMap_cons]
      cases acceptedBlock x with
      | none => rfl
      | some block => rfl

section Loading

variable (behind : Nat → Nat → Byte) (handle : Nat)

/-- How a load goes on behind some blocks: all of its own are written, or a `ValueError` after the first. -/
def LoadEnds (blocks before : List (List Byte)) (result : Except PyStop (Except PyError Unit))
    (after : List (List Byte)) : Prop :=
  ∃ n, after = before ++ blocks.take n ∧
    (result = .ok (.ok ()) ∧ n = blocks.length ∨ ∃ msg, result = .ok (.error (.valueError msg)))

theorem obeys_sendBlocks (blocks before : List (List Byte)) :
    (pyCall (sendBlocks onlySuccess loadingIssue finalStatus handle blocks)).run.Obeys loadContract before
      (LoadEnds blocks before) := by
  induction blocks generalizing before with
  | nil =>
      refine ⟨trivial, fun reply _ => ⟨0, rfl, ?_⟩⟩
      show Except.ok (finalStatus reply.hbi.status) = _ ∧ _ ∨ ∃ msg, Except.ok (finalStatus reply.hbi.status) = _
      unfold finalStatus
      split
      · exact .inr ⟨_, rfl⟩
      · exact .inl ⟨rfl, rfl⟩
  | cons block blocks ih =>
      refine ⟨trivial, fun reply _ => ?_⟩
      show (pyCall (if onlySuccess reply.hbi.status = true then
          sendBlocks onlySuccess loadingIssue finalStatus handle blocks
        else pure (loadingIssue reply.hbi.status))).run.Obeys loadContract
          (before ++ (if reply.hbi.status = .success then some block else none).toList) _
      by_cases hok : reply.hbi.status = .success
      · have haccepted : onlySuccess reply.hbi.status = true := decide_eq_true hok
        rw [if_pos haccepted, if_pos hok]
        refine (ih (before ++ [block])).mono ?_
        intro result after hends
        obtain ⟨n, rfl, hcases⟩ := hends
        refine ⟨n + 1, ?_, hcases.imp_left (And.imp_right (congrArg (· + 1)))⟩
        rw [List.take_succ_cons, List.append_assoc]
        rfl
      · have hrefused : ¬ onlySuccess reply.hbi.status = true := fun h => hok (of_decide_eq_true h)
        rw [if_neg hrefused, if_neg hok]
        exact ⟨0, rfl, .inr ⟨_, rfl⟩⟩

/-- `LoadFirmware` on an image of the converter, in whole blocks or not. -/
theorem loadFirmware_image {fwOpn : Int} {words : Nat} {image : List Int}
    (h : HasHeader imgHdrFirmware fwOpn words image) (hwords : 1 ≤ words ∧ words ≤ 128)
    (hsize : image.length < 2 ^ 32) :
    loadFirmware behind handle (image.map byteOf) = isFirmwareRunning handle >>= fun running =>
      if running = true then return .error (.valueError "Error - LoadFirmware(): Firmware running")
      else if (image.drop 12).length % (words * 2) = 0 then
        sendBlocks onlySuccess loadingIssue finalStatus handle
          (pieces (words * 2) ((image.drop 12).length / (words * 2)) ((image.drop 12).map byteOf))
      else return .error (.valueError
        "Error - LoadFirmware(): The firmware size is not a multiple of block_size") := by
  have hget := h.getHdr
  obtain ⟨hlow, hhigh⟩ := hwords
  generalize hpayload : image.drop 12 = payload at hget ⊢
  have hdrop : (image.map byteOf).drop 12 = payload.map byteOf := by
    rw [← List.map_drop, hpayload]
  have hlen : payload.length < 2 ^ 32 := by
    rw [← hpayload, List.length_drop]
    omega
  have hcount : (converterFields 0 fwOpn words payload.length).hdr.imgLen = payload.length := by
    change (BitVec.ofNat 32 payload.length).toNat = payload.length
    rw [BitVec.toNat_ofNat]
    omega
  have hblockSize : (converterFields 0 fwOpn words payload.length).hdr.blockSize = words := by
    change (BitVec.ofInt 16 words).toNat = words
    rw [BitVec.toNat_ofInt]
    omega
  have hslice : pySlice (image.map byteOf) ((12 : Nat) : Int) ((12 : Nat) + (payload.length : Int))
      = payload.map byteOf := by
    rw [pySlice_add, hdrop, List.take_of_length_le (by rw [List.length_map])]
  have hpos : ¬ words * 2 = 0 := by omega
  unfold loadFirmware
  congr 1
  funext running
  by_cases hrunning : running = true
  · rw [if_pos hrunning, if_pos hrunning]
  · rw [if_neg hrunning, if_neg hrunning, List.length_map, hget]
    dsimp only
    rw [hcount, hblockSize, if_neg hpos]
    by_cases hwhole : payload.length % (words * 2) = 0
    · have hblocks : (payload.map byteOf).length = (0 + payload.length / (words * 2)) * (words * 2) := by
        rw [List.length_map, Nat.zero_add, Nat.div_mul_cancel (Nat.dvd_of_mod_eq_zero hwhole)]
      have hloop := loadFirmwareLoop_eq behind handle (payload.length / (words * 2)) 0 hblocks
      rw [Nat.zero_mul, List.drop_zero] at hloop
      rw [if_neg (not_not.2 hwhole), if_pos hwhole, ← hloop, ← hslice]
      rfl
    · rw [if_pos hwhole, if_neg hwhole]

/-- How a load of a payload ends: it is written, or there is a `ValueError` after a first part of it. -/
def PayloadEnds (payload : List Byte) (result : Except PyStop (Except PyError Unit))
    (blocks : List (List Byte)) : Prop :=
  result = .ok (.ok ()) ∧ blocks.flatten = payload ∨
    (∃ msg, result = .ok (.error (.valueError msg))) ∧ blocks.flatten <+: payload

theorem LoadEnds.payload {blocks after : List (List Byte)} {result : Except PyStop (Except PyError Unit)}
    (h : LoadEnds blocks [] result after) : PayloadEnds blocks.flatten result after := by
  obtain ⟨n, rfl, ⟨hok, rfl⟩ | hfailed⟩ := h
  · exact .inl ⟨hok, by rw [List.nil_append, List.take_length]⟩
  · refine .inr ⟨hfailed, (blocks.drop n).flatten, ?_⟩
    rw [List.nil_append, ← List.flatten_append, List.take_append_drop]

theorem obeys_lookThen {f : Bool → Loader (Except PyError Unit)}
    {post : Except PyStop (Except PyError Unit) → List (List Byte) → Prop}
    (h : ∀ running, (pyCall (f running)).run.Obeys loadContract [] post) :
    (pyCall (isFirmwareRunning handle >>= f)).run.Obeys loadContract [] post :=
  ⟨trivial, fun _ _ => h _⟩

theorem obeys_loadFirmware {fwOpn : Int} {words : Nat} {image : List Int}
    (h : image = [] ∨ HasHeader imgHdrFirmware fwOpn words image) (hwords : 1 ≤ words ∧ words ≤ 128)
    (hsize : image.length < 2 ^ 32) :
    (pyCall (loadFirmware behind handle (image.map byteOf))).run.Obeys loadContract []
      (PayloadEnds ((image.drop 12).map byteOf)) := by
  rcases h with rfl | hheader
  · refine obeys_lookThen handle fun running => ?_
    cases running with
    | true => exact .inr ⟨⟨_, rfl⟩, List.nil_prefix⟩
    | false => exact .inr ⟨⟨_, rfl⟩, List.nil_prefix⟩
  · rw [loadFirmware_image behind handle hheader hwords hsize]
    refine obeys_lookThen handle fun running => ?_
    cases running with
    | true => exact .inr ⟨⟨_, rfl⟩, List.nil_prefix⟩
    | false =>
        rw [if_neg Bool.false_ne_true]
        by_cases hwhole : (image.drop 12).length % (words * 2) = 0
        · have hlen : ((image.drop 12).map byteOf).length
              = (image.drop 12).length / (words * 2) * (words * 2) := by
            rw [List.length_map, Nat.div_mul_cancel (Nat.dvd_of_mod_eq_zero hwhole)]
          rw [if_pos hwhole]
          refine (obeys_sendBlocks handle _ []).mono fun result after hends => ?_
          rw [← pieces_flatten hlen]
          exact hends.payload
        · rw [if_neg hwhole]
          exact .inr ⟨⟨_, rfl⟩, List.nil_prefix⟩

end Loading

/-! ### What the server is for -/

/-- A request as it was served. -/
structure ServedCmd where
  header : List Char
  cmd : List Char
  exchanges : Prog.Exchanges PyAsk PyReply
  answer : List Char

def ServedCmd.request (c : ServedCmd) : List Char × List Char := (c.header, c.cmd)

def ServedCmd.type (c : ServedCmd) : List Char := pySlice c.header 0 2

def okText : List Char := answerText "OK".toList

def errorText : List Char := answerText "ERROR".toList

def Converts (globals : ConverterGlobals) (text : List Char) (fwBin : Except PyError (List Int))
    (globals' : ConverterGlobals) : Prop :=
  ∃ fuel, generateFwLines fuel (uploadLines text) 38040 64 globals = some (fwBin, globals')

/-- The steps of the server as its uploads are concerned. A text is begun, continued, and with its last piece
converted and loaded; the other requests leave it alone and load nothing. -/
inductive UploadStep (vars : MiTunerVars) : ServedCmd → MiTunerVars → Prop
  | begun {header cmd : List Char} (htype : pySlice header 0 2 = "FA".toList) :
      UploadStep vars ⟨header, cmd, [], okText⟩ { vars with s3File := some cmd }
  | continued {header cmd text : List Char} (htype : pySlice header 0 2 = "FB".toList)
      (htext : vars.s3File = some text) :
      UploadStep vars ⟨header, cmd, [], okText⟩ { vars with s3File := some (text ++ cmd) }
  | unconverted {header cmd text : List Char} {e : PyError} {globals : ConverterGlobals}
      (htype : pySlice header 0 2 = "FC".toList) (htext : vars.s3File = some text)
      (hconverts : Converts vars.globals (text ++ cmd) (.error e) globals) :
      UploadStep vars ⟨header, cmd, [], errorText⟩ ⟨some (text ++ cmd), globals⟩
  | loaded {header cmd text : List Char} {image : List Int} {globals : ConverterGlobals}
      {exchanges : Prog.Exchanges PyAsk PyReply} {ok : Bool} (htype : pySlice header 0 2 = "FC".toList)
      (htext : vars.s3File = some text)
      (hconverts : Converts vars.globals (text ++ cmd) (.ok image) globals)
      (hloads : image.length < 2 ^ 32 → Loads ((image.drop 12).map byteOf) exchanges ok) :
      UploadStep vars ⟨header, cmd, exchanges, if ok = true then okText else errorText⟩
        ⟨some (text ++ cmd), globals⟩
  | other {header cmd answer : List Char} {exchanges : Prog.Exchanges PyAsk PyReply}
      (htype : isUpload (pySlice header 0 2) = false) (hplain : ∀ x ∈ exchanges, x.1.isAccess = true) :
      UploadStep vars ⟨header, cmd, exchanges, answer⟩ vars

/-! ### One request -/

/-- A request of the server is a step of its uploads, when it is answered. -/
def Steps (vars : MiTunerVars) (header cmd : List Char) (p : PyScript (MiTunerVars × List Char)) : Prop :=
  ∀ answer done, ∃ more, (p.run.run answer done).1 = done ++ more ∧
    ∀ served, (p.run.run answer done).2 = .ok served →
      UploadStep vars ⟨header, cmd, more, answerText served.2⟩ served.1

section Request

variable {vars : MiTunerVars} {header cmd text : List Char} {globals : ConverterGlobals} (fuel handle : Nat)

theorem steps_raise (e : PyStop) : Steps vars header cmd (throw e) := fun _ done =>
  ⟨[], (List.append_nil done).symm, fun _ h => nomatch h⟩

theorem steps_return {served : MiTunerVars × List Char}
    (h : UploadStep vars ⟨header, cmd, [], answerText served.2⟩ served.1) :
    Steps vars header cmd (pure served) := by
  intro answer done
  refine ⟨[], (List.append_nil done).symm, ?_⟩
  intro served' heq
  cases heq
  exact h

/-- What is answered behind a function that is tried. -/
def triedAnswer : Except PyStop Unit → Except PyStop (List Char)
  | .ok () => .ok "OK".toList
  | .error (.raised (.valueError _)) => .ok "ERROR".toList
  | .error e => .error e

theorem answering_eq (body : PyScript Unit) :
    (answering body).run = body.run >>= fun result => pure (triedAnswer result) := by
  change ((body.run >>= _) >>= _) = _
  rw [bind_assoc]
  congr 1
  funext result
  cases result with
  | ok a => rfl
  | error e =>
      cases e with
      | raised e => cases e <;> rfl
      | nameError | attributeError | crashed | waiting => rfl

theorem answering_run (body : PyScript Unit) (answer : Prog.Exchanges PyAsk PyReply → PyAsk → PyReply)
    (done : Prog.Exchanges PyAsk PyReply) : (answering body).run.run answer done
      = ((body.run.run answer done).1, triedAnswer (body.run.run answer done).2) := by
  rw [answering_eq, Prog.run_bind]
  rfl

theorem triedAnswer_ok {result : Except PyStop Unit} {text : List Char} (h : triedAnswer result = .ok text) :
    result = .ok () ∧ text = "OK".toList ∨
      (∃ msg, result = .error (.raised (.valueError msg))) ∧ text = "ERROR".toList := by
  cases result with
  | ok a =>
      cases h
      exact .inl ⟨rfl, rfl⟩
  | error e =>
      cases e with
      | raised e =>
          cases e with
          | valueError msg =>
              cases h
              exact .inr ⟨⟨msg, rfl⟩, rfl⟩
          | _ => cases h
      | nameError | attributeError | crashed | waiting => cases h

/-- What the part of the script makes of what `LoadFirmware` returns. -/
def loadResult : Except PyStop (Except PyError Unit) → Except PyStop Unit
  | .ok (.ok ()) => .ok ()
  | .ok (.error e) => .error (.raised e)
  | .error e => .error e

theorem scriptLoadFirmware_run (behind : Nat → Nat → Byte) (firmwareBuf : List Byte)
    (answer : Prog.Exchanges PyAsk PyReply → PyAsk → PyReply) (done : Prog.Exchanges PyAsk PyReply) :
    (scriptLoadFirmware behind handle firmwareBuf).run.run answer done
      = (((pyCall (loadFirmware behind handle firmwareBuf)).run.run answer done).1,
          loadResult ((pyCall (loadFirmware behind handle firmwareBuf)).run.run answer done).2) := by
  rw [scriptLoadFirmware, ExceptT.run_bind, Prog.run_bind]
  generalize ((pyCall (loadFirmware behind handle firmwareBuf)).run.run answer done) = loaded
  obtain ⟨record, result⟩ := loaded
  cases result with
  | error e => rfl
  | ok result =>
      cases result with
      | ok u => rfl
      | error e => rfl

theorem loads_image (behind : Nat → Nat → Byte) {image : List Int}
    (hheader : image = [] ∨ HasHeader imgHdrFirmware 38040 64 image)
    (hsize : image.length < 2 ^ 32) {answer : Prog.Exchanges PyAsk PyReply → PyAsk → PyReply}
    {done more : Prog.Exchanges PyAsk PyReply}
    (hmore : ((pyCall (loadFirmware behind handle (image.map byteOf))).run.run answer done).1
      = done ++ more) :
    PayloadEnds ((image.drop 12).map byteOf)
      ((pyCall (loadFirmware behind handle (image.map byteOf))).run.run answer done).2 (acceptedBlocks more) := by
  have hword : image = [] ∨ HasHeader imgHdrFirmware 38040 ((64 : Nat) : Int) image := hheader
  obtain ⟨more', hrun, -, hends⟩ := (obeys_loadFirmware behind handle hword (by decide) hsize).follow
    answer done fun _ _ => trivial
  obtain rfl : more' = more := List.append_cancel_left (hrun.symm.trans hmore)
  rw [loadContract_follow] at hends
  exact hends

theorem steps_load {image : List Int} (htype : pySlice header 0 2 = "FC".toList)
    (htext : vars.s3File = some text)
    (hconverts : Converts vars.globals (text ++ cmd) (.ok image) globals) :
    Steps vars header cmd (answering (scriptLoadFirmware (fun _ _ => 0) handle (image.map byteOf)) >>= fun answer =>
      pure (⟨some (text ++ cmd), globals⟩, answer)) := by
  intro answer done
  obtain ⟨more, hmore⟩ := Prog.run_extends answer done
    (pyCall (loadFirmware (fun _ _ => 0) handle (image.map byteOf))).run
  have hheader : image = [] ∨ HasHeader imgHdrFirmware 38040 64 image := by
    obtain ⟨fuel, hfile⟩ := hconverts
    by_cases hnil : image = []
    · exact .inl hnil
    · exact .inr (generateFwLines_header hfile hnil)
  have hpayload := fun hsize => loads_image handle _ hheader hsize hmore
  rw [ExceptT.run_bind, Prog.run_bind, answering_run, scriptLoadFirmware_run]
  generalize (pyCall (loadFirmware (fun _ _ => 0) handle (image.map byteOf))).run.run answer done
    = loaded at hmore hpayload ⊢
  obtain ⟨record, result⟩ := loaded
  dsimp only at hmore hpayload ⊢
  cases htried : triedAnswer (loadResult result) with
  | error e => exact ⟨more, hmore, fun _ h => nomatch h⟩
  | ok retval =>
      refine ⟨more, hmore, ?_⟩
      intro served hserved
      cases hserved
      rcases triedAnswer_ok htried with ⟨hok, rfl⟩ | ⟨⟨msg, hfailed⟩, rfl⟩
      · refine @UploadStep.loaded vars header cmd text image globals more true htype htext hconverts
          fun hsize => ?_
        rcases hpayload hsize with ⟨-, hwhole⟩ | ⟨⟨msg, hraised⟩, -⟩
        · exact ⟨by rw [hwhole], fun _ => hwhole⟩
        · rw [hraised] at hok
          cases hok
      · refine @UploadStep.loaded vars header cmd text image globals more false htype htext hconverts
          fun hsize => ?_
        rcases hpayload hsize with ⟨hreturned, -⟩ | ⟨-, hfirst⟩
        · rw [hreturned] at hfailed
          cases hfailed
        · exact ⟨hfirst, fun h => nomatch h⟩

theorem steps_firmwareLoading (htype : isUpload (pySlice header 0 2) = true) :
    Steps vars header cmd (firmwareLoading fuel handle (pySlice header 0 2) cmd vars) := by
  unfold firmwareLoading
  by_cases hbegun : pySlice header 0 2 = "FA".toList
  · rw [if_pos hbegun]
    exact steps_return (.begun hbegun)
  · rw [if_neg hbegun]
    cases htext : vars.s3File with
    | none => exact steps_raise _
    | some text =>
        dsimp only
        by_cases hcontinued : pySlice header 0 2 = "FB".toList
        · rw [if_pos hcontinued]
          exact steps_return (.continued hcontinued htext)
        · have hended : pySlice header 0 2 = "FC".toList := by
            simp only [isUpload, Bool.or_eq_true, decide_eq_true_eq] at htype
            exact htype.resolve_left fun h => h.elim hbegun hcontinued
          rw [if_neg hcontinued]
          unfold loadUpload
          cases hfile : generateFwLines fuel (uploadLines (text ++ cmd)) 38040 64 vars.globals with
          | none => exact steps_raise _
          | some converted =>
              obtain ⟨fwBin, globals⟩ := converted
              have hconverts : Converts vars.globals (text ++ cmd) fwBin globals := ⟨fuel, hfile⟩
              cases fwBin with
              | ok image => exact steps_load handle hended htext hconverts
              | error e =>
                  cases e with
                  | valueError msg => exact steps_return (.unconverted hended htext hconverts)
                  | _ => exact steps_raise _

end Request

/-! ### The other requests -/

instance : AllowsAccess PyAsk.isAccess := ⟨fun _ h => h⟩

/-- A part that accesses registers and looks at the time, and asks nothing else. -/
def Quiet {α : Type} (p : PyScript α) : Prop := Body PyAsk.isAccess (fun _ => True) p

theorem Body.quiet {α : Type} {post : Except PyStop α → Prop} {p : PyScript α}
    (h : Body PyAsk.isAccess post p) : Quiet p := Prog.Obeys.mono h fun _ _ _ => trivial

theorem Quiet.then {α β : Type} {p : PyScript α} {f : α → PyScript β} (hp : Quiet p)
    (hf : ∀ a, Quiet (f a)) : Quiet (p >>= f) := by
  unfold Quiet Body
  rw [ExceptT.run_bind]
  refine Prog.Obeys.bind hp fun result _ _ => ?_
  cases result with
  | ok a => exact hf a
  | error e => trivial

theorem quiet_lift {α : Type} (x : Except PyError α) : Quiet (pyLift x) := by
  cases x with
  | ok a => trivial
  | error e => trivial

theorem quiet_answering {body : PyScript Unit} (h : Quiet body) : Quiet (answering body) := by
  unfold Quiet Body
  rw [answering_eq]
  exact Prog.Obeys.bind h fun _ _ _ => trivial

section Quiet

variable (fuel handle : Nat)

theorem quiet_pyReadList (address numBytes : Int) : Quiet (pyReadList handle address numBytes) := by
  unfold pyReadList
  split
  · split
    · trivial
    · exact ⟨rfl, fun _ _ => trivial⟩
  · trivial

theorem quiet_pyWriteList (address : Int) (byteList : List Int) :
    Quiet (pyWriteList handle address byteList) := by
  unfold pyWriteList
  split
  · exact (body_pyWrite _ _ _).quiet
  · trivial

theorem quiet_spiHwBufferRead (address numBytes : Int) : Quiet (spiHwBufferRead handle address numBytes) := by
  unfold spiHwBufferRead
  split
  · exact (quiet_pyWriteList _ _ _).then fun _ => (quiet_pyReadList _ _ _).then fun _ => trivial
  · trivial

theorem quiet_saveFirmware2Flash : Quiet (saveFirmware2Flash fuel handle) :=
  quiet_answering <| (body_initFlash fuel handle false).quiet.then fun _ =>
    (body_saveFirmwareToFlash fuel handle).quiet.then fun _ => trivial

theorem quiet_saveConfig2Flash (index : Int) : Quiet (saveConfig2Flash fuel handle index) := by
  refine quiet_answering <| (body_isFirmwareRunning handle).quiet.then fun running => ?_
  have hsave : Quiet (saveConfigToFlash fuel handle index) := (body_saveConfigToFlash fuel handle index).quiet
  cases running with
  | true => exact hsave
  | false => exact (body_initFlash fuel handle false).quiet.then fun _ => hsave

theorem quiet_loadFwfromFlash (index : Int) : Quiet (loadFwfromFlash fuel handle index) :=
  quiet_answering <| (body_initFlash fuel handle false).quiet.then fun _ =>
    (body_loadFirmwareFromFlash fuel handle index).quiet

theorem quiet_parsePlain (type cmd : List Char) : Quiet (parsePlain fuel handle type cmd) := by
  have hlift : ∀ {β : Type} {text : List Char} {f : Int → PyScript β}, (∀ n, Quiet (f n)) →
      Quiet (pyLift (unicodeIntHex text) >>= f) := fun hf => (quiet_lift _).then hf
  unfold parsePlain
  split
  · exact hlift fun _ => (quiet_pyReadList _ _ _).then fun _ => trivial
  split
  · exact hlift fun _ => hlift fun _ => hlift fun _ => (quiet_pyWriteList _ _ _).then fun _ => trivial
  split
  · exact hlift fun _ => hlift fun _ => (quiet_pyReadList _ _ _).then fun _ => trivial
  split
  · exact hlift fun _ => ((quiet_lift _).then fun _ => quiet_pyWriteList _ _ _).then fun _ => trivial
  split
  · exact hlift fun _ => hlift fun _ => quiet_spiHwBufferRead _ _ _
  split
  · exact quiet_answering (body_eraseFlash fuel handle).quiet
  split
  · exact quiet_saveFirmware2Flash fuel handle
  split
  · exact hlift fun _ => quiet_saveConfig2Flash fuel handle _
  split
  · exact hlift fun _ => quiet_loadFwfromFlash fuel handle _
  · trivial

end Quiet

/-! ### A run of the server -/

/-- A request that is served: what it does to the uploads, and what `ParseCmd` asks for it and answers behind
what has been asked before. -/
structure ServedStep (fuel handle : Nat) (answer : Prog.Exchanges PyAsk PyReply → PyAsk → PyReply)
    (before : MiTunerVars × Prog.Exchanges PyAsk PyReply) (c : ServedCmd)
    (after : MiTunerVars × Prog.Exchanges PyAsk PyReply) : Prop where
  upload : UploadStep before.1 c after.1
  record : after.2 = before.2 ++ c.exchanges
  parsed : (parseMiTunerCmd fuel handle before.1 c.header c.cmd).run.run answer before.2
    = (after.2, .ok (after.1, c.answer))

/-- A run that has served the first of `cmds`, in order, and asked nothing else than for them and for one that
ends it. A run that returns has served them all; one that raises does so in the next of them or, where `own`
allows it, in between. -/
structure ServedRun {α : Type} (fuel handle : Nat) (answer : Prog.Exchanges PyAsk PyReply → PyAsk → PyReply)
    (start : MiTunerVars × Prog.Exchanges PyAsk PyReply) (cmds : List (List Char × List Char))
    (own : PyStop → Prop) (post : α → List ServedCmd → MiTunerVars → Prop)
    (run : Prog.Exchanges PyAsk PyReply × Except PyStop α) (trace : List ServedCmd)
    (tail : Prog.Exchanges PyAsk PyReply) (last : MiTunerVars × Prog.Exchanges PyAsk PyReply) : Prop where
  steps : Trace (ServedStep fuel handle answer) start trace last
  record : run.1 = last.2 ++ tail
  first : trace.map ServedCmd.request <+: cmds
  returns : ∀ a, run.2 = .ok a → tail = [] ∧ trace.map ServedCmd.request = cmds ∧ post a trace last.1
  raises : ∀ e, run.2 = .error e → tail = [] ∧ own e ∨ ∃ next, cmds[trace.length]? = some next ∧
    (parseMiTunerCmd fuel handle last.1 next.1 next.2).run.run answer last.2 = (run.1, .error e)

/-- A part of the server that serves requests, whatever the driver answers. -/
def Serves {α : Type} (fuel handle : Nat) (vars : MiTunerVars) (cmds : List (List Char × List Char))
    (own : PyStop → Prop) (p : PyScript α) (post : α → List ServedCmd → MiTunerVars → Prop) : Prop :=
  ∀ answer done, ∃ trace tail last,
    ServedRun fuel handle answer (vars, done) cmds own post (p.run.run answer done) trace tail last

section Serves

variable {α β : Type} {fuel handle : Nat} {vars : MiTunerVars} {cmds more : List (List Char × List Char)}
  {own own' : PyStop → Prop}

theorem serves_return {a : α} {post : α → List ServedCmd → MiTunerVars → Prop} (h : post a [] vars) :
    Serves fuel handle vars [] own (pure a) post := by
  intro answer done
  refine ⟨[], [], (vars, done), .nil, (List.append_nil done).symm, List.prefix_rfl, ?_, fun _ h => nomatch h⟩
  intro a' heq
  cases heq
  exact ⟨rfl, rfl, h⟩

theorem serves_raise {e : PyStop} {post : α → List ServedCmd → MiTunerVars → Prop} (h : own e) :
    Serves fuel handle vars cmds own (throw e) post := by
  intro answer done
  refine ⟨[], [], (vars, done), .nil, (List.append_nil done).symm, List.nil_prefix, (fun _ h => nomatch h), ?_⟩
  intro e' heq
  cases heq
  exact .inl ⟨rfl, h⟩

theorem Serves.mono {p : PyScript α} {post post' : α → List ServedCmd → MiTunerVars → Prop}
    (h : Serves fuel handle vars cmds own p post) (hown : ∀ e, own e → own' e)
    (himp : ∀ a trace vars', post a trace vars' → post' a trace vars') :
    Serves fuel handle vars cmds own' p post' := by
  intro answer done
  obtain ⟨trace, tail, last, hserved⟩ := h answer done
  refine ⟨trace, tail, last, hserved.steps, hserved.record, hserved.first, ?_, ?_⟩
  · intro a ha
    exact (hserved.returns a ha).imp_right (And.imp_right (himp a trace last.1))
  · intro e he
    exact (hserved.raises e he).imp_left (And.imp_right (hown e))

theorem Serves.then {p : PyScript α} {f : α → PyScript β} {mid : α → List ServedCmd → MiTunerVars → Prop}
    {post : β → List ServedCmd → MiTunerVars → Prop} (hp : Serves fuel handle vars cmds own p mid)
    (hf : ∀ a before vars', mid a before vars' → Serves fuel handle vars' more own (f a)
      fun b trace vars'' => post b (before ++ trace) vars'') :
    Serves fuel handle vars (cmds ++ more) own (p >>= f) post := by
  intro answer done
  obtain ⟨before, tail, last, hserved⟩ := hp answer done
  rw [ExceptT.run_bind, Prog.run_bind]
  cases hresult : (p.run.run answer done).2 with
  | error e =>
      refine ⟨before, tail, last, hserved.steps, hserved.record,
        hserved.first.trans (List.prefix_append _ _), (fun _ h => nomatch h), ?_⟩
      intro e' heq
      cases heq
      refine (hserved.raises e hresult).imp_right ?_
      rintro ⟨next, hnext, hraised⟩
      refine ⟨next, ?_, hraised⟩
      rw [List.getElem?_append_left (List.getElem?_eq_some_iff.1 hnext).1, hnext]
  | ok a =>
      obtain ⟨rfl, hall, hmid⟩ := hserved.returns a hresult
      obtain ⟨trace, tail, last', hrest⟩ := hf a before last.1 hmid answer last.2
      have hdone : (p.run.run answer done).1 = last.2 := hserved.record.trans (List.append_nil _)
      rw [hdone]
      refine ⟨before ++ trace, tail, last', hserved.steps.append hrest.steps, hrest.record, ?_, ?_, ?_⟩
      · rw [List.map_append, hall]
        exact (List.prefix_append_right_inj cmds).2 hrest.first
      · intro b hb
        obtain ⟨htail, hothers, hpost⟩ := hrest.returns b hb
        exact ⟨htail, by rw [List.map_append, hall, hothers], hpost⟩
      · intro e he
        refine (hrest.raises e he).imp_right ?_
        rintro ⟨next, hnext, hraised⟩
        refine ⟨next, ?_, hraised⟩
        have hcount : before.length = cmds.length := by rw [← hall, List.length_map]
        rw [List.length_append, hcount, List.getElem?_append_right (Nat.le_add_right _ _),
          Nat.add_sub_cancel_left, hnext]

theorem Serves.finish {p : PyScript α} {f : α → PyScript β}
    {mid : α → List ServedCmd → MiTunerVars → Prop} {post : β → List ServedCmd → MiTunerVars → Prop}
    (hp : Serves fuel handle vars cmds own p mid) (hf : ∀ a before vars', mid a before vars' →
      Serves fuel handle vars' [] own (f a) fun b trace vars'' => post b (before ++ trace) vars'') :
    Serves fuel handle vars cmds own (p >>= f) post := by
  have h := hp.then hf
  rw [List.append_nil] at h
  exact h

end Serves

section Runs

variable (fuel handle : Nat) {own : PyStop → Prop}

theorem steps_plain {vars : MiTunerVars} {header : List Char} (cmd : List Char)
    (htype : isUpload (pySlice header 0 2) = false) : Steps vars header cmd
      (parsePlain fuel handle (pySlice header 0 2) cmd >>= fun retval => pure (vars, retval)) := by
  intro answer done
  obtain ⟨more, hmore, hplain, -⟩ := (quiet_parsePlain fuel handle (pySlice header 0 2) cmd).run answer done
  rw [ExceptT.run_bind, Prog.run_bind]
  cases hresult : ((parsePlain fuel handle (pySlice header 0 2) cmd).run.run answer done).2 with
  | error e => exact ⟨more, hmore, fun _ h => nomatch h⟩
  | ok retval =>
      refine ⟨more, hmore, ?_⟩
      intro served heq
      cases heq
      exact .other htype hplain

theorem parseMiTunerCmd_eq (vars : MiTunerVars) (header cmd : List Char) :
    ∃ p, Steps vars header cmd p ∧ parseMiTunerCmd fuel handle vars header cmd
      = p >>= fun served => pure (served.1, answerText served.2) := by
  unfold parseMiTunerCmd
  dsimp only
  by_cases htype : isUpload (pySlice header 0 2) = true
  · exact ⟨_, steps_firmwareLoading fuel handle htype, if_pos htype⟩
  · refine ⟨_, steps_plain fuel handle cmd (Bool.eq_false_of_not_eq_true htype), ?_⟩
    rw [if_neg htype, bind_assoc]
    rfl

/-- A request that comes to an answer is a step, and one that does not ends the run. -/
theorem serves_parse (vars : MiTunerVars) (header cmd : List Char) :
    Serves fuel handle vars [(header, cmd)] own (parseMiTunerCmd fuel handle vars header cmd)
      fun served trace vars' => vars' = served.1 ∧ trace.map ServedCmd.answer = [served.2] := by
  intro answer done
  obtain ⟨p, hsteps, hparse⟩ := parseMiTunerCmd_eq fuel handle vars header cmd
  obtain ⟨more, hmore, hstep⟩ := hsteps answer done
  have hrun : (parseMiTunerCmd fuel handle vars header cmd).run.run answer done
      = (done ++ more, ((p.run.run answer done).2).map fun served => (served.1, answerText served.2)) := by
    rw [hparse, ExceptT.run_bind, Prog.run_bind, hmore]
    cases (p.run.run answer done).2 with
    | error e => rfl
    | ok served => rfl
  cases hresult : (p.run.run answer done).2 with
  | error e =>
      rw [hresult] at hrun
      refine ⟨[], more, (vars, done), .nil, congrArg Prod.fst hrun, List.nil_prefix, ?_, ?_⟩
      · intro a ha
        rw [hrun] at ha
        cases ha
      · intro e' he
        exact .inr ⟨(header, cmd), rfl, Prod.ext rfl he⟩
  | ok served =>
      rw [hresult] at hrun
      have hserved : ServedStep fuel handle answer (vars, done)
          ⟨header, cmd, more, answerText served.2⟩ (served.1, done ++ more) :=
        ⟨hstep served hresult, rfl, hrun⟩
      refine ⟨_, [], _, .snoc .nil hserved, ?_, List.prefix_rfl, ?_, ?_⟩
      · rw [hrun, List.append_nil]
      · intro a ha
        rw [hrun] at ha
        cases ha
        exact ⟨rfl, rfl, rfl, rfl⟩
      · intro e he
        rw [hrun] at he
        cases he

theorem serves_cmds (cmds : List (List Char × List Char)) (vars : MiTunerVars) :
    Serves fuel handle vars cmds own (serveCmds fuel handle cmds vars) fun served trace vars' =>
      vars' = served.1 ∧ trace.map ServedCmd.answer = served.2 := by
  induction cmds generalizing vars with
  | nil => exact serves_return ⟨rfl, rfl⟩
  | cons taken cmds ih =>
      refine (serves_parse fuel handle vars taken.1 taken.2).then fun served first vars' hserved => ?_
      obtain ⟨rfl, hfirst⟩ := hserved
      refine (ih served.1).finish fun rest trace vars'' hrest => ?_
      obtain ⟨rfl, hothers⟩ := hrest
      refine serves_return ⟨rfl, ?_⟩
      rw [List.append_nil, List.map_append, hfirst, hothers]
      rfl

/-- The loop itself raises on a piece: it is not ASCII, or it completes a header without a length. -/
def LoopRaises (pieces : List (List Byte)) (e : PyStop) : Prop :=
  ∃ err, serve logged pieces (.start []) = .error err ∧ e = .raised err

theorem serves_client (pieces : List (List Byte)) (vars : MiTunerVars) :
    Serves fuel handle vars (requestsOf pieces (.start [])) (LoopRaises pieces)
      (serveClient fuel handle pieces (.start vars))
      fun st trace vars' => vars' = st.device ∧ st.answers = trace.map ServedCmd.answer := by
  obtain ⟨more, hmore, hserve⟩ := serveClient_on fuel handle pieces (.start [])
  have hrun : serveClient fuel handle pieces (.start vars) = _ := hserve vars []
  rw [hrun, hmore.trans (List.nil_append more)]
  refine (serves_cmds fuel handle more vars).finish fun served trace vars' hserved => ?_
  obtain ⟨rfl, hanswers⟩ := hserved
  cases hloop : serve logged pieces (.start []) with
  | error e => exact serves_raise ⟨e, hloop, rfl⟩
  | ok st =>
      refine serves_return ⟨rfl, ?_⟩
      rw [List.append_nil, hanswers]
      rfl

theorem serves_clients (clients : List (List (List Byte))) (vars : MiTunerVars) :
    Serves fuel handle vars (clients.flatMap fun pieces => requestsOf pieces (.start []))
      (fun e => ∃ pieces ∈ clients, LoopRaises pieces e) (serveClients fuel handle clients vars)
      fun served trace vars' => vars' = served.1 ∧ served.2.flatten = trace.map ServedCmd.answer := by
  induction clients generalizing vars with
  | nil => exact serves_return ⟨rfl, rfl⟩
  | cons pieces clients ih =>
      have hfirst : ∀ e, LoopRaises pieces e → ∃ pieces' ∈ pieces :: clients, LoopRaises pieces' e :=
        fun e he => ⟨pieces, List.mem_cons_self, he⟩
      have hlater : ∀ e, (∃ pieces' ∈ clients, LoopRaises pieces' e) →
          ∃ pieces' ∈ pieces :: clients, LoopRaises pieces' e :=
        fun e he => he.imp fun _ h => h.imp_left (List.mem_cons_of_mem pieces)
      have hclient := (serves_client fuel handle pieces vars).mono hfirst fun _ _ _ h => h
      refine hclient.then fun st before vars' hst => ?_
      obtain ⟨rfl, hanswers⟩ := hst
      have hothers := (ih st.device).mono hlater fun _ _ _ h => h
      refine hothers.finish fun rest trace vars'' hrest => ?_
      obtain ⟨rfl, hmore⟩ := hrest
      refine serves_return ⟨rfl, ?_⟩
      rw [List.flatten_cons, hanswers, hmore, List.append_nil, List.map_append]

end Runs

/-! ### Whole uploads -/

/-- The text of an upload behind a request. -/
def ServedCmd.extend (text : Option (List Char)) (c : ServedCmd) : Option (List Char) :=
  if c.type = "FA".toList then some c.cmd
  else if isUpload c.type = true then text.map (· ++ c.cmd)
  else text

/-- What has been sent since the last upload was begun. -/
def uploadText (trace : List ServedCmd) : Option (List Char) := trace.foldl ServedCmd.extend none

def FailsLate (text : List Char) : Prop := fwLinesFail (uploadLines text) = true

def NoneFailsLate (trace : List ServedCmd) : Prop :=
  ∀ pre c suf text, trace = pre ++ c :: suf → c.type = "FC".toList → uploadText (pre ++ [c]) = some text →
    ¬ FailsLate text

section Uploads

variable {vars vars' : MiTunerVars} {c : ServedCmd} {trace : List ServedCmd} {header cmd reply : List Char}
  {exchanges : Prog.Exchanges PyAsk PyReply} {text : Option (List Char)}

theorem uploadText_snoc (trace : List ServedCmd) (c : ServedCmd) :
    uploadText (trace ++ [c]) = c.extend (uploadText trace) := by
  rw [uploadText, List.foldl_append]
  rfl

theorem extend_begun (htype : pySlice header 0 2 = "FA".toList) :
    ServedCmd.extend text ⟨header, cmd, exchanges, reply⟩ = some cmd := if_pos htype

theorem extend_continued (htype : pySlice header 0 2 = "FB".toList ∨ pySlice header 0 2 = "FC".toList) :
    ServedCmd.extend text ⟨header, cmd, exchanges, reply⟩ = text.map (· ++ cmd) := by
  unfold ServedCmd.extend ServedCmd.type
  rcases htype with htype | htype <;> rw [htype] <;> rfl

theorem extend_other (htype : isUpload (pySlice header 0 2) = false) :
    ServedCmd.extend text ⟨header, cmd, exchanges, reply⟩ = text := by
  unfold ServedCmd.extend ServedCmd.type
  rw [htype, if_neg Bool.false_ne_true, if_neg]
  intro hbegun
  rw [hbegun] at htype
  cases htype

theorem UploadStep.s3File (h : UploadStep vars c vars') : vars'.s3File = c.extend vars.s3File := by
  cases h with
  | begun htype => rw [extend_begun htype]
  | continued htype htext =>
      rw [extend_continued (.inl htype), htext]
      rfl
  | unconverted htype htext | loaded htype htext =>
      rw [extend_continued (.inr htype), htext]
      rfl
  | other htype => rw [extend_other htype]

theorem trace_text (h : Trace UploadStep .start trace vars) : vars.s3File = uploadText trace := by
  refine h.induct (P := fun pre vars => vars.s3File = uploadText pre) rfl ?_
  intro pre c suf b b' _ hb hstep
  rw [hstep.s3File, hb, uploadText_snoc]

theorem Converts.initial {text : List Char} {fwBin : Except PyError (List Int)} {globals : ConverterGlobals}
    (h : Converts .initial text fwBin globals) (hlate : ¬ FailsLate text) : globals = .initial := by
  obtain ⟨fuel, hfile⟩ := h
  exact (generateFwLines_residue hfile).initial_iff.2 (Bool.eq_false_of_not_eq_true hlate)

theorem UploadStep.initial (h : UploadStep vars c vars') (hglobals : vars.globals = .initial)
    (hlate : c.type = "FC".toList → ∀ text, vars'.s3File = some text → ¬ FailsLate text) :
    vars'.globals = .initial := by
  cases h with
  | begun | continued | other => exact hglobals
  | unconverted htype _ hconverts | loaded htype _ hconverts =>
      rw [hglobals] at hconverts
      exact hconverts.initial (hlate htype _ rfl)

theorem trace_initial (h : Trace UploadStep .start trace vars) (hlate : NoneFailsLate trace) :
    vars.globals = .initial := by
  have hboth : uploadText trace = vars.s3File ∧ vars.globals = .initial := by
    refine h.induct (P := fun pre vars => uploadText pre = vars.s3File ∧ vars.globals = .initial) ⟨rfl, rfl⟩ ?_
    intro pre c suf b b' heq hb hstep
    obtain ⟨htext, hglobals⟩ := hb
    have hnext : uploadText (pre ++ [c]) = b'.s3File := by
      rw [uploadText_snoc, htext, hstep.s3File]
    refine ⟨hnext, hstep.initial hglobals fun htype text hfile => ?_⟩
    exact hlate pre c suf text heq htype (hnext.trans hfile)
  exact hboth.2

/-- The last piece of an upload: the whole text is converted, as if nothing had been converted before, and the
image is loaded as the answer says. -/
inductive UploadEnds (text : List Char) (c : ServedCmd) : Prop
  | refused {e : PyError} {globals : ConverterGlobals} (hraises : Converts .initial text (.error e) globals)
      (hnothing : c.exchanges = []) (hanswer : c.answer = errorText)
  | loaded {image : List Int} {globals : ConverterGlobals} {ok : Bool}
      (hconverts : Converts .initial text (.ok image) globals)
      (hloads : image.length < 2 ^ 32 → Loads ((image.drop 12).map byteOf) c.exchanges ok)
      (hanswer : c.answer = if ok = true then okText else errorText)

theorem UploadStep.ends (h : UploadStep vars c vars') (hglobals : vars.globals = .initial)
    (hended : c.type = "FC".toList) : ∃ text, vars'.s3File = some text ∧ UploadEnds text c := by
  cases h with
  | begun htype | continued htype => cases htype.symm.trans hended
  | unconverted _ _ hconverts =>
      rw [hglobals] at hconverts
      exact ⟨_, rfl, .refused hconverts rfl rfl⟩
  | loaded _ _ hconverts hloads =>
      rw [hglobals] at hconverts
      exact ⟨_, rfl, .loaded hconverts hloads rfl⟩
  | other hother =>
      have hupload : isUpload "FC".toList = false := by
        rw [← hended]
        exact hother
      cases hupload

end Uploads

/-- Whatever clients send, however it is cut into pieces and whatever the driver answers, what the server asks
is what it asks for the requests that it takes, one after another. Those that are no part of an upload only
access registers. The last piece of an upload has the whole text since its first piece converted and loaded,
over other requests and new connections, unless an earlier conversion has failed behind a block. -/
theorem uploads_delivered (fuel handle : Nat) (clients : List (List (List Byte)))
    (answer : Prog.Exchanges PyAsk PyReply → PyAsk → PyReply) :
    ∃ trace tail last, ServedRun fuel handle answer (.start, [])
        (clients.flatMap fun pieces => requestsOf pieces (.start []))
        (fun e => ∃ pieces ∈ clients, LoopRaises pieces e)
        (fun served trace vars => vars = served.1 ∧ served.2.flatten = trace.map ServedCmd.answer)
        ((serveClients fuel handle clients .start).run.run answer []) trace tail last ∧
      ∀ pre c suf, trace = pre ++ c :: suf → c.type = "FC".toList → NoneFailsLate pre →
        ∃ text, uploadText (pre ++ [c]) = some text ∧ UploadEnds text c := by
  obtain ⟨trace, tail, last, hserved⟩ := serves_clients fuel handle clients .start answer []
  refine ⟨trace, tail, last, hserved, ?_⟩
  have htrace : Trace UploadStep .start trace last.1 := hserved.steps.map Prod.fst fun _ _ _ h => h.upload
  rintro pre c suf rfl htype hlate
  obtain ⟨b, b', hpre, hstep, -⟩ := htrace.step_at
  obtain ⟨text, htext, hends⟩ := hstep.ends (trace_initial hpre hlate) htype
  refine ⟨text, ?_, hends⟩
  rw [uploadText_snoc, ← trace_text hpre, ← hstep.s3File, htext]

/-- An upload over two connections, with another request in between. -/
def upload : List (List Char × List Char) :=
  [("FA00C8".toList, (headerFile "DA".toList).take 200), ("RD0003".toList, "200".toList),
    ("FC0105".toList, (headerFile "DA".toList).drop 200)]

def twoClients : List (List (List Byte)) :=
  let pieces := upload.map fun r => (r.1 ++ r.2).map charByte
  [pieces.take 2, pieces.drop 2]

def allWritten : Prog.Exchanges PyAsk PyReply → PyAsk → PyReply := fun _ _ => ⟨⟨.success, []⟩, false, 0⟩

theorem uploads_delivered_twoClients : ∃ before c tail last,
    ServedRun 216 0 allWritten (.start, []) upload (fun e => ∃ pieces ∈ twoClients, LoopRaises pieces e)
      (fun served trace vars => vars = served.1 ∧ served.2.flatten = trace.map ServedCmd.answer)
      ((serveClients 216 0 twoClients .start).run.run allWritten []) (before ++ [c]) tail last ∧
    c.cmd = (headerFile "DA".toList).drop 200 ∧ UploadEnds (headerFile "DA".toList) c ∧ c.answer = okText := by
  obtain ⟨trace, tail, last, hserved, hends⟩ := uploads_delivered 216 0 twoClients allWritten
  have hrequests : (twoClients.flatMap fun pieces => requestsOf pieces (.start [])) = upload := by decide +kernel
  have hanswers : (((serveClients 216 0 twoClients .start).run.run allWritten []).2.map Prod.snd).toOption
      = some [["ANS0002OK".toList, "ANS00040000".toList], ["ANS0002OK".toList]] := by decide +kernel
  rw [hrequests] at hserved
  cases hresult : ((serveClients 216 0 twoClients .start).run.run allWritten []).2 with
  | error e =>
      rw [hresult] at hanswers
      cases hanswers
  | ok served =>
      rw [hresult] at hanswers
      obtain ⟨-, hall, -, houts⟩ := hserved.returns served hresult
      rw [Option.some.inj hanswers] at houts
      obtain ⟨a, rest, rfl, ha, hrest⟩ := List.map_eq_cons_iff.1 hall
      obtain ⟨b, rest, rfl, hb, hrest⟩ := List.map_eq_cons_iff.1 hrest
      obtain ⟨c, rest, rfl, hc, hrest⟩ := List.map_eq_cons_iff.1 hrest
      rw [List.map_eq_nil_iff.1 hrest] at hserved hends houts
      have hheader : a.header = "FA00C8".toList ∧ b.header = "RD0003".toList ∧ c.header = "FC0105".toList :=
        ⟨congrArg Prod.fst ha, congrArg Prod.fst hb, congrArg Prod.fst hc⟩
      have htypes : a.type = "FA".toList ∧ b.type = "RD".toList ∧ c.type = "FC".toList := by
        unfold ServedCmd.type
        rw [hheader.1, hheader.2.1, hheader.2.2]
        decide
      have hcmds : a.cmd = (headerFile "DA".toList).take 200 ∧ c.cmd = (headerFile "DA".toList).drop 200 :=
        ⟨congrArg Prod.snd ha, congrArg Prod.snd hc⟩
      have hearly : NoneFailsLate [a, b] := by
        intro pre d suf text heq htype
        have hmem : d ∈ [a, b] := by
          rw [heq]
          simp
        simp only [List.mem_cons, List.not_mem_nil, or_false] at hmem
        rcases hmem with rfl | rfl
        · rw [htypes.1] at htype
          cases htype
        · rw [htypes.2.1] at htype
          cases htype
      obtain ⟨text, htext, hended⟩ := hends [a, b] c [] rfl htypes.2.2 hearly
      have hwhole : uploadText [a, b, c] = some (headerFile "DA".toList) := by
        simp only [uploadText, List.foldl_cons, List.foldl_nil, ServedCmd.extend, htypes, hcmds]
        simp [isUpload]
      cases Option.some.inj (hwhole.symm.trans htext)
      have hanswer : okText = c.answer := (List.cons.inj (List.cons.inj (List.cons.inj houts).2).2).1
      exact ⟨[a, b], c, tail, last, hserved, hcmds.2, hended, hanswer.symm⟩
end VprocSdk
