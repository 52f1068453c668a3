import VprocSdk.Image.ProcUploads

/-!
# Uploads one after another

`UploadMeets` is the condition on a write under which the uploads of a history do not disturb each
other: an image is written while no header is kept or the kept one says the same of it, and a write that
is refused leaves nothing in the buffer that the first header would be read behind. Between such calls
every buffer is empty, and a run is the same with the refused writes left out.
-/

namespace VprocSdk

open Lib

variable {ι : Type} [DecidableEq ι] {fuel : Nat}

/-- What an image asks for by itself: its own blocks and the completion, up to the first status that is
not accepted. -/
def FwrImage.ownAsked (image : FwrImage) (handle : Nat) (answer : HbiAnswers) : List HbiAsk :=
  ((sendBlocks wrBinFwAccepts (fun _ => ()) (fun _ => ()) handle image.blocks).run answer []).1.map
    Prod.fst

/-- The uploads have each asked for their own image. -/
def UploadsIndependent (handle : ι → Nat) (calls : List (ProcCall ι)) : Prop :=
  ∀ call ∈ calls, ∀ d image answer, call.event = .upload d image answer →
    call.asked = image.ownAsked (handle d) answer ∧
      (CommandsSucceed answer → call.asked = loadCommands (handle d) image.blocks)

/-- The writes a history is made of: images that fit in the buffer, and writes the function refuses
with -1. -/
def UploadAllowed (fuel : Nat) (s : ProcDrv ι) : ProcEvent ι → Prop
  | .upload _ image _ => image.Fits
  | .write d data fault answer => data.length < 2 ^ 32 ∧
      ∃ st dev, ((hbiProcLoadFw fuel s.statics (s.dev d) data fault).run answer []).2
        = some (st, dev, -1)

/-- The kept header gives the length and the block size of an image. -/
def LoadFwStatics.Matches (st : LoadFwStatics) (image : FwrImage) : Prop :=
  st.totalImgLen = image.header.imgLen ∧ st.blockSize = image.header.blockSize

def UploadMeets (s : ProcDrv ι) : ProcEvent ι → Prop
  | .upload _ image _ => s.statics.first = true ∨ s.statics.Matches image
  | .write _ data fault _ => s.statics.first = false ∨ data = [] ∨ imgHdrLen ≤ data.length ∨
      fault.isSome = true

/-- Between calls the buffers are empty, and a header that is kept ends where the payload starts. -/
structure ProcIdle (handle : ι → Nat) (s : ProcDrv ι) : Prop where
  empty : ∀ d, (s.dev d).hbiBuf.len = 0
  handles : ∀ d, (s.dev d).hbiHandle = handle d
  hdrLen : s.statics.first = false → s.statics.hdrLen = imgHdrLen

section Steps

variable {handle : ι → Nat} {s t : ProcDrv ι} {d : ι} {image : FwrImage} {answer : HbiAnswers}

omit [DecidableEq ι] in
theorem ProcIdle.received (h : ProcIdle handle s) (d : ι)
    (hmeets : s.statics.first = true ∨ s.statics.Matches image) :
    Received image [] s.statics (s.dev d).hbiBuf := by
  refine ⟨h.empty d, rfl, ?_⟩
  by_cases hfirst : s.statics.first = true
  · exact .inr ⟨hfirst, rfl⟩
  · left
    obtain ⟨hlen, hblock⟩ := hmeets.resolve_left hfirst
    have hkept : s.statics.first = false := by simpa using hfirst
    have hhdr := h.hdrLen hkept
    rw [FwrImage.statics, ← hkept, ← hlen, ← hblock, ← hhdr]

theorem ProcIdle.after (h : ProcIdle handle s) {ev : ProcEvent ι} {asked : List HbiAsk}
    {st : LoadFwStatics} {dev : HbiDev} {ret : Int} (hlen : dev.hbiBuf.len = 0)
    (hhandle : dev.hbiHandle = (s.dev ev.dev).hbiHandle)
    (hhdr : st.first = false → st.hdrLen = imgHdrLen) : ProcIdle handle (s.after ev asked st dev ret) := by
  have hself : (s.after ev asked st dev ret).dev ev.dev = dev := Function.update_self _ _ _
  have hother : ∀ d, d ≠ ev.dev → (s.after ev asked st dev ret).dev d = s.dev d := by
    intro d hd
    exact Function.update_of_ne hd _ _
  constructor
  · intro d
    by_cases hd : d = ev.dev
    · rw [hd, hself]
      exact hlen
    · rw [hother d hd]
      exact h.empty d
  · intro d
    by_cases hd : d = ev.dev
    · rw [hd, hself, hhandle]
      exact h.handles ev.dev
    · rw [hother d hd]
      exact h.handles d
  · exact hhdr

theorem sendBlocks_asks {ρ σ : Type} (accept : HbiStatus → Bool) (failed finished : HbiStatus → ρ)
    (failed' finished' : HbiStatus → σ) (handle : Nat) (answer : HbiAnswers)
    (blocks : List (List Byte)) (done : Prog.Exchanges HbiAsk HbiReply) :
    ((sendBlocks accept failed finished handle blocks).run answer done).1
      = ((sendBlocks accept failed' finished' handle blocks).run answer done).1 := by
  induction blocks generalizing done with
  | nil => rfl
  | cons block blocks ih =>
      simp only [sendBlocks, setCommand, Prog.query_bind, Prog.ask_bind, Prog.pure_eq, Prog.pure_bind,
        Prog.run_ask]
      split
      · exact ih _
      · rfl

theorem sendBlocks_returns {ρ : Type} (accept : HbiStatus → Bool) (value : HbiStatus → ρ)
    (handle : Nat) (answer : HbiAnswers) (blocks : List (List Byte))
    (done : Prog.Exchanges HbiAsk HbiReply) :
    ∃ status, ((sendBlocks accept value value handle blocks).run answer done).2 = value status := by
  induction blocks generalizing done with
  | nil => exact ⟨_, rfl⟩
  | cons block blocks ih =>
      simp only [sendBlocks, setCommand, Prog.query_bind, Prog.ask_bind, Prog.pure_eq, Prog.pure_bind,
        Prog.run_ask]
      split
      · exact ih _
      · exact ⟨_, rfl⟩

/-- An image written whole while the kept header allows it is sent by itself, and its header is the one
kept from then on. -/
theorem ProcIdle.upload (h : ProcIdle handle s) (d : ι) (answer : HbiAnswers) (hfit : image.Fits)
    (hmeets : s.statics.first = true ∨ s.statics.Matches image) (hfuel : image.numBlocks < fuel) :
    ∃ dev ret, (procMachine fuel).step s (.upload d image answer)
        = some (s.after (.upload d image answer) (image.ownAsked (handle d) answer) image.statics dev
          ret) ∧
      dev.hbiBuf.len = 0 ∧ dev.hbiHandle = (s.dev d).hbiHandle := by
  have hne : image.bytes ≠ [] := by
    intro hnil
    have hlen := image.bytes_length
    rw [hnil, List.length_nil, imgHdrLen] at hlen
    omega
  have hprogram := (h.received d hmeets).write_whole hfit (List.nil_append _) hne hfuel
  obtain ⟨status, hstatus⟩ := sendBlocks_returns wrBinFwAccepts
    (uploadResult image (s.dev d) image.bytes) (s.dev d).hbiHandle answer image.blocks []
  have hasked : (((sendBlocks wrBinFwAccepts (uploadResult image (s.dev d) image.bytes)
      (uploadResult image (s.dev d) image.bytes) (s.dev d).hbiHandle image.blocks).run
        answer []).1.map Prod.fst) = image.ownAsked (handle d) answer := by
    rw [FwrImage.ownAsked, h.handles d]
    exact congrArg _ (sendBlocks_asks _ _ _ _ _ _ _ _ _)
  rw [← hprogram] at hasked hstatus
  exact ⟨_, _, procMachine_step hasked hstatus, rfl, rfl⟩

theorem LoadFwStatics.parse_ok {st st' : LoadFwStatics} {b : HbiLnxBuf} (h : st.parse b = .ok st') :
    (st.first = false → st' = st) ∧ (st.first = true → st'.hdrLen = imgHdrLen) := by
  unfold parse internalHbiGetHdr at h
  by_cases hfirst : st.first = true
  · rw [if_pos hfirst] at h
    by_cases hsize : b.len < imgHdrLen
    · simp [hsize] at h
    · simp only [hsize, if_false, Except.ok.injEq] at h
      rw [← h]
      exact ⟨fun hnot => by simp [hfirst] at hnot, fun _ => rfl⟩
  · rw [if_neg hfirst, Except.ok.injEq] at h
    exact ⟨fun _ => h.symm, fun hyes => absurd hyes hfirst⟩

theorem LoadFwStatics.parse_error {st : LoadFwStatics} {b : HbiLnxBuf} {status : HbiStatus}
    (h : st.parse b = .error status) : st.first = true ∧ b.len < imgHdrLen := by
  unfold parse internalHbiGetHdr at h
  by_cases hfirst : st.first = true
  · by_cases hsize : b.len < imgHdrLen
    · exact ⟨hfirst, hsize⟩
    · simp [hfirst, hsize] at h
  · simp [hfirst] at h

omit [DecidableEq ι] in
/-- A write the function refuses leaves the buffers empty, and the kept header as it was if there was
one. -/
theorem ProcIdle.refused (h : ProcIdle handle s) {data : List Byte} {fault : Option Nat}
    (hsize : data.length < 2 ^ 32)
    (hmeets : s.statics.first = false ∨ data = [] ∨ imgHdrLen ≤ data.length ∨ fault.isSome = true)
    {st : LoadFwStatics} {dev : HbiDev}
    (hret : ((hbiProcLoadFw fuel s.statics (s.dev d) data fault).run answer []).2
      = some (st, dev, -1)) :
    dev.hbiBuf.len = 0 ∧ dev.hbiHandle = (s.dev d).hbiHandle ∧
      (st.first = false → st.hdrLen = imgHdrLen) ∧ (s.statics.first = false → st = s.statics) := by
  have hkeep : (s.statics, s.dev d, (-1 : Int)) = (st, dev, -1) → dev.hbiBuf.len = 0 ∧
      dev.hbiHandle = (s.dev d).hbiHandle ∧ (st.first = false → st.hdrLen = imgHdrLen) ∧
      (s.statics.first = false → st = s.statics) := by
    intro heq
    rw [Prod.mk.injEq, Prod.mk.injEq] at heq
    obtain ⟨rfl, rfl, -⟩ := heq
    exact ⟨h.empty d, rfl, h.hdrLen, fun _ => rfl⟩
  unfold hbiProcLoadFw at hret
  dsimp only at hret
  split at hret
  · exact hkeep (Option.some.inj hret)
  split at hret
  · rw [Prog.pure_eq, Prog.run_pure, Option.some.injEq, Prod.mk.injEq, Prod.mk.injEq] at hret
    obtain ⟨rfl, rfl, -⟩ := hret
    exact ⟨rfl, rfl, h.hdrLen, fun _ => rfl⟩
  cases fault with
  | some copied =>
      dsimp only at hret
      rw [Prog.pure_eq, Prog.run_pure, Option.some.injEq, Prod.mk.injEq, Prod.mk.injEq] at hret
      obtain ⟨rfl, rfl, -⟩ := hret
      exact ⟨h.empty d, rfl, h.hdrLen, fun _ => rfl⟩
  | none =>
      rename_i hsome _
      have hmod : ((s.dev d).hbiBuf.len + data.length) % 2 ^ 32 = data.length := by
        rw [h.empty d, Nat.zero_add]
        exact Nat.mod_eq_of_lt hsize
      dsimp only at hret
      split at hret
      · rename_i status hparse
        obtain ⟨hfirst, hshort⟩ := LoadFwStatics.parse_error hparse
        dsimp only at hshort
        rw [hmod] at hshort
        rcases hmeets with hkept | rfl | hlong | hfault
        · simp [hfirst] at hkept
        · exact absurd rfl hsome
        · omega
        · simp at hfault
      · rename_i st' hparse
        obtain ⟨hkept, hnew⟩ := LoadFwStatics.parse_ok hparse
        split at hret
        · rw [Prog.pure_eq, Prog.run_pure, Option.some.injEq, Prod.mk.injEq, Prod.mk.injEq] at hret
          have hret' := hret.2.2
          omega
        · rw [Prog.run_bind] at hret
          split at hret
          · simp at hret
          · rw [Prog.pure_eq, Prog.run_pure, Option.some.injEq, Prod.mk.injEq, Prod.mk.injEq] at hret
            obtain ⟨rfl, rfl, -⟩ := hret
            refine ⟨rfl, rfl, ?_, hkept⟩
            intro _
            by_cases hfirst : s.statics.first = true
            · exact hnew hfirst
            · have hfalse : s.statics.first = false := by simpa using hfirst
              rw [hkept hfalse]
              exact h.hdrLen hfalse

theorem FwrImage.ownAsked_eq (image : FwrImage) (handle : Nat) (hanswer : CommandsSucceed answer) :
    image.ownAsked handle answer = loadCommands handle image.blocks :=
  (sendBlocks_run wrBinFwAccepts _ _ handle hanswer rfl image.blocks []).1

/-- A run beside the same run without the refused writes. -/
structure Beside (handle : ι → Nat) (events : List (ProcEvent ι)) (s t : ProcDrv ι) : Prop where
  idle : ProcIdle handle s
  idle' : ProcIdle handle t
  kept : t.statics.first = false → s.statics = t.statics
  events : s.calls.map ProcCall.event = events
  own : UploadsIndependent handle s.calls
  same : t.calls.map ProcCall.asked
    = (s.calls.filter fun call => call.event.isUpload).map ProcCall.asked

omit [DecidableEq ι] in
theorem UploadsIndependent.snoc {calls : List (ProcCall ι)} {call : ProcCall ι}
    (h : UploadsIndependent handle calls)
    (hcall : ∀ d image answer, call.event = .upload d image answer →
      call.asked = image.ownAsked (handle d) answer) :
    UploadsIndependent handle (calls ++ [call]) := by
  intro c hc d image answer hevent
  rcases List.mem_append.1 hc with hold | hnew
  · exact h c hold d image answer hevent
  · obtain rfl := List.mem_singleton.1 hnew
    have hasked := hcall d image answer hevent
    exact ⟨hasked, fun hanswer => hasked.trans (image.ownAsked_eq (handle d) hanswer)⟩

theorem Beside.upload {events : List (ProcEvent ι)} {s' : ProcDrv ι} (h : Beside handle events s t)
    (hfit : image.Fits) (hmeets : s.statics.first = true ∨ s.statics.Matches image)
    (hfuel : image.numBlocks < fuel)
    (hstep : (procMachine fuel).step s (.upload d image answer) = some s') :
    ∃ t', (procMachine fuel).step t (.upload d image answer) = some t' ∧
      Beside handle (events ++ [.upload d image answer]) s' t' := by
  have hmeets' : t.statics.first = true ∨ t.statics.Matches image := by
    by_cases hfirst : t.statics.first = true
    · exact .inl hfirst
    · rwa [h.kept (by simpa using hfirst)] at hmeets
  obtain ⟨dev, ret, hs, hlen, hhandle⟩ := h.idle.upload d answer hfit hmeets hfuel
  obtain ⟨dev', ret', ht, hlen', hhandle'⟩ := h.idle'.upload d answer hfit hmeets'
    hfuel
  rw [hs] at hstep
  obtain rfl := Option.some.inj hstep
  refine ⟨_, ht, ?_⟩
  constructor
  · exact h.idle.after hlen hhandle fun _ => rfl
  · exact h.idle'.after hlen' hhandle' fun _ => rfl
  · intro _
    rfl
  · rw [ProcDrv.after, List.map_append, h.events]
    rfl
  · apply h.own.snoc
    intro d' image' answer' hevent
    rw [ProcEvent.upload.injEq] at hevent
    obtain ⟨rfl, rfl, rfl⟩ := hevent
    rfl
  · rw [ProcDrv.after, ProcDrv.after, List.map_append, List.filter_append, List.map_append, h.same]
    rfl

theorem Beside.write {events : List (ProcEvent ι)} {s' : ProcDrv ι} {data : List Byte}
    {fault : Option Nat} (h : Beside handle events s t)
    (hallowed : UploadAllowed fuel s (.write d data fault answer))
    (hmeets : UploadMeets s (.write d data fault answer))
    (hstep : (procMachine fuel).step s (.write d data fault answer) = some s') :
    Beside handle (events ++ [.write d data fault answer]) s' t := by
  obtain ⟨hsize, st, dev, hret⟩ := hallowed
  obtain ⟨hlen, hhandle, hhdr, hkept⟩ := h.idle.refused hsize hmeets hret
  obtain ⟨st', dev', ret', hret', rfl⟩ := procMachine_step_some hstep
  have hsame := hret.symm.trans hret'
  rw [Option.some.injEq, Prod.mk.injEq, Prod.mk.injEq] at hsame
  obtain ⟨rfl, rfl, -⟩ := hsame
  constructor
  · exact h.idle.after hlen hhandle hhdr
  · exact h.idle'
  · intro hfirst
    have hold := h.kept hfirst
    rw [ProcDrv.after, ← hold]
    exact hkept (by rw [hold, hfirst])
  · rw [ProcDrv.after, List.map_append, h.events]
    rfl
  · apply h.own.snoc
    intro d' image' answer' hevent
    simp at hevent
  · rw [ProcDrv.after, List.filter_append, List.map_append, h.same]
    simp [ProcEvent.isUpload]

end Steps

/-- In every history of writes that meet the condition, each image is sent as if it were alone: its own
blocks and the completion where the device accepts them. The history without the refused writes sends
the same. -/
theorem uploads_independent {dev : ι → HbiDev} (hempty : ∀ d, (dev d).hbiBuf.len = 0)
    (hfuel : hbiLnxBufMaxLen ≤ fuel) {events : List (ProcEvent ι)} {s : ProcDrv ι}
    (h : (procMachine fuel).Runs (fun s ev => UploadAllowed fuel s ev ∧ UploadMeets s ev) (.loaded dev)
      events s) :
    s.calls.map ProcCall.event = events ∧
      UploadsIndependent (fun d => (dev d).hbiHandle) s.calls ∧
      ∃ t, (procMachine fuel).exec (.loaded dev) (events.filter ProcEvent.isUpload) = some t ∧
        t.calls.map ProcCall.asked
          = (s.calls.filter fun call => call.event.isUpload).map ProcCall.asked := by
  have hbeside : ∃ t, (procMachine fuel).exec (.loaded dev) (events.filter ProcEvent.isUpload) = some t ∧
      Beside (fun d => (dev d).hbiHandle) events s t := by
    induction h with
    | nil =>
        have hidle : ProcIdle (fun d => (dev d).hbiHandle) (.loaded dev) :=
          ⟨hempty, fun d => rfl, fun hfalse => by simp [ProcDrv.loaded, LoadFwStatics.loaded] at hfalse⟩
        exact ⟨_, rfl, hidle, hidle, fun _ => rfl, rfl, fun call hcall => by simp [ProcDrv.loaded] at hcall,
          rfl⟩
    | @snoc events ev s s' _ hok hstep ih =>
        obtain ⟨t, hexec, hbeside⟩ := ih
        obtain ⟨hallowed, hmeets⟩ := hok
        cases ev with
        | upload d image answer =>
            obtain ⟨t', hstep', hbeside'⟩ := hbeside.upload hallowed hmeets
              (FwrImage.Fits.numBlocks_lt hallowed hfuel) hstep
            refine ⟨t', ?_, hbeside'⟩
            have hlast : [ProcEvent.upload d image answer].filter ProcEvent.isUpload
                = [.upload d image answer] := rfl
            rw [List.filter_append, Machine.exec_append, hexec, Option.bind_some, hlast, Machine.exec,
              hstep']
            rfl
        | write d data fault answer =>
            refine ⟨t, ?_, hbeside.write hallowed hmeets hstep⟩
            have hlast : [ProcEvent.write d data fault answer].filter ProcEvent.isUpload = [] := rfl
            rw [List.filter_append, hlast, List.append_nil, hexec]
  obtain ⟨t, hexec, hbeside⟩ := hbeside
  exact ⟨hbeside.events, hbeside.own, t, hexec, hbeside.same⟩

def oneWord : FwrImage where
  hdr := [0x40, 0x00, 0x50, 0x40, 0x00, 0x01, 0x00, 0x00, 0x00, 0x02, 0x00, 0x00]
  payload := [0x12, 0x34]
  hdr_length := rfl
  payload_length := by decide
  payload_pos := by decide
  block_dvd := by decide
  size_lt := by decide

theorem uploads_independent_twice :
    ∃ s, (procMachine hbiLnxBufMaxLen).exec (.loaded oneDevice)
        [.upload () oneWord stoppedDevice, .upload () oneWord stoppedDevice] = some s ∧
      s.calls.length = 2 ∧ UploadsIndependent (fun _ => 5) s.calls := by
  have hfit : oneWord.Fits := by
    unfold FwrImage.Fits
    decide
  have hsome : ((procMachine hbiLnxBufMaxLen).exec (.loaded oneDevice)
      [.upload () oneWord stoppedDevice, .upload () oneWord stoppedDevice]).isSome = true := by decide
  have hkept : ((procMachine hbiLnxBufMaxLen).step (.loaded oneDevice)
      (.upload () oneWord stoppedDevice)).map ProcDrv.statics = some oneWord.statics := by decide
  obtain ⟨s, hs⟩ := Option.isSome_iff_exists.1 hsome
  obtain ⟨mid, hmid, hrest⟩ := Option.bind_eq_some_iff.1 hs
  obtain ⟨last, hlast, hend⟩ := Option.bind_eq_some_iff.1 hrest
  obtain rfl := Option.some.inj hend
  rw [hmid, Option.map_some, Option.some.injEq] at hkept
  have hmatches : mid.statics.Matches oneWord := by
    rw [hkept]
    exact ⟨rfl, rfl⟩
  have hrun : (procMachine hbiLnxBufMaxLen).Runs
      (fun s ev => UploadAllowed hbiLnxBufMaxLen s ev ∧ UploadMeets s ev) (.loaded oneDevice)
      [.upload () oneWord stoppedDevice, .upload () oneWord stoppedDevice] last :=
    .snoc (.snoc .nil ⟨hfit, .inl rfl⟩ hmid) ⟨hfit, .inr hmatches⟩ hlast
  obtain ⟨hevents, hown, -⟩ := uploads_independent (fun _ => rfl) (Nat.le_refl _) hrun
  refine ⟨last, hs, ?_, hown⟩
  rw [← List.length_map ProcCall.event, hevents]
  rfl

def twoWords : FwrImage where
  hdr := [0x40, 0x00, 0x50, 0x40, 0x00, 0x01, 0x00, 0x00, 0x00, 0x04, 0x00, 0x00]
  payload := [0x56, 0x78, 0x9A, 0xBC]
  hdr_length := rfl
  payload_length := by decide
  payload_pos := by decide
  block_dvd := by decide
  size_lt := by decide

/-- A longer image after a shorter one loses its end, and an image after a refused write of three bytes
is not sent. -/
theorem uploads_disturbed :
    (∃ s, (procMachine hbiLnxBufMaxLen).exec (.loaded oneDevice)
        [.upload () oneWord stoppedDevice, .upload () twoWords stoppedDevice] = some s ∧
      s.calls.map ProcCall.asked
        = [loadCommands 5 oneWord.blocks, loadCommands 5 [[0x56, 0x78]]] ∧
      loadCommands 5 [[0x56, 0x78]] ≠ loadCommands 5 twoWords.blocks) ∧
    ∃ s, (procMachine hbiLnxBufMaxLen).exec (.loaded oneDevice)
        [.write () [0, 0, 0] none stoppedDevice, .upload () oneWord stoppedDevice] = some s ∧
      s.calls.map ProcCall.ret = [-1, 14] ∧ s.calls.map ProcCall.asked = [[], []] := by
  have hfirst : ((procMachine hbiLnxBufMaxLen).exec (.loaded oneDevice)
      [.upload () oneWord stoppedDevice, .upload () twoWords stoppedDevice]).map
        (fun s => s.calls.map ProcCall.asked)
      = some [loadCommands 5 oneWord.blocks, loadCommands 5 [[0x56, 0x78]]] := by decide
  have hsecond : ((procMachine hbiLnxBufMaxLen).exec (.loaded oneDevice)
      [.write () [0, 0, 0] none stoppedDevice, .upload () oneWord stoppedDevice]).map
        (fun s => (s.calls.map ProcCall.ret, s.calls.map ProcCall.asked))
      = some ([-1, 14], [[], []]) := by decide
  obtain ⟨s, hs, hsent⟩ := Option.map_eq_some_iff.1 hfirst
  obtain ⟨t, ht, hcalls⟩ := Option.map_eq_some_iff.1 hsecond
  rw [Prod.mk.injEq] at hcalls
  exact ⟨⟨s, hs, hsent, by decide⟩, t, ht, hcalls.1, hcalls.2⟩

end VprocSdk
