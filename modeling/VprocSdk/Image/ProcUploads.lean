import VprocSdk.Image.ProcLoad

/-!
# Sequences of uploads

Runs of `hbi_proc_load_fw` over any number of devices. An image cut into writes is sent in its last
write exactly when that write is longer than the header, for the length that starts the loading leaves
the header out of the count. Images written whole are each sent as they are as long as the header kept
from the first write of all says the same of them.
-/

namespace VprocSdk

open Lib

variable {ι : Type} [DecidableEq ι]

abbrev HbiAnswers := Prog.Exchanges HbiAsk HbiReply → HbiAsk → HbiReply

/-- A write to the proc file of a device, and what the driver answers during it. An image written whole
is told apart from other writes. -/
inductive ProcEvent (ι : Type)
  | upload (d : ι) (image : FwrImage) (answer : HbiAnswers)
  | write (d : ι) (data : List Byte) (fault : Option Nat) (answer : HbiAnswers)

namespace ProcEvent

def dev : ProcEvent ι → ι
  | .upload d _ _ => d
  | .write d _ _ _ => d

def data : ProcEvent ι → List Byte
  | .upload _ image _ => image.bytes
  | .write _ data _ _ => data

def fault : ProcEvent ι → Option Nat
  | .upload _ _ _ => none
  | .write _ _ fault _ => fault

def answer : ProcEvent ι → HbiAnswers
  | .upload _ _ answer => answer
  | .write _ _ _ answer => answer

def isUpload : ProcEvent ι → Bool
  | .upload _ _ _ => true
  | .write _ _ _ _ => false

end ProcEvent

/-- A call that returned: the questions it asked and its value. -/
structure ProcCall (ι : Type) where
  event : ProcEvent ι
  asked : List HbiAsk
  ret : Int

/-- The driver, and the calls made so far. -/
structure ProcDrv (ι : Type) where
  statics : LoadFwStatics
  dev : ι → HbiDev
  calls : List (ProcCall ι)

def ProcDrv.loaded (dev : ι → HbiDev) : ProcDrv ι := ⟨.loaded, dev, []⟩

def ProcDrv.after (s : ProcDrv ι) (ev : ProcEvent ι) (asked : List HbiAsk) (st : LoadFwStatics)
    (dev : HbiDev) (ret : Int) : ProcDrv ι :=
  ⟨st, Function.update s.dev ev.dev dev, s.calls ++ [⟨ev, asked, ret⟩]⟩

def procMachine (fuel : Nat) : Machine (ProcDrv ι) (ProcEvent ι) where
  step s ev :=
    match (hbiProcLoadFw fuel s.statics (s.dev ev.dev) ev.data ev.fault).run ev.answer [] with
    | (_, none) => none
    | (record, some (st, dev, ret)) => some (s.after ev (record.map Prod.fst) st dev ret)

variable {fuel : Nat} {image : FwrImage}

theorem procMachine_step {s : ProcDrv ι} {ev : ProcEvent ι} {asked : List HbiAsk}
    {st : LoadFwStatics} {dev : HbiDev} {ret : Int}
    (hasked : ((hbiProcLoadFw fuel s.statics (s.dev ev.dev) ev.data ev.fault).run
      ev.answer []).1.map Prod.fst = asked)
    (hret : ((hbiProcLoadFw fuel s.statics (s.dev ev.dev) ev.data ev.fault).run ev.answer []).2
      = some (st, dev, ret)) :
    (procMachine fuel).step s ev = some (s.after ev asked st dev ret) := by
  dsimp only [procMachine]
  cases hrun : (hbiProcLoadFw fuel s.statics (s.dev ev.dev) ev.data ev.fault).run ev.answer [] with
  | mk record result =>
      rw [hrun] at hasked hret
      dsimp only at hasked hret
      rw [hret, ← hasked]

theorem procMachine_step_some {s t : ProcDrv ι} {ev : ProcEvent ι}
    (h : (procMachine fuel).step s ev = some t) :
    ∃ st dev ret, ((hbiProcLoadFw fuel s.statics (s.dev ev.dev) ev.data ev.fault).run
        ev.answer []).2 = some (st, dev, ret) ∧
      t = s.after ev (((hbiProcLoadFw fuel s.statics (s.dev ev.dev) ev.data ev.fault).run
        ev.answer []).1.map Prod.fst) st dev ret := by
  dsimp only [procMachine] at h
  cases hrun : (hbiProcLoadFw fuel s.statics (s.dev ev.dev) ev.data ev.fault).run ev.answer [] with
  | mk record result =>
      rw [hrun] at h
      cases result with
      | none => simp at h
      | some r => exact ⟨r.1, r.2.1, r.2.2, rfl, (Option.some.inj h).symm⟩

theorem procMachine_calls {s t : ProcDrv ι} {events : List (ProcEvent ι)}
    (h : (procMachine fuel).exec s events = some t) : ∃ more, t.calls = s.calls ++ more := by
  induction events generalizing s with
  | nil =>
      rw [Machine.exec, Option.some.injEq] at h
      exact ⟨[], by rw [h, List.append_nil]⟩
  | cons ev events ih =>
      obtain ⟨mid, hmid, hrest⟩ := Option.bind_eq_some_iff.1 h
      obtain ⟨st, dev, ret, -, rfl⟩ := procMachine_step_some hmid
      obtain ⟨more, hmore⟩ := ih hrest
      exact ⟨_, by rw [hmore, ProcDrv.after, List.append_assoc]⟩

/-! ### An image cut into writes -/

/-- The writes of a cut, with nothing going wrong in copying them. -/
def cutWrites (d : ι) (answer : HbiAnswers) (cut : List (List Byte)) : List (ProcEvent ι) :=
  cut.map fun w => .write d w none answer

/-- The writes send the image as it should be: nothing before the last write, in the last write the
blocks and the completion, and then the buffer is empty. -/
def SendsInLastWrite (fuel : Nat) (s : ProcDrv ι) (d : ι) (image : FwrImage) (answer : HbiAnswers)
    (cut : List (List Byte)) : Prop :=
  ∃ t, (procMachine fuel).exec s (cutWrites d answer cut) = some t ∧
    t.calls.map ProcCall.asked = s.calls.map ProcCall.asked ++
      (List.replicate (cut.length - 1) [] ++ [loadCommands (s.dev d).hbiHandle image.blocks]) ∧
    (t.dev d).hbiBuf.len = 0

theorem Received.payload {part data : List Byte} {st : LoadFwStatics} {b : HbiLnxBuf}
    (h : Received image part st b) (hwhole : part ++ data = image.bytes) :
    slice (fun i => (b.appended data).buf (imgHdrLen + i)) 0 image.payload.length = image.payload := by
  have hbuf := h.append_buf data
  rw [hwhole] at hbuf
  have hpayload := FwrImage.slice_payload hbuf
  rw [← image.payload_eq] at hpayload
  have hcells : slice (fun i => (b.appended data).buf (imgHdrLen + i)) 0 image.payload.length
      = slice (b.appended data).buf imgHdrLen image.payload.length := by
    apply slice_congr
    intro k _
    rw [Nat.zero_add]
  rw [hcells, hpayload]

theorem sendBlocks_bind {ρ σ : Type} {accept : HbiStatus → Bool} {failed finished : HbiStatus → ρ}
    {handle : Nat} {next : ρ → Loader σ} (value : ρ → σ) (hnext : ∀ r, next r = .pure (value r))
    (blocks : List (List Byte)) :
    (sendBlocks accept failed finished handle blocks >>= next)
      = sendBlocks accept (value ∘ failed) (value ∘ finished) handle blocks := by
  induction blocks with
  | nil =>
      simp only [sendBlocks, setCommand, Prog.query_bind, Prog.ask_bind, Prog.pure_eq, Prog.pure_bind,
        hnext]
      rfl
  | cons block blocks ih =>
      simp only [sendBlocks, setCommand, Prog.query_bind, Prog.ask_bind, Prog.pure_eq, Prog.pure_bind]
      congr 1
      funext reply
      by_cases haccept : accept reply.status = true
      · rw [if_pos haccept, if_pos haccept, ih]
      · rw [if_neg haccept, if_neg haccept, Prog.pure_bind, hnext]
        rfl

/-- What the write that completes the file leaves and returns, by the last status it saw. -/
def uploadResult (image : FwrImage) (dev : HbiDev) (data : List Byte) (status : HbiStatus) :
    Option (LoadFwStatics × HbiDev × Int) :=
  some (image.statics, ⟨dev.hbiHandle, (dev.hbiBuf.appended data).memset⟩,
    if status ≠ .success then -1 else data.length)

theorem Received.write_whole {part data : List Byte} {st : LoadFwStatics} {dev : HbiDev}
    (h : Received image part st dev.hbiBuf) (hfit : image.Fits)
    (hwhole : part ++ data = image.bytes) (hne : data ≠ []) (hfuel : image.numBlocks < fuel) :
    hbiProcLoadFw fuel st dev data none
      = sendBlocks wrBinFwAccepts (uploadResult image dev data) (uploadResult image dev data)
          dev.hbiHandle image.blocks := by
  have hlen := image.bytes_length
  rw [← hwhole] at hlen
  have hpart : part ++ data ++ [] = image.bytes := by rw [List.append_nil, hwhole]
  have hfull : image.header.imgLen ≤ (part ++ data).length := by
    rw [image.imgLen_eq]
    omega
  have hwrite := h.write_full fuel dev.hbiHandle hfit hpart hne (by omega) hfull
  rw [hbiWrBinFw_eq (h.payload hwhole) hfuel] at hwrite
  let value : Option HbiStatus → Option (LoadFwStatics × HbiDev × Int) := fun result =>
    result.bind (uploadResult image dev data)
  refine hwrite.trans (sendBlocks_bind value ?_ image.blocks)
  intro result
  cases result <;> rfl

theorem hbiWrBinFw_starts (image : FwrImage) (handle : Nat) (buf : Nat → Byte) (hfuel : 0 < fuel) :
    ∃ ask, (hbiWrBinFw fuel handle buf image.header.imgLen image.header.blockSize).Starts ask := by
  obtain ⟨rest, rfl⟩ : ∃ rest, fuel = rest + 1 := ⟨fuel - 1, by omega⟩
  have hpos := image.blockLen_pos
  have hle := image.blockLen_le
  have hchunk : image.header.blockSize <<< 1 % 2 ^ 32 = image.blockLen := by
    rw [Nat.shiftLeft_eq, Nat.mul_comm]
    exact Nat.mod_eq_of_lt image.blockLen_lt
  have hfits : ¬ (image.header.imgLen < image.blockLen ∨ image.blockLen = 0) := by
    rw [image.imgLen_eq]
    omega
  rw [hbiWrBinFw, hchunk, wrBinFwLoop, if_neg hfits]
  exact ⟨_, Prog.starts_ask _ _⟩

theorem sendsInLastWrite_quiet (fuel : Nat) {s : ProcDrv ι} {d : ι} (answer : HbiAnswers)
    {part w : List Byte} {cut : List (List Byte)}
    (h : Received image part s.statics (s.dev d).hbiBuf) (hfit : image.Fits)
    (hpart : part ++ w ++ cut.flatten = image.bytes) (hne : w ≠ [])
    (hlen : imgHdrLen ≤ (part ++ w).length) (hless : (part ++ w).length < image.header.imgLen)
    (hcut : cut ≠ []) :
    ∃ t : ProcDrv ι, Received image (part ++ w) t.statics (t.dev d).hbiBuf ∧
      (SendsInLastWrite fuel s d image answer (w :: cut) ↔
        SendsInLastWrite fuel t d image answer cut) := by
  obtain ⟨hquiet, hreceived⟩ := h.write_quiet fuel (s.dev d).hbiHandle hfit hpart
    hne hlen hless
  have hstep : (procMachine fuel).step s (.write d w none answer)
      = some (s.after (.write d w none answer) [] image.statics
        ⟨(s.dev d).hbiHandle, (s.dev d).hbiBuf.appended w⟩ w.length) := by
    apply procMachine_step
    · exact congrArg (fun p => (p.run answer []).1.map Prod.fst) hquiet
    · exact congrArg (fun p => (p.run answer []).2) hquiet
  obtain ⟨t, ht⟩ : ∃ t, t = s.after (.write d w none answer) [] image.statics
    ⟨(s.dev d).hbiHandle, (s.dev d).hbiBuf.appended w⟩ w.length := ⟨_, rfl⟩
  have hdev : t.dev d = ⟨(s.dev d).hbiHandle, (s.dev d).hbiBuf.appended w⟩ := by
    rw [ht]
    exact Function.update_self _ _ _
  have hcalls : t.calls.map ProcCall.asked = s.calls.map ProcCall.asked ++ [[]] := by
    rw [ht]
    simp [ProcDrv.after]
  have hexec : (procMachine fuel).exec s (cutWrites d answer (w :: cut))
      = (procMachine fuel).exec t (cutWrites d answer cut) := by
    rw [cutWrites, List.map_cons, Machine.exec, hstep, ← ht]
    rfl
  have hcount : List.replicate ((w :: cut).length - 1) ([] : List HbiAsk)
      = [] :: List.replicate (cut.length - 1) [] := by
    obtain ⟨n, hn⟩ : ∃ n, cut.length = n + 1 :=
      ⟨cut.length - 1, by have := List.length_pos_iff.2 hcut; omega⟩
    rw [List.length_cons, hn]
    rfl
  refine ⟨t, ?_, ?_⟩
  · rw [hdev, ht]
    exact hreceived
  · unfold SendsInLastWrite
    rw [hexec, hcount, hdev, hcalls, List.append_assoc]
    rfl

theorem sendsInLastWrite_whole {s : ProcDrv ι} {d : ι} {answer : HbiAnswers} {part w : List Byte}
    (h : Received image part s.statics (s.dev d).hbiBuf) (hfit : image.Fits)
    (hwhole : part ++ w = image.bytes) (hne : w ≠ []) (hfuel : image.numBlocks < fuel)
    (hanswer : CommandsSucceed answer) : SendsInLastWrite fuel s d image answer [w] := by
  have hprogram := h.write_whole hfit hwhole hne hfuel
  obtain ⟨hasked, hresult⟩ := sendBlocks_run wrBinFwAccepts (uploadResult image (s.dev d) w)
    (uploadResult image (s.dev d) w) (s.dev d).hbiHandle hanswer rfl image.blocks []
  rw [← hprogram] at hasked hresult
  have hstep : (procMachine fuel).step s (.write d w none answer)
      = some (s.after (.write d w none answer) (loadCommands (s.dev d).hbiHandle image.blocks)
        image.statics ⟨(s.dev d).hbiHandle, ((s.dev d).hbiBuf.appended w).memset⟩ w.length) :=
    procMachine_step hasked hresult
  have hexec : (procMachine fuel).exec s (cutWrites d answer [w])
      = some (s.after (.write d w none answer) (loadCommands (s.dev d).hbiHandle image.blocks)
        image.statics ⟨(s.dev d).hbiHandle, ((s.dev d).hbiBuf.appended w).memset⟩ w.length) := by
    rw [cutWrites, List.map_singleton, Machine.exec, hstep]
    rfl
  refine ⟨_, hexec, ?_, ?_⟩
  · simp [ProcDrv.after]
  · simp [ProcDrv.after, ProcEvent.dev, HbiLnxBuf.memset]

theorem not_sendsInLastWrite_early {s : ProcDrv ι} {d : ι} (answer : HbiAnswers) {part w : List Byte}
    {cut : List (List Byte)} (h : Received image part s.statics (s.dev d).hbiBuf) (hfit : image.Fits)
    (hpart : part ++ w ++ cut.flatten = image.bytes) (hne : w ≠ [])
    (hlen : imgHdrLen ≤ (part ++ w).length) (hfull : image.header.imgLen ≤ (part ++ w).length)
    (hfuel : 0 < fuel) (hcut : cut ≠ []) : ¬ SendsInLastWrite fuel s d image answer (w :: cut) := by
  intro hexists
  obtain ⟨t, hexec, hcalls, -⟩ := hexists
  have hprogram := h.write_full fuel (s.dev d).hbiHandle hfit hpart hne hlen hfull
  rw [cutWrites, List.map_cons, Machine.exec] at hexec
  obtain ⟨mid, hmid, hrest⟩ := Option.bind_eq_some_iff.1 hexec
  obtain ⟨st, dev, ret, -, rfl⟩ := procMachine_step_some hmid
  obtain ⟨more, hmore⟩ := procMachine_calls hrest
  obtain ⟨ask, hstarts⟩ := hbiWrBinFw_starts image (s.dev d).hbiHandle
    (fun i => ((s.dev d).hbiBuf.appended w).buf (imgHdrLen + i)) hfuel
  obtain ⟨asks, hasks⟩ := (hstarts.bind _).run answer []
  rw [← hprogram] at hasks
  obtain ⟨n, hn⟩ : ∃ n, cut.length = n + 1 :=
    ⟨cut.length - 1, by have := List.length_pos_iff.2 hcut; omega⟩
  rw [hmore, List.length_cons, Nat.add_sub_cancel, hn, List.replicate_succ, ProcDrv.after,
    List.map_append, List.map_append, List.append_assoc] at hcalls
  have hfirst := List.append_cancel_left hcalls
  have hasked : (((hbiProcLoadFw fuel s.statics (s.dev d) w none).run answer []).1.map Prod.fst)
      = [] := (List.cons.inj hfirst).1
  have hnone := congrArg List.length (hasked.symm.trans (congrArg (List.map Prod.fst) hasks))
  simp at hnone

/-- From any moment of a cut before the declared length has arrived, what is left of it ends well
exactly when its last write is longer than a header. -/
theorem Received.sendsInLastWrite_iff {s : ProcDrv ι} {d : ι} {answer : HbiAnswers}
    {part : List Byte} {cut : List (List Byte)}
    (h : Received image part s.statics (s.dev d).hbiBuf) (hfit : image.Fits)
    (hpart : part ++ cut.flatten = image.bytes) (hne : ∀ w ∈ cut, w ≠ [])
    (hfirst : imgHdrLen ≤ part.length ∨ ∀ w ∈ cut.head?, imgHdrLen ≤ w.length)
    (hless : part.length < image.header.imgLen) (hfuel : image.numBlocks < fuel)
    (hanswer : CommandsSucceed answer) :
    SendsInLastWrite fuel s d image answer cut ↔ ∃ w ∈ cut.getLast?, imgHdrLen < w.length := by
  induction cut generalizing s part with
  | nil =>
      have hlen := congrArg List.length hpart
      rw [List.flatten_nil, List.append_nil, image.bytes_length, ← image.imgLen_eq] at hlen
      omega
  | cons w cut ih =>
      have hw : w ≠ [] := hne w List.mem_cons_self
      have hrest : ∀ w ∈ cut, w ≠ [] := fun w hmem => hne w (List.mem_cons_of_mem _ hmem)
      have hsplit : part ++ w ++ cut.flatten = image.bytes := by
        rw [List.append_assoc, ← List.flatten_cons, hpart]
      have htotal := congrArg List.length hsplit
      rw [List.length_append, image.bytes_length, ← image.imgLen_eq] at htotal
      have hhdr : imgHdrLen ≤ (part ++ w).length := by
        rw [List.length_append]
        rcases hfirst with hold | hnew
        · omega
        · have := hnew w rfl
          omega
      by_cases hmore : (part ++ w).length < image.header.imgLen
      · have hcut : cut ≠ [] := by
          intro heq
          subst heq
          rw [List.flatten_nil, List.length_nil] at htotal
          omega
        obtain ⟨t, hreceived, hsends⟩ := sendsInLastWrite_quiet fuel answer h hfit hsplit hw hhdr
          hmore hcut
        rw [hsends, ih hreceived hsplit hrest (.inl hhdr) hmore, List.getLast?_cons]
        obtain ⟨last, hlast⟩ : ∃ last, cut.getLast? = some last :=
          Option.isSome_iff_exists.1 (by simpa using hcut)
        rw [hlast]
        rfl
      · by_cases hcut : cut = []
        · subst hcut
          rw [List.flatten_nil, List.append_nil] at hsplit
          have hlong : imgHdrLen < w.length := by
            rw [List.flatten_nil, List.length_nil, List.length_append] at htotal
            omega
          constructor
          · intro _
            exact ⟨w, rfl, hlong⟩
          · intro _
            exact sendsInLastWrite_whole h hfit hsplit hw hfuel hanswer
        · have hearly := not_sendsInLastWrite_early answer h hfit hsplit hw hhdr
            (by omega) (Nat.zero_lt_of_lt hfuel) hcut
          have hshort : ∀ v ∈ (w :: cut).getLast?, v.length ≤ imgHdrLen := by
            intro v hv
            have hmem : v ∈ cut := by
              rw [List.getLast?_cons_of_ne_nil hcut] at hv
              exact List.mem_of_getLast? hv
            have hle := (List.sublist_flatten_of_mem hmem).length_le
            omega
          constructor
          · intro hsends
            exact absurd hsends hearly
          · intro hexists
            obtain ⟨v, hv, hlong⟩ := hexists
            have := hshort v hv
            omega

theorem Received.empty (image : FwrImage) {b : HbiLnxBuf} (hempty : b.len = 0) :
    Received image [] .loaded b :=
  ⟨hempty, rfl, .inr ⟨rfl, rfl⟩⟩

/-- An image cut into writes after the driver is loaded is sent as it should be exactly when the last
write is longer than the header: with a shorter one, the bytes before it are already as many as the
header declares. -/
theorem cutUpload_iff {dev : ι → HbiDev} {d : ι} (hempty : (dev d).hbiBuf.len = 0)
    (image : FwrImage) (hfit : image.Fits) {cut : List (List Byte)} (hcut : cut.flatten = image.bytes)
    (hne : ∀ w ∈ cut, w ≠ []) (hfirst : ∀ w ∈ cut.head?, imgHdrLen ≤ w.length)
    {answer : HbiAnswers} (hanswer : CommandsSucceed answer) (hfuel : hbiLnxBufMaxLen ≤ fuel) :
    SendsInLastWrite fuel (.loaded dev) d image answer cut ↔
      ∃ w ∈ cut.getLast?, imgHdrLen < w.length := by
  have hpos : ([] : List Byte).length < image.header.imgLen := by
    rw [image.imgLen_eq]
    exact image.payload_pos
  exact (Received.empty image hempty).sendsInLastWrite_iff hfit hcut hne (.inr hfirst) hpos
    (hfit.numBlocks_lt hfuel) hanswer

def oneDevice (_ : Unit) : HbiDev := ⟨5, ⟨fun _ => 0, 0⟩⟩

theorem cutUpload_iff_middle :
    SendsInLastWrite hbiLnxBufMaxLen (.loaded oneDevice) () twoBlocks stoppedDevice
      [twoBlocks.bytes.take 20, twoBlocks.bytes.drop 20] := by
  have hanswer : CommandsSucceed stoppedDevice := fun _ _ _ => rfl
  have hne : ∀ w ∈ [twoBlocks.bytes.take 20, twoBlocks.bytes.drop 20], w ≠ [] := by decide
  have hfirst : ∀ w ∈ [twoBlocks.bytes.take 20, twoBlocks.bytes.drop 20].head?,
      imgHdrLen ≤ w.length := by decide
  have hfit : twoBlocks.Fits := by
    unfold FwrImage.Fits
    decide
  exact (cutUpload_iff rfl twoBlocks hfit rfl hne hfirst hanswer (Nat.le_refl _)).2
    ⟨twoBlocks.bytes.drop 20, rfl, by decide⟩

/-- With the last twelve bytes in a write of their own, the image is sent without them, one write too
early. -/
theorem cutUpload_short_last_write :
    ¬ SendsInLastWrite hbiLnxBufMaxLen (.loaded oneDevice) () twoBlocks stoppedDevice
      [twoBlocks.bytes.take 28, twoBlocks.bytes.drop 28] := by
  intro hexists
  obtain ⟨t, hexec, hcalls, -⟩ := hexists
  have hsent : ((procMachine hbiLnxBufMaxLen).exec (.loaded oneDevice) (cutWrites () stoppedDevice
      [twoBlocks.bytes.take 28, twoBlocks.bytes.drop 28])).map (fun t => t.calls.map ProcCall.asked)
      = some [loadCommands 5 [(twoBlocks.payload.take 14),
          (twoBlocks.payload.drop 14).take 2 ++ List.replicate 12 0], []] := by decide
  rw [hexec, Option.map_some, Option.some.injEq, hcalls] at hsent
  exact absurd hsent (by decide)

end VprocSdk
