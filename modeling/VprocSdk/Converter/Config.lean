import VprocSdk.Converter.Images
import VprocSdk.Converter.Text

/-!
# Configuration records

`GenerateConfigFile` first puts the registers of the text into segments: a register that follows the last
one joins its segment, any other begins a new one. `Grouped` is what holds after each register: the
segments finished so far and the one in progress write the registers read so far, in file order. The rest
is the image of the segments.
-/

namespace VprocSdk

open Lib HbiCmd

/-- A register of the pages 0 to 0xFD and its value. -/
def IsRecord (addr data : Int) : Prop := addr % 2 = 0 ∧ 0x100 ≤ addr ∧ addr ≤ 0xFEFE ∧ 0 ≤ data ∧ data ≤ 0xFFFF

instance (addr data : Int) : Decidable (IsRecord addr data) :=
  inferInstanceAs (Decidable (_ ∧ _ ∧ _ ∧ _ ∧ _))

def recordWrites (record : Int × Int) : List (Int × Int) := writesAt record.1 (dataBytes record.2)

@[simp] theorem dataBytes_length (data : Int) : (dataBytes data).length = 2 := rfl

theorem dataBytes_isByte {data : Int} (h : 0 ≤ data ∧ data ≤ 0xFFFF) : ∀ b ∈ dataBytes data, IsByte b := by
  intro b hb
  simp only [dataBytes, List.mem_cons, List.not_mem_nil, or_false] at hb
  constructor
  · omega
  · omega

/-! ### The segments -/

def Segment.single (addr data : Int) (h : IsRecord addr data) : Segment where
  addr := addr
  bytes := dataBytes data
  addr_even := h.1
  length_even := by rw [dataBytes_length]
  isByte := dataBytes_isByte h.2.2.2

def Segment.extend (seg : Segment) (data : Int) (h : 0 ≤ data ∧ data ≤ 0xFFFF) : Segment where
  addr := seg.addr
  bytes := seg.bytes ++ dataBytes data
  addr_even := seg.addr_even
  length_even := by
    have hlen := seg.length_even
    rw [List.length_append, dataBytes_length]
    omega
  isByte := by
    intro b hb
    exact (List.mem_append.1 hb).elim (seg.isByte b) (dataBytes_isByte h b)

@[simp] theorem Segment.single_length {addr data : Int} (h : IsRecord addr data) :
    (single addr data h).bytes.length = 2 := rfl

@[simp] theorem Segment.extend_length (seg : Segment) {data : Int} (h : 0 ≤ data ∧ data ≤ 0xFFFF) :
    (seg.extend data h).bytes.length = seg.bytes.length + 2 := List.length_append

theorem Segment.single_paged {addr data : Int} (h : IsRecord addr data) : (single addr data h).Paged := by
  obtain ⟨-, hlow, hhigh, -⟩ := id h
  refine ⟨hlow, ?_⟩
  rw [single_length]
  show addr + 2 ≤ 0xFF00
  omega

theorem Segment.extend_writes (seg : Segment) {data : Int} (h : 0 ≤ data ∧ data ≤ 0xFFFF) :
    (seg.extend data h).writes = seg.writes ++ recordWrites (seg.addr + seg.bytes.length, data) :=
  writesAt_append seg.addr seg.bytes (dataBytes data)

/-- The segments `closed` and the one in progress, after `records`. -/
structure Grouped (records : List (Int × Int)) (st : GroupState) (closed : List Segment)
    (current : Segment) : Prop where
  bufferList : st.bufferList = closed.map Segment.pair ++ [(current.addr, [])]
  dataBuffer : st.dataBuffer = current.bytes
  pos : 0 < current.bytes.length
  prevAddr : st.prevAddr + 2 = current.addr + current.bytes.length
  paged : ∀ seg ∈ closed ++ [current], seg.Paged
  length : ∀ seg ∈ closed ++ [current], seg.bytes.length ≤ 2 * records.length
  writes : (closed ++ [current]).flatMap Segment.writes = records.flatMap recordWrites

section Grouped

variable {records : List (Int × Int)} {st : GroupState} {closed : List Segment} {current : Segment}
  {addr data : Int}

theorem setLast_append (dataBuffer : List Int) (segs : List (Int × List Int)) (addr : Int)
    (old : List Int) : setLast dataBuffer (segs ++ [(addr, old)]) = .ok (segs ++ [(addr, dataBuffer)]) := by
  induction segs with
  | nil => rfl
  | cons seg segs ih =>
      obtain ⟨next, rest, hrest⟩ := List.exists_cons_of_ne_nil
        (List.append_ne_nil_of_right_ne_nil segs (List.cons_ne_nil (addr, old) []))
      rw [hrest] at ih
      rw [List.cons_append, hrest, setLast, ih]
      rfl

theorem Grouped.store (h : Grouped records st closed current) :
    setLast st.dataBuffer st.bufferList = .ok ((closed ++ [current]).map Segment.pair) := by
  rw [h.bufferList, h.dataBuffer, setLast_append, List.map_append]
  rfl

theorem grouped_first (hrecord : IsRecord addr data) :
    Grouped [(addr, data)] { bufferList := [(addr, [])], dataBuffer := dataBytes data, prevAddr := addr } []
      (.single addr data hrecord) := by
  refine ⟨rfl, rfl, Nat.two_pos, rfl, ?_, ?_, rfl⟩
  · intro seg hseg
    rw [List.mem_singleton.1 hseg]
    exact Segment.single_paged hrecord
  · intro seg hseg
    rw [List.mem_singleton.1 hseg]
    exact Nat.le_refl 2

theorem Grouped.begin (h : Grouped records st closed current) (hrecord : IsRecord addr data)
    (hnew : addr ≠ st.prevAddr + 2) :
    ∃ st', groupRecord st addr data = .ok st' ∧ Grouped (records ++ [(addr, data)]) st'
      (closed ++ [current]) (.single addr data hrecord) := by
  have hfirst := grouped_first hrecord
  have hdata : st.dataBuffer.length > 0 := by
    rw [h.dataBuffer]
    exact h.pos
  refine ⟨{ bufferList := (closed ++ [current]).map Segment.pair ++ [(addr, [])]
            dataBuffer := dataBytes data
            prevAddr := addr }, ?_, rfl, rfl, Nat.two_pos, rfl, ?_, ?_, ?_⟩
  · rw [groupRecord, if_pos hnew, if_pos hdata, h.store]
    rfl
  · intro seg hseg
    exact (List.mem_append.1 hseg).elim (h.paged seg) (hfirst.paged seg)
  · intro seg hseg
    rw [List.length_append, List.length_singleton]
    rcases List.mem_append.1 hseg with hold | hlast
    · have hlen := h.length seg hold
      omega
    · have hlen := hfirst.length seg hlast
      rw [List.length_singleton] at hlen
      omega
  · rw [List.flatMap_append, h.writes, List.flatMap_append]
    exact congrArg _ hfirst.writes

theorem Grouped.join (h : Grouped records st closed current) (hrecord : IsRecord addr data)
    (hnext : addr = st.prevAddr + 2) :
    ∃ st', groupRecord st addr data = .ok st' ∧ Grouped (records ++ [(addr, data)]) st' closed
      (current.extend data hrecord.2.2.2) := by
  obtain ⟨-, -, hhigh, hvalue⟩ := id hrecord
  have hend := h.prevAddr
  have hlen := current.extend_length hvalue
  refine ⟨{ st with dataBuffer := st.dataBuffer ++ dataBytes data, prevAddr := addr }, ?_, h.bufferList,
    ?_, ?_, ?_, ?_, ?_, ?_⟩
  · exact if_neg (not_not.2 hnext)
  · show st.dataBuffer ++ dataBytes data = current.bytes ++ dataBytes data
    rw [h.dataBuffer]
  · omega
  · show addr + 2 = current.addr + ((current.extend data hvalue).bytes.length : Int)
    omega
  · intro seg hseg
    rcases List.mem_append.1 hseg with hold | hlast
    · exact h.paged seg (List.mem_append_left _ hold)
    · have hpaged := h.paged current (by simp)
      rw [List.mem_singleton.1 hlast]
      refine ⟨hpaged.1, ?_⟩
      show current.addr + ((current.extend data hvalue).bytes.length : Int) ≤ 0xFF00
      omega
  · intro seg hseg
    rw [List.length_append, List.length_singleton]
    rcases List.mem_append.1 hseg with hold | hlast
    · have hseglen := h.length seg (List.mem_append_left _ hold)
      omega
    · have hcurrent := h.length current (by simp)
      rw [List.mem_singleton.1 hlast, hlen]
      omega
  · have haddr : current.addr + (current.bytes.length : Int) = addr := by omega
    have hwrites := h.writes
    rw [List.flatMap_append, List.flatMap_singleton] at hwrites
    rw [List.flatMap_append, List.flatMap_singleton, current.extend_writes, haddr, ← List.append_assoc,
      hwrites, List.flatMap_append, List.flatMap_singleton]

/-- One more register: it joins the segment in progress or begins the next one. -/
theorem Grouped.step (h : Grouped records st closed current) (hrecord : IsRecord addr data) :
    ∃ st' closed' current', groupRecord st addr data = .ok st' ∧
      Grouped (records ++ [(addr, data)]) st' closed' current' := by
  by_cases hnext : addr = st.prevAddr + 2
  · obtain ⟨st', hrun, hgrouped⟩ := h.join hrecord hnext
    exact ⟨st', _, _, hrun, hgrouped⟩
  · obtain ⟨st', hrun, hgrouped⟩ := h.begin hrecord hnext
    exact ⟨st', _, _, hrun, hgrouped⟩

theorem Grouped.run (h : Grouped records st closed current) (more : List (Int × Int))
    (hrecords : ∀ r ∈ more, IsRecord r.1 r.2) :
    ∃ st' closed' current', groupRecords more st = .ok st' ∧
      Grouped (records ++ more) st' closed' current' := by
  induction more generalizing records st closed current with
  | nil =>
      rw [List.append_nil]
      exact ⟨st, closed, current, rfl, h⟩
  | cons record more ih =>
      obtain ⟨st', closed', current', hstep, hgrouped⟩ := h.step (hrecords record List.mem_cons_self)
      obtain ⟨st'', closed'', current'', hrun, hgroupeds⟩ := ih hgrouped
        fun r hr => hrecords r (List.mem_cons_of_mem _ hr)
      refine ⟨st'', closed'', current'', ?_, ?_⟩
      · rw [groupRecords, hstep]
        exact hrun
      · rw [List.append_assoc] at hgroupeds
        exact hgroupeds

/-- The segments of a configuration record write its registers, in file order. -/
theorem recordSegments_run (hne : records ≠ []) (hrecords : ∀ r ∈ records, IsRecord r.1 r.2) :
    ∃ segs : List Segment, recordSegments records = .ok (segs.map Segment.pair) ∧
      (∀ seg ∈ segs, seg.Paged) ∧ (∀ seg ∈ segs, seg.bytes.length ≤ 2 * records.length) ∧
      segs.flatMap Segment.writes = records.flatMap recordWrites := by
  obtain ⟨⟨addr, data⟩, more, rfl⟩ := List.exists_cons_of_ne_nil hne
  have hrecord : IsRecord addr data := hrecords (addr, data) List.mem_cons_self
  obtain ⟨st, closed, current, hrun, hgrouped⟩ := (grouped_first hrecord).run more
    fun r hr => hrecords r (List.mem_cons_of_mem _ hr)
  have hfirst : groupRecord { bufferList := [], dataBuffer := [], prevAddr := 0 } addr data
      = .ok { bufferList := [(addr, [])], dataBuffer := dataBytes data, prevAddr := addr } := by
    have hnew : addr ≠ (0 : Int) + 2 := by
      have hlow := hrecord.2.1
      omega
    exact if_pos hnew
  have hdata : st.dataBuffer.length ≠ 0 := by
    have hpos := hgrouped.pos
    rw [hgrouped.dataBuffer]
    omega
  refine ⟨closed ++ [current], ?_, hgrouped.paged, hgrouped.length, hgrouped.writes⟩
  have hall : groupRecords ((addr, data) :: more) { bufferList := [], dataBuffer := [], prevAddr := 0 }
      = .ok st := by
    rw [groupRecords, hfirst]
    exact hrun
  rw [recordSegments, hall]
  exact (if_neg hdata).trans hgrouped.store

end Grouped

/-! ### The bytes of an image -/

theorem HbiCmd.Valid.isByte {cmd : HbiCmd} (h : cmd.Valid) : ∀ b ∈ cmd.encode, IsByte b := by
  intro b hb
  cases cmd with
  | page p =>
      rcases List.mem_pair.1 hb with rfl | rfl
      · exact ⟨by decide, by decide⟩
      · exact h
  | base b3 b2 b1 b0 =>
      simp only [encode, List.mem_cons, List.not_mem_nil, or_false] at hb
      obtain ⟨h3, h2, h1, h0⟩ := h
      rcases hb with rfl | rfl | rfl | rfl | rfl | rfl
      · exact ⟨by decide, by decide⟩
      · exact ⟨by decide, by decide⟩
      · exact h3
      · exact h2
      · exact h1
      · exact h0
  | write offset count data =>
      obtain ⟨hoffset, hsmall, hcount, hmax, -, hdata⟩ := h
      rcases List.mem_cons.1 hb with rfl | hb
      · exact ⟨hoffset, by omega⟩
      · rcases List.mem_cons.1 hb with rfl | hb
        · exact ⟨by omega, by omega⟩
        · exact hdata b hb
  | cont count data =>
      obtain ⟨hcount, hmax, -, hdata⟩ := h
      rcases List.mem_cons.1 hb with rfl | hb
      · exact ⟨by decide, by decide⟩
      · rcases List.mem_cons.1 hb with rfl | hb
        · exact ⟨hcount, by omega⟩
        · exact hdata b hb
  | nop =>
      rcases List.mem_pair.1 hb with rfl | rfl
      · exact ⟨by decide, by decide⟩
      · exact ⟨by decide, by decide⟩

theorem encodeAll_isByte {cmds : List HbiCmd} (h : ∀ cmd ∈ cmds, cmd.Valid) :
    ∀ b ∈ encodeAll cmds, IsByte b := by
  intro b hb
  obtain ⟨cmd, hcmd, hbyte⟩ := List.mem_flatMap.1 hb
  exact (h cmd hcmd).isByte b hbyte

theorem Formatted.isByte {words left : Nat} {isConfig : Bool} {exact : Prop} {hbi : HbiState}
    {writes : List (Int × Int)} {result : List Int × ConverterGlobals}
    (h : Formatted words isConfig exact hbi left writes result) : ∀ b ∈ result.1, IsByte b := by
  obtain ⟨cmds, -, hbytes, hemits, -⟩ := h
  rw [hbytes]
  exact encodeAll_isByte hemits.valid

theorem imageHeader_isByte {imageType fwOpn blockSize outListLen : Int} (htype : IsByte imageType)
    (hblock : IsByte blockSize) : ∀ b ∈ imageHeader imageType fwOpn blockSize outListLen, IsByte b := by
  intro b hb
  simp only [imageHeader, imgHdrVersion, List.mem_cons, List.not_mem_nil, or_false] at hb
  obtain ⟨htypeLow, htypeHigh⟩ := htype
  obtain ⟨hblockLow, hblockHigh⟩ := hblock
  constructor
  · omega
  · omega

theorem arrayB_ok {xs : List Int} (h : ∀ b ∈ xs, IsByte b) : arrayB xs = .ok xs := by
  apply if_pos
  rw [List.all_eq_true]
  intro b hb
  exact decide_eq_true (h b hb)

theorem generateConfigImage_eq {fuel : Nat} {segs : List (Int × List Int)} {blockSize : Int}
    {globals globals' : ConverterGlobals} {image : List Int}
    (h : generateConfigImage fuel segs blockSize globals = some (image, globals')) :
    image = imageHeader imgHdrConfig 0 blockSize (image.drop 12).length ++ image.drop 12 := by
  obtain ⟨⟨blocks, g⟩, -, hout⟩ := Option.bind_eq_some_iff.1 h
  cases hout
  rfl

/-! ### The image of a text -/

/-- The image of a configuration record performs the writes of its registers, in file order and no
others. -/
theorem config_image_writes (text : List Char) (k fuel : Nat) (hne : cr2Records text ≠ [])
    (hrecords : ∀ r ∈ cr2Records text, IsRecord r.1 r.2) (hk : 1 ≤ k ∧ k ≤ 8)
    (hfuel : 2 * (cr2Records text).length ≤ fuel) :
    ∃ image cmds, generateConfigFile fuel (some text) ((16 * k : Nat) : Int) .initial
        = some (.ok image, .initial) ∧
      parse (image.drop 12) = some cmds ∧
      ∀ hbi : HbiState, hbi.writesAll cmds = (cr2Records text).flatMap recordWrites := by
  have hwords : 16 ≤ 16 * k ∧ 16 * k ≤ 128 := by omega
  obtain ⟨segs, hsegs, hpaged, hlength, hwrites⟩ := recordSegments_run hne hrecords
  have hrun := fun hbi => generateConfigImage_run segs hbi hwords hpaged
    fun seg hseg => (hlength seg hseg).trans hfuel
  obtain ⟨image, hgen, hformatted⟩ := hrun ⟨0, 0, 0, 0⟩
  have hrange : ∀ seg ∈ segs, seg.InRange := by
    intro seg hseg
    obtain ⟨hlow, hhigh⟩ := hpaged seg hseg
    constructor
    · omega
    · omega
  have hbytes : arrayB image = .ok image := by
    apply arrayB_ok
    intro b hb
    rw [generateConfigImage_eq hgen] at hb
    refine (List.mem_append.1 hb).elim (imageHeader_isByte ⟨by decide, by decide⟩ ?_ b) (hformatted.isByte b)
    constructor
    · omega
    · omega
  have hread : ∀ hbi, ∃ writes, Formatted (16 * k) true (∀ seg ∈ segs, seg.InRange) hbi 0 writes
      (image.drop 12, .initial) ∧ writes = (cr2Records text).flatMap recordWrites := by
    intro hbi
    obtain ⟨image', hgen', hformatted'⟩ := hrun hbi
    rw [hgen] at hgen'
    cases hgen'
    exact ⟨_, hformatted', hwrites⟩
  obtain ⟨cmds, hparse, hcmds⟩ := Formatted.read hread
  refine ⟨image, cmds, ?_, hparse, fun hbi => (hcmds hbi).2 hrange⟩
  unfold generateConfigFile
  dsimp only
  rw [hsegs]
  dsimp only
  rw [hgen]
  exact congrArg (fun result => some (result, ConverterGlobals.initial)) hbytes

theorem config_image_writes_twoRuns : ∃ image cmds,
    generateConfigFile 6 (some "0x202, 0x1234\n\t0x100, 0x5678\n0x102, 0x9ABC".toList) 16 .initial
        = some (.ok image, .initial) ∧
      parse (image.drop 12) = some cmds ∧
      ∀ hbi : HbiState, hbi.writesAll cmds = [(0x202, 0x12), (0x203, 0x34), (0x100, 0x56), (0x101, 0x78),
        (0x102, 0x9A), (0x103, 0xBC)] :=
  config_image_writes "0x202, 0x1234\n\t0x100, 0x5678\n0x102, 0x9ABC".toList 1 6 (by decide) (by decide)
    (by decide) (by decide)

end VprocSdk
