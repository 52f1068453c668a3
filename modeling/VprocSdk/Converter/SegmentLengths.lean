import VprocSdk.Converter.Exceptions
import VprocSdk.Converter.Segments

/-!
# The length of a segment

For records of any kind `segmentSteps` lists their gaps and sizes, and the length of what `ParseS3Segment`
collects is read off them. `FormatSegmentToHbi` counts words. What it makes of an even number of bytes are
complete commands that write these bytes, also from an odd address, which it takes for the even one before.
Behind an odd number the last byte begins a command.
-/

namespace VprocSdk

open Lib HbiCmd

/-! ### What the parser collects -/

/-- The gap before each S3 record from the one at the address of the segment on, and the number of its
bytes. The first argument is the address after the record before, once the segment is found. A record at
the address of the segment has no gap. -/
def stepsFrom (segAddr : Int) : Option Int → List (List Char) → List (Int × Nat)
  | _, [] => []
  | expected, line :: lines =>
      if isS3 line then
        match intHex ((line.drop 4).take 8) with
        | .error _ => stepsFrom segAddr expected lines
        | .ok addr =>
            let size := (pySlice (hexBytes (line.drop 2)) 5 (-1)).length
            match if addr = segAddr then some addr else expected with
            | none => stepsFrom segAddr none lines
            | some place => (addr - place, size) :: stepsFrom segAddr (some (addr + size)) lines
      else stepsFrom segAddr expected lines

def segmentSteps (segAddr : Int) (lines : List (List Char)) : List (Int × Nat) := stepsFrom segAddr none lines

/-- What the loop compares with the length of the segment. -/
def counted (steps : List (Int × Nat)) : Int := (steps.map fun step => step.1 + (step.2 : Int)).sum

/-- The number of bytes: a negative gap takes none away. -/
def collectedBytes (steps : List (Int × Nat)) : Nat := (steps.map fun step => step.1.toNat + step.2).sum

/-- The records bring an even number of bytes, at most as many as the segment has: either their count comes
to the length of the segment, an even one, and no record before overlaps the one before it, or it never does
and all records together stay inside. -/
def StaysInside (steps : List (Int × Nat)) (segLen : Int) : Prop :=
  (∃ n, 0 < n ∧ n ≤ steps.length ∧ counted (steps.take n) = segLen ∧ ∀ step ∈ steps.take n, 0 ≤ step.1) ∧
      segLen % 2 = 0 ∨
    (∀ n, 0 < n → n ≤ steps.length → counted (steps.take n) ≠ segLen) ∧ (collectedBytes steps : Int) ≤ segLen ∧
      collectedBytes steps % 2 = 0

theorem counted_cons (step : Int × Nat) (steps : List (Int × Nat)) :
    counted (step :: steps) = step.1 + step.2 + counted steps := by
  rw [counted, List.map_cons, List.sum_cons, ← counted]

theorem collectedBytes_cons (step : Int × Nat) (steps : List (Int × Nat)) :
    collectedBytes (step :: steps) = step.1.toNat + step.2 + collectedBytes steps := by
  rw [collectedBytes, List.map_cons, List.sum_cons, ← collectedBytes]

theorem counted_le (steps : List (Int × Nat)) : counted steps ≤ collectedBytes steps := by
  induction steps with
  | nil => exact Int.le_refl 0
  | cons step steps ih =>
      rw [counted_cons, collectedBytes_cons]
      omega

theorem counted_eq_iff (steps : List (Int × Nat)) :
    counted steps = collectedBytes steps ↔ ∀ step ∈ steps, 0 ≤ step.1 := by
  induction steps with
  | nil => simp [counted, collectedBytes]
  | cons step steps ih =>
      have hle := counted_le steps
      rw [List.forall_mem_cons, ← ih, counted_cons, collectedBytes_cons]
      omega

/-- The loop stops behind the first `n` steps: where the count first comes to the length of the segment, or
behind all of them. -/
structure StopsAfter (count segLen : Int) (steps : List (Int × Nat)) (n : Nat) : Prop where
  le_length : n ≤ steps.length
  before : ∀ m, 0 < m → m < n → count + counted (steps.take m) ≠ segLen
  last : 0 < n ∧ count + counted (steps.take n) = segLen ∨
    n = steps.length ∧ (0 < n → count + counted (steps.take n) ≠ segLen)

section Stops

variable {count count' segLen : Int} {step : Int × Nat} {steps : List (Int × Nat)} {n : Nat}

theorem StopsAfter.nil : StopsAfter count segLen [] 0 :=
  ⟨Nat.le_refl 0, by omega, .inr ⟨rfl, by omega⟩⟩

theorem add_counted_cons (hcount : count' = count + (step.1 + step.2)) (k : Nat) :
    count + counted ((step :: steps).take (k + 1)) = count' + counted (steps.take k) := by
  rw [List.take_succ_cons, counted_cons, hcount]
  omega

theorem StopsAfter.meets (hcount : count' = count + (step.1 + step.2)) (hstop : count' = segLen) :
    StopsAfter count segLen (step :: steps) 1 := by
  refine ⟨by simp, by omega, .inl ⟨Nat.one_pos, ?_⟩⟩
  rw [add_counted_cons hcount 0, hstop]
  simp [counted]

theorem StopsAfter.cons (hcount : count' = count + (step.1 + step.2)) (hstop : count' ≠ segLen)
    (h : StopsAfter count' segLen steps n) : StopsAfter count segLen (step :: steps) (n + 1) := by
  have hfirst : count + counted ((step :: steps).take 1) ≠ segLen := by
    rw [add_counted_cons hcount 0]
    simpa [counted] using hstop
  have hle := h.le_length
  refine ⟨by rw [List.length_cons]; omega, ?_, ?_⟩
  · intro m hm hmn
    match m, hm with
    | 1, _ => exact hfirst
    | m + 2, _ =>
        rw [add_counted_cons hcount]
        exact h.before (m + 1) (by omega) (by omega)
  · rcases h.last with ⟨hpos, hmeet⟩ | ⟨hall, hnever⟩
    · exact .inl ⟨by omega, by rw [add_counted_cons hcount]; exact hmeet⟩
    · refine .inr ⟨by rw [List.length_cons, hall], fun _ => ?_⟩
      cases n with
      | zero => exact hfirst
      | succ n =>
          rw [add_counted_cons hcount]
          exact hnever (by omega)

end Stops

/-- The address expected in a state, once the segment is found. -/
def S3State.expected (st : S3State) : Option Int := if st.found then some st.addrExpected else none

section Steps

variable {segAddr segLen addr : Int} {st : S3State}

theorem S3State.reach_expected :
    (st.reach segAddr addr).expected = if addr = segAddr then some addr else st.expected := by
  unfold S3State.reach
  split
  · rfl
  · rfl

theorem S3State.append_expected (hfound : st.found = true) (payload : List Int) :
    (st.append addr payload).expected = some (addr + payload.length) := by
  have hkeep : (st.append addr payload).found = true := hfound
  rw [S3State.expected, if_pos hkeep]
  simp only [S3State.append]
  congr 1
  omega

theorem s3Lines_steps {lines : List (List Char)} {seg : List Int}
    (h : s3Lines segAddr segLen lines st = .ok seg) :
    ∃ n, StopsAfter st.segCounter segLen (stepsFrom segAddr st.expected lines) n ∧
      seg.length = st.segBuffer.length + collectedBytes ((stepsFrom segAddr st.expected lines).take n) := by
  induction lines generalizing st with
  | nil =>
      cases h
      exact ⟨0, .nil, by simp [stepsFrom, collectedBytes]⟩
  | cons line lines ih =>
      rw [stepsFrom]
      by_cases hs3 : isS3 line = true
      · obtain ⟨addr, haddr⟩ := s3Lines_addr hs3 h
        rw [s3Lines_s3 hs3 haddr] at h
        rw [if_pos hs3, haddr]
        simp only [← S3State.reach_expected]
        rw [← @S3State.reach_segBuffer segAddr addr st, ← @S3State.reach_segCounter segAddr addr st]
        generalize st.reach segAddr addr = st' at h ⊢
        by_cases hfound : st'.found = true
        · simp only [if_pos hfound] at h
          rw [S3State.expected, if_pos hfound]
          split at h
          · cases h
          · revert h
            generalize pySlice (hexBytes (line.drop 2)) 5 (-1) = payload
            intro h
            have hbuffer : (st'.append addr payload).segBuffer.length
                = st'.segBuffer.length + ((addr - st'.addrExpected).toNat + payload.length) := by
              simp [S3State.append]
            have hcounter : (st'.append addr payload).segCounter
                = st'.segCounter + (addr - st'.addrExpected + payload.length) := rfl
            by_cases hstop : (st'.append addr payload).segCounter = segLen
            · rw [if_pos hstop] at h
              cases h
              refine ⟨1, .meets hcounter hstop, ?_⟩
              rw [hbuffer, List.take_succ_cons, List.take_zero, collectedBytes_cons]
              rfl
            · rw [if_neg hstop] at h
              obtain ⟨n, hstops, hlength⟩ := ih h
              rw [S3State.append_expected hfound] at hstops hlength
              refine ⟨n + 1, .cons hcounter hstop hstops, ?_⟩
              rw [hlength, hbuffer, List.take_succ_cons, collectedBytes_cons]
              omega
        · rw [if_neg hfound] at h
          obtain ⟨n, hstops, hlength⟩ := ih h
          rw [S3State.expected, if_neg hfound] at hstops hlength ⊢
          exact ⟨n, hstops, hlength⟩
      · rw [s3Lines_other (Bool.eq_false_of_not_eq_true hs3)] at h
        rw [if_neg hs3]
        exact ih h

end Steps

theorem gaps_of_take {steps : List (Int × Nat)} {m n : Nat} (hmn : m ≤ n)
    (h : ∀ step ∈ steps.take n, 0 ≤ step.1) : ∀ step ∈ steps.take m, 0 ≤ step.1 := by
  intro step hstep
  apply h
  rw [← Nat.min_eq_left hmn, ← List.take_take] at hstep
  exact List.mem_of_mem_take hstep

/-- What the parser returns is an even number of bytes and no longer than the segment exactly when the records
stay inside it. -/
theorem parseS3Segment_fits_iff {lines : List (List Char)} {segAddr segLen : Int} {seg : List Int}
    (h : parseS3Segment lines segAddr segLen = .ok seg) :
    ((seg.length : Int) ≤ segLen ∧ seg.length % 2 = 0) ↔ StaysInside (segmentSteps segAddr lines) segLen := by
  obtain ⟨n, ⟨hn, hbefore, hlast⟩, hlen⟩ := s3Lines_steps h
  change n ≤ (segmentSteps segAddr lines).length at hn
  change ∀ m, 0 < m → m < n → 0 + counted ((segmentSteps segAddr lines).take m) ≠ segLen at hbefore
  change 0 < n ∧ 0 + counted ((segmentSteps segAddr lines).take n) = segLen ∨
    n = (segmentSteps segAddr lines).length ∧
      (0 < n → 0 + counted ((segmentSteps segAddr lines).take n) ≠ segLen) at hlast
  change seg.length = 0 + collectedBytes ((segmentSteps segAddr lines).take n) at hlen
  simp only [Nat.zero_add, Int.zero_add] at hlen hbefore hlast
  rcases hlast with ⟨hpos, hmeet⟩ | ⟨hall, hnever⟩
  · rw [hlen, ← hmeet]
    have hle := counted_le ((segmentSteps segAddr lines).take n)
    have heq := counted_eq_iff ((segmentSteps segAddr lines).take n)
    constructor
    · rintro ⟨hshort, heven⟩
      have hsame : counted ((segmentSteps segAddr lines).take n)
          = collectedBytes ((segmentSteps segAddr lines).take n) := by omega
      exact .inl ⟨⟨n, hpos, hn, rfl, heq.1 hsame⟩, by omega⟩
    · intro hcases
      rcases hcases with ⟨⟨m, hm, -, hmeet', hgaps⟩, heven⟩ | ⟨hnever, -⟩
      · have hnm : n ≤ m := by
          by_contra hlt
          exact hbefore m hm (by omega) (by rw [hmeet', hmeet])
        have hsame := heq.2 (gaps_of_take hnm hgaps)
        exact ⟨Int.le_of_eq hsame.symm, by omega⟩
      · exact absurd rfl (hnever n hpos hn)
  · have hwhole : ∀ m, 0 < m → m ≤ (segmentSteps segAddr lines).length →
        counted ((segmentSteps segAddr lines).take m) ≠ segLen := by
      intro m hm hmn
      rcases Nat.lt_or_ge m n with hlt | hge
      · exact hbefore m hm hlt
      · have hsame : m = n := by omega
        rw [hsame]
        exact hnever (by omega)
    rw [hlen, hall, List.take_length]
    constructor
    · intro hshort
      exact .inr ⟨hwhole, hshort⟩
    · intro hcases
      rcases hcases with ⟨⟨m, hm, hmn, hmeet, -⟩, -⟩ | ⟨-, hshort⟩
      · exact absurd hmeet (hwhole m hm hmn)
      · exact hshort

/-! ### Odd addresses -/

/-- A state one byte ahead. -/
def FormatState.odd (st : FormatState) : FormatState := { st with addr := st.addr + 1 }

section Odd

variable {words left i fuel : Nat} {seg : Segment} {st : FormatState} {hbi : HbiState}

theorem pageControl_odd {addr : Int} (heven : addr % 2 = 0) (pageSelect : Bool) :
    pageControl false pageSelect (addr + 1) = pageControl false pageSelect addr ∧
      (addr + 1) % 0x100 / 2 = addr % 0x100 / 2 := by
  have h24 : (addr + 1) / 2 ^ 24 = addr / 2 ^ 24 := by omega
  have h16 : (addr + 1) / 2 ^ 16 = addr / 2 ^ 16 := by omega
  have h8 : (addr + 1) / 2 ^ 8 = addr / 2 ^ 8 := by omega
  refine ⟨?_, by omega⟩
  simp only [pageControl, h24, h16, h8]

theorem finishBlock_odd (segmentList : List Int) (writeBit addr segIndex remPageBytes blockSizeBytes : Int)
    (pageSelect : Bool) (leftOverBytes : Int) (block : List Int) :
    finishBlock segmentList writeBit
        ⟨addr + 1, segIndex, remPageBytes, blockSizeBytes, pageSelect, leftOverBytes⟩ block
      = ((finishBlock segmentList writeBit
            ⟨addr, segIndex, remPageBytes, blockSizeBytes, pageSelect, leftOverBytes⟩ block).1,
          (finishBlock segmentList writeBit
            ⟨addr, segIndex, remPageBytes, blockSizeBytes, pageSelect, leftOverBytes⟩ block).2.odd) := by
  unfold finishBlock FormatState.odd
  simp only [Prod.mk.injEq, FormatState.mk.injEq, true_and, and_true]
  omega

theorem addressedBlock_odd (segmentList : List Int) (heven : st.addr % 2 = 0) :
    addressedBlock segmentList false st.odd = ((addressedBlock segmentList false st).1,
      (addressedBlock segmentList false st).2.odd) := by
  obtain ⟨hcontrol, hoffset⟩ := pageControl_odd heven st.pageSelect
  have haddr : st.odd.addr = st.addr + 1 := rfl
  have hselect : st.odd.pageSelect = st.pageSelect := rfl
  unfold addressedBlock
  rw [haddr, hselect, hcontrol, hoffset]
  exact finishBlock_odd _ _ _ _ _ _ _ _ _

theorem hybridBlock_odd (segmentList : List Int) (heven : st.addr % 2 = 0)
    (hrem : st.remPageBytes % 2 = 0) (hlen : (segmentList.length - st.segIndex : Int) % 2 = 0) :
    hybridBlock segmentList false st.odd = ((hybridBlock segmentList false st).1,
      (hybridBlock segmentList false st).2.odd) := by
  obtain ⟨size, hsize⟩ : ∃ size, (if st.remPageBytes ≥ segmentList.length - st.segIndex
      then segmentList.length - st.segIndex else st.remPageBytes) = size := ⟨_, rfl⟩
  have hwords : size % 2 = 0 := by
    rw [← hsize]
    split <;> omega
  obtain ⟨hcontrol, hoffset⟩ := pageControl_odd (by omega : (st.addr + size) % 2 = 0) false
  have haddr : st.addr + 1 + size = st.addr + size + 1 := by omega
  unfold hybridBlock FormatState.odd
  simp only [hsize, haddr, hcontrol, hoffset]
  split
  · rfl
  · exact finishBlock_odd _ _ _ _ _ _ _ _ _

theorem formatBlock_odd (inv : LoopInv words false seg st left i hbi) (hlt : i < seg.bytes.length) :
    formatBlock seg.bytes words false st.odd = ((formatBlock seg.bytes words false st).1,
      (formatBlock seg.bytes words false st).2.odd) := by
  have haddr := inv.addr
  have hieven := inv.even
  have hseven := seg.addr_even
  have hrem : st.odd.remPageBytes = st.remPageBytes := rfl
  have hspace : st.odd.blockSizeBytes = st.blockSizeBytes := rfl
  unfold formatBlock
  rw [hrem, hspace]
  by_cases hfresh : st.remPageBytes = 0
  · rw [if_pos hfresh, if_pos hfresh, addressedBlock_odd _ (by omega)]
    rfl
  · have page := (inv.page hlt).resolve_left hfresh
    rw [if_neg hfresh, if_neg hfresh]
    by_cases hfull : st.remPageBytes ≥ st.blockSizeBytes - 2
    · have hcontinue : continueBlock seg.bytes st.odd = ((continueBlock seg.bytes st).1,
          (continueBlock seg.bytes st).2.odd) := finishBlock_odd _ _ _ _ _ _ _ _ _
      rw [if_pos hfull, if_pos hfull, hcontinue]
      rfl
    · have hlength := seg.length_even
      have hidx := inv.segIndex
      rw [if_neg hfull, if_neg hfull, hybridBlock_odd _ (by omega) page.even (by omega)]
      rfl

theorem formatLoop_odd (hwords : 16 ≤ words ∧ words ≤ 128) (inv : LoopInv words false seg st left i hbi) :
    formatLoop seg.bytes words false fuel st.odd
      = (formatLoop seg.bytes words false fuel st).map fun result => (result.1, result.2.odd) := by
  have hidx : st.odd.segIndex = st.segIndex := rfl
  induction fuel generalizing st left i hbi with
  | zero =>
      rw [formatLoop, formatLoop, hidx]
      split <;> rfl
  | succ fuel ih =>
      rw [formatLoop, formatLoop, hidx]
      by_cases hmore : st.segIndex < seg.bytes.length
      · have hlt : i < seg.bytes.length := by
          have hsegIndex := inv.segIndex
          omega
        obtain ⟨cmds, left', i', -, -, -, -, hinv⟩ := formatBlock_turn inv hlt hwords fun h => absurd h Bool.false_ne_true
        have hnext : formatLoop seg.bytes words false fuel (formatBlock seg.bytes words false st).2.odd
            = (formatLoop seg.bytes words false fuel (formatBlock seg.bytes words false st).2).map
                fun result => (result.1, result.2.odd) := ih hinv rfl
        rw [if_pos hmore, if_pos hmore, formatBlock_odd inv hlt]
        dsimp only
        rw [hnext]
        cases formatLoop seg.bytes words false fuel (formatBlock seg.bytes words false st).2 <;> rfl
      · rw [if_neg hmore, if_neg hmore]
        rfl

theorem formatSegmentToHbi_odd {globals : ConverterGlobals} (hwords : 16 ≤ words ∧ words ≤ 128)
    (h : GlobalsInv words false globals left hbi) :
    formatSegmentToHbi fuel seg.bytes (seg.addr + 1) words false globals
      = formatSegmentToHbi fuel seg.bytes seg.addr words false globals := by
  have hloop : formatLoop seg.bytes words false fuel (.enter (seg.addr + 1) words globals)
      = (formatLoop seg.bytes words false fuel (.enter seg.addr words globals)).map
          fun result => (result.1, result.2.odd) := formatLoop_odd hwords (loopInv_enter seg h)
  change (formatLoop seg.bytes words false fuel (.enter (seg.addr + 1) words globals)).bind _
    = (formatLoop seg.bytes words false fuel (.enter seg.addr words globals)).bind _
  rw [hloop]
  cases formatLoop seg.bytes words false fuel (.enter seg.addr words globals) <;> rfl

end Odd

/-! ### What is written -/

/-- What is parsed has no more bytes than the table declares, and whatever the block size is and was converted
before, it becomes complete commands that write these bytes, each below the end that is declared. -/
structure StaysDeclared (segAddr : Nat) (segLen : Int) (seg : List Int) : Prop where
  length : (seg.length : Int) ≤ segLen
  writes : ∀ words left : Nat, 16 ≤ words ∧ words ≤ 128 → ∀ globals hbi, GlobalsInv words false globals left hbi →
    ∃ blocks globals' cmds,
      formatSegmentToHbi seg.length seg segAddr words false globals = some (blocks, globals') ∧
      blocks = encodeAll cmds ∧ (∀ cmd ∈ cmds, cmd.Valid) ∧ (hbi.writesAll cmds).map Prod.snd = seg ∧
      ∀ write ∈ hbi.writesAll cmds, write.1 % 2 ^ 32 < segAddr + segLen

theorem writesAt_length (addr : Int) (bytes : List Int) : (writesAt addr bytes).length = bytes.length := by
  induction bytes generalizing addr with
  | nil => rfl
  | cons b bytes ih => rw [writesAt, List.length_cons, ih, List.length_cons]

theorem writesAt_data (addr : Int) (bytes : List Int) : (writesAt addr bytes).map Prod.snd = bytes := by
  induction bytes generalizing addr with
  | nil => rfl
  | cons b bytes ih => rw [writesAt, List.map_cons, ih]

theorem mem_writesAt {addr : Int} {bytes : List Int} {write : Int × Int} (h : write ∈ writesAt addr bytes) :
    addr ≤ write.1 ∧ write.1 < addr + bytes.length := by
  induction bytes generalizing addr with
  | nil => cases h
  | cons b bytes ih =>
      rw [List.length_cons]
      rcases List.mem_cons.1 h with rfl | hrest
      · constructor <;> simp only <;> omega
      · have hbounds := ih hrest
        omega

/-- Commands write whole words. -/
theorem writesAll_even {cmds : List HbiCmd} (h : ∀ cmd ∈ cmds, cmd.Valid) (hbi : HbiState) :
    (hbi.writesAll cmds).length % 2 = 0 := by
  induction cmds generalizing hbi with
  | nil => rfl
  | cons cmd cmds ih =>
      have hrest := ih (fun c hc => h c (List.mem_cons_of_mem cmd hc)) (hbi.after cmd)
      have hcmd : (hbi.writes cmd).length % 2 = 0 := by
        have hvalid := h cmd List.mem_cons_self
        cases cmd with
        | page p => rfl
        | base b3 b2 b1 b0 => rfl
        | nop => rfl
        | write offset count data =>
            obtain ⟨-, -, hcount, -, hlen, -⟩ := hvalid
            rw [HbiState.writes, writesAt_length]
            omega
        | cont count data =>
            obtain ⟨hcount, -, hlen, -⟩ := hvalid
            rw [HbiState.writes, writesAt_length]
            omega
      rw [HbiState.writesAll, List.length_append]
      omega

/-- An even number of bytes is written as it is, from its address on or from the byte before. -/
theorem formatSegmentToHbi_writes {words left : Nat} {globals : ConverterGlobals} {hbi : HbiState} {seg : List Int}
    (segAddr : Nat) (hwords : 16 ≤ words ∧ words ≤ 128) (h : GlobalsInv words false globals left hbi)
    (hbytes : AllBytes seg) (heven : seg.length % 2 = 0) :
    ∃ blocks globals' cmds,
      formatSegmentToHbi seg.length seg segAddr words false globals = some (blocks, globals') ∧
      blocks = encodeAll cmds ∧ (∀ cmd ∈ cmds, cmd.Valid) ∧
      wrapWrites (hbi.writesAll cmds) = wrapWrites (writesAt ((segAddr - segAddr % 2 : Nat) : Int) seg) := by
  let whole : Segment := ⟨((segAddr - segAddr % 2 : Nat) : Int), seg, by omega, heven, hbytes⟩
  obtain ⟨blocks, globals', hrun, cmds, left', hblocks, hemits, -, -⟩ :=
    formatSegmentToHbi_run whole hwords (fun h => absurd h Bool.false_ne_true) seg.length (Nat.le_refl _) h
  refine ⟨blocks, globals', cmds, ?_, hblocks, hemits.valid, hemits.wrapped⟩
  rcases Nat.mod_two_eq_zero_or_one segAddr with hzero | hone
  · have haddr : ((segAddr : Nat) : Int) = whole.addr := by
      show (segAddr : Int) = ((segAddr - segAddr % 2 : Nat) : Int)
      omega
    rw [haddr]
    exact hrun
  · have haddr : ((segAddr : Nat) : Int) = whole.addr + 1 := by
      show (segAddr : Int) = ((segAddr - segAddr % 2 : Nat) : Int) + 1
      omega
    rw [haddr]
    exact (formatSegmentToHbi_odd hwords h).trans hrun

theorem staysDeclared_iff {segAddr : Nat} {segLen : Int} {seg : List Int} (hbytes : AllBytes seg) :
    StaysDeclared segAddr segLen seg ↔ (seg.length : Int) ≤ segLen ∧ seg.length % 2 = 0 := by
  constructor
  · intro h
    obtain ⟨blocks, globals', cmds, -, -, hvalid, hdata, -⟩ :=
      h.writes 16 0 (by decide) .initial ⟨0, 0, 0, 0⟩ (globalsInv_initial _ _ _)
    have heven := writesAll_even hvalid ⟨0, 0, 0, 0⟩
    rw [← List.length_map Prod.snd, hdata] at heven
    exact ⟨h.length, heven⟩
  · rintro ⟨hshort, heven⟩
    refine ⟨hshort, fun words left hwords globals hbi hglobals => ?_⟩
    obtain ⟨blocks, globals', cmds, hrun, hblocks, hvalid, hwrites⟩ :=
      formatSegmentToHbi_writes segAddr hwords hglobals hbytes heven
    refine ⟨blocks, globals', cmds, hrun, hblocks, hvalid, ?_, ?_⟩
    · rw [← wrapWrites_data, hwrites, wrapWrites_data, writesAt_data]
    · intro write hwrite
      have hmem : (write.1 % 2 ^ 32, write.2) ∈ wrapWrites (writesAt ((segAddr - segAddr % 2 : Nat) : Int) seg) := by
        rw [← hwrites]
        exact List.mem_map_of_mem hwrite
      obtain ⟨write', hwrite', hsame⟩ := List.mem_map.1 hmem
      have hbounds := mem_writesAt hwrite'
      have haddr : write'.1 % 2 ^ 32 = write.1 % 2 ^ 32 := congrArg Prod.fst hsame
      omega

end VprocSdk
