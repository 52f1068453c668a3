import VprocSdk.Converter.Images
import VprocSdk.Converter.Text
import VprocSdk.Lib.Machine

/-!
# One conversion after another

The globals of the converter outlive a call. A conversion that is finished sets them back; an exception
leaves them as they are. So what decides is whether an exception comes after the first block: then
`page_select` is already false, and the next image of the process does not select its page.
-/

namespace VprocSdk

open Lib

/-- The conversions of a process. -/
inductive ConverterCall
  | getFirmwareBinFileB (inFile : Option (List Char)) (fwOpn blockSize : Int)
  | getConfigBinFileB (inFile : Option (List Char)) (blockSize : Int)
  deriving DecidableEq, Repr

namespace ConverterCall

def run (fuel : Nat) : ConverterCall → ConverterGlobals →
    Option (Except PyError (List Int) × ConverterGlobals)
  | .getFirmwareBinFileB inFile fwOpn blockSize => generateFwFile fuel inFile fwOpn blockSize
  | .getConfigBinFileB inFile blockSize => generateConfigFile fuel inFile blockSize

def Returns (call : ConverterCall) (globals : ConverterGlobals) (image : List Int) : Prop :=
  ∃ fuel globals', call.run fuel globals = some (.ok image, globals')

end ConverterCall

/-- A process that converts: each call with fuel for its loops, and what it leaves in the globals, whether
it returns or raises. -/
def converter : Machine ConverterGlobals (ConverterCall × Nat) where
  step globals call := (call.1.run call.2 globals).map Prod.snd

/-- After these calls every call that returns gives the image it would give as the first. -/
def Independent (calls : List (ConverterCall × Nat)) : Prop :=
  ∀ globals, converter.exec .initial calls = some globals →
    ∀ (call : ConverterCall) (image : List Int), call.Returns globals image →
      ∀ image', call.Returns .initial image' ↔ image' = image

/-! ### Enough fuel -/

/-- What has a result has it still. -/
def Extends {α : Type} (x y : Option α) : Prop := ∀ a, x = some a → y = some a

theorem Extends.refl {α : Type} (x : Option α) : Extends x x := fun _ h => h

theorem Extends.bind {α β : Type} {x y : Option α} {f g : α → Option β} (h : Extends x y)
    (hf : ∀ a, Extends (f a) (g a)) : Extends (x.bind f) (y.bind g) := by
  intro b hb
  obtain ⟨a, hx, hfa⟩ := Option.bind_eq_some_iff.1 hb
  rw [h a hx]
  exact hf a b hfa

section Fuel

variable {fuel fuel' : Nat} (hle : fuel ≤ fuel')
include hle

theorem formatLoop_extends (segmentList : List Int) (blockSizeWords : Int) (isConfig : Bool)
    (st : FormatState) : Extends (formatLoop segmentList blockSizeWords isConfig fuel st)
      (formatLoop segmentList blockSizeWords isConfig fuel' st) := by
  induction fuel' generalizing fuel st with
  | zero =>
      rw [Nat.le_zero.1 hle]
      exact .refl _
  | succ fuel' ih =>
      cases fuel with
      | zero =>
          intro r hr
          by_cases hmore : st.segIndex < segmentList.length
          · exact absurd ((if_pos hmore).symm.trans hr) (Option.some_ne_none r).symm
          · exact (if_neg hmore).trans ((if_neg hmore).symm.trans hr)
      | succ fuel =>
          rw [formatLoop, formatLoop]
          split
          · exact (ih (Nat.le_of_succ_le_succ hle) _).bind fun _ => .refl _
          · exact .refl _

theorem formatSegmentToHbi_extends (segmentList : List Int) (startAddress blockSizeWords : Int)
    (isConfig : Bool) (globals : ConverterGlobals) :
    Extends (formatSegmentToHbi fuel segmentList startAddress blockSizeWords isConfig globals)
      (formatSegmentToHbi fuel' segmentList startAddress blockSizeWords isConfig globals) :=
  (formatLoop_extends hle _ _ _ _).bind fun _ => .refl _

theorem formatSegments_extends (blockSize : Int) (isConfig : Bool) (segs : List (Int × List Int))
    (globals : ConverterGlobals) : Extends (formatSegments fuel blockSize isConfig segs globals)
      (formatSegments fuel' blockSize isConfig segs globals) := by
  induction segs generalizing globals with
  | nil => exact .refl _
  | cons seg segs ih =>
      exact (formatSegmentToHbi_extends hle _ _ _ _ _).bind fun _ => (ih _).bind fun _ => .refl _

theorem formatTable_extends (bufferList : List (List Char)) (blockSize : Int) (table : List (Int × Int))
    (globals : ConverterGlobals) : Extends (formatTable fuel bufferList blockSize table globals)
      (formatTable fuel' bufferList blockSize table globals) := by
  induction table generalizing globals with
  | nil => exact .refl _
  | cons entry table ih =>
      rw [formatTable, formatTable]
      split
      · exact .refl _
      · exact (formatSegmentToHbi_extends hle _ _ _ _ _).bind fun _ => (ih _).bind fun _ => .refl _

theorem generateFwLines_extends (bufferList : List (List Char)) (fwOpn blockSize : Int)
    (globals : ConverterGlobals) : Extends (generateFwLines fuel bufferList fwOpn blockSize globals)
      (generateFwLines fuel' bufferList fwOpn blockSize globals) := by
  unfold generateFwLines
  split
  · exact .refl _
  · split
    · exact .refl _
    · split
      · exact .refl _
      · apply (formatTable_extends hle _ _ _ _).bind
        intro result
        dsimp only
        split
        · exact .refl _
        · exact (formatSegmentToHbi_extends hle _ _ _ _ _).bind fun _ => .refl _

theorem ConverterCall.run_extends (call : ConverterCall) (globals : ConverterGlobals) :
    Extends (call.run fuel globals) (call.run fuel' globals) := by
  cases call with
  | getFirmwareBinFileB inFile fwOpn blockSize =>
      cases inFile with
      | none => exact .refl _
      | some text => exact generateFwLines_extends hle _ _ _ _
  | getConfigBinFileB inFile blockSize =>
      cases inFile with
      | none => exact .refl _
      | some text =>
          show Extends (generateConfigFile fuel (some text) blockSize globals)
            (generateConfigFile fuel' (some text) blockSize globals)
          unfold generateConfigFile
          dsimp only
          split
          · exact .refl _
          · exact ((formatSegments_extends hle _ _ _ _).bind fun _ => .refl _).bind fun _ => .refl _

end Fuel

theorem ConverterCall.Returns.unique {call : ConverterCall} {globals : ConverterGlobals}
    {image image' : List Int} (h : call.Returns globals image) (h' : call.Returns globals image') :
    image' = image := by
  obtain ⟨fuel, globals₁, hrun⟩ := h
  obtain ⟨fuel', globals₂, hrun'⟩ := h'
  have hmore := call.run_extends (Nat.le_max_left fuel fuel') globals _ hrun
  have hmore' := call.run_extends (Nat.le_max_right fuel fuel') globals _ hrun'
  rw [hmore] at hmore'
  cases hmore'
  rfl

/-! ### Exceptions after a block -/

/-- An S7 record that `FormatS7ToHbi` takes. -/
def s7LineSound (line : List Char) : Bool :=
  ((hexBytes (line.drop 2)).sum + 1) % 0x100 = 0 ∧ 5 ≤ (hexBytes (line.drop 2)).length

def s7Sound (bufferList : List (List Char)) : Bool :=
  bufferList.any isS7 && bufferList.all fun line => !isS7 line || s7LineSound line

/-- Some exception comes after a block: `written` says whether a block is made. The S3 header is a block,
so the S7 record always comes after one. -/
def failsAfterBlock (bufferList : List (List Char)) : List (Int × Int) → Bool → Bool
  | [], _ => !s7Sound bufferList
  | (addr, size) :: table, written =>
      match parseS3Segment bufferList addr size with
      | .error _ => written
      | .ok seg => failsAfterBlock bufferList table (written || !seg.isEmpty)

def fwLinesFail (bufferList : List (List Char)) : Bool :=
  match parseS3Segment bufferList 0x00080128 216 with
  | .error _ => false
  | .ok headerBytes =>
      if headerBytes = [] then false
      else
        match readTable headerBytes with
        | .error _ => false
        | .ok segTable => failsAfterBlock bufferList segTable false

/-- The call raises an exception after it has made a block. -/
def ConverterCall.failsLate : ConverterCall → Bool
  | .getFirmwareBinFileB (some text) _ _ => fwLinesFail (splitlines text)
  | _ => false

theorem formatS7Line_isOk (line : List Char) (blockSize leftOverBytes : Int) :
    (∃ s7, formatS7Line line blockSize leftOverBytes = .ok s7) ↔ s7LineSound line = true := by
  constructor
  · intro hexists
    obtain ⟨s7, h⟩ := hexists
    unfold formatS7Line at h
    dsimp only at h
    split at h
    · cases h
    · rename_i hsum
      split at h
      · rename_i hbytes
        refine decide_eq_true ⟨not_not.1 hsum, ?_⟩
        rw [hbytes]
        simp
      · cases h
  · intro h
    obtain ⟨hsum, hlen⟩ := of_decide_eq_true h
    apply formatS7Line_total blockSize leftOverBytes hsum
    rw [execBytes, List.length_take, List.length_drop]
    omega

theorem formatS7Lines_sound {blockSize leftOverBytes : Int} {lines : List (List Char)}
    {acc acc' : Option (List Int)} (h : formatS7Lines blockSize leftOverBytes lines acc = .ok acc') :
    ∀ line ∈ lines, isS7 line → s7LineSound line = true := by
  induction lines generalizing acc with
  | nil => simp
  | cons line lines ih =>
      intro l hl his
      rw [formatS7Lines] at h
      split at h
      · cases hline : formatS7Line line blockSize leftOverBytes with
        | error e =>
            rw [hline] at h
            cases h
        | ok s7 =>
            rw [hline] at h
            rcases List.mem_cons.1 hl with rfl | hl
            · exact (formatS7Line_isOk l blockSize leftOverBytes).1 ⟨s7, hline⟩
            · exact ih h l hl his
      · rename_i hnot
        rcases List.mem_cons.1 hl with rfl | hl
        · exact absurd his hnot
        · exact ih h l hl his

/-- Every line is looked at, so one S7 record that is not sound is enough to raise. -/
theorem formatS7ToHbi_isOk (bufferList : List (List Char)) (blockSize leftOverBytes : Int) :
    (∃ s7, formatS7ToHbi bufferList blockSize leftOverBytes = .ok s7) ↔ s7Sound bufferList = true := by
  rw [s7Sound, Bool.and_eq_true, List.any_eq_true, List.all_eq_true]
  constructor
  · intro hexists
    obtain ⟨s7, h⟩ := hexists
    obtain ⟨line, hline, his, -⟩ := formatS7ToHbi_ok h
    refine ⟨⟨line, hline, his⟩, ?_⟩
    intro l hl
    cases his : isS7 l with
    | false => rfl
    | true =>
        unfold formatS7ToHbi at h
        cases hlines : formatS7Lines blockSize leftOverBytes bufferList.reverse none with
        | error e =>
            rw [hlines] at h
            cases h
        | ok acc => exact formatS7Lines_sound hlines l (List.mem_reverse.2 hl) his
  · intro hboth
    obtain ⟨⟨line, hline, his⟩, hall⟩ := hboth
    have htotal : ∀ l ∈ bufferList.reverse, isS7 l →
        ∃ s7, formatS7Line l blockSize leftOverBytes = .ok s7 := by
      intro l hl his
      have hsound := hall l (List.mem_reverse.1 hl)
      rw [his] at hsound
      exact (formatS7Line_isOk l blockSize leftOverBytes).2 hsound
    obtain ⟨acc, hrun, hsome⟩ := formatS7Lines_total none htotal
    cases acc with
    | none => exact absurd rfl (hsome (.inr ⟨line, List.mem_reverse.2 hline, his⟩))
    | some s7 =>
        refine ⟨s7, ?_⟩
        rw [formatS7ToHbi, hrun]
        rfl

/-! ### What a call leaves -/

/-- The globals after some blocks of a conversion, or none. -/
def Residue (written : Bool) (globals : ConverterGlobals) : Prop :=
  if written then globals.pageSelect = false else globals = .initial

theorem Residue.initial_iff {written : Bool} {globals : ConverterGlobals} (h : Residue written globals) :
    globals = .initial ↔ written = false := by
  cases written with
  | false => exact iff_of_true h rfl
  | true =>
      have hselect : globals.pageSelect = false := h
      refine iff_of_false ?_ (by decide)
      intro heq
      subst heq
      cases hselect

section Segments

variable {fuel : Nat} {segmentList : List Int} {blockSize : Int} {globals globals' : ConverterGlobals}
  {st st' : FormatState} {blocks : List Int}

theorem hybridBlock_pageSelect :
    (hybridBlock segmentList false st).2.pageSelect = st.pageSelect := by
  unfold hybridBlock
  dsimp only
  split_ifs
  all_goals rfl

/-- A block with an address selects the page, and no block takes that back. -/
theorem formatBlock_pageSelect (h : st.pageSelect = false ∨ st.remPageBytes = 0) :
    (formatBlock segmentList blockSize false st).2.pageSelect = false := by
  unfold formatBlock
  by_cases hfresh : st.remPageBytes = 0
  · rw [if_pos hfresh]
    rfl
  · have hselect := h.resolve_right hfresh
    rw [if_neg hfresh]
    by_cases hfull : st.remPageBytes ≥ st.blockSizeBytes - 2
    · rw [if_pos hfull]
      exact hselect
    · rw [if_neg hfull]
      exact hybridBlock_pageSelect.trans hselect

theorem formatLoop_pageSelect (h : formatLoop segmentList blockSize false fuel st = some (blocks, st'))
    (hselect : st.pageSelect = false ∨ st.remPageBytes = 0 ∧ st.segIndex < segmentList.length) :
    st'.pageSelect = false := by
  induction fuel generalizing st blocks with
  | zero =>
      by_cases hmore : st.segIndex < segmentList.length
      · exact absurd ((if_pos hmore).symm.trans h) (Option.some_ne_none _).symm
      · cases (if_neg hmore).symm.trans h
        exact hselect.resolve_right fun hfirst => hmore hfirst.2
  | succ fuel ih =>
      by_cases hmore : st.segIndex < segmentList.length
      · obtain ⟨⟨rest, st''⟩, hrest, hlast⟩ := Option.bind_eq_some_iff.1 ((if_pos hmore).symm.trans h)
        cases hlast
        exact ih hrest (.inl (formatBlock_pageSelect (hselect.imp_right And.left)))
      · cases (if_neg hmore).symm.trans h
        exact hselect.resolve_right fun hfirst => hmore hfirst.2

theorem formatLoop_empty (h : formatLoop [] blockSize false fuel st = some (blocks, st'))
    (hindex : st.segIndex = 0) : st' = st := by
  have hend : ¬ st.segIndex < ([] : List Int).length := by
    rw [hindex]
    decide
  cases fuel with
  | zero =>
      cases (if_neg hend).symm.trans h
      rfl
  | succ fuel =>
      cases (if_neg hend).symm.trans h
      rfl

theorem formatSegmentToHbi_residue {written : Bool} {startAddress : Int}
    (h : formatSegmentToHbi fuel segmentList startAddress blockSize false globals
      = some (blocks, globals')) (hglobals : Residue written globals) :
    Residue (written || !segmentList.isEmpty) globals' := by
  obtain ⟨⟨blocks', st⟩, hloop, hlast⟩ := Option.bind_eq_some_iff.1 h
  cases hlast
  cases segmentList with
  | nil =>
      rw [formatLoop_empty hloop rfl, List.isEmpty_nil, Bool.not_true, Bool.or_false]
      exact hglobals
  | cons b bytes =>
      have hmore : (0 : Int) < (b :: bytes).length := by
        rw [List.length_cons]
        omega
      rw [List.isEmpty_cons, Bool.not_false, Bool.or_true]
      exact formatLoop_pageSelect hloop (.inr ⟨rfl, hmore⟩)

theorem formatTable_residue {bufferList : List (List Char)} {table : List (Int × Int)} {written : Bool}
    {result : Except PyError (List Int)}
    (h : formatTable fuel bufferList blockSize table globals = some (result, globals'))
    (hglobals : Residue written globals) :
    (∃ e, result = .error e ∧ Residue (failsAfterBlock bufferList table written) globals') ∨
      ∃ out written', result = .ok out ∧ Residue written' globals' ∧
        failsAfterBlock bufferList table written = !s7Sound bufferList := by
  induction table generalizing globals written result with
  | nil =>
      cases h
      exact .inr ⟨[], written, rfl, hglobals, rfl⟩
  | cons entry table ih =>
      obtain ⟨addr, size⟩ := entry
      rw [formatTable] at h
      rw [failsAfterBlock]
      cases hparse : parseS3Segment bufferList addr size with
      | error e =>
          rw [hparse] at h
          cases h
          exact .inl ⟨e, rfl, hglobals⟩
      | ok seg =>
          rw [hparse] at h
          obtain ⟨⟨blocks, g⟩, hseg, hmore⟩ := Option.bind_eq_some_iff.1 h
          obtain ⟨⟨rest, g'⟩, hrest, hlast⟩ := Option.bind_eq_some_iff.1 hmore
          cases hlast
          rcases ih hrest (formatSegmentToHbi_residue hseg hglobals) with
            ⟨e, rfl, hresidue⟩ | ⟨out, written', rfl, hresidue, hs7⟩
          · exact .inl ⟨e, rfl, hresidue⟩
          · exact .inr ⟨blocks ++ out, written', rfl, hresidue, hs7⟩

end Segments

/-- The globals after a first firmware conversion: as they were, unless an exception came after a block. -/
theorem generateFwLines_residue {fuel : Nat} {bufferList : List (List Char)} {fwOpn blockSize : Int}
    {globals : ConverterGlobals} {result : Except PyError (List Int)}
    (h : generateFwLines fuel bufferList fwOpn blockSize .initial = some (result, globals)) :
    Residue (fwLinesFail bufferList) globals := by
  unfold generateFwLines at h
  unfold fwLinesFail
  cases hheader : parseS3Segment bufferList 0x00080128 216 with
  | error e =>
      rw [hheader] at h
      cases h
      rfl
  | ok headerBytes =>
      rw [hheader] at h
      dsimp only at h ⊢
      by_cases hempty : headerBytes = []
      · rw [if_pos hempty] at h ⊢
        cases h
        rfl
      · rw [if_neg hempty] at h ⊢
        cases htable : readTable headerBytes with
        | error e =>
            rw [htable] at h
            cases h
            rfl
        | ok segTable =>
            rw [htable] at h
            obtain ⟨⟨segBlocks, g⟩, hsegs, hrest⟩ := Option.bind_eq_some_iff.1 h
            have hclean : Residue false .initial := rfl
            rcases formatTable_residue hsegs hclean with
              ⟨e, rfl, hresidue⟩ | ⟨out, written, rfl, hresidue, hs7⟩
            · cases hrest
              exact hresidue
            · obtain ⟨⟨headerBlocks, g'⟩, hblocks, hlast⟩ := Option.bind_eq_some_iff.1 hrest
              have hwritten : Residue true g' := by
                have hboth := formatSegmentToHbi_residue hblocks hresidue
                rw [List.isEmpty_eq_false_iff.2 hempty, Bool.not_false, Bool.or_true] at hboth
                exact hboth
              have hsound := formatS7ToHbi_isOk bufferList blockSize g'.leftOverBytes
              dsimp only at hlast ⊢
              rw [hs7]
              cases hend : formatS7ToHbi bufferList blockSize g'.leftOverBytes with
              | error e =>
                  rw [hend] at hlast hsound
                  cases hlast
                  have hnot : s7Sound bufferList = false := by
                    rw [← Bool.not_eq_true, ← hsound]
                    intro hexists
                    obtain ⟨s7, hs7⟩ := hexists
                    cases hs7
                  rw [hnot]
                  exact hwritten
              | ok s7 =>
                  rw [hend] at hlast
                  cases hlast
                  rw [hsound.1 ⟨s7, hend⟩]
                  rfl

theorem ConverterCall.run_residue {call : ConverterCall} {fuel : Nat} {globals : ConverterGlobals}
    {result : Except PyError (List Int)} (h : call.run fuel .initial = some (result, globals)) :
    Residue call.failsLate globals := by
  cases call with
  | getFirmwareBinFileB inFile fwOpn blockSize =>
      cases inFile with
      | none =>
          cases h
          rfl
      | some text => exact generateFwLines_residue h
  | getConfigBinFileB inFile blockSize =>
      cases inFile with
      | none =>
          cases h
          rfl
      | some text =>
          replace h : generateConfigFile fuel (some text) blockSize .initial = some (result, globals) := h
          unfold generateConfigFile at h
          dsimp only at h
          split at h
          · cases h
            rfl
          · obtain ⟨⟨image, g⟩, himage, hlast⟩ := Option.bind_eq_some_iff.1 h
            obtain ⟨⟨blocks, g'⟩, -, hout⟩ := Option.bind_eq_some_iff.1 himage
            cases hout
            cases hlast
            rfl

/-- The first call of a process leaves the globals as they were, exactly when it does not raise late. -/
theorem ConverterCall.run_initial_iff {call : ConverterCall} {fuel : Nat} {globals : ConverterGlobals}
    {result : Except PyError (List Int)} (h : call.run fuel .initial = some (result, globals)) :
    globals = .initial ↔ call.failsLate = false :=
  (run_residue h).initial_iff

theorem converter_run {calls : List (ConverterCall × Nat)} {globals : ConverterGlobals}
    (h : converter.exec .initial calls = some globals) (hcalls : ∀ c ∈ calls, c.1.failsLate = false) :
    globals = .initial := by
  have hrun : converter.Runs (fun _ c => c.1.failsLate = false) .initial calls globals :=
    Machine.runs_of_exec h hcalls
  have hkeep : ∀ g (c : ConverterCall × Nat) g', g = ConverterGlobals.initial → c.1.failsLate = false →
      converter.step g c = some g' → g' = .initial := by
    intro _ hexists globals' heq hok hstep
    obtain ⟨call, fuel⟩ := hexists
    subst heq
    obtain ⟨⟨result, g⟩, hcall, rfl⟩ := Option.map_eq_some_iff.1 hstep
    exact (ConverterCall.run_initial_iff hcall).2 hok
  refine hrun.invariant ?_ hkeep
  rfl

/-- Conversions do not influence each other in a process in which no call raises after a block. -/
theorem conversions_independent (calls : List (ConverterCall × Nat))
    (hcalls : ∀ c ∈ calls, c.1.failsLate = false) : Independent calls := by
  intro globals hexec call image hreturns image'
  rw [converter_run hexec hcalls] at hreturns
  constructor
  · exact hreturns.unique
  · intro heq
    subst heq
    exact hreturns

/-- A firmware file without segments: the S3 header and the S7 record of an address, with its last byte. -/
def headerFile (checksum : List Char) : List Char :=
  "S3DD00080128".toList ++ List.replicate 432 '0' ++ "F1\nS70500200000".toList ++ checksum

/-- A configuration record in between that misses its data, and a header that cannot be read. -/
theorem conversions_independent_early : Independent
    [(.getFirmwareBinFileB (some (headerFile "DA".toList)) 38040 128, 216),
      (.getConfigBinFileB (some "0x200".toList) 16, 0),
      (.getFirmwareBinFileB (some "S30500080128C8".toList) 38040 64, 0)] :=
  conversions_independent _ (by decide +kernel)

/-- The image of the register 0x200, in a payload of so many bytes. -/
def oneRegister (length : Nat) : List Int :=
  imageHeader imgHdrConfig 0 16 length ++ [0xFE, 0x01, 0x00, 0x80, 0x12, 0x34] ++
    List.replicate (length - 6) 0xFF

/-- After an S7 record with a bad checksum, what is left of its last block shortens the next image. -/
theorem bad_s7_leaks :
    ¬ Independent [(.getFirmwareBinFileB (some (headerFile "DB".toList)) 38040 128, 216)] := by
  intro h
  have hexec : converter.exec .initial
      [(.getFirmwareBinFileB (some (headerFile "DB".toList)) 38040 128, 216)]
      = some { pageSelect := false, leftOverBytes := 30 } := by
    decide +kernel
  have hsecond : (ConverterCall.getConfigBinFileB (some "0x200, 0x1234".toList) 16).Returns
      { pageSelect := false, leftOverBytes := 30 } (oneRegister 30) := ⟨2, .initial, by decide⟩
  have hfirst : (ConverterCall.getConfigBinFileB (some "0x200, 0x1234".toList) 16).Returns .initial
      (oneRegister 32) := ⟨2, .initial, by decide⟩
  have hsame := (h _ hexec _ _ hsecond _).1 hfirst
  exact absurd hsame (by decide)

end VprocSdk
