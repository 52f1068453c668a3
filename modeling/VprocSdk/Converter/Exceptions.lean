import VprocSdk.Converter.History
import VprocSdk.Converter.PageLayout

/-!
# How a conversion ends

A conversion of a text ends, and what it raises is a `ValueError` or one of four others: the header has not
216 bytes, the table has more entries than the header has room for, an S7 record is missing or too short,
or an entry of the image is not a byte.
-/

namespace VprocSdk

open Lib HbiCmd

/-- The exception is one that the callers catch. -/
def IsValueError (e : PyError) : Prop := ∃ msg, e = .valueError msg

/-! ### What is parsed -/

theorem intHex_error {text : List Char} {e : PyError} (h : intHex text = .error e) : IsValueError e := by
  unfold intHex at h
  dsimp only at h
  generalize dropHexPrefix _ = digits at h
  by_cases hdigits : digits ≠ [] ∧ digits.all isHex
  · rw [if_pos hdigits] at h
    cases h
  · rw [if_neg hdigits] at h
    exact ⟨_, (Except.error.inj h).symm⟩

theorem allBytes_zeros (n : Nat) : AllBytes (List.replicate n 0) := by
  intro b hb
  rw [List.eq_of_mem_replicate hb]
  exact ⟨by decide, by decide⟩

section Parse

variable {segAddr segLen : Int} {lines : List (List Char)} {st : S3State}

/-- Bytes, or an exception that the callers catch. -/
def EndsWell : Except PyError (List Int) → Prop
  | .ok seg => AllBytes seg
  | .error e => IsValueError e

theorem s3Lines_endsWell (hst : AllBytes st.segBuffer) : EndsWell (s3Lines segAddr segLen lines st) := by
  induction lines generalizing st with
  | nil => exact hst
  | cons line lines ih =>
      by_cases hs3 : isS3 line = true
      · cases haddr : intHex ((line.drop 4).take 8) with
        | error e =>
            rw [s3Lines, if_pos hs3, haddr]
            exact intHex_error haddr
        | ok addr =>
            rw [s3Lines_s3 hs3 haddr]
            have hbuffer : AllBytes (st.reach segAddr addr).segBuffer := by
              rw [S3State.reach_segBuffer]
              exact hst
            have happend : AllBytes
                ((st.reach segAddr addr).append addr (pySlice (hexBytes (line.drop 2)) 5 (-1))).segBuffer := by
              rw [S3State.append, allBytes_append, allBytes_append]
              exact ⟨⟨hbuffer, allBytes_zeros _⟩, allBytes_pySlice (hexBytes_isByte _) _ _⟩
            dsimp only
            split
            · split
              · exact ⟨_, rfl⟩
              · split
                · exact happend
                · exact ih happend
            · exact ih hbuffer
      · rw [s3Lines_other (Bool.eq_false_of_not_eq_true hs3)]
        exact ih hst

theorem parseS3Segment_endsWell (lines : List (List Char)) (segAddr segLen : Int) :
    EndsWell (parseS3Segment lines segAddr segLen) :=
  s3Lines_endsWell (by simp [AllBytes])

end Parse

/-! ### The header -/

def numSegments (headerBytes : List Int) : Nat := ((unpackWords headerBytes).getD 11 0).toNat

section Header

variable {header : List Int}

theorem unpackWords_length (xs : List Int) : (unpackWords xs).length = xs.length / 2 := by
  fun_induction unpackWords xs with
  | case1 high low rest ih =>
      rw [List.length_cons, ih, List.length_cons, List.length_cons]
      omega
  | case2 xs hshort =>
      match xs, hshort with
      | [], _ => rfl
      | [_], _ => simp
      | high :: low :: rest, hshort => exact absurd rfl (hshort high low rest)

theorem headerWord_ok {register : Nat} (h : (register - 0x128) / 2 < header.length) :
    headerWord header register = .ok (header[(register - 0x128) / 2]) := by
  rw [headerWord, List.getElem?_eq_getElem h]

theorem headerWord_error {register : Nat} (h : header.length ≤ (register - 0x128) / 2) :
    headerWord header register = .error .indexError := by
  rw [headerWord, List.getElem?_eq_none h]

theorem tableEntries_ends (hlen : header.length = 108) (n i : Nat) :
    (n = 0 ∨ i + n ≤ 24) ∧ (∃ table, tableEntries header n i = .ok table) ∨
      (n ≠ 0 ∧ 24 < i + n) ∧ tableEntries header n i = .error .indexError := by
  induction n generalizing i with
  | zero => exact .inl ⟨.inl rfl, [], rfl⟩
  | succ n ih =>
      by_cases hi : i < 24
      · rw [tableEntries, headerWord_ok (by omega), headerWord_ok (by omega), headerWord_ok (by omega),
          headerWord_ok (by omega)]
        rcases ih (i + 1) with ⟨hroom, table, htable⟩ | ⟨hfull, herror⟩
        · rw [htable]
          exact .inl ⟨by omega, _, rfl⟩
        · rw [herror]
          exact .inr ⟨by omega, rfl⟩
      · right
        refine ⟨by omega, ?_⟩
        rw [tableEntries]
        by_cases hhigh : i = 24
        · subst hhigh
          rw [headerWord_error (by omega)]
          rfl
        · rw [headerWord_error (by omega)]
          rfl

theorem readTable_ends (headerBytes : List Int) :
    (headerBytes.length = 216 ∧ numSegments headerBytes ≤ 24) ∧
        (∃ table, readTable headerBytes = .ok table) ∨
      ¬ (headerBytes.length = 216 ∧ numSegments headerBytes ≤ 24) ∧
        ∃ e, readTable headerBytes = .error e ∧ ¬ IsValueError e := by
  by_cases hlen : headerBytes.length = 216
  · have hwords : (unpackWords headerBytes).length = 108 := by
      rw [unpackWords_length, hlen]
    have hnum : headerWord (unpackWords headerBytes) 0x13E = .ok ((unpackWords headerBytes)[11]) :=
      headerWord_ok (by omega)
    have hconfig : headerWord (unpackWords headerBytes) 0x1F0 = .ok ((unpackWords headerBytes)[100]) :=
      headerWord_ok (by omega)
    have hcount : numSegments headerBytes = ((unpackWords headerBytes)[11]).toNat := by
      rw [numSegments, List.getD_eq_getElem _ _ (by omega)]
    rw [readTable, if_pos hlen, decodeTable, hconfig, hnum, hcount]
    rcases tableEntries_ends hwords ((unpackWords headerBytes)[11]).toNat 0 with
      ⟨hroom, table, htable⟩ | ⟨hfull, herror⟩
    · left
      refine ⟨⟨hlen, by omega⟩, (0x00080200, (unpackWords headerBytes)[100]) :: table, ?_⟩
      show (tableEntries (unpackWords headerBytes) _ 0 >>= _) = _
      rw [htable]
      rfl
    · right
      refine ⟨by omega, .indexError, ?_, ?_⟩
      · show (tableEntries (unpackWords headerBytes) _ 0 >>= _) = _
        rw [herror]
        rfl
      · intro hexists
        obtain ⟨msg, hmsg⟩ := hexists
        cases hmsg
  · right
    refine ⟨fun h => hlen h.1, .structError, if_neg hlen, ?_⟩
    intro hexists
    obtain ⟨msg, hmsg⟩ := hexists
    cases hmsg

end Header

/-! ### The S7 record -/

/-- The last S7 record of the text that is not sound has a wrong checksum, so that it is a `ValueError` that
`FormatS7ToHbi` raises. -/
def S7Mismatch (bufferList : List (List Char)) : Prop :=
  ∃ line, bufferList.reverse.find? (fun line => isS7 line && !s7LineSound line) = some line ∧
    ((hexBytes (line.drop 2)).sum + 1) % 0x100 ≠ 0

section S7

variable {lines : List (List Char)} {line : List Char} {blockSize leftOverBytes : Int}

theorem formatS7Line_error (blockSize leftOverBytes : Int) (hbad : s7LineSound line = false) :
    ∃ e, formatS7Line line blockSize leftOverBytes = .error e ∧
      (IsValueError e ↔ ((hexBytes (line.drop 2)).sum + 1) % 0x100 ≠ 0) := by
  by_cases hsum : ((hexBytes (line.drop 2)).sum + 1) % 0x100 ≠ 0
  · exact ⟨_, if_pos hsum, iff_of_true ⟨_, rfl⟩ hsum⟩
  · cases hline : formatS7Line line blockSize leftOverBytes with
    | ok s7 =>
        have hsound := (formatS7Line_isOk line blockSize leftOverBytes).1 ⟨s7, hline⟩
        rw [hbad] at hsound
        cases hsound
    | error e =>
        refine ⟨e, rfl, iff_of_false ?_ hsum⟩
        intro hexists
        obtain ⟨msg, rfl⟩ := hexists
        unfold formatS7Line at hline
        dsimp only at hline
        rw [if_neg hsum] at hline
        split at hline
        · split at hline
          · cases hline
          · cases hline
        · cases hline

theorem formatS7Lines_error (blockSize leftOverBytes : Int) (acc : Option (List Int))
    (h : lines.find? (fun line => isS7 line && !s7LineSound line) = some line) :
    ∃ e, formatS7Lines blockSize leftOverBytes lines acc = .error e ∧
      (IsValueError e ↔ ((hexBytes (line.drop 2)).sum + 1) % 0x100 ≠ 0) := by
  induction lines generalizing acc with
  | nil => cases h
  | cons l lines ih =>
      rw [formatS7Lines]
      cases hs7 : isS7 l with
      | false =>
          rw [List.find?_cons_of_neg (by simp [hs7])] at h
          rw [if_neg (by decide)]
          exact ih _ h
      | true =>
          rw [if_pos rfl]
          cases hsound : s7LineSound l with
          | true =>
              rw [List.find?_cons_of_neg (by simp [hsound])] at h
              obtain ⟨s7, hs7⟩ := (formatS7Line_isOk l blockSize leftOverBytes).2 hsound
              rw [hs7]
              exact ih _ h
          | false =>
              rw [List.find?_cons_of_pos (by simp [hs7, hsound]), Option.some.injEq] at h
              subst h
              obtain ⟨e, he, hvalue⟩ := formatS7Line_error blockSize leftOverBytes hsound
              rw [he]
              exact ⟨e, rfl, hvalue⟩

theorem formatS7Lines_skip {acc : Option (List Int)} (h : ∀ line ∈ lines, isS7 line = false) :
    formatS7Lines blockSize leftOverBytes lines acc = .ok acc := by
  induction lines with
  | nil => rfl
  | cons line lines ih =>
      rw [formatS7Lines, if_neg (by rw [h line (List.mem_cons_self ..)]; decide)]
      exact ih fun l hl => h l (List.mem_cons_of_mem _ hl)

theorem formatS7Line_bytes {s7 : List Int} (h : formatS7Line line blockSize leftOverBytes = .ok s7) :
    AllBytes s7 := by
  have hbytes := hexBytes_isByte (line.drop 2)
  unfold formatS7Line at h
  dsimp only at h
  by_cases hsum : ((hexBytes (line.drop 2)).sum + 1) % 0x100 ≠ 0
  · rw [if_pos hsum] at h
    cases h
  · rw [if_neg hsum] at h
    split at h
    · rename_i count b3 b2 b1 b0 rest hfields
      have hrecord : AllBytes [0xFE, 0x00, 0x2C / 2, 0x81, b3, b2, b1, b0] := by
        rw [hfields] at hbytes
        simp only [AllBytes, List.forall_mem_cons] at hbytes ⊢
        obtain ⟨-, h3, h2, h1, h0, -⟩ := hbytes
        have hcontrol : IsByte 0xFE ∧ IsByte 0x00 ∧ IsByte (0x2C / 2) ∧ IsByte 0x81 := by
          unfold IsByte
          decide
        obtain ⟨hpage, hzero, hoffset, hlength⟩ := hcontrol
        exact ⟨hpage, hzero, hoffset, hlength, h3, h2, h1, h0, by simp⟩
      split at h
      · rw [← Except.ok.inj h, allBytes_append]
        exact ⟨hrecord, allBytes_nops _⟩
      · rw [← Except.ok.inj h, allBytes_append, allBytes_append]
        exact ⟨⟨allBytes_nops _, hrecord⟩, allBytes_nops _⟩
    · cases h

/-- The search for the S7 record: bytes when all are sound and there is one, a `ValueError` when the first
that is found not to be has a wrong checksum, and another exception otherwise. -/
theorem formatS7ToHbi_ends (bufferList : List (List Char)) (blockSize leftOverBytes : Int) :
    (s7Sound bufferList = true ∧ ∃ s7, formatS7ToHbi bufferList blockSize leftOverBytes = .ok s7 ∧ AllBytes s7) ∨
      s7Sound bufferList = false ∧ ∃ e, formatS7ToHbi bufferList blockSize leftOverBytes = .error e ∧
        (IsValueError e ↔ S7Mismatch bufferList) := by
  cases hsound : s7Sound bufferList with
  | true =>
      left
      obtain ⟨s7, hs7⟩ := (formatS7ToHbi_isOk bufferList blockSize leftOverBytes).2 hsound
      obtain ⟨line, -, -, hline⟩ := formatS7ToHbi_ok hs7
      exact ⟨rfl, s7, hs7, formatS7Line_bytes hline⟩
  | false =>
      right
      refine ⟨rfl, ?_⟩
      cases hfind : bufferList.reverse.find? (fun line => isS7 line && !s7LineSound line) with
      | some line =>
          obtain ⟨e, he, hvalue⟩ := formatS7Lines_error blockSize leftOverBytes none hfind
          refine ⟨e, ?_, ?_⟩
          · rw [formatS7ToHbi, he]
            rfl
          · rw [hvalue, S7Mismatch]
            simp [hfind]
      | none =>
          have hnone : ∀ line ∈ bufferList.reverse, isS7 line = false := by
            have hall : bufferList.all (fun line => !isS7 line || s7LineSound line) = true := by
              rw [List.all_eq_true]
              intro line hline
              have hline' := List.find?_eq_none.1 hfind line (List.mem_reverse.2 hline)
              cases his : isS7 line with
              | false => rfl
              | true => simpa [his] using hline'
            rw [s7Sound, hall, Bool.and_true, List.any_eq_false] at hsound
            intro line hline
            exact Bool.eq_false_iff.2 (hsound line (List.mem_reverse.1 hline))
          refine ⟨.unboundLocalError, ?_, iff_of_false ?_ ?_⟩
          · rw [formatS7ToHbi, formatS7Lines_skip hnone]
            rfl
          · intro hexists
            obtain ⟨msg, hmsg⟩ := hexists
            cases hmsg
          · intro hexists
            obtain ⟨line, hline, -⟩ := hexists
            rw [hfind] at hline
            cases hline

theorem not_s7Mismatch (h : s7Sound lines = true) : ¬ S7Mismatch lines := by
  intro hexists
  obtain ⟨line, hfind, -⟩ := hexists
  rw [s7Sound, Bool.and_eq_true, List.all_eq_true] at h
  have hline := h.2 line (List.mem_reverse.1 (List.mem_of_find?_eq_some hfind))
  have hbad := List.find?_some hfind
  cases hs7 : isS7 line with
  | false => simp [hs7] at hbad
  | true =>
      rw [hs7] at hline hbad
      cases hsound : s7LineSound line with
      | false => simp [hsound] at hline
      | true => simp [hsound] at hbad

end S7

/-! ### The whole conversion -/

/-- The segments of the table, each with its address and the number of bytes that the text has for it. -/
def segmentSizes (bufferList : List (List Char)) (table : List (Int × Int)) : List (Int × Nat) :=
  table.map fun entry => (entry.1, ((parseS3Segment bufferList entry.1 entry.2).toOption.getD []).length)

/-- The text converts, or fails with a `ValueError`: the header or a segment has a record that cannot be
parsed, there is no header, or the header has 216 bytes and at most 24 segments and the S7 record that
counts has a wrong checksum, or every S7 record is sound and in the layout of the segments, the header last, no
write goes on with a single byte. -/
def ConvertsSoundly (bufferList : List (List Char)) (words : Nat) (globals : ConverterGlobals) : Prop :=
  (∃ e, parseS3Segment bufferList 0x00080128 216 = .error e) ∨
  parseS3Segment bufferList 0x00080128 216 = .ok [] ∨
  ∃ headerBytes table, parseS3Segment bufferList 0x00080128 216 = .ok headerBytes ∧
    headerBytes.length = 216 ∧ numSegments headerBytes ≤ 24 ∧ readTable headerBytes = .ok table ∧
    ((∃ entry ∈ table, ∃ e, parseS3Segment bufferList entry.1 entry.2 = .error e) ∨
      S7Mismatch bufferList ∨
      s7Sound bufferList = true ∧
        ¬ SingleWrite words (segmentSizes bufferList table ++ [(0x00080128, 216)]) globals)

section Conversion

variable {bufferList : List (List Char)} {words : Nat} {globals : ConverterGlobals}
  {table : List (Int × Int)} {headerBytes : List Int}

/-- The loop over the table ends: with the exception of a segment that cannot be parsed, or with blocks. -/
theorem formatTable_ends (bufferList : List (List Char)) (last : Int × Nat) (table : List (Int × Int))
    (hwords : 16 ≤ words ∧ words ≤ 128) (h : GlobalsSound globals) :
    ∃ fuel result globals', formatTable fuel bufferList words table globals = some (result, globals') ∧
      GlobalsSound globals' ∧
      ((∃ entry ∈ table, ∃ e, parseS3Segment bufferList entry.1 entry.2 = .error e) ∧
          (∃ e, result = .error e ∧ IsValueError e) ∨
        (∀ entry ∈ table, ∃ seg, parseS3Segment bufferList entry.1 entry.2 = .ok seg) ∧
          ∃ out, result = .ok out ∧ (AllBytes out ∧ ¬ (segmentLayout words globals' last).Single ↔
            ¬ SingleWrite words (segmentSizes bufferList table ++ [last]) globals)) := by
  induction table generalizing globals with
  | nil =>
      refine ⟨0, _, globals, rfl, h, .inr ⟨by simp, [], rfl, ?_⟩⟩
      simp [AllBytes, segmentSizes, SingleWrite]
  | cons entry table ih =>
      obtain ⟨addr, size⟩ := entry
      have hends := parseS3Segment_endsWell bufferList addr size
      cases hparse : parseS3Segment bufferList addr size with
      | error e =>
          rw [hparse] at hends
          refine ⟨0, .error e, globals, ?_, h, .inl ⟨⟨(addr, size), List.mem_cons_self .., e, hparse⟩, e, rfl, hends⟩⟩
          rw [formatTable, hparse]
      | ok seg =>
          rw [hparse] at hends
          obtain ⟨blocks, hseg, hmid, hblocks⟩ := formatSegmentToHbi_layout hwords hends h addr
          obtain ⟨fuel, result, globals', hrest, hglobals, hcases⟩ := ih hmid
          have hrun : formatTable (max seg.length fuel) bufferList words ((addr, size) :: table) globals
              = some (result.map (blocks ++ ·), globals') := by
            rw [formatTable, hparse]
            dsimp only
            rw [formatSegmentToHbi_extends (Nat.le_max_left _ _) _ _ _ _ _ _ hseg, Option.bind_eq_bind,
              Option.bind_some]
            dsimp only
            rw [formatTable_extends (Nat.le_max_right _ _) _ _ _ _ _ hrest]
            rfl
          have hsizes : segmentSizes bufferList ((addr, size) :: table)
              = (addr, seg.length) :: segmentSizes bufferList table := by
            rw [segmentSizes, List.map_cons, hparse]
            rfl
          refine ⟨_, _, globals', hrun, hglobals, ?_⟩
          rcases hcases with ⟨⟨bad, hbad, e', he'⟩, e, rfl, hvalue⟩ | ⟨hall, out, rfl, hout⟩
          · exact .inl ⟨⟨bad, List.mem_cons_of_mem _ hbad, e', he'⟩, e, rfl, hvalue⟩
          · refine .inr ⟨?_, blocks ++ out, rfl, ?_⟩
            · intro entry hentry
              rcases List.mem_cons.1 hentry with rfl | hmore
              · exact ⟨seg, hparse⟩
              · exact hall entry hmore
            · rw [allBytes_append, and_assoc, hout, hblocks, hsizes, List.cons_append, SingleWrite, not_or]

theorem allBytes_imageHeader (fwOpn : Int) (hwords : words ≤ 128) (len : Int) :
    AllBytes (imageHeader imgHdrFirmware fwOpn words len) := by
  simp only [AllBytes, imageHeader, imgHdrVersion, imgHdrFirmware, List.forall_mem_cons, List.not_mem_nil,
    false_implies, implies_true, and_true, IsByte]
  omega

theorem arrayB_ends (xs : List Int) : AllBytes xs ∧ arrayB xs = .ok xs ∨
    ¬ AllBytes xs ∧ arrayB xs = .error .overflowError := by
  have hall : (xs.all fun b => 0 ≤ b ∧ b ≤ 0xFF) = true ↔ AllBytes xs := by
    rw [List.all_eq_true]
    simp [AllBytes, IsByte]
  by_cases hbytes : AllBytes xs
  · exact .inl ⟨hbytes, if_pos (hall.2 hbytes)⟩
  · exact .inr ⟨hbytes, if_neg fun h => hbytes (hall.1 h)⟩

theorem globalsSound_initial : GlobalsSound .initial := .inl rfl

section Table

variable (hheader : parseS3Segment bufferList 0x00080128 216 = .ok headerBytes) (hempty : headerBytes ≠ [])
  (htable : readTable headerBytes = .ok table)
include hheader hempty htable

theorem convertsSoundly_iff (hsize : headerBytes.length = 216 ∧ numSegments headerBytes ≤ 24) :
    ConvertsSoundly bufferList words globals ↔
      (∃ entry ∈ table, ∃ e, parseS3Segment bufferList entry.1 entry.2 = .error e) ∨
        S7Mismatch bufferList ∨
        s7Sound bufferList = true ∧
          ¬ SingleWrite words (segmentSizes bufferList table ++ [(0x00080128, 216)]) globals := by
  constructor
  · intro hcases
    rcases hcases with ⟨e, he⟩ | hnone | ⟨header, table', hok, -, -, htable', hends⟩
    · rw [hheader] at he
      cases he
    · rw [hheader] at hnone
      exact absurd (Except.ok.inj hnone) hempty
    · rw [hheader] at hok
      cases hok
      rw [htable] at htable'
      cases htable'
      exact hends
  · intro hends
    exact .inr (.inr ⟨headerBytes, table, hheader, hsize.1, hsize.2, htable, hends⟩)

theorem generateFwLines_run (fuel : Nat) (fwOpn : Int) :
    generateFwLines fuel bufferList fwOpn words globals =
      (formatTable fuel bufferList words table globals).bind fun (segBlocks, globals) =>
        match segBlocks with
        | .error e => some (.error e, globals)
        | .ok segBlocks =>
            (formatSegmentToHbi fuel headerBytes 0x00080128 words false globals).bind
              fun (headerBlocks, globals) =>
                match formatS7ToHbi bufferList words globals.leftOverBytes with
                | .error e => some (.error e, globals)
                | .ok s7 =>
                    some (arrayB (imageHeader imgHdrFirmware fwOpn words
                      (segBlocks ++ headerBlocks ++ s7).length ++ (segBlocks ++ headerBlocks ++ s7)), .initial) := by
  rw [generateFwLines, hheader]
  dsimp only
  rw [if_neg hempty, htable]
  rfl

theorem generateFwLines_table (hwords : 16 ≤ words ∧ words ≤ 128) (h : GlobalsSound globals)
    (hheaderBytes : AllBytes headerBytes) (fwOpn : Int) :
    ∃ fuel result globals', generateFwLines fuel bufferList fwOpn words globals = some (result, globals') ∧
      GlobalsSound globals' ∧
      ((∀ e, result = .error e → IsValueError e) ↔
        (∃ entry ∈ table, ∃ e, parseS3Segment bufferList entry.1 entry.2 = .error e) ∨
          S7Mismatch bufferList ∨
          s7Sound bufferList = true ∧
            ¬ SingleWrite words (segmentSizes bufferList table ++ [(0x00080128, headerBytes.length)]) globals) := by
  obtain ⟨fuel, result, mid, hrun, hmid, hcases⟩ :=
    formatTable_ends bufferList (0x00080128, headerBytes.length) table hwords h
  have hrun' := formatTable_extends (Nat.le_max_left fuel headerBytes.length) _ _ _ _ _ hrun
  rcases hcases with ⟨hbad, e, rfl, hvalue⟩ | ⟨hall, out, rfl, hout⟩
  · refine ⟨max fuel headerBytes.length, .error e, mid, ?_, hmid, iff_of_true ?_ (.inl hbad)⟩
    · rw [generateFwLines_run hheader hempty htable, hrun']
      rfl
    · intro e' he'
      cases he'
      exact hvalue
  · have hgood : ¬ ∃ entry ∈ table, ∃ e, parseS3Segment bufferList entry.1 entry.2 = .error e := by
      intro hexists
      obtain ⟨entry, hentry, e, he⟩ := hexists
      obtain ⟨seg, hseg⟩ := hall entry hentry
      rw [hseg] at he
      cases he
    obtain ⟨headerBlocks, hlast, hlastSound, hblocks⟩ :=
      formatSegmentToHbi_layout hwords hheaderBytes hmid 0x00080128
    generalize mid.behind words (0x00080128, headerBytes.length) = last at hlast hlastSound
    have hlast' := formatSegmentToHbi_extends (Nat.le_max_right fuel headerBytes.length) _ _ _ _ _ _ hlast
    rw [or_iff_right hgood]
    rcases formatS7ToHbi_ends bufferList words last.leftOverBytes with
      ⟨hsound, s7, hs7, hs7Bytes⟩ | ⟨hsound, e, he, hvalue⟩
    · obtain ⟨image, himage⟩ : ∃ image, image = imageHeader imgHdrFirmware fwOpn words
        (out ++ headerBlocks ++ s7).length ++ (out ++ headerBlocks ++ s7) := ⟨_, rfl⟩
      refine ⟨max fuel headerBytes.length, arrayB image, .initial, ?_, globalsSound_initial, ?_⟩
      · rw [generateFwLines_run hheader hempty htable, hrun', himage]
        dsimp only [Option.bind_some]
        rw [hlast']
        dsimp only [Option.bind_some]
        rw [hs7]
      · have hmismatch := not_s7Mismatch hsound
        have hbytes : AllBytes image
            ↔ ¬ SingleWrite words (segmentSizes bufferList table ++ [(0x00080128, headerBytes.length)]) globals := by
          rw [himage, allBytes_append, allBytes_append, allBytes_append, hblocks, hout,
            and_iff_right (allBytes_imageHeader fwOpn hwords.2 _), and_iff_left hs7Bytes]
        rw [or_iff_right hmismatch, and_iff_right hsound, ← hbytes]
        rcases arrayB_ends image with ⟨hgoodImage, harray⟩ | ⟨hbadImage, harray⟩
        · rw [harray]
          exact iff_of_true (by simp) hgoodImage
        · rw [harray]
          refine iff_of_false ?_ hbadImage
          intro hall'
          obtain ⟨msg, hmsg⟩ := hall' _ rfl
          cases hmsg
    · refine ⟨max fuel headerBytes.length, .error e, last, ?_, hlastSound, ?_⟩
      · rw [generateFwLines_run hheader hempty htable, hrun']
        dsimp only [Option.bind_some]
        rw [hlast']
        dsimp only [Option.bind_some]
        rw [he]
      · rw [hsound, ← hvalue]
        simp

end Table

/-- A conversion of lines ends, and what it raises is a `ValueError` exactly when it converts soundly. -/
theorem generateFwLines_ends (hwords : 16 ≤ words ∧ words ≤ 128) (h : GlobalsSound globals)
    (bufferList : List (List Char)) (fwOpn : Int) :
    ∃ fuel result globals', generateFwLines fuel bufferList fwOpn words globals = some (result, globals') ∧
      GlobalsSound globals' ∧
      ((∀ e, result = .error e → IsValueError e) ↔ ConvertsSoundly bufferList words globals) := by
  have hends := parseS3Segment_endsWell bufferList 0x00080128 216
  cases hheader : parseS3Segment bufferList 0x00080128 216 with
  | error e =>
      rw [hheader] at hends
      refine ⟨0, .error e, globals, ?_, h, iff_of_true ?_ (.inl ⟨e, hheader⟩)⟩
      · rw [generateFwLines, hheader]
      · intro e' he'
        cases he'
        exact hends
  | ok headerBytes =>
      rw [hheader] at hends
      by_cases hempty : headerBytes = []
      · refine ⟨0, .ok [], globals, ?_, h, iff_of_true (by simp) (.inr (.inl (by rw [hheader, hempty])))⟩
        rw [generateFwLines, hheader]
        exact if_pos hempty
      · rcases readTable_ends headerBytes with ⟨hsize, table, htable⟩ | ⟨hsize, e, herror, hvalue⟩
        · rw [convertsSoundly_iff hheader hempty htable hsize, ← hsize.1]
          exact generateFwLines_table hheader hempty htable hwords h hends fwOpn
        · refine ⟨0, .error e, globals, ?_, h, iff_of_false ?_ ?_⟩
          · rw [generateFwLines, hheader]
            dsimp only
            rw [if_neg hempty, herror]
          · intro hall
            exact hvalue (hall e rfl)
          · intro hcases
            rcases hcases with ⟨e', he'⟩ | hnone | ⟨header, table, hok, hlen, hnum, -⟩
            · rw [hheader] at he'
              cases he'
            · rw [hheader] at hnone
              exact hempty (Except.ok.inj hnone)
            · rw [hheader] at hok
              cases hok
              exact hsize ⟨hlen, hnum⟩

end Conversion

/-! ### Conversions in a process -/

def IsBlockSize (blockSize : Int) : Prop := ∃ k : Nat, 1 ≤ k ∧ k ≤ 8 ∧ blockSize = (16 * k : Nat)

def ConverterCall.blockSize : ConverterCall → Int
  | .getFirmwareBinFileB _ _ blockSize => blockSize
  | .getConfigBinFileB _ blockSize => blockSize

section Process

variable {globals globals' : ConverterGlobals} {fuel : Nat} {result : Except PyError (List Int)}

theorem getFirmwareBinFileB_ends (text : List Char) (fwOpn : Int) {blockSize : Int}
    (hsize : IsBlockSize blockSize) (h : GlobalsSound globals) :
    ∃ fuel result globals', (ConverterCall.getFirmwareBinFileB (some text) fwOpn blockSize).run fuel globals
        = some (result, globals') ∧ GlobalsSound globals' ∧
      ((∀ e, result = .error e → IsValueError e) ↔
        ConvertsSoundly (splitlines text) blockSize.toNat globals) := by
  obtain ⟨k, hlow, hhigh, rfl⟩ := hsize
  exact generateFwLines_ends (by omega) h (splitlines text) fwOpn

theorem generateConfigFile_globals {inFile : Option (List Char)} {blockSize : Int}
    (h : generateConfigFile fuel inFile blockSize globals = some (result, globals')) :
    globals' = globals ∨ globals' = .initial := by
  unfold generateConfigFile at h
  split at h
  · cases h
    exact .inl rfl
  · split at h
    · cases h
      exact .inl rfl
    · obtain ⟨⟨image, last⟩, himage, hdone⟩ := Option.bind_eq_some_iff.1 h
      obtain ⟨⟨blocks, mid⟩, -, hlast⟩ := Option.bind_eq_some_iff.1 himage
      cases hdone
      cases hlast
      exact .inr rfl

/-- Every call leaves globals that the next one can work with. -/
theorem ConverterCall.run_globalsSound {call : ConverterCall} (hsize : IsBlockSize call.blockSize)
    (h : GlobalsSound globals) (hrun : call.run fuel globals = some (result, globals')) :
    GlobalsSound globals' := by
  cases call with
  | getFirmwareBinFileB inFile fwOpn blockSize =>
      cases inFile with
      | none =>
          cases hrun
          exact h
      | some text =>
          have hdocumented : IsBlockSize blockSize := hsize
          obtain ⟨enough, result', last, hlast, hsound, -⟩ := getFirmwareBinFileB_ends text fwOpn hdocumented h
          have hrun' := ConverterCall.run_extends (Nat.le_max_left fuel enough) _ _ _ hrun
          rw [ConverterCall.run_extends (Nat.le_max_right fuel enough) _ _ _ hlast] at hrun'
          cases hrun'
          exact hsound
  | getConfigBinFileB inFile blockSize =>
      rcases generateConfigFile_globals hrun with rfl | rfl
      · exact h
      · exact globalsSound_initial

theorem converter_globalsSound {calls : List (ConverterCall × Nat)}
    (hsize : ∀ call ∈ calls, IsBlockSize call.1.blockSize) (hexec : converter.exec .initial calls = some globals) :
    GlobalsSound globals := by
  have hrun := Machine.runs_of_exec hexec hsize
  apply hrun.invariant globalsSound_initial
  intro before call after hbefore hcall hstep
  obtain ⟨⟨result, last⟩, hlast, rfl⟩ := Option.map_eq_some_iff.1 hstep
  exact call.1.run_globalsSound hcall hbefore hlast

end Process

/-- Whatever has been converted before, the conversion of a text ends, and it raises nothing but a
`ValueError` exactly when the text converts soundly. -/
theorem firmware_conversion_ends_iff (calls : List (ConverterCall × Nat)) (globals : ConverterGlobals)
    (hsize : ∀ call ∈ calls, IsBlockSize call.1.blockSize) (hexec : converter.exec .initial calls = some globals)
    (text : List Char) (fwOpn blockSize : Int) (hblockSize : IsBlockSize blockSize) :
    ∃ fuel result globals', (ConverterCall.getFirmwareBinFileB (some text) fwOpn blockSize).run fuel globals
        = some (result, globals') ∧
      ((∀ e, result = .error e → IsValueError e) ↔
        ConvertsSoundly (splitlines text) blockSize.toNat globals) := by
  obtain ⟨fuel, result, globals', hrun, -, hends⟩ :=
    getFirmwareBinFileB_ends text fwOpn hblockSize (converter_globalsSound hsize hexec)
  exact ⟨fuel, result, globals', hrun, hends⟩

/-- A header of 216 bytes in four records, the configuration and one segment with a gap, and no S7 record. -/
def unfinishedText : List Char :=
  ("S30700080128123481\nS30F0008013E0001000000060020000082\nS307000801F00004FB\nS307000801FE0000F1\n" ++
    "S3090008020001020304E2\nS307002000000506CD\nS307002000040708C5\n").toList

/-- The same with its S7 record, behind a conversion that failed for the lack of it and left 18 bytes of a
block. -/
theorem firmware_conversion_ends_iff_behindFailure : ∃ fuel result globals',
    (ConverterCall.getFirmwareBinFileB (some (unfinishedText ++ "S70500200000DA".toList)) 38040 16).run fuel ⟨false, 18⟩
        = some (result, globals') ∧
      ((∀ e, result = .error e → IsValueError e) ↔
        ConvertsSoundly (splitlines (unfinishedText ++ "S70500200000DA".toList)) 16 ⟨false, 18⟩) :=
  firmware_conversion_ends_iff [(.getFirmwareBinFileB (some unfinishedText) 38040 16, 10)] ⟨false, 18⟩
    (by simpa [ConverterCall.blockSize] using ⟨1, by decide, by decide, rfl⟩) (by decide +kernel)
    (unfinishedText ++ "S70500200000DA".toList) 38040 16 ⟨1, by decide, by decide, rfl⟩

/-- The header of this text has one byte: the exception is a `struct.error`. -/
theorem short_header_raises : ∃ text e, (ConverterCall.getFirmwareBinFileB (some text) 38040 16).run 1 .initial
      = some (.error e, .initial) ∧ ¬ IsValueError e := by
  refine ⟨"S3060008012800C8".toList, .structError, ?_, ?_⟩
  · decide
  · intro hexists
    obtain ⟨msg, hmsg⟩ := hexists
    cases hmsg

end VprocSdk
