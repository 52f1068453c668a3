import VprocSdk.Converter.Images
import VprocSdk.Converter.Text
import VprocSdk.Lib.Regions

/-!
# The segments of an S3 text

`ParseS3Segment` collects the payloads of the S3 records from the one at the address of the segment on and
puts zeros into the gaps between them. It stops when gaps and payloads add up to exactly the length of the
segment.

The records of a text place bytes in a memory. For records in ascending order that do not overlap, one of
which ends where the segment does, what is collected is that memory.
-/

namespace VprocSdk

open Lib

/-! ### Records as text -/

/-- What an S3 record places in memory. -/
structure S3Record where
  addr : Nat
  payload : List Int
  deriving DecidableEq, Repr

def S3Record.stop (r : S3Record) : Nat := r.addr + r.payload.length

/-- What follows `S3` in a line: digits in pairs for the count, the address, the payload and the checksum,
and no pair of digits behind them. -/
structure S3Text (r : S3Record) where
  digits : List Char
  rest : List Char
  count : Int
  checksum : Int
  hex : ∀ c ∈ digits, isHex c = true
  length : digits.length = 2 * (r.payload.length + 6)
  bytes : hexBytes digits = count :: (addrBytes r.addr ++ (r.payload ++ [checksum]))
  rest_bytes : hexBytes rest = []
  addr_lt : r.addr < 2 ^ 32
  sound : ((hexBytes digits).sum + 1) % 0x100 = 0

def IsS3Record (line : List Char) (r : S3Record) : Prop :=
  isS3 line = true ∧ ∃ t : S3Text r, line.drop 2 = t.digits ++ t.rest

theorem exists_hexDigit {c : Char} (h : isHex c = true) : ∃ d, hexDigit c = some d :=
  Option.isSome_iff_exists.1 h

theorem hexBytes_cons {high low : Char} {rest : List Char} {h l : Int} (hhigh : hexDigit high = some h)
    (hlow : hexDigit low = some l) : hexBytes (high :: low :: rest) = (16 * h + l) :: hexBytes rest := by
  rw [hexBytes, hhigh, hlow]

theorem hexPairs_induct {motive : List Char → Prop} (nil : motive [])
    (pair : ∀ {high low : Char} {h l : Int} {digits : List Char}, hexDigit high = some h →
      hexDigit low = some l → motive digits → motive (high :: low :: digits))
    {digits : List Char} (hhex : ∀ c ∈ digits, isHex c = true) {n : Nat} (hlength : digits.length = 2 * n) :
    motive digits := by
  induction n generalizing digits with
  | zero =>
      rw [List.eq_nil_of_length_eq_zero (by omega : digits.length = 0)]
      exact nil
  | succ n ih =>
      match digits, hlength with
      | high :: low :: digits, hlength =>
          obtain ⟨h, hhigh⟩ := exists_hexDigit (hhex high (by simp))
          obtain ⟨l, hlow⟩ := exists_hexDigit (hhex low (by simp))
          rw [List.length_cons, List.length_cons] at hlength
          exact pair hhigh hlow (ih (fun c hc => hhex c (by simp [hc])) (by omega))

theorem hexBytes_append {digits : List Char} (hhex : ∀ c ∈ digits, isHex c = true) {n : Nat}
    (hlength : digits.length = 2 * n) (rest : List Char) :
    (hexBytes digits).length = n ∧ hexBytes (digits ++ rest) = hexBytes digits ++ hexBytes rest := by
  have hpairs : 2 * (hexBytes digits).length = digits.length ∧
      hexBytes (digits ++ rest) = hexBytes digits ++ hexBytes rest := by
    apply hexPairs_induct ⟨rfl, rfl⟩ _ hhex hlength
    intro high low h l digits hhigh hlow ih
    obtain ⟨hcount, hrest⟩ := ih
    rw [List.cons_append, List.cons_append, hexBytes_cons hhigh hlow, hexBytes_cons hhigh hlow, hrest]
    refine ⟨?_, rfl⟩
    rw [List.length_cons, List.length_cons, List.length_cons]
    omega
  exact ⟨by omega, hpairs.2⟩

theorem foldl_hexDigit {digits : List Char} (hhex : ∀ c ∈ digits, isHex c = true) {n : Nat}
    (hlength : digits.length = 2 * n) (value : Int) :
    digits.foldl (fun value c => 16 * value + (hexDigit c).getD 0) value
      = (hexBytes digits).foldl (fun value b => 0x100 * value + b) value := by
  revert value
  apply hexPairs_induct (fun value => rfl) _ hhex hlength
  intro high low h l digits hhigh hlow ih value
  have hpair : 16 * (16 * value + h) + l = 0x100 * value + (16 * h + l) := by omega
  rw [hexBytes_cons hhigh hlow, List.foldl_cons, List.foldl_cons, List.foldl_cons, hhigh, hlow,
    Option.getD_some, Option.getD_some, hpair]
  exact ih _

section Record

variable {line : List Char} {r : S3Record}

theorem IsS3Record.hexBytes_eq (h : IsS3Record line r) :
    ∃ count checksum, hexBytes (line.drop 2) = count :: (addrBytes r.addr ++ (r.payload ++ [checksum])) ∧
      ((hexBytes (line.drop 2)).sum + 1) % 0x100 = 0 := by
  obtain ⟨-, t, htext⟩ := h
  rw [htext, (hexBytes_append t.hex t.length t.rest).2, t.rest_bytes, List.append_nil]
  exact ⟨t.count, t.checksum, t.bytes, t.sound⟩

theorem IsS3Record.payload_eq (h : IsS3Record line r) :
    pySlice (hexBytes (line.drop 2)) 5 (-1) = r.payload := by
  obtain ⟨count, checksum, hbytes, -⟩ := h.hexBytes_eq
  have hlength : (hexBytes (line.drop 2)).length = r.payload.length + 6 := by
    rw [hbytes]
    simp [addrBytes]
  have hstop : sliceBound (hexBytes (line.drop 2)).length (-1) = r.payload.length + 5 := by
    rw [hlength]
    unfold sliceBound
    rw [if_pos (by decide)]
    omega
  have hstart : sliceBound (hexBytes (line.drop 2)).length 5 = 5 := rfl
  rw [pySlice, hstop, hstart, List.drop_take, hbytes]
  simp [addrBytes]

theorem IsS3Record.addr_eq (h : IsS3Record line r) : intHex ((line.drop 4).take 8) = .ok (r.addr : Int) := by
  obtain ⟨-, t, htext⟩ := h
  have hlength := t.length
  have hlt := t.addr_lt
  have hdrop : line.drop 4 = t.digits.drop 2 ++ t.rest := by
    rw [show 4 = 2 + 2 from rfl, ← List.drop_drop, htext, List.drop_append_of_le_length (by omega)]
  have hfirst : (t.digits.take 2).length = 2 * 1 := by
    rw [List.length_take]
    omega
  have haddr : ((t.digits.drop 2).take 8).length = 2 * 4 := by
    rw [List.length_take, List.length_drop]
    omega
  have hhex : ∀ c ∈ (t.digits.drop 2).take 8, isHex c = true :=
    fun c hc => t.hex c (List.mem_of_mem_drop (List.mem_of_mem_take hc))
  have hfields : hexBytes ((t.digits.drop 2).take 8) = addrBytes r.addr := by
    obtain ⟨hcount, hsplit⟩ := hexBytes_append (fun c hc => t.hex c (List.mem_of_mem_take hc)) hfirst
      (t.digits.drop 2)
    obtain ⟨hfour, hsplit'⟩ := hexBytes_append hhex haddr ((t.digits.drop 2).drop 8)
    rw [List.take_append_drop] at hsplit hsplit'
    rw [t.bytes, hsplit', ← List.singleton_append] at hsplit
    have htail := List.append_inj_right hsplit (by rw [hcount]; rfl)
    exact (List.append_inj_left htail (by rw [hfour]; rfl)).symm
  rw [hdrop, List.take_append_of_le_length (by rw [List.length_drop]; omega),
    intHex_digits (by intro hnil; rw [hnil] at haddr; cases haddr) hhex, hexValue, foldl_hexDigit hhex haddr,
    hfields]
  simp only [addrBytes, List.foldl_cons, List.foldl_nil]
  congr 1
  omega

end Record

/-- The S3 records of the lines of a text, in order; the other lines are of no account. -/
inductive HasRecords : List (List Char) → List S3Record → Prop
  | nil : HasRecords [] []
  | record {line : List Char} {r : S3Record} {lines : List (List Char)} {records : List S3Record}
      (hline : IsS3Record line r) (hlines : HasRecords lines records) :
      HasRecords (line :: lines) (r :: records)
  | other {line : List Char} {lines : List (List Char)} {records : List S3Record}
      (hline : isS3 line = false) (hlines : HasRecords lines records) : HasRecords (line :: lines) records

/-! ### The memory that records place -/

/-- Each record begins at or after the end of those before it. -/
def Ascending (records : List S3Record) : Prop := records.Pairwise fun r r' => r.stop ≤ r'.addr

/-- The byte the records place at an address, or 0 where none does. -/
def memoryAt : List S3Record → Nat → Int
  | [], _ => 0
  | r :: records, addr =>
      if r.addr ≤ addr ∧ addr < r.stop then r.payload.getD (addr - r.addr) 0 else memoryAt records addr

section Memory

variable {records done rest : List S3Record} {r : S3Record} {addr : Nat}

theorem memoryAt_outside (h : ∀ r ∈ records, r.stop ≤ addr ∨ addr < r.addr) : memoryAt records addr = 0 := by
  induction records with
  | nil => rfl
  | cons r records ih =>
      have hr := h r (List.mem_cons_self ..)
      rw [memoryAt, if_neg (by omega)]
      exact ih fun r' hr' => h r' (List.mem_cons_of_mem _ hr')

theorem memoryAt_append (h : ∀ r ∈ done, r.stop ≤ addr ∨ addr < r.addr) :
    memoryAt (done ++ rest) addr = memoryAt rest addr := by
  induction done with
  | nil => rfl
  | cons r done ih =>
      have hr := h r (List.mem_cons_self ..)
      rw [List.cons_append, memoryAt, if_neg (by omega)]
      exact ih fun r' hr' => h r' (List.mem_cons_of_mem _ hr')

theorem memoryAt_record (h : ∀ r' ∈ done, r'.stop ≤ r.addr) {k : Nat} (hk : k < r.payload.length) :
    memoryAt (done ++ r :: rest) (r.addr + k) = r.payload[k] := by
  rw [memoryAt_append fun r' hr' => Or.inl (Nat.le_trans (h r' hr') (Nat.le_add_right _ _)), memoryAt,
    if_pos ⟨Nat.le_add_right _ _, Nat.add_lt_add_left hk _⟩, Nat.add_sub_cancel_left,
    List.getD_eq_getElem _ _ hk]

end Memory

/-! ### A segment of the memory -/

/-- What the loop has collected once the segment is found: the memory from its address on. -/
structure Collected (segAddr : Nat) (done rest : List S3Record) (st : S3State) (len : Nat) : Prop where
  found : st.found = true
  counter : st.segCounter = len
  expected : st.addrExpected = ((segAddr + len : Nat) : Int)
  buffer : st.segBuffer = slice (memoryAt (done ++ rest)) segAddr len
  behind : ∀ r ∈ done, r.stop ≤ segAddr + len
  ahead : ∀ r ∈ rest, segAddr + len ≤ r.addr

section Collect

variable {segAddr len : Nat} {done rest : List S3Record} {st : S3State} {r : S3Record}

theorem slice_payload (hdone : ∀ r' ∈ done, r'.stop ≤ r.addr) :
    slice (memoryAt (done ++ r :: rest)) r.addr r.payload.length = r.payload := by
  apply List.ext_getElem?
  intro k
  by_cases hk : k < r.payload.length
  · rw [slice_getElem? hk, memoryAt_record hdone hk, List.getElem?_eq_getElem hk]
  · rw [List.getElem?_eq_none (by rw [slice_length]; omega), List.getElem?_eq_none (by omega)]

theorem slice_gap {gap : Nat} (hgap : segAddr + len + gap = r.addr)
    (hdone : ∀ r' ∈ done, r'.stop ≤ segAddr + len) (hrest : ∀ r' ∈ rest, r.stop ≤ r'.addr) :
    slice (memoryAt (done ++ r :: rest)) (segAddr + len) gap = List.replicate gap 0 := by
  apply List.eq_replicate_iff.2
  refine ⟨slice_length _ _ _, ?_⟩
  intro b hb
  obtain ⟨k, hk, rfl⟩ := List.mem_iff_getElem.1 hb
  rw [slice_length] at hk
  have hcell : (slice (memoryAt (done ++ r :: rest)) (segAddr + len) gap)[k]?
      = some (memoryAt (done ++ r :: rest) (segAddr + len + k)) := slice_getElem? hk
  rw [List.getElem?_eq_getElem (by rw [slice_length]; exact hk), Option.some.injEq] at hcell
  rw [hcell]
  apply memoryAt_outside
  intro r' hr'
  rcases List.mem_append.1 hr' with hbefore | hafter
  · have hstop := hdone r' hbefore
    omega
  · rcases List.mem_cons.1 hafter with rfl | hmore
    · omega
    · have hnext := hrest r' hmore
      unfold S3Record.stop at hnext
      omega

/-- A record after what is collected: the gap and the payload are the memory up to its end. -/
theorem Collected.record (h : Collected segAddr done (r :: rest) st len)
    (hascending : Ascending (done ++ r :: rest)) :
    Collected segAddr (done ++ [r]) rest (st.append r.addr r.payload) (r.stop - segAddr) := by
  have hahead := h.ahead r (List.mem_cons_self ..)
  have hnext : ∀ r' ∈ rest, r.stop ≤ r'.addr :=
    (List.pairwise_cons.1 (List.pairwise_append.1 hascending).2.1).1
  obtain ⟨gap, hgap⟩ := Nat.exists_eq_add_of_le hahead
  have hexpected := h.expected
  have hcounter := h.counter
  have hdiff : (r.addr : Int) - st.addrExpected = gap := by omega
  have hdone : ∀ r' ∈ done, r'.stop ≤ r.addr := fun r' hr' => Nat.le_trans (h.behind r' hr') hahead
  have hlen : r.stop - segAddr = len + gap + r.payload.length := by
    unfold S3Record.stop
    omega
  refine ⟨h.found, ?_, ?_, ?_, ?_, ?_⟩
  · simp only [S3State.append, hdiff]
    omega
  · simp only [S3State.append, hdiff]
    omega
  · rw [List.append_assoc, List.singleton_append, hlen, slice_add, slice_add, ← h.buffer,
      slice_gap hgap.symm h.behind hnext, show segAddr + (len + gap) = r.addr by omega, slice_payload hdone]
    simp only [S3State.append, hdiff, Int.toNat_natCast]
  · intro r' hr'
    rcases List.mem_append.1 hr' with hbefore | hlast
    · have hstop := h.behind r' hbefore
      omega
    · rw [List.mem_singleton.1 hlast]
      omega
  · intro r' hr'
    have hstop := hnext r' hr'
    unfold S3Record.stop at hstop hlen
    unfold S3Record.stop
    omega

end Collect

section Parse

variable {segAddr segLen : Nat} {line : List Char} {lines : List (List Char)} {r : S3Record}
  {done rest : List S3Record} {st : S3State}

theorem s3Lines_record (hline : IsS3Record line r) :
    s3Lines segAddr segLen (line :: lines) st =
      (let st' := st.reach segAddr r.addr
      let next := st'.append r.addr r.payload
      if st'.found then
        if next.segCounter = segLen then .ok next.segBuffer else s3Lines segAddr segLen lines next
      else s3Lines segAddr segLen lines st') := by
  obtain ⟨-, -, -, hsum⟩ := hline.hexBytes_eq
  rw [s3Lines_s3 hline.1 hline.addr_eq]
  simp only [hsum, hline.payload_eq]
  rfl

/-- From a segment that is found on, the loop collects the memory to the end of the segment. -/
theorem s3Lines_collected {len : Nat} (hlines : HasRecords lines rest)
    (hascending : Ascending (done ++ rest)) (h : Collected segAddr done rest st len) (hlen : len ≠ segLen)
    (hend : ∃ r ∈ rest, r.stop = segAddr + segLen) :
    s3Lines segAddr segLen lines st = .ok (slice (memoryAt (done ++ rest)) segAddr segLen) := by
  induction hlines generalizing done st len with
  | nil =>
      obtain ⟨r, hr, -⟩ := hend
      cases hr
  | other hline hlines ih =>
      rw [s3Lines_other hline]
      exact ih hascending h hlen hend
  | @record line r lines records hline hlines ih =>
      have hnext := h.record hascending
      have hahead := h.ahead r (List.mem_cons_self ..)
      have hfirst : st.reach segAddr r.addr = st := by
        by_cases heq : (r.addr : Int) = segAddr
        · -- a second record at the address of the segment comes before anything is collected
          have hexpected := h.expected
          have hfound := h.found
          rw [heq, S3State.reach_same]
          obtain ⟨found, segBuffer, segCounter, addrExpected⟩ := st
          simp only [S3State.mk.injEq, true_and] at hexpected hfound ⊢
          exact ⟨hfound.symm, by omega⟩
        · exact S3State.reach_other heq
      rw [s3Lines_record hline]
      simp only [hfirst]
      rw [if_pos h.found, hnext.counter]
      have hsplit : done ++ r :: records = done ++ [r] ++ records := by
        rw [List.append_assoc, List.singleton_append]
      by_cases hstop : r.stop - segAddr = segLen
      · rw [if_pos (by rw [hstop]), hnext.buffer, hstop, hsplit]
      · rw [if_neg (by omega), hsplit]
        apply ih (by rw [← hsplit]; exact hascending) hnext hstop
        obtain ⟨last, hlast, hend'⟩ := hend
        rcases List.mem_cons.1 hlast with rfl | hmore
        · omega
        · exact ⟨last, hmore, hend'⟩

theorem s3Lines_memory (hlines : HasRecords lines rest) (hascending : Ascending (done ++ rest))
    (hlen : 0 < segLen) (hstart : ∃ r ∈ rest, r.addr = segAddr)
    (hend : ∃ r ∈ rest, r.stop = segAddr + segLen)
    (hst : st = { found := false, segBuffer := [], segCounter := 0, addrExpected := 0 }) :
    s3Lines segAddr segLen lines st = .ok (slice (memoryAt (done ++ rest)) segAddr segLen) := by
  induction hlines generalizing done with
  | nil =>
      obtain ⟨r, hr, -⟩ := hend
      cases hr
  | other hline hlines ih =>
      rw [s3Lines_other hline]
      exact ih hascending hstart hend
  | @record line r lines records hline hlines ih =>
      by_cases haddr : r.addr = segAddr
      · have hbehind : ∀ r' ∈ done, r'.stop ≤ segAddr := by
          intro r' hr'
          rw [← haddr]
          exact (List.pairwise_append.1 hascending).2.2 r' hr' r (List.mem_cons_self ..)
        have hahead : ∀ r' ∈ r :: records, segAddr ≤ r'.addr := by
          intro r' hr'
          rcases List.mem_cons.1 hr' with rfl | hmore
          · omega
          · have hnext := (List.pairwise_cons.1 (List.pairwise_append.1 hascending).2.1).1 r' hmore
            unfold S3Record.stop at hnext
            omega
        -- the state as it is once the record is found, and the record after it
        have hcollected : Collected segAddr done (r :: records)
            { found := true, segBuffer := [], segCounter := 0, addrExpected := segAddr } 0 :=
          ⟨rfl, rfl, rfl, rfl, hbehind, hahead⟩
        have hsame : s3Lines segAddr segLen (line :: lines) st = s3Lines segAddr segLen (line :: lines)
            { found := true, segBuffer := [], segCounter := 0, addrExpected := segAddr } := by
          rw [s3Lines_record hline, s3Lines_record hline, hst, haddr, S3State.reach_same, S3State.reach_same]
        rw [hsame]
        exact s3Lines_collected (.record hline hlines) hascending hcollected (by omega) hend
      · have hskip : s3Lines segAddr segLen (line :: lines) st = s3Lines segAddr segLen lines st := by
          have hne : ¬ (r.addr : Int) = segAddr := by omega
          rw [s3Lines_record hline, S3State.reach_other hne, hst]
          rfl
        have hsplit : done ++ r :: records = done ++ [r] ++ records := by
          rw [List.append_assoc, List.singleton_append]
        have hordered := (List.pairwise_cons.1 (List.pairwise_append.1 hascending).2.1).1
        obtain ⟨first, hfirst, hfirstAddr⟩ := hstart
        have hmore : first ∈ records := by
          rcases List.mem_cons.1 hfirst with rfl | hmore
          · exact absurd hfirstAddr haddr
          · exact hmore
        rw [hskip, hsplit]
        apply ih (by rw [← hsplit]; exact hascending) ⟨first, hmore, hfirstAddr⟩
        obtain ⟨last, hlast, hlastEnd⟩ := hend
        rcases List.mem_cons.1 hlast with rfl | hlast
        · -- the segment cannot end before it begins
          have hbefore := hordered first hmore
          omega
        · exact ⟨last, hlast, hlastEnd⟩

end Parse

/-- For records in ascending order that do not overlap, one of which begins and one of which ends where the
segment does, the parser returns the bytes the records place in the segment. -/
theorem parseS3Segment_memory (lines : List (List Char)) (records : List S3Record)
    (hlines : HasRecords lines records) (hascending : Ascending records) (segAddr segLen : Nat)
    (hlen : 0 < segLen) (hstart : ∃ r ∈ records, r.addr = segAddr)
    (hend : ∃ r ∈ records, r.stop = segAddr + segLen) :
    ∃ seg, parseS3Segment lines segAddr segLen = .ok seg ∧ seg.length = segLen ∧
      ∀ i < segLen, seg[i]? = some (memoryAt records (segAddr + i)) := by
  have hparse := @s3Lines_memory segAddr segLen lines [] records _ hlines hascending hlen hstart hend rfl
  exact ⟨_, hparse, slice_length _ _ _, fun i hi => slice_getElem? hi⟩

/-- A segment of three bytes with a gap in it, in a text with another line. -/
theorem parseS3Segment_memory_gap :
    ∃ seg, parseS3Segment ["S30600080128AA1E".toList, "S0".toList, "S3060008012ABB0B".toList]
        (0x80128 : Nat) (3 : Nat) = .ok seg ∧ seg.length = 3 ∧
      ∀ i < 3, seg[i]? = some (memoryAt [⟨0x80128, [0xAA]⟩, ⟨0x8012A, [0xBB]⟩] (0x80128 + i)) := by
  have hfirst : IsS3Record "S30600080128AA1E".toList ⟨0x80128, [0xAA]⟩ :=
    ⟨by decide, ⟨"0600080128AA1E".toList, [], 6, 0x1E, List.all_eq_true.1 (by decide), by decide,
      by decide, rfl, by decide, by decide⟩, by decide⟩
  have hsecond : IsS3Record "S3060008012ABB0B".toList ⟨0x8012A, [0xBB]⟩ :=
    ⟨by decide, ⟨"060008012ABB0B".toList, [], 6, 0x0B, List.all_eq_true.1 (by decide), by decide,
      by decide, rfl, by decide, by decide⟩, by decide⟩
  have hascending : Ascending [⟨0x80128, [0xAA]⟩, ⟨0x8012A, [0xBB]⟩] := by
    simp [Ascending, S3Record.stop]
  exact parseS3Segment_memory _ _ (.record hfirst (.other (by decide) (.record hsecond .nil))) hascending
    0x80128 3 (by decide) ⟨⟨0x80128, [0xAA]⟩, by simp, rfl⟩ ⟨⟨0x8012A, [0xBB]⟩, by simp, rfl⟩

end VprocSdk
