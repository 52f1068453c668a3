import VprocSdk.Lnx.Digits

/-!
# Reading the dump

A program reads the dump of the last register read until a read returns nothing. Each read prints the
transaction from its first byte on, as many bytes as characters were asked for, and takes that many off its
length. A byte takes two characters at least, so a read that is not of the whole dump returns more than was
asked for, or gives up more bytes than it prints.
-/

namespace VprocSdk

open Lib

/-- A read: the size asked for, and what lies on the stack in the place of `kbuf`. -/
structure DumpRead where
  size : Nat
  kbuf : Nat → Byte

def dumpCalls : HbiRw → List DumpRead → List DumpCall
  | _, [] => []
  | hbiRw, read :: reads =>
      let call := hbiProcRegRdDump hbiRw read.kbuf read.size
      call :: dumpCalls call.hbiRw reads

/-- Each read asks for something, and the last is the first that returns 0. -/
def ReadsToEnd : HbiRw → List DumpRead → Prop
  | _, [] => False
  | hbiRw, read :: reads =>
      let call := hbiProcRegRdDump hbiRw read.kbuf read.size
      0 < read.size ∧ if call.result = 0 then reads = [] else ReadsToEnd call.hbiRw reads

/-- No call stores outside its buffer, so that its text is defined, or returns more than it was asked for. -/
def CallsSound : HbiRw → List DumpRead → Prop
  | _, [] => True
  | hbiRw, read :: reads =>
      let call := hbiProcRegRdDump hbiRw read.kbuf read.size
      (StoresFit call.stores ∧ call.result ≤ read.size) ∧ CallsSound call.hbiRw reads

/-- The listing of bytes: each in hexadecimal, with a tab behind it. -/
def hexListing (bytes : List Byte) : List Byte := bytes.flatMap fun b => hexText b.toNat ++ [chr '\t']

def HbiRw.bytes (hbiRw : HbiRw) : List Byte := slice hbiRw.buf 0 hbiRw.len

def dumpText (hbiRw : HbiRw) (reads : List DumpRead) : List Byte := (dumpCalls hbiRw reads).flatMap DumpCall.text

/-- The reads are sound, and what they return is the listing of the transaction. -/
def Delivers (hbiRw : HbiRw) (reads : List DumpRead) : Prop :=
  CallsSound hbiRw reads ∧ dumpText hbiRw reads = hexListing hbiRw.bytes

/-! ### One call -/

/-- The bytes that the loop comes to, from index `j` of the buffer on. -/
def dumped : List Byte → Nat → List Byte
  | [], _ => []
  | b :: rest, j => if j < 511 then b :: dumped rest (j + dumpWidth b) else []

section Call

theorem hexListing_cons (b : Byte) (rest : List Byte) :
    hexListing (b :: rest) = hexText b.toNat ++ [chr '\t'] ++ hexListing rest := List.flatMap_cons

theorem byte_lt (b : Byte) : b.toNat < 2 ^ 32 := Nat.lt_trans b.isLt (by decide)

theorem hexText_width (b : Byte) : (hexText b.toNat ++ [chr '\t']).length = dumpWidth b := by
  have hend := htoa_end b 0
  rw [(htoa_prints (byte_lt b) 0).2] at hend
  rw [List.length_append, List.length_singleton]
  omega

theorem hexListing_length (bytes : List Byte) : (hexListing bytes).length = dumpWidths bytes := by
  induction bytes with
  | nil => rfl
  | cons b rest ih => rw [hexListing_cons, List.length_append, hexText_width, ih, dumpWidths_cons]

theorem dumpLoop_prints (bytes : List Byte) (j : Nat) :
    (dumpLoop bytes j).1.Print j (hexListing (dumped bytes j)) ∧
      (dumpLoop bytes j).2 = j + (hexListing (dumped bytes j)).length := by
  induction bytes generalizing j with
  | nil => exact ⟨Stores.print_nil j, rfl⟩
  | cons b rest ih =>
      rw [dumped]
      by_cases hroom : j < 511
      · obtain ⟨hdigits, hend⟩ := htoa_prints (byte_lt b) j
        obtain ⟨hrest, hlast⟩ := ih (j + dumpWidth b)
        have htab := Stores.print_singleton (htoa b.toNat j).2 (chr '\t')
        rw [hend] at htab
        have hbyte := hdigits.append htab
        have hall : (((htoa b.toNat j).1 ++ [((htoa b.toNat j).2, chr '\t')])
            ++ (dumpLoop rest (j + dumpWidth b)).1).Print j
              (hexText b.toNat ++ [chr '\t'] ++ hexListing (dumped rest (j + dumpWidth b))) := by
          rw [hend]
          apply hbyte.append
          rw [hexText_width]
          exact hrest
        rw [dumpLoop_cons hroom, if_pos hroom, hexListing_cons, List.length_append, hexText_width, hlast,
          Nat.add_assoc]
        rw [List.append_assoc] at hall
        exact ⟨hall, rfl⟩
      · have hfull : ¬ j < dumpBufSize - 1 := hroom
        rw [dumpLoop, if_neg hfull, if_neg hroom]
        exact ⟨Stores.print_nil j, rfl⟩

theorem dumped_all {bytes : List Byte} {j : Nat} (h : j + dumpWidths bytes ≤ 511) :
    dumped bytes j = bytes := by
  induction bytes generalizing j with
  | nil => rfl
  | cons b rest ih =>
      have hwidth := dumpWidth_pos b
      rw [dumpWidths_cons] at h
      rw [dumped, if_pos (by omega), ih (by omega)]

theorem dumpWidths_dumped (bytes : List Byte) (j : Nat) :
    dumpWidths (dumped bytes j) ≤ dumpWidths bytes := by
  induction bytes generalizing j with
  | nil => exact Nat.le_refl _
  | cons b rest ih =>
      rw [dumped]
      split
      · rw [dumpWidths_cons, dumpWidths_cons]
        exact Nat.add_le_add_left (ih _) _
      · exact Nat.zero_le _

/-- What a call returns, and what it leaves. -/
theorem hbiProcRegRdDump_spec (hbiRw : HbiRw) (kbuf : Nat → Byte) (size : Nat) :
    (hbiProcRegRdDump hbiRw kbuf size).text = hexListing (dumped (hbiRw.asked size) 0) ∧
      (hbiProcRegRdDump hbiRw kbuf size).result = dumpWidths (dumped (hbiRw.asked size) 0) ∧
      (hbiProcRegRdDump hbiRw kbuf size).hbiRw = { hbiRw with len := hbiRw.len - size } := by
  unfold hbiProcRegRdDump HbiRw.asked
  by_cases hlen : hbiRw.len ≠ 0
  · have hsize : (if size > hbiRw.len then hbiRw.len else size) = min size hbiRw.len := by
      split <;> omega
    rw [if_pos hlen, hsize]
    dsimp only
    obtain ⟨hprint, hend⟩ := dumpLoop_prints (slice hbiRw.buf 0 (min size hbiRw.len)) 0
    rw [Nat.zero_add] at hend
    have hnewline := Stores.print_singleton (dumpLoop (slice hbiRw.buf 0 (min size hbiRw.len)) 0).2 (chr '\n')
    rw [hend, ← Nat.zero_add (List.length _)] at hnewline
    have hall := hprint.append hnewline
    rw [Nat.zero_add] at hall
    have hrest : hbiRw.len - min size hbiRw.len = hbiRw.len - size := by omega
    refine ⟨?_, ?_, ?_⟩
    · rw [hend, hall kbuf, slice_overlay_front]
    · rw [hend, hexListing_length]
    · rw [hrest]
  · have hzero : hbiRw.len = 0 := not_not.1 hlen
    have hrest : hbiRw.len - size = hbiRw.len := by omega
    have hnone : min size hbiRw.len = 0 := by omega
    rw [if_neg hlen, hrest, hnone]
    exact ⟨rfl, rfl, rfl⟩

theorem HbiRw.asked_all {hbiRw : HbiRw} {size : Nat} (h : hbiRw.len ≤ size) :
    hbiRw.asked size = hbiRw.bytes := by
  rw [asked, bytes, Nat.min_eq_right h]

theorem two_mul_length_le (bytes : List Byte) : 2 * bytes.length ≤ dumpWidths bytes := by
  induction bytes with
  | nil => exact Nat.le_refl _
  | cons b rest ih =>
      have hwidth := dumpWidth_pos b
      rw [dumpWidths_cons, List.length_cons]
      omega

theorem dumpWidths_append (bytes bytes' : List Byte) :
    dumpWidths (bytes ++ bytes') = dumpWidths bytes + dumpWidths bytes' := by
  rw [dumpWidths, List.map_append, List.sum_append, ← dumpWidths, ← dumpWidths]

theorem dumpWidths_shorter {hbiRw : HbiRw} {size : Nat} (h : size < hbiRw.len) :
    dumpWidths (slice hbiRw.buf 0 (hbiRw.len - size)) + 2 * size ≤ dumpWidths hbiRw.bytes := by
  have hsplit : hbiRw.len = (hbiRw.len - size) + size := by omega
  have htail := two_mul_length_le (slice hbiRw.buf (0 + (hbiRw.len - size)) size)
  rw [slice_length] at htail
  have hbytes : hbiRw.bytes = slice hbiRw.buf 0 (hbiRw.len - size)
      ++ slice hbiRw.buf (0 + (hbiRw.len - size)) size := by
    rw [HbiRw.bytes, ← slice_add, ← hsplit]
  rw [hbytes, dumpWidths_append]
  omega

theorem hbiProcRegRdDump_zero_iff {hbiRw : HbiRw} {size : Nat} (kbuf : Nat → Byte) (hsize : 0 < size) :
    (hbiProcRegRdDump hbiRw kbuf size).result = 0 ↔ hbiRw.len = 0 := by
  rw [(hbiProcRegRdDump_spec hbiRw kbuf size).2.1, HbiRw.asked]
  constructor
  · intro hnone
    by_contra hlen
    obtain ⟨n, hn⟩ : ∃ n, min size hbiRw.len = n + 1 := ⟨min size hbiRw.len - 1, by omega⟩
    have hwidth := dumpWidth_pos (hbiRw.buf 0)
    rw [hn, slice, dumped, if_pos (by decide), dumpWidths_cons] at hnone
    omega
  · intro hlen
    rw [hlen, Nat.min_zero]
    rfl

end Call

/-! ### The reads -/

section Reads

variable {hbiRw : HbiRw} {read : DumpRead} {reads : List DumpRead}

theorem dumpText_cons (hbiRw : HbiRw) (read : DumpRead) (reads : List DumpRead) :
    dumpText hbiRw (read :: reads) = hexListing (dumped (hbiRw.asked read.size) 0)
      ++ dumpText { hbiRw with len := hbiRw.len - read.size } reads := by
  obtain ⟨htext, -, hrest⟩ := hbiProcRegRdDump_spec hbiRw read.kbuf read.size
  rw [dumpText, dumpCalls, List.flatMap_cons, htext, hrest]
  rfl

theorem callsSound_cons : CallsSound hbiRw (read :: reads) ↔
    (StoresFit (hbiProcRegRdDump hbiRw read.kbuf read.size).stores ∧
      dumpWidths (dumped (hbiRw.asked read.size) 0) ≤ read.size) ∧
      CallsSound { hbiRw with len := hbiRw.len - read.size } reads := by
  obtain ⟨-, hresult, hrest⟩ := hbiProcRegRdDump_spec hbiRw read.kbuf read.size
  rw [CallsSound, hresult, hrest]

theorem dumpText_length_le (h : CallsSound hbiRw reads) :
    (dumpText hbiRw reads).length ≤ dumpWidths hbiRw.bytes := by
  induction reads generalizing hbiRw with
  | nil => exact Nat.zero_le _
  | cons read reads ih =>
      obtain ⟨⟨-, hasked⟩, hrest⟩ := callsSound_cons.1 h
      have hlater := ih hrest
      rw [dumpText_cons, List.length_append, hexListing_length]
      by_cases hpart : read.size < hbiRw.len
      · have hshorter := dumpWidths_shorter hpart
        have hbytes : ({ hbiRw with len := hbiRw.len - read.size } : HbiRw).bytes
            = slice hbiRw.buf 0 (hbiRw.len - read.size) := rfl
        rw [hbytes] at hlater
        omega
      · have hall := dumpWidths_dumped (hbiRw.asked read.size) 0
        have hnone : ({ hbiRw with len := hbiRw.len - read.size } : HbiRw).bytes = [] := by
          have hzero : hbiRw.len - read.size = 0 := by omega
          rw [HbiRw.bytes, hzero]
          rfl
        rw [HbiRw.asked_all (Nat.le_of_not_lt hpart)] at hall ⊢
        rw [hnone] at hlater
        exact Nat.add_le_add hall hlater

/-- A read of a part of the transaction leaves less than the listing for the reads behind it. -/
theorem dumpText_lt (h : CallsSound hbiRw (read :: reads)) (hpos : 0 < read.size) (hpart : read.size < hbiRw.len) :
    (dumpText hbiRw (read :: reads)).length < dumpWidths hbiRw.bytes := by
  obtain ⟨⟨-, hasked⟩, hrest⟩ := callsSound_cons.1 h
  have hlater := dumpText_length_le hrest
  have hshorter := dumpWidths_shorter hpart
  have hbytes : ({ hbiRw with len := hbiRw.len - read.size } : HbiRw).bytes
      = slice hbiRw.buf 0 (hbiRw.len - read.size) := rfl
  rw [hbytes] at hlater
  rw [dumpText_cons, List.length_append, hexListing_length]
  omega

theorem readsToEnd_cons (hpos : 0 < read.size) : ReadsToEnd hbiRw (read :: reads) ↔
    if hbiRw.len = 0 then reads = [] else ReadsToEnd { hbiRw with len := hbiRw.len - read.size } reads := by
  obtain ⟨-, -, hrest⟩ := hbiProcRegRdDump_spec hbiRw read.kbuf read.size
  rw [ReadsToEnd, hrest, and_iff_right hpos]
  by_cases hlen : hbiRw.len = 0
  · rw [if_pos hlen, if_pos ((hbiProcRegRdDump_zero_iff read.kbuf hpos).2 hlen)]
  · rw [if_neg hlen, if_neg fun hzero => hlen ((hbiProcRegRdDump_zero_iff read.kbuf hpos).1 hzero)]

theorem delivers_nothing (h : ReadsToEnd hbiRw reads) (hlen : hbiRw.len = 0) : Delivers hbiRw reads := by
  cases reads with
  | nil => cases h
  | cons read reads =>
      rw [readsToEnd_cons h.1, if_pos hlen] at h
      subst h
      have hbytes : hbiRw.bytes = [] := by
        rw [HbiRw.bytes, hlen]
        rfl
      have hasked : hbiRw.asked read.size = [] := by
        rw [HbiRw.asked_all (by omega), hbytes]
      have hstores : (hbiProcRegRdDump hbiRw read.kbuf read.size).stores = [] := by
        rw [hbiProcRegRdDump, if_neg (not_not.2 hlen)]
      constructor
      · rw [callsSound_cons, hstores, hasked]
        exact ⟨⟨storesFit_nil, Nat.zero_le _⟩, trivial⟩
      · rw [dumpText_cons, hasked, hbytes]
        rfl

theorem stores_all (hlen : hbiRw.len ≠ 0) (hall : hbiRw.len ≤ read.size) :
    StoresFit (hbiProcRegRdDump hbiRw read.kbuf read.size).stores ↔
      StoresFit (dumpLoop hbiRw.bytes 0).1 ∧ (dumpLoop hbiRw.bytes 0).2 < 512 := by
  have hsize : (if read.size > hbiRw.len then hbiRw.len else read.size) = hbiRw.len := by
    split <;> omega
  rw [hbiProcRegRdDump, if_pos hlen, hsize]
  exact storesFit_append.trans (and_congr_right fun _ => List.forall_mem_singleton)

theorem whole_leaves_nothing {rest : HbiRw} (hrest : rest = { hbiRw with len := hbiRw.len - read.size })
    (hwhole : hbiRw.len ≤ read.size) : rest.len = 0 ∧ rest.bytes = [] := by
  have hzero : rest.len = 0 := by
    rw [hrest]
    exact Nat.sub_eq_zero_of_le hwhole
  refine ⟨hzero, ?_⟩
  rw [HbiRw.bytes, hzero]
  rfl

/-- What a first read of the whole transaction needs to deliver the listing. -/
theorem delivers_whole (hlen : hbiRw.len ≠ 0) (hwhole : hbiRw.len ≤ read.size)
    (h : ReadsToEnd { hbiRw with len := hbiRw.len - read.size } reads) :
    Delivers hbiRw (read :: reads) ↔ dumpWidths hbiRw.bytes ≤ 511 ∧ dumpWidths hbiRw.bytes ≤ read.size := by
  obtain ⟨rest, hrest⟩ : ∃ rest, rest = { hbiRw with len := hbiRw.len - read.size } := ⟨_, rfl⟩
  obtain ⟨hzero, hnil⟩ := whole_leaves_nothing hrest hwhole
  rw [← hrest] at h
  obtain ⟨hsound, htext⟩ := delivers_nothing h hzero
  rw [hnil] at htext
  have htext' : dumpText rest reads = [] := htext
  rw [Delivers, callsSound_cons, dumpText_cons, HbiRw.asked_all hwhole, ← hrest, htext', List.append_nil,
    and_iff_left hsound, stores_all hlen hwhole, (dumpLoop_prints hbiRw.bytes 0).2, hexListing_length]
  constructor
  · intro hdelivers
    obtain ⟨⟨⟨-, hend⟩, hasked⟩, hlisting⟩ := hdelivers
    have hall := congrArg List.length hlisting
    rw [hexListing_length, hexListing_length] at hall
    exact ⟨by omega, by omega⟩
  · intro hfits
    obtain ⟨hroom, hasked⟩ := hfits
    have hall : dumped hbiRw.bytes 0 = hbiRw.bytes := dumped_all (by omega)
    have hstores := (dumpLoop_fits hbiRw.bytes (Nat.zero_le 511)).2 (.inl (by omega))
    rw [hall]
    exact ⟨⟨⟨hstores.1, by omega⟩, hasked⟩, rfl⟩

end Reads

/-- Reads until one returns nothing deliver the listing exactly when there is nothing to deliver, or the
first one asks for as many characters as the listing has and these fit the buffer. -/
theorem register_dump_delivers_iff (hbiRw : HbiRw) (reads : List DumpRead) (h : ReadsToEnd hbiRw reads) :
    Delivers hbiRw reads ↔ hbiRw.len = 0 ∨
      dumpWidths hbiRw.bytes ≤ 511 ∧ ∃ read, reads.head? = some read ∧ dumpWidths hbiRw.bytes ≤ read.size := by
  by_cases hlen : hbiRw.len = 0
  · exact iff_of_true (delivers_nothing h hlen) (.inl hlen)
  · cases reads with
    | nil => cases h
    | cons read reads =>
        have hpos := h.1
        rw [readsToEnd_cons hpos, if_neg hlen] at h
        simp only [or_iff_right hlen, List.head?_cons, Option.some.injEq, exists_eq_left']
        by_cases hwhole : hbiRw.len ≤ read.size
        · exact delivers_whole hlen hwhole h
        · refine iff_of_false ?_ ?_
          · intro hdelivers
            have hless := dumpText_lt hdelivers.1 hpos (Nat.lt_of_not_le hwhole)
            rw [hdelivers.2, hexListing_length] at hless
            exact Nat.lt_irrefl _ hless
          · intro hfits
            have hlength := two_mul_length_le hbiRw.bytes
            have hbytes : hbiRw.bytes.length = hbiRw.len := slice_length _ _ _
            omega

/-- A byte `0x12`, read with a page of room until nothing is left. -/
theorem register_dump_delivers_iff_page :
    Delivers ⟨fun _ => 0x12, 1⟩ [⟨4096, fun _ => 0⟩, ⟨4096, fun _ => 0⟩] ↔
      (1 : Nat) = 0 ∨ dumpWidths [0x12] ≤ 511 ∧
        ∃ read : DumpRead, [DumpRead.mk 4096 fun _ => 0, ⟨4096, fun _ => 0⟩].head? = some read ∧
          dumpWidths [0x12] ≤ read.size :=
  register_dump_delivers_iff ⟨fun _ => 0x12, 1⟩ [⟨4096, fun _ => 0⟩, ⟨4096, fun _ => 0⟩] (by
    have hfirst : ReadsToEnd ⟨fun _ => 0x12, 0⟩ [⟨4096, fun _ => 0⟩] := by
      rw [readsToEnd_cons (by decide), if_pos rfl]
    rw [readsToEnd_cons (by decide), if_neg (by decide)]
    exact hfirst)

/-- Two bytes read one character at a time: the first read returns three characters, the second the same
byte again. -/
theorem dump_repeats_first_byte : ∃ hbiRw reads, ReadsToEnd hbiRw reads ∧ ¬ Delivers hbiRw reads := by
  refine ⟨⟨fun i => if i = 0 then 0x12 else 0x34, 2⟩,
    [⟨1, fun _ => 0⟩, ⟨1, fun _ => 0⟩, ⟨1, fun _ => 0⟩], ?_, ?_⟩
  · rw [readsToEnd_cons (by decide), if_neg (by decide), readsToEnd_cons (by decide), if_neg (by decide),
      readsToEnd_cons (by decide), if_pos (by decide)]
  · intro hdelivers
    have hasked := (callsSound_cons.1 hdelivers.1).1.2
    exact absurd hasked (by decide)

end VprocSdk
