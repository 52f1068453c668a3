import VprocSdk.Converter.Format

/-!
# The text the converter reads

`ParseS3Segment` collects the bytes of a segment from the S3 records of a text, `DecodeTable` reads the
addresses and the sizes of the segments from the words of the S3 header, and `GenerateFwFile` makes an
image of both. `GenerateConfigFile` finds the registers of a configuration record by a pattern, puts
consecutive ones into one segment and makes an image of the segments.

The text is given in a buffer, as `GetFirmwareBinFileB` and `GetConfigBinFileB` pass it on, and the image
is returned in one.
-/

namespace VprocSdk

open Lib

/-! ### Numbers -/

def isHex (c : Char) : Bool := (hexDigit c).isSome

def hexValue (digits : List Char) : Int :=
  digits.foldl (fun value c => 16 * value + (hexDigit c).getD 0) 0

/-- What follows the prefix that `int(text, 16)` allows. -/
def dropHexPrefix : List Char → List Char
  | '0' :: 'x' :: rest => rest
  | '0' :: 'X' :: rest => rest
  | text => text

/-- `int(text, 16)`, whose message ends with the text. -/
def intHex (text : List Char) : Except PyError Int :=
  let text := ((text.dropWhile isSpace).reverse.dropWhile isSpace).reverse
  let negative := text.head? = some '-'
  let digits := dropHexPrefix (if negative ∨ text.head? = some '+' then text.drop 1 else text)
  if digits ≠ [] ∧ digits.all isHex then .ok (if negative then -hexValue digits else hexValue digits)
  else .error (.valueError "invalid literal for int() with base 16")

example : intHex " 0x1F\n".toList = .ok 31 := by decide

/-- `int(text, 16)` of a `unicode`. -/
def unicodeIntHex (text : List Char) : Except PyError Int := intHex (text.map unicodeSpace)

theorem isHex_plain {c : Char} (h : isHex c = true) :
    isSpace c = false ∧ c ≠ '-' ∧ c ≠ '+' ∧ c ≠ 'x' ∧ c ≠ 'X' := by
  have hother : ∀ d, isHex d = false → c ≠ d := by
    intro d hd heq
    subst heq
    rw [h] at hd
    cases hd
  refine ⟨?_, hother '-' (by decide), hother '+' (by decide), hother 'x' (by decide),
    hother 'X' (by decide)⟩
  simp only [isSpace, Bool.or_eq_false_iff, decide_eq_false_iff_not]
  exact ⟨⟨⟨⟨⟨hother ' ' (by decide), hother '\t' (by decide)⟩, hother '\n' (by decide)⟩,
    hother '\r' (by decide)⟩, hother '\x0b' (by decide)⟩, hother '\x0c' (by decide)⟩

theorem isHex_cases {c : Char} (h : isHex c = true) :
    (48 ≤ c.toNat ∧ c.toNat ≤ 57 ∧ hexDigit c = some ((c.toNat : Int) - 48)) ∨
    (97 ≤ c.toNat ∧ c.toNat ≤ 102 ∧ hexDigit c = some ((c.toNat : Int) - 87)) ∨
    (65 ≤ c.toNat ∧ c.toNat ≤ 70 ∧ hexDigit c = some ((c.toNat : Int) - 55)) := by
  have hle : ∀ {d d' : Char}, d ≤ d' → d.toNat ≤ d'.toNat := fun h => UInt32.le_iff_toNat_le.1 (Char.le_def.1 h)
  unfold isHex hexDigit at h
  unfold hexDigit
  by_cases hdigit : '0' ≤ c ∧ c ≤ '9'
  · rw [if_pos hdigit]
    exact .inl ⟨hle hdigit.1, hle hdigit.2, rfl⟩
  · rw [if_neg hdigit] at h ⊢
    by_cases hlower : 'a' ≤ c ∧ c ≤ 'f'
    · rw [if_pos hlower]
      exact .inr (.inl ⟨hle hlower.1, hle hlower.2, rfl⟩)
    · rw [if_neg hlower] at h ⊢
      by_cases hupper : 'A' ≤ c ∧ c ≤ 'F'
      · rw [if_pos hupper]
        exact .inr (.inr ⟨hle hupper.1, hle hupper.2, rfl⟩)
      · rw [if_neg hupper] at h
        cases h

theorem toNat_of_isHex {c : Char} (h : isHex c = true) : c.toNat < 0x80 := by
  rcases isHex_cases h with ⟨-, hhigh, -⟩ | ⟨-, hhigh, -⟩ | ⟨-, hhigh, -⟩
  all_goals omega

theorem toNat_of_isAlpha {c : Char} (h : c.isAlpha = true) : c.toNat < 0x80 := by
  have hcase : (decide ('A'.val ≤ c.val ∧ c.val ≤ 'Z'.val) ||
      (decide ('a'.val ≤ c.val) && decide (c.val ≤ 'z'.val))) = true := h
  rw [Bool.or_eq_true, Bool.and_eq_true, decide_eq_true_eq, decide_eq_true_eq, decide_eq_true_eq] at hcase
  have hupper : 'Z'.val.toNat = 90 := rfl
  have hlower : 'z'.val.toNat = 122 := rfl
  simp only [UInt32.le_iff_toNat_le] at hcase
  show c.val.toNat < 0x80
  omega

theorem dropWhile_isSpace {text : List Char} (hhex : ∀ c ∈ text, isHex c = true) :
    text.dropWhile isSpace = text := by
  cases text with
  | nil => rfl
  | cons c text =>
      have hc := (isHex_plain (hhex c List.mem_cons_self)).1
      rw [List.dropWhile_cons, hc]
      rfl

theorem intHex_digits {digits : List Char} (hne : digits ≠ []) (hhex : ∀ c ∈ digits, isHex c = true) :
    intHex digits = .ok (hexValue digits) := by
  have hstrip : ((digits.dropWhile isSpace).reverse.dropWhile isSpace).reverse = digits := by
    rw [dropWhile_isSpace hhex, dropWhile_isSpace fun c hc => hhex c (List.mem_reverse.1 hc),
      List.reverse_reverse]
  have hsign : digits.head? ≠ some '-' ∧ digits.head? ≠ some '+' := by
    cases digits with
    | nil => exact absurd rfl hne
    | cons c digits =>
        obtain ⟨-, hminus, hplus, -⟩ := isHex_plain (hhex c List.mem_cons_self)
        simp [hminus, hplus]
  have hprefix : dropHexPrefix digits = digits := by
    unfold dropHexPrefix
    split
    · exact absurd rfl (isHex_plain (hhex 'x' (by simp))).2.2.2.1
    · exact absurd rfl (isHex_plain (hhex 'X' (by simp))).2.2.2.2
    · rfl
  have hall : digits.all isHex = true := List.all_eq_true.2 hhex
  unfold intHex
  simp [hstrip, hsign, hprefix, hne, hall]

theorem map_unicodeSpace {text : List Char} (hhex : ∀ c ∈ text, isHex c = true) :
    text.map unicodeSpace = text := by
  have hsame : ∀ c ∈ text, unicodeSpace c = c := by
    intro c hc
    refine if_neg fun hmem => ?_
    have hdigit := hhex c hc
    simp only [List.mem_cons, List.not_mem_nil, or_false] at hmem
    rcases hmem with rfl | rfl | rfl | rfl
    all_goals cases hdigit
  exact (List.map_congr_left hsame).trans (List.map_id' text)

/-! ### `ParseS3Segment` -/

def isS3 (line : List Char) : Bool := (line.take 2).map Char.toLower = ['s', '3']

structure S3State where
  found : Bool
  segBuffer : List Int
  segCounter : Int
  addrExpected : Int
  deriving DecidableEq, Repr

/-- The payload of a record at the address a segment has come to, after the zeros of a gap. -/
def S3State.append (st : S3State) (addr : Int) (payload : List Int) : S3State :=
  let gap := addr - st.addrExpected
  { st with
    segBuffer := st.segBuffer ++ List.replicate gap.toNat 0 ++ payload
    segCounter := st.segCounter + (gap + payload.length)
    addrExpected := st.addrExpected + (gap + payload.length) }

def s3Lines (segAddr segLen : Int) : List (List Char) → S3State → Except PyError (List Int)
  | [], st => .ok st.segBuffer
  | line :: lines, st =>
      if isS3 line then do
        let addr ← intHex ((line.drop 4).take 8)
        let st := if addr = segAddr then { st with found := true, addrExpected := addr } else st
        if st.found then
          let splitLine := hexBytes (line.drop 2)
          if (splitLine.sum + 1) % 0x100 ≠ 0 then
            throw (.valueError "Error - ParseS3Segment(): S3 checksum mismatch")
          else
            let st := st.append addr (pySlice splitLine 5 (-1))
            if st.segCounter = segLen then return st.segBuffer else s3Lines segAddr segLen lines st
        else s3Lines segAddr segLen lines st
      else s3Lines segAddr segLen lines st

def parseS3Segment (bufferList : List (List Char)) (segAddr segLen : Int) : Except PyError (List Int) :=
  s3Lines segAddr segLen bufferList { found := false, segBuffer := [], segCounter := 0, addrExpected := 0 }

/-- The state in which the payload of a record is taken: a record at the address of the segment begins it
anew. -/
def S3State.reach (st : S3State) (segAddr addr : Int) : S3State :=
  if addr = segAddr then { st with found := true, addrExpected := addr } else st

section S3Lines

variable {segAddr segLen addr : Int} {line : List Char} {lines : List (List Char)} {st : S3State}

theorem S3State.reach_same :
    st.reach segAddr segAddr = { st with found := true, addrExpected := segAddr } := if_pos rfl

theorem S3State.reach_other (h : ¬ addr = segAddr) :
    st.reach segAddr addr = st := if_neg h

@[simp] theorem S3State.reach_segBuffer : (st.reach segAddr addr).segBuffer = st.segBuffer := by
  unfold S3State.reach
  split
  · rfl
  · rfl

@[simp] theorem S3State.reach_segCounter : (st.reach segAddr addr).segCounter = st.segCounter := by
  unfold S3State.reach
  split
  · rfl
  · rfl

theorem s3Lines_s3 (hline : isS3 line = true)
    (haddr : intHex ((line.drop 4).take 8) = .ok addr) :
    s3Lines segAddr segLen (line :: lines) st =
      (let st' := st.reach segAddr addr
      let splitLine := hexBytes (line.drop 2)
      if st'.found then
        if (splitLine.sum + 1) % 0x100 ≠ 0 then
          .error (.valueError "Error - ParseS3Segment(): S3 checksum mismatch")
        else
          let next := st'.append addr (pySlice splitLine 5 (-1))
          if next.segCounter = segLen then .ok next.segBuffer else s3Lines segAddr segLen lines next
      else s3Lines segAddr segLen lines st') := by
  rw [s3Lines, if_pos hline, haddr]
  rfl

theorem s3Lines_addr {seg : List Int} (hline : isS3 line = true)
    (h : s3Lines segAddr segLen (line :: lines) st = .ok seg) :
    ∃ addr, intHex ((line.drop 4).take 8) = .ok addr := by
  rw [s3Lines, if_pos hline] at h
  obtain ⟨addr, haddr, -⟩ := except_bind_ok h
  exact ⟨addr, haddr⟩

theorem s3Lines_other (hline : isS3 line = false) :
    s3Lines segAddr segLen (line :: lines) st = s3Lines segAddr segLen lines st := by
  rw [s3Lines, if_neg (by rw [hline]; exact Bool.false_ne_true)]

end S3Lines

/-! ### `DecodeTable` -/

/-- A word of the S3 header, by the address of its register. -/
def headerWord (header : List Int) (register : Nat) : Except PyError Int :=
  match header[(register - 0x128) / 2]? with
  | some word => .ok word
  | none => .error .indexError

/-- The entries of the firmware segments from the `i`-th on: address and size. -/
def tableEntries (header : List Int) : Nat → Nat → Except PyError (List (Int × Int))
  | 0, _ => .ok []
  | n + 1, i => do
      let sizeHigh ← headerWord header (0x140 + i * 8)
      let sizeLow ← headerWord header (0x142 + i * 8)
      let addrHigh ← headerWord header (0x144 + i * 8)
      let addrLow ← headerWord header (0x146 + i * 8)
      let rest ← tableEntries header n (i + 1)
      return (addrHigh * 2 ^ 16 + addrLow, (sizeHigh * 2 ^ 16 + sizeLow) % 0x01000000) :: rest

/-- The configuration record comes first. -/
def decodeTable (header : List Int) : Except PyError (List (Int × Int)) := do
  let configSize ← headerWord header 0x1F0
  let numSeg ← headerWord header 0x13E
  let segs ← tableEntries header numSeg.toNat 0
  return (0x00080200, configSize) :: segs

/-- The segment table of a header: `struct.pack` takes exactly 216 bytes. -/
def readTable (headerBytes : List Int) : Except PyError (List (Int × Int)) :=
  if headerBytes.length = 216 then decodeTable (unpackWords headerBytes) else .error .structError

/-! ### `GenerateFwFile` -/

/-- The loop over the segment table, which parses and formats each segment in turn. -/
def formatTable (fuel : Nat) (bufferList : List (List Char)) (blockSize : Int) :
    List (Int × Int) → ConverterGlobals → Option (Except PyError (List Int) × ConverterGlobals)
  | [], globals => some (.ok [], globals)
  | (addr, size) :: table, globals =>
      match parseS3Segment bufferList addr size with
      | .error e => some (.error e, globals)
      | .ok seg => do
          let (blocks, globals) ← formatSegmentToHbi fuel seg addr blockSize false globals
          let (rest, globals) ← formatTable fuel bufferList blockSize table globals
          return (rest.map (blocks ++ ·), globals)

/-- The body of `GenerateFwFile`, on the lines of the text. -/
def generateFwLines (fuel : Nat) (bufferList : List (List Char)) (fwOpn blockSize : Int)
    (globals : ConverterGlobals) : Option (Except PyError (List Int) × ConverterGlobals) :=
  match parseS3Segment bufferList 0x00080128 216 with
  | .error e => some (.error e, globals)
  | .ok headerBytes =>
      if headerBytes = [] then some (.ok [], globals)
      else
        match readTable headerBytes with
        | .error e => some (.error e, globals)
        | .ok segTable => do
            let (segBlocks, globals) ← formatTable fuel bufferList blockSize segTable globals
            match segBlocks with
            | .error e => return (.error e, globals)
            | .ok segBlocks =>
                let (headerBlocks, globals) ←
                  formatSegmentToHbi fuel headerBytes 0x00080128 blockSize false globals
                match formatS7ToHbi bufferList blockSize globals.leftOverBytes with
                | .error e => return (.error e, globals)
                | .ok s7 =>
                    let out := segBlocks ++ headerBlocks ++ s7
                    return (arrayB (imageHeader imgHdrFirmware fwOpn blockSize out.length ++ out), .initial)

def generateFwFile (fuel : Nat) (inFile : Option (List Char)) (fwOpn blockSize : Int)
    (globals : ConverterGlobals) : Option (Except PyError (List Int) × ConverterGlobals) :=
  match inFile with
  | none => some (.error (.valueError "Error - GenerateFwFile(): Invalid input data"), globals)
  | some text => generateFwLines fuel (splitlines text) fwOpn blockSize globals

/-! ### The pattern of a configuration record -/

/-- The digits of `0x[0-9a-fA-F]+` at the start of a text. -/
def hexLiteral : List Char → Option (List Char)
  | '0' :: 'x' :: rest =>
      let digits := rest.takeWhile isHex
      if digits = [] then none else some digits
  | _ => none

/-- The last literal that begins in a line, where it begins and its digits: `.*` takes as much as it can. -/
def lastLiteral : List Char → Option (Nat × List Char)
  | [] => none
  | c :: rest =>
      match lastLiteral rest with
      | some (at', digits) => some (at' + 1, digits)
      | none => (hexLiteral (c :: rest)).map fun digits => (0, digits)

/-- A match: the two numbers, and how many characters it takes. -/
structure RecordMatch where
  addr : Int
  data : Int
  length : Nat
  deriving DecidableEq, Repr

/-- The rest of the pattern after `0x` of the first group, which takes at most `n` digits and gives back
one at a time. -/
def matchDigits (body : List Char) : Nat → Option RecordMatch
  | 0 => none
  | n + 1 =>
      match lastLiteral ((body.drop (n + 1)).takeWhile fun c => c ≠ '\n') with
      | some (at', digits) =>
          some { addr := hexValue (body.take (n + 1))
                 data := hexValue digits
                 length := n + 1 + at' + 2 + digits.length }
      | none => matchDigits body n

/-- `\s*(0x[0-9a-fA-F]+).*(0x[0-9a-fA-F]+)` at the start of a text. -/
def matchRecord (text : List Char) : Option RecordMatch :=
  match text.dropWhile isSpace with
  | '0' :: 'x' :: body =>
      (matchDigits body (body.takeWhile isHex).length).map fun m =>
        { m with length := (text.takeWhile isSpace).length + 2 + m.length }
  | _ => none

/-- The matches of the pattern at the starts of lines, after the next `skip` characters. -/
def findRecords : Nat → Bool → List Char → List (Int × Int)
  | _, _, [] => []
  | skip + 1, _, c :: rest => findRecords skip (c = '\n') rest
  | 0, lineStart, c :: rest =>
      match if lineStart then matchRecord (c :: rest) else none with
      | some m => (m.addr, m.data) :: findRecords (m.length - 1) (c = '\n') rest
      | none => findRecords 0 (c = '\n') rest

/-- The registers of a configuration record, in file order. -/
def cr2Records (text : List Char) : List (Int × Int) := findRecords 0 true text

/-! ### `GenerateConfigFile` -/

structure GroupState where
  bufferList : List (Int × List Int)
  dataBuffer : List Int
  prevAddr : Int
  deriving DecidableEq, Repr

/-- `buffer_list[-1][1] = data_buffer`. -/
def setLast (dataBuffer : List Int) : List (Int × List Int) → Except PyError (List (Int × List Int))
  | [] => .error .indexError
  | [(addr, _)] => .ok [(addr, dataBuffer)]
  | seg :: seg' :: segs => (setLast dataBuffer (seg' :: segs)).map (seg :: ·)

def dataBytes (data : Int) : List Int := [data / 2 ^ 8, data % 0x100]

def groupRecord (st : GroupState) (addr data : Int) : Except PyError GroupState :=
  if addr ≠ st.prevAddr + 2 then do
    let bufferList ← if st.dataBuffer.length > 0 then setLast st.dataBuffer st.bufferList
      else .ok st.bufferList
    return { bufferList := bufferList ++ [(addr, [])], dataBuffer := dataBytes data, prevAddr := addr }
  else .ok { st with dataBuffer := st.dataBuffer ++ dataBytes data, prevAddr := addr }

def groupRecords : List (Int × Int) → GroupState → Except PyError GroupState
  | [], st => .ok st
  | (addr, data) :: records, st => do
      let st ← groupRecord st addr data
      groupRecords records st

def recordSegments (records : List (Int × Int)) : Except PyError (List (Int × List Int)) := do
  let st ← groupRecords records { bufferList := [], dataBuffer := [], prevAddr := 0 }
  if st.dataBuffer.length = 0 then throw (.valueError "Error - GenerateConfigFile(): Missing data")
  else setLast st.dataBuffer st.bufferList

def generateConfigFile (fuel : Nat) (inFile : Option (List Char)) (blockSize : Int)
    (globals : ConverterGlobals) : Option (Except PyError (List Int) × ConverterGlobals) :=
  match inFile with
  | none => some (.error (.valueError "Error - GenerateConfigFile(): Invalid input data"), globals)
  | some text =>
      match recordSegments (cr2Records text) with
      | .error e => some (.error e, globals)
      | .ok segs => do
          let (image, globals) ← generateConfigImage fuel segs blockSize globals
          return (arrayB image, globals)

end VprocSdk
