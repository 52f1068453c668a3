import VprocSdk.Converter.BlockLengths
import VprocSdk.Converter.Exceptions
import VprocSdk.Lib.Digits
import VprocSdk.Lib.PyText

/-!
# Images as C sources

Where `GenerateFwFile` and `GenerateConfigFile` are given an output path, its extension decides whether they
write the bytes of the image or a C source with an array initialiser. The rows of the initialiser begin at
offset 12 and end at the length of the payload, not of the image: the last 12 bytes are listed only because
the row before them reaches over that length, and it does so for a payload of whole rows.
-/

namespace VprocSdk

open Lib

/-! ### The files -/

/-- The paths that are given, and the time as `time.strftime("%c")` puts it. -/
structure OutFile where
  inPath : List Char
  outPath : List Char
  stamp : List Char
  deriving DecidableEq, Repr

/-- What becomes of an image: a buffer that is returned, a file, or nothing for another extension. -/
inductive ConverterOutput
  | buffer (bytes : List Int)
  | binary (bytes : List Int)
  | source (text : List Char)
  | nothing
  deriving DecidableEq, Repr

/-- `"%02X" % x`. -/
def percent02X (x : Int) : List Char :=
  let digits := (numeral 16 x.natAbs).map hexChar
  if x < 0 then '-' :: digits else List.replicate (2 - digits.length) '0' ++ digits

/-- `"0x%02X" % x`. -/
def hexItem (x : Int) : List Char := '0' :: 'x' :: percent02X x

/-- The bytes of a row as the text of their list, without its brackets and quotes. -/
def hexRow (bytes : List Int) : List Char :=
  deleteChars [singleQuote, doubleQuote] (strip ['[', ']'] (pyListText (bytes.map hexItem)))

/-- The lines that `print` writes. -/
def printed (lines : List (List Char)) : List Char := lines.flatMap fun line => line ++ ['\n']

def sourceRows (image : List Int) : List (List Char) :=
  let outListLen : Int := image.length - 12
  ("     ".toList ++ hexRow (pySlice image 0 12)) ::
    (pyRange 12 outListLen 16).map fun i => "    ,".toList ++ hexRow (pySlice image i (i + 16))

def sourceText (file : OutFile) (image : List Int) : List Char :=
  let filename := (splitext file.outPath).1
  let guard := "__".toList ++ filename.map Char.toUpper ++ "_H__".toList
  printed (["/* Generated from ".toList ++ basename file.inPath ++ " on ".toList ++ file.stamp ++ " */\n".toList,
      "#ifndef ".toList ++ guard,
      "#define ".toList ++ guard ++ "\n".toList,
      "const unsigned char ".toList ++ filename ++ "[] = \x7b".toList] ++
    sourceRows image ++ ["\x7d;".toList, "#endif".toList])

def OutFile.extension (file : OutFile) : List Char := (splitext file.outPath).2.map Char.toLower

def OutFile.isBinary (file : OutFile) : Bool := file.extension = ".bin".toList || file.extension = ".hbi".toList

def OutFile.isSource (file : OutFile) : Bool := file.extension = ".h".toList || file.extension = ".c".toList

/-- The end of `GenerateFwFile` and `GenerateConfigFile`. -/
def writeImage (image : List Int) : Option OutFile → Except PyError ConverterOutput
  | none => (arrayB image).map .buffer
  | some file =>
      if file.isBinary then (arrayB image).map .binary
      else if file.isSource then .ok (.source (sourceText file image))
      else .ok .nothing

/-! ### The conversions -/

/-- `GenerateFwFile` up to the image: there is none for a text without the S3 header. -/
def fwImage (fuel : Nat) (bufferList : List (List Char)) (fwOpn blockSize : Int) (globals : ConverterGlobals) :
    Option (Except PyError (Option (List Int)) × ConverterGlobals) :=
  match parseS3Segment bufferList 0x00080128 216 with
  | .error e => some (.error e, globals)
  | .ok headerBytes =>
      if headerBytes = [] then some (.ok none, globals)
      else
        match readTable headerBytes with
        | .error e => some (.error e, globals)
        | .ok segTable => do
            let (segBlocks, globals) ← formatTable fuel bufferList blockSize segTable globals
            match segBlocks with
            | .error e => return (.error e, globals)
            | .ok segBlocks =>
                let (headerBlocks, globals) ←
                  formatSegmentToHbi fuel headerBytes 0x00080128 blockSize false globals
                match formatS7ToHbi bufferList blockSize globals.leftOverBytes with
                | .error e => return (.error e, globals)
                | .ok s7 =>
                    let out := segBlocks ++ headerBlocks ++ s7
                    return (.ok (some (imageHeader imgHdrFirmware fwOpn blockSize out.length ++ out)), .initial)

/-- `GenerateConfigFile` up to the image. -/
def configImage (fuel : Nat) (text : List Char) (blockSize : Int) (globals : ConverterGlobals) :
    Option (Except PyError (Option (List Int)) × ConverterGlobals) :=
  match recordSegments (cr2Records text) with
  | .error e => some (.error e, globals)
  | .ok segs => do
      let (image, globals) ← generateConfigImage fuel segs blockSize globals
      return (.ok (some image), globals)

namespace ConverterCall

def image (fuel : Nat) : ConverterCall → ConverterGlobals →
    Option (Except PyError (Option (List Int)) × ConverterGlobals)
  | .getFirmwareBinFileB none _ _, globals =>
      some (.error (.valueError "Error - GenerateFwFile(): Invalid input data"), globals)
  | .getFirmwareBinFileB (some text) fwOpn blockSize, globals =>
      fwImage fuel (splitlines text) fwOpn blockSize globals
  | .getConfigBinFileB none _, globals =>
      some (.error (.valueError "Error - GenerateConfigFile(): Invalid input data"), globals)
  | .getConfigBinFileB (some text) blockSize, globals => configImage fuel text blockSize globals

/-- What a conversion makes of its image; without one it returns the empty text and writes no file. -/
def output (file : Option OutFile) : Except PyError (Option (List Int)) → Except PyError ConverterOutput
  | .error e => .error e
  | .ok none => .ok (.buffer [])
  | .ok (some image) => writeImage image file

/-- `GenerateFwFile` and `GenerateConfigFile`, with the output path they are given. -/
def generate (fuel : Nat) (call : ConverterCall) (file : Option OutFile) (globals : ConverterGlobals) :
    Option (Except PyError ConverterOutput × ConverterGlobals) :=
  (call.image fuel globals).map fun result => (output file result.1, result.2)

end ConverterCall

/-- What is returned for an image when no output path is given. -/
def returned : Except PyError (Option (List Int)) → Except PyError (List Int)
  | .error e => .error e
  | .ok none => .ok []
  | .ok (some image) => arrayB image

theorem output_none (image : Except PyError (Option (List Int))) :
    ConverterCall.output none image = (returned image).map .buffer := by
  cases image with
  | error e => rfl
  | ok image =>
      cases image with
      | none => rfl
      | some bytes => rfl

theorem generateFwLines_image (fuel : Nat) (bufferList : List (List Char)) (fwOpn blockSize : Int)
    (globals : ConverterGlobals) : generateFwLines fuel bufferList fwOpn blockSize globals =
      (fwImage fuel bufferList fwOpn blockSize globals).map fun result => (returned result.1, result.2) := by
  unfold generateFwLines fwImage
  cases parseS3Segment bufferList 0x00080128 216 with
  | error e => rfl
  | ok headerBytes =>
      dsimp only
      by_cases hempty : headerBytes = []
      · rw [if_pos hempty, if_pos hempty]
        rfl
      · rw [if_neg hempty, if_neg hempty]
        cases readTable headerBytes with
        | error e => rfl
        | ok segTable =>
            dsimp only [Option.bind_eq_bind]
            rw [Option.map_bind]
            congr 1
            funext result
            obtain ⟨segBlocks, mid⟩ := result
            cases segBlocks with
            | error e => rfl
            | ok segBlocks =>
                dsimp only [Function.comp_apply]
                rw [Option.map_bind]
                congr 1
                funext result
                obtain ⟨headerBlocks, last⟩ := result
                dsimp only [Function.comp_apply]
                cases formatS7ToHbi bufferList blockSize last.leftOverBytes with
                | error e => rfl
                | ok s7 => rfl

theorem generateConfigFile_image (fuel : Nat) (text : List Char) (blockSize : Int)
    (globals : ConverterGlobals) : generateConfigFile fuel (some text) blockSize globals =
      (configImage fuel text blockSize globals).map fun result => (returned result.1, result.2) := by
  unfold generateConfigFile configImage
  dsimp only
  cases recordSegments (cr2Records text) with
  | error e => rfl
  | ok segs =>
      dsimp only [Option.bind_eq_bind]
      rw [Option.map_bind]
      rfl

theorem ConverterCall.run_image (fuel : Nat) (call : ConverterCall) (globals : ConverterGlobals) :
    call.run fuel globals = (call.image fuel globals).map fun result => (returned result.1, result.2) := by
  cases call with
  | getFirmwareBinFileB inFile fwOpn blockSize =>
      cases inFile with
      | none => rfl
      | some text => exact generateFwLines_image fuel (splitlines text) fwOpn blockSize globals
  | getConfigBinFileB inFile blockSize =>
      cases inFile with
      | none => rfl
      | some text => exact generateConfigFile_image fuel text blockSize globals

/-- Without an output path the two functions are the conversions that return their image. -/
theorem ConverterCall.generate_none (fuel : Nat) (call : ConverterCall) (globals : ConverterGlobals) :
    call.generate fuel none globals
      = (call.run fuel globals).map fun result => (result.1.map .buffer, result.2) := by
  rw [generate, run_image, Option.map_map]
  congr 1
  funext result
  exact congrArg (·, result.2) (output_none result.1)

theorem ConverterCall.generate_globals (fuel : Nat) (call : ConverterCall) (file : Option OutFile)
    (globals : ConverterGlobals) :
    (call.generate fuel file globals).map Prod.snd = (call.run fuel globals).map Prod.snd := by
  rw [generate, run_image, Option.map_map, Option.map_map]
  rfl

/-! ### The length of the payload -/

theorem imageHeader_append (imageType fwOpn blockSize outListLen : Int) (payload : List Int) :
    (imageHeader imageType fwOpn blockSize outListLen ++ payload).length = 12 + payload.length :=
  List.length_append

section Length

variable {words fuel : Nat} {globals globals' : ConverterGlobals} {image : List Int}
  (hwords : 16 ≤ words ∧ words ≤ 128) (h : GlobalsSound globals)
include hwords h

theorem fwImage_length {bufferList : List (List Char)} {fwOpn : Int}
    (hrun : fwImage fuel bufferList fwOpn words globals = some (.ok (some image), globals')) :
    ∃ len : Nat, image.length = 12 + len ∧ len ≡ globals.leftOverBytes [ZMOD (words * 2 : Nat)] := by
  unfold fwImage at hrun
  split at hrun
  · cases hrun
  · split at hrun
    · cases hrun
    · split at hrun
      · cases hrun
      · obtain ⟨⟨segBlocks, mid⟩, htable, hrest⟩ := Option.bind_eq_some_iff.1 hrun
        cases segBlocks with
        | error e => cases hrest
        | ok segBlocks =>
            obtain ⟨⟨headerBlocks, last⟩, hheader, hlast⟩ := Option.bind_eq_some_iff.1 hrest
            dsimp only at hlast
            split at hlast
            · cases hlast
            · rename_i s7 hs7
              cases hlast
              obtain ⟨hmid, hsegs⟩ := formatTable_length hwords (h.roomLeft false) htable
              obtain ⟨hleft, hblocks⟩ := formatSegmentToHbi_length hwords hmid hheader
              have hs7Length := formatS7ToHbi_length hwords hleft.nonneg hs7
              have htail := length_modEq_append hsegs hblocks
              refine ⟨(segBlocks ++ headerBlocks ++ s7).length, imageHeader_append _ _ _ _ _, ?_⟩
              rw [List.length_append, Int.natCast_add]
              exact (hs7Length.add_left _).trans htail

theorem configImage_length {text : List Char}
    (hrun : configImage fuel text words globals = some (.ok (some image), globals')) :
    ∃ len : Nat, image.length = 12 + len ∧ len ≡ globals.leftOverBytes [ZMOD (words * 2 : Nat)] := by
  unfold configImage at hrun
  split at hrun
  · cases hrun
  · obtain ⟨⟨built, last⟩, hbuilt, hlast⟩ := Option.bind_eq_some_iff.1 hrun
    obtain ⟨⟨segBlocks, mid⟩, hsegs, hdone⟩ := Option.bind_eq_some_iff.1 hbuilt
    cases hlast
    cases hdone
    obtain ⟨hleft, hblocks⟩ := formatSegments_length hwords (h.roomLeft true) hsegs
    refine ⟨(segBlocks ++ nopBytes mid.leftOverBytes).length, imageHeader_append _ _ _ _ _, ?_⟩
    rw [List.length_append, Int.natCast_add, length_nopBytes, Int.toNat_of_nonneg hleft.nonneg]
    exact hblocks

end Length

/-- The payload of an image is as long as what was left over before the conversion, up to whole rows. -/
theorem ConverterCall.image_length {call : ConverterCall} {fuel : Nat} {globals globals' : ConverterGlobals}
    {image : List Int} (hsize : IsBlockSize call.blockSize) (h : GlobalsSound globals)
    (hrun : call.image fuel globals = some (.ok (some image), globals')) :
    ∃ len : Nat, image.length = 12 + len ∧ len ≡ globals.leftOverBytes [ZMOD 16] := by
  have hrows : ∀ k : Nat, (16 : Int) ∣ (16 * k * 2 : Nat) := by
    intro k
    exact ⟨k * 2, by omega⟩
  obtain ⟨k, hlow, hhigh, hwords⟩ := hsize
  cases call with
  | getFirmwareBinFileB inFile fwOpn blockSize =>
      cases inFile with
      | none => cases hrun
      | some text =>
          replace hwords : blockSize = (16 * k : Nat) := hwords
          subst hwords
          obtain ⟨len, hlen, hmod⟩ := fwImage_length (by omega) h hrun
          exact ⟨len, hlen, hmod.of_dvd (hrows k)⟩
  | getConfigBinFileB inFile blockSize =>
      cases inFile with
      | none => cases hrun
      | some text =>
          replace hwords : blockSize = (16 * k : Nat) := hwords
          subst hwords
          obtain ⟨len, hlen, hmod⟩ := configImage_length (by omega) h hrun
          exact ⟨len, hlen, hmod.of_dvd (hrows k)⟩

/-! ### Reading the initialiser -/

/-- What stands between the braces of the initialiser, the last ones of the file. -/
def initialiser (text : List Char) : List Char := (afterLast '\x7b' text).takeWhile fun c => c ≠ '\x7d'

def dense (text : List Char) : List Char := text.filter fun c => !isSpace c

/-- The items of an initialiser, in which white space does not count. -/
def sourceItems (text : List Char) : List (List Char) :=
  (dense (initialiser text)).splitOn ','

def cLiteral : List Char → Option Int
  | '0' :: 'x' :: digits => if digits ≠ [] ∧ digits.all isHex then some (hexValue digits) else none
  | _ => none

/-- The bytes of the array, as a compiler reads them. -/
def sourceBytes (text : List Char) : Option (List Int) := (sourceItems text).mapM cLiteral

/-- A source lists every entry of an image, and its array has the bytes of the binary output. -/
structure SourceCarries (text : List Char) (image : List Int) : Prop where
  items : sourceItems text = image.map hexItem
  bytes : ∀ bytes, arrayB image = .ok bytes → sourceBytes text = some bytes

def IsItemChar (c : Char) : Prop := isHex c = true ∨ c = 'x' ∨ c = '-'

theorem IsItemChar.ne {c d : Char} (h : IsItemChar c) (hd : isHex d = false ∧ d ≠ 'x' ∧ d ≠ '-') : c ≠ d := by
  intro heq
  subst heq
  rcases h with hhex | rfl | rfl
  · exact Bool.false_ne_true (hd.1.symm.trans hhex)
  · exact hd.2.1 rfl
  · exact hd.2.2 rfl

theorem IsItemChar.not_space {c : Char} (h : IsItemChar c) : isSpace c = false := by
  rcases h with hhex | rfl | rfl
  · exact (isHex_plain hhex).1
  · decide
  · decide

theorem isHex_hexChar : ∀ d < 16, isHex (hexChar d) = true := by decide

theorem hexItem_chars {x : Int} : ∀ c ∈ hexItem x, IsItemChar c := by
  have hdigits : ∀ c ∈ (numeral 16 x.natAbs).map hexChar, IsItemChar c := by
    intro c hc
    obtain ⟨d, hd, rfl⟩ := List.mem_map.1 hc
    exact .inl (isHex_hexChar d (lt_of_mem_numeral (by decide) hd))
  have hzero : IsItemChar '0' := .inl (by decide)
  intro c hc
  rw [hexItem, List.mem_cons, List.mem_cons, percent02X] at hc
  rcases hc with rfl | rfl | hc
  · exact hzero
  · exact .inr (.inl rfl)
  · split at hc
    · rcases List.mem_cons.1 hc with rfl | hc
      · exact .inr (.inr rfl)
      · exact hdigits c hc
    · rcases List.mem_append.1 hc with hc | hc
      · rw [List.eq_of_mem_replicate hc]
        exact hzero
      · exact hdigits c hc

theorem cLiteral_hexItem {b : Int} (hb : HbiCmd.IsByte b) : cLiteral (hexItem b) = some b := by
  obtain ⟨n, rfl⟩ := Int.eq_ofNat_of_zero_le hb.1
  have hn : n < 256 := by
    have hhigh := hb.2
    omega
  have hnonneg : ¬ (n : Int) < 0 := by omega
  have hitem : hexItem n = ['0', 'x', hexChar (n / 16), hexChar (n % 16)] := by
    rw [hexItem, percent02X, Int.natAbs_natCast, if_neg hnonneg]
    by_cases hsmall : n < 16
    · rw [numeral_of_lt hsmall, Nat.div_eq_of_lt hsmall, Nat.mod_eq_of_lt hsmall]
      rfl
    · rw [numeral_of_le (by decide) (by omega), numeral_of_lt (Nat.div_lt_of_lt_mul (by omega))]
      rfl
  have hhigh := hexDigit_hexChar (n / 16) (by omega)
  have hlow := hexDigit_hexChar (n % 16) (by omega)
  rw [hitem, cLiteral, if_pos]
  · rw [hexValue, List.foldl_cons, List.foldl_cons, List.foldl_nil, hhigh, hlow, Option.getD_some,
      Option.getD_some]
    congr 1
    omega
  · refine ⟨List.cons_ne_nil _ _, ?_⟩
    simp [isHex, hhigh, hlow]

theorem mapM_cLiteral {bytes : List Int} (h : AllBytes bytes) :
    (bytes.map hexItem).mapM cLiteral = some bytes := by
  induction bytes with
  | nil => rfl
  | cons b bytes ih =>
      obtain ⟨hb, hbytes⟩ := List.forall_mem_cons.1 h
      rw [List.map_cons, List.mapM_cons, cLiteral_hexItem hb, ih hbytes]
      rfl

theorem hexRow_eq (bytes : List Int) :
    hexRow bytes = ([',', ' '] : List Char).intercalate (bytes.map hexItem) := by
  apply listText_plain
  intro item hitem c hc
  obtain ⟨b, -, rfl⟩ := List.mem_map.1 hitem
  have hchar := hexItem_chars c hc
  exact ⟨hchar.ne (by decide), hchar.ne (by decide)⟩

theorem hexRow_chars {bytes : List Int} {d : Char} (hd : isHex d = false ∧ d ≠ 'x' ∧ d ≠ '-')
    (hsep : d ≠ ',' ∧ d ≠ ' ') : d ∉ hexRow bytes := by
  rw [hexRow_eq]
  intro hc
  rcases mem_intercalate hc with hc | ⟨item, hitem, hc⟩
  · simp [hsep] at hc
  · obtain ⟨b, -, rfl⟩ := List.mem_map.1 hitem
    exact (hexItem_chars d hc).ne hd rfl

theorem dense_hexRow (bytes : List Int) : dense (hexRow bytes) = [','].intercalate (bytes.map hexItem) := by
  rw [hexRow_eq, dense, filter_intercalate, List.map_map]
  have hplain : ∀ b ∈ bytes, (List.filter (fun c => !isSpace c) ∘ hexItem) b = hexItem b := by
    intro b hb
    apply List.filter_eq_self.2
    intro c hc
    rw [(hexItem_chars c hc).not_space]
    rfl
  rw [List.map_congr_left hplain]
  rfl

/-! ### What is listed -/

def payloadRows (image : List Int) : List (List Int) :=
  (pyRange 12 (image.length - 12) 16).map fun i => pySlice image i (i + 16)

theorem printed_append (lines lines' : List (List Char)) :
    printed (lines ++ lines') = printed lines ++ printed lines' := List.flatMap_append

theorem sourceText_eq (file : OutFile) (image : List Int) :
    ∃ front, sourceText file image
      = front ++ '\x7b' :: ('\n' :: printed (sourceRows image) ++ '\x7d' :: ";\n#endif\n".toList) := by
  have hopen : ∀ (lines : List (List Char)) (declaration : List Char),
      printed (lines ++ [declaration ++ "[] = \x7b".toList])
        = printed lines ++ (declaration ++ "[] = ".toList) ++ ['\x7b', '\n'] := by
    intro lines declaration
    have hline : printed [declaration ++ "[] = \x7b".toList]
        = declaration ++ ("[] = ".toList ++ ['\x7b', '\n']) := by
      rw [printed, List.flatMap_singleton, List.append_assoc]
      rfl
    rw [printed_append, hline, List.append_assoc, List.append_assoc]
  have hclose : printed ["\x7d;".toList, "#endif".toList] = '\x7d' :: ";\n#endif\n".toList := by decide
  obtain ⟨lines, declaration, htext⟩ : ∃ lines declaration, sourceText file image
      = printed ((lines ++ [declaration ++ "[] = \x7b".toList]) ++ sourceRows image
        ++ ["\x7d;".toList, "#endif".toList]) := ⟨[_, _, _], _, rfl⟩
  refine ⟨printed lines ++ (declaration ++ "[] = ".toList), ?_⟩
  rw [htext, printed_append, printed_append, hopen, hclose, List.append_assoc, List.append_assoc _ ['\x7b', '\n']]
  rfl

theorem initialiser_sourceText (file : OutFile) (image : List Int) :
    initialiser (sourceText file image) = '\n' :: printed (sourceRows image) := by
  have hrow : ∀ line ∈ sourceRows image, ∀ c ∈ line, c ≠ '\x7b' ∧ c ≠ '\x7d' := by
    have hplain : ∀ (bytes : List Int), ∀ c ∈ hexRow bytes, c ≠ '\x7b' ∧ c ≠ '\x7d' := by
      intro bytes c hc
      refine ⟨?_, ?_⟩
      · intro heq
        exact hexRow_chars (by decide) (by decide) (heq ▸ hc)
      · intro heq
        exact hexRow_chars (by decide) (by decide) (heq ▸ hc)
    have hmargin : ∀ margin : List Char, (margin.all fun c => c ≠ '\x7b' && c ≠ '\x7d') = true →
        ∀ c ∈ margin, c ≠ '\x7b' ∧ c ≠ '\x7d' := by
      intro margin hall c hc
      simpa using List.all_eq_true.1 hall c hc
    intro line hline c hc
    rcases List.mem_cons.1 hline with rfl | hline
    · rcases List.mem_append.1 hc with hc | hc
      · exact hmargin _ (by decide) c hc
      · exact hplain _ c hc
    · obtain ⟨i, -, rfl⟩ := List.mem_map.1 hline
      rcases List.mem_append.1 hc with hc | hc
      · exact hmargin _ (by decide) c hc
      · exact hplain _ c hc
  have hbody : ∀ c ∈ '\n' :: printed (sourceRows image), c ≠ '\x7b' ∧ c ≠ '\x7d' := by
    intro c hc
    rcases List.mem_cons.1 hc with rfl | hc
    · decide
    · obtain ⟨line, hline, hc⟩ := List.mem_flatMap.1 hc
      rcases List.mem_append.1 hc with hc | hc
      · exact hrow line hline c hc
      · rw [List.mem_singleton.1 hc]
        decide
  obtain ⟨body, hbodyEq⟩ : ∃ body, body = '\n' :: printed (sourceRows image) := ⟨_, rfl⟩
  obtain ⟨front, htext⟩ := sourceText_eq file image
  rw [← hbodyEq] at hbody htext ⊢
  have hlast : '\x7b' ∉ body ++ '\x7d' :: ";\n#endif\n".toList := by
    intro hmem
    rcases List.mem_append.1 hmem with hmem | hmem
    · exact (hbody _ hmem).1 rfl
    · revert hmem
      decide
  rw [initialiser, htext, afterLast_append hlast, List.takeWhile_append_of_pos]
  · rw [List.takeWhile_cons_of_neg (by decide), List.append_nil]
  · intro c hc
    exact decide_eq_true (hbody c hc).2

theorem dense_printed (lines : List (List Char)) : dense (printed lines) = lines.flatMap dense := by
  rw [dense, printed, List.filter_flatMap]
  congr 1
  funext line
  rw [List.filter_append]
  exact List.append_nil _

theorem dense_newline (text : List Char) : dense ('\n' :: text) = dense text := rfl

theorem dense_append (text text' : List Char) : dense (text ++ text') = dense text ++ dense text' :=
  List.filter_append _ _

theorem dense_sourceRows (image : List Int) : dense ('\n' :: printed (sourceRows image))
    = [','].intercalate ((pySlice image 0 12).map hexItem) ++
      ((payloadRows image).map (List.map hexItem)).flatMap fun row => [','] ++ [','].intercalate row := by
  have hfirst : dense "     ".toList = [] := by decide
  have hrest : dense "    ,".toList = [','] := by decide
  have hrow : ∀ i : Int, dense ("    ,".toList ++ hexRow (pySlice image i (i + 16)))
      = [','] ++ [','].intercalate ((pySlice image i (i + 16)).map hexItem) := by
    intro i
    rw [dense_append, hrest, dense_hexRow]
  rw [dense_newline, dense_printed, sourceRows, payloadRows, List.flatMap_cons, List.flatMap_map,
    List.map_map, List.flatMap_map, dense_append, hfirst, List.nil_append, dense_hexRow]
  simp only [hrow, Function.comp_apply]

section Listed

variable {image : List Int} {len : Nat} (hlen : image.length = 12 + len)
include hlen

theorem payloadRows_eq : payloadRows image
    = (List.range ((len + 3) / 16)).map fun k => (image.drop (12 + 16 * k)).take 16 := by
  have hcount : (((image.length : Int) - 12 - 12 + 16 - 1) / 16).toNat = (len + 3) / 16 := by omega
  rw [payloadRows, pyRange, hcount, List.map_map]
  apply List.map_congr_left
  intro k hk
  have hslice := pySlice_add image (12 + 16 * k) 16
  push_cast at hslice
  exact hslice

/-- The initialiser lists the image up to the end of the last row that begins below the payload length. -/
theorem sourceItems_sourceText (file : OutFile) : sourceItems (sourceText file image)
    = (image.take (12 + 16 * ((len + 3) / 16))).map hexItem := by
  obtain ⟨rows, hrows⟩ : ∃ rows, rows = payloadRows image := ⟨_, rfl⟩
  have hfirst : pySlice image 0 12 = image.take 12 := pySlice_prefix image 12
  have hflatten : image.take 12 ++ rows.flatten = image.take (12 + 16 * ((len + 3) / 16)) := by
    rw [hrows, payloadRows_eq hlen, ← List.flatMap_def, flatMap_slices, List.take_add]
  have hne : ∀ row ∈ rows.map (List.map hexItem), row ≠ [] := by
    intro row hrow hnil
    obtain ⟨entries, hentries, rfl⟩ := List.mem_map.1 hrow
    rw [hrows, payloadRows_eq hlen] at hentries
    obtain ⟨k, hk, rfl⟩ := List.mem_map.1 hentries
    have hshort := congrArg List.length hnil
    have hrange := List.mem_range.1 hk
    rw [List.length_map, List.length_take, List.length_drop, List.length_nil] at hshort
    omega
  have hhead : (image.take 12).map hexItem ≠ [] := by
    intro hnil
    have hshort := congrArg List.length hnil
    rw [List.length_map, List.length_take, List.length_nil] at hshort
    omega
  have hcomma : ∀ item ∈ (image.take (12 + 16 * ((len + 3) / 16))).map hexItem, ',' ∉ item := by
    intro item hitem hc
    obtain ⟨b, -, rfl⟩ := List.mem_map.1 hitem
    exact (hexItem_chars ',' hc).ne (by decide) rfl
  have hnonempty : (image.take (12 + 16 * ((len + 3) / 16))).map hexItem ≠ [] := by
    rw [← hflatten, List.map_append]
    exact List.append_ne_nil_of_left_ne_nil hhead _
  rw [sourceItems, initialiser_sourceText, dense_sourceRows, hfirst, ← hrows, ← intercalate_rows hhead hne,
    ← List.map_flatten, ← List.map_append, hflatten, List.splitOn_intercalate _ hcomma hnonempty]

/-- A source carries its image exactly when the row before the last 12 bytes reaches the end of the image. -/
theorem sourceText_carries_iff (file : OutFile) :
    SourceCarries (sourceText file image) image ↔ len % 16 = 0 ∨ 13 ≤ len % 16 := by
  have hitems := sourceItems_sourceText hlen file
  constructor
  · intro hcarries
    have hlength := congrArg List.length (hitems.symm.trans hcarries.items)
    rw [List.length_map, List.length_map, List.length_take] at hlength
    omega
  · intro hwhole
    have hall : image.take (12 + 16 * ((len + 3) / 16)) = image := List.take_of_length_le (by omega)
    rw [hall] at hitems
    refine ⟨hitems, ?_⟩
    intro bytes hbytes
    rcases arrayB_ends image with ⟨hentries, hok⟩ | ⟨-, herror⟩
    · rw [hok] at hbytes
      rw [sourceBytes, hitems, ← Except.ok.inj hbytes, mapM_cLiteral hentries]
    · rw [herror] at hbytes
      cases hbytes

end Listed

/-! ### Files in a process -/

/-- A call of `GenerateFwFile` or `GenerateConfigFile`, and the output it is given. -/
structure GenerateCall where
  conversion : ConverterCall
  outFile : Option OutFile
  deriving DecidableEq, Repr

/-- A process that converts and writes files, each call with fuel for its loops. -/
def generator : Machine ConverterGlobals (GenerateCall × Nat) where
  step globals call := (call.1.conversion.generate call.2 call.1.outFile globals).map Prod.snd

theorem generator_exec (globals : ConverterGlobals) (calls : List (GenerateCall × Nat)) :
    generator.exec globals calls
      = converter.exec globals (calls.map fun call => (call.1.conversion, call.2)) := by
  induction calls generalizing globals with
  | nil => rfl
  | cons call calls ih =>
      have hstep : generator.step globals call = converter.step globals (call.1.conversion, call.2) :=
        call.1.conversion.generate_globals call.2 call.1.outFile globals
      rw [List.map_cons, Machine.exec, Machine.exec, hstep]
      congr 1
      funext globals'
      exact ih globals'

theorem generator_globalsSound {calls : List (GenerateCall × Nat)} {globals : ConverterGlobals}
    (hsize : ∀ call ∈ calls, IsBlockSize call.1.conversion.blockSize)
    (hexec : generator.exec .initial calls = some globals) : GlobalsSound globals := by
  rw [generator_exec] at hexec
  apply converter_globalsSound _ hexec
  intro call hcall
  obtain ⟨call', hmem, rfl⟩ := List.mem_map.1 hcall
  exact hsize call' hmem

section Conversion

variable {conversion : ConverterCall} {fuel : Nat} {image : List Int} {globals globals' : ConverterGlobals}

theorem OutFile.not_binary {file : OutFile} (h : file.isSource = true) : file.isBinary = false := by
  rw [isSource, Bool.or_eq_true, decide_eq_true_eq, decide_eq_true_eq] at h
  rw [isBinary]
  rcases h with h | h
  · rw [h]
    decide
  · rw [h]
    decide

theorem generate_source {source : OutFile} (hsource : source.isSource = true)
    (himage : conversion.image fuel globals = some (.ok (some image), globals')) :
    conversion.generate fuel (some source) globals
      = some (.ok (.source (sourceText source image)), globals') := by
  rw [ConverterCall.generate, himage, Option.map_some, ConverterCall.output, writeImage,
    OutFile.not_binary hsource, hsource]
  rfl

theorem generate_binary {binary : OutFile} (hbinary : binary.isBinary = true)
    (himage : conversion.image fuel globals = some (.ok (some image), globals')) :
    conversion.generate fuel (some binary) globals = some ((arrayB image).map .binary, globals') := by
  rw [ConverterCall.generate, himage, Option.map_some, ConverterCall.output, writeImage, hbinary]
  rfl

theorem image_carries_iff (hsize : IsBlockSize conversion.blockSize) (h : GlobalsSound globals)
    (himage : conversion.image fuel globals = some (.ok (some image), globals')) (source : OutFile) :
    SourceCarries (sourceText source image) image ↔
      globals.leftOverBytes % 16 = 0 ∨ 13 ≤ globals.leftOverBytes % 16 := by
  obtain ⟨len, hlen, hmod⟩ := ConverterCall.image_length hsize h himage
  have hrows : (len : Int) % 16 = globals.leftOverBytes % 16 := hmod
  rw [sourceText_carries_iff hlen]
  omega

end Conversion

/-- In a process in which no call raises after a block, every source carries its image. -/
theorem sources_carry {calls : List (GenerateCall × Nat)} {globals globals' : ConverterGlobals}
    {conversion : ConverterCall} {fuel : Nat} {image : List Int}
    (hcalls : ∀ call ∈ calls, call.1.conversion.failsLate = false)
    (hexec : generator.exec .initial calls = some globals) (hblockSize : IsBlockSize conversion.blockSize)
    (himage : conversion.image fuel globals = some (.ok (some image), globals')) (source : OutFile) :
    SourceCarries (sourceText source image) image := by
  rw [generator_exec] at hexec
  have hinitial : globals = .initial := by
    apply converter_run hexec
    intro call hcall
    obtain ⟨call', hmem, rfl⟩ := List.mem_map.1 hcall
    exact hcalls call' hmem
  subst hinitial
  exact (image_carries_iff hblockSize globalsSound_initial himage source).2 (.inl rfl)

/-- Whatever has been converted before, the source that is written for an image has the bytes of its binary
exactly when what was left over is whole rows, or all but at most three bytes of them. -/
theorem source_carries_iff (calls : List (GenerateCall × Nat)) (globals : ConverterGlobals)
    (hsize : ∀ call ∈ calls, IsBlockSize call.1.conversion.blockSize)
    (hexec : generator.exec .initial calls = some globals) (conversion : ConverterCall)
    (hblockSize : IsBlockSize conversion.blockSize) (fuel : Nat) (image : List Int)
    (globals' : ConverterGlobals)
    (himage : conversion.image fuel globals = some (.ok (some image), globals')) (source binary : OutFile)
    (hsource : source.isSource = true) (hbinary : binary.isBinary = true) :
    ∃ text, conversion.generate fuel (some source) globals = some (.ok (.source text), globals') ∧
      conversion.generate fuel (some binary) globals = some ((arrayB image).map .binary, globals') ∧
      (SourceCarries text image ↔ globals.leftOverBytes % 16 = 0 ∨ 13 ≤ globals.leftOverBytes % 16) :=
  ⟨sourceText source image, generate_source hsource himage, generate_binary hbinary himage,
    image_carries_iff hblockSize (generator_globalsSound hsize hexec) himage source⟩

def cFile : OutFile where
  inPath := "record.cr2".toList
  outPath := "record.c".toList
  stamp := "Mon Jan  1 00:00:00 2018".toList

def hbiFile : OutFile := { cFile with outPath := "record.hbi".toList }

/-- Three registers in two runs, after a bad S7 record has left 24 bytes of its block. -/
def threeRegisters : List Char := "0x200, 0x1234\n0x202, 0x5678\n0x300, 0x9ABC".toList

def threeRegistersImage : List Int :=
  imageHeader imgHdrConfig 0 32 24 ++ [0xFE, 0x01, 0x00, 0x81, 0x12, 0x34, 0x56, 0x78] ++
    [0xFE, 0x02, 0x00, 0x80, 0x9A, 0xBC] ++ List.replicate 10 0xFF

theorem source_carries_iff_behindBadS7 : ∃ text,
    (ConverterCall.getConfigBinFileB (some threeRegisters) 32).generate 4 (some cFile) ⟨false, 24⟩
        = some (.ok (.source text), .initial) ∧
      (ConverterCall.getConfigBinFileB (some threeRegisters) 32).generate 4 (some hbiFile) ⟨false, 24⟩
        = some ((arrayB threeRegistersImage).map .binary, .initial) ∧
      (SourceCarries text threeRegistersImage ↔ (24 : Int) % 16 = 0 ∨ 13 ≤ (24 : Int) % 16) :=
  source_carries_iff [(⟨.getFirmwareBinFileB (some (headerFile "DB".toList)) 38040 32, none⟩, 216)] ⟨false, 24⟩
    (by simpa [ConverterCall.blockSize] using ⟨2, by decide, by decide, rfl⟩) (by decide +kernel)
    (.getConfigBinFileB (some threeRegisters) 32) ⟨2, by decide, by decide, rfl⟩ 4 threeRegistersImage .initial
    (by decide +kernel) cFile hbiFile (by decide) (by decide)

/-- The register 0x200 after a bad S7 record has left 24 bytes of its block: the source lists 28 of the 36
bytes of the image. -/
theorem stale_source_loses_bytes : ∃ globals image text,
    generator.exec .initial [(⟨.getFirmwareBinFileB (some (headerFile "DB".toList)) 38040 32, none⟩, 216)]
        = some globals ∧
      (ConverterCall.getConfigBinFileB (some "0x200, 0x1234".toList) 32).generate 2 (some cFile) globals
        = some (.ok (.source text), .initial) ∧
      (ConverterCall.getConfigBinFileB (some "0x200, 0x1234".toList) 32).generate 2 (some hbiFile) globals
        = some (.ok (.binary image), .initial) ∧
      image.length = 36 ∧ sourceItems text = (image.take 28).map hexItem ∧ ¬ SourceCarries text image := by
  obtain ⟨image, himageEq⟩ : ∃ image, image = imageHeader imgHdrConfig 0 32 24 ++
    [0xFE, 0x01, 0x00, 0x80, 0x12, 0x34] ++ List.replicate 18 0xFF := ⟨_, rfl⟩
  have hexec : generator.exec .initial
      [(⟨.getFirmwareBinFileB (some (headerFile "DB".toList)) 38040 32, none⟩, 216)]
      = some { pageSelect := false, leftOverBytes := 24 } := by
    decide +kernel
  have himage : (ConverterCall.getConfigBinFileB (some "0x200, 0x1234".toList) 32).image 2
      { pageSelect := false, leftOverBytes := 24 } = some (.ok (some image), .initial) := by
    rw [himageEq]
    decide
  have hlength : image.length = 12 + 24 := by
    rw [himageEq]
    rfl
  have hbytes : arrayB image = .ok image := by
    rw [himageEq]
    decide
  have hbinary : (ConverterCall.getConfigBinFileB (some "0x200, 0x1234".toList) 32).generate 2 (some hbiFile)
      { pageSelect := false, leftOverBytes := 24 } = some ((arrayB image).map .binary, .initial) :=
    generate_binary (by decide) himage
  rw [hbytes] at hbinary
  refine ⟨_, image, sourceText cFile image, hexec, generate_source (by decide) himage, hbinary, hlength,
    sourceItems_sourceText hlength cFile, ?_⟩
  rw [sourceText_carries_iff hlength]
  decide

end VprocSdk
