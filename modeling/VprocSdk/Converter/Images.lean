import VprocSdk.Converter.Blocks

/-!
# Converted images

The blocks of all segments, one after another, with what follows them: the S7 record of a firmware image,
the padding of a configuration record. The payload of an image is complete commands, it is packed into
chunks of the block size, and what its commands write is the segments.
-/

namespace VprocSdk

open Lib HbiCmd

def Segment.pair (seg : Segment) : Int × List Int := (seg.addr, seg.bytes)

def Segment.writes (seg : Segment) : List (Int × Int) := writesAt seg.addr seg.bytes

section Segments

variable {words fuel : Nat} {isConfig : Bool} {globals : ConverterGlobals} {hbi : HbiState} {left : Nat}

theorem formatSegments_run (segs : List Segment) (hwords : 16 ≤ words ∧ words ≤ 128)
    (hpaged : ∀ seg ∈ segs, isConfig = true → seg.Paged)
    (hfuel : ∀ seg ∈ segs, seg.bytes.length ≤ fuel)
    (h : GlobalsInv words isConfig globals left hbi) :
    ∃ blocks globals', formatSegments fuel words isConfig (segs.map Segment.pair) globals
        = some (blocks, globals') ∧
      Formatted words isConfig (∀ seg ∈ segs, seg.InRange) hbi left (segs.flatMap Segment.writes)
        (blocks, globals') := by
  induction segs generalizing globals left hbi with
  | nil => exact ⟨[], globals, rfl, formatted_nil h⟩
  | cons seg segs ih =>
      obtain ⟨block, globals', hrun, cmds, left', hblock, hemits, hpacked, hglobals⟩ :=
        formatSegmentToHbi_run seg hwords (hpaged seg List.mem_cons_self) fuel
          (hfuel seg List.mem_cons_self) h
      obtain ⟨blocks, globals'', hruns, hothers⟩ := ih
        (fun s hs => hpaged s (List.mem_cons_of_mem _ hs))
        (fun s hs => hfuel s (List.mem_cons_of_mem _ hs)) hglobals
      have hexact : (∀ s ∈ seg :: segs, s.InRange) → ∀ s ∈ segs, s.InRange :=
        fun h s hs => h s (List.mem_cons_of_mem seg hs)
      refine ⟨block ++ blocks, globals'', ?_, ?_⟩
      · rw [List.map_cons, Segment.pair, formatSegments, hrun]
        exact congrArg (Option.bind · _) hruns
      · exact (hothers.mono hexact).after hblock (hemits.mono fun h => h seg List.mem_cons_self) hpacked

end Segments

/-! ### The S7 record -/

def execBytes (line : List Char) : List Int := ((hexBytes (line.drop 2)).drop 1).take 4

def addrBytes (addr : Int) : List Int :=
  [addr / 2 ^ 24 % 0x100, addr / 2 ^ 16 % 0x100, addr / 2 ^ 8 % 0x100, addr % 0x100]

/-- The text has an S7 record, and each one it has is sound and gives the address. -/
structure HasS7 (bufferList : List (List Char)) (addr : Int) : Prop where
  present : ∃ line ∈ bufferList, isS7 line
  checksum : ∀ line ∈ bufferList, isS7 line → ((hexBytes (line.drop 2)).sum + 1) % 0x100 = 0
  address : ∀ line ∈ bufferList, isS7 line → execBytes line = addrBytes addr

theorem hexDigit_range {c : Char} {d : Int} (h : hexDigit c = some d) : 0 ≤ d ∧ d ≤ 15 := by
  unfold hexDigit at h
  split at h
  · rename_i hc
    have hrange : 48 ≤ c.toNat ∧ c.toNat ≤ 57 := hc
    have hd := Option.some.inj h
    omega
  · split at h
    · rename_i hc
      have hrange : 97 ≤ c.toNat ∧ c.toNat ≤ 102 := hc
      have hd := Option.some.inj h
      omega
    · split at h
      · rename_i hc
        have hrange : 65 ≤ c.toNat ∧ c.toNat ≤ 70 := hc
        have hd := Option.some.inj h
        omega
      · cases h

theorem hexBytes_isByte (text : List Char) : ∀ b ∈ hexBytes text, IsByte b := by
  fun_induction hexBytes text with
  | case1 high low rest h l hhigh hlow ih =>
      intro b hb
      rcases List.mem_cons.1 hb with rfl | hrest
      · have hh := hexDigit_range hhigh
        have hl := hexDigit_range hlow
        constructor
        · omega
        · omega
      · exact ih b hrest
  | case2 high low rest _ ih => exact ih
  | case3 => simp

def s7Cmds (words left : Nat) (data : List Int) : List HbiCmd :=
  [.page 0x00, .write 0x16 1 data] ++ List.replicate (if left = 0 then words - 4 else left / 2 - 4) .nop

section S7

variable {words : Nat} {globals : ConverterGlobals} {hbi : HbiState} {left : Nat} {line : List Char}
  {s7 : List Int}

theorem formatS7Line_ok (h : GlobalsInv words false globals left hbi)
    (hs7 : formatS7Line line words globals.leftOverBytes = .ok s7) :
    (execBytes line).length = 4 ∧ s7 = encodeAll (s7Cmds words left (execBytes line)) := by
  have hleft := h.leftOver
  have heven := h.even
  have hroom := h.room
  unfold formatS7Line at hs7
  dsimp only at hs7
  split at hs7
  · cases hs7
  · split at hs7
    · rename_i _ count b3 b2 b1 b0 rest hbytes
      have hexec : execBytes line = [b3, b2, b1, b0] := by
        rw [execBytes, hbytes]
        rfl
      rw [hexec]
      have hcmds : encodeAll [.page 0x00, .write 0x16 1 [b3, b2, b1, b0]]
          = [0xFE, 0x00, 0x2C / 2, 0x81, b3, b2, b1, b0] := rfl
      refine ⟨rfl, ?_⟩
      rw [s7Cmds, encodeAll_append, hcmds, encodeAll_nops]
      split at hs7
      · have hpad : (globals.leftOverBytes - 8).toNat = 2 * (left / 2 - 4) := by omega
        rw [← Except.ok.inj hs7, if_neg (by omega), nopBytes, hpad]
      · have hnone : left = 0 := by omega
        have hpad : ((words : Int) * 2 - 8).toNat = 2 * (words - 4) := by omega
        rw [← Except.ok.inj hs7, if_pos hnone, hleft, hnone, nopBytes, nopBytes, hpad]
        rfl
    · cases hs7

theorem formatS7Line_formatted (hwords : 16 ≤ words) (h : GlobalsInv words false globals left hbi)
    (hs7 : formatS7Line line words globals.leftOverBytes = .ok s7) :
    Formatted words false True hbi left (writesAt 0x12C (execBytes line)) (s7, .initial) := by
  obtain ⟨hlen, rfl⟩ := formatS7Line_ok h hs7
  have heven := h.even
  have hroom := h.room
  have hbytes : ∀ b ∈ execBytes line, IsByte b := fun b hb =>
    hexBytes_isByte _ b (List.mem_of_mem_drop (List.mem_of_mem_take hb))
  have hselect : Emits True hbi [.page 0x00] [] := by
    refine ⟨?_, ⟨fun h => absurd rfl h, trivial⟩, fun _ => rfl, rfl⟩
    intro cmd hcmd
    rw [List.mem_singleton.1 hcmd]
    exact ⟨by decide, by decide⟩
  have hwrite : Emits True (hbi.afterAll [.page 0x00]) [.write 0x16 ((2 : Nat) - 1) (execBytes line)]
      (writesAt 0x12C (execBytes line)) :=
    emits_write hlen (by decide) hbytes (by decide) rfl (fun _ => rfl) rfl
  have hemits : Emits True hbi (s7Cmds words left (execBytes line)) (writesAt 0x12C (execBytes line)) :=
    (hselect.append hwrite).pad _
  have hstream : IsStream (encodeAll (s7Cmds words left (execBytes line))) := ⟨_, hemits.valid, rfl⟩
  have hfill : (encodeAll (s7Cmds words left (execBytes line))).length + 0 = roomFor (2 * words) left := by
    rw [s7Cmds, encodeAll_append, encodeAll_nops, roomFor]
    simp only [encodeAll_cons, encodeAll_nil, encode, List.length_append, List.length_cons,
      List.length_nil, List.length_replicate, hlen]
    split
    · omega
    · omega
  refine ⟨_, 0, rfl, hemits, ?_, globalsInv_initial words false _⟩
  intro out hout
  exact packed_stream hout hstream hfill

theorem formatS7Line_total (blockSize leftOverBytes : Int)
    (hsum : ((hexBytes (line.drop 2)).sum + 1) % 0x100 = 0) (hlen : (execBytes line).length = 4) :
    ∃ s7, formatS7Line line blockSize leftOverBytes = .ok s7 := by
  unfold execBytes at hlen
  unfold formatS7Line
  dsimp only
  rw [if_neg (not_not.2 hsum)]
  generalize hexBytes (line.drop 2) = splitLine at hlen ⊢
  rcases splitLine with _ | ⟨count, _ | ⟨b3, _ | ⟨b2, _ | ⟨b1, _ | ⟨b0, rest⟩⟩⟩⟩⟩
  all_goals simp at hlen
  dsimp only
  split
  · exact ⟨_, rfl⟩
  · exact ⟨_, rfl⟩

end S7

section S7Lines

variable {blockSize leftOverBytes : Int} {lines : List (List Char)}

theorem formatS7Lines_ok {acc : Option (List Int)} {s7 : List Int}
    (h : formatS7Lines blockSize leftOverBytes lines acc = .ok (some s7)) :
    acc = some s7 ∨
      ∃ line ∈ lines, isS7 line ∧ formatS7Line line blockSize leftOverBytes = .ok s7 := by
  induction lines generalizing acc with
  | nil => exact .inl (Except.ok.inj h)
  | cons line lines ih =>
      have hothers : (∃ l ∈ lines, isS7 l ∧ formatS7Line l blockSize leftOverBytes = .ok s7) →
          ∃ l ∈ line :: lines, isS7 l ∧ formatS7Line l blockSize leftOverBytes = .ok s7 := by
        intro hexists
        obtain ⟨l, hl, hrest⟩ := hexists
        exact ⟨l, List.mem_cons_of_mem line hl, hrest⟩
      rw [formatS7Lines] at h
      split at h
      · rename_i his
        cases hline : formatS7Line line blockSize leftOverBytes with
        | error e =>
            rw [hline] at h
            cases h
        | ok bytes =>
            rw [hline] at h
            rcases ih h with hacc | hold
            · exact .inr ⟨line, List.mem_cons_self, his, by rw [hline, Option.some.inj hacc]⟩
            · exact .inr (hothers hold)
      · exact (ih h).imp_right hothers

theorem formatS7Lines_total (acc : Option (List Int))
    (h : ∀ line ∈ lines, isS7 line → ∃ s7, formatS7Line line blockSize leftOverBytes = .ok s7) :
    ∃ acc', formatS7Lines blockSize leftOverBytes lines acc = .ok acc' ∧
      (acc ≠ none ∨ (∃ line ∈ lines, isS7 line) → acc' ≠ none) := by
  induction lines generalizing acc with
  | nil => exact ⟨acc, rfl, by simp⟩
  | cons line lines ih =>
      have hlines := fun l hl => h l (List.mem_cons_of_mem line hl)
      rw [formatS7Lines]
      split
      · rename_i his
        obtain ⟨s7, hs7⟩ := h line List.mem_cons_self his
        obtain ⟨acc', hrun, hsome⟩ := ih (some s7) hlines
        refine ⟨acc', ?_, fun _ => hsome (.inl (Option.some_ne_none s7))⟩
        rw [hs7]
        exact hrun
      · rename_i his
        obtain ⟨acc', hrun, hsome⟩ := ih acc hlines
        refine ⟨acc', hrun, ?_⟩
        intro hcases
        rcases hcases with hacc | ⟨l, hl, hl7⟩
        · exact hsome (.inl hacc)
        · rcases List.mem_cons.1 hl with rfl | hold
          · exact absurd hl7 his
          · exact hsome (.inr ⟨l, hold, hl7⟩)

theorem formatS7ToHbi_ok {s7 : List Int} (h : formatS7ToHbi lines blockSize leftOverBytes = .ok s7) :
    ∃ line ∈ lines, isS7 line ∧ formatS7Line line blockSize leftOverBytes = .ok s7 := by
  unfold formatS7ToHbi at h
  cases hlines : formatS7Lines blockSize leftOverBytes lines.reverse none with
  | error e =>
      rw [hlines] at h
      cases h
  | ok acc =>
      rw [hlines] at h
      cases acc with
      | none => cases h
      | some bytes =>
          have hbytes : bytes = s7 := Except.ok.inj h
          rw [hbytes] at hlines
          obtain ⟨line, hline, hrest⟩ := (formatS7Lines_ok hlines).resolve_left (by simp)
          exact ⟨line, List.mem_reverse.1 hline, hrest⟩

theorem HasS7.total {addr : Int} (h : HasS7 lines addr) :
    ∃ s7, formatS7ToHbi lines blockSize leftOverBytes = .ok s7 := by
  have hline : ∀ line ∈ lines.reverse, isS7 line →
      ∃ s7, formatS7Line line blockSize leftOverBytes = .ok s7 := by
    intro line hmem his
    have hline := List.mem_reverse.1 hmem
    apply formatS7Line_total _ _ (h.checksum line hline his)
    rw [h.address line hline his]
    rfl
  obtain ⟨acc, hrun, hsome⟩ := formatS7Lines_total none hline
  obtain ⟨line, hmem, his⟩ := h.present
  cases acc with
  | none => exact absurd rfl (hsome (.inr ⟨line, List.mem_reverse.2 hmem, his⟩))
  | some s7 =>
      refine ⟨s7, ?_⟩
      rw [formatS7ToHbi, hrun]
      rfl

end S7Lines

/-! ### The text of an S7 record -/

def hexChar (d : Nat) : Char := Char.ofNat (if d < 10 then 48 + d else 55 + d)

def hexPair (b : Nat) : List Char := [hexChar (b / 16), hexChar (b % 16)]

/-- The length and the address in the S7 record of an address. -/
def s7Fields (addr : Nat) : List Nat :=
  [5, addr / 2 ^ 24 % 256, addr / 2 ^ 16 % 256, addr / 2 ^ 8 % 256, addr % 256]

def s7Record (addr : Nat) : List Char :=
  'S' :: '7' :: (s7Fields addr ++ [255 - (s7Fields addr).sum % 256]).flatMap hexPair

theorem hexDigit_hexChar : ∀ d < 16, hexDigit (hexChar d) = some (d : Int) := by decide

theorem hexBytes_pairs {bytes : List Nat} (h : ∀ b ∈ bytes, b < 256) :
    hexBytes (bytes.flatMap hexPair) = bytes.map (fun b : Nat => (b : Int)) := by
  induction bytes with
  | nil => rfl
  | cons b bytes ih =>
      have hb := h b List.mem_cons_self
      have hhigh := hexDigit_hexChar (b / 16) (by omega)
      have hlow := hexDigit_hexChar (b % 16) (by omega)
      have hvalue : 16 * ((b / 16 : Nat) : Int) + ((b % 16 : Nat) : Int) = b := by omega
      rw [List.flatMap_cons, hexPair, List.cons_append, List.cons_append, List.nil_append, hexBytes,
        hhigh, hlow]
      dsimp only
      rw [hvalue, ih fun c hc => h c (List.mem_cons_of_mem b hc), List.map_cons]

theorem hexBytes_s7Record (addr : Nat) : hexBytes ((s7Record addr).drop 2)
    = (s7Fields addr ++ [255 - (s7Fields addr).sum % 256]).map (fun b : Nat => (b : Int)) := by
  apply hexBytes_pairs
  intro b hb
  rcases List.mem_append.1 hb with hfield | hsum
  · simp only [s7Fields, List.mem_cons, List.not_mem_nil, or_false] at hfield
    omega
  · rw [List.mem_singleton.1 hsum]
    omega

theorem hasS7_s7Record (addr : Nat) : HasS7 [s7Record addr] addr := by
  refine ⟨⟨_, List.mem_cons_self, rfl⟩, ?_, ?_⟩
  · intro line hline _
    rw [List.mem_singleton.1 hline, hexBytes_s7Record]
    simp only [s7Fields, List.cons_append, List.nil_append, List.map_cons, List.map_nil, List.sum_cons,
      List.sum_nil]
    omega
  · intro line hline _
    rw [List.mem_singleton.1 hline, execBytes, hexBytes_s7Record]
    simp [s7Fields, addrBytes]

/-! ### Whole images -/

/-- The payload of an image holds on its own: it is cut into whole chunks of `size` bytes, each is
complete commands, and no write leaves its window. -/
structure StandsAlone (size : Nat) (payload : List Int) : Prop where
  multiple : size ∣ payload.length
  chunk : ∀ chunk ∈ pieces size (payload.length / size) payload, ∃ cmds, parse chunk = some cmds ∧
    (∀ cmd ∈ cmds, cmd.Valid) ∧ ∀ cmd ∈ cmds, ∀ count, cmd.countField = some count → 0 ≤ count ∧ count ≤ 127
  window : ∃ cmds, parse payload = some cmds ∧ ∀ hbi : HbiState, hbi.InWindow cmds

theorem HbiCmd.Valid.count_range {cmd : HbiCmd} (h : cmd.Valid) {count : Int}
    (hcount : cmd.countField = some count) : 0 ≤ count ∧ count ≤ 127 := by
  cases cmd with
  | page p => cases hcount
  | base b3 b2 b1 b0 => cases hcount
  | nop => cases hcount
  | write offset c data =>
      cases hcount
      exact ⟨h.2.2.1, h.2.2.2.1⟩
  | cont c data =>
      cases hcount
      exact ⟨h.1, h.2.1⟩

section Image

variable {words fuel : Nat} {isConfig : Bool} {exact : Prop} {payload : List Int}
  {writes : List (Int × Int)}

theorem Formatted.read {P : List (Int × Int) → Prop}
    (h : ∀ hbi, ∃ writes, Formatted words isConfig exact hbi 0 writes (payload, .initial) ∧ P writes) :
    ∃ cmds, parse payload = some cmds ∧
      ∀ hbi : HbiState, hbi.InWindow cmds ∧ (exact → P (hbi.writesAll cmds)) := by
  have hread : ∀ hbi : HbiState, ∃ cmds, parse payload = some cmds ∧ hbi.InWindow cmds ∧
      (exact → P (hbi.writesAll cmds)) := by
    intro hbi
    obtain ⟨writes, ⟨cmds, _, hbytes, hemits, -⟩, hwrites⟩ := h hbi
    have hpayload : payload = encodeAll cmds := hbytes
    refine ⟨cmds, ?_, hemits.window, ?_⟩
    · rw [hpayload]
      exact parse_encodeAll hemits.valid
    · intro hexact
      rw [hemits.writes hexact]
      exact hwrites
  obtain ⟨cmds, hparse, -⟩ := hread ⟨0, 0, 0, 0⟩
  refine ⟨cmds, hparse, ?_⟩
  intro hbi
  obtain ⟨cmds', hparse', hrest⟩ := hread hbi
  rw [hparse] at hparse'
  rw [Option.some.inj hparse']
  exact hrest

theorem Formatted.standsAlone (hwords : 1 ≤ words)
    (h : ∀ hbi, ∃ writes, Formatted words isConfig exact hbi 0 writes (payload, .initial)) :
    StandsAlone (2 * words) payload := by
  have hany : ∀ hbi, ∃ writes, Formatted words isConfig exact hbi 0 writes (payload, .initial) ∧ True := by
    intro hbi
    obtain ⟨writes, hwrites⟩ := h hbi
    exact ⟨writes, hwrites, trivial⟩
  obtain ⟨cmds, hparse, hcmds⟩ := Formatted.read hany
  obtain ⟨_, _, left', -, -, hpacked, hglobals⟩ := h ⟨0, 0, 0, 0⟩
  have hdone : left' = 0 := by
    have hleft : (0 : Int) = left' := hglobals.leftOver
    omega
  have hfull := hpacked [] (packed_nil isStream_nil)
  rw [hdone, List.nil_append] at hfull
  obtain ⟨n, hlen, hchunks⟩ := hfull.chunks
  have hnum : payload.length / (2 * words) = n := by
    have hlen' : payload.length = n * (2 * words) := hlen
    rw [hlen']
    exact Nat.mul_div_cancel n (by omega)
  refine ⟨⟨n, ?_⟩, ?_, cmds, hparse, fun hbi => (hcmds hbi).1⟩
  · rw [Nat.mul_comm]
    exact hlen
  · rw [hnum]
    intro chunk hchunk
    obtain ⟨chunkCmds, hvalid, rfl⟩ := hchunks chunk hchunk
    exact ⟨chunkCmds, parse_encodeAll hvalid, hvalid, fun cmd hcmd _ => (hvalid cmd hcmd).count_range⟩

theorem generateFwImage_formatted (segs : List Segment) {headerBytes : List Int}
    (bufferList : List (List Char)) (fwOpn : Int) (hbi : HbiState) (hwords : 16 ≤ words ∧ words ≤ 128)
    (hheader : headerBytes.length = 216) (hbytes : ∀ b ∈ headerBytes, IsByte b)
    (hfuel : ∀ seg ∈ segs, seg.bytes.length ≤ fuel) (hfuel' : 216 ≤ fuel) :
    ∃ result globals, generateFwImage fuel (segs.map Segment.pair) headerBytes bufferList fwOpn words
        .initial = some (result, globals) ∧
      ((∃ addr, HasS7 bufferList addr) → ∃ image, result = .ok image) ∧
      ∀ image, result = .ok image → globals = .initial ∧ ∃ line ∈ bufferList, isS7 line ∧
        Formatted words false (∀ seg ∈ segs, seg.InRange) hbi 0
          (segs.flatMap Segment.writes ++
            (writesAt 0x00080128 headerBytes ++ writesAt 0x12C (execBytes line)))
          (image.drop 12, .initial) := by
  have hfw : ∀ {seg : Segment}, false = true → seg.Paged := fun h => absurd h (by decide)
  have heven : headerBytes.length % 2 = 0 := by rw [hheader]
  obtain ⟨blocks, g, hrun, cmds, left, hblocks, hemits, hpacked, hg⟩ := formatSegments_run segs hwords
    (fun _ _ => hfw) hfuel (globalsInv_initial words false hbi)
  obtain ⟨blocks', g', hrun', cmds', left', hblocks', hemits', hpacked', hg'⟩ := formatSegmentToHbi_run
    ⟨0x00080128, headerBytes, by decide, heven, hbytes⟩ hwords hfw fuel (by rw [hheader]; exact hfuel') hg
  have hrange : (∀ seg ∈ segs, seg.InRange) →
      (0 : Int) ≤ 0x00080128 ∧ 0x00080128 + (headerBytes.length : Int) ≤ 2 ^ 32 := by
    intro _
    rw [hheader]
    decide
  unfold generateFwImage
  rw [hrun, Option.bind_eq_bind, Option.bind_some]
  dsimp only at hrun' ⊢
  rw [hrun', Option.bind_some]
  dsimp only
  cases hs7 : formatS7ToHbi bufferList words g'.leftOverBytes with
  | error e =>
      refine ⟨.error e, g', rfl, ?_, ?_⟩
      · intro hexists
        obtain ⟨addr, hrecord⟩ := hexists
        have htotal : ∃ s7, formatS7ToHbi bufferList words g'.leftOverBytes = .ok s7 := hrecord.total
        obtain ⟨s7, hok⟩ := htotal
        rw [hs7] at hok
        cases hok
      · intro image himage
        cases himage
  | ok s7 =>
      refine ⟨_, _, rfl, fun _ => ⟨_, rfl⟩, ?_⟩
      intro image himage
      obtain ⟨line, hline, his, hok⟩ := formatS7ToHbi_ok hs7
      have hlast := formatS7Line_formatted hwords.1 hg' hok
      have hall := ((hlast.mono fun _ => trivial).after hblocks' (hemits'.mono hrange) hpacked').after
        hblocks hemits hpacked
      refine ⟨rfl, line, hline, his, ?_⟩
      rw [← Except.ok.inj himage, List.append_assoc blocks]
      exact hall

/-- `GenerateFwFile` from the segments on: it ends, and with an S7 record in an image that writes the
segments, the S3 header and the execution address of a record. -/
theorem generateFwImage_run (segs : List Segment) {headerBytes : List Int}
    (bufferList : List (List Char)) (fwOpn : Int) (hwords : 16 ≤ words ∧ words ≤ 128)
    (hheader : headerBytes.length = 216) (hbytes : ∀ b ∈ headerBytes, IsByte b)
    (hfuel : ∀ seg ∈ segs, seg.bytes.length ≤ fuel) (hfuel' : 216 ≤ fuel) :
    ∃ result globals, generateFwImage fuel (segs.map Segment.pair) headerBytes bufferList fwOpn words
        .initial = some (result, globals) ∧
      ((∃ addr, HasS7 bufferList addr) → ∃ image, result = .ok image) ∧
      ∀ image, result = .ok image → globals = .initial ∧ ∀ hbi, ∃ line ∈ bufferList, isS7 line ∧
        Formatted words false (∀ seg ∈ segs, seg.InRange) hbi 0
          (segs.flatMap Segment.writes ++
            (writesAt 0x00080128 headerBytes ++ writesAt 0x12C (execBytes line)))
          (image.drop 12, .initial) := by
  have hrun := fun hbi => generateFwImage_formatted segs bufferList fwOpn hbi hwords hheader hbytes hfuel
    hfuel'
  obtain ⟨result, globals, hgen, hok, -⟩ := hrun ⟨0, 0, 0, 0⟩
  refine ⟨result, globals, hgen, hok, ?_⟩
  intro image himage
  have hread : ∀ hbi, globals = .initial ∧ ∃ line ∈ bufferList, isS7 line ∧ Formatted words false
      (∀ seg ∈ segs, seg.InRange) hbi 0 (segs.flatMap Segment.writes ++
        (writesAt 0x00080128 headerBytes ++ writesAt 0x12C (execBytes line)))
      (image.drop 12, .initial) := by
    intro hbi
    obtain ⟨result', globals', hgen', -, hread⟩ := hrun hbi
    rw [hgen] at hgen'
    cases hgen'
    exact hread image himage
  exact ⟨(hread ⟨0, 0, 0, 0⟩).1, fun hbi => (hread hbi).2⟩

theorem generateConfigImage_run (segs : List Segment) (hbi : HbiState)
    (hwords : 16 ≤ words ∧ words ≤ 128) (hpaged : ∀ seg ∈ segs, seg.Paged)
    (hfuel : ∀ seg ∈ segs, seg.bytes.length ≤ fuel) :
    ∃ image, generateConfigImage fuel (segs.map Segment.pair) words .initial
        = some (image, .initial) ∧
      Formatted words true (∀ seg ∈ segs, seg.InRange) hbi 0 (segs.flatMap Segment.writes)
        (image.drop 12, .initial) := by
  obtain ⟨blocks, g, hrun, cmds, left, hblocks, hemits, hpacked, hg⟩ := formatSegments_run segs hwords
    (fun seg hseg _ => hpaged seg hseg) hfuel (globalsInv_initial words true hbi)
  have hpad : nopBytes g.leftOverBytes = encodeAll (List.replicate (left / 2) .nop) := by
    have hleft : g.leftOverBytes = left := hg.leftOver
    have heven := hg.even
    rw [hleft, encodeAll_nops, nopBytes, Int.toNat_natCast]
    congr 1
    omega
  have hlast : Formatted words true (∀ seg ∈ segs, seg.InRange) (hbi.afterAll cmds) left []
      (nopBytes g.leftOverBytes, .initial) := by
    refine ⟨_, 0, hpad, emits_nops _, ?_, globalsInv_initial words true _⟩
    intro out hout
    have hlen : (nopBytes g.leftOverBytes).length = left := by
      rw [nopBytes, List.length_replicate, hg.leftOver, Int.toNat_natCast]
    by_cases hnone : left = 0
    · have hnil : nopBytes g.leftOverBytes = [] := List.eq_nil_of_length_eq_zero (hlen.trans hnone)
      rw [hnil, List.append_nil, ← hnone]
      exact hout
    · have hfill : (nopBytes g.leftOverBytes).length + 0 = roomFor (2 * words) left := by
        rw [roomFor, if_neg hnone]
        exact hlen
      have hnops : Emits True hbi (List.replicate (left / 2) .nop) [] := emits_nops _
      have hstream : IsStream (nopBytes g.leftOverBytes) := ⟨_, hnops.valid, hpad⟩
      exact packed_stream hout hstream hfill
  have hall := hlast.after hblocks hemits hpacked
  rw [List.append_nil] at hall
  refine ⟨imageHeader imgHdrConfig 0 words (blocks ++ nopBytes g.leftOverBytes).length ++
    (blocks ++ nopBytes g.leftOverBytes), ?_, hall⟩
  rw [generateConfigImage, hrun]
  rfl

end Image

theorem isByte_zeros {n : Nat} : ∀ b ∈ List.replicate n (0 : Int), IsByte b := by
  intro b hb
  rw [List.eq_of_mem_replicate hb]
  exact ⟨by decide, by decide⟩

/-- A firmware image performs the writes of its segments, of the S3 header and of the execution address,
in this order and no others. -/
theorem firmware_image_writes (segs : List Segment) (headerBytes : List Int)
    (bufferList : List (List Char)) (fwOpn addr : Int) (k fuel : Nat)
    (hrange : ∀ seg ∈ segs, seg.InRange) (hheader : headerBytes.length = 216)
    (hbytes : ∀ b ∈ headerBytes, IsByte b) (hs7 : HasS7 bufferList addr) (hk : 1 ≤ k ∧ k ≤ 8)
    (hfuel : ∀ seg ∈ segs, seg.bytes.length ≤ fuel) (hfuel' : 216 ≤ fuel) :
    ∃ image cmds, generateFwImage fuel (segs.map Segment.pair) headerBytes bufferList fwOpn
        ((16 * k : Nat) : Int) .initial = some (.ok image, .initial) ∧
      parse (image.drop 12) = some cmds ∧
      ∀ hbi : HbiState, hbi.writesAll cmds = segs.flatMap Segment.writes ++
        (writesAt 0x00080128 headerBytes ++ writesAt 0x12C (addrBytes addr)) := by
  obtain ⟨result, globals, hgen, hok, hread⟩ := generateFwImage_run segs bufferList fwOpn
    (show 16 ≤ 16 * k ∧ 16 * k ≤ 128 by omega) hheader hbytes hfuel hfuel'
  obtain ⟨image, rfl⟩ := hok ⟨addr, hs7⟩
  obtain ⟨rfl, hformatted⟩ := hread image rfl
  have hwrites : ∀ hbi, ∃ writes, Formatted (16 * k) false (∀ seg ∈ segs, seg.InRange) hbi 0 writes
      (image.drop 12, .initial) ∧ writes = segs.flatMap Segment.writes ++
        (writesAt 0x00080128 headerBytes ++ writesAt 0x12C (addrBytes addr)) := by
    intro hbi
    obtain ⟨line, hline, his, hformatted⟩ := hformatted hbi
    exact ⟨_, hformatted, by rw [hs7.address line hline his]⟩
  obtain ⟨cmds, hparse, hcmds⟩ := Formatted.read hwrites
  exact ⟨image, cmds, hgen, hparse, fun hbi => (hcmds hbi).2 hrange⟩

theorem firmware_image_writes_oneWord : ∃ image cmds,
    generateFwImage 216 [(0x00200000, [0x12, 0x34])] (List.replicate 216 0) [s7Record 0x00200000] 38040 16
        .initial = some (.ok image, .initial) ∧
      parse (image.drop 12) = some cmds ∧
      ∀ hbi : HbiState, hbi.writesAll cmds = [(0x00200000, 0x12), (0x00200001, 0x34)] ++
        (writesAt 0x00080128 (List.replicate 216 0) ++
          [(0x12C, 0x00), (0x12D, 0x20), (0x12E, 0x00), (0x12F, 0x00)]) :=
  firmware_image_writes [⟨0x00200000, [0x12, 0x34], by decide, by decide, by simp [IsByte]⟩]
    (List.replicate 216 0) [s7Record 0x00200000] 38040 0x00200000 1 216 (by simp [Segment.InRange])
    List.length_replicate isByte_zeros (hasS7_s7Record 0x00200000) (by decide) (by simp) (by decide)

/-- The payload of every converted image stands on its own, in chunks of the block size. -/
theorem images_stand_alone (k : Nat) (hk : 1 ≤ k ∧ k ≤ 8) :
    (∀ (segs : List Segment) (headerBytes : List Int) (bufferList : List (List Char)) (fwOpn : Int)
        (fuel : Nat), headerBytes.length = 216 → (∀ b ∈ headerBytes, IsByte b) →
        (∀ seg ∈ segs, seg.bytes.length ≤ fuel) → 216 ≤ fuel →
      ∃ result globals, generateFwImage fuel (segs.map Segment.pair) headerBytes bufferList fwOpn
          ((16 * k : Nat) : Int) .initial = some (result, globals) ∧
        ((∃ addr, HasS7 bufferList addr) → ∃ image, result = .ok image) ∧
        ∀ image, result = .ok image → StandsAlone (2 * (16 * k)) (image.drop 12)) ∧
    ∀ (segs : List Segment) (fuel : Nat), (∀ seg ∈ segs, seg.Paged) →
        (∀ seg ∈ segs, seg.bytes.length ≤ fuel) →
      ∃ image, generateConfigImage fuel (segs.map Segment.pair) ((16 * k : Nat) : Int) .initial
          = some (image, .initial) ∧ StandsAlone (2 * (16 * k)) (image.drop 12) := by
  have hwords : 16 ≤ 16 * k ∧ 16 * k ≤ 128 := by omega
  constructor
  · intro segs headerBytes bufferList fwOpn fuel hheader hbytes hfuel hfuel'
    obtain ⟨result, globals, hgen, hok, hread⟩ := generateFwImage_run segs bufferList fwOpn hwords hheader
      hbytes hfuel hfuel'
    refine ⟨result, globals, hgen, hok, ?_⟩
    intro image himage
    apply Formatted.standsAlone (by omega)
    intro hbi
    obtain ⟨line, -, -, hformatted⟩ := (hread image himage).2 hbi
    exact ⟨_, hformatted⟩
  · intro segs fuel hpaged hfuel
    have hrun := fun hbi => generateConfigImage_run segs hbi hwords hpaged hfuel
    obtain ⟨image, hgen, -⟩ := hrun ⟨0, 0, 0, 0⟩
    refine ⟨image, hgen, ?_⟩
    apply Formatted.standsAlone (by omega)
    intro hbi
    obtain ⟨image', hgen', hformatted⟩ := hrun hbi
    rw [hgen] at hgen'
    cases hgen'
    exact ⟨_, hformatted⟩

theorem images_stand_alone_oneWord :
    (∃ image globals, generateFwImage 216 [(0x00200000, [0x12, 0x34])] (List.replicate 216 0)
        [s7Record 0x00200000] 38040 16 .initial = some (.ok image, globals) ∧
      StandsAlone 32 (image.drop 12)) ∧
    ∃ image, generateConfigImage 2 [(0x200, [0x12, 0x34])] 16 .initial = some (image, .initial) ∧
      StandsAlone 32 (image.drop 12) := by
  obtain ⟨hfirmware, hconfig⟩ := images_stand_alone 1 (by decide)
  constructor
  · obtain ⟨result, globals, hgen, hok, hread⟩ := hfirmware
      [⟨0x00200000, [0x12, 0x34], by decide, by decide, by simp [IsByte]⟩] (List.replicate 216 0)
      [s7Record 0x00200000] 38040 216 List.length_replicate isByte_zeros (by simp) (by decide)
    obtain ⟨image, rfl⟩ := hok ⟨_, hasS7_s7Record 0x00200000⟩
    exact ⟨image, globals, hgen, hread image rfl⟩
  · exact hconfig [⟨0x200, [0x12, 0x34], by decide, by decide, by simp [IsByte]⟩] 2
      (by simp [Segment.Paged]) (by simp)

end VprocSdk
