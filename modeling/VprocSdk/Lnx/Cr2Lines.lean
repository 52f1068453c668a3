import Mathlib.Data.List.TakeWhile
import VprocSdk.Image.HeaderCodec
import VprocSdk.Lnx.ProcText

/-!
# The lines of a configuration record

A configuration record is read by three programs. The script and the converter look for a pattern at the
starts of lines; the driver goes over the lines and has `sscanf` read each. A line gives a register its value,
is a comment, or is blank, and on such lines both readers find the same registers and values, but for one
thing: the pattern begins behind the white space and `sscanf` skips it, and so the driver finds what follows a
blank line from that line too, and writes it twice.
-/

namespace VprocSdk

open Lib

/-! ### Lines -/

def isBlank (c : Char) : Bool := c = ' ' || c = '\t' || c = '\r'

/-- A character of a text file, which is a byte and ends no line. -/
def InLine (c : Char) : Prop := c.toNat < 256 ∧ c ≠ '\n'

instance (c : Char) : Decidable (InLine c) := inferInstanceAs (Decidable (_ ∧ _))

/-- A register and its value with a character between them, and what else the line holds. -/
structure Cr2Entry where
  indent : List Char
  addr : List Char
  gap : List Char
  sep : Char
  gap' : List Char
  data : List Char
  note : List Char
  indent_blank : ∀ c ∈ indent, isBlank c = true
  addr_ne : addr ≠ []
  addr_hex : ∀ c ∈ addr, isHex c = true
  gap_blank : ∀ c ∈ gap, isBlank c = true
  sep_plain : 0x20 < sep.toNat ∧ sep.toNat < 0x80 ∧ isHex sep = false
  gap'_blank : ∀ c ∈ gap', isBlank c = true
  data_ne : data ≠ []
  data_hex : ∀ c ∈ data, isHex c = true
  note_inLine : ∀ c ∈ note, InLine c
  note_apart : ∀ c ∈ note.head?, isHex c = false ∧ c ≠ 'x'
  note_plain : lastLiteral note = none

inductive Cr2Line
  | entry (e : Cr2Entry)
  | comment (indent text : List Char) (hindent : ∀ c ∈ indent, isBlank c = true) (htext : ∀ c ∈ text, InLine c)
  | blank (space : List Char) (hspace : ∀ c ∈ space, isBlank c = true)

namespace Cr2Entry

/-- What stands between the two numbers. -/
def between (e : Cr2Entry) : List Char := e.gap ++ e.sep :: e.gap'

/-- The value and the rest of the line. -/
def rest (e : Cr2Entry) : List Char := '0' :: 'x' :: (e.data ++ e.note)

def text (e : Cr2Entry) : List Char := '0' :: 'x' :: (e.addr ++ (e.between ++ e.rest))

def record (e : Cr2Entry) : Int × Int := (hexValue e.addr, hexValue e.data)

end Cr2Entry

namespace Cr2Line

def text : Cr2Line → List Char
  | .entry e => e.indent ++ e.text
  | .comment indent text _ _ => indent ++ ';' :: text
  | .blank space _ => space

def record : Cr2Line → Option (Int × Int)
  | .entry e => some e.record
  | .comment _ _ _ _ | .blank _ _ => none

end Cr2Line

def fileText (lines : List Cr2Line) : List Char := lines.flatMap fun line => line.text ++ ['\n']

def fileRecords (lines : List Cr2Line) : List (Int × Int) := lines.filterMap Cr2Line.record

/-! ### The pattern -/

section Pattern

theorem takeWhile_stop {α : Type} {p : α → Bool} {xs rest : List α} (hxs : ∀ x ∈ xs, p x = true)
    (hrest : ∀ x ∈ rest.head?, p x = false) : (xs ++ rest).takeWhile p = xs := by
  rw [List.takeWhile_append_of_pos hxs]
  cases rest with
  | nil => exact List.append_nil xs
  | cons x rest => rw [List.takeWhile_cons_of_neg (by rw [hrest x rfl]; exact Bool.false_ne_true), List.append_nil]

theorem dropWhile_stop {α : Type} {p : α → Bool} {xs rest : List α} (hxs : ∀ x ∈ xs, p x = true)
    (hrest : ∀ x ∈ rest.head?, p x = false) : (xs ++ rest).dropWhile p = rest := by
  rw [List.dropWhile_append_of_pos hxs]
  cases rest with
  | nil => rfl
  | cons x rest => rw [List.dropWhile_cons_of_neg (by rw [hrest x rfl]; exact Bool.false_ne_true)]

theorem isBlank_cases {c : Char} (h : isBlank c = true) : c = ' ' ∨ c = '\t' ∨ c = '\r' := by
  simp only [isBlank, Bool.or_eq_true, decide_eq_true_eq] at h
  exact or_assoc.1 h

theorem isSpace_of_isBlank {c : Char} (h : isBlank c = true) : isSpace c = true := by
  rcases isBlank_cases h with rfl | rfl | rfl <;> rfl

theorem isHex_of_isBlank {c : Char} (h : isBlank c = true) : isHex c = false := by
  rcases isBlank_cases h with rfl | rfl | rfl <;> rfl

theorem lastLiteral_cons {c : Char} {rest : List Char} (hrest : lastLiteral rest = none)
    (hc : c ≠ '0' ∨ ∀ d ∈ rest.head?, d ≠ 'x') : lastLiteral (c :: rest) = none := by
  have hliteral : hexLiteral (c :: rest) = none := by
    unfold hexLiteral
    split
    · next heq =>
        cases heq
        exact hc.elim (fun h => absurd rfl h) fun h => absurd rfl (h 'x' rfl)
    · rfl
  rw [lastLiteral, hrest, hliteral]
  rfl

theorem lastLiteral_digits {digits note : List Char} (hdigits : ∀ c ∈ digits, isHex c = true)
    (hapart : ∀ c ∈ note.head?, isHex c = false ∧ c ≠ 'x') (hnote : lastLiteral note = none) :
    lastLiteral (digits ++ note) = none := by
  induction digits with
  | nil => exact hnote
  | cons c digits ih =>
      have hothers := fun d hd => hdigits d (List.mem_cons_of_mem c hd)
      refine lastLiteral_cons (ih hothers) (.inr ?_)
      cases digits with
      | nil => exact fun d hd => (hapart d hd).2
      | cons d digits =>
          intro d' hd'
          obtain rfl : d = d' := Option.some.inj hd'
          rintro rfl
          exact absurd (hothers 'x' List.mem_cons_self) (by decide)

theorem lastLiteral_append (front : List Char) {rest : List Char} {at' : Nat} {digits : List Char}
    (h : lastLiteral rest = some (at', digits)) :
    lastLiteral (front ++ rest) = some (front.length + at', digits) := by
  induction front with
  | nil => rw [List.nil_append, List.length_nil, Nat.zero_add, h]
  | cons c front ih =>
      rw [List.cons_append, lastLiteral, ih, List.length_cons]
      exact congrArg (fun n => some (n, digits)) (by omega)

theorem Cr2Entry.lastLiteral_rest (e : Cr2Entry) : lastLiteral e.rest = some (0, e.data) := by
  have hdata := lastLiteral_digits e.data_hex e.note_apart e.note_plain
  have hx : lastLiteral ('x' :: (e.data ++ e.note)) = none := lastLiteral_cons hdata (.inl (by decide))
  have htake : (e.data ++ e.note).takeWhile isHex = e.data :=
    takeWhile_stop e.data_hex fun c hc => (e.note_apart c hc).1
  rw [rest, lastLiteral, hx]
  show (hexLiteral ('0' :: 'x' :: (e.data ++ e.note))).map _ = _
  rw [hexLiteral, htake, if_neg e.data_ne]
  rfl

theorem Cr2Entry.between_inLine (e : Cr2Entry) : ∀ c ∈ e.between, InLine c := by
  have hblank : ∀ c, isBlank c = true → InLine c := by
    intro c hc
    rcases isBlank_cases hc with rfl | rfl | rfl <;> exact ⟨by decide, by decide⟩
  intro c hc
  rcases List.mem_append.1 hc with hgap | hsep
  · exact hblank c (e.gap_blank c hgap)
  · rcases List.mem_cons.1 hsep with rfl | hgap
    · obtain ⟨hlow, hhigh, -⟩ := e.sep_plain
      refine ⟨by omega, ?_⟩
      rintro heq
      rw [heq] at hlow
      exact absurd hlow (by decide)
    · exact hblank c (e.gap'_blank c hgap)

theorem inLine_of_isHex {c : Char} (h : isHex c = true) : InLine c := by
  rcases isHex_cases h with ⟨hlow, hhigh, -⟩ | ⟨hlow, hhigh, -⟩ | ⟨hlow, hhigh, -⟩
  all_goals
    refine ⟨by omega, ?_⟩
    rintro rfl
    exact absurd hlow (by decide)

theorem Cr2Entry.rest_inLine (e : Cr2Entry) : ∀ c ∈ e.rest, InLine c := by
  intro c hc
  simp only [rest, List.mem_cons, List.mem_append] at hc
  rcases hc with rfl | rfl | hdata | hnote
  · exact ⟨by decide, by decide⟩
  · exact ⟨by decide, by decide⟩
  · exact inLine_of_isHex (e.data_hex c hdata)
  · exact e.note_inLine c hnote

/-- The number of characters the pattern takes of a line behind its indentation. -/
def Cr2Entry.matched (e : Cr2Entry) : Nat := 2 + (e.addr.length + (e.between.length + (2 + e.data.length)))

theorem Cr2Entry.matchDigits_eq (e : Cr2Entry) (more : List Char) :
    matchDigits (e.addr ++ (e.between ++ (e.rest ++ '\n' :: more))) e.addr.length
      = some ⟨hexValue e.addr, hexValue e.data, e.addr.length + (e.between.length + (2 + e.data.length))⟩ := by
  obtain ⟨n, hn⟩ : ∃ n, e.addr.length = n + 1 :=
    Nat.exists_eq_succ_of_ne_zero fun h => e.addr_ne (List.eq_nil_of_length_eq_zero h)
  have hline : ((e.between ++ e.rest) ++ '\n' :: more).takeWhile (fun c => c ≠ '\n') = e.between ++ e.rest := by
    apply takeWhile_stop
    · intro c hc
      exact decide_eq_true ((List.mem_append.1 hc).elim (e.between_inLine c) (e.rest_inLine c)).2
    · rintro c hc
      obtain rfl : '\n' = c := Option.some.inj hc
      rfl
  have hdrop : (e.addr ++ (e.between ++ (e.rest ++ '\n' :: more))).drop (n + 1)
      = (e.between ++ e.rest) ++ '\n' :: more := by
    rw [← hn, List.drop_left, List.append_assoc]
  have htake : (e.addr ++ (e.between ++ (e.rest ++ '\n' :: more))).take (n + 1) = e.addr := by
    rw [← hn, List.take_left]
  rw [hn, matchDigits, hdrop, htake, hline, lastLiteral_append _ e.lastLiteral_rest]
  exact congrArg (fun k => some (RecordMatch.mk _ _ k)) (by omega)

theorem Cr2Entry.between_head (e : Cr2Entry) (more : List Char) :
    ∀ c ∈ (e.between ++ more).head?, isHex c = false := by
  intro c hc
  unfold between at hc
  cases hgap : e.gap with
  | nil =>
      rw [hgap] at hc
      obtain rfl : e.sep = c := Option.some.inj hc
      exact e.sep_plain.2.2
  | cons d gap =>
      rw [hgap] at hc
      obtain rfl : d = c := Option.some.inj hc
      exact isHex_of_isBlank (e.gap_blank d (by rw [hgap]; exact List.mem_cons_self))

theorem Cr2Entry.matchRecord_eq (e : Cr2Entry) {space : List Char} (hspace : ∀ c ∈ space, isSpace c = true)
    (more : List Char) : matchRecord (space ++ (e.text ++ '\n' :: more))
      = some ⟨hexValue e.addr, hexValue e.data, space.length + e.matched⟩ := by
  have hzero : ∀ c ∈ (e.text ++ '\n' :: more).head?, isSpace c = false := by
    intro c hc
    obtain rfl : '0' = c := Option.some.inj hc
    rfl
  have htext : e.text ++ '\n' :: more
      = '0' :: 'x' :: (e.addr ++ (e.between ++ (e.rest ++ '\n' :: more))) := by
    rw [text, List.cons_append, List.cons_append, List.append_assoc, List.append_assoc]
  have hdigits : (e.addr ++ (e.between ++ (e.rest ++ '\n' :: more))).takeWhile isHex = e.addr :=
    takeWhile_stop e.addr_hex (e.between_head _)
  rw [matchRecord, dropWhile_stop hspace hzero, takeWhile_stop hspace hzero, htext]
  show (matchDigits _ (List.takeWhile isHex _).length).map _ = _
  rw [hdigits, e.matchDigits_eq, Option.map_some, matched, Nat.add_assoc]

theorem findRecords_line {line : List Char} (hline : ∀ c ∈ line, c ≠ '\n') {skip : Nat}
    (hskip : skip ≤ line.length) (more : List Char) :
    findRecords skip false (line ++ '\n' :: more) = findRecords 0 true more := by
  induction line generalizing skip with
  | nil =>
      obtain rfl : skip = 0 := Nat.le_zero.1 hskip
      rfl
  | cons c line ih =>
      have hc : decide (c = '\n') = false := decide_eq_false (hline c List.mem_cons_self)
      have hothers := fun d hd => hline d (List.mem_cons_of_mem c hd)
      cases skip with
      | zero =>
          show findRecords 0 (decide (c = '\n')) (line ++ '\n' :: more) = _
          rw [hc]
          exact ih hothers (Nat.zero_le _)
      | succ skip =>
          show findRecords skip (decide (c = '\n')) (line ++ '\n' :: more) = _
          rw [hc]
          exact ih hothers (Nat.le_of_succ_le_succ hskip)

theorem findRecords_skip (front : List Char) (skip : Nat) (lineStart : Bool) (c : Char) (more : List Char) :
    findRecords (front.length + (skip + 1)) lineStart (front ++ c :: more)
      = findRecords skip (c = '\n') more := by
  induction front generalizing lineStart with
  | nil =>
      rw [List.nil_append, List.length_nil, Nat.zero_add]
      rfl
  | cons d front ih =>
      rw [List.length_cons, show front.length + 1 + (skip + 1) = front.length + (skip + 1) + 1 by omega]
      exact ih _

theorem findRecords_some {c : Char} {more : List Char} {m : RecordMatch}
    (h : matchRecord (c :: more) = some m) :
    findRecords 0 true (c :: more) = (m.addr, m.data) :: findRecords (m.length - 1) (c = '\n') more := by
  rw [findRecords, if_pos rfl, h]

theorem findRecords_none {lineStart : Bool} {c : Char} {more : List Char}
    (h : matchRecord (c :: more) = none) :
    findRecords 0 lineStart (c :: more) = findRecords 0 (c = '\n') more := by
  have hif : (if lineStart = true then matchRecord (c :: more) else none) = none := by
    cases lineStart with
    | true => exact h
    | false => rfl
  rw [findRecords, hif]

theorem findRecords_match {space line : List Char} {c : Char} {m : RecordMatch} (k : Nat) (more : List Char)
    (hmatch : matchRecord (space ++ (c :: line ++ '\n' :: more)) = some m) (hlength : m.length = space.length + (k + 1))
    (hline : ∀ d ∈ c :: line, d ≠ '\n') (hk : k ≤ line.length) :
    findRecords 0 true (space ++ (c :: line ++ '\n' :: more)) = (m.addr, m.data) :: findRecords 0 true more := by
  have hc : decide (c = '\n') = false := decide_eq_false (hline c List.mem_cons_self)
  have hrest := findRecords_line (fun d hd => hline d (List.mem_cons_of_mem c hd)) hk more
  cases space with
  | nil =>
      have hskip : m.length - 1 = k := by
        rw [hlength, List.length_nil]
        omega
      rw [List.nil_append, List.cons_append] at hmatch ⊢
      rw [findRecords_some hmatch, hskip, hc, hrest]
  | cons d space =>
      have hskip : m.length - 1 = space.length + (k + 1) := by
        rw [hlength, List.length_cons]
        omega
      rw [List.cons_append] at hmatch ⊢
      rw [findRecords_some hmatch, hskip, List.cons_append, findRecords_skip, hc, hrest]

theorem Cr2Entry.findRecords_eq (e : Cr2Entry) {space : List Char} (hspace : ∀ c ∈ space, isSpace c = true)
    (more : List Char) : findRecords 0 true (space ++ (e.text ++ '\n' :: more))
      = e.record :: findRecords 0 true more := by
  have hlen : e.text.length = e.matched + e.note.length := by
    simp only [text, rest, matched, List.length_cons, List.length_append]
    omega
  refine findRecords_match (e.matched - 1) more (e.matchRecord_eq hspace more) ?_ ?_ ?_
  · show space.length + e.matched = _
    rw [matched]
    omega
  · intro c hc
    simp only [List.mem_cons, List.mem_append] at hc
    rcases hc with rfl | rfl | haddr | hbetween | hrest
    · decide
    · decide
    · exact (inLine_of_isHex (e.addr_hex c haddr)).2
    · exact (e.between_inLine c hbetween).2
    · exact (e.rest_inLine c hrest).2
  · rw [text, List.length_cons] at hlen
    omega

/-- No match begins in white space before a comment, and none in the comment. -/
theorem findRecords_comment {space text : List Char} (hspace : ∀ c ∈ space, isSpace c = true)
    (htext : ∀ c ∈ text, InLine c) (lineStart : Bool) (more : List Char) :
    findRecords 0 lineStart (space ++ (';' :: text ++ '\n' :: more)) = findRecords 0 true more := by
  have hnone : ∀ {space : List Char}, (∀ c ∈ space, isSpace c = true) →
      matchRecord (space ++ (';' :: text ++ '\n' :: more)) = none := by
    intro space hspace
    have hhead : ∀ c ∈ (';' :: text ++ '\n' :: more).head?, isSpace c = false := by
      intro c hc
      obtain rfl : ';' = c := Option.some.inj hc
      rfl
    rw [matchRecord, dropWhile_stop hspace hhead]
    rfl
  induction space generalizing lineStart with
  | nil =>
      refine (findRecords_none (hnone hspace)).trans ?_
      exact findRecords_line (fun c hc => (htext c hc).2) (Nat.zero_le _) more
  | cons c space ih =>
      refine (findRecords_none (hnone hspace)).trans ?_
      exact ih (fun d hd => hspace d (List.mem_cons_of_mem c hd)) _

theorem findRecords_space {space : List Char} (hspace : ∀ c ∈ space, isSpace c = true) (lineStart : Bool) :
    findRecords 0 lineStart space = [] := by
  induction space generalizing lineStart with
  | nil => rfl
  | cons c space ih =>
      have hnone : matchRecord (c :: space) = none := by
        rw [matchRecord, List.dropWhile_eq_nil_iff.2 hspace]
      rw [findRecords_none hnone]
      exact ih (fun d hd => hspace d (List.mem_cons_of_mem c hd)) _

/-- The pattern finds the registers and values of the lines, behind any white space. -/
theorem findRecords_lines (lines : List Cr2Line) {space : List Char} (hspace : ∀ c ∈ space, isSpace c = true) :
    findRecords 0 true (space ++ fileText lines) = fileRecords lines := by
  induction lines generalizing space with
  | nil =>
      rw [fileText, List.flatMap_nil, List.append_nil]
      exact findRecords_space hspace true
  | cons line lines ih =>
      have hwide : ∀ {blanks : List Char}, (∀ c ∈ blanks, isBlank c = true) →
          ∀ c ∈ space ++ blanks, isSpace c = true := by
        intro blanks hblanks c hc
        exact (List.mem_append.1 hc).elim (hspace c) fun h => isSpace_of_isBlank (hblanks c h)
      have hrest : findRecords 0 true (fileText lines) = fileRecords lines :=
        @ih [] (List.forall_mem_nil _)
      have htext : fileText (line :: lines) = line.text ++ '\n' :: fileText lines := by
        rw [fileText, List.flatMap_cons, List.append_assoc]
        rfl
      rw [htext]
      cases line with
      | entry e =>
          have hfound := e.findRecords_eq (hwide e.indent_blank) (fileText lines)
          rw [hrest, List.append_assoc] at hfound
          rw [Cr2Line.text, List.append_assoc]
          exact hfound
      | comment indent text hindent hinLine =>
          have hfound := findRecords_comment (hwide hindent) hinLine true (fileText lines)
          rw [hrest, List.append_assoc] at hfound
          rw [Cr2Line.text, List.append_assoc]
          exact hfound
      | blank blanks hblanks =>
          have hfound := @ih (space ++ blanks ++ ['\n']) ?_
          · rw [List.append_assoc, List.append_assoc] at hfound
            exact hfound
          · intro c hc
            rcases List.mem_append.1 hc with hc | hc
            · exact hwide hblanks c hc
            · obtain rfl := List.mem_singleton.1 hc
              rfl

/-- The script and the converter find the registers and values of the lines. -/
theorem cr2Records_fileText (lines : List Cr2Line) : cr2Records (fileText lines) = fileRecords lines :=
  @findRecords_lines lines [] (List.forall_mem_nil _)

end Pattern

/-! ### What the driver finds -/

/-- What `sscanf` finds from the start of a line on. -/
def foundFrom : List Cr2Line → Option (Int × Int)
  | [] => none
  | .entry e :: _ => some e.record
  | .comment _ _ _ _ :: _ => none
  | .blank _ _ :: lines => foundFrom lines

/-- The registers and values the driver finds, one line after another. -/
def driverRecords : List Cr2Line → List (Int × Int)
  | [] => []
  | line :: lines => (foundFrom (line :: lines)).toList ++ driverRecords lines

def Cr2Line.isBlankLine : Cr2Line → Bool
  | .blank _ _ => true
  | .entry _ | .comment _ _ _ _ => false

/-- The file does not end in a blank line, behind which `sscanf` would go on. -/
def EndsPlain (lines : List Cr2Line) : Prop := ∀ line ∈ lines.getLast?, line.isBlankLine = false

instance (lines : List Cr2Line) : Decidable (EndsPlain lines) :=
  inferInstanceAs (Decidable (∀ line ∈ lines.getLast?, _))

/-- The two writes of a record: the register number and its value, as `hbi_proc_wr_cfgrec` has them. -/
def writeRecords (handle : Nat) : List (Int × Int) → Nat → RegProg Nat
  | [], cfgrecSize => pure cfgrecSize
  | record :: records, cfgrecSize => do
      let reply ← Prog.query (.write handle (BitVec.ofInt 16 record.1) ((dataBytes record.2).map byteOf))
      writeRecords handle records (if reply.status = .success then cfgrecSize + 2 else cfgrecSize)

section Driver

theorem chr_toNat {c : Char} (h : c.toNat < 256) : (chr c).toNat = c.toNat := by
  rw [chr, BitVec.toNat_ofNat]
  exact Nat.mod_eq_of_lt h

theorem chr_inj {c d : Char} (hc : c.toNat < 256) (hd : d.toNat < 256) (h : chr c = chr d) : c = d := by
  have hnat := congrArg BitVec.toNat h
  rw [chr_toNat hc, chr_toNat hd] at hnat
  exact Char.toNat_inj.1 hnat

theorem InLine.chr_ne {c : Char} (h : InLine c) : chr c ≠ chr '\n' := fun heq =>
  h.2 (chr_inj h.1 (by decide) heq)

theorem isspace_of_isSpace {c : Char} (h : isBlank c = true ∨ c = '\n') : isspace (chr c) = true := by
  rcases h with h | rfl
  · rcases isBlank_cases h with rfl | rfl | rfl <;> decide
  · decide

theorem isxdigit_iff (c : Byte) : isxdigit c = true ↔
    48 ≤ c.toNat ∧ c.toNat ≤ 57 ∨ 97 ≤ c.toNat ∧ c.toNat ≤ 102 ∨ 65 ≤ c.toNat ∧ c.toNat ≤ 70 := by
  unfold isxdigit
  rw [decide_eq_true_eq]
  rfl

theorem isxdigit_chr {c : Char} (h : c.toNat < 256) : isxdigit (chr c) = isHex c := by
  have hle : ∀ {d d' : Char}, d ≤ d' ↔ d.toNat ≤ d'.toNat := by
    intro d d'
    rw [Char.le_def, UInt32.le_iff_toNat_le]
    rfl
  have hrange := isxdigit_iff (chr c)
  rw [chr_toNat h] at hrange
  rw [Bool.eq_iff_iff, hrange]
  constructor
  · intro hdigit
    unfold isHex hexDigit
    by_cases hlow : '0' ≤ c ∧ c ≤ '9'
    · rw [if_pos hlow]
      rfl
    · rw [if_neg hlow]
      by_cases hlower : 'a' ≤ c ∧ c ≤ 'f'
      · rw [if_pos hlower]
        rfl
      · rw [if_neg hlower]
        by_cases hupper : 'A' ≤ c ∧ c ≤ 'F'
        · rw [if_pos hupper]
          rfl
        · rw [hle, hle] at hlow hlower hupper
          have h0 : '0'.toNat = 48 ∧ '9'.toNat = 57 := ⟨rfl, rfl⟩
          have ha : 'a'.toNat = 97 ∧ 'f'.toNat = 102 := ⟨rfl, rfl⟩
          have hA : 'A'.toNat = 65 ∧ 'F'.toNat = 70 := ⟨rfl, rfl⟩
          omega
  · intro hhex
    rcases isHex_cases hhex with ⟨hlow, hhigh, -⟩ | ⟨hlow, hhigh, -⟩ | ⟨hlow, hhigh, -⟩
    · exact .inl ⟨hlow, hhigh⟩
    · exact .inr (.inl ⟨hlow, hhigh⟩)
    · exact .inr (.inr ⟨hlow, hhigh⟩)

theorem xdigitValue_ranges :
    (∀ n ∈ List.range' 48 10, xdigitValue (BitVec.ofNat 8 n) = BitVec.ofInt 32 ((n : Int) - 48)) ∧
    (∀ n ∈ List.range' 97 6, xdigitValue (BitVec.ofNat 8 n) = BitVec.ofInt 32 ((n : Int) - 87)) ∧
    ∀ n ∈ List.range' 65 6, xdigitValue (BitVec.ofNat 8 n) = BitVec.ofInt 32 ((n : Int) - 55) := by decide

theorem xdigitValue_chr {c : Char} (h : isHex c = true) :
    xdigitValue (chr c) = BitVec.ofInt 32 ((hexDigit c).getD 0) := by
  obtain ⟨hdigits, hlower, hupper⟩ := xdigitValue_ranges
  rcases isHex_cases h with ⟨hlow, hhigh, heq⟩ | ⟨hlow, hhigh, heq⟩ | ⟨hlow, hhigh, heq⟩
  · rw [heq]
    exact hdigits c.toNat (List.mem_range'_1.2 ⟨hlow, by omega⟩)
  · rw [heq]
    exact hlower c.toNat (List.mem_range'_1.2 ⟨hlow, by omega⟩)
  · rw [heq]
    exact hupper c.toNat (List.mem_range'_1.2 ⟨hlow, by omega⟩)

theorem foldl_xdigitValue {digits : List Char} (h : ∀ c ∈ digits, isHex c = true) (value : Int) :
    (digits.map chr).foldl (fun value c => value * 16 + xdigitValue c) (BitVec.ofInt 32 value)
      = BitVec.ofInt 32 (digits.foldl (fun value c => 16 * value + (hexDigit c).getD 0) value) := by
  induction digits generalizing value with
  | nil => rfl
  | cons c digits ih =>
      have hstep : BitVec.ofInt 32 value * 16 + xdigitValue (chr c)
          = BitVec.ofInt 32 (16 * value + (hexDigit c).getD 0) := by
        rw [xdigitValue_chr (h c List.mem_cons_self), BitVec.ofInt_add, BitVec.ofInt_mul, BitVec.mul_comm]
        rfl
      rw [List.map_cons, List.foldl_cons, List.foldl_cons, hstep]
      exact ih (fun d hd => h d (List.mem_cons_of_mem c hd)) _

theorem sscanfHex_number {space more : List Byte} {digits : List Char} (hspace : ∀ b ∈ space, isspace b = true)
    (hdigits : ∀ c ∈ digits, isHex c = true) (hne : more ≠ []) (hmore : ∀ b ∈ more.head?, isxdigit b = false) :
    sscanfHex (space ++ chr '0' :: chr 'x' :: (digits.map chr ++ more))
      = .ok (some (BitVec.ofInt 32 (hexValue digits), more)) := by
  have hzero : ∀ b ∈ (chr '0' :: chr 'x' :: (digits.map chr ++ more)).head?, isspace b = false := by
    intro b hb
    obtain rfl : chr '0' = b := Option.some.inj hb
    decide
  have hhex : ∀ b ∈ digits.map chr, isxdigit b = true := by
    intro b hb
    obtain ⟨c, hc, rfl⟩ := List.mem_map.1 hb
    rw [isxdigit_chr (inLine_of_isHex (hdigits c hc)).1]
    exact hdigits c hc
  have hradix : afterRadix (chr '0' :: chr 'x' :: (digits.map chr ++ more)) = digits.map chr ++ more := by
    rw [afterRadix, if_pos (by decide)]
  have hbehind : behindNumber (chr '0' :: chr 'x' :: (digits.map chr ++ more)) = more := by
    rw [behindNumber, hradix, dropWhile_stop hhex hmore]
  have hfound := sscanfHex_found (dropWhile_stop hspace hzero) (by decide) (by rw [hbehind]; exact hne)
  rw [hbehind, hradix, takeWhile_stop hhex hmore] at hfound
  rw [hfound]
  exact congrArg (fun value => Except.ok (some (value, more))) (foldl_xdigitValue hdigits 0)

theorem skipSpaces_skip {space : List Byte} (hspace : ∀ b ∈ space, isspace b = true) (str : List Byte) :
    skipSpaces (space ++ str) = skipSpaces str := by
  rw [skipSpaces, skipSpaces, List.dropWhile_append_of_pos hspace]

theorem skipSpaces_stop {space rest : List Byte} {c : Byte} (hspace : ∀ b ∈ space, isspace b = true)
    (hc : isspace c = false) : skipSpaces (space ++ c :: rest) = .ok (c, rest) := by
  rw [skipSpaces, dropWhile_stop hspace]
  intro b hb
  obtain rfl : c = b := Option.some.inj hb
  exact hc

theorem sscanf_skip {space : List Byte} (hspace : ∀ b ∈ space, isspace b = true) (str : List Byte) :
    sscanf (space ++ str) = sscanf str := by
  rw [sscanf, sscanf, sscanfHex, sscanfHex, skipSpaces_skip hspace]

theorem isspace_map {blanks : List Char} (h : ∀ c ∈ blanks, isBlank c = true) :
    ∀ b ∈ blanks.map chr, isspace b = true := by
  intro b hb
  obtain ⟨c, hc, rfl⟩ := List.mem_map.1 hb
  exact isspace_of_isSpace (.inl (h c hc))

theorem Cr2Entry.sep_chr (e : Cr2Entry) :
    isspace (chr e.sep) = false ∧ chr e.sep ≠ 0 ∧ isxdigit (chr e.sep) = false := by
  obtain ⟨hlow, hhigh, hhex⟩ := e.sep_plain
  have hnat := @chr_toNat e.sep (by omega)
  refine ⟨?_, ?_, ?_⟩
  · unfold isspace
    apply decide_eq_false
    rintro (⟨-, h⟩ | h | h)
    · have hle : (chr e.sep).toNat ≤ 13 := h
      omega
    · rw [h] at hnat
      have heq : (0x20 : Byte).toNat = 32 := rfl
      omega
    · rw [h] at hnat
      have heq : (0xA0 : Byte).toNat = 160 := rfl
      omega
  · intro h
    rw [h] at hnat
    have heq : (0 : Byte).toNat = 0 := rfl
    omega
  · rw [isxdigit_chr (by omega)]
    exact hhex

theorem Cr2Entry.sscanf_eq (e : Cr2Entry) (more : List Byte) :
    sscanf (e.text.map chr ++ chr '\n' :: more)
      = .ok (some (BitVec.ofInt 32 (hexValue e.addr), BitVec.ofInt 32 (hexValue e.data))) := by
  obtain ⟨hspace, hzero, hsep⟩ := e.sep_chr
  have htext : e.text.map chr ++ chr '\n' :: more = [] ++ chr '0' :: chr 'x' :: (e.addr.map chr ++
      (e.gap.map chr ++ chr e.sep :: (e.gap'.map chr ++ chr '0' :: chr 'x' :: (e.data.map chr ++
        (e.note.map chr ++ chr '\n' :: more))))) := by
    simp only [text, between, rest, List.map_cons, List.map_append, List.cons_append, List.append_assoc,
      List.nil_append]
  have hgap : ∀ b ∈ (e.gap.map chr ++ chr e.sep :: (e.gap'.map chr ++ chr '0' :: chr 'x' :: (e.data.map chr ++
      (e.note.map chr ++ chr '\n' :: more)))).head?, isxdigit b = false := by
    intro b hb
    cases hgap : e.gap with
    | nil =>
        rw [hgap] at hb
        obtain rfl : chr e.sep = b := Option.some.inj hb
        exact hsep
    | cons c gap =>
        rw [hgap] at hb
        obtain rfl : chr c = b := Option.some.inj hb
        rcases isBlank_cases (e.gap_blank c (by rw [hgap]; exact List.mem_cons_self)) with rfl | rfl | rfl <;>
          decide
  have hnote : ∀ b ∈ (e.note.map chr ++ chr '\n' :: more).head?, isxdigit b = false := by
    intro b hb
    cases hnote : e.note with
    | nil =>
        rw [hnote] at hb
        obtain rfl : chr '\n' = b := Option.some.inj hb
        decide
    | cons c note =>
        rw [hnote] at hb
        obtain rfl : chr c = b := Option.some.inj hb
        rw [isxdigit_chr (e.note_inLine c (by rw [hnote]; exact List.mem_cons_self)).1]
        exact (e.note_apart c (by rw [hnote]; rfl)).1
  rw [htext, sscanf, sscanfHex_number (List.forall_mem_nil _) e.addr_hex (by simp) hgap]
  show (skipSpaces _ >>= _) = _
  rw [skipSpaces_stop (isspace_map e.gap_blank) hspace]
  show (if chr e.sep = 0 then _ else _) = _
  rw [if_neg hzero, sscanfHex_number (isspace_map e.gap'_blank) e.data_hex (by simp) hnote]
  rfl

theorem fileText_cons (line : Cr2Line) (lines : List Cr2Line) :
    fileText (line :: lines) = line.text ++ '\n' :: fileText lines := by
  rw [fileText, List.flatMap_cons, List.append_assoc]
  rfl

theorem Cr2Line.text_inLine (line : Cr2Line) : ∀ c ∈ line.text, InLine c := by
  have hblank : ∀ c, isBlank c = true → InLine c := by
    intro c hc
    rcases isBlank_cases hc with rfl | rfl | rfl <;> exact ⟨by decide, by decide⟩
  intro c hc
  cases line with
  | entry e =>
      simp only [text, Cr2Entry.text, List.mem_append, List.mem_cons] at hc
      rcases hc with hindent | rfl | rfl | haddr | hbetween | hrest
      · exact hblank c (e.indent_blank c hindent)
      · exact ⟨by decide, by decide⟩
      · exact ⟨by decide, by decide⟩
      · exact inLine_of_isHex (e.addr_hex c haddr)
      · exact e.between_inLine c hbetween
      · exact e.rest_inLine c hrest
  | comment indent body hindent hbody =>
      simp only [text, List.mem_append, List.mem_cons] at hc
      rcases hc with hc | rfl | hc
      · exact hblank c (hindent c hc)
      · exact ⟨by decide, by decide⟩
      · exact hbody c hc
  | blank space hspace => exact hblank c (hspace c hc)

theorem fileText_bytes (lines : List Cr2Line) : ∀ c ∈ fileText lines, c.toNat < 256 := by
  intro c hc
  obtain ⟨line, -, hmem⟩ := List.mem_flatMap.1 hc
  rcases List.mem_append.1 hmem with hmem | hmem
  · exact (line.text_inLine c hmem).1
  · rw [List.mem_singleton.1 hmem]
    decide

/-- `sscanf` from the start of a line on. -/
theorem sscanf_lines {lines : List Cr2Line} (hne : lines ≠ []) (hends : EndsPlain lines) :
    sscanf ((fileText lines).map chr)
      = .ok ((foundFrom lines).map fun record => (BitVec.ofInt 32 record.1, BitVec.ofInt 32 record.2)) := by
  induction lines with
  | nil => exact absurd rfl hne
  | cons line lines ih =>
      have htext : (fileText (line :: lines)).map chr
          = line.text.map chr ++ chr '\n' :: (fileText lines).map chr := by
        rw [fileText_cons, List.map_append, List.map_cons]
      rw [htext]
      cases line with
      | entry e =>
          rw [Cr2Line.text, List.map_append, List.append_assoc,
            sscanf_skip (isspace_map e.indent_blank), e.sscanf_eq]
          rfl
      | comment indent body hindent hbody =>
          rw [Cr2Line.text, List.map_append, List.append_assoc, sscanf_skip (isspace_map hindent)]
          rfl
      | blank space hspace =>
          have hmore : lines ≠ [] := by
            rintro rfl
            cases hends _ rfl
          have hothers : EndsPlain lines := by
            intro line hline
            apply hends
            rw [List.getLast?_cons_of_ne_nil hmore]
            exact hline
          have hspace' : ∀ b ∈ space.map chr ++ [chr '\n'], isspace b = true := by
            intro b hb
            rcases List.mem_append.1 hb with hb | hb
            · exact isspace_map hspace b hb
            · obtain rfl := List.mem_singleton.1 hb
              decide
          have hskip := sscanf_skip hspace' ((fileText lines).map chr)
          rw [List.append_assoc] at hskip
          exact hskip.trans (ih hmore hothers)

theorem scanPast_line {line : List Char} (hline : ∀ c ∈ line, InLine c) (more : List Byte) (i : Nat) :
    scanPast (chr '\n') (line.map chr ++ chr '\n' :: more) i = some (i + line.length + 1) := by
  induction line generalizing i with
  | nil => exact if_pos rfl
  | cons c line ih =>
      have hc := (hline c List.mem_cons_self).chr_ne
      rw [List.map_cons, List.cons_append, scanPast, if_neg hc,
        ih (fun d hd => hline d (List.mem_cons_of_mem c hd)), List.length_cons]
      exact congrArg some (by omega)

theorem word_bytes (data : Int) : [((BitVec.ofInt 32 data) >>> 8).setWidth 8, (BitVec.ofInt 32 data).setWidth 8]
    = (dataBytes data).map byteOf := by
  have hlow : (BitVec.ofInt 32 data).setWidth 8 = byteOf (data % 0x100) := by
    apply BitVec.eq_of_toNat_eq
    simp [byteOf, BitVec.toNat_ofInt]
    omega
  have hhigh : ((BitVec.ofInt 32 data) >>> 8).setWidth 8 = byteOf (data / 2 ^ 8) := by
    apply BitVec.eq_of_toNat_eq
    simp [byteOf, BitVec.toNat_ofInt, Nat.shiftRight_eq_div_pow]
    omega
  rw [hlow, hhigh]
  rfl

theorem word_reg (addr : Int) : (BitVec.ofInt 32 addr).setWidth 16 = BitVec.ofInt 16 addr := by
  apply BitVec.eq_of_toNat_eq
  simp [BitVec.toNat_ofInt]
  omega

theorem cfgrecLoop_next {handle : Nat} {kbuf : List Byte} {i k : Nat} (cfgrecSize : Nat) {p : RegProg Nat}
    (hi : i < kbuf.length) (hk : scanPast (chr '\n') (kbuf.drop i) i = some k)
    (hline : cfgrecLine handle cfgrecSize (kbuf.drop i) = p >>= fun n => .pure (.ok n)) :
    cfgrecLoop handle kbuf i cfgrecSize = p >>= fun cfgrecSize => cfgrecLoop handle kbuf k cfgrecSize := by
  rw [cfgrecLoop, if_pos hi, hline, bind_assoc]
  congr 1
  funext cfgrecSize
  dsimp only [Prog.pure_bind]
  split
  · next hnone =>
      rw [hk] at hnone
      cases hnone
  · next k' hk' =>
      rw [hk] at hk'
      cases hk'
      rfl

theorem cfgrecLine_eq {handle : Nat} {line : List Byte} {found : Option (Int × Int)} (hne : line ≠ [])
    (hfound : sscanf line = .ok (found.map fun record => (BitVec.ofInt 32 record.1, BitVec.ofInt 32 record.2)))
    (hcomment : line.head? = some (chr ';') → found = none) (cfgrecSize : Nat) :
    cfgrecLine handle cfgrecSize line
      = writeRecords handle found.toList cfgrecSize >>= fun n => .pure (.ok n) := by
  cases line with
  | nil => exact absurd rfl hne
  | cons c rest =>
      rw [cfgrecLine]
      cases found with
      | none =>
          rw [hfound]
          exact ite_self _
      | some record =>
          have hc : ¬ c = chr ';' := fun h => Option.some_ne_none record (hcomment (congrArg some h))
          rw [if_neg hc, hfound]
          show (Prog.query (RegAsk.write handle ((BitVec.ofInt 32 record.1).setWidth 16)
            [((BitVec.ofInt 32 record.2) >>> 8).setWidth 8, (BitVec.ofInt 32 record.2).setWidth 8]) >>= _) = _
          rw [word_bytes, word_reg]
          rfl

theorem writeRecords_append (handle : Nat) (records more : List (Int × Int)) (cfgrecSize : Nat) :
    writeRecords handle (records ++ more) cfgrecSize
      = writeRecords handle records cfgrecSize >>= writeRecords handle more := by
  induction records generalizing cfgrecSize with
  | nil => rfl
  | cons record records ih =>
      rw [List.cons_append, writeRecords, writeRecords, bind_assoc]
      congr 1
      funext reply
      exact ih _

theorem foundFrom_comment {line : Cr2Line} {lines : List Cr2Line}
    (h : (fileText (line :: lines)).head? = some ';') : foundFrom (line :: lines) = none := by
  have hblank : ∀ {blanks more : List Char}, (∀ c ∈ blanks, isBlank c = true) →
      (blanks ++ more).head? = some ';' → more.head? = some ';' := by
    intro blanks more hblanks hhead
    cases blanks with
    | nil => exact hhead
    | cons c blanks =>
        obtain rfl : c = ';' := Option.some.inj hhead
        exact absurd (hblanks ';' List.mem_cons_self) (by decide)
  rw [fileText_cons] at h
  cases line with
  | entry e =>
      rw [Cr2Line.text, List.append_assoc] at h
      exact absurd (Option.some.inj (hblank e.indent_blank h)) (by decide)
  | comment indent body hindent hbody => rfl
  | blank space hspace => exact absurd (Option.some.inj (hblank hspace h)) (by decide)

/-- Whatever the device answers, the loop writes the records that the driver finds. -/
theorem cfgrecLoop_lines (handle : Nat) {kbuf : List Byte} {lines : List Cr2Line} {i : Nat}
    (hends : EndsPlain lines) (htext : kbuf.drop i = (fileText lines).map chr) (cfgrecSize : Nat) :
    cfgrecLoop handle kbuf i cfgrecSize
      = writeRecords handle (driverRecords lines) cfgrecSize >>= fun cfgrecSize => .pure (.ok cfgrecSize) := by
  induction lines generalizing i cfgrecSize with
  | nil =>
      have hend : ¬ i < kbuf.length := by
        have hlen := congrArg List.length htext
        rw [List.length_drop] at hlen
        have hzero : ((fileText []).map chr).length = 0 := rfl
        omega
      rw [cfgrecLoop, if_neg hend]
      rfl
  | cons line lines ih =>
      have hline : kbuf.drop i = line.text.map chr ++ chr '\n' :: (fileText lines).map chr := by
        rw [htext, fileText_cons, List.map_append, List.map_cons]
      have hlen := congrArg List.length hline
      rw [List.length_drop, List.length_append, List.length_map, List.length_cons] at hlen
      have hlt : i < kbuf.length := by omega
      have hscan : scanPast (chr '\n') (kbuf.drop i) i = some (i + line.text.length + 1) := by
        rw [hline, scanPast_line line.text_inLine]
      have hmore : kbuf.drop (i + line.text.length + 1) = (fileText lines).map chr := by
        rw [Nat.add_assoc, ← List.drop_drop, hline, List.drop_append, List.length_map,
          Nat.add_sub_cancel_left, List.drop_eq_nil_of_le (by rw [List.length_map]; omega)]
        rfl
      have hfound : sscanf (kbuf.drop i) = .ok ((foundFrom (line :: lines)).map fun record =>
          (BitVec.ofInt 32 record.1, BitVec.ofInt 32 record.2)) := by
        rw [htext]
        exact sscanf_lines (List.cons_ne_nil _ _) hends
      have hcomment : (kbuf.drop i).head? = some (chr ';') → foundFrom (line :: lines) = none := by
        intro hsemicolon
        have hhead : (fileText (line :: lines)).head?.map chr = some (chr ';') := by
          rw [← List.head?_map, ← htext, hsemicolon]
        obtain ⟨c, hc, heq⟩ := Option.map_eq_some_iff.1 hhead
        rw [chr_inj (fileText_bytes _ c (List.mem_of_head? hc)) (by decide) heq] at hc
        exact foundFrom_comment hc
      have hothers : EndsPlain lines := by
        intro last hlast
        apply hends
        cases lines with
        | nil => cases hlast
        | cons next lines => exact hlast
      have hne : kbuf.drop i ≠ [] := fun hnil => absurd (List.drop_eq_nil_iff.1 hnil) (Nat.not_le_of_lt hlt)
      rw [cfgrecLoop_next cfgrecSize hlt hscan (cfgrecLine_eq hne hfound hcomment cfgrecSize), driverRecords,
        writeRecords_append, bind_assoc]
      congr 1
      funext cfgrecSize
      exact ih hothers hmore cfgrecSize

end Driver

end VprocSdk
