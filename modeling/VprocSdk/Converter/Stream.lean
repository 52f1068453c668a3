import Mathlib.Algebra.Order.Ring.Int
import Mathlib.Data.List.Basic
import Mathlib.Tactic.Common

/-!
# HBI command streams

What a device does with a stream of bytes: commands that select a page, set the base address of page
255 or do nothing, and writes of 16-bit words, either at an offset of the selected page or right after
the last write. The frames are those of the driver's `HBI_PAGED_WRITE`, `HBI_SELECT_PAGE` and
`HBI_NO_OP` and of the converter's page 255 and continue blocks. A byte is an integer, as in the
converter.

No command begins another, so a stream of complete commands is read back as those commands.
-/

namespace VprocSdk

/-- An HBI command. The count of a write is one less than its number of words. -/
inductive HbiCmd
  | page (p : Int)
  | base (b3 b2 b1 b0 : Int)
  | write (offset count : Int) (data : List Int)
  | cont (count : Int) (data : List Int)
  | nop
  deriving DecidableEq, Repr

namespace HbiCmd

def encode : HbiCmd → List Int
  | .page p => [0xFE, p]
  | .base b3 b2 b1 b0 => [0x86, 0x81, b3, b2, b1, b0]
  | .write offset count data => offset :: (count + 0x80) :: data
  | .cont count data => 0xFB :: count :: data
  | .nop => [0xFF, 0xFF]

def IsByte (b : Int) : Prop := 0 ≤ b ∧ b ≤ 0xFF

/-- A command a device accepts: its fields are in range and its data is there. -/
def Valid : HbiCmd → Prop
  | .page p => IsByte p
  | .base b3 b2 b1 b0 => IsByte b3 ∧ IsByte b2 ∧ IsByte b1 ∧ IsByte b0
  | .write offset count data => 0 ≤ offset ∧ offset < 0x80 ∧ 0 ≤ count ∧ count ≤ 127 ∧
      (data.length : Int) = 2 * (count + 1) ∧ ∀ b ∈ data, IsByte b
  | .cont count data => 0 ≤ count ∧ count ≤ 127 ∧ (data.length : Int) = 2 * (count + 1) ∧
      ∀ b ∈ data, IsByte b
  | .nop => True

/-- The field that counts the words of a write, before the write bit is added. -/
def countField : HbiCmd → Option Int
  | .write _ count _ => some count
  | .cont count _ => some count
  | _ => none

end HbiCmd

open HbiCmd

def encodeAll (cmds : List HbiCmd) : List Int := cmds.flatMap encode

@[simp] theorem encodeAll_nil : encodeAll [] = [] := rfl

@[simp] theorem encodeAll_cons (cmd : HbiCmd) (cmds : List HbiCmd) :
    encodeAll (cmd :: cmds) = cmd.encode ++ encodeAll cmds := rfl

@[simp] theorem encodeAll_append (cmds cmds' : List HbiCmd) :
    encodeAll (cmds ++ cmds') = encodeAll cmds ++ encodeAll cmds' := List.flatMap_append

/-! ### Reading a stream -/

/-- The data of a write that counts `count + 1` words, and what follows it. -/
def takeWords (count : Int) (bytes : List Int) : Option (List Int × List Int) :=
  let len := (2 * (count + 1)).toNat
  if len ≤ bytes.length then some (bytes.take len, bytes.drop len) else none

/-- The four bytes of a base address, and what follows them. -/
def takeBase : List Int → Option (HbiCmd × List Int)
  | b3 :: b2 :: b1 :: b0 :: rest => some (.base b3 b2 b1 b0, rest)
  | _ => none

def parseCmd : List Int → Option (HbiCmd × List Int)
  | first :: second :: rest =>
      if first = 0xFE then some (.page second, rest)
      else if first = 0xFF then if second = 0xFF then some (.nop, rest) else none
      else if first = 0xFB then
        (takeWords second rest).map fun (data, rest) => (.cont second data, rest)
      else if first = 0x86 ∧ second = 0x81 then takeBase rest
      else if 0 ≤ first ∧ first < 0x80 ∧ 0x80 ≤ second then
        (takeWords (second - 0x80) rest).map fun (data, rest) => (.write first (second - 0x80) data, rest)
      else none
  | _ => none

/-- The commands of a stream that is complete commands only. -/
def parseFrom : Nat → List Int → Option (List HbiCmd)
  | _, [] => some []
  | 0, _ => none
  | fuel + 1, bytes => do
      let (cmd, rest) ← parseCmd bytes
      let cmds ← parseFrom fuel rest
      return cmd :: cmds

/-- Every command has at least two bytes, so as much fuel as bytes is enough. -/
def parse (bytes : List Int) : Option (List HbiCmd) := parseFrom bytes.length bytes

theorem takeWords_append {count : Int} {data : List Int} (rest : List Int)
    (h : (data.length : Int) = 2 * (count + 1)) :
    takeWords count (data ++ rest) = some (data, rest) := by
  have hlen : (2 * (count + 1)).toNat = data.length := by omega
  unfold takeWords
  dsimp only
  rw [hlen, if_pos (by rw [List.length_append]; omega), List.take_left, List.drop_left]

/-- A command is read back from its bytes, whatever follows them. -/
theorem parseCmd_encode {cmd : HbiCmd} (h : cmd.Valid) (rest : List Int) :
    parseCmd (cmd.encode ++ rest) = some (cmd, rest) := by
  cases cmd with
  | page p => rfl
  | base b3 b2 b1 b0 => rfl
  | nop => rfl
  | cont count data =>
      obtain ⟨-, -, hlen, -⟩ := h
      have htake := takeWords_append rest hlen
      simp [encode, parseCmd, htake]
  | write offset count data =>
      obtain ⟨hoffset, hsmall, hcount, -, hlen, -⟩ := h
      have htake := takeWords_append rest hlen
      have hfield : count + 0x80 - 0x80 = count := by omega
      have hpage : offset ≠ 0xFE := by omega
      have hnop : offset ≠ 0xFF := by omega
      have hcont : offset ≠ 0xFB := by omega
      have hbase : ¬ (offset = 0x86 ∧ count + 0x80 = 0x81) := by omega
      have hwrite : 0 ≤ offset ∧ offset < 0x80 ∧ 0x80 ≤ count + 0x80 := by omega
      rw [encode, List.cons_append, List.cons_append, parseCmd, if_neg hpage, if_neg hnop, if_neg hcont,
        if_neg hbase, if_pos hwrite, hfield, htake]
      rfl

theorem encode_ne_nil (cmd : HbiCmd) : cmd.encode ≠ [] := by
  cases cmd <;> simp [encode]

theorem parseFrom_encodeAll {cmds : List HbiCmd} (h : ∀ cmd ∈ cmds, cmd.Valid) (fuel : Nat)
    (hfuel : cmds.length ≤ fuel) : parseFrom fuel (encodeAll cmds) = some cmds := by
  induction cmds generalizing fuel with
  | nil => cases fuel <;> rfl
  | cons cmd cmds ih =>
      obtain ⟨fuel, rfl⟩ : ∃ rest, fuel = rest + 1 := ⟨fuel - 1, by
        rw [List.length_cons] at hfuel
        omega⟩
      rw [List.length_cons] at hfuel
      have hcmd := parseCmd_encode (h cmd List.mem_cons_self) (encodeAll cmds)
      have hrest := ih (fun c hc => h c (List.mem_cons_of_mem _ hc)) fuel (by omega)
      obtain ⟨first, bytes, hbytes⟩ := List.exists_cons_of_ne_nil
        (List.append_ne_nil_of_left_ne_nil (encode_ne_nil cmd) (encodeAll cmds))
      rw [encodeAll_cons, hbytes, parseFrom, ← hbytes, hcmd, Option.bind_eq_bind, Option.bind_some]
      · dsimp only
        rw [hrest]
        rfl
      · intro hnil
        simp at hnil

theorem length_le_encodeAll (cmds : List HbiCmd) : cmds.length ≤ (encodeAll cmds).length := by
  induction cmds with
  | nil => exact Nat.le_refl _
  | cons cmd cmds ih =>
      have hpos := List.length_pos_iff.2 (encode_ne_nil cmd)
      rw [encodeAll_cons, List.length_append, List.length_cons]
      omega

/-- A stream of complete commands is read as those commands. -/
theorem parse_encodeAll {cmds : List HbiCmd} (h : ∀ cmd ∈ cmds, cmd.Valid) :
    parse (encodeAll cmds) = some cmds :=
  parseFrom_encodeAll h _ (length_le_encodeAll cmds)

theorem takeWords_some {count : Int} {bytes data rest : List Int}
    (h : takeWords count bytes = some (data, rest)) : data ++ rest = bytes := by
  unfold takeWords at h
  dsimp only at h
  split at h
  · cases h
    exact List.take_append_drop _ _
  · cases h

theorem encode_parseCmd {bytes rest : List Int} {cmd : HbiCmd} (h : parseCmd bytes = some (cmd, rest)) :
    cmd.encode ++ rest = bytes := by
  unfold parseCmd at h
  split at h
  next first second tail =>
    split_ifs at h with hpage hnop hnop' hcont hbase hwrite
    · cases h
      rw [hpage]
      rfl
    · cases h
      rw [hnop, hnop']
      rfl
    · obtain ⟨⟨data, rest'⟩, htake, hcmd⟩ := Option.map_eq_some_iff.1 h
      cases hcmd
      rw [← takeWords_some htake, hcont]
      rfl
    · unfold takeBase at h
      split at h
      · cases h
        rw [hbase.1, hbase.2]
        rfl
      · cases h
    · obtain ⟨⟨data, rest'⟩, htake, hcmd⟩ := Option.map_eq_some_iff.1 h
      cases hcmd
      rw [← takeWords_some htake, encode, Int.sub_add_cancel]
      rfl
  next => cases h

theorem encodeAll_parseFrom {fuel : Nat} {bytes : List Int} {cmds : List HbiCmd}
    (h : parseFrom fuel bytes = some cmds) : encodeAll cmds = bytes := by
  induction fuel generalizing bytes cmds with
  | zero =>
      cases bytes with
      | nil =>
          cases h
          rfl
      | cons first bytes => cases h
  | succ fuel ih =>
      cases bytes with
      | nil =>
          cases h
          rfl
      | cons first bytes =>
          obtain ⟨⟨cmd, rest⟩, hcmd, hmore⟩ := Option.bind_eq_some_iff.1 h
          obtain ⟨cmds', hrest, hall⟩ := Option.bind_eq_some_iff.1 hmore
          cases hall
          rw [encodeAll_cons, ih hrest]
          exact encode_parseCmd hcmd

/-- A stream has the bytes of the commands it is read as. -/
theorem encodeAll_parse {bytes : List Int} {cmds : List HbiCmd} (h : parse bytes = some cmds) :
    encodeAll cmds = bytes := encodeAll_parseFrom h

/-! ### What the commands do -/

/-- The state of the interface: the selected page, the base address of page 255, the address right after
the last write, and where the window of the last write with an address starts. -/
structure HbiState where
  page : Int
  base : Int
  next : Int
  window : Int
  deriving DecidableEq, Repr

/-- The address of a word offset of the selected page. Page 255 starts at its base address; the others
follow the first 256 bytes. -/
def HbiState.address (st : HbiState) (offset : Int) : Int :=
  if st.page = 0xFF then st.base + 2 * offset else (st.page + 1) * 0x100 + 2 * offset

def HbiState.after (st : HbiState) : HbiCmd → HbiState
  | .page p => { st with page := p }
  | .base b3 b2 b1 b0 => { st with base := b3 * 2 ^ 24 + b2 * 2 ^ 16 + b1 * 2 ^ 8 + b0 }
  | .write offset _ data =>
      { st with
        next := st.address offset + data.length
        window := st.address offset - st.address offset % 0x100 }
  | .cont _ data => { st with next := st.next + data.length }
  | .nop => st

def writesAt (addr : Int) : List Int → List (Int × Int)
  | [] => []
  | b :: bytes => (addr, b) :: writesAt (addr + 1) bytes

theorem writesAt_append (addr : Int) (xs ys : List Int) :
    writesAt addr (xs ++ ys) = writesAt addr xs ++ writesAt (addr + xs.length) ys := by
  induction xs generalizing addr with
  | nil => simp [writesAt]
  | cons x xs ih =>
      have hnext : addr + 1 + (xs.length : Int) = addr + ((x :: xs).length : Int) := by
        rw [List.length_cons]
        omega
      rw [List.cons_append, writesAt, ih, hnext, writesAt, List.cons_append]

theorem writesAt_split (addr : Int) {xs : List Int} {n : Nat} (h : n ≤ xs.length) :
    writesAt addr xs = writesAt addr (xs.take n) ++ writesAt (addr + n) (xs.drop n) := by
  have hlen : (xs.take n).length = n := List.length_take_of_le h
  conv_lhs => rw [← List.take_append_drop n xs, writesAt_append, hlen]

def HbiState.writes (st : HbiState) : HbiCmd → List (Int × Int)
  | .write offset _ data => writesAt (st.address offset) data
  | .cont _ data => writesAt st.next data
  | _ => []

def HbiState.afterAll (st : HbiState) (cmds : List HbiCmd) : HbiState := cmds.foldl HbiState.after st

def HbiState.writesAll (st : HbiState) : List HbiCmd → List (Int × Int)
  | [] => []
  | cmd :: cmds => st.writes cmd ++ (st.after cmd).writesAll cmds

/-- A write and those that continue it stay inside the 512 bytes from the start of its window. -/
def HbiState.InWindow (st : HbiState) : List HbiCmd → Prop
  | [] => True
  | cmd :: cmds =>
      (cmd.countField ≠ none → (st.after cmd).next ≤ (st.after cmd).window + 512) ∧
        (st.after cmd).InWindow cmds

section Append

variable (st : HbiState) (cmds cmds' : List HbiCmd)

theorem HbiState.afterAll_append : st.afterAll (cmds ++ cmds') = (st.afterAll cmds).afterAll cmds' :=
  List.foldl_append

theorem HbiState.writesAll_append :
    st.writesAll (cmds ++ cmds') = st.writesAll cmds ++ (st.afterAll cmds).writesAll cmds' := by
  induction cmds generalizing st with
  | nil => rfl
  | cons cmd cmds ih =>
      rw [List.cons_append, writesAll, ih, writesAll, List.append_assoc]
      rfl

theorem HbiState.inWindow_append :
    st.InWindow (cmds ++ cmds') ↔ st.InWindow cmds ∧ (st.afterAll cmds).InWindow cmds' := by
  induction cmds generalizing st with
  | nil => simp [InWindow, afterAll]
  | cons cmd cmds ih =>
      rw [List.cons_append, InWindow, InWindow, ih, and_assoc]
      rfl

end Append

theorem HbiState.nops (st : HbiState) (n : Nat) :
    st.afterAll (List.replicate n .nop) = st ∧ st.writesAll (List.replicate n .nop) = [] ∧
      st.InWindow (List.replicate n .nop) := by
  induction n with
  | zero => exact ⟨rfl, rfl, trivial⟩
  | succ n ih =>
      obtain ⟨hstate, hwrites, hwindow⟩ := ih
      rw [List.replicate_succ]
      refine ⟨hstate, ?_, ?_, hwindow⟩
      · rw [writesAll]
        exact hwrites
      · intro hcount
        exact absurd rfl hcount

theorem encodeAll_nops (n : Nat) : encodeAll (List.replicate n .nop) = List.replicate (2 * n) 0xFF := by
  induction n with
  | zero => rfl
  | succ n ih =>
      rw [List.replicate_succ, encodeAll_cons, ih, Nat.mul_succ, List.replicate_succ, List.replicate_succ]
      rfl

/-! ### What a stream is for -/

def IsStream (bytes : List Int) : Prop := ∃ cmds, (∀ cmd ∈ cmds, cmd.Valid) ∧ bytes = encodeAll cmds

theorem isStream_nil : IsStream [] := ⟨[], by simp, rfl⟩

theorem IsStream.append {bytes bytes' : List Int} (h : IsStream bytes) (h' : IsStream bytes') :
    IsStream (bytes ++ bytes') := by
  obtain ⟨cmds, hcmds, rfl⟩ := h
  obtain ⟨cmds', hcmds', rfl⟩ := h'
  refine ⟨cmds ++ cmds', ?_, (encodeAll_append cmds cmds').symm⟩
  intro cmd hcmd
  exact (List.mem_append.1 hcmd).elim (hcmds cmd) (hcmds' cmd)

/-- Writes at 32-bit addresses. -/
def wrapWrites (writes : List (Int × Int)) : List (Int × Int) := writes.map fun w => (w.1 % 2 ^ 32, w.2)

theorem wrapWrites_append (writes writes' : List (Int × Int)) :
    wrapWrites (writes ++ writes') = wrapWrites writes ++ wrapWrites writes' := List.map_append

theorem wrapWrites_data (writes : List (Int × Int)) :
    (wrapWrites writes).map Prod.snd = writes.map Prod.snd := List.map_map

theorem wrapWrites_writesAt {addr addr' : Int} (h : addr % 2 ^ 32 = addr' % 2 ^ 32) (bytes : List Int) :
    wrapWrites (writesAt addr bytes) = wrapWrites (writesAt addr' bytes) := by
  induction bytes generalizing addr addr' with
  | nil => rfl
  | cons b bytes ih =>
      have hrest := ih (by omega : (addr + 1) % 2 ^ 32 = (addr' + 1) % 2 ^ 32)
      rw [wrapWrites] at hrest ⊢
      rw [writesAt, List.map_cons, h, hrest]
      rfl

/-- Valid commands that keep to their windows and perform some writes, where `exact` says that the
addresses they are meant for are ones they can name. Others are named as far as 32 bits hold them. -/
structure Emits (exact : Prop) (st : HbiState) (cmds : List HbiCmd) (bytes : List (Int × Int)) : Prop where
  valid : ∀ cmd ∈ cmds, cmd.Valid
  window : st.InWindow cmds
  writes : exact → st.writesAll cmds = bytes
  wrapped : wrapWrites (st.writesAll cmds) = wrapWrites bytes

section Emits

variable {exact exact' : Prop} {st : HbiState} {cmds cmds' : List HbiCmd} {bytes bytes' : List (Int × Int)}
  {addr : Int} {data : List Int}

theorem Emits.append (h : Emits exact st cmds bytes) (h' : Emits exact (st.afterAll cmds) cmds' bytes') :
    Emits exact st (cmds ++ cmds') (bytes ++ bytes') := by
  constructor
  · intro cmd hcmd
    exact (List.mem_append.1 hcmd).elim (h.valid cmd) (h'.valid cmd)
  · exact (st.inWindow_append cmds cmds').2 ⟨h.window, h'.window⟩
  · intro hexact
    rw [st.writesAll_append, h.writes hexact, h'.writes hexact]
  · rw [st.writesAll_append, wrapWrites_append, wrapWrites_append, h.wrapped, h'.wrapped]

theorem Emits.mono (h : Emits exact st cmds bytes) (himp : exact' → exact) : Emits exact' st cmds bytes :=
  ⟨h.valid, h.window, fun hexact => h.writes (himp hexact), h.wrapped⟩

theorem emits_nil : Emits exact st [] [] :=
  ⟨by simp, trivial, fun _ => rfl, rfl⟩

theorem emits_nops (n : Nat) : Emits exact st (List.replicate n .nop) [] := by
  obtain ⟨-, hwrites, hwindow⟩ := st.nops n
  refine ⟨?_, hwindow, fun _ => hwrites, congrArg wrapWrites hwrites⟩
  intro cmd hcmd
  rw [List.eq_of_mem_replicate hcmd]
  trivial

theorem Emits.pad (h : Emits exact st cmds bytes) (n : Nat) :
    Emits exact st (cmds ++ List.replicate n .nop) bytes := by
  have hboth := h.append (emits_nops n)
  rw [List.append_nil] at hboth
  exact hboth

theorem HbiState.afterAll_pad (n : Nat) :
    st.afterAll (cmds ++ List.replicate n .nop) = st.afterAll cmds := by
  rw [st.afterAll_append, (HbiState.nops _ n).1]

theorem emits_write {offset : Int} {words : Nat} (hdata : data.length = 2 * words)
    (hwords : 1 ≤ words ∧ words ≤ 128) (hbytes : ∀ b ∈ data, IsByte b)
    (hoffset : 0 ≤ offset ∧ offset < 0x80) (hstart : st.address offset % 0x100 = 2 * offset)
    (haddr : exact → st.address offset = addr) (hwrapped : st.address offset % 2 ^ 32 = addr % 2 ^ 32) :
    Emits exact st [.write offset (words - 1) data] (writesAt addr data) := by
  constructor
  · intro cmd hcmd
    rw [List.mem_singleton.1 hcmd]
    refine ⟨hoffset.1, hoffset.2, ?_, ?_, ?_, hbytes⟩
    · omega
    · omega
    · omega
  · refine ⟨?_, trivial⟩
    intro _
    simp only [HbiState.after]
    omega
  · intro hexact
    simp only [HbiState.writesAll, HbiState.writes, haddr hexact, List.append_nil]
  · simp only [HbiState.writesAll, HbiState.writes, List.append_nil]
    exact wrapWrites_writesAt hwrapped data

theorem emits_cont {words : Nat} (hdata : data.length = 2 * words) (hwords : 1 ≤ words ∧ words ≤ 128)
    (hbytes : ∀ b ∈ data, IsByte b) (hroom : st.next + data.length ≤ st.window + 512)
    (hnext : exact → st.next = addr) (hwrapped : st.next % 2 ^ 32 = addr % 2 ^ 32) :
    Emits exact st [.cont (words - 1) data] (writesAt addr data) := by
  constructor
  · intro cmd hcmd
    rw [List.mem_singleton.1 hcmd]
    refine ⟨?_, ?_, ?_, hbytes⟩
    · omega
    · omega
    · omega
  · refine ⟨?_, trivial⟩
    intro _
    exact hroom
  · intro hexact
    simp only [HbiState.writesAll, HbiState.writes, hnext hexact, List.append_nil]
  · simp only [HbiState.writesAll, HbiState.writes, List.append_nil]
    exact wrapWrites_writesAt hwrapped data

end Emits

end VprocSdk
