import Mathlib.Data.List.TakeWhile
import VprocSdk.Image.Loaders
import VprocSdk.Lnx.RegisterDump

/-!
# The text parsers of the procfs entries

`hbi_proc_reg_rd`, `hbi_proc_reg_wr` and `hbi_proc_wr_cfgrec`. The text a parser works on is what
`copy_from_user` has left in its buffer: it has the size of the write, and what lies behind it is none of
the text. A parser that looks behind the text, or copies more than its array holds, ends here with a fault
in place of whatever the memory there would make it do.

Sizes are below 2^31, as the kernel hands them to a write, so that an `int` counts them.
-/

namespace VprocSdk

open Lib

/-- An access to a register through the HBI handle of a device. -/
inductive RegAsk
  | read (handle : Nat) (reg : RegAddr) (length : Nat)
  | write (handle : Nat) (reg : RegAddr) (data : List Byte)
  deriving DecidableEq, Repr

/-- What a parser does outside its input: it reads behind the text, or stores behind a local array. -/
inductive TextFault
  | outsideText | outsideArray
  deriving DecidableEq, Repr

instance : Nonempty HbiReply := ⟨⟨.success, []⟩⟩

abbrev RegProg (α : Type) := Prog RegAsk HbiReply α

abbrev TextResult (α : Type) := Except TextFault α

/-- A step of a parser that may look behind the text. -/
def within {α β : Type} (found : Option α) (next : α → RegProg (TextResult β)) : RegProg (TextResult β) :=
  match found with
  | none => .pure (.error .outsideText)
  | some a => next a

/-! ### Scanning -/

/-- `while(val[i++] != c)` over the text from index `i` on: the index behind the first `c`. -/
def scanPast (c : Byte) : List Byte → Nat → Option Nat
  | [], _ => none
  | b :: rest, i => if b = c then some (i + 1) else scanPast c rest (i + 1)

/-- One character of `atoh`. -/
def atohStep (val : BitVec 32) (c : Byte) : BitVec 32 :=
  if chr '0' ≤ c ∧ c ≤ chr '9' then (val <<< 4) + (c &&& 0x0F).setWidth 32
  else
    let c := c &&& 0xDF
    if chr 'A' ≤ c ∧ c ≤ chr 'F' then (val <<< 4) + ((c &&& 0x07).setWidth 32 + 9) else val

/-- The loop of `atoh`, whose counter is an `unsigned char`. -/
def atohLoop (size : Nat) : List Byte → BitVec 8 → BitVec 32 → Option (BitVec 32)
  | [], i, val => if i.toNat < size then none else some val
  | c :: rest, i, val =>
      if i.toNat < size then atohLoop size rest (i + 1) (atohStep val c) else some val

def atoh (s : List Byte) (size : Nat) : Option (BitVec 32) := atohLoop size s 0 0

def atoiStep (value : BitVec 32) (c : Byte) : BitVec 32 :=
  if chr '0' ≤ c ∧ c ≤ chr '9' then value * 10 + (c - chr '0').setWidth 32 else value

/-- `atoi`; its counter is an `int`. -/
def atoi (s : List Byte) (size : Nat) : Option (BitVec 32) :=
  if s.length < size then none else some ((s.take size).foldl atoiStep 0)

/-! ### `hbi_proc_reg_rd` -/

/-- `hbi_proc_reg_rd`: the transaction it leaves, and its result. `received` is what `val` holds once the
text is copied, `complete` says whether all of it was. -/
def hbiProcRegRd (maxRwSize : Nat) (dev : Option Nat) (received : List Byte) (complete : Bool)
    (hbiRw : HbiRw) : RegProg (TextResult (HbiRw × Int)) :=
  let size := received.length
  match dev with
  | none => .pure (.ok (hbiRw, -1))
  | some handle =>
      if size > maxRwSize then .pure (.error .outsideArray)
      else if !complete then .pure (.ok (hbiRw, -1))
      else
        within (scanPast (chr ' ') received 0) fun i =>
          if i ≥ size then .pure (.ok (hbiRw, -1))
          else
            within (atoh received (i - 1)) fun reg =>
              within (atoi (received.drop i) (size - i)) fun len =>
                if len.toNat > maxRwSize then .pure (.ok (hbiRw, -1))
                else do
                  let cleared := overlay hbiRw.buf 0 (List.replicate len.toNat 0)
                  let reply ← Prog.query (.read handle (reg.setWidth 16) len.toNat)
                  let hbiRw := { hbiRw with buf := overlay cleared 0 reply.data }
                  if reply.status ≠ .success then .pure (.ok (hbiRw, -1))
                  else .pure (.ok ({ hbiRw with len := len.toNat }, size))

/-! ### `hbi_proc_reg_wr` -/

/-- The loop of `hbi_proc_reg_wr` over the text that is left, with `dataLen` bytes in `tmp`. The last
character of the text is looked at, but is no start of a byte: there the index is no longer below
`size - 1`. -/
def regWrLoop (maxRwSize : Nat) : List Byte → Nat → Option (List Byte)
  | [], _ => none
  | [_], _ => some []
  | c :: c' :: rest, dataLen =>
      if c ≠ chr ' ' ∧ dataLen < maxRwSize then
        (atoh (c :: c' :: rest) 2).bind fun byte =>
          (regWrLoop maxRwSize rest (dataLen + 1)).map (byte.setWidth 8 :: ·)
      else some []

/-- `hbi_proc_reg_wr`, which goes on when the text could not be copied whole. -/
def hbiProcRegWr (maxRwSize : Nat) (dev : Option Nat) (received : List Byte) : RegProg (TextResult Int) :=
  let size := received.length
  match dev with
  | none => .pure (.ok (-1))
  | some handle =>
      if size > maxRwSize then .pure (.error .outsideArray)
      else
        within (scanPast (chr ' ') received 0) fun i =>
          if i ≥ size then .pure (.ok (-1))
          else
            within (atoh received (i - 1)) fun reg =>
              within (regWrLoop maxRwSize (received.drop i) 0) fun tmp => do
                let reply ← Prog.query (.write handle (reg.setWidth 16) tmp)
                if reply.status ≠ .success then .pure (.ok (-1)) else .pure (.ok size)

/-! ### `sscanf` -/

def isspace (c : Byte) : Bool := 0x09 ≤ c ∧ c ≤ 0x0D ∨ c = 0x20 ∨ c = 0xA0

def isxdigit (c : Byte) : Bool :=
  chr '0' ≤ c ∧ c ≤ chr '9' ∨ chr 'a' ≤ c ∧ c ≤ chr 'f' ∨ chr 'A' ≤ c ∧ c ≤ chr 'F'

/-- The value of a digit; `c | 0x20` is the lower case of a letter. -/
def xdigitValue (c : Byte) : BitVec 32 :=
  if chr '0' ≤ c ∧ c ≤ chr '9' then (c - chr '0').setWidth 32
  else ((c ||| 0x20) - chr 'a').setWidth 32 + 10

/-- `skip_spaces`: the first character that is no white space, and what follows it. -/
def skipSpaces (str : List Byte) : TextResult (Byte × List Byte) :=
  match str.dropWhile isspace with
  | [] => .error .outsideText
  | c :: rest => .ok (c, rest)

/-- What follows the prefix that `simple_strtoul` skips in base 16. -/
def afterRadix : List Byte → List Byte
  | c :: x :: rest => if c = chr '0' ∧ x ||| 0x20 = chr 'x' then rest else c :: x :: rest
  | str => str

def behindNumber (str : List Byte) : List Byte := (afterRadix str).dropWhile isxdigit

/-- `simple_strtoul` in base 16, which looks at the character behind the digits: the number, and what follows
its digits. -/
def simpleStrtoul (str : List Byte) : TextResult (BitVec 32 × List Byte) :=
  let digits := (afterRadix str).takeWhile isxdigit
  match behindNumber str with
  | [] => .error .outsideText
  | c :: rest => .ok (digits.foldl (fun value c => value * 16 + xdigitValue c) 0, c :: rest)

/-- `%x`, if it converts. -/
def sscanfHex (str : List Byte) : TextResult (Option (BitVec 32 × List Byte)) := do
  let (c, rest) ← skipSpaces str
  if isxdigit c then
    let number ← simpleStrtoul (c :: rest)
    return some number
  else return none

/-- `sscanf` of the kernel with the format `"%x %c %x"`, if it converts all three. White space in the format
skips white space in the text. Nothing ends the text but what is in it: a zero or a character that a conversion
does not take. -/
def sscanf (str : List Byte) : TextResult (Option (BitVec 32 × BitVec 32)) := do
  match ← sscanfHex str with
  | none => return none
  | some (reg, rest) =>
      let (c, rest) ← skipSpaces rest
      if c = 0 then return none
      else
        match ← sscanfHex rest with
        | none => return none
        | some (val, _) => return some (reg, val)

/-! ### `hbi_proc_wr_cfgrec` -/

theorem scanPast_gt {c : Byte} {text : List Byte} {i k : Nat} (h : scanPast c text i = some k) :
    i < k ∧ k ≤ i + text.length := by
  induction text generalizing i with
  | nil => cases h
  | cons b rest ih =>
      rw [scanPast] at h
      rw [List.length_cons]
      split at h
      · cases h
        omega
      · have hrest := ih h
        omega

/-- One line of `hbi_proc_wr_cfgrec`, with what follows it in the text: the count of the bytes written. `reg`
keeps the lower half of the number of the register. -/
def cfgrecLine (handle : Nat) (cfgrecSize : Nat) : List Byte → RegProg (TextResult Nat)
  | [] => .pure (.ok cfgrecSize)
  | c :: rest =>
      if c = chr ';' then .pure (.ok cfgrecSize)
      else
        match sscanf (c :: rest) with
        | .error fault => .pure (.error fault)
        | .ok none => .pure (.ok cfgrecSize)
        | .ok (some (reg, val)) => do
            let reply ← Prog.query (.write handle (reg.setWidth 16)
              [(val >>> 8).setWidth 8, val.setWidth 8])
            .pure (.ok (if reply.status = .success then cfgrecSize + 2 else cfgrecSize))

/-- The loop of `hbi_proc_wr_cfgrec` over the lines from index `i` on. -/
def cfgrecLoop (handle : Nat) (kbuf : List Byte) (i cfgrecSize : Nat) : RegProg (TextResult Nat) :=
  if i < kbuf.length then do
    let written ← cfgrecLine handle cfgrecSize (kbuf.drop i)
    match written with
    | .error fault => .pure (.error fault)
    | .ok cfgrecSize =>
        match _ : scanPast (chr '\n') (kbuf.drop i) i with
        | none => .pure (.error .outsideText)
        | some k => cfgrecLoop handle kbuf k cfgrecSize
  else .pure (.ok cfgrecSize)
termination_by kbuf.length - i
decreasing_by
  have hgt := scanPast_gt ‹_›
  omega

/-- `APP_RST_WAIT`. -/
def appRstWait : Nat := 10000

/-- The loop that waits for the reset: it reads once more while a read succeeds. -/
def resetWait (handle : Nat) : Nat → RegProg Unit
  | 0 => pure ()
  | n + 1 => do
      let reply ← Prog.query (.read handle Reg.hostSwFlags 2)
      if reply.status = .success then resetWait handle n else pure ()

/-- `hbi_proc_wr_cfgrec`: the size of the configuration record it has counted, where it has counted one,
and its result. -/
def hbiProcWrCfgrec (dev : Option Nat) (received : List Byte) (allocated : Bool) :
    RegProg (TextResult (Option Nat × Int)) :=
  let size := received.length
  match dev with
  | none => .pure (.ok (none, -1))
  | some handle =>
      if size = 0 then .pure (.ok (none, -1))
      else if !allocated then .pure (.ok (none, -1))
      else do
        let loaded ← cfgrecLoop handle received 0 0
        match loaded with
        | .error fault => .pure (.error fault)
        | .ok cfgrecSize =>
            let reply ← Prog.query (.write handle Reg.hostSwFlags
              [(hostSwFlagsAppReboot >>> 8).setWidth 8, hostSwFlagsAppReboot.setWidth 8])
            if reply.status = .success then resetWait handle (appRstWait + 1) else pure ()
            .pure (.ok (some cfgrecSize, size))

/-! ### Staying inside the text -/

/-- Whatever the device answers, the parser comes to its end without a fault. -/
def InsideText {α : Type} (p : RegProg (TextResult α)) : Prop := p.Returns fun r => ∃ a, r = .ok a

/-- The place of the first space of a text, its length if it has none. -/
def firstSpace (text : List Byte) : Nat := text.idxOf (chr ' ')

/-- The loop over the data of a write comes to a space, or to the last character of the text. -/
def DataEnds (data : List Byte) : Prop := data.length % 2 = 1 ∨ ∃ k, data[2 * k]? = some (chr ' ')

/-- The text has a space. If anything comes behind it, the counter of `atoh` reaches the space, and what
comes behind it meets the condition. -/
def RegisterText (received : List Byte) (data : List Byte → Prop) : Prop :=
  firstSpace received < received.length ∧
    (firstSpace received + 1 < received.length →
      firstSpace received ≤ 255 ∧ data (received.drop (firstSpace received + 1)))

/-- The text a read of a register takes, if it could be copied whole. -/
def RegRdText (maxRwSize : Nat) (received : List Byte) (complete : Bool) : Prop :=
  received.length ≤ maxRwSize ∧ (complete = true → RegisterText received fun _ => True)

def RegWrText (maxRwSize : Nat) (received : List Byte) : Prop :=
  received.length ≤ maxRwSize ∧ RegisterText received DataEnds

/-- What `sscanf` looks at from the start of a line on lies within a text that ends in a newline: something
other than white space; if that is a number, something behind it; and if that is no zero, something behind it
in turn. -/
def LineInside (line : List Byte) : Prop :=
  ∃ c rest, line.dropWhile isspace = c :: rest ∧ (isxdigit c = true →
    ∃ d more, (behindNumber (c :: rest)).dropWhile isspace = d :: more ∧
      (d ≠ 0 → ∃ b ∈ more, isspace b = false))

/-- A line of the text begins at the index. -/
def LineStart (received : List Byte) (k : Nat) : Prop := k = 0 ∨ received[k - 1]? = some (chr '\n')

/-- The last line has its newline, and what `sscanf` looks at from each line on that is no comment lies within
the text. -/
def CfgrecText (received : List Byte) : Prop :=
  received = [] ∨ received.getLast? = some (chr '\n') ∧
    ∀ k < received.length, LineStart received k →
      received[k]? = some (chr ';') ∨ LineInside (received.drop k)

section Inside

variable {α β : Type}

theorem insideText_ok (a : α) : InsideText (.pure (.ok a)) := ⟨a, rfl⟩

theorem not_insideText_error (fault : TextFault) : ¬ InsideText (.pure (.error fault : TextResult α)) := by
  intro h
  obtain ⟨a, ha⟩ := h
  cases ha

theorem insideText_within {found : Option α} {next : α → RegProg (TextResult β)} :
    InsideText (within found next) ↔ ∃ a, found = some a ∧ InsideText (next a) := by
  cases found with
  | none =>
      refine iff_of_false (not_insideText_error _) ?_
      intro h
      obtain ⟨a, ha, -⟩ := h
      cases ha
  | some a =>
      constructor
      · intro h
        exact ⟨a, rfl, h⟩
      · intro h
        obtain ⟨a', ha', hnext⟩ := h
        cases ha'
        exact hnext

/-- A parser that asks the device last and then only chooses its result. -/
theorem insideText_last {γ : Type} {p : RegProg γ} {f : γ → RegProg (TextResult β)}
    (h : ∀ c, InsideText (f c)) : InsideText (p >>= f) := Prog.Returns.bind h

theorem scanPast_eq (c : Byte) (text : List Byte) (i : Nat) :
    scanPast c text i = if text.idxOf c < text.length then some (i + text.idxOf c + 1) else none := by
  induction text generalizing i with
  | nil => simp [scanPast]
  | cons b rest ih =>
      rw [scanPast, List.idxOf_cons, List.length_cons]
      by_cases hb : b = c
      · simp [hb]
      · rw [if_neg hb, ih]
        have hne : (b == c) = false := by simpa using hb
        simp only [hne, cond_false, Nat.add_lt_add_iff_right, Nat.add_right_comm i 1, Nat.add_assoc i]

theorem atohLoop_isSome {size : Nat} (text : List Byte) (i : BitVec 8) (val : BitVec 32) :
    (∃ reg, atohLoop size text i val = some reg) ↔ size ≤ 255 ∧ size ≤ i.toNat + text.length := by
  have hi := i.isLt
  induction text generalizing i val with
  | nil =>
      rw [atohLoop, List.length_nil]
      split
      · exact iff_of_false (fun h => by obtain ⟨_, h⟩ := h; cases h) (by omega)
      · exact iff_of_true ⟨val, rfl⟩ (by omega)
  | cons c rest ih =>
      rw [atohLoop, List.length_cons]
      split
      · have hnext : (i + 1).toNat = (i.toNat + 1) % 2 ^ 8 := BitVec.toNat_add i 1
        refine (ih (i + 1) (atohStep val c) (i + 1).isLt).trans ?_
        omega
      · exact iff_of_true ⟨val, rfl⟩ (by omega)

theorem atoh_isSome {text : List Byte} {size : Nat} (h : size ≤ text.length) :
    (∃ reg, atoh text size = some reg) ↔ size ≤ 255 := by
  have hzero : (0 : BitVec 8).toNat = 0 := rfl
  rw [atoh, atohLoop_isSome, hzero]
  omega

theorem regWrLoop_isSome {maxRwSize : Nat} (data : List Byte) (dataLen : Nat)
    (h : 2 * dataLen + data.length ≤ maxRwSize) :
    (∃ tmp, regWrLoop maxRwSize data dataLen = some tmp) ↔ DataEnds data := by
  fun_induction regWrLoop maxRwSize data dataLen with
  | case1 dataLen => simp [DataEnds]
  | case2 c dataLen => simp [DataEnds]
  | case3 c c' rest dataLen hgo ih =>
      rw [List.length_cons, List.length_cons] at h
      have hbyte : 2 ≤ (c :: c' :: rest).length := by simp
      obtain ⟨byte, hatoh⟩ := (atoh_isSome hbyte).2 (by decide)
      have hrest := ih (by omega)
      rw [hatoh, Option.bind_some]
      simp only [Option.map_eq_some_iff]
      have hsome : (∃ tmp a, regWrLoop maxRwSize rest (dataLen + 1) = some a ∧
          BitVec.setWidth 8 byte :: a = tmp) ↔ DataEnds rest := by
        rw [← hrest]
        constructor
        · intro hboth
          obtain ⟨_, a, ha, -⟩ := hboth
          exact ⟨a, ha⟩
        · intro hboth
          obtain ⟨a, ha⟩ := hboth
          exact ⟨_, a, ha, rfl⟩
      rw [hsome, DataEnds, DataEnds, List.length_cons, List.length_cons, Nat.add_assoc,
        Nat.add_mod_right]
      refine or_congr_right ⟨fun hexists => ?_, fun hexists => ?_⟩
      · obtain ⟨k, hk⟩ := hexists
        exact ⟨k + 1, by simpa [Nat.mul_add] using hk⟩
      · obtain ⟨k, hk⟩ := hexists
        cases k with
        | zero => exact absurd (by simpa using hk) hgo.1
        | succ k => exact ⟨k, by simpa [Nat.mul_add] using hk⟩
  | case4 c c' rest dataLen hstop =>
      rw [List.length_cons, List.length_cons] at h
      have hspace : c = chr ' ' := by
        by_contra hne
        exact hstop ⟨hne, by omega⟩
      exact iff_of_true ⟨[], rfl⟩ (.inr ⟨0, by simp [hspace]⟩)

theorem insideText_register {received : List Byte} {a : β} (data : List Byte → Prop)
    {next : Nat → BitVec 32 → RegProg (TextResult β)}
    (h : firstSpace received + 1 < received.length → ∀ reg, InsideText (next (firstSpace received + 1) reg) ↔
      data (received.drop (firstSpace received + 1))) :
    InsideText (within (scanPast (chr ' ') received 0) fun i =>
        if i ≥ received.length then .pure (.ok a) else within (atoh received (i - 1)) (next i)) ↔
      RegisterText received data := by
  rw [insideText_within, scanPast_eq, Nat.zero_add, ← firstSpace, RegisterText]
  by_cases hspace : firstSpace received < received.length
  · rw [if_pos hspace]
    simp only [Option.some.injEq, exists_eq_left']
    by_cases hmore : firstSpace received + 1 < received.length
    · rw [if_neg (Nat.not_le_of_lt hmore), Nat.add_sub_cancel, insideText_within]
      constructor
      · intro hinside
        obtain ⟨reg, hreg, hnext⟩ := hinside
        refine ⟨hspace, fun _ => ⟨?_, (h hmore reg).1 hnext⟩⟩
        exact (atoh_isSome (Nat.le_of_lt hspace)).1 ⟨reg, hreg⟩
      · intro htext
        obtain ⟨hcount, hdata⟩ := htext.2 hmore
        obtain ⟨reg, hreg⟩ := (atoh_isSome (Nat.le_of_lt hspace)).2 hcount
        exact ⟨reg, hreg, (h hmore reg).2 hdata⟩
    · rw [if_pos (Nat.le_of_not_lt hmore)]
      exact iff_of_true (insideText_ok a) ⟨hspace, fun hlt => absurd hlt hmore⟩
  · rw [if_neg hspace]
    refine iff_of_false ?_ fun htext => hspace htext.1
    intro hinside
    obtain ⟨i, hi, -⟩ := hinside
    cases hi

theorem hbiProcRegRd_inside (maxRwSize handle : Nat) (received : List Byte) (complete : Bool)
    (hbiRw : HbiRw) :
    InsideText (hbiProcRegRd maxRwSize (some handle) received complete hbiRw) ↔
      RegRdText maxRwSize received complete := by
  rw [hbiProcRegRd, RegRdText]
  dsimp only
  by_cases hfit : received.length ≤ maxRwSize
  · rw [if_neg (Nat.not_lt_of_le hfit)]
    cases complete with
    | false => exact iff_of_true (insideText_ok _) ⟨hfit, Bool.noConfusion⟩
    | true =>
        rw [if_neg (by decide), insideText_register fun _ => True]
        · exact ⟨fun htext => ⟨hfit, fun _ => htext⟩, fun htext => htext.2 rfl⟩
        · intro hmore reg
          have hlen : ¬ (received.drop (firstSpace received + 1)).length
              < received.length - (firstSpace received + 1) := by
            rw [List.length_drop]
            exact Nat.lt_irrefl _
          refine iff_of_true ?_ trivial
          rw [insideText_within, atoi, if_neg hlen]
          refine ⟨_, rfl, ?_⟩
          split
          · exact insideText_ok _
          · apply insideText_last
            intro reply
            split
            · exact insideText_ok _
            · exact insideText_ok _
  · rw [if_pos (Nat.lt_of_not_le hfit)]
    exact iff_of_false (not_insideText_error _) fun htext => hfit htext.1

theorem hbiProcRegWr_inside (maxRwSize handle : Nat) (received : List Byte) :
    InsideText (hbiProcRegWr maxRwSize (some handle) received) ↔ RegWrText maxRwSize received := by
  rw [hbiProcRegWr, RegWrText]
  by_cases hfit : received.length ≤ maxRwSize
  · rw [if_neg (Nat.not_lt_of_le hfit), insideText_register DataEnds]
    · exact ⟨fun htext => ⟨hfit, htext⟩, fun htext => htext.2⟩
    · intro hmore reg
      have hlen : 2 * 0 + (received.drop (firstSpace received + 1)).length ≤ maxRwSize := by
        rw [List.length_drop]
        omega
      rw [insideText_within, ← regWrLoop_isSome _ 0 hlen]
      have hwrite : ∀ tmp, InsideText ((do
          let reply ← Prog.query (.write handle (reg.setWidth 16) tmp)
          if reply.status ≠ .success then .pure (.ok (-1)) else .pure (.ok received.length)) :
            RegProg (TextResult Int)) := by
        intro tmp
        apply insideText_last
        intro reply
        split
        · exact insideText_ok _
        · exact insideText_ok _
      exact exists_congr fun tmp => and_iff_left (hwrite tmp)
  · rw [if_pos (Nat.lt_of_not_le hfit)]
    exact iff_of_false (not_insideText_error _) fun htext => hfit htext.1

theorem scanPast_some {c : Byte} {text : List Byte} {i k : Nat} (h : scanPast c text i = some k) :
    text[k - 1 - i]? = some c := by
  rw [scanPast_eq] at h
  split at h
  · rename_i hmem
    cases h
    rw [Nat.add_sub_cancel, Nat.add_sub_cancel_left, List.getElem?_eq_getElem hmem,
      List.getElem_idxOf hmem]
  · cases h

theorem scanPast_between {c : Byte} {text : List Byte} {i k : Nat} (h : scanPast c text i = some k) :
    ∀ j < k - 1 - i, text[j]? ≠ some c := by
  rw [scanPast_eq] at h
  split at h
  · rename_i hmem
    cases h
    intro j hj heq
    rw [Nat.add_sub_cancel, Nat.add_sub_cancel_left] at hj
    obtain ⟨hlt, hget⟩ := List.getElem?_eq_some_iff.1 heq
    have hother := List.not_of_lt_findIdx hj
    rw [hget, beq_self_eq_true] at hother
    cases hother
  · cases h

theorem scanPast_none {c : Byte} {text : List Byte} {i : Nat} (h : scanPast c text i = none) :
    c ∉ text := by
  rw [scanPast_eq] at h
  split at h
  · cases h
  · rename_i hmem
    rwa [List.idxOf_lt_length_iff] at hmem

/-! ### What `sscanf` looks at -/

theorem getLast?_of_suffix {rest str : List Byte} (h : rest <:+ str) (hne : rest ≠ []) :
    rest.getLast? = str.getLast? := by
  obtain ⟨front, rfl⟩ := h
  rw [List.getLast?_append_of_ne_nil _ hne]

theorem afterRadix_suffix (str : List Byte) : afterRadix str <:+ str := by
  unfold afterRadix
  split
  · next c x rest =>
      split
      · exact ⟨[c, x], rfl⟩
      · exact List.suffix_rfl
  · exact List.suffix_rfl

theorem behindNumber_suffix (str : List Byte) : behindNumber str <:+ str :=
  (List.dropWhile_suffix _).trans (afterRadix_suffix str)

theorem afterRadix_ne_nil {str : List Byte} (hend : str.getLast? = some (chr '\n')) : afterRadix str ≠ [] := by
  unfold afterRadix
  split
  · next c x rest =>
      split
      · next hprefix =>
          rintro rfl
          have hx : x = chr '\n' := by simpa using hend
          rw [hx] at hprefix
          exact absurd hprefix.2 (by decide)
      · exact List.cons_ne_nil _ _
  · rintro rfl
    cases hend

theorem behindNumber_ne_nil {str : List Byte} (hend : str.getLast? = some (chr '\n')) : behindNumber str ≠ [] := by
  intro hnil
  have hlast := getLast?_of_suffix (afterRadix_suffix str) (afterRadix_ne_nil hend)
  have hdigit := List.dropWhile_eq_nil_iff.1 hnil (chr '\n') (List.mem_of_getLast? (hlast.trans hend))
  exact absurd hdigit (by decide)

theorem sscanfHex_blank {str : List Byte} (h : str.dropWhile isspace = []) :
    sscanfHex str = .error .outsideText := by
  rw [sscanfHex, skipSpaces, h]
  rfl

theorem sscanfHex_other {str rest : List Byte} {c : Byte} (h : str.dropWhile isspace = c :: rest)
    (hc : isxdigit c = false) : sscanfHex str = .ok none := by
  rw [sscanfHex, skipSpaces, h]
  show (if isxdigit c = true then _ else _) = _
  rw [hc]
  rfl

theorem sscanfHex_found {str rest : List Byte} {c : Byte} (h : str.dropWhile isspace = c :: rest)
    (hc : isxdigit c = true) (hbehind : behindNumber (c :: rest) ≠ []) :
    sscanfHex str = .ok (some (((afterRadix (c :: rest)).takeWhile isxdigit).foldl
      (fun value c => value * 16 + xdigitValue c) 0, behindNumber (c :: rest))) := by
  rw [sscanfHex, skipSpaces, h]
  show (if isxdigit c = true then _ else _) = _
  rw [if_pos hc]
  unfold simpleStrtoul
  split
  · next hnil => exact absurd hnil hbehind
  · next d more hmore =>
      rw [hmore]
      rfl

theorem sscanfHex_ok_iff {str : List Byte} (hend : str = [] ∨ str.getLast? = some (chr '\n')) :
    (∃ found, sscanfHex str = .ok found) ↔ ∃ b ∈ str, isspace b = false := by
  cases hdrop : str.dropWhile isspace with
  | nil =>
      rw [sscanfHex_blank hdrop]
      refine iff_of_false (fun hok => by obtain ⟨_, h⟩ := hok; cases h) ?_
      intro hvisible
      obtain ⟨b, hb, hplain⟩ := hvisible
      rw [List.dropWhile_eq_nil_iff.1 hdrop b hb] at hplain
      cases hplain
  | cons c rest =>
      have hc : isspace c = false := by
        have hhead := List.head?_dropWhile_not isspace str
        rw [hdrop] at hhead
        exact hhead
      have hmem : c ∈ str := (List.dropWhile_sublist isspace).subset (by rw [hdrop]; exact List.mem_cons_self)
      refine iff_of_true ?_ ⟨c, hmem, hc⟩
      cases hdigit : isxdigit c with
      | false => exact ⟨_, sscanfHex_other hdrop hdigit⟩
      | true =>
          have hne : str ≠ [] := List.ne_nil_of_mem hmem
          have hlast : (c :: rest).getLast? = some (chr '\n') := by
            rw [← hend.resolve_left hne]
            exact getLast?_of_suffix (by rw [← hdrop]; exact List.dropWhile_suffix _) (List.cons_ne_nil _ _)
          exact ⟨_, sscanfHex_found hdrop hdigit (behindNumber_ne_nil hlast)⟩

/-- In a text that ends in a newline, all that `sscanf` looks at lies within the text exactly on these lines. -/
theorem sscanf_ok_iff {str : List Byte} (hend : str.getLast? = some (chr '\n')) :
    (∃ found, sscanf str = .ok found) ↔ LineInside str := by
  unfold LineInside sscanf
  cases hdrop : str.dropWhile isspace with
  | nil =>
      rw [sscanfHex_blank hdrop]
      refine iff_of_false (fun hok => by obtain ⟨_, h⟩ := hok; cases h) ?_
      intro hline
      obtain ⟨c, rest, hcons, -⟩ := hline
      cases hcons
  | cons c rest =>
      simp only [List.cons.injEq, existsAndEq, true_and, and_true]
      cases hdigit : isxdigit c with
      | false =>
          rw [sscanfHex_other hdrop hdigit]
          exact iff_of_true ⟨_, rfl⟩ fun h => absurd h Bool.false_ne_true
      | true =>
          have hlast : (c :: rest).getLast? = some (chr '\n') := by
            rw [← hend]
            exact getLast?_of_suffix (by rw [← hdrop]; exact List.dropWhile_suffix _) (List.cons_ne_nil _ _)
          have hbehind := behindNumber_ne_nil hlast
          have hlast' := (getLast?_of_suffix (behindNumber_suffix _) hbehind).trans hlast
          rw [sscanfHex_found hdrop hdigit hbehind]
          generalize behindNumber (c :: rest) = after at hlast' hbehind ⊢
          show (∃ found, (skipSpaces after >>= _) = .ok found) ↔ _
          unfold skipSpaces
          cases hafter : after.dropWhile isspace with
          | nil =>
              refine iff_of_false (fun hok => by obtain ⟨_, h⟩ := hok; cases h) ?_
              intro hline
              obtain ⟨d, more, hcons, -⟩ := hline rfl
              cases hcons
          | cons d more =>
              have hmore : more = [] ∨ more.getLast? = some (chr '\n') := by
                refine or_iff_not_imp_left.2 fun hne => ?_
                rw [← hlast']
                refine getLast?_of_suffix ?_ hne
                exact (List.suffix_cons d more).trans (by rw [← hafter]; exact List.dropWhile_suffix _)
              show (∃ found, (if d = 0 then _ else _) = Except.ok found) ↔ _
              by_cases hzero : d = 0
              · rw [if_pos hzero]
                exact iff_of_true ⟨_, rfl⟩ fun _ => ⟨d, more, rfl, fun hne => absurd hzero hne⟩
              · rw [if_neg hzero]
                have hvisible := sscanfHex_ok_iff hmore
                cases hscan : sscanfHex more with
                | error fault =>
                    rw [hscan] at hvisible
                    have hnone : ¬ ∃ b ∈ more, isspace b = false :=
                      fun h => by obtain ⟨_, h⟩ := hvisible.2 h; cases h
                    refine iff_of_false (fun hok => by obtain ⟨_, h⟩ := hok; cases h) ?_
                    intro hline
                    obtain ⟨d', more', hcons, hrest⟩ := hline rfl
                    cases hcons
                    exact hnone (hrest hzero)
                | ok found =>
                    rw [hscan] at hvisible
                    have hsome := hvisible.1 ⟨found, rfl⟩
                    refine iff_of_true ?_ fun _ => ⟨d, more, rfl, fun _ => hsome⟩
                    cases found with
                    | none => exact ⟨_, rfl⟩
                    | some number => exact ⟨_, rfl⟩

/-- A number and nothing else: the search for the character goes on behind the newline. -/
example : sscanf ("0x200\n".toList.map chr) = .error .outsideText := by decide

/-! ### Lines inside the text -/

/-- A line that is passed over, or that `sscanf` reads without looking behind the text. -/
def LineEnds (line : List Byte) : Prop := line.head? = some (chr ';') ∨ ∃ found, sscanf line = .ok found

theorem cfgrecLine_ends (handle cfgrecSize : Nat) {line : List Byte} (h : LineEnds line) :
    InsideText (cfgrecLine handle cfgrecSize line) := by
  cases line with
  | nil => exact insideText_ok _
  | cons c rest =>
      rw [cfgrecLine]
      by_cases hc : c = chr ';'
      · rw [if_pos hc]
        exact insideText_ok _
      · rw [if_neg hc]
        obtain ⟨found, hfound⟩ := h.resolve_left fun hhead => hc (Option.some.inj hhead)
        rw [hfound]
        cases found with
        | none => exact insideText_ok _
        | some number => exact insideText_last fun _ => insideText_ok _

theorem cfgrecLine_fault (handle cfgrecSize : Nat) {line : List Byte} (hne : line ≠ []) (h : ¬ LineEnds line) :
    ∃ fault, cfgrecLine handle cfgrecSize line = .pure (.error fault) := by
  cases line with
  | nil => exact absurd rfl hne
  | cons c rest =>
      rw [cfgrecLine]
      have hc : ¬ c = chr ';' := fun hc => h (.inl (congrArg some hc))
      rw [if_neg hc]
      cases hscan : sscanf (c :: rest) with
      | error fault => exact ⟨fault, rfl⟩
      | ok found => exact absurd (.inr ⟨found, hscan⟩) h

theorem insideText_line {handle cfgrecSize : Nat} {line : List Byte} (h : LineEnds line) {c : Prop}
    {next : TextResult Nat → RegProg (TextResult Nat)} (hnext : ∀ n, InsideText (next (.ok n)) ↔ c) :
    InsideText (cfgrecLine handle cfgrecSize line >>= next) ↔ c := by
  have hline := cfgrecLine_ends handle cfgrecSize h
  generalize cfgrecLine handle cfgrecSize line = p at hline ⊢
  induction p with
  | pure written =>
      obtain ⟨n, rfl⟩ := hline
      exact hnext n
  | ask q answers ih => exact (forall_congr' fun a => ih a (hline a)).trans (forall_const HbiReply)

theorem lineEnds_drop {kbuf : List Byte} {i : Nat} (hi : i < kbuf.length)
    (hend : kbuf.getLast? = some (chr '\n')) :
    LineEnds (kbuf.drop i) ↔ kbuf[i]? = some (chr ';') ∨ LineInside (kbuf.drop i) := by
  have hlast : (kbuf.drop i).getLast? = some (chr '\n') := by
    rw [List.getLast?_drop, if_neg (Nat.not_le_of_lt hi), hend]
  rw [LineEnds, List.head?_drop, sscanf_ok_iff hlast]

/-- The loop stays inside the text when the last line ends in a newline and each line from here on ends. -/
theorem cfgrecLoop_inside (handle : Nat) (kbuf : List Byte) (i cfgrecSize : Nat) (hi : i < kbuf.length) :
    InsideText (cfgrecLoop handle kbuf i cfgrecSize) ↔ kbuf.getLast? = some (chr '\n') ∧
      ∀ k, i ≤ k → k < kbuf.length → k = i ∨ kbuf[k - 1]? = some (chr '\n') → LineEnds (kbuf.drop k) := by
  induction hn : kbuf.length - i using Nat.strong_induction_on generalizing i cfgrecSize with
  | _ n ih =>
      rw [cfgrecLoop, if_pos hi]
      by_cases hline : LineEnds (kbuf.drop i)
      · apply insideText_line hline
        intro cfgrecSize
        dsimp only
        split
        · rename_i hnone
          refine iff_of_false (not_insideText_error _) fun hboth => ?_
          have hlast : (kbuf.drop i).getLast? = some (chr '\n') := by
            rw [List.getLast?_drop, if_neg (Nat.not_le_of_lt hi), hboth.1]
          exact scanPast_none hnone (List.mem_of_getLast? hlast)
        · rename_i k hk
          obtain ⟨hgt, hle⟩ := scanPast_gt hk
          have hnewline := scanPast_some hk
          have hbetween := scanPast_between hk
          rw [List.length_drop] at hle
          rw [List.getElem?_drop, show i + (k - 1 - i) = k - 1 by omega] at hnewline
          have hsame : (∀ k', i ≤ k' → k' < kbuf.length → k' = i ∨ kbuf[k' - 1]? = some (chr '\n') →
              LineEnds (kbuf.drop k')) ↔ ∀ k', k ≤ k' → k' < kbuf.length →
                k' = k ∨ kbuf[k' - 1]? = some (chr '\n') → LineEnds (kbuf.drop k') := by
            constructor
            · rintro hall k' hge hlt (rfl | hstart)
              · exact hall k' (by omega) hlt (.inr hnewline)
              · exact hall k' (by omega) hlt (.inr hstart)
            · rintro hall k' hge hlt (rfl | hstart)
              · exact hline
              · -- no newline stands between the start of this line and its end
                by_cases hnext : k ≤ k'
                · exact hall k' hnext hlt (.inr hstart)
                · by_cases hfirst : k' = i
                  · rw [hfirst]
                    exact hline
                  · exact absurd hstart (by
                      have hnot := hbetween (k' - 1 - i) (by omega)
                      rwa [List.getElem?_drop, show i + (k' - 1 - i) = k' - 1 by omega] at hnot)
          rw [hsame]
          by_cases hmore : k < kbuf.length
          · exact ih _ (by omega) k cfgrecSize hmore rfl
          · have hend : k = kbuf.length := by omega
            have hstop : cfgrecLoop handle kbuf k cfgrecSize = .pure (.ok cfgrecSize) := by
              rw [cfgrecLoop, if_neg hmore]
            rw [hstop, List.getLast?_eq_getElem?, ← hend, hnewline]
            exact iff_of_true (insideText_ok _) ⟨rfl, fun k' hge hlt => absurd hlt (by omega)⟩
      · obtain ⟨fault, hfault⟩ := cfgrecLine_fault handle cfgrecSize
          (fun hnil => absurd (List.drop_eq_nil_iff.1 hnil) (Nat.not_le_of_lt hi)) hline
        rw [hfault]
        exact iff_of_false (not_insideText_error _) fun hboth =>
          hline (hboth.2 i (Nat.le_refl i) hi (.inl rfl))

theorem hbiProcWrCfgrec_inside (handle : Nat) (received : List Byte) :
    InsideText (hbiProcWrCfgrec (some handle) received true) ↔ CfgrecText received := by
  rw [hbiProcWrCfgrec, CfgrecText]
  by_cases hempty : received.length = 0
  · rw [if_pos hempty]
    exact iff_of_true (insideText_ok _) (.inl (List.eq_nil_of_length_eq_zero hempty))
  · have hne : received ≠ [] := fun hnil => hempty (by rw [hnil, List.length_nil])
    have hloop := cfgrecLoop_inside handle received 0 0 (Nat.pos_of_ne_zero hempty)
    have hlines : (received.getLast? = some (chr '\n') ∧
        ∀ k < received.length, LineStart received k →
          received[k]? = some (chr ';') ∨ LineInside (received.drop k)) ↔
        received.getLast? = some (chr '\n') ∧ ∀ k, 0 ≤ k → k < received.length →
          k = 0 ∨ received[k - 1]? = some (chr '\n') → LineEnds (received.drop k) := by
      refine and_congr_right fun hend => forall_congr' fun k => ?_
      constructor
      · intro hall hk hlt hstart
        exact (lineEnds_drop hlt hend).2 (hall hlt hstart)
      · intro hall hlt hstart
        exact (lineEnds_drop hlt hend).1 (hall (Nat.zero_le k) hlt hstart)
    rw [if_neg hempty, if_neg (by decide), or_iff_right hne, hlines, ← hloop]
    apply Prog.returns_bind_iff
    intro loaded
    cases loaded with
    | error fault =>
        refine iff_of_false (not_insideText_error _) ?_
        intro hok
        obtain ⟨a, ha⟩ := hok
        cases ha
    | ok cfgrecSize =>
        refine iff_of_true ?_ ⟨cfgrecSize, rfl⟩
        apply insideText_last
        intro reply
        split
        · exact insideText_last fun _ => insideText_ok _
        · exact insideText_ok _

end Inside

/-- Whatever the device answers, the three parsers come to their end without looking behind the text and
without storing behind their arrays, exactly on these texts. -/
theorem text_parsers_inside_iff (maxRwSize : Nat) (dev : Option Nat) (received : List Byte)
    (complete allocated : Bool) (hbiRw : HbiRw) :
    (InsideText (hbiProcRegRd maxRwSize dev received complete hbiRw) ↔
        dev = none ∨ RegRdText maxRwSize received complete) ∧
      (InsideText (hbiProcRegWr maxRwSize dev received) ↔ dev = none ∨ RegWrText maxRwSize received) ∧
      (InsideText (hbiProcWrCfgrec dev received allocated) ↔
        dev = none ∨ allocated = false ∨ CfgrecText received) := by
  cases dev with
  | none =>
      exact ⟨iff_of_true (insideText_ok _) (.inl rfl), iff_of_true (insideText_ok _) (.inl rfl),
        iff_of_true (insideText_ok _) (.inl rfl)⟩
  | some handle =>
      have hdev : some handle ≠ none := Option.some_ne_none handle
      rw [or_iff_right hdev, or_iff_right hdev, or_iff_right hdev]
      refine ⟨hbiProcRegRd_inside _ _ _ _ _, hbiProcRegWr_inside _ _ _, ?_⟩
      cases allocated with
      | true => simpa using hbiProcWrCfgrec_inside handle received
      | false =>
          refine iff_of_true ?_ (.inl rfl)
          rw [hbiProcWrCfgrec]
          split
          · exact insideText_ok _
          · exact insideText_ok _

/-- The text `200` written to `read_reg`: it has no space. -/
theorem read_reg_scans_past :
    ¬ InsideText (hbiProcRegRd 256 (some 0) [chr '2', chr '0', chr '0'] true ⟨fun _ => 0, 0⟩) :=
  not_insideText_error _

end VprocSdk
