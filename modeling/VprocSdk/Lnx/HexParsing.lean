import VprocSdk.Lnx.Digits

/-!
# What the procfs entries hand to `atoh`

Four entries read a hexadecimal number from the text a user writes, and the text decides how many
characters they hand to `atoh`. A call of `atoh` ends when it is handed at most 255; its counter never gets
to a larger size, and it reads on in whatever lies behind.
-/

namespace VprocSdk

open Lib

/-- `atoh` on what lies at `s`: with `count` characters it ends with a value, with fewer it has not ended. -/
def AtohExamines (s : Nat → Byte) (size count : Nat) (value : BitVec 32) : Prop :=
  atoh (slice s 0 count) size = some value ∧ ∀ fewer < count, atoh (slice s 0 fewer) size = none

/-- `atoh` ends after the first `size` characters with the value of their digits. -/
def AtohReads (s : Nat → Byte) (size : Nat) : Prop :=
  AtohExamines s size size (BitVec.ofNat 32 (hexTextValue (slice s 0 size)))

/-! ### The callers -/

/-- A call of `atoh`. -/
structure AtohCall where
  s : Nat → Byte
  size : Nat

def AtohCall.Ends (call : AtohCall) : Prop := ∃ count value, AtohExamines call.s call.size count value

/-- The entries that call `atoh`. -/
inductive ProcEntry
  | readReg | writeReg | openDevice | closeDevice
  deriving DecidableEq, Repr

/-- A write to an entry: the text that was received, whether all of it could be copied, the HBI handle of
the file's device, and what lies behind the text in memory up to the first zero. -/
structure ProcWrite where
  received : List Byte
  complete : Bool
  dev : Option Nat
  behind : List Byte

/-- `strchr` from index `i` on. -/
def strchr (c : Byte) : List Byte → Nat → Option Nat
  | [], _ => none
  | b :: rest, i => if b = c then some i else if b = 0 then none else strchr c rest (i + 1)

/-- The number of the register, before the first space of a text that goes on behind it. -/
def registerCall (received : List Byte) (next : Nat → List AtohCall) : List AtohCall :=
  match scanPast (chr ' ') received 0 with
  | none => []
  | some i => if i ≥ received.length then [] else ⟨listMem received, i - 1⟩ :: next i

/-- The bytes of `hbi_proc_reg_wr`, two characters each. -/
def byteCalls (maxRwSize : Nat) : List Byte → Nat → List AtohCall
  | c :: c' :: rest, dataLen =>
      if c ≠ chr ' ' ∧ dataLen < maxRwSize then
        ⟨listMem (c :: c' :: rest), 2⟩ :: byteCalls maxRwSize rest (dataLen + 1)
      else []
  | _, _ => []

namespace ProcWrite

/-- The calls of `atoh` in `hbi_proc_reg_rd`, `hbi_proc_reg_wr`, `hbi_proc_open_dev_wr` and
`hbi_proc_close_dev_wr`. -/
def atohCalls (maxRwSize : Nat) (w : ProcWrite) : ProcEntry → List AtohCall
  | .readReg => if w.dev = none ∨ w.complete = false then [] else registerCall w.received fun _ => []
  | .writeReg =>
      if w.dev = none then []
      else registerCall w.received fun i => byteCalls maxRwSize (w.received.drop i) 0
  | .openDevice =>
      match strchr (chr ':') (w.received ++ w.behind) 0 with
      | none => []
      | some tmp =>
          -- The bus number is copied out; the address begins with the colon.
          [⟨listMem ((w.received ++ w.behind).take tmp), tmp⟩,
            ⟨listMem ((w.received ++ w.behind).drop tmp), w.received.length - tmp⟩]
  | .closeDevice => [⟨listMem (w.received ++ w.behind), w.received.length⟩]

/-- Every number the entry reads comes to its end. -/
def Returns (maxRwSize : Nat) (w : ProcWrite) (entry : ProcEntry) : Prop :=
  ∀ call ∈ w.atohCalls maxRwSize entry, call.Ends

def SizesFit (w : ProcWrite) : ProcEntry → Prop
  | .readReg => w.dev ≠ none → w.complete = true → firstSpace w.received + 1 < w.received.length →
      firstSpace w.received ≤ 255
  | .writeReg => w.dev ≠ none → firstSpace w.received + 1 < w.received.length → firstSpace w.received ≤ 255
  | .openDevice => ∀ tmp, strchr (chr ':') (w.received ++ w.behind) 0 = some tmp →
      tmp ≤ 255 ∧ w.received.length - tmp ≤ 255
  | .closeDevice => w.received.length ≤ 255

end ProcWrite

section Atoh

theorem atohReads_iff (s : Nat → Byte) (size : Nat) : AtohReads s size ↔ size ≤ 255 := by
  constructor
  · intro h
    by_contra hlarge
    have hnone : atoh (slice s 0 size) size = none := atoh_none fun hboth => hlarge hboth.1
    rw [AtohReads, AtohExamines, hnone] at h
    cases h.1
  · intro hsize
    have hlen : size ≤ (slice s 0 size).length := Nat.le_of_eq (slice_length s 0 size).symm
    constructor
    · rw [atoh_eq hsize hlen, List.take_of_length_le (Nat.le_of_eq (slice_length s 0 size))]
    · intro fewer hfewer
      apply atoh_none
      rw [slice_length]
      omega

theorem AtohCall.ends_iff (call : AtohCall) : call.Ends ↔ call.size ≤ 255 := by
  constructor
  · intro h
    obtain ⟨count, value, hvalue, -⟩ := h
    by_contra hlarge
    rw [atoh_none fun hboth => hlarge hboth.1] at hvalue
    cases hvalue
  · intro hsize
    exact ⟨call.size, _, (atohReads_iff call.s call.size).2 hsize⟩

theorem byteCalls_end (maxRwSize : Nat) (data : List Byte) (dataLen : Nat) :
    ∀ call ∈ byteCalls maxRwSize data dataLen, call.Ends := by
  fun_induction byteCalls maxRwSize data dataLen with
  | case1 c c' rest dataLen hgo ih =>
      intro call hcall
      rcases List.mem_cons.1 hcall with rfl | hrest
      · rw [AtohCall.ends_iff]
        exact (by decide : 2 ≤ 255)
      · exact ih call hrest
  | case2 => simp
  | case3 => simp

theorem registerCall_ends_iff {received : List Byte} {next : Nat → List AtohCall}
    (hnext : ∀ i, ∀ call ∈ next i, call.Ends) :
    (∀ call ∈ registerCall received next, call.Ends) ↔
      (firstSpace received + 1 < received.length → firstSpace received ≤ 255) := by
  rw [registerCall, scanPast_eq, Nat.zero_add, ← firstSpace]
  by_cases hspace : firstSpace received < received.length
  · rw [if_pos hspace]
    dsimp only
    by_cases hmore : firstSpace received + 1 < received.length
    · rw [if_neg (Nat.not_le_of_lt hmore), List.forall_mem_cons, AtohCall.ends_iff, Nat.add_sub_cancel]
      exact ⟨fun h _ => h.1, fun h => ⟨h hmore, hnext _⟩⟩
    · rw [if_pos (Nat.le_of_not_lt hmore)]
      exact iff_of_true (by simp) fun h => absurd h hmore
  · rw [if_neg hspace]
    exact iff_of_true (by simp) fun h => absurd (Nat.lt_of_succ_lt h) hspace

end Atoh

/-- An entry returns from its numbers when the sizes it takes from the text fit. -/
theorem ProcWrite.returns_iff (w : ProcWrite) (maxRwSize : Nat) (entry : ProcEntry) :
    w.Returns maxRwSize entry ↔ w.SizesFit entry := by
  cases entry with
  | readReg =>
      rw [ProcWrite.Returns, ProcWrite.atohCalls, ProcWrite.SizesFit]
      by_cases hstop : w.dev = none ∨ w.complete = false
      · rw [if_pos hstop]
        refine iff_of_true (by simp) ?_
        intro hdev hcomplete
        rw [hcomplete] at hstop
        exact absurd hstop (by simp [hdev])
      · rw [if_neg hstop, registerCall_ends_iff (by simp)]
        have hdev : w.dev ≠ none := fun h => hstop (.inl h)
        have hcomplete : w.complete = true := by simpa using fun h => hstop (.inr h)
        exact ⟨fun h _ _ => h, fun h => h hdev hcomplete⟩
  | writeReg =>
      rw [ProcWrite.Returns, ProcWrite.atohCalls, ProcWrite.SizesFit]
      by_cases hdev : w.dev = none
      · rw [if_pos hdev]
        exact iff_of_true (by simp) fun h => absurd hdev h
      · rw [if_neg hdev, registerCall_ends_iff fun i => byteCalls_end maxRwSize _ 0]
        exact ⟨fun h _ => h, fun h => h hdev⟩
  | openDevice =>
      rw [ProcWrite.Returns, ProcWrite.atohCalls, ProcWrite.SizesFit]
      cases strchr (chr ':') (w.received ++ w.behind) 0 with
      | none => exact iff_of_true (by simp) (by simp)
      | some tmp => simp [AtohCall.ends_iff]
  | closeDevice =>
      rw [ProcWrite.Returns, ProcWrite.atohCalls, ProcWrite.SizesFit, List.forall_mem_singleton,
        AtohCall.ends_iff]

/-- `atoh` ends after exactly the characters it is handed, with their value, when these are at most 255;
and the entries of the procfs return from their numbers when the sizes they take from the text are. -/
theorem hex_parsing_iff (s : Nat → Byte) (size maxRwSize : Nat) (w : ProcWrite) (entry : ProcEntry) :
    (AtohReads s size ↔ size ≤ 255) ∧ (w.Returns maxRwSize entry ↔ w.SizesFit entry) :=
  ⟨atohReads_iff s size, w.returns_iff maxRwSize entry⟩

/-- A text of 256 characters `0`: the call does not end, however far it reads, and so the write of the
text to `close_device` does not return. -/
theorem long_text_never_ends : ¬ (AtohCall.mk (fun _ => chr '0') 256).Ends ∧
    ¬ ProcWrite.Returns 256 ⟨List.replicate 256 (chr '0'), true, none, []⟩ .closeDevice := by
  constructor
  · rw [AtohCall.ends_iff]
    decide
  · rw [ProcWrite.returns_iff, ProcWrite.SizesFit, List.length_replicate]
    decide

end VprocSdk
