import VprocSdk.Hbi.Calls
import VprocSdk.Tw.Frames

/-!
# Lengths of reads and writes

`HBI_read` and `HBI_write` take any length. The count of words of a command has seven bits and stands
next to the write bit, and `internal_hbi_read` copies out of a buffer of 256 bytes. A write checks the
upper limit and a read does not; neither checks the lower one.
-/

namespace VprocSdk

open Lib

variable {lim : HbiLimits} {s : HbiDrv lim}

def maxHbiBytesPerAccess : Nat := 256

/-- The copy loop of `internal_hbi_read`; none once it indexes outside its buffer. -/
def copyLoop (buf : Nat → Byte) : Nat → Option (List Byte)
  | 0 => some []
  | i + 1 => do
      let data ← copyLoop buf i
      if i < maxHbiBytesPerAccess then some (data ++ [buf i]) else none

/-- `internal_hbi_read` with its buffer. -/
def internalHbiReadBuf (reg : RegAddr) (size : Nat) : Tw (Option (Except HbiStatus (List Byte))) := do
  let ans ← Prog.query (.read reg size)
  if ans.status ≠ .ok then return some (.error .internalErr)
  return (copyLoop (ans.data.getD · 0) size).map .ok

/-- `HBI_read` down to that buffer. -/
def hbiReadBuf (port : HalPort lim) (s : HbiDrv lim) (handle : Nat) (reg : RegAddr) (pOutput : Bool)
    (length : Nat) : Outcome (BusRecord × Option (Except HbiStatus (List Byte))) :=
  if !s.bInitialized then .done ([], some (.error .notInit))
  else if !pOutput then .done ([], some (.error .invalidArg))
  else withDevice port s handle (fun status => some (.error status)) fun _ => internalHbiReadBuf reg length

theorem copyLoop_eq (buf : Nat → Byte) (size : Nat) :
    copyLoop buf size = if size ≤ maxHbiBytesPerAccess then some ((List.range size).map buf) else none := by
  induction size with
  | zero => rfl
  | succ i ih =>
      rw [copyLoop, ih]
      by_cases hi : i < maxHbiBytesPerAccess
      · rw [if_pos (Nat.le_of_lt hi), if_pos (Nat.succ_le_of_lt hi), Option.bind_eq_bind, Option.bind_some,
          if_pos hi, List.range_succ, List.map_append]
        rfl
      · rw [if_neg (show ¬ i + 1 ≤ maxHbiBytesPerAccess from hi)]
        split
        · rfl
        · rfl

/-- While it stays in the buffer the loop copies what the port received. -/
theorem internalHbiReadBuf_eq (reg : RegAddr) {size : Nat} (h : size ≤ maxHbiBytesPerAccess) :
    internalHbiReadBuf reg size = internalHbiRead reg size >>= fun result => pure (some result) := by
  simp only [internalHbiReadBuf, internalHbiRead, Prog.query_bind, Prog.ask_bind]
  congr 1
  funext ans
  by_cases hok : ans.status = .ok
  · simp [hok, copyLoop_eq, h]
  · simp [hok]

theorem hbiReadBuf_eq (port : HalPort lim) (s : HbiDrv lim) (handle : Nat) (reg : RegAddr) (pOutput : Bool)
    {length : Nat} (h : length ≤ maxHbiBytesPerAccess) :
    hbiReadBuf port s handle reg pOutput length = (hbiRead port s handle reg pOutput length).bind
      fun (record, result) => .done (record, some result) := by
  unfold hbiReadBuf hbiRead
  split
  · rfl
  split
  · rfl
  unfold withDevice
  cases s.validHandle handle with
  | none => rfl
  | some i =>
      dsimp only
      cases (s.instList i).pDev with
      | none => rfl
      | some d =>
          dsimp only [Outcome.bind]
          rw [internalHbiReadBuf_eq reg h, Prog.run_bind]
          rfl

/-! ### What a safe access is -/

/-- The last byte of a header says the direction and one word less than the length has, and the bytes
before it are those of any access to the register. -/
def SaysLength (reg : RegAddr) (write : Bool) (length : Nat) (header : List Byte) : Prop :=
  ∃ count : Byte, header = (twHbiTpFrameHdr reg (!write) 2).dropLast ++ [count] ∧
    decide (0x80 ≤ count.toNat) = write ∧ ((count.toNat % 0x80 : Nat) : Int) = (length / 2 : Nat) - 1

/-- A read returns an error without an access, or makes one whose header says its length, and copies
inside its buffer. -/
def ReadSafe (s : HbiDrv lim) (handle : Nat) (reg : RegAddr) (pOutput : Bool) (length : Nat) : Prop :=
  ∀ port : HalPort lim, ∃ record result,
    hbiReadBuf port s handle reg pOutput length = .done (record, some result) ∧
      ((record = [] ∧ ∃ status, result = .error status) ∨
        ∃ op ans header, record = [(op, ans)] ∧ op.transfer = (header, length) ∧
          SaysLength reg false length header)

/-- A write returns an error without an access, or makes one whose header says its length, followed by
the data. -/
def WriteSafe (s : HbiDrv lim) (handle : Nat) (reg : RegAddr) (pInput : Option (List Byte)) : Prop :=
  ∀ port : HalPort lim, ∃ record status,
    hbiWrite port s handle reg pInput = .done (record, status) ∧
      ((record = [] ∧ status ≠ .success) ∨
        ∃ op ans header data, record = [(op, ans)] ∧ pInput = some data ∧
          op.transfer = (header ++ data, 0) ∧ SaysLength reg true data.length header)

/-- The driver is not initialised, the pointer is `NULL` or the handle is invalid. -/
def Refused (s : HbiDrv lim) (handle : Nat) (pointer : Bool) : Prop :=
  s.bInitialized = false ∨ pointer = false ∨ s.validHandle handle = none

/-! ### The count field -/

theorem header_eq (reg : RegAddr) (read : Bool) (size : Nat) :
    twHbiTpFrameHdr reg read size = (twHbiTpFrameHdr reg read 2).dropLast ++ [countByte read size] := by
  by_cases hpage : pageByte reg = 0
  · rw [header_direct hpage, header_direct hpage]
    rfl
  · rw [header_paged hpage, header_paged hpage]
    rfl

theorem saysLength_iff (reg : RegAddr) (write : Bool) (length : Nat) :
    SaysLength reg write length (twHbiTpFrameHdr reg (!write) length) ↔ 2 ≤ length ∧ length ≤ 257 := by
  constructor
  · intro hexists
    obtain ⟨count, -, -, hcount⟩ := hexists
    omega
  · intro h
    refine ⟨countByte (!write) length, header_eq reg (!write) length, ?_⟩
    cases write with
    | true =>
        have hcount : (countByte false length).toNat = length / 2 - 1 + 0x80 := countByte_toNat false h
        simp only [Bool.not_true, hcount]
        exact ⟨by simp, by omega⟩
    | false =>
        have hcount : (countByte true length).toNat = length / 2 - 1 + 0 := countByte_toNat true h
        simp only [Bool.not_false, hcount]
        exact ⟨by simpa using by omega, by omega⟩

/-! ### Reads and writes of the driver -/

theorem Refused.cases {handle : Nat} {pointer : Bool} (h : ¬ Refused s handle pointer) :
    s.bInitialized = true ∧ pointer = true ∧
      ∃ i : Fin lim.maxInstances, i.val = handle ∧ (s.instList i).inuse = true := by
  unfold Refused at h
  push Not at h
  obtain ⟨hinit, hpointer, hvalid⟩ := h
  obtain ⟨i, hi⟩ := Option.ne_none_iff_exists'.1 hvalid
  exact ⟨by simpa using hinit, by simpa using hpointer, i, HbiDrv.validHandle_eq_some.1 hi⟩

theorem Refused.read {handle : Nat} {pOutput : Bool} (h : Refused s handle pOutput) (port : HalPort lim)
    (reg : RegAddr) (length : Nat) :
    ∃ status, hbiReadBuf port s handle reg pOutput length = .done ([], some (.error status)) := by
  unfold hbiReadBuf
  by_cases hinit : s.bInitialized = true
  · rw [if_neg (by simp [hinit])]
    by_cases hpointer : pOutput = true
    · have hvalid : s.validHandle handle = none := by
        rcases h with hfalse | hfalse | hvalid
        · simp [hinit] at hfalse
        · simp [hpointer] at hfalse
        · exact hvalid
      refine ⟨.badHandle, ?_⟩
      rw [if_neg (by simp [hpointer]), withDevice, hvalid]
    · exact ⟨.invalidArg, by rw [if_pos (by simpa using hpointer)]⟩
  · exact ⟨.notInit, by rw [if_pos (by simpa using hinit)]⟩

theorem Refused.write {handle : Nat} {pInput : Option (List Byte)} (h : Refused s handle pInput.isSome)
    (port : HalPort lim) (reg : RegAddr) :
    ∃ status, status ≠ .success ∧ hbiWrite port s handle reg pInput = .done ([], status) := by
  unfold hbiWrite
  by_cases hinit : s.bInitialized = true
  · rw [if_neg (by simp [hinit])]
    cases pInput with
    | none => exact ⟨.invalidArg, by decide, rfl⟩
    | some data =>
        have hvalid : s.validHandle handle = none := by
          rcases h with hfalse | hfalse | hvalid
          · simp [hinit] at hfalse
          · simp at hfalse
          · exact hvalid
        refine ⟨.badHandle, by decide, ?_⟩
        dsimp only
        rw [withDevice, hvalid]
        rfl
  · exact ⟨.notInit, by decide, by rw [if_pos (by simpa using hinit)]⟩

section Valid

variable {i : Fin lim.maxInstances} {reg : RegAddr}

theorem internalHbiReadBuf_run (answer : BusRecord → BusOp → BusAnswer) (size : Nat) :
    (internalHbiReadBuf reg size).run answer [] = ([(.read reg size, answer [] (.read reg size))],
      if (answer [] (.read reg size)).status ≠ .ok then some (.error .internalErr)
      else (copyLoop ((answer [] (.read reg size)).data.getD · 0) size).map .ok) := by
  simp only [internalHbiReadBuf, Prog.query_bind, Prog.run_ask, List.nil_append]
  split
  · rfl
  · rfl

/-- On a valid handle a read is safe from one word up to the size of the buffer. -/
theorem readSafe_valid_iff (h : DriverInv none s) (hi : (s.instList i).inuse = true) (length : Nat) :
    ReadSafe s i.val reg true length ↔ 2 ≤ length ∧ length ≤ 256 := by
  obtain ⟨hinit, d, p, -, -, hwith⟩ := withDevice_eq h hi
  have hread : ∀ port : HalPort lim, hbiReadBuf port s i.val reg true length
      = .done ((internalHbiReadBuf reg length).run (port p) []) := by
    intro port
    simp [hbiReadBuf, hinit, hwith]
  have hcopy := fun buf => copyLoop_eq buf length
  have hcommand := saysLength_iff reg false length
  unfold ReadSafe
  simp only [hread, internalHbiReadBuf_run, Outcome.done.injEq, Prod.mk.injEq]
  constructor
  · intro hsafe
    obtain ⟨record, result, ⟨rfl, hresult⟩, hrecord⟩ := hsafe fun _ _ _ => ⟨.ok, []⟩
    rw [if_neg (not_not.2 rfl), hcopy] at hresult
    have hfits : length ≤ maxHbiBytesPerAccess := by
      by_contra hlong
      simp [hlong] at hresult
    rcases hrecord with ⟨hnil, -⟩ | ⟨op, ans, header, hone, htransfer, hheader⟩
    · simp at hnil
    · obtain ⟨rfl, rfl⟩ : BusOp.read reg length = op ∧ _ = ans := by simpa using hone
      obtain rfl : twHbiTpFrameHdr reg true length = header := (Prod.mk.inj htransfer).1
      exact ⟨(hcommand.1 hheader).1, hfits⟩
  · intro hlength port
    rw [hcopy, if_pos (show length ≤ maxHbiBytesPerAccess from hlength.2)]
    have hheader := hcommand.2 ⟨hlength.1, by omega⟩
    refine ⟨_, if (port p [] (.read reg length)).status ≠ .ok then .error .internalErr
      else .ok ((List.range length).map ((port p [] (.read reg length)).data.getD · 0)), ⟨rfl, ?_⟩,
      .inr ⟨_, _, _, rfl, rfl, hheader⟩⟩
    split
    · rfl
    · rfl

theorem writeSafe_valid_iff (h : DriverInv none s) (hi : (s.instList i).inuse = true) (data : List Byte) :
    WriteSafe s i.val reg (some data) ↔ 2 ≤ data.length := by
  obtain ⟨hinit, d, p, -, -, hwith⟩ := withDevice_eq h hi
  have hwrite : ∀ port : HalPort lim, hbiWrite port s i.val reg (some data)
      = .done ((internalHbiWrite reg data).run (port p) []) := by
    intro port
    simp [hbiWrite, hinit, hwith]
  unfold WriteSafe
  simp only [hwrite, Outcome.done.injEq]
  by_cases hlong : data.length > maxAccessSizeInBytes
  · have hlength : 2 ≤ data.length := by
      unfold maxAccessSizeInBytes at hlong
      omega
    have hrefused : internalHbiWrite reg data = .pure .invalidArg := by
      simp [internalHbiWrite, hlong]
    rw [hrefused]
    exact ⟨fun _ => hlength, fun _ _ => ⟨_, _, rfl, .inl ⟨rfl, by decide⟩⟩⟩
  · have hcommand := saysLength_iff reg true data.length
    have hasks : internalHbiWrite reg data
        = .ask (.write reg data) fun ans => .pure (writeResult ans) := by
      simp only [internalHbiWrite, if_neg hlong, Prog.query_bind]
      congr 1
      funext ans
      unfold writeResult
      split
      · rfl
      · split
        · rfl
        · rfl
    rw [hasks]
    constructor
    · intro hsafe
      obtain ⟨record, status, hrun, hrecord⟩ := hsafe fun _ _ _ => ⟨.ok, []⟩
      obtain ⟨rfl, rfl⟩ := Prod.mk.inj hrun
      rcases hrecord with ⟨hnil, -⟩ | ⟨op, ans, header, data', hone, hsome, htransfer, hheader⟩
      · simp at hnil
      · obtain rfl := Option.some.inj hsome
        obtain ⟨rfl, rfl⟩ : BusOp.write reg data = op ∧ _ = ans := by simpa using hone
        obtain rfl : twHbiTpFrameHdr reg false data.length = header :=
          List.append_cancel_right (Prod.mk.inj htransfer).1
        exact (hcommand.1 hheader).1
    · intro hlength port
      unfold maxAccessSizeInBytes at hlong
      have hheader := hcommand.2 ⟨hlength, by omega⟩
      exact ⟨_, _, rfl, .inr ⟨_, _, _, data, rfl, rfl, rfl, hheader⟩⟩

end Valid

/-- After every sequence of calls, an access is safe just when it is refused or has at least two bytes,
and, for a read, no more than the buffer holds. -/
theorem lengths_safe_iff {events : List (HbiEvent lim)}
    (h : (hbiMachine lim).exec .start events = some s) (handle : Nat) (reg : RegAddr) :
    (∀ pOutput length, ReadSafe s handle reg pOutput length ↔
      Refused s handle pOutput ∨ 2 ≤ length ∧ length ≤ 256) ∧
    ∀ pInput, WriteSafe s handle reg pInput ↔
      Refused s handle pInput.isSome ∨ ∃ data, pInput = some data ∧ 2 ≤ data.length := by
  have hinv := reachable_inv h
  constructor
  · intro pOutput length
    by_cases hrefused : Refused s handle pOutput
    · refine ⟨fun _ => .inl hrefused, fun _ port => ?_⟩
      obtain ⟨status, hread⟩ := hrefused.read port reg length
      exact ⟨[], .error status, hread, .inl ⟨rfl, status, rfl⟩⟩
    · obtain ⟨-, rfl, i, rfl, hi⟩ := Refused.cases hrefused
      rw [readSafe_valid_iff hinv hi]
      exact ⟨.inr, fun hcases => hcases.resolve_left hrefused⟩
  · intro pInput
    by_cases hrefused : Refused s handle pInput.isSome
    · refine ⟨fun _ => .inl hrefused, fun _ port => ?_⟩
      obtain ⟨status, hstatus, hwrite⟩ := hrefused.write port reg
      exact ⟨[], status, hwrite, .inl ⟨rfl, hstatus⟩⟩
    · obtain ⟨-, hsome, i, rfl, hi⟩ := Refused.cases hrefused
      obtain ⟨data, rfl⟩ := Option.isSome_iff_exists.1 hsome
      rw [writeSafe_valid_iff hinv hi]
      constructor
      · exact fun hlength => .inr ⟨data, rfl, hlength⟩
      · intro hcases
        obtain ⟨data', hdata, hlength⟩ := hcases.resolve_left hrefused
        obtain rfl := Option.some.inj hdata
        exact hlength

theorem oneOpen_state : ∃ s, (hbiMachine twoByTwo).exec .start [working (.open true (some (deviceCfg 7)))]
    = some s ∧ (s.instList ⟨0, by decide⟩).inuse = true := by
  have hsome : ((hbiMachine twoByTwo).exec .start [working (.open true (some (deviceCfg 7)))]).map
      (fun s => (s.instList ⟨0, by decide⟩).inuse) = some true := by decide
  exact Option.map_eq_some_iff.1 hsome

theorem lengths_safe_iff_oneOpen :
    ∃ s, (hbiMachine twoByTwo).exec .start [working (.open true (some (deviceCfg 7)))] = some s ∧
      (ReadSafe s 0 0x0012 true 0 ↔ Refused s 0 true ∨ 2 ≤ 0 ∧ 0 ≤ 256) ∧
      (WriteSafe s 0 0x0012 (some [0x12, 0x34]) ↔
        Refused s 0 true ∨ ∃ data : List Byte, some [0x12, 0x34] = some data ∧ 2 ≤ data.length) := by
  obtain ⟨s, hs, -⟩ := oneOpen_state
  obtain ⟨hread, hwrite⟩ := lengths_safe_iff hs 0 0x0012
  exact ⟨s, hs, hread true 0, hwrite (some [0x12, 0x34])⟩

/-- A read of no bytes sends a write of 128 words, and a read of 257 copies past the buffer. -/
theorem read_unsafe :
    ∃ s, (hbiMachine twoByTwo).exec .start [working (.open true (some (deviceCfg 7)))] = some s ∧
      ¬ ReadSafe s 0 0x0012 true 0 ∧ ¬ ReadSafe s 0 0x0012 true 257 := by
  obtain ⟨s, hs, hi⟩ := oneOpen_state
  have hiff : ∀ length, ReadSafe s 0 0x0012 true length ↔ 2 ≤ length ∧ length ≤ 256 :=
    fun length => readSafe_valid_iff (reachable_inv hs) hi length
  exact ⟨s, hs, fun h => absurd ((hiff 0).1 h) (by decide), fun h => absurd ((hiff 257).1 h) (by decide)⟩

end VprocSdk
