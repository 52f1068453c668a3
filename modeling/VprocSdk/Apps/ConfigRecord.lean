import Mathlib.Data.List.Induction
import VprocSdk.Converter.Images
import VprocSdk.Converter.Text

/-!
# Loading a configuration record

`LoadConfigCr2` writes the registers of a CR2 text to the device, consecutive ones together and at most 16
in a write. A write is made when a record does not follow the one before it and when the buffer is full,
and at no other moment, so that what the buffer holds at the end of the text is not written. `prev_addr`
is 0 when a buffer has just been written; a record at address 0 leaves the same mark.

`Holding` says how the records read so far are divided between the device and the buffer, `InOrder` that
they are where they belong and `Astray` that one of them is not or will not be.
-/

namespace VprocSdk

open Lib

/-- `CR2_BLOCK_SIZE`. -/
def cr2BlockSize : Nat := 16

/-- The words of a write, each with its register. -/
def wordsAt (addr : Int) : List Int → List (Int × Int)
  | high :: low :: rest => (addr, high * 0x100 + low) :: wordsAt (addr + 2) rest
  | _ => []

/-- `HBI_write` of the Python wrapper, on the words the device has received. The address is a `reg_addr_t`. -/
def pyHbiWrite (device : List (Int × Int)) (addr : Int) (bytes : List Int) :
    Except PyError (List (Int × Int)) :=
  if 0 ≤ addr ∧ addr ≤ 0xFFFF then .ok (device ++ wordsAt addr bytes) else .error .overflowError

/-- The variables of the loop, and the words the device has received. -/
structure Cr2State where
  device : List (Int × Int)
  dataBuffer : List Int
  prevAddr : Int
  currentAddr : Int
  blockSize : Nat
  deriving DecidableEq, Repr

namespace Cr2State

def start : Cr2State := ⟨[], [], 0, 0, 0⟩

def ship (st : Cr2State) : Except PyError Cr2State := do
  let device ← pyHbiWrite st.device st.currentAddr st.dataBuffer
  return { st with device, dataBuffer := [], blockSize := 0 }

/-- The starting values, and the write before a record that does not follow the last. -/
def ready (st : Cr2State) (addr : Int) : Except PyError Cr2State := do
  let st := if st.prevAddr = 0 then { st with currentAddr := addr, prevAddr := addr - 2 } else st
  if addr ≠ st.prevAddr + 2 then do
    let st ← st.ship
    return { st with currentAddr := addr }
  else return st

def accumulate (st : Cr2State) (addr data : Int) : Except PyError Cr2State :=
  let st := { st with
    blockSize := st.blockSize + 1
    dataBuffer := st.dataBuffer ++ [data / 2 ^ 8 % 0x100, data % 0x100]
    prevAddr := addr }
  if st.blockSize = cr2BlockSize then do
    let st ← st.ship
    return { st with prevAddr := 0 }
  else return st

end Cr2State

def loadRecords : List (Int × Int) → Cr2State → Except PyError Cr2State
  | [], st => .ok st
  | (addr, data) :: records, st => do
      let st ← st.ready addr
      let st ← st.accumulate addr data
      loadRecords records st

/-- What the device has received when `LoadConfigCr2` returns. -/
def loadConfigCr2 (configRecordBuf : List Char) : Except PyError (List (Int × Int)) := do
  let st ← loadRecords (cr2Records configRecordBuf) .start
  return st.device

/-- The length of the longest run of consecutive addresses at the beginning of a list read backwards. -/
def runBack : List (Int × Int) → Nat
  | [] => 0
  | [_] => 1
  | record :: before :: records =>
      if record.1 = before.1 + 2 then runBack (before :: records) + 1 else 1

/-- The length of the run of consecutive addresses that ends a list of records. -/
def lastRun (records : List (Int × Int)) : Nat := runBack records.reverse

theorem lastRun_snoc_next {records : List (Int × Int)} {before record : Int × Int}
    (hlast : records.getLast? = some before) (hnext : record.1 = before.1 + 2) :
    lastRun (records ++ [record]) = lastRun records + 1 := by
  obtain ⟨init, rfl⟩ := List.getLast?_eq_some_iff.1 hlast
  simp [lastRun, runBack, hnext]

theorem lastRun_snoc_gap {records : List (Int × Int)} {record : Int × Int}
    (hgap : ∀ before, records.getLast? = some before → record.1 ≠ before.1 + 2) :
    lastRun (records ++ [record]) = 1 := by
  cases records using List.reverseRecOn with
  | nil => rfl
  | append_singleton init before =>
      have hne := hgap before (by simp)
      simp [lastRun, runBack, hne]

/-! ### Words in their places -/

/-- The values of records, at consecutive addresses. -/
def placedAt (addr : Int) : List (Int × Int) → List (Int × Int)
  | [] => []
  | record :: records => (addr, record.2) :: placedAt (addr + 2) records

@[simp] theorem placedAt_length (addr : Int) (records : List (Int × Int)) :
    (placedAt addr records).length = records.length := by
  induction records generalizing addr with
  | nil => rfl
  | cons record records ih => simp [placedAt, ih]

theorem placedAt_append (addr : Int) (records more : List (Int × Int)) :
    placedAt addr (records ++ more)
      = placedAt addr records ++ placedAt (addr + 2 * records.length) more := by
  induction records generalizing addr with
  | nil => simp [placedAt]
  | cons record records ih =>
      have haddr : addr + 2 + 2 * (records.length : Int) = addr + 2 * ((record :: records).length : Int) := by
        rw [List.length_cons]
        omega
      rw [List.cons_append, placedAt, placedAt, ih, haddr, List.cons_append]

/-- The bytes of records, as the loop appends them. -/
def recordBytes (records : List (Int × Int)) : List Int :=
  records.flatMap fun record => [record.2 / 2 ^ 8 % 0x100, record.2 % 0x100]

def IsValue (data : Int) : Prop := 0 ≤ data ∧ data ≤ 0xFFFF

instance (data : Int) : Decidable (IsValue data) := inferInstanceAs (Decidable (_ ∧ _))

theorem wordsAt_recordBytes {records : List (Int × Int)} (h : ∀ r ∈ records, IsValue r.2) (addr : Int) :
    wordsAt addr (recordBytes records) = placedAt addr records := by
  induction records generalizing addr with
  | nil => rfl
  | cons record records ih =>
      obtain ⟨hlow, hhigh⟩ := h record (List.mem_cons_self ..)
      have hvalue : record.2 / 2 ^ 8 % 0x100 * 0x100 + record.2 % 0x100 = record.2 := by omega
      have hrest := ih (fun r hr => h r (List.mem_cons_of_mem _ hr)) (addr + 2)
      rw [recordBytes, List.flatMap_cons, ← recordBytes]
      simp only [List.cons_append, List.nil_append, wordsAt, placedAt, hvalue, hrest]

/-! ### The buffer and the device -/

/-- The records read so far: the buffer holds `pending`, and the device has a word for each of `sent`. -/
structure Holding (records : List (Int × Int)) (st : Cr2State) (sent pending : List (Int × Int)) : Prop where
  divided : records = sent ++ pending
  dataBuffer : st.dataBuffer = recordBytes pending
  blockSize : st.blockSize = pending.length
  device : st.device.length = sent.length
  value : ∀ r ∈ records, IsValue r.2

/-- Every word is at its register, on the device and in the buffer. -/
structure InOrder (records : List (Int × Int)) (st : Cr2State) (sent pending : List (Int × Int)) : Prop where
  device : st.device = sent
  buffer : pending = placedAt st.currentAddr pending
  prev : pending ≠ [] → ∃ last, records.getLast? = some last ∧ last.1 = st.prevAddr ∧ st.prevAddr ≠ 0 ∧
    st.prevAddr + 2 = st.currentAddr + 2 * pending.length
  empty : pending = [] → st.prevAddr = 0
  run : lastRun records % cr2BlockSize = pending.length

/-- A word is on the device at another register, or will be once the buffer is written. -/
def Astray (st : Cr2State) (sent pending : List (Int × Int)) : Prop :=
  st.device ≠ sent ∨ pending ≠ [] ∧ (st.prevAddr = 0 ∨ pending ≠ placedAt st.currentAddr pending)

section Records

variable {records sent pending : List (Int × Int)} {st st' : Cr2State} {addr data : Int}

theorem ship_eq (hbytes : st.dataBuffer = recordBytes pending) (hvalue : ∀ r ∈ pending, IsValue r.2)
    (h : st.ship = .ok st') :
    st' = { st with
      device := st.device ++ placedAt st.currentAddr pending, dataBuffer := [], blockSize := 0 } := by
  unfold Cr2State.ship pyHbiWrite at h
  split at h
  · rw [hbytes, wordsAt_recordBytes hvalue] at h
    exact (Except.ok.inj h).symm
  · cases h

/-- What is done before a record is taken: nothing but a restart after a write, nothing when it follows
the one before it, and a write otherwise. -/
theorem ready_cases (hold : Holding records st sent pending) (h : st.ready addr = .ok st') :
    (st.prevAddr = 0 ∧ st' = { st with currentAddr := addr, prevAddr := addr - 2 }) ∨
    (st.prevAddr ≠ 0 ∧ addr = st.prevAddr + 2 ∧ st' = st) ∨
    (st.prevAddr ≠ 0 ∧ addr ≠ st.prevAddr + 2 ∧ st' = { st with
      device := st.device ++ placedAt st.currentAddr pending
      dataBuffer := []
      blockSize := 0
      currentAddr := addr }) := by
  unfold Cr2State.ready at h
  by_cases hprev : st.prevAddr = 0
  · left
    rw [if_pos hprev] at h
    simp only [Int.sub_add_cancel, ne_eq, not_true_eq_false, if_false] at h
    exact ⟨hprev, (Except.ok.inj h).symm⟩
  · right
    rw [if_neg hprev] at h
    by_cases hnext : addr = st.prevAddr + 2
    · left
      simp only [ne_eq, hnext, not_true_eq_false, if_false] at h
      exact ⟨hprev, hnext, (Except.ok.inj h).symm⟩
    · right
      simp only [ne_eq, hnext, not_false_eq_true, if_true] at h
      obtain ⟨shipped, hship, hdone⟩ := except_bind_ok h
      have hvalue : ∀ r ∈ pending, IsValue r.2 := fun r hr =>
        hold.value r (by rw [hold.divided]; exact List.mem_append_right _ hr)
      refine ⟨hprev, hnext, ?_⟩
      rw [← Except.ok.inj hdone, ship_eq hold.dataBuffer hvalue hship]

/-- What a record finds when every word is in order: its own place is next in the buffer. -/
structure NextInOrder (records : List (Int × Int)) (st : Cr2State) (sent pending : List (Int × Int))
    (record : Int × Int) : Prop where
  device : st.device = sent
  buffer : pending ++ [record] = placedAt st.currentAddr (pending ++ [record])
  small : pending.length < cr2BlockSize
  run : lastRun (records ++ [record]) % cr2BlockSize = (pending.length + 1) % cr2BlockSize

/-- What it finds when one is not. -/
def NextAstray (st : Cr2State) (sent pending : List (Int × Int)) (record : Int × Int) : Prop :=
  st.device ≠ sent ∨ pending ++ [record] ≠ placedAt st.currentAddr (pending ++ [record])

theorem placedAt_snoc (start : Int) (pending : List (Int × Int)) (record : Int × Int) :
    placedAt start (pending ++ [record])
      = placedAt start pending ++ [(start + 2 * (pending.length : Int), record.2)] :=
  placedAt_append start pending [record]

theorem placed_snoc {start : Int} (h : pending = placedAt start pending)
    (haddr : addr = start + 2 * (pending.length : Int)) :
    pending ++ [(addr, data)] = placedAt start (pending ++ [(addr, data)]) := by
  rw [placedAt_snoc, ← h, haddr]

theorem not_placed_snoc {start : Int} (h : pending ≠ placedAt start pending) (record : Int × Int) :
    pending ++ [record] ≠ placedAt start (pending ++ [record]) := by
  rw [placedAt_snoc]
  intro heq
  exact h (List.append_inj_left heq (placedAt_length start pending).symm)

/-- A restart puts the record where the buffer begins, so nothing may be in the buffer. -/
theorem not_placed_restart (hpending : pending ≠ []) :
    pending ++ [(addr, data)] ≠ placedAt addr (pending ++ [(addr, data)]) := by
  rw [placedAt_snoc]
  intro heq
  have hlast := List.append_inj_right heq (placedAt_length addr pending).symm
  have hlength := List.length_pos_iff.2 hpending
  rw [List.cons.injEq, Prod.mk.injEq] at hlast
  omega

theorem InOrder.pending_lt (h : InOrder records st sent pending) : pending.length < cr2BlockSize := by
  rw [← h.run]
  exact Nat.mod_lt _ (by decide)

theorem InOrder.restart (order : InOrder records st sent pending) (hprev : st.prevAddr = 0)
    (addr data : Int) : NextInOrder records { st with currentAddr := addr, prevAddr := addr - 2 } sent
      pending (addr, data) := by
  have hempty : pending = [] := by
    by_contra hne
    obtain ⟨-, -, -, hnonzero, -⟩ := order.prev hne
    exact hnonzero hprev
  subst hempty
  refine ⟨order.device, rfl, order.pending_lt, ?_⟩
  have hrun := order.run
  by_cases hfollows : ∃ before, records.getLast? = some before ∧ addr = before.1 + 2
  · obtain ⟨before, hlast, hnext⟩ := hfollows
    rw [lastRun_snoc_next hlast hnext, Nat.add_mod, hrun]
    rfl
  · have hrun' : lastRun (records ++ [(addr, data)]) = 1 :=
      lastRun_snoc_gap fun before hlast hnext => hfollows ⟨before, hlast, hnext⟩
    rw [hrun']
    rfl

theorem InOrder.follow (order : InOrder records st sent pending) (hprev : st.prevAddr ≠ 0)
    (hnext : addr = st.prevAddr + 2) (data : Int) : NextInOrder records st sent pending (addr, data) := by
  have hpending : pending ≠ [] := fun hempty => hprev (order.empty hempty)
  obtain ⟨last, hlast, haddr, -, hplace⟩ := order.prev hpending
  refine ⟨order.device, placed_snoc order.buffer (hnext.trans hplace), order.pending_lt, ?_⟩
  have hrun := order.run
  rw [lastRun_snoc_next hlast (by rw [haddr]; exact hnext), Nat.add_mod, hrun]
  rfl

theorem InOrder.gap (order : InOrder records st sent pending) (hprev : st.prevAddr ≠ 0)
    (hgap : addr ≠ st.prevAddr + 2) (data : Int) : NextInOrder records { st with
      device := st.device ++ placedAt st.currentAddr pending
      dataBuffer := []
      blockSize := 0
      currentAddr := addr } (sent ++ pending) [] (addr, data) := by
  have hpending : pending ≠ [] := fun hempty => hprev (order.empty hempty)
  obtain ⟨last, hlast, haddr, -, -⟩ := order.prev hpending
  refine ⟨?_, rfl, by decide, ?_⟩
  · show st.device ++ placedAt st.currentAddr pending = sent ++ pending
    rw [order.device, ← order.buffer]
  · have hrun : lastRun (records ++ [(addr, data)]) = 1 := by
      apply lastRun_snoc_gap
      intro before hbefore hnext
      rw [hlast] at hbefore
      cases hbefore
      exact hgap (by rw [← haddr]; exact hnext)
    rw [hrun]
    rfl

theorem ready_holds (hold : Holding records st sent pending) (h : st.ready addr = .ok st') (data : Int) :
    ∃ sent' pending', Holding records st' sent' pending' ∧
      (InOrder records st sent pending → NextInOrder records st' sent' pending' (addr, data)) ∧
      (Astray st sent pending → NextAstray st' sent' pending' (addr, data)) := by
  rcases ready_cases hold h with ⟨hprev, rfl⟩ | ⟨hprev, hnext, rfl⟩ | ⟨hprev, hgap, rfl⟩
  · refine ⟨sent, pending, ⟨hold.divided, hold.dataBuffer, hold.blockSize, hold.device, hold.value⟩,
      fun order => order.restart hprev addr data, ?_⟩
    intro hastray
    rcases hastray with hdevice | ⟨hpending, -⟩
    · exact Or.inl hdevice
    · exact Or.inr (not_placed_restart hpending)
  · refine ⟨sent, pending, hold, fun order => order.follow hprev hnext data, ?_⟩
    intro hastray
    rcases hastray with hdevice | ⟨-, hzero | hbuffer⟩
    · exact Or.inl hdevice
    · exact absurd hzero hprev
    · exact Or.inr (not_placed_snoc hbuffer _)
  · refine ⟨sent ++ pending, [], ⟨?_, rfl, rfl, ?_, hold.value⟩,
      fun order => order.gap hprev hgap data, ?_⟩
    · rw [List.append_nil]
      exact hold.divided
    · rw [List.length_append, List.length_append, placedAt_length, hold.device]
    · intro hastray
      left
      show st.device ++ placedAt st.currentAddr pending ≠ sent ++ pending
      intro heq
      obtain ⟨hdevice, hbuffer⟩ := List.append_inj heq hold.device
      rcases hastray with hwrong | ⟨-, hzero | hwrong⟩
      · exact hwrong hdevice
      · exact hprev hzero
      · exact hwrong hbuffer.symm

theorem Holding.value_snoc (hold : Holding records st sent pending) (hdata : IsValue data) :
    ∀ r ∈ records ++ [(addr, data)], IsValue r.2 := by
  intro r hr
  rcases List.mem_append.1 hr with hbefore | hnew
  · exact hold.value r hbefore
  · rw [List.mem_singleton.1 hnew]
    exact hdata

theorem Holding.kept (hold : Holding records st sent pending) (hdata : IsValue data) :
    Holding (records ++ [(addr, data)]) { st with
      blockSize := st.blockSize + 1
      dataBuffer := recordBytes (pending ++ [(addr, data)])
      prevAddr := addr } sent (pending ++ [(addr, data)]) where
  divided := by rw [hold.divided, List.append_assoc]
  dataBuffer := rfl
  blockSize := by
    rw [List.length_append, ← hold.blockSize]
    rfl
  device := hold.device
  value := hold.value_snoc hdata

theorem Holding.written (hold : Holding records st sent pending) (hdata : IsValue data) :
    Holding (records ++ [(addr, data)]) { st with
      device := st.device ++ placedAt st.currentAddr (pending ++ [(addr, data)])
      dataBuffer := []
      blockSize := 0
      prevAddr := 0 } (sent ++ (pending ++ [(addr, data)])) [] where
  divided := by rw [hold.divided, List.append_nil, List.append_assoc]
  dataBuffer := rfl
  blockSize := rfl
  device := by rw [List.length_append, List.length_append, placedAt_length, hold.device]
  value := hold.value_snoc hdata

theorem accumulate_cases (hold : Holding records st sent pending) (hdata : IsValue data)
    (h : st.accumulate addr data = .ok st') :
    (pending.length + 1 ≠ cr2BlockSize ∧ st' = { st with
      blockSize := st.blockSize + 1
      dataBuffer := recordBytes (pending ++ [(addr, data)])
      prevAddr := addr }) ∨
    (pending.length + 1 = cr2BlockSize ∧ st' = { st with
      device := st.device ++ placedAt st.currentAddr (pending ++ [(addr, data)])
      dataBuffer := []
      blockSize := 0
      prevAddr := 0 }) := by
  have hbytes : st.dataBuffer ++ [data / 2 ^ 8 % 0x100, data % 0x100]
      = recordBytes (pending ++ [(addr, data)]) := by
    rw [hold.dataBuffer, recordBytes, recordBytes, List.flatMap_append]
    rfl
  unfold Cr2State.accumulate at h
  simp only [hbytes] at h
  by_cases hfull : pending.length + 1 = cr2BlockSize
  · right
    rw [if_pos (by rw [hold.blockSize]; exact hfull)] at h
    obtain ⟨shipped, hship, hdone⟩ := except_bind_ok h
    have hvalue : ∀ r ∈ pending ++ [(addr, data)], IsValue r.2 := by
      intro r hr
      apply hold.value_snoc hdata
      rw [hold.divided, List.append_assoc]
      exact List.mem_append_right _ hr
    refine ⟨hfull, ?_⟩
    rw [← Except.ok.inj hdone, ship_eq rfl hvalue hship]
  · left
    rw [if_neg (by rw [hold.blockSize]; exact hfull)] at h
    exact ⟨hfull, (Except.ok.inj h).symm⟩

/-- Where the words are after a record: at their registers, and no record had address 0, or one astray. -/
def Settled (records : List (Int × Int)) (st : Cr2State) (sent pending : List (Int × Int)) : Prop :=
  InOrder records st sent pending ∧ (∀ r ∈ records, r.1 ≠ 0) ∨
    Astray st sent pending ∧ ∃ r ∈ records, r.1 = 0

theorem accumulate_astray (hold : Holding records st sent pending) (hdata : IsValue data)
    (hnext : NextAstray st sent pending (addr, data)) (h : st.accumulate addr data = .ok st') :
    ∃ sent' pending', Holding (records ++ [(addr, data)]) st' sent' pending' ∧ Astray st' sent' pending' := by
  rcases accumulate_cases hold hdata h with ⟨-, rfl⟩ | ⟨-, rfl⟩
  · refine ⟨sent, pending ++ [(addr, data)], hold.kept hdata, ?_⟩
    rcases hnext with hdevice | hbuffer
    · exact Or.inl hdevice
    · exact Or.inr ⟨by simp, Or.inr hbuffer⟩
  · refine ⟨sent ++ (pending ++ [(addr, data)]), [], hold.written hdata, Or.inl ?_⟩
    show st.device ++ placedAt st.currentAddr (pending ++ [(addr, data)]) ≠ _
    intro heq
    obtain ⟨hdevice, hbuffer⟩ := List.append_inj heq hold.device
    rcases hnext with hwrong | hwrong
    · exact hwrong hdevice
    · exact hwrong hbuffer.symm

theorem accumulate_inOrder (hold : Holding records st sent pending) (hdata : IsValue data)
    (hnext : NextInOrder records st sent pending (addr, data))
    (haddr : ∀ r ∈ records ++ [(addr, data)], 0 ≤ r.1) (h : st.accumulate addr data = .ok st') :
    ∃ sent' pending', Holding (records ++ [(addr, data)]) st' sent' pending' ∧
      (addr ≠ 0 → InOrder (records ++ [(addr, data)]) st' sent' pending') ∧
      (addr = 0 → Astray st' sent' pending') := by
  have hsmall := hnext.small
  have hplace : addr = st.currentAddr + 2 * (pending.length : Int) := by
    have hbuffer := hnext.buffer
    rw [placedAt_snoc] at hbuffer
    have hlast := List.append_inj_right hbuffer (placedAt_length st.currentAddr pending).symm
    rw [List.cons.injEq, Prod.mk.injEq] at hlast
    exact hlast.1.1
  rcases accumulate_cases hold hdata h with ⟨hpart, rfl⟩ | ⟨hfull, rfl⟩
  · refine ⟨sent, pending ++ [(addr, data)], hold.kept hdata, ?_, ?_⟩
    · intro hnonzero
      refine ⟨hnext.device, hnext.buffer, fun _ => ⟨(addr, data), by simp, rfl, hnonzero, ?_⟩, ?_, ?_⟩
      · rw [List.length_append, List.length_singleton]
        show addr + 2 = st.currentAddr + 2 * ((pending.length + 1 : Nat) : Int)
        omega
      · intro hempty
        simp at hempty
      · rw [hnext.run, List.length_append, List.length_singleton]
        exact Nat.mod_eq_of_lt (by omega)
    · intro hzero
      exact Or.inr ⟨by simp, Or.inl hzero⟩
  · refine ⟨sent ++ (pending ++ [(addr, data)]), [], hold.written hdata, ?_, ?_⟩
    · intro _
      refine ⟨?_, rfl, fun hne => absurd rfl hne, fun _ => rfl, ?_⟩
      · show st.device ++ placedAt st.currentAddr (pending ++ [(addr, data)]) = _
        rw [← hnext.buffer, hnext.device]
      · rw [hnext.run, hfull]
        rfl
    · -- the first of sixteen consecutive records up to address 0 would have a negative address
      intro hzero
      unfold cr2BlockSize at hfull
      cases pending with
      | nil => simp at hfull
      | cons first rest =>
          have hfirst : first.1 = st.currentAddr := by
            have hbuffer := hnext.buffer
            rw [List.cons_append, placedAt, List.cons.injEq] at hbuffer
            exact congrArg Prod.fst hbuffer.1
          have hnonneg := haddr first (by rw [hold.divided]; simp)
          rw [List.length_cons] at hfull hplace
          omega

theorem step_settled (hold : Holding records st sent pending) (hsettled : Settled records st sent pending)
    (hdata : IsValue data) (haddr : ∀ r ∈ records ++ [(addr, data)], 0 ≤ r.1)
    {ready : Cr2State} (hready : st.ready addr = .ok ready) (h : ready.accumulate addr data = .ok st') :
    ∃ sent' pending', Holding (records ++ [(addr, data)]) st' sent' pending' ∧
      Settled (records ++ [(addr, data)]) st' sent' pending' := by
  obtain ⟨sent', pending', hold', horder, hastray⟩ := ready_holds hold hready data
  rcases hsettled with ⟨order, hnonzero⟩ | ⟨astray, zero, hzero, heq⟩
  · obtain ⟨sent'', pending'', hold'', hinOrder, hwrong⟩ :=
      accumulate_inOrder hold' hdata (horder order) haddr h
    refine ⟨sent'', pending'', hold'', ?_⟩
    by_cases hz : addr = 0
    · exact Or.inr ⟨hwrong hz, (addr, data), by simp, hz⟩
    · left
      refine ⟨hinOrder hz, ?_⟩
      intro r hr
      rcases List.mem_append.1 hr with hold' | hnew
      · exact hnonzero r hold'
      · rw [List.mem_singleton.1 hnew]
        exact hz
  · obtain ⟨sent'', pending'', hold'', hwrong⟩ := accumulate_astray hold' hdata (hastray astray) h
    exact ⟨sent'', pending'', hold'', Or.inr ⟨hwrong, zero, List.mem_append_left _ hzero, heq⟩⟩

theorem loadRecords_settled {more : List (Int × Int)} (hold : Holding records st sent pending)
    (hsettled : Settled records st sent pending) (hvalue : ∀ r ∈ more, IsValue r.2)
    (haddr : ∀ r ∈ records ++ more, 0 ≤ r.1) (h : loadRecords more st = .ok st') :
    ∃ sent' pending', Holding (records ++ more) st' sent' pending' ∧
      Settled (records ++ more) st' sent' pending' := by
  induction more generalizing records st sent pending with
  | nil =>
      obtain rfl := Except.ok.inj h
      rw [List.append_nil]
      exact ⟨sent, pending, hold, hsettled⟩
  | cons record more ih =>
      obtain ⟨addr, data⟩ := record
      rw [loadRecords] at h
      obtain ⟨ready, hready, htaken⟩ := except_bind_ok h
      obtain ⟨taken, haccumulate, hrest⟩ := except_bind_ok htaken
      have hassoc : records ++ (addr, data) :: more = records ++ [(addr, data)] ++ more := by
        rw [List.append_assoc]
        rfl
      rw [hassoc] at haddr ⊢
      obtain ⟨sent', pending', hold', hsettled'⟩ := step_settled hold hsettled
        (hvalue _ (List.mem_cons_self ..)) (fun r hr => haddr r (List.mem_append_left _ hr)) hready haccumulate
      exact ih hold' hsettled' (fun r hr => hvalue r (List.mem_cons_of_mem _ hr)) haddr hrest

/-- What the device has received is what the records say when no record has address 0 and the buffer is
empty at the end. -/
theorem loadRecords_device_iff (hvalue : ∀ r ∈ records, IsValue r.2) (haddr : ∀ r ∈ records, 0 ≤ r.1)
    (h : loadRecords records .start = .ok st) :
    st.device = records ↔ (∀ r ∈ records, r.1 ≠ 0) ∧ lastRun records % cr2BlockSize = 0 := by
  have hstart : InOrder [] Cr2State.start [] [] :=
    ⟨rfl, rfl, fun hne => absurd rfl hne, fun _ => rfl, rfl⟩
  obtain ⟨sent, pending, hold, hsettled⟩ := loadRecords_settled
    (show Holding [] Cr2State.start [] [] from ⟨rfl, rfl, rfl, rfl, by simp⟩)
    (Or.inl ⟨hstart, by simp⟩) hvalue haddr h
  rw [List.nil_append] at hold hsettled
  have hwhole : st.device = records → pending = [] ∧ st.device = sent := by
    intro hall
    have hlength := hold.device
    rw [hall, hold.divided, List.length_append] at hlength
    have hempty : pending = [] := List.length_eq_zero_iff.1 (by omega)
    refine ⟨hempty, ?_⟩
    rw [hall, hold.divided, hempty, List.append_nil]
  rcases hsettled with ⟨order, hnonzero⟩ | ⟨hastray, zero, hzero, heq⟩
  · constructor
    · intro hall
      refine ⟨hnonzero, ?_⟩
      rw [order.run, (hwhole hall).1]
      rfl
    · intro hboth
      obtain ⟨-, hrun⟩ := hboth
      rw [order.run] at hrun
      rw [order.device, hold.divided, List.length_eq_zero_iff.1 hrun, List.append_nil]
  · constructor
    · intro hall
      obtain ⟨hempty, hdevice⟩ := hwhole hall
      rcases hastray with hwrong | ⟨hpending, -⟩
      · exact absurd hdevice hwrong
      · exact absurd hempty hpending
    · intro hboth
      obtain ⟨hnonzero, -⟩ := hboth
      exact absurd heq (hnonzero zero hzero)

end Records

/-! ### Texts -/

theorem hexValue_nonneg (digits : List Char) : 0 ≤ hexValue digits := by
  have hfold : ∀ value : Int, 0 ≤ value →
      0 ≤ digits.foldl (fun value c => 16 * value + (hexDigit c).getD 0) value := by
    induction digits with
    | nil => exact fun _ h => h
    | cons c digits ih =>
        intro value hvalue
        apply ih
        show 0 ≤ 16 * value + (hexDigit c).getD 0
        cases hc : hexDigit c with
        | none =>
            rw [Option.getD_none]
            omega
        | some d =>
            have hd := (hexDigit_range hc).1
            rw [Option.getD_some]
            omega
  exact hfold 0 (Int.le_refl 0)

theorem matchRecord_addr_nonneg {text : List Char} {m : RecordMatch} (h : matchRecord text = some m) :
    0 ≤ m.addr := by
  have hdigits : ∀ body n m, matchDigits body n = some m → 0 ≤ m.addr := by
    intro body n
    induction n with
    | zero =>
        intro m hm
        cases hm
    | succ n ih =>
        intro m hm
        rw [matchDigits] at hm
        split at hm
        · rw [← Option.some.inj hm]
          exact hexValue_nonneg _
        · exact ih m hm
  unfold matchRecord at h
  split at h
  · obtain ⟨m', hm', rfl⟩ := Option.map_eq_some_iff.1 h
    exact hdigits _ _ m' hm'
  · cases h

theorem findRecords_addr_nonneg (skip : Nat) (lineStart : Bool) (text : List Char) :
    ∀ r ∈ findRecords skip lineStart text, 0 ≤ r.1 := by
  fun_induction findRecords skip lineStart text with
  | case1 => simp
  | case2 _ _ c rest ih => exact ih
  | case3 lineStart c rest m hm ih =>
      intro r hr
      rcases List.mem_cons.1 hr with rfl | hrest
      · split at hm
        · exact matchRecord_addr_nonneg hm
        · cases hm
      · exact ih r hrest
  | case4 _ c rest _ ih => exact ih

section Returns

variable {st : Cr2State} {addr : Int}

/-- An address that `HBI_write` takes. -/
def IsRegister (addr : Int) : Prop := 0 ≤ addr ∧ addr ≤ 0xFFFF

theorem ship_returns (h : IsRegister st.currentAddr) :
    ∃ st', st.ship = .ok st' ∧ st'.currentAddr = st.currentAddr := by
  have hwrite : pyHbiWrite st.device st.currentAddr st.dataBuffer
      = .ok (st.device ++ wordsAt st.currentAddr st.dataBuffer) := if_pos h
  unfold Cr2State.ship
  rw [hwrite]
  exact ⟨_, rfl, rfl⟩

theorem ready_returns (h : IsRegister st.currentAddr) (haddr : IsRegister addr) :
    ∃ st', st.ready addr = .ok st' ∧ IsRegister st'.currentAddr := by
  unfold Cr2State.ready
  simp only
  by_cases hprev : st.prevAddr = 0
  · rw [if_pos hprev, if_neg (by simp)]
    exact ⟨_, rfl, haddr⟩
  · rw [if_neg hprev]
    by_cases hnext : addr = st.prevAddr + 2
    · rw [if_neg (by simp [hnext])]
      exact ⟨st, rfl, h⟩
    · obtain ⟨shipped, hship, -⟩ := ship_returns h
      rw [if_pos hnext, hship]
      exact ⟨_, rfl, haddr⟩

theorem accumulate_returns (h : IsRegister st.currentAddr) (addr data : Int) :
    ∃ st', st.accumulate addr data = .ok st' ∧ IsRegister st'.currentAddr := by
  unfold Cr2State.accumulate
  simp only
  split
  · obtain ⟨shipped, hship, hsame⟩ := ship_returns (show IsRegister { st with
      blockSize := st.blockSize + 1
      dataBuffer := st.dataBuffer ++ [data / 2 ^ 8 % 0x100, data % 0x100]
      prevAddr := addr }.currentAddr from h)
    rw [hship]
    refine ⟨_, rfl, ?_⟩
    show IsRegister shipped.currentAddr
    rw [hsame]
    exact h
  · exact ⟨_, rfl, h⟩

theorem loadRecords_returns {records : List (Int × Int)} (h : IsRegister st.currentAddr)
    (haddr : ∀ r ∈ records, IsRegister r.1) : ∃ st', loadRecords records st = .ok st' := by
  induction records generalizing st with
  | nil => exact ⟨st, rfl⟩
  | cons record records ih =>
      obtain ⟨ready, hready, hregister⟩ := ready_returns h (haddr record (List.mem_cons_self ..))
      obtain ⟨taken, htaken, hregister'⟩ := accumulate_returns hregister record.1 record.2
      obtain ⟨st', hrest⟩ := ih hregister' fun r hr => haddr r (List.mem_cons_of_mem _ hr)
      refine ⟨st', ?_⟩
      rw [loadRecords, hready]
      show (ready.accumulate record.1 record.2 >>= _) = _
      rw [htaken]
      exact hrest

/-- `LoadConfigCr2` returns when every address of the text is one that `HBI_write` takes. -/
theorem loadConfigCr2_returns (text : List Char) (h : ∀ r ∈ cr2Records text, r.1 ≤ 0xFFFF) :
    ∃ device, loadConfigCr2 text = .ok device := by
  have hregister : ∀ r ∈ cr2Records text, IsRegister r.1 :=
    fun r hr => ⟨findRecords_addr_nonneg 0 true text r hr, h r hr⟩
  have hstart : IsRegister Cr2State.start.currentAddr := ⟨Int.le_refl 0, by decide⟩
  obtain ⟨st, hst⟩ := loadRecords_returns hstart hregister
  refine ⟨st.device, ?_⟩
  rw [loadConfigCr2, hst]
  rfl

end Returns

/-- When `LoadConfigCr2` returns, the device has received exactly the records of the text in file order,
provided that none is at address 0 and that the run of consecutive addresses that ends the text is a whole
number of blocks, and only then. -/
theorem loadConfigCr2_writes_iff (text : List Char) (hvalue : ∀ r ∈ cr2Records text, IsValue r.2)
    (device : List (Int × Int)) (h : loadConfigCr2 text = .ok device) :
    device = cr2Records text ↔
      (∀ r ∈ cr2Records text, r.1 ≠ 0) ∧ lastRun (cr2Records text) % cr2BlockSize = 0 := by
  obtain ⟨st, hloaded, hdone⟩ := except_bind_ok h
  rw [← Except.ok.inj hdone]
  exact loadRecords_device_iff hvalue (findRecords_addr_nonneg 0 true text) hloaded

def twoRunsText : List Char :=
  ("0x200, 0x1\n; a comment\n0x300, 0x0\n0x302, 0x1\n0x304, 0x2\n0x306, 0x3\n0x308, 0x4\n0x30A, 0x5\n" ++
    "0x30C, 0x6\n0x30E, 0x7\n0x310, 0x8\n0x312, 0x9\n0x314, 0xA\n0x316, 0xB\n0x318, 0xC\n" ++
    "0x31A, 0xD\n0x31C, 0xE\n0x31E, 0xF\n").toList

theorem loadConfigCr2_writes_iff_twoRuns :
    (0x200, 1) :: (List.range 16).map (fun k : Nat => ((0x300 + 2 * k : Int), (k : Int))) = cr2Records twoRunsText ↔
      (∀ r ∈ cr2Records twoRunsText, r.1 ≠ 0) ∧ lastRun (cr2Records twoRunsText) % cr2BlockSize = 0 :=
  loadConfigCr2_writes_iff twoRunsText (by decide +kernel) _ (by decide +kernel)

/-- A record of the text is never written. -/
theorem loadConfigCr2_drops_tail :
    ∃ text device, (∀ r ∈ cr2Records text, r.1 % 2 = 0 ∧ IsValue r.2) ∧
      loadConfigCr2 text = .ok device ∧ device ≠ cr2Records text := by
  refine ⟨"0x300 0x1234".toList, [], ?_, ?_, ?_⟩
  · decide
  · decide
  · decide

end VprocSdk
