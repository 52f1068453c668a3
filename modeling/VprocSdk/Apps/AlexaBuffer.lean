import Mathlib.Data.List.Infix
import Mathlib.Algebra.BigOperators.Group.List.Basic
import VprocSdk.Hbi.Types
import VprocSdk.Lib.Machine
import VprocSdk.Lib.Ring

/-!
# The audio ring of the Alexa board

`StoreBuffer` and `GetBuffer` copy samples into and out of a ring of 20000, each with an index of its own
and no count of what the ring holds. The indices are known modulo the size of the ring only: `Flowing` ties
each to the number of samples its side has moved since the start.
-/

namespace VprocSdk

open Lib

/-- `S_BUFF_SIZE`. -/
def sBuffSize : Nat := 20000

/-- An array of samples. -/
structure Samples where
  cells : Nat → Word
  size : Nat

/-- An `int` stored in an `unsigned short`. -/
def shortOfInt (n : Int) : Nat := (n % 2 ^ 16).toNat

/-- `memcpy` between two arrays of samples, each from a place of its own. The size is a `size_t`, and the
copy faults when it leaves one of the arrays. -/
def memcpy (dst : Samples) (dstPlace : Nat) (src : Samples) (srcPlace : Nat) (numBytes : Int) :
    Option Samples :=
  let len := (numBytes % 2 ^ 32).toNat / 2
  if dstPlace + len ≤ dst.size ∧ srcPlace + len ≤ src.size then
    some { dst with cells := overlay dst.cells dstPlace (slice src.cells srcPlace len) }
  else none

/-- The members of `Zle38Avs` that the two functions use. -/
structure Zle38Avs where
  sensoryCircBuffer : Samples
  writeIndex : Nat
  readIndex : Nat

namespace Zle38Avs

/-- The constructor. `reserve` leaves the samples as the memory has them. -/
def new (cells : Nat → Word) : Zle38Avs := ⟨⟨cells, sBuffSize⟩, 0, 0⟩

def storeBuffer (avs : Zle38Avs) (buff : Samples) (numSamples : Nat) : Option Zle38Avs :=
  let numBytes := shortOfInt (numSamples * 2)
  if avs.writeIndex + numSamples ≤ sBuffSize then do
    let ring ← memcpy avs.sensoryCircBuffer avs.writeIndex buff 0 numBytes
    return { avs with
      sensoryCircBuffer := ring
      writeIndex := shortOfInt (avs.writeIndex + numSamples) }
  else do
    let tempSizeSamples := shortOfInt (sBuffSize - avs.writeIndex)
    let ring ← memcpy avs.sensoryCircBuffer avs.writeIndex buff 0 (tempSizeSamples * 2)
    let ring ← memcpy ring 0 buff tempSizeSamples (numBytes - tempSizeSamples * 2)
    return { avs with
      sensoryCircBuffer := ring
      writeIndex := shortOfInt (0 + (numSamples - tempSizeSamples)) }

/-- The board and the caller's buffer afterwards. -/
def getBuffer (avs : Zle38Avs) (buff : Samples) (numSamples : Nat) : Option (Zle38Avs × Samples) :=
  let numBytes := shortOfInt (numSamples * 2)
  if avs.readIndex + numSamples ≤ sBuffSize then do
    let buff ← memcpy buff 0 avs.sensoryCircBuffer avs.readIndex numBytes
    return ({ avs with readIndex := shortOfInt (avs.readIndex + numSamples) }, buff)
  else do
    let tempSizeSamples := shortOfInt (sBuffSize - avs.readIndex)
    let buff ← memcpy buff 0 avs.sensoryCircBuffer avs.readIndex (tempSizeSamples * 2)
    let buff ← memcpy buff tempSizeSamples avs.sensoryCircBuffer 0 (numBytes - tempSizeSamples * 2)
    return ({ avs with readIndex := shortOfInt (0 + (numSamples - tempSizeSamples)) }, buff)

end Zle38Avs

/-- What either function computes in `unsigned short` from its index, before it is cut to 16 bits, and the
size of the second copy. -/
def shortValues (index numSamples : Nat) : List Int :=
  if index + numSamples ≤ sBuffSize then [numSamples * 2, index + numSamples]
  else [numSamples * 2, sBuffSize - index, numSamples - (sBuffSize - index),
    numSamples * 2 - (sBuffSize - index) * 2]

inductive AvsCall
  | storeBuffer (buff : Samples) (numSamples : Nat)
  | getBuffer (buff : Samples) (numSamples : Nat)

namespace AvsCall

def buff : AvsCall → Samples
  | storeBuffer buff _ => buff
  | getBuffer buff _ => buff

def numSamples : AvsCall → Nat
  | storeBuffer _ n => n
  | getBuffer _ n => n

def stores : AvsCall → Nat
  | storeBuffer _ n => n
  | getBuffer _ _ => 0

def gets : AvsCall → Nat
  | storeBuffer _ _ => 0
  | getBuffer _ n => n

def index (avs : Zle38Avs) : AvsCall → Nat
  | storeBuffer _ _ => avs.writeIndex
  | getBuffer _ _ => avs.readIndex

end AvsCall

/-- The board, all samples passed to `StoreBuffer` so far and all samples `GetBuffer` has returned. -/
structure AvsHistory where
  avs : Zle38Avs
  stored : List Word
  returned : List Word

def AvsHistory.start (cells : Nat → Word) : AvsHistory := ⟨.new cells, [], []⟩

def avsMachine : Machine AvsHistory AvsCall where
  step
    | s, .storeBuffer buff n => do
        let avs ← s.avs.storeBuffer buff n
        return { s with avs, stored := s.stored ++ slice buff.cells 0 n }
    | s, .getBuffer buff n => do
        let (avs, buff) ← s.avs.getBuffer buff n
        return { s with avs, returned := s.returned ++ slice buff.cells 0 n }

def totalStored (calls : List AvsCall) : Nat := (calls.map AvsCall.stores).sum

def totalGot (calls : List AvsCall) : Nat := (calls.map AvsCall.gets).sum

/-- No call moves more than the ring or its buffer holds, and at every moment what has been read is no more
than what has been stored and lags it by at most the ring. -/
structure Paced (calls : List AvsCall) : Prop where
  size : ∀ call ∈ calls, call.numSamples ≤ sBuffSize ∧ call.numSamples ≤ call.buff.size
  reads : ∀ pre suf, calls = pre ++ suf → totalGot pre ≤ totalStored pre
  lag : ∀ pre suf, calls = pre ++ suf → totalStored pre ≤ totalGot pre + sBuffSize

/-! ### One call -/

theorem shortOfInt_of_le {n : Nat} (h : n ≤ 2 * sBuffSize) : shortOfInt (n : Int) = n := by
  unfold sBuffSize at h
  unfold shortOfInt
  omega

theorem memcpy_within (dst : Samples) (dstPlace : Nat) (src : Samples) (srcPlace : Nat) {n : Nat}
    (hlen : n ≤ sBuffSize) (hdst : dstPlace + n ≤ dst.size) (hsrc : srcPlace + n ≤ src.size) :
    memcpy dst dstPlace src srcPlace (n * 2)
      = some { dst with cells := overlay dst.cells dstPlace (slice src.cells srcPlace n) } := by
  unfold sBuffSize at hlen
  have hbytes : ((n * 2 : Int) % 2 ^ 32).toNat / 2 = n := by omega
  unfold memcpy
  rw [hbytes]
  exact if_pos ⟨hdst, hsrc⟩

section Calls

variable {avs : Zle38Avs} {buff : Samples} {n : Nat}

theorem shortValues_fit {index : Nat} (hindex : index ≤ sBuffSize) (hn : n ≤ sBuffSize) :
    ∀ v ∈ shortValues index n, 0 ≤ v ∧ v < 2 ^ 16 := by
  unfold sBuffSize at hindex hn
  intro v hv
  unfold shortValues sBuffSize at hv
  split at hv
  · simp only [List.mem_cons, List.not_mem_nil, or_false] at hv
    omega
  · simp only [List.mem_cons, List.not_mem_nil, or_false] at hv
    omega

theorem bytes_eq (hn : n ≤ sBuffSize) : (shortOfInt (n * 2) : Int) = n * 2 := by
  have hdouble : n * 2 ≤ 2 * sBuffSize := by omega
  have hshort := shortOfInt_of_le hdouble
  rw [Nat.cast_mul] at hshort
  rw [show ((n : Int) * 2) = (n : Int) * ((2 : Nat) : Int) from rfl, hshort]
  rfl

theorem rest_eq {index : Nat} (hindex : index ≤ sBuffSize) :
    shortOfInt (sBuffSize - index) = sBuffSize - index := by
  rw [← Nat.cast_sub hindex]
  exact shortOfInt_of_le (by omega)

theorem storeBuffer_straight (hring : avs.sensoryCircBuffer.size = sBuffSize)
    (hfit : avs.writeIndex + n ≤ sBuffSize) (hbuff : n ≤ buff.size) :
    avs.storeBuffer buff n = some { avs with
      sensoryCircBuffer := ⟨overlay avs.sensoryCircBuffer.cells avs.writeIndex (slice buff.cells 0 n), sBuffSize⟩
      writeIndex := avs.writeIndex + n } := by
  have hn : n ≤ sBuffSize := by omega
  have hcopy := memcpy_within avs.sensoryCircBuffer avs.writeIndex buff 0 hn (by omega) (by omega)
  unfold Zle38Avs.storeBuffer
  simp only
  rw [if_pos hfit, bytes_eq hn, hcopy, ← Nat.cast_add, shortOfInt_of_le (by omega), ← hring]
  rfl

theorem storeBuffer_wrapped (hring : avs.sensoryCircBuffer.size = sBuffSize)
    (hindex : avs.writeIndex ≤ sBuffSize) (hn : n ≤ sBuffSize) (hpast : ¬ avs.writeIndex + n ≤ sBuffSize)
    (hbuff : n ≤ buff.size) {first second : Nat} (hfirst : first = sBuffSize - avs.writeIndex)
    (hsecond : second = n - first) :
    avs.storeBuffer buff n = some { avs with
      sensoryCircBuffer := ⟨overlay (overlay avs.sensoryCircBuffer.cells avs.writeIndex
        (slice buff.cells 0 first)) 0 (slice buff.cells first second), sBuffSize⟩
      writeIndex := second } := by
  have hcopy := memcpy_within avs.sensoryCircBuffer avs.writeIndex buff 0
    (show first ≤ sBuffSize by omega) (by omega) (by omega)
  have hbytes : ((n : Int) * 2 - first * 2) = (second : Int) * 2 := by omega
  have hshort : (0 : Int) + ((n : Int) - first) = (second : Int) := by omega
  unfold Zle38Avs.storeBuffer
  simp only
  rw [if_neg hpast, rest_eq hindex, ← hfirst, bytes_eq hn, hcopy, Option.bind_eq_bind, Option.bind_some,
    hbytes, memcpy_within _ _ _ _ (by omega) (by rw [hring]; omega) (by omega), hshort,
    shortOfInt_of_le (by omega), ← hring]
  rfl

theorem getBuffer_straight (hring : avs.sensoryCircBuffer.size = sBuffSize)
    (hfit : avs.readIndex + n ≤ sBuffSize) (hbuff : n ≤ buff.size) :
    avs.getBuffer buff n = some ({ avs with readIndex := avs.readIndex + n },
      { buff with cells := overlay buff.cells 0 (slice avs.sensoryCircBuffer.cells avs.readIndex n) }) := by
  have hn : n ≤ sBuffSize := by omega
  have hcopy := memcpy_within buff 0 avs.sensoryCircBuffer avs.readIndex hn (by omega) (by omega)
  unfold Zle38Avs.getBuffer
  simp only
  rw [if_pos hfit, bytes_eq hn, hcopy, ← Nat.cast_add, shortOfInt_of_le (by omega)]
  rfl

theorem getBuffer_wrapped (hring : avs.sensoryCircBuffer.size = sBuffSize)
    (hindex : avs.readIndex ≤ sBuffSize) (hn : n ≤ sBuffSize) (hpast : ¬ avs.readIndex + n ≤ sBuffSize)
    (hbuff : n ≤ buff.size) {first second : Nat} (hfirst : first = sBuffSize - avs.readIndex)
    (hsecond : second = n - first) :
    avs.getBuffer buff n = some ({ avs with readIndex := second },
      { buff with
        cells := overlay (overlay buff.cells 0 (slice avs.sensoryCircBuffer.cells avs.readIndex first))
          first (slice avs.sensoryCircBuffer.cells 0 second) }) := by
  have hcopy := memcpy_within buff 0 avs.sensoryCircBuffer avs.readIndex
    (show first ≤ sBuffSize by omega) (by omega) (by omega)
  have hbytes : ((n : Int) * 2 - first * 2) = (second : Int) * 2 := by omega
  have hshort : (0 : Int) + ((n : Int) - first) = (second : Int) := by omega
  unfold Zle38Avs.getBuffer
  simp only
  rw [if_neg hpast, rest_eq hindex, ← hfirst, bytes_eq hn, hcopy, Option.bind_eq_bind, Option.bind_some,
    hbytes, memcpy_within _ _ _ _ (by omega) (by simp only; omega) (by omega), hshort,
    shortOfInt_of_le (by omega)]
  rfl

end Calls

/-! ### The ring as a queue -/

/-- The link between the board and the samples that went through it. -/
structure Flowing (s : AvsHistory) : Prop where
  ring : s.avs.sensoryCircBuffer.size = sBuffSize
  writes : RestsAt sBuffSize s.avs.writeIndex s.stored.length
  reads : RestsAt sBuffSize s.avs.readIndex s.returned.length
  held : HeldFrom sBuffSize s.avs.sensoryCircBuffer.cells s.stored s.returned.length
  fifo : s.returned <+: s.stored

theorem Flowing.start (cells : Nat → Word) : Flowing (.start cells) where
  ring := rfl
  writes := .zero _
  reads := .zero _
  held := .nil _ _
  fifo := List.nil_prefix

section Steps

variable {s : AvsHistory} {buff : Samples} {n : Nat}

theorem prefix_extend {xs ys : List Word} (h : xs <+: ys) (n : Nat) :
    xs ++ (ys.drop xs.length).take n <+: ys := by
  obtain ⟨rest, rfl⟩ := h
  rw [List.drop_left, List.prefix_append_right_inj]
  exact List.take_prefix n rest

theorem Flowing.store (h : Flowing s) (hn : n ≤ sBuffSize) (hbuff : n ≤ buff.size)
    (hroom : s.stored.length + n ≤ s.returned.length + sBuffSize) :
    ∃ avs, avsMachine.step s (.storeBuffer buff n)
        = some { s with avs, stored := s.stored ++ slice buff.cells 0 n } ∧
      Flowing { s with avs, stored := s.stored ++ slice buff.cells 0 n } := by
  have hstep : ∀ avs, s.avs.storeBuffer buff n = some avs →
      avsMachine.step s (.storeBuffer buff n)
        = some { s with avs, stored := s.stored ++ slice buff.cells 0 n } := by
    intro avs havs
    simp only [avsMachine, havs]
    rfl
  have hfifo : s.returned <+: s.stored ++ slice buff.cells 0 n := h.fifo.trans (List.prefix_append _ _)
  by_cases hfit : s.avs.writeIndex + n ≤ sBuffSize
  · refine ⟨_, hstep _ (storeBuffer_straight h.ring hfit hbuff), rfl, ?_, h.reads, ?_, hfifo⟩
    · rw [List.length_append, slice_length]
      exact h.writes.advance hfit
    · exact h.held.write _ h.writes (by rw [slice_length]; exact hfit) (by rw [slice_length]; exact hroom)
  · -- the second copy is a write of its own, at the start of the ring
    have hindex := h.writes.inside
    obtain ⟨first, hfirst⟩ : ∃ first, first = sBuffSize - s.avs.writeIndex := ⟨_, rfl⟩
    obtain ⟨second, hsecond⟩ : ∃ second, second = n - first := ⟨_, rfl⟩
    have hparts : slice buff.cells 0 n = slice buff.cells 0 first ++ slice buff.cells first second := by
      rw [show n = first + second by omega, slice_add, Nat.zero_add]
    have hwhole : s.avs.writeIndex + first = sBuffSize := by omega
    have hend : RestsAt sBuffSize 0 (s.stored.length + first) := by
      have hadvance := h.writes.advance (Nat.le_of_eq hwhole)
      rw [hwhole] at hadvance
      exact hadvance.start
    have hlength : (s.stored ++ slice buff.cells 0 first).length = s.stored.length + first := by
      rw [List.length_append, slice_length]
    have hheld := h.held.write (slice buff.cells 0 first) h.writes (by rw [slice_length]; omega)
      (by rw [slice_length]; omega)
    refine ⟨_, hstep _ (storeBuffer_wrapped h.ring hindex hn hfit hbuff hfirst hsecond), rfl, ?_, h.reads,
      ?_, hfifo⟩
    · rw [hparts, ← List.append_assoc, List.length_append, hlength, slice_length]
      have hadvance := hend.advance (n := second) (by omega)
      rw [Nat.zero_add] at hadvance
      exact hadvance
    · rw [hparts, ← List.append_assoc]
      rw [← hlength] at hend
      exact hheld.write _ hend (by rw [slice_length]; omega) (by rw [hlength, slice_length]; omega)

theorem Flowing.get (h : Flowing s) (hn : n ≤ sBuffSize) (hbuff : n ≤ buff.size)
    (hroom : s.returned.length + n ≤ s.stored.length) :
    ∃ avs, avsMachine.step s (.getBuffer buff n)
        = some { s with avs, returned := s.returned ++ (s.stored.drop s.returned.length).take n } ∧
      Flowing { s with avs, returned := s.returned ++ (s.stored.drop s.returned.length).take n } := by
  have hstep : ∀ avs out, s.avs.getBuffer buff n = some (avs, out) →
      slice out.cells 0 n = (s.stored.drop s.returned.length).take n →
      avsMachine.step s (.getBuffer buff n)
        = some { s with avs, returned := s.returned ++ (s.stored.drop s.returned.length).take n } := by
    intro avs out hout hslice
    simp only [avsMachine, hout, ← hslice]
    rfl
  have hlength : (s.returned ++ (s.stored.drop s.returned.length).take n).length
      = s.returned.length + n := by
    rw [List.length_append, List.length_take, List.length_drop]
    omega
  have hheld : HeldFrom sBuffSize s.avs.sensoryCircBuffer.cells s.stored
      (s.returned ++ (s.stored.drop s.returned.length).take n).length :=
    h.held.mono (by omega)
  by_cases hfit : s.avs.readIndex + n ≤ sBuffSize
  · have hread := h.held.read h.reads hfit hroom
    refine ⟨_, hstep _ _ (getBuffer_straight h.ring hfit hbuff) ?_, h.ring, h.writes, ?_, hheld,
      prefix_extend h.fifo n⟩
    · rw [← hread]
      have hcopied := slice_overlay buff.cells 0 (slice s.avs.sensoryCircBuffer.cells s.avs.readIndex n)
      rw [slice_length] at hcopied
      exact hcopied
    · rw [hlength]
      exact h.reads.advance hfit
  · have hindex := h.reads.inside
    obtain ⟨first, hfirst⟩ : ∃ first, first = sBuffSize - s.avs.readIndex := ⟨_, rfl⟩
    obtain ⟨second, hsecond⟩ : ∃ second, second = n - first := ⟨_, rfl⟩
    have hwhole : s.avs.readIndex + first = sBuffSize := by omega
    have hend : RestsAt sBuffSize 0 (s.returned.length + first) := by
      have hadvance := h.reads.advance (Nat.le_of_eq hwhole)
      rw [hwhole] at hadvance
      exact hadvance.start
    have hreadFirst := h.held.read h.reads (Nat.le_of_eq hwhole) (by omega)
    have hreadSecond := (h.held.mono (Nat.le_add_right _ first)).read hend (n := second) (by omega) (by omega)
    refine ⟨_, hstep _ _ (getBuffer_wrapped h.ring hindex hn hfit hbuff hfirst hsecond) ?_, h.ring, h.writes,
      ?_, hheld, prefix_extend h.fifo n⟩
    · have hcopied := slice_overlay buff.cells 0
        (slice s.avs.sensoryCircBuffer.cells s.avs.readIndex first)
      rw [slice_length] at hcopied
      have hboth := @slice_overlay_append _ _ _ _ _ (slice s.avs.sensoryCircBuffer.cells 0 second) hcopied
      rw [slice_length, Nat.zero_add] at hboth
      rw [show n = first + second by omega, hboth, hreadFirst, hreadSecond, List.take_add, List.drop_drop]
    · rw [hlength, show s.returned.length + n = s.returned.length + first + second by omega]
      have hadvance := hend.advance (n := second) (by omega)
      rw [Nat.zero_add] at hadvance
      exact hadvance

end Steps

/-! ### All calls -/

section Paced

variable {calls : List AvsCall} {call : AvsCall}

theorem totalStored_snoc : totalStored (calls ++ [call]) = totalStored calls + call.stores := by
  simp [totalStored]

theorem totalGot_snoc : totalGot (calls ++ [call]) = totalGot calls + call.gets := by
  simp [totalGot]

theorem Paced.before {rest : List AvsCall} (h : Paced (calls ++ rest)) : Paced calls where
  size := fun call hcall => h.size call (List.mem_append_left _ hcall)
  reads := fun pre suf hcalls => h.reads pre (suf ++ rest) (by rw [hcalls, List.append_assoc])
  lag := fun pre suf hcalls => h.lag pre (suf ++ rest) (by rw [hcalls, List.append_assoc])

/-- The board keeps flowing while the calls are paced, and the totals are those of the calls. -/
theorem flowing_of_paced (cells : Nat → Word) (h : Paced calls) :
    ∃ s, avsMachine.exec (.start cells) calls = some s ∧ Flowing s ∧
      s.stored.length = totalStored calls ∧ s.returned.length = totalGot calls := by
  induction calls using List.reverseRecOn with
  | nil => exact ⟨_, rfl, .start cells, rfl, rfl⟩
  | append_singleton calls call ih =>
      obtain ⟨s, hexec, hflow, hstored, hgot⟩ := ih h.before
      have hreads := h.reads (calls ++ [call]) [] (List.append_nil _).symm
      have hlag := h.lag (calls ++ [call]) [] (List.append_nil _).symm
      obtain ⟨hn, hbuff⟩ := h.size call (by simp)
      rw [totalGot_snoc, totalStored_snoc] at hreads hlag
      have hlast : ∀ t, avsMachine.step s call = some t →
          avsMachine.exec (.start cells) (calls ++ [call]) = some t := by
        intro t ht
        rw [Machine.exec_append, hexec]
        simpa [Machine.exec] using ht
      rw [totalStored_snoc, totalGot_snoc]
      cases call with
      | storeBuffer buff n =>
          have hroom : s.stored.length + n ≤ s.returned.length + sBuffSize := by
            rw [hstored, hgot]
            simp only [AvsCall.stores, AvsCall.gets] at hlag
            omega
          obtain ⟨avs, hstep, hnext⟩ := hflow.store hn hbuff hroom
          refine ⟨_, hlast _ hstep, hnext, ?_, hgot⟩
          rw [List.length_append, slice_length, hstored]
          rfl
      | getBuffer buff n =>
          have hroom : s.returned.length + n ≤ s.stored.length := by
            rw [hstored, hgot]
            simp only [AvsCall.stores, AvsCall.gets] at hreads
            omega
          obtain ⟨avs, hstep, hnext⟩ := hflow.get (n := n) hn hbuff hroom
          refine ⟨_, hlast _ hstep, hnext, hstored, ?_⟩
          change _ = totalGot calls + n
          rw [List.length_append, List.length_take, List.length_drop, ← hgot]
          omega

end Paced

/-- No paced sequence of calls leaves the ring or a buffer or wraps a 16-bit value, both indices stay
within the ring, and what has been returned is at every moment a prefix of what has been stored. -/
theorem alexaBuffer_fifo (cells : Nat → Word) (calls : List AvsCall) (h : Paced calls) :
    ∀ pre suf, calls = pre ++ suf →
      ∃ s, avsMachine.exec (.start cells) pre = some s ∧ s.returned <+: s.stored ∧
        s.avs.writeIndex ≤ sBuffSize ∧ s.avs.readIndex ≤ sBuffSize ∧
        ∀ call rest, suf = call :: rest →
          ∀ v ∈ shortValues (call.index s.avs) call.numSamples, 0 ≤ v ∧ v < 2 ^ 16 := by
  intro pre suf heq
  subst heq
  obtain ⟨s, hexec, hflow, -, -⟩ := flowing_of_paced cells h.before
  refine ⟨s, hexec, hflow.fifo, hflow.writes.inside, hflow.reads.inside, ?_⟩
  intro call rest heq
  subst heq
  have hn : call.numSamples ≤ sBuffSize := (h.size call (by simp)).1
  cases call with
  | storeBuffer buff n => exact shortValues_fit hflow.writes.inside hn
  | getBuffer buff n => exact shortValues_fit hflow.reads.inside hn

theorem paced_of_inits {calls : List AvsCall}
    (hsize : ∀ call ∈ calls, call.numSamples ≤ sBuffSize ∧ call.numSamples ≤ call.buff.size)
    (hpace : ∀ pre ∈ calls.inits, totalGot pre ≤ totalStored pre ∧
      totalStored pre ≤ totalGot pre + sBuffSize) : Paced calls where
  size := hsize
  reads := fun pre suf hcalls => (hpace pre ((List.mem_inits _ _).2 ⟨suf, hcalls.symm⟩)).1
  lag := fun pre suf hcalls => (hpace pre ((List.mem_inits _ _).2 ⟨suf, hcalls.symm⟩)).2

/-- Both the writer and the reader pass the end of the ring. -/
def aroundTheRing : List AvsCall :=
  [.storeBuffer ⟨fun k => BitVec.ofNat 16 k, 15000⟩ 15000, .getBuffer ⟨fun _ => 0, 12000⟩ 12000,
    .storeBuffer ⟨fun k => BitVec.ofNat 16 (k + 15000), 12000⟩ 12000, .getBuffer ⟨fun _ => 0, 15000⟩ 15000]

theorem alexaBuffer_fifo_aroundTheRing :
    ∃ s, avsMachine.exec (.start fun _ => 0) aroundTheRing = some s ∧
      s.returned <+: s.stored ∧ s.avs.writeIndex ≤ sBuffSize ∧ s.avs.readIndex ≤ sBuffSize := by
  have hpaced : Paced aroundTheRing :=
    paced_of_inits (by simp [aroundTheRing, AvsCall.numSamples, AvsCall.buff, sBuffSize]) (by decide)
  obtain ⟨s, hexec, hfifo, hwrite, hread, -⟩ :=
    alexaBuffer_fifo (fun _ => 0) _ hpaced _ [] (List.append_nil _).symm
  exact ⟨s, hexec, hfifo, hwrite, hread⟩

end VprocSdk
