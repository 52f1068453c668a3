import Mathlib.Data.Nat.Bitwise
import VprocSdk.Image.Loaders

/-!
# What the script's loader sends

`LoadFirmware` cuts the payload out of the file, and a slice of Python is short where the file is. The
loop declares the same size for every block all the same, and the driver copies what the memory behind
the slice holds. So on a device whose firmware is stopped the commands carry blocks of the declared size,
one after another until a command fails, and these are the payload exactly where the file holds it all,
whatever is behind a slice.
-/

namespace VprocSdk

open Lib

/-- A device with stopped firmware: every read of its state has the top bit clear, and the `n`-th
command is answered with the `n`-th outcome. -/
def stoppedAnswer (readStatus : HbiStatus) (flags : BitVec 15) (outcome : Nat → HbiStatus)
    (done : Prog.Exchanges HbiAsk HbiReply) : HbiAsk → HbiReply
  | .read _ _ _ => ⟨readStatus, [(flags >>> 8).setWidth 8, flags.setWidth 8]⟩
  | _ => ⟨outcome (issuedCommands done).length, []⟩

/-! ### Runs on a stopped device -/

section Runs

variable (readStatus : HbiStatus) (flags : BitVec 15) (outcome : Nat → HbiStatus)
  {ρ : Type} (accept : HbiStatus → Bool) (failed finished : HbiStatus → ρ)
  (handle : Nat)

theorem issuedCommands_snoc (done : Prog.Exchanges HbiAsk HbiReply) (cmd : Command) (reply : HbiReply) :
    issuedCommands (done ++ [(.setCommand handle cmd, reply)])
      = issuedCommands done ++ [.setCommand handle cmd] := by
  rw [issuedCommands, List.map_append, List.filter_append]
  rfl

theorem sendBlocks_accepted (blocks : List (List Byte)) (done : Prog.Exchanges HbiAsk HbiReply)
    (h : ∀ k < blocks.length, accept (outcome ((issuedCommands done).length + k)) = true) :
    issuedCommands ((sendBlocks accept failed finished handle blocks).run
        (stoppedAnswer readStatus flags outcome) done).1
          = issuedCommands done ++ loadCommands handle blocks ∧
      ((sendBlocks accept failed finished handle blocks).run
        (stoppedAnswer readStatus flags outcome) done).2
          = finished (outcome ((issuedCommands done).length + blocks.length)) := by
  induction blocks generalizing done with
  | nil =>
      simp only [sendBlocks, setCommand, Prog.query_bind, Prog.ask_bind, Prog.pure_eq, Prog.pure_bind,
        Prog.run_ask, Prog.run_pure, stoppedAnswer, issuedCommands_snoc]
      exact ⟨rfl, rfl⟩
  | cons block blocks ih =>
      have hfirst := h 0 (by simp)
      rw [Nat.add_zero] at hfirst
      have hrest := ih (done ++ [(.setCommand handle (.firmware block),
        ⟨outcome (issuedCommands done).length, []⟩)]) (by
          intro k hk
          have hnext := h (k + 1) (by simpa using hk)
          rw [issuedCommands_snoc, List.length_append, List.length_singleton,
            show (issuedCommands done).length + 1 + k = (issuedCommands done).length + (k + 1) by omega]
          exact hnext)
      rw [issuedCommands_snoc, List.length_append, List.length_singleton] at hrest
      simp only [sendBlocks, setCommand, Prog.query_bind, Prog.ask_bind, Prog.pure_eq, Prog.pure_bind,
        Prog.run_ask, stoppedAnswer, hfirst, if_true]
      constructor
      · rw [hrest.1, List.append_assoc]
        rfl
      · rw [hrest.2, List.length_cons]
        congr 2
        omega

theorem sendBlocks_refused (blocks : List (List Byte)) (done : Prog.Exchanges HbiAsk HbiReply) {k : Nat}
    (hk : k < blocks.length) (h : accept (outcome ((issuedCommands done).length + k)) = false) :
    ∃ status, ((sendBlocks accept failed finished handle blocks).run
      (stoppedAnswer readStatus flags outcome) done).2 = failed status := by
  induction blocks generalizing done k with
  | nil => cases hk
  | cons block blocks ih =>
      cases hfirst : accept (outcome (issuedCommands done).length) with
      | true =>
          simp only [sendBlocks, setCommand, Prog.query_bind, Prog.ask_bind, Prog.pure_eq,
            Prog.pure_bind, Prog.run_ask, stoppedAnswer, hfirst, if_true]
          cases k with
          | zero =>
              rw [Nat.add_zero, hfirst] at h
              cases h
          | succ k =>
              apply ih (k := k) _ (by simpa using hk)
              rw [issuedCommands_snoc, List.length_append, List.length_singleton,
                show (issuedCommands done).length + 1 + k = (issuedCommands done).length + (k + 1)
                  by omega]
              exact h
      | false =>
          simp only [sendBlocks, setCommand, Prog.query_bind, Prog.ask_bind, Prog.pure_eq,
            Prog.pure_bind, Prog.run_ask, stoppedAnswer, hfirst, Bool.false_eq_true, if_false]
          exact ⟨_, rfl⟩

end Runs

/-! ### `LoadFirmware` -/

/-- The commands issued carry the payload in blocks of the declared size, and the completion follows
once. -/
def PayloadIssued (handle : Nat) (firmwareBuf : List Byte)
    (record : Prog.Exchanges HbiAsk HbiReply) : Prop :=
  ∃ blocks, issuedCommands record = loadCommands handle blocks ∧
    (∀ block ∈ blocks, block.length = (fileHdr firmwareBuf).blockSize * 2) ∧
    blocks.flatten = filePayload firmwareBuf ∧
    blocks.flatten.length = (fileHdr firmwareBuf).imgLen

/-- When the script's loader sends the payload or raises `ValueError`: the file is shorter than a
header, or its blocks are not empty and the length is no number of them, a command fails, or the file
holds the payload. -/
def ScriptLoads (firmwareBuf : List Byte) (outcome : Nat → HbiStatus) : Prop :=
  let header := fileHdr firmwareBuf
  let blockSize := header.blockSize * 2
  firmwareBuf.length < imgHdrLen ∨
    blockSize ≠ 0 ∧ (¬ blockSize ∣ header.imgLen ∨
      (∃ k ≤ header.imgLen / blockSize, outcome k ≠ .success) ∨
      imgHdrLen + header.imgLen ≤ firmwareBuf.length)

def scriptRun (behind : Nat → Nat → Byte) (handle : Nat) (firmwareBuf : List Byte)
    (readStatus : HbiStatus) (flags : BitVec 15) (outcome : Nat → HbiStatus) :
    Prog.Exchanges HbiAsk HbiReply × Except PyError Unit :=
  (loadFirmware behind handle firmwareBuf).run (stoppedAnswer readStatus flags outcome) []

def RaisesValueError (result : Except PyError Unit) : Prop :=
  ∃ msg, result = .error (.valueError msg)

section Script

variable (behind : Nat → Nat → Byte) (handle : Nat) {firmwareBuf : List Byte} (readStatus : HbiStatus)
  (flags : BitVec 15) (outcome : Nat → HbiStatus)

def stateRead : Prog.Exchanges HbiAsk HbiReply :=
  [(.read handle 0x028 2, stoppedAnswer readStatus flags outcome [] (.read handle 0x028 2))]

theorem isFirmwareRunning_run :
    (isFirmwareRunning handle).run (stoppedAnswer readStatus flags outcome) []
      = (stateRead handle readStatus flags outcome, false) := by
  have hhigh : ((flags >>> 8).setWidth 8 : Byte).toNat < 128 := by
    rw [BitVec.toNat_setWidth, BitVec.toNat_ushiftRight, Nat.shiftRight_eq_div_pow]
    have := flags.isLt
    omega
  have hlow := (flags.setWidth 8 : Byte).isLt
  have hnumber : formatNumber [(flags >>> 8).setWidth 8, flags.setWidth 8] < 2 ^ 15 := by
    simp only [formatNumber, List.foldl_cons, List.foldl_nil, Nat.shiftLeft_eq]
    omega
  have hclear : formatNumber [(flags >>> 8).setWidth 8, flags.setWidth 8] &&& 0x8000 = 0 := by
    rw [show 0x8000 = 2 ^ 15 by decide, Nat.and_two_pow, Nat.testBit_lt_two_pow hnumber]
    rfl
  simp only [isFirmwareRunning, Prog.query_bind, Prog.pure_eq, Prog.run_ask, Prog.run_pure,
    stoppedAnswer, List.range_succ, List.range_zero, List.nil_append, List.cons_append,
    List.map_cons, List.map_nil, List.getD_cons_zero, List.getD_cons_succ]
  simp only [hclear]
  rfl

theorem scriptRun_rejects
    (h : firmwareBuf.length < imgHdrLen ∨ (fileHdr firmwareBuf).blockSize * 2 ≠ 0 ∧
      ¬ (fileHdr firmwareBuf).blockSize * 2 ∣ (fileHdr firmwareBuf).imgLen) :
    RaisesValueError (scriptRun behind handle firmwareBuf readStatus flags outcome).2 := by
  rw [scriptRun, loadFirmware, Prog.run_bind, isFirmwareRunning_run]
  simp only [Bool.false_eq_true, if_false]
  rw [internalHbiGetHdr]
  by_cases hhdr : firmwareBuf.length < imgHdrLen
  · rw [if_pos hhdr]
    exact ⟨_, rfl⟩
  · obtain ⟨hblock, hdvd⟩ := h.resolve_left hhdr
    rw [if_neg hhdr]
    dsimp only
    rw [← fileHdr, if_neg hblock, if_pos fun hzero => hdvd (Nat.dvd_of_mod_eq_zero hzero)]
    exact ⟨_, rfl⟩

variable (hhdr : imgHdrLen ≤ firmwareBuf.length)
include hhdr

theorem scriptRun_zeroBlock (hblock : (fileHdr firmwareBuf).blockSize * 2 = 0) :
    scriptRun behind handle firmwareBuf readStatus flags outcome
      = (stateRead handle readStatus flags outcome, .error .zeroDivisionError) := by
  rw [scriptRun, loadFirmware, Prog.run_bind, isFirmwareRunning_run]
  simp only [Bool.false_eq_true, if_false]
  rw [internalHbiGetHdr, if_neg (by omega)]
  dsimp only
  rw [← fileHdr, if_pos hblock]
  rfl

variable {blockSize n : Nat} (hsize : (fileHdr firmwareBuf).blockSize * 2 = blockSize)
  (hblock : blockSize ≠ 0) (hlen : (fileHdr firmwareBuf).imgLen = n * blockSize)
include hsize hblock hlen

theorem scriptRun_sendBlocks :
    scriptRun behind handle firmwareBuf readStatus flags outcome
      = (sendBlocks onlySuccess loadingIssue finalStatus handle
          (scriptBlocks behind (filePayload firmwareBuf) blockSize 0 n)).run
        (stoppedAnswer readStatus flags outcome) (stateRead handle readStatus flags outcome) := by
  have hslice : pySlice firmwareBuf ((fileHdr firmwareBuf).hdrLen : Int)
      ((fileHdr firmwareBuf).hdrLen + (fileHdr firmwareBuf).imgLen) = filePayload firmwareBuf :=
    pySlice_add firmwareBuf imgHdrLen (fileHdr firmwareBuf).imgLen
  have hwhole : ¬ n * blockSize % blockSize ≠ 0 := not_not.2 (Nat.mul_mod_left n blockSize)
  rw [scriptRun, loadFirmware, Prog.run_bind, isFirmwareRunning_run]
  simp only [Bool.false_eq_true, if_false]
  rw [internalHbiGetHdr, if_neg (by omega)]
  dsimp only
  rw [← fileHdr, hslice, hsize, hlen, if_neg hblock, if_neg hwhole,
    Nat.mul_div_cancel n (Nat.pos_of_ne_zero hblock), loadFirmwareLoop_eq_sendBlocks]

theorem scriptRun_accepted (hall : ∀ j < n, outcome j = .success) :
    issuedCommands (scriptRun behind handle firmwareBuf readStatus flags outcome).1
        = loadCommands handle (scriptBlocks behind (filePayload firmwareBuf) blockSize 0 n) ∧
      (scriptRun behind handle firmwareBuf readStatus flags outcome).2 = finalStatus (outcome n) := by
  have hcount := scriptBlocks_length behind (filePayload firmwareBuf) blockSize n 0
  have hdone : issuedCommands (stateRead handle readStatus flags outcome) = [] := rfl
  have haccept : ∀ k < (scriptBlocks behind (filePayload firmwareBuf) blockSize 0 n).length,
      onlySuccess (outcome ((issuedCommands (stateRead handle readStatus flags outcome)).length + k))
        = true := by
    intro k hk
    rw [hcount] at hk
    rw [hdone, List.length_nil, Nat.zero_add, hall k hk]
    rfl
  rw [scriptRun_sendBlocks behind handle readStatus flags outcome hhdr hsize hblock hlen]
  obtain ⟨hrecord, hresult⟩ := sendBlocks_accepted readStatus flags outcome onlySuccess loadingIssue
    finalStatus handle _ _ haccept
  rw [hdone, List.length_nil, Nat.zero_add, hcount] at hresult
  exact ⟨hrecord, hresult⟩

theorem scriptRun_failed {k : Nat} (hk : k ≤ n) (hfailed : outcome k ≠ .success) :
    RaisesValueError (scriptRun behind handle firmwareBuf readStatus flags outcome).2 := by
  by_cases hall : ∃ j < n, outcome j ≠ .success
  · obtain ⟨j, hj, hrefused⟩ := hall
    have hcount := scriptBlocks_length behind (filePayload firmwareBuf) blockSize n 0
    have hdone : (issuedCommands (stateRead handle readStatus flags outcome)).length = 0 := rfl
    have hrefuse : onlySuccess (outcome
        ((issuedCommands (stateRead handle readStatus flags outcome)).length + j)) = false := by
      rw [hdone, Nat.zero_add]
      exact decide_eq_false hrefused
    rw [scriptRun_sendBlocks behind handle readStatus flags outcome hhdr hsize hblock hlen]
    obtain ⟨status, hresult⟩ := sendBlocks_refused readStatus flags outcome onlySuccess loadingIssue
      finalStatus handle (scriptBlocks behind (filePayload firmwareBuf) blockSize 0 n) _ (by omega) hrefuse
    rw [hresult]
    exact ⟨_, rfl⟩
  · have haccepted : ∀ j < n, outcome j = .success := by
      intro j hj
      by_contra hrefused
      exact hall ⟨j, hj, hrefused⟩
    have hlast : k = n := by
      by_contra hne
      exact hfailed (haccepted k (by omega))
    obtain ⟨-, hresult⟩ :=
      scriptRun_accepted behind handle readStatus flags outcome hhdr hsize hblock hlen haccepted
    rw [hresult, finalStatus, ← hlast, if_pos hfailed]
    exact ⟨_, rfl⟩

/-- Where every command succeeds, the payload is sent if the file holds it. -/
theorem scriptRun_succeeded (hall : ∀ k ≤ n, outcome k = .success) :
    (scriptRun behind handle firmwareBuf readStatus flags outcome).2 = .ok () ∧
      (PayloadIssued handle firmwareBuf (scriptRun behind handle firmwareBuf readStatus flags outcome).1
        ↔ imgHdrLen + (fileHdr firmwareBuf).imgLen ≤ firmwareBuf.length) := by
  obtain ⟨hrecord, hresult⟩ := scriptRun_accepted behind handle readStatus flags outcome hhdr hsize hblock
    hlen fun j hj => hall j (Nat.le_of_lt hj)
  constructor
  · rw [hresult, hall n (Nat.le_refl n)]
    rfl
  · rw [← filePayload_length_iff firmwareBuf hhdr]
    constructor
    · intro hexists
      obtain ⟨blocks, -, -, hpayload, hcount⟩ := hexists
      rw [← hpayload]
      exact hcount
    · intro hcount
      have hwhole : (filePayload firmwareBuf).length = (0 + n) * blockSize := by
        rw [hcount, hlen, Nat.zero_add]
      have hflatten : (scriptBlocks behind (filePayload firmwareBuf) blockSize 0 n).flatten
          = filePayload firmwareBuf := by
        rw [scriptBlocks_eq_pieces behind hwhole, Nat.zero_mul, List.drop_zero]
        exact pieces_flatten (by rw [hwhole, Nat.zero_add])
      refine ⟨_, hrecord, ?_, hflatten, by rw [hflatten, hcount]⟩
      intro block hmem
      rw [hsize]
      exact length_of_mem_scriptBlocks hmem

end Script

/-- On a device whose firmware is stopped the script's loader raises `ValueError` or sends the payload
in blocks of the declared size, exactly when the file is shorter than a header, or its blocks are not
empty and the length is no number of them, a command fails, or the file holds the payload. What lies
behind a slice makes no difference to it. -/
theorem loadFirmware_sends_iff (behind : Nat → Nat → Byte) (handle : Nat) (firmwareBuf : List Byte)
    (readStatus : HbiStatus) (flags : BitVec 15) (outcome : Nat → HbiStatus) :
    (RaisesValueError (scriptRun behind handle firmwareBuf readStatus flags outcome).2 ∨
      PayloadIssued handle firmwareBuf (scriptRun behind handle firmwareBuf readStatus flags outcome).1)
      ↔ ScriptLoads firmwareBuf outcome := by
  unfold ScriptLoads
  dsimp only
  by_cases hshort : firmwareBuf.length < imgHdrLen
  · have hraised := scriptRun_rejects behind handle readStatus flags outcome (Or.inl hshort)
    exact iff_of_true (Or.inl hraised) (Or.inl hshort)
  have hhdr : imgHdrLen ≤ firmwareBuf.length := by omega
  rw [or_iff_right hshort]
  by_cases hblock : (fileHdr firmwareBuf).blockSize * 2 = 0
  · rw [scriptRun_zeroBlock behind handle readStatus flags outcome hhdr hblock]
    apply iff_of_false
    · intro hcases
      rcases hcases with ⟨msg, hraised⟩ | ⟨blocks, hrecord, -⟩
      · cases hraised
      · have hnone : issuedCommands (stateRead handle readStatus flags outcome) = [] := rfl
        rw [hnone, loadCommands] at hrecord
        simp at hrecord
    · intro hboth
      obtain ⟨hpos, -⟩ := hboth
      exact hpos hblock
  rw [and_iff_right hblock]
  by_cases hdvd : (fileHdr firmwareBuf).blockSize * 2 ∣ (fileHdr firmwareBuf).imgLen
  · have hlen := (Nat.div_mul_cancel hdvd).symm
    rw [or_iff_right (not_not.2 hdvd)]
    by_cases hall : ∃ k ≤ (fileHdr firmwareBuf).imgLen / ((fileHdr firmwareBuf).blockSize * 2),
        outcome k ≠ .success
    · obtain ⟨k, hk, hfailed⟩ := hall
      have hraised :=
        scriptRun_failed behind handle readStatus flags outcome hhdr rfl hblock hlen hk hfailed
      exact iff_of_true (Or.inl hraised) (Or.inl ⟨k, hk, hfailed⟩)
    · have hsuccess : ∀ k ≤ (fileHdr firmwareBuf).imgLen / ((fileHdr firmwareBuf).blockSize * 2),
          outcome k = .success := by
        intro k hk
        by_contra hfailed
        exact hall ⟨k, hk, hfailed⟩
      obtain ⟨hresult, hissued⟩ :=
        scriptRun_succeeded behind handle readStatus flags outcome hhdr rfl hblock hlen hsuccess
      have hquiet : ¬ RaisesValueError (scriptRun behind handle firmwareBuf readStatus flags outcome).2 := by
        rw [hresult]
        intro hexists
        obtain ⟨msg, hraised⟩ := hexists
        cases hraised
      rw [or_iff_right hquiet, or_iff_right hall]
      exact hissued
  · have hraised := scriptRun_rejects behind handle readStatus flags outcome (Or.inr ⟨hblock, hdvd⟩)
    exact iff_of_true (Or.inl hraised) (Or.inl hdvd)

def cutFile : List Byte := [0x40, 0, 0x50, 0x40, 0, 1, 0, 0, 0, 4, 0, 0, 1, 2, 3]

/-- The last command declares a byte the slice does not have, and the loader ends without an
exception. -/
theorem loadFirmware_sends_cut :
    (scriptRun (fun _ _ => 0xEE) 5 cutFile .success 0 fun _ => .success).2 = .ok () ∧
      issuedCommands (scriptRun (fun _ _ => 0xEE) 5 cutFile .success 0 fun _ => .success).1
        = loadCommands 5 [[1, 2], [3, 0xEE]] ∧
      ¬ (RaisesValueError (scriptRun (fun _ _ => 0xEE) 5 cutFile .success 0 fun _ => .success).2 ∨
        PayloadIssued 5 cutFile (scriptRun (fun _ _ => 0xEE) 5 cutFile .success 0 fun _ => .success).1) := by
  refine ⟨by decide, by decide, ?_⟩
  intro hcases
  rcases hcases with ⟨msg, hraised⟩ | ⟨blocks, -, -, hpayload, hcount⟩
  · cases hraised
  · rw [hpayload] at hcount
    exact absurd hcount (by decide)

end VprocSdk
