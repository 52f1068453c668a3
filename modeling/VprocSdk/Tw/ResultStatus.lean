import VprocSdk.Tw.BootMode
import VprocSdk.Tw.MailboxContract
import VprocSdk.Tw.Endianness

/-!
# The status of a command and the device's response

Six commands end by reading the response the device left in register 0x34. The bus may fail any access
and answer any bytes, but a response that can be read is the word the device left, in its own byte
order; what the detection of the flash answers is left open.

`StatusReflects` says what the status of such a call means. Two things keep the calls from it: the mode
of the device counts as read when the read of it failed, and the response to a save has its bytes
swapped twice before it is compared with the code for a full flash.
-/

namespace VprocSdk

open Lib

/-! ### The commands -/

/-- The commands that return a status made of the response, with their arguments. -/
inductive ResultCmd
  | saveFwrcfgToFlash (valp : Bool)
  | eraseWholeFlash
  | eraseFwrcfgFromFlash (imageNumber : Option Word)
  | loadFwrcfgFromFlash (imageNumber : Word)
  | loadFwrComplete
  | startFwr
  deriving DecidableEq, Repr

namespace ResultCmd

def command : ResultCmd → Command
  | .saveFwrcfgToFlash valp => .saveFwrcfgToFlash valp
  | .eraseWholeFlash => .eraseWholeFlash
  | .eraseFwrcfgFromFlash imageNumber => .eraseFwrcfgFromFlash imageNumber
  | .loadFwrcfgFromFlash imageNumber => .loadFwrcfgFromFlash imageNumber
  | .loadFwrComplete => .loadFwrComplete
  | .startFwr => .startFwr

/-- The host command whose response the call returns. -/
def hostCmd : ResultCmd → Word
  | .saveFwrcfgToFlash _ => HostCmd.imgCfgSave
  | .eraseWholeFlash => HostCmd.eraseFlashInit
  | .eraseFwrcfgFromFlash _ => HostCmd.imgCfgErase
  | .loadFwrcfgFromFlash _ => HostCmd.imgCfgLoad
  | .loadFwrComplete => HostCmd.hostLoadCmp
  | .startFwr => HostCmd.fwrGo

/-- The response the device reports success with. -/
def succeeded : ResultCmd → Word
  | .eraseWholeFlash => HmiResp.flashInitOk
  | _ => HmiResp.success

def saves : ResultCmd → Bool
  | .saveFwrcfgToFlash _ => true
  | _ => false

/-- The status the command has for a response: a full flash is told apart by a save, and the other
responses as in the switches of the source. -/
def names (cmd : ResultCmd) (r : Word) : HbiStatus :=
  match cmd with
  | .saveFwrcfgToFlash _ => if r = HmiResp.flashFull then .flashFull else plainStatus r
  | .eraseWholeFlash => eraseStatus HmiResp.flashInitOk r
  | .eraseFwrcfgFromFlash _ => eraseStatus HmiResp.success r
  | .loadFwrcfgFromFlash _ | .startFwr => plainStatus r
  | .loadFwrComplete => bootConcludeStatus r

/-- The status the code makes of a response in the device's byte order. -/
def decodes (pDev : TwDev) (cmd : ResultCmd) (r : Word) : HbiStatus :=
  match cmd with
  | .saveFwrcfgToFlash _ => saveFwrcfgStatus pDev r
  | cmd => cmd.names r

end ResultCmd

/-! ### The device -/

def noteCommand (last : Option Word) : BusOp → Option Word
  | .write reg data => if reg = Reg.hostCmd then some (devWord .big data) else last
  | _ => last

/-- The command last written to the command register. -/
def lastCommand (record : BusRecord) : Option Word :=
  record.foldl (fun last x => noteCommand last x.1) none

/-- A device that leaves the response `r` to a host command in register 0x34, and whose other answers
and failures are those of `answer`. -/
def leaving (cmd r : Word) (answer : BusRecord → BusOp → BusAnswer) (done : BusRecord) (op : BusOp) :
    BusAnswer :=
  if op = .read Reg.hostCmdParamResult 2 ∧ lastCommand done = some cmd then
    ⟨(answer done op).status, devBytes .big r⟩
  else answer done op

/-- What a call asks of the device, its answers, and what the call returns. -/
def resultRun (h : Nat) (cmd : ResultCmd) (r : Word) (answer : BusRecord → BusOp → BusAnswer) :
    BusRecord × HbiStatus × Option Word :=
  (internalHbiSetCommand ⟨.big, h⟩ cmd.command).run (leaving cmd.hostCmd r answer) []

/-! ### What a status means -/

def Answered (record : BusRecord) : Prop := ∀ x ∈ record, x.2.status = .ok

/-- Register 0x34 was read when the command was the last one written. -/
def ResponseRead (cmd : Word) (record : BusRecord) : Prop :=
  ∃ before ans rest, record = before ++ (.read Reg.hostCmdParamResult 2, ans) :: rest ∧
    lastCommand before = some cmd ∧ ans.status = .ok

/-- The statuses that only a response gives. -/
def responseStatuses : List HbiStatus := [.success, .flashFull, .badImage, .incompatApp]

/-- What the status of a call means: a success, that every access succeeded and the device reported it;
any other response that was read, the status the command has for it. A call that did not read the
response, or that failed after a success was read, has a status no response gives. -/
structure StatusReflects (cmd : ResultCmd) (r : Word) (record : BusRecord) (status : HbiStatus) :
    Prop where
  success : status = .success → Answered record ∧ r = cmd.succeeded
  named : ResponseRead cmd.hostCmd record → (r = cmd.succeeded → Answered record) →
    status = cmd.names r
  failed : ¬ ResponseRead cmd.hostCmd record ∨ r = cmd.succeeded ∧ ¬ Answered record →
    status ∉ responseStatuses

/-- Nothing failed but, perhaps, the read of the mode. -/
def OthersAnswered (record : BusRecord) : Prop :=
  ∀ x ∈ record, x.1 ≠ .read Reg.curLoadedFwImg 2 → x.2.status = .ok

/-- The accesses and the response keep clear of the two defects: a save whose response is read is not
told that the flash is full, in either order of the bytes, and the read of the mode is not the only
access that fails when the device reports success. -/
structure ClearOfDefects (cmd : ResultCmd) (r : Word) (record : BusRecord) : Prop where
  saved : cmd.saves = true → ResponseRead cmd.hostCmd record →
    r ≠ HmiResp.flashFull ∧ r ≠ hbiVal .big HmiResp.flashFull
  mode : ResponseRead cmd.hostCmd record → r = cmd.succeeded → OthersAnswered record →
    Answered record

/-! ### Records -/

section Records

variable {record : BusRecord} {cmd : Word}

theorem lastCommand_snoc (x : BusOp × BusAnswer) :
    lastCommand (record ++ [x]) = noteCommand (lastCommand record) x.1 := by
  rw [lastCommand, List.foldl_append]
  rfl

theorem lastCommand_read (reg : RegAddr) (size : Nat) (ans : BusAnswer) :
    lastCommand (record ++ [(.read reg size, ans)]) = lastCommand record := lastCommand_snoc _

theorem lastCommand_write {reg : RegAddr} (hreg : reg ≠ Reg.hostCmd) (data : List Byte) (ans : BusAnswer) :
    lastCommand (record ++ [(.write reg data, ans)]) = lastCommand record := by
  rw [lastCommand_snoc, noteCommand, if_neg hreg]

theorem lastCommand_command (cmd : Word) (ans : BusAnswer) :
    lastCommand (record ++ [(.write Reg.hostCmd (hostBytes (hbiVal .big cmd)), ans)]) = some cmd := by
  rw [lastCommand_snoc, noteCommand, if_pos rfl, devWord_hostBytes_hbiVal]

theorem OthersAnswered.snoc {x : BusOp × BusAnswer} (h : OthersAnswered record)
    (hx : x.1 ≠ .read Reg.curLoadedFwImg 2 → x.2.status = .ok) : OthersAnswered (record ++ [x]) := by
  intro y hy hmode
  rcases List.mem_append.1 hy with hrecord | hlast
  · exact h y hrecord hmode
  · rw [List.mem_singleton.1 hlast] at hmode ⊢
    exact hx hmode

theorem not_responseRead
    (h : Prog.Justified (fun before op ans => op = .read Reg.hostCmdParamResult 2 →
      lastCommand before = some cmd → ans.status ≠ .ok) record) : ¬ ResponseRead cmd record := by
  intro hread
  obtain ⟨before, ans, rest, heq, hlast, hok⟩ := hread
  exact h before _ ans rest heq rfl hlast hok

end Records

/-! ### Up to the response -/

/-- The last command in the record, which nothing but the read of the mode failed in. -/
structure Pending (last : Option Word) (done : BusRecord) : Prop where
  command : lastCommand done = last
  answered : OthersAnswered done

/-- What a part of a call leaves: its command pending, or a status no response gives. -/
def Leaves (last : Option Word) (status : HbiStatus) (done : BusRecord) : Prop :=
  (status = .success → Pending last done) ∧ (status ≠ .success → status ∉ responseStatuses)

/-- The programs that do not read the response to the command. -/
def silent (cmd : Word) : Prog.Contract BusOp BusAnswer BusRecord :=
  Prog.historyContract
    (fun done op => op = .read Reg.hostCmdParamResult 2 → lastCommand done ≠ some cmd)
    fun _ _ _ => True

section Parts

variable {cmd : Word} {last mid : Option Word} {done : BusRecord}

theorem leaves_failed {status : HbiStatus} (hstatus : status ∉ responseStatuses) :
    Leaves last status done := by
  refine ⟨fun heq => ?_, fun _ => hstatus⟩
  rw [heq] at hstatus
  exact absurd (List.mem_cons_self ..) hstatus

theorem leaves_success (h : Pending last done) : Leaves last .success done :=
  ⟨fun _ => h, fun hne => absurd rfl hne⟩

theorem pending_nil : Pending none [] where
  command := rfl
  answered := fun _ hx => absurd hx List.not_mem_nil

theorem Pending.read {reg : RegAddr} {ans : BusAnswer} (h : Pending last done)
    (hok : reg ≠ Reg.curLoadedFwImg → ans.status = .ok) :
    Pending last (done ++ [(.read reg 2, ans)]) where
  command := by rw [lastCommand_read, h.command]
  answered := h.answered.snoc fun hmode => hok fun hreg => hmode (by rw [hreg])

theorem Pending.write {reg : RegAddr} {data : List Byte} {ans : BusAnswer} (h : Pending last done)
    (hreg : reg ≠ Reg.hostCmd) (hok : ans.status = .ok) :
    Pending last (done ++ [(.write reg data, ans)]) where
  command := by rw [lastCommand_write hreg, h.command]
  answered := h.answered.snoc fun _ => hok

theorem obeys_chk_leaves {p q : Tw HbiStatus} (hp : p.Obeys (silent cmd) done (Leaves mid))
    (hq : ∀ done', Pending mid done' → q.Obeys (silent cmd) done' (Leaves last)) :
    (p >>= fun status => if status ≠ .success then pure status else q).Obeys (silent cmd) done
      (Leaves last) := by
  refine obeys_chk (Pending mid) (hp.mono fun status done' h => ⟨h.1, fun hne => ?_⟩) hq
  exact leaves_failed (h.2 hne)

theorem silent_readWord {reg : RegAddr} (hreg : reg = Reg.hostCmdParamResult → last ≠ some cmd)
    (h : Pending last done) :
    (readWord reg).Obeys (silent cmd) done fun result done' =>
      result = .error .internalErr ∨ ∃ val, result = .ok val ∧ Pending last done' := by
  apply obeys_readWord
  · intro heq
    rw [h.command]
    exact hreg (BusOp.read.inj heq).1
  · intro ans _
    by_cases hok : ans.status = .ok
    · exact .inr ⟨_, readResult_ok hok, h.read fun _ => hok⟩
    · exact .inl (readResult_failed hok)

theorem leaves_writeResult {ans : BusAnswer} (h : ans.status = .ok → Pending last done) :
    Leaves last (writeResult ans) done := by
  by_cases hok : ans.status = .ok
  · rw [writeResult_ok hok]
    exact leaves_success (h hok)
  · apply leaves_failed
    rw [writeResult, if_pos hok]
    split <;> decide

theorem leaves_writeWord {reg : RegAddr} (hreg : reg ≠ Reg.hostCmd) (val : Word)
    (h : Pending last done) : (writeWord reg val).Obeys (silent cmd) done (Leaves last) := by
  apply obeys_writeWord
  · intro heq
    exact absurd heq (by simp)
  · intro ans _
    exact leaves_writeResult fun hok => h.write hreg hok

theorem leaves_writeCommand (issued : Word) (h : Pending last done) :
    (writeWord Reg.hostCmd (hbiVal .big issued)).Obeys (silent cmd) done (Leaves (some issued)) := by
  apply obeys_writeWord
  · intro heq
    exact absurd heq (by simp)
  · intro ans _
    apply leaves_writeResult
    intro hok
    exact ⟨lastCommand_command issued ans, h.answered.snoc fun _ => hok⟩

theorem leaves_spin {reg : RegAddr} (released : Word → Bool) (hreg : reg ≠ Reg.hostCmdParamResult)
    (n : Nat) (h : Pending last done) :
    (spin reg released n).Obeys (silent cmd) done (Leaves last) := by
  induction n generalizing done with
  | zero => exact leaves_failed (by decide)
  | succ n ih =>
      refine (silent_readWord (fun heq => absurd heq hreg) h).bind ?_
      intro result done' hresult
      rcases hresult with rfl | ⟨temp, rfl, hpending⟩
      · exact leaves_failed (by decide)
      · dsimp only
        split
        · exact leaves_success hpending
        · exact ih hpending

variable {h : Nat}

theorem leaves_twWrCmdreg (issued : Word) (hpending : Pending last done) :
    (twWrCmdreg ⟨.big, h⟩ issued).Obeys (silent cmd) done (Leaves (some issued)) := by
  apply obeys_chk_leaves (leaves_spin _ (by decide) _ hpending)
  intro done₁ h₁
  apply obeys_chk_leaves (leaves_writeCommand issued h₁)
  intro done₂ h₂
  apply obeys_chk_leaves (leaves_writeWord (by decide) _ h₂)
  intro done₃ h₃
  exact leaves_spin _ (by decide) _ h₃

theorem initCheckFlashStatus_failed {w : Word} (hfailed : initCheckFlashStatus w ≠ .success) :
    initCheckFlashStatus w ∉ responseStatuses := by
  rw [initCheckFlashStatus] at hfailed ⊢
  split at hfailed
  · exact absurd rfl hfailed
  · rename_i hne
    rw [if_neg hne]
    split <;> decide

theorem leaves_twInitCheckFlash (hcmd : cmd ≠ HostCmd.hostFlashInit) (hpending : Pending last done) :
    (twInitCheckFlash ⟨.big, h⟩).Obeys (silent cmd) done (Leaves (some HostCmd.hostFlashInit)) := by
  apply obeys_chk_leaves (leaves_twWrCmdreg _ hpending)
  intro done₁ h₁
  unfold twCmdresultCheck
  rw [Prog.bind_assoc]
  refine (silent_readWord (fun _ heq => hcmd (Option.some.inj heq).symm) h₁).bind ?_
  intro result done₂ hresult
  rcases hresult with rfl | ⟨w, rfl, h₂⟩
  · have hinternal : initCheckFlashStatus (hbiVal .big 1) ∉ responseStatuses := by decide
    exact leaves_failed hinternal
  · exact ⟨fun _ => h₂, initCheckFlashStatus_failed⟩

/-- The mode counts as read when the read of it fails. -/
theorem silent_twChkDevBootRomMode :
    (twChkDevBootRomMode ⟨.big, h⟩).Obeys (silent cmd) [] fun _ done => Pending none done := by
  have hread : (readWord Reg.curLoadedFwImg).Obeys (silent cmd) [] fun _ done => Pending none done := by
    apply obeys_readWord
    · intro heq
      exact absurd heq (by decide)
    · intro ans _
      exact pending_nil.read fun hmode => absurd rfl hmode
  refine hread.bind ?_
  intro result done hpending
  cases result with
  | error status => exact hpending
  | ok val =>
      dsimp only
      split <;> exact hpending

theorem leaves_twReset_toBoot (hpending : Pending none done) :
    (twReset ⟨.big, h⟩ .toBoot).Obeys (silent cmd) done (Leaves none) := by
  apply obeys_chk_leaves (leaves_writeWord (by decide) _ hpending)
  intro done₁ h₁
  refine (silent_readWord (fun _ => by simp) h₁).bind ?_
  intro result done₂ hresult
  rcases hresult with rfl | ⟨val, rfl, h₂⟩
  · exact leaves_failed (by decide)
  · dsimp only
    split
    · exact leaves_failed (by decide)
    · exact leaves_success h₂

theorem leaves_enterBootRom :
    (enterBootRom ⟨.big, h⟩).Obeys (silent cmd) [] (Leaves none) := by
  refine silent_twChkDevBootRomMode.bind ?_
  intro ret done hpending
  split
  · exact leaves_failed (by decide)
  · split
    · exact leaves_twReset_toBoot hpending
    · exact leaves_success hpending

theorem leaves_flashCommand (hcmd : cmd ≠ HostCmd.hostFlashInit) {reg : RegAddr}
    (hreg : reg ≠ Reg.hostCmd) (val : Word) :
    (flashCommand ⟨.big, h⟩ reg val cmd).Obeys (silent cmd) [] (Leaves (some cmd)) := by
  have hopened : (flashOpened ⟨.big, h⟩).Obeys (silent cmd) []
      (Leaves (some HostCmd.hostFlashInit)) := by
    apply obeys_chk_leaves leaves_enterBootRom
    intro done₁ h₁
    exact leaves_twInitCheckFlash hcmd h₁
  apply obeys_chk_leaves hopened
  intro done₁ h₁
  apply obeys_chk_leaves (leaves_writeWord hreg val h₁)
  intro done₂ h₂
  exact leaves_twWrCmdreg cmd h₂

/-- `tw_start_fwr_from_ram` up to its response. -/
def startCommand (pDev : TwDev) : Tw HbiStatus := do
  let ret ← twChkDevBootRomMode pDev
  if ret < 0 then return .internalErr
  if ret = 0 then return .invalidState
  twWrCmdreg pDev HostCmd.fwrGo

theorem leaves_startCommand :
    (startCommand ⟨.big, h⟩).Obeys (silent cmd) [] (Leaves (some HostCmd.fwrGo)) := by
  refine silent_twChkDevBootRomMode.bind ?_
  intro ret done hpending
  split
  · exact leaves_failed (by decide)
  · split
    · exact leaves_failed (by decide)
    · exact leaves_twWrCmdreg _ hpending

end Parts

theorem ResultCmd.hostCmd_ne_flashInit (cmd : ResultCmd) : cmd.hostCmd ≠ HostCmd.hostFlashInit := by
  cases cmd <;> simp only [ResultCmd.hostCmd] <;> decide

/-! ### The response -/

theorem run_response {α : Type} (answer : BusRecord → BusOp → BusAnswer) (done : BusRecord)
    (k : Word → Tw α) :
    (twCmdresultCheck >>= k).run answer done
      = (k (cmdResult (answer done (.read Reg.hostCmdParamResult 2)))).run answer
          (done ++ [(.read Reg.hostCmdParamResult 2, answer done (.read Reg.hostCmdParamResult 2))]) := by
  rw [twCmdresultCheck_eq]
  rfl

section Decoding

variable {cmd : ResultCmd} {r : Word} {pDev : TwDev}

theorem ite_eq_success {c : Prop} [Decidable c] {other : HbiStatus} (hother : other ≠ .success) :
    (if c then .success else other) = HbiStatus.success ↔ c := by
  by_cases hc : c
  · simp [hc]
  · simp [hc, hother]

theorem plainStatus_eq_success : plainStatus r = .success ↔ r = HmiResp.success := by
  rw [plainStatus, ite_not]
  exact ite_eq_success (by decide)

theorem eraseStatus_eq_success {succeeded : Word} :
    eraseStatus succeeded r = .success ↔ r = succeeded := by
  rw [eraseStatus]
  apply ite_eq_success
  split_ifs <;> decide

theorem bootConcludeStatus_eq_success : bootConcludeStatus r = .success ↔ r = HmiResp.success := by
  rw [bootConcludeStatus]
  by_cases hincompat : r = HmiResp.incompatApp
  · subst hincompat
    decide
  · rw [if_neg hincompat]
    exact ite_eq_success (by decide)

theorem saveFwrcfgStatus_eq_success : saveFwrcfgStatus pDev r = .success ↔ r = HmiResp.success := by
  rw [saveFwrcfgStatus, ite_not]
  apply ite_eq_success
  split_ifs <;> decide

theorem decodes_eq_success : cmd.decodes pDev r = .success ↔ r = cmd.succeeded := by
  cases cmd with
  | saveFwrcfgToFlash valp => exact saveFwrcfgStatus_eq_success
  | eraseWholeFlash => exact eraseStatus_eq_success
  | eraseFwrcfgFromFlash imageNumber => exact eraseStatus_eq_success
  | loadFwrcfgFromFlash imageNumber => exact plainStatus_eq_success
  | loadFwrComplete => exact bootConcludeStatus_eq_success
  | startFwr => exact plainStatus_eq_success

theorem swapped_eq_iff {v w : Word} : hbiVal .big v = w ↔ v = hbiVal .big w := by
  constructor
  · intro heq
    rw [← heq, hbiVal_hbiVal]
  · intro heq
    rw [heq, hbiVal_hbiVal]

theorem save_decodes_eq_names {h : Nat} {valp : Bool} :
    (ResultCmd.saveFwrcfgToFlash valp).decodes ⟨.big, h⟩ r = (ResultCmd.saveFwrcfgToFlash valp).names r ↔
      r ≠ HmiResp.flashFull ∧ r ≠ hbiVal .big HmiResp.flashFull := by
  rw [ResultCmd.decodes, ResultCmd.names, saveFwrcfgStatus, plainStatus]
  simp only [swapped_eq_iff]
  by_cases hfull : r = HmiResp.flashFull
  · subst hfull
    simp only [ne_eq, not_true_eq_false, false_and, iff_false]
    decide
  by_cases hswapped : r = hbiVal .big HmiResp.flashFull
  · subst hswapped
    simp only [ne_eq, not_true_eq_false, and_false, iff_false]
    decide
  · simp [hfull, hswapped]

theorem decodes_eq_names {h : Nat} :
    cmd.decodes ⟨.big, h⟩ r = cmd.names r ↔
      (cmd.saves = true → r ≠ HmiResp.flashFull ∧ r ≠ hbiVal .big HmiResp.flashFull) := by
  cases cmd with
  | saveFwrcfgToFlash valp => simp only [save_decodes_eq_names, ResultCmd.saves, true_imp_iff]
  | eraseWholeFlash => simp [ResultCmd.decodes, ResultCmd.saves]
  | eraseFwrcfgFromFlash imageNumber => simp [ResultCmd.decodes, ResultCmd.saves]
  | loadFwrcfgFromFlash imageNumber => simp [ResultCmd.decodes, ResultCmd.saves]
  | loadFwrComplete => simp [ResultCmd.decodes, ResultCmd.saves]
  | startFwr => simp [ResultCmd.decodes, ResultCmd.saves]

theorem succeeded_not_full (hsaves : cmd.saves = true) (hr : r = cmd.succeeded) :
    r ≠ HmiResp.flashFull ∧ r ≠ hbiVal .big HmiResp.flashFull := by
  have hzero : r = HmiResp.success := by
    cases cmd with
    | saveFwrcfgToFlash valp => exact hr
    | eraseWholeFlash => exact absurd hsaves Bool.false_ne_true
    | eraseFwrcfgFromFlash imageNumber => exact hr
    | loadFwrcfgFromFlash imageNumber => exact hr
    | loadFwrComplete => exact hr
    | startFwr => exact hr
  subst hzero
  decide

end Decoding

/-! ### Where the response is read -/

/-- What a call makes of a response it read: the status the code has for it, or that of a later access
which failed. -/
structure Concluded (pDev : TwDev) (cmd : ResultCmd) (r : Word) (record : BusRecord)
    (status : HbiStatus) : Prop where
  decided : OthersAnswered record → status = cmd.decodes pDev r
  late : ¬ OthersAnswered record → r = cmd.succeeded ∧ status ∉ responseStatuses

section Response

variable {cmd : ResultCmd} {r : Word} {record : BusRecord} {status : HbiStatus} {h : Nat}

theorem Answered.others (hall : Answered record) : OthersAnswered record := fun x hx _ => hall x hx

theorem reflects_of_unread (hunread : ¬ ResponseRead cmd.hostCmd record)
    (hstatus : status ∉ responseStatuses) : StatusReflects cmd r record status where
  success := fun heq => by
    rw [heq] at hstatus
    exact absurd (List.mem_cons_self ..) hstatus
  named := fun hread => absurd hread hunread
  failed := fun _ => hstatus

theorem clear_of_unread (hunread : ¬ ResponseRead cmd.hostCmd record) : ClearOfDefects cmd r record where
  saved := fun _ hread => absurd hread hunread
  mode := fun hread => absurd hread hunread

theorem Concluded.reflects (hconcluded : Concluded ⟨.big, h⟩ cmd r record status)
    (hread : ResponseRead cmd.hostCmd record) (hclear : ClearOfDefects cmd r record) :
    StatusReflects cmd r record status where
  success := by
    intro hstatus
    have hothers : OthersAnswered record := by
      by_contra hfailed
      apply (hconcluded.late hfailed).2
      rw [hstatus]
      exact List.mem_cons_self ..
    have hsucceeded : r = cmd.succeeded :=
      decodes_eq_success.1 ((hconcluded.decided hothers).symm.trans hstatus)
    exact ⟨hclear.mode hread hsucceeded hothers, hsucceeded⟩
  named := by
    intro _ hanswered
    have hothers : OthersAnswered record := by
      by_contra hfailed
      exact hfailed (hanswered (hconcluded.late hfailed).1).others
    rw [hconcluded.decided hothers]
    exact decodes_eq_names.2 fun hsaves => hclear.saved hsaves hread
  failed := by
    intro hcases
    rcases hcases with hunread | ⟨hsucceeded, hfailed⟩
    · exact absurd hread hunread
    · exact (hconcluded.late fun hothers => hfailed (hclear.mode hread hsucceeded hothers)).2

theorem Concluded.clear (hconcluded : Concluded ⟨.big, h⟩ cmd r record status)
    (hread : ResponseRead cmd.hostCmd record) (hreflects : StatusReflects cmd r record status) :
    ClearOfDefects cmd r record where
  saved := by
    intro hsaves _
    by_cases hothers : OthersAnswered record
    · by_cases hsucceeded : r = cmd.succeeded
      · exact succeeded_not_full hsaves hsucceeded
      · have hnamed := hreflects.named hread fun heq => absurd heq hsucceeded
        rw [hconcluded.decided hothers] at hnamed
        exact decodes_eq_names.1 hnamed hsaves
    · exact succeeded_not_full hsaves (hconcluded.late hothers).1
  mode := by
    intro _ hsucceeded hothers
    apply (hreflects.success _).1
    rw [hconcluded.decided hothers]
    exact decodes_eq_success.2 hsucceeded

end Response

/-! ### The calls -/

section Calls

variable {cmd : ResultCmd} {r : Word} {h : Nat} {answer : BusRecord → BusOp → BusAnswer}

/-- A call that issues its command and then concludes from the response keeps to it exactly when it
keeps clear of the two defects. -/
theorem reflects_iff_of_issues {p : Tw HbiStatus} {k : Word → Tw (HbiStatus × Option Word)}
    (hcall : internalHbiSetCommand ⟨.big, h⟩ cmd.command = p >>= fun status =>
      if status ≠ .success then pure (status, none) else twCmdresultCheck >>= k)
    (hp : p.Obeys (silent cmd.hostCmd) [] (Leaves (some cmd.hostCmd)))
    (hfailed : k 1 = pure (.commandErr, none))
    (hread : ∀ record, OthersAnswered record →
      let run := (k (hbiVal .big r)).run (leaving cmd.hostCmd r answer) record
      Concluded ⟨.big, h⟩ cmd r run.1 run.2.1) :
    StatusReflects cmd r (resultRun h cmd r answer).1 (resultRun h cmd r answer).2.1 ↔
      ClearOfDefects cmd r (resultRun h cmd r answer).1 := by
  have hleaves : Leaves (some cmd.hostCmd) (p.run (leaving cmd.hostCmd r answer) []).2
      (p.run (leaving cmd.hostCmd r answer) []).1 :=
    (hp.run (Prog.justified_nil _) fun _ _ => trivial).2
  have hsilent : Prog.Justified (fun before op ans => op = .read Reg.hostCmdParamResult 2 →
      lastCommand before = some cmd.hostCmd → ans.status ≠ .ok)
      (p.run (leaving cmd.hostCmd r answer) []).1 :=
    (hp.run (Prog.justified_nil _) fun _ _ => trivial).1.mono fun before op ans hmay hop hlast =>
      absurd hlast (hmay.1 hop)
  rw [resultRun, hcall, Prog.run_bind]
  generalize p.run (leaving cmd.hostCmd r answer) [] = issued at hleaves hsilent
  obtain ⟨record, status⟩ := issued
  by_cases hstatus : status = .success
  · rw [if_neg (not_not.2 hstatus), run_response]
    obtain ⟨hlast, hothers⟩ := hleaves.1 hstatus
    generalize hans : leaving cmd.hostCmd r answer record (.read Reg.hostCmdParamResult 2) = ans
    by_cases hok : ans.status = .ok
    · have hword : cmdResult ans = hbiVal .big r := by
        rw [cmdResult, if_pos hok, ← hans, leaving, if_pos ⟨rfl, hlast⟩, hostWord_devBytes]
      rw [hword]
      have hconcluded := hread (record ++ [(.read Reg.hostCmdParamResult 2, ans)])
        (hothers.snoc fun _ => hok)
      have hresponse : ResponseRead cmd.hostCmd ((k (hbiVal .big r)).run (leaving cmd.hostCmd r answer)
          (record ++ [(.read Reg.hostCmdParamResult 2, ans)])).1 := by
        obtain ⟨more, hmore⟩ := Prog.run_extends (leaving cmd.hostCmd r answer)
          (record ++ [(.read Reg.hostCmdParamResult 2, ans)]) (k (hbiVal .big r))
        rw [hmore, List.append_assoc]
        exact ⟨record, ans, more, rfl, hlast, hok⟩
      exact ⟨hconcluded.clear hresponse, hconcluded.reflects hresponse⟩
    · have hunread := not_responseRead (hsilent.snoc (q := .read Reg.hostCmdParamResult 2) (a := ans)
        fun _ _ => hok)
      have hone : cmdResult ans = 1 := by
        rw [cmdResult, if_neg hok]
        rfl
      have hcommandErr : HbiStatus.commandErr ∉ responseStatuses := by decide
      rw [hone, hfailed]
      exact ⟨fun _ => clear_of_unread hunread, fun _ => reflects_of_unread hunread hcommandErr⟩
  · rw [if_pos hstatus]
    have hunread := not_responseRead hsilent
    exact ⟨fun _ => clear_of_unread hunread, fun _ => reflects_of_unread hunread (hleaves.2 hstatus)⟩

theorem reflects_iff_of_decodes {p : Tw HbiStatus} {decode : Word → HbiStatus}
    (hcall : internalHbiSetCommand ⟨.big, h⟩ cmd.command
      = (p >>= fun status => if status ≠ .success then pure status else twCmdresultCheck >>= fun result =>
          pure (decode (hbiVal .big result))) >>= fun status => pure (status, none))
    (hp : p.Obeys (silent cmd.hostCmd) [] (Leaves (some cmd.hostCmd)))
    (hfailed : decode (hbiVal .big 1) = .commandErr) (hdecode : decode r = cmd.decodes ⟨.big, h⟩ r) :
    StatusReflects cmd r (resultRun h cmd r answer).1 (resultRun h cmd r answer).2.1 ↔
      ClearOfDefects cmd r (resultRun h cmd r answer).1 := by
  apply reflects_iff_of_issues (k := fun result => pure (decode (hbiVal .big result), none)) _ hp
  · rw [hfailed]
  · intro record hothers
    rw [hbiVal_hbiVal, hdecode]
    exact ⟨fun _ => rfl, fun hnot => absurd hothers hnot⟩
  · rw [hcall, Prog.bind_assoc]
    congr 1
    funext status
    by_cases hstatus : status ≠ .success
    · rw [if_pos hstatus, if_pos hstatus]
      rfl
    · rw [if_neg hstatus, if_neg hstatus, Prog.bind_assoc]
      rfl

theorem concluded_saveFwrcfgEnd {valp : Bool} {record : BusRecord} (hothers : OthersAnswered record) :
    let run := (saveFwrcfgEnd ⟨.big, h⟩ valp (hbiVal .big r)).run answer record
    Concluded ⟨.big, h⟩ (.saveFwrcfgToFlash valp) r run.1 run.2.1 := by
  dsimp only
  rw [saveFwrcfgEnd, hbiVal_hbiVal]
  by_cases hstatus : saveFwrcfgStatus ⟨.big, h⟩ r = .success
  · have hsucceeded : r = (ResultCmd.saveFwrcfgToFlash valp).succeeded :=
      decodes_eq_success.1 hstatus
    cases valp with
    | false =>
        simp only [hstatus]
        exact ⟨fun _ => hstatus.symm, fun hnot => absurd hothers hnot⟩
    | true =>
        have hne : ¬ HbiStatus.success ≠ .success := not_not.2 rfl
        simp only [hstatus, readWord_eq, if_neg hne, Bool.not_true, Bool.false_eq_true, if_false,
          Prog.ask_bind, Prog.pure_bind, Prog.run_ask]
        generalize answer record (.read Reg.fwrCount 2) = ans
        by_cases hok : ans.status = .ok
        · rw [readResult_ok hok]
          refine ⟨fun _ => hstatus.symm, fun hnot => absurd (hothers.snoc fun _ => hok) hnot⟩
        · have hinternal : HbiStatus.internalErr ∉ responseStatuses := by decide
          rw [readResult_failed hok]
          have hlast : (BusOp.read Reg.fwrCount 2, ans) ∈ record ++ [(BusOp.read Reg.fwrCount 2, ans)] :=
            List.mem_append_right _ (List.mem_singleton_self _)
          refine ⟨fun hall => absurd (hall _ hlast ?_) hok, fun _ => ⟨hsucceeded, hinternal⟩⟩
          simp [Reg.fwrCount, Reg.curLoadedFwImg]
  · simp only [if_pos hstatus]
    exact ⟨fun _ => rfl, fun hnot => absurd hothers hnot⟩

theorem refused_reflects_iff (hrefused : internalHbiSetCommand ⟨.big, h⟩ cmd.command
      = pure (.invalidArg, none)) :
    StatusReflects cmd r (resultRun h cmd r answer).1 (resultRun h cmd r answer).2.1 ↔
      ClearOfDefects cmd r (resultRun h cmd r answer).1 := by
  have hunread : ¬ ResponseRead cmd.hostCmd [] := not_responseRead (Prog.justified_nil _)
  have hinvalidArg : HbiStatus.invalidArg ∉ responseStatuses := by decide
  rw [resultRun, hrefused]
  exact ⟨fun _ => clear_of_unread hunread, fun _ => reflects_of_unread hunread hinvalidArg⟩

theorem startFwr_issues (pDev : TwDev) :
    twStartFwrFromRam pDev = startCommand pDev >>= fun status =>
      if status ≠ .success then pure status else twCmdresultCheck >>= fun result =>
        pure (plainStatus (hbiVal pDev.endianness result)) := by
  rw [twStartFwrFromRam, startCommand, Prog.bind_assoc]
  congr 1
  funext ret
  by_cases hfailed : ret < 0
  · rw [if_pos hfailed, if_pos hfailed]
    rfl
  · rw [if_neg hfailed, if_neg hfailed]
    by_cases happ : ret = 0
    · rw [if_pos happ, if_pos happ]
      rfl
    · rw [if_neg happ, if_neg happ]

/-- For each of the six commands, every response the device leaves and every pattern of failures and
answers, the status means what it says exactly when the call keeps clear of the two defects. -/
theorem resultStatus_iff (h : Nat) (cmd : ResultCmd) (r : Word) (answer : BusRecord → BusOp → BusAnswer) :
    StatusReflects cmd r (resultRun h cmd r answer).1 (resultRun h cmd r answer).2.1 ↔
      ClearOfDefects cmd r (resultRun h cmd r answer).1 := by
  cases cmd with
  | saveFwrcfgToFlash valp =>
      apply reflects_iff_of_issues (k := saveFwrcfgEnd ⟨.big, h⟩ valp)
        (p := flashCommand ⟨.big, h⟩ Reg.cfgRecChksum 0 HostCmd.imgCfgSave)
      · exact twSaveFwrcfgToFlash_eq ⟨.big, h⟩ valp
      · exact leaves_flashCommand (ResultCmd.hostCmd_ne_flashInit _) (by decide) 0
      · have hcommandErr : saveFwrcfgStatus ⟨.big, h⟩ (hbiVal .big 1) = .commandErr := by
          change saveFwrcfgStatus ⟨.big, 0⟩ _ = _
          decide
        rw [saveFwrcfgEnd]
        simp only [hcommandErr]
        rfl
      · exact fun record hothers => concluded_saveFwrcfgEnd hothers
  | eraseWholeFlash =>
      apply reflects_iff_of_decodes (congrArg (· >>= _) (twEraseFlash_eq ⟨.big, h⟩))
      · exact leaves_flashCommand (ResultCmd.hostCmd_ne_flashInit _) (by decide) _
      · decide
      · rfl
  | eraseFwrcfgFromFlash imageNumber =>
      cases imageNumber with
      | none => exact refused_reflects_iff rfl
      | some imageNumber =>
          by_cases hpos : imageNumber.toInt ≤ 0
          · apply refused_reflects_iff
            change (twEraseFwrcfgFromFlash _ _ >>= _) = _
            rw [twEraseFwrcfgFromFlash, if_pos hpos]
            rfl
          · apply reflects_iff_of_decodes (congrArg (· >>= _) (twEraseFwrcfgFromFlash_eq ⟨.big, h⟩ hpos))
            · exact leaves_flashCommand (ResultCmd.hostCmd_ne_flashInit _) (by decide) _
            · decide
            · rfl
  | loadFwrcfgFromFlash imageNumber =>
      by_cases hpos : imageNumber.toInt ≤ 0
      · apply refused_reflects_iff
        change (twLoadFwrcfgFromFlash _ _ >>= _) = _
        rw [twLoadFwrcfgFromFlash, if_pos hpos]
        rfl
      · apply reflects_iff_of_decodes (congrArg (· >>= _) (twLoadFwrcfgFromFlash_eq ⟨.big, h⟩ hpos))
        · exact leaves_flashCommand (ResultCmd.hostCmd_ne_flashInit _) (by decide) _
        · decide
        · rfl
  | loadFwrComplete =>
      have hcall : twBootConclude ⟨.big, h⟩ = twWrCmdreg ⟨.big, h⟩ HostCmd.hostLoadCmp >>= fun status =>
          if status ≠ .success then pure status else twCmdresultCheck >>= fun result =>
            pure (bootConcludeStatus (hbiVal .big result)) := rfl
      apply reflects_iff_of_decodes (congrArg (· >>= _) hcall)
      · exact leaves_twWrCmdreg _ pending_nil
      · decide
      · rfl
  | startFwr =>
      apply reflects_iff_of_decodes (congrArg (· >>= _) (startFwr_issues ⟨.big, h⟩))
      · exact leaves_startCommand
      · decide
      · rfl

end Calls

/-- A device in the boot ROM with an initialised flash, on which the reads of some registers fail. -/
def deviceFailing (failing : List RegAddr) (_ : BusRecord) (op : BusOp) : BusAnswer :=
  if failing.any fun reg => op = .read reg 2 then ⟨.failed, []⟩
  else if op = .read Reg.hostCmdParamResult 2 then ⟨.ok, devBytes .big HmiResp.flashInitOk⟩
  else ⟨.ok, [0, 0]⟩

/-- The accesses of a save up to its response. -/
def fullFlashAccesses : BusRecord :=
  (resultRun 1 (.saveFwrcfgToFlash false) HmiResp.flashFull (deviceFailing [])).1.dropLast

/-- A save that the device answers with a full flash returns another status, and an erasing whose read
of the mode failed returns a success. -/
theorem fullFlash_and_failedMode_misreported :
    ¬ StatusReflects (.saveFwrcfgToFlash false) HmiResp.flashFull
        (resultRun 1 (.saveFwrcfgToFlash false) HmiResp.flashFull (deviceFailing [])).1
        (resultRun 1 (.saveFwrcfgToFlash false) HmiResp.flashFull (deviceFailing [])).2.1 ∧
      ¬ StatusReflects .eraseWholeFlash HmiResp.flashInitOk
        (resultRun 1 .eraseWholeFlash HmiResp.flashInitOk (deviceFailing [Reg.curLoadedFwImg])).1
        (resultRun 1 .eraseWholeFlash HmiResp.flashInitOk (deviceFailing [Reg.curLoadedFwImg])).2.1 := by
  refine ⟨fun hreflects => ?_, fun hreflects => ?_⟩
  · have hlast : lastCommand fullFlashAccesses = some HostCmd.imgCfgSave := by decide +kernel
    have hrecord : (resultRun 1 (.saveFwrcfgToFlash false) HmiResp.flashFull (deviceFailing [])).1
        = fullFlashAccesses ++
          [(.read Reg.hostCmdParamResult 2, ⟨.ok, devBytes .big HmiResp.flashFull⟩)] := by
      decide +kernel
    have hstatus : (resultRun 1 (.saveFwrcfgToFlash false) HmiResp.flashFull (deviceFailing [])).2.1
        ≠ (ResultCmd.saveFwrcfgToFlash false).names HmiResp.flashFull := by
      decide +kernel
    apply hstatus
    apply hreflects.named
    · exact ⟨fullFlashAccesses, _, [], hrecord, hlast, rfl⟩
    · intro heq
      exact absurd heq (by decide)
  · have hstatus : (resultRun 1 .eraseWholeFlash HmiResp.flashInitOk
        (deviceFailing [Reg.curLoadedFwImg])).2.1 = .success := by
      decide +kernel
    have hmode : (.read Reg.curLoadedFwImg 2, ⟨.failed, []⟩) ∈ (resultRun 1 .eraseWholeFlash
        HmiResp.flashInitOk (deviceFailing [Reg.curLoadedFwImg])).1 := by
      decide +kernel
    have hok := (hreflects.success hstatus).1 _ hmode
    exact absurd hok (by decide)

end VprocSdk
