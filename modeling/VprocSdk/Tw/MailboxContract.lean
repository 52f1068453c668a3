import VprocSdk.Tw.Mailbox

/-!
# The order of accesses a call keeps

Where a call stands in the mailbox protocol is a function of its accesses so far: `phaseOf` folds the
record. A call first waits for the flag to clear, then writes a command, starts it, sees it complete,
reads its result, and only then writes a parameter for the next command. `Phase.May` says which
accesses are in order in a phase.

Every command but the one that saves a configuration record keeps this order on every path, whatever
its reads return, and returns a status that the phase it ended in accounts for.
-/

namespace VprocSdk

open Lib

/-- Where a call stands in the mailbox protocol. -/
inductive Phase
  | outside
  | quiet
  | param (v : Word)
  | command (cmd : Word)
  | running (cmd : Word)
  | finished (cmd : Word)
  | decoded (cmd w : Word)
  deriving DecidableEq, Repr

/-- How an access moves a call on. -/
def Phase.step (e : DevEndian) (ph : Phase) (x : BusOp × BusAnswer) : Phase :=
  match ph, x.1 with
  | .outside, .read reg _ =>
      if reg = Reg.hostSwFlags ∧ readValue e x.2 &&& hostSwFlagsHostCmd = 0 then .quiet
      else .outside
  | .quiet, .write reg data =>
      if reg = Reg.hostCmd then .command (devWord e data) else .quiet
  | .param v, .write reg data =>
      if reg = Reg.hostCmd then .command (devWord e data) else .param v
  | .command cmd, .write reg _ =>
      if reg = Reg.hostSwFlags then .running cmd else .command cmd
  | .running cmd, .read reg _ =>
      if reg = Reg.hostCmd ∧ readValue e x.2 = HostCmd.idle then .finished cmd else .running cmd
  | .finished cmd, .read reg _ =>
      if reg = Reg.hostCmdParamResult then .decoded cmd (readValue e x.2) else .finished cmd
  | .decoded cmd w, .write reg data =>
      if reg = Reg.hostCmd then .command (devWord e data)
      else if reg = Reg.hostCmdParamResult then .param (devWord e data)
      else .decoded cmd w
  | ph, _ => ph

theorem Phase.step_setFlag (e : DevEndian) (cmd : Word) (data : List Byte) (ans : BusAnswer) :
    (Phase.command cmd).step e (.write Reg.hostSwFlags data, ans) = .running cmd := by
  simp [Phase.step]

def phaseOf (e : DevEndian) (record : BusRecord) : Phase := record.foldl (Phase.step e) .outside

@[simp] theorem phaseOf_nil (e : DevEndian) : phaseOf e [] = .outside := rfl

@[simp] theorem phaseOf_snoc (e : DevEndian) (record : BusRecord) (x : BusOp × BusAnswer) :
    phaseOf e (record ++ [x]) = (phaseOf e record).step e x := by
  simp [phaseOf]

/-- The host owns the mailbox and nothing is written for the next command but perhaps its
parameter. -/
def Phase.Ready : Phase → Prop
  | .quiet | .param _ | .decoded _ _ => True
  | _ => False

/-- The accesses that are in order in a phase of a call. -/
def Phase.May (e : DevEndian) (call : Command) (ph : Phase) : BusOp → Prop
  | .read reg _ => reg = Reg.hostCmdParamResult → ph = .outside ∨ ∃ cmd, ph = .finished cmd
  | .write reg data =>
      (reg = Reg.clkStatus → ph = .outside) ∧
      (reg = Reg.hostCmdParamResult → ∃ cmd w, ph = .decoded cmd w) ∧
      (reg = Reg.hostCmd → ph.Ready ∧ devWord e data ≠ HostCmd.idle ∧
        ∀ v, call.paramFor e (devWord e data) = some v → ph = .param v) ∧
      (reg = Reg.hostSwFlags → devWord e data = hostSwFlagsHostCmd ∧ ∃ cmd, ph = .command cmd)
  | .portWrite _ => True

/-- A call keeps the order. It relies on its accesses to succeed, and on the count of images in the
flash to refuse a configuration record that is to be saved. -/
def mailboxContract (e : DevEndian) (call : Command) : Prog.Contract BusOp BusAnswer BusRecord :=
  Prog.historyContract (fun done op => (phaseOf e done).May e call op) fun _ op ans =>
    ans.status = .ok ∧ ∀ imageNumber, call = .saveCfgToFlash imageNumber →
      op = .read Reg.fwrCount 2 → readValue e ans < hbiVal e imageNumber

def Concludes (pDev : TwDev) (call : Command) (done : BusRecord) (status : HbiStatus) : Prop :=
  match phaseOf pDev.endianness done with
  | .outside => status ≠ .success
  | .quiet | .param _ | .running _ => GaveUp pDev.endianness done status
  | .decoded cmd w => GaveUp pDev.endianness done status ∨ status = call.decode pDev cmd w
  | .command _ | .finished _ => False

theorem paramFor_ne_some {e : DevEndian} {call : Command} {cmd v : Word}
    (h : call.param e = none) : call.paramFor e cmd ≠ some v := by
  rw [Command.paramFor, h, ite_self]
  exact Option.some_ne_none v ∘ Eq.symm

/-! ### Single accesses -/

section Accesses

variable {e : DevEndian} {call : Command} {done : BusRecord}

theorem obeys_read {reg : RegAddr} {post : Except HbiStatus Word → BusRecord → Prop}
    (hmay : reg = Reg.hostCmdParamResult →
      phaseOf e done = .outside ∨ ∃ cmd, phaseOf e done = .finished cmd)
    (hpost : ∀ ans : BusAnswer, (∀ imageNumber, call = .saveCfgToFlash imageNumber →
        reg = Reg.fwrCount → readValue e ans < hbiVal e imageNumber) →
      post (.ok (hostWord ans.data)) (done ++ [(.read reg 2, ans)])) :
    (readWord reg).Obeys (mailboxContract e call) done post := by
  refine obeys_readWord hmay fun ans hans => ?_
  rw [readResult_ok hans.1]
  exact hpost ans fun imageNumber hcall hreg => hans.2 imageNumber hcall (by rw [hreg])

theorem obeys_write {reg : RegAddr} {val : Word} {post : HbiStatus → BusRecord → Prop}
    (hmay : (phaseOf e done).May e call (.write reg (hostBytes val)))
    (hpost : ∀ ans, post .success (done ++ [(.write reg (hostBytes val), ans)])) :
    (writeWord reg val).Obeys (mailboxContract e call) done post := by
  refine obeys_writeWord hmay fun ans hans => ?_
  rw [writeResult_ok hans.1]
  exact hpost ans

/-- One checked step of a command: what the step owes when it failed is owed by the whole. -/
theorem obeys_chk {α γ : Type} {c : Prog.Contract BusOp BusAnswer γ} {g : γ} {p : Tw HbiStatus}
    {failed : HbiStatus → α} {rest : Tw α} {post : α → γ → Prop} (mid : γ → Prop)
    (hp : p.Obeys c g fun status g' =>
      (status = .success → mid g') ∧ (status ≠ .success → post (failed status) g'))
    (hrest : ∀ g', mid g' → rest.Obeys c g' post) :
    (p >>= fun status => if status ≠ .success then pure (failed status) else rest).Obeys c g post := by
  refine hp.bind fun status g' hpost => ?_
  by_cases hstatus : status = .success
  · rw [if_neg (not_not.2 hstatus)]
    exact hrest g' (hpost.1 hstatus)
  · rw [if_pos hstatus]
    exact hpost.2 hstatus

/-- A wait loop whose busy polls leave the phase alone ends with the poll that found the register
released, or after the last poll with all of them busy. -/
theorem obeys_spin {reg : RegAddr} {released : Word → Bool} {ph : Phase}
    (hreg : reg ≠ Reg.hostCmdParamResult)
    (hbusy : ∀ ans : BusAnswer, released (hostWord ans.data) = false →
      PollsBusy e (.read reg 2, ans) ∧ ph.step e (.read reg 2, ans) = ph)
    (n : Nat) (hph : phaseOf e done = ph) :
    (spin reg released n).Obeys (mailboxContract e call) done fun status done' =>
      (status = .success ∧ ∃ ans : BusAnswer, released (hostWord ans.data) = true ∧
        phaseOf e done' = ph.step e (.read reg 2, ans)) ∨
      (status = .resourceErr ∧ phaseOf e done' = ph ∧ ∃ polls, done' = done ++ polls ∧
        polls.length = n ∧ ∀ x ∈ polls, PollsBusy e x) := by
  induction n generalizing done with
  | zero => exact .inr ⟨rfl, hph, [], by simp, rfl, by simp⟩
  | succ n ih =>
      refine (obeys_read (fun h => absurd h hreg) fun ans _ => ?_ : (readWord reg).Obeys _ _
        fun result done' => ∃ ans : BusAnswer, result = .ok (hostWord ans.data) ∧
          done' = done ++ [(.read reg 2, ans)]).bind ?_
      · exact ⟨ans, rfl, rfl⟩
      intro _ _ hexists
      obtain ⟨ans, rfl, rfl⟩ := hexists
      dsimp only
      cases hrel : released (hostWord ans.data) with
      | true => exact .inl ⟨rfl, ans, hrel, by rw [phaseOf_snoc, hph]⟩
      | false =>
          obtain ⟨hpoll, hstep⟩ := hbusy ans hrel
          refine (ih (by rw [phaseOf_snoc, hph, hstep])).mono ?_
          intro status done' hcases
          rcases hcases with hdone | ⟨rfl, hph', polls, rfl, hlen, hpolls⟩
          · exact .inl hdone
          · refine .inr ⟨rfl, hph', (.read reg 2, ans) :: polls, by simp, by simp [hlen], ?_⟩
            intro x hx
            rcases List.mem_cons.1 hx with rfl | hx
            · exact hpoll
            · exact hpolls x hx

end Accesses

/-! ### Host commands -/

section HostCommands

variable {pDev : TwDev} {call : Command} {done : BusRecord} {ph : Phase}

def Phase.entered : Phase → Phase
  | .outside => .quiet
  | ph => ph

theorem concludes_of_gaveUp {status : HbiStatus} (h : GaveUp pDev.endianness done status)
    (hph : phaseOf pDev.endianness done = .outside ∨ (phaseOf pDev.endianness done).Ready ∨
      ∃ cmd, phaseOf pDev.endianness done = .running cmd) : Concludes pDev call done status := by
  have hstatus : status ≠ .success := by
    rw [h.1]
    decide
  unfold Concludes
  rcases hph with hph | hph | ⟨cmd, hph⟩
  · rw [hph]
    exact hstatus
  · cases hph' : phaseOf pDev.endianness done <;> simp_all [Phase.Ready]
  · rw [hph]
    exact h

theorem Phase.Ready.entered (h : ph = .outside ∨ ph.Ready) : ph.entered.Ready := by
  rcases h with rfl | h
  · trivial
  · cases ph <;> trivial

theorem obeys_twMboxAcquire (hph : phaseOf pDev.endianness done = ph)
    (hready : ph = .outside ∨ ph.Ready) :
    (twMboxAcquire pDev).Obeys (mailboxContract pDev.endianness call) done fun status done' =>
      (status = .success → phaseOf pDev.endianness done' = ph.entered) ∧
      (status ≠ .success → GaveUp pDev.endianness done' status ∧
        phaseOf pDev.endianness done' = ph) := by
  refine (obeys_spin (by decide) (fun ans hbusy => ?_) _ hph).mono ?_
  · have hval : readValue pDev.endianness ans &&& hostSwFlagsHostCmd ≠ 0 := by
      simpa [hostCmdFlagClear, readValue] using hbusy
    refine ⟨.inl ⟨rfl, hval⟩, ?_⟩
    rcases hready with rfl | hready
    · simpa [Phase.step] using hval
    · cases ph <;> first | rfl | exact hready.elim
  · intro status done' hcases
    rcases hcases with ⟨rfl, ans, hclear, hph'⟩ | ⟨rfl, hph', polls, rfl, hlen, hpolls⟩
    · refine ⟨fun _ => ?_, fun h => absurd rfl h⟩
      have hval : readValue pDev.endianness ans &&& hostSwFlagsHostCmd = 0 := by
        simpa [hostCmdFlagClear, readValue] using hclear
      rw [hph']
      rcases hready with rfl | hready
      · simp [Phase.step, Phase.entered, hval]
      · cases ph <;> first | rfl | exact hready.elim
    · exact ⟨fun h => by simp at h, fun _ => ⟨⟨rfl, done, polls, rfl, hlen, hpolls⟩, hph'⟩⟩

theorem obeys_twCmdregAcquire {cmd : Word} (hph : phaseOf pDev.endianness done = .running cmd) :
    twCmdregAcquire.Obeys (mailboxContract pDev.endianness call) done fun status done' =>
      (status = .success → phaseOf pDev.endianness done' = .finished cmd) ∧
      (status ≠ .success → GaveUp pDev.endianness done' status ∧
        phaseOf pDev.endianness done' = .running cmd) := by
  refine (obeys_spin (by decide) (fun ans hbusy => ?_) _ hph).mono ?_
  · have hval : readValue pDev.endianness ans ≠ HostCmd.idle := fun hidle =>
      of_decide_eq_false hbusy ((hbiVal_eq_zero _ _).1 hidle)
    exact ⟨.inr ⟨rfl, hval⟩, by simp [Phase.step, hval]⟩
  · intro status done' hcases
    rcases hcases with ⟨rfl, ans, hidle, hph'⟩ | ⟨rfl, hph', polls, rfl, hlen, hpolls⟩
    · have hval : readValue pDev.endianness ans = HostCmd.idle :=
        (hbiVal_eq_zero _ _).2 (of_decide_eq_true hidle)
      exact ⟨fun _ => by rw [hph']; simp [Phase.step, hval], fun h => absurd rfl h⟩
    · exact ⟨fun h => by simp at h, fun _ => ⟨⟨rfl, done, polls, rfl, hlen, hpolls⟩, hph'⟩⟩

theorem devWord_hostBytes_hbiVal (e : DevEndian) (val : Word) :
    devWord e (hostBytes (hbiVal e val)) = val := by
  rw [devWord_hostBytes, hbiVal_hbiVal]

theorem obeys_writeCommand {cmd : Word} (hcmd : cmd ≠ HostCmd.idle)
    (hph : (phaseOf pDev.endianness done).Ready)
    (hparam : ∀ v, call.paramFor pDev.endianness cmd = some v →
      phaseOf pDev.endianness done = .param v) :
    (writeWord Reg.hostCmd (hbiVal pDev.endianness cmd)).Obeys
      (mailboxContract pDev.endianness call) done fun status done' =>
        status = .success ∧ phaseOf pDev.endianness done' = .command cmd := by
  refine obeys_write ⟨fun h => absurd h (by decide), fun h => absurd h (by decide), fun _ => ?_,
    fun h => absurd h (by decide)⟩ fun ans => ⟨rfl, ?_⟩
  · rw [devWord_hostBytes_hbiVal]
    exact ⟨hph, hcmd, hparam⟩
  · rw [phaseOf_snoc]
    cases hph' : phaseOf pDev.endianness done <;> rw [hph'] at hph <;>
      first
      | exact hph.elim
      | simp only [Phase.step, ↓reduceIte, devWord_hostBytes_hbiVal]

theorem obeys_setFlag {cmd : Word} (hph : phaseOf pDev.endianness done = .command cmd) :
    (writeWord Reg.hostSwFlags (hbiVal pDev.endianness hostSwFlagsHostCmd)).Obeys
      (mailboxContract pDev.endianness call) done fun status done' =>
        status = .success ∧ phaseOf pDev.endianness done' = .running cmd := by
  refine obeys_write ⟨fun h => absurd h (by decide), fun h => absurd h (by decide),
    fun h => absurd h (by decide), fun _ => ⟨devWord_hostBytes_hbiVal _ _, cmd, hph⟩⟩
    fun ans => ⟨rfl, ?_⟩
  rw [phaseOf_snoc, hph, Phase.step_setFlag]

/-- `tw_wr_cmdreg` succeeds with its command seen to complete; otherwise it gave up. -/
theorem obeys_twWrCmdreg {cmd : Word} (hcmd : cmd ≠ HostCmd.idle)
    (hph : phaseOf pDev.endianness done = ph) (hready : ph = .outside ∨ ph.Ready)
    (hparam : ∀ v, call.paramFor pDev.endianness cmd = some v → ph = .param v) :
    (twWrCmdreg pDev cmd).Obeys (mailboxContract pDev.endianness call) done fun status done' =>
      (status = .success → phaseOf pDev.endianness done' = .finished cmd) ∧
      (status ≠ .success → Concludes pDev call done' status) := by
  refine obeys_chk (fun done' => phaseOf pDev.endianness done' = ph.entered)
    ((obeys_twMboxAcquire hph hready).mono ?_) fun done₁ h₁ => ?_
  · intro status done' hboth
    obtain ⟨hok, hfail⟩ := hboth
    refine ⟨hok, fun h => ⟨fun h' => absurd h' h, fun _ => ?_⟩⟩
    obtain ⟨hgave, hph'⟩ := hfail h
    rw [← hph'] at hready
    exact concludes_of_gaveUp hgave (hready.imp_right .inl)
  have hparam' : ∀ v, call.paramFor pDev.endianness cmd = some v → ph.entered = .param v := by
    intro v hv
    rw [hparam v hv]
    rfl
  rw [← h₁] at hparam'
  refine obeys_chk (fun done' => phaseOf pDev.endianness done' = .command cmd)
    ((obeys_writeCommand hcmd (h₁ ▸ Phase.Ready.entered hready) hparam').mono ?_) fun done₂ h₂ => ?_
  · exact fun status done' h => ⟨fun _ => h.2, fun hne => absurd h.1 hne⟩
  refine obeys_chk (fun done' => phaseOf pDev.endianness done' = .running cmd)
    ((obeys_setFlag h₂).mono ?_) fun done₃ h₃ => ?_
  · exact fun status done' h => ⟨fun _ => h.2, fun hne => absurd h.1 hne⟩
  refine (obeys_twCmdregAcquire h₃).mono fun status done' h => ⟨h.1, fun hne => ?_⟩
  obtain ⟨hgave, hph'⟩ := h.2 hne
  exact concludes_of_gaveUp hgave (.inr (.inr ⟨cmd, hph'⟩))

theorem obeys_twCmdresultCheck {cmd : Word}
    (hph : phaseOf pDev.endianness done = .finished cmd) :
    twCmdresultCheck.Obeys (mailboxContract pDev.endianness call) done fun buf done' =>
      phaseOf pDev.endianness done' = .decoded cmd (hbiVal pDev.endianness buf) := by
  refine (obeys_read (fun _ => .inr ⟨cmd, hph⟩) fun ans _ => ?_ : (readWord _).Obeys _ _
    fun result done' => ∃ buf, result = .ok buf ∧
      phaseOf pDev.endianness done' = .decoded cmd (hbiVal pDev.endianness buf)).bind ?_
  · exact ⟨_, rfl, by simp [hph, Phase.step, readValue]⟩
  · intro _ done' hexists
    obtain ⟨buf, rfl, hdone⟩ := hexists
    exact hdone

theorem obeys_hostCommand {cmd : Word} {decode : Word → HbiStatus} (hcmd : cmd ≠ HostCmd.idle)
    (hph : phaseOf pDev.endianness done = ph) (hready : ph = .outside ∨ ph.Ready)
    (hparam : ∀ v, call.paramFor pDev.endianness cmd = some v → ph = .param v)
    (hdecode : ∀ w, call.decode pDev cmd w = decode w) :
    (twWrCmdreg pDev cmd >>= fun status => if status ≠ .success then pure status else
      twCmdresultCheck >>= fun hmiResponse =>
        pure (decode (hbiVal pDev.endianness hmiResponse))).Obeys
      (mailboxContract pDev.endianness call) done fun status done' =>
        Concludes pDev call done' status ∧
          (status = .success → ∃ w, phaseOf pDev.endianness done' = .decoded cmd w) := by
  refine obeys_chk (fun done' => phaseOf pDev.endianness done' = .finished cmd)
    ((obeys_twWrCmdreg hcmd hph hready hparam).mono ?_) fun done₁ h₁ => ?_
  · exact fun status done' h => ⟨h.1, fun hne => ⟨h.2 hne, fun heq => absurd heq hne⟩⟩
  refine (obeys_twCmdresultCheck h₁).bind fun buf done' h' => ⟨?_, fun _ => ⟨_, h'⟩⟩
  simp [Concludes, h', hdecode]

theorem concludes_hostCommand {cmd : Word} {decode : Word → HbiStatus} (hcmd : cmd ≠ HostCmd.idle)
    (hph : phaseOf pDev.endianness done = ph) (hready : ph = .outside ∨ ph.Ready)
    (hparam : ∀ v, call.paramFor pDev.endianness cmd = some v → ph = .param v)
    (hdecode : ∀ w, call.decode pDev cmd w = decode w) :
    (twWrCmdreg pDev cmd >>= fun status => if status ≠ .success then pure status else
      twCmdresultCheck >>= fun hmiResponse =>
        pure (decode (hbiVal pDev.endianness hmiResponse))).Obeys
      (mailboxContract pDev.endianness call) done fun status done' =>
        Concludes pDev call done' status :=
  (obeys_hostCommand hcmd hph hready hparam hdecode).mono fun _ _ h => h.1

end HostCommands

/-! ### The calls -/

section Calls

variable {pDev : TwDev} {call : Command} {done : BusRecord}

theorem obeys_twChkDevBootRomMode (hph : phaseOf pDev.endianness done = .outside) :
    (twChkDevBootRomMode pDev).Obeys (mailboxContract pDev.endianness call) done fun ret done' =>
      0 ≤ ret ∧ phaseOf pDev.endianness done' = .outside := by
  refine (obeys_read (fun _ => .inl hph) fun ans _ => ?_ : (readWord _).Obeys _ _
    fun result done' => (∃ val, result = .ok val) ∧
      phaseOf pDev.endianness done' = .outside).bind ?_
  · exact ⟨⟨_, rfl⟩, by simp [hph, Phase.step, Reg.curLoadedFwImg, Reg.hostSwFlags]⟩
  · intro _ done' hboth
    obtain ⟨⟨val, rfl⟩, hdone⟩ := hboth
    dsimp only
    split <;> exact ⟨by decide, hdone⟩

theorem obeys_enterBootRom_outside (hph : phaseOf pDev.endianness done = .outside) :
    (enterBootRom pDev).Obeys (mailboxContract pDev.endianness call) done fun _ done' =>
      phaseOf pDev.endianness done' = .outside := by
  refine (obeys_twChkDevBootRomMode hph).bind fun ret done₁ ⟨hret, h₁⟩ => ?_
  rw [if_neg (not_lt.2 hret)]
  split
  · refine (obeys_write ⟨fun _ => h₁, fun h => absurd h (by decide), fun h => absurd h (by decide),
      fun h => absurd h (by decide)⟩ fun ans => ?_ : (writeWord _ _).Obeys _ _
      fun status done' => status = .success ∧ phaseOf pDev.endianness done' = .outside).bind ?_
    · exact ⟨rfl, by simp [h₁, Phase.step]⟩
    intro _ done₂ hboth
    obtain ⟨rfl, h₂⟩ := hboth
    rw [if_neg (not_not.2 rfl)]
    refine (obeys_read (fun _ => .inl h₂) fun ans _ => ?_ : (readWord _).Obeys _ _
      fun _ done' => phaseOf pDev.endianness done' = .outside).bind ?_
    · simp [h₂, Phase.step, Reg.hostCmdParamResult, Reg.hostSwFlags]
    · intro result done' hdone
      cases result with
      | error status => exact hdone
      | ok val =>
          dsimp only
          split <;> exact hdone
  · exact h₁

theorem obeys_afterInit {α : Type} {rest : Tw α} (failed : HbiStatus → α) (status : α → HbiStatus)
    (hfailed : ∀ st, status (failed st) = st)
    (hrest : ∀ done w, phaseOf pDev.endianness done = .decoded HostCmd.hostFlashInit w →
      rest.Obeys (mailboxContract pDev.endianness call) done fun a done' =>
        Concludes pDev call done' (status a)) :
    (enterBootRom pDev >>= fun st => if st ≠ .success then pure (failed st) else
      twInitCheckFlash pDev >>= fun st => if st ≠ .success then pure (failed st) else rest).Obeys
      (mailboxContract pDev.endianness call) [] fun a done' =>
        Concludes pDev call done' (status a) := by
  refine obeys_chk (fun done' => phaseOf pDev.endianness done' = .outside)
    ((obeys_enterBootRom_outside rfl).mono ?_) fun done₁ h₁ => ?_
  · exact fun st done' h => ⟨fun _ => h, fun hne => by simpa [Concludes, h, hfailed] using hne⟩
  refine obeys_chk
    (fun done' => ∃ w, phaseOf pDev.endianness done' = .decoded HostCmd.hostFlashInit w)
    ((obeys_hostCommand (by decide) h₁ (.inl rfl) ?_ fun w => ?_).mono ?_) ?_
  · simp [Command.paramFor]
  · rfl
  · exact fun st done' h => ⟨h.2, fun _ => by rw [hfailed]; exact h.1⟩
  · exact fun done₂ ⟨w, h₂⟩ => hrest done₂ w h₂

theorem obeys_paramCommand {val cmd : Word} {decode : Word → HbiStatus} (hcmd : cmd ≠ HostCmd.idle)
    (hparam : call.paramFor pDev.endianness cmd = some (devWord pDev.endianness (hostBytes val)))
    (hdecode : ∀ w, call.decode pDev cmd w = decode w) :
    (enterBootRom pDev >>= fun st => if st ≠ .success then pure st else
      twInitCheckFlash pDev >>= fun st => if st ≠ .success then pure st else
      writeWord Reg.hostCmdParamResult val >>= fun st => if st ≠ .success then pure st else
      twWrCmdreg pDev cmd >>= fun st => if st ≠ .success then pure st else
      twCmdresultCheck >>= fun hmiResponse =>
        pure (decode (hbiVal pDev.endianness hmiResponse))).Obeys
      (mailboxContract pDev.endianness call) [] fun st done' => Concludes pDev call done' st := by
  refine obeys_afterInit id id (fun _ => rfl) fun done₁ w h₁ => ?_
  refine obeys_chk (fun done' =>
      phaseOf pDev.endianness done' = .param (devWord pDev.endianness (hostBytes val)))
    (obeys_write ⟨fun h => absurd h (by decide), fun _ => ⟨_, w, h₁⟩, fun h => absurd h (by decide),
      fun h => absurd h (by decide)⟩ fun ans => ⟨fun _ => ?_, fun h => absurd rfl h⟩) ?_
  · simp [h₁, Phase.step, Reg.hostCmdParamResult, Reg.hostCmd]
  · refine fun done₂ h₂ => concludes_hostCommand hcmd h₂ (.inr trivial) ?_ hdecode
    intro v hv
    rw [hparam] at hv
    rw [Option.some.inj hv]

theorem obeys_plainStatus {p : Tw HbiStatus}
    (h : p.Obeys (mailboxContract pDev.endianness call) done fun st done' =>
      Concludes pDev call done' st) :
    (p >>= fun st => (pure (st, none) : Tw (HbiStatus × Option Word))).Obeys
      (mailboxContract pDev.endianness call) done fun r done' => Concludes pDev call done' r.1 :=
  h.bind fun _ _ h' => h'

theorem concludes_outside {status : HbiStatus} (hph : phaseOf pDev.endianness done = .outside)
    (hstatus : status ≠ .success) : Concludes pDev call done status := by
  simpa [Concludes, hph] using hstatus

theorem obeys_refused {status : HbiStatus} (hstatus : status ≠ .success) :
    (pure status : Tw HbiStatus).Obeys (mailboxContract pDev.endianness call) []
      fun st done' => Concludes pDev call done' st := by
  show Concludes pDev call [] status
  exact concludes_outside rfl hstatus

theorem obeys_twSaveFwrcfgToFlash (valp : Bool) :
    (twSaveFwrcfgToFlash pDev valp).Obeys
      (mailboxContract pDev.endianness (.saveFwrcfgToFlash valp)) []
      fun r done' => Concludes pDev (.saveFwrcfgToFlash valp) done' r.1 := by
  unfold twSaveFwrcfgToFlash
  refine obeys_afterInit (fun st => (st, none)) Prod.fst (fun _ => rfl) fun done₁ w h₁ => ?_
  refine obeys_chk (fun done' => phaseOf pDev.endianness done' = .decoded HostCmd.hostFlashInit w)
    (obeys_write ⟨fun h => absurd h (by decide), fun h => absurd h (by decide),
      fun h => absurd h (by decide), fun h => absurd h (by decide)⟩
      fun ans => ⟨fun _ => ?_, fun h => absurd rfl h⟩) fun done₂ h₂ => ?_
  · simp [h₁, Phase.step, Reg.cfgRecChksum, Reg.hostCmdParamResult, Reg.hostCmd]
  refine obeys_chk (fun done' => phaseOf pDev.endianness done' = .finished HostCmd.imgCfgSave)
    (obeys_twWrCmdreg (by decide) h₂ (.inr trivial) ?_) fun done₃ h₃ => ?_
  · exact fun v hv => absurd hv (paramFor_ne_some rfl)
  refine (obeys_twCmdresultCheck h₃).bind fun hmiResponse done₄ h₄ => ?_
  have hdecode : ∀ done', phaseOf pDev.endianness done'
        = .decoded HostCmd.imgCfgSave (hbiVal pDev.endianness hmiResponse) →
      Concludes pDev (.saveFwrcfgToFlash valp) done'
        (saveFwrcfgStatus pDev (hbiVal pDev.endianness hmiResponse)) := by
    intro done' h'
    simp only [Concludes, h']
    exact .inr rfl
  dsimp only
  split
  · exact hdecode done₄ h₄
  rename_i hstatus
  rw [not_not.1 hstatus] at hdecode
  split
  · exact hdecode done₄ h₄
  refine (obeys_read (fun h => absurd h (by decide)) fun ans _ => ?_ : (readWord _).Obeys _ _
    fun result done' => (∃ val, result = .ok val) ∧ phaseOf pDev.endianness done'
      = .decoded HostCmd.imgCfgSave (hbiVal pDev.endianness hmiResponse)).bind ?_
  · exact ⟨⟨_, rfl⟩, by simp [h₄, Phase.step]⟩
  · intro _ done' hboth
    obtain ⟨⟨val, rfl⟩, h'⟩ := hboth
    exact hdecode done' h'

/-- A configuration record that is not to be saved is refused before anything is written. -/
theorem obeys_twSaveCfgToFlash (imageNumber : Word) :
    (twSaveCfgToFlash pDev imageNumber).Obeys
      (mailboxContract pDev.endianness (.saveCfgToFlash imageNumber)) []
      fun st done' => Concludes pDev (.saveCfgToFlash imageNumber) done' st := by
  unfold twSaveCfgToFlash
  split
  · exact obeys_refused (by decide)
  refine (obeys_read (fun _ => .inl rfl) fun ans hans => ?_ : (readWord _).Obeys _ _
    fun result done' => ∃ val, result = .ok val ∧
      hbiVal pDev.endianness val < hbiVal pDev.endianness imageNumber ∧
      phaseOf pDev.endianness done' = .outside).bind ?_
  · exact ⟨_, rfl, hans imageNumber rfl rfl,
      by simp [phaseOf, Phase.step, Reg.fwrCount, Reg.hostSwFlags]⟩
  · intro _ done' hexists
    obtain ⟨val, rfl, hlt, hdone⟩ := hexists
    dsimp only
    rw [if_pos hlt]
    exact concludes_outside hdone (by decide)

theorem obeys_twStartFwrFromRam_mailbox :
    (twStartFwrFromRam pDev).Obeys (mailboxContract pDev.endianness .startFwr) []
      fun st done' => Concludes pDev .startFwr done' st := by
  unfold twStartFwrFromRam
  refine (obeys_twChkDevBootRomMode (phaseOf_nil _)).bind fun ret done₁ ⟨hret, h₁⟩ => ?_
  rw [if_neg (not_lt.2 hret)]
  split
  · exact concludes_outside h₁ (by decide)
  · refine concludes_hostCommand (by decide) h₁ (.inl rfl) ?_ fun w => rfl
    exact fun v hv => absurd hv (paramFor_ne_some rfl)

/-- Every call that uses the mailbox keeps the order, and its status is accounted for. -/
theorem obeys_mailboxCall (pDev : TwDev) {call : Command} (h : call.usesMailbox = true) :
    (internalHbiSetCommand pDev call).Obeys (mailboxContract pDev.endianness call) []
      fun r done' => Concludes pDev call done' r.1 := by
  cases call with
  | loadFwrcfgFromFlash imageNumber =>
      refine obeys_plainStatus ?_
      unfold twLoadFwrcfgFromFlash
      split
      · exact obeys_refused (by decide)
      · exact obeys_paramCommand (by decide) rfl fun w => rfl
  | saveFwrcfgToFlash valp => exact obeys_twSaveFwrcfgToFlash valp
  | saveCfgToFlash imageNumber => exact obeys_plainStatus (obeys_twSaveCfgToFlash imageNumber)
  | eraseWholeFlash =>
      refine obeys_plainStatus (obeys_paramCommand (by decide) ?_ fun w => rfl)
      rw [devWord_hostBytes_hbiVal]
      rfl
  | eraseFwrcfgFromFlash args =>
      refine obeys_plainStatus ?_
      cases args with
      | none => exact obeys_refused (by decide)
      | some imageNumber =>
          simp only [twEraseFwrcfgFromFlash]
          split
          · exact obeys_refused (by decide)
          · exact obeys_paramCommand (by decide) rfl fun w => rfl
  | loadFwrComplete =>
      refine obeys_plainStatus (concludes_hostCommand (by decide) rfl (.inl rfl) ?_ fun w => rfl)
      exact fun v hv => absurd hv (paramFor_ne_some rfl)
  | startFwr => exact obeys_plainStatus obeys_twStartFwrFromRam_mailbox
  | loadFwrFromHost args => exact absurd h Bool.false_ne_true
  | loadCfgrecFromHost args => exact absurd h Bool.false_ne_true
  | unsupported code => exact absurd h Bool.false_ne_true

end Calls

end VprocSdk
