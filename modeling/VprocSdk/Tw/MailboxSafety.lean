import VprocSdk.Tw.MailboxContract

/-!
# Safety of the mailbox

What the clients know of the mailbox in each phase of their calls, as an invariant of the whole
system. A client that polled a clear flag owns the mailbox until its call returns, and its phase says
what the registers hold; the invariant survives every step as long as no other client writes to the
mailbox in the meantime and no configuration record is saved. Every start and every returned call is
then as it should be, in every state a run reaches.
-/

namespace VprocSdk

open Lib

/-! ### Conditions on the steps -/

/-- A poll that finds the mailbox flag clear. -/
def ReadsFlagClear (e : DevEndian) (x : BusOp × BusAnswer) : Prop :=
  (∃ size, x.1 = .read Reg.hostSwFlags size) ∧ readValue e x.2 &&& hostSwFlagsHostCmd = 0

/-- The call has found the mailbox flag clear and has not returned yet. -/
def Session.Inside (e : DevEndian) (σ : Session) : Prop :=
  σ.returned = none ∧ ∃ x ∈ σ.record, ReadsFlagClear e x

/-- A write to a register of the mailbox, or to the one that may reset it. -/
def BusOp.WritesMailbox : BusOp → Prop
  | .write reg _ => reg = Reg.clkStatus ∨ reg = Reg.hostCmdParamResult ∨ reg = Reg.hostCmd ∨
      reg = Reg.hostSwFlags
  | .read _ _ | .portWrite _ => False

variable {ι : Type}

/-- A call writes to the mailbox only while no other call is inside. -/
def WritesAlone (pDev : TwDev) (s : MailboxSystem ι) : MailboxEvent ι → Prop
  | .access i _ _ => ∀ σ op, s.clients i = some σ → σ.next = some op → op.WritesMailbox →
      ∀ j τ, j ≠ i → s.clients j = some τ → ¬ τ.Inside pDev.endianness
  | .call _ _ | .complete _ => True

/-- The flash holds fewer images than the number a configuration record is to be saved for, so that
the call is refused. -/
def SaveCfgRefused (pDev : TwDev) (s : MailboxSystem ι) : MailboxEvent ι → Prop
  | .access i count _ => ∀ σ imageNumber, s.clients i = some σ →
      σ.call = .saveCfgToFlash imageNumber → σ.next = some (.read Reg.fwrCount 2) →
      count < hbiVal pDev.endianness imageNumber
  | .call _ _ | .complete _ => True

/-! ### The invariant -/

/-- What the history says of the command a call started last, phase by phase. -/
def Phase.Issued (issued : Option Issued) : Phase → Prop
  | .outside => issued = none
  | .running cmd => ∃ result, issued = some ⟨cmd, result, none⟩
  | .finished cmd => ∃ w, issued = some ⟨cmd, some w, none⟩
  | .decoded cmd w => issued = some ⟨cmd, some w, some w⟩
  | .quiet | .param _ | .command _ => True

/-- What the mailbox holds while a call of client `i` is in a phase. -/
def Phase.Holds (e : DevEndian) (s : MailboxSystem ι) (i : ι) (call : Command)
    (issued : Option VprocSdk.Issued) : Phase → Prop
  | .outside => True
  | .quiet | .decoded _ _ => s.inProgress = none
  | .param v => s.inProgress = none ∧ s.paramResult = v
  | .command cmd => s.inProgress = none ∧ s.hostCmd = cmd ∧ cmd ≠ HostCmd.idle ∧
      s.writer = some (i, call) ∧ ∀ v, call.paramFor e cmd = some v → s.paramResult = v
  | .running cmd =>
      (s.inProgress = some i ∧ s.hostCmd = cmd ∧ cmd ≠ HostCmd.idle ∧
        issued = some ⟨cmd, none, none⟩) ∨
      (s.inProgress = none ∧ issued = some ⟨cmd, some s.paramResult, none⟩)
  | .finished cmd => s.inProgress = none ∧ issued = some ⟨cmd, some s.paramResult, none⟩

/-- One client's call: it keeps the order, and the history and the mailbox match its phase. -/
structure ClientInv (pDev : TwDev) (s : MailboxSystem ι) (i : ι) (σ : Session) : Prop where
  obeys : σ.todo.Obeys (mailboxContract pDev.endianness σ.call) σ.record
    fun r done => Concludes pDev σ.call done r.1
  issued : (phaseOf pDev.endianness σ.record).Issued σ.issued
  owner : s.inProgress = some i → phaseOf pDev.endianness σ.record = .outside ∨
    ∃ cmd, phaseOf pDev.endianness σ.record = .running cmd
  holds : σ.returned = none →
    (phaseOf pDev.endianness σ.record).Holds pDev.endianness s i σ.call σ.issued

structure MailboxInv (pDev : TwDev) (s : MailboxSystem ι) : Prop where
  clients : ∀ i σ, s.clients i = some σ → ClientInv pDev s i σ
  busy : s.inProgress ≠ none → s.flags &&& hostSwFlagsHostCmd ≠ 0
  starts : ∀ st ∈ s.starts, st.Sound pDev.endianness

theorem inside_of_phase {e : DevEndian} {record : BusRecord} (h : phaseOf e record ≠ .outside) :
    ∃ x ∈ record, ReadsFlagClear e x := by
  induction record using List.reverseRecOn with
  | nil => exact absurd rfl h
  | append_singleton record x ih =>
      by_cases hrecord : phaseOf e record = .outside
      · refine ⟨x, by simp, ?_⟩
        rw [phaseOf_snoc, hrecord] at h
        obtain ⟨op, ans⟩ := x
        cases op with
        | read reg size =>
            by_cases hclear : reg = Reg.hostSwFlags ∧
                readValue e ans &&& hostSwFlagsHostCmd = 0
            · exact ⟨⟨size, by rw [hclear.1]⟩, hclear.2⟩
            · exact absurd (if_neg hclear) h
        | write reg data => exact absurd rfl h
        | portWrite data => exact absurd rfl h
      · obtain ⟨y, hy, hclear⟩ := ih hrecord
        exact ⟨y, List.mem_append_left _ hy, hclear⟩

/-- A call that holds nothing of the mailbox loses nothing to another's write. -/
theorem holds_of_not_inside {pDev : TwDev} {s : MailboxSystem ι} {i : ι} {σ : Session}
    (h : ¬ σ.Inside pDev.endianness) (hreturned : σ.returned = none) :
    (phaseOf pDev.endianness σ.record).Holds pDev.endianness s i σ.call σ.issued := by
  by_cases hph : phaseOf pDev.endianness σ.record = .outside
  · rw [hph]
    trivial
  · exact absurd ⟨hreturned, inside_of_phase hph⟩ h

theorem Phase.Holds.owner {e : DevEndian} {s : MailboxSystem ι} {i : ι} {call : Command}
    {issued : Option VprocSdk.Issued} {ph : Phase} (h : ph.Holds e s i call issued)
    (howner : s.inProgress = some i) : ph = .outside ∨ ∃ cmd, ph = .running cmd := by
  cases ph with
  | outside => exact .inl rfl
  | running cmd => exact .inr ⟨cmd, rfl⟩
  | quiet => simp [Phase.Holds, howner] at h
  | param v => simp [Phase.Holds, howner] at h
  | command cmd => simp [Phase.Holds, howner] at h
  | finished cmd => simp [Phase.Holds, howner] at h
  | decoded cmd w => simp [Phase.Holds, howner] at h

/-! ### One access -/

section Access

variable {e : DevEndian} {s : MailboxSystem ι} {i : ι} {call : Command}
  {issued : Option VprocSdk.Issued} {ph : Phase} {other : Word}

@[simp] theorem readValue_answer (reg : RegAddr) (size : Nat) :
    readValue e (s.answer e other (.read reg size)) = s.register other reg := by
  simp [readValue, MailboxSystem.answer]

theorem issuedAfter_read {reg : RegAddr} {size : Nat} (h : reg ≠ Reg.hostCmdParamResult) :
    s.issuedAfter e issued (.read reg size) = issued := if_neg h

theorem holds_read {reg : RegAddr} {size : Nat} (hph : ph.Holds e s i call issued)
    (hissued : ph.Issued issued) (hbusy : s.inProgress ≠ none → s.flags &&& hostSwFlagsHostCmd ≠ 0)
    (hmay : ph.May e call (.read reg size)) :
    (ph.step e (.read reg size, s.answer e other (.read reg size))).Holds e s i call
        (s.issuedAfter e issued (.read reg size)) ∧
      (ph.step e (.read reg size, s.answer e other (.read reg size))).Issued
        (s.issuedAfter e issued (.read reg size)) := by
  have hsame : ph ≠ .outside → (∀ cmd, ph ≠ .finished cmd) →
      s.issuedAfter e issued (.read reg size) = issued := by
    intro h₁ h₂
    refine issuedAfter_read fun hreg => ?_
    rcases hmay hreg with h | ⟨cmd, h⟩
    · exact h₁ h
    · exact h₂ cmd h
  cases ph with
  | outside =>
      obtain rfl : issued = none := hissued
      have hnone : s.issuedAfter e none (.read reg size) = none := by
        simp [MailboxSystem.issuedAfter]
      simp only [Phase.step, readValue_answer, hnone]
      split
      · rename_i hclear
        refine ⟨?_, trivial⟩
        by_contra hprogress
        exact hbusy hprogress (by simpa [MailboxSystem.register, hclear.1] using hclear.2)
      · exact ⟨trivial, rfl⟩
  | running cmd =>
      rw [hsame (by simp) (by simp)]
      simp only [Phase.step, readValue_answer]
      split
      · rename_i hidle
        have hcmd : s.hostCmd = HostCmd.idle := by
          simpa [MailboxSystem.register, hidle.1, Reg.hostCmd, Reg.hostSwFlags] using hidle.2
        rcases hph with ⟨-, heq, hne, -⟩ | ⟨hdone, hresult⟩
        · exact absurd (heq ▸ hcmd) hne
        · exact ⟨⟨hdone, hresult⟩, _, hresult⟩
      · exact ⟨hph, hissued⟩
  | finished cmd =>
      obtain ⟨hdone, hresult⟩ := hph
      simp only [Phase.step, readValue_answer]
      by_cases hreg : reg = Reg.hostCmdParamResult
      · subst hreg
        rw [if_pos rfl]
        refine ⟨hdone, ?_⟩
        simp [MailboxSystem.issuedAfter, MailboxSystem.register, hresult, Phase.Issued,
          Reg.hostCmdParamResult, Reg.hostCmd, Reg.hostSwFlags]
      · rw [if_neg hreg, issuedAfter_read hreg]
        exact ⟨⟨hdone, hresult⟩, hissued⟩
  | quiet => rw [hsame (by simp) (by simp)]; exact ⟨hph, hissued⟩
  | param v => rw [hsame (by simp) (by simp)]; exact ⟨hph, hissued⟩
  | command cmd => rw [hsame (by simp) (by simp)]; exact ⟨hph, hissued⟩
  | decoded cmd w => rw [hsame (by simp) (by simp)]; exact ⟨hph, hissued⟩

theorem write_elsewhere {reg : RegAddr} {data : List Byte} {ans : BusAnswer}
    {reset : Option (Word × Word)} (h : ¬ (BusOp.write reg data).WritesMailbox) :
    s.deliver e i call reset (.write reg data) = s ∧
      s.issuedAfter e issued (.write reg data) = issued ∧
      ph.step e (.write reg data, ans) = ph := by
  simp only [BusOp.WritesMailbox, not_or] at h
  obtain ⟨hclk, hparam, hcmd, hflags⟩ := h
  refine ⟨by simp [MailboxSystem.deliver, hclk, hparam, hcmd, hflags],
    by simp [MailboxSystem.issuedAfter, hflags], ?_⟩
  cases ph <;> simp [Phase.step, hparam, hcmd, hflags]

theorem holds_write {reg : RegAddr} {data : List Byte} {ans : BusAnswer}
    {reset : Option (Word × Word)} (hph : ph.Holds e s i call issued) (hissued : ph.Issued issued)
    (hmay : ph.May e call (.write reg data)) :
    (ph.step e (.write reg data, ans)).Holds e (s.deliver e i call reset (.write reg data)) i call
        (s.issuedAfter e issued (.write reg data)) ∧
      (ph.step e (.write reg data, ans)).Issued (s.issuedAfter e issued (.write reg data)) := by
  by_cases hwrites : (BusOp.write reg data).WritesMailbox
  swap
  · have helsewhere : s.deliver e i call reset (.write reg data) = s ∧
        s.issuedAfter e issued (.write reg data) = issued ∧
        ph.step e (.write reg data, ans) = ph := write_elsewhere hwrites
    rw [helsewhere.1, helsewhere.2.1, helsewhere.2.2]
    exact ⟨hph, hissued⟩
  obtain ⟨hclk, hparam, hcmd, hflags⟩ := hmay
  rcases hwrites with rfl | rfl | rfl | rfl
  · obtain rfl := hclk rfl
    refine ⟨trivial, ?_⟩
    obtain rfl : issued = none := hissued
    simp [Phase.step, Phase.Issued, MailboxSystem.issuedAfter, Reg.clkStatus, Reg.hostSwFlags]
  · obtain ⟨cmd, w, rfl⟩ := hparam rfl
    exact ⟨⟨hph, rfl⟩, trivial⟩
  · obtain ⟨hready, hne, hfor⟩ := hcmd rfl
    have hdone : s.inProgress = none ∧ ∀ v, ph = .param v → s.paramResult = v := by
      cases ph <;> simp_all [Phase.Ready, Phase.Holds]
    have hcommand : ph.step e (.write Reg.hostCmd data, ans) = .command (devWord e data) := by
      cases ph <;> first | exact hready.elim | rfl
    rw [hcommand]
    exact ⟨⟨hdone.1, rfl, hne, rfl, fun v hv => hdone.2 v (hfor v hv)⟩, trivial⟩
  · obtain ⟨hset, cmd, rfl⟩ := hflags rfl
    have hstarts : MailboxSystem.startsCommand (devWord e data) = true := by
      rw [hset]
      rfl
    have hhistory : s.issuedAfter e issued (.write Reg.hostSwFlags data) = some ⟨cmd, none, none⟩ := by
      rw [← hph.2.1]
      simp [MailboxSystem.issuedAfter, hstarts]
    have hdeliver : s.deliver e i call reset (.write Reg.hostSwFlags data) =
        { s with
          flags := devWord e data
          inProgress := some i
          starts := s.starts ++ [⟨i, call, s.writer, s.hostCmd, s.paramResult⟩] } := by
      simp [MailboxSystem.deliver, hstarts, Reg.hostSwFlags, Reg.clkStatus, Reg.hostCmdParamResult,
        Reg.hostCmd]
    rw [hhistory, hdeliver]
    exact ⟨.inl ⟨rfl, hph.2.1, hph.2.2.1, rfl⟩, none, rfl⟩

/-- An access that is in order starts a command only with its parameter in place, and leaves the flag
set while a command is in progress. -/
theorem sound_deliver {op : BusOp} (reset : Option (Word × Word))
    (hph : ph.Holds e s i call issued) (hmay : ph.May e call op)
    (hbusy : s.inProgress ≠ none → s.flags &&& hostSwFlagsHostCmd ≠ 0)
    (hstarts : ∀ st ∈ s.starts, st.Sound e) :
    ((s.deliver e i call reset op).inProgress ≠ none →
        (s.deliver e i call reset op).flags &&& hostSwFlagsHostCmd ≠ 0) ∧
      ∀ st ∈ (s.deliver e i call reset op).starts, st.Sound e := by
  cases op with
  | read reg size => exact ⟨hbusy, hstarts⟩
  | portWrite data => exact ⟨hbusy, hstarts⟩
  | write reg data =>
      simp only [MailboxSystem.deliver]
      split
      · cases reset with
        | none => exact ⟨hbusy, hstarts⟩
        | some contents => exact ⟨fun h => absurd rfl h, hstarts⟩
      split
      · exact ⟨hbusy, hstarts⟩
      split
      · exact ⟨hbusy, hstarts⟩
      split
      · rename_i hreg
        obtain ⟨hset, cmd, rfl⟩ := hmay.2.2.2 hreg
        obtain ⟨-, rfl, -, hwriter, hparam⟩ := hph
        rw [hset, if_pos (by decide)]
        refine ⟨fun _ => ?_, fun st hst => ?_⟩
        · show hostSwFlagsHostCmd &&& hostSwFlagsHostCmd ≠ 0
          decide
        · rcases List.mem_append.1 hst with hst | hst
          · exact hstarts st hst
          · rw [List.mem_singleton.1 hst]
            exact ⟨hwriter, hparam⟩
      · exact ⟨hbusy, hstarts⟩

end Access

/-! ### Steps of the system -/

section Steps

variable {pDev : TwDev} {s : MailboxSystem ι} {i : ι} {σ : Session}

theorem MailboxSystem.deliver_clients (e : DevEndian) (call : Command)
    (reset : Option (Word × Word)) (op : BusOp) :
    (s.deliver e i call reset op).clients = s.clients := by
  unfold MailboxSystem.deliver
  repeat' split
  all_goals rfl

/-- Only the client whose access it is can become the owner of the command in progress. -/
theorem MailboxSystem.deliver_inProgress {e : DevEndian} {call : Command}
    {reset : Option (Word × Word)} {op : BusOp} {j : ι} (hj : j ≠ i)
    (h : (s.deliver e i call reset op).inProgress = some j) : s.inProgress = some j := by
  cases op with
  | read reg size => exact h
  | portWrite data => exact h
  | write reg data =>
      simp only [MailboxSystem.deliver] at h
      split at h
      · cases reset with
        | none => exact h
        | some contents => exact absurd h.symm (Option.some_ne_none j)
      split at h
      · exact h
      split at h
      · exact h
      split at h
      · split at h
        · exact absurd (Option.some.inj h).symm hj
        · exact h
      · exact h

theorem MailboxSystem.deliver_of_not_writes {e : DevEndian} {call : Command}
    {reset : Option (Word × Word)} {op : BusOp} (h : ¬ op.WritesMailbox) :
    s.deliver e i call reset op = s := by
  cases op with
  | read reg size => rfl
  | portWrite data => rfl
  | write reg data =>
      simp only [BusOp.WritesMailbox, not_or] at h
      simp [MailboxSystem.deliver, h.1, h.2.1, h.2.2.1, h.2.2.2]

theorem ClientInv.other {j : ι} {τ : Session} {op : BusOp} (h : ClientInv pDev s j τ) (hj : j ≠ i)
    (call : Command) (reset : Option (Word × Word))
    (halone : op.WritesMailbox → ¬ τ.Inside pDev.endianness) :
    ClientInv pDev (s.deliver pDev.endianness i call reset op) j τ := by
  refine ⟨h.obeys, h.issued, fun howner => h.owner (MailboxSystem.deliver_inProgress hj howner),
    fun hreturned => ?_⟩
  by_cases hwrites : op.WritesMailbox
  · exact holds_of_not_inside (halone hwrites) hreturned
  · rw [MailboxSystem.deliver_of_not_writes hwrites]
    exact h.holds hreturned

theorem ClientInv.access {op : BusOp} {next : BusAnswer → Tw (HbiStatus × Option Word)}
    (h : ClientInv pDev s i σ) (other : Word) (reset : Option (Word × Word))
    (htodo : σ.todo = .ask op next) (hbusy : s.inProgress ≠ none → s.flags &&& hostSwFlagsHostCmd ≠ 0)
    (hcount : ∀ imageNumber, σ.call = .saveCfgToFlash imageNumber → op = .read Reg.fwrCount 2 →
      other < hbiVal pDev.endianness imageNumber) :
    ClientInv pDev (s.deliver pDev.endianness i σ.call reset op) i
      (s.advance pDev.endianness σ other op next) := by
  have hobeys := h.obeys
  rw [htodo] at hobeys
  have hreturned : σ.returned = none := by rw [Session.returned, htodo]
  have htracks : ((phaseOf pDev.endianness σ.record).step pDev.endianness
        (op, s.answer pDev.endianness other op)).Holds pDev.endianness
        (s.deliver pDev.endianness i σ.call reset op) i σ.call
        (s.issuedAfter pDev.endianness σ.issued op) ∧
      ((phaseOf pDev.endianness σ.record).step pDev.endianness
        (op, s.answer pDev.endianness other op)).Issued
        (s.issuedAfter pDev.endianness σ.issued op) := by
    cases op with
    | read reg size => exact holds_read (h.holds hreturned) h.issued hbusy hobeys.1
    | write reg data => exact holds_write (h.holds hreturned) h.issued hobeys.1
    | portWrite data =>
        have hstep : (phaseOf pDev.endianness σ.record).step pDev.endianness
            (.portWrite data, s.answer pDev.endianness other (.portWrite data))
              = phaseOf pDev.endianness σ.record := by
          cases phaseOf pDev.endianness σ.record <;> rfl
        rw [hstep]
        exact ⟨h.holds hreturned, h.issued⟩
  rw [← phaseOf_snoc] at htracks
  refine ⟨hobeys.2 _ ⟨?_, fun imageNumber hcall hop => ?_⟩, htracks.2, htracks.1.owner,
    fun _ => htracks.1⟩
  · cases op <;> rfl
  · rw [hop, readValue_answer]
    simpa [MailboxSystem.register, Reg.fwrCount, Reg.hostSwFlags, Reg.hostCmd,
      Reg.hostCmdParamResult] using hcount imageNumber hcall hop

theorem clientInv_begin {call : Command} (hcall : call.usesMailbox = true) :
    ClientInv pDev s i (Session.begin pDev call) :=
  ⟨obeys_mailboxCall pDev hcall, rfl, fun _ => .inl rfl, fun _ => trivial⟩

variable [DecidableEq ι]

/-- A completion gives the client that waits for it its result, and concerns no other. -/
theorem ClientInv.finish {j : ι} {τ : Session} (h : ClientInv pDev s j τ)
    (howner : s.inProgress = some i) (result : Word) :
    ClientInv pDev (s.finish i result) j (if j = i then τ.completed result else τ) := by
  have hphase : j ≠ i → τ.returned = none → phaseOf pDev.endianness τ.record = .outside := by
    intro hj hreturned
    have hholds := h.holds hreturned
    cases hph : phaseOf pDev.endianness τ.record with
    | outside => rfl
    | running cmd =>
        rw [hph] at hholds
        rcases hholds with ⟨hown, -⟩ | ⟨hdone, -⟩
        · exact absurd (Option.some.inj (hown.symm.trans howner)) hj
        · exact absurd (howner.symm.trans hdone) (Option.some_ne_none i)
    | quiet => simp [hph, Phase.Holds, howner] at hholds
    | param v => simp [hph, Phase.Holds, howner] at hholds
    | command cmd => simp [hph, Phase.Holds, howner] at hholds
    | finished cmd => simp [hph, Phase.Holds, howner] at hholds
    | decoded cmd w => simp [hph, Phase.Holds, howner] at hholds
  by_cases hj : j = i
  · subst hj
    rw [if_pos rfl]
    have hissued := h.issued
    rcases h.owner howner with hph | ⟨cmd, hph⟩
    · rw [hph] at hissued
      have hnone : τ.issued = none := hissued
      refine ⟨h.obeys, ?_, fun hnew => absurd hnew.symm (Option.some_ne_none j), fun _ => ?_⟩
      · simp [Session.completed, hph, Phase.Issued, hnone]
      · simp [Session.completed, hph, Phase.Holds]
    · rw [hph] at hissued
      obtain ⟨r, hr⟩ := hissued
      refine ⟨h.obeys, ?_, fun hnew => absurd hnew.symm (Option.some_ne_none j), fun _ => ?_⟩
      · simp [Session.completed, hph, Phase.Issued, hr]
      · simp [Session.completed, hph, Phase.Holds, hr, MailboxSystem.finish]
  · rw [if_neg hj]
    refine ⟨h.obeys, h.issued, fun hnew => absurd hnew.symm (Option.some_ne_none j),
      fun hreturned => ?_⟩
    rw [hphase hj hreturned]
    trivial

theorem MailboxInv.step {s' : MailboxSystem ι} {ev : MailboxEvent ι} (h : MailboxInv pDev s)
    (hcount : SaveCfgRefused pDev s ev) (halone : WritesAlone pDev s ev)
    (hstep : (mailboxMachine ι pDev).step s ev = some s') : MailboxInv pDev s' := by
  cases ev with
  | call i call =>
      obtain ⟨huses, -, rfl⟩ := MailboxSystem.step_call hstep
      refine ⟨fun j τ hj => ?_, h.busy, h.starts⟩
      simp only [MailboxSystem.setClient, Function.update_apply] at hj
      split at hj
      · rename_i heq
        subst heq
        obtain rfl := Option.some.inj hj
        exact clientInv_begin huses
      · have hτ := h.clients j τ hj
        exact ⟨hτ.obeys, hτ.issued, hτ.owner, hτ.holds⟩
  | access i other reset =>
      obtain ⟨σ, op, next, hσ, htodo, rfl⟩ := MailboxSystem.step_access hstep
      have hnext : σ.next = some op := by rw [Session.next, htodo]
      have hself := (h.clients i σ hσ).access other reset htodo h.busy
        fun n hcall hop => hcount σ n hσ hcall (by rw [hnext, hop])
      have hmay : (phaseOf pDev.endianness σ.record).May pDev.endianness σ.call op := by
        have hobeys := (h.clients i σ hσ).obeys
        rw [htodo] at hobeys
        exact hobeys.1
      have hreturned : σ.returned = none := by rw [Session.returned, htodo]
      obtain ⟨hbusy, hstarts⟩ := sound_deliver reset
        ((h.clients i σ hσ).holds hreturned) hmay h.busy h.starts
      refine ⟨fun j τ hj => ?_, hbusy, hstarts⟩
      simp only [MailboxSystem.setClient, MailboxSystem.deliver_clients,
        Function.update_apply] at hj
      split at hj
      · rename_i heq
        subst heq
        obtain rfl := Option.some.inj hj
        exact ⟨hself.obeys, hself.issued, hself.owner, hself.holds⟩
      · rename_i hne
        have hother := (h.clients j τ hj).other hne σ.call reset
          fun hwrites => halone σ op hσ hnext hwrites j τ hne hj
        exact ⟨hother.obeys, hother.issued, hother.owner, hother.holds⟩
  | complete result =>
      obtain ⟨i, howner, rfl⟩ := MailboxSystem.step_complete hstep
      refine ⟨fun j τ hj => ?_, fun hnew => absurd rfl hnew, h.starts⟩
      simp only [MailboxSystem.finish, Function.update_apply] at hj
      split at hj
      · rename_i heq
        subst heq
        obtain ⟨σ, hσ, rfl⟩ := Option.map_eq_some_iff.1 hj
        have hσ' := (h.clients j σ hσ).finish howner result
        rwa [if_pos rfl] at hσ'
      · rename_i hne
        have hτ := (h.clients j τ hj).finish howner result
        rwa [if_neg hne] at hτ

omit [DecidableEq ι] in
theorem MailboxSystem.Initial.inv (h : s.Initial) : MailboxInv pDev s := by
  refine ⟨fun i σ hσ => ?_, fun hne => absurd h.inProgress hne, fun st hst => ?_⟩
  · rw [h.clients i] at hσ
    exact absurd hσ.symm (Option.some_ne_none σ)
  · rw [h.starts] at hst
    exact absurd hst List.not_mem_nil

omit [DecidableEq ι] in
/-- A call that returned owes its caller what its last phase says. -/
theorem ClientInv.sound (h : ClientInv pDev s i σ) : σ.Sound pDev := by
  intro status out hreturned
  have hobeys := h.obeys
  have htodo : σ.todo = .pure (status, out) := by
    unfold Session.returned at hreturned
    split at hreturned
    · rename_i result hpure
      rw [hpure, Option.some.inj hreturned]
    · exact absurd hreturned.symm (Option.some_ne_none _)
  rw [htodo, Prog.obeys_pure] at hobeys
  have hissued := h.issued
  have hgave : GaveUp pDev.endianness σ.record status → σ.Sound pDev := by
    intro hgave status' out' hreturned'
    rw [hreturned] at hreturned'
    obtain ⟨rfl, -⟩ := Prod.mk.inj (Option.some.inj hreturned')
    cases σ.issued with
    | none =>
        dsimp only
        rw [hgave.1]
        decide
    | some k => exact .inl hgave
  unfold Concludes at hobeys
  cases hph : phaseOf pDev.endianness σ.record with
  | outside =>
      rw [hph] at hobeys hissued
      rw [show σ.issued = none from hissued]
      exact hobeys
  | decoded cmd w =>
      rw [hph] at hobeys hissued
      rcases hobeys with hobeys | hobeys
      · exact hgave hobeys status out hreturned
      · rw [show σ.issued = some ⟨cmd, some w, some w⟩ from hissued]
        exact .inr ⟨w, rfl, rfl, hobeys⟩
  | quiet =>
      rw [hph] at hobeys
      exact hgave hobeys status out hreturned
  | param v =>
      rw [hph] at hobeys
      exact hgave hobeys status out hreturned
  | running cmd =>
      rw [hph] at hobeys
      exact hgave hobeys status out hreturned
  | command cmd => rw [hph] at hobeys; exact hobeys.elim
  | finished cmd => rw [hph] at hobeys; exact hobeys.elim

/-- Every state of a run under the two conditions is sound. -/
theorem mailbox_sound {s' : MailboxSystem ι} {events : List (MailboxEvent ι)} (hs : s.Initial)
    (hrun : (mailboxMachine ι pDev).Runs
      (fun s ev => SaveCfgRefused pDev s ev ∧ WritesAlone pDev s ev) s events s') :
    s'.Sound pDev := by
  have hinv : MailboxInv pDev s' :=
    hrun.invariant hs.inv fun t ev u ht hok hstep => ht.step hok.1 hok.2 hstep
  exact ⟨hinv.starts, fun i σ hσ => (hinv.clients i σ hσ).sound⟩

end Steps

end VprocSdk
