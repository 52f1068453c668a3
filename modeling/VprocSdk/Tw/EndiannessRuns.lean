import VprocSdk.Tw.Endianness

/-!
# Runs in the two byte orders

A sequence of calls is run twice on one logical device, which answers from what it has been asked so
far. `CallSafe` says when a call is the same in both orders, in terms of the device before the call.
Where it is, the two runs of the call are equal; where it is not, the first thing the device is told
otherwise, or the status, differs. So the runs of a sequence are the same exactly when each call is
safe in the state it is made in.
-/

namespace VprocSdk

open Lib

/-! ### Runs against one device -/

section Runs

variable (answer : LogRecord → LogOp → LogAnswer) (h : Nat)

def callRun (e : DevEndian) (done : LogRecord) (call : DeviceCall) :
    LogRecord × HbiStatus × Option Word :=
  (seenBy e (deviceCall (.inOrder h e) call)).run answer done

/-- What of a record the device is told: registers written and raw bytes. -/
def LogOp.tells : LogOp → Bool
  | .read _ => false
  | .write _ _ | .port _ => true

def toldOps (record : LogRecord) : List LogOp := (record.map Prod.fst).filter LogOp.tells

/-- What each of the calls tells the device and returns. -/
def trace (e : DevEndian) : LogRecord → List DeviceCall → List (List LogOp × HbiStatus × Option Word)
  | _, [] => []
  | done, call :: calls =>
      let run := callRun answer h e done call
      (toldOps (run.1.drop done.length), run.2) :: trace e run.1 calls

/-! ### When a call is the same in both orders -/

def FlashOpens (done : LogRecord) : Prop :=
  ((seenBy .little (flashOpened (.inOrder h .little))).run answer done).2 = .success

def flashRun (done : LogRecord) (reg : RegAddr) (val cmd : Word) : LogRecord × HbiStatus :=
  (seenBy .little (flashCommand (.inOrder h .little) reg val cmd)).run answer done

/-- The answer that holds the result of a flash command, where the command gets to read it. -/
def resultAnswer (done : LogRecord) (reg : RegAddr) (val cmd : Word) : Option LogAnswer :=
  if (flashRun answer h done reg val cmd).2 = .success then
    some (answer (flashRun answer h done reg val cmd).1 (.read Reg.hostCmdParamResult))
  else none

/-- When a command is the same in both orders: an image number is the same with its bytes swapped or
not used, the result of an erasing can be read, a result is not flash-full in one of the orders, and
the image number is above the number of images with its bytes swapped or not. -/
def CommandSafe (done : LogRecord) : Command → Prop
  | .loadFwrcfgFromFlash imageNumber =>
      imageNumber.toInt ≤ 0 ∨ ¬ FlashOpens answer h done ∨ hbiVal .big imageNumber = imageNumber
  | .eraseFwrcfgFromFlash (some imageNumber) =>
      imageNumber.toInt ≤ 0 ∨ ¬ FlashOpens answer h done ∨
        hbiVal .big imageNumber = imageNumber ∧
          ∀ ans ∈ resultAnswer answer h done Reg.hostCmdParamResult imageNumber HostCmd.imgCfgErase,
            ans.status = .ok
  | .eraseWholeFlash =>
      ∀ ans ∈ resultAnswer answer h done Reg.hostCmdParamResult 0xAA55 HostCmd.eraseFlashInit,
        ans.status = .ok
  | .saveFwrcfgToFlash _ =>
      ∀ ans ∈ resultAnswer answer h done Reg.cfgRecChksum 0 HostCmd.imgCfgSave,
        ans.status = .ok → ans.value ≠ 0x0003 ∧ ans.value ≠ 0x0300
  | .saveCfgToFlash imageNumber =>
      imageNumber = 0 ∨ (answer done (.read Reg.fwrCount)).status ≠ .ok ∨
        (hbiVal .big imageNumber > (answer done (.read Reg.fwrCount)).value
          ↔ imageNumber > (answer done (.read Reg.fwrCount)).value)
  | _ => True

/-- Waking the device is never the same. -/
def CallSafe (done : LogRecord) : DeviceCall → Prop
  | .setCommand cmd => CommandSafe answer h done cmd
  | .wake => False
  | .sleep | .reset _ => True

/-- Each call is the same in both orders, in the state the calls before it lead to. -/
def CallsSafe : LogRecord → List DeviceCall → Prop
  | _, [] => True
  | done, call :: calls =>
      CallSafe answer h done call ∧ CallsSafe (callRun answer h .little done call).1 calls

/-! ### What a run does with a flash command -/

variable {answer h} {α : Type} {done : LogRecord}

theorem seenBy_flashOpened (e : DevEndian) :
    seenBy e (flashOpened (.inOrder h e)) = seenBy .little (flashOpened (.inOrder h .little)) := by
  cases e with
  | big => exact bothOrders_flashOpened h
  | little => rfl

theorem seenBy_flashCommand (e : DevEndian) (reg : RegAddr) (val cmd : Word) :
    seenBy e (flashCommand (.inOrder h e) reg (hbiVal e val) cmd)
      = seenBy .little (flashCommand (.inOrder h .little) reg val cmd) := by
  cases e with
  | big => exact bothOrders_flashCommand h reg val cmd
  | little => rfl

theorem run_chk {e : DevEndian} {p : Tw HbiStatus} {done' : LogRecord} {status : HbiStatus}
    (hp : (seenBy e p).run answer done = (done', status)) (failed : HbiStatus → α) (rest : Tw α) :
    (seenBy e (p >>= fun status => if status ≠ .success then pure (failed status) else rest)).run
        answer done
      = if status ≠ .success then (done', failed status) else (seenBy e rest).run answer done' := by
  rw [seenBy_bind, Prog.run_bind, hp]
  by_cases hstatus : status ≠ .success
  · simp only [if_pos hstatus]
    rfl
  · simp only [if_neg hstatus]

/-- What `tw_cmdresult_check` makes of the answer. -/
def resultWord (e : DevEndian) (ans : LogAnswer) : Word :=
  if ans.status = .ok then hbiVal e ans.value else 1

theorem run_twCmdresultCheck (e : DevEndian) (k : Word → Tw α) :
    (seenBy e (twCmdresultCheck >>= k)).run answer done
      = (seenBy e (k (resultWord e (answer done (.read Reg.hostCmdParamResult))))).run answer
          (done ++ [(.read Reg.hostCmdParamResult, answer done (.read Reg.hostCmdParamResult))]) := by
  have hseen : seenBy e twCmdresultCheck
      = .ask (.read Reg.hostCmdParamResult) fun ans => .pure (resultWord e ans) := by
    rw [twCmdresultCheck_eq]
    change Prog.ask (LogOp.read Reg.hostCmdParamResult) _ = _
    congr 1
    funext ans
    have hword : cmdResult ⟨ans.status, devBytes e ans.value⟩ = resultWord e ans := by
      rw [cmdResult, hostWord_devBytes, resultWord]
      rfl
    exact congrArg Prog.pure hword
  rw [seenBy_bind, hseen]
  rfl

theorem run_flashResult (answer : LogRecord → LogOp → LogAnswer) (h : Nat) (done : LogRecord)
    (e : DevEndian) (reg : RegAddr) (val cmd : Word) (failed : HbiStatus → α) (k : Word → Tw α) :
    (seenBy e (flashCommand (.inOrder h e) reg (hbiVal e val) cmd >>= fun status =>
        if status ≠ .success then pure (failed status) else twCmdresultCheck >>= k)).run answer done
      = match resultAnswer answer h done reg val cmd with
        | none => ((flashRun answer h done reg val cmd).1,
            failed (flashRun answer h done reg val cmd).2)
        | some ans => (seenBy e (k (resultWord e ans))).run answer
            ((flashRun answer h done reg val cmd).1 ++ [(.read Reg.hostCmdParamResult, ans)]) := by
  have hp : (seenBy e (flashCommand (.inOrder h e) reg (hbiVal e val) cmd)).run answer done
      = ((flashRun answer h done reg val cmd).1, (flashRun answer h done reg val cmd).2) := by
    rw [seenBy_flashCommand]
    rfl
  rw [run_chk hp, resultAnswer]
  by_cases hstatus : (flashRun answer h done reg val cmd).2 = .success
  · rw [if_neg (not_not.2 hstatus), if_pos hstatus, run_twCmdresultCheck]
  · rw [if_pos hstatus, if_neg hstatus]

def openedRun (answer : LogRecord → LogOp → LogAnswer) (h : Nat) (done : LogRecord) :
    LogRecord × HbiStatus :=
  (seenBy .little (flashOpened (.inOrder h .little))).run answer done

theorem run_flashOpened (e : DevEndian) :
    (seenBy e (flashOpened (.inOrder h e))).run answer done
      = ((openedRun answer h done).1, (openedRun answer h done).2) := by
  rw [seenBy_flashOpened]
  rfl

/-- A flash that does not open ends the command before the first access that uses its arguments. -/
theorem run_flashClosed (hclosed : ¬ FlashOpens answer h done) (e : DevEndian) (reg : RegAddr)
    (val cmd : Word) (failed : HbiStatus → α) (rest : Tw α) :
    (seenBy e (flashCommand (.inOrder h e) reg val cmd >>= fun status =>
        if status ≠ .success then pure (failed status) else rest)).run answer done
      = ((openedRun answer h done).1, failed (openedRun answer h done).2) := by
  have hstatus : (openedRun answer h done).2 ≠ .success := hclosed
  unfold flashCommand
  rw [chk_assoc, run_chk (run_flashOpened e), if_pos hstatus]

theorem run_flashWrites (hopens : FlashOpens answer h done) (e : DevEndian) (reg : RegAddr)
    (val cmd : Word) (failed : HbiStatus → α) (rest : Tw α) :
    ∃ ans more, ((seenBy e (flashCommand (.inOrder h e) reg val cmd >>= fun status =>
        if status ≠ .success then pure (failed status) else rest)).run answer done).1
      = (openedRun answer h done).1 ++ (.write reg (hbiVal e val), ans) :: more := by
  have hstatus : (openedRun answer h done).2 = .success := hopens
  unfold flashCommand
  rw [chk_assoc, run_chk (run_flashOpened e), if_neg (not_not.2 hstatus), chk_assoc, seenBy_bind,
    seenBy_writeWord]
  obtain ⟨more, hmore⟩ := ((Prog.starts_ask _ _).bind _).run answer (openedRun answer h done).1
  exact ⟨_, more, hmore⟩

theorem toldOps_append (record more : LogRecord) :
    toldOps (record ++ more) = toldOps record ++ toldOps more := by
  rw [toldOps, List.map_append, List.filter_append]
  rfl

theorem toldOps_cons {op : LogOp} (htells : op.tells = true) (ans : LogAnswer) (more : LogRecord) :
    toldOps ((op, ans) :: more) = op :: toldOps more := by
  rw [toldOps, List.map_cons, List.filter_cons, if_pos htells]
  rfl

/-- Two runs that go the same way up to where they tell the device different things. -/
theorem toldOps_ne {record record' base before more more' : LogRecord} {op op' : LogOp}
    {ans ans' : LogAnswer} (hrecord : record = base ++ (op, ans) :: more)
    (hrecord' : record' = base ++ (op', ans') :: more') (hbase : base = done ++ before)
    (htells : op.tells = true) (htells' : op'.tells = true) (hop : op ≠ op') :
    toldOps (record.drop done.length) ≠ toldOps (record'.drop done.length) := by
  rw [hrecord, hrecord', hbase, List.append_assoc, List.append_assoc, List.drop_left, List.drop_left,
    toldOps_append, toldOps_append, toldOps_cons htells, toldOps_cons htells']
  intro heq
  exact hop (List.head_eq_of_cons_eq (List.append_cancel_left heq))

theorem openedRun_extends (answer : LogRecord → LogOp → LogAnswer) (h : Nat) (done : LogRecord) :
    ∃ before, (openedRun answer h done).1 = done ++ before :=
  Prog.run_extends answer done _

end Runs

/-! ### The commands, one by one -/

section Commands

variable {answer : LogRecord → LogOp → LogAnswer} {h : Nat} {done : LogRecord}

/-- What a call tells the device and returns. -/
def entry (answer : LogRecord → LogOp → LogAnswer) (h : Nat) (e : DevEndian) (done : LogRecord)
    (call : DeviceCall) : List LogOp × HbiStatus × Option Word :=
  (toldOps ((callRun answer h e done call).1.drop done.length), (callRun answer h e done call).2)

theorem callRun_agree {call : DeviceCall}
    (hagree : BothOrders (deviceCall (.inOrder h .big) call) (deviceCall (.inOrder h .little) call)) :
    callRun answer h .big done call = callRun answer h .little done call :=
  congrArg (Prog.run answer done) hagree

theorem callRun_plain {e : DevEndian} {call : DeviceCall} {p : Tw HbiStatus}
    (hcall : deviceCall (.inOrder h e) call = p >>= fun status => pure (status, none)) :
    callRun answer h e done call
      = (((seenBy e p).run answer done).1, ((seenBy e p).run answer done).2, none) := by
  rw [callRun, hcall, seenBy_bind, Prog.run_bind]
  rfl

theorem bothOrders_plain {p q : Tw HbiStatus} (hagree : BothOrders p q) :
    BothOrders (p >>= fun status => (pure (status, none) : Tw (HbiStatus × Option Word)))
      (q >>= fun status => pure (status, none)) :=
  hagree.bind fun _ => Prog.alike_pure _

/-- The value the driver decodes: the result, or the number of the failure to read it with its bytes
swapped. -/
def responseOf (e : DevEndian) (ans : LogAnswer) : Word :=
  if ans.status = .ok then ans.value else hbiVal e 1

theorem hbiVal_resultWord (e : DevEndian) (ans : LogAnswer) :
    hbiVal e (resultWord e ans) = responseOf e ans := by
  unfold resultWord responseOf
  split
  · exact hbiVal_hbiVal e ans.value
  · rfl

theorem run_flashStatus (answer : LogRecord → LogOp → LogAnswer) (h : Nat) (done : LogRecord)
    (e : DevEndian) (reg : RegAddr) (val cmd : Word) (decode : Word → HbiStatus) :
    (seenBy e (flashStatus (.inOrder h e) reg (hbiVal e val) cmd decode)).run answer done
      = match resultAnswer answer h done reg val cmd with
        | none => ((flashRun answer h done reg val cmd).1, (flashRun answer h done reg val cmd).2)
        | some ans =>
            ((flashRun answer h done reg val cmd).1 ++ [(.read Reg.hostCmdParamResult, ans)],
              decode (responseOf e ans)) := by
  unfold flashStatus
  rw [run_flashResult answer h done e reg val cmd fun status => status]
  cases resultAnswer answer h done reg val cmd with
  | none => rfl
  | some ans =>
      dsimp only [TwDev.inOrder_endianness]
      rw [hbiVal_resultWord]
      rfl

theorem flashStatus_same {reg : RegAddr} {val cmd : Word} (decode : Word → HbiStatus)
    (hread : ∀ ans ∈ resultAnswer answer h done reg val cmd,
      ans.status = .ok ∨ decode (hbiVal .big 1) = decode 1) :
    (seenBy .big (flashStatus (.inOrder h .big) reg (hbiVal .big val) cmd decode)).run answer done
      = (seenBy .little (flashStatus (.inOrder h .little) reg val cmd decode)).run answer done := by
  have hlittle := run_flashStatus answer h done .little reg val cmd decode
  rw [hbiVal_little] at hlittle
  rw [run_flashStatus, hlittle]
  cases hresult : resultAnswer answer h done reg val cmd with
  | none => rfl
  | some ans =>
      have hdecode : decode (responseOf .big ans) = decode (responseOf .little ans) := by
        unfold responseOf
        rcases hread ans hresult with hok | hfailed
        · rw [if_pos hok, if_pos hok]
        · split
          · rfl
          · exact hfailed
      dsimp only
      rw [hdecode]

theorem flashStatus_differs {reg : RegAddr} {val cmd : Word} {decode : Word → HbiStatus}
    {ans : LogAnswer} (hresult : resultAnswer answer h done reg val cmd = some ans)
    (hfailed : ans.status ≠ .ok) (hdecode : decode (hbiVal .big 1) ≠ decode 1) :
    ((seenBy .big (flashStatus (.inOrder h .big) reg (hbiVal .big val) cmd decode)).run answer done).2
      ≠ ((seenBy .little (flashStatus (.inOrder h .little) reg val cmd decode)).run answer done).2 := by
  have hlittle := run_flashStatus answer h done .little reg val cmd decode
  rw [hbiVal_little] at hlittle
  rw [run_flashStatus, hlittle, hresult]
  dsimp only
  rw [responseOf, responseOf, if_neg hfailed, if_neg hfailed]
  exact hdecode

theorem imageCommand_closed {reg : RegAddr} {val cmd : Word} {decode : Word → HbiStatus}
    (hclosed : ¬ FlashOpens answer h done) :
    (seenBy .big (flashStatus (.inOrder h .big) reg val cmd decode)).run answer done
      = (seenBy .little (flashStatus (.inOrder h .little) reg val cmd decode)).run answer done := by
  unfold flashStatus
  rw [run_flashClosed hclosed .big reg val cmd fun status => status,
    run_flashClosed hclosed .little reg val cmd fun status => status]

theorem imageCommand_same {reg : RegAddr} {val cmd : Word} {decode : Word → HbiStatus}
    (hval : hbiVal .big val = val)
    (hread : ∀ ans ∈ resultAnswer answer h done reg val cmd,
      ans.status = .ok ∨ decode (hbiVal .big 1) = decode 1) :
    (seenBy .big (flashStatus (.inOrder h .big) reg val cmd decode)).run answer done
      = (seenBy .little (flashStatus (.inOrder h .little) reg val cmd decode)).run answer done := by
  have hsame := flashStatus_same decode hread
  rw [hval] at hsame
  exact hsame

theorem imageCommand_differs {reg : RegAddr} {val cmd : Word} {decode : Word → HbiStatus}
    (hopens : FlashOpens answer h done) (hval : hbiVal .big val ≠ val) :
    toldOps (((seenBy .big (flashStatus (.inOrder h .big) reg val cmd decode)).run answer
        done).1.drop done.length)
      ≠ toldOps (((seenBy .little (flashStatus (.inOrder h .little) reg val cmd decode)).run answer
        done).1.drop done.length) := by
  obtain ⟨ans, more, hbig⟩ := run_flashWrites hopens .big reg val cmd (fun status => status)
    (twCmdresultCheck >>= fun result => pure (decode (hbiVal .big result)))
  obtain ⟨ans', more', hlittle⟩ := run_flashWrites hopens .little reg val cmd (fun status => status)
    (twCmdresultCheck >>= fun result => pure (decode (hbiVal .little result)))
  obtain ⟨before, hbefore⟩ := openedRun_extends answer h done
  have hwrite : LogOp.write reg (hbiVal .big val) ≠ .write reg (hbiVal .little val) := by
    intro heq
    exact hval (LogOp.write.inj heq).2
  exact toldOps_ne hbig hlittle hbefore rfl rfl hwrite

theorem entry_plain {e : DevEndian} {call : DeviceCall} {p : Tw HbiStatus}
    (hcall : deviceCall (.inOrder h e) call = p >>= fun status => pure (status, none)) :
    entry answer h e done call
      = (toldOps (((seenBy e p).run answer done).1.drop done.length),
          ((seenBy e p).run answer done).2, none) := by
  rw [entry, callRun_plain hcall]

/-! #### Loading and erasing an image -/

theorem load_same {n : Word} (hsafe : CommandSafe answer h done (.loadFwrcfgFromFlash n)) :
    callRun answer h .big done (.setCommand (.loadFwrcfgFromFlash n))
      = callRun answer h .little done (.setCommand (.loadFwrcfgFromFlash n)) := by
  rw [callRun_plain (p := twLoadFwrcfgFromFlash (.inOrder h .big) n) rfl,
    callRun_plain (p := twLoadFwrcfgFromFlash (.inOrder h .little) n) rfl]
  by_cases hpos : n.toInt ≤ 0
  · rw [twLoadFwrcfgFromFlash, twLoadFwrcfgFromFlash, if_pos hpos, if_pos hpos]
    rfl
  · rw [twLoadFwrcfgFromFlash_eq _ hpos, twLoadFwrcfgFromFlash_eq _ hpos]
    rcases hsafe with hneg | hclosed | hval
    · exact absurd hneg hpos
    · rw [imageCommand_closed hclosed]
    · have hdecode : plainStatus (hbiVal .big 1) = plainStatus 1 := by decide
      rw [imageCommand_same hval fun _ _ => Or.inr hdecode]

theorem load_differs {n : Word} (hnot_safe : ¬ CommandSafe answer h done (.loadFwrcfgFromFlash n)) :
    entry answer h .big done (.setCommand (.loadFwrcfgFromFlash n))
      ≠ entry answer h .little done (.setCommand (.loadFwrcfgFromFlash n)) := by
  obtain ⟨hpos, hrest⟩ := not_or.1 hnot_safe
  obtain ⟨hclosed, hval⟩ := not_or.1 hrest
  have hopens := not_not.1 hclosed
  rw [entry_plain (p := twLoadFwrcfgFromFlash (.inOrder h .big) n) rfl,
    entry_plain (p := twLoadFwrcfgFromFlash (.inOrder h .little) n) rfl,
    twLoadFwrcfgFromFlash_eq _ hpos, twLoadFwrcfgFromFlash_eq _ hpos]
  intro heq
  exact imageCommand_differs hopens hval (Prod.mk.inj heq).1

theorem erase_same {n : Word} (hsafe : CommandSafe answer h done (.eraseFwrcfgFromFlash (some n))) :
    callRun answer h .big done (.setCommand (.eraseFwrcfgFromFlash (some n)))
      = callRun answer h .little done (.setCommand (.eraseFwrcfgFromFlash (some n))) := by
  rw [callRun_plain (p := twEraseFwrcfgFromFlash (.inOrder h .big) (some n)) rfl,
    callRun_plain (p := twEraseFwrcfgFromFlash (.inOrder h .little) (some n)) rfl]
  by_cases hpos : n.toInt ≤ 0
  · rw [twEraseFwrcfgFromFlash, twEraseFwrcfgFromFlash, if_pos hpos, if_pos hpos]
    rfl
  · rw [twEraseFwrcfgFromFlash_eq _ hpos, twEraseFwrcfgFromFlash_eq _ hpos]
    rcases hsafe with hneg | hclosed | ⟨hval, hread⟩
    · exact absurd hneg hpos
    · rw [imageCommand_closed hclosed]
    · rw [imageCommand_same hval fun ans hans => Or.inl (hread ans hans)]

theorem erase_differs {n : Word}
    (hnot_safe : ¬ CommandSafe answer h done (.eraseFwrcfgFromFlash (some n))) :
    entry answer h .big done (.setCommand (.eraseFwrcfgFromFlash (some n)))
      ≠ entry answer h .little done (.setCommand (.eraseFwrcfgFromFlash (some n))) := by
  obtain ⟨hpos, hrest⟩ := not_or.1 hnot_safe
  obtain ⟨hclosed, hval⟩ := not_or.1 hrest
  have hopens := not_not.1 hclosed
  rw [entry_plain (p := twEraseFwrcfgFromFlash (.inOrder h .big) (some n)) rfl,
    entry_plain (p := twEraseFwrcfgFromFlash (.inOrder h .little) (some n)) rfl,
    twEraseFwrcfgFromFlash_eq _ hpos, twEraseFwrcfgFromFlash_eq _ hpos]
  intro heq
  by_cases hswap : hbiVal .big n = n
  · obtain ⟨ans, hresult, hfailed⟩ : ∃ ans ∈ resultAnswer answer h done Reg.hostCmdParamResult n
        HostCmd.imgCfgErase, ans.status ≠ .ok := by
      by_contra hall
      apply hval
      refine ⟨hswap, ?_⟩
      intro ans hans
      by_contra hfailed
      exact hall ⟨ans, hans, hfailed⟩
    have hne := flashStatus_differs hresult hfailed
      (show eraseStatus HmiResp.success (hbiVal .big 1) ≠ eraseStatus HmiResp.success 1 by decide)
    rw [hswap] at hne
    exact hne (Prod.mk.inj (Prod.mk.inj heq).2).1
  · exact imageCommand_differs hopens hswap (Prod.mk.inj heq).1

theorem eraseFlash_same (hsafe : CommandSafe answer h done .eraseWholeFlash) :
    callRun answer h .big done (.setCommand .eraseWholeFlash)
      = callRun answer h .little done (.setCommand .eraseWholeFlash) := by
  have hsame := flashStatus_same (eraseStatus HmiResp.flashInitOk)
    fun ans hans => Or.inl (hsafe ans hans)
  rw [callRun_plain (p := twEraseFlash (.inOrder h .big)) rfl,
    callRun_plain (p := twEraseFlash (.inOrder h .little)) rfl, twEraseFlash_eq, twEraseFlash_eq]
  dsimp only [TwDev.inOrder_endianness, hbiVal_little]
  rw [hsame]

theorem eraseFlash_differs (hnot_safe : ¬ CommandSafe answer h done .eraseWholeFlash) :
    entry answer h .big done (.setCommand .eraseWholeFlash)
      ≠ entry answer h .little done (.setCommand .eraseWholeFlash) := by
  obtain ⟨ans, hnot⟩ := not_forall.1 hnot_safe
  obtain ⟨hresult, hfailed⟩ := Classical.not_imp.1 hnot
  have hne := flashStatus_differs hresult hfailed
    (show eraseStatus HmiResp.flashInitOk (hbiVal .big 1) ≠ eraseStatus HmiResp.flashInitOk 1 by decide)
  rw [entry_plain (p := twEraseFlash (.inOrder h .big)) rfl,
    entry_plain (p := twEraseFlash (.inOrder h .little)) rfl, twEraseFlash_eq, twEraseFlash_eq]
  intro heq
  exact hne (Prod.mk.inj (Prod.mk.inj heq).2).1

/-! #### Saving the firmware -/

theorem bothOrders_saveFwrcfgEnd (pVal : Bool) {result result' : Word}
    (hstatus : saveFwrcfgStatus (.inOrder h .big) (hbiVal .big result)
      = saveFwrcfgStatus (.inOrder h .little) result') :
    BothOrders (saveFwrcfgEnd (.inOrder h .big) pVal result)
      (saveFwrcfgEnd (.inOrder h .little) pVal result') := by
  unfold saveFwrcfgEnd
  dsimp only [TwDev.inOrder_endianness, hbiVal_little]
  rw [hstatus]
  apply Prog.Alike.ite (Prog.alike_pure _)
  apply Prog.Alike.ite (Prog.alike_pure _)
  apply bothOrders_readWord
  · exact Prog.alike_pure _
  · intro val
    simp only [hbiVal_hbiVal]
    exact Prog.alike_pure _

theorem saveFwrcfgStatus_same {val : Word} (hlow : val ≠ 0x0003) (hhigh : val ≠ 0x0300) :
    saveFwrcfgStatus (.inOrder h .big) val = saveFwrcfgStatus (.inOrder h .little) val := by
  have hswapped : hbiVal .big val ≠ HmiResp.flashFull := by
    intro heq
    apply hhigh
    rw [← hbiVal_hbiVal .big val, heq]
    decide
  have hplain : val ≠ HmiResp.flashFull := hlow
  simp only [saveFwrcfgStatus, TwDev.inOrder_endianness, hbiVal_little, hswapped, hplain, if_false]

theorem saveFwrcfgEnd_failed {pDev : TwDev} {pVal : Bool} {result : Word} {status : HbiStatus}
    (hstatus : saveFwrcfgStatus pDev (hbiVal pDev.endianness result) = status)
    (hfailed : status ≠ .success) : saveFwrcfgEnd pDev pVal result = .pure (status, none) := by
  unfold saveFwrcfgEnd
  rw [hstatus]
  exact if_pos hfailed

theorem saveFwrcfg_run (e : DevEndian) (pVal : Bool) :
    callRun answer h e done (.setCommand (.saveFwrcfgToFlash pVal))
      = match resultAnswer answer h done Reg.cfgRecChksum 0 HostCmd.imgCfgSave with
        | none => ((flashRun answer h done Reg.cfgRecChksum 0 HostCmd.imgCfgSave).1,
            (flashRun answer h done Reg.cfgRecChksum 0 HostCmd.imgCfgSave).2, none)
        | some ans => (seenBy e (saveFwrcfgEnd (.inOrder h e) pVal (resultWord e ans))).run answer
            ((flashRun answer h done Reg.cfgRecChksum 0 HostCmd.imgCfgSave).1
              ++ [(.read Reg.hostCmdParamResult, ans)]) := by
  have hcall : deviceCall (.inOrder h e) (.setCommand (.saveFwrcfgToFlash pVal))
      = twSaveFwrcfgToFlash (.inOrder h e) pVal := rfl
  have hzero : hbiVal e 0 = 0 := (hbiVal_eq_zero e 0).2 rfl
  have hrun := run_flashResult answer h done e Reg.cfgRecChksum 0 HostCmd.imgCfgSave
    (fun status => (status, none)) (saveFwrcfgEnd (.inOrder h e) pVal)
  rw [hzero] at hrun
  rw [callRun, hcall, twSaveFwrcfgToFlash_eq, hrun]

theorem saveFwrcfg_same {pVal : Bool} (hsafe : CommandSafe answer h done (.saveFwrcfgToFlash pVal)) :
    callRun answer h .big done (.setCommand (.saveFwrcfgToFlash pVal))
      = callRun answer h .little done (.setCommand (.saveFwrcfgToFlash pVal)) := by
  rw [saveFwrcfg_run, saveFwrcfg_run]
  cases hresult : resultAnswer answer h done Reg.cfgRecChksum 0 HostCmd.imgCfgSave with
  | none => rfl
  | some ans =>
      have hstatus : saveFwrcfgStatus (.inOrder h .big) (hbiVal .big (resultWord .big ans))
          = saveFwrcfgStatus (.inOrder h .little) (resultWord .little ans) := by
        by_cases hok : ans.status = .ok
        · obtain ⟨hlow, hhigh⟩ := hsafe ans hresult hok
          rw [resultWord, resultWord, if_pos hok, if_pos hok, hbiVal_hbiVal, hbiVal_little]
          exact saveFwrcfgStatus_same hlow hhigh
        · rw [resultWord, resultWord, if_neg hok, if_neg hok]
          rfl
      exact congrArg (Prog.run answer _) (bothOrders_saveFwrcfgEnd pVal hstatus)

/-- A result that is flash-full in one of the orders is reported so in that order alone. -/
theorem saveFwrcfg_differs {pVal : Bool}
    (hnot_safe : ¬ CommandSafe answer h done (.saveFwrcfgToFlash pVal)) :
    entry answer h .big done (.setCommand (.saveFwrcfgToFlash pVal))
      ≠ entry answer h .little done (.setCommand (.saveFwrcfgToFlash pVal)) := by
  obtain ⟨ans, hnot⟩ := not_forall.1 hnot_safe
  obtain ⟨hresult, hnot'⟩ := Classical.not_imp.1 hnot
  obtain ⟨hok, hfull⟩ := Classical.not_imp.1 hnot'
  have hvalue : ans.value = 0x0003 ∨ ans.value = 0x0300 := by tauto
  have hresult' : resultAnswer answer h done Reg.cfgRecChksum 0 HostCmd.imgCfgSave = some ans := hresult
  have hentry : ∀ e status,
      saveFwrcfgStatus (.inOrder h e) (hbiVal e (hbiVal e ans.value)) = status → status ≠ .success →
      (callRun answer h e done (.setCommand (.saveFwrcfgToFlash pVal))).2.1 = status := by
    intro e status hstatus hfailed
    rw [saveFwrcfg_run, hresult']
    dsimp only
    rw [resultWord, if_pos hok, saveFwrcfgEnd_failed hstatus hfailed]
    rfl
  intro heq
  have hstatus : (callRun answer h .big done (.setCommand (.saveFwrcfgToFlash pVal))).2.1
      = (callRun answer h .little done (.setCommand (.saveFwrcfgToFlash pVal))).2.1 :=
    congrArg Prod.fst (Prod.mk.inj heq).2
  rcases hvalue with hlow | hhigh
  · rw [hentry .big .commandErr (by rw [hlow]; rfl) (by decide),
      hentry .little .flashFull (by rw [hlow]; rfl) (by decide)] at hstatus
    cases hstatus
  · rw [hentry .big .flashFull (by rw [hhigh]; rfl) (by decide),
      hentry .little .commandErr (by rw [hhigh]; rfl) (by decide)] at hstatus
    cases hstatus

/-! #### Saving the configuration -/

/-- What `tw_save_cfg_to_flash` does once it has compared the image number. -/
def saveCfgRest (pDev : TwDev) (imageNumber : Word) : Tw HbiStatus := do
  let status ← writeWord Reg.cfgRecChksum 0
  if status ≠ .success then return status
  let status ← internalHbiWrite Reg.hostCmdParamResult (commandBytes imageNumber)
  if status ≠ .success then return status
  let status ← twMboxAcquire pDev
  if status ≠ .success then return status
  let ret ← twChkDevBootRomMode pDev
  if ret ≠ 0 then
    let status ← twInitCheckFlash pDev
    if status ≠ .success then return status
    let status ← writeWord Reg.hostCmd (hbiVal pDev.endianness HostCmd.imgCfgSave)
    if status ≠ .success then return status
    twSaveCfgToFlash.saveCfgNotify pDev hostSwFlagsHostCmd
  else
    let status ← writeWord Reg.hostCmd (hbiVal pDev.endianness HostCmd.appSaveCfgToFlash)
    if status ≠ .success then return status
    twSaveCfgToFlash.saveCfgNotify pDev hostSwFlagsAppHostCmd

theorem twSaveCfgToFlash_eq (pDev : TwDev) (n : Word) :
    twSaveCfgToFlash pDev n
      = if n = 0 then pure .invalidArg
        else readWord Reg.fwrCount >>= fun result =>
          match result with
          | .error status => pure status
          | .ok val =>
              if hbiVal pDev.endianness n > hbiVal pDev.endianness val then pure .invalidArg
              else saveCfgRest pDev (hbiVal pDev.endianness n) := rfl

theorem hostBytes_append (high low : Byte) : hostBytes (high ++ low) = [low, high] := by
  have hlow : ((high ++ low : Word)).setWidth 8 = low := by
    apply BitVec.eq_of_getLsbD_eq
    intro i hi
    simp only [BitVec.getLsbD_setWidth, BitVec.getLsbD_append]
    simp [hi]
  have hhigh : ((high ++ low : Word) >>> 8).setWidth 8 = high := by
    apply BitVec.eq_of_getLsbD_eq
    intro i hi
    simp only [BitVec.getLsbD_setWidth, BitVec.getLsbD_ushiftRight, BitVec.getLsbD_append]
    simp [hi]
  rw [hostBytes, hlow, hhigh]

theorem commandBytes_eq (val : Word) : commandBytes val = hostBytes (hbiVal .big val) := by
  rw [← hostWord_devBytes .big val]
  exact (hostBytes_append (val.setWidth 8) ((val >>> 8).setWidth 8)).symm

theorem bothOrders_saveCfgNotify (flag : Word) :
    BothOrders (twSaveCfgToFlash.saveCfgNotify (.inOrder h .big) flag)
      (twSaveCfgToFlash.saveCfgNotify (.inOrder h .little) flag) :=
  bothOrders_chk (bothOrders_writeWord _ _) (bothOrders_decoded plainStatus (by decide))

theorem bothOrders_saveCfgRest (n : Word) :
    BothOrders (saveCfgRest (.inOrder h .big) (hbiVal .big n)) (saveCfgRest (.inOrder h .little) n) := by
  have hbytes : ∀ val, internalHbiWrite Reg.hostCmdParamResult (commandBytes val)
      = writeWord Reg.hostCmdParamResult (hbiVal .big val) := by
    intro val
    rw [commandBytes_eq, writeWord]
  unfold saveCfgRest
  rw [hbytes, hbytes]
  apply bothOrders_chk (bothOrders_writeWord Reg.cfgRecChksum 0)
  apply bothOrders_chk (bothOrders_writeWord Reg.hostCmdParamResult (hbiVal .big n))
  apply bothOrders_chk (bothOrders_twMboxAcquire h)
  apply (bothOrders_twChkDevBootRomMode h).bind
  intro ret
  apply Prog.Alike.ite
  · apply bothOrders_chk (bothOrders_twInitCheckFlash h)
    exact bothOrders_chk (bothOrders_writeWord _ _) (bothOrders_saveCfgNotify _)
  · exact bothOrders_chk (bothOrders_writeWord _ _) (bothOrders_saveCfgNotify _)

def countRead (answer : LogRecord → LogOp → LogAnswer) (done : LogRecord) : LogRecord :=
  done ++ [(.read Reg.fwrCount, answer done (.read Reg.fwrCount))]

/-- The driver compares the swapped image number with the number of images as it is. -/
theorem saveCfg_run (e : DevEndian) {n : Word} (hn : n ≠ 0) :
    (seenBy e (twSaveCfgToFlash (.inOrder h e) n)).run answer done
      = if (answer done (.read Reg.fwrCount)).status ≠ .ok then (countRead answer done, .internalErr)
        else if hbiVal e n > (answer done (.read Reg.fwrCount)).value then
          (countRead answer done, .invalidArg)
        else (seenBy e (saveCfgRest (.inOrder h e) (hbiVal e n))).run answer (countRead answer done) := by
  rw [twSaveCfgToFlash_eq, if_neg hn, seenBy_bind, seenBy_readWord]
  simp only [Prog.ask_bind, Prog.pure_bind, Prog.run_ask, seenRead]
  by_cases hok : (answer done (.read Reg.fwrCount)).status = .ok
  · simp only [hok, ne_eq, not_true_eq_false, if_false, TwDev.inOrder_endianness, hbiVal_hbiVal]
    by_cases habove : hbiVal e n > (answer done (.read Reg.fwrCount)).value
    · simp only [if_pos habove]
      rfl
    · simp only [if_neg habove]
      rfl
  · simp only [hok, ne_eq, not_false_eq_true, if_true]
    rfl

theorem saveCfg_same {n : Word} (hsafe : CommandSafe answer h done (.saveCfgToFlash n)) :
    callRun answer h .big done (.setCommand (.saveCfgToFlash n))
      = callRun answer h .little done (.setCommand (.saveCfgToFlash n)) := by
  rw [callRun_plain (p := twSaveCfgToFlash (.inOrder h .big) n) rfl,
    callRun_plain (p := twSaveCfgToFlash (.inOrder h .little) n) rfl]
  by_cases hn : n = 0
  · rw [twSaveCfgToFlash_eq, twSaveCfgToFlash_eq, if_pos hn, if_pos hn]
    rfl
  · have hrest : seenBy .big (saveCfgRest (.inOrder h .big) (hbiVal .big n))
        = seenBy .little (saveCfgRest (.inOrder h .little) n) := bothOrders_saveCfgRest n
    have hrun : (seenBy .big (twSaveCfgToFlash (.inOrder h .big) n)).run answer done
        = (seenBy .little (twSaveCfgToFlash (.inOrder h .little) n)).run answer done := by
      rw [saveCfg_run .big hn, saveCfg_run .little hn, hrest, hbiVal_little]
      rcases hsafe with hzero | hfailed | hiff
      · exact absurd hzero hn
      · rw [if_pos hfailed, if_pos hfailed]
      · simp only [hiff]
    rw [hrun]

theorem saveCfg_told (e : DevEndian) {n : Word} (hn : n ≠ 0)
    (hok : (answer done (.read Reg.fwrCount)).status = .ok) :
    toldOps (((seenBy e (twSaveCfgToFlash (.inOrder h e) n)).run answer done).1.drop done.length) = []
      ↔ hbiVal e n > (answer done (.read Reg.fwrCount)).value := by
  rw [saveCfg_run e hn, if_neg (not_not.2 hok)]
  by_cases habove : hbiVal e n > (answer done (.read Reg.fwrCount)).value
  · rw [if_pos habove]
    apply iff_of_true _ habove
    rw [countRead, List.drop_left]
    rfl
  · rw [if_neg habove]
    apply iff_of_false _ habove
    have hstarts : (seenBy e (saveCfgRest (.inOrder h e) (hbiVal e n))).Starts
        (.write Reg.cfgRecChksum (hbiVal e 0)) := by
      unfold saveCfgRest
      rw [seenBy_bind, seenBy_writeWord]
      exact (Prog.starts_ask _ _).bind _
    obtain ⟨more, hmore⟩ := hstarts.run answer (countRead answer done)
    rw [hmore, countRead, List.append_assoc, List.drop_left, toldOps_append]
    intro hnone
    have hwrite : LogOp.write Reg.cfgRecChksum (hbiVal e 0) ∈ ([] : List LogOp) := by
      rw [← hnone]
      exact List.mem_append_right _ (List.mem_cons_self)
    cases hwrite

theorem saveCfg_differs {n : Word} (hnot_safe : ¬ CommandSafe answer h done (.saveCfgToFlash n)) :
    entry answer h .big done (.setCommand (.saveCfgToFlash n))
      ≠ entry answer h .little done (.setCommand (.saveCfgToFlash n)) := by
  obtain ⟨hn, hrest⟩ := not_or.1 hnot_safe
  obtain ⟨hread, hiff⟩ := not_or.1 hrest
  have hok := not_not.1 hread
  rw [entry_plain (p := twSaveCfgToFlash (.inOrder h .big) n) rfl,
    entry_plain (p := twSaveCfgToFlash (.inOrder h .little) n) rfl]
  intro heq
  have htold := (Prod.mk.inj heq).1
  apply hiff
  rw [← saveCfg_told (h := h) .big hn hok, htold]
  exact saveCfg_told .little hn hok

/-! #### The other calls -/

theorem bothOrders_twBootWrite (args : Option (Option (List Byte))) :
    BothOrders (twBootWrite (.inOrder h .big) args) (twBootWrite (.inOrder h .little) args) := by
  match args with
  | none => exact Prog.alike_pure _
  | some none => exact Prog.alike_pure _
  | some (some data) =>
      apply bothOrders_chk (bothOrders_enterBootRom h)
      exact (bothOrders_portWrite data).bind fun _ => Prog.alike_pure _

theorem bothOrders_twConfigWrite (args : Option (Option (List Byte))) :
    BothOrders (twConfigWrite args) (twConfigWrite args) := by
  match args with
  | none => exact Prog.alike_pure _
  | some none => exact Prog.alike_pure _
  | some (some data) => exact (bothOrders_portWrite data).bind fun _ => Prog.alike_pure _

theorem bothOrders_twBootConclude :
    BothOrders (twBootConclude (.inOrder h .big)) (twBootConclude (.inOrder h .little)) :=
  bothOrders_chk (bothOrders_twWrCmdreg h _) (bothOrders_decoded bootConcludeStatus (by decide))

theorem bothOrders_twStartFwrFromRam :
    BothOrders (twStartFwrFromRam (.inOrder h .big)) (twStartFwrFromRam (.inOrder h .little)) := by
  apply (bothOrders_twChkDevBootRomMode h).bind
  intro ret
  apply Prog.Alike.ite (Prog.alike_pure _)
  apply Prog.Alike.ite (Prog.alike_pure _)
  exact bothOrders_chk (bothOrders_twWrCmdreg h _) (bothOrders_decoded plainStatus (by decide))

theorem bothOrders_twSleep : BothOrders (twSleep (.inOrder h .big)) (twSleep (.inOrder h .little)) :=
  bothOrders_chk (bothOrders_twMboxAcquire h) <| bothOrders_chk (bothOrders_writeWord _ _) (bothOrders_writeWord _ _)

theorem bothOrders_reset (mode : HbiRstMode) :
    BothOrders (internalHbiReset (.inOrder h .big) mode) (internalHbiReset (.inOrder h .little) mode) := by
  cases mode with
  | por => exact bothOrders_writeWord Reg.clkStatus (clkStatusHwrst ||| clkStatusPor)
  | unsupported code => exact Prog.alike_pure _

theorem wake_starts (e : DevEndian) :
    (seenBy e (deviceCall (.inOrder h e) .wake)).Starts
      (.port (hostBytes (hbiVal e (hbiConfigIfCmd ||| hbiConfigWake)))) := ⟨_, rfl⟩

theorem wake_differs :
    entry answer h .big done .wake ≠ entry answer h .little done .wake := by
  obtain ⟨more, hbig⟩ := (wake_starts (h := h) .big).run answer done
  obtain ⟨more', hlittle⟩ := (wake_starts (h := h) .little).run answer done
  have hword : LogOp.port (hostBytes (hbiVal .big (hbiConfigIfCmd ||| hbiConfigWake)))
      ≠ .port (hostBytes (hbiVal .little (hbiConfigIfCmd ||| hbiConfigWake))) := by decide
  intro heq
  exact toldOps_ne hbig hlittle (List.append_nil done).symm rfl rfl hword (Prod.mk.inj heq).1

theorem command_same {cmd : Command} (hsafe : CommandSafe answer h done cmd) :
    callRun answer h .big done (.setCommand cmd) = callRun answer h .little done (.setCommand cmd) := by
  cases cmd with
  | loadFwrFromHost args => exact callRun_agree (bothOrders_plain (bothOrders_twBootWrite args))
  | loadCfgrecFromHost args => exact callRun_agree (bothOrders_plain (bothOrders_twConfigWrite args))
  | loadFwrComplete => exact callRun_agree (bothOrders_plain bothOrders_twBootConclude)
  | loadFwrcfgFromFlash n => exact load_same hsafe
  | saveFwrcfgToFlash pVal => exact saveFwrcfg_same hsafe
  | eraseWholeFlash => exact eraseFlash_same hsafe
  | eraseFwrcfgFromFlash args =>
      cases args with
      | none => exact callRun_agree (bothOrders_plain (Prog.alike_pure _))
      | some n => exact erase_same hsafe
  | startFwr => exact callRun_agree (bothOrders_plain bothOrders_twStartFwrFromRam)
  | saveCfgToFlash n => exact saveCfg_same hsafe
  | unsupported code => exact callRun_agree (Prog.alike_pure _)

theorem call_same {call : DeviceCall} (hsafe : CallSafe answer h done call) :
    callRun answer h .big done call = callRun answer h .little done call := by
  cases call with
  | setCommand cmd => exact command_same hsafe
  | sleep => exact callRun_agree (bothOrders_plain bothOrders_twSleep)
  | wake => exact hsafe.elim
  | reset mode => exact callRun_agree (bothOrders_plain (bothOrders_reset mode))

theorem command_differs {cmd : Command} (hnot_safe : ¬ CommandSafe answer h done cmd) :
    entry answer h .big done (.setCommand cmd) ≠ entry answer h .little done (.setCommand cmd) := by
  cases cmd with
  | loadFwrFromHost args => exact absurd trivial hnot_safe
  | loadCfgrecFromHost args => exact absurd trivial hnot_safe
  | loadFwrComplete => exact absurd trivial hnot_safe
  | loadFwrcfgFromFlash n => exact load_differs hnot_safe
  | saveFwrcfgToFlash pVal => exact saveFwrcfg_differs hnot_safe
  | eraseWholeFlash => exact eraseFlash_differs hnot_safe
  | eraseFwrcfgFromFlash args =>
      cases args with
      | none => exact absurd trivial hnot_safe
      | some n => exact erase_differs hnot_safe
  | startFwr => exact absurd trivial hnot_safe
  | saveCfgToFlash n => exact saveCfg_differs hnot_safe
  | unsupported code => exact absurd trivial hnot_safe

theorem call_differs {call : DeviceCall} (hnot_safe : ¬ CallSafe answer h done call) :
    entry answer h .big done call ≠ entry answer h .little done call := by
  cases call with
  | setCommand cmd => exact command_differs hnot_safe
  | sleep => exact absurd trivial hnot_safe
  | wake => exact wake_differs
  | reset mode => exact absurd trivial hnot_safe

end Commands

/-! ### Runs of calls -/

/-- From any state, the two runs tell the device the same and return the same exactly when each call is
the same in the state it is made in. -/
theorem trace_iff (answer : LogRecord → LogOp → LogAnswer) (h : Nat) (done : LogRecord)
    (calls : List DeviceCall) :
    trace answer h .big done calls = trace answer h .little done calls
      ↔ CallsSafe answer h done calls := by
  induction calls generalizing done with
  | nil => exact iff_of_true rfl trivial
  | cons call calls ih =>
      have hcons : ∀ e, trace answer h e done (call :: calls)
          = entry answer h e done call :: trace answer h e (callRun answer h e done call).1 calls :=
        fun _ => rfl
      rw [hcons, hcons]
      constructor
      · intro heq
        obtain ⟨hentry, hrest⟩ := List.cons.inj heq
        have hsafe : CallSafe answer h done call := by
          by_contra hnot_safe
          exact call_differs hnot_safe hentry
        rw [call_same hsafe] at hrest
        exact ⟨hsafe, (ih _).1 hrest⟩
      · intro hboth
        obtain ⟨hsafe, hrest⟩ := hboth
        have hentry : entry answer h .big done call = entry answer h .little done call := by
          rw [entry, entry, call_same hsafe]
        rw [hentry, call_same hsafe, (ih _).2 hrest]

/-- For every sequence of calls on a logical device, the run configured big-endian and the one
configured little-endian tell the device the same and return the same exactly when no call wakes it and
each command is the same in both orders where it is made. -/
theorem byteOrders_agree_iff (answer : LogRecord → LogOp → LogAnswer) (h : Nat)
    (calls : List DeviceCall) :
    trace answer h .big [] calls = trace answer h .little [] calls ↔ CallsSafe answer h [] calls :=
  trace_iff answer h [] calls

def quietDevice (_ : LogRecord) (_ : LogOp) : LogAnswer := ⟨.ok, 0⟩

/-- Waking the device puts its transport words on the bus in the device's order. -/
theorem wake_byteOrders :
    trace quietDevice 5 .big [] [.wake]
        = [([.port [0xFD, 0x80], .port [0xFD, 0x00]], .success, none)] ∧
      trace quietDevice 5 .little [] [.wake]
        = [([.port [0x80, 0xFD], .port [0x00, 0xFD]], .success, none)] ∧
      trace quietDevice 5 .big [] [.wake] ≠ trace quietDevice 5 .little [] [.wake] := by
  decide

end VprocSdk
