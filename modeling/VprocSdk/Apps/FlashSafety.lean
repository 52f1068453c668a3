import VprocSdk.Apps.FlashScript

/-!
# The order of commands the script keeps

What the script has seen of the device is a function of its exchanges so far: whether the firmware runs,
whether a command or a reboot has not been seen to end, which command is written and not started. The
script writes nothing while it waits, and it starts a command of the boot ROM only with the firmware seen to
be stopped and a command of the firmware only with it seen to run. The boot ROM is told to save only with the
checksum of the configuration cleared. The firmware saves the configuration itself, and the script clears no
checksum before that.

It relies on one thing: a firmware that is stopped does not start until it is told to.
-/

namespace VprocSdk

open Lib

inductive Wait
  | none | command | reboot
  deriving DecidableEq, Repr

/-- What the script has seen of the device: the state of the firmware, what it waits for, the command that
is written and not started, and whether nothing was written to memory since the checksum was cleared. -/
structure DeviceView where
  running : Option Bool
  wait : Wait
  armed : Option (List Byte)
  cleared : Bool
  deriving DecidableEq, Repr

namespace DeviceView

def unseen : DeviceView := ⟨.none, .none, .none, false⟩

def wrote (v : DeviceView) (reg : RegAddr) (data : List Byte) : DeviceView :=
  if reg = 0x014 then { v with running := none, wait := .reboot, armed := none }
  else if reg = 0x032 then { v with armed := some data }
  else if reg = 0x006 then
    { v with
      running := if v.armed = some [0x00, 0x08] ∨ data = [0x00, 0x02] then none else v.running
      wait := .command
      armed := none }
  else if reg = 0x034 then v
  else { v with cleared := reg = 0x01F2 ∧ data = [0x00, 0x00] }

def saw (v : DeviceView) (reg : RegAddr) (value : Nat) : DeviceView :=
  if reg = 0x028 then { v with running := some (value &&& 0x8000 ≠ 0) }
  else if reg = 0x032 ∧ value ≠ 0xFFFF ∧ v.wait = .command then { v with wait := .none }
  else if reg = 0x034 ∧ value = 0xD3D3 ∧ v.wait = .reboot then
    { v with wait := .none, running := some false }
  else v

end DeviceView

def DeviceView.after (v : DeviceView) : PyAsk → PyReply → DeviceView
  | .hbi (.read _ reg length), reply => v.saw reg (reply.number length)
  | .hbi (.setCommand _ _), _ => { v with cleared := false }
  | .write _ reg data, _ => v.wrote reg data
  | _, _ => v

/-- A command of the firmware, and not of the boot ROM. -/
def isAppCommand (cmd : List Byte) : Bool := cmd.head? = some 0x80

/-- The writes that are in order: none while the script waits, a command that the firmware or the boot ROM
is there to take, and a start of the one that was written. -/
structure DeviceView.MayWrite (v : DeviceView) (reg : RegAddr) (data : List Byte) : Prop where
  idle : v.wait = .none
  command : reg = 0x032 → v.running = some (isAppCommand data)
  start : reg = 0x006 →
    data = [0x00, 0x02] ∧ v.armed = none ∨
    data = [0x00, 0x04] ∧ v.running = some true ∧ v.armed = some [0x80, 0x02] ∨
    data = [0x00, 0x01] ∧ v.running = some false ∧ ∃ cmd, v.armed = some [0x00, cmd] ∧
      (cmd = 0x04 ∨ cmd = 0x07 → v.cleared = true)

/-- What is in order. A block of firmware goes to the boot ROM only. -/
def DeviceView.May (v : DeviceView) : PyAsk → Prop
  | .write _ reg data => v.MayWrite reg data
  | .hbi (.setCommand _ _) => v.wait = .none ∧ v.running = some false
  | _ => True

/-- A firmware that was seen to be stopped is not seen to run. -/
def DeviceView.Relies (v : DeviceView) : PyAsk → PyReply → Prop
  | .hbi (.read _ reg length), reply =>
      reg = 0x028 → v.running = some false → reply.number length &&& 0x8000 = 0
  | _, _ => True

def flashContract : Prog.Contract PyAsk PyReply DeviceView where
  may := DeviceView.May
  relies := DeviceView.Relies
  after := DeviceView.after

/-! ### Single questions -/

section Questions

variable {α : Type} {v : DeviceView} {handle : Nat}

theorem obeys_pyAsk {ask : PyAsk} (hmay : v.May ask) {post : PyReply → DeviceView → Prop}
    (hpost : ∀ reply, v.Relies ask reply → post reply (v.after ask reply)) :
    (pyAsk ask).run.Obeys flashContract v (Prog.onOk post) :=
  ⟨hmay, fun reply hrelies => Prog.onOk_ok.2 (hpost reply hrelies)⟩

theorem obeys_pyRead {reg : RegAddr} {length : Nat} {post : Nat → DeviceView → Prop}
    (hpost : ∀ value : Nat, (reg = 0x028 → v.running = some false → value &&& 0x8000 = 0) →
      post value (v.saw reg value)) :
    (pyRead handle reg length).run.Obeys flashContract v (Prog.onOk post) := by
  have hmay : v.May (.hbi (.read handle reg length)) := trivial
  have hask : (pyAsk (.hbi (.read handle reg length))).run.Obeys flashContract v
      (Prog.onOk fun reply v' => post (reply.number length) v') :=
    obeys_pyAsk hmay fun reply hrelies => hpost _ hrelies
  exact hask.andThen fun reply v' h => Prog.obeys_return h

theorem obeys_pyWrite {reg : RegAddr} {data : List Byte} (hmay : v.MayWrite reg data) :
    (pyWrite handle reg data).run.Obeys flashContract v
      (Prog.onOk fun _ v' => v' = v.wrote reg data) := by
  have hmay' : v.May (.write handle reg data) := hmay
  have hask : (pyAsk (.write handle reg data)).run.Obeys flashContract v
      (Prog.onOk fun _ v' => v' = v.wrote reg data) := obeys_pyAsk hmay' fun _ _ => rfl
  exact hask.andThen fun _ v' h => Prog.obeys_return h

theorem obeys_isFirmwareRunning :
    (pyCall (isFirmwareRunning handle)).run.Obeys flashContract v (Prog.onOk fun running v' =>
      v' = { v with running := some running } ∧ (v.running = some false → running = false)) := by
  refine ⟨trivial, fun reply hrelies => Prog.onOk_ok.2 ⟨rfl, fun hstopped => ?_⟩⟩
  have hclear := hrelies rfl hstopped
  exact decide_eq_false (not_not.2 hclear)

end Questions

/-! ### The waits -/

section Waits

variable {v : DeviceView} {handle : Nat}

theorem saw_command (hwait : v.wait = .command) (value : Nat) :
    v.saw 0x032 value = if value = 0xFFFF then v else { v with wait := .none } := by
  by_cases hbusy : value = 0xFFFF
  · simp [DeviceView.saw, hbusy]
  · simp [DeviceView.saw, hbusy, hwait]

theorem saw_reboot (hwait : v.wait = .reboot) (value : Nat) :
    v.saw 0x034 value
      = if value = 0xD3D3 then { v with wait := .none, running := some false } else v := by
  by_cases hdone : value = 0xD3D3
  · simp [DeviceView.saw, hdone, hwait]
  · simp [DeviceView.saw, hdone]

theorem obeys_unlessLate {seconds : Nat} {msg : String} {rest : PyScript Unit}
    {post : Unit → DeviceView → Prop} (hrest : rest.run.Obeys flashContract v (Prog.onOk post)) :
    (do
      if (← pyAsk (.past seconds)).late then pyRaise msg
      rest : PyScript Unit).run.Obeys flashContract v (Prog.onOk post) := by
  have hmay : v.May (.past seconds) := trivial
  have hask : (pyAsk (.past seconds)).run.Obeys flashContract v (Prog.onOk fun _ v' => v' = v) :=
    obeys_pyAsk hmay fun _ _ => rfl
  refine hask.andThen fun reply v' h => ?_
  subst h
  by_cases hlate : reply.late = true
  · rw [if_pos hlate]
    exact Prog.obeys_raise
  · rw [if_neg hlate]
    exact hrest

/-- The wait for a command ends with none to wait for. -/
theorem obeys_busySpinWait (hwait : v.wait = .command) (fuel : Nat) :
    (busySpinWait handle fuel).run.Obeys flashContract v
      (Prog.onOk fun _ v' => v' = { v with wait := .none }) := by
  induction fuel with
  | zero => exact Prog.obeys_raise
  | succ fuel ih =>
      have hread : (pyRead handle 0x032 2).run.Obeys flashContract v (Prog.onOk fun value v' =>
          v' = if value = 0xFFFF then v else { v with wait := .none }) :=
        obeys_pyRead fun value _ => saw_command hwait value
      refine hread.andThen fun value v' h => ?_
      subst h
      by_cases hbusy : value = 0xFFFF
      · rw [if_pos hbusy, if_pos hbusy]
        exact obeys_unlessLate ih
      · rw [if_neg hbusy, if_neg hbusy]
        exact Prog.obeys_return rfl

/-- The wait for the reboot ends with the firmware seen to be stopped. -/
theorem obeys_stopSpinWait (hwait : v.wait = .reboot) (fuel : Nat) :
    (stopSpinWait handle fuel).run.Obeys flashContract v
      (Prog.onOk fun _ v' => v' = { v with wait := .none, running := some false }) := by
  induction fuel with
  | zero => exact Prog.obeys_raise
  | succ fuel ih =>
      have hread : (pyRead handle 0x034 2).run.Obeys flashContract v (Prog.onOk fun value v' =>
          v' = if value = 0xD3D3 then { v with wait := .none, running := some false } else v) :=
        obeys_pyRead fun value _ => saw_reboot hwait value
      refine hread.andThen fun value v' h => ?_
      subst h
      by_cases hdone : value = 0xD3D3
      · rw [if_pos hdone, if_neg (not_not.2 hdone)]
        exact Prog.obeys_return rfl
      · rw [if_neg hdone, if_pos hdone]
        exact obeys_unlessLate ih

end Waits

/-! ### The functions -/

/-- The script waits for nothing and no command is written. -/
def DeviceView.resting (running : Option Bool) (cleared : Bool) : DeviceView :=
  ⟨running, .none, none, cleared⟩

section Steps

variable {α : Type} {v : DeviceView} {handle fuel : Nat} {post : α → DeviceView → Prop}

theorem write_then {reg : RegAddr} {data : List Byte} {rest : PyScript α} (hmay : v.MayWrite reg data)
    (h : rest.run.Obeys flashContract (v.wrote reg data) (Prog.onOk post)) :
    (pyWrite handle reg data >>= fun _ => rest).run.Obeys flashContract v (Prog.onOk post) := by
  refine (obeys_pyWrite hmay).andThen fun _ v' hv => ?_
  subst hv
  exact h

theorem writeIndex_then {reg : RegAddr} {index : Int} {rest : PyScript α}
    (hmay : ∀ data, v.MayWrite reg data)
    (h : ∀ data, rest.run.Obeys flashContract (v.wrote reg data) (Prog.onOk post)) :
    (pyWriteIndex handle reg index >>= fun _ => rest).run.Obeys flashContract v (Prog.onOk post) := by
  unfold pyWriteIndex
  split
  · exact write_then (hmay _) (h _)
  · exact Prog.obeys_raise

theorem spin_then {rest : PyScript α} (hwait : v.wait = .command)
    (h : rest.run.Obeys flashContract { v with wait := .none } (Prog.onOk post)) :
    (busySpinWait handle fuel >>= fun _ => rest).run.Obeys flashContract v (Prog.onOk post) := by
  refine (obeys_busySpinWait hwait fuel).andThen fun _ v' hv => ?_
  subst hv
  exact h

theorem running_then {rest : Bool → PyScript α}
    (h : ∀ running, (v.running = some false → running = false) →
      (rest running).run.Obeys flashContract { v with running := some running } (Prog.onOk post)) :
    (pyCall (isFirmwareRunning handle) >>= rest).run.Obeys flashContract v (Prog.onOk post) := by
  refine obeys_isFirmwareRunning.andThen fun running v' hv => ?_
  obtain ⟨rfl, hstays⟩ := hv
  exact h running hstays

/-- A function that refuses a firmware that runs goes on with one that is seen to be stopped. -/
theorem stopped_then {msg : String} {rest : PyScript α}
    (h : rest.run.Obeys flashContract { v with running := some false } (Prog.onOk post)) :
    (do
      if ← pyCall (isFirmwareRunning handle) then pyRaise msg
      rest : PyScript α).run.Obeys flashContract v (Prog.onOk post) := by
  refine running_then fun running _ => ?_
  cases running with
  | true => exact Prog.obeys_raise
  | false => exact h

theorem result_then {rest : Nat → PyScript α} (hwait : v.wait = .none)
    (h : ∀ status, (rest status).run.Obeys flashContract v (Prog.onOk post)) :
    (flashResult handle >>= rest).run.Obeys flashContract v (Prog.onOk post) := by
  have hread : (pyRead handle 0x034 2).run.Obeys flashContract v (Prog.onOk fun _ v' => v' = v) := by
    refine obeys_pyRead fun value _ => ?_
    simp [DeviceView.saw, hwait]
  have hresult : (flashResult handle).run.Obeys flashContract v (Prog.onOk fun _ v' => v' = v) :=
    hread.andThen fun _ _ hv => Prog.obeys_return hv
  refine hresult.andThen fun status v' hv => ?_
  subst hv
  exact h status

end Steps

section Functions

variable {handle : Nat} {running : Option Bool} {cleared : Bool} (fuel : Nat)

theorem mayCommand {app : Bool} {data : List Byte} (h : isAppCommand data = app) :
    (DeviceView.resting (some app) cleared).MayWrite 0x032 data :=
  ⟨rfl, fun _ => congrArg some h.symm, fun h => absurd h (by decide)⟩

theorem mayStart {cmd : Byte} (h : cmd = 0x04 ∨ cmd = 0x07 → cleared = true) :
    (⟨some false, .none, some [0x00, cmd], cleared⟩ : DeviceView).MayWrite 0x006 [0x00, 0x01] :=
  ⟨rfl, fun h => absurd h (by decide), fun _ => .inr (.inr ⟨rfl, rfl, cmd, rfl, h⟩)⟩

theorem mayWrite_other {v : DeviceView} {reg : RegAddr} {data : List Byte} (hwait : v.wait = .none)
    (hcommand : reg ≠ 0x032) (hstart : reg ≠ 0x006) : v.MayWrite reg data :=
  ⟨hwait, fun h => absurd h hcommand, fun h => absurd h hstart⟩

theorem obeys_initFlash (skipError : Bool) :
    (initFlash fuel handle skipError).run.Obeys flashContract (.resting running cleared)
      (Prog.onOk fun _ v' => v' = .resting (some false) cleared) := by
  refine stopped_then (write_then (mayCommand rfl) (write_then (mayStart fun h => absurd h (by decide))
    (spin_then rfl (result_then rfl fun status => ?_))))
  by_cases hfailed : status ≠ 0
  · rw [if_pos hfailed]
    cases skipError with
    | true => exact Prog.obeys_return rfl
    | false => exact Prog.obeys_raise
  · rw [if_neg hfailed]
    exact Prog.obeys_return rfl

theorem obeys_unlessFailed {α : Type} {v : DeviceView} {status : Nat} {msg : String} {rest : PyScript α}
    {post : α → DeviceView → Prop} (h : rest.run.Obeys flashContract v (Prog.onOk post)) :
    (do
      if status ≠ 0 then pyRaise msg
      rest : PyScript α).run.Obeys flashContract v (Prog.onOk post) := by
  by_cases hfailed : status ≠ 0
  · rw [if_pos hfailed]
    exact Prog.obeys_raise
  · rw [if_neg hfailed]
    exact h

theorem obeys_eraseFlash :
    (eraseFlash fuel handle).run.Obeys flashContract (.resting running cleared)
      (Prog.onOk fun _ v' => v' = .resting (some false) cleared) := by
  refine stopped_then ((obeys_initFlash fuel false).andThen fun _ v' hv => ?_)
  subst hv
  refine write_then (mayCommand rfl) (write_then (mayWrite_other rfl (by decide) (by decide))
    (write_then (mayStart fun h => absurd h (by decide)) (spin_then rfl (result_then rfl fun status => ?_))))
  exact obeys_unlessFailed (Prog.obeys_return rfl)

theorem obeys_loadFirmwareFromFlash (firmwareIndex : Int) :
    (loadFirmwareFromFlash fuel handle firmwareIndex).run.Obeys flashContract (.resting running cleared)
      (Prog.onOk fun _ v' => v' = .resting (some false) cleared) := by
  refine stopped_then (write_then (mayCommand rfl)
    (writeIndex_then (fun _ => mayWrite_other rfl (by decide) (by decide)) fun _ =>
      write_then (mayStart fun h => absurd h (by decide)) (spin_then rfl (result_then rfl fun status => ?_))))
  exact obeys_unlessFailed (Prog.obeys_return rfl)

theorem obeys_stopFirmware :
    (stopFirmware fuel handle).run.Obeys flashContract (.resting running cleared)
      (Prog.onOk fun _ v' => v' = .resting (some false) cleared) :=
  write_then (mayWrite_other rfl (by decide) (by decide)) (obeys_stopSpinWait rfl fuel)

theorem obeys_softReset :
    (softReset fuel handle).run.Obeys flashContract (.resting running cleared)
      (Prog.onOk fun _ v' => v' = .resting none cleared) := by
  refine write_then ⟨rfl, fun h => absurd h (by decide), fun _ => .inl ⟨rfl, rfl⟩⟩ ?_
  exact obeys_busySpinWait rfl fuel

theorem obeys_startFirmware (skipError : Bool) :
    (startFirmware fuel handle skipError).run.Obeys flashContract (.resting (some false) cleared)
      (Prog.onOk fun _ v' => ∃ running, v' = .resting running cleared) := by
  refine write_then (mayCommand rfl) (write_then (mayStart fun h => absurd h (by decide))
    (spin_then rfl (running_then fun running _ => ?_)))
  cases running with
  | true => exact Prog.obeys_return ⟨_, rfl⟩
  | false =>
      cases skipError with
      | true => exact Prog.obeys_return ⟨_, rfl⟩
      | false => exact Prog.obeys_raise

theorem obeys_saveFirmwareToFlash :
    (saveFirmwareToFlash fuel handle).run.Obeys flashContract (.resting (some false) cleared)
      (Prog.onOk fun _ v' => v' = .resting (some false) true) := by
  refine write_then (mayWrite_other rfl (by decide) (by decide)) (write_then (mayCommand rfl)
    (write_then (mayStart fun _ => rfl) (spin_then rfl (result_then rfl fun status => ?_))))
  refine obeys_unlessFailed (obeys_pyRead fun value _ => ?_)
  rfl

/-- The configuration is saved by the firmware if it runs and by the boot ROM if it does not. -/
theorem obeys_saveConfigToFlash (flashSlot : Int) :
    (saveConfigToFlash fuel handle flashSlot).run.Obeys flashContract (.resting running cleared)
      (Prog.onOk fun _ v' => ∃ running' cleared', v' = .resting (some running') cleared' ∧
        (running = some false → running' = false)) := by
  refine running_then fun running' hstays => ?_
  cases running' with
  | true =>
      refine write_then (mayCommand rfl)
        (writeIndex_then (fun _ => mayWrite_other rfl (by decide) (by decide)) fun _ => write_then ?_
          (spin_then rfl (result_then rfl fun status => obeys_unlessFailed (Prog.obeys_return
            ⟨true, _, rfl, hstays⟩))))
      exact ⟨rfl, fun h => absurd h (by decide), fun _ => .inr (.inl ⟨rfl, rfl, rfl⟩)⟩
  | false =>
      exact write_then (mayWrite_other rfl (by decide) (by decide)) (write_then (mayCommand rfl)
        (writeIndex_then (fun _ => mayWrite_other rfl (by decide) (by decide)) fun _ =>
          write_then (mayStart fun _ => rfl) (spin_then rfl (result_then rfl fun status =>
            obeys_unlessFailed (Prog.obeys_return ⟨false, _, rfl, fun _ => rfl⟩)))))

end Functions

/-! ### Loading a firmware and a configuration -/

theorem obeys_hbiCommands {α : Type} {p : Loader α} (hp : p.Asks IsHbiCommand) {v : DeviceView}
    (hv : ∃ cleared, v = .resting (some false) cleared) :
    (pyCall p).run.Obeys flashContract v
      (Prog.onOk fun _ v' => ∃ cleared, v' = .resting (some false) cleared) := by
  induction p generalizing v with
  | pure a => exact Prog.onOk_ok.2 hv
  | ask q next ih =>
      obtain ⟨⟨handle, cmd, rfl⟩, hnext⟩ := hp
      obtain ⟨cleared, rfl⟩ := hv
      exact ⟨⟨rfl, rfl⟩, fun reply _ => ih _ (hnext _) ⟨false, rfl⟩⟩

theorem obeys_scriptLoadFirmware {handle : Nat} {running : Option Bool} {cleared : Bool}
    (behind : Nat → Nat → Byte) (firmwareBuf : List Byte) :
    (scriptLoadFirmware behind handle firmwareBuf).run.Obeys flashContract (.resting running cleared)
      (Prog.onOk fun _ v' => ∃ cleared', v' = .resting (some false) cleared') := by
  have hload : (pyCall (loadFirmware behind handle firmwareBuf)).run.Obeys flashContract
      (.resting running cleared) (Prog.onOk fun result v' =>
        (∃ e, result = .error e) ∨ ∃ cleared', v' = .resting (some false) cleared') := by
    rw [loadFirmware, pyCall_bind]
    refine running_then fun running _ => ?_
    cases running with
    | true => exact Prog.obeys_return (.inl ⟨_, rfl⟩)
    | false =>
        rw [if_neg Bool.false_ne_true]
        cases internalHbiGetHdr (listMem firmwareBuf) firmwareBuf.length with
        | error status => exact Prog.obeys_return (.inl ⟨_, rfl⟩)
        | ok header =>
            dsimp only
            split
            · exact Prog.obeys_return (.inl ⟨_, rfl⟩)
            · split
              · exact Prog.obeys_return (.inl ⟨_, rfl⟩)
              · refine (obeys_hbiCommands (asks_loadFirmwareLoop _ _ _ _ _ _) ⟨cleared, rfl⟩).mono ?_
                intro result v' h result' hresult
                exact .inr (h result' hresult)
  refine hload.andThen fun result v' h => ?_
  cases result with
  | error e => exact Prog.obeys_raise
  | ok done =>
      rcases h with ⟨e, he⟩ | h
      · cases he
      · exact Prog.obeys_return h

/-- The buffer of `LoadConfigCr2` lies behind the control registers once it has an address. -/
def Cr2Vars.Harmless (st : Cr2Vars) : Prop := st.prevAddr ≠ 0 → 0x200 ≤ st.currentAddr

section Config

variable {handle : Nat} {running : Option Bool} {cleared : Bool} {st : Cr2Vars}

theorem obeys_shipTo (h : 0x200 ≤ st.currentAddr) :
    (st.shipTo handle).run.Obeys flashContract (.resting running cleared)
      (Prog.onOk fun st' v' => st' = { st with dataBuffer := [], blockSize := 0 } ∧
        ∃ cleared', v' = .resting running cleared') := by
  unfold Cr2Vars.shipTo
  split
  next hrange =>
    have hreg : ∀ reg : RegAddr, reg.toNat < 0x200 → BitVec.ofInt 16 st.currentAddr ≠ reg := by
      intro reg hlt heq
      rw [← heq, BitVec.toNat_ofInt] at hlt
      omega
    refine write_then (mayWrite_other rfl (hreg _ (by decide)) (hreg _ (by decide)))
      (Prog.obeys_return ⟨rfl, ?_⟩)
    rw [DeviceView.wrote, if_neg (hreg _ (by decide)), if_neg (hreg _ (by decide)),
      if_neg (hreg _ (by decide)), if_neg (hreg _ (by decide))]
    exact ⟨_, rfl⟩
  next => exact Prog.obeys_raise

theorem obeys_readyFor {addr : Int} (haddr : 0x200 ≤ addr) (hst : st.Harmless) :
    (st.readyFor handle addr).run.Obeys flashContract (.resting running cleared)
      (Prog.onOk fun st' v' => 0x200 ≤ st'.currentAddr ∧ ∃ cleared', v' = .resting running cleared') := by
  unfold Cr2Vars.readyFor
  by_cases hstart : st.prevAddr = 0
  · have hnext : ¬ addr ≠ addr - 2 + 2 := by omega
    simp only [if_pos hstart, if_neg hnext]
    exact Prog.obeys_return ⟨haddr, cleared, rfl⟩
  · simp only [if_neg hstart]
    by_cases hgap : addr ≠ st.prevAddr + 2
    · rw [if_pos hgap]
      refine (obeys_shipTo (hst hstart)).andThen fun st' v' h => ?_
      obtain ⟨rfl, cleared', rfl⟩ := h
      exact Prog.obeys_return ⟨haddr, cleared', rfl⟩
    · rw [if_neg hgap]
      exact Prog.obeys_return ⟨hst hstart, cleared, rfl⟩

theorem obeys_append {addr data : Int} (hst : 0x200 ≤ st.currentAddr) :
    (st.append handle addr data).run.Obeys flashContract (.resting running cleared)
      (Prog.onOk fun st' v' => st'.Harmless ∧ ∃ cleared', v' = .resting running cleared') := by
  unfold Cr2Vars.append
  by_cases hfull : st.blockSize + 1 = cr2BlockSize
  · simp only [if_pos hfull]
    refine Prog.Obeys.andThen (obeys_shipTo hst) fun st' v' h => ?_
    obtain ⟨rfl, cleared', rfl⟩ := h
    exact Prog.obeys_return ⟨fun hne => absurd rfl hne, cleared', rfl⟩
  · simp only [if_neg hfull]
    exact Prog.obeys_return ⟨fun _ => hst, cleared, rfl⟩

theorem obeys_sendRecords {records : List (Int × Int)} (hrecords : ∀ record ∈ records, 0x200 ≤ record.1)
    (hst : st.Harmless) :
    (sendRecords handle records st).run.Obeys flashContract (.resting running cleared)
      (Prog.onOk fun _ v' => ∃ cleared', v' = .resting running cleared') := by
  induction records generalizing st cleared with
  | nil => exact Prog.obeys_return ⟨cleared, rfl⟩
  | cons record records ih =>
      refine (obeys_readyFor (hrecords record List.mem_cons_self) hst).andThen fun st' v' h => ?_
      obtain ⟨hready, cleared', rfl⟩ := h
      refine (obeys_append hready).andThen fun st'' v' h => ?_
      obtain ⟨hharmless, cleared'', rfl⟩ := h
      exact ih (fun record hrecord => hrecords record (List.mem_cons_of_mem _ hrecord)) hharmless

end Config

/-! ### The main program -/

section Main

variable {handle : Nat} {running : Option Bool} {cleared : Bool} (fuel : Nat) {args : FlashArgs}

theorem obeys_mainStop :
    (mainStop fuel handle args).run.Obeys flashContract (.resting running cleared)
      (Prog.onOk fun fwRunning v' => v' = .resting (some fwRunning) cleared) := by
  refine running_then fun fwRunning _ => ?_
  have hinit : ∀ running, (do
      initFlash fuel handle true
      return false : PyScript Bool).run.Obeys flashContract (.resting running cleared)
        (Prog.onOk fun fwRunning v' => v' = .resting (some fwRunning) cleared) := by
    intro running
    refine (obeys_initFlash fuel true).andThen fun _ v' h => ?_
    subst h
    exact Prog.obeys_return rfl
  by_cases hstops : args.stops = true
  · rw [if_pos hstops]
    cases fwRunning with
    | true =>
        refine (obeys_stopFirmware fuel).andThen fun _ v' h => ?_
        subst h
        exact hinit _
    | false => exact hinit _
  · rw [if_neg hstops]
    exact Prog.obeys_return rfl

/-- What a part of the program leaves: it waits for nothing, and a firmware that was stopped still is. -/
def LeavesStopped (stopped : Bool) (v : DeviceView) : Prop :=
  ∃ running cleared, v = .resting running cleared ∧ (stopped = true → running = some false)

theorem obeys_mainFlash {v : DeviceView} {stopped : Bool} (hv : LeavesStopped stopped v) :
    (mainFlash fuel handle args).run.Obeys flashContract v
      (Prog.onOk fun _ v' => LeavesStopped stopped v') := by
  have herase : ∀ {v : DeviceView}, LeavesStopped stopped v →
      (if args.eraseFlash then eraseFlash fuel handle else pure () : PyScript Unit).run.Obeys
        flashContract v (Prog.onOk fun _ v' => LeavesStopped stopped v') := by
    intro v hv
    by_cases hflash : args.eraseFlash = true
    · obtain ⟨running, cleared, rfl, -⟩ := hv
      rw [if_pos hflash]
      refine (obeys_eraseFlash fuel).mono fun result v' h done hdone => ?_
      exact ⟨_, _, h done hdone, fun _ => rfl⟩
    · rw [if_neg hflash]
      exact Prog.obeys_return hv
  unfold mainFlash
  by_cases hloads : args.loads = true
  · rw [if_pos hloads]
    split
    · exact Prog.obeys_raise
    · obtain ⟨running, cleared, rfl, -⟩ := hv
      refine (obeys_loadFirmwareFromFlash fuel _).andThen fun _ v' h => ?_
      subst h
      exact herase ⟨_, _, rfl, fun _ => rfl⟩
  · rw [if_neg hloads]
    exact herase hv

theorem obeys_mainFirmware {v : DeviceView} {stopped : Bool} (hv : LeavesStopped stopped v) :
    (mainFirmware fuel handle args).run.Obeys flashContract v
      (Prog.onOk fun _ v' => LeavesStopped stopped v') := by
  obtain ⟨running, cleared, rfl, hstopped⟩ := hv
  unfold mainFirmware
  by_cases hbuf : args.firmwareBuf ≠ []
  · rw [if_pos hbuf]
    refine (obeys_scriptLoadFirmware args.firmwareBehind args.firmwareBuf).andThen fun _ v' h => ?_
    obtain ⟨cleared', rfl⟩ := h
    cases args.saveToFlash with
    | true =>
        refine (obeys_saveFirmwareToFlash fuel).andThen fun slot v' h => ?_
        subst h
        exact Prog.obeys_return ⟨_, _, rfl, fun _ => rfl⟩
    | false => exact Prog.obeys_return ⟨_, _, rfl, fun _ => rfl⟩
  · rw [if_neg hbuf]
    exact Prog.obeys_return ⟨_, _, rfl, hstopped⟩

theorem obeys_mainConfig {v : DeviceView} {fwRunning : Bool} {slot : Option Nat}
    (hrecords : ∀ record ∈ cr2Records args.configBuf, 0x200 ≤ record.1)
    (hv : LeavesStopped (!fwRunning) v) :
    (mainConfig fuel handle args fwRunning slot).run.Obeys flashContract v
      (Prog.onOk fun _ v' => LeavesStopped (!fwRunning) v') := by
  obtain ⟨running, cleared, rfl, hstopped⟩ := hv
  unfold mainConfig
  by_cases hext : args.isCr2 = true
  · rw [if_pos hext]
    refine Prog.Obeys.andThen (obeys_sendRecords hrecords fun h => absurd rfl h) fun _ v' h => ?_
    obtain ⟨cleared', rfl⟩ := h
    cases fwRunning with
    | true =>
        have hreset : ∀ running cleared, (softReset fuel handle).run.Obeys flashContract
            (.resting running cleared) (Prog.onOk fun _ v' => LeavesStopped false v') := by
          intro running cleared
          refine (obeys_softReset fuel).mono fun result v' h done hdone => ?_
          exact ⟨_, _, h done hdone, fun hfalse => nomatch hfalse⟩
        cases args.saveToFlash with
        | true =>
            refine (obeys_saveConfigToFlash fuel _).andThen fun _ v' h => ?_
            obtain ⟨running', cleared'', rfl, -⟩ := h
            exact hreset _ _
        | false => exact hreset _ _
    | false =>
        cases args.saveToFlash with
        | true =>
            cases slot with
            | none => exact Prog.obeys_raise
            | some slot =>
                refine (obeys_saveConfigToFlash fuel _).mono fun result v' h done hdone => ?_
                obtain ⟨running', cleared'', rfl, hstays⟩ := h done hdone
                exact ⟨_, _, rfl, fun _ => congrArg some (hstays (hstopped rfl))⟩
        | false => exact Prog.obeys_return ⟨_, _, rfl, hstopped⟩
  · rw [if_neg hext]
    exact Prog.obeys_raise

theorem obeys_mainBody (hrecords : ∀ record ∈ cr2Records args.configBuf, 0x200 ≤ record.1) :
    (mainBody fuel handle args).run.Obeys flashContract (.resting running cleared)
      (Prog.onOk fun _ _ => True) := by
  refine (obeys_mainStop fuel).andThen fun fwRunning v' h => ?_
  subst h
  have hv : LeavesStopped (!fwRunning) (.resting (some fwRunning) cleared) :=
    ⟨_, _, rfl, fun h => by rw [(Bool.not_eq_true' fwRunning).mp h]⟩
  refine (obeys_mainFlash fuel hv).andThen fun _ v' hv => ?_
  refine (obeys_mainFirmware fuel hv).andThen fun slot v' hv => ?_
  have hstart : ∀ {v : DeviceView}, LeavesStopped (!fwRunning) v →
      (if ¬ fwRunning = true then startFirmware fuel handle true else pure () : PyScript Unit).run.Obeys
        flashContract v (Prog.onOk fun _ _ => True) := by
    intro v hv
    obtain ⟨running, cleared, rfl, hstopped⟩ := hv
    cases fwRunning with
    | true => exact Prog.obeys_return trivial
    | false =>
        rw [if_pos Bool.false_ne_true, hstopped rfl]
        exact (obeys_startFirmware fuel true).mono fun _ _ _ _ _ => trivial
  by_cases hconfig : args.configBuf ≠ []
  · rw [if_pos hconfig]
    exact (obeys_mainConfig fuel hrecords hv).andThen fun _ v' hv => hstart hv
  · rw [if_neg hconfig]
    exact hstart hv

end Main

theorem obeys_caught {p : PyScript Unit} {v : DeviceView} {post : Unit → DeviceView → Prop}
    (hp : p.run.Obeys flashContract v (Prog.onOk post)) :
    (tryCatch p mainExcept).run.Obeys flashContract v (Prog.onOk fun _ _ => True) := by
  refine Prog.Obeys.bind hp fun result v' _ => ?_
  cases result with
  | ok a => exact Prog.obeys_return trivial
  | error e =>
      dsimp only
      unfold mainExcept
      split
      · exact Prog.obeys_return trivial
      · exact Prog.obeys_raise

theorem obeys_flashSession (fuel : Nat) {args : FlashArgs}
    (hrecords : ∀ record ∈ cr2Records args.configBuf, 0x200 ≤ record.1) :
    (flashSession fuel args).run.Obeys flashContract .unseen (Prog.onOk fun _ _ => True) := by
  have hmay : DeviceView.unseen.May (.open args.chipSelect) := trivial
  have hask : (pyAsk (.open args.chipSelect)).run.Obeys flashContract .unseen
      (Prog.onOk fun _ v' => v' = .resting none false) := obeys_pyAsk hmay fun _ _ => rfl
  refine hask.andThen fun reply v' h => ?_
  subst h
  refine (obeys_caught (obeys_mainBody fuel hrecords)).andThen fun _ v' _ => ?_
  have hclose : v'.May (.hbi (.close reply.handle)) := trivial
  have hlast : (pyAsk (.hbi (.close reply.handle))).run.Obeys flashContract v'
      (Prog.onOk fun _ _ => True) := obeys_pyAsk hclose fun _ _ => trivial
  exact hlast.andThen fun _ _ _ => Prog.obeys_return trivial

theorem obeys_flashMain (fuel : Nat) {args : FlashArgs}
    (hrecords : ∀ record ∈ cr2Records args.configBuf, 0x200 ≤ record.1) :
    (flashMain fuel args).run.Obeys flashContract .unseen (Prog.onOk fun _ _ => True) := by
  unfold flashMain
  by_cases hnothing : args.firmwareBuf = [] ∧ args.configBuf = [] ∧ args.saveToFlash = true
  · rw [if_pos hnothing]
    exact Prog.obeys_raise
  · rw [if_neg hnothing]
    by_cases herase : args.firmwareBuf = [] ∧ args.configBuf ≠ [] ∧ args.eraseFlash = true
    · rw [if_pos herase]
      exact Prog.obeys_raise
    · rw [if_neg herase]
      exact obeys_flashSession fuel hrecords

/-- In every run of the script every question is in order: it writes nothing while a command or a reboot is
not seen to end, starts commands of the boot ROM only with the firmware seen to be stopped and those of the
firmware only with it seen to run, and starts a save by the boot ROM only with the checksum cleared. -/
theorem script_in_order (fuel : Nat) (args : FlashArgs)
    (hrecords : ∀ record ∈ cr2Records args.configBuf, 0x200 ≤ record.1)
    (answer : Prog.Exchanges PyAsk PyReply → PyAsk → PyReply)
    (hstays : ∀ done ask, (flashContract.follow .unseen done).Relies ask (answer done ask)) :
    flashContract.Kept .unseen ((flashMain fuel args).run.run answer []).1 := by
  obtain ⟨more, hrun, hkept, -⟩ := (obeys_flashMain fuel hrecords).follow answer []
    fun more ask => hstays ([] ++ more) ask
  rw [hrun]
  exact hkept

/-- A device whose firmware is stopped and whose registers read as zero. -/
def zeroDevice : PyReply := ⟨⟨.success, []⟩, false, 1⟩

theorem zeroDevice_number (length : Nat) : zeroDevice.number length = 0 := by
  unfold PyReply.number PyReply.bytes formatNumber
  induction length with
  | zero => rfl
  | succ length ih =>
      rw [List.range_succ, List.map_append, List.foldl_append, ih]
      rfl

/-- Erase the flash, load a firmware of two blocks and a configuration of one register, save both. -/
def eraseLoadSave : FlashArgs where
  firmwareBuf := [0, 0, 0, 0, 0, 1, 0, 0, 0, 4, 0, 0, 0xFE, 0x00, 0xFF, 0xFF]
  firmwareBehind := fun _ _ => 0
  configBuf := "0x200, 0x1234".toList
  configPath := "config.cr2".toList
  eraseFlash := true
  saveToFlash := true
  indexSlot := 1
  loadFromFlash := none
  chipSelect := 0

theorem script_in_order_eraseLoadSave :
    flashContract.Kept .unseen ((flashMain 1 eraseLoadSave).run.run (fun _ _ => zeroDevice) []).1 ∧
      ((flashMain 1 eraseLoadSave).run.run (fun _ _ => zeroDevice) []).2 = .ok () := by
  refine ⟨script_in_order 1 eraseLoadSave (by decide) (fun _ _ => zeroDevice) ?_, by decide +kernel⟩
  intro done ask
  cases ask with
  | hbi ask =>
      cases ask with
      | read handle reg length =>
          intro _ _
          rw [zeroDevice_number]
          rfl
      | _ => trivial
  | _ => trivial

end VprocSdk
