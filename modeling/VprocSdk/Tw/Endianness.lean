import VprocSdk.Tw.Commands

/-!
# The two byte orders

The driver swaps bytes by hand. Here the same calls are run with the device configured big-endian and
little-endian against one logical device, which is asked for the values of registers and told values:
`onDevice` says what the bytes of an access mean in each order.

`BothOrders` says of two programs that they are one program in those terms. The shared parts of the
commands are. The commands that are not differ in one place each: an image number that is not swapped, a
status code or a value that is swapped twice, a transport word.
-/

namespace VprocSdk

open Lib

/-! ### The logical device -/

/-- What a device is asked in terms of values: a register read, a register written, bytes sent raw. -/
inductive LogOp
  | read (reg : RegAddr)
  | write (reg : RegAddr) (val : Word)
  | port (data : List Byte)
  deriving DecidableEq, Repr

structure LogAnswer where
  status : SslStatus
  value : Word
  deriving DecidableEq, Repr

abbrev LogRecord := Prog.Exchanges LogOp LogAnswer

/-- An access to a 16-bit register in the device's byte order. -/
def onDevice (e : DevEndian) : BusOp → Prog LogOp LogAnswer BusAnswer
  | .read reg _ => do
      let ans ← Prog.query (.read reg)
      return ⟨ans.status, devBytes e ans.value⟩
  | .write reg data => do
      let ans ← Prog.query (.write reg (devWord e data))
      return ⟨ans.status, []⟩
  | .portWrite data => do
      let ans ← Prog.query (.port data)
      return ⟨ans.status, []⟩

/-- The program as a device in that byte order sees it. -/
def seenBy (e : DevEndian) {α : Type} (p : Tw α) : Prog LogOp LogAnswer α := p.handled (onDevice e)

def TwDev.inOrder (h : Nat) (e : DevEndian) : TwDev := ⟨e, h⟩

@[simp] theorem TwDev.inOrder_endianness (h : Nat) (e : DevEndian) :
    (TwDev.inOrder h e).endianness = e := rfl

@[simp] theorem hbiVal_little (val : Word) : hbiVal .little val = val := rfl

/-- A big-endian device sees of the one program what a little-endian one sees of the other. -/
abbrev BothOrders {α : Type} (p q : Tw α) : Prop := Prog.Alike (onDevice .big) (onDevice .little) p q

section Accesses

variable {α : Type}

theorem seenBy_bind {β : Type} (e : DevEndian) (p : Tw α) (f : α → Tw β) :
    seenBy e (p >>= f) = seenBy e p >>= fun a => seenBy e (f a) := Prog.handled_bind (onDevice e) p f

/-- What a read of a word returns on a device that holds the value. -/
def seenRead (e : DevEndian) (ans : LogAnswer) : Except HbiStatus Word :=
  if ans.status ≠ .ok then .error .internalErr else .ok (hbiVal e ans.value)

def seenWrite (ans : LogAnswer) : HbiStatus := writeResult ⟨ans.status, []⟩

theorem hostWord_devBytes (e : DevEndian) (val : Word) : hostWord (devBytes e val) = hbiVal e val := by
  have h := hbiVal_hostWord_devBytes e val
  rw [← h, hbiVal_hbiVal, h]

/-- What `tw_cmdresult_check` returns for an answer. -/
def cmdResult (ans : BusAnswer) : Word :=
  if ans.status = .ok then hostWord ans.data else BitVec.ofNat 16 HbiStatus.internalErr.code

theorem twCmdresultCheck_eq :
    twCmdresultCheck = .ask (.read Reg.hostCmdParamResult 2) fun ans => .pure (cmdResult ans) := by
  rw [twCmdresultCheck, readWord_eq, Prog.ask_bind]
  congr 1
  funext ans
  by_cases hok : ans.status = .ok
  · rw [readResult_ok hok, cmdResult, if_pos hok]
    rfl
  · rw [readResult_failed hok, cmdResult, if_neg hok]
    rfl

theorem seenBy_readWord (e : DevEndian) (reg : RegAddr) :
    seenBy e (readWord reg) = .ask (.read reg) fun ans => .pure (seenRead e ans) := by
  rw [readWord_eq]
  change Prog.ask (LogOp.read reg) _ = _
  congr 1
  funext ans
  have hresult : readResult ⟨ans.status, devBytes e ans.value⟩ = seenRead e ans := by
    by_cases hok : ans.status = .ok
    · rw [readResult_ok hok, seenRead, if_neg (not_not.2 hok), hostWord_devBytes]
    · rw [readResult_failed hok, seenRead, if_pos hok]
  exact congrArg Prog.pure hresult

theorem seenBy_writeWord (e : DevEndian) (reg : RegAddr) (val : Word) :
    seenBy e (writeWord reg val) = .ask (.write reg (hbiVal e val)) fun ans => .pure (seenWrite ans) := by
  rw [writeWord_eq, ← devWord_hostBytes]
  rfl

theorem bothOrders_readWord {reg : RegAddr} {f g : Except HbiStatus Word → Tw α}
    (hfailed : BothOrders (f (.error .internalErr)) (g (.error .internalErr)))
    (hread : ∀ val, BothOrders (f (.ok (hbiVal .big val))) (g (.ok val))) :
    BothOrders (readWord reg >>= f) (readWord reg >>= g) := by
  change seenBy .big (readWord reg >>= f) = seenBy .little (readWord reg >>= g)
  rw [seenBy_bind, seenBy_bind, seenBy_readWord, seenBy_readWord]
  simp only [Prog.ask_bind, Prog.pure_bind]
  congr 1
  funext ans
  by_cases hok : ans.status = .ok
  · rw [seenRead, seenRead, if_neg (not_not.2 hok), if_neg (not_not.2 hok)]
    exact hread ans.value
  · rw [seenRead, seenRead, if_pos hok, if_pos hok]
    exact hfailed

theorem bothOrders_writeWord (reg : RegAddr) (val : Word) :
    BothOrders (writeWord reg (hbiVal .big val)) (writeWord reg val) := by
  change seenBy .big _ = seenBy .little _
  rw [seenBy_writeWord, seenBy_writeWord, hbiVal_hbiVal]
  rfl

theorem bothOrders_portWrite (data : List Byte) : BothOrders (sslPortWrite data) (sslPortWrite data) := rfl

theorem bothOrders_chk {p q : Tw HbiStatus} {failed : HbiStatus → α} {r s : Tw α} (h : BothOrders p q)
    (hrest : BothOrders r s) :
    BothOrders (p >>= fun status => if status ≠ .success then pure (failed status) else r)
      (q >>= fun status => if status ≠ .success then pure (failed status) else s) :=
  h.bind fun _ => Prog.Alike.ite (Prog.alike_pure _) hrest

end Accesses

/-! ### What the commands share -/

section Shared

variable (h : Nat)

theorem bothOrders_spin (reg : RegAddr) {released released' : Word → Bool}
    (hreleased : ∀ val, released (hbiVal .big val) = released' val) (n : Nat) :
    BothOrders (spin reg released n) (spin reg released' n) := by
  induction n with
  | zero => exact Prog.alike_pure _
  | succ n ih =>
      apply bothOrders_readWord
      · exact Prog.alike_pure _
      · intro val
        dsimp only
        rw [hreleased]
        exact Prog.Alike.ite (Prog.alike_pure _) ih

theorem bothOrders_twMboxAcquire :
    BothOrders (twMboxAcquire (.inOrder h .big)) (twMboxAcquire (.inOrder h .little)) := by
  apply bothOrders_spin
  intro val
  simp only [hostCmdFlagClear, TwDev.inOrder, hbiVal_hbiVal]
  rfl

theorem bothOrders_twCmdregAcquire : BothOrders twCmdregAcquire twCmdregAcquire := by
  apply bothOrders_spin
  intro val
  exact decide_eq_decide.2 (hbiVal_eq_zero .big val)

theorem bothOrders_twWrCmdreg (cmd : Word) :
    BothOrders (twWrCmdreg (.inOrder h .big) cmd) (twWrCmdreg (.inOrder h .little) cmd) :=
  bothOrders_chk (bothOrders_twMboxAcquire h) <| bothOrders_chk (bothOrders_writeWord _ _) <|
    bothOrders_chk (bothOrders_writeWord _ _) bothOrders_twCmdregAcquire

theorem bothOrders_twCmdresultCheck {α : Type} {f g : Word → Tw α} (hfailed : BothOrders (f 1) (g 1))
    (hread : ∀ val, BothOrders (f (hbiVal .big val)) (g val)) :
    BothOrders (twCmdresultCheck >>= f) (twCmdresultCheck >>= g) := by
  unfold twCmdresultCheck
  rw [Prog.bind_assoc, Prog.bind_assoc]
  exact bothOrders_readWord hfailed hread

/-- A status made of the result, where the number of a failure means the same in either order. -/
theorem bothOrders_decoded (decode : Word → HbiStatus) (hfailed : decode (hbiVal .big 1) = decode 1) :
    BothOrders (twCmdresultCheck >>= fun result => pure (decode (hbiVal .big result)))
      (twCmdresultCheck >>= fun result => pure (decode (hbiVal .little result))) := by
  apply bothOrders_twCmdresultCheck
  · rw [hfailed]
    exact Prog.alike_pure _
  · intro val
    rw [hbiVal_hbiVal]
    exact Prog.alike_pure _

theorem bothOrders_twInitCheckFlash :
    BothOrders (twInitCheckFlash (.inOrder h .big)) (twInitCheckFlash (.inOrder h .little)) :=
  bothOrders_chk (bothOrders_twWrCmdreg h _) (bothOrders_decoded initCheckFlashStatus (by decide))

theorem bothOrders_twChkDevBootRomMode :
    BothOrders (twChkDevBootRomMode (.inOrder h .big)) (twChkDevBootRomMode (.inOrder h .little)) := by
  apply bothOrders_readWord
  · exact Prog.alike_pure _
  · intro val
    simp only [TwDev.inOrder_endianness, hbiVal_hbiVal, hbiVal_little]
    exact Prog.Alike.ite (Prog.alike_pure _) (Prog.alike_pure _)

theorem bothOrders_twReset_toBoot :
    BothOrders (twReset (.inOrder h .big) .toBoot) (twReset (.inOrder h .little) .toBoot) := by
  apply bothOrders_chk (bothOrders_writeWord _ _)
  apply bothOrders_readWord
  · exact Prog.alike_pure _
  · intro val
    have hmark : hbiVal .big val ≠ 0xD3D3 ↔ val ≠ 0xD3D3 := by
      have hsame : hbiVal .big 0xD3D3 = 0xD3D3 := by decide
      constructor
      · intro hval heq
        exact hval (heq ▸ hsame)
      · intro hval heq
        rw [← hbiVal_hbiVal .big val, heq] at hval
        exact hval hsame
    dsimp only
    simp only [hmark]
    exact Prog.Alike.ite (Prog.alike_pure _) (Prog.alike_pure _)

theorem bothOrders_enterBootRom :
    BothOrders (enterBootRom (.inOrder h .big)) (enterBootRom (.inOrder h .little)) := by
  apply (bothOrders_twChkDevBootRomMode h).bind
  intro ret
  apply Prog.Alike.ite (Prog.alike_pure _)
  exact Prog.Alike.ite (bothOrders_twReset_toBoot h) (Prog.alike_pure _)

end Shared

/-! ### The calls -/

/-- `hbi_rst_mode_t`, and the numbers outside it. -/
inductive HbiRstMode
  | por
  | unsupported (code : Nat)

def internalHbiReset (pDev : TwDev) : HbiRstMode → Tw HbiStatus
  | .por => twReset pDev .hardwareRom
  | .unsupported _ => return .invalidArg

/-- The calls of `hbi.c` that drive the device of an open handle. -/
inductive DeviceCall
  | setCommand (cmd : Command)
  | sleep
  | wake
  | reset (mode : HbiRstMode)

def deviceCall (pDev : TwDev) : DeviceCall → Tw (HbiStatus × Option Word)
  | .setCommand cmd => internalHbiSetCommand pDev cmd
  | .sleep => do return (← internalHbiSetAttrib pDev (.sleep (some 1)), none)
  | .wake => do return (← internalHbiSetAttrib pDev (.sleep (some 0)), none)
  | .reset mode => do return (← internalHbiReset pDev mode, none)

/-! ### Flash commands -/

/-- The opening of the commands on the flash: the boot ROM, and the flash initialised. -/
def flashOpened (pDev : TwDev) : Tw HbiStatus := do
  let status ← enterBootRom pDev
  if status ≠ .success then return status
  twInitCheckFlash pDev

def flashCommand (pDev : TwDev) (reg : RegAddr) (val cmd : Word) : Tw HbiStatus := do
  let status ← flashOpened pDev
  if status ≠ .success then return status
  let status ← writeWord reg val
  if status ≠ .success then return status
  twWrCmdreg pDev cmd

/-- A flash command whose status is decoded from the result. -/
def flashStatus (pDev : TwDev) (reg : RegAddr) (val cmd : Word) (decode : Word → HbiStatus) :
    Tw HbiStatus := do
  let status ← flashCommand pDev reg val cmd
  if status ≠ .success then return status
  let result ← twCmdresultCheck
  return decode (hbiVal pDev.endianness result)

theorem chk_assoc {α : Type} (p q : Tw HbiStatus) (failed : HbiStatus → α) (r : Tw α) :
    ((p >>= fun status => if status ≠ .success then pure status else q) >>= fun status =>
        if status ≠ .success then pure (failed status) else r)
      = p >>= fun status => if status ≠ .success then pure (failed status)
          else q >>= fun status => if status ≠ .success then pure (failed status) else r := by
  rw [Prog.bind_assoc]
  congr 1
  funext status
  by_cases hstatus : status ≠ .success
  · rw [if_pos hstatus, if_pos hstatus]
    change (if status ≠ .success then pure (failed status) else r) = _
    rw [if_pos hstatus]
  · rw [if_neg hstatus, if_neg hstatus]

theorem flashCommand_chk {α : Type} (pDev : TwDev) (reg : RegAddr) (val cmd : Word)
    (failed : HbiStatus → α) (rest : Tw α) :
    (do
      let status ← enterBootRom pDev
      if status ≠ .success then return failed status
      let status ← twInitCheckFlash pDev
      if status ≠ .success then return failed status
      let status ← writeWord reg val
      if status ≠ .success then return failed status
      let status ← twWrCmdreg pDev cmd
      if status ≠ .success then return failed status
      rest)
      = flashCommand pDev reg val cmd >>= fun status =>
          if status ≠ .success then pure (failed status) else rest := by
  unfold flashCommand flashOpened
  rw [chk_assoc, chk_assoc, chk_assoc]

theorem twLoadFwrcfgFromFlash_eq (pDev : TwDev) {imageNumber : Word} (hpos : ¬ imageNumber.toInt ≤ 0) :
    twLoadFwrcfgFromFlash pDev imageNumber
      = flashStatus pDev Reg.hostCmdParamResult imageNumber HostCmd.imgCfgLoad plainStatus := by
  rw [flashStatus, ← flashCommand_chk, twLoadFwrcfgFromFlash, if_neg hpos]

theorem twEraseFwrcfgFromFlash_eq (pDev : TwDev) {imageNumber : Word} (hpos : ¬ imageNumber.toInt ≤ 0) :
    twEraseFwrcfgFromFlash pDev (some imageNumber)
      = flashStatus pDev Reg.hostCmdParamResult imageNumber HostCmd.imgCfgErase
          (eraseStatus HmiResp.success) := by
  rw [flashStatus, ← flashCommand_chk, twEraseFwrcfgFromFlash, if_neg hpos]

theorem twEraseFlash_eq (pDev : TwDev) :
    twEraseFlash pDev
      = flashStatus pDev Reg.hostCmdParamResult (hbiVal pDev.endianness 0xAA55)
          HostCmd.eraseFlashInit (eraseStatus HmiResp.flashInitOk) := by
  rw [flashStatus, ← flashCommand_chk, twEraseFlash]

/-- What `tw_save_fwrcfg_to_flash` does with the response. -/
def saveFwrcfgEnd (pDev : TwDev) (pVal : Bool) (result : Word) : Tw (HbiStatus × Option Word) := do
  let status := saveFwrcfgStatus pDev (hbiVal pDev.endianness result)
  if status ≠ .success then return (status, none)
  if !pVal then return (.success, none)
  match ← readWord Reg.fwrCount with
  | .error status => return (status, none)
  | .ok numFwrImages => return (.success, some (hbiVal pDev.endianness numFwrImages))

theorem twSaveFwrcfgToFlash_eq (pDev : TwDev) (pVal : Bool) :
    twSaveFwrcfgToFlash pDev pVal
      = flashCommand pDev Reg.cfgRecChksum 0 HostCmd.imgCfgSave >>= fun status =>
          if status ≠ .success then pure (status, none)
          else twCmdresultCheck >>= saveFwrcfgEnd pDev pVal := by
  rw [← flashCommand_chk pDev Reg.cfgRecChksum 0 HostCmd.imgCfgSave fun status => (status, none),
    twSaveFwrcfgToFlash]
  rfl

theorem bothOrders_flashOpened (h : Nat) :
    BothOrders (flashOpened (.inOrder h .big)) (flashOpened (.inOrder h .little)) :=
  bothOrders_chk (bothOrders_enterBootRom h) (bothOrders_twInitCheckFlash h)

theorem bothOrders_flashCommand (h : Nat) (reg : RegAddr) (val cmd : Word) :
    BothOrders (flashCommand (.inOrder h .big) reg (hbiVal .big val) cmd)
      (flashCommand (.inOrder h .little) reg val cmd) :=
  bothOrders_chk (bothOrders_flashOpened h) <| bothOrders_chk (bothOrders_writeWord _ _) (bothOrders_twWrCmdreg h _)

end VprocSdk
