import VprocSdk.Apps.FlashScript

/-!
# Parts of the script

Most parts of the script ask for registers and for the time only, and raise nothing but a `ValueError` when
they are not cut off. Which questions a part may ask is a parameter: what holds of the flash functions under
one choice holds under every choice that lets them access registers.
-/

namespace VprocSdk

open Lib

/-- A read or a write of registers, or a look at the time. -/
def PyAsk.isAccess : PyAsk → Bool
  | .hbi (.read _ _ _) | .write _ _ _ | .past _ => true
  | _ => false

class AllowsAccess (may : PyAsk → Bool) : Prop where
  access : ∀ ask : PyAsk, ask.isAccess = true → may ask = true

def asksOnly (may : PyAsk → Bool) : Prog.Contract PyAsk PyReply PUnit where
  may := fun _ ask => may ask = true
  relies := fun _ _ _ => True
  after := fun _ _ _ => ⟨⟩

/-- A part that asks what it may and ends as `post` says, whatever the device answers. -/
def Body {α : Type} (may : PyAsk → Bool) (post : Except PyStop α → Prop) (p : PyScript α) : Prop :=
  p.run.Obeys (asksOnly may) ⟨⟩ fun result _ => post result

/-- A value as `P` says, a `ValueError`, or a wait that is cut off. -/
def Caught {α : Type} (P : α → Prop) : Except PyStop α → Prop
  | .ok a => P a
  | .error e => e = .waiting ∨ ∃ msg, e = .raised (.valueError msg)

/-- A part that is run behind some exchanges asks what it may, and ends as it should. -/
theorem Body.run {may : PyAsk → Bool} {α : Type} {post : Except PyStop α → Prop} {p : PyScript α}
    (h : Body may post p) (answer : Prog.Exchanges PyAsk PyReply → PyAsk → PyReply)
    (done : Prog.Exchanges PyAsk PyReply) :
    ∃ more, (p.run.run answer done).1 = done ++ more ∧ (∀ x ∈ more, may x.1 = true) ∧
      post (p.run.run answer done).2 := by
  obtain ⟨more, hrun, hkept, hpost⟩ := Prog.Obeys.follow h answer done fun _ _ => trivial
  refine ⟨more, hrun, fun x hx => ?_, hpost⟩
  obtain ⟨before, rest, rfl⟩ := List.append_of_mem hx
  exact hkept before x.1 x.2 rest rfl

/-! ### Parts that raise nothing else -/

section Parts

variable {may : PyAsk → Bool} {α β : Type} {P : α → Prop} {P' : β → Prop}

theorem Body.andThen {post : Except PyStop β → Prop} {p : PyScript α} {f : α → PyScript β}
    (hp : Body may (Caught P) p) (hf : ∀ a, P a → Body may post (f a))
    (hpost : ∀ e, e = .waiting ∨ (∃ msg, e = .raised (.valueError msg)) → post (.error e)) :
    Body may post (p >>= f) := by
  unfold Body
  rw [ExceptT.run_bind]
  refine Prog.Obeys.bind hp fun result _ hresult => ?_
  cases result with
  | ok a => exact hf a hresult
  | error e => exact hpost e hresult

theorem Body.caughtThen {p : PyScript α} {f : α → PyScript β} (hp : Body may (Caught P) p)
    (hf : ∀ a, P a → Body may (Caught P') (f a)) : Body may (Caught P') (p >>= f) :=
  hp.andThen hf fun _ h => h

theorem body_pure {a : α} (h : P a) : Body may (Caught P) (pure a : PyScript α) := h

theorem body_raise (msg : String) : Body may (Caught P) (pyRaise msg : PyScript α) := .inr ⟨msg, rfl⟩

theorem body_waiting : Body may (Caught P) (throw .waiting : PyScript α) := .inl rfl

theorem body_pyAsk {ask : PyAsk} (hask : may ask = true) :
    Body may (Caught fun _ => True) (pyAsk ask) := ⟨hask, fun _ _ => trivial⟩

theorem body_when {c : Prop} [Decidable c] {p : PyScript Unit} (hp : Body may (Caught fun _ => True) p) :
    Body may (Caught fun _ => True) (if c then p else pure () : PyScript Unit) := by
  split
  · exact hp
  · exact body_pure trivial

theorem body_whenThen {c : Prop} [Decidable c] {p : PyScript Unit} {rest : PyScript α}
    (hp : Body may (Caught fun _ => True) p) (hrest : Body may (Caught P) rest) :
    Body may (Caught P) (if c then (do p; rest) else rest : PyScript α) := by
  split
  · exact hp.caughtThen fun _ _ => hrest
  · exact hrest

variable [AllowsAccess may]

theorem body_access {ask : PyAsk} (hask : ask.isAccess = true) :
    Body may (Caught fun _ => True) (pyAsk ask) := body_pyAsk (AllowsAccess.access ask hask)

theorem body_pyRead (handle : Nat) (reg : RegAddr) (length : Nat) :
    Body may (Caught fun _ => True) (pyRead handle reg length) :=
  (body_access rfl).caughtThen fun _ _ => body_pure trivial

theorem body_pyWrite (handle : Nat) (reg : RegAddr) (data : List Byte) :
    Body may (Caught fun _ => True) (pyWrite handle reg data) :=
  (body_access rfl).caughtThen fun _ _ => body_pure trivial

theorem body_pyWriteIndex (handle : Nat) (reg : RegAddr) (index : Int) :
    Body may (Caught fun _ => True) (pyWriteIndex handle reg index) := by
  unfold pyWriteIndex
  split
  · exact body_pyWrite _ _ _
  · exact body_raise _

theorem body_isFirmwareRunning (handle : Nat) :
    Body may (Caught fun _ => True) (pyCall (isFirmwareRunning handle)) :=
  ⟨AllowsAccess.access _ rfl, fun _ _ => trivial⟩

end Parts

/-! ### The functions -/

section Functions

variable {may : PyAsk → Bool} [AllowsAccess may] (fuel handle : Nat)

theorem body_unlessLate {seconds : Nat} {msg : String} {rest : PyScript Unit}
    (h : Body may (Caught fun _ => True) rest) : Body may (Caught fun _ => True) (do
      if (← pyAsk (.past seconds)).late then pyRaise msg
      rest : PyScript Unit) :=
  (body_access rfl).caughtThen fun _ _ => body_whenThen (body_raise msg) h

theorem body_busySpinWait : Body may (Caught fun _ => True) (busySpinWait handle fuel) := by
  induction fuel with
  | zero => exact body_waiting
  | succ fuel ih =>
      refine (body_pyRead _ _ _).caughtThen fun value _ => ?_
      exact body_when (body_unlessLate ih)

theorem body_stopSpinWait : Body may (Caught fun _ => True) (stopSpinWait handle fuel) := by
  induction fuel with
  | zero => exact body_waiting
  | succ fuel ih =>
      refine (body_pyRead _ _ _).caughtThen fun value _ => ?_
      exact body_when (body_unlessLate ih)

theorem body_flashResult : Body may (Caught fun _ => True) (flashResult handle) :=
  (body_pyRead _ _ _).caughtThen fun _ _ => body_pure trivial

theorem body_softReset : Body may (Caught fun _ => True) (softReset fuel handle) :=
  (body_pyWrite _ _ _).caughtThen fun _ _ => body_busySpinWait fuel handle

theorem body_stopFirmware : Body may (Caught fun _ => True) (stopFirmware fuel handle) :=
  (body_pyWrite _ _ _).caughtThen fun _ _ => body_stopSpinWait fuel handle

theorem body_startFirmware (skipError : Bool) :
    Body may (Caught fun _ => True) (startFirmware fuel handle skipError) :=
  (body_pyWrite _ _ _).caughtThen fun _ _ => (body_pyWrite _ _ _).caughtThen fun _ _ =>
    (body_busySpinWait fuel handle).caughtThen fun _ _ =>
      (body_isFirmwareRunning handle).caughtThen fun _ _ => body_when (body_when (body_raise _))

theorem body_initFlash (skipError : Bool) :
    Body may (Caught fun _ => True) (initFlash fuel handle skipError) := by
  refine (body_isFirmwareRunning handle).caughtThen fun _ _ => body_whenThen (body_raise _) ?_
  refine (body_pyWrite _ _ _).caughtThen fun _ _ => (body_pyWrite _ _ _).caughtThen fun _ _ => ?_
  refine (body_busySpinWait fuel handle).caughtThen fun _ _ => ?_
  exact (body_flashResult handle).caughtThen fun _ _ => body_when (body_when (body_raise _))

theorem body_eraseFlash : Body may (Caught fun _ => True) (eraseFlash fuel handle) := by
  refine (body_isFirmwareRunning handle).caughtThen fun _ _ => body_whenThen (body_raise _) ?_
  refine (body_initFlash fuel handle false).caughtThen fun _ _ => ?_
  refine (body_pyWrite _ _ _).caughtThen fun _ _ => (body_pyWrite _ _ _).caughtThen fun _ _ => ?_
  refine (body_pyWrite _ _ _).caughtThen fun _ _ => (body_busySpinWait fuel handle).caughtThen fun _ _ => ?_
  exact (body_flashResult handle).caughtThen fun _ _ => body_when (body_raise _)

theorem body_loadFirmwareFromFlash (firmwareIndex : Int) :
    Body may (Caught fun _ => True) (loadFirmwareFromFlash fuel handle firmwareIndex) := by
  refine (body_isFirmwareRunning handle).caughtThen fun _ _ => body_whenThen (body_raise _) ?_
  refine (body_pyWrite _ _ _).caughtThen fun _ _ => (body_pyWriteIndex _ _ _).caughtThen fun _ _ => ?_
  refine (body_pyWrite _ _ _).caughtThen fun _ _ => (body_busySpinWait fuel handle).caughtThen fun _ _ => ?_
  exact (body_flashResult handle).caughtThen fun _ _ => body_when (body_raise _)

theorem body_saveFirmwareToFlash : Body may (Caught fun _ => True) (saveFirmwareToFlash fuel handle) := by
  refine (body_pyWrite _ _ _).caughtThen fun _ _ => (body_pyWrite _ _ _).caughtThen fun _ _ => ?_
  refine (body_pyWrite _ _ _).caughtThen fun _ _ => (body_busySpinWait fuel handle).caughtThen fun _ _ => ?_
  exact (body_flashResult handle).caughtThen fun _ _ => body_whenThen (body_raise _) (body_pyRead _ _ _)

theorem body_saveConfigToFlash (flashSlot : Int) :
    Body may (Caught fun _ => True) (saveConfigToFlash fuel handle flashSlot) := by
  have hend : Body may (Caught fun _ => True) (do
      busySpinWait handle fuel
      let status ← flashResult handle
      if status ≠ 0 then
        pyRaise ("Error - SaveConfigToFlash(): Cannot save the configuration to flash (0x" ++ pyHex status
          ++ ")") : PyScript Unit) :=
    (body_busySpinWait fuel handle).caughtThen fun _ _ =>
      (body_flashResult handle).caughtThen fun _ _ => body_when (body_raise _)
  refine (body_isFirmwareRunning handle).caughtThen fun running _ => ?_
  cases running with
  | true =>
      exact (body_pyWrite _ _ _).caughtThen fun _ _ => (body_pyWriteIndex _ _ _).caughtThen fun _ _ =>
        (body_pyWrite _ _ _).caughtThen fun _ _ => hend
  | false =>
      exact (body_pyWrite _ _ _).caughtThen fun _ _ => (body_pyWrite _ _ _).caughtThen fun _ _ =>
        (body_pyWriteIndex _ _ _).caughtThen fun _ _ => (body_pyWrite _ _ _).caughtThen fun _ _ => hend

end Functions

end VprocSdk
