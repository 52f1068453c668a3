import Mathlib.Logic.Function.Basic
import VprocSdk.Lib.Machine
import VprocSdk.Tw.Commands

/-!
# The host-command mailbox

The device as the comments of `hbi_tw.c` describe it, shared by any number of clients. Setting a flag
in register 0x06 starts the command in 0x32 with the parameter in 0x34. The command is then in
progress until the device completes it, whenever that is: it writes its result to 0x34, idle to 0x32,
and clears the flags. Registers the mailbox does not use read anything. A write to the clock status
register may reset the mailbox, which drops a command in progress.

A client runs one call after another. Each access is one step of the system, so the calls of several
clients interleave in every order. No access fails.

Beside the registers a state keeps a history: the accesses of each call, the command a call started
last with its result, and every start of a command with what the registers held at that moment.
-/

namespace VprocSdk

open Lib

/-! ### What a call is held to -/

/-- The number a device holds in a register, from the bytes it sent. -/
def readValue (e : DevEndian) (ans : BusAnswer) : Word := hbiVal e (hostWord ans.data)

/-- The commands that use the mailbox. -/
def Command.usesMailbox : Command → Bool
  | .loadFwrcfgFromFlash _ | .saveFwrcfgToFlash _ | .saveCfgToFlash _ | .eraseWholeFlash
  | .eraseFwrcfgFromFlash _ | .loadFwrComplete | .startFwr => true
  | _ => false

/-- The parameter of a call, as the number the device is to find in 0x34. An image number is passed
to the driver in the byte order of the device. -/
def Command.param (e : DevEndian) : Command → Option Word
  | .loadFwrcfgFromFlash imageNumber => some (devWord e (hostBytes imageNumber))
  | .eraseFwrcfgFromFlash (some imageNumber) => some (devWord e (hostBytes imageNumber))
  | .saveCfgToFlash imageNumber => some (devWord e (hostBytes imageNumber))
  | .eraseWholeFlash => some 0xAA55
  | _ => none

/-- The parameter a host command takes when a call starts it: the flash initialisation takes none. -/
def Command.paramFor (e : DevEndian) (call : Command) (cmd : Word) : Option Word :=
  if cmd = HostCmd.hostFlashInit then none else call.param e

/-- The status a call makes of the result of the host command it started last. -/
def Command.decode (pDev : TwDev) (call : Command) (cmd result : Word) : HbiStatus :=
  if cmd = HostCmd.hostFlashInit then initCheckFlashStatus result
  else
    match call with
    | .loadFwrComplete => bootConcludeStatus result
    | .saveFwrcfgToFlash _ => saveFwrcfgStatus pDev result
    | .eraseWholeFlash => eraseStatus HmiResp.flashInitOk result
    | .eraseFwrcfgFromFlash _ => eraseStatus HmiResp.success result
    | _ => plainStatus result

def PollsBusy (e : DevEndian) (x : BusOp × BusAnswer) : Prop :=
  (x.1 = .read Reg.hostSwFlags 2 ∧ readValue e x.2 &&& hostSwFlagsHostCmd ≠ 0) ∨
    (x.1 = .read Reg.hostCmd 2 ∧ readValue e x.2 ≠ HostCmd.idle)

/-- A call gave up: it returned after a wait loop ran out with every poll busy. -/
def GaveUp (e : DevEndian) (record : BusRecord) (status : HbiStatus) : Prop :=
  status = .resourceErr ∧ ∃ before polls, record = before ++ polls ∧
    polls.length = twolfMbcmdregSpinwait ∧ ∀ x ∈ polls, PollsBusy e x

/-! ### Sessions -/

/-- A host command a call started: what the device made of it on completion, and what the call read
from 0x34 after that. -/
structure Issued where
  cmd : Word
  result : Option Word
  response : Option Word
  deriving DecidableEq, Repr

/-- A client's current or last call: what remains of it, its accesses so far, and the command it
started last. -/
structure Session where
  call : Command
  todo : Tw (HbiStatus × Option Word)
  record : BusRecord
  issued : Option Issued

def Session.returned (σ : Session) : Option (HbiStatus × Option Word) :=
  match σ.todo with
  | .pure result => some result
  | .ask _ _ => none

def Session.next (σ : Session) : Option BusOp :=
  match σ.todo with
  | .pure _ => none
  | .ask op _ => some op

def Session.begin (pDev : TwDev) (call : Command) : Session where
  call := call
  todo := internalHbiSetCommand pDev call
  record := []
  issued := none

def Session.completed (result : Word) (σ : Session) : Session :=
  { σ with issued := σ.issued.map fun k => { k with result := some result } }

/-- What a call that returned owes its caller. If it started a command, it gave up or its status is
decoded from a read of 0x34, made after the last such command completed, of that command's result; a
call that started none does not succeed. -/
def Session.Sound (pDev : TwDev) (σ : Session) : Prop :=
  ∀ status out, σ.returned = some (status, out) →
    match σ.issued with
    | none => status ≠ .success
    | some k => GaveUp pDev.endianness σ.record status ∨
        ∃ w, k.result = some w ∧ k.response = some w ∧ status = σ.call.decode pDev k.cmd w

/-! ### The system -/

/-- The start of a host command: who set the flag in which call, whose write put the command in 0x32,
and what 0x32 and 0x34 held. -/
structure Start (ι : Type) where
  client : ι
  call : Command
  writer : Option (ι × Command)
  cmd : Word
  param : Word
  deriving DecidableEq, Repr

/-- The command started is the one the call wrote, and 0x34 holds the parameter of that call. -/
def Start.Sound {ι : Type} (e : DevEndian) (st : Start ι) : Prop :=
  st.writer = some (st.client, st.call) ∧ ∀ v, st.call.paramFor e st.cmd = some v → st.param = v

structure MailboxSystem (ι : Type) where
  flags : Word
  hostCmd : Word
  paramResult : Word
  writer : Option (ι × Command)
  inProgress : Option ι
  clients : ι → Option Session
  starts : List (Start ι)

/-- What happens next: a client makes a call; a client's call makes its next access, with what an
unused register reads and what a reset leaves in 0x32 and 0x34; or the device completes a command. -/
inductive MailboxEvent (ι : Type)
  | call (i : ι) (call : Command)
  | access (i : ι) (other : Word) (reset : Option (Word × Word))
  | complete (result : Word)
  deriving DecidableEq, Repr

namespace MailboxSystem

variable {ι : Type}

def register (s : MailboxSystem ι) (other : Word) (reg : RegAddr) : Word :=
  if reg = Reg.hostSwFlags then s.flags
  else if reg = Reg.hostCmd then s.hostCmd
  else if reg = Reg.hostCmdParamResult then s.paramResult
  else other

def answer (e : DevEndian) (s : MailboxSystem ι) (other : Word) : BusOp → BusAnswer
  | .read reg _ => ⟨.ok, devBytes e (s.register other reg)⟩
  | .write _ _ | .portWrite _ => ⟨.ok, []⟩

/-- The flags whose setting starts a command. -/
def startsCommand (flags : Word) : Bool :=
  flags &&& (hostSwFlagsHostCmd ||| hostSwFlagsAppHostCmd) ≠ 0

/-- The device after an access by a call of client `i`. -/
def deliver (e : DevEndian) (s : MailboxSystem ι) (i : ι) (call : Command)
    (reset : Option (Word × Word)) : BusOp → MailboxSystem ι
  | .write reg data =>
      if reg = Reg.clkStatus then
        match reset with
        | none => s
        | some (hostCmd, paramResult) =>
            { s with flags := 0, hostCmd, paramResult, inProgress := none }
      else if reg = Reg.hostCmdParamResult then { s with paramResult := devWord e data }
      else if reg = Reg.hostCmd then { s with hostCmd := devWord e data, writer := some (i, call) }
      else if reg = Reg.hostSwFlags then
        if startsCommand (devWord e data) then
          { s with
            flags := devWord e data
            inProgress := some i
            starts := s.starts ++ [⟨i, call, s.writer, s.hostCmd, s.paramResult⟩] }
        else { s with flags := devWord e data }
      else s
  | .read _ _ | .portWrite _ => s

/-- The command a call has started last, after an access of that call. -/
def issuedAfter (e : DevEndian) (s : MailboxSystem ι) (issued : Option Issued) :
    BusOp → Option Issued
  | .read reg _ =>
      if reg = Reg.hostCmdParamResult then
        issued.map fun k =>
          if k.result.isSome then { k with response := some s.paramResult } else k
      else issued
  | .write reg data =>
      if reg = Reg.hostSwFlags ∧ startsCommand (devWord e data) then some ⟨s.hostCmd, none, none⟩
      else issued
  | .portWrite _ => issued

variable [DecidableEq ι]

def setClient (s : MailboxSystem ι) (i : ι) (σ : Session) : MailboxSystem ι :=
  { s with clients := Function.update s.clients i (some σ) }

/-- The session of client `i` after its next access, a question with this continuation. -/
def advance (e : DevEndian) (s : MailboxSystem ι) (σ : Session) (other : Word) (op : BusOp)
    (next : BusAnswer → Tw (HbiStatus × Option Word)) : Session where
  call := σ.call
  todo := next (s.answer e other op)
  record := σ.record ++ [(op, s.answer e other op)]
  issued := s.issuedAfter e σ.issued op

def finish (s : MailboxSystem ι) (i : ι) (result : Word) : MailboxSystem ι :=
  { s with
    flags := s.flags &&& ~~~(hostSwFlagsHostCmd ||| hostSwFlagsAppHostCmd)
    hostCmd := HostCmd.idle
    paramResult := result
    inProgress := none
    clients := Function.update s.clients i ((s.clients i).map (Session.completed result)) }

/-- A client may make a call when its last one has returned. -/
def mayCall (s : MailboxSystem ι) (i : ι) : Bool :=
  match s.clients i with
  | none => true
  | some σ => σ.returned.isSome

def step (pDev : TwDev) (s : MailboxSystem ι) : MailboxEvent ι → Option (MailboxSystem ι)
  | .call i call =>
      if call.usesMailbox && s.mayCall i then some (s.setClient i (Session.begin pDev call))
      else none
  | .access i other reset =>
      match s.clients i with
      | none => none
      | some σ =>
          match σ.todo with
          | .pure _ => none
          | .ask op next =>
              some ((s.deliver pDev.endianness i σ.call reset op).setClient i
                (s.advance pDev.endianness σ other op next))
  | .complete result =>
      match s.inProgress with
      | none => none
      | some i => some (s.finish i result)

end MailboxSystem

/-- The mailbox of one device and the clients that use it. -/
def mailboxMachine (ι : Type) [DecidableEq ι] (pDev : TwDev) :
    Machine (MailboxSystem ι) (MailboxEvent ι) where
  step := MailboxSystem.step pDev

section Step

variable {ι : Type} [DecidableEq ι] {pDev : TwDev} {s s' : MailboxSystem ι} {i : ι} {call : Command}
  {other result : Word} {reset : Option (Word × Word)}

theorem MailboxSystem.step_call (h : (mailboxMachine ι pDev).step s (.call i call) = some s') :
    call.usesMailbox = true ∧ s.mayCall i = true ∧ s' = s.setClient i (Session.begin pDev call) := by
  obtain ⟨hmay, hdone⟩ := Option.ite_none_right_eq_some.1 h
  obtain ⟨huses, hidle⟩ := Bool.and_eq_true_iff.1 hmay
  exact ⟨huses, hidle, (Option.some.inj hdone).symm⟩

theorem MailboxSystem.step_access (h : (mailboxMachine ι pDev).step s (.access i other reset) = some s') :
    ∃ σ op next, s.clients i = some σ ∧ σ.todo = .ask op next ∧
      s' = (s.deliver pDev.endianness i σ.call reset op).setClient i
        (s.advance pDev.endianness σ other op next) := by
  simp only [mailboxMachine, MailboxSystem.step] at h
  cases hσ : s.clients i with
  | none =>
      rw [hσ] at h
      cases h
  | some σ =>
      rw [hσ] at h
      dsimp only at h
      cases htodo : σ.todo with
      | pure out =>
          rw [htodo] at h
          cases h
      | ask op next =>
          rw [htodo] at h
          exact ⟨σ, op, next, rfl, htodo, (Option.some.inj h).symm⟩

theorem MailboxSystem.step_complete (h : (mailboxMachine ι pDev).step s (.complete result) = some s') :
    ∃ i, s.inProgress = some i ∧ s' = s.finish i result := by
  simp only [mailboxMachine, MailboxSystem.step] at h
  cases howner : s.inProgress with
  | none =>
      rw [howner] at h
      cases h
  | some i =>
      rw [howner] at h
      exact ⟨i, rfl, (Option.some.inj h).symm⟩

end Step

/-- Nobody has called yet and no command is in progress; the registers hold anything. -/
structure MailboxSystem.Initial {ι : Type} (s : MailboxSystem ι) : Prop where
  clients : ∀ i, s.clients i = none
  inProgress : s.inProgress = none
  starts : s.starts = []

/-- Every start of a command and every call that returned is as it should be. -/
structure MailboxSystem.Sound {ι : Type} (pDev : TwDev) (s : MailboxSystem ι) : Prop where
  starts : ∀ st ∈ s.starts, st.Sound pDev.endianness
  sessions : ∀ i σ, s.clients i = some σ → σ.Sound pDev

end VprocSdk
