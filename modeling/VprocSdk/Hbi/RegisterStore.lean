import VprocSdk.Hbi.HandleCalls
import VprocSdk.Lib.Trace
import VprocSdk.Tw.Registers

/-!
# The driver as a store of registers

What the driver is for: a client opens a device, and reads and writes registers of that device through the
handle, whichever other devices and clients there are. The specification knows whether the driver is
initialised, and has a device for every handle that is leased and a byte for every register of every device.
The driver below it has its tables and ports, and the devices behind the ports hold their registers by pages
and take messages; a transfer may fail on either side of the device. Every run of the driver is a run of the
specification.
-/

namespace VprocSdk

open Lib

variable {lim : HbiLimits} {s : HbiDrv lim} {i : Fin lim.maxInstances}
  (raw : Chip → List Byte → Chip)

/-! ### The driver and its devices -/

/-- The driver, and the devices that can be behind its ports. -/
structure RegSystem (lim : HbiLimits) where
  drv : HbiDrv lim
  chips : Int → Chip

inductive RegCall
  | driver (call : HbiCall)
  | use (handle : Nat) (call : HandleCall)

inductive RegAnswer
  | driver (status : HbiStatus) (handle : Option Nat)
  | used (answer : HandleAnswer)

/-- A call, what the hardware layer answers during it, and what becomes of each of its transfers. -/
structure RegEvent (lim : HbiLimits) where
  call : RegCall
  hal : Hal
  port : HalPort lim
  fates : Nat → Fate

/-- What the ports answer during a call: each is the port of the device it was opened for. -/
def chipPort (ssl : SslDrv lim) (chips : Int → Chip) (fates : Nat → Fate) : HalPort lim := fun p done op =>
  match (ssl.dev p).pClient with
  | none => ⟨.badHandle, []⟩
  | some c =>
      (Chip.device raw fates (Prog.replay (Chip.device raw fates) (chips c.deviceId, 0) done) op).2

/-- The device that the accesses on a handle go to. -/
def HbiDrv.deviceOf (s : HbiDrv lim) (handle : Nat) : Option Int :=
  match s.validHandle handle with
  | none => none
  | some i =>
      match (s.instList i).pDev with
      | none => none
      | some d => s.deviceReached (s.devList d).portHandle

/-- The devices after the accesses of a call on a handle. -/
def RegSystem.accessed (s : RegSystem lim) (handle : Nat) (fates : Nat → Fate) (record : BusRecord) :
    Int → Chip :=
  match s.drv.deviceOf handle with
  | none => s.chips
  | some deviceId => Function.update s.chips deviceId
      (Prog.replay (Chip.device raw fates) (s.chips deviceId, 0) record).1

/-- A call of a client. The configuration word that `HBI_open` sends leaves the registers alone. -/
def regCall (s : RegSystem lim) (ev : RegEvent lim) : Outcome (RegSystem lim × RegAnswer) :=
  match ev.call with
  | .driver call =>
      (hbiCall s.drv (call, ev.hal, ev.port)).bind fun (drv, status, handle) =>
        .done ({ s with drv }, .driver status handle)
  | .use handle call =>
      (useHandle (chipPort raw s.drv.ssl s.chips ev.fates) s.drv handle call).bind fun (record, answer) =>
        .done ({ s with chips := s.accessed raw handle ev.fates record }, .used answer)

/-- The devices and the driver with the calls made so far and their answers. -/
structure RegRun (lim : HbiLimits) where
  sys : RegSystem lim
  log : List (RegCall × RegAnswer)

def regMachine (lim : HbiLimits) : Machine (RegRun lim) (RegEvent lim) where
  step s ev :=
    match regCall raw s.sys ev with
    | .done (sys, answer) => some ⟨sys, s.log ++ [(ev.call, answer)]⟩
    | .fault _ | .diverges => none

/-! ### What it is for -/

/-- Whether the driver is initialised, the device each handle is leased for, and the registers of every
device. -/
structure RegStore (lim : HbiLimits) where
  initialised : Bool
  leases : Fin lim.maxInstances → Option Int
  regs : Int → Nat → Byte

def RegSystem.store (s : RegSystem lim) : RegStore lim :=
  ⟨s.drv.bInitialized, fun i => (s.drv.leases i).map Lease.deviceId, fun deviceId => (s.chips deviceId).regs⟩

/-- A read or a write of registers of one page, none of which has its address taken by another command
word. -/
def HandleCall.IsReg : HandleCall → Prop
  | .read reg _ length => IsRegAccess reg length ∧ ¬ Shadowed reg true length
  | .write reg (some data) => IsRegAccess reg data.length ∧ ¬ Shadowed reg false data.length
  | .write _ none | .setCommand _ | .sleep | .wake => False

/-- What a call on a handle is refused for. -/
inductive RegStore.Refuses (a : RegStore lim) (handle : Nat) (argsOk : Bool) : HbiStatus → Prop
  | notInit (h : a.initialised = false) : Refuses a handle argsOk .notInit
  | invalidArg (h : argsOk = false) : Refuses a handle argsOk .invalidArg
  | badHandle (h : ∀ i, i.val = handle → a.leases i = none) : Refuses a handle argsOk .badHandle

def HbiCall.Initialises : HbiCall → Prop
  | .init _ | .open _ _ => True
  | .close _ | .term => False

/-- The steps of the store; transfers fail only if it is `faulty`. A write that fails may have been made or
not. What a call that is no access to registers does with the registers of the device it is made on, it does
with no other device's. -/
inductive StoreStep (faulty : Prop) (a : RegStore lim) : RegCall × RegAnswer → RegStore lim → Prop
  | initialised {pCfg : Option Nat} : StoreStep faulty a (.driver (.init pCfg), .driver .success none)
      { a with initialised := true }
  | uninitialised {call : HbiCall} (hcall : call.Initialises) (hinit : a.initialised = false) :
      StoreStep faulty a (.driver call, .driver .internalErr none) a
  | opened {pHandle : Bool} {cfg : DevCfg} {i : Fin lim.maxInstances} (hfree : a.leases i = none) :
      StoreStep faulty a (.driver (.open pHandle (some cfg)), .driver .success (some i.val))
        { a with initialised := true, leases := Function.update a.leases i (some cfg.deviceId) }
  | unopened {pHandle : Bool} {pDevCfg : Option DevCfg} {status : HbiStatus} (hstatus : status ≠ .success) :
      StoreStep faulty a (.driver (.open pHandle pDevCfg), .driver status none) { a with initialised := true }
  | closed {i : Fin lim.maxInstances} {deviceId : Int} {status : HbiStatus} {initialised : Bool}
      (hlease : a.leases i = some deviceId)
      (hlast : initialised = false → ∀ j, j ≠ i → a.leases j = none) :
      StoreStep faulty a (.driver (.close i.val), .driver status none)
        { a with initialised, leases := Function.update a.leases i none }
  | notClosed {handle : Nat} {status : HbiStatus} (hrefuses : a.Refuses handle true status) :
      StoreStep faulty a (.driver (.close handle), .driver status none) a
  | unclosed {i : Fin lim.maxInstances} {deviceId : Int} (hlease : a.leases i = some deviceId) :
      StoreStep faulty a (.driver (.close i.val), .driver .internalErr none) a
  | terminated {initialised : Bool} (hinit : initialised = true → a.initialised = true)
      (hnone : initialised = false → ∀ i, a.leases i = none) :
      StoreStep faulty a (.driver .term, .driver .success none) { a with initialised }
  | unterminated {status : HbiStatus} (hinit : a.initialised = true) (hstatus : status ≠ .success) :
      StoreStep faulty a (.driver .term, .driver status none) a
  | refused {handle : Nat} {call : HandleCall} {status : HbiStatus}
      (hrefuses : a.Refuses handle call.argsOk status) :
      StoreStep faulty a (.use handle call, .used (call.failed status)) a
  | read {i : Fin lim.maxInstances} {deviceId : Int} {reg : RegAddr} {length : Nat}
      (hlease : a.leases i = some deviceId) :
      StoreStep faulty a (.use i.val (.read reg true length),
        .used (.read (.ok (slice (a.regs deviceId) reg.toNat length)))) a
  | unread {i : Fin lim.maxInstances} {deviceId : Int} {reg : RegAddr} {length : Nat} (hfaulty : faulty)
      (hlease : a.leases i = some deviceId) :
      StoreStep faulty a (.use i.val (.read reg true length), .used (.read (.error .internalErr))) a
  | written {i : Fin lim.maxInstances} {deviceId : Int} {reg : RegAddr} {data : List Byte}
      {status : HbiStatus} (hstatus : status = .success ∨ faulty) (hlease : a.leases i = some deviceId) :
      StoreStep faulty a (.use i.val (.write reg (some data)), .used (.status status))
        { a with regs := Function.update a.regs deviceId (overlay (a.regs deviceId) reg.toNat data) }
  | unwritten {i : Fin lim.maxInstances} {deviceId : Int} {reg : RegAddr} {data : List Byte}
      {status : HbiStatus} (hfaulty : faulty) (hstatus : status ≠ .success)
      (hlease : a.leases i = some deviceId) :
      StoreStep faulty a (.use i.val (.write reg (some data)), .used (.status status)) a
  | other {i : Fin lim.maxInstances} {deviceId : Int} {call : HandleCall} {answer : HandleAnswer}
      (hlease : a.leases i = some deviceId) (hother : ¬ call.IsReg) (regs : Nat → Byte) :
      StoreStep faulty a (.use i.val call, .used answer)
        { a with regs := Function.update a.regs deviceId regs }

/-- In the endianness a device has after the tables are cleared, the word `HBI_open` sends it is one that
leaves its registers alone. -/
theorem open_call (chip : Chip) (portHandle : Nat) (fates : Nat → Fate) :
    (internalHbiOpen ⟨.big, portHandle⟩).servedBy (Chip.device raw fates) (chip, 0)
      = ((chip, 1), .success) := by
  have hmessage : hostBytes (hbiVal .big hbiConfigIfCmd) = [0xFD, 0x00] := by decide
  have hreceive : chip.receive raw [0xFD, 0x00] = chip := rfl
  simp only [internalHbiOpen, internalHbiSetAttrib, twWrTransportCmd, sslPortWrite_eq, hmessage]
  dsimp only [Prog.ask_bind, Prog.pure_bind, Prog.servedBy, Chip.device, Chip.serve, BusOp.transfer]
  by_cases hok : (fates 0).status = .ok
  · rw [if_pos hok, hreceive]
    rfl
  · rw [if_neg hok, hreceive, ite_self]
    rfl

/-! ### One call -/

theorem deviceOf_lease (h : DriverInv none s) {lease : Lease} (hlease : s.leases i = some lease) :
    s.deviceOf i.val = some lease.deviceId := by
  obtain ⟨d, hi, hd, -, hport⟩ := HbiDrv.leases_eq_some hlease
  rw [HbiDrv.deviceOf, HbiDrv.validHandle_eq_some.2 ⟨rfl, hi⟩]
  dsimp only
  rw [hd]
  dsimp only
  rw [hport]
  exact deviceReached_lease h hlease

theorem leases_of_invalid {handle : Nat} (h : s.validHandle handle = none) (i : Fin lim.maxInstances)
    (hi : i.val = handle) : s.leases i = none := by
  subst hi
  apply HbiDrv.leases_free
  by_contra hinuse
  rw [HbiDrv.validHandle_eq_some.2 ⟨rfl, eq_true_of_ne_false hinuse⟩] at h
  cases h

/-- A call on a handle is refused by its checks without an access, or served by the device the handle is
leased for. -/
theorem useHandle_cases (h : DriverInv none s) (chips : Int → Chip) (fates : Nat → Fate) (handle : Nat)
    (call : HandleCall) :
    (∃ status, (RegSystem.store ⟨s, chips⟩).Refuses handle call.argsOk status ∧
      useHandle (chipPort raw s.ssl chips fates) s handle call = .done ([], call.failed status)) ∨
    ∃ i lease pDev record answer, i.val = handle ∧ s.leases i = some lease ∧ call.argsOk = true ∧
      useHandle (chipPort raw s.ssl chips fates) s handle call = .done (record, answer) ∧
      (Prog.replay (Chip.device raw fates) (chips lease.deviceId, 0) record, answer)
        = (call.run pDev).servedBy (Chip.device raw fates) (chips lease.deviceId, 0) := by
  unfold useHandle
  by_cases hinit : (!s.bInitialized) = true
  · rw [if_pos hinit]
    exact .inl ⟨_, .notInit (Bool.not_eq_true' _ ▸ hinit), rfl⟩
  rw [if_neg hinit]
  by_cases hargs : (!call.argsOk) = true
  · rw [if_pos hargs]
    exact .inl ⟨_, .invalidArg (by simpa using hargs), rfl⟩
  rw [if_neg hargs]
  cases hvalid : s.validHandle handle with
  | none =>
      left
      refine ⟨.badHandle, .badHandle fun i hi => ?_, ?_⟩
      · exact congrArg (Option.map Lease.deviceId) (leases_of_invalid hvalid i hi)
      · rw [withDevice, hvalid]
  | some i =>
      right
      obtain ⟨rfl, hi⟩ := HbiDrv.validHandle_eq_some.1 hvalid
      obtain ⟨-, d, p, hd, hport, hwith⟩ := withDevice_eq h hi
      have hlease : s.leases i = some ⟨(s.devList d).devCfg.deviceId, (s.devList d).portHandle⟩ := by
        rw [HbiDrv.leases, if_pos hi, hd, Option.map_some]
      obtain ⟨p', c, hport', hdev, hid⟩ := lease_port h hlease
      obtain rfl : p = p' := portHandleOf_inj (hport.symm.trans hport')
      have hanswers : chipPort raw s.ssl chips fates p = fun done op =>
          (Chip.device raw fates (Prog.replay (Chip.device raw fates)
            (chips (s.devList d).devCfg.deviceId, 0) done) op).2 := by
        unfold chipPort
        rw [hdev]
        dsimp only
        rw [hid]
      have hreplay := Prog.run_replay (Chip.device raw fates) (chips (s.devList d).devCfg.deviceId, 0) []
        (call.run (s.devList d).tw)
      rw [← hanswers] at hreplay
      refine ⟨i, _, _, _, _, rfl, hlease, by simpa using hargs, hwith _ _ _, hreplay⟩

theorem accessed_nil (sys : RegSystem lim) (handle : Nat) (fates : Nat → Fate) :
    sys.accessed raw handle fates [] = sys.chips := by
  unfold RegSystem.accessed
  split
  · rfl
  · exact Function.update_eq_self _ _

theorem store_accessed {sys : RegSystem lim} (h : DriverInv none sys.drv) {lease : Lease}
    (hlease : sys.drv.leases i = some lease) (fates : Nat → Fate) (record : BusRecord) :
    RegSystem.store { sys with chips := sys.accessed raw i.val fates record }
      = { sys.store with
          regs := Function.update sys.store.regs lease.deviceId
            (Prog.replay (Chip.device raw fates) (sys.chips lease.deviceId, 0) record).1.regs } := by
  have hregs : ∀ (chip : Chip), (fun deviceId => (Function.update sys.chips lease.deviceId chip deviceId).regs)
      = Function.update (fun deviceId => (sys.chips deviceId).regs) lease.deviceId chip.regs := by
    intro chip
    funext deviceId
    simp only [Function.update_apply]
    split
    · rfl
    · rfl
  simp only [RegSystem.store, RegSystem.accessed, deviceOf_lease h hlease, hregs]

theorem storeStep_served {faulty : Prop} {a : RegStore lim} {deviceId : Int}
    (hlease : a.leases i = some deviceId) {call : HandleCall} (hargs : call.argsOk = true) {chip : Chip}
    (hchip : chip.regs = a.regs deviceId) (pDev : TwDev) {fates : Nat → Fate}
    (hfates : faulty ∨ ∀ n, (fates n).status = .ok) :
    StoreStep faulty a (.use i.val call, .used ((call.run pDev).servedBy (Chip.device raw fates) (chip, 0)).2)
      { a with
        regs := Function.update a.regs deviceId
          ((call.run pDev).servedBy (Chip.device raw fates) (chip, 0)).1.1.regs } := by
  by_cases hreg : call.IsReg
  · have hsame : { a with regs := Function.update a.regs deviceId chip.regs } = a := by
      rw [hchip, Function.update_eq_self]
    cases call with
    | read reg pOutput length =>
        obtain rfl : pOutput = true := hargs
        simp only [HandleCall.run, Prog.servedBy_bind, read_call chip raw hreg.1 hreg.2]
        dsimp only [Prog.pure_eq, Prog.servedBy]
        rw [hsame]
        by_cases hok : (fates 0).status = .ok
        · rw [if_pos hok, hchip]
          exact .read hlease
        · rw [if_neg hok]
          exact .unread (hfates.resolve_right fun hall => hok (hall 0)) hlease
    | write reg pInput =>
        cases pInput with
        | none => cases hargs
        | some data =>
            obtain ⟨chip', status, hserved, hafter, hsound⟩ := write_call chip raw hreg.1 hreg.2 fates
            simp only [HandleCall.run, Option.getD_some, Prog.servedBy_bind, hserved]
            dsimp only [Prog.pure_eq, Prog.servedBy]
            rcases hafter with hregs | ⟨hstatus, rfl⟩
            · rw [hregs, hchip]
              exact .written (hfates.symm.imp_left fun hall => hsound (hall 0)) hlease
            · rw [hsame]
              exact .unwritten (hfates.resolve_right fun hall => hstatus (hsound (hall 0))) hstatus hlease
    | setCommand | sleep | wake => exact hreg.elim
  · exact .other hlease hreg _

theorem store_update {sys : RegSystem lim} {drv : HbiDrv lim} {lease : Option Lease}
    (h : drv.leases = Function.update sys.drv.leases i lease) :
    RegSystem.store { sys with drv } = { sys.store with
      initialised := drv.bInitialized
      leases := Function.update sys.store.leases i (lease.map Lease.deviceId) } := by
  have hleases : (fun j => (drv.leases j).map Lease.deviceId)
      = Function.update (fun j => (sys.drv.leases j).map Lease.deviceId) i (lease.map Lease.deviceId) := by
    funext j
    rw [h]
    simp only [Function.update_apply]
    split
    · rfl
    · rfl
  rw [RegSystem.store, hleases]
  rfl

theorem store_kept {sys : RegSystem lim} {drv : HbiDrv lim} (h : drv.leases = sys.drv.leases) :
    RegSystem.store { sys with drv } = { sys.store with initialised := drv.bInitialized } := by
  rw [RegSystem.store, h]
  rfl

theorem DriverInv.leases_idle (h : DriverInv none s) (hinit : s.bInitialized = false) (i : Fin lim.maxInstances) :
    s.leases i = none := by
  have hnum := (h.idle hinit).1
  rw [h.numInstances] at hnum
  exact HbiDrv.leases_free (by simpa using count_eq_zero.1 hnum i)

section Driver

variable (hal : Hal) (port : HalPort lim) {faulty : Prop} {sys : RegSystem lim}

theorem hbiInit_initialised (s : HbiDrv lim) (pCfg : Option Nat) :
    (hbiInit hal s pCfg).2 = .success ∧ (hbiInit hal s pCfg).1.bInitialized = true ∨
      s.bInitialized = false ∧ (hbiInit hal s pCfg).2 = .internalErr ∧
        (hbiInit hal s pCfg).1.bInitialized = false := by
  unfold hbiInit
  cases hinit : s.bInitialized with
  | true =>
      rw [if_pos rfl]
      exact .inl ⟨rfl, rfl⟩
  | false =>
      rw [if_neg Bool.false_ne_true]
      dsimp only
      split
      · exact .inr ⟨rfl, rfl, rfl⟩
      · exact .inl ⟨rfl, rfl⟩

theorem storeStep_init (h : DriverInv none sys.drv) (pCfg : Option Nat) :
    StoreStep faulty sys.store (.driver (.init pCfg), .driver (hbiInit hal sys.drv pCfg).2 none)
      (RegSystem.store { sys with drv := (hbiInit hal sys.drv pCfg).1 }) := by
  rw [store_kept (hbiInit_leases hal h pCfg)]
  rcases hbiInit_initialised hal sys.drv pCfg with ⟨hstatus, hinit⟩ | ⟨hnot, hstatus, hinit⟩
  · rw [hstatus, hinit]
    exact .initialised
  · rw [hstatus, hinit, ← hnot]
    exact .uninitialised trivial hnot

theorem storeStep_granted {drv : HbiDrv lim} {pHandle : Bool} {cfg : DevCfg} {portHandle : Nat}
    (hnone : sys.drv.leases i = none)
    (hleases : drv.leases = Function.update sys.drv.leases i (some ⟨cfg.deviceId, portHandle⟩))
    (hinit : drv.bInitialized = true) :
    StoreStep faulty sys.store (.driver (.open pHandle (some cfg)), .driver .success (some i.val))
      (RegSystem.store { sys with drv }) := by
  rw [store_update hleases, hinit]
  exact .opened (congrArg (Option.map Lease.deviceId) hnone)

theorem storeStep_open (h : DriverInv none sys.drv) (pHandle : Bool) (pDevCfg : Option DevCfg)
    {r : HbiDrv lim × HbiStatus × Option Nat} (hr : hbiOpen hal port sys.drv pHandle pDevCfg = .done r) :
    StoreStep faulty sys.store (.driver (.open pHandle pDevCfg), .driver r.2.1 r.2.2)
      (RegSystem.store { sys with drv := r.1 }) := by
  have hleases := hbiInit_leases hal h none
  rcases hbiInit_initialised hal sys.drv none with ⟨hstatus, hinit⟩ | ⟨hnot, hstatus, hinit⟩
  · rcases hbiOpen_cases hal port sys.drv pHandle pDevCfg with
      ⟨status, hfailed, heq⟩ | ⟨cfg, rfl, -, hlimit, heq⟩
    · rw [heq] at hr
      cases hr
      rw [store_kept hleases, hinit]
      exact .unopened hfailed
    · have hdrv := (hbiInit_inv hal h none).1
      generalize (hbiInit hal sys.drv none).1 = drv at *
      rw [heq] at hr
      rcases openUser_cases hal port hdrv hlimit cfg with
        ⟨-, status, hfailed, heq⟩ | ⟨d, i, hfree, -, -, hid, heq⟩ |
        ⟨d, i, p, c, hfree, hd, -, -, -, -, -, -, heq⟩
      · rw [heq] at hr
        cases hr
        rw [store_kept hleases, hinit]
        exact .unopened hfailed
      · rw [heq] at hr
        cases hr
        exact storeStep_granted (hleases ▸ HbiDrv.leases_free hfree)
          (by rw [HbiDrv.leases_added, hid, hleases]) hinit
      · rw [heq] at hr
        cases hr
        have hid : ((openDevice drv d cfg (drv.ssl.opened p c) (portHandleOf p)).devList d).devCfg.deviceId
            = cfg.deviceId := by simp [openDevice]
        exact storeStep_granted (hleases ▸ HbiDrv.leases_free hfree)
          (by rw [HbiDrv.leases_added, HbiDrv.leases_openDevice hdrv hd, hid, hleases]) hinit
  · have heq : hbiOpen hal port sys.drv pHandle pDevCfg = .done ((hbiInit hal sys.drv none).1, .internalErr, none) := by
      unfold hbiOpen
      dsimp only
      rw [if_pos (by rw [hstatus]; decide), hstatus]
    rw [heq] at hr
    cases hr
    rw [store_kept hleases, hinit, ← hnot]
    exact .uninitialised trivial hnot

theorem storeStep_ended {drv : HbiDrv lim} {lease : Lease} {status : HbiStatus} (hinv : DriverInv none drv)
    (hlease : sys.drv.leases i = some lease) (hleases : drv.leases = Function.update sys.drv.leases i none) :
    StoreStep faulty sys.store (.driver (.close i.val), .driver status none)
      (RegSystem.store { sys with drv }) := by
  rw [store_update hleases]
  refine .closed (congrArg (Option.map Lease.deviceId) hlease) fun hinit j hj => ?_
  have hnone := hinv.leases_idle hinit j
  rw [hleases, Function.update_of_ne hj] at hnone
  exact congrArg (Option.map Lease.deviceId) hnone

theorem storeStep_close (h : DriverInv none sys.drv) (handle : Nat)
    {r : HbiDrv lim × HbiStatus} (hr : hbiClose hal sys.drv handle = .done r) (hinv : DriverInv none r.1) :
    StoreStep faulty sys.store (.driver (.close handle), .driver r.2 none)
      (RegSystem.store { sys with drv := r.1 }) := by
  unfold hbiClose at hr
  by_cases hinit : (!sys.drv.bInitialized) = true
  · rw [if_pos hinit] at hr
    cases hr
    exact .notClosed (.notInit (Bool.not_eq_true' _ ▸ hinit))
  rw [if_neg hinit] at hr
  cases hvalid : sys.drv.validHandle handle with
  | none =>
      rw [hvalid] at hr
      cases hr
      refine .notClosed (.badHandle fun i hi => ?_)
      exact congrArg (Option.map Lease.deviceId) (leases_of_invalid hvalid i hi)
  | some i =>
      rw [hvalid] at hr
      obtain ⟨rfl, hi⟩ := HbiDrv.validHandle_eq_some.1 hvalid
      obtain ⟨d', hd', -⟩ := h.instDev i hi
      obtain ⟨lease, hlease⟩ : ∃ lease, sys.drv.leases i = some lease := by
        rw [HbiDrv.leases, if_pos hi, hd']
        exact ⟨_, rfl⟩
      replace hr : closeUser hal sys.drv i = .done r := hr
      rcases closeUser_cases hal h hi with
        heq | ⟨-, heq⟩ | ⟨d, hpDev, hd, hmore, heq⟩ | ⟨d, p, hpDev, hd, hlast, hport, heq⟩
      · rw [heq] at hr
        cases hr
      · rw [heq] at hr
        cases hr
        exact .unclosed (congrArg (Option.map Lease.deviceId) hlease)
      · rw [heq, Outcome.done.injEq] at hr
        subst hr
        exact storeStep_ended hinv hlease (by rw [hbiTerm_leases, HbiDrv.leases_removed])
      · rw [heq, Outcome.done.injEq] at hr
        subst hr
        refine storeStep_ended hinv hlease ?_
        rw [hbiTerm_leases, HbiDrv.leases_closeDevice (h.no_user_left hi hpDev hlast), HbiDrv.leases_removed]

theorem storeStep_term (h : DriverInv none sys.drv) :
    StoreStep faulty sys.store (.driver .term, .driver (hbiTerm hal sys.drv).2 none)
      (RegSystem.store { sys with drv := (hbiTerm hal sys.drv).1 }) := by
  have hidle := fun (drv : HbiDrv lim) (hdrv : DriverInv none drv) (hleases : drv.leases = sys.drv.leases)
      (hinit : drv.bInitialized = false) (i : Fin lim.maxInstances) =>
    show sys.store.leases i = none from
      congrArg (Option.map Lease.deviceId) ((congrFun hleases i).symm.trans (hdrv.leases_idle hinit i))
  have hinv : DriverInv none (hbiTerm hal sys.drv).1 := hbiCall_inv h (.term, hal, fun _ _ _ => ⟨.ok, []⟩)
  have hnone := hidle _ hinv (hbiTerm_leases hal sys.drv)
  rw [store_kept (hbiTerm_leases hal sys.drv)]
  rcases hbiTerm_cases hal sys.drv with
    ⟨hinit, heq⟩ | ⟨hinit, ⟨-, heq⟩ | ⟨-, -, heq⟩ | ⟨-, -, ssl, -, heq | ⟨-, initCount, heq⟩⟩⟩
  · rw [heq] at hnone ⊢
    exact .terminated id hnone
  · rw [heq] at hnone ⊢
    exact .terminated id hnone
  · rw [heq]
    exact .unterminated hinit nofun
  · rw [heq]
    exact .unterminated hinit nofun
  · rw [heq] at hnone ⊢
    exact .terminated nofun hnone

/-- A call of the driver is a step of the store. -/
theorem storeStep_driver (h : DriverInv none sys.drv) (call : HbiCall) {r : HbiDrv lim × HbiStatus × Option Nat}
    (hr : hbiCall sys.drv (call, hal, port) = .done r) (hinv : DriverInv none r.1) :
    StoreStep faulty sys.store (.driver call, .driver r.2.1 r.2.2) (RegSystem.store { sys with drv := r.1 }) := by
  cases call with
  | init pCfg =>
      cases hr
      exact storeStep_init hal h pCfg
  | term =>
      cases hr
      exact storeStep_term hal h
  | «open» pHandle pDevCfg => exact storeStep_open hal port h pHandle pDevCfg hr
  | close handle =>
      dsimp only [hbiCall] at hr
      cases hclose : hbiClose hal sys.drv handle with
      | done r' =>
          rw [hclose] at hr
          cases hr
          exact storeStep_close hal h handle hclose hinv
      | fault f =>
          rw [hclose] at hr
          cases hr
      | diverges =>
          rw [hclose] at hr
          cases hr

end Driver

theorem regCall_step {faulty : Prop} {sys : RegSystem lim} {ev : RegEvent lim} (h : DriverInv none sys.drv)
    (hfates : faulty ∨ ∀ n, (ev.fates n).status = .ok) {r : RegSystem lim × RegAnswer}
    (hr : regCall raw sys ev = .done r) :
    DriverInv none r.1.drv ∧ StoreStep faulty sys.store (ev.call, r.2) r.1.store := by
  unfold regCall at hr
  cases hcall : ev.call with
  | driver call =>
      rw [hcall] at hr
      dsimp only at hr
      cases hdriver : hbiCall sys.drv (call, ev.hal, ev.port) with
      | fault f =>
          rw [hdriver] at hr
          cases hr
      | diverges =>
          rw [hdriver] at hr
          cases hr
      | done q =>
          have hinv := hbiCall_inv h (call, ev.hal, ev.port)
          rw [hdriver] at hr hinv
          cases hr
          exact ⟨hinv, storeStep_driver ev.hal ev.port h call hdriver hinv⟩
  | use handle call =>
      rw [hcall] at hr
      dsimp only at hr
      rcases useHandle_cases raw h sys.chips ev.fates handle call with
        ⟨status, hstatus, heq⟩ | ⟨i, lease, pDev, record, answer, rfl, hlease, hargs, heq, hserved⟩
      · rw [heq] at hr
        cases hr
        rw [accessed_nil]
        exact ⟨h, .refused hstatus⟩
      · rw [heq] at hr
        cases hr
        refine ⟨h, ?_⟩
        have hleased : sys.store.leases i = some lease.deviceId := congrArg (Option.map Lease.deviceId) hlease
        have hregs : (sys.chips lease.deviceId).regs = sys.store.regs lease.deviceId := rfl
        have hstep := storeStep_served raw hleased hargs hregs pDev hfates
        rw [← hserved] at hstep
        rw [store_accessed raw h hlease]
        exact hstep

/-! ### Every run -/

section Runs

variable {chips : Int → Chip} {events : List (RegEvent lim)} {run : RegRun lim}

/-- A call of a run is a step of the store, and leaves the tables of the driver in order. -/
theorem regMachine_step {faulty : Prop} {run' : RegRun lim} {ev : RegEvent lim}
    (hinv : DriverInv none run.sys.drv) (hfates : faulty ∨ ∀ n, (ev.fates n).status = .ok)
    (hstep : (regMachine raw lim).step run ev = some run') :
    DriverInv none run'.sys.drv ∧
      ∃ entry, run'.log = run.log ++ [entry] ∧ StoreStep faulty run.sys.store entry run'.sys.store := by
  simp only [regMachine] at hstep
  cases hcall : regCall raw run.sys ev with
  | fault f =>
      rw [hcall] at hstep
      cases hstep
  | diverges =>
      rw [hcall] at hstep
      cases hstep
  | done q =>
      rw [hcall] at hstep
      cases hstep
      obtain ⟨hinv', hspec⟩ := regCall_step raw hinv hfates hcall
      exact ⟨hinv', _, rfl, hspec⟩

/-- Some transfer of the calls fails. -/
def Faulty (events : List (RegEvent lim)) : Prop := ∃ ev ∈ events, ∃ n, (ev.fates n).status ≠ .ok

def RegStore.start (lim : HbiLimits) (chips : Int → Chip) : RegStore lim :=
  ⟨false, fun _ => none, fun deviceId => (chips deviceId).regs⟩

/-- The handle was given out for the device and not given to `HBI_close` since. -/
def OpenedFor (log : List (RegCall × RegAnswer)) (handle : Nat) (deviceId : Int) : Prop :=
  ∃ pre suf pHandle cfg, cfg.deviceId = deviceId ∧
    log = pre ++ (.driver (.open pHandle (some cfg)), .driver .success (some handle)) :: suf ∧
    ∀ e ∈ suf, e.1 ≠ .driver (.close handle)

variable {faulty : Prop} {a b : RegStore lim} {log : List (RegCall × RegAnswer)}

theorem OpenedFor.leased {handle : Nat} {deviceId : Int} (h : OpenedFor log handle deviceId)
    (htrace : Trace (StoreStep faulty) a log b) : ∃ i, i.val = handle ∧ b.leases i = some deviceId := by
  obtain ⟨pre, suf, pHandle, cfg, rfl, rfl, hclose⟩ := h
  obtain ⟨before, after, -, hopen, hrest⟩ := htrace.step_at
  cases hopen with
  | @opened _ _ i hfree =>
      refine ⟨i, rfl, ?_⟩
      refine hrest.induct (P := fun _ b => b.leases i = some cfg.deviceId) (by simp) ?_
      intro pre' e suf' b b' hsuf hb hstep
      have he := hclose e (by rw [hsuf]; simp)
      cases hstep with
      | @opened _ _ j hj =>
          have hji : i ≠ j := by
            rintro rfl
            rw [hj] at hb
            cases hb
          exact (Function.update_of_ne hji _ _).trans hb
      | @closed j =>
          have hji : i ≠ j := by
            rintro rfl
            exact he rfl
          exact (Function.update_of_ne hji _ _).trans hb
      | initialised | uninitialised | unopened | notClosed | unclosed | terminated | unterminated | refused
        | read | unread | written | unwritten | other => exact hb

/-- The call does not write the registers of the device from `reg` on: it is one of the driver, an access to
registers that reads, or writes others, or it is made on a handle of another device. -/
def LeavesReg (log : List (RegCall × RegAnswer)) (deviceId : Int) (reg length : Nat) : RegCall → Prop
  | .driver _ => True
  | .use handle call =>
      (∃ deviceId', deviceId' ≠ deviceId ∧ OpenedFor log handle deviceId') ∨
        call.IsReg ∧ ∀ reg' data, call = .write reg' (some data) →
          reg + length ≤ reg'.toNat ∨ reg'.toNat + data.length ≤ reg

theorem StoreStep.leaves {e : RegCall × RegAnswer} {deviceId : Int} {reg length : Nat}
    (h : StoreStep faulty a e b) {log : List (RegCall × RegAnswer)} {a₀ : RegStore lim}
    (htrace : Trace (StoreStep faulty) a₀ log a) (hleaves : LeavesReg log deviceId reg length e.1) :
    slice (b.regs deviceId) reg length = slice (a.regs deviceId) reg length := by
  have hother : ∀ {i : Fin lim.maxInstances} {deviceId' : Int} (regs : Nat → Byte),
      a.leases i = some deviceId' → (∃ id, id ≠ deviceId ∧ OpenedFor log i.val id) →
      Function.update a.regs deviceId' regs deviceId = a.regs deviceId := by
    intro i deviceId' regs hlease hopened
    obtain ⟨id, hne, hfor⟩ := hopened
    obtain ⟨j, hj, hid⟩ := hfor.leased htrace
    obtain rfl : j = i := Fin.ext hj
    rw [hlease, Option.some.injEq] at hid
    exact Function.update_of_ne (hid ▸ hne.symm) _ _
  cases h with
  | initialised | uninitialised | opened | unopened | closed | notClosed | unclosed | terminated | unterminated
    | refused | read | unread | unwritten => rfl
  | @written i deviceId' reg' data status hstatus hlease =>
      rcases hleaves with hopened | ⟨-, hapart⟩
      · simp only [hother _ hlease hopened]
      · by_cases hsame : deviceId' = deviceId
        · subst hsame
          dsimp only
          rw [Function.update_self]
          refine slice_congr fun k hk => ?_
          rcases hapart reg' data rfl with hbehind | hbefore
          · exact overlay_before (by omega)
          · exact overlay_behind (by omega)
        · dsimp only
          rw [Function.update_of_ne (Ne.symm hsame)]
  | other hlease hnot regs =>
      rcases hleaves with hopened | ⟨hreg, -⟩
      · simp only [hother _ hlease hopened]
      · exact absurd hreg hnot

theorem StoreStep.written_regs {handle : Nat} {deviceId : Int} {reg : RegAddr} {data : List Byte}
    (h : StoreStep faulty a (.use handle (.write reg (some data)), .used (.status .success)) b)
    (hreg : (HandleCall.write reg (some data)).IsReg)
    (hlease : ∃ i, i.val = handle ∧ a.leases i = some deviceId) :
    b.regs deviceId = overlay (a.regs deviceId) reg.toNat data := by
  obtain ⟨i, rfl, hdevice⟩ := hlease
  generalize hentry : (RegCall.use i.val (.write reg (some data)), RegAnswer.used (.status .success)) = e at h
  cases h with
  | @refused handle call status hrefuses =>
      obtain ⟨⟨-, rfl⟩, hfailed⟩ : (i.val = handle ∧ HandleCall.write reg (some data) = call) ∧
          HandleAnswer.status .success = call.failed status := by simpa using hentry
      cases hfailed
      cases hrefuses
  | @written j deviceId' reg' data' status hstatus hlease' =>
      simp only [Prod.mk.injEq, RegCall.use.injEq, HandleCall.write.injEq, Option.some.injEq] at hentry
      obtain ⟨⟨hij, rfl, rfl⟩, -⟩ := hentry
      obtain rfl : i = j := Fin.ext hij
      obtain rfl : deviceId = deviceId' := by simpa [hdevice] using hlease'
      exact Function.update_self _ _ _
  | unwritten hfaulty hstatus hlease' =>
      simp only [Prod.mk.injEq, RegAnswer.used.injEq, HandleAnswer.status.injEq] at hentry
      exact absurd hentry.2.symm hstatus
  | other hlease' hother =>
      simp only [Prod.mk.injEq, RegCall.use.injEq] at hentry
      rw [← hentry.1.2] at hother
      exact absurd hreg hother
  | initialised | uninitialised | opened | unopened | closed | notClosed | unclosed | terminated | unterminated
    | read | unread => simp at hentry

theorem StoreStep.read_bytes {handle : Nat} {deviceId : Int} {reg : RegAddr} {length : Nat}
    {bytes : List Byte}
    (h : StoreStep faulty a (.use handle (.read reg true length), .used (.read (.ok bytes))) b)
    (hreg : (HandleCall.read reg true length).IsReg)
    (hlease : ∃ i, i.val = handle ∧ a.leases i = some deviceId) :
    bytes = slice (a.regs deviceId) reg.toNat length := by
  obtain ⟨i, rfl, hdevice⟩ := hlease
  generalize hentry : (RegCall.use i.val (.read reg true length), RegAnswer.used (.read (.ok bytes))) = e at h
  cases h with
  | @refused handle call status hstatus =>
      obtain ⟨⟨-, rfl⟩, hfailed⟩ : (i.val = handle ∧ HandleCall.read reg true length = call) ∧
          HandleAnswer.read (.ok bytes) = call.failed status := by simpa using hentry
      cases hfailed
  | @read j deviceId' reg' length' hlease' =>
      simp only [Prod.mk.injEq, RegCall.use.injEq, HandleCall.read.injEq, RegAnswer.used.injEq,
        HandleAnswer.read.injEq, Except.ok.injEq] at hentry
      obtain ⟨⟨hij, rfl, -, rfl⟩, hbytes⟩ := hentry
      obtain rfl : i = j := Fin.ext hij
      obtain rfl : deviceId = deviceId' := by simpa [hdevice] using hlease'
      exact hbytes
  | other hlease' hother =>
      simp only [Prod.mk.injEq, RegCall.use.injEq] at hentry
      rw [← hentry.1.2] at hother
      exact absurd hreg hother
  | initialised | uninitialised | opened | unopened | closed | notClosed | unclosed | terminated | unterminated
    | unread | written | unwritten => simp at hentry

end Runs

/-! ### A run -/

def onRegisters (call : RegCall) (fate : Fate) : RegEvent twoByTwo :=
  ⟨call, halOk, silentPort twoByTwo, fun _ => fate⟩

def writeCall : HandleCall := .write 0x0200 (some [1, 2, 3, 4])

def readCall : HandleCall := .read 0x0202 true 2

/-- Two devices are opened, and four registers of the first are written and two of them read, with a write to
the second device between that is lost. -/
def writeThenRead : List (RegEvent twoByTwo) :=
  [onRegisters (.driver (.open true (some (deviceCfg 7)))) ⟨.ok, true⟩,
    onRegisters (.driver (.open true (some (deviceCfg 9)))) ⟨.ok, true⟩,
    onRegisters (.use 0 writeCall) ⟨.ok, true⟩, onRegisters (.use 1 writeCall) ⟨.internalErr, false⟩,
    onRegisters (.use 0 readCall) ⟨.ok, true⟩]

/-- What the calls of `writeThenRead` answer. -/
def writeThenReadLog : List (RegCall × RegAnswer) :=
  [(.driver (.open true (some (deviceCfg 7))), .driver .success (some 0)),
    (.driver (.open true (some (deviceCfg 9))), .driver .success (some 1)),
    (.use 0 writeCall, .used (.status .success)), (.use 1 writeCall, .used (.status .internalErr)),
    (.use 0 readCall, .used (.read (.ok [3, 4])))]

theorem writeThenRead_run : ∃ run, (regMachine (fun chip _ => chip) twoByTwo).exec
    ⟨⟨.start, fun _ _ _ => 0⟩, []⟩ writeThenRead = some run ∧ run.log = writeThenReadLog :=
  ⟨_, rfl, rfl⟩

theorem writeCall_isReg : writeCall.IsReg :=
  ⟨⟨⟨by decide, by decide, by decide⟩, by decide⟩, by unfold Shadowed; decide⟩

theorem readCall_isReg : readCall.IsReg :=
  ⟨⟨⟨by decide, by decide, by decide⟩, by decide⟩, by unfold Shadowed; decide⟩

end VprocSdk
