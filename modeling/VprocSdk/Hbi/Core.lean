import VprocSdk.Hbi.Ssl
import VprocSdk.Tw.Commands

/-!
# The HBI driver

`hbi.c`: the tables of devices and of users, and the calls that open, close and use a handle. Calls
are sequential here, each under the driver's lock. The build is the default one: `INIT_TERM_AUTO` is
defined, so `HBI_open` initialises the driver and `HBI_close` terminates it.

A call may leave the language's rails: an index past the end of a table that is used, a `NULL` device
that is read through, a counter that is decremented at zero. Each is an outcome of its own, so that
what never happens can be stated. Counters of `uint32_t` are numbers below 2^32.
-/

namespace VprocSdk

open Lib

variable {lim : HbiLimits}

def hbiInstInvalidId : Nat := 0xFFFFFFFF

structure VprocDev (lim : HbiLimits) where
  endianness : DevEndian
  devCfg : DevCfg
  portHandle : Nat
  portLock : Nat
  instances : Fin lim.maxInstPerDev → Nat
  numCurInstances : Nat
  inuse : Bool

structure VprocInst (lim : HbiLimits) where
  pDev : Option (Fin lim.maxNumDevs)
  inuse : Bool
  deriving DecidableEq

/-- `struct hbi_drv_priv`, with the System Service Layer below it. -/
structure HbiDrv (lim : HbiLimits) where
  devList : Fin lim.maxNumDevs → VprocDev lim
  instList : Fin lim.maxInstances → VprocInst lim
  cfgLock : Nat
  bInitialized : Bool
  numOpenedDev : Nat
  numInstances : Nat
  initCount : Nat
  ssl : SslDrv lim

/-- What goes wrong in a call: an index past the end of a table is used, a `NULL` device is read
through, or one of the counters of users and devices is decremented at zero. -/
inductive Fault
  | outOfTable | nullDevice | underflow
  deriving DecidableEq, Repr

inductive Outcome (α : Type)
  | done (a : α)
  | fault (f : Fault)
  | diverges

def Outcome.bind {α β : Type} : Outcome α → (α → Outcome β) → Outcome β
  | .done a, f => f a
  | .fault f, _ => .fault f
  | .diverges, _ => .diverges

def incr (n : Nat) : Nat := (n + 1) % 2 ^ 32

def decr (n : Nat) : Outcome Nat := if n = 0 then .fault .underflow else .done (n - 1)

def VprocDev.cleared : VprocDev lim where
  endianness := .big
  devCfg := ⟨0, none, 0, 0, 0⟩
  portHandle := 0
  portLock := 0
  instances := fun _ => 0
  numCurInstances := 0
  inuse := false

namespace HbiDrv

def memset (s : HbiDrv lim) : HbiDrv lim where
  devList := fun _ => .cleared
  instList := fun _ => ⟨none, false⟩
  cfgLock := 0
  bInitialized := false
  numOpenedDev := 0
  numInstances := 0
  initCount := 0
  ssl := s.ssl

def start : HbiDrv lim :=
  memset ⟨fun _ => .cleared, fun _ => ⟨none, false⟩, 0, false, 0, 0, 0, .cleared⟩

def setDev (s : HbiDrv lim) (d : Fin lim.maxNumDevs) (dev : VprocDev lim) : HbiDrv lim :=
  { s with devList := Function.update s.devList d dev }

def setInst (s : HbiDrv lim) (i : Fin lim.maxInstances) (inst : VprocInst lim) : HbiDrv lim :=
  { s with instList := Function.update s.instList i inst }

/-- The user table's entry for a handle that passes `CHK_VALID_HANDLE`. -/
def validHandle (s : HbiDrv lim) (handle : Nat) : Option (Fin lim.maxInstances) :=
  if h : handle < lim.maxInstances then
    if (s.instList ⟨handle, h⟩).inuse then some ⟨handle, h⟩ else none
  else none

end HbiDrv

/-! ### Initialisation -/

/-- `HBI_init`; the argument is the lock of the configuration, if one is passed. -/
def hbiInit (hal : Hal) (s : HbiDrv lim) (pCfg : Option Nat) : HbiDrv lim × HbiStatus :=
  if s.bInitialized then ({ s with initCount := incr s.initCount }, .success)
  else
    let s := s.memset
    let (ssl, sslStatus) := sslInit hal s.ssl
    let s := { s with ssl }
    if sslStatus ≠ .ok then (s, .internalErr)
    else
      let s := { s with cfgLock := pCfg.getD s.cfgLock }
      ({ s with bInitialized := true, initCount := incr s.initCount }, .success)

/-- `HBI_term`. `init_count` wraps around; it counts calls, not users or devices. -/
def hbiTerm (hal : Hal) (s : HbiDrv lim) : HbiDrv lim × HbiStatus :=
  if !s.bInitialized then (s, .success)
  else if s.initCount > 1 then ({ s with initCount := s.initCount - 1 }, .success)
  else if s.numInstances ≠ 0 ∨ s.numOpenedDev ≠ 0 then (s, .invalidState)
  else
    let (ssl, sslStatus) := sslTerm hal s.ssl
    let s := { s with ssl }
    if sslStatus ≠ .ok then (s, .internalErr)
    else ({ s with initCount := (s.initCount + (2 ^ 32 - 1)) % 2 ^ 32, bInitialized := false }, .success)

/-! ### Opening -/

/-- `internal_hbi_open`: what the device answers does not matter. -/
def internalHbiOpen (pDev : TwDev) : Tw HbiStatus := do
  let _ ← internalHbiSetAttrib pDev (.devEndian (some pDev.endianness))
  return .success

def VprocDev.tw (dev : VprocDev lim) : TwDev := ⟨dev.endianness, dev.portHandle⟩

def addUser (s : HbiDrv lim) (pDev : Fin lim.maxNumDevs) (pInst : Option (Fin lim.maxInstances))
    (status : HbiStatus) : Outcome (HbiDrv lim × HbiStatus × Option Nat) :=
  match pInst with
  | none => .fault .outOfTable
  | some i =>
      let instIndex := i.val % 2 ^ 8
      let dev := s.devList pDev
      if h : dev.numCurInstances < lim.maxInstPerDev then
        let s := s.setDev pDev { dev with
          instances := Function.update dev.instances ⟨dev.numCurInstances, h⟩ instIndex
          numCurInstances := incr dev.numCurInstances }
        let s := s.setInst i ⟨some pDev, true⟩
        .done ({ s with numInstances := incr s.numInstances }, status, some instIndex)
      else .fault .outOfTable

/-- A device slot taken for a port that was opened. -/
def openDevice (s : HbiDrv lim) (pDev : Fin lim.maxNumDevs) (pDevCfg : DevCfg) (ssl : SslDrv lim)
    (handle : Nat) : HbiDrv lim :=
  let dev := s.devList pDev
  { s with
    ssl
    devList := Function.update s.devList pDev
      { dev with
        portHandle := handle
        portLock := if pDevCfg.devLock ≠ 0 then pDevCfg.devLock else dev.portLock
        devCfg := pDevCfg
        inuse := true }
    numOpenedDev := incr s.numOpenedDev }

/-- `HBI_open` after its argument checks. -/
def openUser (hal : Hal) (port : HalPort lim) (s : HbiDrv lim) (pDevCfg : DevCfg) :
    Outcome (HbiDrv lim × HbiStatus × Option Nat) :=
  let pInst := firstSlot fun i => !(s.instList i).inuse
  match firstSlot fun d => decide ((s.devList d).devCfg.deviceId = pDevCfg.deviceId) &&
      decide ((s.devList d).portHandle ≠ 0) with
  | some pDev =>
      if (s.devList pDev).numCurInstances ≥ lim.maxInstPerDev then .done (s, .resourceErr, none)
      else addUser s pDev pInst .success
  | none =>
      if s.numOpenedDev ≥ lim.maxNumDevs then .done (s, .resourceErr, none)
      else
        match firstSlot fun d => !(s.devList d).inuse with
        | none => .fault .outOfTable
        | some pDev =>
            let sslDevcfg : SslDevCfg :=
              ⟨pDevCfg.deviceId, pDevCfg.devAddr.setWidth 16, pDevCfg.pDevName, pDevCfg.busNum⟩
            match sslPortOpen hal s.ssl sslDevcfg with
            | (ssl, .ok, some handle) =>
                let s := openDevice s pDev pDevCfg ssl handle
                let status := ((internalHbiOpen (s.devList pDev).tw).run
                  (sslPortAnswer ssl handle port) []).2
                addUser s pDev pInst status
            | (ssl, _, _) => .done ({ s with ssl }, .internalErr, none)

/-- `HBI_open`: the status, and the handle stored through `pHandle`. -/
def hbiOpen (hal : Hal) (port : HalPort lim) (s : HbiDrv lim) (pHandle : Bool)
    (pDevCfg : Option DevCfg) : Outcome (HbiDrv lim × HbiStatus × Option Nat) :=
  let (s, status) := hbiInit hal s none
  if status ≠ .success then .done (s, status, none)
  else if !s.bInitialized then .done (s, .notInit, none)
  else if !pHandle then .done (s, .invalidArg, none)
  else
    match pDevCfg with
    | none => .done (s, .invalidArg, none)
    | some pDevCfg =>
        if s.numInstances ≥ lim.maxInstances then .done (s, .resourceErr, none)
        else openUser hal port s pDevCfg

/-! ### Closing -/

def markInvalid (dev : VprocDev lim) (instIndex : Nat) : VprocDev lim :=
  match firstSlot fun k : Fin lim.maxInstPerDev =>
      decide (k.val < dev.numCurInstances) && decide (dev.instances k = instIndex) with
  | none => dev
  | some k => { dev with instances := Function.update dev.instances k hbiInstInvalidId }

/-- A device slot given back after its port was closed. -/
def closeDevice (s : HbiDrv lim) (pDev : Fin lim.maxNumDevs) (ssl : SslDrv lim) (numOpenedDev : Nat) :
    HbiDrv lim :=
  let dev := s.devList pDev
  { s with
    ssl
    devList := Function.update s.devList pDev
      { dev with portHandle := 0, devCfg := { dev.devCfg with pDevName := none }, inuse := false }
    numOpenedDev }

/-- The end of `HBI_close`: one user less of a device. -/
def removeUser (s : HbiDrv lim) (pInst : Fin lim.maxInstances) (pDev : Fin lim.maxNumDevs) :
    Outcome (HbiDrv lim) :=
  let s := s.setInst pInst ⟨none, false⟩
  if (s.devList pDev).numCurInstances > lim.maxInstPerDev then .fault .outOfTable
  else
    let dev := markInvalid (s.devList pDev) pInst.val
    (decr dev.numCurInstances).bind fun numCurInstances =>
      let s := s.setDev pDev { dev with numCurInstances }
      (decr s.numInstances).bind fun numInstances => .done { s with numInstances }

def closeUser (hal : Hal) (s : HbiDrv lim) (pInst : Fin lim.maxInstances) :
    Outcome (HbiDrv lim × HbiStatus) :=
  match (s.instList pInst).pDev with
  | none => .fault .nullDevice
  | some pDev =>
      if (s.devList pDev).numCurInstances = 1 then
        match sslPortClose hal s.ssl (s.devList pDev).portHandle with
        | none => .diverges
        | some (ssl, sslStatus) =>
            if sslStatus ≠ .ok then .done ({ s with ssl }, .internalErr)
            else
              (decr s.numOpenedDev).bind fun numOpenedDev =>
                (removeUser (closeDevice s pDev ssl numOpenedDev) pInst pDev).bind fun s =>
                  .done (hbiTerm hal s)
      else (removeUser s pInst pDev).bind fun s => .done (hbiTerm hal s)

def hbiClose (hal : Hal) (s : HbiDrv lim) (handle : Nat) : Outcome (HbiDrv lim × HbiStatus) :=
  if !s.bInitialized then .done (s, .notInit)
  else
    match s.validHandle handle with
    | none => .done (s, .badHandle)
    | some pInst => closeUser hal s pInst

/-! ### Using a handle -/

/-- The part `HBI_read`, `HBI_write` and `HBI_set_command` share: check the handle, look up its device
and run a function of the device layer on the device's port. -/
def withDevice {α : Type} (port : HalPort lim) (s : HbiDrv lim) (handle : Nat) (failed : HbiStatus → α)
    (run : TwDev → Tw α) : Outcome (BusRecord × α) :=
  match s.validHandle handle with
  | none => .done ([], failed .badHandle)
  | some pInst =>
      match (s.instList pInst).pDev with
      | none => .fault .nullDevice
      | some pDev =>
          .done ((run (s.devList pDev).tw).run
            (sslPortAnswer s.ssl (s.devList pDev).portHandle port) [])

/-- `HBI_read`: the accesses made, and the bytes stored through `pOutput` or an error. -/
def hbiRead (port : HalPort lim) (s : HbiDrv lim) (handle : Nat) (reg : RegAddr) (pOutput : Bool)
    (length : Nat) : Outcome (BusRecord × Except HbiStatus (List Byte)) :=
  if !s.bInitialized then .done ([], .error .notInit)
  else if !pOutput then .done ([], .error .invalidArg)
  else withDevice port s handle .error fun _ => internalHbiRead reg length

def hbiWrite (port : HalPort lim) (s : HbiDrv lim) (handle : Nat) (reg : RegAddr)
    (pInput : Option (List Byte)) : Outcome (BusRecord × HbiStatus) :=
  if !s.bInitialized then .done ([], .notInit)
  else
    match pInput with
    | none => .done ([], .invalidArg)
    | some data => withDevice port s handle id fun _ => internalHbiWrite reg data

def hbiSetCommand (port : HalPort lim) (s : HbiDrv lim) (handle : Nat) (cmd : Command) :
    Outcome (BusRecord × HbiStatus × Option Word) :=
  if !s.bInitialized then .done ([], .notInit, none)
  else withDevice port s handle (fun status => (status, none)) fun pDev =>
    internalHbiSetCommand pDev cmd

end VprocSdk
