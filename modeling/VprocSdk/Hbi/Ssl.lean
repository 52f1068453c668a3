import Mathlib.Logic.Function.Basic
import VprocSdk.Lib.Slots
import VprocSdk.Tw.Access

/-!
# The System Service Layer

`hbi_ssl.c`: the table of open ports and the calls on it. The hardware layer below is not part of the
repository's common code, so a call carries what its functions answer: `hal_init`, `hal_open`,
`hal_close` and `hal_term` succeed or fail, and `hal_port_rw` answers each access.

A port handle is the address of a table entry. The model numbers entries from one, so that no handle
is `NULL`. `SSL_port_close` searches the table with an 8-bit counter and does not return for an entry
that the counter does not reach.
-/

namespace VprocSdk

open Lib

/-- The limits the driver is built with. -/
structure HbiLimits where
  maxInstPerDev : Nat
  maxNumDevs : Nat
  product_lt : maxInstPerDev * maxNumDevs < 256

def HbiLimits.maxInstances (lim : HbiLimits) : Nat := lim.maxInstPerDev * lim.maxNumDevs

structure SslDevCfg where
  deviceId : Int
  devAddr : Word
  pDevName : Option String
  busNum : Byte
  deriving DecidableEq, Repr

structure SslDev where
  pClient : Option SslDevCfg
  inuse : Bool
  deriving DecidableEq, Repr

structure SslDrv (lim : HbiLimits) where
  dev : Fin lim.maxNumDevs → SslDev
  initialised : Bool

/-- What the hardware layer answers during a call. -/
structure Hal where
  initOk : Bool
  openOk : Bool
  closeOk : Bool
  termOk : Bool
  deriving DecidableEq, Repr

variable {lim : HbiLimits}

/-- `ssl_drv_priv` before the first call and after `SSL_memset`. -/
def SslDrv.cleared : SslDrv lim where
  dev := fun _ => ⟨none, false⟩
  initialised := false

def portHandleOf (i : Fin lim.maxNumDevs) : Nat := i.val + 1

def sslInit (hal : Hal) (drv : SslDrv lim) : SslDrv lim × SslStatus :=
  if drv.initialised then (drv, .ok)
  else if hal.initOk then ({ SslDrv.cleared with initialised := true }, .ok)
  else (SslDrv.cleared, .internalErr)

/-- `SSL_port_open`: on success the third component is stored through `pHandle`. -/
def sslPortOpen (hal : Hal) (drv : SslDrv lim) (pDevCfg : SslDevCfg) :
    SslDrv lim × SslStatus × Option Nat :=
  if !drv.initialised then (drv, .notInit, none)
  else
    match firstSlot fun i => !(drv.dev i).inuse with
    | none => (drv, .resourceErr, none)
    | some i =>
        if hal.openOk then
          ({ drv with dev := Function.update drv.dev i ⟨some pDevCfg, true⟩ }, .ok,
            some (portHandleOf i))
        else (drv, .internalErr, none)

/-- `CHK_PORT_HANDLE_VALIDITY` with a counter that reaches every entry. -/
def portOf (drv : SslDrv lim) (handle : Nat) : Option (Fin lim.maxNumDevs) :=
  firstSlot fun i => portHandleOf i = handle && (drv.dev i).inuse

/-- `CHK_PORT_HANDLE_VALIDITY` with the 8-bit signed counter of `SSL_port_close`. An entry before the
table has no handle. The counter repeats after 256 steps, so a search that takes more does not end. -/
def portOfInt8 (drv : SslDrv lim) (handle : Nat) : Nat → Int → Option (Option (Fin lim.maxNumDevs))
  | 0, _ => none
  | fuel + 1, i =>
      if i < lim.maxNumDevs then
        if h : 0 ≤ i ∧ i.toNat < lim.maxNumDevs then
          if portHandleOf ⟨i.toNat, h.2⟩ = handle && (drv.dev ⟨i.toNat, h.2⟩).inuse then
            some (some ⟨i.toNat, h.2⟩)
          else portOfInt8 drv handle fuel (if i = 127 then -128 else i + 1)
        else portOfInt8 drv handle fuel (if i = 127 then -128 else i + 1)
      else some none

/-- `SSL_port_close`; none when it does not return. -/
def sslPortClose (hal : Hal) (drv : SslDrv lim) (handle : Nat) : Option (SslDrv lim × SslStatus) :=
  if !drv.initialised then some (drv, .notInit)
  else
    match portOfInt8 drv handle 256 0 with
    | none => none
    | some none => some (drv, .badHandle)
    | some (some i) =>
        if hal.closeOk then
          some ({ drv with dev := Function.update drv.dev i { drv.dev i with inuse := false } }, .ok)
        else some (drv, .internalErr)

def sslTerm (hal : Hal) (drv : SslDrv lim) : SslDrv lim × SslStatus :=
  if !drv.initialised then (drv, .ok)
  else if (List.finRange lim.maxNumDevs).any fun i => (drv.dev i).inuse then (drv, .failed)
  else ({ drv with initialised := false }, if hal.termOk then .ok else .internalErr)

/-- What the hardware layer answers to an access, from the accesses made so far in the call. -/
abbrev HalPort (lim : HbiLimits) := Fin lim.maxNumDevs → BusRecord → BusOp → BusAnswer

/-- `SSL_port_rw` and `SSL_port_write` up to `hal_port_rw`: an access reaches the hardware only
through a valid handle. -/
def sslPortAnswer (drv : SslDrv lim) (handle : Nat) (hal : HalPort lim) : BusRecord → BusOp → BusAnswer :=
  fun done op =>
    if !drv.initialised then ⟨.notInit, []⟩
    else
      match portOf drv handle with
      | none => ⟨.badHandle, []⟩
      | some i => hal i done op

/-! ### What the calls do to the table -/

theorem portHandleOf_inj {i j : Fin lim.maxNumDevs} (h : portHandleOf i = portHandleOf j) : i = j := by
  unfold portHandleOf at h
  apply Fin.ext
  omega

theorem portOf_eq_some {drv : SslDrv lim} {i : Fin lim.maxNumDevs} (h : (drv.dev i).inuse = true) :
    portOf drv (portHandleOf i) = some i := by
  have hfound : ∃ j, firstSlot (fun j => portHandleOf j = portHandleOf i && (drv.dev j).inuse) = some j :=
    firstSlot_isSome (i := i) (by simp [h])
  obtain ⟨j, hj⟩ := hfound
  have htest := firstSlot_some hj
  simp only [Bool.and_eq_true, decide_eq_true_eq] at htest
  rw [portOf, hj, portHandleOf_inj htest.1]

/-- An entry the 8-bit search stops at is in use and has the handle searched for. -/
theorem portOfInt8_some {drv : SslDrv lim} {handle : Nat} {i : Fin lim.maxNumDevs} (fuel : Nat)
    (k : Int) (h : portOfInt8 drv handle fuel k = some (some i)) :
    portHandleOf i = handle ∧ (drv.dev i).inuse = true := by
  induction fuel generalizing k with
  | zero => simp [portOfInt8] at h
  | succ fuel ih =>
      unfold portOfInt8 at h
      split at h
      · split at h
        · split at h
          · rename_i htest
            simp only [Bool.and_eq_true, decide_eq_true_eq] at htest
            obtain rfl := Option.some.inj (Option.some.inj h)
            exact htest
          · exact ih _ h
        · exact ih _ h
      · simp at h

theorem portOfInt8_ne_missing {drv : SslDrv lim} {i : Fin lim.maxNumDevs}
    (hi : (drv.dev i).inuse = true) (fuel : Nat) (k : Int) (hk : k ≤ i.val) :
    portOfInt8 drv (portHandleOf i) fuel k ≠ some none := by
  induction fuel generalizing k with
  | zero => simp [portOfInt8]
  | succ fuel ih =>
      have hlt := i.isLt
      have hnext : k ≠ i.val → (if k = 127 then -128 else k + 1) ≤ (i.val : Int) := by
        intro hne
        split <;> omega
      unfold portOfInt8
      rw [if_pos (by omega)]
      split
      · rename_i hin
        split
        · simp
        · rename_i htest
          apply ih
          apply hnext
          intro heq
          subst heq
          exact htest (by simp [hi])
      · rename_i hout
        apply ih
        apply hnext
        intro heq
        subst heq
        exact hout ⟨by omega, by simp⟩

end VprocSdk
