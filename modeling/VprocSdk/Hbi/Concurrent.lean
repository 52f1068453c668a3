import VprocSdk.Hbi.FailedOpen
import VprocSdk.Hbi.HandleCalls

/-!
# Clients whose calls overlap

`HBI_open` and `HBI_close` check their arguments before they take the lock of the configuration. The calls
that use a handle check it in the same way, take the lock to read the device of the handle, and use the
device when they have given it back, unless they refuse their arguments before. The calls of other clients
may come between.

Here clients call a driver that was initialised with a lock. What a call does under the lock is one step,
as are its checks, and so is every access to a device.
-/

namespace VprocSdk

open Lib

variable {lim : HbiLimits} {s t : HbiDrv lim} {i : Fin lim.maxInstances} {d : Fin lim.maxNumDevs}
  (hal : Hal) (port : HalPort lim)

/-- `HBI_close` under the lock; no status when it goes on to `HBI_term`. -/
def closeLocked (s : HbiDrv lim) (pInst : Fin lim.maxInstances) :
    Outcome (HbiDrv lim × Option HbiStatus) :=
  match (s.instList pInst).pDev with
  | none => .fault .nullDevice
  | some pDev =>
      if (s.devList pDev).numCurInstances = 1 then
        match sslPortClose hal s.ssl (s.devList pDev).portHandle with
        | none => .diverges
        | some (ssl, sslStatus) =>
            if sslStatus ≠ .ok then .done ({ s with ssl }, some .internalErr)
            else
              (decr s.numOpenedDev).bind fun numOpenedDev =>
                (removeUser (closeDevice s pDev ssl numOpenedDev) pInst pDev).bind fun s =>
                  .done (s, none)
      else (removeUser s pInst pDev).bind fun s => .done (s, none)

/-- `HBI_close` once its handle is checked: its locked part, and `HBI_term` unless that fails. -/
theorem closeUser_eq (s : HbiDrv lim) (pInst : Fin lim.maxInstances) :
    closeUser hal s pInst = (closeLocked hal s pInst).bind fun r =>
      match r.2 with
      | some status => .done (r.1, status)
      | none => .done (hbiTerm hal r.1) := by
  have hassoc : ∀ o : Outcome (HbiDrv lim), (o.bind fun s => .done (hbiTerm hal s))
      = (o.bind fun s => .done (s, none)).bind fun r : HbiDrv lim × Option HbiStatus =>
        match r.2 with
        | some status => .done (r.1, status)
        | none => .done (hbiTerm hal r.1) := by
    intro o
    cases o with
    | done u => rfl
    | fault f => rfl
    | diverges => rfl
  unfold closeUser closeLocked
  cases (s.instList pInst).pDev with
  | none => rfl
  | some pDev =>
      dsimp only
      by_cases hlast : (s.devList pDev).numCurInstances = 1
      · rw [if_pos hlast, if_pos hlast]
        cases sslPortClose hal s.ssl (s.devList pDev).portHandle with
        | none => rfl
        | some r =>
            obtain ⟨ssl, sslStatus⟩ := r
            dsimp only
            by_cases hok : sslStatus ≠ .ok
            · rw [if_pos hok, if_pos hok]
              rfl
            · rw [if_neg hok, if_neg hok]
              cases decr s.numOpenedDev with
              | done numOpenedDev => exact hassoc _
              | fault f => rfl
              | diverges => rfl
      · rw [if_neg hlast, if_neg hlast]
        exact hassoc _

/-! ### Calls in parts -/

inductive ClientCall
  | open (pHandle : Bool) (pDevCfg : Option DevCfg)
  | close (handle : Nat)
  | use (handle : Nat) (call : HandleCall)

inductive ClientAnswer
  | opened (status : HbiStatus) (handle : Option Nat)
  | closed (status : HbiStatus)
  | used (answer : HandleAnswer)

/-- How far the call of a client has come, or the answer of its last one. -/
inductive Progress (lim : HbiLimits)
  | idle (last : Option ClientAnswer)
  | initialised (pHandle : Bool) (pDevCfg : Option DevCfg)
  | opening (cfg : DevCfg)
  | closing (i : Fin lim.maxInstances)
  | terminating
  | reaching (i : Fin lim.maxInstances) (call : HandleCall)
  | accessing (i : Fin lim.maxInstances) (d : Fin lim.maxNumDevs) (record : BusRecord)
      (rest : Tw HandleAnswer)

/-- A call begins: `HBI_open` with `HBI_init`, the others with the checks of their arguments. -/
def beginCall (s : HbiDrv lim) : ClientCall → HbiDrv lim × Progress lim
  | .open pHandle pDevCfg =>
      let (s, status) := hbiInit hal s none
      (s, if status = .success then .initialised pHandle pDevCfg else .idle (some (.opened status none)))
  | .close handle =>
      if !s.bInitialized then (s, .idle (some (.closed .notInit)))
      else
        match s.validHandle handle with
        | none => (s, .idle (some (.closed .badHandle)))
        | some i => (s, .closing i)
  | .use handle call =>
      if !s.bInitialized then (s, .idle (some (.used (call.failed .notInit))))
      else if !call.argsOk then (s, .idle (some (.used (call.failed .invalidArg))))
      else
        match s.validHandle handle with
        | none => (s, .idle (some (.used (call.failed .badHandle))))
        | some i => (s, .reaching i call)

/-- The checks of `HBI_open`. -/
def checkOpen (s : HbiDrv lim) (pHandle : Bool) (pDevCfg : Option DevCfg) : Progress lim :=
  if !s.bInitialized then .idle (some (.opened .notInit none))
  else if !pHandle then .idle (some (.opened .invalidArg none))
  else
    match pDevCfg with
    | none => .idle (some (.opened .invalidArg none))
    | some cfg =>
        if s.numInstances ≥ lim.maxInstances then .idle (some (.opened .resourceErr none))
        else .opening cfg

def resume (s : HbiDrv lim) : Progress lim → Outcome (HbiDrv lim × Progress lim)
  | .idle last => .done (s, .idle last)
  | .initialised pHandle pDevCfg => .done (s, checkOpen s pHandle pDevCfg)
  | .opening cfg =>
      (openUser hal port s cfg).bind fun (s, status, handle) =>
        .done (s, .idle (some (.opened status handle)))
  | .closing i =>
      (closeLocked hal s i).bind fun (s, status) =>
        .done (s, match status with
          | none => .terminating
          | some status => .idle (some (.closed status)))
  | .terminating =>
      let (s, status) := hbiTerm hal s
      .done (s, .idle (some (.closed status)))
  | .reaching i call =>
      match (s.instList i).pDev, call.early with
      | none, some answer => .done (s, .idle (some (.used answer)))
      | none, none => .fault .nullDevice
      | some d, _ => .done (s, .accessing i d [] (call.run (s.devList d).tw))
  | .accessing _ _ _ (.pure answer) => .done (s, .idle (some (.used answer)))
  | .accessing i d record (.ask op next) =>
      let answer := sslPortAnswer s.ssl (s.devList d).portHandle port record op
      .done (s, .accessing i d (record ++ [(op, answer)]) (next answer))

/-! ### Calls that nobody interrupts -/

/-- A call goes on alone until it has its answer. -/
inductive Finishes : HbiDrv lim → Progress lim → HbiDrv lim → ClientAnswer → Prop
  | answered (s : HbiDrv lim) (answer : ClientAnswer) : Finishes s (.idle (some answer)) s answer
  | part {s t u : HbiDrv lim} {p p' : Progress lim} {answer : ClientAnswer}
      (hpart : resume hal port s p = .done (t, p')) (h : Finishes t p' u answer) : Finishes s p u answer

theorem finishes_accessing (i : Fin lim.maxInstances) (d : Fin lim.maxNumDevs) (rest : Tw HandleAnswer)
    (record : BusRecord) : Finishes hal port s (.accessing i d record rest) s
      (.used (rest.run (sslPortAnswer s.ssl (s.devList d).portHandle port) record).2) := by
  induction rest generalizing record with
  | pure answer => exact .part rfl (.answered s _)
  | ask op next ih => exact .part rfl (ih _ _)

theorem finishes_use {handle : Nat} {call : HandleCall} {record : BusRecord} {answer : HandleAnswer}
    (h : useHandle port s handle call = .done (record, answer)) :
    Finishes hal port (beginCall hal s (.use handle call)).1 (beginCall hal s (.use handle call)).2 s
      (.used answer) := by
  unfold useHandle at h
  rw [beginCall]
  by_cases hinit : (!s.bInitialized) = true
  · rw [if_pos hinit] at h
    rw [if_pos hinit]
    cases h
    exact .answered s _
  rw [if_neg hinit] at h
  rw [if_neg hinit]
  by_cases hargs : (!call.argsOk) = true
  · rw [if_pos hargs] at h
    rw [if_pos hargs]
    cases h
    exact .answered s _
  rw [if_neg hargs] at h
  rw [if_neg hargs]
  unfold withDevice at h
  cases hvalid : s.validHandle handle with
  | none =>
      rw [hvalid] at h
      cases h
      exact .answered s _
  | some i =>
      rw [hvalid] at h
      dsimp only at h
      cases hd : (s.instList i).pDev with
      | none =>
          rw [hd] at h
          cases h
      | some d =>
          rw [hd, Outcome.done.injEq, Prod.ext_iff] at h
          have hreach : resume hal port s (.reaching i call)
              = .done (s, .accessing i d [] (call.run (s.devList d).tw)) := by rw [resume, hd]
          have haccess := finishes_accessing hal port (s := s) i d (call.run (s.devList d).tw) []
          rw [h.2] at haccess
          exact .part hreach haccess

theorem finishes_close {handle : Nat} {status : HbiStatus} (h : hbiClose hal s handle = .done (t, status)) :
    Finishes hal port (beginCall hal s (.close handle)).1 (beginCall hal s (.close handle)).2 t
      (.closed status) := by
  unfold hbiClose at h
  rw [beginCall]
  by_cases hinit : (!s.bInitialized) = true
  · rw [if_pos hinit] at h
    rw [if_pos hinit]
    cases h
    exact .answered s _
  rw [if_neg hinit] at h
  rw [if_neg hinit]
  cases hvalid : s.validHandle handle with
  | none =>
      rw [hvalid] at h
      cases h
      exact .answered s _
  | some i =>
      rw [hvalid] at h
      dsimp only at h ⊢
      rw [closeUser_eq] at h
      cases hlocked : closeLocked hal s i with
      | fault f =>
          rw [hlocked] at h
          cases h
      | diverges =>
          rw [hlocked] at h
          cases h
      | done r =>
          obtain ⟨u, status'⟩ := r
          rw [hlocked] at h
          refine .part (by rw [resume, hlocked]; rfl) ?_
          cases status' with
          | some status' =>
              cases h
              exact .answered u _
          | none =>
              dsimp only [Outcome.bind] at h ⊢
              rw [Outcome.done.injEq] at h
              exact .part (by rw [resume, h]) (.answered t _)

theorem finishes_open {pHandle : Bool} {pDevCfg : Option DevCfg} {status : HbiStatus} {handle : Option Nat}
    (h : hbiOpen hal port s pHandle pDevCfg = .done (t, status, handle)) :
    Finishes hal port (beginCall hal s (.open pHandle pDevCfg)).1
      (beginCall hal s (.open pHandle pDevCfg)).2 t (.opened status handle) := by
  unfold hbiOpen at h
  rw [beginCall]
  generalize hbiInit hal s none = r at h ⊢
  obtain ⟨u, initStatus⟩ := r
  dsimp only at h ⊢
  by_cases hstatus : initStatus = .success
  · rw [if_neg (not_not.2 hstatus)] at h
    rw [if_pos hstatus]
    have hpart : resume hal port u (.initialised pHandle pDevCfg) = .done (u, checkOpen u pHandle pDevCfg) :=
      rfl
    refine .part hpart ?_
    unfold checkOpen
    by_cases hinit : (!u.bInitialized) = true
    · rw [if_pos hinit] at h ⊢
      cases h
      exact .answered _ _
    rw [if_neg hinit] at h ⊢
    by_cases hhandle : (!pHandle) = true
    · rw [if_pos hhandle] at h ⊢
      cases h
      exact .answered _ _
    rw [if_neg hhandle] at h ⊢
    cases pDevCfg with
    | none =>
        cases h
        exact .answered _ _
    | some cfg =>
        dsimp only at h ⊢
        by_cases hlimit : u.numInstances ≥ lim.maxInstances
        · rw [if_pos hlimit] at h ⊢
          cases h
          exact .answered _ _
        · rw [if_neg hlimit] at h ⊢
          exact .part (by rw [resume, h]; rfl) (.answered t _)
  · rw [if_pos hstatus] at h
    rw [if_neg hstatus]
    cases h
    exact .answered _ _

/-! ### What the locked parts do -/

theorem DriverInv.users_free (h : DriverInv none s) (hd : (s.devList d).inuse = false) :
    s.users d = 0 := by
  refine count_eq_zero.2 fun j hj => ?_
  obtain ⟨d', hd', hopen⟩ := h.instDev j hj.1
  rw [hj.2, Option.some.injEq] at hd'
  rw [← hd', hd] at hopen
  cases hopen

theorem DriverInv.full (h : DriverInv none s) (hfull : lim.maxInstances ≤ s.numInstances)
    (hpos : 0 < lim.maxInstances) (d : Fin lim.maxNumDevs) :
    (s.devList d).inuse = true ∧ (s.devList d).numCurInstances = lim.maxInstPerDev := by
  have hkey : ∀ i, (s.instList i).inuse = true → ∃ d', (s.instList i).pDev = some d' := by
    intro i hi
    obtain ⟨d', hd', -⟩ := h.instDev i hi
    exact ⟨d', hd'⟩
  have hle : ∀ d', s.users d' ≤ lim.maxInstPerDev := by
    intro d'
    cases hd' : (s.devList d').inuse with
    | true =>
        obtain ⟨husers, hle⟩ := h.devUsers d' hd'
        exact husers ▸ hle
    | false => exact (h.users_free hd').le.trans (Nat.zero_le _)
  have hall : s.users d = lim.maxInstPerDev := by
    refine count_key_full hkey hle ?_ d
    rw [← h.numInstances, Fintype.card_fin]
    exact hfull
  have hper : 0 < lim.maxInstPerDev := Nat.pos_of_mul_pos_right hpos
  have huser : 0 < s.users d := hall ▸ hper
  cases hd : (s.devList d).inuse with
  | true => exact ⟨rfl, (h.devUsers d hd).1.trans hall⟩
  | false => exact absurd (h.users_free hd) huser.ne'

/-- The locked part of `HBI_open` finds no slot behind the table: with every slot taken it fails on the
device, whether that is open or not. -/
theorem openUser_full (h : DriverInv none s) (hfull : lim.maxInstances ≤ s.numInstances)
    (hpos : 0 < lim.maxInstances) (cfg : DevCfg) :
    openUser hal port s cfg = .done (s, .resourceErr, none) := by
  unfold openUser
  dsimp only
  split
  · next d hfound =>
      rw [if_pos (h.full hfull hpos d).2.ge]
  · have hopened : s.numOpenedDev = lim.maxNumDevs := by
      rw [h.numOpenedDev]
      simp [count, fun d => (h.full hfull hpos d).1]
    rw [if_pos hopened.ge]

/-- One more user, in a slot that was free, of the device that was asked for. -/
structure Joined (s t : HbiDrv lim) (i : Fin lim.maxInstances) (cfg : DevCfg) : Prop where
  inv : DriverInv none t
  free : (s.instList i).inuse = false
  instList : ∃ d, t.instList = Function.update s.instList i ⟨some d, true⟩
  leases : ∃ portHandle, t.leases = Function.update s.leases i (some ⟨cfg.deviceId, portHandle⟩)
  numInstances : t.numInstances = s.numInstances + 1
  bInitialized : t.bInitialized = s.bInitialized
  initCount : t.initCount = s.initCount
  cfgLock : t.cfgLock = s.cfgLock

/-- One user less. -/
structure Left (s t : HbiDrv lim) (i : Fin lim.maxInstances) : Prop where
  inv : DriverInv none t
  instList : t.instList = Function.update s.instList i ⟨none, false⟩
  leases : t.leases = Function.update s.leases i none
  numInstances : t.numInstances + 1 = s.numInstances
  bInitialized : t.bInitialized = s.bInitialized
  initCount : t.initCount = s.initCount
  cfgLock : t.cfgLock = s.cfgLock

/-- Whatever the number of users was when it was checked, the locked part of `HBI_open` fails without
effect or adds a user. -/
theorem openUser_joins (h : DriverInv none s) (hinit : s.bInitialized = true)
    (hpos : 0 < lim.maxInstances) (cfg : DevCfg) :
    (∃ status, openUser hal port s cfg = .done (s, status, none)) ∨
      ∃ i t, Joined s t i cfg ∧ openUser hal port s cfg = .done (t, .success, some i.val) := by
  by_cases hlimit : s.numInstances < lim.maxInstances
  · have hinv := openUser_inv hal port h hinit hlimit cfg
    rcases openUser_cases hal port h hlimit cfg with
      ⟨-, status, -, heq⟩ | ⟨d, i, hfree, -, -, hid, heq⟩ |
      ⟨d, i, p, c, hfree, hd, -, -, -, -, -, -, heq⟩
    · exact .inl ⟨status, heq⟩
    · rw [heq] at hinv
      refine .inr ⟨i, _, ⟨hinv, hfree, ⟨d, rfl⟩, ⟨(s.devList d).portHandle, ?_⟩, rfl, rfl, rfl, rfl⟩, heq⟩
      rw [HbiDrv.leases_added, hid]
    · rw [heq] at hinv
      refine .inr ⟨i, _, ⟨hinv, hfree, ⟨d, rfl⟩, ⟨portHandleOf p, ?_⟩, rfl, rfl, rfl, rfl⟩, heq⟩
      rw [HbiDrv.leases_added, HbiDrv.leases_openDevice h hd]
      simp [openDevice]
  · exact .inl ⟨.resourceErr, openUser_full hal port h (not_lt.1 hlimit) hpos cfg⟩

/-- For a slot in use the locked part of `HBI_close` does not return, fails without effect, or takes the
user out of the tables. -/
theorem closeLocked_leaves (h : DriverInv none s) (hi : (s.instList i).inuse = true) :
    closeLocked hal s i = .diverges ∨ closeLocked hal s i = .done (s, some .internalErr) ∨
      ∃ t, Left s t i ∧ closeLocked hal s i = .done (t, none) := by
  obtain ⟨d, hpDev, hd⟩ := h.instDev i hi
  obtain ⟨-, hle⟩ := h.devUsers d hd
  have hone : 0 < (s.devList d).numCurInstances := h.hasUser d hd (Option.some_ne_none d).symm
  have hnum : 0 < s.numInstances := by
    rw [h.numInstances]
    exact count_pos (p := fun inst : VprocInst lim => inst.inuse = true) hi
  unfold closeLocked
  rw [hpDev]
  dsimp only
  by_cases hlast : (s.devList d).numCurInstances = 1
  · obtain ⟨p, c, hport, hdev, -⟩ := h.devPort d hd
    have hp : (s.ssl.dev p).inuse = true := by rw [hdev]
    have hopened : s.numOpenedDev ≠ 0 := by
      rw [h.numOpenedDev]
      exact (count_pos (p := fun dev : VprocDev lim => dev.inuse = true) hd).ne'
    rw [if_pos hlast, hport]
    rcases sslPortClose_cases hal (h.sslOpen p hp) hp with hclose | ⟨-, hclose⟩ | hclose
    · left
      rw [hclose]
    · right; left
      rw [hclose]
      rfl
    · right; right
      have hremove : removeUser (closeDevice s d (s.ssl.closed p) (s.numOpenedDev - 1)) i d
          = .done ((closeDevice s d (s.ssl.closed p) (s.numOpenedDev - 1)).removed i d) := by
        apply removeUser_eq
        · simpa [closeDevice] using hle
        · simpa [closeDevice] using hone
        · exact hnum
      have hclosed := (h.removed hi hpDev).closed
        (by rw [(HbiDrv.removed_devList d).1]; exact hd)
        (by rw [HbiDrv.removed_numCur, if_pos rfl, hlast])
        (by rw [(HbiDrv.removed_devList d).2.1]; exact hport)
      refine ⟨_, ⟨hclosed, rfl, ?_, Nat.sub_add_cancel hnum, rfl, rfl, rfl⟩, ?_⟩
      · rw [HbiDrv.leases_closeDevice (h.no_user_left hi hpDev hlast), HbiDrv.leases_removed]
      · rw [hclose]
        dsimp only
        rw [if_neg (not_not.2 rfl), decr, if_neg hopened]
        dsimp only [Outcome.bind]
        rw [hremove, removed_closeDevice]
        rfl
  · right; right
    have hsettled := (h.removed hi hpDev).settled fun _ => by
      rw [HbiDrv.removed_numCur, if_pos rfl]
      omega
    refine ⟨_, ⟨hsettled, rfl, HbiDrv.leases_removed, Nat.sub_add_cancel hnum, rfl, rfl, rfl⟩, ?_⟩
    rw [if_neg hlast, removeUser_eq hle hone hnum]
    rfl

/-- A slot without a user has no device, and the locked part of `HBI_close` reads through it. -/
theorem closeLocked_free (hfree : (s.instList i).pDev = none) :
    closeLocked hal s i = .fault .nullDevice := by
  rw [closeLocked, hfree]

/-! ### Interleaved calls -/

/-- The slot a call works on after it has checked its handle. -/
def Progress.slot : Progress lim → Option (Fin lim.maxInstances)
  | .closing i | .reaching i _ | .accessing i _ _ _ => some i
  | .idle _ | .initialised _ _ | .opening _ | .terminating => none

/-- The device that was asked for when a handle was given out last, after a part of a call. -/
def grant (asked : Fin lim.maxInstances → Option Int) : Progress lim → Progress lim →
    Fin lim.maxInstances → Option Int
  | .opening cfg, .idle (some (.opened _ (some handle))) =>
      fun i => if i.val = handle then some cfg.deviceId else asked i
  | _, _ => asked

/-- The driver with its clients and how far their calls have come. `asked` has for each slot the device that
was asked for when its handle was given out, and `checked` what that was when a client's call checked its
handle. `served` pairs this, for every access, with the device whose port the access went to. -/
structure Clients (lim : HbiLimits) (n : Nat) where
  drv : HbiDrv lim
  progress : Fin n → Progress lim
  asked : Fin lim.maxInstances → Option Int
  checked : Fin n → Option Int
  served : List (Option Int × Option Int)

/-- A client begins a call or goes on with one, while the hardware answers as it does. -/
structure ClientStep (lim : HbiLimits) (n : Nat) where
  client : Fin n
  begins : Option ClientCall
  hal : Hal
  port : HalPort lim

namespace Clients

variable {n : Nat}

/-- The access a call makes when it goes on from here. -/
def accesses (c : Clients lim n) (client : Fin n) : List (Option Int × Option Int) :=
  match c.progress client with
  | .accessing _ d _ (.ask _ _) =>
      [(c.checked client, c.drv.deviceReached (c.drv.devList d).portHandle)]
  | _ => []

def begun (c : Clients lim n) (client : Fin n) (r : HbiDrv lim × Progress lim) : Clients lim n :=
  { c with
    drv := r.1
    progress := Function.update c.progress client r.2
    checked := Function.update c.checked client (r.2.slot.bind c.asked) }

def resumed (c : Clients lim n) (client : Fin n) (r : HbiDrv lim × Progress lim) : Clients lim n :=
  { c with
    drv := r.1
    progress := Function.update c.progress client r.2
    asked := grant c.asked (c.progress client) r.2
    served := c.served ++ c.accesses client }

end Clients

/-- Clients call the driver and every call goes on in its own time. What is a fault in the program, or does
not return, has no next state. -/
def clientsRun (lim : HbiLimits) (n : Nat) : Machine (Clients lim n) (ClientStep lim n) where
  step c ev :=
    match ev.begins with
    | some call =>
        match c.progress ev.client with
        | .idle _ => some (c.begun ev.client (beginCall ev.hal c.drv call))
        | _ => none
    | none =>
        match resume ev.hal ev.port c.drv (c.progress ev.client) with
        | .done r => some (c.resumed ev.client r)
        | .fault _ | .diverges => none

/-- The driver after `HBI_init` with a lock, and clients that have made no call. -/
def Clients.start (lim : HbiLimits) (n lock : Nat) : Clients lim n where
  drv := (hbiInit halOk .start (some lock)).1
  progress := fun _ => .idle none
  asked := fun _ => none
  checked := fun _ => none
  served := []

/-- The call took an initialisation of the driver that no user stands for. -/
def Progress.owes : Progress lim → Bool
  | .initialised _ _ | .opening _ | .terminating => true
  | .idle _ | .closing _ | .reaching _ _ | .accessing _ _ _ _ => false

/-- The calls that took an initialisation so. -/
def owedBy {n : Nat} (progress : Fin n → Progress lim) : Nat :=
  count (fun p : Progress lim => p.owes = true) progress

theorem owedBy_update {n : Nat} (progress : Fin n → Progress lim) (u : Fin n) (p : Progress lim) :
    owedBy (Function.update progress u p) + (progress u).owes.toNat
      = owedBy progress + p.owes.toNat := by
  have hcount := count_update (p := fun p : Progress lim => p.owes = true) (t := progress) (i := u) (x := p)
  simpa only [owedBy, Bool.toNat, Bool.cond_eq_ite] using hcount

/-- What holds between the steps of the clients, after `k` of them. The initialisations of the driver are at
least one more than the users it has and may have yet, so that it is terminated under nobody. -/
structure ClientsRunInv (lock k : Nat) {n : Nat} (c : Clients lim n) : Prop where
  drv : DriverInv none c.drv
  bInitialized : c.drv.bInitialized = true
  cfgLock : c.drv.cfgLock = lock
  owed : 1 + c.drv.numInstances + owedBy c.progress ≤ c.drv.initCount
  counted : c.drv.initCount ≤ k + 1
  free : ∀ i, (c.drv.instList i).inuse = false → (c.drv.instList i).pDev = none
  opening : ∀ u cfg, c.progress u = .opening cfg → 0 < lim.maxInstances

/-- What one part of a call does to the driver. -/
inductive PartStep (s : HbiDrv lim) : Progress lim → HbiDrv lim → Progress lim → Prop
  | same {p p' : Progress lim} (howes : p'.owes = true → p.owes = true)
      (hopening : ∀ cfg, p' = .opening cfg → 0 < lim.maxInstances)
      (hslot : p'.slot = none ∨ p'.slot = p.slot) (hgrant : ∀ asked, grant asked p p' = asked) :
      PartStep s p s p'
  | joined {cfg : DevCfg} {t : HbiDrv lim} {i : Fin lim.maxInstances} (h : Joined s t i cfg) :
      PartStep s (.opening cfg) t (.idle (some (.opened .success (some i.val))))
  | left {t : HbiDrv lim} {i : Fin lim.maxInstances} (h : Left s t i) :
      PartStep s (.closing i) t .terminating
  | terminated (answer : ClientAnswer) (hcount : 1 < s.initCount) :
      PartStep s .terminating { s with initCount := s.initCount - 1 } (.idle (some answer))

/-- Before the lock is taken a call has checked a slot, and then it uses the device of the slot. -/
inductive Reaches (i : Fin lim.maxInstances) : Progress lim → Prop
  | closing : Reaches i (.closing i)
  | reaching {call : HandleCall} (h : call.Asks) : Reaches i (.reaching i call)

theorem Reaches.slot {p : Progress lim} (h : Reaches i p) : p.slot = some i := by
  cases h with
  | closing => rfl
  | reaching => rfl

theorem checkOpen_cases (s : HbiDrv lim) (pHandle : Bool) (pDevCfg : Option DevCfg) :
    (∃ last, checkOpen s pHandle pDevCfg = .idle last) ∨
      ∃ cfg, checkOpen s pHandle pDevCfg = .opening cfg ∧ 0 < lim.maxInstances := by
  unfold checkOpen
  by_cases hinit : (!s.bInitialized) = true
  · rw [if_pos hinit]
    exact .inl ⟨_, rfl⟩
  rw [if_neg hinit]
  by_cases hhandle : (!pHandle) = true
  · rw [if_pos hhandle]
    exact .inl ⟨_, rfl⟩
  rw [if_neg hhandle]
  cases pDevCfg with
  | none => exact .inl ⟨_, rfl⟩
  | some cfg =>
      dsimp only
      split
      · exact .inl ⟨_, rfl⟩
      · exact .inr ⟨cfg, rfl, by omega⟩

theorem partStep_idle {p : Progress lim} {last : Option ClientAnswer}
    (hgrant : ∀ asked, grant asked p (.idle last) = asked) : PartStep s p s (.idle last) :=
  .same (by simp [Progress.owes]) (by simp) (.inl rfl) hgrant

/-- A part of a call reads through a slot that another close has emptied, does not return, or does one of
the things a part does. -/
theorem resume_cases {p : Progress lim} (h : DriverInv none s) (hinit : s.bInitialized = true)
    (hfree : ∀ i, (s.instList i).inuse = false → (s.instList i).pDev = none)
    (hopening : ∀ cfg, p = .opening cfg → 0 < lim.maxInstances)
    (hcount : p = .terminating → 1 < s.initCount) :
    (∃ i, Reaches i p ∧ (s.instList i).inuse = false ∧ resume hal port s p = .fault .nullDevice) ∨
      (∀ i, Reaches i p → (s.instList i).inuse = true) ∧
        (resume hal port s p = .diverges ∨
          ∃ t p', PartStep s p t p' ∧ resume hal port s p = .done (t, p')) := by
  cases p with
  | idle last => exact .inr ⟨nofun, .inr ⟨_, _, partStep_idle fun _ => rfl, rfl⟩⟩
  | initialised pHandle pDevCfg =>
      refine .inr ⟨nofun, .inr ⟨s, checkOpen s pHandle pDevCfg, ?_, rfl⟩⟩
      rcases checkOpen_cases s pHandle pDevCfg with ⟨last, heq⟩ | ⟨cfg, heq, hpos⟩
      · rw [heq]
        exact partStep_idle fun _ => rfl
      · rw [heq]
        exact .same (fun _ => rfl) (fun _ _ => hpos) (.inl rfl) fun _ => rfl
  | opening cfg =>
      refine .inr ⟨nofun, .inr ?_⟩
      rw [resume]
      rcases openUser_joins hal port h hinit (hopening cfg rfl) cfg with ⟨status, heq⟩ | ⟨i, t, hjoin, heq⟩
      · rw [heq]
        exact ⟨_, _, partStep_idle fun _ => rfl, rfl⟩
      · rw [heq]
        exact ⟨_, _, .joined hjoin, rfl⟩
  | closing i =>
      cases hi : (s.instList i).inuse with
      | false =>
          refine .inl ⟨i, .closing, hi, ?_⟩
          rw [resume, closeLocked_free hal (hfree i hi)]
          rfl
      | true =>
          refine .inr ⟨by rintro _ ⟨⟩; exact hi, ?_⟩
          rw [resume]
          rcases closeLocked_leaves hal h hi with heq | heq | ⟨t, hleft, heq⟩
          · left
            rw [heq]
            rfl
          · right
            rw [heq]
            exact ⟨_, _, partStep_idle fun _ => rfl, rfl⟩
          · right
            rw [heq]
            exact ⟨_, _, .left hleft, rfl⟩
  | terminating =>
      refine .inr ⟨nofun, .inr ⟨_, _, .terminated (.closed .success) (hcount rfl), ?_⟩⟩
      rw [resume, hbiTerm, if_neg (by simp [hinit]), if_pos (hcount rfl)]
  | reaching i call =>
      cases hi : (s.instList i).inuse with
      | false =>
          rcases call.early_cases with ⟨hnone, hasks⟩ | ⟨answer, hanswer, hearly⟩
          · refine .inl ⟨i, .reaching hasks, hi, ?_⟩
            rw [resume, hfree i hi, hnone]
          · refine .inr ⟨?_, .inr ⟨s, .idle (some (.used answer)), partStep_idle fun _ => rfl, ?_⟩⟩
            · intro j hreach
              cases hreach with
              | reaching hasks =>
                  obtain ⟨op, next, hask⟩ := hasks ⟨.big, 0⟩
                  cases (hearly _).symm.trans hask
            · rw [resume, hfree i hi, hanswer]
      | true =>
          obtain ⟨d, hd, -⟩ := h.instDev i hi
          refine .inr ⟨by rintro _ ⟨⟩; exact hi, .inr ⟨_, _, ?_, by rw [resume, hd]⟩⟩
          exact .same (by simp [Progress.owes]) (by simp) (.inr rfl) fun _ => rfl
  | accessing i d record rest =>
      refine .inr ⟨nofun, .inr ?_⟩
      cases rest with
      | pure answer => exact ⟨_, _, partStep_idle fun _ => rfl, rfl⟩
      | ask op next =>
          refine ⟨_, .accessing i d _ (next _), ?_, rfl⟩
          exact .same (by simp [Progress.owes]) (by simp) (.inr rfl) fun _ => rfl

section Runs

variable {n lock k : Nat} {c c' : Clients lim n}

theorem clientsRunInv_start (lim : HbiLimits) (n lock : Nat) :
    ClientsRunInv lock 0 (Clients.start lim n lock) where
  drv := (hbiInit_inv halOk start_inv (some lock)).1
  bInitialized := rfl
  cfgLock := rfl
  owed := by
    have hnone : owedBy (Clients.start lim n lock).progress = 0 :=
      count_eq_zero.2 fun u => Bool.false_ne_true
    rw [hnone]
    exact Nat.le_refl 1
  counted := Nat.le_refl 1
  free _ _ := rfl
  opening u cfg hu := by cases hu

theorem beginCall_cases (hinit : s.bInitialized = true) (call : ClientCall) :
    (∃ pHandle pDevCfg, beginCall hal s call
      = ({ s with initCount := incr s.initCount }, .initialised pHandle pDevCfg)) ∨
    ∃ p : Progress lim, beginCall hal s call = (s, p) ∧ p.owes = false ∧ (∀ cfg, p ≠ .opening cfg) ∧
      (∀ i, p.slot = some i → (s.instList i).inuse = true) ∧
      ∀ i d record rest, p ≠ .accessing i d record rest := by
  cases call with
  | «open» pHandle pDevCfg =>
      refine .inl ⟨pHandle, pDevCfg, ?_⟩
      rw [beginCall, hbiInit_again hal hinit]
      rfl
  | close handle =>
      right
      rw [beginCall, if_neg (by simp [hinit])]
      cases hvalid : s.validHandle handle with
      | none => exact ⟨_, rfl, rfl, nofun, nofun, nofun⟩
      | some i =>
          refine ⟨_, rfl, rfl, nofun, ?_, nofun⟩
          rintro _ ⟨⟩
          exact (HbiDrv.validHandle_eq_some.1 hvalid).2
  | use handle call =>
      right
      rw [beginCall, if_neg (by simp [hinit])]
      split
      · exact ⟨_, rfl, rfl, nofun, nofun, nofun⟩
      · cases hvalid : s.validHandle handle with
        | none => exact ⟨_, rfl, rfl, nofun, nofun, nofun⟩
        | some i =>
            refine ⟨_, rfl, rfl, nofun, ?_, nofun⟩
            rintro _ ⟨⟩
            exact (HbiDrv.validHandle_eq_some.1 hvalid).2

theorem DriverInv.withInitCount (h : DriverInv none s) (initCount : Nat) :
    DriverInv none { s with initCount } := { h with }

/-- A call that is not terminating leaves one initialisation besides that of its own driver. -/
theorem ClientsRunInv.terminating (h : ClientsRunInv lock k c) {u : Fin n}
    (hu : c.progress u = .terminating) : 1 < c.drv.initCount := by
  have howes : 0 < owedBy c.progress := count_pos (p := fun p : Progress lim => p.owes = true) (by rw [hu]; rfl)
  have := h.owed
  omega

theorem clientsRun_cases (h : ClientsRunInv lock k c) {ev : ClientStep lim n}
    (hstep : (clientsRun lim n).step c ev = some c') :
    (∃ call last, c.progress ev.client = .idle last ∧
      c' = c.begun ev.client (beginCall ev.hal c.drv call)) ∨
    ∃ t p, PartStep c.drv (c.progress ev.client) t p ∧
      resume ev.hal ev.port c.drv (c.progress ev.client) = .done (t, p) ∧
      c' = c.resumed ev.client (t, p) := by
  simp only [clientsRun] at hstep
  cases hbegins : ev.begins with
  | some call =>
      rw [hbegins] at hstep
      cases hidle : c.progress ev.client with
      | idle last =>
          rw [hidle, Option.some.injEq] at hstep
          exact .inl ⟨call, last, rfl, hstep.symm⟩
      | _ =>
          rw [hidle] at hstep
          cases hstep
  | none =>
      right
      rw [hbegins] at hstep
      rcases resume_cases ev.hal ev.port h.drv h.bInitialized h.free (h.opening ev.client)
        h.terminating with ⟨i, -, -, heq⟩ | ⟨-, heq | ⟨t, p, hpart, heq⟩⟩
      · rw [heq] at hstep
        cases hstep
      · rw [heq] at hstep
        cases hstep
      · rw [heq, Option.some.injEq] at hstep
        exact ⟨t, p, hpart, heq, hstep.symm⟩

theorem PartStep.owed {p p' : Progress lim} {progress : Fin n → Progress lim} {u : Fin n}
    (h : PartStep s p t p') (hu : progress u = p)
    (howed : 1 + s.numInstances + owedBy progress ≤ s.initCount) :
    1 + t.numInstances + owedBy (Function.update progress u p') ≤ t.initCount := by
  have hcount := owedBy_update progress u p'
  rw [hu] at hcount
  cases h with
  | same howes hopening hslot hgrant =>
      have hle : p'.owes.toNat ≤ p.owes.toNat := Bool.toNat_le_toNat howes
      omega
  | joined hjoin =>
      have hnum := hjoin.numInstances
      have hinits := hjoin.initCount
      simp only [Progress.owes, Bool.toNat_true, Bool.toNat_false] at hcount
      omega
  | left hleft =>
      have hnum := hleft.numInstances
      have hinits := hleft.initCount
      simp only [Progress.owes, Bool.toNat_true, Bool.toNat_false] at hcount
      omega
  | terminated answer hinits =>
      simp only [Progress.owes, Bool.toNat_true, Bool.toNat_false] at hcount
      dsimp only
      omega

theorem Joined.inst {cfg : DevCfg} (h : Joined s t i cfg) : ∃ d, ∀ j,
    t.instList j = if j = i then ⟨some d, true⟩ else s.instList j := by
  obtain ⟨d, heq⟩ := h.instList
  refine ⟨d, fun j => ?_⟩
  rw [heq, Function.update_apply]

/-- A part of a call keeps the tables, the lock and the initialisation. -/
theorem PartStep.keeps {p p' : Progress lim} (h : PartStep s p t p') (hinv : DriverInv none s)
    (hfree : ∀ i, (s.instList i).inuse = false → (s.instList i).pDev = none) :
    DriverInv none t ∧ t.bInitialized = s.bInitialized ∧ t.cfgLock = s.cfgLock ∧
      t.initCount ≤ s.initCount ∧ (∀ i, (t.instList i).inuse = false → (t.instList i).pDev = none) ∧
      ∀ cfg, p' = .opening cfg → 0 < lim.maxInstances := by
  cases h with
  | same howes hopening hslot hgrant => exact ⟨hinv, rfl, rfl, le_rfl, hfree, hopening⟩
  | joined hjoin =>
      obtain ⟨d, hinst⟩ := hjoin.inst
      refine ⟨hjoin.inv, hjoin.bInitialized, hjoin.cfgLock, hjoin.initCount.le, ?_, nofun⟩
      intro j hj
      rw [hinst] at hj ⊢
      split at hj
      · cases hj
      · next hne =>
          rw [if_neg hne]
          exact hfree j hj
  | left hleft =>
      refine ⟨hleft.inv, hleft.bInitialized, hleft.cfgLock, hleft.initCount.le, ?_, nofun⟩
      intro j hj
      rw [hleft.instList, Function.update_apply] at hj ⊢
      split
      · rfl
      · next hne =>
          rw [if_neg hne] at hj
          exact hfree j hj
  | terminated answer hcount =>
      exact ⟨hinv.withInitCount _, rfl, rfl, Nat.sub_le _ _, hfree, nofun⟩

theorem clientsRunInv_step (h : ClientsRunInv lock k c) (hk : k + 2 < 2 ^ 32) {ev : ClientStep lim n}
    (hstep : (clientsRun lim n).step c ev = some c') : ClientsRunInv lock (k + 1) c' := by
  have hopening : ∀ {p : Progress lim}, (∀ cfg, p = .opening cfg → 0 < lim.maxInstances) →
      ∀ u cfg, Function.update c.progress ev.client p u = .opening cfg → 0 < lim.maxInstances := by
    intro p hp u cfg hu
    rw [Function.update_apply] at hu
    split at hu
    · exact hp cfg hu
    · exact h.opening u cfg hu
  have hcounted := h.counted
  rcases clientsRun_cases h hstep with ⟨call, last, hidle, rfl⟩ | ⟨t, p, hpart, -, rfl⟩
  · have howed := h.owed
    have hcount : ∀ p : Progress lim,
        owedBy (Function.update c.progress ev.client p) = owedBy c.progress + p.owes.toNat := by
      intro p
      have hupdate := owedBy_update c.progress ev.client p
      rw [hidle] at hupdate
      exact hupdate
    rcases beginCall_cases ev.hal h.bInitialized call with
      ⟨pHandle, pDevCfg, heq⟩ | ⟨p, heq, howes, hnot, -, -⟩
    · have hincr : incr c.drv.initCount = c.drv.initCount + 1 := by
        unfold incr
        omega
      rw [heq, hincr]
      refine ⟨h.drv.withInitCount _, h.bInitialized, h.cfgLock, ?_, Nat.succ_le_succ hcounted, h.free,
        hopening nofun⟩
      dsimp only [Clients.begun]
      rw [hcount, Progress.owes, Bool.toNat_true]
      omega
    · rw [heq]
      refine ⟨h.drv, h.bInitialized, h.cfgLock, ?_, hcounted.trans (Nat.le_succ _), h.free,
        hopening fun cfg hp => absurd hp (hnot cfg)⟩
      dsimp only [Clients.begun]
      rw [hcount, howes, Bool.toNat_false]
      exact howed
  · obtain ⟨hinv, hinit, hlock, hle, hfree, hopen⟩ := hpart.keeps h.drv h.free
    exact ⟨hinv, hinit.trans h.bInitialized, hlock.trans h.cfgLock, hpart.owed rfl h.owed,
      by show t.initCount ≤ k + 1 + 1; omega, hfree, hopening hopen⟩

theorem clientsRunInv_exec {steps : List (ClientStep lim n)}
    (h : (clientsRun lim n).exec (.start lim n lock) steps = some c) (hlen : steps.length + 1 < 2 ^ 32) :
    ClientsRunInv lock steps.length c := by
  induction steps using List.reverseRecOn generalizing c with
  | nil =>
      cases h
      exact clientsRunInv_start lim n lock
  | append_singleton steps ev ih =>
      obtain ⟨mid, hmid, hstep⟩ := Machine.exec_snoc h
      rw [List.length_append, List.length_singleton] at hlen ⊢
      exact clientsRunInv_step (ih hmid (by omega)) hlen hstep

/-- A client of `twoByTwo` begins a call, or goes on with one. -/
def clientStep (client : Fin 2) (begins : Option ClientCall) : ClientStep twoByTwo 2 :=
  ⟨client, begins, halOk, silentPort twoByTwo⟩

/-- A client opens a device, and both check its handle for closing it before the first one does. -/
def closedTwice : List (ClientStep twoByTwo 2) :=
  [clientStep 0 (some (.open true (some (deviceCfg 7)))), clientStep 0 none, clientStep 0 none,
    clientStep 0 (some (.close 0)), clientStep 1 (some (.close 0)), clientStep 0 none]

/-- The step does not empty a slot that the call of another client works on. -/
def Spares (c : Clients lim n) (ev : ClientStep lim n) : Prop :=
  ∀ i, c.progress ev.client = .closing i → ∀ u, u ≠ ev.client → (c.progress u).slot ≠ some i

/-- Every slot in use is leased for the device that was asked for, and a call that has checked its handle
works on a slot that is still in use, for the same device. -/
structure LeasesHeld (c : Clients lim n) : Prop where
  asked : ∀ i lease, c.drv.leases i = some lease → c.asked i = some lease.deviceId
  held : ∀ u i, (c.progress u).slot = some i →
    (c.drv.instList i).inuse = true ∧ c.checked u = c.asked i
  device : ∀ u i d record rest, c.progress u = .accessing i d record rest →
    (c.drv.instList i).pDev = some d
  served : ∀ e ∈ c.served, ∃ deviceId, e = (some deviceId, some deviceId)

instance (c : Clients lim n) (ev : ClientStep lim n) : Decidable (Spares c ev) :=
  match h : c.progress ev.client with
  | .closing i =>
      decidable_of_iff (∀ u, u ≠ ev.client → (c.progress u).slot ≠ some i) <| by
        simp [Spares, h]
  | .idle _ | .initialised _ _ | .opening _ | .terminating | .reaching _ _ | .accessing _ _ _ _ =>
      .isTrue fun i hi => by rw [h] at hi; cases hi

theorem leasesHeld_start (lim : HbiLimits) (n lock : Nat) : LeasesHeld (Clients.start lim n lock) where
  asked i lease hlease := by cases hlease
  held u i hslot := by cases hslot
  device u i d record rest hu := by cases hu
  served e he := by cases he

/-- An access of a call reaches the device that was asked for when its handle was given out. -/
theorem LeasesHeld.accesses (h : LeasesHeld c) (hinv : DriverInv none c.drv) (u : Fin n) :
    ∀ e ∈ c.accesses u, ∃ deviceId, e = (some deviceId, some deviceId) := by
  intro e he
  unfold Clients.accesses at he
  split at he
  · next i d record op next hu =>
      obtain ⟨hi, hchecked⟩ := h.held u i (by rw [hu]; rfl)
      have hd := h.device u i d _ _ hu
      have hlease : c.drv.leases i
          = some ⟨(c.drv.devList d).devCfg.deviceId, (c.drv.devList d).portHandle⟩ := by
        rw [HbiDrv.leases, if_pos hi, hd, Option.map_some]
      have hreached := deviceReached_lease hinv hlease
      rw [List.mem_singleton] at he
      exact ⟨_, by rw [he, hchecked, h.asked i _ hlease, hreached]⟩
  · cases he

theorem LeasesHeld.begun (h : LeasesHeld c) (hinit : c.drv.bInitialized = true) (hal : Hal) (u : Fin n)
    (call : ClientCall) : LeasesHeld (c.begun u (beginCall hal c.drv call)) := by
  have hcases := beginCall_cases hal hinit call
  have hinst : ∀ i, (beginCall hal c.drv call).1.instList i = c.drv.instList i := by
    rcases hcases with ⟨pHandle, pDevCfg, heq⟩ | ⟨p, heq, -⟩
    · simp [heq]
    · simp [heq]
  have hleases : (beginCall hal c.drv call).1.leases = c.drv.leases := by
    rcases hcases with ⟨pHandle, pDevCfg, heq⟩ | ⟨p, heq, -⟩
    · rw [heq]
      rfl
    · rw [heq]
  have hslot : ∀ i, (beginCall hal c.drv call).2.slot = some i → (c.drv.instList i).inuse = true := by
    rcases hcases with ⟨pHandle, pDevCfg, heq⟩ | ⟨p, heq, -, -, huse, -⟩
    · rw [heq]
      exact nofun
    · rw [heq]
      exact huse
  have hnot : ∀ i d record rest, (beginCall hal c.drv call).2 ≠ .accessing i d record rest := by
    rcases hcases with ⟨pHandle, pDevCfg, heq⟩ | ⟨p, heq, -, -, -, hnot⟩
    · rw [heq]
      exact nofun
    · rw [heq]
      exact hnot
  refine ⟨?_, ?_, ?_, h.served⟩
  · intro i lease hlease
    exact h.asked i lease (hleases ▸ hlease)
  · intro v i hv
    simp only [Clients.begun, Function.update_apply, hinst] at hv ⊢
    by_cases hvu : v = u
    · rw [if_pos hvu] at hv ⊢
      rw [hv]
      exact ⟨hslot i hv, rfl⟩
    · rw [if_neg hvu] at hv ⊢
      exact h.held v i hv
  · intro v i d record rest hv
    simp only [Clients.begun, Function.update_apply, hinst] at hv ⊢
    by_cases hvu : v = u
    · rw [if_pos hvu] at hv
      exact absurd hv (hnot i d record rest)
    · rw [if_neg hvu] at hv
      exact h.device v i d record rest hv

theorem PartStep.frame {p p' : Progress lim} (h : PartStep s p t p') {i : Fin lim.maxInstances}
    (hi : (s.instList i).inuse = true) (hother : p ≠ .closing i) :
    t.instList i = s.instList i := by
  cases h with
  | same | terminated => rfl
  | joined hjoin =>
      obtain ⟨d, hinst⟩ := hjoin.inst
      rw [hinst, if_neg]
      rintro rfl
      rw [hjoin.free] at hi
      cases hi
  | left hleft =>
      rw [hleft.instList, Function.update_apply, if_neg]
      rintro rfl
      exact hother rfl

theorem PartStep.slot {p p' : Progress lim} (h : PartStep s p t p') {i : Fin lim.maxInstances}
    (hslot : p'.slot = some i) : p.slot = some i ∧ t = s := by
  cases h with
  | same howes hopening hsame hgrant =>
      rcases hsame with hnone | hsame
      · rw [hnone] at hslot
        cases hslot
      · exact ⟨hsame ▸ hslot, rfl⟩
  | joined | left | terminated => cases hslot

theorem PartStep.asked {p p' : Progress lim} (h : PartStep s p t p')
    {asked : Fin lim.maxInstances → Option Int}
    (hasked : ∀ i lease, s.leases i = some lease → asked i = some lease.deviceId) :
    (∀ i lease, t.leases i = some lease → grant asked p p' i = some lease.deviceId) ∧
      ∀ i, (s.instList i).inuse = true → grant asked p p' i = asked i := by
  cases h with
  | same howes hopening hslot hgrant =>
      rw [hgrant]
      exact ⟨hasked, fun _ _ => rfl⟩
  | @joined cfg _ i hjoin =>
      obtain ⟨portHandle, hleases⟩ := hjoin.leases
      refine ⟨fun j lease hlease => ?_, fun j hj => ?_⟩
      · rw [hleases, Function.update_apply] at hlease
        dsimp only [grant]
        by_cases hji : j = i
        · rw [if_pos hji, Option.some.injEq] at hlease
          rw [if_pos (congrArg Fin.val hji), ← hlease]
        · rw [if_neg hji] at hlease
          rw [if_neg (Fin.val_ne_of_ne hji)]
          exact hasked j lease hlease
      · dsimp only [grant]
        rw [if_neg]
        intro hji
        rw [Fin.ext hji, hjoin.free] at hj
        cases hj
  | @left _ i hleft =>
      refine ⟨fun j lease hlease => ?_, fun j _ => rfl⟩
      rw [hleft.leases, Function.update_apply] at hlease
      split at hlease
      · cases hlease
      · exact hasked j lease hlease
  | terminated answer hcount => exact ⟨hasked, fun _ _ => rfl⟩

theorem resume_accessing {p : Progress lim} {record : BusRecord} {rest : Tw HandleAnswer}
    (h : resume hal port s p = .done (t, .accessing i d record rest)) :
    t = s ∧ ((∃ call, p = .reaching i call ∧ (s.instList i).pDev = some d) ∨
      ∃ record' rest', p = .accessing i d record' rest') := by
  have hbind : ∀ {α : Type} {o : Outcome α} {f : α → HbiDrv lim × Progress lim},
      (o.bind fun a => .done (f a)) = .done (t, .accessing i d record rest) →
        ∃ a, (f a).2 = .accessing i d record rest := by
    intro α o f ho
    cases o with
    | done a => exact ⟨a, congrArg Prod.snd (Outcome.done.inj ho)⟩
    | fault f => cases ho
    | diverges => cases ho
  cases p with
  | idle last => cases h
  | initialised pHandle pDevCfg =>
      rw [resume, Outcome.done.injEq, Prod.mk.injEq] at h
      rcases checkOpen_cases s pHandle pDevCfg with ⟨last, heq⟩ | ⟨cfg, heq, -⟩
      · rw [heq] at h
        cases h.2
      · rw [heq] at h
        cases h.2
  | opening cfg =>
      obtain ⟨a, ha⟩ := hbind h
      cases ha
  | closing j =>
      obtain ⟨⟨u, status⟩, ha⟩ := hbind h
      cases status with
      | none => cases ha
      | some status => cases ha
  | terminating => cases h
  | reaching j call =>
      rw [resume] at h
      cases hd : (s.instList j).pDev with
      | none =>
          rw [hd] at h
          cases hearly : call.early with
          | none =>
              rw [hearly] at h
              cases h
          | some answer =>
              rw [hearly] at h
              cases h
      | some d' =>
          rw [hd] at h
          cases h
          exact ⟨rfl, .inl ⟨call, rfl, hd⟩⟩
  | accessing j d' record' rest' =>
      cases rest' with
      | pure answer => cases h
      | ask op next =>
          cases h
          exact ⟨rfl, .inr ⟨_, _, rfl⟩⟩

theorem LeasesHeld.resumed (h : LeasesHeld c) (hinv : DriverInv none c.drv) {ev : ClientStep lim n}
    {p : Progress lim} (hpart : PartStep c.drv (c.progress ev.client) t p)
    (hresume : resume ev.hal ev.port c.drv (c.progress ev.client) = .done (t, p))
    (hspares : Spares c ev) : LeasesHeld (c.resumed ev.client (t, p)) := by
  have hasked := hpart.asked h.asked
  have hother : ∀ v i, v ≠ ev.client → (c.progress v).slot = some i → c.progress ev.client ≠ .closing i :=
    fun v i hv hslot hclosing => hspares i hclosing v hv hslot
  refine ⟨hasked.1, ?_, ?_, ?_⟩
  · intro v i hv
    simp only [Clients.resumed, Function.update_apply] at hv ⊢
    by_cases hvu : v = ev.client
    · rw [if_pos hvu] at hv
      obtain ⟨hslot, rfl⟩ := hpart.slot hv
      obtain ⟨hi, hchecked⟩ := h.held ev.client i hslot
      rw [hasked.2 i hi, hvu]
      exact ⟨hi, hchecked⟩
    · rw [if_neg hvu] at hv
      obtain ⟨hi, hchecked⟩ := h.held v i hv
      rw [hpart.frame hi (hother v i hvu hv), hasked.2 i hi]
      exact ⟨hi, hchecked⟩
  · intro v i d record rest hv
    simp only [Clients.resumed, Function.update_apply] at hv ⊢
    by_cases hvu : v = ev.client
    · rw [if_pos hvu] at hv
      subst hv
      obtain ⟨rfl, ⟨call, -, hd⟩ | ⟨record', rest', hprogress⟩⟩ := resume_accessing _ _ hresume
      · exact hd
      · exact h.device ev.client i d record' rest' hprogress
    · rw [if_neg hvu] at hv
      have hslot : (c.progress v).slot = some i := by rw [hv]; rfl
      rw [hpart.frame (h.held v i hslot).1 (hother v i hvu hslot)]
      exact h.device v i d record rest hv
  · intro e he
    rcases List.mem_append.1 he with hbefore | hnow
    · exact h.served e hbefore
    · exact h.accesses hinv ev.client e hnow

theorem leasesHeld_step (h : LeasesHeld c) (hinv : ClientsRunInv lock k c) {ev : ClientStep lim n}
    (hspares : Spares c ev) (hstep : (clientsRun lim n).step c ev = some c') : LeasesHeld c' := by
  rcases clientsRun_cases hinv hstep with ⟨call, last, -, rfl⟩ | ⟨t, p, hpart, hresume, rfl⟩
  · exact h.begun hinv.bInitialized ev.hal ev.client call
  · exact h.resumed hinv.drv hpart hresume hspares

end Runs

/-- One client reads a register of its device while the other opens a second device and closes it. -/
def readBeside : List (ClientStep twoByTwo 2) :=
  [clientStep 0 (some (.open true (some (deviceCfg 7)))), clientStep 1 (some (.open true (some (deviceCfg 9)))),
    clientStep 0 none, clientStep 1 none, clientStep 0 none, clientStep 1 none,
    clientStep 0 (some (.use 0 (.read 0x28 true 2))), clientStep 1 (some (.close 1)), clientStep 0 none,
    clientStep 1 none, clientStep 0 none]

end VprocSdk
