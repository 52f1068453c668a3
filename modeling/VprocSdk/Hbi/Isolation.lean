import VprocSdk.Hbi.Calls

/-!
# What a handle gives its holder

Seen from outside, the driver grants leases: a handle that is open stands for a device and for the port
opened for it. `LeaseStep` is the whole of what a call may do to them: an open that succeeds grants a
handle that had no lease, a close may end the lease of its own handle, and nothing else changes one.
The driver's calls refine it, whatever slots and ports they reuse, so that what a client was granted
stays what it drives until it closes its handle.
-/

namespace VprocSdk

open Lib

variable {lim : HbiLimits} {s : HbiDrv lim}

/-- The device a handle was opened for and the port it drives. -/
structure Lease where
  deviceId : Int
  port : Nat
  deriving DecidableEq, Repr

abbrev Leases (lim : HbiLimits) := Fin lim.maxInstances → Option Lease

/-- What a call and its answer may do to the leases. -/
inductive LeaseStep (m : Leases lim) : HbiCall → HbiStatus × Option Nat → Leases lim → Prop
  | granted {pHandle : Bool} {cfg : DevCfg} {i : Fin lim.maxInstances} {port : Nat}
      (hfree : m i = none) :
      LeaseStep m (.open pHandle (some cfg)) (.success, some i.val)
        (Function.update m i (some ⟨cfg.deviceId, port⟩))
  | ended {i : Fin lim.maxInstances} {status : HbiStatus} :
      LeaseStep m (.close i.val) (status, none) (Function.update m i none)
  | unchanged {call : HbiCall} {status : HbiStatus} : LeaseStep m call (status, none) m

/-! ### The leases of the driver -/

def HbiDrv.leases (s : HbiDrv lim) : Leases lim := fun i =>
  if (s.instList i).inuse then
    (s.instList i).pDev.map fun d => ⟨(s.devList d).devCfg.deviceId, (s.devList d).portHandle⟩
  else none

theorem HbiDrv.leases_eq_some {i : Fin lim.maxInstances} {lease : Lease}
    (h : s.leases i = some lease) :
    ∃ d, (s.instList i).inuse = true ∧ (s.instList i).pDev = some d ∧
      (s.devList d).devCfg.deviceId = lease.deviceId ∧ (s.devList d).portHandle = lease.port := by
  unfold leases at h
  split at h
  · rename_i hi
    obtain ⟨d, hd, rfl⟩ := Option.map_eq_some_iff.1 h
    exact ⟨d, hi, hd, rfl, rfl⟩
  · simp at h

theorem HbiDrv.leases_free {i : Fin lim.maxInstances} (h : (s.instList i).inuse = false) :
    s.leases i = none := by
  simp [leases, h]

theorem HbiDrv.leases_congr {t : HbiDrv lim} (hinst : ∀ i, t.instList i = s.instList i)
    (hdev : ∀ i d, (s.instList i).inuse = true → (s.instList i).pDev = some d →
      (t.devList d).devCfg.deviceId = (s.devList d).devCfg.deviceId ∧
        (t.devList d).portHandle = (s.devList d).portHandle) : t.leases = s.leases := by
  funext i
  unfold leases
  rw [hinst i]
  by_cases hi : (s.instList i).inuse = true
  · rw [if_pos hi, if_pos hi]
    cases hd : (s.instList i).pDev with
    | none => rfl
    | some d =>
        obtain ⟨hid, hport⟩ := hdev i d hi hd
        rw [Option.map_some, Option.map_some, hid, hport]
  · rw [if_neg hi, if_neg hi]

section Steps

variable {d : Fin lim.maxNumDevs} {i : Fin lim.maxInstances}

theorem HbiDrv.leases_added (instances : Fin lim.maxInstPerDev → Nat) :
    (s.added d i instances).leases = Function.update s.leases i
      (some ⟨(s.devList d).devCfg.deviceId, (s.devList d).portHandle⟩) := by
  funext j
  by_cases hji : j = i
  · subst hji
    have hinst : (s.added d j instances).instList j = ⟨some d, true⟩ := by simp [added]
    simp [leases, hinst, added_devList]
  · have hinst : (s.added d i instances).instList j = s.instList j := by simp [added, hji]
    rw [Function.update_of_ne hji]
    unfold leases
    simp only [hinst, added_devList]

theorem HbiDrv.leases_removed : (s.removed i d).leases = Function.update s.leases i none := by
  funext j
  by_cases hji : j = i
  · subst hji
    simp [leases, removed]
  · have hinst : (s.removed i d).instList j = s.instList j := by simp [removed, hji]
    rw [Function.update_of_ne hji]
    unfold leases
    simp only [hinst, removed_devList]

/-- A device opened in a free slot is nobody's yet. -/
theorem HbiDrv.leases_openDevice (h : DriverInv none s) (hfree : (s.devList d).inuse = false)
    (cfg : DevCfg) (ssl : SslDrv lim) (handle : Nat) :
    (openDevice s d cfg ssl handle).leases = s.leases := by
  apply leases_congr
  · intro j
    rfl
  · intro j d' hj hd'
    obtain ⟨d'', hd'', hinuse⟩ := h.instDev j hj
    have hne : d' ≠ d := by
      intro heq
      subst heq
      rw [hd', Option.some.injEq] at hd''
      simp [hd'', hinuse] at hfree
    simp [openDevice, hne]

theorem HbiDrv.leases_closeDevice (husers : ∀ j, (s.instList j).inuse = true →
    (s.instList j).pDev ≠ some d) (ssl : SslDrv lim) (n : Nat) :
    (closeDevice s d ssl n).leases = s.leases := by
  apply leases_congr
  · intro j
    rfl
  · intro j d' hj hd'
    have hne : d' ≠ d := by
      intro heq
      subst heq
      exact husers j hj hd'
    simp [closeDevice, hne]

theorem DriverInv.no_user_left (h : DriverInv none s) (hi : (s.instList i).inuse = true)
    (hpDev : (s.instList i).pDev = some d) (hlast : (s.devList d).numCurInstances = 1)
    (j : Fin lim.maxInstances) (hj : ((s.removed i d).instList j).inuse = true) :
    ((s.removed i d).instList j).pDev ≠ some d := by
  intro hjd
  obtain ⟨d', hd', hopen⟩ := h.instDev i hi
  obtain rfl : d = d' := by simpa [hpDev] using hd'
  have hcount := HbiDrv.removed_users hi hpDev d
  rw [if_pos rfl, ← (h.devUsers d hopen).1, hlast] at hcount
  have hnone : (s.removed i d).users d = 0 := by omega
  exact count_eq_zero.1 hnone j ⟨hj, hjd⟩

end Steps

/-! ### The calls refine the steps -/

variable (hal : Hal) (port : HalPort lim)

theorem hbiInit_leases (h : DriverInv none s) (pCfg : Option Nat) :
    (hbiInit hal s pCfg).1.leases = s.leases := by
  unfold hbiInit
  by_cases hinit : s.bInitialized = true
  · rw [if_pos hinit]
    rfl
  · have hnum := (h.idle (by simpa using hinit)).1
    rw [h.numInstances] at hnum
    have hold : s.leases = fun _ => none := by
      funext i
      apply HbiDrv.leases_free
      simpa using count_eq_zero.1 hnum i
    rw [if_neg hinit, hold]
    dsimp only
    split <;> rfl

theorem hbiTerm_leases (s : HbiDrv lim) : (hbiTerm hal s).1.leases = s.leases := by
  unfold hbiTerm
  split
  · rfl
  split
  · rfl
  split
  · rfl
  dsimp only
  split <;> rfl

/-- After its checks `HBI_open` changes nothing and stores no handle, or grants a free slot. -/
theorem openUser_leases (h : DriverInv none s) (hlimit : s.numInstances < lim.maxInstances)
    (pHandle : Bool) (cfg : DevCfg) {r : HbiDrv lim × HbiStatus × Option Nat}
    (hr : openUser hal port s cfg = .done r) :
    LeaseStep s.leases (.open pHandle (some cfg)) r.2 r.1.leases := by
  rcases openUser_cases hal port h hlimit cfg with
    ⟨-, status, -, heq⟩ | ⟨d, i, hfree, -, -, hid, heq⟩ |
    ⟨d, i, p, c, hfree, hd, -, -, -, -, -, -, heq⟩
  · rw [heq, Outcome.done.injEq] at hr
    rw [← hr]
    exact .unchanged
  · rw [heq, Outcome.done.injEq] at hr
    rw [← hr]
    dsimp only
    rw [HbiDrv.leases_added, hid]
    exact .granted (HbiDrv.leases_free hfree)
  · rw [heq, Outcome.done.injEq] at hr
    rw [← hr]
    dsimp only
    rw [HbiDrv.leases_added, HbiDrv.leases_openDevice h hd]
    have hid : ∀ ssl handle, ((openDevice s d cfg ssl handle).devList d).devCfg.deviceId
        = cfg.deviceId := by
      intro ssl handle
      simp [openDevice]
    rw [hid]
    exact .granted (HbiDrv.leases_free hfree)

/-- With a valid handle `HBI_close` changes nothing or ends the lease of that handle. -/
theorem closeUser_leases (h : DriverInv none s) {i : Fin lim.maxInstances}
    (hi : (s.instList i).inuse = true) {r : HbiDrv lim × HbiStatus}
    (hr : closeUser hal s i = .done r) :
    LeaseStep s.leases (.close i.val) (r.2, none) r.1.leases := by
  rcases closeUser_cases hal h hi with
    heq | ⟨-, heq⟩ | ⟨d, hpDev, hd, hmore, heq⟩ | ⟨d, p, hpDev, hd, hlast, hport, heq⟩
  · simp [heq] at hr
  · rw [heq, Outcome.done.injEq] at hr
    rw [← hr]
    exact .unchanged
  · rw [heq, Outcome.done.injEq] at hr
    rw [← hr, hbiTerm_leases, HbiDrv.leases_removed]
    exact .ended
  · rw [heq, Outcome.done.injEq] at hr
    rw [← hr, hbiTerm_leases, HbiDrv.leases_closeDevice (h.no_user_left hi hpDev hlast),
      HbiDrv.leases_removed]
    exact .ended

theorem hbiCall_leases (h : DriverInv none s) (ev : HbiEvent lim)
    {r : HbiDrv lim × HbiStatus × Option Nat} (hr : hbiCall s ev = .done r) :
    LeaseStep s.leases ev.1 r.2 r.1.leases := by
  obtain ⟨call, hal, port⟩ := ev
  cases call with
  | init pCfg =>
      rw [hbiCall, Outcome.done.injEq] at hr
      rw [← hr]
      dsimp only
      rw [hbiInit_leases hal h]
      exact .unchanged
  | term =>
      rw [hbiCall, Outcome.done.injEq] at hr
      rw [← hr]
      dsimp only
      rw [hbiTerm_leases]
      exact .unchanged
  | «open» pHandle pDevCfg =>
      have hinit := hbiInit_leases hal h none
      dsimp only [hbiCall] at hr
      rcases hbiOpen_cases hal port s pHandle pDevCfg with
        ⟨status, -, heq⟩ | ⟨cfg, rfl, -, hlimit, heq⟩
      · rw [heq, Outcome.done.injEq] at hr
        rw [← hr]
        dsimp only
        rw [hinit]
        exact .unchanged
      · rw [heq] at hr
        rw [← hinit]
        exact openUser_leases hal port (hbiInit_inv hal h none).1 hlimit pHandle cfg hr
  | close handle =>
      dsimp only [hbiCall] at hr
      rcases hbiClose_cases hal s handle with ⟨status, -, heq⟩ | ⟨i, hvalid, heq⟩
      · rw [heq, Outcome.bind, Outcome.done.injEq] at hr
        rw [← hr]
        exact .unchanged
      · obtain ⟨rfl, hi⟩ := HbiDrv.validHandle_eq_some.1 hvalid
        rw [heq] at hr
        cases hclose : closeUser hal s i with
        | done r' =>
            rw [hclose, Outcome.bind, Outcome.done.injEq] at hr
            rw [← hr]
            exact closeUser_leases hal h hi hclose
        | fault f => simp [hclose, Outcome.bind] at hr
        | diverges => simp [hclose, Outcome.bind] at hr

/-! ### What a lease is worth -/

/-- Reads, writes and commands on a handle pass its check and make their accesses to one port. -/
def HbiDrv.Drives (s : HbiDrv lim) (handle : Nat) (p : Fin lim.maxNumDevs) : Prop :=
  ∃ pDev : TwDev, pDev.portHandle = portHandleOf p ∧ ∀ port : HalPort lim,
    (∀ reg length, hbiRead port s handle reg true length
      = .done ((internalHbiRead reg length).run (port p) [])) ∧
    (∀ reg data, hbiWrite port s handle reg (some data)
      = .done ((internalHbiWrite reg data).run (port p) [])) ∧
    ∀ cmd, hbiSetCommand port s handle cmd
      = .done ((internalHbiSetCommand pDev cmd).run (port p) [])

theorem lease_port (h : DriverInv none s) {i : Fin lim.maxInstances} {lease : Lease}
    (hlease : s.leases i = some lease) :
    ∃ p c, lease.port = portHandleOf p ∧ s.ssl.dev p = ⟨some c, true⟩ ∧
      c.deviceId = lease.deviceId := by
  obtain ⟨d, hi, hd, hid, hport⟩ := HbiDrv.leases_eq_some hlease
  obtain ⟨d', hd', hinuse⟩ := h.instDev i hi
  obtain rfl : d = d' := Option.some.inj (hd.symm.trans hd')
  obtain ⟨p, c, hhandle, hdev, hc⟩ := h.devPort d hinuse
  exact ⟨p, c, hport.symm.trans hhandle, hdev, hc.trans hid⟩

theorem lease_deviceId (h : DriverInv none s) {i j : Fin lim.maxInstances} {lease lease' : Lease}
    (hi : s.leases i = some lease) (hj : s.leases j = some lease')
    (hport : lease.port = lease'.port) : lease.deviceId = lease'.deviceId := by
  obtain ⟨p, c, hp, hdev, hc⟩ := lease_port h hi
  obtain ⟨p', c', hp', hdev', hc'⟩ := lease_port h hj
  obtain rfl : p = p' := portHandleOf_inj (by rw [← hp, ← hp', hport])
  rw [hdev, SslDev.mk.injEq, Option.some.injEq] at hdev'
  rw [← hc, ← hc', hdev'.1]

theorem lease_drives (h : DriverInv none s) {i : Fin lim.maxInstances} {lease : Lease}
    {p : Fin lim.maxNumDevs} (hlease : s.leases i = some lease)
    (hport : lease.port = portHandleOf p) : s.Drives i.val p := by
  obtain ⟨d, hi, hd, -, hhandle⟩ := HbiDrv.leases_eq_some hlease
  obtain ⟨hinit, d', p', hd', hhandle', hwith⟩ := withDevice_eq h hi
  obtain rfl : d = d' := Option.some.inj (hd.symm.trans hd')
  obtain rfl : p = p' := portHandleOf_inj (hport.symm.trans (hhandle.symm.trans hhandle'))
  refine ⟨(s.devList d).tw, hhandle', fun port => ⟨?_, ?_, ?_⟩⟩
  · intro reg length
    simp [hbiRead, hinit, hwith]
  · intro reg data
    simp [hbiWrite, hinit, hwith]
  · intro cmd
    simp [hbiSetCommand, hinit, hwith]

/-! ### Histories of opens and closes -/

/-- An open that succeeded: the handle it returned, the device it was for, and the port that the
handle drove when it was returned. -/
structure LiveOpen where
  handle : Nat
  deviceId : Int
  port : Nat
  deriving DecidableEq, Repr

/-- The driver, and the opens whose handle `HBI_close` has not been called on since. -/
structure HbiClients (lim : HbiLimits) where
  drv : HbiDrv lim
  live : List LiveOpen

def HbiDrv.portOfHandle (s : HbiDrv lim) (handle : Nat) : Nat :=
  match s.validHandle handle with
  | none => 0
  | some i =>
      match (s.instList i).pDev with
      | none => 0
      | some d => (s.devList d).portHandle

def recordCall (live : List LiveOpen) (drv : HbiDrv lim) :
    HbiCall → HbiStatus × Option Nat → List LiveOpen
  | .open _ (some cfg), (.success, some handle) =>
      ⟨handle, cfg.deviceId, drv.portOfHandle handle⟩ :: live
  | .close handle, _ => live.filter fun o => o.handle ≠ handle
  | _, _ => live

/-- Sequences of calls with their history of opens and closes. -/
def clientsMachine (lim : HbiLimits) : Machine (HbiClients lim) (HbiEvent lim) where
  step s ev :=
    match hbiCall s.drv ev with
    | .done (drv, answer) => some ⟨drv, recordCall s.live drv ev.1 answer⟩
    | .fault _ | .diverges => none

/-- Every live open holds a lease for what it was granted, and no two have one handle. -/
structure Holds (m : Leases lim) (live : List LiveOpen) : Prop where
  lease : ∀ o ∈ live, ∃ i, i.val = o.handle ∧ m i = some ⟨o.deviceId, o.port⟩
  nodup : (live.map LiveOpen.handle).Nodup

theorem HbiDrv.portOfHandle_eq {i : Fin lim.maxInstances} {lease : Lease}
    (h : s.leases i = some lease) : s.portOfHandle i.val = lease.port := by
  obtain ⟨d, hi, hd, -, hport⟩ := HbiDrv.leases_eq_some h
  rw [portOfHandle, HbiDrv.validHandle_eq_some.2 ⟨rfl, hi⟩]
  dsimp only
  rw [hd]
  exact hport

theorem Holds.step {m : Leases lim} {live : List LiveOpen} {call : HbiCall}
    {answer : HbiStatus × Option Nat} {drv : HbiDrv lim} (h : Holds m live)
    (hstep : LeaseStep m call answer drv.leases) :
    Holds drv.leases (recordCall live drv call answer) := by
  generalize hnew : drv.leases = m' at hstep
  cases hstep with
  | @granted pHandle cfg i port hfree =>
      have hport : drv.portOfHandle i.val = port := by
        have hgranted : drv.leases i = some ⟨cfg.deviceId, port⟩ := by
          rw [hnew, Function.update_self]
        exact HbiDrv.portOfHandle_eq hgranted
      have hfresh : ∀ o ∈ live, o.handle ≠ i.val := by
        intro o ho heq
        obtain ⟨j, hj, hlease⟩ := h.lease o ho
        obtain rfl : j = i := Fin.ext (hj.trans heq)
        simp [hfree] at hlease
      dsimp only [recordCall]
      rw [hport]
      constructor
      · intro o ho
        rcases List.mem_cons.1 ho with rfl | hold
        · exact ⟨i, rfl, by rw [Function.update_self]⟩
        · obtain ⟨j, hj, hlease⟩ := h.lease o hold
          have hne : j ≠ i := by
            intro heq
            subst heq
            exact hfresh o hold hj.symm
          exact ⟨j, hj, by rw [Function.update_of_ne hne, hlease]⟩
      · rw [List.map_cons, List.nodup_cons]
        refine ⟨?_, h.nodup⟩
        intro hmem
        obtain ⟨o, ho, heq⟩ := List.mem_map.1 hmem
        exact hfresh o ho heq
  | @ended i status =>
      dsimp only [recordCall]
      constructor
      · intro o ho
        obtain ⟨hmem, hne⟩ := List.mem_filter.1 ho
        obtain ⟨j, hj, hlease⟩ := h.lease o hmem
        have hji : j ≠ i := by
          intro heq
          subst heq
          simp [hj] at hne
        exact ⟨j, hj, by rw [Function.update_of_ne hji, hlease]⟩
      · exact h.nodup.sublist (List.filter_sublist.map _)
  | @unchanged _ status =>
      have hsub : (recordCall live drv call (status, none)).Sublist live := by
        unfold recordCall
        split
        · rename_i heq
          simp at heq
        · exact List.filter_sublist
        · exact List.Sublist.refl _
      exact ⟨fun o ho => h.lease o (hsub.subset ho), h.nodup.sublist (hsub.map _)⟩

def ClientsInv (s : HbiClients lim) : Prop := DriverInv none s.drv ∧ Holds s.drv.leases s.live

theorem clients_step {s t : HbiClients lim} {ev : HbiEvent lim} (h : ClientsInv s)
    (hstep : (clientsMachine lim).step s ev = some t) : ClientsInv t := by
  obtain ⟨hinv, hholds⟩ := h
  have hcall := hbiCall_inv hinv ev
  simp only [clientsMachine] at hstep
  cases hresult : hbiCall s.drv ev with
  | done r =>
      rw [hresult] at hstep hcall
      rw [← Option.some.inj hstep]
      exact ⟨hcall, hholds.step (hbiCall_leases hinv ev hresult)⟩
  | fault f => simp [hresult] at hstep
  | diverges => simp [hresult] at hstep

/-- After every sequence of calls, no two live opens have one handle; a live open's handle drives the
port it drove when it was returned, which is open for the device the open asked for; and live opens for
different devices drive different ports. -/
theorem handles_isolated {events : List (HbiEvent lim)} {s : HbiClients lim}
    (h : (clientsMachine lim).exec ⟨.start, []⟩ events = some s) :
    (s.live.map LiveOpen.handle).Nodup ∧
      (∀ o ∈ s.live, ∃ p c, o.port = portHandleOf p ∧ s.drv.ssl.dev p = ⟨some c, true⟩ ∧
        c.deviceId = o.deviceId ∧ s.drv.Drives o.handle p) ∧
      ∀ o ∈ s.live, ∀ o' ∈ s.live, o.deviceId ≠ o'.deviceId → o.port ≠ o'.port := by
  have hall : ∀ ev ∈ events, (fun _ => True) ev := fun _ _ => trivial
  have hrun := Machine.runs_of_exec h hall
  have hstart : ClientsInv (⟨.start, []⟩ : HbiClients lim) := ⟨start_inv, by simp, by simp⟩
  obtain ⟨hinv, hholds⟩ := hrun.invariant hstart fun _ _ _ ht _ hstep => clients_step ht hstep
  refine ⟨hholds.nodup, ?_, ?_⟩
  · intro o ho
    obtain ⟨i, hi, hlease⟩ := hholds.lease o ho
    obtain ⟨p, c, hport, hdev, hc⟩ := lease_port hinv hlease
    rw [← hi]
    exact ⟨p, c, hport, hdev, hc, lease_drives hinv hlease hport⟩
  · intro o ho o' ho' hid hport
    obtain ⟨i, -, hlease⟩ := hholds.lease o ho
    obtain ⟨j, -, hlease'⟩ := hholds.lease o' ho'
    exact hid (lease_deviceId hinv hlease hlease' hport)

/-- The live opens of `sharedDevices`, in two devices' ports. -/
theorem handles_isolated_sharedDevices :
    ∃ s, (clientsMachine twoByTwo).exec ⟨.start, []⟩ sharedDevices = some s ∧
      s.live = [⟨0, 9, 2⟩, ⟨2, 9, 2⟩, ⟨1, 7, 1⟩] ∧ s.drv.Drives 0 ⟨1, by decide⟩ ∧
        s.drv.Drives 1 ⟨0, by decide⟩ := by
  have hlive : ((clientsMachine twoByTwo).exec ⟨.start, []⟩ sharedDevices).map HbiClients.live
      = some [⟨0, 9, 2⟩, ⟨2, 9, 2⟩, ⟨1, 7, 1⟩] := by decide
  obtain ⟨s, hs, hopens⟩ := Option.map_eq_some_iff.1 hlive
  obtain ⟨-, hdrives, -⟩ := handles_isolated hs
  rw [hopens] at hdrives
  obtain ⟨p, -, hp, -, -, hfirst⟩ := hdrives ⟨0, 9, 2⟩ (by decide)
  obtain ⟨q, -, hq, -, -, hthird⟩ := hdrives ⟨1, 7, 1⟩ (by decide)
  obtain rfl : p = ⟨1, by decide⟩ := portHandleOf_inj hp.symm
  obtain rfl : q = ⟨0, by decide⟩ := portHandleOf_inj hq.symm
  exact ⟨s, hs, hopens, hfirst, hthird⟩

end VprocSdk
