import VprocSdk.Hbi.FailedOpen
import VprocSdk.Hbi.Undo

/-!
# The driver's devices and the HBI handles they hold

`internal_hbi_open` of the kernel driver takes three things in turn: a handle from `HBI_open`, a minor
from the bitmap, and a place on the list; `internal_hbi_close` gives them back. What can fail on the way
is up to the step. `HBI_init` and `HBI_term` of other modules come in between, each `HBI_term` after an
`HBI_init` of its own. `SSL_port_close` succeeds when it returns, as `hal_close` does.

`HBI_close` takes its user out of the tables before it calls `HBI_term`, which may fail when the count of
initialisations is down to one. `HBI_open` counts one initialisation more even when it fails, so the count
is above one as long as it has not wrapped around.
-/

namespace VprocSdk

open Lib

variable {lim : HbiLimits}

/-- `struct hbi_dev`, as far as opening and closing use it. -/
structure LnxHbiDev (lim : HbiLimits) where
  hbiHandle : Nat
  devcfg : DevCfg
  minor : Fin lim.maxNumDevs
  device : Bool

/-- `hbi_lnx_drv_priv`, with the bitmap of minors and the HBI driver below. -/
structure HbiLnxDrvPriv (lim : HbiLimits) where
  list : List (LnxHbiDev lim)
  minors : Fin lim.maxNumDevs → Bool
  hbi : HbiDrv lim

/-- What `internal_hbi_open` is answered: `kmalloc`, the hardware layer in `HBI_open`, `device_create`, and
the hardware layer in the `HBI_close` of an error exit. -/
structure OpenAnswers (lim : HbiLimits) where
  allocated : Bool
  hal : Hal
  port : HalPort lim
  created : Bool
  halClose : Hal

namespace HbiLnxDrvPriv

/-- The driver after `module_init` has called `HBI_init`. -/
def loaded (lim : HbiLimits) : HbiLnxDrvPriv lim := ⟨[], fun _ => false, .initial lim⟩

/-- The exits of `internal_hbi_open` after `HBI_open`. -/
def giveBack (drv : HbiLnxDrvPriv lim) (hal : Hal) (hbi : HbiDrv lim) (handle : Nat) :
    Outcome (HbiLnxDrvPriv lim × Int) :=
  (hbiClose hal hbi handle).bind fun r => .done ({ drv with hbi := r.1 }, HbiStatus.internalErr.code)

def internalHbiOpen (drv : HbiLnxDrvPriv lim) (devcfg : DevCfg) (ans : OpenAnswers lim) :
    Outcome (HbiLnxDrvPriv lim × Int) :=
  if !ans.allocated then .done (drv, -1)
  else
    (hbiOpen ans.hal ans.port drv.hbi true (some devcfg)).bind fun (hbi, status, handle) =>
      let handle := handle.getD 0
      if status ≠ .success then .done ({ drv with hbi }, HbiStatus.resourceErr.code)
      else
        match firstSlot fun minor => !drv.minors minor with
        | some minor =>
            if ans.created then
              .done
                ({ list := ⟨handle, devcfg, minor, true⟩ :: drv.list
                   minors := Function.update drv.minors minor true
                   hbi },
                  HbiStatus.success.code)
            else drv.giveBack ans.halClose hbi handle
        | none => drv.giveBack ans.halClose hbi handle

/-- `internal_hbi_close`, on a device by its place on the list. -/
def internalHbiClose (drv : HbiLnxDrvPriv lim) (device : Option (Fin drv.list.length)) (hal : Hal) :
    Outcome (HbiLnxDrvPriv lim × Int) :=
  match device with
  | none => .done (drv, HbiStatus.badHandle.code)
  | some place =>
      let dev := drv.list.get place
      (hbiClose hal drv.hbi dev.hbiHandle).bind fun (hbi, status) =>
        if status ≠ .success then .done ({ drv with hbi }, status.code)
        else
          .done
            ({ list := drv.list.eraseIdx place
               minors := if dev.device then Function.update drv.minors dev.minor false else drv.minors
               hbi },
              status.code)

end HbiLnxDrvPriv

/-! ### What stays in step -/

/-- List, bitmap and HBI instances are in step. -/
structure InStep (drv : HbiLnxDrvPriv lim) : Prop where
  bits : ∀ minor, drv.minors minor = true ↔ ∃ dev ∈ drv.list, dev.minor = minor
  minors : (drv.list.map LnxHbiDev.minor).Nodup
  handles : (drv.list.map LnxHbiDev.hbiHandle).Nodup
  inuse : ∀ dev ∈ drv.list, ∃ i, drv.hbi.validHandle dev.hbiHandle = some i
  listed : ∀ i, (drv.hbi.instList i).inuse = true → ∃ dev ∈ drv.list, dev.hbiHandle = i.val

/-- List, bitmap and HBI tables are as they were. -/
structure Untouched (drv drv' : HbiLnxDrvPriv lim) : Prop where
  list : drv'.list = drv.list
  minors : drv'.minors = drv.minors
  tables : SameTables drv.hbi drv'.hbi

/-! ### Steps -/

inductive LnxCall (lim : HbiLimits)
  | openDevice (devcfg : DevCfg) (ans : OpenAnswers lim)
  | closeDevice (place : Nat) (hal : Hal)
  | hbiInit (hal : Hal)
  | hbiTerm (hal : Hal)

/-- The driver, and the calls of `HBI_init` by other modules that `HBI_term` has not followed. -/
structure LnxState (lim : HbiLimits) where
  drv : HbiLnxDrvPriv lim
  others : Nat

/-- The result of a call, if `SSL_port_close` succeeds in it and the step is one that is considered. -/
def lnxCall (s : LnxState lim) : LnxCall lim → Option (LnxState lim × Int)
  | .openDevice devcfg ans =>
      if ans.halClose.closeOk then
        match s.drv.internalHbiOpen devcfg ans with
        | .done (drv, status) => some ({ s with drv }, status)
        | .fault _ | .diverges => none
      else none
  | .closeDevice place hal =>
      if h : place < s.drv.list.length then
        if hal.closeOk then
          match s.drv.internalHbiClose (some ⟨place, h⟩) hal with
          | .done (drv, status) => some ({ s with drv }, status)
          | .fault _ | .diverges => none
        else none
      else none
  | .hbiInit hal =>
      let (hbi, status) := hbiInit hal s.drv.hbi none
      some (⟨{ s.drv with hbi }, if status = .success then s.others + 1 else s.others⟩, status.code)
  | .hbiTerm hal =>
      if s.others = 0 then none
      else
        let (hbi, status) := hbiTerm hal s.drv.hbi
        some (⟨{ s.drv with hbi }, s.others - 1⟩, status.code)

def lnxMachine (lim : HbiLimits) : Machine (LnxState lim) (LnxCall lim) where
  step s call := (lnxCall s call).map Prod.fst

def LnxState.loaded (lim : HbiLimits) : LnxState lim := ⟨.loaded lim, 0⟩

def FailureKeeps (s : LnxState lim) (call : LnxCall lim) : Prop :=
  ∀ t status, lnxCall s call = some (t, status) → status ≠ HbiStatus.success.code →
    Untouched s.drv t.drv

/-- The call does not close a device on the last counted initialisation, but for the only device, with a
`hal_term` that succeeds. -/
def CloseCounted (s : LnxState lim) : LnxCall lim → Prop
  | .closeDevice _ hal => 1 < s.drv.hbi.initCount ∨ s.drv.hbi.numInstances = 1 ∧ hal.termOk = true
  | _ => True

/-! ### What one call does -/

theorem HbiStatus.code_success {status : HbiStatus} :
    (status.code : Int) = HbiStatus.success.code ↔ status = .success := by
  cases status <;> decide

/-- One initialisation more at most, and none less. -/
def CountsUp (hbi hbi' : HbiDrv lim) : Prop :=
  hbi.bInitialized = true → 1 ≤ hbi.initCount → hbi.initCount + 1 < 2 ^ 32 →
    hbi'.bInitialized = true ∧ hbi.initCount ≤ hbi'.initCount ∧ hbi'.initCount ≤ hbi.initCount + 1

section Calls

variable {drv : HbiLnxDrvPriv lim} {hal : Hal}

theorem hbiInit_counts (hal : Hal) {hbi : HbiDrv lim} (hinit : hbi.bInitialized = true)
    (hlt : hbi.initCount + 1 < 2 ^ 32) :
    (hbiInit hal hbi none).1.bInitialized = true ∧
      (hbiInit hal hbi none).1.initCount = hbi.initCount + 1 := by
  rw [hbiInit_again hal hinit]
  refine ⟨hinit, ?_⟩
  show incr hbi.initCount = hbi.initCount + 1
  unfold incr
  omega

theorem giveBack_cases {hbi : HbiDrv lim} {i : Fin lim.maxInstances} (h : Grants drv.hbi hbi i)
    (hclose : hal.closeOk = true) :
    drv.giveBack hal hbi i.val = .diverges ∨
    ∃ hbi', drv.giveBack hal hbi i.val = .done ({ drv with hbi := hbi' }, HbiStatus.internalErr.code) ∧
      SameTables drv.hbi hbi' ∧ Tidy hbi' ∧
      (1 < hbi.initCount → hbi'.bInitialized = true ∧ hbi'.initCount + 1 = hbi.initCount) := by
  have hi : (hbi.instList i).inuse = true := (h.inuse i).2 (.inl rfl)
  unfold HbiLnxDrvPriv.giveBack
  rcases hbiClose_user hal h.tidy hi hclose with
    hdiv | ⟨u, d, -, hu, -, -, hinit, hcount, -, hterm, -⟩
  · exact .inl (by rw [hdiv]; rfl)
  · refine .inr ⟨(hbiTerm hal u).1, by rw [hterm]; rfl, h.undo hal _ _ hclose hterm,
      hbiTerm_tidy hal hu, ?_⟩
    intro hmore
    rw [hbiTerm_again hal hinit (by omega)]
    exact ⟨hinit, by dsimp only; omega⟩

/-- `internal_hbi_open` does not return, fails with the tables as they were, or lists a device under a new
handle and a new minor. -/
theorem internalHbiOpen_cases (h : Tidy drv.hbi) (devcfg : DevCfg) {ans : OpenAnswers lim}
    (hclose : ans.halClose.closeOk = true) :
    drv.internalHbiOpen devcfg ans = .diverges ∨
    (∃ hbi status, drv.internalHbiOpen devcfg ans = .done ({ drv with hbi }, status) ∧
      status ≠ HbiStatus.success.code ∧ SameTables drv.hbi hbi ∧ Tidy hbi ∧ CountsUp drv.hbi hbi) ∨
    ∃ hbi i minor, drv.internalHbiOpen devcfg ans
        = .done ({ list := ⟨i.val, devcfg, minor, true⟩ :: drv.list
                   minors := Function.update drv.minors minor true
                   hbi }, HbiStatus.success.code) ∧
      drv.minors minor = false ∧ Grants drv.hbi hbi i ∧
      (drv.hbi.bInitialized = true → drv.hbi.initCount + 1 < 2 ^ 32 →
        hbi.bInitialized = true ∧ hbi.initCount = drv.hbi.initCount + 1) := by
  unfold HbiLnxDrvPriv.internalHbiOpen
  by_cases halloc : ans.allocated = true
  · rw [if_neg (by simp [halloc])]
    rcases hbiOpen_grants ans.hal h ans.port devcfg with
      ⟨status, hstatus, hopen⟩ | ⟨hbi, i, hopen, hgrants, hinit, hcount⟩
    · refine .inr (.inl ⟨(hbiInit ans.hal drv.hbi none).1, HbiStatus.resourceErr.code, ?_, by decide,
        hbiInit_same ans.hal h.inv none, hbiInit_tidy ans.hal h none, ?_⟩)
      · rw [hopen, Outcome.bind]
        exact if_pos hstatus
      · intro hready hpos hlt
        obtain ⟨hinit, hcount⟩ := hbiInit_counts ans.hal hready hlt
        exact ⟨hinit, by omega, by omega⟩
    · have hcounts : drv.hbi.bInitialized = true → drv.hbi.initCount + 1 < 2 ^ 32 →
          hbi.bInitialized = true ∧ hbi.initCount = drv.hbi.initCount + 1 := by
        intro hready hlt
        rw [hinit, hcount]
        exact hbiInit_counts ans.hal hready hlt
      have hback : drv.giveBack ans.halClose hbi i.val = .diverges ∨
          ∃ hbi' status, drv.giveBack ans.halClose hbi i.val
              = .done ({ drv with hbi := hbi' }, status) ∧ status ≠ HbiStatus.success.code ∧
            SameTables drv.hbi hbi' ∧ Tidy hbi' ∧ CountsUp drv.hbi hbi' := by
        rcases giveBack_cases hgrants hclose with hdiv | ⟨hbi', heq, hsame, htidy, hgiven⟩
        · exact .inl hdiv
        · refine .inr ⟨hbi', _, heq, by decide, hsame, htidy, ?_⟩
          intro hready hpos hlt
          obtain ⟨-, hmore⟩ := hcounts hready hlt
          obtain ⟨hinit', hcount'⟩ := hgiven (by omega)
          exact ⟨hinit', by omega, by omega⟩
      rw [hopen]
      dsimp only [Outcome.bind, Option.getD_some]
      rw [if_neg (not_not.2 rfl)]
      cases hminor : firstSlot fun minor => !drv.minors minor with
      | none => exact hback.imp_right .inl
      | some minor =>
          have htest := firstSlot_some hminor
          dsimp only
          by_cases hcreated : ans.created = true
          · rw [if_pos hcreated]
            exact .inr (.inr ⟨hbi, i, minor, rfl, by simpa using htest, hgrants, hcounts⟩)
          · rw [if_neg hcreated]
            exact hback.imp_right .inl
  · refine .inr (.inl ⟨drv.hbi, -1, if_pos (by simpa using halloc), by decide,
      .of_eq rfl rfl rfl rfl, h, fun hready hpos _ => ⟨hready, by omega, by omega⟩⟩)

/-- `internal_hbi_close` of a listed device: the handle is given back in any case. Whether the device
comes off the list depends on the count of initialisations. -/
theorem internalHbiClose_cases (h : Tidy drv.hbi) {place : Fin drv.list.length}
    {i : Fin lim.maxInstances} (hi : (drv.hbi.instList i).inuse = true)
    (hhandle : (drv.list.get place).hbiHandle = i.val) (hdevice : (drv.list.get place).device = true)
    (hclose : hal.closeOk = true) :
    drv.internalHbiClose (some place) hal = .diverges ∨
    ∃ hbi, Tidy hbi ∧ hbi.instList = Function.update drv.hbi.instList i ⟨none, false⟩ ∧
      (1 < drv.hbi.initCount → hbi.bInitialized = true ∧ hbi.initCount + 1 = drv.hbi.initCount) ∧
      ((1 < drv.hbi.initCount ∨ drv.hbi.numInstances = 1 ∧ hal.termOk = true) ∧
          drv.internalHbiClose (some place) hal
            = .done ({ list := drv.list.eraseIdx place
                       minors := Function.update drv.minors (drv.list.get place).minor false
                       hbi }, HbiStatus.success.code) ∨
        ¬ (1 < drv.hbi.initCount ∨ drv.hbi.numInstances = 1 ∧ hal.termOk = true) ∧
          ∃ status : Int, status ≠ HbiStatus.success.code ∧
            drv.internalHbiClose (some place) hal = .done ({ drv with hbi }, status)) := by
  unfold HbiLnxDrvPriv.internalHbiClose
  dsimp only
  rw [hhandle]
  rcases hbiClose_user hal h hi hclose with
    hdiv | ⟨u, d, -, hu, hinst, hnum, hinit, hcount, hssl, hterm, -⟩
  · exact .inl (by rw [hdiv]; rfl)
  · have hsucceeds := hbiTerm_succeeds_iff hal hu.inv hinit hssl
    have hone : u.numInstances = 0 ↔ drv.hbi.numInstances = 1 := by omega
    rw [hcount, hone] at hsucceeds
    have hlist : (hbiTerm hal u).1.instList = u.instList := by
      rcases hbiTerm_cases hal u with
        ⟨-, heq⟩ | ⟨-, ⟨-, heq⟩ | ⟨-, -, heq⟩ | ⟨-, -, ssl, -, heq | ⟨-, initCount, heq⟩⟩⟩
      all_goals rw [heq]
    refine .inr ⟨(hbiTerm hal u).1, hbiTerm_tidy hal hu, hlist.trans hinst, ?_, ?_⟩
    · intro hmore
      rw [hbiTerm_again hal hinit (by omega)]
      exact ⟨hinit, by dsimp only; omega⟩
    · rw [hterm, ← hsucceeds]
      dsimp only [Outcome.bind]
      by_cases hstatus : (hbiTerm hal u).2 = .success
      · refine .inl ⟨hstatus, ?_⟩
        rw [if_neg (not_not.2 hstatus), if_pos hdevice, hstatus]
      · have hcode : ((hbiTerm hal u).2.code : Int) ≠ HbiStatus.success.code :=
          fun heq => hstatus (HbiStatus.code_success.1 heq)
        exact .inr ⟨hstatus, _, hcode, if_pos hstatus⟩

end Calls

/-! ### What stays in step -/

section Erase

variable {α β : Type} {f : α → β} {l : List α} {place : Fin l.length} {x : α}

theorem ne_of_mem_eraseIdx (h : (l.map f).Nodup) (hx : x ∈ l.eraseIdx place) : f x ≠ f (l.get place) := by
  obtain ⟨k, hk, hne, rfl⟩ := List.mem_eraseIdx_iff_getElem.1 hx
  intro heq
  have hk' : k < (l.map f).length := by rwa [List.length_map]
  have hplace : place.val < (l.map f).length := by simp
  have hsame : (l.map f)[k] = (l.map f)[place.val] := by simpa using heq
  exact hne (h.getElem_inj_iff.1 hsame)

theorem mem_eraseIdx_of_ne (hx : x ∈ l) (hne : f x ≠ f (l.get place)) : x ∈ l.eraseIdx place := by
  obtain ⟨k, hk, rfl⟩ := List.getElem_of_mem hx
  refine List.mem_eraseIdx_iff_getElem.2 ⟨k, hk, ?_, rfl⟩
  intro heq
  subst heq
  exact hne rfl

end Erase

section InStep

variable {drv drv' : HbiLnxDrvPriv lim} {hbi : HbiDrv lim} {i : Fin lim.maxInstances}

theorem InStep.of_untouched (h : InStep drv) (hsame : Untouched drv drv') : InStep drv' where
  bits := by
    rw [hsame.list, hsame.minors]
    exact h.bits
  minors := by
    rw [hsame.list]
    exact h.minors
  handles := by
    rw [hsame.list]
    exact h.handles
  inuse dev hdev := by
    rw [hsame.list] at hdev
    obtain ⟨i, hi⟩ := h.inuse dev hdev
    obtain ⟨hval, huse⟩ := HbiDrv.validHandle_eq_some.1 hi
    exact ⟨i, HbiDrv.validHandle_eq_some.2 ⟨hval, (hsame.tables.inuse i).trans huse⟩⟩
  listed i hi := by
    rw [hsame.tables.inuse i] at hi
    rw [hsame.list]
    exact h.listed i hi

theorem InStep.opened (h : InStep drv) {minor : Fin lim.maxNumDevs} (devcfg : DevCfg)
    (hgrants : Grants drv.hbi hbi i) (hminor : drv.minors minor = false) :
    InStep { list := ⟨i.val, devcfg, minor, true⟩ :: drv.list
             minors := Function.update drv.minors minor true
             hbi } where
  bits minor' := by
    by_cases hsame : minor' = minor
    · subst hsame
      refine iff_of_true (by simp) ⟨_, List.mem_cons_self, rfl⟩
    · dsimp only
      rw [Function.update_of_ne hsame, h.bits minor']
      constructor
      · intro hexists
        obtain ⟨dev, hdev, hm⟩ := hexists
        exact ⟨dev, List.mem_cons_of_mem _ hdev, hm⟩
      · intro hexists
        obtain ⟨dev, hdev, hm⟩ := hexists
        rcases List.mem_cons.1 hdev with rfl | hold
        · exact absurd hm.symm hsame
        · exact ⟨dev, hold, hm⟩
  minors := by
    rw [List.map_cons, List.nodup_cons]
    refine ⟨?_, h.minors⟩
    intro hmem
    obtain ⟨dev, hdev, hm⟩ := List.mem_map.1 hmem
    have hset := (h.bits minor).2 ⟨dev, hdev, hm⟩
    rw [hminor] at hset
    cases hset
  handles := by
    rw [List.map_cons, List.nodup_cons]
    refine ⟨?_, h.handles⟩
    intro hmem
    obtain ⟨dev, hdev, hhandle⟩ := List.mem_map.1 hmem
    obtain ⟨j, hj⟩ := h.inuse dev hdev
    obtain ⟨hval, huse⟩ := HbiDrv.validHandle_eq_some.1 hj
    obtain rfl : j = i := Fin.ext (hval.trans hhandle)
    rw [hgrants.fresh] at huse
    cases huse
  inuse dev hdev := by
    rcases List.mem_cons.1 hdev with rfl | hold
    · exact ⟨i, HbiDrv.validHandle_eq_some.2 ⟨rfl, (hgrants.inuse i).2 (.inl rfl)⟩⟩
    · obtain ⟨j, hj⟩ := h.inuse dev hold
      obtain ⟨hval, huse⟩ := HbiDrv.validHandle_eq_some.1 hj
      exact ⟨j, HbiDrv.validHandle_eq_some.2 ⟨hval, (hgrants.inuse j).2 (.inr huse)⟩⟩
  listed j hj := by
    rcases (hgrants.inuse j).1 hj with rfl | huse
    · exact ⟨_, List.mem_cons_self, rfl⟩
    · obtain ⟨dev, hdev, hhandle⟩ := h.listed j huse
      exact ⟨dev, List.mem_cons_of_mem _ hdev, hhandle⟩

theorem InStep.closed (h : InStep drv) {place : Fin drv.list.length}
    (hhandle : (drv.list.get place).hbiHandle = i.val)
    (hinst : hbi.instList = Function.update drv.hbi.instList i ⟨none, false⟩) :
    InStep { list := drv.list.eraseIdx place
             minors := Function.update drv.minors (drv.list.get place).minor false
             hbi } where
  bits minor := by
    by_cases hsame : minor = (drv.list.get place).minor
    · subst hsame
      refine iff_of_false (by simp) ?_
      intro hexists
      obtain ⟨dev, hdev, hm⟩ := hexists
      exact ne_of_mem_eraseIdx h.minors hdev hm
    · dsimp only
      rw [Function.update_of_ne hsame, h.bits minor]
      constructor
      · intro hexists
        obtain ⟨dev, hdev, rfl⟩ := hexists
        exact ⟨dev, mem_eraseIdx_of_ne hdev hsame, rfl⟩
      · intro hexists
        obtain ⟨dev, hdev, hm⟩ := hexists
        exact ⟨dev, List.mem_of_mem_eraseIdx hdev, hm⟩
  minors := h.minors.sublist ((List.eraseIdx_sublist _ _).map _)
  handles := h.handles.sublist ((List.eraseIdx_sublist _ _).map _)
  inuse dev hdev := by
    have hne := ne_of_mem_eraseIdx h.handles hdev
    obtain ⟨j, hj⟩ := h.inuse dev (List.mem_of_mem_eraseIdx hdev)
    obtain ⟨hval, huse⟩ := HbiDrv.validHandle_eq_some.1 hj
    have hji : j ≠ i := by
      intro heq
      subst heq
      exact hne (hval.symm.trans hhandle.symm)
    refine ⟨j, HbiDrv.validHandle_eq_some.2 ⟨hval, ?_⟩⟩
    rw [hinst, Function.update_of_ne hji]
    exact huse
  listed j hj := by
    have hji : j ≠ i := by
      intro heq
      subst heq
      rw [hinst, Function.update_self] at hj
      cases hj
    rw [hinst, Function.update_of_ne hji] at hj
    obtain ⟨dev, hdev, hval⟩ := h.listed j hj
    refine ⟨dev, mem_eraseIdx_of_ne (f := LnxHbiDev.hbiHandle) hdev ?_, hval⟩
    rw [hval, hhandle]
    exact fun heq => hji (Fin.ext heq)

end InStep

/-! ### One step -/

/-- The state of a run in which nothing has gone wrong. -/
structure Listing (s : LnxState lim) : Prop where
  tidy : Tidy s.drv.hbi
  device : ∀ dev ∈ s.drv.list, dev.device = true
  inStep : InStep s.drv

/-- The driver is initialised, and counts one initialisation of its own, one for each listed device and
one for each call of the others that is still to be matched; `n` more at most. -/
structure Counted (n : Nat) (s : LnxState lim) : Prop where
  ready : s.drv.hbi.bInitialized = true
  users : 1 + s.drv.list.length + s.others ≤ s.drv.hbi.initCount
  calls : s.drv.hbi.initCount ≤ n + 1

section Step

variable {s t : LnxState lim} {call : LnxCall lim} {status : Int}

/-- What is to be said of one call: it keeps the lists in step exactly when it is counted, and then
nothing changes where it fails. -/
structure StepSpec (s : LnxState lim) (call : LnxCall lim) (t : LnxState lim) (status : Int) : Prop where
  needs : InStep t.drv → CloseCounted s call
  keeps : CloseCounted s call → Listing t
  failure : CloseCounted s call → status ≠ HbiStatus.success.code → Untouched s.drv t.drv
  counts : ∀ n, Counted n s → n + 2 < 2 ^ 32 → CloseCounted s call ∧ Counted (n + 1) t

theorem openDevice_spec (h : Listing s) {devcfg : DevCfg} {ans : OpenAnswers lim}
    (hcall : lnxCall s (.openDevice devcfg ans) = some (t, status)) :
    StepSpec s (.openDevice devcfg ans) t status := by
  obtain ⟨hclose, hdone⟩ := Option.ite_none_right_eq_some.1 hcall
  rcases internalHbiOpen_cases h.tidy devcfg hclose with
    hdiv | ⟨hbi, status', heq, hstatus, hsame, htidy, hcounts⟩ |
    ⟨hbi, i, minor, heq, hminor, hgrants, hcounts⟩
  · rw [hdiv] at hdone
    cases hdone
  · rw [heq] at hdone
    cases hdone
    have huntouched : Untouched s.drv { s.drv with hbi } := ⟨rfl, rfl, hsame⟩
    refine ⟨fun _ => trivial, fun _ => ⟨htidy, h.device, h.inStep.of_untouched huntouched⟩,
      fun _ _ => huntouched, fun n hn hlt => ⟨trivial, ?_⟩⟩
    have husers := hn.users
    have hcalls := hn.calls
    obtain ⟨hready, hge, hle⟩ := hcounts hn.ready (by omega) (by omega)
    exact ⟨hready, husers.trans hge, by dsimp only; omega⟩
  · rw [heq] at hdone
    cases hdone
    refine ⟨fun _ => trivial, fun _ => ⟨hgrants.tidy, ?_, h.inStep.opened devcfg hgrants hminor⟩,
      fun _ hfail => absurd rfl hfail, fun n hn hlt => ⟨trivial, ?_⟩⟩
    · intro dev hdev
      rcases List.mem_cons.1 hdev with rfl | hold
      · rfl
      · exact h.device dev hold
    · have husers := hn.users
      have hcalls := hn.calls
      obtain ⟨hready, hcount⟩ := hcounts hn.ready (by omega)
      refine ⟨hready, ?_, ?_⟩
      · dsimp only [List.length_cons]
        omega
      · dsimp only
        omega

theorem closeDevice_spec (h : Listing s) {place : Nat} {hal : Hal}
    (hcall : lnxCall s (.closeDevice place hal) = some (t, status)) :
    StepSpec s (.closeDevice place hal) t status := by
  obtain ⟨hplace, hdone⟩ := Option.dite_none_right_eq_some.1 hcall
  obtain ⟨hclose, hdone⟩ := Option.ite_none_right_eq_some.1 hdone
  have hdev : s.drv.list.get ⟨place, hplace⟩ ∈ s.drv.list := List.get_mem _ _
  obtain ⟨i, hvalid⟩ := h.inStep.inuse _ hdev
  obtain ⟨hval, hi⟩ := HbiDrv.validHandle_eq_some.1 hvalid
  rcases internalHbiClose_cases h.tidy hi hval.symm (h.device _ hdev) hclose with
    hdiv | ⟨hbi, htidy, hinst, hcounts, ⟨hcounted, heq⟩ | ⟨huncounted, status', hstatus, heq⟩⟩
  · rw [hdiv] at hdone
    cases hdone
  · rw [heq] at hdone
    cases hdone
    refine ⟨fun _ => hcounted, fun _ => ⟨htidy, ?_, h.inStep.closed hval.symm hinst⟩,
      fun _ hfail => absurd rfl hfail, fun n hn hlt => ⟨hcounted, ?_⟩⟩
    · exact fun dev hdev => h.device dev (List.mem_of_mem_eraseIdx hdev)
    · have husers := hn.users
      have hcalls := hn.calls
      obtain ⟨hready, hcount⟩ := hcounts (by omega)
      refine ⟨hready, ?_, ?_⟩
      · dsimp only
        rw [List.length_eraseIdx_of_lt hplace]
        omega
      · dsimp only
        omega
  · rw [heq] at hdone
    cases hdone
    refine ⟨fun hinStep => ?_, fun hcounted => absurd hcounted huncounted,
      fun hcounted => absurd hcounted huncounted, fun n hn hlt => ?_⟩
    · obtain ⟨j, hj⟩ := hinStep.inuse _ hdev
      obtain ⟨hval', huse⟩ := HbiDrv.validHandle_eq_some.1 hj
      obtain rfl : j = i := Fin.ext (hval'.trans hval.symm)
      rw [hinst, Function.update_self] at huse
      cases huse
    · have husers := hn.users
      exact absurd (.inl (by omega)) huncounted

theorem hbiInit_spec (h : Listing s) {hal : Hal} (hcall : lnxCall s (.hbiInit hal) = some (t, status)) :
    StepSpec s (.hbiInit hal) t status := by
  have ht : (⟨{ s.drv with hbi := (hbiInit hal s.drv.hbi none).1 },
      if (hbiInit hal s.drv.hbi none).2 = .success then s.others + 1 else s.others⟩ : LnxState lim) = t :=
    congrArg Prod.fst (Option.some.inj hcall)
  subst ht
  have huntouched : Untouched s.drv { s.drv with hbi := (hbiInit hal s.drv.hbi none).1 } :=
    ⟨rfl, rfl, hbiInit_same hal h.tidy.inv none⟩
  refine ⟨fun _ => trivial,
    fun _ => ⟨hbiInit_tidy hal h.tidy none, h.device, h.inStep.of_untouched huntouched⟩,
    fun _ _ => huntouched, fun n hn hlt => ⟨trivial, ?_⟩⟩
  have husers := hn.users
  have hcalls := hn.calls
  obtain ⟨hready, hcount⟩ := hbiInit_counts hal hn.ready (by omega)
  have hstatus : (hbiInit hal s.drv.hbi none).2 = .success := by rw [hbiInit_again hal hn.ready]
  refine ⟨hready, ?_, ?_⟩
  · dsimp only
    rw [if_pos hstatus]
    omega
  · dsimp only
    omega

theorem hbiTerm_spec (h : Listing s) {hal : Hal} (hcall : lnxCall s (.hbiTerm hal) = some (t, status)) :
    StepSpec s (.hbiTerm hal) t status := by
  obtain ⟨hothers, hdone⟩ := Option.ite_none_left_eq_some.1 hcall
  have ht : (⟨{ s.drv with hbi := (hbiTerm hal s.drv.hbi).1 }, s.others - 1⟩ : LnxState lim) = t :=
    congrArg Prod.fst (Option.some.inj hdone)
  subst ht
  have huntouched : Untouched s.drv { s.drv with hbi := (hbiTerm hal s.drv.hbi).1 } :=
    ⟨rfl, rfl, hbiTerm_same hal s.drv.hbi⟩
  refine ⟨fun _ => trivial,
    fun _ => ⟨hbiTerm_tidy hal h.tidy, h.device, h.inStep.of_untouched huntouched⟩,
    fun _ _ => huntouched, fun n hn hlt => ⟨trivial, ?_⟩⟩
  have husers := hn.users
  have hcalls := hn.calls
  rw [hbiTerm_again hal hn.ready (by omega)]
  refine ⟨hn.ready, ?_, ?_⟩
  · dsimp only
    omega
  · dsimp only
    omega

theorem lnxCall_spec (h : Listing s) (hcall : lnxCall s call = some (t, status)) :
    StepSpec s call t status := by
  cases call with
  | openDevice devcfg ans => exact openDevice_spec h hcall
  | closeDevice place hal => exact closeDevice_spec h hcall
  | hbiInit hal => exact hbiInit_spec h hcall
  | hbiTerm hal => exact hbiTerm_spec h hcall

theorem lnxMachine_step (hcall : lnxCall s call = some (t, status)) :
    (lnxMachine lim).step s call = some t := by
  show (lnxCall s call).map Prod.fst = some t
  rw [hcall]
  rfl

theorem lnxMachine_spec (h : Listing s) (hstep : (lnxMachine lim).step s call = some t) :
    ∃ status, StepSpec s call t status := by
  obtain ⟨⟨t', status⟩, hcall, rfl⟩ := Option.map_eq_some_iff.1 hstep
  exact ⟨status, lnxCall_spec h hcall⟩

end Step

/-! ### Runs -/

theorem loaded_listing : Listing (LnxState.loaded lim) where
  tidy :=
    { inv := .empty (fun _ => rfl) (fun _ => rfl) rfl rfl fun _ => rfl
      recorded := .empty fun _ => rfl }
  device dev hdev := by cases hdev
  inStep :=
    { bits := fun minor => iff_of_false (fun h => Bool.noConfusion h) (by
        intro hexists
        obtain ⟨dev, hdev, -⟩ := hexists
        cases hdev)
      minors := List.nodup_nil
      handles := List.nodup_nil
      inuse := fun dev hdev => by cases hdev
      listed := fun i hi => Bool.noConfusion hi }

section Runs

variable {calls : List (LnxCall lim)} {s : LnxState lim}

theorem listing_of_runs (h : (lnxMachine lim).Runs CloseCounted (.loaded lim) calls s) : Listing s := by
  have hkeep : ∀ t call u, Listing t → CloseCounted t call →
      (lnxMachine lim).step t call = some u → Listing u := by
    intro t call u hlisting hcounted hstep
    obtain ⟨status, hspec⟩ := lnxMachine_spec hlisting hstep
    exact hspec.keeps hcounted
  exact h.invariant loaded_listing hkeep

/-- As long as the count of initialisations cannot have wrapped around, every close is counted. -/
theorem counted_of_exec (h : (lnxMachine lim).exec (.loaded lim) calls = some s)
    (hlen : calls.length + 1 < 2 ^ 32) :
    (lnxMachine lim).Runs CloseCounted (.loaded lim) calls s ∧ Counted calls.length s := by
  induction calls using List.reverseRecOn generalizing s with
  | nil =>
      obtain rfl : LnxState.loaded lim = s := by simpa [Machine.exec] using h
      exact ⟨.nil, rfl, Nat.le_refl _, Nat.le_refl _⟩
  | append_singleton calls call ih =>
      rw [List.length_append, List.length_singleton] at hlen ⊢
      obtain ⟨mid, hmid, hstep⟩ := Machine.exec_snoc h
      obtain ⟨hrun, hcount⟩ := ih hmid (by omega)
      obtain ⟨status, hspec⟩ := lnxMachine_spec (listing_of_runs hrun) hstep
      obtain ⟨hcounted, hnext⟩ := hspec.counts _ hcount (by omega)
      exact ⟨.snoc hrun hcounted hstep, hnext⟩

end Runs

/-- In every state of a run from the loading of the module the list, the bitmap and the HBI instances are
in step, and no call that fails has changed them or the HBI tables, exactly when every device that is
closed is closed on a count of initialisations above one, or is the only one and `hal_term` succeeds. So
it is in every run too short for the count to wrap around. -/
theorem device_list_iff (lim : HbiLimits) {calls : List (LnxCall lim)} {s : LnxState lim}
    (h : (lnxMachine lim).exec (.loaded lim) calls = some s) :
    ((∀ pre suf mid, calls = pre ++ suf → (lnxMachine lim).exec (.loaded lim) pre = some mid →
        InStep mid.drv) ∧
      (∀ pre call suf mid, calls = pre ++ call :: suf →
        (lnxMachine lim).exec (.loaded lim) pre = some mid → FailureKeeps mid call) ↔
      (lnxMachine lim).Runs CloseCounted (.loaded lim) calls s) ∧
    (calls.length + 1 < 2 ^ 32 → (lnxMachine lim).Runs CloseCounted (.loaded lim) calls s) := by
  have hkeep : ∀ t call u, Listing t → (lnxMachine lim).step t call = some u →
      (InStep u.drv → CloseCounted t call) ∧ (CloseCounted t call → Listing u) := by
    intro t call u hlisting hstep
    obtain ⟨status, hspec⟩ := lnxMachine_spec hlisting hstep
    exact ⟨hspec.needs, hspec.keeps⟩
  have hruns := Machine.runs_iff_of_keeps (P := fun s => InStep s.drv) loaded_listing
    (fun _ hlisting => hlisting.inStep) hkeep h
  refine ⟨⟨fun hboth => hruns.1 hboth.1, fun hrun => ⟨hruns.2 hrun, ?_⟩⟩,
    fun hlen => (counted_of_exec h hlen).1⟩
  intro pre call suf mid heq hmid t status hcall hstatus
  subst heq
  have hsplit : pre ++ call :: suf = pre ++ [call] ++ suf := by simp
  rw [hsplit] at hrun
  obtain ⟨u, hbefore⟩ := hrun.before
  obtain ⟨mid', hpre, hcounted, -⟩ := hbefore.last
  have hsame := hpre.exec_eq
  rw [hmid] at hsame
  cases hsame
  exact (lnxCall_spec (listing_of_runs hpre) hcall).failure hcounted hstatus

def oneUserEach : HbiLimits := ⟨1, 2, by decide⟩

def openListed (deviceId : Int) (created : Bool) : LnxCall oneUserEach :=
  .openDevice (deviceCfg deviceId) ⟨true, halOk, silentPort oneUserEach, created, halOk⟩

/-- A device whose file cannot be created, and one that is closed and whose minor is used again. -/
theorem device_list_iff_reused : ∃ s, (lnxMachine oneUserEach).exec (.loaded oneUserEach)
      [openListed 7 true, openListed 9 false, openListed 9 true, .closeDevice 1 halOk,
        openListed 11 true] = some s ∧ s.drv.list.length = 2 ∧ InStep s.drv := by
  have hsome : ((lnxMachine oneUserEach).exec (.loaded oneUserEach)
      [openListed 7 true, openListed 9 false, openListed 9 true, .closeDevice 1 halOk,
        openListed 11 true]).isSome = true := by decide
  have hlen : ((lnxMachine oneUserEach).exec (.loaded oneUserEach)
      [openListed 7 true, openListed 9 false, openListed 9 true, .closeDevice 1 halOk,
        openListed 11 true]).map (fun s => s.drv.list.length) = some 2 := by decide
  obtain ⟨s, hs⟩ := Option.isSome_iff_exists.1 hsome
  rw [hs] at hlen
  obtain ⟨hiff, hshort⟩ := device_list_iff oneUserEach hs
  exact ⟨s, hs, Option.some.inj hlen, (hiff.2 (hshort (by decide))).1 _ [] s (List.append_nil _).symm hs⟩

/-- An open that fails in a driver without a free user slot still counts an initialisation. -/
theorem exec_full {s : LnxState lim} (hready : s.drv.hbi.bInitialized = true)
    (hfull : lim.maxInstances ≤ s.drv.hbi.numInstances) (hcount : s.drv.hbi.initCount < 2 ^ 32)
    (devcfg : DevCfg) (n : Nat) :
    (lnxMachine lim).exec s (List.replicate n
        (.openDevice devcfg ⟨true, halOk, silentPort lim, true, halOk⟩))
      = some { s with drv := { s.drv with hbi :=
          { s.drv.hbi with initCount := (s.drv.hbi.initCount + n) % 2 ^ 32 } } } := by
  induction n generalizing s with
  | zero =>
      rw [Nat.add_zero, Nat.mod_eq_of_lt hcount]
      rfl
  | succ n ih =>
      have hopen : hbiOpen halOk (silentPort lim) s.drv.hbi true (some devcfg)
          = .done ({ s.drv.hbi with initCount := incr s.drv.hbi.initCount }, .resourceErr, none) := by
        simp [hbiOpen, hbiInit_again halOk hready, hready, hfull]
      have hstep : (lnxMachine lim).step s (.openDevice devcfg ⟨true, halOk, silentPort lim, true, halOk⟩)
          = some { s with drv := { s.drv with hbi :=
              { s.drv.hbi with initCount := incr s.drv.hbi.initCount } } } := by
        have hclose : halOk.closeOk = true := rfl
        simp [lnxMachine, lnxCall, HbiLnxDrvPriv.internalHbiOpen, hopen, Outcome.bind, hclose]
      have hnext := ih (s := { s with drv := { s.drv with hbi :=
        { s.drv.hbi with initCount := incr s.drv.hbi.initCount } } }) hready hfull
        (Nat.mod_lt _ (by decide))
      have hsum : (incr s.drv.hbi.initCount + n) % 2 ^ 32 = (s.drv.hbi.initCount + (n + 1)) % 2 ^ 32 := by
        unfold incr
        omega
      rw [List.replicate_succ, Machine.exec, hstep, Option.bind_some, hnext]
      dsimp only
      rw [hsum]

theorem desync_of_wrapped {n : Nat} (hn : (3 + n) % 2 ^ 32 = 0) :
    ∃ s, (lnxMachine oneUserEach).exec (.loaded oneUserEach)
      ([openListed 7 true, openListed 9 true] ++ List.replicate n (openListed 11 true) ++
        [.closeDevice 0 halOk]) = some s ∧ ¬ InStep s.drv := by
  have hsome : ((lnxMachine oneUserEach).exec (.loaded oneUserEach)
      [openListed 7 true, openListed 9 true]).isSome = true := by decide
  have hdata : ((lnxMachine oneUserEach).exec (.loaded oneUserEach)
      [openListed 7 true, openListed 9 true]).map
        (fun s => (s.drv.hbi.bInitialized, s.drv.hbi.numInstances, s.drv.hbi.initCount,
          (lnxCall { s with drv := { s.drv with hbi := { s.drv.hbi with initCount := 0 } } }
            (.closeDevice 0 halOk)).isSome)) = some (true, 2, 3, true) := by decide
  obtain ⟨mid, hmid⟩ := Option.isSome_iff_exists.1 hsome
  rw [hmid, Option.map_some, Option.some.injEq, Prod.mk.injEq, Prod.mk.injEq, Prod.mk.injEq] at hdata
  obtain ⟨hready, hnum, hcount, hclose⟩ := hdata
  have hfull := exec_full hready (show oneUserEach.maxInstances ≤ _ by rw [hnum]; decide) (by omega)
    (deviceCfg 11) n
  rw [hcount, hn] at hfull
  have hopens : (lnxMachine oneUserEach).exec (.loaded oneUserEach)
      ([openListed 7 true, openListed 9 true] ++ List.replicate n (openListed 11 true))
      = some { mid with drv := { mid.drv with hbi := { mid.drv.hbi with initCount := 0 } } } := by
    rw [Machine.exec_append, hmid]
    exact hfull
  have hopenOnly : ∀ call ∈ [openListed 7 true, openListed 9 true] ++ List.replicate n (openListed 11 true),
      ∀ s, CloseCounted s call := by
    intro call hcall
    rcases List.mem_append.1 hcall with hfirst | hrest
    · rcases List.mem_cons.1 hfirst with rfl | hsecond
      · exact fun _ => trivial
      · rw [List.mem_singleton.1 hsecond]
        exact fun _ => trivial
    · rw [List.eq_of_mem_replicate hrest]
      exact fun _ => trivial
  have hlisting := listing_of_runs ((Machine.runs_of_exec hopens hopenOnly).mono fun s _ hall => hall s)
  obtain ⟨⟨s, status⟩, hs⟩ := Option.isSome_iff_exists.1 hclose
  refine ⟨s, ?_, fun hinStep => ?_⟩
  · rw [Machine.exec_append, hopens, Option.bind_some, Machine.exec, lnxMachine_step hs]
    rfl
  · rcases (lnxCall_spec hlisting hs).needs hinStep with hmore | ⟨hone, -⟩
    · cases hmore
    · rw [hnum] at hone
      cases hone

/-- With two devices listed, so many opens fail that the count of initialisations is zero again. Then one
of the two is closed. -/
theorem wrapped_close_desyncs : ∃ s, (lnxMachine oneUserEach).exec (.loaded oneUserEach)
      ([openListed 7 true, openListed 9 true] ++ List.replicate (2 ^ 32 - 3) (openListed 11 true) ++
        [.closeDevice 0 halOk]) = some s ∧ ¬ InStep s.drv :=
  desync_of_wrapped (by decide)

end VprocSdk
