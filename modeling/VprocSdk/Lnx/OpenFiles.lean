import VprocSdk.Lib.Machine

/-!
# Device files and the devices they refer to

The kernel driver keeps a list of its devices. `open_device` and `close_device` of its procfs entries put
a device on the list and take it off, and a device that is taken off is freed; the files of a device are
opened and released on their own, and what is counted is the files alone. The objects are numbered in the
order they are allocated, so that a number is never used again.

What `HBI_open`, `device_create` and `HBI_close` report is up to the step.
-/

namespace VprocSdk

open Lib

/-- An `hbi_dev` on the list: the object, the bus and address it is configured for, and the minor of its
file. -/
structure ListedDev where
  object : Nat
  busNum : Nat
  devAddr : Nat
  minor : Nat
  deriving DecidableEq, Repr

/-- The device list, the bitmap of minors in use, and the open files with their `private_data`. -/
structure HbiLnxDrv where
  list : List ListedDev
  minors : List Nat
  nextObject : Nat
  files : List (Nat × Nat)
  moduleUsageCount : Int
  deriving DecidableEq, Repr

namespace HbiLnxDrv

def initial : HbiLnxDrv := { list := [], minors := [], nextObject := 0, files := [], moduleUsageCount := 0 }

/-- `internal_hbi_open`: what does not succeed frees the object and changes nothing else. -/
def internalHbiOpen (maxNumDevs : Nat) (drv : HbiLnxDrv) (busNum devAddr : Nat) (opened created : Bool) :
    HbiLnxDrv :=
  if opened then
    match (List.range maxNumDevs).find? fun minor => minor ∉ drv.minors with
    | none => drv
    | some minor =>
        if created then
          { drv with
            list := { object := drv.nextObject, busNum, devAddr, minor } :: drv.list
            minors := minor :: drv.minors
            nextObject := drv.nextObject + 1 }
        else drv
  else drv

/-- `internal_hbi_close`: a device that `HBI_close` refuses stays. -/
def internalHbiClose (drv : HbiLnxDrv) (device : ListedDev) (closed : Bool) : HbiLnxDrv :=
  if closed then
    { drv with
      list := drv.list.filter fun dev => dev.object ≠ device.object
      minors := drv.minors.filter fun minor => minor ≠ device.minor }
  else drv

/-- `hbi_proc_close_dev_wr`, which closes the first device of the list at the address, on whatever bus. -/
def hbiProcCloseDevWr (drv : HbiLnxDrv) (devAddr : Nat) (closed : Bool) : HbiLnxDrv :=
  match drv.list.find? fun dev => dev.devAddr = devAddr with
  | none => drv
  | some device => drv.internalHbiClose device closed

/-- `hbi_io_open`, on the file of a minor. -/
def hbiIoOpen (drv : HbiLnxDrv) (file minor : Nat) : HbiLnxDrv :=
  match drv.list.find? fun dev => dev.minor = minor with
  | none => drv
  | some dev =>
      { drv with
        files := (file, dev.object) :: drv.files
        moduleUsageCount := drv.moduleUsageCount + 1 }

/-- `hbi_io_close`. The kernel frees the file, so that clearing its `private_data` has no effect. -/
def hbiIoClose (drv : HbiLnxDrv) (file : Nat) : HbiLnxDrv :=
  { drv with
    files := drv.files.filter fun entry => entry.1 ≠ file
    moduleUsageCount := drv.moduleUsageCount - 1 }

end HbiLnxDrv

inductive LnxStep
  | ioOpen (file minor : Nat)
  | ioClose (file : Nat)
  | ioctl (file : Nat)
  | openDevice (busNum devAddr : Nat) (opened created : Bool)
  | closeDevice (devAddr : Nat) (closed : Bool)
  deriving DecidableEq, Repr

/-- A file is opened under a number that no open file has; it is released and used while it is open. An
`ioctl` works on the device in its `private_data` and leaves list and files as they are. -/
def lnxDriver (maxNumDevs : Nat) : Machine HbiLnxDrv LnxStep where
  step drv
    | .ioOpen file minor =>
        if file ∈ drv.files.map Prod.fst then none else some (drv.hbiIoOpen file minor)
    | .ioClose file => if file ∈ drv.files.map Prod.fst then some (drv.hbiIoClose file) else none
    | .ioctl file => if file ∈ drv.files.map Prod.fst then some drv else none
    | .openDevice busNum devAddr opened created =>
        some (drv.internalHbiOpen maxNumDevs busNum devAddr opened created)
    | .closeDevice devAddr closed => some (drv.hbiProcCloseDevWr devAddr closed)

def FilesListed (drv : HbiLnxDrv) : Prop :=
  ∀ entry ∈ drv.files, ∃ dev ∈ drv.list, dev.object = entry.2

/-- The step does not take a device off the list to which an open file refers. -/
def SparesOpen (drv : HbiLnxDrv) : LnxStep → Prop
  | .closeDevice devAddr true => ∀ device, (drv.list.find? fun dev => dev.devAddr = devAddr) = some device →
      ∀ entry ∈ drv.files, entry.2 ≠ device.object
  | _ => True

section Steps

variable {maxNumDevs : Nat} {drv drv' : HbiLnxDrv}

theorem FilesListed.open (h : FilesListed drv) (busNum devAddr : Nat) (opened created : Bool) :
    FilesListed (drv.internalHbiOpen maxNumDevs busNum devAddr opened created) := by
  unfold HbiLnxDrv.internalHbiOpen
  split
  · split
    · exact h
    · split
      · intro entry hentry
        obtain ⟨dev, hdev, hobject⟩ := h entry hentry
        exact ⟨dev, List.mem_cons_of_mem _ hdev, hobject⟩
      · exact h
  · exact h

/-- Of the two sides only this one can take a device away from a file. -/
theorem FilesListed.close_iff (h : FilesListed drv) (devAddr : Nat) (closed : Bool) :
    FilesListed (drv.hbiProcCloseDevWr devAddr closed) ↔ SparesOpen drv (.closeDevice devAddr closed) := by
  unfold HbiLnxDrv.hbiProcCloseDevWr
  cases closed with
  | false =>
      refine iff_of_true ?_ trivial
      split
      · exact h
      · exact h
  | true =>
      unfold SparesOpen
      cases hfind : drv.list.find? fun dev => dev.devAddr = devAddr with
      | none =>
          refine iff_of_true h ?_
          intro device hdevice
          rw [hfind] at hdevice
          cases hdevice
      | some device =>
          constructor
          · intro hlisted device' hdevice entry hentry hobject
            rw [hfind] at hdevice
            cases hdevice
            obtain ⟨dev, hdev, hsame⟩ := hlisted entry hentry
            have hother := of_decide_eq_true (List.mem_filter.1 hdev).2
            exact hother (hsame.trans hobject)
          · intro hspares entry hentry
            obtain ⟨dev, hdev, hobject⟩ := h entry hentry
            refine ⟨dev, List.mem_filter.2 ⟨hdev, decide_eq_true ?_⟩, hobject⟩
            rw [hobject]
            exact hspares device hfind entry hentry

theorem FilesListed.ioOpen (h : FilesListed drv) (file minor : Nat) :
    FilesListed (drv.hbiIoOpen file minor) := by
  unfold HbiLnxDrv.hbiIoOpen
  split
  · exact h
  · rename_i dev hfind
    intro entry hentry
    rcases List.mem_cons.1 hentry with rfl | hold
    · exact ⟨dev, List.mem_of_find?_eq_some hfind, rfl⟩
    · exact h entry hold

theorem FilesListed.ioClose (h : FilesListed drv) (file : Nat) : FilesListed (drv.hbiIoClose file) :=
  fun entry hentry => h entry (List.mem_filter.1 hentry).1

/-- One step keeps every open file at a listed device exactly when it spares the open ones. -/
theorem FilesListed.step_iff {l : LnxStep} (h : FilesListed drv)
    (hstep : (lnxDriver maxNumDevs).step drv l = some drv') : FilesListed drv' ↔ SparesOpen drv l := by
  cases l with
  | ioOpen file minor =>
      obtain ⟨-, ht⟩ := Option.ite_none_left_eq_some.1 hstep
      cases ht
      exact iff_of_true (h.ioOpen file minor) trivial
  | ioClose file =>
      obtain ⟨-, ht⟩ := Option.ite_none_right_eq_some.1 hstep
      cases ht
      exact iff_of_true (h.ioClose file) trivial
  | ioctl file =>
      obtain ⟨-, ht⟩ := Option.ite_none_right_eq_some.1 hstep
      cases ht
      exact iff_of_true h trivial
  | openDevice busNum devAddr opened created =>
      cases hstep
      exact iff_of_true (h.open busNum devAddr opened created) trivial
  | closeDevice devAddr closed =>
      cases hstep
      exact h.close_iff devAddr closed

end Steps

theorem filesListed_initial : FilesListed .initial := by
  intro entry hentry
  cases hentry

/-- In every state of a run each open file refers to a device of the list, exactly when no step of the run
closes a device to which an open file refers. -/
theorem files_listed_iff (maxNumDevs : Nat) (ls : List LnxStep) (drv : HbiLnxDrv)
    (h : (lnxDriver maxNumDevs).exec .initial ls = some drv) :
    (∀ pre suf mid, ls = pre ++ suf → (lnxDriver maxNumDevs).exec .initial pre = some mid →
      FilesListed mid) ↔ (lnxDriver maxNumDevs).Runs SparesOpen .initial ls drv :=
  Machine.runs_iff filesListed_initial (fun _ _ _ hlisted hstep => hlisted.step_iff hstep) h

/-- A device that is refused while its file is open and closed when the file is released. -/
theorem files_listed_iff_released : ∃ drv,
    (lnxDriver 1).exec .initial [.openDevice 0 0x45 true true, .ioOpen 7 0, .ioctl 7,
      .closeDevice 0x45 false, .ioClose 7, .closeDevice 0x45 true] = some drv ∧
    ∀ pre suf mid, [LnxStep.openDevice 0 0x45 true true, .ioOpen 7 0, .ioctl 7, .closeDevice 0x45 false,
        .ioClose 7, .closeDevice 0x45 true] = pre ++ suf →
      (lnxDriver 1).exec .initial pre = some mid → FilesListed mid :=
  ⟨_, rfl, (files_listed_iff 1 _ _ rfl).2
    (.snoc (l := LnxStep.closeDevice 0x45 true) (.snoc (l := LnxStep.ioClose 7)
      (.snoc (l := LnxStep.closeDevice 0x45 false) (.snoc (l := LnxStep.ioctl 7)
        (.snoc (l := LnxStep.ioOpen 7 0) (.snoc (l := LnxStep.openDevice 0 0x45 true true) .nil trivial rfl)
          trivial rfl) trivial rfl) trivial rfl) trivial rfl) (by
        intro device _ entry hentry
        cases hentry) rfl)⟩

/-- The device is closed while its file is open, and the file can still be used. -/
theorem device_freed_under_file : ∃ drv,
    (lnxDriver 1).exec .initial [.openDevice 0 0x45 true true, .ioOpen 7 0, .closeDevice 0x45 true]
      = some drv ∧
    ¬ FilesListed drv ∧ (lnxDriver 1).step drv (.ioctl 7) = some drv := by
  refine ⟨_, rfl, ?_, rfl⟩
  intro h
  obtain ⟨dev, hdev, -⟩ := h (7, 0) List.mem_cons_self
  cases hdev

end VprocSdk
