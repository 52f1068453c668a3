import VprocSdk.Hbi.Ssl
import VprocSdk.Lib.Machine

/-!
# The board's devices

The board comes with a table of its devices, which `SSL_init` has copied to the table the drivers read. An
entry that is to be booted needs a firmware and a configuration image. The copying is to stop at an entry
that has them not, and to report it.

Both tables have one entry for each of the `VPROC_MAX_NUM_DEVS` devices, however many these are. What the
registration of the bus driver returns is part of the call.
-/

namespace VprocSdk

open Lib

/-- `ssl_dev_info_t`. A pointer is an address, none for `NULL`. -/
structure SslDevInfo where
  chip : Word
  devAddr : Byte
  busNum : Byte
  isboot : Byte
  pFirmware : Option Nat
  pConfig : Option Nat
  devLock : Nat
  imageType : Byte
  deriving DecidableEq, Repr

namespace SslDevInfo

/-- An entry of a table nothing was written to. -/
def blank : SslDevInfo where
  chip := 0
  devAddr := 0
  busNum := 0
  isboot := 0
  pFirmware := none
  pConfig := none
  devLock := 0
  imageType := 0

def hasImages (entry : SslDevInfo) : Bool := entry.pFirmware.isSome && entry.pConfig.isSome

/-- An entry has the images it is to be booted with. -/
def Bootable (entry : SslDevInfo) : Prop := entry.isboot ≠ 0 → entry.hasImages = true

end SslDevInfo

/-- The loop of `sdk_register_board_devices_info` from an entry on. `isboot` is what the loop looks at in each
turn. -/
def sdkRegisterLoop (isboot : Bool) : List SslDevInfo → List SslDevInfo → List SslDevInfo × SslStatus
  | entry :: board, old :: table =>
      if isboot ∧ ¬ entry.hasImages then (old :: table, .resourceErr)
      else
        let (table, status) := sdkRegisterLoop isboot board table
        (entry :: table, status)
  | [], table => (table, .ok)
  | _ :: _, [] => ([], .ok)

/-- `pDevicesInfo->isboot` is the flag of the first entry in every turn. -/
def sdkRegisterBoardDevicesInfo (board table : List SslDevInfo) : List SslDevInfo × SslStatus :=
  sdkRegisterLoop (board.head?.any fun entry => entry.isboot ≠ 0) board table

/-- `hal_init`: the status of the tables is printed, and that of the driver is returned. -/
def halInit (board : List SslDevInfo) (registerDriver : Int) (table : List SslDevInfo) :
    List SslDevInfo × Int :=
  let (table, _) := sdkRegisterBoardDevicesInfo board table
  (table, registerDriver)

/-- What `SSL_init` works on: `sdk_devices_info`, and whether it is done. -/
structure SslTables where
  sdkDevicesInfo : List SslDevInfo
  initialised : Bool

def SslTables.loaded (board : List SslDevInfo) : SslTables where
  sdkDevicesInfo := .replicate board.length .blank
  initialised := false

/-- `SSL_init`. -/
def sslInitTables (board : List SslDevInfo) (registerDriver : Int) (s : SslTables) : SslTables × SslStatus :=
  if s.initialised then (s, .ok)
  else
    let (sdkDevicesInfo, result) := halInit board registerDriver s.sdkDevicesInfo
    if result = 0 then ({ sdkDevicesInfo, initialised := true }, .ok)
    else ({ sdkDevicesInfo, initialised := false }, .internalErr)

/-- The service layer is initialised, or terminated, which a port in use makes fail. -/
inductive SslEvent
  | init (registerDriver : Int)
  | term (portInUse : Bool)

def sslTablesMachine (board : List SslDevInfo) : Machine SslTables SslEvent where
  step s ev :=
    match ev with
    | .init registerDriver => some (sslInitTables board registerDriver s).1
    | .term portInUse => some (if portInUse then s else { s with initialised := false })

/-- With the ports besides, this is the `SSL_init` of the drivers, `hal_init` answering as it does here. -/
theorem sslInit_eq_sslInitTables {lim : HbiLimits} {hal : Hal} {drv : SslDrv lim} {s : SslTables}
    {board : List SslDevInfo} {registerDriver : Int} (hsame : drv.initialised = s.initialised)
    (hhal : hal.initOk = decide ((halInit board registerDriver s.sdkDevicesInfo).2 = 0)) :
    (sslInit hal drv).2 = (sslInitTables board registerDriver s).2 ∧
      (sslInit hal drv).1.initialised = (sslInitTables board registerDriver s).1.initialised := by
  rw [sslInit, sslInitTables, hsame, hhal]
  cases hinit : s.initialised with
  | true => exact ⟨rfl, by simp [hsame, hinit]⟩
  | false =>
      by_cases hresult : (halInit board registerDriver s.sdkDevicesInfo).2 = 0
      · simp [hresult]
      · simp [hresult, SslDrv.cleared]

/-- If `SSL_init` succeeds the table it leaves is the board's with images for what is booted, and it does not
succeed if an entry to be booted lacks one. -/
def InitSound (board : List SslDevInfo) (registerDriver : Int) (s : SslTables) : Prop :=
  ((sslInitTables board registerDriver s).2 = .ok →
      (∀ entry ∈ (sslInitTables board registerDriver s).1.sdkDevicesInfo, entry.Bootable) ∧
        (sslInitTables board registerDriver s).1.sdkDevicesInfo = board) ∧
    ((∃ entry ∈ board, ¬ entry.Bootable) → (sslInitTables board registerDriver s).2 ≠ .ok)

def copiedEntries (board : List SslDevInfo) : List SslDevInfo :=
  board.takeWhile fun entry => !(board.head?.any fun first => first.isboot ≠ 0) || entry.hasImages

/-- What the loop leaves out, if the first entry is to be booted: the entries from the first without images
on. -/
def leftOutEntries (board : List SslDevInfo) : List SslDevInfo :=
  board.dropWhile fun entry => !(board.head?.any fun first => first.isboot ≠ 0) || entry.hasImages

/-- Everything to be booted has its images, and what the loop leaves out is blank. -/
def BoardComplete (board : List SslDevInfo) : Prop :=
  (∀ entry ∈ board, entry.Bootable) ∧ ∀ entry ∈ leftOutEntries board, entry = .blank

/-! ### What is registered -/

theorem sdkRegisterLoop_fst (isboot : Bool) (board table : List SslDevInfo)
    (h : table.length = board.length) :
    (sdkRegisterLoop isboot board table).1
      = (board.takeWhile fun entry => !isboot || entry.hasImages) ++
        table.drop (board.takeWhile fun entry => !isboot || entry.hasImages).length := by
  induction board generalizing table with
  | nil =>
      rw [List.length_nil, List.length_eq_zero_iff] at h
      subst h
      rfl
  | cons entry board ih =>
      cases table with
      | nil => simp at h
      | cons old table =>
          have hlength : table.length = board.length := by simpa using h
          rw [sdkRegisterLoop, List.takeWhile_cons]
          by_cases hstop : isboot ∧ ¬ entry.hasImages
          · rw [if_pos hstop, if_neg (by simpa using hstop)]
            rfl
          · rw [if_neg hstop, if_pos (by simpa [Classical.or_iff_not_imp_left] using hstop)]
            simp [ih table hlength]

/-- The table after the loop: the entries copied, then what was there. -/
def registeredOver (board table : List SslDevInfo) : List SslDevInfo :=
  copiedEntries board ++ table.drop (copiedEntries board).length

theorem halInit_eq (board table : List SslDevInfo) (registerDriver : Int)
    (h : table.length = board.length) :
    halInit board registerDriver table = (registeredOver board table, registerDriver) := by
  have hloop := sdkRegisterLoop_fst (board.head?.any fun first => first.isboot ≠ 0) board table h
  exact Prod.ext hloop rfl

theorem copied_append_leftOut (board : List SslDevInfo) :
    copiedEntries board ++ leftOutEntries board = board := List.takeWhile_append_dropWhile

theorem length_registeredOver {board table : List SslDevInfo} (h : table.length = board.length) :
    (registeredOver board table).length = board.length := by
  have hlength := congrArg List.length (copied_append_leftOut board)
  rw [List.length_append] at hlength
  rw [registeredOver, List.length_append, List.length_drop, h]
  omega

theorem registeredOver_idem (board table : List SslDevInfo) :
    registeredOver board (registeredOver board table) = registeredOver board table := by
  rw [registeredOver, registeredOver, List.drop_left]

/-- What is registered first. -/
def firstRegistered (board : List SslDevInfo) : List SslDevInfo :=
  registeredOver board (.replicate board.length .blank)

theorem firstRegistered_eq_board (board : List SslDevInfo) :
    firstRegistered board = board ↔ ∀ entry ∈ leftOutEntries board, entry = .blank := by
  have hboard := copied_append_leftOut board
  have hlength := congrArg List.length hboard
  rw [List.length_append] at hlength
  have hrest : board.length - (copiedEntries board).length = (leftOutEntries board).length := by omega
  rw [firstRegistered, registeredOver, List.drop_replicate, hrest]
  conv_lhs => rhs; rw [← hboard]
  rw [List.append_cancel_left_eq, eq_comm, List.eq_replicate_iff]
  exact and_iff_right rfl

/-! ### Every run -/

/-- The tables are those loaded, or those registered first; and these if the layer is initialised. -/
structure TablesKept (board : List SslDevInfo) (s : SslTables) : Prop where
  length : s.sdkDevicesInfo.length = board.length
  again : registeredOver board s.sdkDevicesInfo = firstRegistered board
  initialised : s.initialised = true → s.sdkDevicesInfo = firstRegistered board

theorem TablesKept.loaded (board : List SslDevInfo) : TablesKept board (.loaded board) where
  length := List.length_replicate
  again := rfl
  initialised := Bool.noConfusion

theorem sslInitTables_of_kept {board : List SslDevInfo} {s : SslTables} (h : TablesKept board s)
    (registerDriver : Int) :
    (sslInitTables board registerDriver s).1.sdkDevicesInfo = firstRegistered board ∧
      ((sslInitTables board registerDriver s).2 = .ok ↔ s.initialised = true ∨ registerDriver = 0) := by
  rw [sslInitTables]
  cases hinit : s.initialised with
  | true => exact ⟨h.initialised hinit, by simp⟩
  | false =>
      rw [if_neg Bool.false_ne_true, halInit_eq board _ _ h.length, h.again]
      by_cases hresult : registerDriver = 0
      · simp [hresult]
      · simp [hresult]

theorem TablesKept.registered {board : List SslDevInfo} {s t : SslTables} (h : TablesKept board s)
    (ht : t.sdkDevicesInfo = firstRegistered board) : TablesKept board t where
  length := by
    rw [ht, ← h.again]
    exact length_registeredOver h.length
  again := by rw [ht, firstRegistered, registeredOver_idem]
  initialised := fun _ => ht

theorem TablesKept.step {board : List SslDevInfo} {s t : SslTables} {ev : SslEvent}
    (h : TablesKept board s) (hstep : (sslTablesMachine board).step s ev = some t) :
    TablesKept board t := by
  cases ev with
  | init registerDriver =>
      cases hstep
      exact h.registered (sslInitTables_of_kept h registerDriver).1
  | term portInUse =>
      cases hstep
      cases portInUse with
      | true => exact h
      | false =>
          exact {
            length := h.length
            again := h.again
            initialised := Bool.noConfusion }

/-- After any calls, `SSL_init` accepts only bootable tables and registers them as they are, exactly when the
driver cannot be registered, or everything to be booted has its images and the loop leaves nothing out. -/
theorem initSound_iff (board : List SslDevInfo) {events : List SslEvent} {s : SslTables}
    (h : (sslTablesMachine board).exec (.loaded board) events = some s) (registerDriver : Int) :
    InitSound board registerDriver s ↔
      s.initialised = false ∧ registerDriver ≠ 0 ∨ BoardComplete board := by
  have hall : ∀ ev ∈ events, (fun _ => True) ev := fun _ _ => trivial
  have hruns := Machine.runs_of_exec h hall
  have hkept : TablesKept board s := hruns.invariant (.loaded board) fun t ev u hkept _ hstep => hkept.step hstep
  obtain ⟨htable, hok⟩ := sslInitTables_of_kept hkept registerDriver
  rw [InitSound, htable, ne_eq, hok, firstRegistered_eq_board]
  by_cases hcalled : s.initialised = true ∨ registerDriver = 0
  · have hcannot : ¬ (s.initialised = false ∧ registerDriver ≠ 0) := by
      rw [not_and_or, not_not, Bool.not_eq_false]
      exact hcalled
    rw [or_iff_right hcannot]
    constructor
    · intro hsound
      obtain ⟨-, hblank⟩ := hsound.1 hcalled
      refine ⟨?_, hblank⟩
      intro entry hmem
      by_contra hlacks
      exact hsound.2 ⟨entry, hmem, hlacks⟩ hcalled
    · intro hcomplete
      obtain ⟨hbootable, hblank⟩ := hcomplete
      have hsame := (firstRegistered_eq_board board).2 hblank
      refine ⟨fun _ => ⟨by rwa [hsame], hblank⟩, ?_⟩
      intro hlacks
      obtain ⟨entry, hmem, hentry⟩ := hlacks
      exact absurd (hbootable entry hmem) hentry
  · have hcannot : s.initialised = false ∧ registerDriver ≠ 0 := by
      rwa [not_or, Bool.not_eq_true] at hcalled
    exact ⟨fun _ => .inl hcannot, fun _ => ⟨fun hfails => absurd hfails hcalled, fun _ => hcalled⟩⟩

def bootSecond (images : Option Nat) : List SslDevInfo :=
  [{ SslDevInfo.blank with chip := 38063 },
    { SslDevInfo.blank with chip := 38090, devAddr := 1, isboot := 1, pFirmware := images, pConfig := images }]

theorem initSound_iff_bootSecond : InitSound (bootSecond (some 1)) 0 (.loaded (bootSecond (some 1))) := by
  have hcomplete : BoardComplete (bootSecond (some 1)) := by
    refine ⟨?_, by decide⟩
    intro entry hmem hboot
    rw [bootSecond, List.mem_pair] at hmem
    rcases hmem with rfl | rfl
    · exact absurd rfl hboot
    · rfl
  have hloaded : (sslTablesMachine (bootSecond (some 1))).exec (.loaded (bootSecond (some 1))) []
      = some (.loaded (bootSecond (some 1))) := rfl
  exact (initSound_iff (bootSecond (some 1)) hloaded 0).2 (.inr hcomplete)

/-- The second device is to be booted and has no image, and `SSL_init` succeeds. -/
theorem missing_image_accepted : ¬ InitSound (bootSecond none) 0 (.loaded (bootSecond none)) := by
  intro hsound
  refine hsound.2 ⟨_, .tail _ (.head _), ?_⟩ rfl
  intro hbootable
  exact absurd (hbootable (by decide)) (by decide)

end VprocSdk
