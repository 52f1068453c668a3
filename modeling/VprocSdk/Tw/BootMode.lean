import VprocSdk.Tw.Commands

/-!
# Boot ROM mode before firmware data and host commands

The six commands that work in the boot ROM, against a bus that may fail any access or return any
bytes. What they send is justified when, earlier in the same call, register 0x28 was read with the
application-running bit clear, or the reset to the boot ROM succeeded and register 0x34 then read
0xD3D3.

`tw_chk_dev_boot_rom_mode` returns the mode and the status of a failed read through one integer, and
the status codes are positive. A failed read of 0x28 is therefore taken for boot ROM mode, and the
command goes on.
-/

namespace VprocSdk

open Lib

/-- The commands that work in the boot ROM, with their arguments. -/
inductive BootCmd
  | loadFwrFromHost (args : Option (Option (List Byte)))
  | loadFwrcfgFromFlash (imageNumber : Word)
  | saveFwrcfgToFlash (valp : Bool)
  | eraseWholeFlash
  | eraseFwrcfgFromFlash (imageNumber : Option Word)
  | startFwr
  deriving DecidableEq, Repr

def BootCmd.command : BootCmd → Command
  | .loadFwrFromHost args => .loadFwrFromHost args
  | .loadFwrcfgFromFlash imageNumber => .loadFwrcfgFromFlash imageNumber
  | .saveFwrcfgToFlash valp => .saveFwrcfgToFlash valp
  | .eraseWholeFlash => .eraseWholeFlash
  | .eraseFwrcfgFromFlash imageNumber => .eraseFwrcfgFromFlash imageNumber
  | .startFwr => .startFwr

/-- The argument checks a command makes before its first access. -/
def BootCmd.Accepted : BootCmd → Prop
  | .loadFwrFromHost args => ∃ data, args = some (some data)
  | .loadFwrcfgFromFlash imageNumber => 0 < imageNumber.toInt
  | .eraseFwrcfgFromFlash args => ∃ imageNumber : Word, args = some imageNumber ∧ 0 < imageNumber.toInt
  | _ => True

/-- Firmware data, the host command register, and the flag that starts the command in it. -/
def NeedsBootRom : BusOp → Prop
  | .portWrite _ => True
  | .write reg _ => reg = Reg.hostCmd ∨ reg = Reg.hostSwFlags
  | .read _ _ => False

def ReadsBootRom (e : DevEndian) (x : BusOp × BusAnswer) : Prop :=
  x.1 = .read Reg.curLoadedFwImg 2 ∧
    ∃ val, readResult x.2 = .ok val ∧ hbiVal e val &&& curFwAppRunning = 0

def ResetsToBoot (e : DevEndian) (x : BusOp × BusAnswer) : Prop :=
  x.1 = .write Reg.clkStatus (hostBytes (hbiVal e clkStatusHwrst)) ∧ writeResult x.2 = .success

def ReadsBootMark (x : BusOp × BusAnswer) : Prop :=
  x.1 = .read Reg.hostCmdParamResult 2 ∧ readResult x.2 = .ok 0xD3D3

def BootRomEstablished (e : DevEndian) (done : BusRecord) : Prop :=
  (∃ x ∈ done, ReadsBootRom e x) ∨
    ∃ before x between y after, done = before ++ x :: between ++ y :: after ∧
      ResetsToBoot e x ∧ ReadsBootMark y

/-- Everything that needs the boot ROM comes after boot ROM mode is established, and a failed read of
0x28 is the last access of a call that fails. -/
def BootModeSafe (e : DevEndian) (call : BusRecord × HbiStatus × Option Word) : Prop :=
  Prog.Justified (fun done q _ => NeedsBootRom q → BootRomEstablished e done) call.1 ∧
    ∀ before ans rest, call.1 = before ++ (.read Reg.curLoadedFwImg 2, ans) :: rest →
      ans.status ≠ .ok → rest = [] ∧ call.2.1 ≠ .success

/-! ### The contract the calls keep -/

theorem BootRomEstablished.snoc {e : DevEndian} {done : BusRecord} (h : BootRomEstablished e done)
    (x : BusOp × BusAnswer) : BootRomEstablished e (done ++ [x]) := by
  rcases h with ⟨y, hy, hread⟩ | ⟨before, x', between, y, after, rfl, hreset, hmark⟩
  · exact .inl ⟨y, List.mem_append_left _ hy, hread⟩
  · exact .inr ⟨before, x', between, y, after ++ [x], by simp, hreset, hmark⟩

/-- What needs the boot ROM waits for boot ROM mode, and register 0x28 is only read first; that first
read is relied on to succeed. -/
def bootContract (e : DevEndian) : Prog.Contract BusOp BusAnswer BusRecord :=
  Prog.historyContract
    (fun done q => (NeedsBootRom q → BootRomEstablished e done) ∧
      (q = .read Reg.curLoadedFwImg 2 → done = []))
    (fun done q ans => done = [] → q = .read Reg.curLoadedFwImg 2 → ans.status = .ok)

/-- Any program that does not read register 0x28 keeps the contract once boot ROM mode is
established. -/
theorem obeys_of_established {α : Type} {e : DevEndian} {p : Tw α} {done : BusRecord}
    (hp : p.Asks (· ≠ .read Reg.curLoadedFwImg 2)) (h : BootRomEstablished e done) :
    p.Obeys (bootContract e) done fun _ done' => BootRomEstablished e done' := by
  refine hp.obeys (BootRomEstablished e) ?_ ?_ h
  · exact fun g q hg hq => ⟨fun _ => hg, fun hq' => absurd hq' hq⟩
  · exact fun g q a hg _ _ => hg.snoc (q, a)

/-! ### Questions of the building blocks -/

section Asks

variable {P : BusOp → Prop}

theorem asks_readWord {reg : RegAddr} (h : P (.read reg 2)) : (readWord reg).Asks P := by
  rw [readWord_eq]
  exact ⟨h, fun _ => trivial⟩

theorem asks_writeWord {reg : RegAddr} {val : Word} (h : P (.write reg (hostBytes val))) :
    (writeWord reg val).Asks P := by
  rw [writeWord_eq]
  exact ⟨h, fun _ => trivial⟩

theorem asks_chk {α : Type} {p : Tw HbiStatus} {failed : HbiStatus → α} {rest : Tw α}
    (hp : p.Asks P) (hrest : rest.Asks P) :
    (p >>= fun status => if status ≠ .success then pure (failed status) else rest).Asks P := by
  refine hp.bind fun status => ?_
  split
  · trivial
  · exact hrest

theorem asks_spin {reg : RegAddr} {released : Word → Bool} (h : P (.read reg 2)) (n : Nat) :
    (spin reg released n).Asks P := by
  induction n with
  | zero => trivial
  | succ n ih =>
      refine (asks_readWord h).bind fun result => ?_
      cases result with
      | error status => trivial
      | ok temp =>
          dsimp only
          split
          · trivial
          · exact ih

theorem asks_twWrCmdreg {pDev : TwDev} {cmd : Word} (hflags : P (.read Reg.hostSwFlags 2))
    (hcmd : P (.write Reg.hostCmd (hostBytes (hbiVal pDev.endianness cmd))))
    (hset : P (.write Reg.hostSwFlags (hostBytes (hbiVal pDev.endianness hostSwFlagsHostCmd))))
    (hwait : P (.read Reg.hostCmd 2)) : (twWrCmdreg pDev cmd).Asks P :=
  asks_chk (asks_spin hflags _) <| asks_chk (asks_writeWord hcmd) <|
    asks_chk (asks_writeWord hset) (asks_spin hwait _)

theorem asks_twCmdresultCheck (h : P (.read Reg.hostCmdParamResult 2)) :
    twCmdresultCheck.Asks P := by
  refine (asks_readWord h).bind fun result => ?_
  cases result <;> trivial

end Asks

/-! ### The two openings -/

theorem needsBootRom_clkStatus (data : List Byte) : ¬ NeedsBootRom (.write Reg.clkStatus data) := by
  intro h
  rcases h with h | h <;> exact absurd h (by decide)

theorem obeys_twReset_toBoot (pDev : TwDev) {done : BusRecord} :
    (twReset pDev .toBoot).Obeys (bootContract pDev.endianness) done fun status done' =>
      status = .success → BootRomEstablished pDev.endianness done' := by
  unfold twReset
  have hwrite : (writeWord Reg.clkStatus (hbiVal pDev.endianness clkStatusHwrst)).Obeys
      (bootContract pDev.endianness) done fun status done' =>
        status = .success → ∃ x, done' = done ++ [x] ∧ ResetsToBoot pDev.endianness x := by
    refine obeys_writeWord ⟨fun h => (needsBootRom_clkStatus _ h).elim, fun h => by simp at h⟩ ?_
    exact fun ans _ hok => ⟨(_, ans), rfl, rfl, hok⟩
  refine hwrite.bind ?_
  intro status done' hreset
  split
  · exact fun hok => absurd hok ‹status ≠ .success›
  · rename_i hok
    obtain ⟨x, rfl, hx⟩ := hreset (not_not.1 hok)
    have hmark : (readWord Reg.hostCmdParamResult).Obeys (bootContract pDev.endianness)
        (done ++ [x]) fun result done' => ∀ val, result = .ok val → val = 0xD3D3 →
          BootRomEstablished pDev.endianness done' := by
      refine obeys_readWord ⟨fun h => h.elim, fun h => absurd h (by decide)⟩ ?_
      intro ans _ val hread heq
      subst heq
      exact .inr ⟨done, x, [], (_, ans), [], by simp [bootContract, Prog.historyContract], hx,
        rfl, hread⟩
    refine hmark.bind ?_
    intro result done'' hval
    cases result with
    | error status => simp
    | ok val =>
        dsimp only
        split
        · simp
        · exact fun _ => hval val rfl (not_not.1 ‹¬ val ≠ 0xD3D3›)

theorem obeys_bootMode (pDev : TwDev) :
    (twChkDevBootRomMode pDev).Obeys (bootContract pDev.endianness) [] fun ret done =>
      0 < ret → BootRomEstablished pDev.endianness done := by
  simp only [twChkDevBootRomMode, readWord_eq, Prog.ask_bind, Prog.pure_bind]
  refine ⟨⟨fun h => h.elim, fun _ => rfl⟩, fun ans hans => ?_⟩
  have hval := readResult_ok (hans rfl rfl)
  simp only [hval]
  by_cases hrun : hbiVal pDev.endianness (hostWord ans.data) &&& curFwAppRunning = 0
  · have hread : BootRomEstablished pDev.endianness [(.read Reg.curLoadedFwImg 2, ans)] :=
      .inl ⟨_, List.mem_singleton_self _, rfl, _, hval, hrun⟩
    rw [if_neg (not_not.2 hrun)]
    exact fun _ => hread
  · rw [if_pos hrun]
    exact fun hpos => absurd hpos (by decide)

/-- The shared opening succeeds only in boot ROM mode. -/
theorem obeys_enterBootRom (pDev : TwDev) :
    (enterBootRom pDev).Obeys (bootContract pDev.endianness) [] fun status done =>
      status = .success → BootRomEstablished pDev.endianness done := by
  apply (obeys_bootMode pDev).bind
  intro ret done hmode
  split
  · exact fun hok => absurd hok (by decide)
  · split
    · exact obeys_twReset_toBoot pDev
    · exact fun _ => hmode (by omega)

/-! ### The six commands -/

theorem obeys_after_enterBootRom {α : Type} (pDev : TwDev) (failed : HbiStatus → α) {rest : Tw α}
    (hrest : rest.Asks (· ≠ .read Reg.curLoadedFwImg 2)) :
    (enterBootRom pDev >>= fun status =>
        if status ≠ .success then pure (failed status) else rest).Obeys
      (bootContract pDev.endianness) [] fun _ _ => True := by
  refine (obeys_enterBootRom pDev).bind fun status done hpost => ?_
  split
  · trivial
  · rename_i hstatus
    exact (obeys_of_established hrest (hpost (not_not.1 hstatus))).mono fun _ _ _ => trivial

theorem asks_hostCommand (pDev : TwDev) (cmd : Word) :
    (twWrCmdreg pDev cmd).Asks (· ≠ .read Reg.curLoadedFwImg 2) := by
  apply asks_twWrCmdreg <;> simp [Reg.hostSwFlags, Reg.hostCmd, Reg.curLoadedFwImg]

theorem asks_decoded (pDev : TwDev) (cmd : Word) (decode : Word → HbiStatus) :
    (twWrCmdreg pDev cmd >>= fun status => if status ≠ .success then pure status else
      twCmdresultCheck >>= fun hmiResponse => pure (decode hmiResponse)).Asks
        (· ≠ .read Reg.curLoadedFwImg 2) :=
  asks_chk (asks_hostCommand pDev cmd) ((asks_twCmdresultCheck (by decide)).bind fun _ => trivial)

theorem asks_withParam (pDev : TwDev) (val cmd : Word) (decode : Word → HbiStatus) :
    (writeWord Reg.hostCmdParamResult val >>= fun status => if status ≠ .success then pure status else
      twWrCmdreg pDev cmd >>= fun status => if status ≠ .success then pure status else
      twCmdresultCheck >>= fun hmiResponse => pure (decode hmiResponse)).Asks
        (· ≠ .read Reg.curLoadedFwImg 2) :=
  asks_chk (asks_writeWord (by simp)) (asks_decoded pDev cmd decode)

theorem asks_twInitCheckFlash (pDev : TwDev) :
    (twInitCheckFlash pDev).Asks (· ≠ .read Reg.curLoadedFwImg 2) :=
  asks_decoded pDev HostCmd.hostFlashInit _

theorem obeys_twStartFwrFromRam (pDev : TwDev) :
    (twStartFwrFromRam pDev).Obeys (bootContract pDev.endianness) [] fun _ _ => True := by
  apply (obeys_bootMode pDev).bind
  intro ret done hmode
  split
  · trivial
  · split
    · trivial
    · have hestablished := hmode (by omega)
      exact (obeys_of_established (asks_decoded pDev HostCmd.fwrGo _) hestablished).mono fun _ _ _ => trivial

theorem obeys_plain {γ : Type} {c : Prog.Contract BusOp BusAnswer γ} {g : γ} {p : Tw HbiStatus}
    (h : p.Obeys c g fun _ _ => True) :
    (p >>= fun status => (pure (status, none) : Tw (HbiStatus × Option Word))).Obeys c g
      fun _ _ => True :=
  h.bind fun _ _ _ => trivial

theorem obeys_bootCmd (pDev : TwDev) (cmd : BootCmd) :
    (internalHbiSetCommand pDev cmd.command).Obeys (bootContract pDev.endianness) []
      fun _ _ => True := by
  cases cmd with
  | loadFwrFromHost args =>
      refine obeys_plain ?_
      match args with
      | none | some none => trivial
      | some (some pFwrData) =>
          refine obeys_after_enterBootRom pDev _ ?_
          rw [sslPortWrite_eq]
          exact ⟨by simp, fun _ => trivial⟩
  | loadFwrcfgFromFlash imageNumber =>
      refine obeys_plain ?_
      unfold twLoadFwrcfgFromFlash
      split
      · trivial
      · exact obeys_after_enterBootRom pDev _
          (asks_chk (asks_twInitCheckFlash pDev) (asks_withParam pDev imageNumber _ _))
  | saveFwrcfgToFlash valp =>
      refine obeys_after_enterBootRom pDev _ (asks_chk (asks_twInitCheckFlash pDev) <|
        asks_chk (asks_writeWord (by simp)) <| asks_chk (asks_hostCommand pDev _) <|
          (asks_twCmdresultCheck (by decide)).bind fun hmiResponse => ?_)
      dsimp only
      split
      · trivial
      split
      · trivial
      refine (asks_readWord (by decide)).bind fun result => ?_
      cases result <;> trivial
  | eraseWholeFlash =>
      refine obeys_plain ?_
      exact obeys_after_enterBootRom pDev _
        (asks_chk (asks_twInitCheckFlash pDev) (asks_withParam pDev _ _ _))
  | eraseFwrcfgFromFlash args =>
      refine obeys_plain ?_
      cases args with
      | none => trivial
      | some imageNumber =>
          simp only [twEraseFwrcfgFromFlash]
          split
          · trivial
          · exact obeys_after_enterBootRom pDev _
              (asks_chk (asks_twInitCheckFlash pDev) (asks_withParam pDev imageNumber _ _))
  | startFwr =>
      exact obeys_plain (obeys_twStartFwrFromRam pDev)

/-! ### When the first read fails -/

/-- The program reads register 0x28 first, and when that read fails it accesses the bus again. -/
def GoesOnAfterFailure {α : Type} (p : Tw α) : Prop :=
  ∃ next q, p = .ask (.read Reg.curLoadedFwImg 2) next ∧
    ∀ ans : BusAnswer, ans.status ≠ .ok → (next ans).Starts q

theorem GoesOnAfterFailure.bind {α β : Type} {p : Tw α} (h : GoesOnAfterFailure p)
    (f : α → Tw β) : GoesOnAfterFailure (p >>= f) := by
  obtain ⟨next, q, rfl, hnext⟩ := h
  exact ⟨_, q, rfl, fun ans hans => (hnext ans hans).bind f⟩

theorem enterBootRom_failed (pDev : TwDev) :
    ∃ next, enterBootRom pDev = .ask (.read Reg.curLoadedFwImg 2) next ∧
      ∀ ans : BusAnswer, ans.status ≠ .ok → next ans = .pure .success := by
  refine ⟨_, by
    simp only [enterBootRom, twChkDevBootRomMode, readWord_eq, Prog.ask_bind, Prog.pure_bind]
    rfl, fun ans hans => ?_⟩
  simp only [readResult_failed hans]
  rfl

theorem goesOn_after_enterBootRom {α : Type} (pDev : TwDev) (failed : HbiStatus → α) {rest : Tw α}
    {q : BusOp} (hrest : rest.Starts q) :
    GoesOnAfterFailure (enterBootRom pDev >>= fun status =>
      if status ≠ .success then pure (failed status) else rest) := by
  obtain ⟨next, heq, hnext⟩ := enterBootRom_failed pDev
  refine ⟨_, q, by rw [heq, Prog.ask_bind], fun ans hans => ?_⟩
  rw [hnext ans hans]
  exact hrest

theorem starts_twWrCmdreg (pDev : TwDev) (cmd : Word) :
    (twWrCmdreg pDev cmd).Starts (.read Reg.hostSwFlags 2) := by
  have hspin : (twMboxAcquire pDev).Starts (.read Reg.hostSwFlags 2) := by
    show (spin Reg.hostSwFlags (hostCmdFlagClear pDev) (9999 + 1)).Starts _
    rw [spin, readWord_eq]
    exact ⟨_, rfl⟩
  exact hspin.bind _

theorem starts_twInitCheckFlash (pDev : TwDev) :
    (twInitCheckFlash pDev).Starts (.read Reg.hostSwFlags 2) :=
  (starts_twWrCmdreg pDev _).bind _

theorem goesOn_twStartFwrFromRam (pDev : TwDev) : GoesOnAfterFailure (twStartFwrFromRam pDev) := by
  refine ⟨_, .read Reg.hostSwFlags 2, by
    simp only [twStartFwrFromRam, twChkDevBootRomMode, readWord_eq, Prog.ask_bind, Prog.pure_bind]
    rfl, fun ans hans => ?_⟩
  simp only [readResult_failed hans]
  exact (starts_twWrCmdreg pDev _).bind _

/-- A command that passes its argument checks goes on after a failed read of register 0x28. -/
theorem goesOn_bootCmd (pDev : TwDev) {cmd : BootCmd} (h : cmd.Accepted) :
    GoesOnAfterFailure (internalHbiSetCommand pDev cmd.command) := by
  cases cmd with
  | loadFwrFromHost args =>
      obtain ⟨pFwrData, rfl⟩ := h
      exact (goesOn_after_enterBootRom pDev _ ((Prog.starts_ask _ _).bind _)).bind _
  | loadFwrcfgFromFlash imageNumber =>
      refine GoesOnAfterFailure.bind ?_ _
      rw [twLoadFwrcfgFromFlash, if_neg (not_le.2 h)]
      exact goesOn_after_enterBootRom pDev _ ((starts_twInitCheckFlash pDev).bind _)
  | saveFwrcfgToFlash valp =>
      exact goesOn_after_enterBootRom pDev _ ((starts_twInitCheckFlash pDev).bind _)
  | eraseWholeFlash =>
      exact (goesOn_after_enterBootRom pDev _ ((starts_twInitCheckFlash pDev).bind _)).bind _
  | eraseFwrcfgFromFlash args =>
      obtain ⟨imageNumber, rfl, hpos⟩ := h
      refine GoesOnAfterFailure.bind ?_ _
      simp only [twEraseFwrcfgFromFlash]
      rw [if_neg (not_le.2 hpos)]
      exact goesOn_after_enterBootRom pDev _ ((starts_twInitCheckFlash pDev).bind _)
  | startFwr => exact (goesOn_twStartFwrFromRam pDev).bind _

theorem rejected_bootCmd (pDev : TwDev) {cmd : BootCmd} (h : ¬ cmd.Accepted) :
    ∃ result, internalHbiSetCommand pDev cmd.command = .pure result := by
  cases cmd with
  | loadFwrFromHost args =>
      match args with
      | none | some none => exact ⟨_, rfl⟩
      | some (some data) => exact absurd ⟨data, rfl⟩ h
  | loadFwrcfgFromFlash imageNumber =>
      refine ⟨(.invalidArg, none), ?_⟩
      simp only [BootCmd.Accepted, not_lt] at h
      simp [internalHbiSetCommand, BootCmd.command, twLoadFwrcfgFromFlash, h]
  | eraseFwrcfgFromFlash args =>
      cases args with
      | none => exact ⟨_, rfl⟩
      | some imageNumber =>
          refine ⟨(.invalidArg, none), ?_⟩
          have hle : imageNumber.toInt ≤ 0 := not_lt.1 fun hlt => h ⟨imageNumber, rfl, hlt⟩
          simp [internalHbiSetCommand, BootCmd.command, twEraseFwrcfgFromFlash, hle]
  | saveFwrcfgToFlash valp => exact absurd trivial h
  | eraseWholeFlash => exact absurd trivial h
  | startFwr => exact absurd trivial h

/-! ### Boot mode safety -/

/-- A call is safe exactly when its arguments are refused before any access, or its first access, the
read of register 0x28, succeeds. -/
theorem bootModeSafe_iff (pDev : TwDev) (cmd : BootCmd)
    (answer : BusRecord → BusOp → BusAnswer) :
    BootModeSafe pDev.endianness ((internalHbiSetCommand pDev cmd.command).run answer []) ↔
      (cmd.Accepted → (answer [] (.read Reg.curLoadedFwImg 2)).status = .ok) := by
  constructor
  · intro hsafe haccepted
    by_contra hfail
    obtain ⟨next, q, heq, hnext⟩ := goesOn_bootCmd pDev haccepted
    obtain ⟨more, hmore⟩ := (hnext _ hfail).run answer
      [(.read Reg.curLoadedFwImg 2, answer [] (.read Reg.curLoadedFwImg 2))]
    rw [heq] at hsafe
    have hrest := (hsafe.2 [] _ _ (by simpa using hmore) hfail).1
    simp at hrest
  · intro hread
    by_cases haccepted : cmd.Accepted
    · have hfirst : ∀ done q, done = [] → q = .read Reg.curLoadedFwImg 2 →
          (answer done q).status = .ok := by
        intro done q heq heq
        subst heq
        subst heq
        exact hread haccepted
      have hrun := (obeys_bootCmd pDev cmd).run (Prog.justified_nil _) hfirst
      refine ⟨hrun.1.mono fun before q a h => h.1.1, fun before ans rest heq hans => ?_⟩
      have hexchange := hrun.1 before _ ans rest heq
      exact absurd (hexchange.2 (hexchange.1.2 rfl) rfl) hans
    · obtain ⟨result, hresult⟩ := rejected_bootCmd pDev haccepted
      rw [hresult]
      exact ⟨Prog.justified_nil _, fun before ans rest heq => by simp at heq⟩

/-- One failed read of register 0x28, and firmware data goes to a device nothing is known about. -/
theorem loadFwrFromHost_after_failed_read :
    ¬ BootModeSafe .big ((internalHbiSetCommand ⟨.big, 1⟩ (.firmware [0x12, 0x34])).run
      (fun _ q => if q = .read Reg.curLoadedFwImg 2 then ⟨.failed, []⟩ else ⟨.ok, []⟩) []) := by
  intro hsafe
  have hbefore := hsafe.1 [(.read Reg.curLoadedFwImg 2, ⟨.failed, []⟩)] (.portWrite [0x12, 0x34])
    ⟨.ok, []⟩ [] rfl trivial
  rcases hbefore with ⟨x, hx, -, val, hval, -⟩ | ⟨before, x, between, y, after, heq, hx, -⟩
  · rw [List.mem_singleton.1 hx] at hval
    simp [readResult] at hval
  · cases before with
    | nil =>
        rw [← (List.cons.inj heq).1] at hx
        exact absurd hx.1 (by decide)
    | cons z before => simp at heq

end VprocSdk
