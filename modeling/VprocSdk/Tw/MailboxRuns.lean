import VprocSdk.Tw.MailboxSafety

/-!
# One client and two clients of a mailbox

One client is safe with every command but the one that saves a configuration record. That command
writes its parameter before it waits for the mailbox, lets the flash initialisation write its result
over it, and reads a result without waiting for the command to complete.

Two clients are safe as long as their mailbox sections do not overlap. `HBI_set_command` holds the
driver's lock only while it looks up the device, so nothing keeps the sections apart, and then one
client's image number is in place when the other's erase starts.
-/

namespace VprocSdk

open Lib

/-- The registers are clear and nobody has called yet. -/
def mailboxAtRest (ι : Type) : MailboxSystem ι where
  flags := 0
  hostCmd := 0
  paramResult := 0
  writer := none
  inProgress := none
  clients := fun _ => none
  starts := []

theorem mailboxAtRest_initial (ι : Type) : (mailboxAtRest ι).Initial := ⟨fun _ => rfl, rfl, rfl⟩

def accesses {ι : Type} (i : ι) (n : Nat) : List (MailboxEvent ι) :=
  List.replicate n (.access i 0 none)

/-! ### Which calls are made -/

section Calls

variable {ι : Type} {pDev : TwDev} {allowed : Command → Prop} {s s' : MailboxSystem ι}
  {ev : MailboxEvent ι}

def CallsAre (allowed : Command → Prop) (s : MailboxSystem ι) : Prop :=
  ∀ i σ, s.clients i = some σ → allowed σ.call

def CallsOnly (allowed : Command → Prop) : MailboxEvent ι → Prop
  | .call _ call => allowed call
  | .access _ _ _ | .complete _ => True

theorem callsAre_atRest : CallsAre allowed (mailboxAtRest ι) := by
  intro i σ hσ
  simp [mailboxAtRest] at hσ

theorem saveCfgRefused_of_calls
    (h : CallsAre (fun call => ∀ imageNumber, call ≠ .saveCfgToFlash imageNumber) s) :
    SaveCfgRefused pDev s ev := by
  cases ev with
  | access i count reset => exact fun σ n hσ hcall => absurd hcall (h i σ hσ n)
  | call i call => trivial
  | complete result => trivial

/-- A call can write to the mailbox only while it runs, so a client is alone as long as the others
have returned. -/
theorem writesAlone_of_idle {i : ι} (h : ∀ j, j ≠ i → s.mayCall j = true) :
    WritesAlone pDev s ev := by
  have hreturned : ∀ j τ, j ≠ i → s.clients j = some τ → τ.returned ≠ none := by
    intro j τ hj hτ hnone
    have hidle := h j hj
    rw [MailboxSystem.mayCall, hτ] at hidle
    simp [hnone] at hidle
  cases ev with
  | call k call => trivial
  | complete result => trivial
  | access k other reset =>
      intro σ op hσ hnext _ j τ hj hτ hinside
      by_cases hk : k = i
      · exact hreturned j τ (hk ▸ hj) hτ hinside.1
      · refine hreturned k σ hk hσ ?_
        unfold Session.next at hnext
        unfold Session.returned
        split at hnext
        · exact absurd hnext.symm (Option.some_ne_none op)
        · rfl

variable [DecidableEq ι]

theorem CallsAre.step (h : CallsAre allowed s) (hev : CallsOnly allowed ev)
    (hstep : (mailboxMachine ι pDev).step s ev = some s') : CallsAre allowed s' := by
  intro j τ hτ
  cases ev with
  | call i call =>
      obtain ⟨-, -, rfl⟩ := MailboxSystem.step_call hstep
      simp only [MailboxSystem.setClient, Function.update_apply] at hτ
      split at hτ
      · obtain rfl := Option.some.inj hτ
        exact hev
      · exact h j τ hτ
  | access i other reset =>
      obtain ⟨σ, op, next, hσ, -, rfl⟩ := MailboxSystem.step_access hstep
      simp only [MailboxSystem.setClient, MailboxSystem.deliver_clients,
        Function.update_apply] at hτ
      split at hτ
      · obtain rfl := Option.some.inj hτ
        exact h i σ hσ
      · exact h j τ hτ
  | complete result =>
      obtain ⟨i, -, rfl⟩ := MailboxSystem.step_complete hstep
      simp only [MailboxSystem.finish, Function.update_apply] at hτ
      split at hτ
      · obtain ⟨σ, hσ, rfl⟩ := Option.map_eq_some_iff.1 hτ
        exact h i σ hσ
      · exact h j τ hτ

theorem mayCall_step {j : ι} (h : s.mayCall j = true) (hev : ∀ call, ev ≠ .call j call)
    (hstep : (mailboxMachine ι pDev).step s ev = some s') : s'.mayCall j = true := by
  cases ev with
  | call i call =>
      obtain ⟨-, -, rfl⟩ := MailboxSystem.step_call hstep
      have hj : j ≠ i := fun heq => hev call (by rw [heq])
      simpa [MailboxSystem.mayCall, MailboxSystem.setClient, Function.update_of_ne hj] using h
  | access i other reset =>
      obtain ⟨σ, op, next, hσ, htodo, rfl⟩ := MailboxSystem.step_access hstep
      have hj : j ≠ i := by
        intro heq
        subst heq
        simp [MailboxSystem.mayCall, hσ, Session.returned, htodo] at h
      simpa [MailboxSystem.mayCall, MailboxSystem.setClient, MailboxSystem.deliver_clients,
        Function.update_of_ne hj] using h
  | complete result =>
      obtain ⟨i, -, rfl⟩ := MailboxSystem.step_complete hstep
      by_cases hj : j = i
      · subst hj
        cases hσ : s.clients j with
        | none => simp [MailboxSystem.mayCall, MailboxSystem.finish, hσ]
        | some σ =>
            simpa [MailboxSystem.mayCall, MailboxSystem.finish, hσ, Session.completed,
              Session.returned] using h
      · simpa [MailboxSystem.mayCall, MailboxSystem.finish, Function.update_of_ne hj] using h

end Calls

/-! ### One client -/

theorem writesAlone_unit (pDev : TwDev) (s : MailboxSystem Unit) (ev : MailboxEvent Unit) :
    WritesAlone pDev s ev := by
  cases ev with
  | access i count reset => exact fun _ _ _ _ _ j τ hj => absurd rfl hj
  | call i call => trivial
  | complete result => trivial

/-- With one client, every state is sound that a run reaches in which every call to save a
configuration record is refused. -/
theorem singleClient_sound {pDev : TwDev} {s s' : MailboxSystem Unit}
    {events : List (MailboxEvent Unit)} (hs : s.Initial)
    (hrun : (mailboxMachine Unit pDev).Runs (SaveCfgRefused pDev) s events s') :
    s'.Sound pDev :=
  mailbox_sound hs (hrun.mono fun s ev h => ⟨h, writesAlone_unit pDev s ev⟩)

def eraseEvents : List (MailboxEvent Unit) :=
  [.call () (.eraseFwrcfgFromFlash (some 0x0100))] ++ accesses () 4 ++ [.complete 0x6000] ++
    accesses () 6 ++ [.complete 0] ++ accesses () 2

theorem singleClient_sound_erase :
    ∃ s', (mailboxMachine Unit ⟨.big, 1⟩).exec (mailboxAtRest Unit) eraseEvents = some s' ∧
      s'.Sound ⟨.big, 1⟩ := by
  have hexec : ((mailboxMachine Unit ⟨.big, 1⟩).exec (mailboxAtRest Unit) eraseEvents).isSome := by
    decide +kernel
  obtain ⟨s', hs'⟩ := Option.isSome_iff_exists.1 hexec
  have hcalls : ∀ ev ∈ eraseEvents,
      CallsOnly (fun call => ∀ imageNumber, call ≠ .saveCfgToFlash imageNumber) ev := by
    simp [eraseEvents, accesses, CallsOnly]
  have hrun := (Machine.runs_of_exec hs' hcalls).with_invariant (CallsAre _) callsAre_atRest
    fun t ev u ht hev hstep => ht.step hev hstep
  exact ⟨s', hs', singleClient_sound (mailboxAtRest_initial Unit)
    (hrun.mono fun t ev h => saveCfgRefused_of_calls h.2)⟩

def saveCfgEvents : List (MailboxEvent Unit) :=
  [.call () (.saveCfgToFlash 0x0100), .access () 5 none] ++ accesses () 7 ++ [.complete 0x6000] ++
    accesses () 5

/-- The save starts with the result of the flash initialisation as its parameter, and the call
returns while the save is in progress. -/
theorem saveCfgToFlash_unsound :
    ∃ s', (mailboxMachine Unit ⟨.big, 1⟩).exec (mailboxAtRest Unit) saveCfgEvents = some s' ∧
      (∃ st ∈ s'.starts, ¬ st.Sound .big) ∧
      ∃ σ, s'.clients () = some σ ∧ ¬ σ.Sound ⟨.big, 1⟩ := by
  have hstarts : ((mailboxMachine Unit ⟨.big, 1⟩).exec (mailboxAtRest Unit) saveCfgEvents).map
      (fun s => s.starts.getLast?) =
        some (some ⟨(), .saveCfgToFlash 0x0100, some ((), .saveCfgToFlash 0x0100), 4, 0x6000⟩) := by
    decide +kernel
  have hsession : ((mailboxMachine Unit ⟨.big, 1⟩).exec (mailboxAtRest Unit) saveCfgEvents).map
      (fun s => (s.clients ()).map fun σ => (σ.issued, σ.returned)) =
        some (some (some ⟨4, none, none⟩, some (.commandErr, none))) := by
    decide +kernel
  obtain ⟨s', hs', hlast⟩ := Option.map_eq_some_iff.1 hstarts
  rw [hs'] at hsession
  obtain ⟨σ, hσ, hend⟩ := Option.map_eq_some_iff.1 (Option.some.inj hsession)
  obtain ⟨hissued, hreturned⟩ := Prod.mk.inj hend
  refine ⟨s', hs', ⟨_, List.mem_of_getLast? hlast, fun hsound => ?_⟩, σ, hσ, fun hsound => ?_⟩
  · exact absurd (hsound.2 1 (by decide)) (by decide)
  · have hstatus := hsound .commandErr none hreturned
    rw [hissued] at hstatus
    rcases hstatus with ⟨hgave, -⟩ | ⟨w, hresult, -⟩
    · exact absurd hgave (by decide)
    · exact absurd hresult.symm (Option.some_ne_none w)

/-! ### Two clients -/

/-- The commands that take an image number to erase or to load. -/
def Command.NamesImage : Command → Prop
  | .eraseFwrcfgFromFlash _ | .loadFwrcfgFromFlash _ => True
  | _ => False

/-- With two clients that erase and load images, every state is sound that a run reaches in which a
client writes to the mailbox only while the other is not inside. -/
theorem twoClients_sound {pDev : TwDev} {s s' : MailboxSystem Bool}
    {events : List (MailboxEvent Bool)} (hs : s.Initial)
    (hrun : (mailboxMachine Bool pDev).Runs
      (fun s ev => CallsOnly Command.NamesImage ev ∧ WritesAlone pDev s ev) s events s') :
    s'.Sound pDev := by
  have hnone : CallsAre Command.NamesImage s := fun i σ hσ => by
    rw [hs.clients i] at hσ
    exact absurd hσ.symm (Option.some_ne_none σ)
  have hcalls := hrun.with_invariant (CallsAre _) hnone fun t ev u ht hok hstep => ht.step hok.1 hstep
  refine mailbox_sound hs (hcalls.mono fun t ev h => ⟨saveCfgRefused_of_calls ?_, h.1.2⟩)
  intro i σ hσ imageNumber hcall
  have himage := h.2 i σ hσ
  rw [hcall] at himage
  exact himage

def firstErase : List (MailboxEvent Bool) :=
  [.call false (.eraseFwrcfgFromFlash (some 0x0100))] ++ accesses false 4 ++ [.complete 0x6000] ++
    accesses false 6 ++ [.complete 0] ++ accesses false 2

def thenLoad : List (MailboxEvent Bool) :=
  [.call true (.loadFwrcfgFromFlash 0x0200)] ++ accesses true 4 ++ [.complete 0x6000] ++
    accesses true 6 ++ [.complete 0] ++ accesses true 2

theorem twoClients_sound_in_turn :
    ∃ s', (mailboxMachine Bool ⟨.big, 1⟩).exec (mailboxAtRest Bool) (firstErase ++ thenLoad) = some s' ∧
      s'.Sound ⟨.big, 1⟩ := by
  have hmid : ((mailboxMachine Bool ⟨.big, 1⟩).exec (mailboxAtRest Bool) firstErase).map
      (fun s => s.mayCall false) = some true := by
    decide +kernel
  have hend : ((mailboxMachine Bool ⟨.big, 1⟩).exec (mailboxAtRest Bool)
      (firstErase ++ thenLoad)).isSome := by
    decide +kernel
  obtain ⟨t, ht, hidle⟩ := Option.map_eq_some_iff.1 hmid
  obtain ⟨s', hs'⟩ := Option.isSome_iff_exists.1 hend
  have hrest : (mailboxMachine Bool ⟨.big, 1⟩).exec t thenLoad = some s' := by
    rwa [Machine.exec_append, ht, Option.bind_some] at hs'
  have herase : ∀ ev ∈ firstErase, CallsOnly Command.NamesImage ev ∧ ∀ call, ev ≠ .call true call := by
    simp [firstErase, accesses, CallsOnly, Command.NamesImage]
  have hload : ∀ ev ∈ thenLoad, CallsOnly Command.NamesImage ev ∧ ∀ call, ev ≠ .call false call := by
    simp [thenLoad, accesses, CallsOnly, Command.NamesImage]
  have hfirst := (Machine.runs_of_exec ht herase).with_invariant (fun s => s.mayCall true = true) rfl
    fun t ev u ht hev hstep => mayCall_step ht hev.2 hstep
  have hsecond := (Machine.runs_of_exec hrest hload).with_invariant
    (fun s => s.mayCall false = true) hidle fun t ev u ht hev hstep => mayCall_step ht hev.2 hstep
  have hother : ∀ {j k : Bool}, j ≠ k → j = !k := Bool.eq_not_of_ne
  refine ⟨s', hs', twoClients_sound (mailboxAtRest_initial Bool) (Machine.Runs.append
    (hfirst.mono fun t ev h => ⟨h.1.1, writesAlone_of_idle (i := false) fun j hj => ?_⟩)
    (hsecond.mono fun t ev h => ⟨h.1.1, writesAlone_of_idle (i := true) fun j hj => ?_⟩))⟩
  · rw [hother hj]
    exact h.2
  · rw [hother hj]
    exact h.2

/-- Two erases whose accesses interleave: both clients pass the flash initialisation and write their
image numbers before the first erase starts. -/
def interleavedErases : List (MailboxEvent Bool) :=
  [.call false (.eraseFwrcfgFromFlash (some 0x0100)),
    .call true (.eraseFwrcfgFromFlash (some 0x0200))] ++
    accesses false 4 ++ [.complete 0x6000] ++ accesses false 3 ++
    accesses true 4 ++ [.complete 0x6000] ++ accesses true 3 ++
    accesses false 3 ++ [.complete 0] ++ accesses false 1 ++
    accesses true 3 ++ [.complete 1] ++ accesses false 1

/-- The client that erases image 1 starts an erase of image 2, and returns the status of the other
client's erase. -/
theorem interleavedErases_unsound :
    ∃ s', (mailboxMachine Bool ⟨.big, 1⟩).exec (mailboxAtRest Bool) interleavedErases = some s' ∧
      (∃ st ∈ s'.starts, st.cmd = HostCmd.imgCfgErase ∧ st.call.param .big = some 1 ∧ st.param = 2 ∧
        ¬ st.Sound .big) ∧
      ∃ σ, s'.clients false = some σ ∧ σ.returned = some (.badImage, none) ∧
        ¬ σ.Sound ⟨.big, 1⟩ := by
  have hstarts : ((mailboxMachine Bool ⟨.big, 1⟩).exec (mailboxAtRest Bool) interleavedErases).map
      (fun s => s.starts[2]?) =
        some (some ⟨false, .eraseFwrcfgFromFlash (some 0x0100),
          some (false, .eraseFwrcfgFromFlash (some 0x0100)), HostCmd.imgCfgErase, 2⟩) := by
    decide +kernel
  have hsession : ((mailboxMachine Bool ⟨.big, 1⟩).exec (mailboxAtRest Bool) interleavedErases).map
      (fun s => (s.clients false).map fun σ => (σ.issued, σ.returned)) =
        some (some (some ⟨HostCmd.imgCfgErase, some HmiResp.success, some HmiResp.badImage⟩,
          some (.badImage, none))) := by
    decide +kernel
  obtain ⟨s', hs', hthird⟩ := Option.map_eq_some_iff.1 hstarts
  rw [hs'] at hsession
  obtain ⟨σ, hσ, hend⟩ := Option.map_eq_some_iff.1 (Option.some.inj hsession)
  obtain ⟨hissued, hreturned⟩ := Prod.mk.inj hend
  refine ⟨s', hs', ⟨_, List.mem_of_getElem? hthird, rfl, by decide, rfl, fun hsound => ?_⟩, σ, hσ,
    hreturned, fun hsound => ?_⟩
  · exact absurd (hsound.2 1 (by decide)) (by decide)
  · have hstatus := hsound .badImage none hreturned
    rw [hissued] at hstatus
    rcases hstatus with ⟨hgave, -⟩ | ⟨w, hresult, hresponse, -⟩
    · exact absurd hgave (by decide)
    · exact absurd (hresult.trans hresponse.symm) (by decide)

end VprocSdk
