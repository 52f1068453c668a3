import VprocSdk.Hbi.FailedClose

/-!
# What a device lists of its users

A device records its users in an array: `HBI_open` writes behind the entries the count of users covers, and
`HBI_close` marks the entry of its user invalid and lowers the count. So the last entry falls out of the part
that is read, whoever is closed. As long as it is the entry of the user who is closed, the entries that are
read are those of the users of the device.
-/

namespace VprocSdk

open Lib

variable {lim : HbiLimits} {s t u : HbiDrv lim}

/-! ### The list of a device -/

/-- The entries of a device that are read and not marked invalid are the handles of its users, each once. -/
structure ListsUsers (s : HbiDrv lim) : Prop where
  sound : ∀ d k, k.val < (s.devList d).numCurInstances → (s.devList d).instances k ≠ hbiInstInvalidId →
    ∃ i : Fin lim.maxInstances, (s.devList d).instances k = i.val ∧ s.instList i = ⟨some d, true⟩
  complete : ∀ d (i : Fin lim.maxInstances), s.instList i = ⟨some d, true⟩ →
    ∃ k, k.val < (s.devList d).numCurInstances ∧ (s.devList d).instances k = i.val ∧
      ∀ k', k'.val < (s.devList d).numCurInstances → (s.devList d).instances k' = i.val → k' = k

/-- An open does not overwrite all that a device holds of a user, and a close that takes its user out of the
tables has found its entry and marked it. -/
def EntriesKept (s : HbiDrv lim) : HbiEvent lim → Prop
  | (.open pHandle pDevCfg, hal, port) => ∀ t status handle,
      hbiOpen hal port s pHandle pDevCfg = .done (t, status, handle) →
        ∀ d (i : Fin lim.maxInstances), s.instList i = ⟨some d, true⟩ →
          (∃ k, (s.devList d).instances k = i.val) → ∃ k, (t.devList d).instances k = i.val
  | (.close handle, hal, _) => ∀ t status i d, hbiClose hal s handle = .done (t, status) →
      s.validHandle handle = some i → (s.instList i).pDev = some d → (t.instList i).inuse = false →
        ∃ k, k.val < (s.devList d).numCurInstances ∧ (s.devList d).instances k = i.val ∧
          (t.devList d).instances k = hbiInstInvalidId
  | _ => True

/-- The last entry the device reads is that of the user who is closed. -/
def ClosesLast (s : HbiDrv lim) : HbiEvent lim → Prop
  | (.close handle, _, _) => ∀ i d k, s.bInitialized = true → s.validHandle handle = some i →
      (s.instList i).pDev = some d → k.val + 1 = (s.devList d).numCurInstances →
        (s.devList d).instances k = i.val
  | _ => True

/-- Every entry that is read is a handle, and every user has one. -/
structure AllListed (s : HbiDrv lim) : Prop where
  recorded : Recorded s
  full : ∀ d k, k.val < (s.devList d).numCurInstances →
    ∃ i : Fin lim.maxInstances, (s.devList d).instances k = i.val
  all : ∀ d (i : Fin lim.maxInstances), s.instList i = ⟨some d, true⟩ →
    ∃ k, k.val < (s.devList d).numCurInstances ∧ (s.devList d).instances k = i.val

theorem AllListed.listsUsers (h : AllListed s) : ListsUsers s where
  sound d k hk _ := by
    obtain ⟨i, hi⟩ := h.full d k hk
    exact ⟨i, hi, h.recorded.live d k i hk hi⟩
  complete d i hi := by
    obtain ⟨k, hk, hentry⟩ := h.all d i hi
    refine ⟨k, hk, hentry, ?_⟩
    intro k' hk' hentry'
    exact h.recorded.once d k' k i hk' hk hentry' hentry

/-- The records of two states agree. -/
structure SameRecords (s t : HbiDrv lim) : Prop where
  insts : t.instList = s.instList
  record : ∀ d, (t.devList d).instances = (s.devList d).instances ∧
    (t.devList d).numCurInstances = (s.devList d).numCurInstances

theorem SameRecords.of_eq (hinst : t.instList = s.instList) (hdev : t.devList = s.devList) :
    SameRecords s t where
  insts := hinst
  record := fun d => by
    rw [hdev]
    exact ⟨rfl, rfl⟩

theorem SameRecords.trans (h : SameRecords s t) (h' : SameRecords t u) : SameRecords s u where
  insts := h'.insts.trans h.insts
  record := fun d => ⟨(h'.record d).1.trans (h.record d).1, (h'.record d).2.trans (h.record d).2⟩

theorem SameRecords.symm (h : SameRecords s t) : SameRecords t s where
  insts := h.insts.symm
  record := fun d => ⟨(h.record d).1.symm, (h.record d).2.symm⟩

theorem AllListed.congr (h : AllListed s) (hsame : SameRecords s t) : AllListed t where
  recorded := h.recorded.congr hsame.insts hsame.record
  full d k := by
    rw [(hsame.record d).1, (hsame.record d).2]
    exact h.full d k
  all d i := by
    rw [hsame.insts, (hsame.record d).1, (hsame.record d).2]
    exact h.all d i

theorem ListsUsers.congr (h : ListsUsers s) (hsame : SameRecords s t) : ListsUsers t where
  sound d k := by
    rw [(hsame.record d).1, (hsame.record d).2, hsame.insts]
    exact h.sound d k
  complete d i := by
    rw [(hsame.record d).1, (hsame.record d).2, hsame.insts]
    exact h.complete d i

theorem AllListed.empty (hinst : ∀ i, (s.instList i).inuse = false)
    (hdev : ∀ d, (s.devList d).numCurInstances = 0) : AllListed s where
  recorded := .empty hdev
  full d k hk := by
    rw [hdev d] at hk
    exact absurd hk (Nat.not_lt_zero _)
  all d i hi := by
    have hfree := hinst i
    rw [hi] at hfree
    cases hfree

/-! ### Calls that leave the lists alone -/

theorem hbiTerm_sameRecords (hal : Hal) (s : HbiDrv lim) : SameRecords s (hbiTerm hal s).1 := by
  rcases hbiTerm_cases hal s with
    ⟨-, heq⟩ | ⟨-, ⟨-, heq⟩ | ⟨-, -, heq⟩ | ⟨-, -, ssl, -, heq | ⟨-, initCount, heq⟩⟩⟩
  all_goals
    rw [heq]
    exact .of_eq rfl rfl

theorem hbiInit_records (hal : Hal) (s : HbiDrv lim) (pCfg : Option Nat) :
    s.bInitialized = true ∧ SameRecords s (hbiInit hal s pCfg).1 ∨
    s.bInitialized = false ∧ (∀ i, ((hbiInit hal s pCfg).1.instList i).inuse = false) ∧
      ∀ d, ((hbiInit hal s pCfg).1.devList d).numCurInstances = 0 := by
  cases hinit : s.bInitialized with
  | true =>
      rw [hbiInit, if_pos hinit]
      exact .inl ⟨rfl, .of_eq rfl rfl⟩
  | false =>
      rw [hbiInit, if_neg (by simp [hinit])]
      refine .inr ⟨rfl, ?_⟩
      dsimp only
      split
      · exact ⟨fun _ => rfl, fun _ => rfl⟩
      · exact ⟨fun _ => rfl, fun _ => rfl⟩

theorem AllListed.hbiInit (h : AllListed s) (hal : Hal) (pCfg : Option Nat) :
    AllListed (hbiInit hal s pCfg).1 := by
  rcases hbiInit_records hal s pCfg with ⟨-, hsame⟩ | ⟨-, hinst, hdev⟩
  · exact h.congr hsame
  · exact .empty hinst hdev

/-! ### One user more, and one less -/

section User

variable {d : Fin lim.maxNumDevs} {i : Fin lim.maxInstances}

theorem HbiDrv.added_numCur (d' : Fin lim.maxNumDevs) (instances : Fin lim.maxInstPerDev → Nat) :
    ((s.added d i instances).devList d').numCurInstances
      = (s.devList d').numCurInstances + if d' = d then 1 else 0 := by
  by_cases hd : d' = d
  · simp [HbiDrv.added, hd]
  · simp [HbiDrv.added, hd]

theorem added_entry (d' : Fin lim.maxNumDevs) (k : Fin lim.maxInstPerDev)
    (hk : k.val < (s.devList d').numCurInstances) :
    ((s.added d i (recordUser (s.devList d) i.val)).devList d').instances k
      = (s.devList d').instances k := by
  by_cases hd : d' = d
  · subst hd
    simp [HbiDrv.added, recordUser_before hk]
  · simp [HbiDrv.added, hd]

theorem AllListed.added (h : AllListed s) (hfree : (s.instList i).inuse = false)
    (hroom : (s.devList d).numCurInstances < lim.maxInstPerDev) :
    AllListed (s.added d i (recordUser (s.devList d) i.val)) where
  recorded := h.recorded.added hfree hroom
  full d' k hk := by
    rcases HbiDrv.added_instances k d' hroom hk with ⟨hold, hbefore⟩ | ⟨-, -, hnew⟩
    · obtain ⟨j, hj⟩ := h.full d' k hbefore
      exact ⟨j, hold.trans hj⟩
    · exact ⟨i, hnew⟩
  all d' j hj := by
    by_cases hji : j = i
    · subst hji
      obtain rfl : d = d' := by simpa [HbiDrv.added] using hj
      refine ⟨⟨(s.devList d).numCurInstances, hroom⟩, ?_, ?_⟩
      · rw [HbiDrv.added_numCur, if_pos rfl]
        exact Nat.lt_succ_self _
      · simp [HbiDrv.added, recordUser_last hroom]
    · have hold : s.instList j = ⟨some d', true⟩ := by simpa [HbiDrv.added, hji] using hj
      obtain ⟨k, hk, hentry⟩ := h.all d' j hold
      refine ⟨k, ?_, (added_entry d' k hk).trans hentry⟩
      rw [HbiDrv.added_numCur]
      exact Nat.lt_add_right _ hk

theorem removed_entry {d' : Fin lim.maxNumDevs} {k : Fin lim.maxInstPerDev}
    (hne : d' = d → (s.devList d').instances k ≠ i.val) :
    ((s.removed i d).devList d').instances k = (s.devList d').instances k := by
  rw [HbiDrv.removed_record]
  by_cases hd : d' = d
  · subst hd
    rw [if_pos rfl]
    rcases markInvalid_instances (s.devList d') i.val k with hsame | ⟨hvalue, -⟩
    · exact hsame
    · exact absurd hvalue (hne rfl)
  · rw [if_neg hd]

theorem removed_read {d' : Fin lim.maxNumDevs} {k : Fin lim.maxInstPerDev}
    (hk : k.val < ((s.removed i d).devList d').numCurInstances) :
    k.val < (s.devList d').numCurInstances ∧ (d' = d → k.val + 1 < (s.devList d').numCurInstances) := by
  rw [HbiDrv.removed_numCur] at hk
  refine ⟨by omega, ?_⟩
  intro hd
  rw [if_pos hd] at hk
  omega

theorem AllListed.removed (h : AllListed s) (hpDev : (s.instList i).pDev = some d)
    (hle : (s.devList d).numCurInstances ≤ lim.maxInstPerDev)
    (hlast : ∀ k : Fin lim.maxInstPerDev, k.val + 1 = (s.devList d).numCurInstances →
      (s.devList d).instances k = i.val) : AllListed (s.removed i d) := by
  have hother : ∀ d' k, k.val < ((s.removed i d).devList d').numCurInstances →
      d' = d → (s.devList d').instances k ≠ i.val := by
    intro d' k hk hd hvalue
    subst hd
    have hmore := (removed_read hk).2 rfl
    have hroom : (s.devList d').numCurInstances - 1 < lim.maxInstPerDev := by omega
    have hend := hlast ⟨(s.devList d').numCurInstances - 1, hroom⟩ (by dsimp only; omega)
    have hsame := congrArg Fin.val (h.recorded.once d' _ _ i (by omega) (by dsimp only; omega) hvalue hend)
    dsimp only at hsame
    omega
  refine ⟨h.recorded.removed hpDev, ?_, ?_⟩
  · intro d' k hk
    obtain ⟨j, hj⟩ := h.full d' k (removed_read hk).1
    exact ⟨j, (removed_entry (hother d' k hk)).trans hj⟩
  · intro d' j hj
    have hji : j ≠ i := by
      intro heq
      subst heq
      simp [HbiDrv.removed] at hj
    have hold : s.instList j = ⟨some d', true⟩ := by simpa [HbiDrv.removed, hji] using hj
    obtain ⟨k, hk, hentry⟩ := h.all d' j hold
    refine ⟨k, ?_, ?_⟩
    · rw [HbiDrv.removed_numCur]
      by_cases hd : d' = d
      · subst hd
        have hne : k.val + 1 ≠ (s.devList d').numCurInstances := by
          intro hend
          exact hji (Fin.ext (hentry.symm.trans (hlast k hend)))
        rw [if_pos rfl]
        omega
      · rw [if_neg hd]
        exact hk
    · refine (removed_entry ?_).trans hentry
      intro _ hvalue
      exact hji (Fin.ext (hentry.symm.trans hvalue))

theorem AllListed.last_of_removed (h : AllListed s) (hremoved : ListsUsers (s.removed i d))
    {k : Fin lim.maxInstPerDev} (hk : k.val + 1 = (s.devList d).numCurInstances) :
    (s.devList d).instances k = i.val := by
  obtain ⟨j, hj⟩ := h.full d k (by omega)
  have hlive := h.recorded.live d k j (by omega) hj
  by_contra hne
  have hji : j ≠ i := by
    intro heq
    subst heq
    exact hne hj
  have hkept : (s.removed i d).instList j = ⟨some d, true⟩ := by simpa [HbiDrv.removed, hji] using hlive
  obtain ⟨k', hk', hentry, -⟩ := hremoved.complete d j hkept
  obtain ⟨hread, hbefore⟩ := removed_read hk'
  have hold : (s.devList d).instances k' = j.val := by
    rw [HbiDrv.removed_record, if_pos rfl] at hentry
    rcases markInvalid_instances (s.devList d) i.val k' with hsame | ⟨-, hmark⟩
    · exact hsame.symm.trans hentry
    · exact absurd (hmark.symm.trans hentry) (hbiInstInvalidId_ne j)
  have hsame := congrArg Fin.val (h.recorded.once d k' k j hread (by omega) hold hj)
  have hmore := hbefore rfl
  omega

theorem AllListed.removed_marks (h : AllListed s) (hi : s.instList i = ⟨some d, true⟩) :
    ∃ k, k.val < (s.devList d).numCurInstances ∧ (s.devList d).instances k = i.val ∧
      ((s.removed i d).devList d).instances k = hbiInstInvalidId := by
  obtain ⟨k, hk, hentry⟩ := h.all d i hi
  refine ⟨k, hk, hentry, ?_⟩
  rw [HbiDrv.removed_record, if_pos rfl]
  exact markInvalid_marks hk hentry fun k' hk' hentry' => h.recorded.once d k' k i hk' hk hentry' hentry

/-! ### The calls -/

theorem sameRecords_openDevice {cfg : DevCfg} {ssl : SslDrv lim} {handle : Nat} :
    SameRecords s (openDevice s d cfg ssl handle) where
  insts := rfl
  record := fun d' => by
    by_cases hd : d' = d
    · simp [openDevice, hd]
    · simp [openDevice, hd]

theorem sameRecords_closeDevice {ssl : SslDrv lim} {n : Nat} : SameRecords s (closeDevice s d ssl n) where
  insts := rfl
  record := fun d' => by
    by_cases hd : d' = d
    · simp [closeDevice, hd]
    · simp [closeDevice, hd]

end User

/-- What an open does to the lists: nothing, or one user more behind the others of its device, after the
initialisation. -/
theorem hbiOpen_records (hal : Hal) (port : HalPort lim) (h : DriverInv none s) (pHandle : Bool)
    (pDevCfg : Option DevCfg) :
    ∃ t status handle, hbiOpen hal port s pHandle pDevCfg = .done (t, status, handle) ∧
      (SameRecords (hbiInit hal s none).1 t ∨
        ∃ u d i, SameRecords (hbiInit hal s none).1 u ∧ (u.instList i).inuse = false ∧
          (u.devList d).numCurInstances < lim.maxInstPerDev ∧
          t = u.added d i (recordUser (u.devList d) i.val)) := by
  have hinv := (hbiInit_inv hal h none).1
  rcases hbiOpen_cases hal port s pHandle pDevCfg with ⟨status, -, heq⟩ | ⟨cfg, -, -, hlimit, heq⟩
  · exact ⟨_, _, _, heq, .inl (.of_eq rfl rfl)⟩
  · rw [heq]
    rcases openUser_cases hal port hinv hlimit cfg with
      ⟨-, status, -, hopen⟩ | ⟨d, i, hfree, -, hroom, -, hopen⟩ |
      ⟨d, i, p, c, hfree, hd, -, -, -, -, hper, -, hopen⟩
    · exact ⟨_, _, _, hopen, .inl (.of_eq rfl rfl)⟩
    · exact ⟨_, _, _, hopen, .inr ⟨_, d, i, .of_eq rfl rfl, hfree, hroom, rfl⟩⟩
    · refine ⟨_, _, _, hopen, .inr ⟨_, d, i, sameRecords_openDevice, hfree, ?_, rfl⟩⟩
      rw [(sameRecords_openDevice.record d).2, (hinv.freeDev d hd).2]
      exact hper

/-- What a close does to the lists: nothing, and then its user is the only one, or its user is removed. -/
theorem hbiClose_records (hal : Hal) (h : DriverInv none s) {handle : Nat} {status : HbiStatus}
    (hclose : hbiClose hal s handle = .done (t, status)) :
    (t = s ∧ ∀ i d, s.bInitialized = true → s.validHandle handle = some i →
      (s.instList i).pDev = some d → (s.devList d).numCurInstances = 1) ∨
    ∃ i d, s.bInitialized = true ∧ s.validHandle handle = some i ∧ s.instList i = ⟨some d, true⟩ ∧
      (s.devList d).numCurInstances ≤ lim.maxInstPerDev ∧ SameRecords (s.removed i d) t := by
  cases hinit : s.bInitialized with
  | false =>
      rw [hbiClose, if_pos (by simp [hinit])] at hclose
      cases hclose
      exact .inl ⟨rfl, fun i d hfalse => Bool.noConfusion hfalse⟩
  | true =>
      rw [hbiClose, if_neg (by simp [hinit])] at hclose
      cases hvalid : s.validHandle handle with
      | none =>
          rw [hvalid] at hclose
          cases hclose
          exact .inl ⟨rfl, fun i d _ hnone => absurd hnone.symm (Option.some_ne_none i)⟩
      | some i =>
          rw [hvalid] at hclose
          dsimp only at hclose
          obtain ⟨-, hi⟩ := HbiDrv.validHandle_eq_some.1 hvalid
          have huser : ∀ d, (s.instList i).pDev = some d → s.instList i = ⟨some d, true⟩ := by
            intro d hpDev
            rw [← hpDev, ← hi]
          rcases closeUser_cases hal h hi with
            hdiv | ⟨-, hfailed⟩ | ⟨d, hpDev, hd, -, hleft⟩ | ⟨d, p, hpDev, hd, -, -, hleft⟩
          · rw [hdiv] at hclose
            cases hclose
          · rw [hfailed] at hclose
            cases hclose
            refine .inl ⟨rfl, ?_⟩
            intro i' d _ hi' hpDev
            obtain rfl : i = i' := Option.some.inj hi'
            by_contra hmore
            obtain ⟨u, -, -, -, -, hnum, hleft⟩ := closeUser_leaves hal h hi hpDev fun hlast => hmore hlast.1
            rw [hleft] at hfailed
            have hsame := congrArg (fun r => r.1.numInstances) (Outcome.done.inj hfailed)
            have hterm := (hbiTerm_same hal u).numInstances
            dsimp only at hsame
            omega
          · rw [hleft] at hclose
            obtain rfl := congrArg Prod.fst (Outcome.done.inj hclose)
            exact .inr ⟨i, d, rfl, rfl, huser d hpDev, (h.devUsers d hd).2, hbiTerm_sameRecords hal _⟩
          · rw [hleft] at hclose
            obtain rfl := congrArg Prod.fst (Outcome.done.inj hclose)
            refine .inr ⟨i, d, rfl, rfl, huser d hpDev, (h.devUsers d hd).2, ?_⟩
            exact sameRecords_closeDevice.trans (hbiTerm_sameRecords hal _)

/-! ### Steps -/

/-- What a run keeps as long as every close is of the user with the last entry. -/
structure Orderly (s : HbiDrv lim) : Prop where
  inv : DriverInv none s
  lists : AllListed s

theorem Orderly.open_kept (h : Orderly s) (hal : Hal) (port : HalPort lim) (pHandle : Bool)
    (pDevCfg : Option DevCfg) {status : HbiStatus} {handle : Option Nat}
    (hopen : hbiOpen hal port s pHandle pDevCfg = .done (t, status, handle)) :
    AllListed t ∧ ∀ d k (i : Fin lim.maxInstances), s.instList i = ⟨some d, true⟩ →
      k.val < (s.devList d).numCurInstances → (s.devList d).instances k = i.val →
        (t.devList d).instances k = i.val := by
  have hinit := h.lists.hbiInit hal none
  obtain ⟨t', status', handle', hdone, hcases⟩ := hbiOpen_records hal port h.inv pHandle pDevCfg
  rw [hopen] at hdone
  cases hdone
  have hkept : ∀ d k (i : Fin lim.maxInstances), s.instList i = ⟨some d, true⟩ →
      k.val < (s.devList d).numCurInstances → (s.devList d).instances k = i.val →
        k.val < ((hbiInit hal s none).1.devList d).numCurInstances ∧
          ((hbiInit hal s none).1.devList d).instances k = i.val := by
    intro d k i hi hk hentry
    rcases hbiInit_records hal s none with ⟨-, hsame⟩ | ⟨hnot, -⟩
    · rw [(hsame.record d).1, (hsame.record d).2]
      exact ⟨hk, hentry⟩
    · have hready := (withDevice_eq h.inv (i := i) (by rw [hi])).1
      rw [hnot] at hready
      cases hready
  rcases hcases with hsame | ⟨u, d', i', hsame, hfree, hroom, rfl⟩
  · refine ⟨hinit.congr hsame, ?_⟩
    intro d k i hi hk hentry
    rw [(hsame.record d).1]
    exact (hkept d k i hi hk hentry).2
  · refine ⟨(hinit.congr hsame).added hfree hroom, ?_⟩
    intro d k i hi hk hentry
    obtain ⟨hread, hold⟩ := hkept d k i hi hk hentry
    rw [added_entry d k (by rw [(hsame.record d).2]; exact hread), (hsame.record d).1]
    exact hold

section Close

variable {handle : Nat} {i : Fin lim.maxInstances} {d : Fin lim.maxNumDevs} (hal : Hal) (port : HalPort lim)

theorem Orderly.close_kept (h : Orderly s) : EntriesKept s (.close handle, hal, port) := by
  intro u status i d hclose hvalid hpDev hgone
  obtain ⟨-, hi⟩ := HbiDrv.validHandle_eq_some.1 hvalid
  rcases hbiClose_records hal h.inv hclose with ⟨rfl, -⟩ | ⟨i', d', -, hvalid', huser, -, hsame⟩
  · rw [hi] at hgone
    cases hgone
  · obtain rfl : i = i' := Option.some.inj (hvalid.symm.trans hvalid')
    rw [huser] at hpDev
    obtain rfl : d' = d := Option.some.inj hpDev
    obtain ⟨k, hk, hentry, hmarked⟩ := h.lists.removed_marks huser
    refine ⟨k, hk, hentry, ?_⟩
    rw [(hsame.record d').1]
    exact hmarked

theorem Orderly.closesLast_only (h : Orderly s)
    (hone : ∀ i d, s.bInitialized = true → s.validHandle handle = some i → (s.instList i).pDev = some d →
      (s.devList d).numCurInstances = 1) : ClosesLast s (.close handle, hal, port) := by
  intro i d k hinit hvalid hpDev hk
  obtain ⟨-, hi⟩ := HbiDrv.validHandle_eq_some.1 hvalid
  have hnum := hone i d hinit hvalid hpDev
  obtain ⟨k', hk', hentry⟩ := h.lists.all d i (by rw [← hpDev, ← hi])
  obtain rfl : k' = k := Fin.ext (by omega)
  exact hentry

theorem closesLast_iff (hinit : s.bInitialized = true) (hvalid : s.validHandle handle = some i)
    (huser : s.instList i = ⟨some d, true⟩) :
    ClosesLast s (.close handle, hal, port) ↔ ∀ k : Fin lim.maxInstPerDev,
      k.val + 1 = (s.devList d).numCurInstances → (s.devList d).instances k = i.val := by
  constructor
  · intro hlast k hk
    exact hlast i d k hinit hvalid (by rw [huser]) hk
  · intro hlast i' d' k _ hvalid' hpDev hk
    obtain rfl : i = i' := Option.some.inj (hvalid.symm.trans hvalid')
    rw [huser] at hpDev
    obtain rfl : d = d' := Option.some.inj hpDev
    exact hlast k hk

/-- After a close the lists are exact only if it was of the user with the last entry, and then they are. -/
theorem Orderly.close_lists (h : Orderly s) {status : HbiStatus}
    (hclose : hbiClose hal s handle = .done (t, status)) :
    (ListsUsers t → ClosesLast s (.close handle, hal, port)) ∧
      (ClosesLast s (.close handle, hal, port) → AllListed t) := by
  rcases hbiClose_records hal h.inv hclose with ⟨rfl, hone⟩ | ⟨i, d, hinit, hvalid, huser, hle, hsame⟩
  · exact ⟨fun _ => h.closesLast_only hal port hone, fun _ => h.lists⟩
  · rw [closesLast_iff hal port hinit hvalid huser]
    refine ⟨fun hexact k hk => ?_, fun hlast => ?_⟩
    · exact h.lists.last_of_removed (hexact.congr hsame.symm) hk
    · exact (h.lists.removed (by rw [huser]) hle hlast).congr hsame

end Close

/-- The lists are exact after a step only if it closes the user with the last entry, if any; and then the
run goes on as before, and the entries are kept. -/
theorem Orderly.step {ev : HbiEvent lim} (h : Orderly s) (hstep : (hbiMachine lim).step s ev = some t) :
    (ListsUsers t → ClosesLast s ev) ∧ (ClosesLast s ev → Orderly t) ∧ EntriesKept s ev := by
  have hinv := step_inv h.inv hstep
  obtain ⟨⟨t', status, result⟩, hcall, rfl⟩ := hbiMachine_step hstep
  obtain ⟨call, hal, port⟩ := ev
  cases call with
  | init pCfg =>
      cases hcall
      exact ⟨fun _ => trivial, fun _ => ⟨hinv, h.lists.hbiInit hal pCfg⟩, trivial⟩
  | term =>
      cases hcall
      exact ⟨fun _ => trivial, fun _ => ⟨hinv, h.lists.congr (hbiTerm_sameRecords hal s)⟩, trivial⟩
  | «open» pHandle pDevCfg =>
      refine ⟨fun _ => trivial, fun _ => ⟨hinv, (h.open_kept hal port pHandle pDevCfg hcall).1⟩, ?_⟩
      intro u status' handle' hopen d i hi _
      obtain ⟨k, hk, hentry⟩ := h.lists.all d i hi
      exact ⟨k, (h.open_kept hal port pHandle pDevCfg hopen).2 d k i hi hk hentry⟩
  | close handle =>
      obtain ⟨⟨u, status'⟩, hclose, hresult⟩ := Outcome.of_bind_done hcall
      cases hresult
      obtain ⟨hneeds, hkeeps⟩ := h.close_lists hal port hclose
      exact ⟨hneeds, fun hlast => ⟨hinv, hkeeps hlast⟩, h.close_kept hal port⟩

/-! ### Runs -/

theorem Orderly.start : Orderly (.start : HbiDrv lim) where
  inv := start_inv
  lists := .empty (fun _ => rfl) fun _ => rfl

/-- In every state of a run each device lists exactly its users, and no call overwrites the entry of a user or
misses that of its own, exactly when every close of an open handle is of the user whose entry is the last. -/
theorem user_lists_iff {events : List (HbiEvent lim)} (h : (hbiMachine lim).exec .start events = some s) :
    ((∀ pre suf mid, events = pre ++ suf → (hbiMachine lim).exec .start pre = some mid → ListsUsers mid) ∧
      (∀ pre ev suf mid, events = pre ++ ev :: suf → (hbiMachine lim).exec .start pre = some mid →
        EntriesKept mid ev)) ↔
      (hbiMachine lim).Runs ClosesLast .start events s := by
  have hkeep : ∀ t ev u, Orderly t → (hbiMachine lim).step t ev = some u →
      (ListsUsers u → ClosesLast t ev) ∧ (ClosesLast t ev → Orderly u) := by
    intro t ev u horderly hstep
    obtain ⟨hneeds, hkeeps, -⟩ := horderly.step hstep
    exact ⟨hneeds, hkeeps⟩
  have hruns := Machine.runs_iff_of_keeps .start (fun _ horderly => horderly.lists.listsUsers) hkeep h
  constructor
  · intro hboth
    exact hruns.1 hboth.1
  · intro hlast
    refine ⟨hruns.2 hlast, ?_⟩
    intro pre ev suf mid heq hmid
    subst heq
    rw [List.append_cons] at hlast
    obtain ⟨u, hbefore⟩ := hlast.before
    obtain ⟨mid', hpre, -, hstep⟩ := hbefore.last
    have hsame := hpre.exec_eq
    rw [hmid] at hsame
    cases hsame
    have horderly : Orderly mid := hpre.invariant .start fun t ev u ht hok hstep => (ht.step hstep).2.1 hok
    exact (horderly.step hstep).2.2

def leaveInTurn : List (HbiEvent twoByTwo) :=
  [working (.open true (some (deviceCfg 7))), working (.open true (some (deviceCfg 7))),
    working (.close 1), working (.open true (some (deviceCfg 7)))]

theorem user_lists_iff_leaveInTurn : ∃ s, (hbiMachine twoByTwo).exec .start leaveInTurn = some s ∧
    ListsUsers s := by
  have hruns : (hbiMachine twoByTwo).Runs ClosesLast .start leaveInTurn _ :=
    (((Machine.Runs.nil.snoc trivial rfl).snoc trivial rfl).snoc (by
      intro i d k
      revert i d k
      decide) rfl).snoc trivial rfl
  have hexec := hruns.exec_eq
  exact ⟨_, hexec, ((user_lists_iff hexec).2 hruns).1 leaveInTurn [] _ (List.append_nil _).symm hexec⟩

/-- Two users of a device, the first leaves and another comes: its entry is written over that of the second. -/
def firstLeaves : List (HbiEvent twoByTwo) :=
  [working (.open true (some (deviceCfg 7))), working (.open true (some (deviceCfg 7))), working (.close 0),
    working (.open true (some (deviceCfg 7)))]

theorem entry_overwritten : ∃ s t, (hbiMachine twoByTwo).exec .start (firstLeaves.take 3) = some s ∧
    (hbiMachine twoByTwo).exec .start firstLeaves = some t ∧ ¬ ListsUsers s ∧
    (s.instList ⟨1, by decide⟩ = ⟨some ⟨0, by decide⟩, true⟩ ∧
      (s.devList ⟨0, by decide⟩).instances ⟨1, by decide⟩ = 1) ∧
    t.instList ⟨1, by decide⟩ = ⟨some ⟨0, by decide⟩, true⟩ ∧
      ∀ k, (t.devList ⟨0, by decide⟩).instances k ≠ 1 := by
  refine ⟨_, _, rfl, rfl, ?_, ⟨rfl, rfl⟩, rfl, by decide⟩
  intro hlists
  obtain ⟨k, hk, hentry, -⟩ := hlists.complete ⟨0, by decide⟩ ⟨1, by decide⟩ rfl
  revert k
  decide

end VprocSdk
