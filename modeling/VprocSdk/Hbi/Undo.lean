import VprocSdk.Hbi.Calls

/-!
# An open taken back

`HBI_close` of a handle that `HBI_open` has just given leaves the tables as they were. A table is what its
entries in use say. The next open overwrites what a free slot still holds, but for its port lock, which it
takes over when it is given none; what a device records behind its last user is overwritten before it is
read.

A device records its users in an array that `HBI_close` does not compact. `Recorded` says what the array
is good for all the same: what it records is a user of the device, and no user twice.
-/

namespace VprocSdk

open Lib

variable {lim : HbiLimits} {s t u : HbiDrv lim} (hal : Hal)

/-! ### Tables that agree -/

/-- Two states of a device slot: in use or free alike, and in use with the same users on the same port. -/
structure SameDev (dev dev' : VprocDev lim) : Prop where
  inuse : dev'.inuse = dev.inuse
  fields : dev.inuse = true → dev' = { dev with instances := dev'.instances }
  users : dev.inuse = true → ∀ k, k.val < dev.numCurInstances → dev'.instances k = dev.instances k

/-- The user table and the device table of two states agree. -/
structure SameTables (s t : HbiDrv lim) : Prop where
  inuse : ∀ i, (t.instList i).inuse = (s.instList i).inuse
  insts : ∀ i, (s.instList i).inuse = true → t.instList i = s.instList i
  devs : ∀ d, SameDev (s.devList d) (t.devList d)
  numInstances : t.numInstances = s.numInstances
  numOpenedDev : t.numOpenedDev = s.numOpenedDev

theorem SameDev.refl (dev : VprocDev lim) : SameDev dev dev := ⟨rfl, fun _ => rfl, fun _ _ _ => rfl⟩

theorem SameDev.trans {dev dev' dev'' : VprocDev lim} (h : SameDev dev dev') (h' : SameDev dev' dev'') :
    SameDev dev dev'' := by
  refine ⟨h'.inuse.trans h.inuse, fun hinuse => ?_, fun hinuse k hk => ?_⟩
  · have heq := h.fields hinuse
    have heq' := h'.fields (h.inuse.trans hinuse)
    rw [heq', heq]
  · have hcount : dev'.numCurInstances = dev.numCurInstances := by rw [h.fields hinuse]
    rw [h'.users (h.inuse.trans hinuse) k (by omega), h.users hinuse k hk]

theorem SameTables.trans (h : SameTables s t) (h' : SameTables t u) : SameTables s u where
  inuse i := (h'.inuse i).trans (h.inuse i)
  insts i hi := (h'.insts i ((h.inuse i).trans hi)).trans (h.insts i hi)
  devs d := (h.devs d).trans (h'.devs d)
  numInstances := h'.numInstances.trans h.numInstances
  numOpenedDev := h'.numOpenedDev.trans h.numOpenedDev

theorem SameTables.of_eq (hinst : t.instList = s.instList) (hdev : t.devList = s.devList)
    (hnum : t.numInstances = s.numInstances) (hopened : t.numOpenedDev = s.numOpenedDev) :
    SameTables s t where
  inuse i := by rw [hinst]
  insts i _ := by rw [hinst]
  devs d := by
    rw [hdev]
    exact .refl _
  numInstances := hnum
  numOpenedDev := hopened

theorem hbiInit_same (h : DriverInv none s) (pCfg : Option Nat) :
    SameTables s (hbiInit hal s pCfg).1 := by
  unfold hbiInit
  by_cases hinit : s.bInitialized = true
  · rw [if_pos hinit]
    exact .of_eq rfl rfl rfl rfl
  · obtain ⟨hnum, hopened⟩ := h.idle (by simpa using hinit)
    have hinst : ∀ i, (s.instList i).inuse = false := by
      intro i
      rw [h.numInstances] at hnum
      simpa using count_eq_zero.1 hnum i
    have hdev : ∀ d, (s.devList d).inuse = false := by
      intro d
      rw [h.numOpenedDev] at hopened
      simpa using count_eq_zero.1 hopened d
    have hclear : ∀ t : HbiDrv lim, t.instList = (fun _ => ⟨none, false⟩) →
        t.devList = (fun _ => .cleared) → t.numInstances = 0 → t.numOpenedDev = 0 → SameTables s t := by
      intro t hti htd htn hto
      refine ⟨fun i => ?_, fun i hi => ?_, fun d => ⟨?_, fun hd => ?_, fun hd => ?_⟩, ?_, ?_⟩
      · rw [hti, hinst i]
      · simp [hinst i] at hi
      · rw [htd, hdev d]
        rfl
      · simp [hdev d] at hd
      · simp [hdev d] at hd
      · rw [htn, hnum]
      · rw [hto, hopened]
    rw [if_neg hinit]
    dsimp only
    split
    · exact hclear _ rfl rfl rfl rfl
    · exact hclear _ rfl rfl rfl rfl

theorem hbiTerm_same (s : HbiDrv lim) : SameTables s (hbiTerm hal s).1 := by
  rcases hbiTerm_cases hal s with
    ⟨-, heq⟩ | ⟨-, ⟨-, heq⟩ | ⟨-, -, heq⟩ | ⟨-, -, ssl, -, heq | ⟨-, initCount, heq⟩⟩⟩
  all_goals
    rw [heq]
    exact .of_eq rfl rfl rfl rfl

/-! ### What a device records of its users -/

structure Recorded (s : HbiDrv lim) : Prop where
  live : ∀ d k (i : Fin lim.maxInstances), k.val < (s.devList d).numCurInstances →
    (s.devList d).instances k = i.val → s.instList i = ⟨some d, true⟩
  once : ∀ d k k' (i : Fin lim.maxInstances), k.val < (s.devList d).numCurInstances →
    k'.val < (s.devList d).numCurInstances → (s.devList d).instances k = i.val →
    (s.devList d).instances k' = i.val → k = k'

theorem Recorded.congr (h : Recorded s) (hinst : t.instList = s.instList)
    (hrecord : ∀ d, (t.devList d).instances = (s.devList d).instances ∧
      (t.devList d).numCurInstances = (s.devList d).numCurInstances) : Recorded t := by
  constructor
  · intro d k i
    rw [hinst, (hrecord d).1, (hrecord d).2]
    exact h.live d k i
  · intro d k k' i
    rw [(hrecord d).1, (hrecord d).2]
    exact h.once d k k' i

theorem Recorded.empty (h : ∀ d, (s.devList d).numCurInstances = 0) : Recorded s := by
  constructor
  · intro d k i hk
    rw [h d] at hk
    omega
  · intro d k k' i hk
    rw [h d] at hk
    omega

section User

variable {d : Fin lim.maxNumDevs} {i : Fin lim.maxInstances}

theorem Recorded.not_recorded (h : Recorded s) (hfree : (s.instList i).inuse = false)
    {d : Fin lim.maxNumDevs} {k : Fin lim.maxInstPerDev} (hk : k.val < (s.devList d).numCurInstances) :
    (s.devList d).instances k ≠ i.val := by
  intro heq
  rw [h.live d k i hk heq] at hfree
  cases hfree

theorem recordUser_last {dev : VprocDev lim} (hroom : dev.numCurInstances < lim.maxInstPerDev) (n : Nat) :
    recordUser dev n ⟨dev.numCurInstances, hroom⟩ = n := by
  simp [recordUser, hroom]

theorem recordUser_before {dev : VprocDev lim} {k : Fin lim.maxInstPerDev}
    (hk : k.val < dev.numCurInstances) (n : Nat) : recordUser dev n k = dev.instances k := by
  unfold recordUser
  split
  · rename_i hroom
    apply Function.update_of_ne
    intro heq
    subst heq
    exact Nat.lt_irrefl _ hk
  · rfl

theorem HbiDrv.added_instances (k : Fin lim.maxInstPerDev) (d' : Fin lim.maxNumDevs)
    (hroom : (s.devList d).numCurInstances < lim.maxInstPerDev)
    (hk : k.val < ((s.added d i (recordUser (s.devList d) i.val)).devList d').numCurInstances) :
    ((s.added d i (recordUser (s.devList d) i.val)).devList d').instances k = (s.devList d').instances k ∧
        k.val < (s.devList d').numCurInstances ∨
      d' = d ∧ k = ⟨(s.devList d).numCurInstances, hroom⟩ ∧
        ((s.added d i (recordUser (s.devList d) i.val)).devList d').instances k = i.val := by
  by_cases hd : d' = d
  · subst hd
    simp only [HbiDrv.added, Function.update_self] at hk ⊢
    by_cases hbefore : k.val < (s.devList d').numCurInstances
    · exact .inl ⟨recordUser_before hbefore _, hbefore⟩
    · obtain rfl : k = ⟨(s.devList d').numCurInstances, hroom⟩ := Fin.ext (by dsimp only; omega)
      exact .inr ⟨trivial, rfl, recordUser_last hroom _⟩
  · simp only [HbiDrv.added, Function.update_of_ne hd] at hk ⊢
    exact .inl ⟨trivial, hk⟩

theorem Recorded.added (h : Recorded s) (hfree : (s.instList i).inuse = false)
    (hroom : (s.devList d).numCurInstances < lim.maxInstPerDev) :
    Recorded (s.added d i (recordUser (s.devList d) i.val)) := by
  constructor
  · intro d' k j hk hj
    rcases HbiDrv.added_instances k d' hroom hk with ⟨hold, hbefore⟩ | ⟨rfl, -, hnew⟩
    · have hlive := h.live d' k j hbefore (hold.symm.trans hj)
      have hji : j ≠ i := by
        intro heq
        subst heq
        rw [hlive] at hfree
        cases hfree
      simpa [HbiDrv.added, hji] using hlive
    · obtain rfl : j = i := Fin.ext (hj.symm.trans hnew)
      simp [HbiDrv.added]
  · intro d' k k' j hk hk' hj hj'
    rcases HbiDrv.added_instances k d' hroom hk with ⟨hold, hbefore⟩ | ⟨rfl, hlast, hnew⟩
    · rcases HbiDrv.added_instances k' d' hroom hk' with ⟨hold', hbefore'⟩ | ⟨-, -, hnew'⟩
      · exact h.once d' k k' j hbefore hbefore' (hold.symm.trans hj) (hold'.symm.trans hj')
      · have hji : j.val = i.val := hj'.symm.trans hnew'
        exact absurd ((hold.symm.trans hj).trans hji) (h.not_recorded hfree hbefore)
    · rcases HbiDrv.added_instances k' d' hroom hk' with ⟨hold', hbefore'⟩ | ⟨-, hlast', -⟩
      · have hji : j.val = i.val := hj.symm.trans hnew
        exact absurd ((hold'.symm.trans hj').trans hji) (h.not_recorded hfree hbefore')
      · exact hlast.trans hlast'.symm

/-! ### Marking a user invalid -/

theorem hbiInstInvalidId_ne (j : Fin lim.maxInstances) : hbiInstInvalidId ≠ j.val := by
  have hj := j.isLt
  have hproduct := lim.product_lt
  unfold HbiLimits.maxInstances at hj
  unfold hbiInstInvalidId
  omega

theorem markInvalid_instances (dev : VprocDev lim) (n : Nat) (k : Fin lim.maxInstPerDev) :
    (markInvalid dev n).instances k = dev.instances k ∨
      dev.instances k = n ∧ (markInvalid dev n).instances k = hbiInstInvalidId := by
  unfold markInvalid
  split
  · exact .inl rfl
  · rename_i k' hfirst
    have htest := firstSlot_some hfirst
    simp only [Bool.and_eq_true, decide_eq_true_eq] at htest
    by_cases hk : k = k'
    · subst hk
      exact .inr ⟨htest.2, by simp⟩
    · exact .inl (by simp [hk])

theorem markInvalid_marks {dev : VprocDev lim} {n : Nat} {k : Fin lim.maxInstPerDev}
    (hk : k.val < dev.numCurInstances) (hn : dev.instances k = n)
    (honly : ∀ k', k'.val < dev.numCurInstances → dev.instances k' = n → k' = k) :
    (markInvalid dev n).instances k = hbiInstInvalidId := by
  obtain ⟨k', hfirst⟩ : ∃ k', firstSlot (fun k : Fin lim.maxInstPerDev =>
      decide (k.val < dev.numCurInstances) && decide (dev.instances k = n)) = some k' :=
    firstSlot_isSome (i := k) (by simp [hk, hn])
  have htest := firstSlot_some hfirst
  simp only [Bool.and_eq_true, decide_eq_true_eq] at htest
  obtain rfl := honly k' htest.1 htest.2
  simp [markInvalid, hfirst]

theorem HbiDrv.removed_record (d' : Fin lim.maxNumDevs) :
    ((s.removed i d).devList d').instances
      = if d' = d then (markInvalid (s.devList d) i.val).instances else (s.devList d').instances := by
  by_cases hd : d' = d
  · simp [HbiDrv.removed, hd]
  · simp [HbiDrv.removed, hd]

/-- Once a user is removed nothing records it, so its slot may be given to another device. -/
theorem Recorded.removed (h : Recorded s) (hpDev : (s.instList i).pDev = some d) :
    Recorded (s.removed i d) := by
  have hold : ∀ d' k (j : Fin lim.maxInstances),
      k.val < ((s.removed i d).devList d').numCurInstances →
      ((s.removed i d).devList d').instances k = j.val →
      k.val < (s.devList d').numCurInstances ∧ (s.devList d').instances k = j.val ∧ j ≠ i := by
    intro d' k j hk hj
    have hbefore : k.val < (s.devList d').numCurInstances := by
      rw [HbiDrv.removed_numCur] at hk
      omega
    rw [HbiDrv.removed_record] at hj
    by_cases hd : d' = d
    · subst hd
      rw [if_pos rfl] at hj
      rcases markInvalid_instances (s.devList d') i.val k with hsame | ⟨-, hmark⟩
      · have hvalue := hsame.symm.trans hj
        refine ⟨hbefore, hvalue, ?_⟩
        intro heq
        subst heq
        have hmarked := markInvalid_marks hbefore hvalue
          fun k' hk' hj' => h.once d' k' k j hk' hbefore hj' hvalue
        exact hbiInstInvalidId_ne j (hmarked.symm.trans hj)
      · exact absurd (hmark.symm.trans hj) (hbiInstInvalidId_ne j)
    · rw [if_neg hd] at hj
      refine ⟨hbefore, hj, ?_⟩
      intro heq
      subst heq
      have hlive := h.live d' k j hbefore hj
      rw [hlive] at hpDev
      exact hd (Option.some.inj hpDev)
  constructor
  · intro d' k j hk hj
    obtain ⟨hbefore, hvalue, hji⟩ := hold d' k j hk hj
    simpa [HbiDrv.removed, hji] using h.live d' k j hbefore hvalue
  · intro d' k k' j hk hk' hj hj'
    obtain ⟨hbefore, hvalue, -⟩ := hold d' k j hk hj
    obtain ⟨hbefore', hvalue', -⟩ := hold d' k' j hk' hj'
    exact h.once d' k k' j hbefore hbefore' hvalue hvalue'

/-! ### Opening and closing again -/

theorem SameTables.undo_added (hrec : Recorded s) (hfree : (s.instList i).inuse = false) :
    SameTables s ((s.added d i (recordUser (s.devList d) i.val)).removed i d) := by
  refine ⟨fun j => ?_, fun j hj => ?_, fun d' => ?_, Nat.add_sub_cancel _ _, rfl⟩
  · by_cases hji : j = i
    · simp [HbiDrv.removed, hji, hfree]
    · simp [HbiDrv.removed, HbiDrv.added, hji]
  · have hji : j ≠ i := by
      intro heq
      subst heq
      rw [hfree] at hj
      cases hj
    simp [HbiDrv.removed, HbiDrv.added, hji]
  · by_cases hd : d' = d
    · subst hd
      obtain ⟨instances, hmark⟩ := markInvalid_eq
        ((s.added d' i (recordUser (s.devList d') i.val)).devList d') i.val
      refine ⟨?_, fun _ => ?_, fun _ k hk => ?_⟩
      · simp only [HbiDrv.removed, Function.update_self, hmark]
        simp [HbiDrv.added]
      · simp only [HbiDrv.removed, Function.update_self, hmark]
        simp [HbiDrv.added]
      · have hkept : ((s.added d' i (recordUser (s.devList d') i.val)).devList d').instances k
            = (s.devList d').instances k := by
          simp [HbiDrv.added, recordUser_before hk]
        rw [HbiDrv.removed_record, if_pos rfl]
        rcases markInvalid_instances ((s.added d' i (recordUser (s.devList d') i.val)).devList d')
          i.val k with hsame | ⟨hvalue, -⟩
        · exact hsame.trans hkept
        · exact absurd (hkept.symm.trans hvalue) (hrec.not_recorded hfree hk)
    · have hother : ((s.added d i (recordUser (s.devList d) i.val)).removed i d).devList d'
          = s.devList d' := by
        simp [HbiDrv.removed, HbiDrv.added, hd]
      rw [hother]
      exact .refl _

theorem SameTables.undo_opened {cfg : DevCfg} {ssl ssl' : SslDrv lim} {handle : Nat}
    {instances : Fin lim.maxInstPerDev → Nat} (hfree : (s.instList i).inuse = false)
    (hd : (s.devList d).inuse = false) (hopened : s.numOpenedDev < 256) :
    SameTables s (closeDevice (((openDevice s d cfg ssl handle).added d i instances).removed i d) d ssl'
      (((openDevice s d cfg ssl handle).added d i instances).numOpenedDev - 1)) := by
  refine ⟨fun j => ?_, fun j hj => ?_, fun d' => ?_, Nat.add_sub_cancel _ _, ?_⟩
  · by_cases hji : j = i
    · simp [closeDevice, HbiDrv.removed, hji, hfree]
    · simp [closeDevice, HbiDrv.removed, HbiDrv.added, openDevice, hji]
  · have hji : j ≠ i := by
      intro heq
      subst heq
      rw [hfree] at hj
      cases hj
    simp [closeDevice, HbiDrv.removed, HbiDrv.added, openDevice, hji]
  · by_cases hdd : d' = d
    · subst hdd
      refine ⟨?_, fun hinuse => ?_, fun hinuse => ?_⟩
      · simp [closeDevice, hd]
      · rw [hd] at hinuse
        cases hinuse
      · rw [hd] at hinuse
        cases hinuse
    · have hother : (closeDevice (((openDevice s d cfg ssl handle).added d i instances).removed i d) d
          ssl' (((openDevice s d cfg ssl handle).added d i instances).numOpenedDev - 1)).devList d'
          = s.devList d' := by
        simp [closeDevice, HbiDrv.removed, HbiDrv.added, openDevice, hdd]
      rw [hother]
      exact .refl _
  · show incr s.numOpenedDev - 1 = s.numOpenedDev
    rw [incr_of_lt hopened]
    exact Nat.add_sub_cancel _ _

end User

/-! ### The calls -/

/-- What every call keeps. -/
structure Tidy (s : HbiDrv lim) : Prop where
  inv : DriverInv none s
  recorded : Recorded s

theorem hbiInit_tidy (h : Tidy s) (pCfg : Option Nat) : Tidy (hbiInit hal s pCfg).1 := by
  refine ⟨(hbiInit_inv hal h.inv pCfg).1, ?_⟩
  unfold hbiInit
  by_cases hinit : s.bInitialized = true
  · rw [if_pos hinit]
    exact h.recorded.congr rfl fun _ => ⟨rfl, rfl⟩
  · rw [if_neg hinit]
    dsimp only
    split
    · exact .empty fun _ => rfl
    · exact .empty fun _ => rfl

theorem hbiTerm_tidy (h : Tidy s) : Tidy (hbiTerm hal s).1 := by
  refine ⟨hbiTerm_inv hal h.inv, ?_⟩
  rcases hbiTerm_cases hal s with
    ⟨-, heq⟩ | ⟨-, ⟨-, heq⟩ | ⟨-, -, heq⟩ | ⟨-, -, ssl, -, heq | ⟨-, initCount, heq⟩⟩⟩
  all_goals
    rw [heq]
    exact h.recorded.congr rfl fun _ => ⟨rfl, rfl⟩

theorem hbiTerm_again (hinit : s.bInitialized = true) (hcount : 1 < s.initCount) :
    hbiTerm hal s = ({ s with initCount := s.initCount - 1 }, .success) := by
  simp [hbiTerm, hinit, hcount]

/-- `HBI_term` of an initialised driver succeeds when it has a count to give back, or nobody to wait for
and a hardware layer that terminates. -/
theorem hbiTerm_succeeds_iff (h : DriverInv none s) (hinit : s.bInitialized = true)
    (hssl : s.ssl.initialised = true) :
    (hbiTerm hal s).2 = .success ↔ 1 < s.initCount ∨ s.numInstances = 0 ∧ hal.termOk = true := by
  by_cases hcount : 1 < s.initCount
  · rw [hbiTerm_again hal hinit hcount]
    exact iff_of_true rfl (.inl hcount)
  · unfold hbiTerm
    rw [if_neg (by simp [hinit]), if_neg (by omega)]
    by_cases hnum : s.numInstances = 0
    · have hopened : s.numOpenedDev = 0 := by
        by_contra hne
        obtain ⟨d, hd⟩ : ∃ d, (s.devList d).inuse = true := by
          by_contra hnone
          push Not at hnone
          exact hne (h.numOpenedDev.trans (count_eq_zero.2 hnone))
        have huser := h.hasUser d hd (Option.some_ne_none d).symm
        have hnone : s.users d = 0 := by
          apply count_eq_zero.2
          intro i hboth
          obtain ⟨hi, -⟩ := hboth
          exact count_eq_zero.1 (h.numInstances.symm.trans hnum) i hi
        have husers := (h.devUsers d hd).1
        omega
      have hports : ((List.finRange lim.maxNumDevs).any fun i => (s.ssl.dev i).inuse) = false := by
        apply List.any_eq_false.2
        intro p _
        simp [h.no_port hopened p]
      rw [if_neg (by omega)]
      cases hterm : hal.termOk with
      | true =>
          refine iff_of_true ?_ (.inr ⟨hnum, rfl⟩)
          simp [sslTerm, hssl, hports, hterm]
      | false =>
          refine iff_of_false ?_ (by simp [hcount])
          simp [sslTerm, hssl, hports, hterm]
    · rw [if_pos (.inl hnum)]
      refine iff_of_false (fun hsuccess => HbiStatus.noConfusion hsuccess) ?_
      intro hcases
      rcases hcases with hmore | ⟨hzero, -⟩
      · exact hcount hmore
      · exact hnum hzero

/-- `HBI_close` of a user, with a port that closes: it does not return, or it takes the user out of the
tables and goes on with `HBI_term`. -/
theorem hbiClose_user (h : Tidy s) {i : Fin lim.maxInstances} (hi : (s.instList i).inuse = true)
    (hclose : hal.closeOk = true) :
    hbiClose hal s i.val = .diverges ∨
    ∃ u d, (s.instList i).pDev = some d ∧ Tidy u ∧
      u.instList = Function.update s.instList i ⟨none, false⟩ ∧ u.numInstances + 1 = s.numInstances ∧
      u.bInitialized = true ∧ u.initCount = s.initCount ∧ u.ssl.initialised = true ∧
      hbiClose hal s i.val = .done (hbiTerm hal u) ∧
      (1 < (s.devList d).numCurInstances ∧ u = s.removed i d ∨
        (s.devList d).numCurInstances = 1 ∧ ∃ p,
          u = closeDevice (s.removed i d) d (s.ssl.closed p) (s.numOpenedDev - 1)) := by
  have hpos : 0 < s.numInstances := by
    rw [h.inv.numInstances]
    exact count_pos (p := fun inst : VprocInst lim => inst.inuse = true) hi
  obtain ⟨hinit, -⟩ := withDevice_eq h.inv hi
  have hvalid : s.validHandle i.val = some i := HbiDrv.validHandle_eq_some.2 ⟨rfl, hi⟩
  obtain ⟨dev, hdev, hinuse⟩ := h.inv.instDev i hi
  have hssl : s.ssl.initialised = true := by
    obtain ⟨p, c, -, hport, -⟩ := h.inv.devPort dev hinuse
    exact h.inv.sslOpen p (by rw [hport])
  have hcall : hbiClose hal s i.val = closeUser hal s i := by
    simp [hbiClose, hinit, hvalid]
  rw [hcall]
  rcases closeUser_cases hal h.inv hi with
    heq | ⟨hfail, -⟩ | ⟨d, hpDev, hd, hmore, heq⟩ | ⟨d, p, hpDev, hd, hlast, hport, heq⟩
  · exact .inl heq
  · rw [hclose] at hfail
    cases hfail
  · have hsettled := (h.inv.removed hi hpDev).settled fun _ => by
      rw [HbiDrv.removed_numCur, if_pos rfl]
      omega
    exact .inr ⟨_, d, hpDev, ⟨hsettled, h.recorded.removed hpDev⟩, rfl, Nat.sub_add_cancel hpos, hinit,
      rfl, hssl, heq, .inl ⟨hmore, rfl⟩⟩
  · have hclosed := (h.inv.removed hi hpDev).closed
      (by rw [(HbiDrv.removed_devList d).1]; exact hd)
      (by rw [HbiDrv.removed_numCur, if_pos rfl, hlast])
      (by rw [(HbiDrv.removed_devList d).2.1]; exact hport)
    have hrecord : Recorded (closeDevice (s.removed i d) d (s.ssl.closed p) (s.numOpenedDev - 1)) := by
      refine (h.recorded.removed hpDev).congr ?_ ?_
      · rfl
      intro d'
      by_cases hdd : d' = d
      · simp [closeDevice, hdd]
      · simp [closeDevice, hdd]
    exact .inr ⟨_, d, hpDev, ⟨hclosed, hrecord⟩, rfl, Nat.sub_add_cancel hpos, hinit, rfl, hssl, heq,
      .inr ⟨hlast, p, rfl⟩⟩

/-- After `HBI_open` has given a handle: its user is the one more, and closing it again leaves the tables
as they were. -/
structure Grants (s t : HbiDrv lim) (i : Fin lim.maxInstances) : Prop where
  tidy : Tidy t
  fresh : (s.instList i).inuse = false
  inuse : ∀ j, (t.instList j).inuse = true ↔ j = i ∨ (s.instList j).inuse = true
  undo : ∀ hal u status, hal.closeOk = true → hbiClose hal t i.val = .done (u, status) →
    SameTables s u

section Grants

variable {hal} {d : Fin lim.maxNumDevs} {i : Fin lim.maxInstances}

theorem Grants.added (h : Tidy t) (hsame : SameTables s t) (hready : t.bInitialized = true)
    (hfree : (t.instList i).inuse = false) (hd : (t.devList d).inuse = true)
    (hroom : (t.devList d).numCurInstances < lim.maxInstPerDev) :
    Grants s (t.added d i (recordUser (t.devList d) i.val)) i := by
  have hpending : DriverInv (some d) t :=
    { h.inv with hasUser := fun d' hd' _ => h.inv.hasUser d' hd' (Option.some_ne_none d').symm }
  have htidy : Tidy (t.added d i (recordUser (t.devList d) i.val)) :=
    ⟨hpending.added hd hroom hfree hready, h.recorded.added hfree hroom⟩
  refine ⟨htidy, (hsame.inuse i).symm.trans hfree, fun j => ?_, ?_⟩
  · rw [← hsame.inuse j]
    by_cases hji : j = i
    · simp [HbiDrv.added, hji]
    · simp [HbiDrv.added, hji]
  · intro hal u status hclose hdone
    have hi : ((t.added d i (recordUser (t.devList d) i.val)).instList i).inuse = true := by
      simp [HbiDrv.added]
    have hpDev : ((t.added d i (recordUser (t.devList d) i.val)).instList i).pDev = some d := by
      simp [HbiDrv.added]
    have huser : 1 ≤ (t.devList d).numCurInstances := h.inv.hasUser d hd (Option.some_ne_none d).symm
    have hmore : 1 < ((t.added d i (recordUser (t.devList d) i.val)).devList d).numCurInstances := by
      simp only [HbiDrv.added, Function.update_self]
      omega
    rcases hbiClose_user hal htidy hi hclose with
      hdiv | ⟨v, d', hd', -, -, -, -, -, -, hterm, ⟨-, rfl⟩ | ⟨hlast, -⟩⟩
    · rw [hdiv] at hdone
      cases hdone
    · obtain rfl := Option.some.inj (hpDev.symm.trans hd')
      rw [hterm, Outcome.done.injEq] at hdone
      have hu : _ = u := congrArg Prod.fst hdone
      rw [← hu]
      exact (hsame.trans (.undo_added h.recorded hfree)).trans (hbiTerm_same hal _)
    · obtain rfl := Option.some.inj (hpDev.symm.trans hd')
      omega

theorem Grants.opened {p : Fin lim.maxNumDevs} {cfg : DevCfg} {c : SslDevCfg} (h : Tidy t)
    (hsame : SameTables s t) (hready : t.bInitialized = true) (hfree : (t.instList i).inuse = false)
    (hd : (t.devList d).inuse = false) (hp : (t.ssl.dev p).inuse = false)
    (hssl : t.ssl.initialised = true) (hid : c.deviceId = cfg.deviceId) (hopened : t.numOpenedDev < 256)
    (hper : 0 < lim.maxInstPerDev)
    (hnew : ∀ d', (t.devList d').inuse = true → (t.devList d').devCfg.deviceId ≠ cfg.deviceId) :
    Grants s ((openDevice t d cfg (t.ssl.opened p c) (portHandleOf p)).added d i
      (recordUser ((openDevice t d cfg (t.ssl.opened p c) (portHandleOf p)).devList d) i.val)) i := by
  have hnone : ((openDevice t d cfg (t.ssl.opened p c) (portHandleOf p)).devList d).numCurInstances
      = 0 := by
    simpa [openDevice] using (h.inv.freeDev d hd).2
  have hroom : ((openDevice t d cfg (t.ssl.opened p c) (portHandleOf p)).devList d).numCurInstances
      < lim.maxInstPerDev := by omega
  have hfresh : ((openDevice t d cfg (t.ssl.opened p c) (portHandleOf p)).instList i).inuse = false :=
    hfree
  have hrecord : Recorded (openDevice t d cfg (t.ssl.opened p c) (portHandleOf p)) := by
    refine h.recorded.congr ?_ ?_
    · rfl
    intro d'
    by_cases hdd : d' = d
    · simp [openDevice, hdd]
    · simp [openDevice, hdd]
  have hdriver := h.inv.opened hd hp hssl hready hopened hid hnew
  have htidy : Tidy ((openDevice t d cfg (t.ssl.opened p c) (portHandleOf p)).added d i
      (recordUser ((openDevice t d cfg (t.ssl.opened p c) (portHandleOf p)).devList d) i.val)) :=
    ⟨hdriver.added (by simp [openDevice]) hroom hfresh hready, hrecord.added hfresh hroom⟩
  refine ⟨htidy, (hsame.inuse i).symm.trans hfree, fun j => ?_, ?_⟩
  · rw [← hsame.inuse j]
    by_cases hji : j = i
    · simp [HbiDrv.added, hji]
    · simp [HbiDrv.added, openDevice, hji]
  · intro hal u status hclose hdone
    generalize recordUser ((openDevice t d cfg (t.ssl.opened p c) (portHandleOf p)).devList d) i.val
      = instances at htidy hdone
    have hi : (((openDevice t d cfg (t.ssl.opened p c) (portHandleOf p)).added d i
        instances).instList i).inuse = true := by
      simp [HbiDrv.added]
    have hpDev : (((openDevice t d cfg (t.ssl.opened p c) (portHandleOf p)).added d i
        instances).instList i).pDev = some d := by
      simp [HbiDrv.added]
    have hone : (((openDevice t d cfg (t.ssl.opened p c) (portHandleOf p)).added d i
        instances).devList d).numCurInstances = 1 := by
      simp only [HbiDrv.added, Function.update_self]
      omega
    rcases hbiClose_user hal htidy hi hclose with
      hdiv | ⟨v, d', hd', -, -, -, -, -, -, hterm, ⟨hmore, -⟩ | ⟨-, q, rfl⟩⟩
    · rw [hdiv] at hdone
      cases hdone
    · obtain rfl := Option.some.inj (hpDev.symm.trans hd')
      omega
    · obtain rfl := Option.some.inj (hpDev.symm.trans hd')
      rw [hterm, Outcome.done.injEq] at hdone
      have hu : _ = u := congrArg Prod.fst hdone
      rw [← hu]
      exact (hsame.trans (.undo_opened hfree hd hopened)).trans (hbiTerm_same hal _)

end Grants

/-- `HBI_open` fails with the driver as `HBI_init` left it, or it grants a handle. -/
theorem hbiOpen_grants (h : Tidy s) (port : HalPort lim) (cfg : DevCfg) :
    (∃ status, status ≠ .success ∧
      hbiOpen hal port s true (some cfg) = .done ((hbiInit hal s none).1, status, none)) ∨
    ∃ t i, hbiOpen hal port s true (some cfg) = .done (t, .success, some i.val) ∧ Grants s t i ∧
      t.bInitialized = (hbiInit hal s none).1.bInitialized ∧
      t.initCount = (hbiInit hal s none).1.initCount := by
  have hinit := hbiInit_tidy hal h none
  have hsame := hbiInit_same hal h.inv none
  rcases hbiOpen_cases hal port s true (some cfg) with hfail | ⟨cfg', hcfg, hsuccess, hlimit, heq⟩
  · exact .inl hfail
  cases hcfg
  have hready := (hbiInit_inv hal h.inv none).2 hsuccess
  have hdevs := lim.maxNumDevs_lt (Nat.zero_lt_of_lt hlimit)
  rw [heq]
  rcases openUser_cases hal port hinit.inv hlimit cfg with
    ⟨-, hfail⟩ | ⟨d, i, hfree, hd, hroom, -, hopen⟩ |
    ⟨d, i, p, c, hfree, hd, hp, ⟨hssl, -⟩, hid, hopened, hper, hnew, hopen⟩
  · exact .inl hfail
  · exact .inr ⟨_, i, hopen, .added hinit hsame hready hfree hd hroom, rfl, rfl⟩
  · exact .inr ⟨_, i, hopen,
      .opened hinit hsame hready hfree hd hp hssl hid (hopened.trans hdevs) hper hnew, rfl, rfl⟩

end VprocSdk
