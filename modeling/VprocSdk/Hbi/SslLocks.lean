import Mathlib.Logic.Function.Basic
import VprocSdk.Hbi.Types
import VprocSdk.Lib.Machine
import VprocSdk.Lib.Slots

/-!
# The locks of the System Service Layer

`SSL_lock_create`, `SSL_lock`, `SSL_unlock` and `SSL_lock_delete` of `ssl_port.c`, each atomic, called by any
number of clients. A lock is an entry of a table: a kernel mutex and a flag that says whether the entry is
created. The flag is read by `SSL_lock_create` only. `CHK_LOCK_HANDLE_VALIDITY` looks at the address, and
with `SSL_WAIT_NONE` what `mutex_trylock` answers is not looked at.

A mutex knows its owner. Beside it stands what the clients know: who has got `SSL_STATUS_OK` for the lock
and has not unlocked it since. A lock that is deleted is nobody's, and one created in its place is another.
-/

namespace VprocSdk

open Lib

variable {γ : Type} [DecidableEq γ] {n : Nat}

/-- `struct ssl_lock`, with the owner of its mutex. -/
structure SslLock (γ : Type) where
  lock : Option γ
  inuse : Bool
  deriving DecidableEq

/-- The table `ssl_drv_priv.lock`. -/
abbrev SslLocks (γ : Type) (n : Nat) := Fin n → SslLock γ

/-- The address of an entry. No entry is at `NULL`. -/
def lockHandleOf (i : Fin n) : Nat := i.val + 1

/-- `CHK_LOCK_HANDLE_VALIDITY`. -/
def lockOf (n lockId : Nat) : Option (Fin n) := firstSlot fun i => lockHandleOf i = lockId

/-- `SSL_WAIT_NONE` of `ssl_wait_t`. -/
def sslWaitNone : Int := 0

/-- `SSL_WAIT_FOREVER` of `ssl_wait_t`. -/
def sslWaitForever : Int := 1

/-- `SSL_lock_create`; on success the address of the third component is stored through `pLock`. -/
def sslLockCreate (drv : SslLocks γ n) (pLock : Bool) : SslLocks γ n × SslStatus × Option (Fin n) :=
  if !pLock then (drv, .invalidArg, none)
  else
    match firstSlot fun i => !(drv i).inuse with
    | none => (drv, .resourceErr, none)
    | some i => (Function.update drv i ⟨none, true⟩, .ok, some i)

/-- `mutex_trylock` by a client: it takes the mutex if that is free. -/
def mutexTrylock (client : γ) (lock : Option γ) : Option γ := lock.or (some client)

/-- `SSL_lock`; none while `mutex_lock` waits. -/
def sslLock (client : γ) (drv : SslLocks γ n) (lockId : Nat) (waitType : Int) :
    Option (SslLocks γ n × SslStatus) :=
  match lockOf n lockId with
  | none => some (drv, .badHandle)
  | some i =>
      if waitType = sslWaitNone then
        some (Function.update drv i { drv i with lock := mutexTrylock client (drv i).lock }, .ok)
      else if waitType = sslWaitForever then
        match (drv i).lock with
        | none => some (Function.update drv i { drv i with lock := some client }, .ok)
        | some _ => none
      else some (drv, .invalidArg)

def sslUnlock (drv : SslLocks γ n) (lockId : Nat) : SslLocks γ n × SslStatus :=
  match lockOf n lockId with
  | none => (drv, .badHandle)
  | some i => (Function.update drv i { drv i with lock := none }, .ok)

/-- `SSL_lock_delete`; `mutex_destroy` leaves the mutex as it is. -/
def sslLockDelete (drv : SslLocks γ n) (lockId : Nat) : SslLocks γ n × SslStatus :=
  match lockOf n lockId with
  | none => (drv, .badHandle)
  | some i => (Function.update drv i { drv i with inuse := false }, .ok)

/-! ### Clients and their calls -/

inductive LockCall
  | create (pLock : Bool)
  | lock (lockId : Nat) (waitType : Int)
  | unlock (lockId : Nat)
  | delete (lockId : Nat)

/-- The table, and which clients have got `SSL_STATUS_OK` for a lock and not unlocked it since. -/
structure LockState (γ : Type) (n : Nat) where
  locks : SslLocks γ n
  got : Fin n → γ → Bool

namespace LockState

def loaded (γ : Type) (n : Nat) : LockState γ n := ⟨fun _ => ⟨none, false⟩, fun _ _ => false⟩

/-- What the clients know of the lock at a handle once a call on it was successful. -/
def learn (s : LockState γ n) (lockId : Nat) (status : SslStatus) (known : (γ → Bool) → γ → Bool) :
    Fin n → γ → Bool :=
  match lockOf n lockId with
  | none => s.got
  | some i => if status = .ok then Function.update s.got i (known (s.got i)) else s.got

end LockState

/-- A call of a client: the state it ends in, and its status; none while it waits. -/
def lockCall (s : LockState γ n) : γ × LockCall → Option (LockState γ n × SslStatus)
  | (_, .create pLock) =>
      match sslLockCreate s.locks pLock with
      | (locks, status, none) => some (⟨locks, s.got⟩, status)
      | (locks, status, some i) => some (⟨locks, Function.update s.got i fun _ => false⟩, status)
  | (client, .lock lockId waitType) =>
      (sslLock client s.locks lockId waitType).map fun (locks, status) =>
        (⟨locks, s.learn lockId status fun got => Function.update got client true⟩, status)
  | (client, .unlock lockId) =>
      let (locks, status) := sslUnlock s.locks lockId
      some (⟨locks, s.learn lockId status fun got => Function.update got client false⟩, status)
  | (_, .delete lockId) =>
      let (locks, status) := sslLockDelete s.locks lockId
      some (⟨locks, s.learn lockId status fun _ _ => false⟩, status)

def lockMachine (γ : Type) [DecidableEq γ] (n : Nat) : Machine (LockState γ n) (γ × LockCall) where
  step s call := (lockCall s call).map Prod.fst

/-! ### What the locks are for -/

def LockState.Created (s : LockState γ n) (lockId : Nat) : Prop :=
  ∃ i : Fin n, lockHandleOf i = lockId ∧ (s.locks i).inuse = true

def LockState.Holds (s : LockState γ n) (lockId : Nat) (client : γ) : Prop :=
  ∃ i : Fin n, lockHandleOf i = lockId ∧ (s.locks i).lock = some client

/-- `SSL_lock` is successful only for a client that did not hold the lock and now does. It and `SSL_unlock`
fail on a handle without a lock. -/
def CallExcludes (s : LockState γ n) : γ × LockCall → Prop
  | (client, .lock lockId waitType) =>
      ∀ t status, lockCall s (client, .lock lockId waitType) = some (t, status) → status = .ok →
        s.Created lockId ∧ (∀ other, ¬ s.Holds lockId other) ∧ t.Holds lockId client
  | (client, .unlock lockId) =>
      ∀ t status, lockCall s (client, .unlock lockId) = some (t, status) → status = .ok →
        s.Created lockId
  | _ => True

/-- The client unlocks a lock only if it has got it. -/
def Disciplined (s : LockState γ n) : γ × LockCall → Prop
  | (client, .unlock lockId) => ∀ i : Fin n, lockHandleOf i = lockId → s.got i client = true
  | _ => True

def LockState.Exclusive (s : LockState γ n) : Prop :=
  ∀ i client client', s.got i client = true → s.got i client' = true → client = client'

/-- A lock that is locked without waiting is free, and one that is locked or unlocked is created. -/
def LockAllowed (s : LockState γ n) : γ × LockCall → Prop
  | (_, .lock lockId waitType) =>
      ∀ i : Fin n, lockHandleOf i = lockId →
        (waitType = sslWaitNone → (s.locks i).inuse = true ∧ (s.locks i).lock = none) ∧
          (waitType = sslWaitForever → (s.locks i).inuse = true)
  | (_, .unlock lockId) => ∀ i : Fin n, lockHandleOf i = lockId → (s.locks i).inuse = true
  | _ => True

instance decidableDisciplined (s : LockState γ n) : (call : γ × LockCall) → Decidable (Disciplined s call)
  | (client, .unlock lockId) =>
      inferInstanceAs (Decidable (∀ i : Fin n, lockHandleOf i = lockId → s.got i client = true))
  | (_, .create _) | (_, .lock _ _) | (_, .delete _) => inferInstanceAs (Decidable True)

instance decidableLockAllowed (s : LockState γ n) : (call : γ × LockCall) → Decidable (LockAllowed s call)
  | (_, .lock lockId waitType) =>
      inferInstanceAs (Decidable (∀ i : Fin n, lockHandleOf i = lockId →
        (waitType = sslWaitNone → (s.locks i).inuse = true ∧ (s.locks i).lock = none) ∧
          (waitType = sslWaitForever → (s.locks i).inuse = true)))
  | (_, .unlock lockId) =>
      inferInstanceAs (Decidable (∀ i : Fin n, lockHandleOf i = lockId → (s.locks i).inuse = true))
  | (_, .create _) | (_, .delete _) => inferInstanceAs (Decidable True)

/-! ### One call -/

section Call

variable {s t : LockState γ n} {call : γ × LockCall} {status : SslStatus} {lockId : Nat}

theorem lockHandleOf_inj {i j : Fin n} (h : lockHandleOf i = lockHandleOf j) : i = j := by
  unfold lockHandleOf at h
  exact Fin.ext (Nat.succ.inj h)

theorem lockOf_cases (n lockId : Nat) :
    (lockOf n lockId = none ∧ ∀ i : Fin n, lockHandleOf i ≠ lockId) ∨
      ∃ i : Fin n, lockOf n lockId = some i ∧ lockHandleOf i = lockId := by
  cases hfirst : lockOf n lockId with
  | none =>
      refine .inl ⟨rfl, fun i => ?_⟩
      simpa using firstSlot_none hfirst i
  | some i =>
      have htest := firstSlot_some hfirst
      exact .inr ⟨i, rfl, by simpa using htest⟩

theorem forall_lockHandle {i : Fin n} {P : Fin n → Prop} (h : lockHandleOf i = lockId) :
    (∀ j : Fin n, lockHandleOf j = lockId → P j) ↔ P i := by
  constructor
  · intro hall
    exact hall i h
  · intro hi j hj
    obtain rfl := lockHandleOf_inj (hj.trans h.symm)
    exact hi

theorem exists_lockHandle {i : Fin n} {P : Fin n → Prop} (h : lockHandleOf i = lockId) :
    (∃ j : Fin n, lockHandleOf j = lockId ∧ P j) ↔ P i := by
  constructor
  · intro hexists
    obtain ⟨j, hj, hp⟩ := hexists
    obtain rfl := lockHandleOf_inj (hj.trans h.symm)
    exact hp
  · intro hi
    exact ⟨i, h, hi⟩

section Calls

variable {client : γ} {i : Fin n}

theorem lockCall_lock_outside {waitType : Int} (hnone : lockOf n lockId = none) :
    lockCall s (client, .lock lockId waitType) = some (s, .badHandle) := by
  simp only [lockCall, sslLock, LockState.learn, hnone]
  rfl

theorem lockCall_unlock_outside (hnone : lockOf n lockId = none) :
    lockCall s (client, .unlock lockId) = some (s, .badHandle) := by
  simp only [lockCall, sslUnlock, LockState.learn, hnone]

theorem lockCall_delete_outside (hnone : lockOf n lockId = none) :
    lockCall s (client, .delete lockId) = some (s, .badHandle) := by
  simp only [lockCall, sslLockDelete, LockState.learn, hnone]

theorem lockCall_unlock (hi : lockOf n lockId = some i) :
    lockCall s (client, .unlock lockId)
      = some (⟨Function.update s.locks i { s.locks i with lock := none },
          Function.update s.got i (Function.update (s.got i) client false)⟩, .ok) := by
  simp only [lockCall, sslUnlock, LockState.learn, hi]
  rfl

theorem lockCall_delete (hi : lockOf n lockId = some i) :
    lockCall s (client, .delete lockId)
      = some (⟨Function.update s.locks i { s.locks i with inuse := false },
          Function.update s.got i fun _ => false⟩, .ok) := by
  simp only [lockCall, sslLockDelete, LockState.learn, hi]
  rfl

/-- `SSL_lock` at a handle of the table: what it does for each wait type. -/
theorem lockCall_lock_cases {waitType : Int} (hi : lockOf n lockId = some i)
    (hcall : lockCall s (client, .lock lockId waitType) = some (t, status)) :
    (waitType = sslWaitNone ∨ waitType = sslWaitForever ∧ (s.locks i).lock = none) ∧ status = .ok ∧
        t = ⟨Function.update s.locks i { s.locks i with lock := mutexTrylock client (s.locks i).lock },
          Function.update s.got i (Function.update (s.got i) client true)⟩ ∨
      waitType ≠ sslWaitNone ∧ waitType ≠ sslWaitForever ∧ status = .invalidArg ∧ t = s := by
  simp only [lockCall, sslLock, LockState.learn, hi] at hcall
  by_cases hnone : waitType = sslWaitNone
  · rw [if_pos hnone] at hcall
    cases hcall
    exact .inl ⟨.inl hnone, rfl, rfl⟩
  · rw [if_neg hnone] at hcall
    by_cases hforever : waitType = sslWaitForever
    · rw [if_pos hforever] at hcall
      cases hlock : (s.locks i).lock with
      | none =>
          rw [hlock] at hcall
          cases hcall
          exact .inl ⟨.inr ⟨hforever, rfl⟩, rfl, rfl⟩
      | some owner =>
          rw [hlock] at hcall
          cases hcall
    · rw [if_neg hforever] at hcall
      cases hcall
      exact .inr ⟨hnone, hforever, rfl, rfl⟩

omit [DecidableEq γ] in
theorem LockAllowed.free {waitType : Int} (hallowed : LockAllowed s (client, .lock lockId waitType))
    (hhandle : lockHandleOf i = lockId)
    (hwait : waitType = sslWaitNone ∨ waitType = sslWaitForever ∧ (s.locks i).lock = none) :
    (s.locks i).inuse = true ∧ (s.locks i).lock = none := by
  obtain ⟨hnone, hforever⟩ := hallowed i hhandle
  rcases hwait with hwaits | ⟨hwaits, hlock⟩
  · exact hnone hwaits
  · exact ⟨hforever hwaits, hlock⟩

theorem callExcludes_unlock_iff :
    CallExcludes s (client, .unlock lockId) ↔ LockAllowed s (client, .unlock lockId) := by
  rcases lockOf_cases n lockId with ⟨hnone, hnot⟩ | ⟨i, hi, hhandle⟩
  · refine iff_of_true ?_ fun i hi => absurd hi (hnot i)
    intro t' status' hcall' hok
    rw [lockCall_unlock_outside hnone] at hcall'
    cases hcall'
    cases hok
  · have hallowed : LockAllowed s (client, .unlock lockId) ↔ (s.locks i).inuse = true :=
      forall_lockHandle hhandle
    rw [hallowed]
    constructor
    · intro h
      exact (exists_lockHandle hhandle).1 (h _ .ok (lockCall_unlock hi) rfl)
    · intro h _ _ _ _
      exact (exists_lockHandle hhandle).2 h

theorem callExcludes_lock_iff {waitType : Int}
    (hcall : lockCall s (client, .lock lockId waitType) = some (t, status)) :
    CallExcludes s (client, .lock lockId waitType) ↔ LockAllowed s (client, .lock lockId waitType) := by
  rcases lockOf_cases n lockId with ⟨hnone, hnot⟩ | ⟨i, hi, hhandle⟩
  · refine iff_of_true ?_ fun i hi => absurd hi (hnot i)
    intro t' status' hcall' hok
    rw [lockCall_lock_outside hnone] at hcall'
    cases hcall'
    cases hok
  · have hsame : ∀ t' status', lockCall s (client, .lock lockId waitType) = some (t', status') →
        t' = t ∧ status' = status := by
      intro t' status' hcall'
      rw [hcall] at hcall'
      cases hcall'
      exact ⟨rfl, rfl⟩
    rcases lockCall_lock_cases hi hcall with ⟨hwait, rfl, ht⟩ | ⟨hnone, hforever, rfl, -⟩
    · have hfree : (∀ other, ¬ s.Holds lockId other) ↔ (s.locks i).lock = none := by
        rw [Option.eq_none_iff_forall_ne_some]
        exact forall_congr' fun other => not_congr (exists_lockHandle hhandle)
      constructor
      · intro h
        obtain ⟨hcreated, hother, -⟩ := h t .ok hcall rfl
        have hinuse := (exists_lockHandle hhandle).1 hcreated
        exact (forall_lockHandle hhandle).2 ⟨fun _ => ⟨hinuse, hfree.1 hother⟩, fun _ => hinuse⟩
      · intro h t' status' hcall' _
        obtain ⟨rfl, -⟩ := hsame t' status' hcall'
        obtain ⟨hinuse, hlock⟩ := h.free hhandle hwait
        refine ⟨(exists_lockHandle hhandle).2 hinuse, hfree.2 hlock, (exists_lockHandle hhandle).2 ?_⟩
        rw [ht]
        dsimp only
        rw [Function.update_self, hlock]
        rfl
    · refine iff_of_true ?_ ((forall_lockHandle hhandle).2
        ⟨fun h => absurd h hnone, fun h => absurd h hforever⟩)
      intro t' status' hcall' hok
      obtain ⟨-, rfl⟩ := hsame t' status' hcall'
      cases hok

end Calls

/-- A call excludes exactly when it is allowed. -/
theorem callExcludes_iff (hcall : lockCall s call = some (t, status)) :
    CallExcludes s call ↔ LockAllowed s call := by
  obtain ⟨client, call⟩ := call
  cases call with
  | create pLock => exact Iff.rfl
  | delete lockId => exact Iff.rfl
  | unlock lockId => exact callExcludes_unlock_iff
  | lock lockId waitType => exact callExcludes_lock_iff hcall

/-- A client that has got a lock owns its mutex. -/
def LockState.Known (s : LockState γ n) : Prop :=
  ∀ i client, s.got i client = true → (s.locks i).inuse = true ∧ (s.locks i).lock = some client

omit [DecidableEq γ] in
theorem LockState.Known.exclusive (h : s.Known) : s.Exclusive := by
  intro i client client' hgot hgot'
  have hown := (h i client hgot).2
  rw [(h i client' hgot').2] at hown
  exact (Option.some.inj hown).symm

omit [DecidableEq γ] in
theorem LockState.Known.update {lock : SslLock γ} {got : γ → Bool} (h : s.Known) (i : Fin n)
    (hi : ∀ client, got client = true → lock.inuse = true ∧ lock.lock = some client) :
    LockState.Known ⟨Function.update s.locks i lock, Function.update s.got i got⟩ := by
  intro j client
  dsimp only
  by_cases hj : j = i
  · subst hj
    rw [Function.update_self, Function.update_self]
    exact hi client
  · rw [Function.update_of_ne hj, Function.update_of_ne hj]
    exact h j client

omit [DecidableEq γ] in
theorem LockState.Known.forget {lock : SslLock γ} (h : s.Known) (i : Fin n) :
    LockState.Known ⟨Function.update s.locks i lock, Function.update s.got i fun _ => false⟩ :=
  h.update i fun _ hgot => Bool.noConfusion hgot

/-- A client that unlocks a lock it has got was the only one that had. -/
theorem LockState.Known.unlock {client : γ} {i : Fin n} (h : s.Known) (hgot : s.got i client = true) :
    LockState.Known ⟨Function.update s.locks i { s.locks i with lock := none },
      Function.update s.got i (Function.update (s.got i) client false)⟩ := by
  apply h.update i
  intro other hother
  by_cases hsame : other = client
  · subst hsame
    rw [Function.update_self] at hother
    cases hother
  · rw [Function.update_of_ne hsame] at hother
    exact absurd (h.exclusive i other client hother hgot) hsame

theorem LockState.Known.lock {client : γ} {i : Fin n} (h : s.Known) (hinuse : (s.locks i).inuse = true)
    (hlock : (s.locks i).lock = none) :
    LockState.Known ⟨Function.update s.locks i { s.locks i with lock := mutexTrylock client (s.locks i).lock },
      Function.update s.got i (Function.update (s.got i) client true)⟩ := by
  apply h.update i
  intro other hother
  by_cases hsame : other = client
  · subst hsame
    refine ⟨hinuse, ?_⟩
    rw [hlock]
    rfl
  · rw [Function.update_of_ne hsame] at hother
    have howner := (h i other hother).2
    rw [hlock] at howner
    cases howner

theorem LockState.Known.step (h : s.Known) (hallowed : LockAllowed s call)
    (hdisciplined : Disciplined s call) (hcall : lockCall s call = some (t, status)) : t.Known := by
  obtain ⟨client, call⟩ := call
  cases call with
  | create pLock =>
      simp only [lockCall, sslLockCreate] at hcall
      cases pLock with
      | false =>
          cases hcall
          exact h
      | true =>
          cases hfirst : firstSlot fun i => !(s.locks i).inuse with
          | none =>
              rw [hfirst] at hcall
              cases hcall
              exact h
          | some i =>
              rw [hfirst] at hcall
              cases hcall
              exact h.forget i
  | delete lockId =>
      rcases lockOf_cases n lockId with ⟨hnone, -⟩ | ⟨i, hi, -⟩
      · rw [lockCall_delete_outside hnone] at hcall
        cases hcall
        exact h
      · rw [lockCall_delete hi] at hcall
        cases hcall
        exact h.forget i
  | unlock lockId =>
      rcases lockOf_cases n lockId with ⟨hnone, -⟩ | ⟨i, hi, hhandle⟩
      · rw [lockCall_unlock_outside hnone] at hcall
        cases hcall
        exact h
      · rw [lockCall_unlock hi] at hcall
        cases hcall
        exact h.unlock (hdisciplined i hhandle)
  | lock lockId waitType =>
      rcases lockOf_cases n lockId with ⟨hnone, -⟩ | ⟨i, hi, hhandle⟩
      · rw [lockCall_lock_outside hnone] at hcall
        cases hcall
        exact h
      · rcases lockCall_lock_cases hi hcall with ⟨hwait, rfl, rfl⟩ | ⟨-, -, -, rfl⟩
        · obtain ⟨hinuse, hlock⟩ := hallowed.free hhandle hwait
          exact h.lock hinuse hlock
        · exact h

end Call

/-! ### Runs -/

theorem lockMachine_step {s t : LockState γ n} {call : γ × LockCall}
    (hstep : (lockMachine γ n).step s call = some t) : ∃ status, lockCall s call = some (t, status) := by
  obtain ⟨⟨t', status⟩, hcall, rfl⟩ := Option.map_eq_some_iff.1 hstep
  exact ⟨status, hcall⟩

theorem known_of_runs {calls : List (γ × LockCall)} {s : LockState γ n}
    (h : (lockMachine γ n).Runs (fun s call => LockAllowed s call ∧ Disciplined s call) (.loaded γ n)
      calls s) : s.Known := by
  refine h.invariant (fun i client hgot => Bool.noConfusion hgot) ?_
  intro t call u hknown hok hstep
  obtain ⟨status, hcall⟩ := lockMachine_step hstep
  exact hknown.step hok.1 hok.2 hcall

/-- In a run of calls by any clients every call excludes, and if the clients unlock only what they have got
no two have got the same lock in any state of it, exactly when no lock is locked without waiting while it is
not free, and none is locked or unlocked that is not created. -/
theorem locks_exclude_iff (γ : Type) [DecidableEq γ] (n : Nat) {calls : List (γ × LockCall)}
    {s : LockState γ n} (h : (lockMachine γ n).exec (.loaded γ n) calls = some s) :
    (∀ pre call suf mid, calls = pre ++ call :: suf →
        (lockMachine γ n).exec (.loaded γ n) pre = some mid → CallExcludes mid call) ∧
      ((lockMachine γ n).Runs Disciplined (.loaded γ n) calls s →
        ∀ pre suf mid, calls = pre ++ suf → (lockMachine γ n).exec (.loaded γ n) pre = some mid →
          mid.Exclusive) ↔
    (lockMachine γ n).Runs LockAllowed (.loaded γ n) calls s := by
  have hcalls : (∀ pre call suf mid, calls = pre ++ call :: suf →
      (lockMachine γ n).exec (.loaded γ n) pre = some mid → CallExcludes mid call) ↔
      (lockMachine γ n).Runs LockAllowed (.loaded γ n) calls s := by
    rw [Machine.runs_iff_steps h]
    constructor
    all_goals
      intro hall pre call suf mid heq hmid
      subst heq
      obtain ⟨t, hstep⟩ := Machine.step_of_exec h hmid
      obtain ⟨status, hcall⟩ := lockMachine_step hstep
    · exact (callExcludes_iff hcall).1 (hall pre call suf mid rfl hmid)
    · exact (callExcludes_iff hcall).2 (hall pre call suf mid rfl hmid)
  rw [hcalls]
  refine ⟨fun hboth => hboth.1, fun hruns => ⟨hruns, ?_⟩⟩
  intro hdisciplined pre suf mid heq hmid
  subst heq
  have hboth : (lockMachine γ n).Runs (fun s call => LockAllowed s call ∧ Disciplined s call)
      (.loaded γ n) (pre ++ suf) s := by
    rw [Machine.runs_iff_steps h] at hruns hdisciplined ⊢
    intro pre' call suf' mid' heq hmid'
    exact ⟨hruns pre' call suf' mid' heq hmid', hdisciplined pre' call suf' mid' heq hmid'⟩
  obtain ⟨mid', hbefore⟩ := hboth.before
  have hsame := hbefore.exec_eq
  rw [hmid] at hsame
  cases hsame
  exact (known_of_runs hbefore).exclusive

/-- Two clients take a lock in turns, one without waiting and one waiting. -/
def lockTurns : List (Bool × LockCall) :=
  [(true, .create true), (true, .lock 1 sslWaitNone), (true, .unlock 1), (false, .lock 1 sslWaitForever)]

theorem locks_exclude_iff_turns : ∃ s, (lockMachine Bool 1).exec (.loaded Bool 1) lockTurns = some s ∧
    s.got 0 false = true ∧ s.Exclusive := by
  have hruns : (lockMachine Bool 1).Runs (fun s call => LockAllowed s call ∧ Disciplined s call)
      (.loaded Bool 1) lockTurns _ :=
    (((Machine.Runs.nil.snoc ⟨trivial, trivial⟩ rfl).snoc ⟨by decide, trivial⟩ rfl).snoc
      ⟨by decide, by decide⟩ rfl).snoc ⟨by decide, trivial⟩ rfl
  have hexec := hruns.exec_eq
  refine ⟨_, hexec, rfl, ?_⟩
  exact ((locks_exclude_iff Bool 1 hexec).2 (hruns.mono fun _ _ hok => hok.1)).2
    (hruns.mono fun _ _ hok => hok.2) lockTurns [] _ (List.append_nil _).symm hexec

/-- A second client is told that it has the lock the first one holds. -/
theorem trylock_ignored : ∃ mid, (lockMachine Bool 1).exec (.loaded Bool 1)
      [(true, .create true), (true, .lock 1 sslWaitNone)] = some mid ∧
    ¬ CallExcludes mid (false, .lock 1 sslWaitNone) := by
  refine ⟨_, rfl, fun h => ?_⟩
  obtain ⟨-, hother, -⟩ := h _ .ok rfl rfl
  exact hother true ⟨0, rfl, rfl⟩

end VprocSdk
