import VprocSdk.Image.Loaders
import VprocSdk.Tw.BootMode

/-!
# Writing an image in blocks

`hbi_wr_bin_fw` and `hbi_wr_bin_cfg` are one loop, with their own command for a block and their own
conclusion. It goes on to the next block while the device does not refuse one and the offset, a 32-bit
number, stays below the size. So a run is known from the turn it stops at, and when it stops at none
it has no end.

The loop never looks at how much is left, and it goes on after a command that was not carried out. It
sends what it is given exactly where the blocks fill the size and every one of them is accepted, or
where it fails.
-/

namespace VprocSdk

open Lib

/-- The loop of `hbi_wr_bin_fw` and `hbi_wr_bin_cfg` from offset `i` on. -/
def wrBinLoop (handle : Nat) (command : List Byte → Command) (conclude : HbiStatus → Loader HbiStatus)
    (buf : Nat → Byte) (size chunkLen : Nat) : Nat → Nat → Loader (Option HbiStatus)
  | 0, _ => return none
  | fuel + 1, i =>
      if size < chunkLen ∨ chunkLen = 0 then return some .resourceErr
      else do
        let status ← setCommand handle (command (slice buf i chunkLen))
        if status ≠ .success ∧ status ≠ .opIncomplete then return some status
        let i := (i + chunkLen) % 2 ^ 32
        if i < size then wrBinLoop handle command conclude buf size chunkLen fuel i
        else
          let status ← conclude status
          return some status

def Command.cfgrec (chunk : List Byte) : Command := .loadCfgrecFromHost (some (some chunk))

def completeFw (handle : Nat) (_ : HbiStatus) : Loader HbiStatus := setCommand handle .loadFwrComplete

def completeCfg (status : HbiStatus) : Loader HbiStatus := return status

def hbiWrBinCfg (fuel handle : Nat) (buf : Nat → Byte) (size blockSize : Nat) :
    Loader (Option HbiStatus) :=
  wrBinLoop handle .cfgrec completeCfg buf size (blockSize <<< 1 % 2 ^ 32) fuel 0

theorem wrBinFwLoop_eq_wrBinLoop (handle : Nat) (buf : Nat → Byte) (size chunkLen fuel i : Nat) :
    wrBinFwLoop handle buf size chunkLen fuel i
      = wrBinLoop handle .firmware (completeFw handle) buf size chunkLen fuel i := by
  induction fuel generalizing i with
  | zero => rfl
  | succ fuel ih =>
      simp only [wrBinFwLoop, wrBinLoop, ih]
      rfl

/-! ### The turns of the loop -/

/-- The device answers the `n`-th command with the `n`-th outcome. -/
def answered (outcome : Nat → HbiStatus) : Prog.Exchanges HbiAsk HbiReply → HbiAsk → HbiReply :=
  fun done _ => ⟨outcome done.length, []⟩

/-- The offset of the loop after `k` blocks. -/
def chunkOffset (chunkLen k : Nat) : Nat := k * chunkLen % 2 ^ 32

theorem chunkOffset_succ (chunkLen k : Nat) :
    (chunkOffset chunkLen k + chunkLen) % 2 ^ 32 = chunkOffset chunkLen (k + 1) := by
  rw [chunkOffset, chunkOffset, Nat.mod_add_mod, Nat.succ_mul]

/-- The offset first comes to the end of the size after `n` blocks. -/
structure EndsAfter (size chunkLen n : Nat) : Prop where
  pos : 0 < n
  below : ∀ j, 0 < j → j < n → chunkOffset chunkLen j < size
  past : size ≤ chunkOffset chunkLen n

/-- The loop takes turn `k`: no block before was refused, and the offset has stayed below the size. -/
structure Reached (size chunkLen : Nat) (outcome : Nat → HbiStatus) (k : Nat) : Prop where
  accepted : ∀ j < k, wrBinFwAccepts (outcome j) = true
  below : ∀ j, 0 < j → j ≤ k → chunkOffset chunkLen j < size

section Turns

variable {handle : Nat} {command : List Byte → Command} {conclude : HbiStatus → Loader HbiStatus}
  {buf : Nat → Byte} {size chunkLen : Nat} {outcome : Nat → HbiStatus}

def chunkExchange (handle : Nat) (command : List Byte → Command) (buf : Nat → Byte) (chunkLen : Nat)
    (outcome : Nat → HbiStatus) (j : Nat) : HbiAsk × HbiReply :=
  (.setCommand handle (command (slice buf (chunkOffset chunkLen j) chunkLen)), ⟨outcome j, []⟩)

def chunkExchanges (handle : Nat) (command : List Byte → Command) (buf : Nat → Byte) (chunkLen : Nat)
    (outcome : Nat → HbiStatus) (k : Nat) : Prog.Exchanges HbiAsk HbiReply :=
  (List.range k).map (chunkExchange handle command buf chunkLen outcome)

theorem chunkExchanges_length (k : Nat) :
    (chunkExchanges handle command buf chunkLen outcome k).length = k := by
  rw [chunkExchanges, List.length_map, List.length_range]

theorem chunkExchanges_succ (k : Nat) :
    chunkExchanges handle command buf chunkLen outcome (k + 1)
      = chunkExchanges handle command buf chunkLen outcome k
          ++ [chunkExchange handle command buf chunkLen outcome k] := by
  rw [chunkExchanges, List.range_succ, List.map_append]
  rfl

theorem reached_zero : Reached size chunkLen outcome 0 := by
  constructor
  · intro j hj
    omega
  · intro j hpos hj
    omega

theorem Reached.succ {k : Nat} (h : Reached size chunkLen outcome k)
    (haccept : wrBinFwAccepts (outcome k) = true) (hbelow : chunkOffset chunkLen (k + 1) < size) :
    Reached size chunkLen outcome (k + 1) := by
  constructor
  · intro j hj
    by_cases hlast : j = k
    · rw [hlast]
      exact haccept
    · exact h.accepted j (by omega)
  · intro j hpos hj
    by_cases hlast : j = k + 1
    · rw [hlast]
      exact hbelow
    · exact h.below j hpos (by omega)

theorem Reached.mono {j k : Nat} (h : Reached size chunkLen outcome k) (hle : j ≤ k) :
    Reached size chunkLen outcome j :=
  ⟨fun i hi => h.accepted i (by omega), fun i hpos hi => h.below i hpos (by omega)⟩

theorem exists_last_turn {n : Nat} (h : ¬ Reached size chunkLen outcome n) :
    ∃ k < n, Reached size chunkLen outcome k ∧ ¬ Reached size chunkLen outcome (k + 1) := by
  induction n with
  | zero => exact absurd reached_zero h
  | succ n ih =>
      by_cases hreached : Reached size chunkLen outcome n
      · exact ⟨n, by omega, hreached, h⟩
      · obtain ⟨k, hk, hlast⟩ := ih hreached
        exact ⟨k, by omega, hlast⟩

theorem Reached.end_unique {k n : Nat} (h : Reached size chunkLen outcome k)
    (hend : size ≤ chunkOffset chunkLen (k + 1)) (hn : EndsAfter size chunkLen n) : n = k + 1 := by
  have hlate : ¬ n ≤ k := by
    intro hle
    have := h.below n hn.pos hle
    have := hn.past
    omega
  have hearly : ¬ k + 1 < n := by
    intro hlt
    have := hn.below (k + 1) (by omega) hlt
    omega
  omega

theorem wrBinLoop_turn (hfits : ¬ (size < chunkLen ∨ chunkLen = 0)) (fuel k : Nat) :
    (wrBinLoop handle command conclude buf size chunkLen (fuel + 1) (chunkOffset chunkLen k)).run
        (answered outcome) (chunkExchanges handle command buf chunkLen outcome k)
      = (if wrBinFwAccepts (outcome k) = true then
          if chunkOffset chunkLen (k + 1) < size then
            wrBinLoop handle command conclude buf size chunkLen fuel (chunkOffset chunkLen (k + 1))
          else do
            let status ← conclude (outcome k)
            return some status
        else return some (outcome k) : Loader (Option HbiStatus)).run
          (answered outcome) (chunkExchanges handle command buf chunkLen outcome (k + 1)) := by
  rw [wrBinLoop, if_neg hfits]
  simp only [setCommand, Prog.query_bind, Prog.ask_bind, Prog.pure_eq, Prog.pure_bind, Prog.run_ask,
    answered, chunkExchanges_length, chunkOffset_succ, wrBinFw_branch]
  rw [chunkExchanges_succ]
  rfl

variable (handle command conclude buf)

theorem Reached.run {k : Nat} (hfits : ¬ (size < chunkLen ∨ chunkLen = 0))
    (h : Reached size chunkLen outcome k) (fuel : Nat) :
    (wrBinLoop handle command conclude buf size chunkLen (fuel + k) 0).run (answered outcome) []
      = (wrBinLoop handle command conclude buf size chunkLen fuel (chunkOffset chunkLen k)).run
          (answered outcome) (chunkExchanges handle command buf chunkLen outcome k) := by
  induction k generalizing fuel with
  | zero => simp [chunkOffset, chunkExchanges]
  | succ k ih =>
      have hprev := ih (h.mono (by omega)) (fuel + 1)
      have haccept := h.accepted k (by omega)
      have hbelow := h.below (k + 1) (by omega) (Nat.le_refl _)
      rw [show fuel + (k + 1) = fuel + 1 + k by omega, hprev, wrBinLoop_turn hfits, if_pos haccept,
        if_pos hbelow]

/-- With fuel for the last turn, what the run is: the blocks up to a refused one, or all the blocks and
the conclusion. -/
theorem Reached.run_last {k : Nat} (hfits : ¬ (size < chunkLen ∨ chunkLen = 0))
    (h : Reached size chunkLen outcome k) (hlast : ¬ Reached size chunkLen outcome (k + 1))
    (fuel : Nat) :
    (wrBinFwAccepts (outcome k) = true → size ≤ chunkOffset chunkLen (k + 1)) ∧
      (wrBinLoop handle command conclude buf size chunkLen (fuel + 1 + k) 0).run (answered outcome) []
        = (if wrBinFwAccepts (outcome k) = true then do
            let status ← conclude (outcome k)
            return some status
          else return some (outcome k) : Loader (Option HbiStatus)).run (answered outcome)
            (chunkExchanges handle command buf chunkLen outcome (k + 1)) := by
  have hend : wrBinFwAccepts (outcome k) = true → ¬ chunkOffset chunkLen (k + 1) < size :=
    fun haccept hbelow => hlast (h.succ haccept hbelow)
  refine ⟨fun haccept => Nat.le_of_not_lt (hend haccept), ?_⟩
  rw [Reached.run handle command conclude buf hfits h (fuel + 1), wrBinLoop_turn hfits]
  by_cases haccept : wrBinFwAccepts (outcome k) = true
  · rw [if_pos haccept, if_pos haccept, if_neg (hend haccept)]
  · rw [if_neg haccept, if_neg haccept]

theorem Reached.run_none {fuel : Nat} (hfits : ¬ (size < chunkLen ∨ chunkLen = 0))
    (h : Reached size chunkLen outcome fuel) :
    (wrBinLoop handle command conclude buf size chunkLen fuel 0).run (answered outcome) []
      = (chunkExchanges handle command buf chunkLen outcome fuel, none) := by
  have hrun := Reached.run handle command conclude buf hfits h 0
  rw [Nat.zero_add] at hrun
  rw [hrun]
  rfl

theorem Reached.record_get {k fuel : Nat} (hfits : ¬ (size < chunkLen ∨ chunkLen = 0))
    (h : Reached size chunkLen outcome k) (hfuel : k < fuel) :
    ((wrBinLoop handle command conclude buf size chunkLen fuel 0).run (answered outcome) []).1[k]?
      = some (chunkExchange handle command buf chunkLen outcome k) := by
  have hrun := Reached.run handle command conclude buf hfits h (fuel - k - 1 + 1)
  rw [show fuel - k - 1 + 1 + k = fuel by omega, wrBinLoop_turn hfits] at hrun
  rw [hrun]
  obtain ⟨more, hmore⟩ := Prog.run_extends (answered outcome)
    (chunkExchanges handle command buf chunkLen outcome (k + 1))
    (if wrBinFwAccepts (outcome k) = true then
      if chunkOffset chunkLen (k + 1) < size then
        wrBinLoop handle command conclude buf size chunkLen (fuel - k - 1)
          (chunkOffset chunkLen (k + 1))
      else do
        let status ← conclude (outcome k)
        return some status
    else return some (outcome k) : Loader (Option HbiStatus))
  have hlen : (chunkExchanges handle command buf chunkLen outcome k).length = k :=
    chunkExchanges_length k
  rw [hmore, chunkExchanges_succ, List.append_assoc, List.getElem?_append_right (by omega), hlen,
    Nat.sub_self]
  rfl

variable {buf} {buf' : Nat → Byte}

theorem chunkExchanges_congr (outcome : Nat → HbiStatus) {k : Nat}
    (h : ∀ j < k, slice buf (chunkOffset chunkLen j) chunkLen
      = slice buf' (chunkOffset chunkLen j) chunkLen) :
    chunkExchanges handle command buf chunkLen outcome k
      = chunkExchanges handle command buf' chunkLen outcome k := by
  apply List.map_congr_left
  intro j hj
  rw [chunkExchange, chunkExchange, h j (List.mem_range.1 hj)]

/-- The loop sees of its buffer the blocks it comes to. -/
theorem wrBinLoop_run_congr (hfits : ¬ (size < chunkLen ∨ chunkLen = 0))
    (h : ∀ j, Reached size chunkLen outcome j → slice buf (chunkOffset chunkLen j) chunkLen
      = slice buf' (chunkOffset chunkLen j) chunkLen) (fuel : Nat) :
    (wrBinLoop handle command conclude buf size chunkLen fuel 0).run (answered outcome) []
      = (wrBinLoop handle command conclude buf' size chunkLen fuel 0).run (answered outcome) [] := by
  by_cases hreached : Reached size chunkLen outcome fuel
  · have hblocks : ∀ j < fuel, slice buf (chunkOffset chunkLen j) chunkLen
        = slice buf' (chunkOffset chunkLen j) chunkLen := fun j hj => h j (hreached.mono (by omega))
    have heq := chunkExchanges_congr handle command outcome hblocks
    rw [hreached.run_none handle command conclude buf hfits,
      hreached.run_none handle command conclude buf' hfits, heq]
  · obtain ⟨k, hk, hbefore, hlast⟩ := exists_last_turn hreached
    have hblocks : ∀ j < k + 1, slice buf (chunkOffset chunkLen j) chunkLen
        = slice buf' (chunkOffset chunkLen j) chunkLen := fun j hj => h j (hbefore.mono (by omega))
    have heq := chunkExchanges_congr handle command outcome hblocks
    have hrun := (hbefore.run_last handle command conclude buf hfits hlast (fuel - k - 1)).2
    have hrun' := (hbefore.run_last handle command conclude buf' hfits hlast (fuel - k - 1)).2
    rw [show fuel - k - 1 + 1 + k = fuel by omega] at hrun hrun'
    rw [hrun, hrun', heq]

end Turns

/-! ### What the device is handed -/

def HbiAsk.block : HbiAsk → List Byte
  | .setCommand _ (.loadFwrFromHost (some (some chunk))) => chunk
  | .setCommand _ (.loadCfgrecFromHost (some (some chunk))) => chunk
  | _ => []

/-- The bytes of the blocks whose command was carried out. -/
def handedBytes (record : Prog.Exchanges HbiAsk HbiReply) : List Byte :=
  (record.filter (·.2.status = .success)).flatMap (·.1.block)

theorem handedBytes_append (record more : Prog.Exchanges HbiAsk HbiReply) :
    handedBytes (record ++ more) = handedBytes record ++ handedBytes more := by
  rw [handedBytes, List.filter_append, List.flatMap_append]
  rfl

section Handed

variable {handle : Nat} {command : List Byte → Command} {buf : Nat → Byte} {size chunkLen : Nat}
  {outcome : Nat → HbiStatus}

def CarriesBlock (handle : Nat) (command : List Byte → Command) : Prop :=
  ∀ chunk, (HbiAsk.setCommand handle (command chunk)).block = chunk

theorem handedBytes_chunkExchange (hcommand : CarriesBlock handle command) (j : Nat) :
    handedBytes [chunkExchange handle command buf chunkLen outcome j]
      = if outcome j = .success then slice buf (chunkOffset chunkLen j) chunkLen else [] := by
  by_cases hsuccess : outcome j = .success
  · simp [handedBytes, chunkExchange, hsuccess, hcommand _]
  · simp [handedBytes, chunkExchange, hsuccess]

theorem handedBytes_length (hcommand : CarriesBlock handle command) (buf : Nat → Byte)
    (chunkLen : Nat) (outcome : Nat → HbiStatus) (k : Nat) :
    (handedBytes (chunkExchanges handle command buf chunkLen outcome k)).length
      = (List.range k).countP (outcome · = .success) * chunkLen := by
  induction k with
  | zero => simp [chunkExchanges, handedBytes]
  | succ k ih =>
      rw [chunkExchanges_succ, handedBytes_append, List.length_append, ih,
        handedBytes_chunkExchange hcommand, List.range_succ, List.countP_append, Nat.add_mul]
      by_cases hsuccess : outcome k = .success
      · simp [hsuccess]
      · simp [hsuccess]

theorem chunkOffset_lt {n j : Nat} (hsize : n * chunkLen < 2 ^ 32) (hj : j ≤ n) :
    chunkOffset chunkLen j = j * chunkLen := by
  have hle : j * chunkLen ≤ n * chunkLen := Nat.mul_le_mul_right _ hj
  exact Nat.mod_eq_of_lt (by omega)

theorem handedBytes_success (hcommand : CarriesBlock handle command) {n k : Nat}
    (hsize : n * chunkLen < 2 ^ 32) (hk : k ≤ n) (hsuccess : ∀ j < k, outcome j = .success) :
    handedBytes (chunkExchanges handle command buf chunkLen outcome k)
      = slice buf 0 (k * chunkLen) := by
  induction k with
  | zero => simp [chunkExchanges, handedBytes]
  | succ k ih =>
      rw [chunkExchanges_succ, handedBytes_append, ih (by omega) fun j hj => hsuccess j (by omega),
        handedBytes_chunkExchange hcommand, if_pos (hsuccess k (by omega)),
        chunkOffset_lt hsize (by omega), Nat.succ_mul, slice_add, Nat.zero_add]

theorem endsAfter_of_eq {n : Nat} (hchunk : 0 < chunkLen) (hpos : 0 < n)
    (hsize : n * chunkLen = size) (hlt : size < 2 ^ 32) : EndsAfter size chunkLen n where
  pos := hpos
  below := by
    intro j _ hj
    rw [chunkOffset_lt (by omega) (Nat.le_of_lt hj), ← hsize]
    exact Nat.mul_lt_mul_of_pos_right hj hchunk
  past := by
    rw [chunkOffset_lt (by omega) (Nat.le_refl n), hsize]

/-- A run that comes to the end hands over the buffer exactly where the blocks fill the size and every
one of them is accepted. -/
theorem Reached.handed_iff (hcommand : CarriesBlock handle command) (hlt : size < 2 ^ 32)
    (hfits : ¬ (size < chunkLen ∨ chunkLen = 0)) {k : Nat} (h : Reached size chunkLen outcome k)
    (hend : size ≤ chunkOffset chunkLen (k + 1)) :
    handedBytes (chunkExchanges handle command buf chunkLen outcome (k + 1)) = slice buf 0 size
      ↔ chunkLen ∣ size ∧ ∀ j < size / chunkLen, outcome j = .success := by
  have hchunk : 0 < chunkLen := by omega
  constructor
  · intro hhanded
    have hlen := handedBytes_length hcommand buf chunkLen outcome (k + 1)
    rw [hhanded, slice_length] at hlen
    have hpos : 0 < (List.range (k + 1)).countP (outcome · = .success) := by
      apply Nat.pos_of_ne_zero
      intro hzero
      rw [hzero] at hlen
      omega
    have hall := h.end_unique hend (endsAfter_of_eq hchunk hpos hlen.symm hlt)
    have hdiv : size / chunkLen = k + 1 := by
      rw [hlen, hall]
      exact Nat.mul_div_cancel _ hchunk
    have hcount : (List.range (k + 1)).countP (outcome · = .success) = (List.range (k + 1)).length := by
      rw [hall, List.length_range]
    refine ⟨⟨_, hlen.trans (Nat.mul_comm _ _)⟩, ?_⟩
    intro j hj
    have hmem : j ∈ List.range (k + 1) := List.mem_range.2 (by omega)
    exact of_decide_eq_true (List.countP_eq_length.1 hcount j hmem)
  · intro hboth
    obtain ⟨hdvd, hsuccess⟩ := hboth
    have hsize : size / chunkLen * chunkLen = size := Nat.div_mul_cancel hdvd
    have hpos : 0 < size / chunkLen := Nat.div_pos (by omega) hchunk
    have hall := h.end_unique hend (endsAfter_of_eq hchunk hpos hsize hlt)
    rw [← hall, handedBytes_success hcommand (by omega) (Nat.le_refl _) hsuccess, hsize]

end Handed

/-! ### Failing or sending all -/

/-- A loop whose commands carry their blocks. After `n` blocks it makes the exchanges `tail n`, which
carry none, and returns `final n`. -/
structure BlockLoop (handle : Nat) (command : List Byte → Command)
    (conclude : HbiStatus → Loader HbiStatus) (outcome final : Nat → HbiStatus)
    (tail : Nat → Prog.Exchanges HbiAsk HbiReply) : Prop where
  carries : CarriesBlock handle command
  run : ∀ k done, done.length = k + 1 →
    (conclude (outcome k)).run (answered outcome) done = (done ++ tail (k + 1), final (k + 1))
  silent : ∀ n, handedBytes (tail n) = []

/-- When a loop fails or sends what it is given: no block fits, a block the offset comes to is refused,
the status after the last block is not success, or the blocks fill the size and all are accepted. -/
def WrBinSends (size chunkLen : Nat) (outcome final : Nat → HbiStatus) : Prop :=
  (size < chunkLen ∨ chunkLen = 0) ∨
    (∃ k, (∀ j, 0 < j → j ≤ k → chunkOffset chunkLen j < size) ∧
      wrBinFwAccepts (outcome k) = false) ∨
    (∃ n, EndsAfter size chunkLen n ∧ final n ≠ .success) ∨
    chunkLen ∣ size ∧ ∀ k < size / chunkLen, outcome k = .success

section Sends

variable {handle : Nat} {command : List Byte → Command} {conclude : HbiStatus → Loader HbiStatus}
  {size chunkLen : Nat} {outcome final : Nat → HbiStatus}
  {tail : Nat → Prog.Exchanges HbiAsk HbiReply}

theorem WrBinSends.ends (h : WrBinSends size chunkLen outcome final) (hlt : size < 2 ^ 32)
    (hfits : ¬ (size < chunkLen ∨ chunkLen = 0)) : ∃ n, ¬ Reached size chunkLen outcome n := by
  have hpast : ∀ n, EndsAfter size chunkLen n → ¬ Reached size chunkLen outcome n := by
    intro n hn hreached
    have hbelow := hreached.below n hn.pos (Nat.le_refl n)
    have := hn.past
    omega
  rcases h with hshort | ⟨k, -, hrefused⟩ | ⟨n, hn, -⟩ | ⟨hdvd, -⟩
  · exact absurd hshort hfits
  · refine ⟨k + 1, fun hreached => ?_⟩
    rw [hreached.accepted k (by omega)] at hrefused
    exact absurd hrefused (by decide)
  · exact ⟨n, hpast n hn⟩
  · have hchunk : 0 < chunkLen := by omega
    have hsize : size / chunkLen * chunkLen = size := Nat.div_mul_cancel hdvd
    exact ⟨_, hpast _ (endsAfter_of_eq hchunk (Nat.div_pos (by omega) hchunk) hsize hlt)⟩

theorem Reached.sends_iff {k : Nat} (h : Reached size chunkLen outcome k)
    (hfits : ¬ (size < chunkLen ∨ chunkLen = 0)) (haccept : wrBinFwAccepts (outcome k) = true)
    (hend : size ≤ chunkOffset chunkLen (k + 1)) (hsuccess : final (k + 1) = .success) :
    WrBinSends size chunkLen outcome final
      ↔ chunkLen ∣ size ∧ ∀ j < size / chunkLen, outcome j = .success := by
  constructor
  · intro hcases
    rcases hcases with hshort | ⟨j, hbelow, hrefused⟩ | ⟨n, hn, hstatus⟩ | hfull
    · exact absurd hshort hfits
    · have hj : j ≤ k := by
        by_contra hlate
        have := hbelow (k + 1) (by omega) (by omega)
        omega
      have haccepted : wrBinFwAccepts (outcome j) = true := by
        by_cases hlast : j = k
        · rw [hlast]
          exact haccept
        · exact h.accepted j (by omega)
      rw [haccepted] at hrefused
      exact absurd hrefused (by decide)
    · rw [h.end_unique hend hn] at hstatus
      exact absurd hsuccess hstatus
    · exact hfull
  · intro hfull
    exact Or.inr (Or.inr (Or.inr hfull))

/-- What a run with a last turn asks and returns, and whether that is a failure or the buffer sent,
for any `Sent` that means no more than the bytes handed over where a run came to its end. -/
theorem BlockLoop.last_sends (hloop : BlockLoop handle command conclude outcome final tail)
    (buf : Nat → Byte) (Sent : Prog.Exchanges HbiAsk HbiReply → Prop) (hlt : size < 2 ^ 32)
    (hfits : ¬ (size < chunkLen ∨ chunkLen = 0)) {k : Nat} (h : Reached size chunkLen outcome k)
    (hlast : ¬ Reached size chunkLen outcome (k + 1))
    (hsent : size ≤ chunkOffset chunkLen (k + 1) → final (k + 1) = .success →
      (Sent (chunkExchanges handle command buf chunkLen outcome (k + 1) ++ tail (k + 1))
        ↔ handedBytes (chunkExchanges handle command buf chunkLen outcome (k + 1))
            = slice buf 0 size))
    (fuel : Nat) :
    ∃ more status, (wrBinLoop handle command conclude buf size chunkLen
        (fuel + 1 + k) 0).run (answered outcome) []
          = (chunkExchanges handle command buf chunkLen outcome (k + 1) ++ more, some status) ∧
      ((status ≠ .success
          ∨ Sent (chunkExchanges handle command buf chunkLen outcome (k + 1) ++ more))
        ↔ WrBinSends size chunkLen outcome final) := by
  obtain ⟨hend, hrun⟩ := h.run_last handle command conclude buf hfits hlast fuel
  by_cases haccept : wrBinFwAccepts (outcome k) = true
  · have hend := hend haccept
    rw [if_pos haccept, Prog.run_bind, hloop.run k _ (chunkExchanges_length _)] at hrun
    refine ⟨tail (k + 1), final (k + 1), hrun, ?_⟩
    by_cases hsuccess : final (k + 1) = .success
    · rw [h.sends_iff hfits haccept hend hsuccess, hsent hend hsuccess,
        h.handed_iff hloop.carries hlt hfits hend]
      exact or_iff_right (not_not.2 hsuccess)
    · have hn : EndsAfter size chunkLen (k + 1) :=
        ⟨by omega, fun j hpos hj => h.below j hpos (by omega), hend⟩
      have hsends : WrBinSends size chunkLen outcome final :=
        Or.inr (Or.inr (Or.inl ⟨k + 1, hn, hsuccess⟩))
      exact iff_of_true (Or.inl hsuccess) hsends
  · have hstatus : outcome k ≠ .success := by
      intro hsuccess
      rw [hsuccess] at haccept
      exact haccept rfl
    have hsends : WrBinSends size chunkLen outcome final :=
      Or.inr (Or.inl ⟨k, h.below, Bool.eq_false_iff.2 haccept⟩)
    rw [if_neg haccept] at hrun
    refine ⟨[], outcome k, ?_, iff_of_true (Or.inl hstatus) hsends⟩
    rw [hrun, List.append_nil]
    rfl

end Sends

/-! ### `hbi_wr_bin_fw` -/

/-- The device was handed the buffer's bytes, in order and once, and then concluded. -/
structure ImageSent (handle : Nat) (buf : Nat → Byte) (size : Nat)
    (record : Prog.Exchanges HbiAsk HbiReply) : Prop where
  handed : handedBytes record = slice buf 0 size
  concluded : ∃ blocks reply,
    record = blocks ++ [(.setCommand handle .loadFwrComplete, reply)] ∧ reply.status = .success ∧
      ∀ x ∈ blocks, x.1 ≠ .setCommand handle .loadFwrComplete

def fwTail (handle : Nat) (outcome : Nat → HbiStatus) (n : Nat) : Prog.Exchanges HbiAsk HbiReply :=
  [(.setCommand handle .loadFwrComplete, ⟨outcome n, []⟩)]

theorem blockLoop_fw (handle : Nat) (outcome : Nat → HbiStatus) :
    BlockLoop handle .firmware (completeFw handle) outcome outcome (fwTail handle outcome) where
  carries := fun _ => rfl
  run := by
    intro k done hdone
    simp [completeFw, setCommand, answered, hdone, fwTail]
  silent := by
    intro n
    by_cases hsuccess : outcome n = .success
    · simp [handedBytes, fwTail, hsuccess, HbiAsk.block]
    · simp [handedBytes, fwTail, hsuccess]

theorem imageSent_iff (handle : Nat) (buf : Nat → Byte) (size chunkLen : Nat)
    (outcome : Nat → HbiStatus) (k : Nat) (hsuccess : outcome (k + 1) = .success) :
    ImageSent handle buf size (chunkExchanges handle .firmware buf chunkLen outcome (k + 1)
        ++ fwTail handle outcome (k + 1))
      ↔ handedBytes (chunkExchanges handle .firmware buf chunkLen outcome (k + 1))
          = slice buf 0 size := by
  have hbytes : handedBytes (chunkExchanges handle .firmware buf chunkLen outcome (k + 1)
        ++ fwTail handle outcome (k + 1))
      = handedBytes (chunkExchanges handle .firmware buf chunkLen outcome (k + 1)) := by
    rw [handedBytes_append, (blockLoop_fw handle outcome).silent, List.append_nil]
  constructor
  · intro hsent
    rw [← hbytes]
    exact hsent.handed
  · intro hhanded
    refine ⟨hbytes.trans hhanded, _, _, rfl, hsuccess, ?_⟩
    intro x hx
    obtain ⟨j, -, rfl⟩ := List.mem_map.1 hx
    intro heq
    cases heq

/-- `hbi_wr_bin_fw` returns, and fails or sends what it is given, exactly when no block fits, a block
the offset comes to is refused, the conclusion is not accepted, or the blocks fill the size and all of
them are accepted. -/
theorem hbiWrBinFw_sends_iff (handle : Nat) (buf : Nat → Byte) (size blockSize : BitVec 32)
    (outcome : Nat → HbiStatus) :
    (∃ fuel record status,
      (hbiWrBinFw fuel handle buf size.toNat blockSize.toNat).run (answered outcome) []
          = (record, some status) ∧
        (status ≠ .success ∨ ImageSent handle buf size.toNat record))
      ↔ WrBinSends size.toNat (blockSize.toNat <<< 1 % 2 ^ 32) outcome outcome := by
  have hlt : size.toNat < 2 ^ 32 := size.isLt
  simp only [hbiWrBinFw, wrBinFwLoop_eq_wrBinLoop]
  generalize size.toNat = size at hlt ⊢
  generalize blockSize.toNat <<< 1 % 2 ^ 32 = chunkLen
  by_cases hfits : size < chunkLen ∨ chunkLen = 0
  · constructor
    · intro _
      exact Or.inl hfits
    · intro _
      refine ⟨1, [], .resourceErr, ?_, Or.inl (by decide)⟩
      rw [wrBinLoop, if_pos hfits]
      rfl
  constructor
  · intro hexists
    obtain ⟨fuel, record, status, hrun, hsent⟩ := hexists
    by_cases hreached : Reached size chunkLen outcome fuel
    · rw [hreached.run_none handle .firmware (completeFw handle) buf hfits] at hrun
      exact absurd (congrArg Prod.snd hrun) (by simp)
    · obtain ⟨k, hk, hbefore, hlast⟩ := exists_last_turn hreached
      obtain ⟨more, status', hrun', hiff⟩ := (blockLoop_fw handle outcome).last_sends
        buf (ImageSent handle buf size) hlt hfits hbefore hlast
        (fun _ => imageSent_iff handle buf size chunkLen outcome k) (fuel - 1 - k)
      rw [show fuel - 1 - k + 1 + k = fuel by omega, hrun] at hrun'
      obtain ⟨rfl, hstatus⟩ := Prod.mk.inj hrun'
      obtain rfl := Option.some.inj hstatus
      exact hiff.1 hsent
  · intro hsends
    obtain ⟨n, hn⟩ := hsends.ends hlt hfits
    obtain ⟨k, -, hbefore, hlast⟩ := exists_last_turn hn
    obtain ⟨more, status, hrun, hiff⟩ := (blockLoop_fw handle outcome).last_sends
      buf (ImageSent handle buf size) hlt hfits hbefore hlast
      (fun _ => imageSent_iff handle buf size chunkLen outcome k) 0
    exact ⟨_, _, status, hrun, hiff.2 hsends⟩

/-- Three bytes in blocks of two: the fourth byte of the buffer is handed over too. -/
theorem hbiWrBinFw_sends_past_end :
    ∃ record, (hbiWrBinFw 2 5 (listMem [1, 2, 3, 4]) 3 1).run (answered fun _ => .success) []
        = (record, some .success) ∧
      handedBytes record = [1, 2, 3, 4] ∧ ¬ ImageSent 5 (listMem [1, 2, 3, 4]) 3 record := by
  refine ⟨_, rfl, by decide, ?_⟩
  intro hsent
  exact absurd hsent.handed (by decide)

/-! ### The command of a block -/

/-- Not a raw write to the port. -/
def IsRegisterAccess (op : BusOp) : Prop := ∀ data, op ≠ .portWrite data

theorem isRegisterAccess_read (reg : RegAddr) (size : Nat) : IsRegisterAccess (.read reg size) := by
  intro data heq
  cases heq

theorem isRegisterAccess_write (reg : RegAddr) (data : List Byte) :
    IsRegisterAccess (.write reg data) := by
  intro data heq
  cases heq

theorem asks_enterBootRom (pDev : TwDev) : (enterBootRom pDev).Asks IsRegisterAccess := by
  have hmode : (twChkDevBootRomMode pDev).Asks IsRegisterAccess := by
    apply (asks_readWord (isRegisterAccess_read _ _)).bind
    intro result
    cases result with
    | error status => trivial
    | ok val =>
        dsimp only
        split
        · trivial
        · trivial
  have hreset : (twReset pDev .toBoot).Asks IsRegisterAccess := by
    apply asks_chk (asks_writeWord (isRegisterAccess_write _ _))
    apply (asks_readWord (isRegisterAccess_read _ _)).bind
    intro result
    cases result with
    | error status => trivial
    | ok val =>
        dsimp only
        split
        · trivial
        · trivial
  apply hmode.bind
  intro ret
  split
  · trivial
  · split
    · exact hreset
    · trivial

/-- A block goes to the port at most once and last. The command answers success when the port took it,
and every answer but that and an internal error leaves the port alone. -/
theorem twBootWrite_run (pDev : TwDev) (chunk : List Byte)
    (answer : BusRecord → BusOp → BusAnswer) (done : BusRecord) :
    ∃ before, (∀ x ∈ before, IsRegisterAccess x.1) ∧
      ((∃ status, status ≠ .success ∧
        (twBootWrite pDev (some (some chunk))).run answer done = (done ++ before, status)) ∨
      ∃ ans, (twBootWrite pDev (some (some chunk))).run answer done
        = (done ++ before ++ [(.portWrite chunk, ans)],
            if ans.status = .ok then .success else .internalErr)) := by
  obtain ⟨before, hbefore, hasked⟩ := (asks_enterBootRom pDev).run answer done
  refine ⟨before, hasked, ?_⟩
  have hrun := Prog.run_bind answer done (enterBootRom pDev) fun status =>
    if status ≠ .success then pure status
    else do
      let sslStatus ← sslPortWrite chunk
      pure (if sslStatus = .ok then .success else .internalErr)
  rw [hbefore] at hrun
  by_cases hfailed : ((enterBootRom pDev).run answer done).2 ≠ .success
  · rw [if_pos hfailed] at hrun
    exact Or.inl ⟨_, hfailed, hrun⟩
  · rw [if_neg hfailed, sslPortWrite_eq] at hrun
    exact Or.inr ⟨_, hrun⟩

end VprocSdk
