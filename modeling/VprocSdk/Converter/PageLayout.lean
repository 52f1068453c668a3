import VprocSdk.Converter.BlockBytes

/-!
# Where the writes of a segment begin

A segment fills pages of 512 bytes, the first one from its address on. A page begins with a write with an
address, which fills what is left of a block. The writes behind it go on in the page: each but the last one
fills a block, less two bytes. The last one ends the page, and when that leaves room in its block for an
address and more, the next page begins in the same block.

So where the writes begin, and what the last one leaves of its block, follow from the address and the length
of the segment, the block size and the size of the first write.
-/

namespace VprocSdk

open Lib

structure SegmentLayout where
  addr : Int
  len : Nat
  block : Nat
  first : Nat
  deriving DecidableEq, Repr

/-- What is left of a block stays for the next segment when it has room for 10 bytes. -/
def keptRoom (pad : Nat) : Nat := if pad < 10 then 0 else pad

namespace SegmentLayout

variable (l : SegmentLayout)

/-- The bytes of the page of the segment's address from there on. -/
def room : Nat := (512 - l.addr % 0x100 / 2 * 2).toNat

def pageStart : Nat → Nat
  | 0 => 0
  | n + 1 => l.room + 512 * n

/-- The size of a write that goes on in its page and fills a block. -/
def step : Nat := l.block - 2

/-- The size of the first write of a page. With `rest` bytes for the last write of the page before, the block
of that one has room for another eight control bytes and two bytes of data, or the page begins a block. -/
def firstWrite : Nat → Nat
  | 0 => l.first
  | n + 1 =>
      let rest := (l.pageStart (n + 1) - (l.pageStart n + firstWrite n)) % l.step
      if rest = 0 ∨ l.block < rest + 12 then l.block - 8 else l.block - rest - 10

/-- Where the `k`-th of the writes that go on in page `n` begins. -/
def place (n k : Nat) : Nat := l.pageStart n + l.firstWrite n + k * l.step

/-- A write that goes on in its page begins with byte `p`. -/
def Continues (p : Nat) : Prop := ∃ n k, p = l.place n k ∧ p < l.pageStart (n + 1)

/-- Byte `p` is a write that goes on in its page, on its own: it is the last one of the segment or of its
page. -/
def SingleAt (p : Nat) : Prop := l.Continues p ∧ p < l.len ∧ (p + 1 = l.len ∨ ∃ n, p + 1 = l.pageStart n)

def Single : Prop := ∃ p, l.SingleAt p

def lastPage : Nat := if l.len ≤ l.room then 0 else (l.len - l.room - 1) / 512 + 1

/-- What the last write of the segment leaves of its block for the next one. -/
def left : Nat :=
  if l.len ≤ l.place l.lastPage 0 then keptRoom (l.place l.lastPage 0 - l.len)
  else
    let size := (l.len - l.place l.lastPage 0 - 1) % l.step + 1
    if l.len - size + l.step ≤ l.pageStart (l.lastPage + 1) then keptRoom (l.step - size) else 0

/-- The sizes that a block and its first write can have. -/
structure Sound : Prop where
  block : 32 ≤ l.block ∧ l.block ≤ 256
  first : 1 ≤ l.first ∧ l.first ≤ 248

/-! ### Pages and places -/

variable {l} {n m k p : Nat}

theorem room_range : 258 ≤ l.room ∧ l.room ≤ 512 := by
  unfold room
  omega

theorem pageStart_room : l.pageStart n + 258 ≤ l.pageStart (n + 1) ∧ l.pageStart (n + 1) ≤ l.pageStart n + 512 := by
  have hroom := l.room_range
  cases n with
  | zero =>
      simp only [pageStart]
      omega
  | succ n =>
      simp only [pageStart]
      omega

theorem pageStart_succ_le (h : n < m) : l.pageStart (n + 1) ≤ l.pageStart m := by
  obtain ⟨m, rfl⟩ : ∃ m', m = m' + 1 := ⟨m - 1, by omega⟩
  simp only [pageStart]
  omega

theorem room_at : (0x100 : Int) * 2 - (l.addr + l.pageStart n) % 0x100 / 2 * 2
    = l.pageStart (n + 1) - l.pageStart n := by
  cases n with
  | zero =>
      simp only [pageStart, room]
      omega
  | succ n =>
      simp only [pageStart, room]
      omega

theorem page_unique (hn : l.pageStart n ≤ p ∧ p < l.pageStart (n + 1))
    (hm : l.pageStart m ≤ p ∧ p < l.pageStart (m + 1)) : n = m := by
  rcases Nat.lt_trichotomy n m with hlt | heq | hgt
  · have hnext := l.pageStart_succ_le hlt
    omega
  · exact heq
  · have hnext := l.pageStart_succ_le hgt
    omega

theorem lastPage_eq (hlow : l.pageStart n < l.len) (hhigh : l.len ≤ l.pageStart (n + 1)) : l.lastPage = n := by
  have hroom := l.room_range
  unfold lastPage
  cases n with
  | zero =>
      simp only [pageStart] at hlow hhigh
      rw [if_pos (by omega)]
  | succ n =>
      simp only [pageStart] at hlow hhigh
      rw [if_neg (by omega)]
      omega

theorem place_zero : l.place n 0 = l.pageStart n + l.firstWrite n := by
  unfold place
  omega

theorem place_succ : l.place n (k + 1) = l.place n k + l.step := by
  unfold place
  rw [Nat.succ_mul]
  omega

theorem place_mono : l.place n 0 ≤ l.place n k := by
  unfold place
  omega

theorem place_succ_le (h : k < m) : l.place n (k + 1) ≤ l.place n m := by
  unfold place
  have hmul := Nat.mul_le_mul_right l.step (by omega : k + 1 ≤ m)
  omega

section Sound

variable (h : l.Sound)
include h

theorem Sound.step_range : 30 ≤ l.step ∧ l.step + 2 = l.block ∧ l.step ≤ 254 := by
  have hblock := h.block
  unfold step
  omega

theorem Sound.firstWrite_range : 1 ≤ l.firstWrite n ∧ l.firstWrite n ≤ 248 := by
  have hblock := h.block
  cases n with
  | zero => exact h.first
  | succ n =>
      rw [firstWrite]
      split <;> omega

theorem Sound.firstWrite_next (hin : l.place n k ≤ l.pageStart (n + 1))
    (hrest : l.pageStart (n + 1) ≤ l.place n k + l.step) :
    l.firstWrite (n + 1) =
      if l.pageStart (n + 1) = l.place n k ∨ l.pageStart (n + 1) = l.place n k + l.step ∨
        l.block < l.pageStart (n + 1) - l.place n k + 12 then l.block - 8
      else l.block - (l.pageStart (n + 1) - l.place n k) - 10 := by
  have hstep := h.step_range
  obtain ⟨rest, hrest'⟩ : ∃ rest, l.pageStart (n + 1) = l.place n k + rest := ⟨_, (Nat.add_sub_of_le hin).symm⟩
  have hmod : (l.pageStart (n + 1) - (l.pageStart n + l.firstWrite n)) % l.step = rest % l.step := by
    have hsplit : l.pageStart (n + 1) - (l.pageStart n + l.firstWrite n) = rest + k * l.step := by
      rw [hrest', place]
      omega
    rw [hsplit, Nat.add_mul_mod_self_right]
  rw [firstWrite, hmod, hrest', Nat.add_sub_cancel_left]
  rcases Nat.lt_or_ge rest l.step with hlt | hge
  · rw [Nat.mod_eq_of_lt hlt]
    split <;> split <;> omega
  · obtain rfl : rest = l.step := by omega
    rw [Nat.mod_self, if_pos (.inl rfl), if_pos (.inr (.inl rfl))]

/-- Between the begin of a page and the end of its first write no write goes on. -/
theorem Sound.continues_behind (hp : l.Continues p) (hn : l.pageStart n ≤ p) : l.place n 0 ≤ p := by
  obtain ⟨m, k, rfl, hm⟩ := hp
  rcases Nat.lt_trichotomy m n with hlt | rfl | hgt
  · have hnext := l.pageStart_succ_le hlt
    omega
  · exact l.place_mono
  · have hnext := l.pageStart_succ_le hgt
    have hroom : l.pageStart n + 258 ≤ l.pageStart (n + 1) := l.pageStart_room.1
    have hfirst : l.firstWrite n ≤ 248 := h.firstWrite_range.2
    have hplace : l.pageStart m ≤ l.place m k := by
      unfold place
      omega
    rw [place_zero]
    omega

theorem Sound.continues_next (hp : l.Continues p) (hlt : l.place n k < p) : l.place n (k + 1) ≤ p ∧ p < l.pageStart (n + 1) ∨ l.place (n + 1) 0 ≤ p := by
  by_cases hpage : l.pageStart (n + 1) ≤ p
  · exact .inr (h.continues_behind hp hpage)
  · obtain ⟨m, j, rfl, hm⟩ := hp
    have hstart : l.pageStart n ≤ l.place n k ∧ l.pageStart m ≤ l.place m j := by
      unfold place
      omega
    obtain rfl : n = m := page_unique ⟨by omega, by omega⟩ ⟨hstart.2, hm⟩
    have hkj : k < j := by
      by_contra hge
      have hmono := Nat.mul_le_mul_right l.step (by omega : j ≤ k)
      unfold place at hlt
      omega
    exact .inl ⟨place_succ_le hkj, by omega⟩

end Sound

theorem left_first (hlow : l.pageStart n < l.len) (hfit : l.len ≤ l.place n 0)
    (hpage : l.len ≤ l.pageStart (n + 1)) : l.left = keptRoom (l.place n 0 - l.len) := by
  rw [left, lastPage_eq hlow hpage, if_pos hfit]

theorem left_later (hlow : l.place n k < l.len) (hend : l.len ≤ l.place n k + l.step)
    (hpage : l.len ≤ l.pageStart (n + 1)) :
    l.left = if l.place n k + l.step ≤ l.pageStart (n + 1) then keptRoom (l.place n k + l.step - l.len) else 0 := by
  have hfirst : l.place n 0 ≤ l.place n k := place_mono
  have hstart : l.pageStart n ≤ l.place n 0 := by
    rw [place_zero]
    omega
  have hsize : (l.len - l.place n 0 - 1) % l.step + 1 = l.len - l.place n k := by
    have hsplit : l.len - l.place n 0 - 1 = (l.len - l.place n k - 1) + k * l.step := by
      rw [place_zero, place] at *
      omega
    rw [hsplit, Nat.add_mul_mod_self_right, Nat.mod_eq_of_lt (by omega)]
    omega
  rw [left, lastPage_eq (by omega) hpage, if_neg (by omega)]
  dsimp only
  rw [hsize]
  have hback : l.len - (l.len - l.place n k) = l.place n k := by omega
  have hrest : l.step - (l.len - l.place n k) = l.place n k + l.step - l.len := by omega
  rw [hback, hrest]

/-! ### The states of the loop -/

variable (l) in
/-- The loop is about to begin page `n` with a block. -/
structure Begins (st : FormatState) (n : Nat) : Prop where
  index : st.segIndex = l.pageStart n
  addr : st.addr = l.addr + l.pageStart n
  page : st.remPageBytes = 0
  space : st.blockSizeBytes = l.firstWrite n + if st.pageSelect then 10 else 8

variable (l) in
/-- The loop is about to make the `k`-th write that goes on in page `n`. -/
structure GoesOn (st : FormatState) (n k : Nat) : Prop where
  index : st.segIndex = l.place n k
  addr : st.addr = l.addr + l.place n k
  inside : l.place n k < l.pageStart (n + 1)
  page : st.remPageBytes = l.pageStart (n + 1) - l.place n k
  space : st.blockSizeBytes = l.block
  left : st.leftOverBytes = 0
  selected : st.pageSelect = false

variable (l) in
def Reached (st : FormatState) (x : Nat) : Prop :=
  (∃ n, x = l.pageStart n ∧ l.Begins st n) ∨ ∃ n k, x = l.place n k ∧ l.GoesOn st n k

variable (l) in
def Ended (st : FormatState) : Prop := st.segIndex = l.len ∧ st.globals = ⟨false, l.left⟩

variable (l) in
/-- A turn from byte `x` on: no write that goes on begins before the byte where the next turn begins, and the
segment has ended where that is behind it. -/
def Turned (st : FormatState) (x : Nat) : Prop :=
  ∃ x', x < x' ∧ (∀ p, l.Continues p → x < p → x' ≤ p) ∧
    (l.len ≤ x' ∧ l.Ended st ∨ x' < l.len ∧ l.Reached st x')

theorem finishBlock_state {segmentList : List Int} {st : FormatState} {x space : Nat} (writeBit : Int)
    (block : List Int) (hidx : st.segIndex = x) (hspace : st.blockSizeBytes = space)
    (hlt : x < segmentList.length) :
    (finishBlock segmentList writeBit st block).2 =
      { st with
        addr := st.addr + (min space (segmentList.length - x) : Nat)
        segIndex := x + (min space (segmentList.length - x) : Nat)
        remPageBytes := st.remPageBytes - (min space (segmentList.length - x) : Nat)
        blockSizeBytes := (min space (segmentList.length - x) : Nat)
        leftOverBytes := keptRoom (space - (segmentList.length - x)) } := by
  have hsize : (if st.blockSizeBytes > segmentList.length - st.segIndex then
      segmentList.length - st.segIndex else st.blockSizeBytes)
        = (min space (segmentList.length - x) : Nat) := by
    rw [hidx, hspace]
    split <;> omega
  have hpad : (if st.blockSizeBytes > segmentList.length - st.segIndex then
      st.blockSizeBytes - (segmentList.length - st.segIndex) else 0)
        = (space - (segmentList.length - x) : Nat) := by
    rw [hidx, hspace]
    split <;> omega
  have hleft : (if ((space - (segmentList.length - x) : Nat) : Int) ≥ 10 then
      ((space - (segmentList.length - x) : Nat) : Int) else 0)
        = keptRoom (space - (segmentList.length - x)) := by
    unfold keptRoom
    split <;> split <;> omega
  unfold finishBlock
  dsimp only
  rw [hsize, hpad, hleft, hidx]

theorem first_turned (h : l.Sound) {st' : FormatState} {x : Nat} (hx : x ≤ l.pageStart n)
    (hnone : ∀ p, l.Continues p → x < p → l.pageStart n ≤ p)
    (hcases : l.len ≤ l.place n 0 ∧ l.Ended st' ∨ l.place n 0 < l.len ∧ l.GoesOn st' n 0) :
    l.Turned st' x := by
  have hfirst : 1 ≤ l.firstWrite n := h.firstWrite_range.1
  have hplace : l.place n 0 = l.pageStart n + l.firstWrite n := place_zero
  refine ⟨l.place n 0, by omega, fun p hp hlt => h.continues_behind hp (hnone p hp hlt), ?_⟩
  exact hcases.imp_right fun hgoes => ⟨hgoes.1, .inr ⟨n, 0, rfl, hgoes.2⟩⟩

section Turns

variable {words : Nat} {segmentList : List Int} {st : FormatState} (h : l.Sound)
  (hlen : l.len = segmentList.length) (hblock : l.block = 2 * words)
include h hlen hblock

theorem first_turn (writeBit : Int) (block : List Int) (hidx : st.segIndex = l.pageStart n)
    (haddr : st.addr = l.addr + l.pageStart n)
    (hpage : st.remPageBytes = l.pageStart (n + 1) - l.pageStart n)
    (hspace : st.blockSizeBytes = l.firstWrite n) (hselect : st.pageSelect = false)
    (hlt : l.pageStart n < l.len) :
    l.len ≤ l.place n 0 ∧
        l.Ended { (finishBlock segmentList writeBit st block).2 with blockSizeBytes := words * 2 } ∨
      l.place n 0 < l.len ∧
        l.GoesOn { (finishBlock segmentList writeBit st block).2 with blockSizeBytes := words * 2 } n 0 := by
  have hfirst : l.firstWrite n ≤ 248 := h.firstWrite_range.2
  have hroom : l.pageStart n + 258 ≤ l.pageStart (n + 1) := pageStart_room.1
  rw [finishBlock_state writeBit block hidx hspace (by omega)]
  have hplace : l.place n 0 = l.pageStart n + l.firstWrite n := place_zero
  by_cases hend : l.len ≤ l.place n 0
  · refine .inl ⟨hend, ?_, ?_⟩
    · simp only
      omega
    · rw [left_first hlt hend (by omega)]
      simp only [FormatState.globals, hselect, ConverterGlobals.mk.injEq, true_and, Int.natCast_inj]
      congr 1
      omega
  · have hmin : min (l.firstWrite n) (segmentList.length - l.pageStart n) = l.firstWrite n := by omega
    have hkept : keptRoom (l.firstWrite n - (segmentList.length - l.pageStart n)) = 0 := by
      rw [keptRoom, if_pos (by omega)]
    rw [hmin, hkept]
    refine .inr ⟨by omega, ?_, ?_, by omega, ?_, ?_, rfl, hselect⟩
    · simp only
      omega
    · simp only
      omega
    · simp only
      omega
    · simp only
      omega

theorem begins_turn (hst : l.Begins st n) (hlt : l.pageStart n < l.len) :
    l.Turned (formatBlock segmentList words false st).2 (l.pageStart n) := by
  have hpage : hbiMaxPageLen * 2 - st.addr % 0x100 / 2 * 2 = l.pageStart (n + 1) - l.pageStart n := by
    rw [hst.addr, hbiMaxPageLen]
    exact room_at
  have hspace : st.blockSizeBytes - ((pageControl false st.pageSelect st.addr ++ [st.addr % 0x100 / 2]).length + 1)
      = l.firstWrite n := by
    rw [hst.space, List.length_append, pageControl_length, List.length_singleton]
    cases st.pageSelect with
    | true =>
        simp only [Bool.false_eq_true, if_false, if_true]
        omega
    | false =>
        simp only [Bool.false_eq_true, if_false]
        omega
  unfold formatBlock
  rw [if_pos hst.page]
  refine first_turned h (Nat.le_refl _) (fun p _ hlt => Nat.le_of_lt hlt) ?_
  exact first_turn h hlen hblock 0x80 _ hst.index hst.addr hpage hspace rfl hlt

theorem continue_turn (hst : l.GoesOn st n k) (hlt : l.place n k < l.len)
    (hfull : l.place n k + l.step ≤ l.pageStart (n + 1)) :
    l.Turned { (continueBlock segmentList st).2 with blockSizeBytes := words * 2 } (l.place n k) := by
  have hstep := h.step_range
  have hspace : st.blockSizeBytes - 2 = l.step := by
    rw [hst.space]
    omega
  have hnext : l.place n (k + 1) = l.place n k + l.step := place_succ
  have hindex := hst.index
  have haddr := hst.addr
  have hpage := hst.page
  have hstate : (continueBlock segmentList st).2 = _ := @finishBlock_state segmentList
    { st with blockSizeBytes := st.blockSizeBytes - 2 } (l.place n k) l.step 0 [0xFB] hst.index hspace (by omega)
  rw [hstate]
  refine ⟨l.place n (k + 1), by omega, ?_, ?_⟩
  · intro p hp hbehind
    rcases h.continues_next hp hbehind with ⟨hle, -⟩ | hle
    · exact hle
    · have hstart : l.place (n + 1) 0 = l.pageStart (n + 1) + l.firstWrite (n + 1) := place_zero
      omega
  · by_cases hend : l.len ≤ l.place n (k + 1)
    · refine .inl ⟨hend, ?_, ?_⟩
      · simp only
        omega
      · rw [left_later hlt (by omega) (by omega), if_pos hfull]
        simp only [FormatState.globals, hst.selected, ConverterGlobals.mk.injEq, true_and, Int.natCast_inj]
        congr 1
        omega
    · have hmin : min l.step (segmentList.length - l.place n k) = l.step := by omega
      have hkept : keptRoom (l.step - (segmentList.length - l.place n k)) = 0 := by
        rw [keptRoom, if_pos (by omega)]
      rw [hmin, hkept]
      refine .inr ⟨by omega, ?_⟩
      by_cases hexact : l.pageStart (n + 1) = l.place n (k + 1)
      · -- the page is full, and the next one begins a block
        have hfirst := h.firstWrite_next (by omega : l.place n k ≤ l.pageStart (n + 1)) (by omega)
        rw [if_pos (by omega)] at hfirst
        refine .inl ⟨n + 1, hexact.symm, ?_, ?_, ?_, ?_⟩
        · simp only
          omega
        · simp only
          omega
        · simp only
          omega
        · simp only [hst.selected, Bool.false_eq_true, if_false]
          omega
      · refine .inr ⟨n, k + 1, rfl, ?_, ?_, by omega, ?_, ?_, rfl, hst.selected⟩
        · simp only
          omega
        · simp only
          omega
        · simp only
          omega
        · simp only
          omega

theorem hybrid_turn (hst : l.GoesOn st n k) (hlt : l.place n k < l.len)
    (hpart : l.pageStart (n + 1) < l.place n k + l.step) :
    l.Turned { (hybridBlock segmentList false st).2 with blockSizeBytes := words * 2 } (l.place n k) := by
  have hstep := h.step_range
  have hinside := hst.inside
  have hindex := hst.index
  have haddr := hst.addr
  have hpage := hst.page
  have hspace := hst.space
  have hnext : l.place n (k + 1) = l.place n k + l.step := place_succ
  obtain ⟨size, block, st', start, next, parts⟩ :=
    @hybridBlock_parts segmentList st false (by omega) (by omega)
  obtain ⟨hpos, hfits, hrem⟩ := parts.bounds
  have hends := parts.ends
  have hindex' := parts.index
  have haddr' := parts.addr
  have hspace' := parts.space
  have hglobals : st'.globals = ⟨false, 0⟩ := by
    rw [parts.globals, FormatState.globals, hst.selected, hst.left]
  have hnone : ∀ p, l.Continues p → l.place n k < p → l.pageStart (n + 1) ≤ p := by
    intro p hp hbehind
    rcases h.continues_next hp hbehind with ⟨hle, hin⟩ | hle
    · omega
    · have hstart : l.place (n + 1) 0 = l.pageStart (n + 1) + l.firstWrite (n + 1) := place_zero
      omega
  rw [parts.split]
  by_cases hend : l.len ≤ l.pageStart (n + 1)
  · -- the segment ends here, and the rest of the block is padded
    rw [if_pos (by omega)]
    refine ⟨l.pageStart (n + 1), by omega, hnone, .inl ⟨hend, ?_, ?_⟩⟩
    · simp only
      omega
    · rw [left_later hlt (by omega) hend, if_neg (by omega)]
      exact hglobals
  · have hfirst := h.firstWrite_next (by omega : l.place n k ≤ l.pageStart (n + 1)) (by omega)
    by_cases hroom : l.block < l.pageStart (n + 1) - l.place n k + 12
    · rw [if_pos (by omega)]
      rw [if_pos (.inr (.inr hroom))] at hfirst
      have hselect : st'.pageSelect = false := congrArg ConverterGlobals.pageSelect hglobals
      refine ⟨l.pageStart (n + 1), by omega, hnone, .inr ⟨by omega, .inl ⟨n + 1, rfl, ?_, ?_, rfl, ?_⟩⟩⟩
      · simp only
        omega
      · simp only
        omega
      · simp only [hselect, Bool.false_eq_true, if_false]
        omega
    · rw [if_neg (by omega)]
      rw [if_neg (by omega)] at hfirst
      have hnextAddr := parts.next_addr
      have hnextIndex := parts.next_index
      have hnextSpace : next.blockSizeBytes = st'.blockSizeBytes - 8 := parts.next_space
      have hnextPage : next.remPageBytes = l.pageStart (n + 1 + 1) - l.pageStart (n + 1) := by
        rw [parts.next_page, ← room_at]
        have hhere : st'.addr = l.addr + l.pageStart (n + 1) := by omega
        rw [hhere]
      refine first_turned h (Nat.le_of_lt hinside) hnone ?_
      exact first_turn h hlen hblock 0x80 start (by omega) (by omega) hnextPage (by omega)
        (parts.next_select.trans hst.selected) (by omega)

theorem goesOn_turn (hst : l.GoesOn st n k) (hlt : l.place n k < l.len) :
    l.Turned (formatBlock segmentList words false st).2 (l.place n k) := by
  have hstep := h.step_range
  have hinside := hst.inside
  have hpage := hst.page
  have hspace := hst.space
  unfold formatBlock
  rw [if_neg (by omega)]
  by_cases hfull : st.remPageBytes ≥ st.blockSizeBytes - 2
  · rw [if_pos hfull]
    exact continue_turn h hlen hblock hst hlt (by omega)
  · rw [if_neg hfull]
    exact hybrid_turn h hlen hblock hst hlt (by omega)

omit hblock in
theorem continuesByte_iff {x : Nat} (hst : l.Reached st x) (hlt : x < l.len) :
    ContinuesByte segmentList.length st ↔ l.SingleAt x := by
  unfold ContinuesByte SingleAt
  rcases hst with ⟨n, rfl, hst⟩ | ⟨n, k, rfl, hst⟩
  · refine iff_of_false (fun hbyte => hbyte.1 hst.page) fun hsingle => ?_
    have hbehind := h.continues_behind hsingle.1 (Nat.le_refl _)
    have hfirst : 1 ≤ l.firstWrite n := h.firstWrite_range.1
    rw [place_zero] at hbehind
    omega
  · have hinside := hst.inside
    have hpage := hst.page
    have hindex := hst.index
    have hstart : l.pageStart n ≤ l.place n k := by
      unfold place
      omega
    constructor
    · rintro ⟨-, hlast⟩
      refine ⟨⟨n, k, rfl, hinside⟩, hlt, ?_⟩
      rcases hlast with hlast | hlast
      · exact .inr ⟨n + 1, by omega⟩
      · exact .inl (by omega)
    · rintro ⟨-, -, hlast | ⟨m, hlast⟩⟩
      · exact ⟨by omega, .inr (by omega)⟩
      · have hnm : n < m := by
          by_contra hle
          rcases Nat.lt_or_eq_of_le (Nat.le_of_not_lt hle) with hmn | rfl
          · have hnext := l.pageStart_succ_le hmn
            have hroom : l.pageStart m + 258 ≤ l.pageStart (m + 1) := pageStart_room.1
            omega
          · omega
        have hnext := l.pageStart_succ_le hnm
        exact ⟨by omega, .inl (by omega)⟩

/-- The loop makes a write of a single byte exactly where the layout has one from there on, and leaves what the
layout says. -/
theorem formatLoop_layout {x fuel : Nat} {blocks : List Int} {last : FormatState} (hst : l.Reached st x)
    (hlt : x < l.len) (hrun : formatLoop segmentList words false fuel st = some (blocks, last)) :
    last.globals = ⟨false, l.left⟩ ∧
      (ReachesSingle segmentList words st ↔ ∃ p, x ≤ p ∧ l.SingleAt p) := by
  have hindex : st.segIndex = x := by
    rcases hst with ⟨n, rfl, hst⟩ | ⟨n, k, rfl, hst⟩
    · exact hst.index
    · exact hst.index
  have hmore : st.segIndex < segmentList.length := by omega
  induction fuel generalizing st x blocks with
  | zero =>
      rw [formatLoop, if_pos hmore] at hrun
      cases hrun
  | succ fuel ih =>
      rw [formatLoop, if_pos hmore] at hrun
      obtain ⟨⟨rest, last⟩, hrest, hdone⟩ := Option.bind_eq_some_iff.1 hrun
      cases hdone
      have hrest' : formatLoop segmentList words false fuel (formatBlock segmentList words false st).2
        = some (rest, last) := hrest
      have hbyte := continuesByte_iff h hlen hst hlt
      obtain ⟨x', hgets, hnone, hnext⟩ : l.Turned (formatBlock segmentList words false st).2 x := by
        rcases hst with ⟨n, rfl, hst⟩ | ⟨n, k, rfl, hst⟩
        · exact begins_turn h hlen hblock hst hlt
        · exact goesOn_turn h hlen hblock hst hlt
      have hfrom : (∃ p, x ≤ p ∧ l.SingleAt p) ↔ l.SingleAt x ∨ ∃ p, x' ≤ p ∧ l.SingleAt p := by
        constructor
        · rintro ⟨p, hp, hsingle⟩
          rcases Nat.lt_or_eq_of_le hp with hbehind | rfl
          · exact .inr ⟨p, hnone p hsingle.1 hbehind, hsingle⟩
          · exact .inl hsingle
        · rintro (hsingle | ⟨p, hp, hsingle⟩)
          · exact ⟨x, Nat.le_refl x, hsingle⟩
          · exact ⟨p, by omega, hsingle⟩
      have hreaches : ReachesSingle segmentList words st ↔ ContinuesByte segmentList.length st ∨
          ReachesSingle segmentList words (formatBlock segmentList words false st).2 := by
        constructor
        · rintro (⟨-, hnow⟩ | ⟨-, hlater⟩)
          · exact .inl hnow
          · exact .inr hlater
        · rintro (hnow | hlater)
          · exact .here hmore hnow
          · exact .later hmore hlater
      rw [hfrom, hreaches, hbyte]
      rcases hnext with ⟨hend, hended⟩ | ⟨hlt', hst'⟩
      · have hstop : ¬ (formatBlock segmentList words false st).2.segIndex < segmentList.length := by
          rw [hended.1]
          omega
        rw [formatLoop_stop hstop] at hrest'
        cases hrest'
        refine ⟨hended.2, or_congr_right (iff_of_false ?_ ?_)⟩
        · rintro (⟨hmore', -⟩ | ⟨hmore', -⟩)
          · exact hstop hmore'
          · exact hstop hmore'
        · rintro ⟨p, hp, -, hlt', -⟩
          omega
      · have hindex' : (formatBlock segmentList words false st).2.segIndex = x' := by
          rcases hst' with ⟨n, rfl, hst'⟩ | ⟨n, k, rfl, hst'⟩
          · exact hst'.index
          · exact hst'.index
        obtain ⟨hglobals, hlater⟩ := ih hst' hlt' hrest' hindex' (by omega)
        exact ⟨hglobals, or_congr_right hlater⟩

end Turns

end SegmentLayout

/-! ### Segments one behind the other -/

def segmentLayout (words : Nat) (globals : ConverterGlobals) (segment : Int × Nat) : SegmentLayout where
  addr := segment.1
  len := segment.2
  block := 2 * words
  first := ((if globals.leftOverBytes > 0 then globals.leftOverBytes else words * 2)
    - if globals.pageSelect then 10 else 8).toNat

def ConverterGlobals.behind (words : Nat) (globals : ConverterGlobals) (segment : Int × Nat) : ConverterGlobals :=
  if segment.2 = 0 then globals else { pageSelect := false, leftOverBytes := (segmentLayout words globals segment).left }

/-- In some of the segments, each given by its address and length, a write that goes on in its page has a single
byte. -/
def SingleWrite (words : Nat) : List (Int × Nat) → ConverterGlobals → Prop
  | [], _ => False
  | segment :: segments, globals =>
      (segmentLayout words globals segment).Single ∨ SingleWrite words segments (globals.behind words segment)

theorem segmentLayout_sound {words : Nat} {globals : ConverterGlobals} (hwords : 16 ≤ words ∧ words ≤ 128)
    (h : GlobalsSound globals) (segment : Int × Nat) :
    (segmentLayout words globals segment).Sound := by
  refine ⟨⟨?_, ?_⟩, ?_⟩
  · simp only [segmentLayout]
    omega
  · simp only [segmentLayout]
    omega
  · simp only [segmentLayout]
    rcases h with hzero | ⟨hlow, hhigh, hselect⟩
    · rw [if_neg (by omega)]
      split <;> omega
    · rw [if_pos (by omega), hselect]
      simp only [Bool.false_eq_true, if_false]
      omega

/-- `FormatSegmentToHbi` makes what the layout says, and no other entries than bytes unless it has a write of a
single byte. -/
theorem formatSegmentToHbi_layout {words : Nat} {globals : ConverterGlobals} {segmentList : List Int}
    (hwords : 16 ≤ words ∧ words ≤ 128) (hbytes : AllBytes segmentList) (h : GlobalsSound globals)
    (startAddress : Int) :
    ∃ blocks, formatSegmentToHbi segmentList.length segmentList startAddress words false globals
        = some (blocks, globals.behind words (startAddress, segmentList.length)) ∧
      GlobalsSound (globals.behind words (startAddress, segmentList.length)) ∧
      (AllBytes blocks ↔ ¬ (segmentLayout words globals (startAddress, segmentList.length)).Single) := by
  obtain ⟨blocks, globals', hrun, hglobals, hout⟩ := formatSegmentToHbi_ends hwords hbytes h startAddress
  obtain ⟨⟨blocks', last⟩, hloop, hdone⟩ := Option.bind_eq_some_iff.1 hrun
  cases hdone
  change formatLoop segmentList words false segmentList.length (.enter startAddress words globals) = _ at hloop
  obtain ⟨hlast, hsingle⟩ : last.globals = globals.behind words (startAddress, segmentList.length) ∧
      (ReachesSingle segmentList words (.enter startAddress words globals) ↔
        (segmentLayout words globals (startAddress, segmentList.length)).Single) := by
    rcases Nat.eq_zero_or_pos segmentList.length with hempty | hpos
    · have hstop : ¬ (FormatState.enter startAddress words globals).segIndex < segmentList.length := by
        rw [hempty]
        exact Int.lt_irrefl 0
      rw [formatLoop_stop hstop] at hloop
      cases hloop
      refine ⟨(if_pos hempty).symm, iff_of_false ?_ ?_⟩
      · rintro (⟨hmore, -⟩ | ⟨hmore, -⟩)
        · exact hstop hmore
        · exact hstop hmore
      · rintro ⟨p, -, hlt, -⟩
        rw [segmentLayout, hempty] at hlt
        exact Nat.not_lt_zero p hlt
    · have hsound := segmentLayout_sound hwords h (startAddress, segmentList.length)
      have hstart : (segmentLayout words globals (startAddress, segmentList.length)).Begins
          (.enter startAddress words globals) 0 := by
        refine ⟨rfl, (Int.add_zero _).symm, rfl, ?_⟩
        have hfirst : 1 ≤ (segmentLayout words globals (startAddress, segmentList.length)).first := hsound.first.1
        show (if globals.leftOverBytes > 0 then globals.leftOverBytes else (words : Int) * 2)
          = ((segmentLayout words globals (startAddress, segmentList.length)).first : Int)
            + if globals.pageSelect then 10 else 8
        simp only [segmentLayout] at hfirst ⊢
        omega
      obtain ⟨hlast, hsingle⟩ := SegmentLayout.formatLoop_layout hsound rfl rfl (.inl ⟨0, rfl, hstart⟩) hpos hloop
      refine ⟨hlast.trans (if_neg (by omega)).symm, hsingle.trans ?_⟩
      simp [SegmentLayout.Single, SegmentLayout.pageStart]
  rw [← hlast, ← hsingle]
  exact ⟨blocks, hrun, hglobals, hout⟩

end VprocSdk
