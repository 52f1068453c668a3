import VprocSdk.Lib.Digits
import VprocSdk.Lnx.ProcText

/-!
# Numbers in the procfs texts

`htoa` and `itoa` print a number, `atoh` and `atoi` read one. The printers count the digits and then store
them from the last one back, which leaves the numeral in the buffer; the parsers fold over the characters
and skip those that are no digits. `atoh` counts the characters in an `unsigned char`: what it is handed
beyond 255 of them it goes on reading.
-/

namespace VprocSdk

open Lib

/-! ### `itoa` -/

/-- The first loop of `itoa`: the number of decimal digits of `tmp`. A 32-bit number is zero after ten
divisions. -/
def decDigits : Nat → Nat → Nat
  | 0, _ => 0
  | fuel + 1, tmp => if tmp = 0 then 0 else decDigits fuel (tmp / 10) + 1

/-- The second loop of `itoa`, from the last digit to the first. -/
def itoaLoop (index : Nat) : Nat → Nat → Stores
  | 0, _ => []
  | len + 1, num =>
      (len + 1 + index - 1, if num < 10 then BitVec.ofNat 8 num + chr '0' else BitVec.ofNat 8 (num % 10) + chr '0')
        :: itoaLoop index len (num / 10)

/-- `itoa`: the bytes stored, and the index behind them. -/
def itoa (num index : Nat) : Stores × Nat :=
  let len := if num = 0 then 1 else decDigits 10 num
  (itoaLoop index len num, index + len)

/-! ### What is printed -/

/-- The stores put a text at an index and change nothing else. -/
def Stores.Print (stores : Stores) (index : Nat) (text : List Byte) : Prop :=
  ∀ buf, stores.applied buf = overlay buf index text

def hexDigitChar (d : Nat) : Byte := chr ("0123456789ABCDEF".toList.getD d '0')

def decDigitChar (d : Nat) : Byte := chr ("0123456789".toList.getD d '0')

def hexText (n : Nat) : List Byte := (numeral 16 n).map hexDigitChar

def decText (n : Nat) : List Byte := (numeral 10 n).map decDigitChar

section Print

variable {stores stores' : Stores} {index : Nat} {text text' : List Byte}

theorem Stores.applied_append (buf : Nat → Byte) :
    (stores ++ stores').applied buf = stores'.applied (stores.applied buf) := List.foldl_append

theorem Stores.print_nil (index : Nat) : Stores.Print [] index [] := by
  intro buf
  exact (overlay_nil buf index).symm

theorem Stores.print_singleton (index : Nat) (c : Byte) : Stores.Print [(index, c)] index [c] := by
  intro buf
  exact update_eq_overlay buf index c

theorem Stores.Print.append (h : stores.Print index text) (h' : stores'.Print (index + text.length) text') :
    (stores ++ stores').Print index (text ++ text') := by
  intro buf
  rw [applied_append, h, h', overlay_append]

theorem Stores.Print.prepend (h : stores.Print (index + text'.length) text) (h' : stores'.Print index text') :
    (stores ++ stores').Print index (text' ++ text) := by
  intro buf
  rw [applied_append, h, h', overlay_append']

theorem print_lastDigits {b : Nat} {digit : Nat → Byte} {loop : Nat → Nat → Stores}
    (hnone : ∀ num, loop 0 num = [])
    (hsome : ∀ len num, loop (len + 1) num = (index + len, digit (num % b)) :: loop len (num / b))
    (len num : Nat) : (loop len num).Print index ((lastDigits b len num).map digit) := by
  induction len generalizing num with
  | zero =>
      rw [hnone]
      exact Stores.print_nil index
  | succ len ih =>
      have hlen : ((lastDigits b len (num / b)).map digit).length = len := by
        rw [List.length_map, lastDigits_length]
      have hlast := Stores.print_singleton (index + len) (digit (num % b))
      rw [← hlen] at hlast
      rw [hsome, lastDigits, List.map_append, List.map_singleton]
      have hboth := hlast.prepend (ih (num / b))
      rw [hlen] at hboth
      exact hboth

theorem htoaDigit_eq : ∀ d < 16, htoaDigit d = hexDigitChar d := by decide

theorem itoaDigit_eq : ∀ d < 10, BitVec.ofNat 8 d + chr '0' = decDigitChar d := by decide

theorem hexDigits_eq (fuel num : Nat) : hexDigits fuel num = countDigits 16 fuel num := by
  induction fuel generalizing num with
  | zero => rfl
  | succ fuel ih => rw [hexDigits, countDigits, ih]

theorem decDigits_eq (fuel num : Nat) : decDigits fuel num = countDigits 10 fuel num := by
  induction fuel generalizing num with
  | zero => rfl
  | succ fuel ih => rw [decDigits, countDigits, ih]

theorem hexText_length {n : Nat} (hn : n < 2 ^ 32) :
    (hexText n).length = if n = 0 then 1 else hexDigits 8 n := by
  rw [hexText, List.length_map, ← lastDigits_numeral (by decide) (show n < 16 ^ 8 from hn),
    lastDigits_length, hexDigits_eq]

theorem decText_length {n : Nat} (hn : n < 2 ^ 32) :
    (decText n).length = if n = 0 then 1 else decDigits 10 n := by
  have hfuel : n < 10 ^ 10 := by omega
  rw [decText, List.length_map, ← lastDigits_numeral (by decide) hfuel, lastDigits_length, decDigits_eq]

theorem htoaLoop_prints (index len num : Nat) :
    (htoaLoop index len num).Print index ((lastDigits 16 len num).map hexDigitChar) := by
  apply print_lastDigits
  · exact fun _ => rfl
  · intro len num
    have hplace : len + 1 + index - 1 = index + len := by omega
    have hlast : num &&& 0xF = num % 16 := Nat.and_two_pow_sub_one_eq_mod num 4
    have hrest : num >>> 4 = num / 16 := Nat.shiftRight_eq_div_pow num 4
    rw [htoaLoop, hplace, hlast, hrest, htoaDigit_eq _ (Nat.mod_lt _ (by decide))]

theorem itoaLoop_prints (index len num : Nat) :
    (itoaLoop index len num).Print index ((lastDigits 10 len num).map decDigitChar) := by
  apply print_lastDigits
  · exact fun _ => rfl
  · intro len num
    have hplace : len + 1 + index - 1 = index + len := by omega
    rw [itoaLoop, hplace]
    by_cases hsmall : num < 10
    · rw [if_pos hsmall, Nat.mod_eq_of_lt hsmall, itoaDigit_eq num hsmall]
    · rw [if_neg hsmall, itoaDigit_eq _ (Nat.mod_lt _ (by decide))]

/-- `htoa` prints the numeral and returns the index behind it. -/
theorem htoa_prints {n : Nat} (hn : n < 2 ^ 32) (index : Nat) :
    (htoa n index).1.Print index (hexText n) ∧ (htoa n index).2 = index + (hexText n).length := by
  have hloop := htoaLoop_prints index (if n = 0 then 1 else hexDigits 8 n) n
  rw [hexDigits_eq, lastDigits_numeral (by decide) (show n < 16 ^ 8 from hn), ← hexDigits_eq] at hloop
  rw [hexText_length hn]
  exact ⟨hloop, rfl⟩

theorem itoa_prints {n : Nat} (hn : n < 2 ^ 32) (index : Nat) :
    (itoa n index).1.Print index (decText n) ∧ (itoa n index).2 = index + (decText n).length := by
  have hfuel : n < 10 ^ 10 := by omega
  have hloop := itoaLoop_prints index (if n = 0 then 1 else decDigits 10 n) n
  rw [decDigits_eq, lastDigits_numeral (by decide) hfuel, ← decDigits_eq] at hloop
  rw [decText_length hn]
  exact ⟨hloop, rfl⟩

end Print

/-! ### What is read -/

def hexDigitOf (c : Byte) : Option Nat :=
  if chr '0' ≤ c ∧ c ≤ chr '9' then some (c.toNat - 48)
  else if chr 'A' ≤ c ∧ c ≤ chr 'F' then some (c.toNat - 55)
  else if chr 'a' ≤ c ∧ c ≤ chr 'f' then some (c.toNat - 87)
  else none

def decDigitOf (c : Byte) : Option Nat :=
  if chr '0' ≤ c ∧ c ≤ chr '9' then some (c.toNat - 48) else none

section Read

theorem atohMask_dec : ∀ c : Byte, chr '0' ≤ c ∧ c ≤ chr '9' →
    (c &&& 0x0F).setWidth 32 = BitVec.ofNat 32 (c.toNat - 48) := by decide +kernel

/-- The second mask makes the letters of both cases the same, and nothing else a letter. -/
theorem atohMask_letter : ∀ c : Byte, (chr 'A' ≤ c &&& 0xDF ∧ c &&& 0xDF ≤ chr 'F') ↔
    (chr 'A' ≤ c ∧ c ≤ chr 'F') ∨ (chr 'a' ≤ c ∧ c ≤ chr 'f') := by decide +kernel

theorem atohMask_upper : ∀ c : Byte, chr 'A' ≤ c ∧ c ≤ chr 'F' →
    ((c &&& 0xDF) &&& 0x07).setWidth 32 + 9 = BitVec.ofNat 32 (c.toNat - 55) := by decide +kernel

theorem atohMask_lower : ∀ c : Byte, chr 'a' ≤ c ∧ c ≤ chr 'f' →
    ((c &&& 0xDF) &&& 0x07).setWidth 32 + 9 = BitVec.ofNat 32 (c.toNat - 87) := by decide +kernel

theorem atoiMask : ∀ c : Byte, chr '0' ≤ c ∧ c ≤ chr '9' →
    (c - chr '0').setWidth 32 = BitVec.ofNat 32 (c.toNat - 48) := by decide +kernel

theorem shiftLeft_four (val : BitVec 32) : val <<< 4 = BitVec.ofNat 32 16 * val := by
  rw [BitVec.shiftLeft_eq_mul_twoPow, BitVec.mul_comm]
  rfl

theorem atohStep_eq (val : BitVec 32) (c : Byte) : atohStep val c = parseStep 32 16 hexDigitOf val c := by
  unfold atohStep parseStep hexDigitOf
  dsimp only
  rw [shiftLeft_four]
  by_cases hdec : chr '0' ≤ c ∧ c ≤ chr '9'
  · rw [if_pos hdec, if_pos hdec, atohMask_dec c hdec]
  · rw [if_neg hdec, if_neg hdec]
    by_cases hupper : chr 'A' ≤ c ∧ c ≤ chr 'F'
    · rw [if_pos ((atohMask_letter c).2 (.inl hupper)), if_pos hupper, atohMask_upper c hupper]
    · by_cases hlower : chr 'a' ≤ c ∧ c ≤ chr 'f'
      · rw [if_pos ((atohMask_letter c).2 (.inr hlower)), if_neg hupper, if_pos hlower,
          atohMask_lower c hlower]
      · have hletter := fun hmask => ((atohMask_letter c).1 hmask).elim hupper hlower
        rw [if_neg hletter, if_neg hupper, if_neg hlower]

theorem atoiStep_eq (val : BitVec 32) (c : Byte) : atoiStep val c = parseStep 32 10 decDigitOf val c := by
  unfold atoiStep parseStep decDigitOf
  by_cases hdec : chr '0' ≤ c ∧ c ≤ chr '9'
  · rw [if_pos hdec, if_pos hdec, atoiMask c hdec, BitVec.mul_comm]
    rfl
  · rw [if_neg hdec, if_neg hdec]

/-- The value of the digits of a text, characters that are no digits apart. -/
def hexTextValue (text : List Byte) : Nat := digitsValue 16 (text.filterMap hexDigitOf)

def decTextValue (text : List Byte) : Nat := digitsValue 10 (text.filterMap decDigitOf)

theorem atohLoop_eq {size : Nat} (hsize : size ≤ 255) (text : List Byte) (i : BitVec 8) (val : BitVec 32)
    (hlen : size ≤ i.toNat + text.length) :
    atohLoop size text i val = some ((text.take (size - i.toNat)).foldl atohStep val) := by
  induction text generalizing i val with
  | nil =>
      rw [List.length_nil] at hlen
      rw [atohLoop, if_neg (by omega), List.take_nil, List.foldl_nil]
  | cons c text ih =>
      rw [List.length_cons] at hlen
      rw [atohLoop]
      by_cases hmore : i.toNat < size
      · have hnext : (i + 1).toNat = i.toNat + 1 := by
          have hadd : (i + 1).toNat = (i.toNat + 1) % 2 ^ 8 := BitVec.toNat_add i 1
          omega
        have hleft : size - i.toNat = (size - (i.toNat + 1)) + 1 := by omega
        rw [if_pos hmore, ih _ _ (by omega), hnext, hleft, List.take_succ_cons, List.foldl_cons]
      · have hdone : size - i.toNat = 0 := by omega
        rw [if_neg hmore, hdone, List.take_zero, List.foldl_nil]

/-- `atoh` on up to 255 characters that are there. -/
theorem atoh_eq {text : List Byte} {size : Nat} (hsize : size ≤ 255) (hlen : size ≤ text.length) :
    atoh text size = some (BitVec.ofNat 32 (hexTextValue (text.take size))) := by
  have hzero : (0 : BitVec 8).toNat = 0 := rfl
  have hstep : atohStep = parseStep 32 16 hexDigitOf := by
    funext val c
    exact atohStep_eq val c
  rw [atoh, atohLoop_eq hsize text 0 0 (by omega), hzero, Nat.sub_zero, hstep, parse_eq]
  rfl

theorem atoi_eq {text : List Byte} {size : Nat} (hlen : size ≤ text.length) :
    atoi text size = some (BitVec.ofNat 32 (decTextValue (text.take size))) := by
  have hstep : atoiStep = parseStep 32 10 decDigitOf := by
    funext val c
    exact atoiStep_eq val c
  rw [atoi, if_neg (Nat.not_lt_of_le hlen), hstep, parse_eq]
  rfl

/-- Beyond 255 characters, or where the text is too short, `atoh` goes on reading. -/
theorem atoh_none {text : List Byte} {size : Nat} (h : ¬ (size ≤ 255 ∧ size ≤ text.length)) :
    atoh text size = none := by
  have hzero : (0 : BitVec 8).toNat = 0 := rfl
  rw [← Option.not_isSome_iff_eq_none, Option.isSome_iff_exists, atoh, atohLoop_isSome, hzero]
  omega

end Read

/-! ### Both ways -/

/-- A number that is printed at an index: the printer stores up to the index it returns, the parser reads
the number back whatever follows, and no number but zero begins with a zero. -/
structure ReadsBack (n : BitVec 32) (buf : Nat → Byte) (index : Nat) (printed : Stores × Nat)
    (parse : List Byte → Nat → Option (BitVec 32)) : Prop where
  inside : ∀ store ∈ printed.1, index ≤ store.1 ∧ store.1 < printed.2
  parsed : ∀ more, parse (slice (printed.1.applied buf) index (printed.2 - index + more)) (printed.2 - index)
    = some n
  leading : n ≠ 0 → printed.1.applied buf index ≠ chr '0'

section Both

variable {n : BitVec 32} {buf : Nat → Byte} {index b : Nat} {printed : Stores × Nat}
  {digitChar : Nat → Byte} {digitOf : Byte → Option Nat} {parse : List Byte → Nat → Option (BitVec 32)}

theorem filterMap_digits (hdigit : ∀ d < b, digitOf (digitChar d) = some d) {digits : List Nat}
    (hdigits : ∀ d ∈ digits, d < b) : (digits.map digitChar).filterMap digitOf = digits := by
  induction digits with
  | nil => rfl
  | cons d digits ih =>
      have hd := hdigit d (hdigits d List.mem_cons_self)
      rw [List.map_cons, List.filterMap_cons_some hd, ih fun d' hd' => hdigits d' (List.mem_cons_of_mem d hd')]

/-- A printer and a parser in one base read back what they print. -/
theorem readsBack_of_print (hb : 1 < b) (hdigit : ∀ d < b, digitOf (digitChar d) = some d)
    (hzero : ∀ d < b, digitChar d = chr '0' → d = 0)
    (hprint : printed.1.Print index ((numeral b n.toNat).map digitChar))
    (hend : printed.2 = index + ((numeral b n.toNat).map digitChar).length)
    (hinside : ∀ store ∈ printed.1, index ≤ store.1 ∧ store.1 < printed.2)
    (hparse : ∀ text, ((numeral b n.toNat).map digitChar).length ≤ text.length →
      parse text ((numeral b n.toNat).map digitChar).length = some (BitVec.ofNat 32 (digitsValue b
        ((text.take ((numeral b n.toNat).map digitChar).length).filterMap digitOf)))) :
    ReadsBack n buf index printed parse := by
  obtain ⟨text, htext⟩ : ∃ text, text = (numeral b n.toNat).map digitChar := ⟨_, rfl⟩
  rw [← htext] at hprint hend hparse
  have hdigits : text.filterMap digitOf = numeral b n.toNat := by
    rw [htext]
    exact filterMap_digits hdigit fun d hd => lt_of_mem_numeral hb hd
  refine ⟨hinside, ?_, ?_⟩
  · intro more
    have hlen : printed.2 - index = text.length := by omega
    rw [hlen, hprint buf, slice_add, slice_overlay, hparse _ (by rw [List.length_append]; omega),
      List.take_left, hdigits, digitsValue_numeral, BitVec.ofNat_toNat, BitVec.setWidth_eq]
  · intro hn hfirst
    have hne : n.toNat ≠ 0 := fun hnat => hn (BitVec.eq_of_toNat_eq hnat)
    obtain ⟨d, rest, hnumeral, hd⟩ := numeral_head b hne
    rw [hnumeral, List.map_cons] at htext
    rw [hprint buf, overlay, if_pos (Nat.le_refl index), Nat.sub_self, htext, List.getD_cons_zero] at hfirst
    have hlt : d < b := lt_of_mem_numeral hb (by rw [hnumeral]; exact List.mem_cons_self)
    exact hd (hzero d hlt hfirst)

theorem hexDigitOf_char : ∀ d < 16, hexDigitOf (hexDigitChar d) = some d := by decide

theorem decDigitOf_char : ∀ d < 10, decDigitOf (decDigitChar d) = some d := by decide

theorem hexText_short {n : Nat} (hn : n < 2 ^ 32) : (hexText n).length ≤ 8 := by
  rw [hexText_length hn, hexDigits_eq]
  split
  · decide
  · exact countDigits_le 16 8 n

theorem itoaLoop_range {index len num : Nat} {store : Nat × Byte} (h : store ∈ itoaLoop index len num) :
    index ≤ store.1 ∧ store.1 < index + len :=
  printLoop_range (fun _ => rfl) (fun _ _ => ⟨_, _, rfl⟩) h

end Both

/-- Every 32-bit number is printed between the index and the one returned, and read back by the parser. -/
theorem digits_read_back (n : BitVec 32) (buf : Nat → Byte) (index : Nat) :
    ReadsBack n buf index (htoa n.toNat index) atoh ∧ ReadsBack n buf index (itoa n.toNat index) atoi := by
  constructor
  · obtain ⟨hprint, hend⟩ := htoa_prints n.isLt index
    have hshort := hexText_short n.isLt
    apply readsBack_of_print (by decide) hexDigitOf_char (by decide) hprint hend
    · exact fun store hstore => htoa_range hstore
    · intro text hlen
      exact atoh_eq (Nat.le_trans hshort (by decide)) hlen
  · obtain ⟨hprint, hend⟩ := itoa_prints n.isLt index
    apply readsBack_of_print (by decide) decDigitOf_char (by decide) hprint hend
    · exact fun store hstore => itoaLoop_range hstore
    · intro text hlen
      exact atoi_eq hlen

end VprocSdk
