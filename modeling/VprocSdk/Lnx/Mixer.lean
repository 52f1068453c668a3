import VprocSdk.Lib.BitField
import VprocSdk.Lnx.ProcText

/-!
# The mixer controls of the codec

`zl380xx_control_read` and `zl380xx_control_write` give ALSA a field of a register. A control says where the
field is by a shift, and by the largest value of the control, which serves as the mask of the field too. So
a value is stored whole when its bits are bits of the largest value, and what else it has is lost.
-/

namespace VprocSdk

open Lib

/-- `struct soc_mixer_control`, as far as the codec reads it. -/
structure SocMixerControl where
  reg : RegAddr
  shift : Nat
  max : BitVec 32
  invert : Bool
  deriving DecidableEq

/-- `zl380xx_snd_controls`. -/
def zl380xxSndControls : List SocMixerControl :=
  [⟨0x0238, 0, 0x6, false⟩, ⟨0x023A, 0, 0x6, false⟩, ⟨0x0238, 8, 0x6, false⟩, ⟨0x023A, 8, 0x6, false⟩,
    ⟨Reg.aecCtrl0, 7, 1, false⟩, ⟨Reg.aecCtrl0, 8, 1, false⟩, ⟨0x02B2, 0, 0x7, false⟩,
    ⟨0x030A, 0, 0x78, false⟩, ⟨0x030A, 7, 0x7, false⟩, ⟨0x030C, 8, 0xF, false⟩]

def eio : Int := 5

/-- The value of a register from the two bytes of a buffer. -/
def regValue (buf : List Byte) : BitVec 32 :=
  (buf.getD 0 0).setWidth 32 <<< 8 ||| (buf.getD 1 0).setWidth 32

/-- `zl380xx_control_read`, which does not look at the status of its access. -/
def zl380xxControlRead (handle : Nat) (mc : SocMixerControl) : RegProg (BitVec 32) := do
  let reply ← Prog.query (.read handle mc.reg 2)
  let val := getField mc.max mc.shift (regValue reply.data)
  return if mc.invert then mc.max - val else val

/-- The value `zl380xx_control_write` puts in the field. -/
def SocMixerControl.stored (mc : SocMixerControl) (value : BitVec 32) : BitVec 32 :=
  let val := value &&& mc.max
  if mc.invert then mc.max - val else val

def zl380xxControlWrite (handle : Nat) (mc : SocMixerControl) (value : BitVec 32) : RegProg Int := do
  let val := mc.stored value
  let reply ← Prog.query (.read handle mc.reg 2)
  if reply.status ≠ .success then return -eio
  else
    let valt := regValue reply.data
    if getField mc.max mc.shift valt = val then return 0
    else
      let valt := setField mc.max mc.shift val valt
      let reply ← Prog.query (.write handle mc.reg
        [(valt >>> 8).setWidth 8, (valt &&& 0xFF).setWidth 8])
      if reply.status ≠ .success then return -eio else return 0

/-! ### A device whose accesses succeed -/

abbrev Registers := RegAddr → Word

def Registers.answer (regs : Registers) : RegAsk → Registers × HbiReply
  | .read _ reg length => (regs, ⟨.success, (devBytes .big (regs reg)).take length⟩)
  | .write _ reg data => (Function.update regs reg (devWord .big data), ⟨.success, []⟩)

/-- The register as the 32-bit number the codec computes with. -/
def Registers.value (regs : Registers) (reg : RegAddr) : BitVec 32 := (regs reg).setWidth 32

def SocMixerControl.shown (mc : SocMixerControl) (handle : Nat) (regs : Registers) : BitVec 32 :=
  ((zl380xxControlRead handle mc).servedBy Registers.answer regs).2

/-- The registers once the control is written, and the result of the write. -/
def SocMixerControl.written (mc : SocMixerControl) (handle : Nat) (regs : Registers) (value : BitVec 32) :
    Registers × Int :=
  (zl380xxControlWrite handle mc value).servedBy Registers.answer regs

/-- A value that is written reads back, and nothing but the field of the control changes. -/
structure MixerLaw (handle : Nat) (mc : SocMixerControl) (regs : Registers) (value : BitVec 32) : Prop where
  result : (mc.written handle regs value).2 = 0
  reads : mc.shown handle (mc.written handle regs value).1 = value
  outside : (mc.written handle regs value).1.value mc.reg &&& ~~~(mc.max <<< mc.shift)
    = regs.value mc.reg &&& ~~~(mc.max <<< mc.shift)
  otherRegs : ∀ reg, reg ≠ mc.reg → (mc.written handle regs value).1 reg = regs reg
  others : ∀ mc' : SocMixerControl, mc'.reg = mc.reg →
    mc.max <<< mc.shift &&& mc'.max <<< mc'.shift = 0 →
    mc'.shown handle (mc.written handle regs value).1 = mc'.shown handle regs

section Controls

variable {mc : SocMixerControl} {regs : Registers} {value : BitVec 32}

theorem regValue_devBytes (x : Word) : regValue ((devBytes .big x).take 2) = x.setWidth 32 := by
  apply BitVec.eq_of_getLsbD_eq
  intro i hi
  rw [devBytes, List.take_succ_cons, List.take_succ_cons, List.take_zero, regValue,
    List.getD_cons_zero, List.getD_cons_succ, List.getD_cons_zero]
  simp only [BitVec.getLsbD_or, BitVec.getLsbD_shiftLeft, BitVec.getLsbD_setWidth,
    BitVec.getLsbD_ushiftRight]
  by_cases hlow : i < 8
  · simp [hlow]
  · have hsum : 8 + (i - 8) = i := by omega
    rw [hsum]
    have hwide : i - 8 < 32 := by omega
    by_cases hhigh : i < 16
    · have hbyte : i - 8 < 8 := by omega
      simp [hlow, hi, hwide, hbyte]
    · have hclear : x.getLsbD i = false := BitVec.getLsbD_of_ge x i (by omega)
      simp [hclear]

theorem devWord_regBytes (x : BitVec 32) :
    devWord .big [(x >>> 8).setWidth 8, (x &&& 0xFF).setWidth 8] = x.setWidth 16 := by
  have hlast : (x &&& 0xFF).setWidth 8 = x.setWidth 8 := by
    rw [BitVec.setWidth_and]
    exact BitVec.and_allOnes
  apply BitVec.eq_of_getLsbD_eq
  intro i hi
  rw [devWord, List.getD_cons_zero, List.getD_cons_succ, List.getD_cons_zero, hlast,
    BitVec.getLsbD_append]
  by_cases hlow : i < 8
  · simp [hlow, hi]
  · have hsum : 8 + (i - 8) = i := by omega
    have hbyte : i - 8 < 8 := by omega
    simp [hlow, hsum, hi, hbyte]

theorem shown_eq (handle : Nat) : mc.shown handle regs
    = if mc.invert then mc.max - getField mc.max mc.shift (regs.value mc.reg)
      else getField mc.max mc.shift (regs.value mc.reg) := by
  show (if mc.invert then mc.max - getField mc.max mc.shift (regValue ((devBytes .big (regs mc.reg)).take 2))
    else getField mc.max mc.shift (regValue ((devBytes .big (regs mc.reg)).take 2))) = _
  rw [regValue_devBytes]
  rfl

theorem stored_sub (mc : SocMixerControl) (value : BitVec 32) :
    mc.stored value &&& mc.max = mc.stored value := by
  have hsub : value &&& mc.max &&& mc.max = value &&& mc.max := by
    rw [BitVec.and_assoc, BitVec.and_self]
  unfold SocMixerControl.stored
  dsimp only
  split
  · rw [mask_sub hsub, BitVec.and_comm, ← BitVec.and_assoc, BitVec.and_self]
  · exact hsub

theorem stored_shown (mc : SocMixerControl) (value : BitVec 32) :
    (if mc.invert then mc.max - mc.stored value else mc.stored value) = value &&& mc.max := by
  have hback : mc.max - (mc.max - (value &&& mc.max)) = value &&& mc.max := by
    rw [BitVec.sub_eq_iff_eq_add, BitVec.add_comm]
    exact (BitVec.sub_add_cancel _ _).symm
  unfold SocMixerControl.stored
  dsimp only
  split
  · exact hback
  · rfl

theorem setWidth_low {x : BitVec 32} (h : ∀ i, 16 ≤ i → x.getLsbD i = false) :
    (x.setWidth 16).setWidth 32 = x := by
  apply BitVec.eq_of_getLsbD_eq
  intro i hi
  rw [BitVec.getLsbD_setWidth, BitVec.getLsbD_setWidth]
  by_cases hlow : i < 16
  · simp [hlow, hi]
  · simp [hlow, h i (Nat.le_of_not_lt hlow)]

theorem written_eq (regs : Registers) (value : BitVec 32) (handle : Nat) (hfit : FieldFits mc.max mc.shift 16) :
    (∃ x, mc.written handle regs value = (Function.update regs mc.reg x, 0)) ∧
      (mc.written handle regs value).1.value mc.reg
        = setField mc.max mc.shift (mc.stored value) (regs.value mc.reg) := by
  have hrun : mc.written handle regs value
      = if getField mc.max mc.shift (regs.value mc.reg) = mc.stored value then (regs, 0)
        else (Function.update regs mc.reg
          ((setField mc.max mc.shift (mc.stored value) (regs.value mc.reg)).setWidth 16), 0) := by
    simp only [SocMixerControl.written, zl380xxControlWrite, Prog.query_bind, Prog.servedBy,
      Registers.answer, regValue_devBytes, ne_eq, not_true_eq_false, if_false]
    by_cases hsame : getField mc.max mc.shift (regs.value mc.reg) = mc.stored value
    · have hsame' : getField mc.max mc.shift ((regs mc.reg).setWidth 32) = mc.stored value := hsame
      rw [if_pos hsame, if_pos hsame']
      rfl
    · have hsame' : ¬ getField mc.max mc.shift ((regs mc.reg).setWidth 32) = mc.stored value := hsame
      rw [if_neg hsame, if_neg hsame', ← devWord_regBytes]
      rfl
  have hx : ∀ i, 16 ≤ i → (regs.value mc.reg).getLsbD i = false := by
    intro i hi
    rw [Registers.value, BitVec.getLsbD_setWidth, BitVec.getLsbD_of_ge _ _ hi, Bool.and_false]
  by_cases hsame : getField mc.max mc.shift (regs.value mc.reg) = mc.stored value
  · rw [if_pos hsame] at hrun
    rw [hrun, ← hsame, setField_getField]
    exact ⟨⟨regs mc.reg, by rw [Function.update_eq_self]⟩, rfl⟩
  · rw [if_neg hsame] at hrun
    rw [hrun]
    refine ⟨⟨_, rfl⟩, ?_⟩
    have hcell : (BitVec.setWidth 32 <| Function.update regs mc.reg
        ((setField mc.max mc.shift (mc.stored value) (regs.value mc.reg)).setWidth 16) mc.reg) = _ :=
      congrArg (BitVec.setWidth 32) (Function.update_self _ _ _)
    exact hcell.trans (setWidth_low (setField_high (stored_sub mc value) hfit hx))

theorem shown_written (regs : Registers) (value : BitVec 32) (handle : Nat) (hfit : FieldFits mc.max mc.shift 16) :
    mc.shown handle (mc.written handle regs value).1 = value &&& mc.max := by
  obtain ⟨-, hvalue⟩ := written_eq regs value handle hfit
  rw [shown_eq, hvalue, getField_setField (stored_sub mc value) hfit (by decide), stored_shown]

theorem mixerLaw_iff (handle : Nat) (hfit : FieldFits mc.max mc.shift 16) :
    MixerLaw handle mc regs value ↔ value &&& mc.max = value := by
  have hshown := shown_written regs value handle hfit
  constructor
  · intro h
    rw [← hshown]
    exact h.reads
  · intro hsub
    obtain ⟨⟨x, hwritten⟩, hvalue⟩ := written_eq regs value handle hfit
    exact
      { result := by rw [hwritten]
        reads := hshown.trans hsub
        outside := by rw [hvalue, setField_outside (stored_sub mc value)]
        otherRegs := by
          intro reg hreg
          rw [hwritten]
          exact Function.update_of_ne hreg _ _
        others := by
          intro mc' hreg hdisjoint
          rw [shown_eq, shown_eq, hreg, hvalue,
            getField_setField_disjoint (stored_sub mc value) hdisjoint] }

/-- Every value up to the largest has only bits of the largest when that is a run of ones. -/
theorem all_sub_iff (max : BitVec 32) :
    (∀ value ≤ max, value &&& max = value) ↔ ∃ k, max.toNat = 2 ^ k - 1 := by
  constructor
  · intro h
    by_cases hzero : max.toNat = 0
    · exact ⟨0, hzero⟩
    · obtain ⟨hle, hlt⟩ : 2 ^ max.toNat.log2 ≤ max.toNat ∧ max.toNat < 2 ^ (max.toNat.log2 + 1) :=
        ⟨Nat.log2_self_le hzero, Nat.lt_log2_self⟩
      have hpos : 0 < 2 ^ max.toNat.log2 := Nat.two_pow_pos _
      have hbits := h (BitVec.ofNat 32 (2 ^ max.toNat.log2 - 1))
      have hmax := max.isLt
      have hvalue : (BitVec.ofNat 32 (2 ^ max.toNat.log2 - 1)).toNat = 2 ^ max.toNat.log2 - 1 := by
        rw [BitVec.toNat_ofNat, Nat.mod_eq_of_lt (by omega)]
      have hand := congrArg BitVec.toNat (hbits (by rw [BitVec.le_def, hvalue]; omega))
      rw [BitVec.toNat_and, hvalue, Nat.and_comm, Nat.and_two_pow_sub_one_eq_mod] at hand
      have hdiv := Nat.div_add_mod max.toNat (2 ^ max.toNat.log2)
      have hone : max.toNat / 2 ^ max.toNat.log2 = 1 := by
        rw [Nat.pow_succ] at hlt
        apply Nat.div_eq_of_lt_le
        · omega
        · omega
      rw [hone, hand] at hdiv
      refine ⟨max.toNat.log2 + 1, ?_⟩
      rw [Nat.pow_succ]
      omega
  · intro h value hle
    obtain ⟨k, hk⟩ := h
    have hpos : 0 < 2 ^ k := Nat.two_pow_pos k
    apply BitVec.eq_of_toNat_eq
    rw [BitVec.le_def] at hle
    rw [BitVec.toNat_and, hk, Nat.and_two_pow_sub_one_eq_mod, Nat.mod_eq_of_lt (by omega)]

end Controls

theorem sndControls_fit : ∀ mc ∈ zl380xxSndControls, mc.max.toNat * 2 ^ mc.shift < 2 ^ 16 := by decide

/-- A value is kept by the law of the mixer exactly when its bits are bits of the control's largest value.
All values that ALSA admits are, exactly when the largest is one less than a power of two. -/
theorem mixer_law_iff (handle : Nat) (mc : SocMixerControl) (hmax : mc.max.toNat * 2 ^ mc.shift < 2 ^ 16) :
    (∀ regs, ∀ value ≤ mc.max, (MixerLaw handle mc regs value ↔ value &&& mc.max = value)) ∧
      ((∀ regs, ∀ value ≤ mc.max, MixerLaw handle mc regs value) ↔ ∃ k, mc.max.toNat = 2 ^ k - 1) := by
  have hfit := fieldFits_of_lt hmax
  refine ⟨fun regs value _ => mixerLaw_iff handle hfit, ?_⟩
  rw [← all_sub_iff]
  constructor
  · intro h value hle
    exact (mixerLaw_iff handle hfit).1 (h (fun _ => 0) value hle)
  · intro h regs value hle
    exact (mixerLaw_iff handle hfit).2 (h value hle)

/-- The gain of the transmit side: its field is the four ones from bit 8 on. -/
theorem mixer_law_iff_soutGain : MixerLaw 0 ⟨0x030C, 8, 0xF, false⟩ (fun _ => 0xABCD) 5 :=
  (mixer_law_iff 0 ⟨0x030C, 8, 0xF, false⟩ (sndControls_fit _ (by decide))).2.2 ⟨4, rfl⟩ _ 5 (by decide)

/-- The first gain of the first converter has 6 as its largest value, and loses the value 1. -/
theorem dac_gain_lost : ¬ MixerLaw 0 ⟨0x0238, 0, 0x6, false⟩ (fun _ => 0) 1 := by
  intro h
  exact absurd h.reads (by decide)

end VprocSdk
