import Mathlib.Algebra.Group.Nat.Defs

/-!
# Words of the DIFC module: labels, capabilities, sign bits

`label_t` and `capability_t` are both `uint64_t`.  A capability packs a label
into the low thirty bits and the two signs above it:

* `CAP_PLUS_MASK` is the `int` `1 << 30`;
* `CAP_MINUS_MASK` is the `int` `1 << 31`, a negative number, so that every
  expression that combines it with a `capability_t` sign-extends it to the
  upper 33 bits;
* `CAP_LABEL_MASK` is computed in `unsigned int` and zero-extends.

Every later proof about capability words goes through the algebraic lemmas of
this file: adding or removing a sign never changes the label part, and adding
one sign never adds the other.
-/

namespace Laminar.Kernel

/-- `label_t`. -/
abbrev LabelT := BitVec 64

/-- `capability_t`. -/
abbrev CapabilityT := BitVec 64

/-- The label reserved for the trusted computing base, `LABEL_TCB`. -/
def labelTcb : LabelT := 0#64

/-- `CAP_START_VAL`: what `difc_init` stores in the label counter. -/
def capStartVal : BitVec 32 := 1#32

/-- `CAP_PLUS_MASK`, an `int`. -/
def capPlusMask : BitVec 32 := 1#32 <<< 30

/-- `CAP_MINUS_MASK`, an `int`: the sign bit. -/
def capMinusMask : BitVec 32 := 1#32 <<< 31

/-- `CAP_LABEL_MASK`, an `unsigned int`. -/
def capLabelMask : BitVec 32 := 0xFFFFFFFF#32 ^^^ (capPlusMask ||| capMinusMask)

/-- The two signs of a capability. -/
inductive Sign
  | plus
  | minus
  deriving DecidableEq, Repr

/-- The mask of a sign, as the `int` of the source. -/
def Sign.mask : Sign → BitVec 32
  | .plus => capPlusMask
  | .minus => capMinusMask

/-- The mask of a sign converted to `capability_t`: `int` operands sign-extend. -/
def Sign.wide (s : Sign) : CapabilityT := s.mask.signExtend 64

/-- `cap & CAP_LABEL_MASK`. -/
def labelPart (cap : CapabilityT) : LabelT := cap &&& capLabelMask.setWidth 64

/-- `cap & CAP_PLUS_MASK`, respectively `cap & CAP_MINUS_MASK`, as a condition. -/
def carries (cap : CapabilityT) (s : Sign) : Bool := cap &&& s.wide != 0#64

/-- `type & CAP_PLUS_MASK`, respectively `type & CAP_MINUS_MASK`, as a condition
on the `int` argument of the system calls. -/
def requests (type : BitVec 32) (s : Sign) : Bool := type &&& s.mask != 0#32

/-! ## Signs and the label part do not meet -/

private theorem wide_and_label (s : Sign) :
    s.wide &&& capLabelMask.setWidth 64 = 0#64 := by
  cases s <;> decide

private theorem wide_and_wide {s t : Sign} (h : s ≠ t) :
    s.wide &&& t.wide = 0#64 := by
  cases s <;> cases t <;> first | exact absurd rfl h | decide

theorem wide_ne_zero (s : Sign) : s.wide ≠ 0#64 := by
  cases s <;> decide

@[simp] theorem labelPart_or_wide (cap : CapabilityT) (s : Sign) :
    labelPart (cap ||| s.wide) = labelPart cap := by
  simp only [labelPart, BitVec.and_or_distrib_right, wide_and_label, BitVec.or_zero]

@[simp] theorem labelPart_labelPart (cap : CapabilityT) :
    labelPart (labelPart cap) = labelPart cap := by
  simp only [labelPart, BitVec.and_assoc, BitVec.and_self]

@[simp] theorem carries_labelPart (cap : CapabilityT) (s : Sign) :
    carries (labelPart cap) s = false := by
  have h : capLabelMask.setWidth 64 &&& s.wide = 0#64 := by
    rw [BitVec.and_comm]; exact wide_and_label s
  simp [carries, labelPart, BitVec.and_assoc, h]

/-- Setting one sign sets that sign and no other. -/
theorem carries_or_wide (cap : CapabilityT) (s t : Sign) :
    carries (cap ||| t.wide) s = true ↔ carries cap s = true ∨ s = t := by
  by_cases h : s = t
  · subst h
    simp [carries, BitVec.and_or_distrib_right, BitVec.or_eq_zero_iff, wide_ne_zero]
  · have hz : t.wide &&& s.wide = 0#64 := wide_and_wide (Ne.symm h)
    simp [carries, BitVec.and_or_distrib_right, hz, h]

/-- Flipping one sign does not touch the other. -/
theorem carries_xor_wide {s t : Sign} (h : s ≠ t) (cap : CapabilityT) :
    carries (cap ^^^ t.wide) s = carries cap s := by
  have hz : (cap ^^^ t.wide) &&& s.wide = cap &&& s.wide := by
    apply BitVec.eq_of_getLsbD_eq
    intro i hi
    have hbit := congrArg (fun w => BitVec.getLsbD w i) (wide_and_wide (Ne.symm h))
    simp only [BitVec.getLsbD_and, BitVec.getLsbD_xor, BitVec.getLsbD_zero] at hbit ⊢
    cases ht : t.wide.getLsbD i <;> simp_all
  rw [carries, hz, carries]

/-! ## A fresh capability

`difc_alloc_label` builds a capability from the label counter and the signs
asked for in `type`.
-/

/-- `atomic_inc_return(&cur_max_capability)` widened to `capability_t`, with
`type & (CAP_PLUS_MASK | CAP_MINUS_MASK)` or-ed in. -/
def newCap (counter type : BitVec 32) : CapabilityT :=
  counter.signExtend 64 |||
    (type &&& (capPlusMask ||| capMinusMask)).signExtend 64

/-- The signs of a fresh capability do not disturb its label. -/
theorem labelPart_newCap (counter type : BitVec 32) :
    labelPart (newCap counter type) = labelPart (counter.signExtend 64) := by
  have h : (capPlusMask ||| capMinusMask).signExtend 64 &&&
      capLabelMask.setWidth 64 = 0#64 := by decide
  simp only [labelPart, newCap, BitVec.and_or_distrib_right, BitVec.signExtend_and,
    BitVec.and_assoc, h, BitVec.and_zero, BitVec.or_zero]

private theorem signExtend_eq_zero_iff (x : BitVec 32) :
    x.signExtend 64 = 0#64 ↔ x = 0#32 := by
  rw [← BitVec.toInt_inj, BitVec.toInt_signExtend_of_le (by decide), ← BitVec.toInt_inj]
  simp

/-- A counter below `2 ^ 30` meets neither sign mask. -/
private theorem signExtend_and_wide {counter : BitVec 32}
    (h : counter.toNat < 2 ^ 30) (s : Sign) :
    counter.signExtend 64 &&& s.wide = 0#64 := by
  have hlow : ∀ i < 30, s.wide.getLsbD i = false := by cases s <;> decide
  have hmsb : counter.msb = false := by
    rw [BitVec.msb_eq_decide]; simp; omega
  apply BitVec.eq_of_getLsbD_eq
  intro i _
  rw [BitVec.getLsbD_and, BitVec.signExtend_eq_setWidth_of_msb_false hmsb]
  by_cases hi : i < 30
  · simp [hlow i hi]
  · have hpow : 2 ^ 30 ≤ 2 ^ i := Nat.pow_le_pow_right (by decide) (by omega)
    have hbit : counter.getLsbD i = false := by
      rw [← BitVec.testBit_toNat]
      exact Nat.testBit_lt_two_pow (Nat.lt_of_lt_of_le h hpow)
    simp [hbit]

private theorem signs_and_wide (type : BitVec 32) (s : Sign) :
    (type &&& (capPlusMask ||| capMinusMask)).signExtend 64 &&& s.wide =
      (type &&& s.mask).signExtend 64 := by
  have hmask : (capPlusMask ||| capMinusMask) &&& s.mask = s.mask := by
    cases s <;> decide
  rw [Sign.wide, ← BitVec.signExtend_and, BitVec.and_assoc, hmask]

/-- As long as the counter has not run into the sign bits, a fresh capability
carries exactly the signs its `type` asked for. -/
theorem carries_newCap {counter : BitVec 32} (h : counter.toNat < 2 ^ 30)
    (type : BitVec 32) (s : Sign) :
    carries (newCap counter type) s = requests type s := by
  have hiff := signExtend_eq_zero_iff (type &&& s.mask)
  rw [carries, newCap, BitVec.and_or_distrib_right, signExtend_and_wide h, signs_and_wide,
    BitVec.zero_or, requests, Bool.eq_iff_iff]
  simp only [bne_iff_ne, ne_eq, hiff]

/-- Whatever the counter, a fresh capability carries the signs its `type` asked for. -/
theorem carries_newCap_of_requests (counter : BitVec 32) {type : BitVec 32} {s : Sign}
    (h : requests type s = true) : carries (newCap counter type) s = true := by
  rw [carries, bne_iff_ne, newCap, BitVec.and_or_distrib_right, signs_and_wide, ne_eq,
    BitVec.or_eq_zero_iff, signExtend_eq_zero_iff]
  exact fun hzero => bne_iff_ne.1 h hzero.2

/-- The label of a fresh capability is the counter modulo `2 ^ 30`. -/
theorem toNat_labelPart_newCap (counter type : BitVec 32) :
    (labelPart (newCap counter type)).toNat = counter.toNat % 2 ^ 30 := by
  have hmask : (capLabelMask.setWidth 64).toNat = 2 ^ 30 - 1 := by decide
  have hlow : (counter.signExtend 64).toNat % 2 ^ 30 = counter.toNat % 2 ^ 30 := by
    have h32 : ((counter.signExtend 64).setWidth 32).toNat = counter.toNat := by
      refine congrArg BitVec.toNat (BitVec.eq_of_getLsbD_eq fun i hi => ?_)
      have hi64 : i < 64 := by omega
      rw [BitVec.getLsbD_setWidth, BitVec.getLsbD_signExtend]
      simp [hi, hi64]
    rw [BitVec.toNat_setWidth] at h32
    omega
  rw [labelPart_newCap, labelPart, BitVec.toNat_and, hmask, Nat.and_two_pow_sub_one_eq_mod,
    hlow]

end Laminar.Kernel
