import Laminar.Kernel.System

/-!
# The attribute hooks and their buffers

`difc_inode_getsecurity` hands the encoded label of an inode to a caller that
brings the buffer, and `difc_inode_setsecurity` decodes an attribute that came
from the disk.  Neither keeps to its buffer.

The encoder refuses a buffer that is *larger* than the encoding and writes past
the end of one that is smaller, so it behaves only when the size is exact.

The decoder refuses nothing.  It bounds the counts, in words, by the size, in
bytes; it takes the size of both copies from the first byte, as a signed `char`,
while the count it stores is the whole first word; and it looks for the second
list where the first word says it is.  `Fits` is what an attribute must look like
for all of this to stay in bounds and to leave counts that fit.
-/

namespace Laminar.Kernel

open Laminar.Lib

/-! ## The hooks -/

/-- `XATTR_DIFC_SUFFIX`. -/
def xattrDifcSuffix : String := "difc"

/-- `difc_inode_getsecurity(inode, name, buffer, size, err)`; `size` is the size of
`buffer`.  The security structure is followed without a check. -/
def difcInodeGetsecurity (isec : Option ObjectSecurityStruct) (name : String)
    (buffer : List Byte) : Except Fault (Int × List Byte) :=
  if name ≠ xattrDifcSuffix then .ok (-eOpnotsupp, buffer)
  else
    match isec with
    | none => .error .nullDeref
    | some isec => do
        let (rv, buffer) ← packDifcInodeXattr buffer isec.label
        return (rv.toInt, buffer)

/-- `difc_inode_setsecurity(inode, name, value, size, flags)`; `size` is the size of
`value`. -/
def difcInodeSetsecurity (isec : Option ObjectSecurityStruct) (name : String)
    (value : Option (List Byte)) : Except Fault (Int × Option ObjectSecurityStruct) :=
  match isec with
  | none => .ok (-eOpnotsupp, none)
  | some isec =>
      if name ≠ xattrDifcSuffix then .ok (-eOpnotsupp, some isec)
      else
        match value with
        | none => .ok (-eAcces, some isec)
        | some [] => .ok (-eAcces, some isec)
        | some (b :: bs) => do
            let (rv, label) ← unpackDifcInodeXattr (b :: bs) isec.label
            return (rv.toInt, some { isec with label := label })

/-! ## Handing out a label -/

/-- The hook stays inside the buffer, and reports `-ERANGE` exactly when the buffer
is too small. -/
def HandsOut (isec : ObjectSecurityStruct) (buffer : List Byte) : Prop :=
  ∃ rv buffer', difcInodeGetsecurity (some isec) xattrDifcSuffix buffer = .ok (rv, buffer') ∧
    buffer'.length = buffer.length ∧
    (rv = -eRange ↔ buffer.length < isec.label.xattrSize)

private theorem difcInodeGetsecurity_eq_ok {isec : ObjectSecurityStruct}
    {buffer buffer' : List Byte} {rv : Int} :
    difcInodeGetsecurity (some isec) xattrDifcSuffix buffer = .ok (rv, buffer') ↔
      ∃ n, packDifcInodeXattr buffer isec.label = .ok (n, buffer') ∧ rv = n.toInt := by
  rw [difcInodeGetsecurity, if_neg (fun h => h rfl)]
  constructor
  · intro h
    obtain ⟨⟨n, buf⟩, hpack, hret⟩ := bind_eq_ok.1 h
    obtain ⟨rfl, rfl⟩ := Prod.mk.inj (Except.ok.inj hret)
    exact ⟨n, hpack, rfl⟩
  · rintro ⟨n, hpack, rfl⟩
    exact bind_eq_ok.2 ⟨_, hpack, rfl⟩

private theorem handsOut_iff {isec : ObjectSecurityStruct} (h : isec.label.Bounded)
    (buffer : List Byte) : HandsOut isec buffer ↔ buffer.length = isec.label.xattrSize := by
  constructor
  · rintro ⟨rv, buffer', hret, -, hrange⟩
    obtain ⟨n, hpack, rfl⟩ := difcInodeGetsecurity_eq_ok.1 hret
    by_cases hsmall : buffer.length < isec.label.xattrSize
    · rw [packDifcInodeXattr_smaller h hsmall] at hpack
      cases hpack
    by_cases hlarge : isec.label.xattrSize < buffer.length
    · rw [packDifcInodeXattr_larger h hlarge] at hpack
      obtain ⟨rfl, -⟩ := Prod.mk.inj (Except.ok.inj hpack)
      exact absurd (hrange.1 (by decide)) hsmall
    · omega
  · intro hlen
    refine ⟨_, _, difcInodeGetsecurity_eq_ok.2 ⟨_, packDifcInodeXattr_eq h hlen, rfl⟩, ?_, ?_⟩
    · rw [length_encodeWords, List.length_append, LabelList.length_wire h.1,
        LabelList.length_wire h.2, hlen, LabelStruct.xattrSize]
      omega
    · have hsb : isec.label.secList.count ≤ 31 := h.1
      have hib : isec.label.intList.count ≤ 31 := h.2
      have hnat : (BitVec.ofNat 32 buffer.length).toNat = buffer.length := by
        rw [BitVec.toNat_ofNat, hlen, LabelStruct.xattrSize]
        omega
      rw [LabelStruct.xattrSize] at hlen
      rw [BitVec.toInt_eq_toNat_of_lt (by omega), hnat, LabelStruct.xattrSize, eRange]
      omega

/-! ## Taking a label from the disk -/

/-- An attribute value: its size is a `size_t`. -/
structure XattrValue where
  bytes : List Byte
  size_lt : bytes.length < 2 ^ 32

/-- The hook stays inside the value and the label and hits no `BUG_ON`; the value is
rejected and the label unchanged, or both counts fit their lists. -/
def TakesIn (isec : ObjectSecurityStruct) (value : XattrValue) : Prop :=
  ∃ rv isec', difcInodeSetsecurity (some isec) xattrDifcSuffix (some value.bytes) =
      .ok (rv, some isec') ∧
    (rv ≠ 0 ∧ isec'.label = isec.label ∨ isec'.label.Bounded)

namespace XattrValue

/-- The word at byte `pos`. -/
def word (value : XattrValue) (pos : Nat) : Nat := leNat ((value.bytes.drop pos).take 8)

/-- Where the first word says that the second list is: behind itself and as many
words as it counts, on a 32-bit pointer. -/
def secondAt (value : XattrValue) : Nat := (value.word 0 + 1) * 8 % 2 ^ 32

/-- The values that do no harm to a label. -/
structure Fits (value : XattrValue) (label : LabelStruct) : Prop where
  /-- There is a first count. -/
  first_there : 8 ≤ value.bytes.length
  /-- The first `BUG_ON`, which counts words against bytes. -/
  first_checked : (value.word 0 + 1) % 2 ^ 64 ≤ value.bytes.length
  /-- There is a second count. -/
  second_there : value.secondAt + 8 ≤ value.bytes.length
  /-- The second `BUG_ON`. -/
  second_checked : (value.word value.secondAt + 1 + (value.word 0 + 1) % 2 ^ 32) % 2 ^ 64 ≤
    value.bytes.length
  /-- The first count fits a list, or its low byte is `-1` and nothing is copied. -/
  copied : value.word 0 ≤ labelListMaxEntries ∨ value.word 0 % 256 = 255 ∧ label.Bounded

end XattrValue

private theorem readLabel_iff {buf : List Byte} {pos : Nat} {x : LabelT} :
    readLabel buf pos = .ok x ↔ headWord 8 (buf.drop pos) = some x := by
  rw [readLabel]
  cases headWord 8 (buf.drop pos) <;> simp

/-- A word is read if its eight bytes are there. -/
private theorem readLabel_eq_ok {value : XattrValue} {pos : Nat} {x : LabelT} :
    readLabel value.bytes pos = .ok x ↔
      pos + 8 ≤ value.bytes.length ∧ x.toNat = value.word pos := by
  have hlen : 8 ≤ (value.bytes.drop pos).length ↔ pos + 8 ≤ value.bytes.length := by
    rw [List.length_drop]
    omega
  rw [readLabel_iff, headWord_eq_some (w := 8), hlen]
  rfl

private theorem exists_readLabel (value : XattrValue) (pos : Nat)
    (h : pos + 8 ≤ value.bytes.length) : ∃ x, readLabel value.bytes pos = .ok x := by
  have hlen : 8 ≤ (value.bytes.drop pos).length := by
    rw [List.length_drop]
    omega
  exact ⟨_, readLabel_iff.2 (if_pos hlen)⟩

/-! The positions and checks of the decoder, as numbers. -/

section Numbers

variable {value : XattrValue} {first second : LabelT}

private theorem step_toNat (hfirst : first.toNat = value.word 0) :
    (((first + 1#64) * 8#64).setWidth 32).toNat = value.secondAt := by
  simp only [BitVec.toNat_mul, BitVec.toNat_setWidth, BitVec.toNat_add, BitVec.toNat_ofNat,
    XattrValue.secondAt, hfirst]
  omega

private theorem first_checked_iff (hfirst : first.toNat = value.word 0) :
    first + 1#64 ≤ BitVec.ofNat 64 value.bytes.length ↔
      (value.word 0 + 1) % 2 ^ 64 ≤ value.bytes.length := by
  have hsize := value.size_lt
  simp only [BitVec.le_def, BitVec.toNat_add, BitVec.toNat_ofNat, hfirst]
  omega

private theorem second_checked_iff (hfirst : first.toNat = value.word 0)
    (hsecond : second.toNat = value.word value.secondAt) :
    second + 1#64 + ((first + 1#64).setWidth 32).setWidth 64 ≤
        BitVec.ofNat 64 value.bytes.length ↔
      (value.word value.secondAt + 1 + (value.word 0 + 1) % 2 ^ 32) % 2 ^ 64 ≤
        value.bytes.length := by
  have hsize := value.size_lt
  simp only [BitVec.le_def, BitVec.toNat_setWidth, BitVec.toNat_add, BitVec.toNat_ofNat, hfirst,
    hsecond]
  omega

end Numbers

private theorem difcInodeSetsecurity_eq_ok {isec isec' : ObjectSecurityStruct}
    {value : List Byte} (hne : value ≠ []) {rv : Int} :
    difcInodeSetsecurity (some isec) xattrDifcSuffix (some value) = .ok (rv, some isec') ↔
      ∃ n label, unpackDifcInodeXattr value isec.label = .ok (n, label) ∧ rv = n.toInt ∧
        isec' = { isec with label := label } := by
  cases value with
  | nil => exact absurd rfl hne
  | cons b bs =>
      rw [difcInodeSetsecurity, if_neg (fun h => h rfl)]
      constructor
      · intro h
        obtain ⟨⟨n, label⟩, hunpack, hret⟩ := bind_eq_ok.1 h
        obtain ⟨rfl, hsec⟩ := Prod.mk.inj (Except.ok.inj hret)
        exact ⟨n, label, hunpack, rfl, (Option.some.inj hsec).symm⟩
      · rintro ⟨n, label, hunpack, rfl, rfl⟩
        exact bind_eq_ok.2 ⟨_, hunpack, rfl⟩

/-- What a value must be like if the decoder took it in. -/
private theorem fits_of_unpack {value : XattrValue} {label label' : LabelStruct}
    {rv : BitVec 32} (h : unpackDifcInodeXattr value.bytes label = .ok (rv, label'))
    (hb : label'.Bounded) : value.Fits label := by
  obtain ⟨-, first, label₁, second, hfirst, hbug₁, hcopy₁, hsecond, hbug₂, hcopy₂⟩ :=
    unpackDifcInodeXattr_eq_ok.1 h
  have hhead : headWord 8 value.bytes = some first := readLabel_iff.1 hfirst
  obtain ⟨hthere₁, hword₁⟩ := readLabel_eq_ok.1 hfirst
  rw [step_toNat hword₁] at hsecond
  obtain ⟨hthere₂, hword₂⟩ := readLabel_eq_ok.1 hsecond
  refine ⟨by omega, (first_checked_iff hword₁).1 hbug₁, hthere₂,
    (second_checked_iff hword₁ hword₂).1 hbug₂, ?_⟩
  rw [← hword₁]
  rcases copyList_int_ok hhead hcopy₂ with hlow | hcount
  · -- nothing was copied, so the counts are the old ones
    rw [copyList_nothing _ _ hhead hlow, Except.ok.injEq] at hcopy₁ hcopy₂
    subst hcopy₁
    subst hcopy₂
    exact .inr ⟨hlow, hb⟩
  · rw [← hcount]
    exact .inl hb.2

/-- A value that fits is taken in. -/
private theorem unpack_of_fits {value : XattrValue} {label : LabelStruct}
    (h : value.Fits label) :
    ∃ label', unpackDifcInodeXattr value.bytes label = .ok (0#32, label') ∧
      label'.Bounded := by
  obtain ⟨first, hfirst⟩ := exists_readLabel value 0 h.first_there
  obtain ⟨second, hsecond⟩ := exists_readLabel value _ h.second_there
  have hhead : headWord 8 value.bytes = some first := readLabel_iff.1 hfirst
  obtain ⟨-, hword₁⟩ := readLabel_eq_ok.1 hfirst
  obtain ⟨-, hword₂⟩ := readLabel_eq_ok.1 hsecond
  have hbug₁ := (first_checked_iff hword₁).2 h.first_checked
  have hbug₂ := (second_checked_iff hword₁ hword₂).2 h.second_checked
  rw [← step_toNat hword₁] at hsecond
  rcases h.copied with hsmall | ⟨hlow, hb⟩
  · rw [← hword₁] at hsmall
    have hlen : 8 * (first.toNat + 1) ≤ value.bytes.length := by
      have hthere := h.second_there
      have hsmall' : first.toNat ≤ 31 := hsmall
      rw [XattrValue.secondAt, ← hword₁] at hthere
      omega
    obtain ⟨-, label₁, -, hcopy₁, hcount₁, -, -⟩ :=
      copyList_bounded label .sec hhead hsmall hlen
    obtain ⟨-, label₂, -, hcopy₂, hcount₂, -, hframe⟩ :=
      copyList_bounded label₁ .int hhead hsmall hlen
    refine ⟨label₂, unpackDifcInodeXattr_eq_ok.2 ⟨rfl, first, label₁, second, hfirst, hbug₁,
      hcopy₁, hsecond, hbug₂, hcopy₂⟩, LabelStruct.bounded_iff.2 ?_⟩
    rintro (_ | _)
    · rw [hframe .sec (by decide)]
      exact Nat.le_trans (Nat.le_of_eq hcount₁) hsmall
    · exact Nat.le_trans (Nat.le_of_eq hcount₂) hsmall
  · rw [← hword₁] at hlow
    exact ⟨label, unpackDifcInodeXattr_eq_ok.2 ⟨rfl, first, label, second, hfirst, hbug₁,
      copyList_nothing _ _ hhead hlow, hsecond, hbug₂, copyList_nothing _ _ hhead hlow⟩, hb⟩

private theorem takesIn_iff (isec : ObjectSecurityStruct) {value : XattrValue}
    (hne : value.bytes ≠ []) : TakesIn isec value ↔ value.Fits isec.label := by
  constructor
  · rintro ⟨rv, isec', hret, hsafe⟩
    obtain ⟨n, label, hunpack, rfl, rfl⟩ := (difcInodeSetsecurity_eq_ok hne).1 hret
    obtain ⟨rfl, -⟩ := unpackDifcInodeXattr_eq_ok.1 hunpack
    -- the decoder rejects nothing
    rcases hsafe with ⟨hrejects, -⟩ | hb
    · exact absurd rfl hrejects
    · exact fits_of_unpack hunpack hb
  · intro h
    obtain ⟨label, hunpack, hb⟩ := unpack_of_fits h
    exact ⟨_, _, (difcInodeSetsecurity_eq_ok hne).2 ⟨_, _, hunpack, rfl, rfl⟩, .inr hb⟩

/-- Whatever the hook leaves of a value that fits is a label with counts that fit. -/
theorem bounded_of_setsecurity {isec : Option ObjectSecurityStruct} {value : XattrValue}
    (hfits : ∀ oss, isec = some oss → value.Fits oss.label) {rv : Int}
    {isec' : Option ObjectSecurityStruct}
    (hret : difcInodeSetsecurity isec xattrDifcSuffix (some value.bytes) = .ok (rv, isec')) :
    ∀ oss, isec' = some oss → oss.label.Bounded := by
  cases isec with
  | none =>
      cases hret
      exact fun oss h => by cases h
  | some isec =>
      have hfits := hfits isec rfl
      have hne : value.bytes ≠ [] := by
        intro hnil
        have hthere := hfits.first_there
        rw [hnil] at hthere
        exact absurd hthere (by decide)
      obtain ⟨rv', oss', hret', hsafe⟩ := (takesIn_iff isec hne).2 hfits
      rw [hret'] at hret
      obtain ⟨rfl, rfl⟩ := Prod.mk.inj (Except.ok.inj hret)
      obtain ⟨n, label, hunpack, rfl, -⟩ := (difcInodeSetsecurity_eq_ok hne).1 hret'
      obtain ⟨rfl, -⟩ := unpackDifcInodeXattr_eq_ok.1 hunpack
      rintro oss ⟨⟩
      exact hsafe.resolve_left fun h => h.1 rfl

/-- The hook writes the label and nothing else. -/
theorem labelChangeSem_of_setsecurity {isec isec' : Option ObjectSecurityStruct} {name : String}
    {value : Option (List Byte)} {rv : Int}
    (hret : difcInodeSetsecurity isec name value = .ok (rv, isec')) :
    isec'.map ObjectSecurityStruct.labelChangeSem =
      isec.map ObjectSecurityStruct.labelChangeSem := by
  cases isec with
  | none =>
      cases hret
      rfl
  | some isec =>
      simp only [difcInodeSetsecurity] at hret
      split at hret
      · cases hret
        rfl
      split at hret
      · cases hret
        rfl
      · cases hret
        rfl
      · obtain ⟨r, -, hret⟩ := bind_eq_ok.1 hret
        cases hret
        rfl

/-! ## The two hooks -/

/-- **When the attribute hooks keep to their buffers.**  A label is handed out
properly only into a buffer of exactly its size, and a value from the disk is taken
in without harm only if it fits. -/
theorem xattrHooks_safe_iff (isec : ObjectSecurityStruct) (h : isec.label.Bounded)
    (buffer : List Byte) (inode : ObjectSecurityStruct) (value : XattrValue)
    (hne : value.bytes ≠ []) :
    (HandsOut isec buffer ↔ buffer.length = isec.label.xattrSize) ∧
      (TakesIn inode value ↔ value.Fits inode.label) :=
  ⟨handsOut_iff h buffer, takesIn_iff inode hne⟩

/-- The unlabeled inode and the attribute of sixteen zero bytes, read and written. -/
theorem xattrHooks_unlabeled :
    HandsOut ⟨.zero, 0⟩ (List.replicate 16 0#8) ∧
      TakesIn ⟨.zero, 0⟩ ⟨List.replicate 16 0#8, by decide⟩ := by
  have h := xattrHooks_safe_iff ⟨.zero, 0⟩ (by decide) (List.replicate 16 0#8) ⟨.zero, 0⟩
    ⟨List.replicate 16 0#8, by decide⟩ (by decide)
  exact ⟨h.1.2 (by decide), h.2.2 ⟨by decide, by decide, by decide, by decide, by decide⟩⟩

/-- The encoding of an unlabeled inode is written past the end of a buffer of eight
bytes, and refused although there is room in one of 24.  A value of eight bytes that
announces five labels passes the first check, and 48 bytes are copied from it. -/
theorem xattrHooks_overrun :
    (∃ isec buffer, isec.label.Bounded ∧ buffer.length < isec.label.xattrSize ∧
      ¬ HandsOut isec buffer) ∧
    (∃ isec buffer, isec.label.Bounded ∧ isec.label.xattrSize < buffer.length ∧
      ¬ HandsOut isec buffer) ∧
    ∃ isec value, value.bytes ≠ [] ∧ ¬ TakesIn isec value := by
  refine ⟨⟨⟨.zero, 0⟩, List.replicate 8 0#8, by decide, by decide, ?_⟩,
    ⟨⟨.zero, 0⟩, List.replicate 24 0#8, by decide, by decide, ?_⟩,
    ⟨.zero, 0⟩, ⟨5#8 :: List.replicate 7 0#8, by decide⟩, by decide, ?_⟩
  · rw [handsOut_iff (by decide)]
    decide
  · rw [handsOut_iff (by decide)]
    decide
  · rw [takesIn_iff _ (by decide)]
    exact fun h => absurd h.second_there (by decide)

end Laminar.Kernel
