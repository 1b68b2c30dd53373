import Laminar.Lib.Bytes
import Laminar.Lib.Loop
import Laminar.Kernel.Label

/-!
# Labels as extended attributes

`pack_difc_inode_xattr` writes the two lists of a label one behind the other, each
as its count followed by its entries; `unpack_difc_inode_xattr` reads them back.
The module is built for 32-bit x86: `size_t` has 32 bits, `char` is signed and
words are little-endian, while the counts are 64-bit words.  The two pointers
`buf` and `lbuf` of the decoder alias one buffer and step through it in bytes and
in words.

The decoder copies the second list from `buf`, which still points at the first
one, and not from `lbuf`.  So a label comes back with its secrecy list in both
places, and the round trip is the identity exactly on the labels whose two lists
agree.
-/

namespace Laminar.Kernel

open Laminar.Lib

/-- Where a list starts in a `label_struct`, in words. -/
def ListKind.offset : ListKind → Nat
  | .sec => 0
  | .int => labelListLabels

/-- The words of a `label_struct`. -/
def LabelStruct.words (lbl : LabelStruct) : List LabelT :=
  lbl.secList.toList ++ lbl.intList.toList

/-- Read `n` words from the start of a list.  The two lists are adjacent, so a
read past the first one sees the second. -/
def loadWords (lbl : LabelStruct) (k : ListKind) (n : Nat) : Except Fault (List LabelT) :=
  if k.offset + n ≤ 2 * labelListLabels then .ok ((lbl.words.drop k.offset).take n)
  else .error .outOfStruct

/-- Word `i` of list `k'` after the words from the start of list `k` have been
overwritten by `ws`. -/
def storedWord (lbl : LabelStruct) (k : ListKind) (ws : List LabelT) (k' : ListKind)
    (i : Fin labelListLabels) : LabelT :=
  if k.offset ≤ k'.offset + i then
    (ws[k'.offset + i - k.offset]?).getD ((lbl.list k').get i)
  else (lbl.list k').get i

/-- Overwrite the words from the start of a list. -/
def storeWords (lbl : LabelStruct) (k : ListKind) (ws : List LabelT) :
    Except Fault LabelStruct :=
  if k.offset + ws.length ≤ 2 * labelListLabels then
    .ok { secList := Vector.ofFn (storedWord lbl k ws .sec),
          intList := Vector.ofFn (storedWord lbl k ws .int) }
  else .error .outOfStruct

/-- `memcpy` into the caller's buffer. -/
def writeBuf (buf : List Byte) (pos : Nat) (data : List Byte) : Except Fault (List Byte) :=
  match copyInto buf pos data with
  | some buf' => .ok buf'
  | none => .error .outOfBuffer

/-- `*lbuf`, for `lbuf` at byte `pos` of the buffer. -/
def readLabel (buf : List Byte) (pos : Nat) : Except Fault LabelT :=
  match headWord 8 (buf.drop pos) with
  | some x => .ok x
  | none => .error .outOfBuffer

/-- `pack_difc_inode_xattr(buf, len, isec)`; `len` is the size of `buf`. -/
def packDifcInodeXattr (buf : List Byte) (isec : LabelStruct) :
    Except Fault (BitVec 32 × List Byte) := do
  let rv : BitVec 32 := (isec.secList.countWord + isec.intList.countWord + 2#64).setWidth 32 * 8#32
  if rv.toNat < buf.length then
    return (BitVec.ofInt 32 (-eRange), buf)
  else
    let offset : BitVec 32 := ((isec.secList.countWord + 1#64) * 8#64).setWidth 32
    let sec ← loadWords isec .sec (offset.toNat / 8)
    let buf ← writeBuf buf 0 (encodeWords 8 sec)
    let int ← loadWords isec .int ((rv - offset).toNat / 8)
    let buf ← writeBuf buf offset.toNat (encodeWords 8 int)
    return (rv, buf)

/-- `memcpy(list, buf, ((*buf) + 1) * sizeof(label_t))`: the size comes from the
first byte of the buffer, as a signed `char`. -/
def copyList (buf : List Byte) (isec : LabelStruct) (k : ListKind) :
    Except Fault LabelStruct :=
  match buf with
  | [] => .error .outOfBuffer
  | b :: _ =>
      let size : BitVec 32 := (b.signExtend 32 + 1#32) * 8#32
      match decodeWords 8 (size.toNat / 8) buf with
      | none => .error .outOfBuffer
      | some ws => storeWords isec k ws

/-- `unpack_difc_inode_xattr(buf, len, isec)`; `len` is the size of `buf`. -/
def unpackDifcInodeXattr (buf : List Byte) (isec : LabelStruct) :
    Except Fault (BitVec 32 × LabelStruct) := do
  let len : BitVec 64 := BitVec.ofNat 64 buf.length
  let first ← readLabel buf 0
  if first + 1#64 > len then
    .error .bugOn
  else
    let isec ← copyList buf isec .sec
    let curbound : BitVec 32 := (first + 1#64).setWidth 32
    let step : BitVec 32 := ((first + 1#64) * 8#64).setWidth 32
    let second ← readLabel buf step.toNat
    if second + 1#64 + curbound.setWidth 64 > len then
      .error .bugOn
    else
      let isec ← copyList buf isec .int
      return (0#32, isec)

/-! ## The encoding -/

/-- A list as it is stored on disk: the count and the entries. -/
def LabelList.wire (l : LabelList) : List LabelT := l.countWord :: l.entries

theorem LabelList.length_wire {l : LabelList} (h : l.Bounded) :
    l.wire.length = l.count + 1 := by
  rw [wire, List.length_cons, length_entries h]

private theorem loadWords_wire {lbl : LabelStruct} (k : ListKind)
    (h : (lbl.list k).Bounded) :
    loadWords lbl k ((lbl.list k).count + 1) = .ok (lbl.list k).wire := by
  have hb : (lbl.list k).count ≤ 31 := h
  have hwords : (lbl.words.drop k.offset).take ((lbl.list k).count + 1) =
      (lbl.list k).toList.take ((lbl.list k).count + 1) := by
    cases k with
    | sec =>
        simp only [LabelStruct.words, ListKind.offset, List.drop_zero]
        exact List.take_append_of_le_length (by simp; exact Nat.succ_le_succ hb)
    | int =>
        simp only [LabelStruct.words, ListKind.offset]
        rw [List.drop_left' (by simp)]
        rfl
  have hcons : (lbl.list k).toList = (lbl.list k).countWord :: (lbl.list k).toList.drop 1 := by
    apply List.ext_getElem
    · simp
    · intro i _ _
      cases i <;> simp [LabelList.countWord]
  have hfit : k.offset + ((lbl.list k).count + 1) ≤ 2 * 32 := by
    cases k <;> simp only [ListKind.offset, labelListLabels] <;> omega
  rw [loadWords, if_pos hfit, hwords, hcons]
  simp [LabelList.wire, LabelList.entries]

/-- The bytes an encoded label takes. -/
def LabelStruct.xattrSize (lbl : LabelStruct) : Nat :=
  (lbl.secList.count + lbl.intList.count + 2) * 8

private theorem packSize_toNat {lbl : LabelStruct} (h : lbl.Bounded) :
    ((lbl.secList.countWord + lbl.intList.countWord + 2#64).setWidth 32 * 8#32).toNat =
      lbl.xattrSize := by
  have hs : lbl.secList.countWord.toNat = lbl.secList.count := rfl
  have hi : lbl.intList.countWord.toNat = lbl.intList.count := rfl
  have hsb : lbl.secList.count ≤ 31 := h.1
  have hib : lbl.intList.count ≤ 31 := h.2
  simp only [LabelStruct.xattrSize, BitVec.toNat_mul, BitVec.toNat_setWidth, BitVec.toNat_add,
    BitVec.toNat_ofNat, hs, hi]
  omega

/-- `lbuf` or `buf` moved past the first list. -/
private theorem packOffset_toNat {lbl : LabelStruct} (h : lbl.Bounded) :
    (((lbl.secList.countWord + 1#64) * 8#64).setWidth 32).toNat =
      8 * (lbl.secList.count + 1) := by
  have hs : lbl.secList.countWord.toNat = lbl.secList.count := rfl
  have hsb : lbl.secList.count ≤ 31 := h.1
  simp only [BitVec.toNat_mul, BitVec.toNat_setWidth, BitVec.toNat_add, BitVec.toNat_ofNat, hs]
  omega

/-- A buffer larger than the encoding is refused: the comparison is the wrong way
round. -/
theorem packDifcInodeXattr_larger {lbl : LabelStruct} (h : lbl.Bounded) {buf : List Byte}
    (hlen : lbl.xattrSize < buf.length) :
    packDifcInodeXattr buf lbl = .ok (BitVec.ofInt 32 (-eRange), buf) := by
  rw [← packSize_toNat h] at hlen
  exact if_pos hlen

/-- In any other buffer the two lists are written without a further check. -/
private theorem packDifcInodeXattr_writes {lbl : LabelStruct} (h : lbl.Bounded)
    {buf : List Byte} (hlen : buf.length ≤ lbl.xattrSize) :
    packDifcInodeXattr buf lbl = do
      let buf ← writeBuf buf 0 (encodeWords 8 lbl.secList.wire)
      let buf ← writeBuf buf (8 * (lbl.secList.count + 1)) (encodeWords 8 lbl.intList.wire)
      return (BitVec.ofNat 32 lbl.xattrSize, buf) := by
  have hsb : lbl.secList.count ≤ 31 := h.1
  have hib : lbl.intList.count ≤ 31 := h.2
  have hoff := packOffset_toNat h
  have hrv : (lbl.secList.countWord + lbl.intList.countWord + 2#64).setWidth 32 * 8#32 =
      BitVec.ofNat 32 lbl.xattrSize := by
    rw [← packSize_toNat h, BitVec.ofNat_toNat, BitVec.setWidth_eq]
  have hsize : (BitVec.ofNat 32 lbl.xattrSize).toNat = lbl.xattrSize := by
    rw [← hrv, packSize_toNat h]
  have hrest : (BitVec.ofNat 32 lbl.xattrSize -
      ((lbl.secList.countWord + 1#64) * 8#64).setWidth 32).toNat =
      8 * (lbl.intList.count + 1) := by
    rw [BitVec.toNat_sub, hoff, hsize, LabelStruct.xattrSize]
    omega
  have hsec := loadWords_wire .sec h.1
  have hint := loadWords_wire .int h.2
  simp only [LabelStruct.list] at hsec hint
  simp only [packDifcInodeXattr, hrv, hsize, if_neg (Nat.not_lt.2 hlen), hoff, hrest,
    Nat.mul_div_cancel_left _ (show 0 < 8 by decide), hsec, hint, ok_bind]

/-- What `pack_difc_inode_xattr` leaves in a buffer of exactly the right size. -/
theorem packDifcInodeXattr_eq {lbl : LabelStruct} (h : lbl.Bounded) {buf : List Byte}
    (hlen : buf.length = (lbl.secList.count + lbl.intList.count + 2) * 8) :
    packDifcInodeXattr buf lbl = .ok (BitVec.ofNat 32 buf.length,
      encodeWords 8 (lbl.secList.wire ++ lbl.intList.wire)) := by
  have hcopy := copyInto_adjacent buf (encodeWords 8 lbl.secList.wire)
    (encodeWords 8 lbl.intList.wire) (by
      rw [length_encodeWords, length_encodeWords, LabelList.length_wire h.1,
        LabelList.length_wire h.2]
      omega)
  rw [← encodeWords_append, length_encodeWords, LabelList.length_wire h.1] at hcopy
  obtain ⟨buf', hfirst, hsecond⟩ := Option.bind_eq_some_iff.1 hcopy
  have hsize : buf.length = lbl.xattrSize := hlen
  rw [packDifcInodeXattr_writes h (Nat.le_of_eq hsize), hsize]
  simp only [writeBuf, hfirst, hsecond, ok_bind]
  rfl

/-- A buffer smaller than the encoding is written past its end. -/
theorem packDifcInodeXattr_smaller {lbl : LabelStruct} (h : lbl.Bounded) {buf : List Byte}
    (hlen : buf.length < lbl.xattrSize) :
    packDifcInodeXattr buf lbl = .error .outOfBuffer := by
  rw [packDifcInodeXattr_writes h (Nat.le_of_lt hlen)]
  cases hfirst : copyInto buf 0 (encodeWords 8 lbl.secList.wire) with
  | none => simp only [writeBuf, hfirst, bind, Except.bind]
  | some buf' =>
      have hsecond : copyInto buf' (8 * (lbl.secList.count + 1))
          (encodeWords 8 lbl.intList.wire) = none := by
        rw [LabelStruct.xattrSize] at hlen
        rw [copyInto, length_copyInto hfirst, length_encodeWords, LabelList.length_wire h.2,
          if_neg (by omega)]
      simp only [writeBuf, hfirst, hsecond, bind, Except.bind]

/-! ## The decoder -/

/-- Storing a count and that many entries makes them the list, and leaves the
other list alone. -/
private theorem storeWords_wire (isec : LabelStruct) (k : ListKind) (c : LabelT)
    (es : List LabelT) (hc : c.toNat = es.length) (hb : es.length ≤ 31) :
    ∃ isec', storeWords isec k (c :: es) = .ok isec' ∧
      (isec'.list k).count = es.length ∧ (isec'.list k).entries = es ∧
      ∀ k', k' ≠ k → isec'.list k' = isec.list k' := by
  have hfit : k.offset + (c :: es).length ≤ 2 * 32 := by
    cases k <;> simp only [ListKind.offset, labelListLabels, List.length_cons] <;> omega
  refine ⟨_, if_pos hfit, ?_⟩
  have hlist : ∀ k', LabelStruct.list ⟨Vector.ofFn (storedWord isec k (c :: es) .sec),
      Vector.ofFn (storedWord isec k (c :: es) .int)⟩ k' =
      Vector.ofFn (storedWord isec k (c :: es) k') := by
    intro k'
    cases k' <;> rfl
  have hword : ∀ i (hi : i < 32), i < (c :: es).length →
      some (storedWord isec k (c :: es) k ⟨i, hi⟩) = (c :: es)[i]? := by
    intro i hi hlt
    rw [storedWord, if_pos (Nat.le_add_right _ _), Nat.add_sub_cancel_left,
      List.getElem?_eq_getElem hlt, Option.getD_some]
  have hcount : LabelList.count (Vector.ofFn (storedWord isec k (c :: es) k)) =
      es.length := by
    have hzero := hword 0 (by decide) (by simp)
    rw [List.getElem?_cons_zero, Option.some.injEq] at hzero
    rw [LabelList.count, Vector.getElem_ofFn, hzero, hc]
  simp only [hlist]
  refine ⟨hcount, LabelList.entries_ext ?_ hcount.symm ?_, ?_⟩
  · show LabelList.count _ ≤ 31
    omega
  · intro i hi hi'
    have hnext := hword (i + 1) hi' (by simpa using hi)
    rw [List.getElem?_cons_succ, List.getElem?_eq_getElem hi, Option.some.injEq] at hnext
    rw [Vector.getElem_ofFn, hnext]
  · intro k' hk'
    apply Vector.ext
    intro i hi
    have hi32 : i < 32 := hi
    rw [Vector.getElem_ofFn, storedWord]
    split
    · rename_i hle
      -- the copy ends inside its own list, before the words of the other one
      have hnone : (c :: es)[k'.offset + i - k.offset]? = none := by
        apply List.getElem?_eq_none
        cases k <;> cases k' <;>
          simp only [ListKind.offset, labelListLabels, List.length_cons] at hle ⊢ <;>
          first | exact absurd rfl hk' | omega
      rw [hnone]
      rfl
    · rfl

/-- The words the decoder copies for a non-negative first byte. -/
private theorem copySize_of_lt {b : Byte} (hb : b.toNat < 128) :
    ((b.signExtend 32 + 1#32) * 8#32).toNat / 8 = b.toNat + 1 := by
  have hmsb : b.msb = false := by
    rw [BitVec.msb_eq_decide, decide_eq_false_iff_not]
    exact Nat.not_le.2 hb
  rw [BitVec.signExtend_eq_setWidth_of_msb_false hmsb]
  simp only [BitVec.toNat_mul, BitVec.toNat_add, BitVec.toNat_setWidth, BitVec.toNat_ofNat]
  omega

/-- The words it copies for a negative one: none for `-1`, else about `2 ^ 29`. -/
private theorem copySize_of_ge {b : Byte} (hb : 128 ≤ b.toNat) :
    ((b.signExtend 32 + 1#32) * 8#32).toNat / 8 = (2 ^ 29 + b.toNat - 255) % 2 ^ 29 := by
  have hmsb : b.msb = true := by
    rw [BitVec.msb_eq_decide, decide_eq_true_eq]
    exact hb
  have hlt := b.isLt
  simp only [BitVec.toNat_mul, BitVec.toNat_add, BitVec.toNat_signExtend, hmsb,
    BitVec.toNat_setWidth, BitVec.toNat_ofNat, if_true]
  omega

/-- The first byte of the buffer is the low byte of its first word. -/
private theorem copyList_cons {buf : List Byte} {first : LabelT}
    (hfirst : headWord 8 buf = some first) :
    ∃ b bs, buf = b :: bs ∧ b.toNat = first.toNat % 256 := by
  obtain ⟨hlen, hval⟩ := headWord_eq_some.1 hfirst
  cases buf with
  | nil => exact absurd hlen (by decide)
  | cons b bs =>
      have hb := b.isLt
      refine ⟨b, bs, rfl, ?_⟩
      rw [List.take_succ_cons, leNat] at hval
      omega

/-- The copy in the decoder, when the first word is a count that fits. -/
theorem copyList_bounded (isec : LabelStruct) (k : ListKind) {buf : List Byte}
    {first : LabelT} (hfirst : headWord 8 buf = some first) (hb : first.toNat ≤ 31)
    (hlen : 8 * (first.toNat + 1) ≤ buf.length) :
    ∃ es isec', decodeWords 8 (first.toNat + 1) buf = some (first :: es) ∧
      copyList buf isec k = .ok isec' ∧ (isec'.list k).count = first.toNat ∧
      (isec'.list k).entries = es ∧ ∀ k', k' ≠ k → isec'.list k' = isec.list k' := by
  obtain ⟨b, bs, rfl, hlow⟩ := copyList_cons hfirst
  obtain ⟨ws, hws⟩ := exists_decodeWords hlen
  obtain ⟨es, rfl⟩ := decodeWords_succ hfirst hws
  have hes : first.toNat = es.length := by
    have hlength := length_decodeWords hws
    rw [List.length_cons] at hlength
    omega
  obtain ⟨isec', hstore, hcount, hentries, hframe⟩ :=
    storeWords_wire isec k first es hes (by omega)
  refine ⟨es, isec', hws, ?_, hcount.trans hes.symm, hentries, hframe⟩
  rw [copyList]
  simp only [copySize_of_lt (b := b) (by omega), show b.toNat = first.toNat by omega, hws, hstore]

private theorem storeWords_nil (isec : LabelStruct) (k : ListKind) :
    storeWords isec k [] = .ok isec := by
  have hfit : k.offset + ([] : List LabelT).length ≤ 2 * labelListLabels := by
    cases k <;> decide
  have hword : ∀ k', Vector.ofFn (storedWord isec k [] k') = isec.list k' := by
    intro k'
    apply Vector.ext
    intro i hi
    rw [Vector.getElem_ofFn, storedWord, List.getElem?_nil, Option.getD_none, ite_self]
    rfl
  rw [storeWords, if_pos hfit, hword, hword]
  rfl

/-- A buffer that starts with the byte `-1` is copied nowhere. -/
theorem copyList_nothing (isec : LabelStruct) (k : ListKind) {buf : List Byte}
    {first : LabelT} (hfirst : headWord 8 buf = some first)
    (hlow : first.toNat % 256 = 255) : copyList buf isec k = .ok isec := by
  obtain ⟨b, bs, rfl, hb⟩ := copyList_cons hfirst
  have hsize := copySize_of_ge (b := b) (by omega)
  rw [show (2 ^ 29 + b.toNat - 255) % 2 ^ 29 = 0 by omega] at hsize
  rw [copyList]
  simp only [hsize, decodeWords]
  exact storeWords_nil isec k

/-- The copy of the second list stays inside the label only for a first byte of at
most 31 or for the byte `-1`; in the former case the first word becomes the count. -/
theorem copyList_int_ok {isec isec' : LabelStruct} {buf : List Byte} {first : LabelT}
    (hfirst : headWord 8 buf = some first) (h : copyList buf isec .int = .ok isec') :
    first.toNat % 256 = 255 ∨ isec'.intList.count = first.toNat := by
  obtain ⟨b, bs, rfl, hb⟩ := copyList_cons hfirst
  rw [copyList] at h
  split at h
  · cases h
  · rename_i ws hws
    have hlength := length_decodeWords hws
    by_cases hfit : ListKind.int.offset + ws.length ≤ 2 * labelListLabels
    · rw [storeWords, if_pos hfit] at h
      have hwords : 32 + ws.length ≤ 2 * 32 := hfit
      by_cases hneg : 128 ≤ b.toNat
      · left
        rw [copySize_of_ge hneg] at hlength
        omega
      · right
        rw [copySize_of_lt (Nat.lt_of_not_le hneg)] at hws
        obtain ⟨es, rfl⟩ := decodeWords_succ hfirst hws
        rw [← Except.ok.inj h, LabelList.count, Vector.getElem_ofFn]
        rfl
    · rw [storeWords, if_neg hfit] at h
      cases h

/-- The copy in the decoder, on a buffer that starts with a list. -/
private theorem copyList_wire (isec : LabelStruct) (k : ListKind) {l : LabelList}
    (h : l.Bounded) (rest : List Byte) :
    ∃ isec', copyList (encodeWords 8 l.wire ++ rest) isec k = .ok isec' ∧
      (isec'.list k).count = l.count ∧ (isec'.list k).entries = l.entries ∧
      ∀ k', k' ≠ k → isec'.list k' = isec.list k' := by
  have hfirst : headWord 8 (encodeWords 8 l.wire ++ rest) = some l.countWord :=
    headWord_encodeWords (w := 8) l.countWord l.entries rest
  have hlen : 8 * (l.count + 1) ≤ (encodeWords 8 l.wire ++ rest).length := by
    rw [List.length_append, length_encodeWords, LabelList.length_wire h]
    omega
  obtain ⟨es, isec', hws, hcopy, hcount, hentries, hframe⟩ :=
    copyList_bounded isec k hfirst h hlen
  have hwire := decodeWords_encodeWords (w := 8) l.wire rest
  rw [LabelList.length_wire h] at hwire
  obtain ⟨-, rfl⟩ := List.cons.inj (Option.some.inj (hws.symm.trans hwire))
  exact ⟨isec', hcopy, hcount, hentries, hframe⟩

/-- What the decoder reads, checks and copies when it returns. -/
theorem unpackDifcInodeXattr_eq_ok {buf : List Byte} {isec isec' : LabelStruct}
    {rv : BitVec 32} :
    unpackDifcInodeXattr buf isec = .ok (rv, isec') ↔
      rv = 0#32 ∧ ∃ first isec₁ second, readLabel buf 0 = .ok first ∧
        first + 1#64 ≤ BitVec.ofNat 64 buf.length ∧ copyList buf isec .sec = .ok isec₁ ∧
        readLabel buf (((first + 1#64) * 8#64).setWidth 32).toNat = .ok second ∧
        second + 1#64 + ((first + 1#64).setWidth 32).setWidth 64 ≤ BitVec.ofNat 64 buf.length ∧
        copyList buf isec₁ .int = .ok isec' := by
  constructor
  · intro h
    obtain ⟨first, hfirst, h⟩ := bind_eq_ok.1 h
    split at h
    · cases h
    rename_i hbug₁
    obtain ⟨isec₁, hcopy₁, h⟩ := bind_eq_ok.1 h
    obtain ⟨second, hsecond, h⟩ := bind_eq_ok.1 h
    split at h
    · cases h
    rename_i hbug₂
    obtain ⟨isec₂, hcopy₂, h⟩ := bind_eq_ok.1 h
    obtain ⟨rfl, rfl⟩ := Prod.mk.inj (Except.ok.inj h)
    exact ⟨rfl, first, isec₁, second, hfirst, BitVec.not_lt.1 hbug₁, hcopy₁, hsecond,
      BitVec.not_lt.1 hbug₂, hcopy₂⟩
  · rintro ⟨rfl, first, isec₁, second, hfirst, hbug₁, hcopy₁, hsecond, hbug₂, hcopy₂⟩
    simp only [unpackDifcInodeXattr, hfirst, hcopy₁, hsecond, hcopy₂, ok_bind, gt_iff_lt,
      if_neg (BitVec.not_lt.2 hbug₁), if_neg (BitVec.not_lt.2 hbug₂)]
    rfl

/-- What the decoder makes of an encoded label: both lists are the first one. -/
theorem unpackDifcInodeXattr_eq {lbl : LabelStruct} (h : lbl.Bounded)
    (isec : LabelStruct) :
    ∃ isec', unpackDifcInodeXattr
        (encodeWords 8 (lbl.secList.wire ++ lbl.intList.wire)) isec = .ok (0#32, isec') ∧
      ∀ k, (isec'.list k).count = lbl.secList.count ∧
        (isec'.list k).entries = lbl.secList.entries := by
  have hs : lbl.secList.countWord.toNat = lbl.secList.count := rfl
  have hi : lbl.intList.countWord.toNat = lbl.intList.count := rfl
  have hsb : lbl.secList.count ≤ 31 := h.1
  have hib : lbl.intList.count ≤ 31 := h.2
  have hlen : (encodeWords 8 (lbl.secList.wire ++ lbl.intList.wire)).length =
      8 * (lbl.secList.count + lbl.intList.count + 2) := by
    rw [length_encodeWords, List.length_append, LabelList.length_wire h.1,
      LabelList.length_wire h.2]
    omega
  have happ := encodeWords_append (w := 8) lbl.secList.wire lbl.intList.wire
  have hfirst : readLabel (encodeWords 8 (lbl.secList.wire ++ lbl.intList.wire)) 0 =
      .ok lbl.secList.countWord := by
    rw [readLabel, List.drop_zero, happ, LabelList.wire,
      headWord_encodeWords (w := 8) lbl.secList.countWord]
  have hstep : (((lbl.secList.countWord + 1#64) * 8#64).setWidth 32).toNat =
      (encodeWords 8 lbl.secList.wire).length := by
    rw [length_encodeWords, LabelList.length_wire h.1]
    exact packOffset_toNat h
  have hsecond : readLabel (encodeWords 8 (lbl.secList.wire ++ lbl.intList.wire))
      (encodeWords 8 lbl.secList.wire).length = .ok lbl.intList.countWord := by
    have hhead := headWord_encodeWords (w := 8) lbl.intList.countWord lbl.intList.entries []
    rw [List.append_nil] at hhead
    rw [readLabel, happ, List.drop_left, LabelList.wire, hhead]
  have hbug₁ : lbl.secList.countWord + 1#64 ≤
      BitVec.ofNat 64 (8 * (lbl.secList.count + lbl.intList.count + 2)) := by
    rw [BitVec.le_def]
    simp only [BitVec.toNat_add, BitVec.toNat_ofNat, hs]
    omega
  have hbug₂ : lbl.intList.countWord + 1#64 +
      ((lbl.secList.countWord + 1#64).setWidth 32).setWidth 64 ≤
      BitVec.ofNat 64 (8 * (lbl.secList.count + lbl.intList.count + 2)) := by
    rw [BitVec.le_def]
    simp only [BitVec.toNat_add, BitVec.toNat_setWidth, BitVec.toNat_ofNat, hs, hi]
    omega
  obtain ⟨isec₁, hcopy₁, hcount₁, hentries₁, -⟩ :=
    copyList_wire isec .sec h.1 (encodeWords 8 lbl.intList.wire)
  obtain ⟨isec₂, hcopy₂, hcount₂, hentries₂, hframe₂⟩ :=
    copyList_wire isec₁ .int h.1 (encodeWords 8 lbl.intList.wire)
  rw [← happ] at hcopy₁ hcopy₂
  rw [← hlen] at hbug₁ hbug₂
  rw [← hstep] at hsecond
  refine ⟨isec₂, unpackDifcInodeXattr_eq_ok.2 ⟨rfl, _, _, _, hfirst, hbug₁, hcopy₁, hsecond,
    hbug₂, hcopy₂⟩, ?_⟩
  rintro (_ | _)
  · rw [hframe₂ .sec (by decide)]
    exact ⟨hcount₁, hentries₁⟩
  · exact ⟨hcount₂, hentries₂⟩

/-! ## The round trip -/

/-- Packing `lbl` into `buf` and unpacking the result over `isec` succeeds and
gives back the counts and entries of `lbl`. -/
def RoundTrips (lbl : LabelStruct) (buf : List Byte) (isec : LabelStruct) : Prop :=
  ∃ n buf' isec', packDifcInodeXattr buf lbl = .ok (n, buf') ∧
    unpackDifcInodeXattr buf' isec = .ok (0#32, isec') ∧
    ∀ k, (isec'.list k).count = (lbl.list k).count ∧
      (isec'.list k).entries = (lbl.list k).entries

private theorem lists_agree_of_roundTrips {lbl : LabelStruct} (h : lbl.Bounded)
    {buf : List Byte}
    (hlen : buf.length = (lbl.secList.count + lbl.intList.count + 2) * 8)
    {isec : LabelStruct} (hrt : RoundTrips lbl buf isec) :
    lbl.intList.count = lbl.secList.count ∧
      lbl.intList.entries = lbl.secList.entries := by
  obtain ⟨n, buf', isec', hpack, hunpack, hsame⟩ := hrt
  rw [packDifcInodeXattr_eq h hlen] at hpack
  obtain ⟨-, rfl⟩ := Prod.mk.inj (Except.ok.inj hpack)
  obtain ⟨isec'', hunpack', hlists⟩ := unpackDifcInodeXattr_eq h isec
  rw [hunpack'] at hunpack
  obtain ⟨-, rfl⟩ := Prod.mk.inj (Except.ok.inj hunpack)
  obtain ⟨hcount, hentries⟩ := hsame .int
  exact ⟨hcount.symm.trans (hlists .int).1, hentries.symm.trans (hlists .int).2⟩

/-- The round trip of a label through an attribute of exactly its size is the
identity if and only if its two lists agree. -/
theorem roundTrips_iff_lists_agree (lbl : LabelStruct) (h : lbl.Bounded)
    (buf : List Byte)
    (hlen : buf.length = (lbl.secList.count + lbl.intList.count + 2) * 8)
    (isec : LabelStruct) :
    RoundTrips lbl buf isec ↔ lbl.intList.count = lbl.secList.count ∧
      lbl.intList.entries = lbl.secList.entries := by
  constructor
  · exact lists_agree_of_roundTrips h hlen
  · rintro ⟨hcount, hentries⟩
    obtain ⟨isec', hunpack, hlists⟩ := unpackDifcInodeXattr_eq h isec
    refine ⟨_, _, isec', packDifcInodeXattr_eq h hlen, hunpack, ?_⟩
    rintro (_ | _)
    · exact hlists .sec
    · exact ⟨(hlists .int).1.trans hcount.symm, (hlists .int).2.trans hentries.symm⟩

/-- A label with the tags 7 and 9 in both lists survives. -/
theorem roundTrips_equal_lists :
    RoundTrips ⟨.ofLabels [7#64, 9#64], .ofLabels [7#64, 9#64]⟩ (List.replicate 48 0#8)
      .zero :=
  (roundTrips_iff_lists_agree _ (by decide) _ rfl _).2 ⟨rfl, rfl⟩

/-- The label with secrecy tag 7 and no integrity tag comes back with integrity
tag 7. -/
theorem not_roundTrips_secrecy_only :
    ∃ lbl buf isec, lbl.Bounded ∧
      buf.length = (lbl.secList.count + lbl.intList.count + 2) * 8 ∧
      ¬ RoundTrips lbl buf isec := by
  refine ⟨⟨.ofLabels [7#64], .ofLabels []⟩, List.replicate 24 0#8, .zero, by decide, rfl, ?_⟩
  intro hrt
  obtain ⟨hcount, -⟩ := lists_agree_of_roundTrips (by decide) rfl hrt
  exact absurd hcount (by decide)

end Laminar.Kernel
