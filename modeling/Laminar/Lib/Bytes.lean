import Mathlib.Algebra.Group.Nat.Defs

/-!
# Words in byte buffers

Little-endian layout of fixed-width words in a buffer of bytes: writing a list of
words, reading words back from the front, reading one word at an offset, and
copying bytes into a buffer with a bounds check.  The lemmas say that reading
inverts writing and that two adjacent copies fill a buffer of the right size.
-/

namespace Laminar.Lib

/-- A byte. -/
abbrev Byte := BitVec 8

/-- The `w` least significant bytes of `n`, the lowest first. -/
def leBytes : Nat → Nat → List Byte
  | 0, _ => []
  | w + 1, n => BitVec.ofNat 8 n :: leBytes w (n / 2 ^ 8)

/-- The number a sequence of bytes denotes, the lowest first. -/
def leNat : List Byte → Nat
  | [] => 0
  | b :: bs => b.toNat + 2 ^ 8 * leNat bs

@[simp] theorem length_leBytes (w n : Nat) : (leBytes w n).length = w := by
  induction w generalizing n with
  | zero => rfl
  | succ w ih => simp [leBytes, ih]

theorem leNat_leBytes (w n : Nat) : leNat (leBytes w n) = n % (2 ^ 8) ^ w := by
  induction w generalizing n with
  | zero => simp [leBytes, leNat, Nat.mod_one]
  | succ w ih =>
      have hpow : (2 ^ 8) ^ (w + 1) = 2 ^ 8 * (2 ^ 8) ^ w := Nat.pow_succ'
      rw [leBytes, leNat, ih, BitVec.toNat_ofNat, hpow, Nat.mod_mul]

theorem leNat_lt (bytes : List Byte) : leNat bytes < (2 ^ 8) ^ bytes.length := by
  induction bytes with
  | nil => exact Nat.one_pos
  | cons b bytes ih =>
      have hb := b.isLt
      have hpow : (2 ^ 8) ^ (bytes.length + 1) = 2 ^ 8 * (2 ^ 8) ^ bytes.length := Nat.pow_succ'
      rw [leNat, List.length_cons, hpow]
      omega

/-- A number splits into its low bytes and the bytes above them. -/
theorem leBytes_add (v w n : Nat) :
    leBytes (v + w) n = leBytes v n ++ leBytes w (n / (2 ^ 8) ^ v) := by
  induction v generalizing n with
  | zero => simp [leBytes]
  | succ v ih =>
      have hpow : (2 ^ 8) ^ (v + 1) = 2 ^ 8 * (2 ^ 8) ^ v := Nat.pow_succ'
      rw [Nat.succ_add, leBytes, ih, leBytes, List.cons_append, Nat.div_div_eq_div_mul, hpow]

section Words

variable {w : Nat}

/-- Write words one after the other. -/
def encodeWords (w : Nat) (xs : List (BitVec (8 * w))) : List Byte :=
  xs.flatMap fun x => leBytes w x.toNat

/-- The word in the first `w` bytes. -/
def headWord (w : Nat) (bytes : List Byte) : Option (BitVec (8 * w)) :=
  if w ≤ bytes.length then some (BitVec.ofNat (8 * w) (leNat (bytes.take w))) else none

/-- Read `n` words from the front. -/
def decodeWords (w : Nat) : Nat → List Byte → Option (List (BitVec (8 * w)))
  | 0, _ => some []
  | n + 1, bytes => do
      let x ← headWord w bytes
      let xs ← decodeWords w n (bytes.drop w)
      return x :: xs

@[simp] theorem encodeWords_nil : encodeWords w [] = [] := rfl

theorem encodeWords_cons (x : BitVec (8 * w)) (xs : List (BitVec (8 * w))) :
    encodeWords w (x :: xs) = leBytes w x.toNat ++ encodeWords w xs := rfl

theorem encodeWords_append (xs ys : List (BitVec (8 * w))) :
    encodeWords w (xs ++ ys) = encodeWords w xs ++ encodeWords w ys :=
  List.flatMap_append

@[simp] theorem length_encodeWords (xs : List (BitVec (8 * w))) :
    (encodeWords w xs).length = w * xs.length := by
  induction xs with
  | nil => rfl
  | cons x xs ih =>
      rw [encodeWords_cons, List.length_append, length_leBytes, ih, List.length_cons,
        Nat.mul_succ, Nat.add_comm]

/-- A word is there if enough bytes are, and its value is the number they denote. -/
theorem headWord_eq_some {bytes : List Byte} {x : BitVec (8 * w)} :
    headWord w bytes = some x ↔ w ≤ bytes.length ∧ x.toNat = leNat (bytes.take w) := by
  rw [headWord]
  split
  · rename_i hlen
    have hlt := leNat_lt (bytes.take w)
    rw [List.length_take, Nat.min_eq_left hlen, ← Nat.pow_mul] at hlt
    rw [Option.some.injEq, eq_comm, ← BitVec.toNat_inj, BitVec.toNat_ofNat,
      Nat.mod_eq_of_lt hlt, and_iff_right hlen]
  · rename_i hlen
    exact iff_of_false (Option.some_ne_none x).symm fun h => hlen h.1

theorem headWord_encodeWords (x : BitVec (8 * w)) (xs : List (BitVec (8 * w)))
    (rest : List Byte) : headWord w (encodeWords w (x :: xs) ++ rest) = some x := by
  have hlen : w ≤ (encodeWords w (x :: xs) ++ rest).length := by
    rw [List.length_append, length_encodeWords, List.length_cons, Nat.mul_succ]
    omega
  have hword : (encodeWords w (x :: xs) ++ rest).take w = leBytes w x.toNat := by
    rw [encodeWords_cons, List.append_assoc]
    exact List.take_left' (length_leBytes w _)
  have hfit : x.toNat < (2 ^ 8) ^ w := by
    rw [← Nat.pow_mul]
    exact x.isLt
  rw [headWord, if_pos hlen, hword, leNat_leBytes, Nat.mod_eq_of_lt hfit,
    BitVec.ofNat_toNat, BitVec.setWidth_eq]

/-- Reading one word at its place. -/
theorem headWord_drop_encodeWords (xs : List (BitVec (8 * w))) (i : Nat) (hi : i < xs.length) :
    headWord w ((encodeWords w xs).drop (w * i)) = some xs[i] := by
  have hsplit : encodeWords w xs = encodeWords w (xs.take i) ++ encodeWords w (xs.drop i) := by
    rw [← encodeWords_append, List.take_append_drop]
  have htake : (encodeWords w (xs.take i)).length = w * i := by
    rw [length_encodeWords, List.length_take, Nat.min_eq_left (Nat.le_of_lt hi)]
  rw [hsplit, List.drop_left' htake, List.drop_eq_getElem_cons hi]
  simpa only [List.append_nil] using headWord_encodeWords xs[i] (xs.drop (i + 1)) []

/-- Reading as many words as were written returns them. -/
theorem decodeWords_encodeWords (xs : List (BitVec (8 * w))) (rest : List Byte) :
    decodeWords w xs.length (encodeWords w xs ++ rest) = some xs := by
  induction xs with
  | nil => rfl
  | cons x xs ih =>
      have hdrop : (encodeWords w (x :: xs) ++ rest).drop w = encodeWords w xs ++ rest := by
        rw [encodeWords_cons, List.append_assoc]
        exact List.drop_left' (length_leBytes w _)
      rw [List.length_cons, decodeWords, headWord_encodeWords, hdrop, ih]
      rfl

theorem length_decodeWords {n : Nat} {bytes : List Byte} {xs : List (BitVec (8 * w))}
    (h : decodeWords w n bytes = some xs) : xs.length = n := by
  induction n generalizing bytes xs with
  | zero =>
      rw [decodeWords, Option.some.injEq] at h
      rw [← h, List.length_nil]
  | succ n ih =>
      obtain ⟨x, -, hrest⟩ := Option.bind_eq_some_iff.1 h
      obtain ⟨ys, hys, hxs⟩ := Option.bind_eq_some_iff.1 hrest
      obtain rfl := Option.some.inj hxs
      rw [List.length_cons, ih hys]

/-- The first of the words read is the word at the front. -/
theorem decodeWords_succ {n : Nat} {bytes : List Byte} {x : BitVec (8 * w)}
    {xs : List (BitVec (8 * w))} (hx : headWord w bytes = some x)
    (h : decodeWords w (n + 1) bytes = some xs) : ∃ ys, xs = x :: ys := by
  obtain ⟨y, hy, hrest⟩ := Option.bind_eq_some_iff.1 h
  obtain ⟨ys, -, hxs⟩ := Option.bind_eq_some_iff.1 hrest
  obtain rfl := Option.some.inj (hx.symm.trans hy)
  exact ⟨ys, (Option.some.inj hxs).symm⟩

/-- Words can be read as long as there are bytes. -/
theorem exists_decodeWords {n : Nat} {bytes : List Byte} (h : w * n ≤ bytes.length) :
    ∃ xs, decodeWords w n bytes = some xs := by
  induction n generalizing bytes with
  | zero => exact ⟨[], rfl⟩
  | succ n ih =>
      rw [Nat.mul_succ] at h
      obtain ⟨xs, hxs⟩ := ih (show w * n ≤ (bytes.drop w).length by rw [List.length_drop]; omega)
      exact ⟨_ :: xs, by rw [decodeWords, headWord, if_pos (by omega), hxs]; rfl⟩

end Words

/-- `memcpy(buf + pos, data, ...)` into a buffer of known size. -/
def copyInto (buf : List Byte) (pos : Nat) (data : List Byte) : Option (List Byte) :=
  if pos + data.length ≤ buf.length then
    some (buf.take pos ++ data ++ buf.drop (pos + data.length))
  else none

theorem length_copyInto {buf data buf' : List Byte} {pos : Nat}
    (h : copyInto buf pos data = some buf') : buf'.length = buf.length := by
  rw [copyInto] at h
  split at h
  · rename_i hfit
    rw [← Option.some.inj h]
    simp only [List.length_append, List.length_take, List.length_drop]
    omega
  · exact absurd h (Option.some_ne_none _).symm

/-- Two adjacent copies that fill the buffer leave nothing of its old contents. -/
theorem copyInto_adjacent (buf xs ys : List Byte) (h : buf.length = xs.length + ys.length) :
    (copyInto buf 0 xs).bind (fun buf' => copyInto buf' xs.length ys) =
      some (xs ++ ys) := by
  have hfirst : copyInto buf 0 xs = some (xs ++ buf.drop xs.length) := by
    rw [copyInto, if_pos (by omega)]
    simp
  have hlen : xs.length + ys.length ≤ (xs ++ buf.drop xs.length).length := by
    simp only [List.length_append, List.length_drop]
    omega
  rw [hfirst, Option.bind_some, copyInto, if_pos hlen, List.take_left,
    List.drop_eq_nil_of_le (by simp only [List.length_append, List.length_drop]; omega),
    List.append_nil]

end Laminar.Lib
