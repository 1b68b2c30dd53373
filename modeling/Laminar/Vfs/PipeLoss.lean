import Mathlib.Data.Nat.Find
import Laminar.Vfs.PipeSteady

/-!
# Writes that lose data

A write that returns a positive number should have appended that many bytes of its data to the
stream in the pipe.  There are two ways in which it does not.

The pipe gets full: the hook `pipe_full` answers yes for every label, so the call pretends to be
complete and returns the length of all its data.  It never waits for a reader.

A copy faults behind the end of a segment: the second attempt starts at the next segment and
writes to the beginning of the page, so that the bytes in front of it are skipped.  If there are
not enough bytes left, the attempt runs past the end of the `iovec`.

`keepsData_iff` says that there is no third one.
-/

namespace Laminar.Vfs.Data

open Laminar.Lib Laminar.Kernel

/-! ## What a write should do -/

/-- A positive result says how many bytes of the data were appended, in order, to the stream that
was in the pipe.  What other tasks have read meanwhile comes in front of what is still there. -/
def KeepsData (base data : List Byte) : Except WriteFault WriteEnd → Prop
  | .ok (.returned r pipe drained) => 0 < r → drained ++ pipe.stream = base ++ data.take r.toNat
  | .ok (.waits _ _) => True
  | .error _ => False

/-- An `iovec` that `rw_copy_check_uvector` lets through: the lengths of its segments, and their
sum is an `ssize_t`. -/
structure Iovec where
  lens : List Nat
  ssize : iovLength lens ≤ ssizeMax

section Outcomes

variable {base data : List Byte} {room : Nat}

/-- Where nothing was skipped, data is lost only in a pipe that gets full. -/
theorem Ends.keepsData {ending : WriteEnd} (h : Ends base data room ending)
    (hroom : data.length ≤ room) : KeepsData base data (.ok ending) := by
  cases ending with
  | waits => exact trivial
  | returned r pipe drained =>
      obtain ⟨n, -, -, rfl, hstream, hr⟩ := h
      intro hpos
      rw [List.nil_append, hstream]
      rcases hr with hle | rfl | ⟨-, hlt, rfl⟩
      · omega
      · rw [Int.toNat_natCast]
      · omega

/-- A call that returns the length of all data and keeps it had the room. -/
theorem Ends.le_room {pipe : Pipe} {drained : List Byte} (hpos : 0 < data.length)
    (h : Ends base data room (.returned data.length pipe drained))
    (hkeeps : KeepsData base data (.ok (.returned data.length pipe drained))) :
    data.length ≤ room := by
  obtain ⟨n, hle, hroom, rfl, hstream, -⟩ := h
  have hall := hkeeps (Int.natCast_pos.2 hpos)
  rw [List.nil_append, hstream, Int.toNat_natCast] at hall
  have hlength := congrArg List.length (List.append_cancel_left hall)
  rw [List.length_take, List.length_take] at hlength
  omega

end Outcomes

/-! ## Wrong bytes -/

/-- What the call has appended so far is not an initial part of the data. -/
def Wrong (base data : List Byte) (w : Writing) : Prop :=
  ∃ done, w.drained ++ w.pipe.stream = base ++ done ∧ w.ret = done.length ∧ ¬ done <+: data

section Wrong

variable {isec tsec : BitVec 64} {env : DataEnv} {nonblock : Bool} {base data : List Byte}
  {w : Writing}

/-- A positive result after wrong bytes is wrong. -/
theorem not_keepsData_of_not_prefix {done : List Byte} (hdone : ¬ done <+: data) {r : Int}
    (hr : 0 < r) {pipe : Pipe} {drained : List Byte}
    (hstream : drained ++ pipe.stream = base ++ done) :
    ¬ KeepsData base data (.ok (.returned r pipe drained)) := by
  intro hkeeps
  have hall := hkeeps hr
  rw [hstream] at hall
  exact hdone (List.append_cancel_left hall ▸ List.take_prefix ..)

theorem Wrong.ret_pos (h : Wrong base data w) : 0 < w.ret := by
  obtain ⟨done, -, hret, hdone⟩ := h
  cases done with
  | nil => exact absurd List.nil_prefix hdone
  | cons b done =>
      rw [hret]
      exact Int.natCast_pos.2 (Nat.succ_pos _)

/-- An exit after wrong bytes. -/
theorem Wrong.not_keepsData (h : Wrong base data w) {r : Int} (hr : 0 < r) {pipe : Pipe}
    (hpipe : pipe.stream = w.pipe.stream) :
    ¬ KeepsData base data (.ok (.returned r pipe w.drained)) := by
  obtain ⟨done, hstream, -, hdone⟩ := h
  exact not_keepsData_of_not_prefix hdone hr (hpipe ▸ hstream)

/-- What is appended later does not make it right. -/
theorem Wrong.filled (h : Wrong base data w) (hroom : w.pipe.nrbufs < pipeBuffers) (chars : Nat)
    (out : Copied) : Wrong base data (w.filled hroom chars out) := by
  obtain ⟨done, hstream, hret, hdone⟩ := h
  refine ⟨done ++ pageBytes out.page 0 chars, ?_, ?_, fun h => hdone ?_⟩
  · show w.drained ++ (w.pipe.insert hroom _).stream = _
    rw [Pipe.stream_insert, ← List.append_assoc, hstream, List.append_assoc]
    rfl
  · show w.ret + chars = _
    rw [hret, List.length_append, length_pageBytes, Int.natCast_add]
  · exact (List.prefix_append ..).trans h

theorem Wrong.retOr_pos (h : Wrong base data w) (error : Int) : 0 < retOr w.ret error := by
  have hpos := h.ret_pos
  rw [retOr, if_neg (by omega)]
  exact hpos

/-- The rest of a round in which wrong bytes are put into a buffer, or were before. -/
theorem Wrong.rest {Inv : Writing → Prop} (hInv : ∀ w, Wrong base data w → Inv w)
    (hpos : 0 < toSsize data.length) {hroom : w.pipe.nrbufs < pipeBuffers} {chars : Nat}
    {out : Copied} (h : Wrong base data (w.filled hroom chars out)) :
    RoundKeeps Inv (fun ending => ¬ KeepsData base data (.ok ending))
      (if w.totalLen - chars = 0 then
        (.ok (.leave (.returned (w.filled hroom chars out).ret (w.filled hroom chars out).pipe
          w.drained)) : Except WriteFault (Round WriteEnd Writing))
      else if w.pipe.nrbufs + 1 < pipeBuffers then .ok (.next (w.filled hroom chars out))
      else .ok (pipeFull isec tsec env nonblock data.length (w.filled hroom chars out))) := by
  split
  · exact h.not_keepsData h.ret_pos rfl
  split
  · exact hInv _ h
  · rw [pipeFull_leaves]
    exact h.not_keepsData hpos rfl

/-- A round after wrong bytes. -/
theorem Wrong.round {Inv : Writing → Prop} (hInv : ∀ w, Wrong base data w → Inv w)
    (hpos : 0 < toSsize data.length) (h : Wrong base data w) :
    RoundKeeps Inv (fun ending => ¬ KeepsData base data (.ok ending))
      (writeRound isec tsec env nonblock data.length w) := by
  unfold writeRound
  dsimp only
  split
  · exact h.not_keepsData (h.retOr_pos _) rfl
  split
  · rename_i hroom
    split
    · exact h.not_keepsData (h.retOr_pos _) rfl
    · rename_i page _
      cases copyTwice env w.iov w.copies 0 (min pageSize w.totalLen) page with
      | error fault => exact trivial
      | ok out =>
          show RoundKeeps _ _ (if out.failed then _ else _)
          split
          · exact h.not_keepsData (h.retOr_pos _) rfl
          · exact Wrong.rest hInv hpos (h.filled hroom _ out)
  · rw [pipeFull_leaves]
    exact h.not_keepsData hpos rfl

end Wrong

/-! ## A skipped segment -/

/-- The environment in which copy number `c` faults and nothing else goes wrong. -/
def faultAt (c : Nat) : DataEnv :=
  ⟨⟨0, fun k => decide (k = c), fun _ => true, false⟩, fun _ => 0, fun _ => 0#8⟩

/-- Data that shows where it comes from: zeros up to `s`, then ones. -/
def marked (s rest : Nat) : List Byte := List.replicate s 0#8 ++ List.replicate rest 1#8

theorem length_marked (s rest : Nat) : (marked s rest).length = s + rest := by
  rw [marked, List.length_append, List.length_replicate, List.length_replicate]

/-- Data from which the bytes up to `s` were left out is no initial part of it. -/
theorem not_prefix_marked {n s rest chars : Nat} (hn : n < s) (hrest : 0 < rest)
    (hchars : 0 < chars) :
    ¬ ((marked s rest).take n ++ ((marked s rest).drop s).take chars) <+: marked s rest := by
  rintro ⟨more, hmore⟩
  have hlen : ((marked s rest).take n).length = n := by
    rw [List.length_take, length_marked]
    omega
  have hdrop : (marked s rest).drop s = List.replicate rest 1#8 := by
    rw [marked, List.drop_left' (List.length_replicate ..)]
  have hat : (marked s rest)[n]? = some 0#8 := by
    rw [marked, List.getElem?_append_left (by rwa [List.length_replicate]),
      List.getElem?_replicate, if_pos hn]
  rw [← hmore, List.append_assoc, List.getElem?_append_right (Nat.le_of_eq hlen), hlen,
    Nat.sub_self, hdrop, List.take_replicate, List.getElem?_append_left (by simp; omega),
    List.getElem?_replicate, if_pos (by omega)] at hat
  exact absurd hat (by decide)

/-- After a skip up to `s` the bytes are wrong. -/
theorem wrong_of_skip {base : List Byte} {n s rest chars : Nat} (hn : n < s) (hrest : 0 < rest)
    (hchars : 0 < chars) (hle : chars ≤ ((marked s rest).drop s).length) {w : Writing}
    (hstream : w.drained ++ w.pipe.stream =
      base ++ ((marked s rest).take n ++ ((marked s rest).drop s).take chars))
    (hret : w.ret = (n + chars : Nat)) : Wrong base (marked s rest) w := by
  refine ⟨_, hstream, ?_, not_prefix_marked hn hrest hchars⟩
  have hlen : ((marked s rest).take n).length = n := by
    rw [List.length_take, length_marked]
    omega
  rw [hret, List.length_append, hlen, List.length_take_of_le hle]

/-- The call is on its way to the end `s` of a segment, which lies inside of a piece and is the
first one that does.  Copy number `c` is the one behind it. -/
structure Hunting (base : List Byte) (s rest room c : Nat) (w : Writing) (n : Nat) : Prop where
  prog : Progress base (marked s rest) room w n
  before : n < s
  isEnd : SegmentEnd (w.iov.map List.length) (s - n)
  crosses : ¬ pageSize ∣ s - n
  least : ∀ t, SegmentEnd (w.iov.map List.length) t → t < s - n → pageSize ∣ t
  copy : c = w.copies + 1 + (s - n) / pageSize

section Hunting

variable {isec tsec : BitVec 64} {nonblock : Bool} {base : List Byte} {s rest room c n : Nat}
  {w : Writing}

/-- The segment that the next piece starts in ends at `s`, or the piece ends before. -/
theorem Hunting.first (h : Hunting base s rest room c w n) :
    ∃ empties seg segs u, w.iov = empties ++ seg :: segs ∧ (∀ e ∈ empties, e.length = 0) ∧
      0 < seg.length ∧ SegmentEnd (segs.map List.length) u ∧ s - n = seg.length + u ∧
      (seg.length < pageSize → seg.length = s - n) := by
  have hbefore := h.before
  have hsome : w.iov.flatten ≠ [] := by
    rw [h.prog.iov]
    refine List.ne_nil_of_length_pos ?_
    rw [List.length_drop, length_marked]
    omega
  obtain ⟨empties, seg, segs, hiov, hempties, hseg⟩ := exists_first_segment hsome
  have hend := h.isEnd
  rw [hiov, segmentEnd_first hempties] at hend
  rcases hend with hzero | ⟨u, hu, hsum⟩
  · omega
  refine ⟨empties, seg, segs, u, hiov, hempties, hseg, hu, hsum, fun hsmall => ?_⟩
  -- an end before `s` would be a multiple of the page size
  by_cases hlt : seg.length < s - n
  · have hfirst : SegmentEnd (w.iov.map List.length) seg.length := by
      rw [hiov]
      exact (segmentEnd_first hempties).2 (Or.inr ⟨0, segmentEnd_zero _, rfl⟩)
    have hle := Nat.le_of_dvd hseg (h.least _ hfirst hlt)
    omega
  · omega

/-- A page nearer to `s`. -/
theorem Hunting.filled (h : Hunting base s rest room c w n) {empties segs : List (List Byte)}
    {seg : List Byte} {u : Nat} (hiov : w.iov = empties ++ seg :: segs)
    (hempties : ∀ e ∈ empties, e.length = 0) (hu : SegmentEnd (segs.map List.length) u)
    (hsum : s - n = seg.length + u) (hpage : pageSize ≤ seg.length) {out : Copied}
    (hout : out.iov = seg.drop pageSize :: segs) (hcopies : out.copies = w.copies + 1)
    (hroom : w.pipe.nrbufs < pipeBuffers)
    (hprog : Progress base (marked s rest) room (w.filled hroom pageSize out) (n + pageSize)) :
    Hunting base s rest room c (w.filled hroom pageSize out) (n + pageSize) := by
  have hcrosses := h.crosses
  have hne : s - n ≠ pageSize := fun heq => hcrosses (heq ▸ Nat.dvd_refl _)
  have hsub : s - (n + pageSize) = s - n - pageSize := by omega
  have hiov' : (w.filled hroom pageSize out).iov.map List.length =
      (seg.length - pageSize) :: segs.map List.length := by
    show out.iov.map List.length = _
    rw [hout, List.map_cons, List.length_drop]
  refine ⟨hprog, by omega, ?_, fun hdvd => hcrosses ?_, fun t ht hlt => ?_, ?_⟩
  · rw [hiov', segmentEnd_cons]
    exact Or.inr ⟨u, hu, by omega⟩
  · have hadd := Nat.dvd_add hdvd (Nat.dvd_refl pageSize)
    rwa [hsub, Nat.sub_add_cancel (by omega)] at hadd
  · rw [hiov', segmentEnd_cons] at ht
    rcases ht with rfl | ⟨v, hv, rfl⟩
    · exact Nat.dvd_zero _
    · have hend : SegmentEnd (w.iov.map List.length) (seg.length + v) := by
        rw [hiov]
        exact (segmentEnd_first hempties).2 (Or.inr ⟨v, hv, rfl⟩)
      have hdvd := Nat.dvd_sub (h.least _ hend (by omega)) (Nat.dvd_refl pageSize)
      rwa [Nat.sub_add_comm hpage] at hdvd
  · have hcopy := h.copy
    show c = out.copies + 1 + (s - (n + pageSize)) / pageSize
    rw [hcopies, hsub]
    unfold pageSize at *
    omega

/-- The exit of the full pipe with data left. -/
theorem Progress.not_keepsData_full {data : List Byte} (h : Progress base data room w n)
    (hlen : data.length ≤ ssizeMax) (hleft : 0 < w.totalLen) :
    ¬ KeepsData base data (.ok (.returned (toSsize data.length) w.pipe w.drained)) := by
  intro hkeeps
  have hall := h.left
  rw [toSsize_of_le hlen] at hkeeps
  have hstream := hkeeps (Int.natCast_pos.2 (by omega))
  rw [h.drained, List.nil_append, h.stream, Int.toNat_natCast] at hstream
  have hlength := congrArg List.length (List.append_cancel_left hstream)
  rw [List.length_take, List.length_take] at hlength
  omega

theorem pageFor_faultAt (c : Nat) (pipe : Pipe) : ∃ page, pageFor (faultAt c) pipe = some page := by
  cases hpage : pageFor (faultAt c) pipe with
  | some page => exact ⟨page, rfl⟩
  | none =>
      obtain ⟨-, halloc⟩ := Option.or_eq_none_iff.1 hpage
      simp [faultAt] at halloc

/-- The state of a call on its way to a skipped segment, or past it. -/
def Astray (base : List Byte) (s rest room c : Nat) (w : Writing) : Prop :=
  (∃ n, Hunting base s rest room c w n) ∨ Wrong base (marked s rest) w

/-- The piece that crosses `s`. -/
theorem Hunting.skip (h : Hunting base s rest room c w n) (hrest : 0 < rest)
    {empties segs : List (List Byte)} {seg : List Byte} (hiov : w.iov = empties ++ seg :: segs)
    (hempties : ∀ e ∈ empties, e.length = 0) (hseg : seg.length = s - n)
    (hsmall : seg.length < min pageSize w.totalLen) {page : Page} {out : Copied}
    (hout : copyTwice (faultAt c) w.iov w.copies 0 (min pageSize w.totalLen) page = .ok out)
    (hroom : w.pipe.nrbufs < pipeBuffers) :
    out.failed = false ∧
      Wrong base (marked s rest) (w.filled hroom (min pageSize w.totalLen) out) := by
  have hbefore := h.before
  have hflat : segs.flatten = (marked s rest).drop s := by
    have hdrop : (w.iov.flatten).drop seg.length = segs.flatten := by
      rw [hiov, flatten_empties hempties, List.flatten_cons, List.drop_left]
    rw [← hdrop, h.prog.iov, List.drop_drop, hseg, Nat.add_sub_cancel' (Nat.le_of_lt hbefore)]
  have hmore : segs.flatten ≠ [] := by
    refine List.ne_nil_of_length_pos ?_
    rw [hflat, List.length_drop, length_marked]
    omega
  have hcopy : c = w.copies + 1 := by
    rw [h.copy, Nat.div_eq_of_lt (by omega)]
  have hfault : ∀ k, (faultAt c).fault k = decide (k = w.copies + 1) := fun k => by
    rw [← hcopy]
    rfl
  rw [hiov] at hout
  obtain ⟨hok, -, -, hbytes, hle⟩ :=
    copyTwice_skips hempties (by omega) hsmall hmore hfault hout
  rw [hflat] at hle hbytes
  refine ⟨hok, wrong_of_skip hbefore hrest (by omega) hle ?_ ?_⟩
  · show w.drained ++ (w.pipe.insert hroom _).stream = _
    rw [Pipe.stream_insert, h.prog.drained, List.nil_append, h.prog.stream, List.append_assoc,
      ← hbytes]
    rfl
  · show w.ret + _ = _
    rw [h.prog.ret, Int.natCast_add]

/-- A piece that is a page of one segment. -/
theorem Hunting.page (h : Hunting base s rest room c w n) {empties segs : List (List Byte)}
    {seg : List Byte} {u : Nat} (hiov : w.iov = empties ++ seg :: segs)
    (hempties : ∀ e ∈ empties, e.length = 0) (hu : SegmentEnd (segs.map List.length) u)
    (hsum : s - n = seg.length + u) (hpage : pageSize ≤ seg.length)
    (hleft : pageSize ≤ w.totalLen) (hroom : w.pipe.nrbufs < pipeBuffers) (page : Page) :
    ∃ out, copyTwice (faultAt c) w.iov w.copies 0 pageSize page = .ok out ∧ out.failed = false ∧
      Hunting base s rest room c (w.filled hroom pageSize out) (n + pageSize) := by
  have hlater : w.copies < c := by
    rw [h.copy]
    exact Nat.lt_of_lt_of_le (Nat.lt_succ_self _) (Nat.le_add_right ..)
  have hfault : (faultAt c).fault w.copies = false := decide_eq_false (Nat.ne_of_lt hlater)
  obtain ⟨out, hout, happended, hclean⟩ : ∃ out,
      copyTwice (faultAt c) (empties ++ seg :: segs) w.copies 0 pageSize page = .ok out ∧ _ ∧ _ :=
    copyTwice_single hempties segs (by decide) hpage w.copies 0 page
  obtain ⟨hok, hcopies⟩ := hclean hfault
  obtain ⟨houtiov, happended⟩ := happended hok
  rw [← hiov] at hout happended
  refine ⟨out, hout, hok, ?_⟩
  exact h.filled hiov hempties hu hsum hpage houtiov hcopies hroom
    (h.prog.filled happended hroom hleft)

/-- A round on the way to `s`. -/
theorem Hunting.round (h : Hunting base s rest room c w n) (hrest : 0 < rest)
    (hlen : (marked s rest).length ≤ ssizeMax) :
    RoundKeeps (Astray base s rest room c)
      (fun ending => ¬ KeepsData base (marked s rest) (.ok ending))
      (writeRound isec tsec (faultAt c) nonblock (marked s rest).length w) := by
  have hbefore := h.before
  have hleft := h.prog.left
  rw [length_marked] at hleft
  have hpos : 0 < toSsize (marked s rest).length := by
    rw [toSsize_of_le hlen, length_marked]
    omega
  unfold writeRound
  rw [if_neg h.prog.readers]
  by_cases hroom : w.pipe.nrbufs < pipeBuffers
  · rw [dif_pos hroom]
    obtain ⟨page, hpage⟩ := pageFor_faultAt c w.pipe
    rw [hpage]
    dsimp only
    obtain ⟨empties, seg, segs, u, hiov, hempties, hseg, hu, hsum, hsmall⟩ := h.first
    by_cases hcross : seg.length < min pageSize w.totalLen
    · -- this piece goes on behind `s`
      cases hout : copyTwice (faultAt c) w.iov w.copies 0 (min pageSize w.totalLen) page with
      | error fault => exact trivial
      | ok out =>
          obtain ⟨hok, hwrong⟩ := h.skip hrest hiov hempties (hsmall (by omega)) hcross hout hroom
          show RoundKeeps _ _ (if out.failed then _ else _)
          rw [hok, if_neg Bool.false_ne_true]
          exact Wrong.rest (fun _ => Or.inr) hpos hwrong
    · -- this piece is a page of one segment
      have hmin : min pageSize w.totalLen = pageSize := by omega
      rw [hmin] at hcross ⊢
      obtain ⟨out, hout, hok, hnext⟩ := h.page hiov hempties hu hsum (Nat.not_lt.1 hcross)
        (by omega) hroom page
      rw [hout]
      show RoundKeeps _ _ (if out.failed then _ else _)
      have hmore : 0 < w.totalLen - pageSize := by
        have hbefore' := hnext.before
        omega
      rw [hok, if_neg Bool.false_ne_true, if_neg (Nat.ne_of_gt hmore)]
      split
      · exact Or.inl ⟨_, hnext⟩
      · rw [pipeFull_leaves]
        exact hnext.prog.not_keepsData_full hlen hmore
  · rw [dif_neg hroom, pipeFull_leaves]
    exact h.prog.not_keepsData_full hlen (by omega)

/-- A round of a call that has gone astray. -/
theorem Astray.round (h : Astray base s rest room c w) (isec tsec : BitVec 64) (nonblock : Bool)
    (hrest : 0 < rest) (hlen : (marked s rest).length ≤ ssizeMax) :
    RoundKeeps (Astray base s rest room c)
      (fun ending => ¬ KeepsData base (marked s rest) (.ok ending))
      (writeRound isec tsec (faultAt c) nonblock (marked s rest).length w) := by
  rcases h with ⟨n, hhunt⟩ | hwrong
  · exact hhunt.round hrest hlen
  · refine hwrong.round (fun _ => Or.inr) ?_
    rw [toSsize_of_le hlen, length_marked]
    omega

/-- A loop that has gone astray does not keep the data. -/
theorem Astray.not_keepsData (h : Astray base s rest room c w) (hrest : 0 < rest)
    (hlen : (marked s rest).length ≤ ssizeMax) (reads : List (List Nat)) :
    ¬ KeepsData base (marked s rest)
      (afterMerge isec tsec (faultAt c) nonblock reads (marked s rest).length (.next w)) := by
  have hround := fun w (hw : Astray base s rest room c w) =>
    hw.round isec tsec nonblock hrest hlen
  cases hloop : afterMerge isec tsec (faultAt c) nonblock reads (marked s rest).length
    (.next w) with
  | error fault => exact id
  | ok ending => exact loop_keeps hround h hloop

end Hunting

/-! ## Calls that skip a segment -/

section Skips

variable {isec tsec : BitVec 64} {nonblock : Bool} {reads : List (List Nat)} {pipe : Pipe}
  {iov : List (List Byte)} {s rest m : Nat}

/-- `s` is the first end of a segment inside of a piece of the data. -/
structure FirstInside (lens : List Nat) (m s rest : Nat) : Prop where
  isEnd : SegmentEnd lens s
  pos : 0 < s
  more : 0 < rest
  inside : ¬ (m ≤ s ∧ pageSize ∣ s - m)
  least : ∀ t, SegmentEnd lens t → 0 < t → t < s → m ≤ t ∧ pageSize ∣ t - m

/-- The first segment that is not empty, and `s`. -/
theorem FirstInside.first (h : FirstInside (iov.map List.length) m s rest)
    (hflat : iov.flatten = marked s rest) :
    ∃ empties seg segs u, iov = empties ++ seg :: segs ∧ (∀ e ∈ empties, e.length = 0) ∧
      0 < seg.length ∧ SegmentEnd (segs.map List.length) u ∧ s = seg.length + u ∧
      (seg.length < m → seg.length = s) := by
  have hpos := h.pos
  have hsome : iov.flatten ≠ [] := by
    refine List.ne_nil_of_length_pos ?_
    rw [hflat, length_marked]
    omega
  obtain ⟨empties, seg, segs, rfl, hempties, hseg⟩ := exists_first_segment hsome
  rcases (segmentEnd_first hempties).1 h.isEnd with hzero | ⟨u, hu, hsum⟩
  · omega
  refine ⟨empties, seg, segs, u, rfl, hempties, hseg, hu, hsum, fun hsmall => ?_⟩
  by_cases hlt : seg.length < s
  · have hfirst : SegmentEnd ((empties ++ seg :: segs).map List.length) seg.length :=
      (segmentEnd_first hempties).2 (Or.inr ⟨0, segmentEnd_zero _, rfl⟩)
    have hm := (h.least _ hfirst hseg hlt).1
    omega
  · omega

/-- Nothing is appended to the last buffer, and the loop starts on its way to `s`. -/
theorem FirstInside.hunting_start (h : FirstInside (iov.map List.length) 0 s rest)
    (hflat : iov.flatten = marked s rest) (hreaders : pipe.readers ≠ 0)
    (hm : mergeLen pipe iov.flatten.length = 0) :
    Hunting pipe.stream s rest (roomFor pipe iov.flatten.length) (1 + s / pageSize)
      (startWriting pipe iov reads) 0 where
  prog := hflat ▸ progress_start hreaders hm
  before := h.pos
  isEnd := h.isEnd
  crosses hdvd := h.inside ⟨Nat.zero_le _, hdvd⟩
  least t ht hlt := by
    rcases Nat.eq_zero_or_pos t with rfl | hpos
    · exact Nat.dvd_zero _
    · exact (h.least t ht hpos hlt).2
  copy := by
    show 1 + s / pageSize = 0 + 1 + (s - 0) / pageSize
    rw [Nat.zero_add, Nat.sub_zero]

/-- The piece for the last buffer is from one segment, and the loop starts on its way to `s`. -/
theorem FirstInside.hunting_merged (h : FirstInside (iov.map List.length) m s rest)
    (reads : List (List Nat)) (hflat : iov.flatten = marked s rest) (hreaders : pipe.readers ≠ 0)
    (hm : 0 < m)
    (hmerge : mergeLen pipe iov.flatten.length = m) (hlt : m < s) :
    ∃ out, copyTwice (faultAt (2 + (s - m) / pageSize)) iov 0
        (pipe.last.offset + pipe.last.len) m pipe.last.page = .ok out ∧ out.failed = false ∧
      Hunting pipe.stream s rest (roomFor pipe iov.flatten.length) (2 + (s - m) / pageSize)
        ((startWriting pipe iov reads).merged m out) m := by
  obtain ⟨empties, seg, segs, u, rfl, hempties, hseg, hu, hsum, hsmall⟩ := h.first hflat
  have hle : m ≤ seg.length := by omega
  have hfault : (faultAt (2 + (s - m) / pageSize)).fault 0 = false :=
    decide_eq_false (Nat.ne_of_lt (Nat.lt_of_lt_of_le (by decide) (Nat.le_add_right ..)))
  obtain ⟨out, hout, happended, hclean⟩ : ∃ out,
      copyTwice (faultAt (2 + (s - m) / pageSize)) (empties ++ seg :: segs) 0
        (pipe.last.offset + pipe.last.len) m pipe.last.page = .ok out ∧ _ ∧ _ :=
    copyTwice_single hempties segs hm hle 0 _ _
  obtain ⟨hok, hcopies⟩ := hclean hfault
  obtain ⟨hiov, happended⟩ := happended hok
  have hprog := progress_merged reads hreaders hm hmerge happended
  have hlens : ((startWriting pipe (empties ++ seg :: segs) reads).merged m out).iov.map
      List.length = (seg.length - m) :: segs.map List.length := by
    show out.iov.map List.length = _
    rw [hiov, List.map_cons, List.length_drop]
  refine ⟨out, hout, hok, hflat ▸ hprog, hlt, ?_, fun hdvd => h.inside ⟨Nat.le_of_lt hlt, hdvd⟩,
    fun t ht htlt => ?_, ?_⟩
  · rw [hlens, segmentEnd_cons]
    exact Or.inr ⟨u, hu, by omega⟩
  · rw [hlens, segmentEnd_cons] at ht
    rcases ht with rfl | ⟨v, hv, rfl⟩
    · exact Nat.dvd_zero _
    · have hend : SegmentEnd ((empties ++ seg :: segs).map List.length) (seg.length + v) :=
        (segmentEnd_first hempties).2 (Or.inr ⟨v, hv, rfl⟩)
      have hdvd := (h.least _ hend (by omega) (by omega)).2
      rwa [Nat.sub_add_comm hle] at hdvd
  · show 2 + (s - m) / pageSize = out.copies + 1 + (s - m) / pageSize
    rw [hcopies]

/-- The piece for the last buffer crosses `s`. -/
theorem FirstInside.wrong_merged (h : FirstInside (iov.map List.length) m s rest)
    (reads : List (List Nat)) (hflat : iov.flatten = marked s rest) (hm : 0 < m)
    (hmerge : mergeLen pipe iov.flatten.length = m) (hlt : s < m) {out : Copied}
    (hout : copyTwice (faultAt 1) iov 0 (pipe.last.offset + pipe.last.len) m pipe.last.page =
      .ok out) :
    out.failed = false ∧
      Wrong pipe.stream (marked s rest) ((startWriting pipe iov reads).merged m out) := by
  obtain ⟨empties, seg, segs, u, rfl, hempties, hseg, hu, hsum, hsmall⟩ := h.first hflat
  have hs : seg.length = s := hsmall (by omega)
  have hsegs : segs.flatten = (marked s rest).drop s := by
    rw [← hflat, flatten_empties hempties, List.flatten_cons, List.drop_left' hs]
  have hmore : segs.flatten ≠ [] := by
    refine List.ne_nil_of_length_pos ?_
    rw [hsegs, List.length_drop, length_marked]
    have hrest := h.more
    omega
  obtain ⟨hok, hframe, -, hbytes, hle⟩ :=
    copyTwice_skips hempties hseg (by omega) hmore (fun _ => rfl) hout
  rw [hsegs] at hle hbytes
  refine ⟨hok, wrong_of_skip h.pos h.more hm hle ?_ ?_⟩
  · show [] ++ _ = _
    rw [List.nil_append, stream_merged (mergeLen_pos hm hmerge).1 hframe, hbytes, List.take_zero,
      List.nil_append]
  · show (m : Int) = (0 + m : Nat)
    rw [Nat.zero_add]

/-- A fault behind `s`, and the call does not keep its data. -/
theorem FirstInside.loses (h : FirstInside (iov.map List.length) m s rest)
    (hflat : iov.flatten = marked s rest) (hreaders : pipe.readers ≠ 0)
    (hlen : iov.flatten.length ≤ ssizeMax) (hmerge : mergeLen pipe iov.flatten.length = m) :
    ∃ c, ¬ KeepsData pipe.stream iov.flatten
      (pipeWrite isec tsec (faultAt c) nonblock reads iov pipe) := by
  have hmarked : (marked s rest).length ≤ ssizeMax := hflat ▸ hlen
  have hpos : 0 < iov.flatten.length := by
    rw [hflat, length_marked]
    exact Nat.add_pos_left h.pos rest
  have hmore := h.more
  -- where the loop starts astray, the call is lost
  have hloop : ∀ {c w}, tryMerge (faultAt c) (startWriting pipe iov reads) = .ok (.next w) →
      Astray pipe.stream s rest (roomFor pipe iov.flatten.length) c w →
      ¬ KeepsData pipe.stream iov.flatten
        (pipeWrite isec tsec (faultAt c) nonblock reads iov pipe) := by
    intro c w hround hastray
    rw [pipeWrite_eq hreaders hpos hlen, hround, ok_bind, hflat]
    exact hastray.not_keepsData h.more hmarked reads
  rcases Nat.eq_zero_or_pos m with rfl | hm
  · exact ⟨1 + s / pageSize,
      hloop (tryMerge_none hmerge) (Or.inl ⟨0, h.hunting_start hflat hreaders hmerge⟩)⟩
  have htotal : iov.flatten.length = s + rest := by rw [hflat, length_marked]
  rcases Nat.lt_or_ge m s with hlt | hge
  · obtain ⟨out, hout, hok, hhunt⟩ := h.hunting_merged reads hflat hreaders hm hmerge hlt
    refine ⟨2 + (s - m) / pageSize, hloop ?_ (Or.inl ⟨m, hhunt⟩)⟩
    rw [tryMerge_some hm hmerge, hout, ok_bind, hok, if_neg Bool.false_ne_true,
      if_neg (show ¬ iov.flatten.length - m = 0 by omega)]
    rfl
  · have hlt : s < m := by
      refine Nat.lt_of_le_of_ne hge fun heq => h.inside ⟨Nat.le_of_eq heq.symm, ?_⟩
      rw [heq, Nat.sub_self]
      exact Nat.dvd_zero _
    refine ⟨1, ?_⟩
    rcases hout : copyTwice (faultAt 1) iov 0 (pipe.last.offset + pipe.last.len) m pipe.last.page
      with fault | out
    · rw [pipeWrite_eq hreaders hpos hlen, tryMerge_some hm hmerge, hout]
      exact id
    obtain ⟨hok, hwrong⟩ := h.wrong_merged reads hflat hm hmerge hlt hout
    by_cases hdone : iov.flatten.length - m = 0
    · rw [pipeWrite_eq hreaders hpos hlen, tryMerge_some hm hmerge, hout, ok_bind, hok,
        if_neg Bool.false_ne_true, if_pos hdone, hflat]
      exact hwrong.not_keepsData hwrong.ret_pos rfl
    · refine hloop ?_ (Or.inr hwrong)
      rw [tryMerge_some hm hmerge, hout, ok_bind, hok, if_neg Bool.false_ne_true, if_neg hdone]
      rfl

end Skips

/-! ## When data is kept -/

/-- An end inside of a piece, if there is one, has a first one. -/
theorem exists_firstInside {lens : List Nat} {m total : Nat} (h : ¬ Aligned lens m total) :
    ∃ s rest, s + rest = total ∧ FirstInside lens m s rest := by
  classical
  have hex : ∃ s, SegmentEnd lens s ∧ 0 < s ∧ s < total ∧ ¬ (m ≤ s ∧ pageSize ∣ s - m) := by
    simp only [Aligned, not_forall] at h
    obtain ⟨s, hend, hpos, hlt, hinside⟩ := h
    exact ⟨s, hend, hpos, hlt, hinside⟩
  obtain ⟨hend, hpos, hlt, hinside⟩ := Nat.find_spec hex
  refine ⟨Nat.find hex, total - Nat.find hex, by omega, hend, hpos, by omega, hinside, ?_⟩
  intro t ht htpos htlt
  by_cases hgood : m ≤ t ∧ pageSize ∣ t - m
  · exact hgood
  · exact absurd ⟨ht, htpos, Nat.lt_trans htlt hlt, hgood⟩ (Nat.find_min hex htlt)

/-- Data in segments of given lengths. -/
theorem exists_segments (lens : List Nat) (data : List Byte) (h : data.length = iovLength lens) :
    ∃ iov : List (List Byte), iov.map List.length = lens ∧ iov.flatten = data := by
  induction lens generalizing data with
  | nil => exact ⟨[], rfl, (List.length_eq_zero_iff.1 h).symm⟩
  | cons n lens ih =>
      rw [iovLength] at h
      have hrest : (data.drop n).length = iovLength lens := by
        rw [List.length_drop]
        omega
      obtain ⟨iov, hlens, hflat⟩ := ih _ hrest
      refine ⟨data.take n :: iov, ?_, ?_⟩
      · rw [List.map_cons, hlens, List.length_take_of_le (by omega)]
      · rw [List.flatten_cons, hflat, List.take_append_drop]

section Keeps

variable {isec tsec : BitVec 64} {nonblock : Bool} {reads : List (List Nat)} {pipe : Pipe}
  {iov : List (List Byte)}

/-- The environment in which nothing goes wrong. -/
def calmEnv : DataEnv := ⟨⟨0, fun _ => false, fun _ => true, false⟩, fun _ => 0, fun _ => 0#8⟩

theorem calm_calmEnv : calmEnv.Calm := ⟨rfl, fun _ => rfl, fun _ => rfl, rfl⟩

/-- There the call returns the length of all its data. -/
theorem pipeWrite_calmEnv (hreaders : pipe.readers ≠ 0) (hlen : iov.flatten.length ≤ ssizeMax) :
    ∃ pipe' drained, pipeWrite isec tsec calmEnv nonblock reads iov pipe =
      .ok (.returned iov.flatten.length pipe' drained) := by
  have hreaders' : pipe.lengths.readers ≠ 0 := hreaders
  obtain ⟨lengths, hcall⟩ := pipeWrite_returns isec tsec calm_calmEnv nonblock
    (iov.map List.length) hreaders'
  obtain ⟨ending, hending, hlengths⟩ :=
    pipeWrite_lengths isec tsec calmEnv nonblock reads iov pipe hcall
  cases ending with
  | waits => exact absurd hlengths (by simp [WriteEnd.lengths])
  | returned r pipe' drained =>
      obtain ⟨rfl, -⟩ := Vfs.WriteEnd.returned.inj hlengths
      rw [iovLength_map, toSsize_of_le hlen] at hending
      exact ⟨pipe', drained, hending⟩

/-- A call that keeps its data in every environment has the room for it. -/
theorem le_roomFor_of_keeps (hreaders : pipe.readers ≠ 0) (hpos : 0 < iov.flatten.length)
    (hlen : iov.flatten.length ≤ ssizeMax)
    (h : KeepsData pipe.stream iov.flatten
      (pipeWrite isec tsec calmEnv nonblock reads iov pipe)) :
    iov.flatten.length ≤ roomFor pipe iov.flatten.length := by
  obtain ⟨pipe', drained, hcall⟩ := pipeWrite_calmEnv hreaders hlen
  obtain ⟨ending, hending, hends⟩ :
      ∃ ending, pipeWrite isec tsec calmEnv nonblock reads iov pipe = .ok ending ∧ _ :=
    pipeWrite_ends hreaders hpos hlen (Or.inl fun _ => rfl)
  rw [hcall] at h hending
  obtain rfl := Except.ok.inj hending
  exact hends.le_room hpos h

/-- A call whose data has the room and whose pieces lie in one segment each keeps its data. -/
theorem keepsData_of_aligned {env : DataEnv} (hreaders : pipe.readers ≠ 0)
    (hpos : 0 < iov.flatten.length) (hlen : iov.flatten.length ≤ ssizeMax)
    (hroom : iov.flatten.length ≤ roomFor pipe iov.flatten.length)
    (haligned : Aligned (iov.map List.length) (mergeLen pipe iov.flatten.length)
      iov.flatten.length) :
    KeepsData pipe.stream iov.flatten (pipeWrite isec tsec env nonblock reads iov pipe) := by
  obtain ⟨ending, hending, hends⟩ :
      ∃ ending, pipeWrite isec tsec env nonblock reads iov pipe = .ok ending ∧ _ :=
    pipeWrite_ends hreaders hpos hlen (Or.inr haligned)
  rw [hending]
  exact hends.keepsData hroom

/-- A call without data or without a reader has no positive result. -/
theorem keepsData_of_nothing {env : DataEnv}
    (h : iovLength (iov.map List.length) = 0 ∨ pipe.readers = 0) (base data : List Byte) :
    KeepsData base data (pipeWrite isec tsec env nonblock reads iov pipe) := by
  unfold pipeWrite
  dsimp only
  split
  · exact fun hpos => absurd hpos (by decide)
  · rename_i hsome
    rcases h with hzero | hreaders
    · exact absurd (by rw [hzero]; rfl) hsome
    · rw [if_pos hreaders]
      exact fun hpos => absurd hpos (by decide)

end Keeps

/-- **When a write to a pipe loses no data.**  Whatever is in the data, whatever faults, is
allocated or is read by others meanwhile, a positive result of `pipe_write` is the number of bytes
that were appended, exactly if the pipe has no reader, or else the data fits into the pipe as it is
and no segment ends inside of a piece that is copied at once. -/
theorem keepsData_iff (isec tsec : BitVec 64) (pipe : Pipe) (iovec : Iovec) :
    (∀ env nonblock reads (iov : List (List Byte)), iov.map List.length = iovec.lens →
      KeepsData pipe.stream iov.flatten (pipeWrite isec tsec env nonblock reads iov pipe)) ↔
    pipe.readers = 0 ∨
      iovLength iovec.lens ≤ roomFor pipe (iovLength iovec.lens) ∧
        Aligned iovec.lens (mergeLen pipe (iovLength iovec.lens)) (iovLength iovec.lens) := by
  obtain ⟨lens, hssize⟩ := iovec
  dsimp only
  constructor
  · intro h
    by_cases hreaders : pipe.readers = 0
    · exact Or.inl hreaders
    rcases Nat.eq_zero_or_pos (iovLength lens) with hzero | hpos
    · rw [hzero]
      exact Or.inr ⟨Nat.zero_le _, fun t _ _ hlt => absurd hlt (Nat.not_lt_zero t)⟩
    refine Or.inr ⟨?_, ?_⟩
    · obtain ⟨iov, hlens, -⟩ := exists_segments lens (List.replicate (iovLength lens) 0#8)
        List.length_replicate
      have htotal : iov.flatten.length = iovLength lens := by rw [← hlens, iovLength_map]
      rw [← htotal] at hpos hssize ⊢
      exact le_roomFor_of_keeps hreaders hpos hssize (h calmEnv false [] iov hlens)
    · refine Classical.byContradiction fun hnot => ?_
      obtain ⟨s, rest, hsum, hfirst⟩ := exists_firstInside hnot
      obtain ⟨iov, hlens, hflat⟩ := exists_segments lens (marked s rest)
        ((length_marked s rest).trans hsum)
      have htotal : iov.flatten.length = iovLength lens := by rw [← hlens, iovLength_map]
      subst hlens
      rw [← htotal] at hssize hfirst
      obtain ⟨c, hloses⟩ := hfirst.loses hflat hreaders hssize rfl
      exact hloses (h (faultAt c) false [] iov rfl)
  · rintro h env nonblock reads iov rfl
    rw [iovLength_map] at h hssize
    rcases Nat.eq_zero_or_pos iov.flatten.length with hzero | hpos
    · exact keepsData_of_nothing (Or.inl (iovLength_map iov ▸ hzero)) _ _
    by_cases hreaders : pipe.readers = 0
    · exact keepsData_of_nothing (Or.inr hreaders) _ _
    · obtain ⟨hroom, haligned⟩ := h.resolve_left hreaders
      exact keepsData_of_aligned hreaders hpos hssize hroom haligned

/-- A pipe with a reader and nothing in it. -/
def emptyPipe : Pipe :=
  { PipeInodeInfo.alloc with
    readers := 1, nrbufs := 0, curbuf := 0, tmpPage := none,
    bufs := fun _ => ⟨⟨0, 0, false⟩, fun _ => 0#8⟩, nrbufs_le := by decide }

/-- A pipe with a reader and sixteen full pages. -/
def fullPipe : Pipe :=
  { emptyPipe with
    nrbufs := pipeBuffers, curbuf := 5, bufs := fun _ => ⟨⟨0, pageSize, true⟩, fun _ => 0#8⟩,
    nrbufs_le := Nat.le_refl _ }

/-- Three bytes in one segment, for the empty pipe. -/
theorem emptyPipe_keepsData :
    ∀ env nonblock reads (iov : List (List Byte)), iov.map List.length = [3] →
      KeepsData emptyPipe.stream iov.flatten
        (pipeWrite 4096 8192 env nonblock reads iov emptyPipe) :=
  (keepsData_iff 4096 8192 emptyPipe ⟨[3], by decide⟩).2 <| by
    refine Or.inr ⟨by decide, fun t ht hpos hlt => ?_⟩
    rcases segmentEnd_cons.1 ht with rfl | ⟨u, -, rfl⟩
    · exact absurd hpos (Nat.lt_irrefl 0)
    · have hlt : 3 + u < 3 := hlt
      omega

/-- Three bytes for the full pipe: the call returns 3 and nothing was appended.  And two bytes in
two segments for the empty one: the copy of the second byte faults, and the second attempt runs
past the end of the `iovec`. -/
theorem pipes_lose_data :
    (pipeWrite 4096 8192 calmEnv false [] [[1#8, 2#8, 3#8]] fullPipe =
        .ok (.returned 3 fullPipe []) ∧
      ¬ KeepsData fullPipe.stream [1#8, 2#8, 3#8]
        (pipeWrite 4096 8192 calmEnv false [] [[1#8, 2#8, 3#8]] fullPipe)) ∧
    pipeWrite 4096 8192 (faultAt 1) false [] [[1#8], [2#8]] emptyPipe = .error .pastIovec := by
  have hfull : pipeWrite 4096 8192 calmEnv false [] [[1#8, 2#8, 3#8]] fullPipe =
      .ok (.returned 3 fullPipe []) := rfl
  refine ⟨⟨hfull, ?_⟩, rfl⟩
  rw [hfull]
  intro hkeeps
  have hstream := hkeeps (by decide)
  rw [List.nil_append] at hstream
  exact absurd (List.self_eq_append_right.1 hstream) (by decide)

end Laminar.Vfs.Data
