import Laminar.Vfs.PipeData

/-!
# Writes that append what they say

`pipe_write` copies the data piece by piece: a piece to the end of the last buffered page if it
fits there, then whole pages, then the rest.  A copy is tried twice, and the second attempt goes
on in the `iovec` where the first one stopped.  It appends the right bytes if the first attempt
did not get past a segment.  So a call appends an initial part of its data if no copy faults, or
if every piece lies in one segment (`Steady`), and then it returns the length of that part unless
the pipe gets full on the way (`Ends`).
-/

namespace Laminar.Vfs.Data

open Laminar.Lib Laminar.Kernel

/-! ## Copies -/

section Copies

variable {env : DataEnv} {iov : List (List Byte)} {copies dst len : Nat} {page : Page}
  {out : Copied}

/-- A copy takes a part off the front of the data, leaves the page before `dst` alone, and has
written what it took if it succeeds. -/
theorem pipeIovCopyFromUser_spec
    (h : pipeIovCopyFromUser env iov copies dst len page = .ok out) :
    (∀ i < dst, out.page i = page i) ∧
      ∃ taken, iov.flatten = taken ++ out.iov.flatten ∧
        (out.failed = false → taken.length = len ∧ pageBytes out.page dst len = taken) := by
  induction iov generalizing copies dst len page with
  | nil =>
      rw [pipeIovCopyFromUser] at h
      split at h
      · rename_i hzero
        obtain rfl := Except.ok.inj h
        subst hzero
        exact ⟨fun _ _ => rfl, [], rfl, fun _ => ⟨rfl, rfl⟩⟩
      · simp at h
  | cons seg segs ih =>
      rw [pipeIovCopyFromUser] at h
      split at h
      · rename_i hzero
        obtain rfl := Except.ok.inj h
        subst hzero
        exact ⟨fun _ _ => rfl, [], rfl, fun _ => ⟨rfl, rfl⟩⟩
      split at h
      · rename_i hempty
        rw [List.flatten_cons, List.length_eq_zero_iff.1 hempty, List.nil_append]
        exact ih h
      split at h
      · obtain rfl := Except.ok.inj h
        exact ⟨fun i hi => writeBytes_of_lt page _ hi, [], rfl,
          fun hok => absurd hok Bool.false_ne_true.symm⟩
      split at h
      · rename_i hlen
        obtain rfl := Except.ok.inj h
        have htake : (seg.take len).length = len := List.length_take_of_le hlen
        refine ⟨fun i hi => writeBytes_of_lt page _ hi, seg.take len, ?_, fun _ => ⟨htake, ?_⟩⟩
        · rw [List.flatten_cons, List.flatten_cons, ← List.append_assoc, List.take_append_drop]
        · have hbytes := pageBytes_writeBytes page dst (seg.take len)
          rwa [htake] at hbytes
      · rename_i hlen
        obtain ⟨hframe, taken, hflat, hdone⟩ := ih h
        refine ⟨fun i hi => ?_, seg ++ taken, ?_, fun hok => ?_⟩
        · rw [hframe i (Nat.lt_add_right _ hi), writeBytes_of_lt page _ hi]
        · rw [List.flatten_cons, hflat, List.append_assoc]
        · obtain ⟨hlength, hbytes⟩ := hdone hok
          have hsum : seg.length + (len - seg.length) = len := by omega
          refine ⟨by rw [List.length_append]; omega, ?_⟩
          rw [← hsum, pageBytes_add, hbytes, pageBytes_congr hframe, pageBytes_writeBytes]

/-- The segments start with one that is not empty, behind some that are. -/
theorem exists_first_segment (h : iov.flatten ≠ []) :
    ∃ empties seg segs, iov = empties ++ seg :: segs ∧ (∀ e ∈ empties, e.length = 0) ∧
      0 < seg.length := by
  induction iov with
  | nil => exact absurd rfl h
  | cons seg segs ih =>
      by_cases hseg : seg.length = 0
      · rw [List.flatten_cons, List.length_eq_zero_iff.1 hseg, List.nil_append] at h
        obtain ⟨empties, first, rest, rfl, hempties, hfirst⟩ := ih h
        refine ⟨seg :: empties, first, rest, rfl, fun e he => ?_, hfirst⟩
        rcases List.mem_cons.1 he with rfl | he
        · exact hseg
        · exact hempties e he
      · exact ⟨[], seg, segs, rfl, fun _ he => absurd he List.not_mem_nil, Nat.pos_of_ne_zero hseg⟩

/-- Empty segments are skipped. -/
theorem pipeIovCopyFromUser_empties {empties rest : List (List Byte)}
    (hempties : ∀ e ∈ empties, e.length = 0) (hlen : len ≠ 0) :
    pipeIovCopyFromUser env (empties ++ rest) copies dst len page =
      pipeIovCopyFromUser env rest copies dst len page := by
  induction empties with
  | nil => rfl
  | cons e empties ih =>
      rw [List.cons_append, pipeIovCopyFromUser, if_neg hlen,
        if_pos (hempties e List.mem_cons_self)]
      exact ih fun e' he' => hempties e' (List.mem_cons_of_mem e he')

/-- Without faults to come a copy does not fail. -/
theorem pipeIovCopyFromUser_not_failed (hfault : ∀ k, copies ≤ k → env.fault k = false)
    (h : pipeIovCopyFromUser env iov copies dst len page = .ok out) : out.failed = false := by
  induction iov generalizing copies dst len page with
  | nil =>
      rw [pipeIovCopyFromUser] at h
      split at h
      · exact Except.ok.inj h ▸ rfl
      · simp at h
  | cons seg segs ih =>
      rw [pipeIovCopyFromUser, hfault copies (Nat.le_refl _)] at h
      split at h
      · exact Except.ok.inj h ▸ rfl
      split at h
      · exact ih hfault h
      rw [if_neg Bool.false_ne_true] at h
      split at h
      · exact Except.ok.inj h ▸ rfl
      · exact ih (fun k hk => hfault k (Nat.le_of_succ_le hk)) h

/-- A copy has appended the next `len` bytes of the data to what the page holds before `dst`. -/
structure Appended (iov : List (List Byte)) (dst len : Nat) (page : Page) (out : Copied) :
    Prop where
  frame : ∀ i < dst, out.page i = page i
  left : out.iov.flatten = iov.flatten.drop len
  bytes : pageBytes out.page dst len = iov.flatten.take len

theorem pipeIovCopyFromUser_appended
    (h : pipeIovCopyFromUser env iov copies dst len page = .ok out) (hok : out.failed = false) :
    Appended iov dst len page out := by
  obtain ⟨hframe, taken, hflat, hdone⟩ := pipeIovCopyFromUser_spec h
  obtain ⟨rfl, hbytes⟩ := hdone hok
  refine ⟨hframe, ?_, ?_⟩
  · rw [hflat, List.drop_left]
  · rw [hflat, List.take_left, hbytes]

/-- The page before `dst` stays as it is. -/
theorem copyTwice_frame (h : copyTwice env iov copies dst len page = .ok out) :
    ∀ i < dst, out.page i = page i := by
  obtain ⟨first, hfirst, h⟩ := bind_eq_ok.1 h
  intro i hi
  have hframe := (pipeIovCopyFromUser_spec hfirst).1 i hi
  split at h
  · exact ((pipeIovCopyFromUser_spec h).1 i hi).trans hframe
  · obtain rfl := Except.ok.inj h
    exact hframe

/-- Without faults the next bytes are appended. -/
theorem copyTwice_calm (hfault : ∀ k, env.fault k = false) (copies dst : Nat) (page : Page)
    (hlen : len ≤ iovLength (iov.map List.length)) :
    ∃ out, copyTwice env iov copies dst len page = .ok out ∧ out.failed = false ∧
      Appended iov dst len page out := by
  obtain ⟨iov', copies', hcopy, -⟩ := pipeIovCopyFromUser_ok hfault copies len hlen
  obtain ⟨out, hout, hlengths⟩ :=
    map_eq_ok.1 ((pipeIovCopyFromUser_lengths env iov copies dst len page).trans hcopy)
  have hok : out.failed = false := congrArg Prod.fst hlengths
  refine ⟨out, bind_eq_ok.2 ⟨out, hout, ?_⟩, hok, pipeIovCopyFromUser_appended hout hok⟩
  rw [hok]
  rfl

section First

variable {empties segs : List (List Byte)} {seg : List Byte}

theorem flatten_empties (hempties : ∀ e ∈ empties, e.length = 0) (rest : List (List Byte)) :
    (empties ++ rest).flatten = rest.flatten := by
  have hnil : empties.flatten = [] :=
    List.flatten_eq_nil_iff.2 fun e he => List.length_eq_zero_iff.1 (hempties e he)
  rw [List.flatten_append, hnil, List.nil_append]

/-- A copy starts in the first segment that is not empty. -/
theorem pipeIovCopyFromUser_first (hempties : ∀ e ∈ empties, e.length = 0) (hseg : 0 < seg.length)
    (hlen : len ≠ 0) :
    pipeIovCopyFromUser env (empties ++ seg :: segs) copies dst len page =
      if env.fault copies then
        .ok ⟨true, seg :: segs, copies + 1,
          writeBytes page dst ((seg.take len).take (env.moved copies))⟩
      else if len ≤ seg.length then
        .ok ⟨false, seg.drop len :: segs, copies + 1, writeBytes page dst (seg.take len)⟩
      else
        pipeIovCopyFromUser env segs (copies + 1) (dst + seg.length) (len - seg.length)
          (writeBytes page dst seg) := by
  rw [pipeIovCopyFromUser_empties hempties hlen, pipeIovCopyFromUser, if_neg hlen,
    if_neg (Nat.ne_of_gt hseg)]

/-- A copy from one segment appends the next bytes or fails without having moved on in the
`iovec`, so the second attempt starts where the first one did. -/
theorem copyTwice_single (hempties : ∀ e ∈ empties, e.length = 0) (segs : List (List Byte))
    (hpos : 0 < len) (hlen : len ≤ seg.length) (copies dst : Nat) (page : Page) :
    ∃ out, copyTwice env (empties ++ seg :: segs) copies dst len page = .ok out ∧
      (out.failed = false → out.iov = seg.drop len :: segs ∧
        Appended (empties ++ seg :: segs) dst len page out) ∧
      (env.fault copies = false → out.failed = false ∧ out.copies = copies + 1) := by
  have hseg : 0 < seg.length := Nat.lt_of_lt_of_le hpos hlen
  have hne : len ≠ 0 := Nat.ne_of_gt hpos
  have hflat : (seg :: segs).flatten = (empties ++ seg :: segs).flatten :=
    (flatten_empties hempties _).symm
  -- an attempt that starts at the first segment and does not fault
  have hattempt : ∀ start page₀, (∀ i < dst, page₀ i = page i) →
      Appended (empties ++ seg :: segs) dst len page
        ⟨false, seg.drop len :: segs, start, writeBytes page₀ dst (seg.take len)⟩ := by
    intro start page₀ hpage
    refine ⟨fun i hi => (writeBytes_of_lt page₀ _ hi).trans (hpage i hi), ?_, ?_⟩
    · rw [← hflat, List.flatten_cons, List.flatten_cons, List.drop_append_of_le_length hlen]
    · have hbytes := pageBytes_writeBytes page₀ dst (seg.take len)
      rw [List.length_take_of_le hlen] at hbytes
      rw [hbytes, ← hflat, List.flatten_cons, List.take_append_of_le_length hlen]
  rw [copyTwice, pipeIovCopyFromUser_first hempties hseg hne]
  cases hfault : env.fault copies with
  | false =>
      rw [if_neg Bool.false_ne_true, if_pos hlen]
      exact ⟨_, rfl, fun _ => ⟨rfl, hattempt _ page fun _ _ => rfl⟩, fun _ => ⟨rfl, rfl⟩⟩
  | true =>
      rw [if_pos rfl]
      show ∃ out, pipeIovCopyFromUser env ([] ++ seg :: segs) (copies + 1) dst len _ = .ok out ∧ _
      rw [pipeIovCopyFromUser_first (fun _ he => absurd he List.not_mem_nil) hseg hne, if_pos hlen]
      split
      · exact ⟨_, rfl, fun hok => absurd hok Bool.false_ne_true.symm,
          fun hno => absurd hno Bool.false_ne_true.symm⟩
      · exact ⟨_, rfl, fun _ => ⟨rfl, hattempt _ _ fun i hi => writeBytes_of_lt page _ hi⟩,
          fun hno => absurd hno Bool.false_ne_true.symm⟩

/-- A copy that goes on into a second segment and faults there, once, is tried again from the
second segment on: the bytes of the first one are skipped. -/
theorem copyTwice_skips (hempties : ∀ e ∈ empties, e.length = 0) (hseg : 0 < seg.length)
    (hlen : seg.length < len) (hmore : segs.flatten ≠ [])
    (hfault : ∀ k, env.fault k = decide (k = copies + 1))
    (h : copyTwice env (empties ++ seg :: segs) copies dst len page = .ok out) :
    out.failed = false ∧ (∀ i < dst, out.page i = page i) ∧
      out.iov.flatten = segs.flatten.drop len ∧
      pageBytes out.page dst len = segs.flatten.take len ∧ len ≤ segs.flatten.length := by
  obtain ⟨empties', seg', segs', rfl, hempties', hseg'⟩ := exists_first_segment hmore
  rw [copyTwice, pipeIovCopyFromUser_first hempties hseg (by omega), hfault,
    decide_eq_false (by omega), if_neg Bool.false_ne_true, if_neg (by omega),
    pipeIovCopyFromUser_first hempties' hseg' (by omega), hfault, decide_eq_true rfl,
    if_pos rfl] at h
  change pipeIovCopyFromUser env (seg' :: segs') (copies + 1 + 1) dst len _ = .ok out at h
  have hok : out.failed = false := by
    refine pipeIovCopyFromUser_not_failed (fun k hk => ?_) h
    rw [hfault, decide_eq_false (by omega)]
  obtain ⟨hframe, taken, hflat, hdone⟩ := pipeIovCopyFromUser_spec h
  obtain ⟨rfl, hbytes⟩ := hdone hok
  rw [flatten_empties hempties', hflat, List.drop_left, List.take_left, List.length_append]
  refine ⟨hok, fun i hi => ?_, rfl, hbytes, Nat.le_add_right ..⟩
  calc out.page i
      _ = _ := hframe i hi
      _ = writeBytes page dst seg i := writeBytes_of_lt _ _ (Nat.lt_add_right _ hi)
      _ = page i := writeBytes_of_lt page seg hi

end First

end Copies

/-! ## Ends of segments -/

/-- A segment ends after `t` bytes of the data. -/
def SegmentEnd (lens : List Nat) (t : Nat) : Prop := ∃ i, iovLength (lens.take i) = t

/-- The ends behind the first segment. -/
theorem segmentEnd_cons {n t : Nat} {lens : List Nat} :
    SegmentEnd (n :: lens) t ↔ t = 0 ∨ ∃ u, SegmentEnd lens u ∧ t = n + u := by
  constructor
  · rintro ⟨i, rfl⟩
    cases i with
    | zero => exact Or.inl rfl
    | succ i => exact Or.inr ⟨_, ⟨i, rfl⟩, rfl⟩
  · rintro (rfl | ⟨_, ⟨i, rfl⟩, rfl⟩)
    · exact ⟨0, rfl⟩
    · exact ⟨i + 1, rfl⟩

theorem segmentEnd_zero (lens : List Nat) : SegmentEnd lens 0 := ⟨0, rfl⟩

section Ends

variable {empties segs : List (List Byte)} {seg : List Byte} {t : Nat}

/-- The ends behind the first segment that is not empty. -/
theorem segmentEnd_first (hempties : ∀ e ∈ empties, e.length = 0) :
    SegmentEnd ((empties ++ seg :: segs).map List.length) t ↔
      t = 0 ∨ ∃ u, SegmentEnd (segs.map List.length) u ∧ t = seg.length + u := by
  induction empties generalizing t with
  | nil => exact segmentEnd_cons
  | cons e empties ih =>
      have ih := fun t => ih (t := t) fun e' he' => hempties e' (List.mem_cons_of_mem e he')
      rw [List.cons_append, List.map_cons, segmentEnd_cons, hempties e List.mem_cons_self]
      constructor
      · rintro (h | ⟨u, hu, rfl⟩)
        · exact Or.inl h
        · rw [Nat.zero_add]
          exact (ih u).1 hu
      · exact fun h => Or.inr ⟨t, (ih t).2 h, (Nat.zero_add t).symm⟩

end Ends

/-- As far as there is data left, the segments end after `m` bytes and whole pages. -/
def Aligned (lens : List Nat) (m left : Nat) : Prop :=
  ∀ t, SegmentEnd lens t → 0 < t → t < left → m ≤ t ∧ pageSize ∣ t - m

section Aligned

variable {empties segs : List (List Byte)} {seg : List Byte} {lens : List Nat} {m left : Nat}

/-- After whole pages is after one page and whole pages. -/
theorem Aligned.page (h : Aligned lens 0 left) : Aligned lens pageSize left := by
  intro t ht hpos hlt
  have hdvd : pageSize ∣ t := (h t ht hpos hlt).2
  exact ⟨Nat.le_of_dvd hpos hdvd, Nat.dvd_sub hdvd (Nat.dvd_refl _)⟩

/-- A copy of `m` bytes, or of what is left, is from one segment. -/
theorem Aligned.le_first (hempties : ∀ e ∈ empties, e.length = 0) (hseg : 0 < seg.length)
    (h : Aligned ((empties ++ seg :: segs).map List.length) m left) :
    min m left ≤ seg.length := by
  by_cases hle : min m left ≤ seg.length
  · exact hle
  · have hend : SegmentEnd ((empties ++ seg :: segs).map List.length) seg.length :=
      (segmentEnd_first hempties).2 (Or.inr ⟨0, segmentEnd_zero _, rfl⟩)
    have hm := (h _ hend hseg (by omega)).1
    omega

/-- After a copy of `m` bytes whole pages are left in front of every end. -/
theorem Aligned.drop (hempties : ∀ e ∈ empties, e.length = 0) (hm : m ≤ seg.length)
    (h : Aligned ((empties ++ seg :: segs).map List.length) m left) :
    Aligned ((seg.drop m :: segs).map List.length) 0 (left - m) := by
  intro t ht hpos hlt
  rw [List.map_cons, List.length_drop] at ht
  rcases segmentEnd_cons.1 ht with rfl | ⟨u, hu, rfl⟩
  · exact absurd hpos (Nat.lt_irrefl 0)
  · have hend := h (seg.length + u) ((segmentEnd_first hempties).2 (Or.inr ⟨u, hu, rfl⟩))
      (by omega) (by omega)
    rw [Nat.sub_add_comm hm] at hend
    exact ⟨Nat.zero_le _, hend.2⟩

end Aligned

/-! ## Runs that lose nothing -/

/-- The state of a call that has appended the first `n` bytes of the data to the stream `base`;
`room` is how much the call can append at all. -/
structure Progress (base data : List Byte) (room : Nat) (w : Writing) (n : Nat) : Prop where
  readers : w.pipe.readers ≠ 0
  drained : w.drained = []
  ret : w.ret = n
  stream : w.pipe.stream = base ++ data.take n
  iov : w.iov.flatten = data.drop n
  left : n + w.totalLen = data.length
  room : n + pageSize * (pipeBuffers - w.pipe.nrbufs) = room

/-- How a call ends that has appended an initial part of the data: it returns an error or 0, or
the length of that part, or it has used up the room and returns the length of all the data. -/
def Ends (base data : List Byte) (room : Nat) : WriteEnd → Prop
  | .returned r pipe drained =>
      ∃ n, n ≤ data.length ∧ n ≤ room ∧ drained = [] ∧ pipe.stream = base ++ data.take n ∧
        (r ≤ 0 ∨ r = n ∨ r = toSsize data.length ∧ n < data.length ∧ n = room)
  | .waits _ _ => False

section Runs

variable {isec tsec : BitVec 64} {env : DataEnv} {nonblock : Bool} {base data : List Byte}
  {room n : Nat} {w : Writing}

theorem retOr_cases (ret error : Int) (herror : error ≤ 0) :
    retOr ret error ≤ 0 ∨ retOr ret error = ret := by
  unfold retOr
  split
  · exact Or.inl herror
  · exact Or.inr rfl

/-- The stream after a part of the data was put into a new buffer. -/
theorem Progress.stream_filled (h : Progress base data room w n) {chars : Nat} {page : Page}
    {out : Copied} (hout : Appended w.iov 0 chars page out) (hroom : w.pipe.nrbufs < pipeBuffers) :
    (w.filled hroom chars out).pipe.stream = base ++ data.take (n + chars) := by
  have hbytes : PageBuffer.bytes ⟨⟨0, chars, true⟩, out.page⟩ = (data.drop n).take chars := by
    rw [← h.iov]
    exact hout.bytes
  show (w.pipe.insert hroom _).stream = _
  rw [Pipe.stream_insert, h.stream, hbytes, List.append_assoc, List.take_add]

/-- A whole page more. -/
theorem Progress.filled (h : Progress base data room w n) {page : Page} {out : Copied}
    (hout : Appended w.iov 0 pageSize page out) (hroom : w.pipe.nrbufs < pipeBuffers)
    (hleft : pageSize ≤ w.totalLen) :
    Progress base data room (w.filled hroom pageSize out) (n + pageSize) where
  readers := h.readers
  drained := h.drained
  ret := by
    show w.ret + pageSize = (n + pageSize : Nat)
    rw [h.ret, Int.natCast_add]
  stream := h.stream_filled hout hroom
  iov := by
    show out.iov.flatten = _
    rw [hout.left, h.iov, List.drop_drop]
  left := by
    have hall := h.left
    show n + pageSize + (w.totalLen - pageSize) = data.length
    omega
  room := by
    have hall := h.room
    show n + pageSize + pageSize * (pipeBuffers - (w.pipe.nrbufs + 1)) = room
    have hsub : pipeBuffers - w.pipe.nrbufs = pipeBuffers - (w.pipe.nrbufs + 1) + 1 := by omega
    rw [hsub, Nat.mul_add, Nat.mul_one] at hall
    omega

theorem iovLength_map (iov : List (List Byte)) :
    iovLength (iov.map List.length) = iov.flatten.length := by
  induction iov with
  | nil => rfl
  | cons seg segs ih => rw [List.map_cons, iovLength, ih, List.flatten_cons, List.length_append]

theorem Progress.totalLen_eq (h : Progress base data room w n) :
    w.totalLen = w.iov.flatten.length := by
  have hleft := h.left
  rw [h.iov, List.length_drop]
  omega

/-- No copy faults, or none goes beyond one segment. -/
def Steady (env : DataEnv) (m : Nat) (w : Writing) : Prop :=
  (∀ k, env.fault k = false) ∨ Aligned (w.iov.map List.length) m w.totalLen

theorem Steady.page (h : Steady env 0 w) : Steady env pageSize w := h.imp_right Aligned.page

/-- Then a copy appends the next bytes or fails. -/
theorem Steady.copy {m : Nat} (hm : 0 < m) (h : Steady env m w) (hpos : 0 < w.totalLen)
    (hleft : w.totalLen = w.iov.flatten.length) (dst : Nat) (page : Page) :
    ∃ out, copyTwice env w.iov w.copies dst (min m w.totalLen) page = .ok out ∧
      (out.failed = false → Appended w.iov dst (min m w.totalLen) page out ∧
        (m ≤ w.totalLen → (∀ k, env.fault k = false) ∨
          Aligned (out.iov.map List.length) 0 (w.totalLen - m))) := by
  rcases h with hcalm | haligned
  · have hlen : min m w.totalLen ≤ iovLength (w.iov.map List.length) := by
      rw [iovLength_map, ← hleft]
      exact Nat.min_le_right ..
    obtain ⟨out, hout, hok, happended⟩ := copyTwice_calm hcalm w.copies dst page hlen
    exact ⟨out, hout, fun _ => ⟨happended, fun _ => Or.inl hcalm⟩⟩
  · have hsome : w.iov.flatten ≠ [] := List.ne_nil_of_length_pos (hleft ▸ hpos)
    obtain ⟨empties, seg, segs, hiov, hempties, hseg⟩ := exists_first_segment hsome
    rw [hiov] at haligned ⊢
    have hle := haligned.le_first hempties hseg
    obtain ⟨out, hout, happended, -⟩ :=
      copyTwice_single hempties segs (by omega) hle w.copies dst page
    refine ⟨out, hout, fun hok => ⟨(happended hok).2, fun hmw => Or.inr ?_⟩⟩
    rw [Nat.min_eq_left hmw] at hle happended
    rw [(happended hok).1]
    exact haligned.drop hempties hle

/-- What every round of a steady run starts from. -/
def Going (env : DataEnv) (base data : List Byte) (room : Nat) (w : Writing) : Prop :=
  ∃ n, Progress base data room w n ∧ 0 < w.totalLen ∧ Steady env 0 w

theorem Progress.le_room (h : Progress base data room w n) : n ≤ room := by
  have hroom := h.room
  omega

/-- An exit with an error, or with what was written so far. -/
theorem Progress.ends_retOr (h : Progress base data room w n) {error : Int} (herror : error ≤ 0)
    {pipe : Pipe} (hpipe : pipe.stream = w.pipe.stream) :
    Ends base data room (.returned (retOr w.ret error) pipe w.drained) := by
  have hleft := h.left
  refine ⟨n, by omega, h.le_room, h.drained, hpipe.trans h.stream, ?_⟩
  rcases retOr_cases w.ret error herror with hle | heq
  · exact Or.inl hle
  · exact Or.inr (Or.inl (heq.trans h.ret))

/-- The exit of the full pipe, with data left. -/
theorem Progress.ends_full (h : Progress base data room w n) (hpos : 0 < w.totalLen)
    (hfull : ¬ w.pipe.nrbufs < pipeBuffers) :
    Ends base data room (.returned (toSsize data.length) w.pipe w.drained) := by
  have hleft := h.left
  have hroom := h.room
  rw [Nat.sub_eq_zero_of_le (Nat.not_lt.1 hfull), Nat.mul_zero] at hroom
  exact ⟨n, by omega, h.le_room, h.drained, h.stream, Or.inr (Or.inr ⟨rfl, by omega, hroom⟩)⟩

/-- The exit with all data written. -/
theorem Progress.ends_filled (h : Progress base data room w n) {page : Page} {out : Copied}
    (hout : Appended w.iov 0 (min pageSize w.totalLen) page out)
    (hroom : w.pipe.nrbufs < pipeBuffers) :
    Ends base data room (.returned (w.filled hroom (min pageSize w.totalLen) out).ret
      (w.filled hroom (min pageSize w.totalLen) out).pipe w.drained) := by
  have hleft := h.left
  have hall := h.room
  have hpage : pageSize ≤ pageSize * (pipeBuffers - w.pipe.nrbufs) :=
    Nat.le_mul_of_pos_right _ (by omega)
  refine ⟨n + min pageSize w.totalLen, by omega, by omega, h.drained, h.stream_filled hout hroom,
    Or.inr (Or.inl ?_)⟩
  show w.ret + (min pageSize w.totalLen : Nat) = (n + min pageSize w.totalLen : Nat)
  rw [h.ret, Int.natCast_add]

/-- A round fills one more page, or ends the call. -/
theorem roundOk_writeRound_steady (h : Going env base data room w) :
    RoundOk (Going env base data room) (Ends base data room)
      (fun w => pipeBuffers - w.pipe.nrbufs) (pipeBuffers - w.pipe.nrbufs)
      (writeRound isec tsec env nonblock data.length w) := by
  obtain ⟨n, hprog, hpos, hsteady⟩ := h
  unfold writeRound
  rw [if_neg hprog.readers]
  by_cases hroom : w.pipe.nrbufs < pipeBuffers
  · rw [dif_pos hroom]
    cases pageFor env w.pipe with
    | none => exact hprog.ends_retOr (by decide) rfl
    | some page =>
        obtain ⟨out, hout, happended⟩ :=
          hsteady.page.copy (by decide) hpos hprog.totalLen_eq 0 page
        dsimp only
        rw [hout]
        show RoundOk _ _ _ _ (if out.failed then _ else _)
        cases hok : out.failed with
        | true =>
            rw [if_pos rfl]
            exact hprog.ends_retOr (by decide) rfl
        | false =>
            obtain ⟨happended, hnext⟩ := happended hok
            rw [if_neg Bool.false_ne_true]
            split
            · exact hprog.ends_filled happended hroom
            rename_i hmore
            have hpage : pageSize < w.totalLen := by omega
            rw [Nat.min_eq_left (Nat.le_of_lt hpage)] at happended ⊢
            have hfilled := hprog.filled happended hroom (Nat.le_of_lt hpage)
            have hpos' : 0 < (w.filled hroom pageSize out).totalLen := Nat.sub_pos_of_lt hpage
            split
            · refine ⟨⟨n + pageSize, hfilled, hpos', hnext (Nat.le_of_lt hpage)⟩, ?_⟩
              show pipeBuffers - (w.pipe.nrbufs + 1) < pipeBuffers - w.pipe.nrbufs
              omega
            · rename_i hfull
              rw [pipeFull_leaves]
              exact hfilled.ends_full hpos' hfull
  · rw [dif_neg hroom, pipeFull_leaves]
    exact hprog.ends_full hpos hroom

end Runs

/-! ## The first part of the call -/

/-- The last buffer. -/
def Pipe.last (pipe : Pipe) : PageBuffer := pipe.bufs (pipe.place (pipe.nrbufs - 1))

/-- How many bytes of so many are appended to the last buffer. -/
def mergeLen (pipe : Pipe) (total : Nat) : Nat :=
  if pipe.nrbufs ≠ 0 ∧ pipe.last.canMerge ∧
      pipe.last.offset + pipe.last.len + total % pageSize ≤ pageSize then
    total % pageSize
  else 0

/-- How many bytes of so many can be appended to a pipe at all. -/
def roomFor (pipe : Pipe) (total : Nat) : Nat :=
  mergeLen pipe total + pageSize * (pipeBuffers - pipe.nrbufs)

/-- The variables at the start of a write. -/
def startWriting (pipe : Pipe) (iov : List (List Byte)) (reads : List (List Nat)) : Writing :=
  ⟨pipe, iov, 0, iov.flatten.length, 0, reads, []⟩

section Merge

variable {env : DataEnv} {pipe : Pipe} {iov : List (List Byte)} {reads : List (List Nat)}

theorem tryMerge_none (h : mergeLen pipe iov.flatten.length = 0) :
    tryMerge env (startWriting pipe iov reads) = .ok (.next (startWriting pipe iov reads)) := by
  unfold mergeLen at h
  unfold tryMerge startWriting
  dsimp only
  split
  · rename_i hsome
    split
    · rename_i hmerge
      rw [if_pos ⟨hsome.1, hmerge⟩] at h
      exact absurd h hsome.2
    · rfl
  · rfl

/-- When bytes are appended to the last buffer. -/
theorem mergeLen_pos {total m : Nat} (hm : 0 < m) (h : mergeLen pipe total = m) :
    pipe.nrbufs ≠ 0 ∧ (pipe.last.canMerge ∧ pipe.last.offset + pipe.last.len + m ≤ pageSize) ∧
      total % pageSize = m := by
  unfold mergeLen at h
  split at h
  · rename_i hmerge
    rw [h] at hmerge
    exact ⟨hmerge.1, hmerge.2, h⟩
  · omega

theorem tryMerge_some {m : Nat} (hm : 0 < m) (h : mergeLen pipe iov.flatten.length = m) :
    tryMerge env (startWriting pipe iov reads) =
      if env.pin ≠ 0 then .ok (.leave (.returned 0 pipe []))
      else do
        let out ← copyTwice env iov 0 (pipe.last.offset + pipe.last.len) m pipe.last.page
        if out.failed then
          return .leave (.returned (-eFault)
            (pipe.setBuf (pipe.place (pipe.nrbufs - 1)) { pipe.last with page := out.page }) [])
        else if iov.flatten.length - m = 0 then
          return .leave (.returned ((startWriting pipe iov reads).merged m out).ret
            ((startWriting pipe iov reads).merged m out).pipe [])
        else return .next ((startWriting pipe iov reads).merged m out) := by
  obtain ⟨hsome, hmerge, hmod⟩ := mergeLen_pos hm h
  unfold tryMerge startWriting
  dsimp only
  rw [hmod, if_pos ⟨hsome, Nat.ne_of_gt hm⟩]
  exact if_pos hmerge

/-- The stream after bytes were appended to the last buffer. -/
theorem stream_merged (hsome : pipe.nrbufs ≠ 0) {m : Nat} {out : Copied}
    (hframe : ∀ i < pipe.last.offset + pipe.last.len, out.page i = pipe.last.page i) :
    ((startWriting pipe iov reads).merged m out).pipe.stream =
      pipe.stream ++ pageBytes out.page (pipe.last.offset + pipe.last.len) m := by
  refine Pipe.stream_setBuf_last pipe hsome ?_
  show pageBytes out.page pipe.last.offset (pipe.last.len + m) = pipe.last.bytes ++ _
  rw [pageBytes_add, pageBytes_congr hframe]
  rfl

theorem progress_start (hreaders : pipe.readers ≠ 0) (h : mergeLen pipe iov.flatten.length = 0) :
    Progress pipe.stream iov.flatten (roomFor pipe iov.flatten.length)
      (startWriting pipe iov reads) 0 where
  readers := hreaders
  drained := rfl
  ret := rfl
  stream := (List.append_nil _).symm
  iov := rfl
  left := Nat.zero_add _
  room := by
    rw [roomFor, h]
    rfl

theorem progress_merged (reads : List (List Nat)) (hreaders : pipe.readers ≠ 0) {m : Nat}
    {out : Copied}
    (hm : 0 < m) (h : mergeLen pipe iov.flatten.length = m)
    (hout : Appended iov (pipe.last.offset + pipe.last.len) m pipe.last.page out) :
    Progress pipe.stream iov.flatten (roomFor pipe iov.flatten.length)
      ((startWriting pipe iov reads).merged m out) m where
  readers := hreaders
  drained := rfl
  ret := rfl
  stream := by
    rw [stream_merged (mergeLen_pos hm h).1 hout.frame, hout.bytes]
  iov := hout.left
  left := by
    have hmod := (mergeLen_pos hm h).2.2
    have hle := Nat.mod_le iov.flatten.length pageSize
    show m + (iov.flatten.length - m) = iov.flatten.length
    omega
  room := by
    rw [roomFor, h]
    rfl

end Merge

/-! ## Whole calls -/

section Calls

variable {isec tsec : BitVec 64} {env : DataEnv} {nonblock : Bool} {reads : List (List Nat)}
  {iov : List (List Byte)} {pipe : Pipe}

/-- The loop after the first part of the call. -/
def afterMerge (isec tsec : BitVec 64) (env : DataEnv) (nonblock : Bool) (reads : List (List Nat))
    (total : Nat) : Round WriteEnd Writing → Except WriteFault WriteEnd
  | .leave ending => .ok ending
  | .next w =>
      loop (writeRound isec tsec env nonblock total) .tooManyRounds
        ((pipeBuffers + 1) * (reads.length + 1)) w

/-- A write of something to a pipe that has a reader. -/
theorem pipeWrite_eq (hreaders : pipe.readers ≠ 0) (hpos : 0 < iov.flatten.length)
    (hlen : iov.flatten.length ≤ ssizeMax) :
    pipeWrite isec tsec env nonblock reads iov pipe =
      tryMerge env (startWriting pipe iov reads) >>=
        afterMerge isec tsec env nonblock reads iov.flatten.length := by
  have htotal : (BitVec.ofNat 64 (iovLength (iov.map List.length))).toNat = iov.flatten.length := by
    rw [iovLength_map, BitVec.toNat_ofNat]
    exact Nat.mod_eq_of_lt (Nat.lt_of_le_of_lt hlen (by decide))
  unfold pipeWrite
  rw [htotal]
  dsimp only
  rw [if_neg (Nat.ne_of_gt hpos), if_neg hreaders]
  refine congrArg _ (funext fun round => ?_)
  cases round <;> rfl

/-- The first part of a steady call. -/
theorem roundOk_tryMerge_steady (hreaders : pipe.readers ≠ 0) (hpos : 0 < iov.flatten.length)
    (hsteady : Steady env (mergeLen pipe iov.flatten.length) (startWriting pipe iov reads)) :
    RoundOk (Going env pipe.stream iov.flatten (roomFor pipe iov.flatten.length))
      (Ends pipe.stream iov.flatten (roomFor pipe iov.flatten.length)) (fun _ => 0) 1
      (tryMerge env (startWriting pipe iov reads)) := by
  rcases Nat.eq_zero_or_pos (mergeLen pipe iov.flatten.length) with hm | hm
  · rw [tryMerge_none hm]
    rw [hm] at hsteady
    exact ⟨⟨0, progress_start hreaders hm, hpos, hsteady⟩, Nat.one_pos⟩
  · obtain ⟨m, h⟩ : ∃ m, mergeLen pipe iov.flatten.length = m := ⟨_, rfl⟩
    rw [h] at hm hsteady
    have hmod := (mergeLen_pos hm h).2.2
    have hle : m ≤ iov.flatten.length := hmod ▸ Nat.mod_le iov.flatten.length pageSize
    obtain ⟨out, hout, happended⟩ := hsteady.copy hm hpos rfl
      (pipe.last.offset + pipe.last.len) pipe.last.page
    have hmin : min m (startWriting pipe iov reads).totalLen = m := Nat.min_eq_left hle
    rw [hmin] at hout happended
    change copyTwice env iov 0 _ m _ = _ at hout
    rw [tryMerge_some hm h, hout]
    split
    · exact ⟨0, Nat.zero_le _, Nat.zero_le _, rfl, (List.append_nil _).symm,
        Or.inl (Int.le_refl 0)⟩
    show RoundOk _ _ _ _ (if out.failed then _ else _)
    cases hok : out.failed with
    | true =>
        rw [if_pos rfl]
        refine ⟨0, Nat.zero_le _, Nat.zero_le _, rfl, ?_, Or.inl (by decide)⟩
        refine Pipe.stream_setBuf_last pipe (mergeLen_pos hm h).1 ?_
        rw [List.take_zero, List.append_nil]
        exact pageBytes_congr (copyTwice_frame hout)
    | false =>
        obtain ⟨happended, hnext⟩ := happended hok
        have hprog := progress_merged reads hreaders hm h happended
        rw [if_neg Bool.false_ne_true]
        split
        · exact ⟨m, hle, hprog.le_room, rfl, hprog.stream, Or.inr (Or.inl rfl)⟩
        · rename_i hmore
          exact ⟨⟨m, hprog, Nat.pos_of_ne_zero hmore, hnext hle⟩, Nat.one_pos⟩

/-- **A steady call appends an initial part of the data.** -/
theorem pipeWrite_ends (hreaders : pipe.readers ≠ 0) (hpos : 0 < iov.flatten.length)
    (hlen : iov.flatten.length ≤ ssizeMax)
    (hsteady : Steady env (mergeLen pipe iov.flatten.length) (startWriting pipe iov reads)) :
    ∃ ending, pipeWrite isec tsec env nonblock reads iov pipe = .ok ending ∧
      Ends pipe.stream iov.flatten (roomFor pipe iov.flatten.length) ending := by
  rw [pipeWrite_eq hreaders hpos hlen]
  have hmerge := roundOk_tryMerge_steady hreaders hpos hsteady
  cases hround : tryMerge env (startWriting pipe iov reads) with
  | error fault =>
      rw [hround] at hmerge
      exact hmerge.elim
  | ok round =>
      rw [hround] at hmerge
      cases round with
      | leave ending => exact ⟨ending, bind_eq_ok.2 ⟨_, rfl, rfl⟩, hmerge⟩
      | next w =>
          have hfuel : pipeBuffers + 1 ≤ (pipeBuffers + 1) * (reads.length + 1) :=
            Nat.le_mul_of_pos_right _ (Nat.succ_pos _)
          obtain ⟨ending, hloop, hends⟩ :
              ∃ ending, afterMerge isec tsec env nonblock reads iov.flatten.length (.next w) =
                .ok ending ∧ _ :=
            loop_ok (fun w hw => roundOk_writeRound_steady hw) hmerge.1
              (Nat.lt_of_lt_of_le (by omega) hfuel)
          exact ⟨ending, bind_eq_ok.2 ⟨.next w, rfl, hloop⟩, hends⟩

end Calls

end Laminar.Vfs.Data
