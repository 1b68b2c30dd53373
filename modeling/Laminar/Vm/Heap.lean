import Laminar.Lib.Linked
import Laminar.Vm.Observe

/-!
# Region states as objects

`Vm.Difc` keeps the states of a thread in two lists around the current one.  Here they are
what they are in the source: objects on a heap, each with a pointer to its parent and one
to its child, which an end leaves attached and a later start finds again.  The number of
an object is its address.

The same code with `recycle` unset is a virtual machine that ignores an attached child and
allocates a state for every start.  With either setting a thread shows what the lists show
(`trace_lists`), and so nothing tells the two apart (`recycling_unobservable`).
-/

namespace Laminar.Vm

open Laminar.Lib

/-- The fields of `GreenThread`, with a heap of `SRState` objects: `prev` is the parent and
`next` the child. -/
structure HeapThread where
  heap : Nat → Node Nat SRState
  nextId : Nat
  currentSRState : Nat
  inSecureRegion : Bool
  commonPlusCapabilitySet : LabelSet
  commonMinusCapabilitySet : LabelSet

namespace HeapThread

/-- A new thread with its own state. -/
def new : HeapThread where
  heap a := ⟨{ SRState.allocate a with
    secrecyAllocLabels := some .empty, integrityAllocLabels := some .empty }, none, none⟩
  nextId := 1
  currentSRState := 0
  inSecureRegion := false
  commonPlusCapabilitySet := .empty
  commonMinusCapabilitySet := .empty

/-- What the checks and the calls on labels read: the current state and its parent. -/
def view (h : HeapThread) : GreenThread where
  currentSRState := (h.heap h.currentSRState).data
  parents := ((h.heap h.currentSRState).prev.map fun p => (h.heap p).data).toList
  children := []
  inSecureRegion := h.inSecureRegion
  nextId := h.nextId
  commonPlusCapabilitySet := h.commonPlusCapabilitySet
  commonMinusCapabilitySet := h.commonMinusCapabilitySet

/-- Write one object. -/
def write (h : HeapThread) (a : Nat) (s : SRState) : HeapThread :=
  { h with heap := Function.update h.heap a { h.heap a with data := s } }

/-- Write back what a call on labels has changed. -/
def store (h : HeapThread) (v : GreenThread) : HeapThread :=
  let written := h.write h.currentSRState v.currentSRState
  { h with
    heap := match (h.heap h.currentSRState).prev, v.parents with
      | some p, s :: _ => (written.write p s).heap
      | _, _ => written.heap
    inSecureRegion := v.inSecureRegion
    commonPlusCapabilitySet := v.commonPlusCapabilitySet
    commonMinusCapabilitySet := v.commonMinusCapabilitySet }

/-- Enter a child that is attached. -/
def reuse (h : HeapThread) (child : Nat) (fill : SRState → SRState) : HeapThread :=
  { h.write child (fill (h.heap child).data) with currentSRState := child }

/-- Allocate a child, attach it and enter it. -/
def attach (h : HeapThread) (fill : SRState → SRState) : HeapThread :=
  { h with
    heap := Function.update
      (Function.update h.heap h.currentSRState
        { h.heap h.currentSRState with next := some h.nextId })
      h.nextId ⟨fill (SRState.allocate h.nextId), some h.currentSRState, none⟩
    nextId := h.nextId + 1
    currentSRState := h.nextId }

/-- Make the child of the current state current, the attached one if there is one and it may
be used again, and fill it. -/
def enterChild (recycle : Bool) (h : HeapThread) (fill : SRState → SRState) : HeapThread :=
  match if recycle then (h.heap h.currentSRState).next else none with
  | some child => h.reuse child fill
  | none => h.attach fill

/-- `startSecureRegion` and `startSecureRegionDecEnd`. -/
def start (recycle : Bool) (h : HeapThread) (s : Start) : Outcome × HeapThread :=
  match h.view.startError s.args.plusCapabilitySet s.args.minusCapabilitySet s.args.secrecySet
      s.args.integritySet with
  | some error => (.difcException error, h.enterChild recycle SRState.clearState)
  | none =>
      (.returned, { h.enterChild recycle s.args.fill with inSecureRegion := true })

/-- `endSecureRegion`. -/
def endSecureRegion (h : HeapThread) : Outcome × HeapThread :=
  if !h.inSecureRegion then (.returned, h)
  else match (h.heap h.currentSRState).prev with
    | none => (.nullPointerException, h)
    | some parent =>
        (.returned,
          { h with
            currentSRState := parent
            inSecureRegion := (h.heap parent).prev.isSome })

/-- The calls that neither start nor end a region. -/
def labelCall (h : HeapThread) (c : LabelCall) : Outcome × HeapThread :=
  ((h.view.labelCall c).1, h.store (h.view.labelCall c).2)

/-- Make a call. -/
def call (recycle : Bool) (h : HeapThread) : ThreadCall → Outcome × HeapThread
  | .start s => h.start recycle s
  | .endSecureRegion => h.endSecureRegion
  | .labels c => h.labelCall c

/-- What a program can see: the current state and the states the parent pointers lead to,
of which there are no more than have been allocated. -/
def observe (h : HeapThread) : GreenThread where
  currentSRState := (h.heap h.currentSRState).data.content
  parents := (pathBack h.heap h.nextId (h.heap h.currentSRState).prev).map fun a =>
    (h.heap a).data.content
  children := []
  inSecureRegion := h.inSecureRegion
  nextId := 0
  commonPlusCapabilitySet := h.commonPlusCapabilitySet
  commonMinusCapabilitySet := h.commonMinusCapabilitySet

/-! ## The pointers form one list -/

/-- The states are linked both ways, the current one between `before` and `after`, and all of
them have been allocated. -/
structure Linked (h : HeapThread) (before after : List Nat) : Prop where
  cursor : Cursor h.heap before h.currentSRState after
  allocated : ∀ a ∈ h.currentSRState :: (before ++ after), a < h.nextId

theorem linked_new : new.Linked [] [] := by
  refine ⟨⟨rfl, rfl, List.nodup_singleton 0⟩, ?_⟩
  intro a ha
  rw [List.mem_singleton.1 ha]
  exact Nat.zero_lt_one

section Linked

variable {h : HeapThread} {before after : List Nat}

theorem Linked.length_le (hl : h.Linked before after) : before.length ≤ h.nextId := by
  have hnodup : before.Nodup := (List.nodup_append.1 (List.nodup_cons.1 hl.cursor.nodup).2).1
  have hsub : before ⊆ List.range h.nextId := by
    intro a ha
    rw [List.mem_range]
    exact hl.allocated a (List.mem_cons_of_mem _ (List.mem_append_left _ ha))
  simpa using (List.subperm_of_subset hnodup hsub).length_le

/-- The parent pointers are followed to the end. -/
theorem Linked.parents_observe (hl : h.Linked before after) :
    h.observe.parents = before.map fun a => (h.heap a).data.content := by
  rw [observe, hl.cursor.back.pathBack_eq hl.length_le]

theorem Linked.near_view (hl : h.Linked before after) : h.view.near = h.observe.near := by
  have hparents : (h.view.parents.take 1).map SRState.content =
      (h.observe.parents.take 1).map SRState.content := by
    rw [hl.parents_observe, view, hl.cursor.back.prev_eq]
    cases before <;> rfl
  calc h.view.near
      = { h.view.observe with parents := (h.view.parents.take 1).map SRState.content } := rfl
    _ = { h.view.observe with parents := (h.observe.parents.take 1).map SRState.content } := by
        rw [hparents]
    _ = h.observe.near := rfl

/-! ## Writes -/

theorem heap_write_self (h : HeapThread) (a : Nat) (s : SRState) :
    (h.write a s).heap a = { h.heap a with data := s } := Function.update_self ..

theorem heap_write_ne (h : HeapThread) {a b : Nat} (s : SRState) (hne : b ≠ a) :
    (h.write a s).heap b = h.heap b := Function.update_of_ne hne ..

theorem Linked.write (hl : h.Linked before after) (a : Nat) (s : SRState) :
    (h.write a s).Linked before after := by
  refine ⟨hl.cursor.congr ?_, hl.allocated⟩
  intro b
  by_cases hb : b = a
  · subst hb
    rw [SameLinks, heap_write_self]
    exact ⟨rfl, rfl⟩
  · rw [SameLinks, heap_write_ne h s hb]
    exact ⟨rfl, rfl⟩

/-- The other states keep what they hold. -/
theorem map_write (h : HeapThread) {a : Nat} (s : SRState) {states : List Nat} (ha : a ∉ states) :
    (states.map fun b => ((h.write a s).heap b).data.content) =
      states.map fun b => (h.heap b).data.content := by
  apply List.map_congr_left
  intro b hb
  have hne : b ≠ a := by
    rintro rfl
    exact ha hb
  rw [heap_write_ne h s hne]

/-- A thread whose current state and parent hold what `v` says. -/
private theorem Linked.near_view_eq (hl : h.Linked before after) {v : GreenThread}
    (hcurrent : (h.heap h.currentSRState).data = v.currentSRState)
    (hparents : (before.take 1).map (fun a => (h.heap a).data) = v.parents)
    (hregion : h.inSecureRegion = v.inSecureRegion)
    (hplus : h.commonPlusCapabilitySet = v.commonPlusCapabilitySet)
    (hminus : h.commonMinusCapabilitySet = v.commonMinusCapabilitySet) :
    h.view.near = v.near := by
  have hview : h.view.parents = v.parents := by
    rw [← hparents, view, hl.cursor.back.prev_eq]
    cases before <;> rfl
  exact GreenThread.near_ext (congrArg SRState.content hcurrent) (by rw [hview]) hregion
    hplus hminus

/-- Writing back the current state of a thread outside every region. -/
private theorem Linked.store_root (hl : h.Linked [] after) {v : GreenThread}
    (hparents : v.parents = []) :
    (h.store v).Linked [] after ∧ (h.store v).view.near = v.near := by
  have hprev : (h.heap h.currentSRState).prev = none := hl.cursor.back
  have hstore : (h.store v).heap = (h.write h.currentSRState v.currentSRState).heap := by
    simp only [HeapThread.store, hprev]
  have hlinked : (h.store v).Linked [] after :=
    ⟨hstore ▸ (hl.write h.currentSRState v.currentSRState).cursor, hl.allocated⟩
  refine ⟨hlinked, hlinked.near_view_eq ?_ hparents.symm rfl rfl rfl⟩
  show ((h.store v).heap h.currentSRState).data = _
  rw [hstore, heap_write_self]

/-- Writing back a state and its parent, which are different objects. -/
private theorem Linked.store_nested {p : Nat} {above : List Nat}
    (hl : h.Linked (p :: above) after) {v : GreenThread} {s : SRState}
    (hparents : v.parents = [s]) :
    (h.store v).Linked (p :: above) after ∧ (h.store v).view.near = v.near ∧
      (h.store v).observe.parents.tail = h.observe.parents.tail := by
  obtain ⟨hcur, hrest⟩ := List.nodup_cons.1 hl.cursor.nodup
  have hne : h.currentSRState ≠ p := fun heq => hcur (heq ▸ List.mem_cons_self)
  have hcurAbove : h.currentSRState ∉ above := fun hmem =>
    hcur (List.mem_cons_of_mem _ (List.mem_append_left _ hmem))
  have hpAbove : p ∉ above := fun hmem =>
    (List.nodup_cons.1 hrest).1 (List.mem_append_left _ hmem)
  have hprev : (h.heap h.currentSRState).prev = some p := hl.cursor.back.1
  have hstore : (h.store v).heap =
      ((h.write h.currentSRState v.currentSRState).write p s).heap := by
    simp only [HeapThread.store, hprev, hparents]
  have hlinked : (h.store v).Linked (p :: above) after :=
    ⟨hstore ▸ ((hl.write h.currentSRState v.currentSRState).write p s).cursor, hl.allocated⟩
  refine ⟨hlinked, hlinked.near_view_eq ?_ ?_ rfl rfl rfl, ?_⟩
  · show ((h.store v).heap h.currentSRState).data = _
    rw [hstore, heap_write_ne _ s hne, heap_write_self]
  · show [((h.store v).heap p).data] = _
    rw [hstore, heap_write_self, hparents]
  · rw [hlinked.parents_observe, hl.parents_observe, hstore]
    show (above.map fun a => _) = above.map fun a => _
    rw [map_write _ s hpAbove, map_write h _ hcurAbove]

/-- Writing back what a call on labels has changed. -/
theorem Linked.store (hl : h.Linked before after) {v : GreenThread}
    (hlength : v.parents.length = h.view.parents.length) :
    (h.store v).Linked before after ∧ (h.store v).view.near = v.near ∧
      (h.store v).observe.parents.tail = h.observe.parents.tail := by
  rw [view, hl.cursor.back.prev_eq] at hlength
  cases before with
  | nil =>
      obtain ⟨hlinked, hnear⟩ := hl.store_root (List.length_eq_zero_iff.1 hlength)
      refine ⟨hlinked, hnear, ?_⟩
      rw [hlinked.parents_observe, hl.parents_observe]
      rfl
  | cons p above =>
      obtain ⟨s, hparents⟩ := List.length_eq_one_iff.1 hlength
      exact hl.store_nested hparents

/-! ## The calls -/

/-- What can be seen once a child has been entered and its parents still hold what they
held. -/
private theorem Linked.observe_entered {h' : HeapThread} {after' : List Nat}
    {s : SRState} (hl : h.Linked before after)
    (hl' : h'.Linked (h.currentSRState :: before) after')
    (hcurrent : (h'.heap h'.currentSRState).data = s)
    (hdata : ∀ a ∈ h.currentSRState :: before, (h'.heap a).data = (h.heap a).data)
    (hregion : h'.inSecureRegion = h.inSecureRegion)
    (hplus : h'.commonPlusCapabilitySet = h.commonPlusCapabilitySet)
    (hminus : h'.commonMinusCapabilitySet = h.commonMinusCapabilitySet) :
    h'.observe = h.observe.entered s := by
  have hparents : h'.observe.parents = h.observe.chain := by
    rw [hl'.parents_observe, GreenThread.chain, hl.parents_observe]
    exact List.map_congr_left fun a ha => congrArg SRState.content (hdata a ha)
  calc h'.observe
      = { h'.observe with parents := h'.observe.parents } := rfl
    _ = h.observe.entered s := by
        rw [hparents, observe, hcurrent, hregion, hplus, hminus]
        rfl

private theorem Linked.reuse {child : Nat} (hl : h.Linked before (child :: after))
    (fill : SRState → SRState) :
    (h.reuse child fill).Linked (h.currentSRState :: before) after ∧
      (h.reuse child fill).observe = h.observe.entered (fill (h.heap child).data) := by
  have hcursor := hl.cursor.right
  have hmoved : ({ h with currentSRState := child } : HeapThread).Linked
      (h.currentSRState :: before) after := by
    refine ⟨hcursor, ?_⟩
    intro a ha
    apply hl.allocated
    simp only [List.mem_cons, List.mem_append] at ha ⊢
    tauto
  have hlinked := hmoved.write child (fill (h.heap child).data)
  have hchild : ∀ a ∈ h.currentSRState :: before, a ≠ child := by
    rintro a ha rfl
    exact (List.nodup_cons.1 hcursor.nodup).1 (List.mem_append_left _ ha)
  exact ⟨hlinked, hl.observe_entered hlinked (congrArg Node.data (heap_write_self ..))
    (fun a ha => congrArg Node.data (heap_write_ne h _ (hchild a ha))) rfl rfl rfl⟩

private theorem Linked.attach (hl : h.Linked before after) (fill : SRState → SRState) :
    (h.attach fill).Linked (h.currentSRState :: before) [] ∧
      (h.attach fill).observe = h.observe.entered (fill (.allocate h.nextId)) := by
  have hfresh : ∀ a ∈ h.currentSRState :: before, a < h.nextId := by
    intro a ha
    exact hl.allocated a (List.mem_append_left after ha)
  have hlinked : (h.attach fill).Linked (h.currentSRState :: before) [] := by
    refine ⟨hl.cursor.attach fun hmem => Nat.lt_irrefl _ (hfresh _ hmem), ?_⟩
    intro a ha
    rw [List.append_nil, List.mem_cons] at ha
    show a < h.nextId + 1
    rcases ha with rfl | ha
    · exact Nat.lt_succ_self _
    · have hlt := hfresh a ha
      omega
  have hdata : ∀ a ∈ h.currentSRState :: before,
      ((h.attach fill).heap a).data = (h.heap a).data := by
    intro a ha
    have hne : a ≠ h.nextId := Nat.ne_of_lt (hfresh a ha)
    rw [HeapThread.attach]
    dsimp only
    rw [Function.update_of_ne hne]
    by_cases hcur : a = h.currentSRState
    · rw [hcur, Function.update_self]
    · rw [Function.update_of_ne hcur]
  have hcurrent : ((h.attach fill).heap h.nextId).data = fill (.allocate h.nextId) := by
    rw [HeapThread.attach]
    dsimp only
    rw [Function.update_self]
  exact ⟨hlinked, hl.observe_entered hlinked hcurrent hdata rfl rfl rfl⟩

/-- Whether it is attached or allocated, a child is entered with the labels it is filled
with. -/
theorem Linked.enterChild (hl : h.Linked before after) (recycle : Bool)
    {fill : SRState → SRState} (hfill : ∀ s s', (fill s).content = (fill s').content)
    (s : SRState) :
    (∃ after', (h.enterChild recycle fill).Linked (h.currentSRState :: before) after') ∧
      (h.enterChild recycle fill).observe = h.observe.entered (fill s) := by
  have hsame : ∀ s', h.observe.entered (fill s') = h.observe.entered (fill s) := by
    intro s'
    rw [GreenThread.entered, hfill s' s, GreenThread.entered]
  rw [HeapThread.enterChild, hl.cursor.ahead.next_eq]
  split
  · rename_i child hchild
    -- only a thread that recycles finds a child
    have hattached : ∃ rest, after = child :: rest := by
      cases recycle with
      | false => cases hchild
      | true => exact List.head?_eq_some_iff.1 hchild
    obtain ⟨rest, rfl⟩ := hattached
    obtain ⟨hlinked, hseen⟩ := hl.reuse fill
    exact ⟨⟨rest, hlinked⟩, hseen.trans (hsame _)⟩
  · obtain ⟨hlinked, hseen⟩ := hl.attach fill
    exact ⟨⟨[], hlinked⟩, hseen.trans (hsame _)⟩

theorem observe_observe (h : HeapThread) : h.observe.observe = h.observe := by
  rw [observe, GreenThread.observe, List.map_map]
  rfl

theorem Linked.start (hl : h.Linked before after) (recycle : Bool) (s : Start) :
    (∃ before' after', (h.start recycle s).2.Linked before' after') ∧
      (h.start recycle s).1 = (h.observe.startShows s).1 ∧
      (h.start recycle s).2.observe = (h.observe.startShows s).2 := by
  have herror : h.view.startError s.args.plusCapabilitySet s.args.minusCapabilitySet
      s.args.secrecySet s.args.integritySet = h.observe.startError s.args.plusCapabilitySet
      s.args.minusCapabilitySet s.args.secrecySet s.args.integritySet := rfl
  rw [HeapThread.start, GreenThread.startShows, herror]
  cases h.observe.startError s.args.plusCapabilitySet s.args.minusCapabilitySet
    s.args.secrecySet s.args.integritySet with
  | some error =>
      obtain ⟨⟨after', hlinked⟩, hseen⟩ :=
        hl.enterChild recycle SRState.content_clearState h.observe.currentSRState
      exact ⟨⟨_, after', hlinked⟩, rfl, hseen⟩
  | none =>
      obtain ⟨⟨after', hlinked⟩, hseen⟩ :=
        hl.enterChild recycle s.args.content_fill h.observe.currentSRState
      refine ⟨⟨_, after', ⟨hlinked.cursor, hlinked.allocated⟩⟩, rfl, ?_⟩
      show ({ (h.enterChild recycle s.args.fill).observe with inSecureRegion := true } :
          GreenThread) = _
      rw [hseen]

/-- Inside a region with a parent an end leaves the state attached. -/
private theorem Linked.leave {p : Nat} {above : List Nat} (hl : h.Linked (p :: above) after) :
    ({ h with currentSRState := p, inSecureRegion := (h.heap p).prev.isSome } :
      HeapThread).Linked above (h.currentSRState :: after) := by
  refine ⟨hl.cursor.left, ?_⟩
  intro a ha
  apply hl.allocated
  simp only [List.mem_cons, List.mem_append] at ha ⊢
  tauto

theorem Linked.endSecureRegion (hl : h.Linked before after) :
    (∃ before' after', h.endSecureRegion.2.Linked before' after') ∧
      h.endSecureRegion.1 = h.observe.endSecureRegion.1 ∧
      h.endSecureRegion.2.observe = h.observe.endSecureRegion.2.observe := by
  have hin : h.observe.inSecureRegion = h.inSecureRegion := rfl
  have hprev := hl.cursor.back.prev_eq
  have hparents := hl.parents_observe
  unfold HeapThread.endSecureRegion GreenThread.endSecureRegion
  rw [hin]
  cases h.inSecureRegion with
  | false => exact ⟨⟨before, after, hl⟩, rfl, h.observe_observe.symm⟩
  | true =>
      cases before with
      | nil =>
          rw [hprev, hparents]
          exact ⟨⟨[], after, hl⟩, rfl, h.observe_observe.symm⟩
      | cons p above =>
          rw [hprev, hparents]
          refine ⟨⟨above, _, hl.leave⟩, rfl, ?_⟩
          have hflag : (h.heap p).prev.isSome =
              !(above.map fun a => (h.heap a).data.content).isEmpty := by
            rw [hl.leave.cursor.back.prev_eq]
            cases above <;> rfl
          show HeapThread.observe { h with
              currentSRState := p, inSecureRegion := (h.heap p).prev.isSome } =
            GreenThread.observe { h.observe with
              currentSRState := (h.heap p).data.content
              parents := above.map fun a => (h.heap a).data.content
              inSecureRegion := !(above.map fun a => (h.heap a).data.content).isEmpty }
          rw [← HeapThread.observe_observe, GreenThread.observe, hl.leave.parents_observe, ← hflag]
          rfl

theorem Linked.labelCall (hl : h.Linked before after) (c : LabelCall) :
    (h.labelCall c).2.Linked before after ∧
      (h.labelCall c).1 = (h.observe.labelCall c).1 ∧
      (h.labelCall c).2.observe = (h.observe.labelCall c).2.observe := by
  obtain ⟨hout, hnear⟩ := GreenThread.labelCall_congr hl.near_view c
  have hlength : (h.view.labelCall c).2.parents.length = h.view.parents.length := by
    have hids := congrArg List.length (h.view.labelCall_sameRegion c).parents
    rwa [List.length_map, List.length_map] at hids
  obtain ⟨hlinked, hstored, htail⟩ := hl.store hlength
  refine ⟨hlinked, hout, ?_⟩
  -- the current state and its parent are what the call made of them, the rest is untouched
  have hseen : (h.store (h.view.labelCall c).2).observe.near = (h.observe.labelCall c).2.near := by
    rw [← hlinked.near_view, hstored, hnear]
  have hbehind := (h.observe.tail_labelCall c).symm
  show (h.store (h.view.labelCall c).2).observe = _
  rw [← HeapThread.observe_observe]
  exact GreenThread.observe_of_near hseen (congrArg _ (htail.trans hbehind))

/-- **Every call ends as it does on the lists, and what can be seen afterwards is the same,
whether attached states are used again or not.** -/
theorem Linked.call (hl : h.Linked before after) (recycle : Bool) (c : ThreadCall) :
    (∃ before' after', (h.call recycle c).2.Linked before' after') ∧
      (h.call recycle c).1 = (h.observe.call c).1 ∧
      (h.call recycle c).2.observe = (h.observe.call c).2.observe := by
  cases c with
  | start s =>
      obtain ⟨hlinked, hout, hseen⟩ := hl.start recycle s
      obtain ⟨hout', hseen'⟩ := h.observe.start_shows s
      rw [h.observe_observe] at hout' hseen'
      exact ⟨hlinked, hout.trans hout'.symm, hseen.trans hseen'.symm⟩
  | endSecureRegion => exact hl.endSecureRegion
  | labels c =>
      obtain ⟨hlinked, hsame⟩ := hl.labelCall c
      exact ⟨⟨before, after, hlinked⟩, hsame⟩

end Linked

end HeapThread

/-! ## Recycling -/

/-- What happens to a thread: a call of its own, or the other threads have left other common
capabilities. -/
inductive ThreadEvent
  | call (c : ThreadCall)
  | common (plusCapabilitySet minusCapabilitySet : LabelSet)

def GreenThread.perform (th : GreenThread) : ThreadEvent → Outcome × GreenThread
  | .call c => th.call c
  | .common plus minus =>
      (.returned, { th with commonPlusCapabilitySet := plus, commonMinusCapabilitySet := minus })

namespace HeapThread

def perform (recycle : Bool) (h : HeapThread) : ThreadEvent → Outcome × HeapThread
  | .call c => h.call recycle c
  | .common plus minus =>
      (.returned, { h with commonPlusCapabilitySet := plus, commonMinusCapabilitySet := minus })

/-- The lists show what the pointers lead to. -/
def Represents (h : HeapThread) (th : GreenThread) : Prop :=
  (∃ before after, h.Linked before after) ∧ h.observe = th.observe

theorem represents_new : new.Represents .new := ⟨⟨[], [], linked_new⟩, rfl⟩

theorem Represents.perform {h : HeapThread} {th : GreenThread} (hrep : h.Represents th)
    (recycle : Bool) (e : ThreadEvent) :
    (h.perform recycle e).1 = (th.perform e).1 ∧
      (h.perform recycle e).2.Represents (th.perform e).2 := by
  obtain ⟨⟨before, after, hl⟩, hseen⟩ := hrep
  cases e with
  | call c =>
      obtain ⟨hlinked, hout, hview⟩ := hl.call recycle c
      obtain ⟨hout', hview'⟩ := th.call_observe c
      rw [hseen] at hout hview
      exact ⟨hout.trans hout'.symm, hlinked, hview.trans hview'.symm⟩
  | common plus minus =>
      refine ⟨rfl, ⟨before, after, hl.cursor, hl.allocated⟩, ?_⟩
      show ({ h.observe with
          commonPlusCapabilitySet := plus, commonMinusCapabilitySet := minus } : GreenThread) =
        { th.observe with commonPlusCapabilitySet := plus, commonMinusCapabilitySet := minus }
      rw [hseen]

/-- The lists of `Vm.Difc` cannot be told from the objects, used again or not. -/
theorem trace_lists (recycle : Bool) (events : List ThreadEvent) :
    trace (perform recycle) observe events new =
      trace GreenThread.perform GreenThread.observe events .new := by
  refine trace_eq ?_ events represents_new
  intro h th e hrep
  obtain ⟨hout, hnext⟩ := hrep.perform recycle e
  exact ⟨hout, hnext.2, hnext⟩

/-- **Recycling cannot be seen.**  A thread that uses attached states again and a thread that
allocates a state for every start, refused or not, return and throw the same, and after
every event their flags and all the states from the current one to the root are the same. -/
theorem recycling_unobservable (events : List ThreadEvent) :
    trace (perform true) observe events new = trace (perform false) observe events new := by
  rw [trace_lists true, trace_lists false]

end HeapThread

end Laminar.Vm
