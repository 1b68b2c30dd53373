import Laminar.Baseline.Correct

/-!
# Compiled code accesses what its barriers have passed

An event of a run is `Allowed` if it is no access, or if the barrier for it was called, with the
same object or field, and returned before it.  What may come between the two is written out in
`Event.between`; two of these calls, the resolver and the check of a reference that is stored in
an array, load classes and may run other code.  Each bytecode keeps to this (`post_exec`), so the
runs of bytecodes do, and so does the machine: what it has done after any number of instructions
is the beginning of what some bytecodes do.

Reads of a header, and so of the length of an array, have no barrier.
-/

namespace Laminar.Baseline

open Laminar.Lib
open Laminar.Vm (BarrierType)

variable {B : Type}

/-! ## Guarded events -/

/-- Reads and writes of the heap. -/
def Event.access : Event B → Bool
  | .load _ _ | .store _ _ | .header _ => true
  | .call _ _ | .memberOffset _ _ | .takeYieldpoint _ => false

/-- What may happen between a barrier and the access that it guards: other accesses, the lookup
of an offset, an assertion, the check of a store to an array of references, and the resolver. -/
def Event.between : Event B → Bool
  | .load _ _ | .store _ _ | .header _ | .memberOffset _ _ => true
  | .call .checkstore _ | .call .modifyCheck _ | .call .resolveMember _ => true
  | .call _ _ | .takeYieldpoint _ => false

theorem Event.between_of_access {e : Event B} (h : e.access = true) : e.between = true := by
  cases e with
  | load ref a | store ref a | header ref => rfl
  | call target args | memberOffset id offset | takeYieldpoint flag => cases h

/-- A member whose offset was looked up, with the offset. -/
def Event.lookup : Event B → Option (Word × Word)
  | .memberOffset id offset => some (id, offset)
  | _ => none

theorem Event.lookup_of_access {e : Event B} (h : e.access = true) : e.lookup = none := by
  cases e with
  | memberOffset id offset => cases h
  | load ref a | store ref a | header ref | call target args | takeYieldpoint flag => rfl

/-- The offset of a field is the one in the code, or the one that was looked up last. -/
def FieldReference.HasOffset (f : FieldReference) (offset : Word) (past : List (Event B)) : Prop :=
  f.offset = some offset ∨
    f.offset = none ∧ (past.filterMap Event.lookup).getLast? = some (f.id, offset)

/-- A barrier that was called after `trace` has returned. -/
def Runtime.Passed (rt : Runtime B) (trace : List (Event B)) (method : B) (arg : Word) : Prop :=
  ∃ heap result heap', rt.reply trace heap (.barrier method) [arg] = .returned result heap'

namespace Compiler

variable (cc : Compiler B) (rt : Runtime B) (code : List Bytecode) (start : List (Event B))

/-- If the method has barriers of this type, one was called with `arg` and returned, and nothing
has happened since but what may come between.  Events are counted from `start` on. -/
def Guarded (type : BarrierType) (arg : Word) (past : List (Event B)) : Prop :=
  ∀ method, cc.addBarriers type = some method →
    ∃ before since, past = before ++ .call (.barrier method) [arg] :: since ∧
      rt.Passed (start ++ before) method arg ∧ ∀ e ∈ since, e.between = true

/-- The address of a static field in the JTOC, or of its second word. -/
def StaticAddress (f : FieldReference) (a : Word) (past : List (Event B)) : Prop :=
  ∃ offset, f.HasOffset offset past ∧
    (a = cc.toc + offset ∨ f.kind.wide = true ∧ a = cc.toc + offset + 4)

/-- Accesses to an object are guarded by the barrier for the object, and those to the JTOC are
accesses to a static field of the method, guarded by the barrier for this field.  The barriers of
the collector load and store, too. -/
def Allowed (past : List (Event B)) : Event B → Prop
  | .load ref a =>
      cc.Guarded rt start .read ref past ∨
        ref = cc.toc ∧ ∃ f, .getstatic f ∈ code ∧ cc.StaticAddress f a past ∧
          cc.Guarded rt start .staticRead f.id past
  | .store ref a =>
      cc.Guarded rt start .write ref past ∨
        ref = cc.toc ∧ ∃ f, .putstatic f ∈ code ∧ cc.StaticAddress f a past ∧
          cc.Guarded rt start .staticWrite f.id past
  | .call .arrayLoadReadBarrier args | .call .getfieldReadBarrier args =>
      ∃ ref rest, args = ref :: rest ∧ cc.Guarded rt start .read ref past
  | .call .arrayStoreWriteBarrier args | .call .putfieldWriteBarrier args =>
      ∃ ref rest, args = ref :: rest ∧ cc.Guarded rt start .write ref past
  | _ => True

/-- Since `start`, all events were allowed and the last ones have `P`. -/
def Within (P : List (Event B) → Prop) (trace : List (Event B)) : Prop :=
  ∃ events, trace = start ++ events ∧ Always (cc.Allowed rt code start) events ∧ P events

/-- The run did not leave its frame and all events were allowed. -/
def Fine (e : Stop B) : Prop :=
  e.reason ≠ .outOfFrame ∧ cc.Within rt code start (fun _ => True) e.trace

variable {cc rt code start} {trace : List (Event B)} {w : World B}
  {P Q : List (Event B) → Prop} {type : BarrierType} {arg : Word}

theorem Guarded.snoc {past : List (Event B)} (h : cc.Guarded rt start type arg past) {e : Event B}
    (he : e.between = true) : cc.Guarded rt start type arg (past ++ [e]) := by
  intro method hmethod
  obtain ⟨before, since, rfl, hpassed, hsince⟩ := h method hmethod
  refine ⟨before, since ++ [e], by simp, hpassed, ?_⟩
  intro e' he'
  rcases List.mem_append.1 he' with he' | he'
  · exact hsince e' he'
  · rw [List.mem_singleton.1 he']
    exact he

theorem Within.mono (h : cc.Within rt code start P trace) (hPQ : ∀ events, P events → Q events) :
    cc.Within rt code start Q trace := by
  obtain ⟨events, htrace, halways, hP⟩ := h
  exact ⟨events, htrace, halways, hPQ events hP⟩

theorem Within.snoc (h : cc.Within rt code start P trace) {e : Event B}
    (hallowed : ∀ events, P events → cc.Allowed rt code start events e)
    (hQ : ∀ events, P events → Q (events ++ [e])) : cc.Within rt code start Q (trace ++ [e]) := by
  obtain ⟨events, rfl, halways, hP⟩ := h
  exact ⟨events ++ [e], List.append_assoc _ _ _, halways.snoc (hallowed events hP), hQ events hP⟩

theorem fine_stop (h : cc.Within rt code start P w.trace) {reason : Reason B}
    (hreason : reason ≠ .outOfFrame) : cc.Fine rt code start (w.stop reason) :=
  ⟨hreason, h.mono fun _ _ => trivial⟩

theorem fine_threw {target : Target B} {heap : Heap}
    (h : cc.Within rt code start (fun _ => True) trace) :
    cc.Fine rt code start ⟨.threw target, heap, trace⟩ := by
  refine ⟨?_, h⟩
  intro hreason
  cases hreason

/-! ## Single events -/

theorem post_call {target : Target B} {args : List Word} (h : cc.Within rt code start P w.trace)
    (hallowed : ∀ events, P events → cc.Allowed rt code start events (.call target args))
    (hQ : ∀ events, P events → Q (events ++ [.call target args])) :
    Post (cc.Fine rt code start) (fun p => cc.Within rt code start Q p.2.trace)
      (w.call rt target args) := by
  rw [World.call]
  split
  · exact h.snoc hallowed hQ
  · exact fine_threw (h.snoc hallowed fun _ _ => trivial)

theorem post_access {event : Word → Event B} {ref : Word} (h : cc.Within rt code start P w.trace)
    (hallowed : ∀ events, P events → cc.Allowed rt code start events (event ref))
    (hQ : ∀ events, P events → Q (events ++ [event ref])) :
    Post (cc.Fine rt code start) (fun w' => cc.Within rt code start Q w'.trace)
      (w.access event ref) := by
  rw [World.access]
  split
  · exact fine_stop h fun hreason => by cases hreason
  · exact h.snoc hallowed hQ

theorem post_callVoid {target : Target B} {args : List Word}
    (h : cc.Within rt code start P w.trace)
    (hallowed : ∀ events, P events → cc.Allowed rt code start events (.call target args))
    (hQ : ∀ events, P events → Q (events ++ [.call target args])) :
    Post (cc.Fine rt code start) (fun w' => cc.Within rt code start Q w'.trace)
      (callVoid rt target args w) := by
  refine Post.bind (post_call h hallowed hQ) ?_
  intro p hp
  exact hp

theorem post_callForWord {target : Target B} {args : List Word}
    (h : cc.Within rt code start P w.trace)
    (hallowed : ∀ events, P events → cc.Allowed rt code start events (.call target args)) :
    Post (cc.Fine rt code start) (fun p => cc.Within rt code start (fun _ => True) p.2.trace)
      (callForWord rt target args w) := by
  refine Post.bind (post_call (Q := fun _ => True) h hallowed fun _ _ => trivial) ?_
  intro p hp
  exact hp

theorem post_barrier (h : cc.Within rt code start P w.trace) :
    Post (cc.Fine rt code start)
      (fun w' => cc.Within rt code start (cc.Guarded rt start type arg) w'.trace)
      (cc.barrier rt type arg w) := by
  rw [barrier]
  cases hmethod : cc.addBarriers type with
  | none =>
      refine h.mono fun events _ method hsome => ?_
      rw [hmethod] at hsome
      cases hsome
  | some method =>
      show Post _ _ (w.call rt (.barrier method) [arg] >>= _)
      rw [World.call]
      cases hreply : rt.reply w.trace w.heap (.barrier method) [arg] with
      | threw heap => exact fine_threw (h.snoc (fun _ _ => trivial) fun _ _ => trivial)
      | returned result heap =>
          obtain ⟨events, htrace, halways, -⟩ := h
          rw [htrace] at hreply
          have hallowed : cc.Allowed rt code start events (.call (.barrier method) [arg]) := trivial
          refine ⟨events ++ [.call (.barrier method) [arg]], ?_, halways.snoc hallowed, ?_⟩
          · rw [← List.append_assoc, ← htrace]
          · intro method' hsome
            rw [hmethod] at hsome
            cases hsome
            exact ⟨events, [], rfl, ⟨w.heap, result, heap, hreply⟩, fun e he => by cases he⟩

/-! ## Accesses -/

/-- Accesses keep `P`. -/
def Stable (P : List (Event B) → Prop) : Prop :=
  ∀ events e, P events → e.access = true → P (events ++ [e])

theorem stable_guarded : Stable (cc.Guarded rt start type arg) :=
  fun _ _ h he => h.snoc (Event.between_of_access he)

theorem stable_hasOffset (f : FieldReference) (offset : Word) :
    Stable fun events : List (Event B) => f.HasOffset offset events := by
  rintro events e (hoffset | ⟨hoffset, hlast⟩) he
  · exact .inl hoffset
  · refine .inr ⟨hoffset, ?_⟩
    rw [List.filterMap_append, List.filterMap_cons_none (Event.lookup_of_access he),
      List.filterMap_nil, List.append_nil]
    exact hlast

theorem stable_guardedOffset (f : FieldReference) (offset : Word) :
    Stable fun events => cc.Guarded rt start type arg events ∧ f.HasOffset offset events :=
  fun events e h he => ⟨stable_guarded events e h.1 he, stable_hasOffset f offset events e h.2 he⟩

theorem stable_true : Stable fun _ : List (Event B) => True := fun _ _ _ _ => trivial

section Keeps

variable {ref a : Word}

/-- An access that is allowed. -/
theorem post_stable {α : Type} {event : Word → Event B} {k : World B → Except (Stop B) α}
    {trace : α → List (Event B)} (hP : Stable P) (haccess : (event ref).access = true)
    (hallowed : ∀ events, P events → cc.Allowed rt code start events (event ref))
    (h : cc.Within rt code start P w.trace)
    (hk : ∀ w', cc.Within rt code start P w'.trace →
      Post (cc.Fine rt code start) (fun r => cc.Within rt code start P (trace r)) (k w')) :
    Post (cc.Fine rt code start) (fun r => cc.Within rt code start P (trace r))
      (w.access event ref >>= k) :=
  Post.bind (post_access h hallowed fun events hevents => hP events _ hevents haccess) hk

theorem post_header (hP : Stable P) (h : cc.Within rt code start P w.trace) :
    Post (cc.Fine rt code start) (fun p => cc.Within rt code start P p.2.trace)
      (w.header ref a) :=
  post_stable hP rfl (fun _ _ => trivial) h fun _ hw => hw

section Loads

variable (hP : Stable P) (h : cc.Within rt code start P w.trace)

include hP h

theorem post_load {move : Move}
    (hload : ∀ events, P events → cc.Allowed rt code start events (.load ref a)) :
    Post (cc.Fine rt code start) (fun p => cc.Within rt code start P p.2.trace)
      (w.load move ref a) :=
  post_stable hP rfl hload h fun _ hw => hw

theorem post_loadWord {move : Move}
    (hload : ∀ events, P events → cc.Allowed rt code start events (.load ref a)) :
    Post (cc.Fine rt code start) (fun p => cc.Within rt code start P p.2.trace)
      (loadWord move ref a w) :=
  Post.bind (post_load hP h hload) fun _ hp => hp

theorem post_loadQuad
    (hload : ∀ events, P events → cc.Allowed rt code start events (.load ref a)) :
    Post (cc.Fine rt code start) (fun p => cc.Within rt code start P p.2.trace)
      (loadQuad ref a w) := by
  have hquad : Post (cc.Fine rt code start) (fun p => cc.Within rt code start P p.2.trace)
      (w.loadQuad ref a) := post_stable hP rfl hload h fun _ hw => hw
  exact Post.bind hquad fun _ hp => hp

theorem post_loadPair
    (hlow : ∀ events, P events → cc.Allowed rt code start events (.load ref a))
    (hhigh : ∀ events, P events → cc.Allowed rt code start events (.load ref (a + 4))) :
    Post (cc.Fine rt code start) (fun p => cc.Within rt code start P p.2.trace)
      (loadPair ref a w) := by
  refine Post.bind (post_load hP h hhigh) fun p hp => ?_
  exact Post.bind (post_load hP hp hlow) fun _ hq => hq

end Loads

section Stores

variable (hP : Stable P) (h : cc.Within rt code start P w.trace)

include hP h

theorem post_store {size : Size} {v : Word}
    (hstore : ∀ events, P events → cc.Allowed rt code start events (.store ref a)) :
    Post (cc.Fine rt code start) (fun w' => cc.Within rt code start P w'.trace)
      (w.store size ref a v) :=
  post_stable hP rfl hstore h fun _ hw => hw

theorem post_storeQuad {v : Word × Word}
    (hstore : ∀ events, P events → cc.Allowed rt code start events (.store ref a)) :
    Post (cc.Fine rt code start) (fun w' => cc.Within rt code start P w'.trace)
      (w.storeQuad ref a v) :=
  post_stable hP rfl hstore h fun _ hw => hw

theorem post_storePair {low high : Word}
    (hlow : ∀ events, P events → cc.Allowed rt code start events (.store ref a))
    (hhigh : ∀ events, P events → cc.Allowed rt code start events (.store ref (a + 4))) :
    Post (cc.Fine rt code start) (fun w' => cc.Within rt code start P w'.trace)
      (storePair ref a low high w) :=
  Post.bind (post_store hP h hlow) fun _ hw => post_store hP hw hhigh

end Stores

/-! ## Between a barrier and its access -/

/-- A call that may come between. -/
theorem post_callBetween {target : Target B} {args : List Word}
    (hbetween : (Event.call target args).between = true)
    (h : cc.Within rt code start (cc.Guarded rt start type arg) w.trace) :
    Post (cc.Fine rt code start)
      (fun w' => cc.Within rt code start (cc.Guarded rt start type arg) w'.trace)
      (callVoid rt target args w) := by
  refine post_callVoid h (fun events _ => ?_) fun events hevents => hevents.snoc hbetween
  cases target with
  | arrayLoadReadBarrier | getfieldReadBarrier => cases hbetween
  | arrayStoreWriteBarrier | putfieldWriteBarrier => cases hbetween
  | _ => trivial

theorem post_modifyCheck (h : cc.Within rt code start (cc.Guarded rt start type arg) w.trace) :
    Post (cc.Fine rt code start)
      (fun w' => cc.Within rt code start (cc.Guarded rt start type arg) w'.trace)
      (cc.modifyCheck rt ref w) := by
  rw [modifyCheck]
  split
  · exact post_callBetween rfl h
  · exact h

theorem post_checkBounds (hP : Stable P) {index : Word} (h : cc.Within rt code start P w.trace) :
    Post (cc.Fine rt code start) (fun w' => cc.Within rt code start P w'.trace)
      (cc.checkBounds ref index w) := by
  rw [checkBounds]
  split
  · refine Post.bind (post_header hP h) fun p hp => ?_
    dsimp only
    split
    · exact hp
    · exact fine_stop hp fun hreason => by cases hreason
  · exact h

/-- A lookup leaves the offset that it found. -/
theorem within_memberOffset {f : FieldReference} (hoffset : f.offset = none)
    (h : cc.Within rt code start (cc.Guarded rt start type arg) w.trace) :
    cc.Within rt code start (fun events => cc.Guarded rt start type arg events ∧
      f.HasOffset (w.memberOffset f.id).1 events) (w.memberOffset f.id).2.trace := by
  refine h.snoc (fun _ _ => trivial) fun events hevents => ⟨hevents.snoc rfl, .inr ⟨hoffset, ?_⟩⟩
  rw [List.filterMap_append]
  exact List.getLast?_concat

theorem post_link {f : FieldReference}
    (h : cc.Within rt code start (cc.Guarded rt start type arg) w.trace) :
    Post (cc.Fine rt code start) (fun p => cc.Within rt code start (fun events =>
      cc.Guarded rt start type arg events ∧ f.HasOffset p.1 events) p.2.trace)
      (link rt f w) := by
  cases hoffset : f.offset with
  | some offset =>
      rw [link_of_some hoffset]
      exact h.mono fun events hevents => ⟨hevents, .inl hoffset⟩
  | none =>
      have hlookup := within_memberOffset hoffset h
      rw [link, hoffset]
      dsimp only
      split
      · refine Post.bind (post_callBetween rfl (hlookup.mono fun _ hevents => hevents.1)) ?_
        exact fun _ hw => within_memberOffset hoffset hw
      · exact hlookup

end Keeps

/-! ## Bytecodes -/

section Bytecodes

variable {ref index low high v : Word} {f : FieldReference} {k : ArrayKind}

/-- The result of an access is not looked at again. -/
theorem forget {α : Type} {trace : α → List (Event B)} {x : Except (Stop B) α}
    (h : Post (cc.Fine rt code start) (fun r => cc.Within rt code start P (trace r)) x) :
    Post (cc.Fine rt code start) (fun r => cc.Within rt code start (fun _ => True) (trace r)) x :=
  h.mono fun _ hr => hr.mono fun _ _ => trivial

theorem load_allowed (a : Word) (past : List (Event B)) (h : cc.Guarded rt start .read ref past) :
    cc.Allowed rt code start past (.load ref a) := .inl h

theorem store_allowed (a : Word) (past : List (Event B))
    (h : cc.Guarded rt start .write ref past) :
    cc.Allowed rt code start past (.store ref a) := .inl h

/-- A load by a barrier of the collector. -/
theorem post_collectorLoad {target : Target B} {args : List Word}
    (htarget : target = .arrayLoadReadBarrier ∨ target = .getfieldReadBarrier)
    (h : cc.Within rt code start (cc.Guarded rt start .read ref) w.trace) :
    Post (cc.Fine rt code start) (fun p => cc.Within rt code start (fun _ => True) p.2.trace)
      (callForWord rt target (ref :: args) w) := by
  refine post_callForWord h fun events hevents => ?_
  rcases htarget with rfl | rfl
  · exact ⟨ref, args, rfl, hevents⟩
  · exact ⟨ref, args, rfl, hevents⟩

/-- A store by a barrier of the collector. -/
theorem post_collectorStore {target : Target B} {args : List Word}
    (htarget : target = .arrayStoreWriteBarrier ∨ target = .putfieldWriteBarrier)
    (h : cc.Within rt code start (cc.Guarded rt start .write ref) w.trace) :
    Post (cc.Fine rt code start) (fun w' => cc.Within rt code start (fun _ => True) w'.trace)
      (callVoid rt target (ref :: args) w) := by
  refine post_callVoid h (fun events hevents => ?_) fun _ _ => trivial
  rcases htarget with rfl | rfl
  · exact ⟨ref, args, rfl, hevents⟩
  · exact ⟨ref, args, rfl, hevents⟩

theorem post_arrayLoad (h : cc.Within rt code start P w.trace) :
    Post (cc.Fine rt code start) (fun p => cc.Within rt code start (fun _ => True) p.2.trace)
      (cc.arrayLoad rt k ref index w) := by
  refine Post.bind (post_barrier h) fun w₁ h₁ => ?_
  refine Post.bind (post_checkBounds stable_guarded h₁) fun w₂ h₂ => ?_
  split
  · exact post_collectorLoad (.inl rfl) h₂
  refine forget (P := cc.Guarded rt start .read ref) ?_
  rw [loadElement]
  split
  · split
    · exact post_loadQuad stable_guarded h₂ (load_allowed _)
    · exact post_loadPair stable_guarded h₂ (load_allowed _) (load_allowed _)
  · exact post_loadWord stable_guarded h₂ (load_allowed _)

theorem post_arrayStoreWide (h : cc.Within rt code start P w.trace) :
    Post (cc.Fine rt code start) (fun w' => cc.Within rt code start (fun _ => True) w'.trace)
      (cc.arrayStoreWide rt k ref index low high w) := by
  refine Post.bind (post_barrier h) fun w₁ h₁ => ?_
  refine Post.bind (post_modifyCheck h₁) fun w₂ h₂ => ?_
  refine Post.bind (post_checkBounds stable_guarded h₂) fun w₃ h₃ =>
    forget (P := cc.Guarded rt start .write ref) ?_
  split
  · exact post_storeQuad stable_guarded h₃ (store_allowed _)
  · exact post_storePair stable_guarded h₃ (store_allowed _) (store_allowed _)

theorem post_arrayStore (h : cc.Within rt code start P w.trace) :
    Post (cc.Fine rt code start) (fun w' => cc.Within rt code start (fun _ => True) w'.trace)
      (cc.arrayStore rt k ref index v w) := by
  refine Post.bind (post_barrier h) fun w₁ h₁ => ?_
  refine Post.bind (post_modifyCheck h₁) fun w₂ h₂ => ?_
  split
  · refine Post.bind (post_callBetween rfl h₂) fun w₃ h₃ => ?_
    refine Post.bind (post_checkBounds stable_guarded h₃) fun w₄ h₄ => ?_
    split
    · exact post_collectorStore (.inl rfl) h₄
    · exact forget (post_store stable_guarded h₄ (store_allowed _))
  · refine Post.bind (post_checkBounds stable_guarded h₂) fun w₃ h₃ => ?_
    exact forget (post_store stable_guarded h₃ (store_allowed _))

theorem post_getstatic (hmem : .getstatic f ∈ code) (h : cc.Within rt code start P w.trace) :
    Post (cc.Fine rt code start) (fun p => cc.Within rt code start (fun _ => True) p.2.trace)
      (cc.getstatic rt f w) := by
  refine Post.bind (post_barrier h) fun w₁ h₁ => ?_
  refine Post.bind (post_link h₁) fun p hp => ?_
  dsimp only
  split
  · rename_i hwide
    refine forget (post_loadPair (stable_guardedOffset f p.1) hp (fun events hevents => ?_)
      fun events hevents => ?_)
    · exact .inr ⟨rfl, f, hmem, ⟨p.1, hevents.2, .inl rfl⟩, hevents.1⟩
    · exact .inr ⟨rfl, f, hmem, ⟨p.1, hevents.2, .inr ⟨hwide, rfl⟩⟩, hevents.1⟩
  · refine forget (post_loadWord (stable_guardedOffset f p.1) hp fun events hevents => ?_)
    exact .inr ⟨rfl, f, hmem, ⟨p.1, hevents.2, .inl rfl⟩, hevents.1⟩

theorem post_putstatic (hmem : .putstatic f ∈ code) (h : cc.Within rt code start P w.trace) :
    Post (cc.Fine rt code start) (fun w' => cc.Within rt code start (fun _ => True) w'.trace)
      (cc.putstatic rt f low high w) := by
  refine Post.bind (post_barrier h) fun w₁ h₁ => ?_
  refine Post.bind (post_link h₁) fun p hp => ?_
  dsimp only
  split
  · rename_i hwide
    refine forget (post_storePair (stable_guardedOffset f p.1) hp (fun events hevents => ?_)
      fun events hevents => ?_)
    · exact .inr ⟨rfl, f, hmem, ⟨p.1, hevents.2, .inl rfl⟩, hevents.1⟩
    · exact .inr ⟨rfl, f, hmem, ⟨p.1, hevents.2, .inr ⟨hwide, rfl⟩⟩, hevents.1⟩
  · refine forget (post_store (stable_guardedOffset f p.1) hp fun events hevents => ?_)
    exact .inr ⟨rfl, f, hmem, ⟨p.1, hevents.2, .inl rfl⟩, hevents.1⟩

theorem post_loadField {offset : Word}
    (h : cc.Within rt code start (cc.Guarded rt start .read ref) w.trace) :
    Post (cc.Fine rt code start) (fun p => cc.Within rt code start (fun _ => True) p.2.trace)
      (cc.loadField rt f ref offset w) := by
  rw [loadField]
  split
  · exact Post.bind (post_header stable_guarded h) fun q hq => post_collectorLoad (.inr rfl) hq
  refine forget (P := cc.Guarded rt start .read ref) ?_
  split
  · exact post_loadQuad stable_guarded h (load_allowed _)
  · exact post_loadWord stable_guarded h (load_allowed _)

theorem post_getfield (h : cc.Within rt code start P w.trace) :
    Post (cc.Fine rt code start) (fun p => cc.Within rt code start (fun _ => True) p.2.trace)
      (cc.getfield rt f ref w) := by
  refine Post.bind (post_barrier h) fun w₁ h₁ => ?_
  refine Post.bind (post_link h₁) fun p hp => ?_
  exact post_loadField (hp.mono fun _ hevents => hevents.1)

theorem post_checkResolved (h : cc.Within rt code start (cc.Guarded rt start .write ref) w.trace) :
    Post (cc.Fine rt code start)
      (fun w' => cc.Within rt code start (cc.Guarded rt start .write ref) w'.trace)
      (cc.checkResolved rt f ref w) := by
  rw [checkResolved]
  split
  · exact post_modifyCheck h
  · exact h

theorem post_putfield (h : cc.Within rt code start P w.trace) :
    Post (cc.Fine rt code start) (fun w' => cc.Within rt code start (fun _ => True) w'.trace)
      (cc.putfield rt f ref low high w) := by
  refine Post.bind (post_barrier h) fun w₁ h₁ => ?_
  refine Post.bind (post_link h₁) fun p hp => ?_
  refine Post.bind (post_checkResolved (hp.mono fun _ hevents => hevents.1)) fun w₂ h₂ => ?_
  split
  · exact forget (post_storeQuad stable_guarded h₂ (store_allowed _))
  · rw [storeField]
    split
    · exact Post.bind (post_header stable_guarded h₂) fun q hq =>
        post_collectorStore (.inr rfl) hq
    · exact forget (post_store stable_guarded h₂ (store_allowed _))

/-- A new object, and its barrier. -/
theorem post_allocated {x : Except (Stop B) (Word × World B)}
    (h : Post (cc.Fine rt code start) (fun p => cc.Within rt code start (fun _ => True) p.2.trace)
      x) :
    Post (cc.Fine rt code start) (fun p => cc.Within rt code start (fun _ => True) p.2.trace)
      (x >>= cc.allocated rt) := by
  refine Post.bind h fun p hp => ?_
  exact Post.bind (post_barrier hp) fun w' hw' => hw'.mono fun _ _ => trivial

theorem post_new {t : ClassReference} (h : cc.Within rt code start (fun _ => True) w.trace) :
    Post (cc.Fine rt code start) (fun p => cc.Within rt code start (fun _ => True) p.2.trace)
      (cc.new rt t w) := by
  refine post_allocated ?_
  cases t with
  | resolved instanceSize tibOffset hasFinalizer whichAllocator align offset =>
      refine Post.bind (post_header stable_true h) fun p hp => ?_
      exact post_call hp (fun _ _ => trivial) fun _ _ => trivial
  | unresolved id => exact post_call h (fun _ _ => trivial) fun _ _ => trivial

theorem post_newarray {t : ArrayReference} {count : Word}
    (h : cc.Within rt code start (fun _ => True) w.trace) :
    Post (cc.Fine rt code start) (fun p => cc.Within rt code start (fun _ => True) p.2.trace)
      (cc.newarray rt t count w) := by
  refine post_allocated ?_
  cases t with
  | resolved width headerSize tibOffset whichAllocator align offset =>
      refine Post.bind (post_header stable_true h) fun p hp => ?_
      exact post_call hp (fun _ _ => trivial) fun _ _ => trivial
  | unresolved id => exact post_call h (fun _ _ => trivial) fun _ _ => trivial

theorem post_yieldpoint {bi target : Nat} (h : cc.Within rt code start (fun _ => True) w.trace) :
    Post (cc.Fine rt code start) (fun w' => cc.Within rt code start (fun _ => True) w'.trace)
      (cc.yieldpoint rt bi target w) := by
  rw [yieldpoint]
  split
  · have htest : cc.Within rt code start (fun _ => True) (w.takeYieldpoint rt).2.trace :=
      h.snoc (fun _ _ => trivial) fun _ _ => trivial
    split
    · exact htest
    · exact post_callVoid htest (fun _ _ => trivial) fun _ _ => trivial
  · exact h

theorem trace_countBranch (bi : Nat) (taken : Bool) (w : World B) :
    (cc.countBranch bi taken w).trace = w.trace := by
  rw [countBranch, increment]
  split
  · split <;> rfl
  · rfl

/-- A bytecode of a verified method stays in its frame, and its accesses are guarded. -/
theorem post_exec {bi : Nat} {frame : Frame B} {bytecode : Bytecode} (hmem : bytecode ∈ code)
    (hpops : bytecode.pops ≤ frame.operands.length)
    (hindex : ∀ i, bytecode = .iload i → i < frame.locals.length)
    (h : cc.Within rt code start (fun _ => True) frame.world.trace) :
    Post (cc.Fine rt code start) (fun q => cc.Within rt code start (fun _ => True) q.2.world.trace)
      (cc.exec rt bi frame bytecode) := by
  obtain ⟨operands, locals, world⟩ := frame
  simp only at hpops hindex h
  cases bytecode with
  | aconstNull | iconst val => exact h
  | iload i =>
      rw [exec, List.getElem?_eq_getElem (hindex i rfl)]
      exact h
  | istore i =>
      rcases operands with _ | ⟨v, rest⟩
      · simp [Bytecode.pops] at hpops
      · exact h
  | pop =>
      rcases operands with _ | ⟨v, rest⟩
      · simp [Bytecode.pops] at hpops
      · exact h
  | iadd =>
      rcases operands with _ | ⟨b, _ | ⟨a, rest⟩⟩
      iterate 2 simp [Bytecode.pops] at hpops
      exact h
  | arrayLoad k =>
      rcases operands with _ | ⟨index, _ | ⟨ref, rest⟩⟩
      iterate 2 simp [Bytecode.pops] at hpops
      exact Post.bind (post_arrayLoad h) fun _ hp => hp
  | arrayStore k =>
      rw [exec]
      cases hwide : k.wide with
      | true =>
          rcases operands with _ | ⟨low, _ | ⟨high, _ | ⟨index, _ | ⟨ref, rest⟩⟩⟩⟩
          iterate 4 simp [Bytecode.pops, ArrayKind.words, hwide] at hpops
          exact Post.bind (post_arrayStoreWide h) fun _ hw => hw
      | false =>
          rcases operands with _ | ⟨v, _ | ⟨index, _ | ⟨ref, rest⟩⟩⟩
          iterate 3 simp [Bytecode.pops, ArrayKind.words, hwide] at hpops
          exact Post.bind (post_arrayStore h) fun _ hw => hw
  | getstatic field => exact Post.bind (post_getstatic hmem h) fun _ hp => hp
  | putstatic field =>
      rw [exec]
      cases hwide : field.kind.wide with
      | true =>
          rcases operands with _ | ⟨low, _ | ⟨high, rest⟩⟩
          iterate 2 simp [Bytecode.pops, Kind.words, hwide] at hpops
          exact Post.bind (post_putstatic hmem h) fun _ hw => hw
      | false =>
          rcases operands with _ | ⟨v, rest⟩
          · simp [Bytecode.pops, Kind.words, hwide] at hpops
          · exact Post.bind (post_putstatic hmem h) fun _ hw => hw
  | getfield field =>
      rcases operands with _ | ⟨ref, rest⟩
      · simp [Bytecode.pops] at hpops
      · exact Post.bind (post_getfield h) fun _ hp => hp
  | putfield field =>
      rw [exec]
      cases hwide : field.kind.wide with
      | true =>
          rcases operands with _ | ⟨low, _ | ⟨high, _ | ⟨ref, rest⟩⟩⟩
          iterate 3 simp [Bytecode.pops, Kind.words, hwide] at hpops
          exact Post.bind (post_putfield h) fun _ hw => hw
      | false =>
          rcases operands with _ | ⟨v, _ | ⟨ref, rest⟩⟩
          iterate 2 simp [Bytecode.pops, Kind.words, hwide] at hpops
          exact Post.bind (post_putfield h) fun _ hw => hw
  | new t => exact Post.bind (post_new h) fun _ hp => hp
  | newarray t =>
      rcases operands with _ | ⟨count, rest⟩
      · simp [Bytecode.pops] at hpops
      · exact Post.bind (post_newarray h) fun _ hp => hp
  | multianewarray id dimensions =>
      have hcall : Post (cc.Fine rt code start)
          (fun p => cc.Within rt code start (fun _ => True) p.2.trace)
          (cc.multianewarray rt id (operands.take dimensions) world) :=
        post_allocated (post_call h (fun _ _ => trivial) fun _ _ => trivial)
      exact Post.bind hcall fun _ hp => hp
  | arraylength =>
      rcases operands with _ | ⟨ref, rest⟩
      · simp [Bytecode.pops] at hpops
      · exact Post.bind (post_header stable_true h) fun _ hp => hp
  | goto target => exact Post.bind (post_yieldpoint h) fun _ hw => hw
  | ifeq target =>
      rcases operands with _ | ⟨v, rest⟩
      · simp [Bytecode.pops] at hpops
      · refine Post.bind (post_yieldpoint h) fun w hw => ?_
        show cc.Within rt code start _ (cc.countBranch bi _ w).trace
        rwa [trace_countBranch]
  | ifIcmplt target =>
      rcases operands with _ | ⟨b, _ | ⟨a, rest⟩⟩
      iterate 2 simp [Bytecode.pops] at hpops
      refine Post.bind (post_yieldpoint h) fun w hw => ?_
      show cc.Within rt code start _ (cc.countBranch bi _ w).trace
      rwa [trace_countBranch]
  | ireturn =>
      rcases operands with _ | ⟨v, rest⟩
      · simp [Bytecode.pops] at hpops
      · exact fine_stop h fun hreason => by cases hreason
  | return_ => exact fine_stop h fun hreason => by cases hreason

end Bytecodes

end Compiler

/-! ## Runs of the bytecodes -/

section Runs

variable {cc : Compiler B} {rt : Runtime B} {code : List Bytecode} {start : List (Event B)}

theorem post_bytecodeStep (hverified : cc.Verified code) {s : Activation B}
    (h : s.Valid cc code ∧ cc.Within rt code start (fun _ => True) s.frame.world.trace) :
    Post (cc.Fine rt code start)
      (fun s' => s'.Valid cc code ∧ cc.Within rt code start (fun _ => True) s'.frame.world.trace)
      (bytecodeStep cc rt code s) := by
  obtain ⟨hvalid, hwithin⟩ := h
  obtain ⟨bytecode, hbytecode⟩ := hvalid.exists_bytecode
  have hfits := hverified _ _ hbytecode
  have hpost : Post (cc.Fine rt code start) _ (cc.exec rt s.bi s.frame bytecode) :=
    Compiler.post_exec (List.mem_of_getElem? hbytecode) (hvalid.operands ▸ hfits.pops_le)
      (fun i hi => hvalid.locals ▸ hfits.index_lt i (.inl hi)) hwithin
  rw [bytecodeStep_of_some hbytecode]
  cases hexec : cc.exec rt s.bi s.frame bytecode with
  | error e =>
      rw [hexec] at hpost
      exact hpost
  | ok q =>
      rw [hexec] at hpost
      exact ⟨valid_of_exec hverified hvalid hbytecode hexec, hpost⟩

end Runs

/-! ## Runs of the machine -/

section Machine

variable {layout : Layout} {rt : Runtime B}

/-- The outcome has a trace that goes on from `t`. -/
def GoesOn {α : Type} (t : List (Event B)) (trace : α → List (Event B)) :
    Except (Stop B) α → Prop :=
  Post (fun e => t <+: e.trace) fun a => t <+: trace a

theorem GoesOn.from_start {α : Type} {t t' : List (Event B)} {trace : α → List (Event B)}
    {x : Except (Stop B) α} (h : GoesOn t' trace x) (ht : t <+: t') : GoesOn t trace x := by
  cases x with
  | error e => exact ht.trans h
  | ok a => exact ht.trans h

theorem goesOn_call (w : World B) (target : Target B) (args : List Word) :
    GoesOn w.trace (fun p => p.2.trace) (w.call rt target args) := by
  rw [World.call]
  split
  · exact List.prefix_append _ _
  · exact List.prefix_append _ _

theorem goesOn_access {α : Type} (w : World B) (event : Word → Event B) (ref : Word)
    (f : World B → α) (trace : α → List (Event B)) (hf : ∀ w', trace (f w') = w'.trace) :
    GoesOn w.trace trace (w.access event ref >>= fun w' => pure (f w')) := by
  rw [World.access]
  split
  · exact List.prefix_rfl
  · show w.trace <+: trace _
    rw [hf]
    exact List.prefix_append _ _

namespace Cpu

variable (c : Cpu B)

/-- Nothing happens to the heap in a move of the stack pointer. -/
theorem goesOn_pop : GoesOn c.world.trace (fun p => p.2.world.trace) c.pop := by
  rw [pop]
  split
  · exact List.prefix_rfl
  · exact List.prefix_rfl

theorem goesOn_addSp (n : Nat) {t : List (Event B)} {c : Cpu B} (h : t <+: c.world.trace) :
    GoesOn t (fun c' => c'.world.trace) (addSp n c) := by
  induction n generalizing c with
  | zero => exact h
  | succ n ih =>
      rw [addSp, pop]
      split
      · exact h
      · exact ih h

theorem world_subSp (n : Nat) (c : Cpu B) : (subSp n c).world = c.world := by
  induction n generalizing c with
  | zero => rfl
  | succ n ih =>
      rw [subSp, ih]
      rfl

theorem world_setReg (v : Word) (r : Reg) : (c.setReg v r).world = c.world := by
  cases r <;> rfl

theorem goesOn_of_world {c c' : Cpu B} (h : c'.world = c.world) :
    GoesOn c.world.trace (fun c' => c'.world.trace) (.ok c') := by
  show c.world.trace <+: c'.world.trace
  exact h ▸ List.prefix_rfl

theorem goesOn_load (move : Move) (l : Loc) :
    GoesOn c.world.trace (fun p => p.2.world.trace) (c.load layout move l) := by
  cases l with
  | sp n =>
      rw [load]
      split
      · exact List.prefix_rfl
      · exact List.prefix_rfl
  | mem a => exact Post.bind (goesOn_access c.world (.load · _) _ _ _ fun _ => rfl) fun _ hp => hp

theorem goesOn_store (size : Size) (v : Word) (l : Loc) :
    GoesOn c.world.trace (fun c' => c'.world.trace) (c.store layout size v l) := by
  cases l with
  | sp n =>
      rw [store]
      split
      · exact List.prefix_rfl
      · exact List.prefix_rfl
  | mem a => exact Post.bind (goesOn_access c.world (.store · _) _ _ _ fun _ => rfl) fun _ hw => hw

theorem goesOn_loadQuad (l : Loc) :
    GoesOn c.world.trace (fun p => p.2.world.trace) (c.loadQuad layout l) := by
  cases l with
  | sp n =>
      rw [loadQuad]
      split
      · exact List.prefix_rfl
      · exact List.prefix_rfl
  | mem a => exact Post.bind (goesOn_access c.world (.load · _) _ _ _ fun _ => rfl) fun _ hp => hp

theorem goesOn_storeQuad (v : Word × Word) (l : Loc) :
    GoesOn c.world.trace (fun c' => c'.world.trace) (c.storeQuad layout v l) := by
  cases l with
  | sp n =>
      rw [storeQuad]
      split
      · exact List.prefix_rfl
      · exact List.prefix_rfl
  | mem a => exact Post.bind (goesOn_access c.world (.store · _) _ _ _ fun _ => rfl) fun _ hw => hw

theorem goesOn_header (w : World B) (ref a : Word) :
    GoesOn w.trace (fun p => p.2.trace) (w.header ref a) :=
  goesOn_access w .header ref _ _ fun _ => rfl

/-- No instruction takes back what has happened. -/
theorem goesOn_run (o : Op B) :
    GoesOn c.world.trace (fun c' => c'.world.trace) (c.run layout rt o) := by
  cases o with
  | pushReg r | pushImm v => exact List.prefix_rfl
  | pushLoc l => exact Post.bind (c.goesOn_load .mov l) fun _ hp => hp
  | popReg r =>
      refine Post.bind c.goesOn_pop fun p hp => ?_
      show _ <+: (p.2.setReg p.1 r).world.trace
      rwa [world_setReg]
  | popLoc l =>
      refine Post.bind c.goesOn_pop fun p hp => ?_
      exact (p.2.goesOn_store .dword p.1 l).from_start hp
  | movRegLoc move r l =>
      refine Post.bind (c.goesOn_load move l) fun p hp => ?_
      show _ <+: (p.2.setReg p.1 r).world.trace
      rwa [world_setReg]
  | movLocReg size l r => exact c.goesOn_store size _ l
  | addLocReg l r =>
      refine Post.bind (c.goesOn_load .mov l) fun p hp => ?_
      exact (p.2.goesOn_store .dword _ l).from_start hp
  | addSp n => exact goesOn_addSp n List.prefix_rfl
  | subSp n => exact goesOn_of_world (world_subSp n c)
  | leaToc r => exact goesOn_of_world (world_setReg c _ r)
  | movqLoad l | fldQuad l => exact Post.bind (c.goesOn_loadQuad l) fun _ hp => hp
  | movqStore l | fstpQuad l => exact c.goesOn_storeQuad _ l
  | cmpRegReg r r' => exact List.prefix_rfl
  | cmpRegImm r v => exact List.prefix_rfl
  | testReg r => exact List.prefix_rfl
  | cmpLengthReg base index => exact Post.bind (goesOn_header c.world _ _) fun _ hp => hp
  | pushLength base => exact Post.bind (goesOn_header c.world _ _) fun _ hp => hp
  | loadTib r base =>
      refine Post.bind (goesOn_header c.world _ _) fun p hp => ?_
      show _ <+: (setReg _ p.1 r).world.trace
      rwa [world_setReg]
  | pushTib offset => exact Post.bind (goesOn_header c.world _ _) fun _ hp => hp
  | movMemberOffset r id =>
      show _ <+: (setReg _ _ r).world.trace
      rw [world_setReg]
      exact List.prefix_append _ _
  | movRegCounter r counter => exact goesOn_of_world (world_setReg c _ r)
  | addRegImm r v => exact goesOn_of_world (world_setReg _ _ r)
  | cmpTakeYieldpoint => exact List.prefix_append _ _
  | movCounterReg counter r | movTrapParam r => exact List.prefix_rfl
  | intArrayBounds | epilogue value => exact List.prefix_rfl
  | callAbs target => exact Post.bind (goesOn_call c.world _ _) fun _ hp => hp

end Cpu

/-- What has happened, in a run or up to its end. -/
def seen : Except (Stop B) (Code.Place (Cpu B)) → List (Event B)
  | .ok x => x.state.world.trace
  | .error e => e.trace

theorem seen_step (code : Nat → List (Instr B)) (x : Code.Place (Cpu B)) :
    seen (.ok x) <+: seen (Code.step (ia32 layout rt) code x) := by
  rw [Code.step]
  split
  · exact List.prefix_rfl
  · rename_i i _
    cases i with
    | op o =>
        have hrun : GoesOn _ _ (x.state.run layout rt o) := x.state.goesOn_run o
        rw [Code.Instr.exec, ia32_run]
        cases hstate : x.state.run layout rt o with
        | error e =>
            rw [hstate] at hrun
            exact hrun
        | ok c =>
            rw [hstate] at hrun
            exact hrun
    | gotoIf cond l =>
        rw [Code.Instr.exec]
        split <;> exact List.prefix_rfl
    | skipIf cond n | back n | goto l => exact List.prefix_rfl

theorem seen_steps (code : Nat → List (Instr B)) (n k : Nat) (x : Code.Place (Cpu B)) :
    seen (Code.steps (Code.step (ia32 layout rt) code) n x) <+:
      seen (Code.steps (Code.step (ia32 layout rt) code) (n + k) x) :=
  Code.steps_related (r := fun y z => seen y <+: seen z) (fun _ => List.prefix_rfl)
    (fun _ _ _ h h' => h.trans h') (seen_step code) n k x

end Machine

section Compiled

variable {cc : Compiler B} {rt : Runtime B} {code : List Bytecode} {s : Activation B}
  {x : Code.Place (Cpu B)}

/-- What the machine has done is the beginning of something that the bytecodes do. -/
theorem exists_within (rt : Runtime B) (hverified : cc.Verified code)
    (hexact : cc.MovesExactly code) (h : Represents cc code s x) (n : Nat) :
    ∃ trace, seen (Code.steps (cc.machineStep rt code) n x) <+: trace ∧
      cc.Within rt code s.frame.world.trace (fun _ => True) trace ∧
      ∀ e, Code.steps (cc.machineStep rt code) n x = .error e →
        cc.Fine rt code s.frame.world.trace e := by
  obtain ⟨k, j, hmatch⟩ := Code.exists_steps_of_sim_back
    (fun _ _ hrep => leads_of_represents rt hverified hexact hrep) h n
  have hstart : cc.Within rt code s.frame.world.trace (fun _ => True) s.frame.world.trace :=
    ⟨[], (List.append_nil _).symm, always_nil, trivial⟩
  have hrun : Post _ _ (Code.steps (bytecodeStep cc rt code) k s) :=
    Code.post_steps (fun _ => post_bytecodeStep hverified) k ⟨h.valid, hstart⟩
  have hseen : seen (Code.steps (cc.machineStep rt code) n x) <+:
      seen (Code.steps (cc.machineStep rt code) (n + j) x) := seen_steps _ n j x
  have hstopped : ∀ e, Code.steps (cc.machineStep rt code) n x = .error e →
      Code.steps (cc.machineStep rt code) (n + j) x = .error e :=
    fun _ he => Code.steps_add_of_error he j
  cases hmachine : Code.steps (cc.machineStep rt code) (n + j) x with
  | error e =>
      rw [hmachine] at hmatch hseen hstopped
      cases hbytecodes : Code.steps (bytecodeStep cc rt code) k s with
      | ok s' =>
          rw [hbytecodes] at hmatch
          exact hmatch.elim
      | error e' =>
          rw [hbytecodes] at hmatch hrun
          obtain rfl : e' = e := hmatch
          refine ⟨e'.trace, hseen, hrun.2, fun e₁ he₁ => ?_⟩
          cases hstopped e₁ he₁
          exact hrun
  | ok y =>
      rw [hmachine] at hmatch hseen hstopped
      cases hbytecodes : Code.steps (bytecodeStep cc rt code) k s with
      | error e =>
          rw [hbytecodes] at hmatch
          exact hmatch.elim
      | ok s' =>
          rw [hbytecodes] at hmatch hrun
          have hworld : y.state.world = s'.frame.world := hmatch.world
          refine ⟨y.state.world.trace, hseen, ?_, fun e he => by cases hstopped e he⟩
          rw [hworld]
          exact hrun.2

theorem exists_events (rt : Runtime B) (hverified : cc.Verified code)
    (hexact : cc.MovesExactly code) (h : Represents cc code s x) (n : Nat) :
    ∃ events, seen (Code.steps (cc.machineStep rt code) n x) = x.state.world.trace ++ events ∧
      Always (cc.Allowed rt code x.state.world.trace) events := by
  obtain ⟨trace, hseen, hwithin, -⟩ := exists_within rt hverified hexact h n
  have hbegin : x.state.world.trace <+: seen (Code.steps (cc.machineStep rt code) n x) := by
    have hsteps : seen (Code.steps (cc.machineStep rt code) 0 x) <+:
        seen (Code.steps (cc.machineStep rt code) (0 + n) x) := seen_steps _ 0 n x
    rwa [Nat.zero_add] at hsteps
  obtain ⟨events, hevents⟩ := hbegin
  obtain ⟨all, rfl, halways, -⟩ := hwithin
  refine ⟨events, hevents.symm, ?_⟩
  rw [h.world]
  rw [← hevents, h.world, List.prefix_append_right_inj] at hseen
  obtain ⟨more, rfl⟩ := hseen
  exact halways.of_append

/-- **Every access of compiled code is guarded by its barrier.**  Take any number of instructions
of a verified method, from the code of a bytecode on and with anything in the registers, in a build
that moves its 64-bit fields as they are.  Since then every load and every store of a field or an
element, also those that a barrier of the collector does, was preceded by the DIFC barrier of its
type for the same object, or for the very static field at that address, which returned; in between
there were only other accesses, lookups of offsets, assertions, `checkstore` and the resolver.  The
code does not read or write behind its frame. -/
theorem compiled_code_mediated (hverified : cc.Verified code) (hexact : cc.MovesExactly code)
    (h : Represents cc code s x) (n : Nat) :
    (∃ events, seen (Code.steps (cc.machineStep rt code) n x) = x.state.world.trace ++ events ∧
      Always (cc.Allowed rt code x.state.world.trace) events) ∧
    ∀ e, Code.steps (cc.machineStep rt code) n x = .error e → e.reason ≠ .outOfFrame := by
  obtain ⟨trace, -, -, hstops⟩ := exists_within rt hverified hexact h n
  exact ⟨exists_events rt hverified hexact h n, fun e he => (hstops e he).1⟩

end Compiled

theorem spin_mediated :
    ∃ events, seen (Code.steps (spinCompiler.machineStep idle spin) 40 spinEntry) = [] ++ events ∧
      Always (spinCompiler.Allowed idle spin []) events :=
  (compiled_code_mediated spin_verified spin_movesExactly spin_represents 40).1

end Laminar.Baseline
