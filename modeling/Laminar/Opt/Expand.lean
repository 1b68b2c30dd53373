import Laminar.Opt.Available
import Laminar.Vm.AddBarriers

/-!
# Expansion of runtime services

`ExpandRuntimeServices.perform` walks once through the code of a method.  It turns allocations
into calls of runtime services and puts the barriers for allocations and heap accesses in.  The
walk steps back to the instruction before the one it has changed, so it meets instructions
again: `instsProcessedByDIFC` keeps it from giving an access a second barrier, and an allocation
is a call by then.

Calls are left as calls: nothing is inlined, and the collector needs no barriers of its own.  Of
the instructions that the walk expands, those without a barrier on an object are `other` and
stay as they are.

The walk is no more than a map: every instruction is replaced, where it stands, by what
`expandItem` says (`perform_eq`).
-/

namespace Laminar.Opt

open Laminar.Lib
open Laminar.Vm (BarrierType BarrierMethod BarrierOptions)

/-! ## Barrier methods -/

/-- The options of class `VM` that count. -/
structure Options extends BarrierOptions where
  difcNoOptBarriers : Bool
  difcNoRedundancyElimination : Bool
  /-- `BuildForIA32 && runningVM` -/
  shieldTib : Bool

/-- What `addBarriers` looks at in the method an instruction comes from. -/
structure Origin where
  /-- `addBarriers(method)` -/
  instrumented : Bool
  staticallyInSecureRegion : Bool

/-- The barrier methods that take an object. -/
def Target.ofMethod : BarrierMethod → Option Target
  | .readBarrierDynamic => some (.difcReadBarrierMethod .dynamic)
  | .readBarrierInsideSR => some (.difcReadBarrierMethod .insideSR)
  | .readBarrierOutsideSR => some (.difcReadBarrierMethod .outsideSR)
  | .writeBarrierDynamic => some (.difcWriteBarrierMethod .dynamic)
  | .writeBarrierInsideSR => some (.difcWriteBarrierMethod .insideSR)
  | .writeBarrierOutsideSR => some (.difcWriteBarrierMethod .outsideSR)
  | .allocBarrierDynamic => some .difcAllocBarrierDynamicMethod
  | .allocBarrierInsideSR => some .difcAllocBarrierInsideSRMethod
  | .staticReadBarrierDynamic | .staticWriteBarrierDynamic => none
  | .staticReadBarrierInsideSR | .staticWriteBarrierInsideSR => none

/-- `addBarriers(inst, type)`; an instruction without a position has no origin. -/
def addBarriers (options : Options) (origin : Option Origin) (type : BarrierType) :
    Option Target :=
  if options.difcNoOptBarriers then none
  else match origin with
    | none => none
    | some method =>
        (Vm.addBarriers options.toBarrierOptions method.instrumented
          method.staticallyInSecureRegion type).bind Target.ofMethod

/-- A barrier for allocations. -/
def Target.isAlloc : Target → Bool
  | .difcAllocBarrierDynamicMethod => true
  | .difcAllocBarrierInsideSRMethod => true
  | _ => false

theorem isAlloc_addBarriers {options : Options} {origin : Option Origin} {type : BarrierType}
    {target : Target} (h : addBarriers options origin type = some target) :
    target.isAlloc = decide (type = .alloc) := by
  unfold addBarriers at h
  split at h
  · cases h
  split at h
  · cases h
  obtain ⟨method, hmethod, htarget⟩ := Option.bind_eq_some_iff.1 h
  unfold Vm.addBarriers at hmethod
  split at hmethod
  · split at hmethod
    · split at hmethod
      · cases type <;> cases hmethod <;> cases htarget <;> rfl
      · split at hmethod
        · cases type <;> cases hmethod <;> cases htarget <;> rfl
        · cases type <;> cases hmethod <;> cases htarget <;> rfl
    · cases hmethod
  · cases hmethod

/-! ## The code -/

/-- An IR to be expanded: where its instructions come from, and which allocations are
`NEW_UNRESOLVED` or `NEWARRAY_UNRESOLVED`. -/
structure Input where
  ir : Ir
  origin : Nat → Nat → Option Origin
  unresolved : Nat → Nat → Bool
  options : Options

/-- An instruction in code order.  Those of the IR are known by block and index. -/
inductive Item
  | label (b : Nat)
  | inst (b k : Nat) (i : Instr)
  /-- an allocation that has become a call of a runtime service -/
  | allocCall (b k : Nat) (result : Register)
  /-- `REF_MOVE` of the type information block to a temporary -/
  | tibMove
  | barrier (target : Target) (param : Operand)
  | bbend (b : Nat)

/-- The instruction of the IR that is still there. -/
def Item.position : Item → Option (Nat × Nat)
  | .inst b k _ => some (b, k)
  | _ => none

/-- The code of a block. -/
def blockItems (ir : Ir) (b : Nat) : List Item :=
  .label b :: (ir.insts b).zipIdx.map (fun p => .inst b p.2 p.1) ++ [.bbend b]

/-- The code of an IR. -/
def codeOrder (ir : Ir) : List Item := (List.range ir.blocks.length).flatMap (blockItems ir)

namespace Input

variable (inp : Input)

/-- `fullRedInsts`. -/
def fullRedInsts : Finset (Nat × Nat) :=
  computeRedundantBarriers (.early true) inp.ir ∪ computeRedundantBarriers (.early false) inp.ir

/-- `redundant`. -/
def redundant (b k : Nat) : Bool :=
  if inp.options.difcNoRedundancyElimination then false else decide ((b, k) ∈ inp.fullRedInsts)

/-- The barrier of an instruction. -/
def addBarriers (b k : Nat) (type : BarrierType) : Option Target :=
  Opt.addBarriers inp.options (inp.origin b k) type

/-- The barrier that is inserted for an instruction. -/
def barrierMethod (processed : List (Nat × Nat)) (b k : Nat) (type : BarrierType) :
    Option Target :=
  match inp.addBarriers b k type with
  | none => none
  | some target => if (b, k) ∉ processed ∧ inp.redundant b k = false then some target else none

/-- What is put in front of a resolved allocation. -/
def shield : List Item := if inp.options.shieldTib then [.tibMove] else []

end Input

/-! ## The walk -/

/-- The code around the current instruction, which is the first of `next`, and
`instsProcessedByDIFC`.  The instructions before it are in `prev`, nearest first. -/
structure Walk where
  prev : List Item
  next : List Item
  processed : List (Nat × Nat)

namespace Walk

/-- The whole code. -/
def code (w : Walk) : List Item := w.prev.reverse ++ w.next

/-- Go on with the following instruction. -/
def forward (w : Walk) : Walk :=
  match w.next with
  | [] => w
  | item :: next => { w with prev := item :: w.prev, next := next }

/-- Go on with the preceding instruction; if there is none, the walk is over. -/
def back (w : Walk) : Walk :=
  match w.prev with
  | [] => { w with prev := w.next.reverse, next := [] }
  | item :: prev => { w with prev := prev, next := item :: w.next }

variable (inp : Input)

/-- `NEW`, `NEWARRAY` and their unresolved forms, with `insertAllocBarrier`. -/
def visitAlloc (w : Walk) (b k : Nat) (result : Register) (next : List Item) : Walk :=
  match inp.barrierMethod w.processed b k .alloc, inp.unresolved b k with
  | none, true => { w with prev := .allocCall b k result :: w.prev, next := next }
  | some target, true =>
      { w with
        next := .allocCall b k result :: .barrier target (.reg result) :: next
        processed := (b, k) :: w.processed }
  | none, false =>
      back { w with
        prev := inp.shield ++ w.prev
        next := .allocCall b k result :: next }
  | some target, false =>
      back
        { prev := inp.shield ++ w.prev
          next := .allocCall b k result :: .barrier target (.reg result) :: next
          processed := (b, k) :: w.processed }

/-- The loads and stores of fields and array elements. -/
def visitAccess (w : Walk) (b k : Nat) (type : BarrierType) (param : Operand) : Walk :=
  match inp.barrierMethod w.processed b k type with
  | none => w.forward
  | some target =>
      back { w with next := .barrier target param :: w.next, processed := (b, k) :: w.processed }

/-- One round of the loop of `perform`; `none` when there is no instruction left. -/
def visit (w : Walk) : Option Walk :=
  match w.next with
  | [] => none
  | .inst b k (.new result) :: next => some (w.visitAlloc inp b k result next)
  | .inst b k (.newArray result) :: next => some (w.visitAlloc inp b k result next)
  | .inst b k (.getField _ ref) :: _ => some (w.visitAccess inp b k .read ref)
  | .inst b k (.aload _ array) :: _ => some (w.visitAccess inp b k .read array)
  | .inst b k (.putField ref) :: _ => some (w.visitAccess inp b k .write ref)
  | .inst b k (.astore array) :: _ => some (w.visitAccess inp b k .write array)
  | _ => some w.forward

/-- The instruction may still be changed. -/
def pendingItem (processed : List (Nat × Nat)) : Item → Bool
  | .inst _ _ (.new _) => true
  | .inst _ _ (.newArray _) => true
  | .inst b k _ => decide ((b, k) ∉ processed)
  | _ => false

@[simp] theorem pendingItem_barrier (processed : List (Nat × Nat)) (target : Target)
    (param : Operand) : pendingItem processed (.barrier target param) = false := rfl

@[simp] theorem pendingItem_allocCall (processed : List (Nat × Nat)) (b k : Nat)
    (result : Register) : pendingItem processed (.allocCall b k result) = false := rfl

/-- The number of instructions that may still be changed; going back costs one. -/
def pending (w : Walk) : Nat := w.code.countP (pendingItem w.processed)

@[simp] theorem code_back (w : Walk) : w.back.code = w.code := by
  obtain ⟨prev, next, processed⟩ := w
  cases prev with
  | nil => simp [back, code]
  | cons item prev => simp [back, code]

@[simp] theorem processed_back (w : Walk) : w.back.processed = w.processed := by
  unfold back
  split <;> rfl

theorem pending_back (w : Walk) : w.back.pending = w.pending := by
  rw [pending, pending, code_back, processed_back]

/-- What was processed is not pending. -/
theorem countP_pendingItem_le (p : Nat × Nat) (processed : List (Nat × Nat)) (items : List Item) :
    items.countP (pendingItem (p :: processed)) ≤ items.countP (pendingItem processed) := by
  refine List.countP_mono_left fun item _ h => ?_
  unfold pendingItem at h ⊢
  split at h
  · rfl
  · rfl
  · rw [decide_eq_true_eq] at h ⊢
    exact fun hmem => h (List.mem_cons_of_mem p hmem)
  · cases h

theorem visitAlloc_pending {w : Walk} {b k : Nat} {result : Register} {next : List Item}
    {i : Instr} (hnext : w.next = .inst b k i :: next)
    (hi : pendingItem w.processed (.inst b k i) = true) :
    (w.visitAlloc inp b k result next).pending < w.pending := by
  have hprev := countP_pendingItem_le (b, k) w.processed w.prev
  have hrest := countP_pendingItem_le (b, k) w.processed next
  have hw : w.pending = w.prev.countP (pendingItem w.processed) +
      (next.countP (pendingItem w.processed) + 1) := by
    rw [pending, code, hnext, List.countP_append, List.countP_reverse, List.countP_cons, if_pos hi]
  have hshield : ∀ processed, inp.shield.countP (pendingItem processed) = 0 := by
    intro processed
    unfold Input.shield
    split <;> rfl
  rw [visitAlloc]
  split
  · simp [pending, code] at hw ⊢
    omega
  · simp [pending, code] at hw ⊢
    omega
  · rw [pending_back]
    simp [pending, code, hshield] at hw ⊢
    omega
  · rw [pending_back]
    simp [pending, code, hshield] at hw ⊢
    omega

theorem not_processed_of_barrierMethod {processed : List (Nat × Nat)} {b k : Nat}
    {type : BarrierType} {target : Target}
    (h : inp.barrierMethod processed b k type = some target) : (b, k) ∉ processed := by
  unfold Input.barrierMethod at h
  split at h
  · cases h
  · split at h
    · rename_i hnew
      exact hnew.1
    · cases h

/-- The walk has come nearer to its end. -/
def Nearer (w' w : Walk) : Prop :=
  w'.pending < w.pending ∨ w'.pending = w.pending ∧ w'.next.length < w.next.length

theorem forward_nearer {w : Walk} {item : Item} {next : List Item} (hnext : w.next = item :: next) :
    w.forward.Nearer w := by
  refine Or.inr ⟨?_, ?_⟩
  · simp [pending, forward, code, hnext]
  · simp [forward, hnext]

theorem visitAccess_nearer {w : Walk} {b k : Nat} {type : BarrierType} {param : Operand}
    {next : List Item} {i : Instr} (hnext : w.next = .inst b k i :: next)
    (hi : ∀ processed, pendingItem processed (.inst b k i) = decide ((b, k) ∉ processed)) :
    (w.visitAccess inp b k type param).Nearer w := by
  rw [visitAccess]
  split
  · exact forward_nearer hnext
  · rename_i target htarget
    have hnew := not_processed_of_barrierMethod inp htarget
    have hprev := countP_pendingItem_le (b, k) w.processed w.prev
    have hrest := countP_pendingItem_le (b, k) w.processed next
    refine Or.inl ?_
    rw [pending_back]
    simp [pending, code, hnext, hi, hnew] at hprev hrest ⊢
    omega

theorem visit_nearer {w w' : Walk} (h : w.visit inp = some w') : w'.Nearer w := by
  unfold visit at h
  split at h
  · cases h
  · rename_i hnext
    cases h
    exact Or.inl (visitAlloc_pending inp hnext rfl)
  · rename_i hnext
    cases h
    exact Or.inl (visitAlloc_pending inp hnext rfl)
  · rename_i hnext
    cases h
    exact visitAccess_nearer inp hnext fun _ => rfl
  · rename_i hnext
    cases h
    exact visitAccess_nearer inp hnext fun _ => rfl
  · rename_i hnext
    cases h
    exact visitAccess_nearer inp hnext fun _ => rfl
  · rename_i hnext
    cases h
    exact visitAccess_nearer inp hnext fun _ => rfl
  · rename_i hnil _ _ _ _ _ _
    cases h
    cases hnext : w.next with
    | nil => exact absurd hnext hnil
    | cons item next => exact forward_nearer hnext

/-- The loop of `perform`. -/
def run (w : Walk) : List Item :=
  match _h : w.visit inp with
  | none => w.code
  | some w' => run w'
termination_by (w.pending, w.next.length)
decreasing_by
  rcases visit_nearer inp _h with hlt | ⟨heq, hlt⟩
  · exact Prod.Lex.left _ _ hlt
  · rw [heq]
    exact Prod.Lex.right _ hlt

end Walk

/-! ## What the walk computes -/

section Map

variable (inp : Input) (processed : List (Nat × Nat))

/-- What an allocation is replaced by. -/
def expandAlloc (b k : Nat) (result : Register) : List Item :=
  (if inp.unresolved b k then [] else inp.shield) ++
    .allocCall b k result ::
      ((inp.barrierMethod processed b k .alloc).map (.barrier · (.reg result))).toList

/-- What an access is replaced by. -/
def expandAccess (b k : Nat) (type : BarrierType) (param : Operand) (i : Instr) : List Item :=
  ((inp.barrierMethod processed b k type).map (.barrier · param)).toList ++ [.inst b k i]

/-- What an instruction is replaced by. -/
def expandItem : Item → List Item
  | .inst b k (.new result) => expandAlloc inp processed b k result
  | .inst b k (.newArray result) => expandAlloc inp processed b k result
  | .inst b k (.getField result ref) =>
      expandAccess inp processed b k .read ref (.getField result ref)
  | .inst b k (.aload result array) =>
      expandAccess inp processed b k .read array (.aload result array)
  | .inst b k (.putField ref) => expandAccess inp processed b k .write ref (.putField ref)
  | .inst b k (.astore array) => expandAccess inp processed b k .write array (.astore array)
  | item => [item]

end Map

namespace Walk

variable {inp : Input} {processed : List (Nat × Nat)}

theorem barrierMethod_cons {b k : Nat} {p : Nat × Nat} (hp : p ≠ (b, k)) (type : BarrierType) :
    inp.barrierMethod (p :: processed) b k type = inp.barrierMethod processed b k type := by
  simp [Input.barrierMethod, List.mem_cons, Ne.symm hp]

theorem barrierMethod_self (b k : Nat) (type : BarrierType) :
    inp.barrierMethod ((b, k) :: processed) b k type = none := by
  unfold Input.barrierMethod
  split
  · rfl
  · exact if_neg fun h => h.1 List.mem_cons_self

@[simp] theorem expandItem_barrier (target : Target) (param : Operand) :
    expandItem inp processed (.barrier target param) = [.barrier target param] := rfl

@[simp] theorem expandItem_allocCall (b k : Nat) (result : Register) :
    expandItem inp processed (.allocCall b k result) = [.allocCall b k result] := rfl

@[simp] theorem expandItem_tibMove : expandItem inp processed .tibMove = [.tibMove] := rfl

/-- Processing one instruction does not change what becomes of the others. -/
theorem expandItem_cons {p : Nat × Nat} {item : Item} (hp : item.position ≠ some p) :
    expandItem inp (p :: processed) item = expandItem inp processed item := by
  cases item with
  | inst b k i =>
      have hne : p ≠ (b, k) := fun h => hp (congrArg some h.symm)
      cases i <;> simp only [expandItem, expandAlloc, expandAccess, barrierMethod_cons hne]
  | _ => rfl

/-- The instruction stays as it is. -/
def Still (inp : Input) (processed : List (Nat × Nat)) (item : Item) : Prop :=
  expandItem inp processed item = [item]

theorem not_still_expandAlloc {b k : Nat} {result : Register} {i : Instr} :
    expandAlloc inp processed b k result ≠ [.inst b k i] := by
  intro h
  have hmem : Item.allocCall b k result ∈ expandAlloc inp processed b k result :=
    List.mem_append_right _ List.mem_cons_self
  rw [h] at hmem
  simp at hmem

theorem Still.cons {item : Item} (h : Still inp processed item) (p : Nat × Nat) :
    Still inp (p :: processed) item := by
  by_cases hp : item.position = some p
  · cases item with
    | inst b k i =>
        obtain rfl := Option.some.inj hp
        cases i with
        | new result => exact absurd h not_still_expandAlloc
        | newArray result => exact absurd h not_still_expandAlloc
        | _ => simp [Still, expandItem, expandAccess, barrierMethod_self]
    | _ => cases hp
  · rw [Still, expandItem_cons hp]
    exact h

theorem flatMap_still {items : List Item} (h : ∀ item ∈ items, Still inp processed item) :
    items.flatMap (expandItem inp processed) = items := by
  induction items with
  | nil => rfl
  | cons item items ih =>
      obtain ⟨hitem, hitems⟩ := List.forall_mem_cons.1 h
      rw [List.flatMap_cons, show expandItem inp processed item = [item] from hitem, ih hitems]
      rfl

/-- What becomes of the code. -/
def expansion (inp : Input) (w : Walk) : List Item := w.code.flatMap (expandItem inp w.processed)

/-- No instruction occurs twice, and the walk has left still what it has passed and the
first instruction. -/
structure Sound (inp : Input) (w : Walk) : Prop where
  nodup : (w.code.filterMap Item.position).Nodup
  prev : ∀ item ∈ w.prev, Still inp w.processed item
  first : ∀ item, w.code.head? = some item → Still inp w.processed item

section Steps

variable {w : Walk} {item : Item} {next : List Item}

theorem Sound.forward (h : Sound inp w) (hnext : w.next = item :: next)
    (hitem : Still inp w.processed item) :
    Sound inp w.forward ∧ expansion inp w.forward = expansion inp w := by
  have hcode : w.forward.code = w.code := by simp [Walk.forward, code, hnext]
  have hprocessed : w.forward.processed = w.processed := by rw [Walk.forward, hnext]
  have hprev : w.forward.prev = item :: w.prev := by rw [Walk.forward, hnext]
  refine ⟨⟨?_, ?_, ?_⟩, ?_⟩
  · rw [hcode]
    exact h.nodup
  · rw [hprev, hprocessed]
    exact List.forall_mem_cons.2 ⟨hitem, h.prev⟩
  · rw [hcode, hprocessed]
    exact h.first
  · rw [expansion, expansion, hcode, hprocessed]

theorem Sound.back (h : Sound inp w) (hprev : w.prev ≠ []) :
    Sound inp w.back ∧ expansion inp w.back = expansion inp w := by
  refine ⟨⟨?_, ?_, ?_⟩, ?_⟩
  · rw [code_back]
    exact h.nodup
  · cases hp : w.prev with
    | nil => exact absurd hp hprev
    | cons item prev =>
        simp only [Walk.back, hp]
        exact (List.forall_mem_cons.1 (hp ▸ h.prev)).2
  · rw [code_back, processed_back]
    exact h.first
  · rw [expansion, expansion, code_back, processed_back]

/-- The walk steps back only where it can. -/
theorem Sound.prev_ne_nil (h : Sound inp w) (hnext : w.next = item :: next)
    (hitem : ¬ Still inp w.processed item) : w.prev ≠ [] := by
  intro hprev
  refine hitem (h.first item ?_)
  rw [code, hprev, hnext]
  rfl

/-- The current instruction is replaced by others. -/
theorem Sound.replace (h : Sound inp w) {b k : Nat} {i : Instr}
    (hnext : w.next = .inst b k i :: next) (hitem : ¬ Still inp w.processed (.inst b k i))
    (before after : List Item) {processed' : List (Nat × Nat)}
    (hprocessed : processed' = w.processed ∨ processed' = (b, k) :: w.processed)
    (hbefore : ∀ item ∈ before, Still inp processed' item)
    (hposition : ((before.reverse ++ after).filterMap Item.position).Sublist [(b, k)])
    (hexpand : (before.reverse ++ after).flatMap (expandItem inp processed') =
      expandItem inp w.processed (.inst b k i)) :
    Sound inp ⟨before ++ w.prev, after ++ next, processed'⟩ ∧
      expansion inp ⟨before ++ w.prev, after ++ next, processed'⟩ = expansion inp w := by
  have hcode : code ⟨before ++ w.prev, after ++ next, processed'⟩ =
      w.prev.reverse ++ ((before.reverse ++ after) ++ next) := by
    simp [code]
  have hwcode : w.code = w.prev.reverse ++ (.inst b k i :: next) := by rw [code, hnext]
  have hstill : ∀ item, Still inp w.processed item → Still inp processed' item := by
    rcases hprocessed with rfl | rfl
    · exact fun _ hs => hs
    · exact fun _ hs => hs.cons _
  have hprev : ∀ item ∈ w.prev, Still inp processed' item :=
    fun item hi => hstill item (h.prev item hi)
  have hnodup := h.nodup
  rw [hwcode, List.filterMap_append, List.filterMap_cons] at hnodup
  refine ⟨⟨?_, ?_, ?_⟩, ?_⟩
  · rw [hcode, List.filterMap_append, List.filterMap_append]
    refine hnodup.sublist (List.Sublist.append (List.Sublist.refl _) ?_)
    exact List.Sublist.append hposition (List.Sublist.refl _)
  · exact List.forall_mem_append.2 ⟨hbefore, hprev⟩
  · intro item hfirst
    refine hstill item (h.first item ?_)
    have hne := h.prev_ne_nil hnext hitem
    rw [hcode, List.head?_append_of_ne_nil _ (by simpa using hne)] at hfirst
    rw [hwcode, List.head?_append_of_ne_nil _ (by simpa using hne)]
    exact hfirst
  · have hrest : next.flatMap (expandItem inp processed') =
        next.flatMap (expandItem inp w.processed) := by
      rcases hprocessed with rfl | rfl
      · rfl
      · refine List.flatMap_congr fun item hi => expandItem_cons fun hp => ?_
        have hmem : (b, k) ∈ next.filterMap Item.position :=
          List.mem_filterMap.2 ⟨item, hi, hp⟩
        exact (List.nodup_cons.1 (List.nodup_append.1 hnodup).2.1).1 hmem
    have hnew : (w.prev.reverse ++ ((before.reverse ++ after) ++ next)).flatMap
        (expandItem inp processed') = w.prev.reverse ++
          (expandItem inp w.processed (.inst b k i) ++
            next.flatMap (expandItem inp w.processed)) := by
      rw [List.flatMap_append, List.flatMap_append, hexpand, hrest,
        flatMap_still fun item hi => hprev item (List.mem_reverse.1 hi)]
    rw [expansion, expansion, hcode, hnew, hwcode, List.flatMap_append, List.flatMap_cons,
      flatMap_still fun item hi => h.prev item (List.mem_reverse.1 hi)]

theorem Sound.visitAlloc (h : Sound inp w) {b k : Nat} {i : Instr} {result : Register}
    (hnext : w.next = .inst b k i :: next)
    (hi : ∀ processed, expandItem inp processed (.inst b k i) =
      expandAlloc inp processed b k result) :
    Sound inp (w.visitAlloc inp b k result next) ∧
      expansion inp (w.visitAlloc inp b k result next) = expansion inp w := by
  have hitem : ¬ Still inp w.processed (.inst b k i) := by
    rw [Still, hi]
    exact not_still_expandAlloc
  have hprev : inp.shield ++ w.prev ≠ [] :=
    List.append_ne_nil_of_right_ne_nil _ (h.prev_ne_nil hnext hitem)
  have hshield : inp.shield.reverse = inp.shield ∧ inp.shield.filterMap Item.position = [] ∧
      ∀ processed, (∀ item ∈ inp.shield, Still inp processed item) := by
    unfold Input.shield
    split <;> simp [Still, Item.position]
  rw [Walk.visitAlloc]
  cases hbarrier : inp.barrierMethod w.processed b k .alloc with
  | none =>
      cases hunresolved : inp.unresolved b k with
      | true =>
          exact h.replace hnext hitem [.allocCall b k result] [] (Or.inl rfl)
            (by simp [Still]) (List.nil_sublist _)
            (by simp [hi, expandAlloc, hbarrier, hunresolved])
      | false =>
          have hreplace := h.replace hnext hitem inp.shield [.allocCall b k result] (Or.inl rfl)
            (hshield.2.2 _) (by simp [hshield, Item.position])
            (by simp [hi, expandAlloc, hbarrier, hunresolved, hshield.1,
              flatMap_still (hshield.2.2 _)])
          have hback := hreplace.1.back hprev
          exact ⟨hback.1, hback.2.trans hreplace.2⟩
  | some target =>
      cases hunresolved : inp.unresolved b k with
      | true =>
          exact h.replace hnext hitem [] [.allocCall b k result, .barrier target (.reg result)]
            (Or.inr rfl) (by simp) (List.nil_sublist _)
            (by simp [hi, expandAlloc, hbarrier, hunresolved])
      | false =>
          have hreplace := h.replace hnext hitem inp.shield
            [.allocCall b k result, .barrier target (.reg result)] (Or.inr rfl)
            (hshield.2.2 _) (by simp [hshield, Item.position])
            (by simp [hi, expandAlloc, hbarrier, hunresolved, hshield.1,
              flatMap_still (hshield.2.2 _)])
          have hback := hreplace.1.back hprev
          exact ⟨hback.1, hback.2.trans hreplace.2⟩

theorem Sound.visitAccess (h : Sound inp w) {b k : Nat} {i : Instr} {type : BarrierType}
    {param : Operand} (hnext : w.next = .inst b k i :: next)
    (hi : ∀ processed, expandItem inp processed (.inst b k i) =
      expandAccess inp processed b k type param i) :
    Sound inp (w.visitAccess inp b k type param) ∧
      expansion inp (w.visitAccess inp b k type param) = expansion inp w := by
  rw [Walk.visitAccess]
  cases hbarrier : inp.barrierMethod w.processed b k type with
  | none =>
      refine h.forward hnext ?_
      rw [Still, hi, expandAccess, hbarrier]
      rfl
  | some target =>
      have hitem : ¬ Still inp w.processed (.inst b k i) := by
        rw [Still, hi, expandAccess, hbarrier]
        simp
      have hreplace := h.replace hnext hitem [] [.barrier target param, .inst b k i] (Or.inr rfl)
        (by simp) (List.Sublist.refl _)
        (by simp [hi, expandAccess, hbarrier, barrierMethod_self])
      have hback := hreplace.1.back (h.prev_ne_nil hnext hitem)
      simp only [hnext]
      exact ⟨hback.1, hback.2.trans hreplace.2⟩

theorem Sound.visit (h : Sound inp w) {w' : Walk} (hvisit : w.visit inp = some w') :
    Sound inp w' ∧ expansion inp w' = expansion inp w := by
  unfold Walk.visit at hvisit
  split at hvisit
  · cases hvisit
  · rename_i hnext
    cases hvisit
    exact h.visitAlloc hnext fun _ => rfl
  · rename_i hnext
    cases hvisit
    exact h.visitAlloc hnext fun _ => rfl
  · rename_i hnext
    cases hvisit
    exact h.visitAccess hnext fun _ => rfl
  · rename_i hnext
    cases hvisit
    exact h.visitAccess hnext fun _ => rfl
  · rename_i hnext
    cases hvisit
    exact h.visitAccess hnext fun _ => rfl
  · rename_i hnext
    cases hvisit
    exact h.visitAccess hnext fun _ => rfl
  · rename_i hnil hnew hnewArray hgetField haload hputField hastore
    cases hvisit
    cases hnext : w.next with
    | nil => exact absurd hnext hnil
    | cons item next =>
        refine h.forward hnext ?_
        cases item with
        | inst b k i =>
            cases i with
            | new result => exact absurd hnext (hnew b k result next)
            | newArray result => exact absurd hnext (hnewArray b k result next)
            | getField result ref => exact absurd hnext (hgetField b k result ref next)
            | aload result array => exact absurd hnext (haload b k result array next)
            | putField ref => exact absurd hnext (hputField b k ref next)
            | astore array => exact absurd hnext (hastore b k array next)
            | _ => rfl
        | _ => rfl

end Steps

theorem run_none {w : Walk} (h : w.visit inp = none) : w.run inp = w.code := by
  rw [run]
  split
  · rfl
  · rename_i w' hsome
    rw [h] at hsome
    cases hsome

theorem run_some {w w' : Walk} (h : w.visit inp = some w') : w.run inp = w'.run inp := by
  rw [run]
  split
  · rename_i hnone
    rw [h] at hnone
    cases hnone
  · rename_i w'' hsome
    obtain rfl := Option.some.inj (h.symm.trans hsome)
    rfl

theorem next_of_visit_none {w : Walk} (h : w.visit inp = none) : w.next = [] := by
  cases hnext : w.next with
  | nil => rfl
  | cons item next =>
      unfold visit at h
      split at h <;> simp_all

/-- The walk ends with what becomes of the code. -/
theorem Sound.run {w : Walk} (h : Sound inp w) : w.run inp = expansion inp w := by
  induction w using Walk.run.induct inp with
  | case1 w hvisit =>
      have hcode : w.code = w.prev.reverse := by
        rw [code, next_of_visit_none hvisit, List.append_nil]
      rw [run_none hvisit, expansion, hcode]
      exact (flatMap_still fun item hi => h.prev item (List.mem_reverse.1 hi)).symm
  | case2 w w' hvisit ih =>
      rw [run_some hvisit, ih (h.visit hvisit).1, (h.visit hvisit).2]

end Walk

/-- `perform`: the code after the expansion. -/
def Input.perform (inp : Input) : List Item := Walk.run inp ⟨[], codeOrder inp.ir, []⟩

theorem filterMap_blockItems (ir : Ir) (b : Nat) :
    (blockItems ir b).filterMap Item.position =
      (List.range' 0 (ir.insts b).length).map (Prod.mk b) := by
  have hinsts : ((ir.insts b).zipIdx.map fun p => Item.inst b p.2 p.1).filterMap Item.position =
      (ir.insts b).zipIdx.map fun p => (b, p.2) := by
    rw [List.filterMap_map]
    exact congrFun List.filterMap_eq_map _
  rw [← List.zipIdx_map_snd 0 (ir.insts b), List.map_map]
  simp only [blockItems, List.cons_append, List.filterMap_cons, List.filterMap_append, hinsts,
    Item.position, List.filterMap_nil, List.append_nil]
  rfl

theorem nodup_codeOrder (ir : Ir) : ((codeOrder ir).filterMap Item.position).Nodup := by
  rw [codeOrder, List.filterMap_flatMap, List.nodup_flatMap]
  simp only [filterMap_blockItems]
  refine ⟨fun b _ => (List.nodup_range' _ Nat.one_pos).map (Prod.mk_right_injective b), ?_⟩
  refine List.nodup_range.imp fun hne => List.disjoint_left.2 fun p hp hq => ?_
  obtain ⟨k, -, rfl⟩ := List.mem_map.1 hp
  obtain ⟨k', -, heq⟩ := List.mem_map.1 hq
  exact hne (Prod.mk.inj heq).1.symm

/-- The first instruction of the code is the label of a block. -/
theorem head?_codeOrder {ir : Ir} {item : Item} (h : (codeOrder ir).head? = some item) :
    ∃ b, item = .label b := by
  unfold codeOrder at h
  cases hrange : List.range ir.blocks.length with
  | nil => simp [hrange] at h
  | cons b rest =>
      rw [hrange] at h
      exact ⟨b, (Option.some.inj h).symm⟩

/-- **The walk is a map**: every instruction is replaced by its expansion. -/
theorem perform_eq (inp : Input) :
    inp.perform = (codeOrder inp.ir).flatMap (expandItem inp []) := by
  have hsound : Walk.Sound inp ⟨[], codeOrder inp.ir, []⟩ := by
    refine ⟨nodup_codeOrder inp.ir, fun item hi => absurd hi List.not_mem_nil, fun item hi => ?_⟩
    obtain ⟨b, rfl⟩ := head?_codeOrder hi
    rfl
  exact hsound.run

end Laminar.Opt
