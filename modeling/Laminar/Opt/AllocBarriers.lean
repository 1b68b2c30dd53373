import Laminar.Lib.Run
import Laminar.Opt.Expand

/-!
# Allocation barriers

`insertAllocBarrier` asks the redundancy analysis like the barriers for accesses do, and the
analysis takes the result of an allocation for an operand that is checked.  If the result
register is available in front of the allocation, from an access to the object it held before,
the barrier of the allocation is dropped and the label slots of the new object stay `null`.

`allocBarriers_kept_iff` says that this is the only way to lose one, and what a barrier behind
every allocation gives for executions of the expanded code: no read or write barrier meets an
object whose slots are still `null`.

Every instruction that may throw does so to a handler of its block.  An allocation barrier is one
of them: `allocBarrierSlowPath` checks the allocation labels of the region before it fills the
slots, and the result register holds the object by then.  A handler in the same method can go on
to access it, so executions in which an allocation barrier throws to a handler are set apart.
-/

namespace Laminar.Opt

open Laminar.Lib
open Laminar.Vm (BarrierType)

/-- The register that an allocation defines. -/
def Instr.allocResult : Instr → Option Register
  | .new result => some result
  | .newArray result => some result
  | _ => none

/-! ## The barriers behind an allocation -/

/-- The allocation barriers at the front of some code. -/
def leadingAllocBarriers : List Item → List (Target × Operand)
  | .barrier target param :: rest =>
      if target.isAlloc then (target, param) :: leadingAllocBarriers rest else []
  | _ => []

/-- The allocation barriers that directly follow an allocation. -/
def allocBarriersAt (b k : Nat) : List Item → List (Target × Operand)
  | [] => []
  | .allocCall b' k' _ :: rest =>
      if (b', k') = (b, k) then leadingAllocBarriers rest else allocBarriersAt b k rest
  | _ :: rest => allocBarriersAt b k rest

/-- Every allocation with a barrier method is followed by its barrier. -/
def Guarded (inp : Input) : List Item → Prop
  | [] => True
  | .allocCall b k result :: rest =>
      (∀ target, inp.addBarriers b k .alloc = some target →
        rest.head? = some (.barrier target (.reg result))) ∧ Guarded inp rest
  | _ :: rest => Guarded inp rest

/-- The instruction is one of the code before the expansion. -/
def Item.Original : Item → Prop
  | .label _ => True
  | .inst _ _ _ => True
  | .bbend _ => True
  | _ => False

section Expansion

variable {inp : Input} {b k : Nat} {i : Instr} {result : Register}

theorem barrierMethod_nil {type : BarrierType} {target : Target} :
    inp.barrierMethod [] b k type = some target ↔
      inp.addBarriers b k type = some target ∧ inp.redundant b k = false := by
  unfold Input.barrierMethod
  cases hadd : inp.addBarriers b k type with
  | none => simp
  | some target' => simp [and_comm]

theorem isAlloc_barrierMethod {type : BarrierType} {target : Target}
    (h : inp.barrierMethod [] b k type = some target) :
    target.isAlloc = decide (type = .alloc) :=
  isAlloc_addBarriers (barrierMethod_nil.1 h).1

theorem expandItem_alloc (hi : i.allocResult = some result) (processed : List (Nat × Nat)) :
    expandItem inp processed (.inst b k i) = expandAlloc inp processed b k result := by
  cases i <;> cases hi <;> rfl

/-- An instruction that is no allocation stays, with a barrier for an access in front of it. -/
theorem expandItem_other {item : Item} (horiginal : item.Original)
    (hitem : ∀ b k i result, item = .inst b k i → i.allocResult ≠ some result) :
    expandItem inp [] item = [item] ∨
      ∃ target param, expandItem inp [] item = [.barrier target param, item] ∧
        target.isAlloc = false := by
  have haccess : ∀ (b k : Nat) (type : BarrierType) (param : Operand) (i : Instr),
      type ≠ .alloc → expandAccess inp [] b k type param i = [.inst b k i] ∨
        ∃ target param', expandAccess inp [] b k type param i =
          [.barrier target param', .inst b k i] ∧ target.isAlloc = false := by
    intro b k type param i htype
    unfold expandAccess
    cases hbarrier : inp.barrierMethod [] b k type with
    | none => exact Or.inl rfl
    | some target =>
        refine Or.inr ⟨target, param, rfl, ?_⟩
        rw [isAlloc_barrierMethod hbarrier, decide_eq_false htype]
  cases item with
  | inst b k i =>
      cases i with
      | new result => exact absurd rfl (hitem b k _ result rfl)
      | newArray result => exact absurd rfl (hitem b k _ result rfl)
      | getField result ref => exact haccess b k .read ref _ nofun
      | aload result array => exact haccess b k .read array _ nofun
      | putField ref => exact haccess b k .write ref _ nofun
      | astore array => exact haccess b k .write array _ nofun
      | _ => exact Or.inl rfl
  | label b => exact Or.inl rfl
  | bbend b => exact Or.inl rfl
  | _ => exact horiginal.elim

/-- Whether an original instruction is an allocation. -/
theorem alloc_or_other (item : Item) :
    (∃ b k i result, item = .inst b k i ∧ i.allocResult = some result) ∨
      ∀ b k i result, item = .inst b k i → i.allocResult ≠ some result := by
  by_cases h : ∃ b k i result, item = .inst b k i ∧ i.allocResult = some result
  · exact Or.inl h
  · exact Or.inr fun b k i result hitem hresult => h ⟨b, k, i, result, hitem, hresult⟩

/-- The barrier that is inserted behind an allocation. -/
def insertedBarrier (inp : Input) (b k : Nat) (result : Register) : List Item :=
  ((inp.barrierMethod [] b k .alloc).map (.barrier · (.reg result))).toList

/-- An allocation is expanded to its call and its barrier, perhaps behind a move. -/
theorem expandAlloc_cases (inp : Input) (b k : Nat) (result : Register) :
    expandAlloc inp [] b k result = .allocCall b k result :: insertedBarrier inp b k result ∨
      expandAlloc inp [] b k result =
        .tibMove :: .allocCall b k result :: insertedBarrier inp b k result := by
  unfold expandAlloc Input.shield
  cases inp.unresolved b k with
  | true => exact Or.inl rfl
  | false =>
      cases inp.options.shieldTib with
      | true => exact Or.inr rfl
      | false => exact Or.inl rfl

theorem leadingAllocBarriers_flatMap {items : List Item} (h : ∀ item ∈ items, item.Original) :
    leadingAllocBarriers (items.flatMap (expandItem inp [])) = [] := by
  cases items with
  | nil => rfl
  | cons item items =>
      rw [List.flatMap_cons]
      have horiginal := h item List.mem_cons_self
      rcases alloc_or_other item with ⟨b, k, i, result, rfl, hi⟩ | hother
      · rw [expandItem_alloc hi]
        rcases expandAlloc_cases inp b k result with heq | heq <;> rw [heq] <;> rfl
      · rcases expandItem_other horiginal hother with heq | ⟨target, param, heq, htarget⟩
        · rw [heq]
          cases item <;> first | rfl | exact horiginal.elim
        · rw [heq]
          simp [leadingAllocBarriers, htarget]

/-- What the code of one instruction contributes to the barriers of an allocation. -/
theorem allocBarriersAt_expandItem {item : Item} (horiginal : item.Original)
    (hposition : item.position ≠ some (b, k)) (rest : List Item) :
    allocBarriersAt b k (expandItem inp [] item ++ rest) = allocBarriersAt b k rest := by
  rcases alloc_or_other item with ⟨b', k', i, result, rfl, hi⟩ | hother
  · have hne : ¬ (b', k') = (b, k) := fun h => hposition (congrArg some h)
    rw [expandItem_alloc hi]
    rcases expandAlloc_cases inp b' k' result with heq | heq <;> rw [heq, insertedBarrier] <;>
      cases inp.barrierMethod [] b' k' .alloc <;>
      simp [allocBarriersAt, hne]
  · rcases expandItem_other horiginal hother with heq | ⟨target, param, heq, -⟩
    · rw [heq]
      cases item <;> first | rfl | exact horiginal.elim
    · rw [heq]
      cases item <;> first | rfl | exact horiginal.elim

/-- The barriers of an allocation are those inserted for it. -/
theorem allocBarriersAt_flatMap {items : List Item} (h : ∀ item ∈ items, item.Original)
    (hnodup : (items.filterMap Item.position).Nodup) (hmem : .inst b k i ∈ items)
    (hi : i.allocResult = some result) :
    allocBarriersAt b k (items.flatMap (expandItem inp [])) =
      ((inp.barrierMethod [] b k .alloc).map fun target => (target, .reg result)).toList := by
  induction items with
  | nil => exact absurd hmem List.not_mem_nil
  | cons item items ih =>
      obtain ⟨hitem, hitems⟩ := List.forall_mem_cons.1 h
      rw [List.flatMap_cons]
      rcases List.mem_cons.1 hmem with rfl | hmem
      · have hrest : leadingAllocBarriers (items.flatMap (expandItem inp [])) = [] :=
          leadingAllocBarriers_flatMap hitems
        rw [expandItem_alloc hi]
        have hcall : allocBarriersAt b k (expandAlloc inp [] b k result ++
            items.flatMap (expandItem inp [])) = leadingAllocBarriers
              (insertedBarrier inp b k result ++ items.flatMap (expandItem inp [])) := by
          rcases expandAlloc_cases inp b k result with heq | heq <;>
            rw [heq] <;> simp [allocBarriersAt]
        rw [hcall, insertedBarrier]
        cases hbarrier : inp.barrierMethod [] b k .alloc with
        | none => exact hrest
        | some target =>
            simp [leadingAllocBarriers, isAlloc_barrierMethod hbarrier, hrest]
      · rw [List.filterMap_cons] at hnodup
        have hposition : item.position ≠ some (b, k) := by
          intro heq
          rw [heq] at hnodup
          exact (List.nodup_cons.1 hnodup).1 (List.mem_filterMap.2 ⟨_, hmem, rfl⟩)
        have hnodup' : (items.filterMap Item.position).Nodup := by
          split at hnodup
          · exact hnodup
          · exact (List.nodup_cons.1 hnodup).2
        rw [allocBarriersAt_expandItem hitem hposition]
        exact ih hitems hnodup' hmem

/-- Barriers that are not dropped guard their allocations. -/
theorem guarded_flatMap {items : List Item} (h : ∀ item ∈ items, item.Original)
    (hkept : ∀ b k i result target, .inst b k i ∈ items → i.allocResult = some result →
      inp.addBarriers b k .alloc = some target →
        inp.barrierMethod [] b k .alloc = some target) :
    Guarded inp (items.flatMap (expandItem inp [])) := by
  induction items with
  | nil => trivial
  | cons item items ih =>
      obtain ⟨hitem, hitems⟩ := List.forall_mem_cons.1 h
      have hrest := ih hitems fun b k i result target hmem =>
        hkept b k i result target (List.mem_cons_of_mem item hmem)
      rw [List.flatMap_cons]
      rcases alloc_or_other item with ⟨b, k, i, result, rfl, hi⟩ | hother
      · have hcall : Guarded inp (.allocCall b k result :: (insertedBarrier inp b k result ++
            items.flatMap (expandItem inp []))) := by
          refine ⟨fun target hadd => ?_, ?_⟩
          · rw [insertedBarrier, hkept b k i result target List.mem_cons_self hi hadd]
            rfl
          · unfold insertedBarrier
            cases inp.barrierMethod [] b k .alloc <;> exact hrest
        rw [expandItem_alloc hi]
        rcases expandAlloc_cases inp b k result with heq | heq <;> rw [heq] <;> exact hcall
      · rcases expandItem_other hitem hother with heq | ⟨target, param, heq, -⟩
        · rw [heq]
          cases item <;> first | exact hrest | exact hitem.elim
        · rw [heq]
          cases item <;> first | exact hrest | exact hitem.elim

theorem Guarded.getElem? {code : List Item} (h : Guarded inp code) {n : Nat} {target : Target}
    (hn : code[n]? = some (.allocCall b k result))
    (hadd : inp.addBarriers b k .alloc = some target) :
    code[n + 1]? = some (.barrier target (.reg result)) := by
  induction code generalizing n with
  | nil => simp at hn
  | cons item code ih =>
      have hrest : Guarded inp code := by
        cases item <;> first | exact h | exact h.2
      cases n with
      | zero =>
          obtain rfl := Option.some.inj hn
          rw [List.getElem?_cons_succ, ← List.head?_eq_getElem?]
          exact h.1 target hadd
      | succ n => exact ih hrest hn

end Expansion

theorem original_of_mem_codeOrder {ir : Ir} {item : Item} (h : item ∈ codeOrder ir) :
    item.Original := by
  obtain ⟨b, -, hitem⟩ := List.mem_flatMap.1 h
  simp only [blockItems, List.mem_append, List.mem_cons, List.mem_map, List.not_mem_nil,
    or_false] at hitem
  rcases hitem with (rfl | ⟨p, -, rfl⟩) | rfl <;> trivial

/-- The instructions in the code are those of the IR. -/
theorem mem_codeOrder {ir : Ir} {b k : Nat} {i : Instr} :
    .inst b k i ∈ codeOrder ir ↔ ir.inst b k = some i := by
  have hblock : ∀ b', .inst b k i ∈ blockItems ir b' ↔ b' = b ∧ ir.inst b k = some i := by
    intro b'
    simp only [blockItems, List.mem_append, List.mem_cons, List.mem_map, reduceCtorEq,
      List.not_mem_nil, or_false, false_or, Item.inst.injEq, Prod.exists,
      List.mk_mem_zipIdx_iff_getElem?]
    constructor
    · rintro ⟨i', k', hk, rfl, rfl, rfl⟩
      exact ⟨rfl, hk⟩
    · rintro ⟨rfl, hi⟩
      exact ⟨i, k, hi, rfl, rfl, rfl⟩
  simp only [codeOrder, List.mem_flatMap, hblock, List.mem_range]
  constructor
  · rintro ⟨b', -, -, hi⟩
    exact hi
  · intro hi
    exact ⟨b, Ir.lt_of_inst hi, rfl, hi⟩

/-! ## Executions of the expanded code -/

/-- A state of an execution: the block and the position in the code, the registers, and the
objects whose label slots still are `null` though their allocation has a barrier method. -/
structure OutState where
  block : Nat
  pc : Nat
  regs : Register → Option Obj
  bare : List Obj

/-- A step: the next instruction completes, with results and a new object left open, control
leaves the end of the block, or the next instruction throws. -/
inductive OutAction
  | exec (values : Register → Option Obj) (obj : Obj)
  | jump (target : Nat)
  | throw (handler : Nat)

/-- The label of the block. -/
def Item.isLabel (b : Nat) : Item → Bool
  | .label b' => b' = b
  | _ => false

/-- The instruction may throw to a handler. -/
def Item.throws : Item → Bool
  | .inst _ _ i => i.isPei
  | .allocCall _ _ _ => true
  | .barrier _ _ => true
  | _ => false

namespace Input

variable (inp : Input)

/-- Go to a block. -/
def goto (s : OutState) (b : Nat) : OutState :=
  { s with block := b, pc := inp.perform.findIdx (·.isLabel b) }

/-- The next instruction completes; the end of a block does not. -/
def complete (s : OutState) (values : Register → Option Obj) (obj : Obj) :
    Item → Option OutState
  | .allocCall b k result =>
      some { s with
        pc := s.pc + 1
        regs := fun r => if r = result then some obj else s.regs r
        bare := if (inp.addBarriers b k .alloc).isSome then obj :: s.bare else s.bare }
  | .barrier target param =>
      some { s with
        pc := s.pc + 1
        bare := if target.isAlloc then s.bare.filter fun o => param.eval s.regs ≠ some o
          else s.bare }
  | .inst _ _ i => some { s with pc := s.pc + 1, regs := assign i values s.regs }
  | .label _ => some { s with pc := s.pc + 1 }
  | .tibMove => some { s with pc := s.pc + 1 }
  | .bbend _ => none

/-- One step. -/
def outStep (s : OutState) : OutAction → Option OutState
  | .exec values obj => inp.perform[s.pc]?.bind (inp.complete s values obj)
  | .jump target =>
      match inp.perform[s.pc]? with
      | some (.bbend b) =>
          if target ∈ (inp.ir.blocks[b]?.map Block.normalOut).getD [] then
            some (inp.goto s target)
          else none
      | _ => none
  | .throw handler =>
      match inp.perform[s.pc]? with
      | some item =>
          if item.throws ∧
              handler ∈ (inp.ir.blocks[s.block]?.map Block.exceptionalOut).getD [] then
            some (inp.goto s handler)
          else none
      | none => none

/-- The start of an execution. -/
def outStart (regs : Register → Option Obj) : OutState := ⟨0, 0, regs, []⟩

/-- No allocation barrier throws to a handler. -/
def AllocBarriersReturn (s : OutState) : OutAction → Prop
  | .throw _ => ∀ target param, inp.perform[s.pc]? = some (.barrier target param) →
      target.isAlloc = false
  | _ => True

/-- No read or write barrier comes next on an object whose slots are `null`. -/
def SlotsReady (s : OutState) : Prop :=
  ∀ target param o, inp.perform[s.pc]? = some (.barrier target param) →
    target.isAlloc = false → param.eval s.regs = some o → o ∉ s.bare

/-- There is no object with `null` slots, or one, whose allocation barrier comes next. -/
def BareGuarded (s : OutState) : Prop :=
  s.bare = [] ∨ ∃ target r o, inp.perform[s.pc]? = some (.barrier target (.reg r)) ∧
    target.isAlloc = true ∧ s.regs r = some o ∧ s.bare = [o]

variable {inp} {s s' : OutState}

theorem BareGuarded.slotsReady (h : inp.BareGuarded s) : inp.SlotsReady s := by
  intro target param o hitem htarget ho hmem
  rcases h with hnil | ⟨target', r, o', hitem', htarget', -⟩
  · rw [hnil] at hmem
    exact absurd hmem List.not_mem_nil
  · obtain ⟨rfl, -⟩ := Item.barrier.inj (Option.some.inj (hitem.symm.trans hitem'))
    rw [htarget] at htarget'
    cases htarget'

/-- Before any instruction but an allocation barrier no object has `null` slots. -/
theorem BareGuarded.bare_eq_nil (h : inp.BareGuarded s) {item : Item}
    (hitem : inp.perform[s.pc]? = some item)
    (hne : ∀ target param, item = .barrier target param → target.isAlloc = false) :
    s.bare = [] := by
  rcases h with hnil | ⟨target, r, o, hbarrier, htarget, -⟩
  · exact hnil
  · have hfalse := hne target (.reg r) (Option.some.inj (hitem.symm.trans hbarrier))
    rw [htarget] at hfalse
    cases hfalse

theorem BareGuarded.complete (h : inp.BareGuarded s) (hguarded : Guarded inp inp.perform)
    {item : Item} (hitem : inp.perform[s.pc]? = some item) {values : Register → Option Obj}
    {obj : Obj} (hstep : inp.complete s values obj item = some s') : inp.BareGuarded s' := by
  cases item with
  | allocCall b k result =>
      obtain rfl := Option.some.inj hstep
      have hbare : s.bare = [] := h.bare_eq_nil hitem nofun
      cases hadd : inp.addBarriers b k .alloc with
      | none => exact Or.inl (by simpa [hadd] using hbare)
      | some target =>
          refine Or.inr ⟨target, result, obj, hguarded.getElem? hitem hadd, ?_, ?_, ?_⟩
          · rw [isAlloc_addBarriers hadd]
            rfl
          · simp
          · simp [hbare]
  | barrier target param =>
      obtain rfl := Option.some.inj hstep
      refine Or.inl ?_
      rcases h with hnil | ⟨target', r, o, hitem', htarget, ho, hbare⟩
      · simp [hnil]
      · obtain ⟨rfl, rfl⟩ := Item.barrier.inj (Option.some.inj (hitem.symm.trans hitem'))
        simp [htarget, hbare, Operand.eval, ho]
  | inst b k i =>
      obtain rfl := Option.some.inj hstep
      exact Or.inl (h.bare_eq_nil hitem nofun)
  | label b =>
      obtain rfl := Option.some.inj hstep
      exact Or.inl (h.bare_eq_nil hitem nofun)
  | tibMove =>
      obtain rfl := Option.some.inj hstep
      exact Or.inl (h.bare_eq_nil hitem nofun)
  | bbend b => cases hstep

theorem BareGuarded.outStep (h : inp.BareGuarded s) (hguarded : Guarded inp inp.perform)
    {a : OutAction} (hreturn : inp.AllocBarriersReturn s a) (hstep : inp.outStep s a = some s') :
    inp.BareGuarded s' := by
  cases a with
  | exec values obj =>
      obtain ⟨item, hitem, hcomplete⟩ := Option.bind_eq_some_iff.1 hstep
      exact h.complete hguarded hitem hcomplete
  | jump target =>
      rw [Input.outStep] at hstep
      split at hstep
      · rename_i b hitem
        split at hstep
        · obtain rfl := Option.some.inj hstep
          exact Or.inl (h.bare_eq_nil hitem nofun)
        · cases hstep
      · cases hstep
  | throw handler =>
      rw [Input.outStep] at hstep
      split at hstep
      · rename_i item hitem
        split at hstep
        · obtain rfl := Option.some.inj hstep
          refine Or.inl (h.bare_eq_nil hitem ?_)
          rintro target param rfl
          exact hreturn target param hitem
        · cases hstep
      · cases hstep

/-- With a barrier behind every allocation, no execution meets `null` slots unless an allocation
barrier throws to a handler. -/
theorem slotsReady_of_run (hguarded : Guarded inp inp.perform) {regs : Register → Option Obj}
    {actions : List OutAction}
    (hrun : Run inp.outStep inp.AllocBarriersReturn (outStart regs) actions s) :
    inp.SlotsReady s := by
  refine BareGuarded.slotsReady (Run.invariant (P := inp.BareGuarded) (Or.inl rfl) ?_ hrun)
  intro s a s' hs hreturn hstep
  exact hs.outStep hguarded hreturn hstep

/-! ## When the barriers are kept -/

/-- The result of no allocation with a barrier method is available in front of it. -/
def FreshResults (inp : Input) : Prop :=
  ∀ b k i result, inp.ir.inst b k = some i → i.allocResult = some result →
    (inp.addBarriers b k .alloc).isSome = true →
      ¬ Available (.early true) inp.ir result b k ∧ ¬ Available (.early false) inp.ir result b k

/-- An allocation is redundant if its result is available. -/
theorem redundant_alloc_iff {b k : Nat} {i : Instr} {result : Register}
    (helim : inp.options.difcNoRedundancyElimination = false) (hi : inp.ir.inst b k = some i)
    (hresult : i.allocResult = some result) :
    inp.redundant b k = false ↔
      ¬ Available (.early true) inp.ir result b k ∧
        ¬ Available (.early false) inp.ir result b k := by
  have hpass : ∀ reads, (b, k) ∈ computeRedundantBarriers (.early reads) inp.ir ↔
      Available (.early reads) inp.ir result b k := by
    intro reads
    have huse : (Pass.early reads).useOperand i = some (.reg result, true) := by
      cases i <;> cases hresult <;> cases reads <;> rfl
    rw [mem_computeRedundantBarriers_iff]
    simp [hi, Redundant, huse]
  rw [Input.redundant, helim, if_neg Bool.false_ne_true, decide_eq_false_iff_not, fullRedInsts,
    Finset.mem_union, hpass, hpass, not_or]

/-- The barriers of an allocation in the output. -/
theorem allocBarriersAt_perform {b k : Nat} {i : Instr} {result : Register}
    (hi : inp.ir.inst b k = some i) (hresult : i.allocResult = some result) :
    allocBarriersAt b k inp.perform =
      ((inp.barrierMethod [] b k .alloc).map fun target => (target, .reg result)).toList := by
  rw [perform_eq]
  exact allocBarriersAt_flatMap (fun item hmem => original_of_mem_codeOrder hmem)
    (nodup_codeOrder inp.ir) (mem_codeOrder.2 hi) hresult

end Input

/-- **When the optimizing compiler keeps every allocation barrier.**  Every allocation with a
barrier method is followed by exactly one barrier on its result, and no execution whose
allocation barriers do not throw to a handler brings an object with `null` slots to a read or
write barrier, exactly if the result of no such allocation is available in front of it, for reads
or for writes. -/
theorem allocBarriers_kept_iff (inp : Input)
    (helim : inp.options.difcNoRedundancyElimination = false) :
    ((∀ b k i result target, inp.ir.inst b k = some i → i.allocResult = some result →
        inp.addBarriers b k .alloc = some target →
          allocBarriersAt b k inp.perform = [(target, .reg result)]) ∧
      ∀ regs actions s, Run inp.outStep inp.AllocBarriersReturn (Input.outStart regs) actions s →
        inp.SlotsReady s) ↔
    inp.FreshResults := by
  constructor
  · rintro ⟨hbarriers, -⟩ b k i result hi hresult hsome
    obtain ⟨target, hadd⟩ := Option.isSome_iff_exists.1 hsome
    have hat := hbarriers b k i result target hi hresult hadd
    rw [Input.allocBarriersAt_perform hi hresult] at hat
    rw [← Input.redundant_alloc_iff helim hi hresult]
    cases hmethod : inp.barrierMethod [] b k .alloc with
    | none => simp [hmethod] at hat
    | some target' => exact (barrierMethod_nil.1 hmethod).2
  · intro hfresh
    have hkept : ∀ b k i result target, inp.ir.inst b k = some i →
        i.allocResult = some result → inp.addBarriers b k .alloc = some target →
          inp.barrierMethod [] b k .alloc = some target := by
      intro b k i result target hi hresult hadd
      refine barrierMethod_nil.2 ⟨hadd, (Input.redundant_alloc_iff helim hi hresult).2 ?_⟩
      exact hfresh b k i result hi hresult (by rw [hadd]; rfl)
    refine ⟨fun b k i result target hi hresult hadd => ?_, fun regs actions s hrun => ?_⟩
    · rw [Input.allocBarriersAt_perform hi hresult, hkept b k i result target hi hresult hadd]
      rfl
    · refine Input.slotsReady_of_run ?_ hrun
      rw [perform_eq]
      refine guarded_flatMap (fun item hmem => original_of_mem_codeOrder hmem) ?_
      intro b k i result target hmem hresult hadd
      exact hkept b k i result target (mem_codeOrder.1 hmem) hresult hadd

/-! ## Two methods -/

/-- The default options, for code of an instrumented method. -/
def instrumentedMethod (ir : Ir) : Input where
  ir := ir
  origin := fun _ _ => some ⟨true, false⟩
  unresolved := fun _ _ => false
  options := ⟨⟨true, false, false⟩, false, false, true⟩

/-- Allocate an object and read one of its fields. -/
def allocAndRead : Input :=
  instrumentedMethod ⟨[⟨[.new 1, .getField 2 (.reg 1)], [], []⟩], by decide⟩

/-- The barrier of the allocation is kept. -/
theorem allocAndRead_kept :
    allocBarriersAt 0 0 allocAndRead.perform = [(.difcAllocBarrierDynamicMethod, .reg 1)] := by
  have hempty : allocAndRead.fullRedInsts = ∅ := by decide +kernel
  have hfresh : allocAndRead.FreshResults := fun b k i result hi hresult _ =>
    (Input.redundant_alloc_iff rfl hi hresult).1 (by simp [Input.redundant, hempty])
  exact ((allocBarriers_kept_iff allocAndRead rfl).2 hfresh).1 0 0 (.new 1) 1 _ rfl rfl rfl

/-- Read a field of register 1, allocate an object in register 1, and read a field of it. -/
def readAllocRead : Input :=
  instrumentedMethod
    ⟨[⟨[.getField 2 (.reg 1), .new 1, .getField 3 (.reg 1)], [], []⟩], by decide⟩

private theorem readAllocRead_perform : readAllocRead.perform =
    [.label 0, .barrier (.difcReadBarrierMethod .dynamic) (.reg 1),
      .inst 0 0 (.getField 2 (.reg 1)), .tibMove, .allocCall 0 1 1,
      .barrier (.difcReadBarrierMethod .dynamic) (.reg 1), .inst 0 2 (.getField 3 (.reg 1)),
      .bbend 0] := by
  have hfirst : readAllocRead.redundant 0 0 = false := by decide +kernel
  have halloc : readAllocRead.redundant 0 1 = true := by decide +kernel
  have hlast : readAllocRead.redundant 0 2 = false := by decide +kernel
  have hread : ∀ k, readAllocRead.addBarriers 0 k .read = some (.difcReadBarrierMethod .dynamic) :=
    fun _ => rfl
  have hcode : codeOrder readAllocRead.ir = [.label 0, .inst 0 0 (.getField 2 (.reg 1)),
      .inst 0 1 (.new 1), .inst 0 2 (.getField 3 (.reg 1)), .bbend 0] := rfl
  rw [perform_eq, hcode]
  simp [expandItem, expandAccess, expandAlloc, Input.barrierMethod, hfirst, halloc, hlast, hread]
  cases readAllocRead.addBarriers 0 1 .alloc <;> rfl

/-- The allocation gets no barrier, since register 1 was checked before, and the read barrier
that follows meets an object with `null` slots. -/
theorem readAllocRead_dropped :
    readAllocRead.ir.inst 0 1 = some (.new 1) ∧
    readAllocRead.addBarriers 0 1 .alloc = some .difcAllocBarrierDynamicMethod ∧
    allocBarriersAt 0 1 readAllocRead.perform = [] ∧
    ∃ actions s, Run readAllocRead.outStep (fun _ _ => True) (Input.outStart fun _ => none)
        actions s ∧
      readAllocRead.perform[s.pc]? =
        some (.barrier (.difcReadBarrierMethod .dynamic) (.reg 1)) ∧
      s.regs 1 = some 7 ∧ 7 ∈ s.bare := by
  have hperform := readAllocRead_perform
  have hexec : ∀ (s : OutState) (item : Item) (s' : OutState),
      readAllocRead.perform[s.pc]? = some item →
      readAllocRead.complete s (fun _ => none) 7 item = some s' →
      readAllocRead.outStep s (.exec (fun _ => none) 7) = some s' := by
    intro s item s' hitem hcomplete
    rw [Input.outStep, hitem]
    exact hcomplete
  -- what the first read leaves in the registers
  let regs := assign (.getField 2 (.reg 1)) (fun _ => none) fun _ => none
  have hlabel := hexec ⟨0, 0, fun _ => none, []⟩ (.label 0) ⟨0, 1, fun _ => none, []⟩
    (by rw [hperform]; rfl) rfl
  have hbarrier := hexec ⟨0, 1, fun _ => none, []⟩
    (.barrier (.difcReadBarrierMethod .dynamic) (.reg 1)) ⟨0, 2, fun _ => none, []⟩
    (by rw [hperform]; rfl) rfl
  have hread := hexec ⟨0, 2, fun _ => none, []⟩ (.inst 0 0 (.getField 2 (.reg 1)))
    ⟨0, 3, regs, []⟩ (by rw [hperform]; rfl) rfl
  have hmove := hexec ⟨0, 3, regs, []⟩ .tibMove ⟨0, 4, regs, []⟩ (by rw [hperform]; rfl) rfl
  have halloc := hexec ⟨0, 4, regs, []⟩ (.allocCall 0 1 1)
    ⟨0, 5, fun r => if r = 1 then some 7 else regs r, [7]⟩ (by rw [hperform]; rfl) rfl
  have hrun : Run readAllocRead.outStep (fun _ _ => True) (Input.outStart fun _ => none) _ _ :=
    .snoc (.snoc (.snoc (.snoc (.snoc .nil trivial hlabel) trivial hbarrier) trivial hread)
      trivial hmove) trivial halloc
  refine ⟨rfl, rfl, by rw [hperform]; rfl, _, _, hrun, by rw [hperform]; rfl, rfl, ?_⟩
  exact List.mem_singleton_self 7

end Laminar.Opt
