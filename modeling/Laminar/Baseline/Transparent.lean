import Laminar.Baseline.Correct

/-!
# Barriers that pass change nothing

The options `difcNoReadOrWriteBarriers` and `difcNoStaticOrAllocBarriers` of class `VM` take some
of the barriers out of the code.  A method is compared here with the same method without the
barriers in `gone`.  The two run in two virtual machines that answer alike: these barriers leave
the heap alone, and at moments with the same past but for these barriers the same calls have the
same effect and the timer has set the same flag.  Then the two methods do the same, except that a
barrier may throw.

The bytecodes of the two methods go in step (`mirrors_bytecodeStep`), although their code does
not: the result for the code comes from `leads_of_represents`, used on both sides.
-/

namespace Laminar.Baseline

open Laminar.Lib
open Laminar.Vm (BarrierType BarrierMethod BarrierOptions)

variable {B : Type}

/-! ## Without some barriers -/

/-- The compiler without the barriers in `gone`. -/
def Compiler.without (cc : Compiler B) (gone : B → Bool) : Compiler B :=
  { cc with addBarriers := fun type => (cc.addBarriers type).filter fun method => !gone method }

/-- The event is no call of a barrier in `gone`. -/
def Event.kept (gone : B → Bool) : Event B → Bool
  | .call (.barrier method) _ => !gone method
  | _ => true

/-- Forget the calls of barriers in `gone`. -/
def World.erase (gone : B → Bool) (w : World B) : World B :=
  { w with trace := w.trace.filter (Event.kept gone) }

def Stop.erase (gone : B → Bool) (e : Stop B) : Stop B :=
  { e with trace := e.trace.filter (Event.kept gone) }

def Frame.erase (gone : B → Bool) (f : Frame B) : Frame B :=
  { f with world := f.world.erase gone }

def Activation.erase (gone : B → Bool) (s : Activation B) : Activation B :=
  { s with frame := s.frame.erase gone }

/-- One of the barriers has thrown. -/
def Excused (gone : B → Bool) (e : Stop B) : Prop :=
  ∃ method, gone method = true ∧ e.reason = .threw (.barrier method)

/-- Two virtual machines answer alike, but for the barriers in `gone`, which the second one is not
asked for and which leave the heap of the first one alone. -/
structure AnswersAlike (rt rt' : Runtime B) (gone : B → Bool) : Prop where
  heap : ∀ trace heap method args result heap', gone method = true →
    rt.reply trace heap (.barrier method) args = .returned result heap' → heap' = heap
  reply : ∀ trace heap target args, (Event.call target args).kept gone = true →
    rt'.reply (trace.filter (Event.kept gone)) heap target args = rt.reply trace heap target args
  takeYieldpoint : ∀ trace,
    rt'.takeYieldpoint (trace.filter (Event.kept gone)) = rt.takeYieldpoint trace

namespace Compiler

variable {cc : Compiler B} {rt rt' : Runtime B} {gone : B → Bool} {w : World B}

/-- The outcomes of the two methods agree, or a barrier has thrown. -/
abbrev Agrees {α β : Type} (gone : B → Bool) (view : α → β) :
    Except (Stop B) α → Except (Stop B) β → Prop :=
  Mirrors (Excused gone) (Stop.erase gone) view

theorem addBarriers_without (type : BarrierType) :
    (cc.without gone).addBarriers type =
      (cc.addBarriers type).filter fun method => !gone method := rfl

/-! ## Single events -/

theorem filter_kept {trace : List (Event B)} {e : Event B} (he : e.kept gone = true) :
    (trace ++ [e]).filter (Event.kept gone) = trace.filter (Event.kept gone) ++ [e] := by
  simp [he]

theorem memberOffset_erase (w : World B) (id : Word) :
    (w.erase gone).memberOffset id =
      ((w.memberOffset id).1, (w.memberOffset id).2.erase gone) := by
  simp only [World.memberOffset, World.erase]
  rw [filter_kept rfl]

theorem erase_countBranch (bi : Nat) (taken : Bool) (w : World B) :
    (cc.countBranch bi taken w).erase gone =
      (cc.without gone).countBranch bi taken (w.erase gone) := by
  rw [countBranch, countBranch]
  show _ = if cc.hasCounterArray then increment (cc.edgeCounterIdx bi + edge taken) _ else _
  split
  · rw [increment, increment]
    show _ = if (w.heap.edgeCounters _ + 1).msb then _ else _
    split <;> rfl
  · rfl

section Events

variable (hrt : AnswersAlike rt rt' gone)

include hrt

theorem agrees_call {target : Target B} {args : List Word}
    (hkept : (Event.call target args).kept gone = true) :
    Agrees gone (fun p => (p.1, p.2.erase gone)) (w.call rt target args)
      ((w.erase gone).call rt' target args) := by
  rw [World.call, World.call]
  have hreply := hrt.reply w.trace w.heap target args hkept
  cases hcase : rt.reply w.trace w.heap target args with
  | returned result heap =>
      rw [hcase] at hreply
      simp only [Mirrors, World.erase, hreply, filter_kept hkept]
  | threw heap =>
      rw [hcase] at hreply
      refine .inr ?_
      simp only [World.erase, Stop.erase, hreply, filter_kept hkept]

theorem agrees_callVoid {target : Target B} {args : List Word}
    (hkept : (Event.call target args).kept gone = true) :
    Agrees gone (World.erase gone) (callVoid rt target args w)
      (callVoid rt' target args (w.erase gone)) :=
  (agrees_call hrt hkept).bind fun _ => rfl

theorem agrees_callForWord {target : Target B} {args : List Word}
    (hkept : (Event.call target args).kept gone = true) :
    Agrees gone (fun p => (p.1, p.2.erase gone)) (callForWord rt target args w)
      (callForWord rt' target args (w.erase gone)) :=
  (agrees_call hrt hkept).bind fun _ => rfl

/-- A barrier that is gone has no trace, or it throws. -/
theorem agrees_barrier {type : BarrierType} {arg : Word} :
    Agrees gone (World.erase gone) (cc.barrier rt type arg w)
      ((cc.without gone).barrier rt' type arg (w.erase gone)) := by
  rw [barrier, barrier, addBarriers_without]
  cases cc.addBarriers type with
  | none => rfl
  | some method =>
      cases hgone : gone method with
      | false =>
          simp only [Option.filter_some, hgone, Bool.not_false, ↓reduceIte]
          refine agrees_callVoid hrt ?_
          rw [Event.kept, hgone]
          rfl
      | true =>
          simp only [Option.filter_some, hgone, Bool.not_true, Bool.false_eq_true, ↓reduceIte]
          show Mirrors _ _ _ (w.call rt (.barrier method) [arg] >>= _) _
          rw [World.call]
          cases hcase : rt.reply w.trace w.heap (.barrier method) [arg] with
          | threw heap => exact .inl ⟨method, hgone, rfl⟩
          | returned result heap =>
              obtain rfl := hrt.heap _ _ _ _ _ _ hgone hcase
              show Except.ok _ = Except.ok _
              simp [World.erase, Event.kept, hgone]

theorem agrees_modifyCheck {ref : Word} :
    Agrees gone (World.erase gone) (cc.modifyCheck rt ref w)
      ((cc.without gone).modifyCheck rt' ref (w.erase gone)) := by
  rw [modifyCheck, modifyCheck]
  show Mirrors _ _ _ _ (if cc.extremeAssertions then _ else _)
  split
  · exact agrees_callVoid hrt rfl
  · rfl

theorem agrees_link {f : FieldReference} :
    Agrees gone (fun p => (p.1, p.2.erase gone)) (link rt f w) (link rt' f (w.erase gone)) := by
  rw [link, link]
  split
  · rfl
  · rw [memberOffset_erase]
    dsimp only
    split
    · refine (agrees_callVoid hrt rfl).bind fun w' => ?_
      rw [memberOffset_erase]
      rfl
    · rfl

theorem takeYieldpoint_erase :
    (w.erase gone).takeYieldpoint rt' =
      ((w.takeYieldpoint rt).1, (w.takeYieldpoint rt).2.erase gone) := by
  simp only [World.takeYieldpoint, World.erase, hrt.takeYieldpoint]
  rw [filter_kept rfl]

theorem agrees_yieldpoint {bi target : Nat} :
    Agrees gone (World.erase gone) (cc.yieldpoint rt bi target w)
      ((cc.without gone).yieldpoint rt' bi target (w.erase gone)) := by
  rw [yieldpoint, yieldpoint, takeYieldpoint_erase hrt]
  show Mirrors _ _ _ _ (if target ≤ bi ∧ cc.isInterruptible = true then _ else _)
  split
  · dsimp only
    split
    · rfl
    · exact agrees_callVoid hrt rfl
  · rfl

end Events

section Accesses

variable {ref a : Word}

theorem agrees_access {event : Word → Event B} (hkept : (event ref).kept gone = true) :
    Agrees gone (World.erase gone) (w.access event ref) ((w.erase gone).access event ref) := by
  rw [World.access, World.access]
  split
  · exact .inr rfl
  · simp only [Mirrors, World.erase, filter_kept hkept]

theorem agrees_load {move : Move} :
    Agrees gone (fun p => (p.1, p.2.erase gone)) (w.load move ref a)
      ((w.erase gone).load move ref a) :=
  (agrees_access rfl).bind fun _ => rfl

theorem agrees_header :
    Agrees gone (fun p => (p.1, p.2.erase gone)) (w.header ref a)
      ((w.erase gone).header ref a) :=
  (agrees_access rfl).bind fun _ => rfl

theorem agrees_store {size : Size} {v : Word} :
    Agrees gone (World.erase gone) (w.store size ref a v)
      ((w.erase gone).store size ref a v) :=
  (agrees_access rfl).bind fun _ => rfl

theorem agrees_storeQuad {v : Word × Word} :
    Agrees gone (World.erase gone) (w.storeQuad ref a v)
      ((w.erase gone).storeQuad ref a v) :=
  (agrees_access rfl).bind fun _ => rfl

theorem agrees_loadWord {move : Move} :
    Agrees gone (fun p => (p.1, p.2.erase gone)) (loadWord move ref a w)
      (loadWord move ref a (w.erase gone)) :=
  agrees_load.bind fun _ => rfl

theorem agrees_loadQuad :
    Agrees gone (fun p => (p.1, p.2.erase gone)) (loadQuad ref a w)
      (loadQuad ref a (w.erase gone)) := by
  have hquad : Agrees gone (fun p => (p.1, p.2.erase gone)) (w.loadQuad ref a)
      ((w.erase gone).loadQuad ref a) := (agrees_access rfl).bind fun _ => rfl
  exact hquad.bind fun _ => rfl

theorem agrees_loadPair :
    Agrees gone (fun p => (p.1, p.2.erase gone)) (loadPair ref a w)
      (loadPair ref a (w.erase gone)) :=
  agrees_load.bind fun _ => agrees_load.bind fun _ => rfl

theorem agrees_storePair {low high : Word} :
    Agrees gone (World.erase gone) (storePair ref a low high w)
      (storePair ref a low high (w.erase gone)) :=
  agrees_store.bind fun _ => agrees_store

theorem agrees_checkBounds {index : Word} :
    Agrees gone (World.erase gone) (cc.checkBounds ref index w)
      ((cc.without gone).checkBounds ref index (w.erase gone)) := by
  rw [checkBounds, checkBounds]
  show Mirrors _ _ _ _ (if cc.generateBoundsChecks then _ else _)
  split
  · refine agrees_header.bind fun p => ?_
    dsimp only
    split
    · rfl
    · exact .inr rfl
  · rfl

end Accesses

/-! ## Bytecodes -/

section Bytecodes

variable (hrt : AnswersAlike rt rt' gone) {ref index low high v count : Word} {f : FieldReference}
  {k : ArrayKind}

include hrt

theorem agrees_arrayLoad :
    Agrees gone (fun p => (p.1, p.2.erase gone)) (cc.arrayLoad rt k ref index w)
      ((cc.without gone).arrayLoad rt' k ref index (w.erase gone)) := by
  refine (agrees_barrier hrt).bind fun w₁ => agrees_checkBounds.bind fun w₂ => ?_
  show Mirrors _ _ _ _ (if k = .reference ∧ cc.needsReadBarrier = true then _ else _)
  split
  · exact agrees_callForWord hrt rfl
  rw [loadElement, loadElement]
  show Mirrors _ _ _ _ (if k.wide then if cc.sse2Base then _ else _ else _)
  split
  · split
    · exact agrees_loadQuad
    · exact agrees_loadPair
  · exact agrees_loadWord

theorem agrees_arrayStoreWide :
    Agrees gone (World.erase gone) (cc.arrayStoreWide rt k ref index low high w)
      ((cc.without gone).arrayStoreWide rt' k ref index low high (w.erase gone)) := by
  refine (agrees_barrier hrt).bind fun w₁ => (agrees_modifyCheck hrt).bind fun w₂ => ?_
  refine agrees_checkBounds.bind fun w₃ => ?_
  show Mirrors _ _ _ _ (if cc.sse2Base then _ else _)
  split
  · exact agrees_storeQuad
  · exact agrees_storePair

theorem agrees_arrayStore :
    Agrees gone (World.erase gone) (cc.arrayStore rt k ref index v w)
      ((cc.without gone).arrayStore rt' k ref index v (w.erase gone)) := by
  refine (agrees_barrier hrt).bind fun w₁ => (agrees_modifyCheck hrt).bind fun w₂ => ?_
  split
  · refine (agrees_callVoid hrt rfl).bind fun w₃ => agrees_checkBounds.bind fun w₄ => ?_
    show Mirrors _ _ _ _ (if cc.needsWriteBarrier then _ else _)
    split
    · exact agrees_callVoid hrt rfl
    · exact agrees_store
  · exact agrees_checkBounds.bind fun w₃ => agrees_store

theorem agrees_getstatic :
    Agrees gone (fun p => (p.1, p.2.erase gone)) (cc.getstatic rt f w)
      ((cc.without gone).getstatic rt' f (w.erase gone)) := by
  refine (agrees_barrier hrt).bind fun w₁ => (agrees_link hrt).bind fun p => ?_
  dsimp only
  split
  · exact agrees_loadPair
  · exact agrees_loadWord

theorem agrees_putstatic :
    Agrees gone (World.erase gone) (cc.putstatic rt f low high w)
      ((cc.without gone).putstatic rt' f low high (w.erase gone)) := by
  refine (agrees_barrier hrt).bind fun w₁ => (agrees_link hrt).bind fun p => ?_
  dsimp only
  split
  · exact agrees_storePair
  · exact agrees_store

theorem agrees_getfield :
    Agrees gone (fun p => (p.1, p.2.erase gone)) (cc.getfield rt f ref w)
      ((cc.without gone).getfield rt' f ref (w.erase gone)) := by
  refine (agrees_barrier hrt).bind fun w₁ => (agrees_link hrt).bind fun p => ?_
  dsimp only
  rw [loadField, loadField]
  show Mirrors _ _ _ _ (if maybeTraced f = true ∧ cc.needsReadBarrier = true then _ else _)
  split
  · exact agrees_header.bind fun q => agrees_callForWord hrt rfl
  split
  · exact agrees_loadQuad
  · exact agrees_loadWord

theorem agrees_checkResolved :
    Agrees gone (World.erase gone) (cc.checkResolved rt f ref w)
      ((cc.without gone).checkResolved rt' f ref (w.erase gone)) := by
  rw [checkResolved, checkResolved]
  split
  · exact agrees_modifyCheck hrt
  · rfl

theorem agrees_storeField {offset : Word} :
    Agrees gone (World.erase gone) (cc.storeField rt f ref offset v w)
      ((cc.without gone).storeField rt' f ref offset v (w.erase gone)) := by
  rw [storeField, storeField]
  show Mirrors _ _ _ _ (if maybeTraced f = true ∧ cc.needsWriteBarrier = true then _ else _)
  split
  · exact agrees_header.bind fun p => agrees_callVoid hrt rfl
  · exact agrees_store

theorem agrees_putfield :
    Agrees gone (World.erase gone) (cc.putfield rt f ref low high w)
      ((cc.without gone).putfield rt' f ref low high (w.erase gone)) := by
  refine (agrees_barrier hrt).bind fun w₁ => (agrees_link hrt).bind fun p => ?_
  refine (agrees_checkResolved hrt).bind fun w₂ => ?_
  split
  · exact agrees_storeQuad
  · exact agrees_storeField hrt

theorem agrees_allocated {x y : Except (Stop B) (Word × World B)}
    (h : Agrees gone (fun p => (p.1, p.2.erase gone)) x y) :
    Agrees gone (fun p => (p.1, p.2.erase gone)) (x >>= cc.allocated rt)
      (y >>= (cc.without gone).allocated rt') :=
  h.bind fun _ => (agrees_barrier hrt).bind fun _ => rfl

theorem agrees_new {t : ClassReference} :
    Agrees gone (fun p => (p.1, p.2.erase gone)) (cc.new rt t w)
      ((cc.without gone).new rt' t (w.erase gone)) := by
  refine agrees_allocated hrt ?_
  cases t with
  | resolved instanceSize tibOffset hasFinalizer whichAllocator align offset =>
      exact agrees_header.bind fun _ => agrees_call hrt rfl
  | unresolved id => exact agrees_call hrt rfl

theorem agrees_newarray {t : ArrayReference} :
    Agrees gone (fun p => (p.1, p.2.erase gone)) (cc.newarray rt t count w)
      ((cc.without gone).newarray rt' t count (w.erase gone)) := by
  refine agrees_allocated hrt ?_
  cases t with
  | resolved width headerSize tibOffset whichAllocator align offset =>
      exact agrees_header.bind fun _ => agrees_call hrt rfl
  | unresolved id => exact agrees_call hrt rfl

/-- A bytecode does the same without the barriers. -/
theorem agrees_exec {bi : Nat} {frame : Frame B} (bytecode : Bytecode) :
    Agrees gone (fun q => (q.1, q.2.erase gone)) (cc.exec rt bi frame bytecode)
      ((cc.without gone).exec rt' bi (frame.erase gone) bytecode) := by
  obtain ⟨operands, locals, world⟩ := frame
  have hstuck : Agrees gone (fun q : Nat × Frame B => (q.1, q.2.erase gone))
      (stuck ⟨operands, locals, world⟩) (stuck ⟨operands, locals, world.erase gone⟩) := .inr rfl
  cases bytecode with
  | aconstNull | iconst val => rfl
  | iload i =>
      simp only [exec, Frame.erase]
      split
      · rfl
      · exact hstuck
  | istore i | pop =>
      rcases operands with _ | ⟨v, rest⟩
      · exact hstuck
      · rfl
  | iadd =>
      rcases operands with _ | ⟨b, _ | ⟨a, rest⟩⟩
      iterate 2 exact hstuck
      rfl
  | arrayLoad k =>
      rcases operands with _ | ⟨index, _ | ⟨ref, rest⟩⟩
      iterate 2 exact hstuck
      exact (agrees_arrayLoad hrt).bind fun _ => rfl
  | arrayStore k =>
      simp only [exec, Frame.erase]
      split
      · rcases operands with _ | ⟨low, _ | ⟨high, _ | ⟨index, _ | ⟨ref, rest⟩⟩⟩⟩
        iterate 4 exact hstuck
        exact (agrees_arrayStoreWide hrt).bind fun _ => rfl
      · rcases operands with _ | ⟨v, _ | ⟨index, _ | ⟨ref, rest⟩⟩⟩
        iterate 3 exact hstuck
        exact (agrees_arrayStore hrt).bind fun _ => rfl
  | getstatic field => exact (agrees_getstatic hrt).bind fun _ => rfl
  | putstatic field =>
      simp only [exec, Frame.erase]
      split
      · rcases operands with _ | ⟨low, _ | ⟨high, rest⟩⟩
        iterate 2 exact hstuck
        exact (agrees_putstatic hrt).bind fun _ => rfl
      · rcases operands with _ | ⟨v, rest⟩
        · exact hstuck
        · exact (agrees_putstatic hrt).bind fun _ => rfl
  | getfield field =>
      rcases operands with _ | ⟨ref, rest⟩
      · exact hstuck
      · exact (agrees_getfield hrt).bind fun _ => rfl
  | putfield field =>
      simp only [exec, Frame.erase]
      split
      · rcases operands with _ | ⟨low, _ | ⟨high, _ | ⟨ref, rest⟩⟩⟩
        iterate 3 exact hstuck
        exact (agrees_putfield hrt).bind fun _ => rfl
      · rcases operands with _ | ⟨v, _ | ⟨ref, rest⟩⟩
        iterate 2 exact hstuck
        exact (agrees_putfield hrt).bind fun _ => rfl
  | new t => exact (agrees_new hrt).bind fun _ => rfl
  | newarray t =>
      rcases operands with _ | ⟨count, rest⟩
      · exact hstuck
      · exact (agrees_newarray hrt).bind fun _ => rfl
  | multianewarray id dimensions =>
      exact (agrees_allocated hrt (agrees_call hrt rfl)).bind fun _ => rfl
  | arraylength =>
      rcases operands with _ | ⟨ref, rest⟩
      · exact hstuck
      · exact agrees_header.bind fun _ => rfl
  | goto target => exact (agrees_yieldpoint hrt).bind fun _ => rfl
  | ifeq target =>
      rcases operands with _ | ⟨v, rest⟩
      · exact hstuck
      · refine (agrees_yieldpoint hrt).bind fun w => congrArg Except.ok ?_
        rw [← erase_countBranch]
        rfl
  | ifIcmplt target =>
      rcases operands with _ | ⟨b, _ | ⟨a, rest⟩⟩
      iterate 2 exact hstuck
      refine (agrees_yieldpoint hrt).bind fun w => congrArg Except.ok ?_
      rw [← erase_countBranch]
      rfl
  | ireturn =>
      rcases operands with _ | ⟨v, rest⟩
      · exact hstuck
      · exact .inr rfl
  | return_ => exact .inr rfl

theorem agrees_bytecodeStep {code : List Bytecode} (s : Activation B) :
    Agrees gone (Activation.erase gone) (bytecodeStep cc rt code s)
      (bytecodeStep (cc.without gone) rt' code (s.erase gone)) := by
  cases hcode : code[s.bi]? with
  | none =>
      simp only [bytecodeStep, Activation.erase, hcode]
      exact .inr rfl
  | some bytecode =>
      have herase : code[(s.erase gone).bi]? = some bytecode := hcode
      rw [bytecodeStep_of_some hcode, bytecodeStep_of_some herase]
      exact (agrees_exec hrt bytecode).map fun _ => rfl

end Bytecodes

/-- The bytecodes fit as well without the barriers. -/
theorem Verified.without {code : List Bytecode} (h : cc.Verified code) :
    (cc.without gone).Verified code := by
  intro bi bytecode hbytecode
  obtain ⟨hpops, htarget, hindex⟩ := h bi bytecode hbytecode
  exact ⟨hpops, htarget, hindex⟩

theorem MovesExactly.without {code : List Bytecode} (h : cc.MovesExactly code) :
    (cc.without gone).MovesExactly code :=
  ⟨h.sse2, h.check⟩

end Compiler

/-! ## Compiled methods -/

/-- **Barriers that pass do not change what a method does.**  Compile a method with all its
barriers and without those in `gone`, and run the two in virtual machines that answer alike.  If
the first code stops, then one of these barriers has thrown, or the second code stops for the same
reason, with the same heap and after the same events, but for the calls of the barriers.  If the
second code stops, the first one stops in the same way or because one of its barriers throws.  The
registers may differ on entry, and the build must move the 64-bit fields of the method as they
are. -/
theorem barriers_transparent {cc : Compiler B} {rt rt' : Runtime B} {gone : B → Bool}
    {code : List Bytecode} {s : Activation B} {x y : Code.Place (Cpu B)}
    (hrt : AnswersAlike rt rt' gone) (hverified : cc.Verified code)
    (hexact : cc.MovesExactly code) (hx : Represents cc code s x)
    (hy : Represents (cc.without gone) code (s.erase gone) y) :
    (∀ n e, Code.steps (cc.machineStep rt code) n x = .error e →
      Excused gone e ∨
        ∃ k, Code.steps ((cc.without gone).machineStep rt' code) k y = .error (e.erase gone)) ∧
    ∀ n e', Code.steps ((cc.without gone).machineStep rt' code) n y = .error e' →
      ∃ k e, Code.steps (cc.machineStep rt code) k x = .error e ∧
        (Excused gone e ∨ e.erase gone = e') := by
  have hfull := Code.stops_iff_of_sim
    (fun _ _ hrep => leads_of_represents rt hverified hexact hrep) hx
  have hless := Code.stops_iff_of_sim
    (fun _ _ hrep => leads_of_represents rt' hverified.without hexact.without hrep) hy
  have hsteps : ∀ n, Compiler.Agrees gone (Activation.erase gone)
      (Code.steps (bytecodeStep cc rt code) n s)
      (Code.steps (bytecodeStep (cc.without gone) rt' code) n (s.erase gone)) :=
    fun n => Code.mirrors_steps (Compiler.agrees_bytecodeStep hrt) n s
  constructor
  · intro n e he
    obtain ⟨k, hk⟩ := (hfull e).1 ⟨n, he⟩
    have hmirror := hsteps k
    rw [hk] at hmirror
    rcases hmirror with hexcused | hstop
    · exact .inl hexcused
    · exact .inr ((hless _).2 ⟨k, hstop⟩)
  · intro n e' he'
    obtain ⟨k, hk⟩ := (hless e').1 ⟨n, he'⟩
    have hmirror := hsteps k
    rw [hk] at hmirror
    cases hfirst : Code.steps (bytecodeStep cc rt code) k s with
    | ok s' =>
        rw [hfirst] at hmirror
        cases hmirror
    | error e =>
        rw [hfirst] at hmirror
        obtain ⟨j, hj⟩ := (hfull e).2 ⟨k, hfirst⟩
        refine ⟨j, e, hj, ?_⟩
        rcases hmirror with hexcused | hstop
        · exact .inl hexcused
        · exact .inr (Except.error.inj hstop).symm

/-- The barriers that `difcNoReadOrWriteBarriers` takes out. -/
def readOrWrite : BarrierMethod → Bool
  | .readBarrierDynamic | .writeBarrierDynamic | .readBarrierInsideSR | .writeBarrierInsideSR
  | .readBarrierOutsideSR | .writeBarrierOutsideSR => true
  | _ => false

/-- The option takes these barriers out and no others. -/
theorem addBarriers_noReadOrWrite (options : BarrierOptions) (instrumented flag : Bool)
    (type : BarrierType) :
    Vm.addBarriers { options with difcNoReadOrWriteBarriers := true } instrumented flag type =
      (Vm.addBarriers { options with difcNoReadOrWriteBarriers := false } instrumented flag
        type).filter fun method => !readOrWrite method := by
  obtain ⟨dynamic, noStatic, noAccess⟩ := options
  cases instrumented <;> cases dynamic <;> cases noStatic <;> cases flag <;> cases type <;> rfl

/-- The compiler at `spin` with this option. -/
def spinUnchecked : Compiler BarrierMethod :=
  { spinCompiler with
    addBarriers := Vm.addBarriers { Vm.barrierOptions false with difcNoReadOrWriteBarriers := true }
      true false }

theorem spinCompiler_without : spinCompiler.without readOrWrite = spinUnchecked := by
  rw [Compiler.without, spinUnchecked]
  congr 1
  funext type
  exact (addBarriers_noReadOrWrite (Vm.barrierOptions false) true false type).symm

theorem idle_answersAlike : AnswersAlike idle idle readOrWrite where
  heap := by
    intro trace heap method args result heap' _ h
    cases h
    rfl
  reply := fun _ _ _ _ _ => rfl
  takeYieldpoint := fun _ => rfl

theorem spin_represents_without :
    Represents (spinCompiler.without readOrWrite) spin (spinStart.erase readOrWrite) spinEntry :=
  ⟨⟨by decide, rfl, rfl⟩, rfl, rfl, rfl, rfl⟩

theorem spin_transparent :
    Excused readOrWrite spinEnd ∨ ∃ k, Code.steps (spinUnchecked.machineStep idle spin) k
      spinEntry = .error (spinEnd.erase readOrWrite) :=
  spinCompiler_without ▸ (barriers_transparent idle_answersAlike spin_verified spin_movesExactly
    spin_represents spin_represents_without).1 30 spinEnd rfl

end Laminar.Baseline
