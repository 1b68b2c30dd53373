import Laminar.Vm.AddBarriers
import Laminar.Vm.Chain

/-!
# Barriers chosen at compile time

Without dynamic barriers the compilers choose, for every heap access and allocation,
between the barrier for code inside regions and the one for code outside.  They look at
the flag `staticallyInSecureRegion` of the method that the instruction comes from, also
where that method was inlined into another one.  `RuntimeCompiler.compile` sets the flag
when a method is first compiled, from an annotation or from the region of the thread that
needs the code.

The model keeps, for every method, its flag and its current code, and for every thread
its region and the code that its activations run.  Methods are compiled, recompiled,
invalidated and invoked in any order.  What the accesses do to the heap is left out: an
access names the reference and the labels of the object it finds.  Barriers are taken as they
are inserted, before any of them is removed as redundant, with assertions off and the other
options of class `VM` at their defaults.

The flag says where a method was when it was compiled and not where it runs, so the two
kinds of barriers differ on a method that runs both inside and outside of regions;
`static_barriers_of_run` says what a program has to observe.
-/

namespace Laminar.Vm

open Laminar.Lib

/-! ## Barrier methods -/

/-- Is it a barrier for code inside regions? -/
def BarrierMethod.insideSR : BarrierMethod → Bool
  | .readBarrierInsideSR | .writeBarrierInsideSR | .staticReadBarrierInsideSR
  | .staticWriteBarrierInsideSR | .allocBarrierInsideSR => true
  | _ => false

/-- The options with or without dynamic barriers, and the others at their defaults. -/
def barrierOptions (difcDynamicBarriers : Bool) : BarrierOptions :=
  ⟨difcDynamicBarriers, false, false⟩

/-- What the code does at a site: call the barrier, if there is one. -/
def callEmitted (labeledSpace : Space) (th : GreenThread) (obj : Referent)
    (barrier : Option BarrierMethod) : Outcome × ObjectLabels :=
  match barrier with
  | some method => method.call labeledSpace th obj
  | none => (.returned, obj.labels)

/-- The barrier of the dynamic configuration. -/
def BarrierType.callDynamic (labeledSpace : Space) (th : GreenThread) (obj : Referent)
    (type : BarrierType) : Outcome × ObjectLabels :=
  callEmitted labeledSpace th obj (addBarriers (barrierOptions true) true false type)

/-- Is a barrier for code inside regions emitted? -/
def emittedInside (barrier : Option BarrierMethod) : Bool := barrier.any BarrierMethod.insideSR

theorem emittedInside_addBarriers (flag : Bool) (type : BarrierType) :
    emittedInside (addBarriers (barrierOptions false) true flag type) = flag := by
  cases flag <;> cases type <;> rfl

/-- A barrier chosen for the region the thread is in does what the dynamic one does. -/
theorem callEmitted_addBarriers (labeledSpace : Space) (th : GreenThread) (obj : Referent)
    (type : BarrierType) :
    callEmitted labeledSpace th obj
        (addBarriers (barrierOptions false) true th.inSecureRegion type) =
      type.callDynamic labeledSpace th obj := by
  cases hin : th.inSecureRegion with
  | false =>
      cases type <;>
        simp [addBarriers, barrierOptions, BarrierType.staticOrAllocBarrier, callEmitted,
          BarrierMethod.call, BarrierType.callDynamic, GreenThread.readBarrierDynamic,
          GreenThread.writeBarrierDynamic, GreenThread.allocBarrierDynamic, hin]
  | true =>
      cases type <;>
        simp [addBarriers, barrierOptions, BarrierType.staticOrAllocBarrier, callEmitted,
          BarrierMethod.call, BarrierType.callDynamic, GreenThread.readBarrierDynamic,
          GreenThread.writeBarrierDynamic, GreenThread.allocBarrierDynamic, hin]

/-! ## Methods and their code -/

/-- What the compilers know of the methods of a program. -/
structure Program (M : Type) where
  /-- annotated with `@SecureMethod` -/
  secureMethod : M → Bool
  /-- `addBarriers(method)` -/
  instrumented : M → Bool
  /-- the heap accesses and allocations in the bytecode -/
  accesses : M → List BarrierType

/-- A heap access or allocation in compiled code, with the method it comes from and the
barrier that was emitted for it. -/
structure Site (M : Type) where
  method : M
  type : BarrierType
  barrier : Option BarrierMethod

/-- Compiled code, as the sites in it. -/
abbrev CompiledMethod (M : Type) := List (Site M)

/-- A method.  `firstContext` is not in the source: it records whether the thread for
which the method was first compiled was in a region. -/
structure MethodState (M : Type) where
  staticallyInSecureRegion : Bool
  currentCompiledMethod : Option (CompiledMethod M)
  firstContext : Option Bool

/-- The virtual machine. -/
structure Jvm (ι M : Type) where
  methods : M → MethodState M
  threads : ι → GreenThread
  /-- the code that the activations of a thread run, the newest first -/
  frames : ι → List (CompiledMethod M)

/-- A step. -/
inductive JvmStep (ι M : Type)
  /-- thread `t` needs the code of a method: `RuntimeCompiler.compile` -/
  | compile (t : ι) (m : M) (inlined : List M)
  /-- the adaptive system replaces the code of a method -/
  | recompile (m : M) (inlined : List M)
  /-- `invalidateCompiledMethod` -/
  | invalidate (m : M)
  | invoke (t : ι) (m : M)
  /-- the newest activation of `t` comes to its site `i`, with an object -/
  | access (t : ι) (i : Nat) (obj : Referent)
  /-- the newest activation of `t` ends -/
  | leave (t : ι)
  | difc (t : ι) (c : ThreadCall)

namespace Jvm

variable {ι M : Type} (p : Program M)

/-- Nothing has been compiled, and no thread has done anything. -/
def boot : Jvm ι M where
  methods := fun _ => ⟨false, none, none⟩
  threads := fun _ => .new
  frames := fun _ => []

/-- The code for a method with others inlined: every site has the barrier of its own
method. -/
def genCode (methods : M → MethodState M) (m : M) (inlined : List M) : CompiledMethod M :=
  (m :: inlined).flatMap fun q => (p.accesses q).map fun type =>
    ⟨q, type, addBarriers (barrierOptions false) (p.instrumented q)
      (methods q).staticallyInSecureRegion type⟩

section Step

variable [DecidableEq ι] [DecidableEq M]

/-- Change one method. -/
def setMethod (v : Jvm ι M) (m : M) (s : MethodState M) : Jvm ι M :=
  { v with methods := fun q => if q = m then s else v.methods q }

/-- `RuntimeCompiler.compile`, for a thread that is in a region or not. -/
def markMethod (s : MethodState M) (m : M) (inSecureRegion : Bool) : MethodState M :=
  { s with
    staticallyInSecureRegion := s.staticallyInSecureRegion ||
      (p.secureMethod m || (inSecureRegion && p.instrumented m))
    firstContext := some (s.firstContext.getD inSecureRegion) }

/-- One step; `none` if the machine is not at such a step. -/
def step (v : Jvm ι M) : JvmStep ι M → Option (Jvm ι M)
  | .compile t m inlined =>
      match (v.methods m).currentCompiledMethod with
      | some _ => some v
      | none =>
          let v := v.setMethod m (markMethod p (v.methods m) m (v.threads t).inSecureRegion)
          some (v.setMethod m { v.methods m with
            currentCompiledMethod := some (genCode p v.methods m inlined) })
  | .recompile m inlined =>
      some (v.setMethod m { v.methods m with
        currentCompiledMethod := some (genCode p v.methods m inlined) })
  | .invalidate m => some (v.setMethod m { v.methods m with currentCompiledMethod := none })
  | .invoke t m =>
      match (v.methods m).currentCompiledMethod with
      | some code =>
          some { v with frames := fun u => if u = t then code :: v.frames u else v.frames u }
      | none => none
  | .access t i _ =>
      match v.frames t with
      | code :: _ => if i < code.length then some v else none
      | [] => none
  | .leave t =>
      some { v with frames := fun u => if u = t then (v.frames u).tail else v.frames u }
  | .difc t c => some { v with threads := setThread v.threads t ((v.threads t).call c).2 }

end Step

/-! ## Methods with one context -/

/-- A method belongs inside regions: it is annotated, or it was first compiled for a thread
that was in a region. -/
def homeInside (v : Jvm ι M) (m : M) : Bool :=
  p.secureMethod m || (v.methods m).firstContext.getD false

/-- What a program has to observe.  A method is inlined, or its code replaced, only after it
has been compiled itself, a method that is compiled again is needed where it belongs, and
every access runs where its method belongs. -/
def OneContext (v : Jvm ι M) : JvmStep ι M → Prop
  | .compile t m inlined =>
      (v.methods m).currentCompiledMethod = none →
        (∀ q ∈ inlined, q ≠ m → p.instrumented q = true → (v.methods q).firstContext ≠ none) ∧
        ((v.methods m).firstContext ≠ none → (v.threads t).inSecureRegion = true →
          v.homeInside p m = true)
  | .recompile m inlined =>
      ∀ q ∈ m :: inlined, p.instrumented q = true → (v.methods q).firstContext ≠ none
  | .access t i _ =>
      ∀ code rest site, v.frames t = code :: rest → code[i]? = some site →
        p.instrumented site.method = true →
        (v.threads t).inSecureRegion = v.homeInside p site.method
  | _ => True

/-- The barriers of some code fit the flags of the methods its sites come from, and these
methods have been compiled. -/
def Fresh (v : Jvm ι M) (code : CompiledMethod M) : Prop :=
  ∀ site ∈ code, p.instrumented site.method = true →
    (v.methods site.method).firstContext ≠ none ∧
      site.barrier = addBarriers (barrierOptions false) true
        (v.methods site.method).staticallyInSecureRegion site.type

/-- The invariant of such runs. -/
structure Settled (v : Jvm ι M) : Prop where
  flag : ∀ m, p.instrumented m = true → (v.methods m).staticallyInSecureRegion =
    (v.methods m).firstContext.any fun context => p.secureMethod m || context
  current : ∀ m code, (v.methods m).currentCompiledMethod = some code → v.Fresh p code
  active : ∀ t, ∀ code ∈ v.frames t, v.Fresh p code

variable {p}

theorem settled_boot : (boot : Jvm ι M).Settled p where
  flag := fun _ _ => rfl
  current := by
    intro m code hcode
    cases hcode
  active := by
    intro t code hcode
    cases hcode

/-- The flag of a method that has been compiled says where the method belongs. -/
theorem Settled.flag_eq {v : Jvm ι M} (h : v.Settled p) {m : M}
    (hm : p.instrumented m = true) (hcompiled : (v.methods m).firstContext ≠ none) :
    (v.methods m).staticallyInSecureRegion = v.homeInside p m := by
  rw [h.flag m hm, homeInside]
  cases hctx : (v.methods m).firstContext with
  | none => exact absurd hctx hcompiled
  | some context => rfl

/-- Code stays fresh while the methods it comes from keep their flags. -/
theorem Fresh.mono {v v' : Jvm ι M} {code : CompiledMethod M} (h : v.Fresh p code)
    (hsame : ∀ q, p.instrumented q = true → (v.methods q).firstContext ≠ none →
      (v'.methods q).firstContext ≠ none ∧
      (v'.methods q).staticallyInSecureRegion = (v.methods q).staticallyInSecureRegion) :
    v'.Fresh p code := by
  intro site hsite hinst
  obtain ⟨hcompiled, hbarrier⟩ := h site hsite hinst
  obtain ⟨hcompiled', hflag⟩ := hsame site.method hinst hcompiled
  exact ⟨hcompiled', by rw [hflag]; exact hbarrier⟩

/-- New code is fresh. -/
theorem fresh_genCode {v : Jvm ι M} {m : M} {inlined : List M}
    (h : ∀ q ∈ m :: inlined, p.instrumented q = true → (v.methods q).firstContext ≠ none) :
    v.Fresh p (genCode p v.methods m inlined) := by
  intro site hsite hinst
  obtain ⟨q, hq, hsite⟩ := List.mem_flatMap.1 hsite
  obtain ⟨type, -, rfl⟩ := List.mem_map.1 hsite
  refine ⟨h q hq hinst, ?_⟩
  show addBarriers (barrierOptions false) (p.instrumented q) _ _ = _
  rw [show p.instrumented q = true from hinst]

variable [DecidableEq M]

@[simp] theorem methods_setMethod_self (v : Jvm ι M) (m : M) (s : MethodState M) :
    (v.setMethod m s).methods m = s := if_pos rfl

theorem methods_setMethod_ne (v : Jvm ι M) {m q : M} (s : MethodState M) (h : q ≠ m) :
    (v.setMethod m s).methods q = v.methods q := if_neg h

/-- A method changes: once it has been compiled it keeps its flag, and its code is fresh. -/
private theorem Settled.setMethod {v : Jvm ι M} (h : v.Settled p) {m : M} {s : MethodState M}
    (hflag : p.instrumented m = true → s.staticallyInSecureRegion =
      s.firstContext.any fun context => p.secureMethod m || context)
    (hkeep : p.instrumented m = true → (v.methods m).firstContext ≠ none →
      s.firstContext ≠ none ∧
      s.staticallyInSecureRegion = (v.methods m).staticallyInSecureRegion)
    (hcode : ∀ code, s.currentCompiledMethod = some code → (v.setMethod m s).Fresh p code) :
    (v.setMethod m s).Settled p := by
  have hmono : ∀ code, v.Fresh p code → (v.setMethod m s).Fresh p code := by
    intro code hfresh
    apply hfresh.mono
    intro q hq hcompiled
    by_cases hqm : q = m
    · subst hqm
      rw [methods_setMethod_self]
      exact hkeep hq hcompiled
    · rw [methods_setMethod_ne v s hqm]
      exact ⟨hcompiled, rfl⟩
  refine ⟨fun q hq => ?_, fun q code hcurrent => ?_, fun t code hactive => ?_⟩
  · by_cases hqm : q = m
    · subst hqm
      rw [methods_setMethod_self]
      exact hflag hq
    · rw [methods_setMethod_ne v s hqm]
      exact h.flag q hq
  · by_cases hqm : q = m
    · subst hqm
      rw [methods_setMethod_self] at hcurrent
      exact hcode code hcurrent
    · rw [methods_setMethod_ne v s hqm] at hcurrent
      exact hmono code (h.current q code hcurrent)
  · exact hmono code (h.active t code hactive)

/-- A method gets new code. -/
private theorem Settled.setCode {v : Jvm ι M} (h : v.Settled p) {m : M} {inlined : List M}
    (hcompiled : ∀ q ∈ m :: inlined, p.instrumented q = true →
      (v.methods q).firstContext ≠ none) :
    (v.setMethod m { v.methods m with
      currentCompiledMethod := some (genCode p v.methods m inlined) }).Settled p := by
  refine h.setMethod (h.flag m) (fun _ hm => ⟨hm, rfl⟩) fun code hcode => ?_
  cases hcode
  apply (fresh_genCode hcompiled).mono
  intro q _ hq
  by_cases hqm : q = m
  · subst hqm
    rw [methods_setMethod_self]
    exact ⟨hq, rfl⟩
  · rw [methods_setMethod_ne v _ hqm]
    exact ⟨hq, rfl⟩

/-- `compile` marks a method. -/
private theorem Settled.mark {v : Jvm ι M} (h : v.Settled p) {m : M} {inside : Bool}
    (hnone : (v.methods m).currentCompiledMethod = none)
    (hagain : (v.methods m).firstContext ≠ none → inside = true → v.homeInside p m = true) :
    (v.setMethod m (markMethod p (v.methods m) m inside)).Settled p := by
  have hflag : p.instrumented m = true →
      (markMethod p (v.methods m) m inside).staticallyInSecureRegion =
        (p.secureMethod m || (v.methods m).firstContext.getD inside) := by
    intro hm
    have hold := h.flag m hm
    rw [homeInside] at hagain
    simp only [markMethod, hold, hm, Bool.and_true]
    cases hctx : (v.methods m).firstContext with
    | none => rfl
    | some context =>
        have hagain := hagain (by rw [hctx]; simp)
        rw [hctx] at hagain
        simp only [Option.any_some, Option.getD_some] at hagain ⊢
        revert hagain
        cases p.secureMethod m <;> cases context <;> cases inside <;> decide
  refine h.setMethod ?_ ?_ fun code hcode => ?_
  · intro hm
    rw [hflag hm]
    rfl
  · intro hm hcompiled
    refine ⟨by simp [markMethod], ?_⟩
    rw [hflag hm, h.flag_eq hm hcompiled, homeInside]
    cases hctx : (v.methods m).firstContext with
    | none => exact absurd hctx hcompiled
    | some context => rfl
  · rw [show (markMethod p (v.methods m) m inside).currentCompiledMethod = none from hnone] at hcode
    cases hcode

variable [DecidableEq ι]

/-- Every step keeps the invariant. -/
theorem settled_step {v v' : Jvm ι M} {a : JvmStep ι M} (h : v.Settled p)
    (hone : v.OneContext p a) (hstep : step p v a = some v') : v'.Settled p := by
  cases a with
  | compile t m inlined =>
      simp only [step] at hstep
      split at hstep
      · cases hstep
        exact h
      · rename_i hnone
        cases hstep
        obtain ⟨hinlined, hagain⟩ := hone hnone
        apply (h.mark hnone hagain).setCode
        intro q hq hinst
        by_cases hqm : q = m
        · subst hqm
          rw [methods_setMethod_self]
          simp [markMethod]
        · rw [methods_setMethod_ne v _ hqm]
          exact hinlined q ((List.mem_cons.1 hq).resolve_left hqm) hqm hinst
  | recompile m inlined =>
      cases hstep
      exact h.setCode hone
  | invalidate m =>
      cases hstep
      refine h.setMethod (h.flag m) (fun _ hm => ⟨hm, rfl⟩) fun code hcode => ?_
      cases hcode
  | invoke t m =>
      simp only [step] at hstep
      split at hstep
      · rename_i code hcurrent
        cases hstep
        refine ⟨h.flag, h.current, fun u code' hactive => ?_⟩
        dsimp only at hactive
        split at hactive
        · rcases List.mem_cons.1 hactive with rfl | hold
          · exact h.current m code' hcurrent
          · exact h.active u code' hold
        · exact h.active u code' hactive
      · cases hstep
  | access t i obj =>
      simp only [step] at hstep
      split at hstep
      · split at hstep
        · cases hstep
          exact h
        · cases hstep
      · cases hstep
  | leave t =>
      cases hstep
      refine ⟨h.flag, h.current, fun u code' hactive => ?_⟩
      dsimp only at hactive
      split at hactive
      · exact h.active u code' (List.mem_of_mem_tail hactive)
      · exact h.active u code' hactive
  | difc t c =>
      cases hstep
      exact ⟨h.flag, h.current, h.active⟩

/-- **Static barriers of methods with one context**: in a run whose steps all observe
`OneContext`, the barrier at every access and allocation of an instrumented method is one
for code inside regions if and only if the thread is in a region, and it does what the
dynamic barrier would do. -/
theorem static_barriers_of_run {h : List (JvmStep ι M)} {v : Jvm ι M} {t : ι} {i : Nat}
    {obj : Referent} {code : CompiledMethod M} {rest : List (CompiledMethod M)}
    {site : Site M} (hrun : Run (step p) (OneContext p) boot h v)
    (hone : v.OneContext p (.access t i obj))
    (hstack : v.frames t = code :: rest) (hsite : code[i]? = some site)
    (hinst : p.instrumented site.method = true) :
    (emittedInside site.barrier = true ↔ (v.threads t).inSecureRegion = true) ∧
      ∀ labeledSpace, callEmitted labeledSpace (v.threads t) obj site.barrier =
        site.type.callDynamic labeledSpace (v.threads t) obj := by
  have hsettled : v.Settled p :=
    hrun.invariant settled_boot fun _ _ _ hv ha hs => settled_step hv ha hs
  have hfresh : v.Fresh p code :=
    hsettled.active t code (by rw [hstack]; exact List.mem_cons_self)
  obtain ⟨hcompiled, hbarrier⟩ := hfresh site (List.mem_of_getElem? hsite) hinst
  have hflag : (v.methods site.method).staticallyInSecureRegion =
      (v.threads t).inSecureRegion := by
    rw [hsettled.flag_eq hinst hcompiled]
    exact (hone code rest site hstack hsite hinst).symm
  rw [hbarrier, hflag]
  exact ⟨by rw [emittedInside_addBarriers], fun _ => callEmitted_addBarriers _ _ _ _⟩

/-- A program with one method, which writes a field. -/
private def writer : Program Unit where
  secureMethod := fun _ => false
  instrumented := fun _ => true
  accesses := fun _ => [.write]

/-- An object far from the labeled space. -/
def unlabeledObject : Referent := ⟨0x20000000, ⟨false, none, none⟩⟩

/-- The method is compiled and runs in a region. -/
theorem static_barriers_of_run_inside :
    ∃ h v, Run (step writer) (OneContext writer) (boot : Jvm Unit Unit) h v ∧
      v.frames () = [[⟨(), .write, some .writeBarrierInsideSR⟩]] ∧
      (v.threads ()).inSecureRegion = true ∧
      ∀ labeledSpace, callEmitted labeledSpace (v.threads ()) unlabeledObject
          (some .writeBarrierInsideSR) =
        BarrierType.write.callDynamic labeledSpace (v.threads ()) unlabeledObject := by
  have hrun : ∃ v, Run (step writer) (OneContext writer) (boot : Jvm Unit Unit)
      ([] ++ [.difc () (.start (.startSecureRegion none none))] ++ [.compile () () []]
        ++ [.invoke () ()]) v ∧
      v.OneContext writer (.access () 0 unlabeledObject) ∧
      v.frames () = [[⟨(), .write, some .writeBarrierInsideSR⟩]] := by
    refine ⟨_, .snoc (.snoc (.snoc .nil trivial rfl) ?_ rfl) trivial rfl, ?_, rfl⟩
    · intro _
      refine ⟨fun q hq => ?_, fun hcompiled => absurd rfl hcompiled⟩
      cases hq
    · intro code rest site hstack hsite _
      cases hstack
      cases hsite
      decide +kernel
  obtain ⟨v, hrun, hone, hstack⟩ := hrun
  obtain ⟨hinside, hsame⟩ := static_barriers_of_run hrun hone hstack rfl rfl
  exact ⟨_, v, hrun, hstack, hinside.1 rfl, hsame⟩

/-- The method is compiled outside of every region and then runs in a region with secrecy
label 5.  Its barrier lets it write to an unlabeled object, where the dynamic one would
throw. -/
theorem static_barrier_misses_write :
    ∃ h v site, Run (step writer) (fun _ _ => True) (boot : Jvm Unit Unit) h v ∧
      v.frames () = [[site]] ∧ emittedInside site.barrier = false ∧
      (v.threads ()).inSecureRegion = true ∧
      (callEmitted onePage (v.threads ()) unlabeledObject site.barrier).1 = .returned ∧
      (site.type.callDynamic onePage (v.threads ()) unlabeledObject).1 ≠ .returned := by
  refine ⟨[] ++ [.difc () (.labels (.initializeThreadCapability (.getLabelSet 5) 0))]
    ++ [.compile () () []] ++ [.difc () (.start (.startSecureRegion (some (.getLabelSet 5)) none))]
    ++ [.invoke () ()], _, _,
    .snoc (.snoc (.snoc (.snoc .nil trivial rfl) trivial rfl) trivial rfl) trivial rfl, rfl,
    by decide +kernel, by decide +kernel, by decide +kernel, by decide +kernel⟩

end Jvm

end Laminar.Vm
