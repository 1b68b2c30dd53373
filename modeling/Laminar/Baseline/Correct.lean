import Mathlib.Tactic.Choose
import Laminar.Baseline.Emit

/-!
# The code of a method does what its bytecodes do

The templates of the baseline compiler are put side by side with the meaning of the bytecodes.
`Computes` says what a piece of code without jumps back does to the stack and to the heap,
whatever the registers hold; a template is proved from its pieces by `Computes.append`.  Only the
sequence that links a field jumps back, to read the offset again after the class was loaded;
`Goes` says what the code from some instruction on does, so that `goes_link` can take the jump.

`exists_goes` has one case for each bytecode.  Between bytecodes the machine has the frame on its
stack, the operands above the locals (`Represents`), and `compiled_method_correct` follows by the
simulation of `Lib.Code`.
-/

namespace Laminar.Baseline

open Laminar.Lib
open Laminar.Vm (BarrierType BarrierMethod)

variable {B : Type} {cc : Compiler B} {rt : Runtime B}

/-! ## What a piece of code does to the stack and the heap -/

/-- Whatever the registers hold, the code computes `r` from a stack and a heap. -/
def Computes (layout : Layout) (rt : Runtime B) (code : List (Instr B)) (stack : List Word)
    (w : World B) (r : Except (Stop B) (Code.Exit × List Word × World B)) : Prop :=
  ∀ c : Cpu B, c.stack = stack → c.world = w →
    (Code.forward (ia32 layout rt) 0 code c).map (fun p => (p.1, p.2.stack, p.2.world)) = r

/-- Leave a piece of code at its end. -/
def falls (stack : List Word) (w : World B) : Code.Exit × List Word × World B :=
  (.skip 0, stack, w)

section Rules

variable {layout : Layout} {stack : List Word} {w : World B}

@[simp] theorem ia32_run (o : Op B) (c : Cpu B) :
    (ia32 layout rt).run o c = c.run layout rt o := rfl

@[simp] theorem ia32_holds (cond : Cond) (c : Cpu B) :
    (ia32 layout rt).holds cond c = c.holds cond := by
  rw [ia32]

@[simp] theorem map_ok {ε α β : Type} (f : α → β) (a : α) :
    (Except.ok a : Except ε α).map f = .ok (f a) := rfl

@[simp] theorem map_error {ε α β : Type} (f : α → β) (e : ε) :
    (Except.error e : Except ε α).map f = .error e := rfl

@[simp] theorem pure_eq {ε α : Type} (a : α) : (pure a : Except ε α) = .ok a := rfl

@[simp] theorem bind_ok {ε α β : Type} (f : α → Except ε β) (a : α) :
    (Except.ok a >>= f) = f a := by
  rw [ok_bind]

@[simp] theorem map_bind {ε α β γ : Type} (x : Except ε α) (g : α → Except ε β) (f : β → γ) :
    (x >>= g).map f = x >>= fun a => (g a).map f := by
  cases x <;> rfl

@[simp] theorem bind_error {ε α β : Type} (f : α → Except ε β) (e : ε) :
    ((Except.error e : Except ε α) >>= f) = .error e := rfl

theorem bind_check {ε α β : Type} (p : Prop) [Decidable p] (a : α) (e : ε)
    (f : α → Except ε β) :
    ((if p then .ok a else .error e) >>= f) = if p then f a else .error e := by
  split <;> rfl

/-- A piece of code that comes to its end, and the next one. -/
theorem Computes.append {is js : List (Instr B)} {x : Except (Stop B) (World B)}
    {k : World B → Except (Stop B) (Code.Exit × List Word × World B)} {stack' : List Word}
    (his : Computes layout rt is stack w (x.map (falls stack')))
    (hjs : ∀ w', Computes layout rt js stack' w' (k w')) :
    Computes layout rt (is ++ js) stack w (x >>= k) := by
  intro c hstack hw
  have hc := his c hstack hw
  rw [Code.forward_append]
  cases hf : Code.forward (ia32 layout rt) 0 is c with
  | error e =>
      rw [hf] at hc
      cases x with
      | error e' => exact hc
      | ok w' => cases hc
  | ok r =>
      rw [hf] at hc
      cases x with
      | error e' => cases hc
      | ok w' =>
          obtain ⟨exit, c'⟩ := r
          simp only [map_ok, falls, Except.ok.injEq, Prod.mk.injEq] at hc
          obtain ⟨rfl, hstack', hw'⟩ := hc
          exact hjs w' c' hstack' hw'

/-- A call with one parameter, which is pushed and loaded into `T0`. -/
theorem computes_pushAndCall {param : Op B} {arg : Word} {target : Target B}
    (hparam : ∀ c : Cpu B, c.stack = stack → c.world = w →
      c.run layout rt param = .ok (c.push arg))
    (htarget : target.parameterWords = 1) (hpeeked : target.peekedWords = 0) :
    Computes layout rt (pushAndCall param target) stack w
      ((Compiler.callVoid rt target [arg] w).map (falls stack)) := by
  intro c hstack hw
  rw [pushAndCall, List.cons_append, ops_cons, Code.forward_op, ia32_run, hparam c hstack hw,
    bind_ok]
  obtain ⟨t0, t1, s0, xmm0, fp0, flags, trapParam, stk, below, world⟩ := c
  subst hstack hw
  simp [htarget, hpeeked, Compiler.callVoid, map_bind]
  rfl

theorem computes_difcBarrier {type : BarrierType} {param : Op B} {arg : Word}
    (hparam : ∀ c : Cpu B, c.stack = stack → c.world = w →
      c.run cc.toLayout rt param = .ok (c.push arg)) :
    Computes cc.toLayout rt (cc.difcBarrier type param) stack w
      ((cc.barrier rt type arg w).map (falls stack)) := by
  rw [Compiler.difcBarrier, Compiler.barrier]
  cases cc.addBarriers type with
  | none =>
      intro c hstack hw
      subst hstack hw
      rfl
  | some method => exact computes_pushAndCall hparam rfl rfl

/-- The word in a slot can be pushed. -/
theorem run_pushSlot {slot : Nat} {v : Word} (h : stack[slot]? = some v) (c : Cpu B)
    (hstack : c.stack = stack) (_ : c.world = w) :
    c.run layout rt (.pushLoc (.sp slot)) = .ok (c.push v) := by
  subst hstack
  simp [h]

theorem computes_compileModifyCheck {slot : Nat} {ref : Word} (h : stack[slot]? = some ref) :
    Computes cc.toLayout rt (cc.compileModifyCheck slot) stack w
      ((cc.modifyCheck rt ref w).map (falls stack)) := by
  rw [Compiler.compileModifyCheck, Compiler.modifyCheck]
  cases cc.extremeAssertions with
  | false =>
      intro c hstack hw
      subst hstack hw
      rfl
  | true => exact computes_pushAndCall (run_pushSlot h) rfl rfl

/-- The check of an index leaves the registers for the access. -/
theorem forward_boundsCheck (is : List (Instr B)) (c : Cpu B) :
    Code.forward (ia32 cc.toLayout rt) 0 (cc.boundsCheck ++ is) c =
      cc.checkBounds c.s0 c.t0 c.world >>= fun w =>
        Code.forward (ia32 cc.toLayout rt) 0 is { c with
          flags := if cc.generateBoundsChecks then
            (w.heap.load (c.s0 + cc.arrayLengthOffset) .mov, c.t0) else c.flags
          world := w } := by
  rw [Compiler.boundsCheck, Compiler.checkBounds]
  cases cc.generateBoundsChecks with
  | false => rfl
  | true =>
      simp [genBoundsCheck, World.header, bind_check]

/-- It is enough to look at the code with any contents of the registers. -/
theorem Computes.intro {code : List (Instr B)}
    {r : Except (Stop B) (Code.Exit × List Word × World B)}
    (h : ∀ t0 t1 s0 xmm0 fp0 flags trapParam below,
      (Code.forward (ia32 layout rt) 0 code
        ⟨t0, t1, s0, xmm0, fp0, flags, trapParam, stack, below, w⟩).map
          (fun p => (p.1, p.2.stack, p.2.world)) = r) :
    Computes layout rt code stack w r := by
  intro c hstack hw
  obtain ⟨t0, t1, s0, xmm0, fp0, flags, trapParam, stk, below, world⟩ := c
  subst hstack hw
  exact h t0 t1 s0 xmm0 fp0 flags trapParam below

end Rules

/-! ## What the code from some place on does -/

/-- The run comes to the next bytecode with a stack and a heap, or stops. -/
def Ends (bi : Nat) (r : Except (Stop B) (Code.Exit × List Word × World B)) :
    Except (Stop B) (Code.Place (Cpu B)) → Prop :=
  Code.Lifts (fun b x => b.1 = some x.label ∧ x.index = 0 ∧ x.state.stack = b.2.1 ∧
    x.state.world = b.2.2) (r.map fun p => (p.1.next bi, p.2))

/-- Whatever the registers hold, the code of bytecode `bi` from the instruction `k` on computes
`r`. -/
def Goes (layout : Layout) (rt : Runtime B) (code : Nat → List (Instr B)) (bi k : Nat)
    (stack : List Word) (w : World B)
    (r : Except (Stop B) (Code.Exit × List Word × World B)) : Prop :=
  ∀ c : Cpu B, c.stack = stack → c.world = w →
    Code.Leads (Code.step (ia32 layout rt) code) ⟨bi, k, c⟩ (Ends bi r)

section Places

variable {layout : Layout} {stack stack' : List Word} {w : World B}
  {code : Nat → List (Instr B)} {bi k : Nat} {is js : List (Instr B)}

/-- The rest of the code, without a jump back. -/
theorem leads_of_view {c : Cpu B} {r : Except (Stop B) (Code.Exit × List Word × World B)}
    (hcode : (code bi).drop k = is) (hback : ∀ p, r = .ok p → p.1.next bi ≠ none)
    (h : (Code.forward (ia32 layout rt) 0 is c).map (fun p => (p.1, p.2.stack, p.2.world)) = r) :
    Code.Leads (Code.step (ia32 layout rt) code) ⟨bi, k, c⟩ (Ends bi r) := by
  refine Code.leads_label hcode ?_
  subst h
  cases hf : Code.forward (ia32 layout rt) 0 is c with
  | error e => rfl
  | ok p =>
      obtain ⟨exit, c'⟩ := p
      rw [hf] at hback
      obtain ⟨l, hl⟩ := Option.ne_none_iff_exists'.1 (hback _ rfl)
      exact ⟨l, hl, hl, rfl, rfl, rfl⟩

theorem goes_of_computes {r : Except (Stop B) (Code.Exit × List Word × World B)}
    (hcode : (code bi).drop k = is) (hback : ∀ p, r = .ok p → p.1.next bi ≠ none)
    (h : Computes layout rt is stack w r) : Goes layout rt code bi k stack w r := by
  intro c hstack hw
  exact leads_of_view hcode hback (h c hstack hw)

/-- A piece of code, and the rest. -/
theorem goes_append {x : Except (Stop B) (World B)}
    {g : World B → Except (Stop B) (Code.Exit × List Word × World B)}
    (hcode : (code bi).drop k = is ++ js)
    (his : Computes layout rt is stack w (x.map (falls stack')))
    (hjs : (code bi).drop (k + is.length) = js →
      ∀ w', Goes layout rt code bi (k + is.length) stack' w' (g w')) :
    Goes layout rt code bi k stack w (x >>= g) := by
  have hrest : (code bi).drop (k + is.length) = js := by
    rw [← List.drop_drop, hcode, List.drop_left]
  intro c hstack hw
  have hc := his c hstack hw
  refine Code.leads_of_forward (n := 0) hcode ?_
  cases hf : Code.forward (ia32 layout rt) 0 is c with
  | error e =>
      rw [hf] at hc
      cases x with
      | error e' =>
          obtain rfl := Except.error.inj hc
          rfl
      | ok w' => cases hc
  | ok p =>
      rw [hf] at hc
      cases x with
      | error e' => cases hc
      | ok w' =>
          obtain ⟨exit, c'⟩ := p
          simp only [map_ok, falls, Except.ok.injEq, Prod.mk.injEq] at hc
          obtain ⟨rfl, hstack', hw'⟩ := hc
          exact hjs hrest w' c' hstack' hw'

/-- The linking sequence up to its jump back. -/
def resolveSequence (r : Reg) (id : Word) : List (Instr B) :=
  [.op (.movMemberOffset r id), .op (.cmpRegImm r needsDynamicLink), .skipIf .ne 4] ++
    pushAndCall (.pushImm id) .resolveMember

theorem emitDynamicLinkingSequence_eq (r : Reg) (id : Word) :
    (emitDynamicLinkingSequence r id : List (Instr B)) = resolveSequence r id ++ [.back 6] := rfl

/-- The registers after an offset has been found. -/
def linkedTo (id : Word) (c : Cpu B) : Cpu B :=
  { c with
    t0 := (c.world.memberOffset id).1
    flags := ((c.world.memberOffset id).1, needsDynamicLink)
    world := (c.world.memberOffset id).2 }

theorem forward_link_of_ne {id : Word} {c : Cpu B}
    (h : (c.world.memberOffset id).1 ≠ needsDynamicLink) :
    Code.forward (ia32 layout rt) 0 (emitDynamicLinkingSequence .t0 id) c =
      .ok (.skip 0, linkedTo id c) := by
  simp [emitDynamicLinkingSequence, pushAndCall, linkedTo, h]

theorem forward_resolveSequence {id : Word} {c : Cpu B}
    (h : (c.world.memberOffset id).1 = needsDynamicLink) :
    Code.forward (ia32 layout rt) 0 (resolveSequence .t0 id) c =
      (c.world.memberOffset id).2.call rt .resolveMember [id] >>= fun p =>
        .ok (.skip 0, Cpu.leftBy rt c.stack p) := by
  simp [resolveSequence, pushAndCall, h, Target.parameterWords, Target.peekedWords]

/-- A member that has been resolved has an offset. -/
theorem resolved_of_call {id : Word} {p : Word × World B}
    (h : w.call rt .resolveMember [id] = .ok p) :
    (p.2.memberOffset id).1 ≠ needsDynamicLink := by
  rw [World.call] at h
  cases hreply : rt.reply w.trace w.heap .resolveMember [id] with
  | threw heap =>
      rw [hreply] at h
      cases h
  | returned result heap =>
      rw [hreply] at h
      cases h
      exact rt.resolves _ _ _ _ _ hreply

/-- **The linking sequence.**  It calls the resolver at most once, and leaves the offset of the
field in `T0`. -/
theorem goes_link {f : FieldReference} (hoffset : f.offset = none)
    {g : Word × World B → Except (Stop B) (Code.Exit × List Word × World B)}
    (hcode : (code bi).drop k = emitDynamicLinkingSequence .t0 f.id ++ js)
    (hback : ∀ q p, g q = .ok p → p.1.next bi ≠ none)
    (hjs : ∀ c : Cpu B, c.stack = stack →
      (Code.forward (ia32 layout rt) 0 js c).map (fun p => (p.1, p.2.stack, p.2.world)) =
        g (c.t0, c.world)) :
    Goes layout rt code bi k stack w (Compiler.link rt f w >>= g) := by
  have hrest : (code bi).drop (k + 7) = js := by
    rw [← List.drop_drop, hcode]
    rfl
  -- the sequence once the table has the offset
  have hlinked : ∀ c : Cpu B, c.stack = stack →
      (c.world.memberOffset f.id).1 ≠ needsDynamicLink →
      Code.Leads (Code.step (ia32 layout rt) code) ⟨bi, k, c⟩
        (Ends bi (g (c.world.memberOffset f.id))) := by
    intro c hstack hne
    refine Code.leads_of_forward (n := 0) hcode ?_
    rw [forward_link_of_ne hne]
    exact leads_of_view hrest (hback _) (hjs (linkedTo f.id c) hstack)
  intro c hstack hw
  subst hw
  rw [Compiler.link, hoffset]
  by_cases hne : (c.world.memberOffset f.id).1 = needsDynamicLink
  · simp only [if_pos hne, bind_assoc]
    -- the call of the resolver, and the jump back
    have hsplit : (code bi).drop k = resolveSequence .t0 f.id ++ (.back 6 :: js) := by
      rw [hcode, emitDynamicLinkingSequence_eq, List.append_assoc]
      rfl
    refine Code.leads_of_forward (n := 0) hsplit ?_
    rw [forward_resolveSequence hne]
    cases hcall : (c.world.memberOffset f.id).2.call rt .resolveMember [f.id] with
    | error e =>
        simp [Compiler.callVoid, hcall]
        rfl
    | ok p =>
        have hback : (code bi).drop (k + 6) = .back 6 :: js := by
          rw [← List.drop_drop, hsplit]
          rfl
        simp [Compiler.callVoid, hcall]
        refine Code.leads_of_back hback (hlinked (Cpu.leftBy rt c.stack p) hstack ?_)
        exact resolved_of_call hcall
  · rw [if_neg hne]
    exact hlinked c hstack hne

end Places

/-! ## Arrays -/

section Arrays

variable {index ref v low high : Word} {rest : List Word} {w : World B}

/-- The barrier of an array load gets the array. -/
theorem computes_emitArrayLoad {k : ArrayKind} {space load : List (Op B)}
    {x : World B → Except (Stop B) (List Word × World B)}
    (hx : ∀ w, (if k = .reference ∧ cc.needsReadBarrier = true then
      Compiler.callForWord rt .arrayLoadReadBarrier [ref, index] w
      else cc.loadElement k ref index w) = x w)
    (h : ∀ w, Computes cc.toLayout rt
      (ops ([.popReg .t0, .popReg .s0] ++ space) ++ (cc.boundsCheck ++ ops load))
      (index :: ref :: rest) w
      (cc.checkBounds ref index w >>= fun w =>
        x w >>= fun r => .ok (falls (r.1 ++ rest) r.2))) :
    Computes cc.toLayout rt (cc.emitArrayLoad space load) (index :: ref :: rest) w
      (cc.arrayLoad rt k ref index w >>= fun r => .ok (falls (r.1 ++ rest) r.2)) := by
  rw [Compiler.emitArrayLoad, Compiler.arrayLoad, List.append_assoc, List.append_assoc,
    bind_assoc]
  refine Computes.append (computes_difcBarrier (run_pushSlot rfl)) fun w => ?_
  simp only [bind_assoc, hx]
  exact h w

/-- Only loads of references have a barrier of the collector. -/
theorem load_of_ne {k : ArrayKind} (hk : k ≠ .reference) (w : World B) :
    (if k = .reference ∧ cc.needsReadBarrier = true then
      Compiler.callForWord rt .arrayLoadReadBarrier [ref, index] w
      else cc.loadElement k ref index w) = cc.loadElement k ref index w :=
  if_neg fun h => hk h.1

theorem computes_emitAaload :
    Computes cc.toLayout rt cc.emitAaload (index :: ref :: rest) w
      (cc.arrayLoad rt .reference ref index w >>= fun r =>
        .ok (falls (r.1 ++ rest) r.2)) := by
  rw [Compiler.emitAaload]
  cases hneeds : cc.needsReadBarrier with
  | true =>
      refine computes_emitArrayLoad (fun w => if_pos ⟨rfl, hneeds⟩) fun w => Computes.intro ?_
      intros
      simp [forward_boundsCheck, Target.parameterWords, Target.peekedWords,
        Compiler.callForWord, falls]
  | false =>
      refine computes_emitArrayLoad (fun w => if_neg fun h => by simp [hneeds] at h)
        fun w => Computes.intro ?_
      intros
      simp [forward_boundsCheck, Compiler.loadElement, ArrayKind.wide, Compiler.loadWord,
        ArrayKind.move, Compiler.element, ArrayKind.address, ArrayKind.scale, falls]

theorem computes_arrayLoad (bi : Nat) (k : ArrayKind) :
    Computes cc.toLayout rt (cc.emit bi (.arrayLoad k)) (index :: ref :: rest) w
      (cc.arrayLoad rt k ref index w >>= fun r => .ok (falls (r.1 ++ rest) r.2)) := by
  cases k with
  | long | double =>
      show Computes _ _ cc.emitWideLoad _ _ _
      rw [Compiler.emitWideLoad]
      cases hsse : cc.sse2Base with
      | false =>
          refine computes_emitArrayLoad (load_of_ne (fun h => by cases h)) fun w =>
            Computes.intro ?_
          intros
          simp [forward_boundsCheck, Compiler.loadElement, ArrayKind.wide, hsse,
            Compiler.loadPair, Compiler.element, ArrayKind.address, ArrayKind.scale, falls]
      | true =>
          refine computes_emitArrayLoad (load_of_ne (fun h => by cases h)) fun w =>
            Computes.intro ?_
          intros
          simp [forward_boundsCheck, Compiler.loadElement, ArrayKind.wide, hsse,
            Compiler.loadQuad, Compiler.element, ArrayKind.address, ArrayKind.scale, falls]
  | reference => exact computes_emitAaload
  | _ =>
      refine computes_emitArrayLoad (load_of_ne (fun h => by cases h)) fun w =>
            Computes.intro ?_
      intros
      simp [forward_boundsCheck, Compiler.loadElement, ArrayKind.wide, Compiler.loadWord,
        ArrayKind.move, Compiler.element, ArrayKind.address, ArrayKind.scale, falls]

/-- The check of an index and a store. -/
theorem computes_popAndStore {k : ArrayKind} :
    Computes cc.toLayout rt (cc.popAndStore k.size k.scale) (v :: index :: ref :: rest) w
      (cc.checkBounds ref index w >>= fun w =>
        w.store k.size ref (k.address ref index) v >>= fun w => .ok (falls rest w)) := by
  refine Computes.intro ?_
  intros
  simp [Compiler.popAndStore, forward_boundsCheck, Compiler.element, ArrayKind.address, falls]

/-- The barrier and the check of an array store get the array. -/
theorem computes_arrayStore_of_store {is : List (Instr B)} {slot : Nat} {stack : List Word}
    (hslot : stack[slot]? = some ref)
    {k : World B → Except (Stop B) (Code.Exit × List Word × World B)}
    (h : ∀ w, Computes cc.toLayout rt is stack w (k w)) :
    Computes cc.toLayout rt (cc.insertDifcWriteBarrier slot ++ cc.compileModifyCheck slot ++ is)
      stack w (cc.barrier rt .write ref w >>= fun w => cc.modifyCheck rt ref w >>= k) := by
  rw [List.append_assoc]
  refine Computes.append (computes_difcBarrier (run_pushSlot hslot)) fun w => ?_
  exact Computes.append (computes_compileModifyCheck hslot) h

theorem computes_emitArrayStore {k : ArrayKind} (href : k ≠ .reference) :
    Computes cc.toLayout rt (cc.emitArrayStore k.size k.scale) (v :: index :: ref :: rest) w
      (cc.arrayStore rt k ref index v w >>= fun w => .ok (falls rest w)) := by
  rw [Compiler.emitArrayStore, Compiler.arrayStore]
  simp only [if_neg href, bind_assoc]
  exact computes_arrayStore_of_store rfl fun w => computes_popAndStore

theorem computes_emitAastore :
    Computes cc.toLayout rt cc.emitAastore (v :: index :: ref :: rest) w
      (cc.arrayStore rt .reference ref index v w >>= fun w => .ok (falls rest w)) := by
  rw [Compiler.emitAastore, Compiler.arrayStore]
  simp only [if_pos, bind_assoc]
  rw [List.append_assoc]
  refine computes_arrayStore_of_store rfl fun w => ?_
  have hcheck : Computes cc.toLayout rt (ops ([.pushLoc (.sp 2), .pushLoc (.sp 1)] ++
      genParameterRegisterLoad 2 ++ [.callAbs .checkstore])) (v :: index :: ref :: rest) w
      ((Compiler.callVoid rt .checkstore [ref, v] w).map (falls (v :: index :: ref :: rest))) := by
    refine Computes.intro ?_
    intros
    simp [Target.parameterWords, Target.peekedWords, Compiler.callVoid, falls]
  refine Computes.append hcheck fun w => ?_
  cases cc.needsWriteBarrier with
  | false => exact computes_popAndStore (k := .reference)
  | true =>
      refine Computes.intro ?_
      intros
      simp [forward_boundsCheck, Target.parameterWords, Target.peekedWords,
        Compiler.callVoid, falls]

theorem computes_emitWideStore {k : ArrayKind} (hwide : k.wide = true) :
    Computes cc.toLayout rt cc.emitWideStore (low :: high :: index :: ref :: rest) w
      (cc.arrayStoreWide rt k ref index low high w >>= fun w => .ok (falls rest w)) := by
  have hscale : k.scale = 3 := by
    cases k <;> first | rfl | cases hwide
  rw [Compiler.emitWideStore, Compiler.arrayStoreWide]
  simp only [bind_assoc]
  refine computes_arrayStore_of_store rfl fun w => ?_
  cases cc.sse2Base with
  | false =>
      refine Computes.intro ?_
      intros
      simp [forward_boundsCheck, Compiler.storePair, Compiler.element, ArrayKind.address, hscale,
        falls]
  | true =>
      refine Computes.intro ?_
      intros
      simp [forward_boundsCheck, Compiler.element, ArrayKind.address, hscale, falls]

end Arrays

/-! ## Fields -/

/-- A bytecode without a branch leads to the next one. -/
theorem next_of_falls {α : Type} {x : Except (Stop B) α} {stack : α → List Word}
    {w : α → World B} {bi : Nat} (p : Code.Exit × List Word × World B)
    (h : (x >>= fun a => .ok (falls (stack a) (w a))) = .ok p) : p.1.next bi ≠ none := by
  obtain ⟨a, -, ha⟩ := bind_eq_ok.1 h
  cases ha
  exact Option.some_ne_none _

section Fields

variable {code : Nat → List (Instr B)} {bi : Nat} {f : FieldReference} {stack : List Word}
  {w : World B}

theorem link_of_some {offset : Word} (h : f.offset = some offset) :
    Compiler.link rt f w = .ok (offset, w) := by
  rw [Compiler.link, h]

/-- The rest of a bytecode for a field, when the offset has been linked into `T0` or is known to
the compiler. -/
theorem goes_field {α : Type} {js : List (Instr B)} {ks : Word → List (Instr B)} {k : Nat}
    {x : Word × World B → Except (Stop B) α} {after : α → List Word} {left : α → World B}
    (hcode : (code bi).drop k = match f.offset with
      | none => emitDynamicLinkingSequence .t0 f.id ++ js
      | some offset => ks offset)
    (hjs : f.offset = none → ∀ c : Cpu B, c.stack = stack →
      (Code.forward (ia32 cc.toLayout rt) 0 js c).map (fun p => (p.1, p.2.stack, p.2.world)) =
        x (c.t0, c.world) >>= fun a => .ok (falls (after a) (left a)))
    (hks : ∀ offset, f.offset = some offset → ∀ w, Computes cc.toLayout rt (ks offset) stack w
      (x (offset, w) >>= fun a => .ok (falls (after a) (left a)))) :
    Goes cc.toLayout rt code bi k stack w
      (Compiler.link rt f w >>= fun q => x q >>= fun a => .ok (falls (after a) (left a))) := by
  cases hoffset : f.offset with
  | none =>
      rw [hoffset] at hcode
      exact goes_link hoffset hcode (fun q p h => next_of_falls p h) (hjs hoffset)
  | some offset =>
      rw [hoffset] at hcode
      rw [link_of_some hoffset, bind_ok]
      exact goes_of_computes hcode (fun p h => next_of_falls p h) (hks offset hoffset w)

theorem goes_getstatic (hcode : code bi = cc.emitGetstatic f) :
    Goes cc.toLayout rt code bi 0 stack w
      (cc.getstatic rt f w >>= fun r => .ok (falls (r.1 ++ stack) r.2)) := by
  simp only [Compiler.getstatic, bind_assoc]
  refine goes_append (by rw [List.drop_zero, hcode]; rfl)
    (computes_difcBarrier (fun c _ _ => rfl)) fun hcode w => ?_
  refine goes_field hcode ?_ fun offset _ w => Computes.intro ?_
  · rintro - ⟨t0, t1, s0, xmm0, fp0, flags, trapParam, stk, below, world⟩ rfl
    cases hwide : f.kind.wide <;>
      simp [Compiler.loadStatic, hwide, Compiler.loadPair, Compiler.loadWord, falls]
  · intros
    cases hwide : f.kind.wide <;>
      simp [Compiler.loadStatic, hwide, Compiler.loadPair, Compiler.loadWord, falls,
        BitVec.add_assoc]

theorem goes_putstatic_wide (hwide : f.kind.wide = true) {low high : Word}
    (hcode : code bi = cc.emitPutstatic f) :
    Goes cc.toLayout rt code bi 0 (low :: high :: stack) w
      (cc.putstatic rt f low high w >>= fun w => .ok (falls stack w)) := by
  simp only [Compiler.putstatic, bind_assoc, hwide, if_true]
  refine goes_append (by rw [List.drop_zero, hcode]; rfl)
    (computes_difcBarrier (fun c _ _ => rfl)) fun hcode w => ?_
  refine goes_field hcode ?_ fun offset _ w => Computes.intro ?_
  · rintro - ⟨t0, t1, s0, xmm0, fp0, flags, trapParam, stk, below, world⟩ hstack
    simp only at hstack
    subst hstack
    simp [Compiler.storeStatic, hwide, Compiler.storePair, falls]
  · intros
    simp [Compiler.storeStatic, hwide, Compiler.storePair, falls, BitVec.add_assoc]

theorem goes_putstatic (hwide : f.kind.wide = false) {v : Word}
    (hcode : code bi = cc.emitPutstatic f) :
    Goes cc.toLayout rt code bi 0 (v :: stack) w
      (cc.putstatic rt f v 0 w >>= fun w => .ok (falls stack w)) := by
  simp only [Compiler.putstatic, bind_assoc, hwide, Bool.false_eq_true, if_false]
  refine goes_append (by rw [List.drop_zero, hcode]; rfl)
    (computes_difcBarrier (fun c _ _ => rfl)) fun hcode w => ?_
  refine goes_field hcode ?_ fun offset _ w => Computes.intro ?_
  · rintro - ⟨t0, t1, s0, xmm0, fp0, flags, trapParam, stk, below, world⟩ hstack
    simp only at hstack
    subst hstack
    simp [Compiler.storeStatic, hwide, falls]
  · intros
    simp [Compiler.storeStatic, hwide, falls]

theorem maybeTraced_of_none (h : f.offset = none) {b : Bool} :
    (Compiler.maybeTraced f = true ∧ b = true) ↔ f.kind = .reference ∧ b = true := by
  simp [Compiler.maybeTraced, h]

theorem maybeTraced_of_some {offset : Word} (h : f.offset = some offset) {b : Bool} :
    (Compiler.maybeTraced f = true ∧ b = true) ↔
      f.kind = .reference ∧ b = true ∧ (!f.untraced) = true := by
  simp only [Compiler.maybeTraced, h, Option.isNone_some, Bool.false_or, Bool.and_eq_true,
    decide_eq_true_eq]
  rw [and_assoc, and_comm (a := (!f.untraced) = true)]

/-- A field of 64 bits is loaded as it is only by `MOVQ`. -/
theorem goes_getfield (hsse : f.kind.wide = true → cc.sse2Base = true) {ref : Word}
    (hcode : code bi = cc.emitGetfield f) :
    Goes cc.toLayout rt code bi 0 (ref :: stack) w
      (cc.getfield rt f ref w >>= fun r => .ok (falls (r.1 ++ stack) r.2)) := by
  simp only [Compiler.getfield, bind_assoc]
  refine goes_append (by rw [List.drop_zero, hcode]; rfl)
    (computes_difcBarrier (run_pushSlot rfl)) fun hcode w => ?_
  refine goes_field hcode ?_ fun offset hoffset w => Computes.intro ?_
  · rintro hoffset ⟨t0, t1, s0, xmm0, fp0, flags, trapParam, stk, below, world⟩ hstack
    simp only at hstack
    subst hstack
    simp only [Compiler.loadField, maybeTraced_of_none hoffset]
    by_cases hbarrier : f.kind = .reference ∧ cc.needsReadBarrier = true
    · simp only [if_pos hbarrier]
      simp [Compiler.compileGetfieldBarrier, genNullCheck, Target.parameterWords,
        Target.peekedWords, Compiler.callForWord, falls]
    · simp only [if_neg hbarrier]
      cases hwide : f.kind.wide with
      | false => simp [Compiler.emitLoadField, hwide, Compiler.loadWord, falls]
      | true => simp [Compiler.emitLoadField, hwide, hsse hwide, Compiler.loadQuad, falls]
  · intros
    simp only [Compiler.loadField, maybeTraced_of_some hoffset]
    by_cases hbarrier :
        f.kind = .reference ∧ cc.needsReadBarrier = true ∧ (!f.untraced) = true
    · simp only [if_pos hbarrier]
      simp [Compiler.compileGetfieldBarrier, genNullCheck, Target.parameterWords,
        Target.peekedWords, Compiler.callForWord, falls]
    · simp only [if_neg hbarrier]
      cases hwide : f.kind.wide with
      | false => simp [Compiler.emitLoadField, hwide, Compiler.loadWord, falls]
      | true => simp [Compiler.emitLoadField, hwide, hsse hwide, Compiler.loadQuad, falls]

theorem goes_unresolvedPutfield (hwide : f.kind.wide = false) {ref v : Word}
    (hoffset : f.offset = none) (hcode : code bi = cc.emitUnresolvedPutfield f) :
    Goes cc.toLayout rt code bi 0 (v :: ref :: stack) w
      (cc.putfield rt f ref v 0 w >>= fun w => .ok (falls stack w)) := by
  have hslot : (v :: ref :: stack)[Compiler.objectSlot f]? = some ref := by
    rw [Compiler.objectSlot, hwide]
    rfl
  simp only [Compiler.putfield, bind_assoc]
  refine goes_append (by rw [List.drop_zero, hcode]; rfl)
    (computes_difcBarrier (run_pushSlot hslot)) fun hcode w => ?_
  refine goes_link hoffset hcode (fun q p h => next_of_falls p h) ?_
  rintro ⟨t0, t1, s0, xmm0, fp0, flags, trapParam, stk, below, world⟩ hstack
  simp only at hstack
  subst hstack
  simp only [Compiler.putLinked, Compiler.checkResolved, Compiler.storeField, hwide, hoffset,
    maybeTraced_of_none hoffset]
  by_cases hbarrier : f.kind = .reference ∧ cc.needsWriteBarrier = true
  · simp only [if_pos hbarrier]
    simp [Compiler.compilePutfieldBarrier, genNullCheck, Target.parameterWords,
      Target.peekedWords, Compiler.callVoid, falls]
  · simp only [if_neg hbarrier]
    simp [Compiler.emitStoreField, hwide, falls]

theorem goes_resolvedPutfield (hwide : f.kind.wide = false) {ref v offset : Word}
    (hoffset : f.offset = some offset) (hcode : code bi = cc.emitResolvedPutfield f offset) :
    Goes cc.toLayout rt code bi 0 (v :: ref :: stack) w
      (cc.putfield rt f ref v 0 w >>= fun w => .ok (falls stack w)) := by
  have hslot : (v :: ref :: stack)[Compiler.objectSlot f]? = some ref := by
    rw [Compiler.objectSlot, hwide]
    rfl
  simp only [Compiler.putfield, bind_assoc]
  refine goes_append (by rw [List.drop_zero, hcode]; rfl)
    (computes_difcBarrier (run_pushSlot hslot)) fun hcode w => ?_
  rw [link_of_some hoffset, bind_ok]
  refine goes_of_computes hcode (fun p h => next_of_falls p h) ?_
  simp only [Compiler.putLinked, Compiler.checkResolved, bind_assoc, hoffset, Option.isSome_some,
    if_true]
  refine Computes.append (computes_compileModifyCheck rfl) fun w => Computes.intro ?_
  intros
  simp only [Compiler.storeField, hwide, maybeTraced_of_some hoffset]
  by_cases hbarrier :
      f.kind = .reference ∧ cc.needsWriteBarrier = true ∧ (!f.untraced) = true
  · simp only [if_pos hbarrier]
    simp [Compiler.compilePutfieldBarrier, genNullCheck, Target.parameterWords,
      Target.peekedWords, Compiler.callVoid, falls]
  · simp only [if_neg hbarrier]
    simp [Compiler.emitStoreField, hwide, falls]

theorem reference_ne_of_wide (hwide : f.kind.wide = true) : f.kind ≠ .reference := by
  intro h
  rw [h] at hwide
  cases hwide

theorem goes_putfield (hwide : f.kind.wide = false) {ref v : Word}
    (hcode : code bi = cc.emit bi (.putfield f)) :
    Goes cc.toLayout rt code bi 0 (v :: ref :: stack) w
      (cc.putfield rt f ref v 0 w >>= fun w => .ok (falls stack w)) := by
  cases hoffset : f.offset with
  | none => exact goes_unresolvedPutfield hwide hoffset (by rw [hcode, Compiler.emit, hoffset])
  | some offset =>
      exact goes_resolvedPutfield hwide hoffset (by rw [hcode, Compiler.emit, hoffset])

/-- A field of 64 bits is stored as it is only by `MOVQ`.  The check of a resolved one would get
the high word of the value. -/
theorem goes_putfield_wide (hwide : f.kind.wide = true) (hsse : cc.sse2Base = true)
    (hcheck : cc.extremeAssertions = true → f.offset = none) {ref low high : Word}
    (hcode : code bi = cc.emit bi (.putfield f)) :
    Goes cc.toLayout rt code bi 0 (low :: high :: ref :: stack) w
      (cc.putfield rt f ref low high w >>= fun w => .ok (falls stack w)) := by
  have hslot : (low :: high :: ref :: stack)[Compiler.objectSlot f]? = some ref := by
    rw [Compiler.objectSlot, hwide]
    rfl
  have hstore : ∀ r a, (cc.emitStoreField f r a : List (Instr B)) = ops
      [.movRegLoc .mov .s0 (.sp 2), .movqLoad (.sp 0), .movqStore (.mem a), .addSp 3] := by
    intro r a
    rw [Compiler.emitStoreField, hwide, hsse]
    rfl
  simp only [Compiler.putfield, bind_assoc]
  cases hoffset : f.offset with
  | none =>
      have hemit : code bi = cc.emitUnresolvedPutfield f := by
        rw [hcode, Compiler.emit, hoffset]
      refine goes_append (by rw [List.drop_zero, hemit]; rfl)
        (computes_difcBarrier (run_pushSlot hslot)) fun hcode w => ?_
      refine goes_link hoffset hcode (fun q p h => next_of_falls p h) ?_
      rintro ⟨t0, t1, s0, xmm0, fp0, flags, trapParam, stk, below, world⟩ hstack
      simp only at hstack
      subst hstack
      rw [if_neg fun h => reference_ne_of_wide hwide h.1, hstore]
      simp [Compiler.putLinked, Compiler.checkResolved, hoffset, hwide, falls]
  | some offset =>
      have hemit : code bi = cc.emitResolvedPutfield f offset := by
        rw [hcode, Compiler.emit, hoffset]
      have hassert : cc.extremeAssertions = false := by
        cases hassert : cc.extremeAssertions with
        | false => rfl
        | true => rw [hcheck hassert] at hoffset; cases hoffset
      refine goes_append (by rw [List.drop_zero, hemit]; rfl)
        (computes_difcBarrier (run_pushSlot hslot)) fun hcode w => ?_
      rw [link_of_some hoffset, bind_ok]
      refine goes_of_computes hcode (fun p h => next_of_falls p h) (Computes.intro ?_)
      intros
      rw [if_neg fun h => reference_ne_of_wide hwide h.1, hstore]
      simp [Compiler.compileModifyCheck, Compiler.putLinked, Compiler.checkResolved,
        Compiler.modifyCheck, hassert, hoffset, hwide, falls]

end Fields

/-! ## Allocations -/

section Allocations

variable {stack : List Word} {w : World B} {count : Word}

/-- The barrier of an allocation gets the new object, which is in `T0` and on the stack. -/
theorem forward_allocationBarrier (c : Cpu B) :
    (Code.forward (ia32 cc.toLayout rt) 0 cc.difcAllocationBarrierHelper c).map
        (fun p => (p.1, p.2.stack, p.2.world)) =
      cc.barrier rt .alloc c.t0 c.world >>= fun w => .ok (falls c.stack w) := by
  rw [Compiler.difcAllocationBarrierHelper, Compiler.difcBarrier, Compiler.barrier]
  cases cc.addBarriers .alloc with
  | none => rfl
  | some method =>
      simp [pushAndCall, Target.parameterWords, Target.peekedWords, Compiler.callVoid, falls]

/-- An allocation and its barrier. -/
theorem computes_allocation {is : List (Instr B)} {rest : List Word}
    {x : Except (Stop B) (Word × World B)}
    (h : ∀ c : Cpu B, c.stack = stack → c.world = w →
      ∃ g : Word × World B → Cpu B, Code.forward (ia32 cc.toLayout rt) 0 is c =
        (x >>= fun p => .ok (.skip 0, g p)) ∧
        ∀ p, (g p).t0 = p.1 ∧ (g p).stack = p.1 :: rest ∧ (g p).world = p.2) :
    Computes cc.toLayout rt (is ++ cc.difcAllocationBarrierHelper) stack w
      ((x >>= cc.allocated rt) >>= fun r => .ok (falls (r.1 :: rest) r.2)) := by
  intro c hstack hw
  obtain ⟨g, hforward, hg⟩ := h c hstack hw
  rw [Code.forward_append, hforward]
  cases x with
  | error e => rfl
  | ok p =>
      obtain ⟨ht0, hgstack, hgworld⟩ := hg p
      simp only [bind_ok, Compiler.allocated, bind_assoc, pure_eq]
      rw [← hgstack, ← hgworld, ← ht0]
      exact forward_allocationBarrier (g p)

theorem computes_new (t : ClassReference) :
    Computes cc.toLayout rt (cc.emitNew t) stack w
      (cc.new rt t w >>= fun r => .ok (falls (r.1 :: stack) r.2)) := by
  cases t with
  | unresolved id =>
      refine computes_allocation ?_
      rintro ⟨t0, t1, s0, xmm0, fp0, flags, trapParam, stk, below, world⟩ rfl rfl
      refine ⟨fun p => (Cpu.leftBy rt stk p).push p.1, ?_, fun p => ⟨rfl, rfl, rfl⟩⟩
      simp [Compiler.callAllocation, Compiler.allocateScalar, Target.parameterWords,
        Target.peekedWords]
  | resolved instanceSize tibOffset hasFinalizer whichAllocator align offset =>
      refine computes_allocation ?_
      rintro ⟨t0, t1, s0, xmm0, fp0, flags, trapParam, stk, below, world⟩ rfl rfl
      refine ⟨fun p => (Cpu.leftBy rt stk p).push p.1, ?_, fun p => ⟨rfl, rfl, rfl⟩⟩
      simp [Compiler.callAllocation, Compiler.allocateScalar, Target.parameterWords,
        Target.peekedWords]

theorem computes_newarray (t : ArrayReference) :
    Computes cc.toLayout rt (cc.emitNewarray t) (count :: stack) w
      (cc.newarray rt t count w >>= fun r => .ok (falls (r.1 :: stack) r.2)) := by
  cases t with
  | unresolved id =>
      refine computes_allocation ?_
      rintro ⟨t0, t1, s0, xmm0, fp0, flags, trapParam, stk, below, world⟩ hstack rfl
      simp only at hstack
      subst hstack
      refine ⟨fun p => (Cpu.leftBy rt stack p).push p.1, ?_, fun p => ⟨rfl, rfl, rfl⟩⟩
      simp [Compiler.callAllocation, Compiler.allocateArray, Target.parameterWords,
        Target.peekedWords]
  | resolved width headerSize tibOffset whichAllocator align offset =>
      refine computes_allocation ?_
      rintro ⟨t0, t1, s0, xmm0, fp0, flags, trapParam, stk, below, world⟩ hstack rfl
      simp only at hstack
      subst hstack
      refine ⟨fun p => (Cpu.leftBy rt stack p).push p.1, ?_, fun p => ⟨rfl, rfl, rfl⟩⟩
      simp [Compiler.callAllocation, Compiler.allocateArray, Target.parameterWords,
        Target.peekedWords]

/-- The dimensions are taken off the stack, and `T0` is left alone. -/
theorem forward_popDimensions (layout : Layout) (rt : Runtime B) (dims : List Word)
    (is : List (Instr B)) (c : Cpu B) (hstack : c.stack = dims ++ stack) :
    ∃ c' : Cpu B, c'.t0 = c.t0 ∧ c'.stack = stack ∧ c'.world = c.world ∧
      Code.forward (ia32 layout rt) 0 (ops (List.replicate dims.length (.popReg .s0)) ++ is) c =
        Code.forward (ia32 layout rt) 0 is c' := by
  induction dims generalizing c with
  | nil => exact ⟨c, rfl, hstack, rfl, rfl⟩
  | cons d dims ih =>
      obtain ⟨t0, t1, s0, xmm0, fp0, flags, trapParam, stk, below, world⟩ := c
      simp only at hstack
      subst hstack
      obtain ⟨c', ht0, hstack', hworld, hforward⟩ := ih
        ⟨t0, t1, d, xmm0, fp0, flags, trapParam, dims ++ stack,
          fun i => if i = 0 then d else below (i - 1), world⟩ rfl
      exact ⟨c', ht0, hstack', hworld, hforward⟩

theorem computes_multianewarray (id : Word) (dims : List Word) :
    Computes cc.toLayout rt (cc.emitMultianewarray id dims.length) (dims ++ stack) w
      (cc.multianewarray rt id dims w >>= fun r => .ok (falls (r.1 :: stack) r.2)) := by
  rw [Compiler.emitMultianewarray, ← List.append_assoc, Compiler.multianewarray]
  refine computes_allocation ?_
  rintro ⟨t0, t1, s0, xmm0, fp0, flags, trapParam, stk, below, world⟩ hstack rfl
  simp only at hstack
  subst hstack
  choose g ht0 hgstack hgworld hpops using fun p : Word × World B =>
    forward_popDimensions cc.toLayout rt dims [.op (.pushReg .t0)]
      (Cpu.leftBy rt (dims ++ stack) p) rfl
  refine ⟨fun p => (g p).push (g p).t0, ?_, ?_⟩
  · rw [List.append_assoc]
    simp [Target.parameterWords, Target.peekedWords, hpops]
  · intro p
    refine ⟨ht0 p, ?_, hgworld p⟩
    show (g p).t0 :: (g p).stack = p.1 :: stack
    rw [ht0, hgstack]
    rfl

end Allocations

/-! ## Locals and branches -/

section Locals

variable {operands locals : List Word} {index bi : Nat}

/-- The slot of a local variable under the operands. -/
theorem getElem?_localOffset (hoperands : operands.length = cc.height bi)
    (hlocals : locals.length = cc.localWords) (hindex : index < cc.localWords) :
    (operands ++ locals.reverse)[cc.localOffset bi index]? = locals[index]? := by
  have hslot : cc.localOffset bi index = operands.length + (locals.length - 1 - index) := by
    rw [Compiler.localOffset]
    omega
  rw [hslot, List.getElem?_append_right (by omega), Nat.add_sub_cancel_left,
    List.getElem?_reverse (by omega)]
  congr 1
  omega

/-- A store to the slot of a local variable. -/
theorem set_localOffset {v : Word} (hoperands : operands.length + 1 = cc.height bi)
    (hlocals : locals.length = cc.localWords) (hindex : index < cc.localWords) :
    (operands ++ locals.reverse).set (cc.localOffset bi index - 1) v =
      operands ++ (locals.set index v).reverse := by
  have hslot : cc.localOffset bi index - 1 = operands.length + (locals.length - 1 - index) := by
    rw [Compiler.localOffset]
    omega
  rw [hslot, List.set_append_right _ _ (by omega), Nat.add_sub_cancel_left]
  congr 1
  refine List.ext_getElem (by simp) fun j hj _ => ?_
  have hlt : j < locals.length := by simpa using hj
  simp only [List.getElem_set, List.getElem_reverse, List.length_set]
  by_cases hj : locals.length - 1 - index = j
  · rw [if_pos hj, if_pos (by omega)]
  · rw [if_neg hj, if_neg (by omega)]

theorem computes_iload {v : Word} {w : World B} (hoperands : operands.length = cc.height bi)
    (hlocals : locals.length = cc.localWords) (hv : locals[index]? = some v) :
    Computes cc.toLayout rt (cc.emit bi (.iload index)) (operands ++ locals.reverse) w
      (.ok (falls (v :: (operands ++ locals.reverse)) w)) := by
  have hindex : index < cc.localWords := by
    rw [← hlocals]
    exact (List.getElem?_eq_some_iff.1 hv).1
  have hslot := getElem?_localOffset hoperands hlocals hindex
  refine Computes.intro ?_
  intros
  simp [Compiler.emit, hslot, hv, falls]

theorem computes_istore {v : Word} {w : World B} (hoperands : operands.length + 1 = cc.height bi)
    (hlocals : locals.length = cc.localWords) (hindex : index < cc.localWords) :
    Computes cc.toLayout rt (cc.emit bi (.istore index)) (v :: (operands ++ locals.reverse)) w
      (.ok (falls (operands ++ (locals.set index v).reverse) w)) := by
  have hlt : cc.localOffset bi index - 1 < operands.length + locals.length := by
    rw [Compiler.localOffset]
    omega
  refine Computes.intro ?_
  intros
  simp [Compiler.emit, hlt, set_localOffset hoperands hlocals hindex, falls]

end Locals

/-- The yieldpoint of a branch. -/
theorem computes_threadSwitchTest {bi target : Nat} {stack : List Word} {w : World B} :
    Computes cc.toLayout rt (cc.threadSwitchTest bi target) stack w
      ((cc.yieldpoint rt bi target w).map (falls stack)) := by
  refine Computes.intro ?_
  intros
  rw [Compiler.threadSwitchTest, Compiler.genThreadSwitchTest, Compiler.yieldpoint]
  by_cases hback : target ≤ bi
  · cases cc.isInterruptible with
    | false => simp [hback, falls]
    | true =>
        cases hflag : (w.takeYieldpoint rt).1.sle 0#32 with
        | true => simp [hback, hflag, falls]
        | false =>
            simp [hback, hflag, falls, Target.parameterWords, Target.peekedWords,
              Compiler.callVoid]
  · simp [hback, falls]

/-! ## Bytecodes -/

/-- The result `r` of some code is what a bytecode does to the frame. -/
def Matches (bi : Nat) (r : Except (Stop B) (Code.Exit × List Word × World B))
    (x : Except (Stop B) (Nat × Frame B)) : Prop :=
  r.map (fun p => (p.1.next bi, p.2)) =
    x.map fun q => (some q.1, q.2.operands ++ q.2.locals.reverse, q.2.world)

/-- A bytecode without a branch. -/
theorem matches_falls {α : Type} {bi : Nat} {x : Except (Stop B) α} {stack : α → List Word}
    {w : α → World B} {frame : α → Frame B}
    (h : ∀ a, stack a = (frame a).operands ++ (frame a).locals.reverse ∧ w a = (frame a).world) :
    Matches bi (x >>= fun a => .ok (falls (stack a) (w a)))
      (x >>= fun a => pure (bi + 1, frame a)) := by
  cases x with
  | error e => rfl
  | ok a =>
      obtain ⟨hstack, hw⟩ := h a
      simp only [bind_ok, pure_eq, Matches, map_ok, hstack, hw]
      rfl

section Bytecodes

variable {code : Nat → List (Instr B)} {bi : Nat} {stack : List Word} {world : World B}
  {is : List (Instr B)}

/-- Code that computes its result on the way to the next bytecode. -/
theorem exists_goes_of_computes {α : Type} {x : Except (Stop B) α} {after : α → List Word}
    {w : α → World B} {frame : α → Frame B} (hcode : (code bi).drop 0 = is)
    (hcomputes : Computes cc.toLayout rt is stack world
      (x >>= fun a => .ok (falls (after a) (w a))))
    (h : ∀ a, after a = (frame a).operands ++ (frame a).locals.reverse ∧ w a = (frame a).world) :
    ∃ r, Goes cc.toLayout rt code bi 0 stack world r ∧
      Matches bi r (x >>= fun a => pure (bi + 1, frame a)) :=
  ⟨_, goes_of_computes hcode (fun p h => next_of_falls p h) hcomputes, matches_falls h⟩

/-- The same for code that does not touch the heap. -/
theorem exists_goes_of_ok {after : List Word} {frame : Frame B} (hcode : (code bi).drop 0 = is)
    (hcomputes : Computes cc.toLayout rt is stack world (.ok (falls after world)))
    (hstack : after = frame.operands ++ frame.locals.reverse) (hworld : world = frame.world) :
    ∃ r, Goes cc.toLayout rt code bi 0 stack world r ∧
      Matches bi r (.ok (bi + 1, frame)) := by
  subst hstack hworld
  refine ⟨_, goes_of_computes hcode ?_ hcomputes, rfl⟩
  intro p hp
  cases hp
  exact Option.some_ne_none _

/-- A branch, after its yieldpoint. -/
theorem exists_goes_of_branch {target : Nat} {p : Prop} [Decidable p] {rest locals : List Word}
    {counted : World B → World B}
    (hcode : (code bi).drop 0 = cc.threadSwitchTest bi target ++ is)
    (his : ∀ w, Computes cc.toLayout rt is stack w
      (.ok (if p then .label target else .skip 0, rest ++ locals.reverse, counted w))) :
    ∃ r, Goes cc.toLayout rt code bi 0 stack world r ∧
      Matches bi r (cc.yieldpoint rt bi target world >>= fun w =>
        pure (if p then target else bi + 1, ⟨rest, locals, counted w⟩)) := by
  refine ⟨_, goes_of_computes hcode ?_ (Computes.append computes_threadSwitchTest his), ?_⟩
  · intro q hq
    obtain ⟨w, -, hq⟩ := bind_eq_ok.1 hq
    cases hq
    split <;> exact Option.some_ne_none _
  · cases cc.yieldpoint rt bi target world with
    | error e => rfl
    | ok w =>
        simp only [Matches, bind_ok, pure_eq, map_ok]
        split <;> rfl

theorem computes_goto {target : Nat} {w : World B} :
    Computes cc.toLayout rt [.goto target] stack w
      (.ok (if True then .label target else .skip 0, stack, w)) := by
  refine Computes.intro ?_
  intros
  simp

/-- The code that counts. -/
theorem forward_incEdgeCounter (n : Nat) (is : List (Instr B)) (c : Cpu B) :
    Code.forward (ia32 cc.toLayout rt) 0 (Compiler.incEdgeCounter .t1 n ++ is) c =
      Code.forward (ia32 cc.toLayout rt) 0 is { c with
        t1 := c.world.heap.edgeCounters n + 1
        flags := (c.world.heap.edgeCounters n + 1, 0)
        world := Compiler.increment n c.world } := by
  cases hsign : (c.world.heap.edgeCounters n + 1#32).msb <;>
    simp [Compiler.incEdgeCounter, Compiler.increment, hsign]

/-- A conditional branch goes by the condition, and is counted. -/
theorem forward_genCondBranch (cond : Cond) (target : Nat) (c : Cpu B) :
    (Code.forward (ia32 cc.toLayout rt) 0 (cc.genCondBranch bi cond target) c).map
        (fun p => (p.1, p.2.stack, p.2.world)) =
      .ok (if c.holds cond then .label target else .skip 0, c.stack,
        cc.countBranch bi (c.holds cond) c.world) := by
  rw [Compiler.genCondBranch, Compiler.countBranch]
  cases cc.hasCounterArray with
  | false =>
      rw [if_neg Bool.false_ne_true, if_neg Bool.false_ne_true, Code.forward_gotoIf, ia32_holds]
      cases c.holds cond <;> rfl
  | true =>
      rw [if_pos rfl, if_pos rfl, List.cons_append, Code.forward_skipIf, ia32_holds,
        Cpu.holds_flipCode]
      cases c.holds cond with
      | true =>
          rw [Bool.not_true, if_neg Bool.false_ne_true, forward_incEdgeCounter]
          rfl
      | false =>
          show (Code.forward _ 0 (Compiler.incEdgeCounter .t1 _) c).map _ = _
          rw [← List.append_nil (Compiler.incEdgeCounter ..), forward_incEdgeCounter]
          rfl

theorem computes_ifeq {target : Nat} {v : Word} {w : World B} :
    Computes cc.toLayout rt (ops [.popReg .t0, .testReg .t0] ++ cc.genCondBranch bi .eq target)
      (v :: stack) w
      (.ok (if v = 0 then .label target else .skip 0, stack, cc.countBranch bi (v = 0) w)) := by
  refine Computes.intro ?_
  intros
  simp [forward_genCondBranch]

theorem computes_ifIcmplt {target : Nat} {a b : Word} {w : World B} :
    Computes cc.toLayout rt
      (ops [.popReg .s0, .popReg .t0, .cmpRegReg .t0 .s0] ++ cc.genCondBranch bi .lt target)
      (b :: a :: stack) w
      (.ok (if a.slt b then .label target else .skip 0, stack,
        cc.countBranch bi (a.slt b) w)) := by
  refine Computes.intro ?_
  intros
  simp [forward_genCondBranch]
  rfl

theorem computes_emitArrayStore_all (k : ArrayKind) (hwide : k.wide = false) {v index ref : Word}
    {rest : List Word} {w : World B} :
    Computes cc.toLayout rt (cc.emit bi (.arrayStore k)) (v :: index :: ref :: rest) w
      (cc.arrayStore rt k ref index v w >>= fun w => .ok (falls rest w)) := by
  cases k with
  | long | double => cases hwide
  | reference => exact computes_emitAastore
  | int => exact computes_emitArrayStore (k := .int) (fun h => by cases h)
  | float => exact computes_emitArrayStore (k := .float) (fun h => by cases h)
  | char => exact computes_emitArrayStore (k := .char) (fun h => by cases h)
  | short => exact computes_emitArrayStore (k := .short) (fun h => by cases h)
  | byte => exact computes_emitArrayStore (k := .byte) (fun h => by cases h)

theorem computes_emitWideStore_all (k : ArrayKind) (hwide : k.wide = true)
    {low high index ref : Word} {rest : List Word} {w : World B} :
    Computes cc.toLayout rt (cc.emit bi (.arrayStore k)) (low :: high :: index :: ref :: rest) w
      (cc.arrayStoreWide rt k ref index low high w >>= fun w => .ok (falls rest w)) := by
  cases k with
  | long => exact computes_emitWideStore (k := .long) rfl
  | double => exact computes_emitWideStore (k := .double) rfl
  | _ => cases hwide

/-- **The code of every bytecode does what the bytecode does**, whatever the registers hold. -/
theorem exists_goes (rt : Runtime B) {length : Nat} {f : Frame B} {bytecode : Bytecode}
    {bytecodes : List Bytecode} (hfits : cc.Fits length bi bytecode)
    (hexact : cc.MovesExactly bytecodes) (hmem : bytecode ∈ bytecodes)
    (hoperands : f.operands.length = cc.height bi)
    (hlocals : f.locals.length = cc.localWords) (hcode : code bi = cc.emit bi bytecode) :
    ∃ r, Goes cc.toLayout rt code bi 0 (f.operands ++ f.locals.reverse) f.world r ∧
      Matches bi r (cc.exec rt bi f bytecode) := by
  obtain ⟨operands, locals, world⟩ := f
  have hpops := hoperands ▸ hfits.pops_le
  have hdrop : (code bi).drop 0 = cc.emit bi bytecode := hcode
  simp only at hoperands hlocals hpops ⊢
  cases bytecode with
  | aconstNull | iconst val =>
      refine exists_goes_of_ok hdrop (Computes.intro ?_) rfl rfl
      intros
      simp [Compiler.emit, falls]
  | iload index =>
      have hindex := hfits.index_lt index (.inl rfl)
      obtain ⟨v, hv⟩ : ∃ v, locals[index]? = some v :=
        ⟨_, List.getElem?_eq_getElem (hlocals.symm ▸ hindex)⟩
      rw [Compiler.exec, hv]
      exact exists_goes_of_ok hdrop (computes_iload hoperands hlocals hv) rfl rfl
  | istore index =>
      have hindex := hfits.index_lt index (.inr rfl)
      rcases operands with _ | ⟨v, rest⟩
      · simp [Bytecode.pops] at hpops
      · exact exists_goes_of_ok hdrop (computes_istore hoperands hlocals hindex) rfl rfl
  | pop =>
      rcases operands with _ | ⟨v, rest⟩
      · simp [Bytecode.pops] at hpops
      · refine exists_goes_of_ok hdrop (Computes.intro ?_) rfl rfl
        intros
        simp [Compiler.emit, falls]
  | iadd =>
      rcases operands with _ | ⟨b, _ | ⟨a, rest⟩⟩
      iterate 2 simp [Bytecode.pops] at hpops
      refine exists_goes_of_ok hdrop (Computes.intro ?_) rfl rfl
      intros
      simp [Compiler.emit, falls]
  | arrayLoad k =>
      rcases operands with _ | ⟨index, _ | ⟨ref, rest⟩⟩
      iterate 2 simp [Bytecode.pops] at hpops
      exact exists_goes_of_computes hdrop (computes_arrayLoad bi k)
        fun r => ⟨(List.append_assoc _ _ _).symm, rfl⟩
  | arrayStore k =>
      rw [Compiler.exec]
      cases hwide : k.wide with
      | true =>
          rcases operands with _ | ⟨low, _ | ⟨high, _ | ⟨index, _ | ⟨ref, rest⟩⟩⟩⟩
          iterate 4 simp [Bytecode.pops, ArrayKind.words, hwide] at hpops
          exact exists_goes_of_computes hdrop (computes_emitWideStore_all k hwide)
            fun w => ⟨rfl, rfl⟩
      | false =>
          rcases operands with _ | ⟨v, _ | ⟨index, _ | ⟨ref, rest⟩⟩⟩
          iterate 3 simp [Bytecode.pops, ArrayKind.words, hwide] at hpops
          exact exists_goes_of_computes hdrop (computes_emitArrayStore_all k hwide)
            fun w => ⟨rfl, rfl⟩
  | getstatic field =>
      exact ⟨_, goes_getstatic hcode,
        matches_falls fun r => ⟨(List.append_assoc _ _ _).symm, rfl⟩⟩
  | putstatic field =>
      rw [Compiler.exec]
      cases hwide : field.kind.wide with
      | true =>
          rcases operands with _ | ⟨low, _ | ⟨high, rest⟩⟩
          iterate 2 simp [Bytecode.pops, Kind.words, hwide] at hpops
          exact ⟨_, goes_putstatic_wide hwide hcode, matches_falls fun w => ⟨rfl, rfl⟩⟩
      | false =>
          rcases operands with _ | ⟨v, rest⟩
          · simp [Bytecode.pops, Kind.words, hwide] at hpops
          · exact ⟨_, goes_putstatic hwide hcode, matches_falls fun w => ⟨rfl, rfl⟩⟩
  | getfield field =>
      rcases operands with _ | ⟨ref, rest⟩
      · simp [Bytecode.pops] at hpops
      · exact ⟨_, goes_getfield (hexact.sse2 field (.inl hmem)) hcode,
          matches_falls fun r => ⟨(List.append_assoc _ _ _).symm, rfl⟩⟩
  | putfield field =>
      rw [Compiler.exec]
      cases hwide : field.kind.wide with
      | true =>
          rcases operands with _ | ⟨low, _ | ⟨high, _ | ⟨ref, rest⟩⟩⟩
          iterate 3 simp [Bytecode.pops, Kind.words, hwide] at hpops
          exact ⟨_, goes_putfield_wide hwide (hexact.sse2 field (.inr hmem) hwide)
            (hexact.check field hmem hwide) hcode, matches_falls fun w => ⟨rfl, rfl⟩⟩
      | false =>
          rcases operands with _ | ⟨v, _ | ⟨ref, rest⟩⟩
          iterate 2 simp [Bytecode.pops, Kind.words, hwide] at hpops
          exact ⟨_, goes_putfield hwide hcode, matches_falls fun w => ⟨rfl, rfl⟩⟩
  | new t =>
      exact exists_goes_of_computes hdrop (computes_new t) fun r => ⟨rfl, rfl⟩
  | newarray t =>
      rcases operands with _ | ⟨count, rest⟩
      · simp [Bytecode.pops] at hpops
      · exact exists_goes_of_computes hdrop (computes_newarray t) fun r => ⟨rfl, rfl⟩
  | multianewarray id dimensions =>
      have hdims : (operands.take dimensions).length = dimensions := by
        rw [List.length_take]
        exact Nat.min_eq_left hpops
      have hcomputes : Computes cc.toLayout rt _
          (_ ++ (operands.drop dimensions ++ locals.reverse)) world _ :=
        computes_multianewarray id (operands.take dimensions)
      rw [hdims, ← List.append_assoc, List.take_append_drop] at hcomputes
      exact exists_goes_of_computes hdrop hcomputes fun r => ⟨rfl, rfl⟩
  | arraylength =>
      rcases operands with _ | ⟨ref, rest⟩
      · simp [Bytecode.pops] at hpops
      · have hcomputes : Computes cc.toLayout rt (cc.emit bi .arraylength)
            (ref :: (rest ++ locals.reverse)) world
            (world.header ref (ref + cc.arrayLengthOffset) >>= fun r =>
              .ok (falls (r.1 :: (rest ++ locals.reverse)) r.2)) := by
          refine Computes.intro ?_
          intros
          simp [Compiler.emit, falls]
        exact exists_goes_of_computes hdrop hcomputes fun r => ⟨rfl, rfl⟩
  | goto target =>
      exact exists_goes_of_branch hdrop fun w => computes_goto
  | ifeq target =>
      rcases operands with _ | ⟨v, rest⟩
      · simp [Bytecode.pops] at hpops
      · exact exists_goes_of_branch hdrop fun w => computes_ifeq
  | ifIcmplt target =>
      rcases operands with _ | ⟨b, _ | ⟨a, rest⟩⟩
      iterate 2 simp [Bytecode.pops] at hpops
      exact exists_goes_of_branch hdrop fun w => computes_ifIcmplt
  | ireturn =>
      rcases operands with _ | ⟨v, rest⟩
      · simp [Bytecode.pops] at hpops
      · refine ⟨.error _, goes_of_computes hdrop (fun p h => by cases h) (Computes.intro ?_), rfl⟩
        intros
        simp [Compiler.emit]
  | return_ =>
      refine ⟨.error _, goes_of_computes hdrop (fun p h => by cases h) (Computes.intro ?_), rfl⟩
      intros
      simp [Compiler.emit]

end Bytecodes

/-! ## Methods -/

/-- The machine with the code of a method. -/
def Compiler.machineStep (cc : Compiler B) (rt : Runtime B) (code : List Bytecode) :
    Code.Place (Cpu B) → Except (Stop B) (Code.Place (Cpu B)) :=
  Code.step (ia32 cc.toLayout rt) (cc.genCode code)

/-- The machine is about to run the code of a bytecode, with the frame on its stack. -/
structure Represents (cc : Compiler B) (code : List Bytecode) (s : Activation B)
    (x : Code.Place (Cpu B)) : Prop where
  valid : s.Valid cc code
  label : x.label = s.bi
  index : x.index = 0
  stack : x.state.stack = s.frame.operands ++ s.frame.locals.reverse
  world : x.state.world = s.frame.world

section Methods

variable {code : List Bytecode} {s : Activation B} {x : Code.Place (Cpu B)}

theorem Activation.Valid.exists_bytecode (hvalid : s.Valid cc code) :
    ∃ bytecode, code[s.bi]? = some bytecode :=
  ⟨_, List.getElem?_eq_getElem hvalid.bi_lt⟩

theorem bytecodeStep_of_some {bytecode : Bytecode} (h : code[s.bi]? = some bytecode) :
    bytecodeStep cc rt code s =
      (cc.exec rt s.bi s.frame bytecode).map fun q => ⟨q.1, q.2⟩ := by
  rw [bytecodeStep, h]
  cases hexec : cc.exec rt s.bi s.frame bytecode <;> simp [hexec]

/-- The bytecodes of a verified method keep the frame as the compiler expects it. -/
theorem valid_of_exec (hverified : cc.Verified code) (hvalid : s.Valid cc code)
    {bytecode : Bytecode} (hbytecode : code[s.bi]? = some bytecode) {q : Nat × Frame B}
    (hexec : cc.exec rt s.bi s.frame bytecode = .ok q) :
    (⟨q.1, q.2⟩ : Activation B).Valid cc code := by
  have hfits := hverified _ _ hbytecode
  have hpops := hvalid.operands ▸ hfits.pops_le
  obtain ⟨htarget, hoperands, hlocals⟩ := Compiler.exec_targets hpops hexec
  obtain ⟨hlt, hheight⟩ := hfits.target q.1 htarget
  refine ⟨hlt, ?_, hlocals.trans hvalid.locals⟩
  rw [hheight, hoperands, hvalid.operands]

/-- The code of a bytecode leads to the code of the next one. -/
theorem leads_of_represents (rt : Runtime B) (hverified : cc.Verified code)
    (hexact : cc.MovesExactly code) (h : Represents cc code s x) :
    Code.Leads (cc.machineStep rt code) x
      (Code.Lifts (Represents cc code) (bytecodeStep cc rt code s)) := by
  obtain ⟨hvalid, hlabel, hindex, hstack, hworld⟩ := h
  obtain ⟨bytecode, hbytecode⟩ := hvalid.exists_bytecode
  have hcode : cc.genCode code s.bi = cc.emit s.bi bytecode := by
    rw [Compiler.genCode, hbytecode]
  obtain ⟨r, hgoes, hmatches⟩ :=
    exists_goes rt (hverified _ _ hbytecode) hexact (List.mem_of_getElem? hbytecode)
      hvalid.operands hvalid.locals hcode
  obtain ⟨label, index, c⟩ := x
  subst hlabel hindex
  obtain ⟨n, hn⟩ := hgoes c hstack hworld
  rw [Ends, hmatches, Code.lifts_map] at hn
  refine ⟨n, ?_⟩
  rw [bytecodeStep_of_some hbytecode, Code.lifts_map]
  refine hn.mono fun q y hexec hy => ?_
  obtain ⟨hlabel, hindex, hstack', hworld'⟩ := hy
  exact ⟨valid_of_exec hverified hvalid hbytecode hexec, (Option.some.inj hlabel).symm, hindex,
    hstack', hworld'⟩

/-- **The code of a method does what its bytecodes do.**  From the code of a bytecode on, with the
frame on the stack and anything in the registers, the machine stops exactly as the bytecodes do:
for the same reason, with the same heap and after the same events, or neither of them stops.
Whatever the bytecodes reach, the machine reaches, and every state of the machine is on its way to
the code of a bytecode that is reached.  The build must move the 64-bit fields of the method as
they are. -/
theorem compiled_method_correct (hverified : cc.Verified code) (hexact : cc.MovesExactly code)
    (h : Represents cc code s x) :
    (∀ e, (∃ n, Code.steps (cc.machineStep rt code) n x = .error e) ↔
      ∃ n, Code.steps (bytecodeStep cc rt code) n s = .error e) ∧
    (∀ n, ∃ k, Code.Lifts (Represents cc code) (Code.steps (bytecodeStep cc rt code) n s)
      (Code.steps (cc.machineStep rt code) k x)) ∧
    ∀ n, ∃ k j, Code.Lifts (Represents cc code) (Code.steps (bytecodeStep cc rt code) k s)
      (Code.steps (cc.machineStep rt code) (n + j) x) := by
  have hsim : ∀ s x, Represents cc code s x → Code.Leads (cc.machineStep rt code) x
      (Code.Lifts (Represents cc code) (bytecodeStep cc rt code s)) :=
    fun _ _ hrep => leads_of_represents rt hverified hexact hrep
  exact ⟨Code.stops_iff_of_sim hsim h, Code.exists_steps_of_sim hsim h,
    Code.exists_steps_of_sim_back hsim h⟩

end Methods

/-! ## A method -/

/-- `while (this.f == 0);`, with the field still to be linked. -/
def spin : List Bytecode := [.iload 0, .getfield ⟨3, .int, none, false⟩, .ifeq 0, .return_]

/-- The compiler at `spin`, for code outside secure regions. -/
def spinCompiler : Compiler BarrierMethod where
  toc := 0x1000
  arrayLengthOffset := -4
  tibOffset := -12
  sse2Base := true
  extremeAssertions := false
  needsReadBarrier := false
  needsWriteBarrier := false
  generateBoundsChecks := true
  isInterruptible := true
  addBarriers := Vm.addBarriers (Vm.barrierOptions false) true false
  methodId := 0
  site := 0
  hasCounterArray := true
  edgeCounterIdx := fun _ => 0
  localWords := 1
  height := fun bi => if bi = 1 ∨ bi = 2 then 1 else 0

/-- Every call returns, and a member is put at offset 8. -/
def idleReply (heap : Heap) : Target BarrierMethod → Reply
  | .resolveMember => .returned 0 { heap with memberOffsets := fun _ => 8 }
  | _ => .returned 0 heap

theorem idle_resolves {heap heap' : Heap} {id result : Word}
    (h : idleReply heap .resolveMember = .returned result heap') :
    heap'.memberOffsets id ≠ needsDynamicLink := by
  cases h
  show (8 : Word) ≠ needsDynamicLink
  decide

/-- A runtime that does nothing else. -/
def idle : Runtime BarrierMethod where
  reply := fun _ heap target _ => idleReply heap target
  scratch := fun _ => ⟨0, 0, (0, 0), (0, 0), (0, 0), 0, fun _ => 0⟩
  takeYieldpoint := fun _ => 0
  resolves := fun _ _ _ _ _ h => idle_resolves h

theorem spin_verified : spinCompiler.Verified spin := by
  intro bi bytecode h
  rcases bi with _ | _ | _ | _ | bi <;> cases h
  all_goals
    refine ⟨by decide, by decide, ?_⟩
    rintro index (h | h) <;> cases h <;> decide

theorem spin_movesExactly : spinCompiler.MovesExactly spin :=
  ⟨fun _ _ _ => rfl, fun _ _ _ h => by cases h⟩

/-- `spin` is called with an object at `0x2000`. -/
def spinStart : Activation BarrierMethod :=
  ⟨0, [], [0x2000], ⟨fun _ => 1, fun _ => needsDynamicLink, fun _ => 0⟩, []⟩

def spinEntry : Code.Place (Cpu BarrierMethod) :=
  ⟨0, 0, 1, 2, 3, (4, 5), (6, 7), (0, 0), 0, [0x2000], fun _ => 0, spinStart.frame.world⟩

theorem spin_represents : Represents spinCompiler spin spinStart spinEntry :=
  ⟨⟨by decide, rfl, rfl⟩, rfl, rfl, rfl, rfl⟩

/-- The field is linked and read once, and is not 0; the branch back is counted as not taken. -/
def spinEnd : Stop BarrierMethod :=
  ⟨.returned none, ⟨fun _ => 1, fun _ => 8, fun i => if i = 1 then 1 else 0⟩,
    [.call (.barrier .readBarrierOutsideSR) [0x2000], .memberOffset 3 needsDynamicLink,
      .call .resolveMember [3], .memberOffset 3 8, .load 0x2000 0x2008, .takeYieldpoint 0]⟩

theorem compiled_spin_returns :
    ∃ n, Code.steps (spinCompiler.machineStep idle spin) n spinEntry = .error spinEnd :=
  ((compiled_method_correct spin_verified spin_movesExactly spin_represents).1 spinEnd).2
    ⟨4, rfl⟩

end Laminar.Baseline
