import Laminar.Vm.Placement
import Laminar.Baseline.Mediation

/-!
# Compiled code and the labels

The barriers of class `DIFC` take the place of the open ones.  At each moment of a run there is the
state of the thread and there are the labels of the objects (`Setting`).  A barrier looks at them
when it is called; an access comes after it, and if no other code could run in between they are
still the same.

Code outside regions tells a labeled object by its reference, which is no good at the ends of the
labeled space; `LiesClear` is what the result asks of an object there.
-/

namespace Laminar.Baseline

open Laminar.Lib
open Laminar.Vm (BarrierType BarrierMethod BarrierOptions GreenThread ObjectCell ObjectLabels
  Referent Space)

/-! ## The policy -/

section Barriers

variable {labeledSpace : Space} {th : GreenThread} {obj : Referent}

end Barriers

/-! ## Threads and labels along a run -/

/-- The thread that runs the code and the labels of the objects, after what has happened. -/
structure Setting where
  thread : List (Event BarrierMethod) → GreenThread
  labels : List (Event BarrierMethod) → Word → ObjectLabels

/-- Events that run no code but that of a barrier for an access or an assertion. -/
def Event.steady : Event BarrierMethod → Bool
  | .call (.barrier method) _ =>
      method ≠ .allocBarrierInsideSR && method ≠ .allocBarrierDynamic
  | .call .modifyCheck _ => true
  | .call _ _ => false
  | .load _ _ | .store _ _ | .header _ | .memberOffset _ _ | .takeYieldpoint _ => true

section Policy

variable {labeledSpace : Space} {now : Setting} {cc : Compiler BarrierMethod}
  {rt : Runtime BarrierMethod} {code : List Bytecode}
  {start past : List (Event BarrierMethod)} {type : BarrierType} {ref : Word}

end Policy

/-! ## A method inside and outside of a region -/

/-- Barriers are answered by class `DIFC`, and all else as by `idleReply`. -/
def Setting.reply (labeledSpace : Space) (now : Setting) (trace : List (Event BarrierMethod))
    (heap : Heap) (target : Target BarrierMethod) (args : List Word) : Reply :=
  match target, args with
  | .barrier method, [ref] =>
      if (method.call labeledSpace (now.thread trace) ⟨ref, now.labels trace ref⟩).1 = .returned
      then .returned 0 heap
      else .threw heap
  | target, _ => idleReply heap target

/-- A thread and labels that stay as they are. -/
def Setting.const (th : GreenThread) (obj : ObjectLabels) : Setting := ⟨fun _ => th, fun _ _ => obj⟩

end Laminar.Baseline
