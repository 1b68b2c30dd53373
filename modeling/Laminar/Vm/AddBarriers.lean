import Laminar.Vm.Barriers

/-!
# Which barrier an access gets

Both compilers ask `DIFC.addBarriers` for the barrier method of a heap access or an allocation.
The answer depends on the options of class `VM`, on the method that the instruction comes from
and on the kind of the access.  Assertions are off and nothing is verbose, so the debug versions
of the barriers are not among the answers.
-/

namespace Laminar.Vm

/-- `READ_BARRIER`, `WRITE_BARRIER`, `STATIC_READ_BARRIER`, `STATIC_WRITE_BARRIER`,
`ALLOC_BARRIER`. -/
inductive BarrierType
  | read
  | write
  | staticRead
  | staticWrite
  | alloc
deriving DecidableEq

/-- `staticOrAllocBarrier`; the other types are `readOrWriteBarrier`. -/
def BarrierType.staticOrAllocBarrier : BarrierType → Bool
  | .staticRead | .staticWrite | .alloc => true
  | .read | .write => false

/-- The barrier methods. -/
inductive BarrierMethod
  | readBarrierDynamic
  | writeBarrierDynamic
  | staticReadBarrierDynamic
  | staticWriteBarrierDynamic
  | allocBarrierDynamic
  | readBarrierInsideSR
  | writeBarrierInsideSR
  | staticReadBarrierInsideSR
  | staticWriteBarrierInsideSR
  | allocBarrierInsideSR
  | readBarrierOutsideSR
  | writeBarrierOutsideSR
deriving DecidableEq

/-- The options of class `VM` that count. -/
structure BarrierOptions where
  difcDynamicBarriers : Bool
  difcNoStaticOrAllocBarriers : Bool
  difcNoReadOrWriteBarriers : Bool

/-- `addBarriers(method, type)`; `instrumented` is `addBarriers(method)`.  The barriers for static
fields and allocations outside regions do not exist. -/
def addBarriers (options : BarrierOptions) (instrumented staticallyInSecureRegion : Bool)
    (type : BarrierType) : Option BarrierMethod :=
  if instrumented then
    if (!options.difcNoStaticOrAllocBarriers || !type.staticOrAllocBarrier) &&
        (!options.difcNoReadOrWriteBarriers || type.staticOrAllocBarrier) then
      if options.difcDynamicBarriers then
        match type with
        | .read => some .readBarrierDynamic
        | .write => some .writeBarrierDynamic
        | .staticRead => some .staticReadBarrierDynamic
        | .staticWrite => some .staticWriteBarrierDynamic
        | .alloc => some .allocBarrierDynamic
      else if staticallyInSecureRegion then
        match type with
        | .read => some .readBarrierInsideSR
        | .write => some .writeBarrierInsideSR
        | .staticRead => some .staticReadBarrierInsideSR
        | .staticWrite => some .staticWriteBarrierInsideSR
        | .alloc => some .allocBarrierInsideSR
      else
        match type with
        | .read => some .readBarrierOutsideSR
        | .write => some .writeBarrierOutsideSR
        | .staticRead | .staticWrite | .alloc => none
    else none
  else none

/-- Call a barrier method.  The barriers for static fields check nothing. -/
def BarrierMethod.call (labeledSpace : Space) (th : GreenThread) (obj : Referent) :
    BarrierMethod → Outcome × ObjectLabels
  | .readBarrierDynamic => (th.readBarrierDynamic labeledSpace obj, obj.labels)
  | .writeBarrierDynamic => (th.writeBarrierDynamic labeledSpace obj, obj.labels)
  | .staticReadBarrierDynamic | .staticWriteBarrierDynamic => (.returned, obj.labels)
  | .allocBarrierDynamic => th.allocBarrierDynamic obj.labels
  | .readBarrierInsideSR => (th.readBarrierInsideSR obj.labels, obj.labels)
  | .writeBarrierInsideSR => (th.writeBarrierInsideSR obj.labels, obj.labels)
  | .staticReadBarrierInsideSR | .staticWriteBarrierInsideSR => (.returned, obj.labels)
  | .allocBarrierInsideSR => th.allocBarrierInsideSR obj.labels
  | .readBarrierOutsideSR => (labeledSpace.readBarrierOutsideSR obj.ref, obj.labels)
  | .writeBarrierOutsideSR => (labeledSpace.writeBarrierOutsideSR obj.ref, obj.labels)

end Laminar.Vm
