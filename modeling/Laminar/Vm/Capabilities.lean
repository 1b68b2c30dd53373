import Laminar.Vm.Chain

/-!
# Plus and minus capabilities

The code treats plus and minus capabilities alike, with one set of each kind in every
state and one more that all threads share.  This module says what a call does to the
sets of a kind, for both kinds at once.
-/

namespace Laminar.Vm

/-- The two kinds of capabilities. -/
inductive CapabilityKind
  | plus
  | minus

/-- `plusCapabilitySet` or `minusCapabilitySet`. -/
def SRState.capabilitySet (s : SRState) : CapabilityKind → LabelSet
  | .plus => s.plusCapabilitySet
  | .minus => s.minusCapabilitySet

/-- The capabilities of one kind a start asks for. -/
def RegionArgs.capabilitySet (args : RegionArgs) : CapabilityKind → LabelSet
  | .plus => args.plusCapabilitySet
  | .minus => args.minusCapabilitySet

namespace GreenThread

/-- Does a capability type include the kind? -/
def includes (type : Int) : CapabilityKind → Bool
  | .plus => hasPlus type
  | .minus => hasMinus type

/-- `commonPlusCapabilitySet` or `commonMinusCapabilitySet`. -/
def commonCapabilitySet (th : GreenThread) : CapabilityKind → LabelSet
  | .plus => th.commonPlusCapabilitySet
  | .minus => th.commonMinusCapabilitySet

/-- The capabilities of one kind that are in force. -/
def capabilitiesInForce (th : GreenThread) : CapabilityKind → LabelSet
  | .plus => th.plusCap
  | .minus => th.minusCap

/-- Outside every region the common capabilities are in force too. -/
theorem mem_capabilitiesInForce {th : GreenThread} {kind : CapabilityKind} {l : Label} :
    l ∈ th.capabilitiesInForce kind ↔ l ∈ th.currentSRState.capabilitySet kind ∨
      th.inSecureRegion = false ∧ l ∈ th.commonCapabilitySet kind := by
  cases kind <;> cases hin : th.inSecureRegion <;>
    simp [capabilitiesInForce, plusCap, minusCap, hin, LabelSet.mem_union,
      SRState.capabilitySet, commonCapabilitySet]

/-! ## Starts -/

theorem capabilitySet_fill (args : RegionArgs) (child : SRState) (kind : CapabilityKind) :
    (args.fill child).capabilitySet kind = args.capabilitySet kind := by
  cases kind <;> rfl

theorem capabilitySet_clearState (s : SRState) (kind : CapabilityKind) :
    s.clearState.capabilitySet kind = .empty := by
  cases kind <;> rfl

/-- A region has no capabilities that were not in force. -/
theorem startAllowed_capabilitySet {th : GreenThread} {s : Start}
    (h : th.startAllowed s = true) {kind : CapabilityKind} {l : Label}
    (hl : l ∈ s.args.capabilitySet kind) : l ∈ th.capabilitiesInForce kind := by
  cases kind with
  | plus => exact (startAllowed_capabilities h).1 l hl
  | minus => exact (startAllowed_capabilities h).2 l hl

@[simp] theorem commonCapabilitySet_enterChild (th : GreenThread) (fill : SRState → SRState)
    (kind : CapabilityKind) :
    (th.enterChild fill).commonCapabilitySet kind = th.commonCapabilitySet kind := by
  cases kind
  · exact (common_enterChild th fill).1
  · exact (common_enterChild th fill).2

/-- A start puts a state in front of the chain whose capabilities were in force. -/
theorem start_chain (th : GreenThread) (s : Start) :
    ∃ child : SRState, (th.start s).2.chain = child :: th.chain ∧
      (∀ kind, (th.start s).2.commonCapabilitySet kind = th.commonCapabilitySet kind) ∧
      ∀ kind, ∀ l ∈ child.capabilitySet kind, l ∈ th.capabilitiesInForce kind := by
  cases hallowed : th.startAllowed s with
  | true =>
      obtain ⟨child, hchain⟩ := th.chain_enterChild s.args.fill
      rw [start_allowed hallowed]
      refine ⟨s.args.fill child, hchain, th.commonCapabilitySet_enterChild _, ?_⟩
      intro kind l hl
      rw [capabilitySet_fill] at hl
      exact startAllowed_capabilitySet hallowed hl
  | false =>
      obtain ⟨child, hchain⟩ := th.chain_enterChild SRState.clearState
      obtain ⟨error, hstart⟩ := start_refused hallowed
      rw [hstart]
      refine ⟨child.clearState, hchain, th.commonCapabilitySet_enterChild _, ?_⟩
      intro kind l hl
      rw [capabilitySet_clearState] at hl
      exact absurd hl (LabelSet.not_mem_empty l)

/-! ## The other calls -/

@[simp] theorem capabilitySet_assign (s : SRState) (labels : LabelKind) (set : LabelSet)
    (kind : CapabilityKind) : (s.assign labels set).capabilitySet kind = s.capabilitySet kind := by
  cases labels <;> cases kind <;> rfl

theorem mem_dropFrom {s s' : SRState} {label : Option LabelSet} {type : Int}
    (h : dropFrom s label type = some s') {kind : CapabilityKind} {l : Label} :
    l ∈ s'.capabilitySet kind ↔ l ∈ s.capabilitySet kind ∧
      ¬ (includes type kind = true ∧ ∃ dropped ∈ label, l ∈ dropped) := by
  obtain ⟨plus, minus, rfl, hplus, hminus⟩ := dropFrom_spec h
  cases kind with
  | plus => exact hplus l
  | minus => exact hminus l

private theorem mem_unionIf {cond : Bool} {set : LabelSet} {label l : Label} :
    l ∈ (if cond then LabelSet.unionLabel set label else set) ↔
      l ∈ set ∨ cond = true ∧ l = label := by
  cases cond <;> simp [LabelSet.mem_unionLabel]

theorem mem_addTo {s : SRState} {type : Int} {label l : Label} {kind : CapabilityKind} :
    l ∈ (addTo s type label).capabilitySet kind ↔
      l ∈ s.capabilitySet kind ∨ includes type kind = true ∧ l = label := by
  cases kind <;> exact mem_unionIf

theorem mem_addCommon {th : GreenThread} {type : Int} {label l : Label}
    {kind : CapabilityKind} :
    l ∈ (th.addCommon type label).commonCapabilitySet kind ↔
      l ∈ th.commonCapabilitySet kind ∨ includes type kind = true ∧ l = label := by
  cases kind <;> exact mem_unionIf

end GreenThread

end Laminar.Vm
