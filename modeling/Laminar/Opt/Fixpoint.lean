import Mathlib.Data.List.FinRange
import Mathlib.Order.Bounds.Basic
import Laminar.Lib.Loop
import Laminar.Opt.Available

/-!
# The data-flow loop of the redundant-barrier passes

The do-while loop of `computeRedundantBarriers` and `computeRedundantReadBarriers` over an
arbitrary control-flow graph, with its assertion: a set that changes contains what it had
before.  The blocks are visited in code order, which is an arbitrary enumeration of them.

Every visit finds its set grown, so the loop with the assertion is the sweeping of
`Lib.Sweep`: it comes to an end, at the least solution of the data-flow equations, and what
was flagged on the way is what one more pass over the final sets would flag.  None of this
depends on the enumeration.
-/

namespace Laminar.Opt

open Laminar.Lib

/-! ## The loop -/

/-- A control-flow graph: the instructions and the predecessors of a block.  Edges back to
the entry, blocks without predecessors and blocks that precede themselves are all
allowed.  The exit node has no instructions and precedes nothing, and is left out. -/
structure Cfg (B : Type) where
  insts : B → List Instr
  getIn : B → List B

/-- The blocks in code order. -/
structure CodeOrder (B : Type) where
  blocks : List B
  nodup : blocks.Nodup
  mem_blocks : ∀ b, b ∈ blocks

/-- Why the loop gives no result. -/
inductive Failure
  /-- `thisFullRedSet.containsAll(oldFullRedSet)` is asserted and false -/
  | assertion
  /-- the loop has not come to an end -/
  | unfinished

namespace Cfg

variable {B : Type} [DecidableEq B] (pass : Pass) (g : Cfg B)

/-- `thisFullRedSet` at the top of a block. -/
def inSet (sets : B → Finset Register) (b : B) : Finset Register := meet ((g.getIn b).map sets)

/-- `thisFullRedSet` at the bottom of a block. -/
def outSet (b : B) (sets : B → Finset Register) : Finset Register :=
  propagate pass (g.insts b) (g.inSet sets b)

/-- The instructions of a block that are flagged, by block and index. -/
def found (b : B) (sets : B → Finset Register) : Finset (B × Nat) :=
  (flagged pass 0 (g.insts b) (g.inSet sets b)).image fun k => (b, k)

/-- `fullRedInsts` after a visit of a block. -/
abbrev collect (b : B) (sets : B → Finset Register) (fullRedInsts : Finset (B × Nat)) :
    Finset (B × Nat) :=
  fullRedInsts ∪ g.found pass b sets

/-- The scratch objects as `value`, `fullRedInsts` as `log`, and `changed`. -/
abbrev Scratch (B : Type) := Equations.Sweep B (Finset Register) (Finset (B × Nat))

/-- The body of the loop over the blocks. -/
def visitBlock (s : Scratch B) (b : B) : Except Failure (Scratch B) :=
  let thisFullRedSet := g.outSet pass b s.value
  let fullRedInsts := g.collect pass b s.value s.log
  if s.value b = thisFullRedSet then .ok { s with log := fullRedInsts }
  else if s.value b ⊆ thisFullRedSet then
    .ok ⟨Function.update s.value b thisFullRedSet, fullRedInsts, true⟩
  else .error .assertion

/-- The body of the do-while loop. -/
def round (blocks : List B) (s : Scratch B) :
    Except Failure (Round (Scratch B) (Scratch B)) := do
  let s ← blocks.foldlM (g.visitBlock pass) { s with changed := false }
  return if s.changed then .next s else .leave s

/-- `computeRedundantReadBarriers` for an early and `computeRedundantBarriers` for a late
pass, up to the point where the scratch objects are cleared. -/
def dataFlow (blocks : List B) (fuel : Nat) : Except Failure (Scratch B) :=
  loop (g.round pass blocks) .unfinished fuel ⟨fun _ => ∅, ∅, false⟩

/-! ## What it computes -/

/-- The data-flow equations. -/
def Solves (sets : B → Finset Register) : Prop := ∀ b, sets b = g.outSet pass b sets

/-- What one pass over the blocks flags if the sets are left alone. -/
def flaggedBy (blocks : List B) (sets : B → Finset Register) : Finset (B × Nat) :=
  blocks.foldl (fun fullRedInsts b => g.collect pass b sets fullRedInsts) ∅

theorem mem_flaggedBy {blocks : List B} {sets : B → Finset Register} {a : B × Nat} :
    a ∈ g.flaggedBy pass blocks sets ↔ ∃ b ∈ blocks, a ∈ g.found pass b sets := by
  have hfold : ∀ insts : Finset (B × Nat),
      a ∈ blocks.foldl (fun insts b => insts ∪ g.found pass b sets) insts ↔
        a ∈ insts ∨ ∃ b ∈ blocks, a ∈ g.found pass b sets := by
    induction blocks with
    | nil => simp
    | cons b blocks ih =>
        intro insts
        simp only [List.foldl_cons, ih, Finset.mem_union, or_assoc, List.mem_cons,
          exists_eq_or_imp]
  rw [flaggedBy, hfold]
  simp

/-! ## Sweeping -/

theorem found_mono (b : B) : Monotone (g.found pass b) :=
  fun _ _ h => Finset.image_subset_image (flagged_mono pass 0 (g.insts b) (meet_mono _ h))

/-- The equations as a system that can be swept; the enumeration shows that there are
finitely many registers. -/
def equations (order : CodeOrder B) : Equations B (Finset Register) where
  rhs := g.outSet pass
  mono b _ _ h := propagate_mono pass (g.insts b) (meet_mono (g.getIn b) h)
  top := (order.blocks.flatMap g.insts).foldr (fun i set => adds pass i ∪ set) ∅
  rhs_le_top b sets h := by
    refine propagate_subset pass (meet_subset (g.getIn b) h) fun i hi => ?_
    exact adds_subset_foldr pass (List.mem_flatMap.2 ⟨b, order.mem_blocks b, hi⟩)
  rank := Finset.card
  rank_lt _ _ h := Finset.card_lt_card h

section Sweeping

variable {pass g} {order : CodeOrder B}

/-- The assertion holds while the sets grow. -/
theorem visitBlock_eq {s : Scratch B} (hs : (g.equations pass order).Growing s.value) (b : B) :
    g.visitBlock pass s b = .ok ((g.equations pass order).visit (g.collect pass) s b) := by
  have hle : s.value b ⊆ g.outSet pass b s.value := hs.le_rhs b
  rw [visitBlock, if_pos hle, Equations.visit]
  split
  · rename_i heq
    exact congrArg _ (if_pos heq).symm
  · rename_i hne
    exact congrArg _ (if_neg hne).symm

theorem foldlM_visitBlock {s : Scratch B} (hs : (g.equations pass order).Growing s.value)
    (blocks : List B) :
    blocks.foldlM (g.visitBlock pass) s =
      .ok (blocks.foldl ((g.equations pass order).visit (g.collect pass)) s) := by
  induction blocks generalizing s with
  | nil => rfl
  | cons b blocks ih =>
      rw [List.foldlM_cons, visitBlock_eq hs, ok_bind, List.foldl_cons]
      exact ih (Equations.foldl_visit_le (g.collect pass) [b] s hs).1

/-- The loop leaves with the end of the sweeps. -/
theorem loop_eq_sweeps {blocks : List B} {fuel : Nat} {s : Scratch B}
    (hs : (g.equations pass order).Growing s.value) {sets : B → Finset Register}
    {insts : Finset (B × Nat)}
    (h : (g.equations pass order).sweeps (g.collect pass) blocks fuel s.value s.log =
      some (sets, insts)) :
    loop (g.round pass blocks) .unfinished fuel s = .ok ⟨sets, insts, false⟩ := by
  induction fuel generalizing s with
  | zero => cases h
  | succ fuel ih =>
      obtain ⟨hgrow, -⟩ := Equations.foldl_visit_le
        (g.collect pass) blocks ⟨s.value, s.log, false⟩ hs
      have hfold := foldlM_visitBlock (s := ⟨s.value, s.log, false⟩) hs blocks
      have hround : ∀ s', blocks.foldlM (g.visitBlock pass) { s with changed := false } = .ok s' →
          g.round pass blocks s = .ok (if s'.changed then .next s' else .leave s') :=
        fun s' hs' => bind_eq_ok.2 ⟨s', hs', rfl⟩
      rw [Equations.sweeps, Equations.sweep] at h
      rw [loop, hround _ hfold, ok_bind]
      generalize blocks.foldl ((g.equations pass order).visit (g.collect pass))
        ⟨s.value, s.log, false⟩ = s' at h hgrow
      obtain ⟨value, log, changed⟩ := s'
      cases changed with
      | true => exact ih hgrow h
      | false =>
          obtain ⟨rfl, rfl⟩ := Prod.mk.inj (Option.some.inj h)
          rfl

end Sweeping

/-- Enough rounds for the loop: every round but the last adds a register to a block. -/
def rounds (order : CodeOrder B) : Nat :=
  order.blocks.length * (g.equations pass order).top.card + 1

/-- The loop comes to an end, at the least solution, with what is flagged for it. -/
theorem dataFlow_ends (order : CodeOrder B) {fuel : Nat} (hfuel : g.rounds pass order ≤ fuel) :
    ∃ sets insts, g.dataFlow pass order.blocks fuel = .ok ⟨sets, insts, false⟩ ∧
      IsLeast { sets | g.Solves pass sets } sets ∧
      ∀ a, a ∈ insts ↔ ∃ b, a ∈ g.found pass b sets := by
  have hbot := (g.equations pass order).growing_bot
  have hsome : ((g.equations pass order).sweeps (g.collect pass) order.blocks fuel
      (fun _ => ∅) ∅).isSome = true :=
    Equations.sweeps_isSome _ _ _ hbot (Nat.lt_of_lt_of_le hfuel (Nat.le_add_right _ _))
  obtain ⟨⟨sets, insts⟩, hend⟩ := Option.isSome_iff_exists.1 hsome
  refine ⟨sets, insts, loop_eq_sweeps hbot hend, ⟨?_, ?_⟩, ?_⟩
  · exact fun b => (Equations.sweeps_spec (P := fun _ _ => True) (fun _ _ _ _ _ => trivial) hbot
      trivial hend).1 b (order.mem_blocks b)
  · exact fun sets' hsets' => Equations.sweeps_le hbot hsets' (fun _ => Finset.empty_subset _) hend
  · exact Equations.sweeps_collected (g.found_mono pass) order.mem_blocks hbot hend

/-- **The data-flow is a least fixed point.**  For every graph and both kinds of pass there
are sets, the least solution of the equations, with which the loop ends for every
enumeration of the blocks and never with a failed assertion; and it returns just what one
more pass over these sets flags. -/
theorem dataFlow_isLeast (order : CodeOrder B) :
    ∃ sets, IsLeast { sets | g.Solves pass sets } sets ∧
      ∀ order' : CodeOrder B, ∃ n, ∀ fuel, n ≤ fuel →
        g.dataFlow pass order'.blocks fuel =
          .ok ⟨sets, g.flaggedBy pass order.blocks sets, false⟩ := by
  obtain ⟨sets, -, -, hleast, -⟩ := g.dataFlow_ends pass order (Nat.le_refl _)
  refine ⟨sets, hleast, fun order' => ⟨g.rounds pass order', fun fuel hfuel => ?_⟩⟩
  obtain ⟨sets', insts', hend, hleast', hinsts'⟩ := g.dataFlow_ends pass order' hfuel
  obtain rfl := hleast'.unique hleast
  have hflagged : insts' = g.flaggedBy pass order.blocks sets' := by
    ext a
    rw [hinsts', mem_flaggedBy]
    exact exists_congr fun b => (and_iff_right (order.mem_blocks b)).symm
  rw [hend, hflagged]

end Cfg

/-! ## The blocks of an IR -/

namespace Ir

/-- The graph of an IR. -/
def cfg (ir : Ir) : Cfg (Fin ir.blocks.length) where
  insts b := ir.insts b
  getIn b := (List.finRange _).filter fun p => b.val ∈ ir.out p

/-- The order in which an IR has its blocks. -/
def codeOrder (ir : Ir) : CodeOrder (Fin ir.blocks.length) where
  blocks := List.finRange _
  nodup := List.nodup_finRange _
  mem_blocks := List.mem_finRange

variable (ir : Ir)

theorem map_getIn_cfg (b : Fin ir.blocks.length) : (ir.cfg.getIn b).map Fin.val = ir.getIn b := by
  rw [cfg, getIn, ← List.map_coe_finRange_eq_range, List.filter_map]
  rfl

theorem inSet_cfg (sets : Nat → Finset Register) (b : Fin ir.blocks.length) :
    ir.cfg.inSet (fun p => sets p) b = inSet ir sets b := by
  rw [inSet, ← map_getIn_cfg, List.map_map]
  rfl

theorem outSet_cfg (pass : Pass) (sets : Nat → Finset Register) (b : Fin ir.blocks.length) :
    ir.cfg.outSet pass b (fun p => sets p) = outSet pass ir b sets := by
  rw [Cfg.outSet, inSet_cfg]
  rfl

/-- Sets for the blocks of the graph, as sets for all numbers. -/
def extend (sets : Fin ir.blocks.length → Finset Register) (b : Nat) : Finset Register :=
  if h : b < ir.blocks.length then sets ⟨b, h⟩ else ∅

theorem extend_val (sets : Fin ir.blocks.length → Finset Register) :
    (fun p : Fin ir.blocks.length => ir.extend sets p) = sets :=
  funext fun p => dif_pos p.isLt

/-- A solution for the graph is one for the IR. -/
theorem solves_extend {pass : Pass} {sets : Fin ir.blocks.length → Finset Register}
    (h : ir.cfg.Solves pass sets) : Solves pass ir (ir.extend sets) := by
  intro b hb
  rw [← ir.outSet_cfg pass (ir.extend sets) ⟨b, hb⟩, extend_val, ← h ⟨b, hb⟩]
  exact dif_pos hb

/-- The sets that have just the available registers are the least solution for the graph. -/
theorem eq_of_isLeast {pass : Pass} {sets : Nat → Finset Register} (hsets : Solves pass ir sets)
    (hderived : Derived pass ir sets) {least : Fin ir.blocks.length → Finset Register}
    (hleast : IsLeast { sets | ir.cfg.Solves pass sets } least) :
    least = fun p : Fin ir.blocks.length => sets p := by
  refine le_antisymm (hleast.2 fun b => ?_) fun b r hr => ?_
  · rw [outSet_cfg]
    exact hsets b b.isLt
  · have hsolves := solves_extend ir hleast.1
    have hmem := (hderived b r hr).mem_pointSet hsolves
    rw [pointSet_length, ← hsolves b b.isLt] at hmem
    rwa [← extend_val ir least]

end Ir

/-- The passes over an IR, whose entry has no predecessors, are runs of this loop. -/
theorem mem_computeRedundantBarriers_iff_dataFlow (pass : Pass) (ir : Ir) {fuel : Nat}
    (hfuel : ir.cfg.rounds pass ir.codeOrder ≤ fuel) :
    ∃ s, ir.cfg.dataFlow pass ir.codeOrder.blocks fuel = .ok s ∧
      ∀ b k, (b, k) ∈ computeRedundantBarriers pass ir ↔
        ∃ hb : b < ir.blocks.length, (⟨b, hb⟩, k) ∈ s.log := by
  obtain ⟨least, insts, hend, hleast, hinsts⟩ := ir.cfg.dataFlow_ends pass ir.codeOrder hfuel
  obtain ⟨sets, hsets, hderived, hred, hall⟩ := computeRedundantBarriers_least pass ir
  obtain rfl := ir.eq_of_isLeast hsets hderived hleast
  have hfound : ∀ b (hb : b < ir.blocks.length) k, (⟨b, hb⟩, k) ∈ insts ↔
      k ∈ flagged pass 0 (ir.insts b) (inSet ir sets b) := by
    intro b hb k
    have hset := ir.inSet_cfg sets ⟨b, hb⟩
    rw [hinsts]
    constructor
    · rintro ⟨c, hc⟩
      obtain ⟨j, hj, heq⟩ := Finset.mem_image.1 hc
      obtain ⟨rfl, rfl⟩ := Prod.mk.inj heq
      rwa [hset] at hj
    · intro hk
      exact ⟨⟨b, hb⟩, Finset.mem_image.2 ⟨k, by rwa [hset], rfl⟩⟩
  refine ⟨_, hend, fun b k => ⟨fun hmem => ?_, ?_⟩⟩
  · obtain ⟨i, hi, hflags⟩ := hred b k hmem
    have hk := mem_flagged (k := 0) hi hflags
    rw [Nat.zero_add] at hk
    exact ⟨Ir.lt_of_inst hi, (hfound b _ k).2 hk⟩
  · rintro ⟨hb, hk⟩
    exact hall b hb k ((hfound b hb k).1 hk)

/-- **What the loop is for.**  Over the blocks of an IR it comes to an end, and it flags the
instructions with a constant operand and those with a register that is available. -/
theorem dataFlow_flags_redundant (pass : Pass) (ir : Ir) {fuel : Nat}
    (hfuel : ir.cfg.rounds pass ir.codeOrder ≤ fuel) :
    ∃ s, ir.cfg.dataFlow pass ir.codeOrder.blocks fuel = .ok s ∧
      ∀ b k, (∃ hb : b < ir.blocks.length, (⟨b, hb⟩, k) ∈ s.log) ↔
        ∃ i, ir.inst b k = some i ∧ Redundant pass ir b k i := by
  obtain ⟨s, hend, hlog⟩ := mem_computeRedundantBarriers_iff_dataFlow pass ir hfuel
  exact ⟨s, hend, fun b k => (hlog b k).symm.trans mem_computeRedundantBarriers_iff⟩

/-- Read a field of register 1, and read it again in a loop. -/
def readInLoop : Ir where
  blocks := [⟨[.call (.difcReadBarrierMethod .dynamic) (.reg 1)], [1], []⟩,
    ⟨[.call (.difcReadBarrierMethod .dynamic) (.reg 1)], [1], []⟩]
  entry_noIn := by decide

/-- The barrier in the loop is flagged, although its block precedes itself. -/
theorem readInLoop_flagged :
    ∃ s, readInLoop.cfg.dataFlow (.late true) readInLoop.codeOrder.blocks
        (readInLoop.cfg.rounds (.late true) readInLoop.codeOrder) = .ok s ∧
      ∃ hb : 1 < readInLoop.blocks.length, (⟨1, hb⟩, 0) ∈ s.log := by
  obtain ⟨s, hend, hlog⟩ := dataFlow_flags_redundant (.late true) readInLoop (Nat.le_refl _)
  refine ⟨s, hend, (hlog 1 0).2 ⟨_, rfl, .inl ⟨1, rfl, .edge (by decide) fun p hp => ?_⟩⟩⟩
  -- both predecessors end with a check of register 1
  have hblocks : p = 0 ∨ p = 1 := by
    have hpreds : readInLoop.getIn 1 = [0, 1] := by decide
    rw [hpreds] at hp
    simpa using hp
  rcases hblocks with rfl | rfl
  · exact .use rfl rfl (by decide)
  · exact .use rfl rfl (by decide)

end Laminar.Opt
