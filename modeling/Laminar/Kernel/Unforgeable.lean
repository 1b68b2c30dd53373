import Laminar.Kernel.Rights

/-!
# Are capabilities unforgeable?

A run is logged: each entry records the state a call was made in, the caller, the
call and its result.  `Traced log place label s` says that the log accounts for
the right: it was allocated with that sign to a task that received it, and every
later place it reached was reached by a fork, a drop, a resume or a send whose
caller held it where it was taken from and named it in the call.

The three loops store `tmp` whether or not the word was found, and `tmp` starts
as the user's word.  A word that carries sign bits matches no entry, so it is
stored as it is: a capability nobody ever allocated.  The label counter is the
other way in, since nothing stops it at `CAP_MAX_VAL` and past `2 ^ 30` its own
bits are read as signs.  Runs in which no call does either are traced.
-/

namespace Laminar.Kernel

open Laminar.Lib

/-- A call that was made. -/
structure Event where
  before : Kernel
  pid : Pid
  call : Call
  ret : Ret

/-- The kernel and the calls made so far, oldest first. -/
structure Logged where
  kernel : Kernel
  log : List Event

/-- Make a call and log it. -/
def Logged.step (st : Logged) (c : Pid × Call) : Option Logged :=
  match perform st.kernel c.1 c.2 with
  | .ok (ret, k) => some ⟨k, st.log ++ [⟨st.kernel, c.1, c.2, ret⟩]⟩
  | .error _ => none

/-- The call moves a right it names from one list to another. -/
inductive Hop (e : Event) : Place → Place → LabelT → Sign → Prop
  | fork {child : Pid} {thread outOfMemory : Bool} {label : LabelT} {s : Sign} :
      e.call = .fork child thread outOfMemory → e.ret = .rv 0 →
      Hop e (.capList e.pid) (.capList child) label s
  | drop {words : List CapabilityT} {type : BitVec 32} {word : CapabilityT}
      {label : LabelT} {s : Sign} :
      e.call = .dropCapabilities (some words) type capOpFlagTemporary →
      word ∈ words → labelPart word = label → requests type s = true →
      Hop e (.capList e.pid) (.capSuspendList e.pid) label s
  | resume {words : List CapabilityT} {type : BitVec 32} {word : CapabilityT}
      {label : LabelT} {s : Sign} :
      e.call = .resumeCapabilities (some words) type →
      word ∈ words → labelPart word = label → requests type s = true →
      Hop e (.capSuspendList e.pid) (.capList e.pid) label s
  | send {pid : Pid} {words : List CapabilityT} {type : BitVec 32} {word : CapabilityT}
      {label : LabelT} {s : Sign} :
      e.call = .sendCapabilities pid (some words) type →
      word ∈ words → labelPart word = label → requests type s = true →
      Hop e (.capList e.pid) (.capSuspendList pid) label s

/-- The log accounts for the right at the place. -/
inductive Traced : List Event → Place → LabelT → Sign → Prop
  | alloc {log : List Event} {e : Event} {type : BitVec 32} {region : Int} {tsk : Task}
      {q : Pid} {label : LabelT} {s : Sign} :
      e.call = .allocLabel type region → e.ret = .label label → requests type s = true →
      e.before.task e.pid = some tsk → q ∈ e.before.recipients e.pid tsk region →
      Traced (log ++ [e]) (.capList q) label s
  | hop {log : List Event} {e : Event} {src dst : Place} {label : LabelT} {s : Sign} :
      Traced log src label s → e.before.Grants src label s → Hop e src dst label s →
      Traced (log ++ [e]) dst label s
  | later {log : List Event} {e : Event} {place : Place} {label : LabelT} {s : Sign} :
      Traced log place label s → Traced (log ++ [e]) place label s

/-- No word of a buffer carries a sign bit. -/
def NoSigns (words : List CapabilityT) : Prop :=
  ∀ word ∈ words, ∀ s, carries word s = false

/-- The calls that forge nothing: buffers whose words are stored hold bare labels,
and a label is allocated only while the counter is below the sign bits. -/
def Unforged (st : Logged) (c : Pid × Call) : Prop :=
  match c.2 with
  | .allocLabel _ _ => (st.kernel.curMaxCapability + 1#32).toNat < 2 ^ 30
  | .dropCapabilities (some words) _ flag => flag = capOpFlagTemporary → NoSigns words
  | .resumeCapabilities (some words) _ => NoSigns words
  | .sendCapabilities _ (some words) _ => NoSigns words
  | _ => True

/-- A word without signs brings only what the call asked for and the list held. -/
theorem brings_of_noSigns {words : List CapabilityT} (hw : NoSigns words)
    {type : BitVec 32} {src : CapList} {word : CapabilityT} (hmem : word ∈ words)
    {label : LabelT} {s : Sign} (hb : Brings type src word label s) :
    labelPart word = label ∧ requests type s = true ∧ Holds src label s := by
  obtain ⟨hl, hs | ⟨hreq, hh⟩⟩ := hb
  · rw [hw word hmem s] at hs
    simp at hs
  · exact ⟨hl, hreq, hh⟩

/-- The step: a call that forges nothing extends the account to whatever it adds. -/
theorem traced_step {st st' : Logged} {c : Pid × Call} (hguard : Unforged st c)
    (hstep : st.step c = some st')
    (htraced : ∀ place label s, st.kernel.Grants place label s →
      Traced st.log place label s) (place : Place) (label : LabelT) (s : Sign)
    (hg : st'.kernel.Grants place label s) : Traced st'.log place label s := by
  unfold Logged.step at hstep
  split at hstep
  · rename_i ret k hperform
    obtain rfl := Option.some.inj hstep
    rcases perform_grants hperform hg with hold | hsource
    · exact .later (htraced place label s hold)
    · obtain ⟨p, call⟩ := c
      cases hsource with
      | alloc htask hq hlabel hs =>
          subst hlabel
          rw [carries_newCap hguard] at hs
          exact .alloc rfl rfl hs htask hq
      | fork hh => exact .hop (htraced _ _ _ hh) hh (.fork rfl rfl)
      | drop hmem hb =>
          obtain ⟨hl, hreq, hh⟩ := brings_of_noSigns (hguard rfl) hmem hb
          exact .hop (htraced _ _ _ hh) hh (.drop rfl hmem hl hreq)
      | resume hmem hb =>
          obtain ⟨hl, hreq, hh⟩ := brings_of_noSigns hguard hmem hb
          exact .hop (htraced _ _ _ hh) hh (.resume rfl hmem hl hreq)
      | send hmem hb =>
          obtain ⟨hl, hreq, hh⟩ := brings_of_noSigns hguard hmem hb
          exact .hop (htraced _ _ _ hh) hh (.send rfl hmem hl hreq)
  · simp at hstep

/-- In every run from empty capability lists whose calls forge nothing, the log
accounts for every right granted anywhere. -/
theorem grants_traced_of_unforged (k₀ : Kernel) (hempty : ∀ place, k₀.listAt place = [])
    (calls : List (Pid × Call)) (st : Logged)
    (hrun : Run Logged.step Unforged ⟨k₀, []⟩ calls st) :
    ∀ place label s, st.kernel.Grants place label s → Traced st.log place label s := by
  refine Run.invariant (P := fun st : Logged => ∀ place label s,
    st.kernel.Grants place label s → Traced st.log place label s) ?_ ?_ hrun
  · intro place label s hg
    rw [Kernel.Grants, hempty] at hg
    exact absurd hg (not_holds_nil label s)
  · intro st c st' htraced hguard hstep
    exact traced_step hguard hstep htraced

/-- A label is allocated with PLUS, suspended and resumed: the capability is back
in the active list and traced. -/
theorem traced_alloc_drop_resume :
    ∃ calls st, Run Logged.step Unforged ⟨bootKernel 1000, []⟩ calls st ∧
      st.kernel.Grants (.capList 1) 2#64 .plus ∧ Traced st.log (.capList 1) 2#64 .plus := by
  have hbare : NoSigns [2#64] := by
    intro word hmem s
    rw [List.mem_singleton.1 hmem]
    cases s <;> rfl
  have hrun : Run Logged.step Unforged ⟨bootKernel 1000, []⟩
      ([] ++ [(1, .allocLabel capPlusMask regionSelf)] ++
        [(1, .dropCapabilities (some [2#64]) capPlusMask capOpFlagTemporary)] ++
        [(1, .resumeCapabilities (some [2#64]) capPlusMask)]) _ :=
    .snoc (.snoc (.snoc .nil (show (capStartVal + 1#32).toNat < 2 ^ 30 by decide) rfl)
      (fun _ => hbare) rfl) hbare rfl
  refine ⟨_, _, hrun, (and_iff_left_of_imp
    (grants_traced_of_unforged _ (listAt_bootKernel 1000) _ _ hrun _ _ _)).2 ?_⟩
  exact ⟨2#64 ||| Sign.plus.wide, List.mem_of_elem_eq_true rfl, rfl, rfl⟩

/-! ## A forged capability -/

/-- A traced right was allocated: some logged call returned the label and had the
sign in its type. -/
theorem Traced.allocated {log : List Event} {place : Place} {label : LabelT} {s : Sign}
    (h : Traced log place label s) :
    ∃ e ∈ log, ∃ type region, e.call = .allocLabel type region ∧ e.ret = .label label ∧
      requests type s = true := by
  induction h with
  | alloc hcall hret hreq _ _ =>
      exact ⟨_, List.mem_append_right _ List.mem_cons_self, _, _, hcall, hret, hreq⟩
  | hop _ _ _ ih =>
      obtain ⟨e, hmem, h⟩ := ih
      exact ⟨e, List.mem_append_left _ hmem, h⟩
  | later _ ih =>
      obtain ⟨e, hmem, h⟩ := ih
      exact ⟨e, List.mem_append_left _ hmem, h⟩

/-- A task without any capability resumes the word `5 | CAP_PLUS_MASK`.  The call
returns `-ENOENT`, and the task holds the PLUS capability for label 5. -/
theorem resume_forges_capability :
    ∃ calls st, Run Logged.step (fun _ _ => True) ⟨bootKernel 1000, []⟩ calls st ∧
      st.kernel.Grants (.capList 1) 5#64 .plus ∧
      ¬ Traced st.log (.capList 1) 5#64 .plus := by
  refine ⟨[] ++ [(1, .resumeCapabilities (some [5#64 ||| Sign.plus.wide]) 0#32)], _,
    .snoc .nil trivial rfl, ?_, fun htraced => ?_⟩
  · exact ⟨5#64 ||| Sign.plus.wide, List.mem_of_elem_eq_true rfl, rfl, rfl⟩
  · obtain ⟨e, hmem, type, region, hcall, -⟩ := htraced.allocated
    obtain rfl := List.mem_singleton.1 hmem
    simp at hcall

end Laminar.Kernel
