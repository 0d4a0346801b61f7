import Llv8.Environment
import Mathlib.Data.List.Forall2

/-!
# The LLVM control-flow graph is an image of the Hydrogen one

`DoBasicBlock` gets each block's LLVM basic block through `Use(HBasicBlock*)`, which creates it
at the first reference, as a branch target or when the block is processed, and returns it
afterwards; the block's instructions are then inserted into it.  Only the handlers of control
instructions create terminators: the branch `VisitInstruction` emits to a known successor, the
conditional branch of `DoCompareNumericAndBranch` to `SuccessorAt(0)` and `SuccessorAt(1)`, and
the return of `DoReturn`.

For a block order of distinct blocks, each ending in its only control instruction, in which every
block a value names is listed and no control instruction is emitted at its uses
(`HGraph.cfgFormed`), the code of a completed build is one segment per block, in block order: a
block's segment lies in the block's LLVM basic block and ends with its only terminator, whose
targets are the LLVM blocks of the control instruction's successors (`build_cfg_image`).  While a
block is processed, the state is `Emitting` until its control instruction is visited and
`Closed` after; between blocks it is `Laid`.
-/

namespace Llv8

namespace HGraph

variable (graph : HGraph)

/-- The ids of the blocks of the block order. -/
def blockIds : List Nat := graph.blocks.map (·.blockId)

/-- Whether an id names a control instruction. -/
def isControl (id : Nat) : Bool := (graph.value id).any (·.isControlInstruction)

/-- A block's instruction list ends in its only control instruction. -/
def endsInControl (block : HBasicBlock) : Bool :=
  block.instructions.getLast?.any graph.isControl &&
    block.instructions.dropLast.all fun u => !graph.isControl u

/-- The block order lists each block once and each block ends in its only control instruction;
every block a value names is listed; no control instruction is emitted at its uses. -/
def cfgFormed : Bool :=
  decide graph.blockIds.Nodup && graph.blocks.all graph.endsInControl &&
    graph.values.all fun value => value.blockRefs.all (· ∈ graph.blockIds) &&
      !(value.isControlInstruction && value.emitAtUses)

variable {graph}

theorem isControl_of {id : Nat} {value : HValue} (found : graph.value id = some value) :
    graph.isControl id = value.isControlInstruction := by
  simp [isControl, found]

section Formed

variable (formed : graph.cfgFormed = true)
include formed

theorem blockIds_nodup : graph.blockIds.Nodup := by
  simp only [cfgFormed, Bool.and_eq_true, decide_eq_true_eq] at formed
  exact formed.1.1

theorem blockRefs_listed {id : Nat} {value : HValue} (found : graph.value id = some value) :
    ∀ block ∈ value.blockRefs, block ∈ graph.blockIds := by
  simp only [cfgFormed, Bool.and_eq_true, List.all_eq_true] at formed
  have listed := (formed.2 value (List.getElem?_mem found)).1
  simpa using listed

theorem emitAtUses_of_control {id : Nat} {value : HValue} (found : graph.value id = some value)
    (control : value.isControlInstruction = true) : value.emitAtUses = false := by
  simp only [cfgFormed, Bool.and_eq_true, List.all_eq_true] at formed
  simpa [control] using (formed.2 value (List.getElem?_mem found)).2

/-- A block of the order is its instructions that are not control instructions, then its
control instruction. -/
theorem instructions_of_mem {block : HBasicBlock} (member : block ∈ graph.blocks) :
    ∃ plain c value, block.instructions = plain ++ [c] ∧ graph.value c = some value ∧
      value.isControlInstruction = true ∧ ∀ u ∈ plain, graph.isControl u = false := by
  simp only [cfgFormed, Bool.and_eq_true, List.all_eq_true] at formed
  have ends := formed.1.2 block member
  simp only [endsInControl, Bool.and_eq_true, List.all_eq_true, Bool.not_eq_true'] at ends
  obtain ⟨control, plain⟩ := ends
  cases last : block.instructions.getLast? with
  | none => simp [last] at control
  | some c =>
    cases found : graph.value c with
    | none => simp [last, HGraph.isControl, found] at control
    | some value =>
      exact ⟨_, c, value, (List.dropLast_append_getLast? c (by simp [last])).symm, found,
        by simpa [last, HGraph.isControl, found] using control, plain⟩

theorem isControl_of_emitAtUses {id : Nat} {value : HValue} (found : graph.value id = some value)
    (emits : value.emitAtUses = true) : graph.isControl id = false := by
  rw [isControl_of found]
  cases control : value.isControlInstruction
  · rfl
  · rw [emitAtUses_of_control formed found control] at emits
    cases emits

end Formed

end HGraph

/-- The blocks the terminator of a control instruction is to transfer
control to, the known successor of a branch decided statically, `SuccessorAt(0)` and
`SuccessorAt(1)` of a compare-and-branch, and none for a return. -/
def HValue.branchTargets (value : HValue) : List Nat :=
  match value.knownSuccessor with
  | some successor => [successor]
  | none =>
    match value.opcode? with
    | some (.compareNumericAndBranch ..) => value.successors.take 2
    | _ => []

/-- Code in LLVM block `x` that ends with its only terminator, whose targets are the LLVM blocks
of the branch targets of the control instruction `value`. -/
def Terminated (x : Nat) (value : HValue) (llvmBasicBlock : Nat → Option Nat)
    (code : List LInst) : Prop :=
  ∃ body last, code = body ++ [last] ∧ (∀ inst ∈ code, inst.parent = x) ∧
    (∀ inst ∈ body, inst.op.isTerminator = false) ∧ last.op.isTerminator = true ∧
    last.op.targets.map some = value.branchTargets.map llvmBasicBlock

/-- The code of a block: terminated code in the block's LLVM block for its last instruction. -/
def Segment (graph : HGraph) (llvmBasicBlock : Nat → Option Nat) (block : HBasicBlock)
    (code : List LInst) : Prop :=
  ∃ x c value, llvmBasicBlock block.blockId = some x ∧ block.end = some c ∧
    graph.value c = some value ∧ Terminated x value llvmBasicBlock code

/-- Every LLVM block a Hydrogen block has, it keeps. -/
def BlocksKept (s t : BuilderState) : Prop :=
  ∀ b y, s.llvmBasicBlock b = some y → t.llvmBasicBlock b = some y

instance : IsPreorder BuilderState BlocksKept where
  refl _ _ _ found := found
  trans _ _ _ first second b y found := second b y (first b y found)

theorem Terminated.parent {x : Nat} {value : HValue} {f : Nat → Option Nat} {code : List LInst}
    (terminated : Terminated x value f code) : ∀ inst ∈ code, inst.parent = x := by
  obtain ⟨_, _, _, parents, _⟩ := terminated
  exact parents

section Mono

variable {f g : Nat → Option Nat} (kept : ∀ b y, f b = some y → g b = some y)
include kept

theorem Terminated.mono {x : Nat} {value : HValue} {code : List LInst}
    (terminated : Terminated x value f code) : Terminated x value g code := by
  obtain ⟨body, last, split, parents, plain, terminator, targets⟩ := terminated
  refine ⟨body, last, split, parents, plain, terminator, ?_⟩
  have same : ∀ t ∈ value.branchTargets, f t = g t := fun t member => by
    obtain ⟨y, -, found⟩ := List.mem_map.mp (targets ▸ List.mem_map_of_mem f member)
    rw [← found, kept t y found.symm]
  rw [targets, List.map_congr_left same]

theorem Segment.mono {graph : HGraph} {block : HBasicBlock} {code : List LInst}
    (segment : Segment graph f block code) : Segment graph g block code := by
  obtain ⟨x, c, value, found, last, value_found, terminated⟩ := segment
  exact ⟨x, c, value, kept _ _ found, last, value_found, terminated.mono kept⟩

end Mono

/-- The LLVM blocks are numbered from zero, one-to-one, each for a block of the order. -/
structure Numbered (graph : HGraph) (s : BuilderState) : Prop where
  blockMap : BlockMap s
  known : ∀ b y, s.llvmBasicBlock b = some y → b ∈ graph.blockIds

/-- A step that changes nothing the layout reads. -/
structure Quiet (s t : BuilderState) : Prop where
  instructions : t.instructions = s.instructions
  llvmBasicBlock : t.llvmBasicBlock = s.llvmBasicBlock
  basicBlockCount : t.basicBlockCount = s.basicBlockCount
  status : t.status = s.status
  insertBlock : t.insertBlock = s.insertBlock

theorem Numbered.congr {graph : HGraph} {s t : BuilderState} (numbered : Numbered graph s)
    (blocks : t.llvmBasicBlock = s.llvmBasicBlock) (count : t.basicBlockCount = s.basicBlockCount) :
    Numbered graph t :=
  ⟨numbered.blockMap.congr blocks count, by rw [blocks]; exact numbered.known⟩

/-- `Use(HBasicBlock*)` of a block of the order returns the block's LLVM block, a new one
numbered `basicBlockCount` if it had none, and changes nothing else the layout reads. -/
theorem useBlock_step {graph : HGraph} {block : Nat} (listed : block ∈ graph.blockIds)
    {s : BuilderState} (numbered : Numbered graph s) :
    ∃ y t, useBlock block s = .ok y t ∧ BlocksKept s t ∧ t.instructions = s.instructions ∧
      t.status = s.status ∧ t.insertBlock = s.insertBlock ∧ Numbered graph t ∧
      t.llvmBasicBlock block = some y ∧
        (s.llvmBasicBlock block = none → y = s.basicBlockCount) := by
  simp only [useBlock, bind_apply, get_apply]
  cases found : s.llvmBasicBlock block with
  | some y => exact ⟨y, s, rfl, fun _ _ h => h, rfl, rfl, rfl, numbered, found, nofun⟩
  | none =>
    have step := InstrStep.of_addBasicBlock s block found
    refine ⟨_, _, rfl, step.llvmBasicBlock, rfl, rfl, rfl,
      ⟨step.blockMap numbered.blockMap, fun b y h => ?_⟩, by simp, fun _ => rfl⟩
    simp only [BuilderState.addBasicBlock, updateAt_apply] at h
    split at h
    · subst_vars
      exact listed
    · exact numbered.known b y h

/-- The state while a block is processed: the LLVM blocks are numbered, those of `kept` are kept,
the build is not aborted and instructions go to `x`. -/
structure Inserting (graph : HGraph) (x : Nat) (kept : Nat → Option Nat) (s : BuilderState) :
    Prop where
  numbered : Numbered graph s
  kept : ∀ b y, kept b = some y → s.llvmBasicBlock b = some y
  notAborted : s.status ≠ .aborted
  insertBlock : s.insertBlock = x

namespace Inserting

variable {graph : HGraph} {x : Nat} {kept : Nat → Option Nat} {s t : BuilderState}

/-- Only the LLVM blocks, the status and the insertion block matter. -/
theorem congr (blocks : t.llvmBasicBlock = s.llvmBasicBlock)
    (count : t.basicBlockCount = s.basicBlockCount) (status : t.status = s.status)
    (insertBlock : t.insertBlock = s.insertBlock) (inserting : Inserting graph x kept s) :
    Inserting graph x kept t :=
  ⟨inserting.numbered.congr blocks count, by rw [blocks]; exact inserting.kept,
    status ▸ inserting.notAborted, insertBlock.trans inserting.insertBlock⟩

theorem quiet (inserting : Inserting graph x kept s) (step : Quiet s t) :
    Inserting graph x kept t :=
  inserting.congr step.llvmBasicBlock step.basicBlockCount step.status step.insertBlock

end Inserting

/-- Before the block's control instruction: the instructions since `base` are in `x` and are no
terminators. -/
def Emitting (graph : HGraph) (base : List LInst) (x : Nat) (kept : Nat → Option Nat)
    (s : BuilderState) : Prop :=
  Inserting graph x kept s ∧
    ∃ cur, s.instructions = base ++ cur ∧
      ∀ inst ∈ cur, inst.parent = x ∧ inst.op.isTerminator = false

/-- After the block's control instruction `value`: the instructions since `base` are terminated
code in `x` for it. -/
def Closed (graph : HGraph) (base : List LInst) (x : Nat) (kept : Nat → Option Nat)
    (value : HValue) (s : BuilderState) : Prop :=
  Inserting graph x kept s ∧
    ∃ code, s.instructions = base ++ code ∧ Terminated x value s.llvmBasicBlock code

section Emit

variable {graph : HGraph} {base : List LInst} {x : Nat} {kept : Nat → Option Nat}
  {s t : BuilderState}

theorem Emitting.quiet (emitting : Emitting graph base x kept s) (step : Quiet s t) :
    Emitting graph base x kept t := by
  obtain ⟨inserting, cur, code, plain⟩ := emitting
  exact ⟨inserting.quiet step, cur, step.instructions.trans code, plain⟩

theorem Closed.quiet {value : HValue} (closed : Closed graph base x kept value s)
    (step : Quiet s t) : Closed graph base x kept value t := by
  obtain ⟨inserting, code, split, terminated⟩ := closed
  exact ⟨inserting.quiet step, code, step.instructions.trans split,
    by rw [step.llvmBasicBlock]; exact terminated⟩

theorem quiet_emitting {f : BuilderState → BuilderState} (quiet : ∀ s, Quiet s (f s)) :
    Triple (Emitting graph base x kept) (modify f) (fun _ => Emitting graph base x kept)
      (fun _ _ => True) :=
  .of_modify fun s emitting => emitting.quiet (quiet s)

theorem quiet_closed {f : BuilderState → BuilderState} {value : HValue}
    (quiet : ∀ s, Quiet s (f s)) :
    Triple (Closed graph base x kept value) (modify f) (fun _ => Closed graph base x kept value)
      (fun _ _ => True) :=
  .of_modify fun s closed => closed.quiet (quiet s)

theorem insert_emitting (op : LOp) (plain : op.isTerminator = false) :
    Triple (Emitting graph base x kept) (insert op) (fun _ => Emitting graph base x kept)
      (fun _ _ => True) := by
  refine .of_modifyGet fun s ⟨inserting, cur, code, plains⟩ =>
    ⟨inserting.congr (s := s) rfl rfl rfl rfl, cur ++ [⟨s.insertBlock, op⟩], by simp [code],
      fun inst member => ?_⟩
  rcases List.mem_append.mp member with old | new
  · exact plains inst old
  · rw [List.mem_singleton.mp new]
    exact ⟨inserting.insertBlock, plain⟩

/-- The terminator of the control instruction `value` closes the block's code. -/
theorem insert_closes (op : LOp) (value : HValue) (terminator : op.isTerminator = true) :
    Triple (fun s => Emitting graph base x kept s ∧
        op.targets.map some = value.branchTargets.map s.llvmBasicBlock) (insert op)
      (fun _ => Closed graph base x kept value) (fun _ _ => True) := by
  refine .of_modifyGet fun s ⟨⟨inserting, cur, code, plains⟩, targets⟩ =>
    ⟨inserting.congr (s := s) rfl rfl rfl rfl, cur ++ [⟨s.insertBlock, op⟩], by simp [code],
      cur, ⟨s.insertBlock, op⟩, rfl, fun inst member => ?_,
      fun inst member => (plains inst member).2,
      terminator, targets⟩
  rcases List.mem_append.mp member with old | new
  · exact (plains inst old).1
  · rw [List.mem_singleton.mp new]
    exact inserting.insertBlock

/-- `Use(HBasicBlock*)` of a block of the order returns its LLVM block, and keeps every property
of the LLVM blocks that attaching new ones keeps. -/
theorem useBlock_emitting {M : (Nat → Option Nat) → Prop}
    (mono : ∀ f g, (∀ b y, f b = some y → g b = some y) → M f → M g) (block : Nat)
    (listed : block ∈ graph.blockIds) :
    Triple (fun s => Emitting graph base x kept s ∧ M s.llvmBasicBlock) (useBlock block)
      (fun y s => Emitting graph base x kept s ∧ M s.llvmBasicBlock ∧
        s.llvmBasicBlock block = some y) (fun _ _ => True) := by
  rintro s ⟨⟨inserting, cur, code, plains⟩, marked⟩
  obtain ⟨y, t, run, blocksKept, instructions, status, insertBlock, numbered, found, -⟩ :=
    useBlock_step listed inserting.numbered
  rw [run]
  exact ⟨⟨⟨numbered, fun b y h => blocksKept b y (inserting.kept b y h),
    status ▸ inserting.notAborted, insertBlock.trans inserting.insertBlock⟩, cur,
    instructions.trans code, plains⟩, mono _ _ blocksKept marked, found⟩

theorem doSimulate_emitting (popCount : Nat) (values : List (Option Nat × Nat)) :
    Triple (Emitting graph base x kept) (LLVMChunkBuilder.doSimulate popCount values)
      (fun _ => Emitting graph base x kept) (fun _ _ => True) := by
  intro s emitting
  simp only [LLVMChunkBuilder.doSimulate, bind_apply, get_apply]
  cases s.currentEnvironment
  · exact True.intro
  · exact emitting.quiet ⟨rfl, rfl, rfl, rfl, rfl⟩

end Emit

namespace LLVMChunkBuilder

section Control

variable (cb : LLVMChunkBuilder) {graph : HGraph} {base : List LInst} {x : Nat}
  {kept : Nat → Option Nat} {use : Nat → BuildM LValue}
  (huse : ∀ o, Triple (Emitting graph base x kept) (use o) (fun _ => Emitting graph base x kept)
    (fun _ _ => True))

/-- Any abort of a handler keeps what the layout needs of a completed build: nothing. -/
theorem aborts_trivially : ∀ (e : Abort) (s : BuilderState), Emitting graph base x kept s →
    e.ofHandler = true → True :=
  fun _ _ _ _ => True.intro

include huse

/-- `DoCompareNumericAndBranch` of an instruction with no known successor ends the block's code
with a conditional branch to the LLVM blocks of `SuccessorAt(0)` and `SuccessorAt(1)`. -/
theorem doCompareNumericAndBranch_closes (id : Nat) (value : HValue) (token : Token)
    (left right : Nat) (known : value.knownSuccessor = none)
    (isCompare : value.opcode? = some (.compareNumericAndBranch token left right))
    (listed : ∀ t ∈ value.successors, t ∈ graph.blockIds) :
    Triple (Emitting graph base x kept) (cb.doCompareNumericAndBranch use id value token left right)
      (fun _ => Closed graph base x kept value) (fun _ _ => True) := by
  have aborts := @aborts_trivially graph base x kept
  unfold doCompareNumericAndBranch
  refine .bind (valueAt_triple aborts cb _) fun _ => .bind (valueAt_triple aborts cb _) fun _ =>
    .bind (dcheck_triple aborts _ _ (by decide)) fun _ =>
    .bind (dcheck_triple aborts _ _ (by decide)) fun _ =>
    .bind (tokenToPredicate_triple aborts _ _) fun _ =>
    .of_ite (fun _ => unimplemented_triple aborts) fun _ => .of_ite (fun _ => ?_) fun _ =>
      .bind (dcheck_triple aborts _ _ (by decide)) fun _ => unimplemented_triple aborts
  refine .bind (huse left) fun _ => .bind (huse right) fun _ =>
    .bind (insert_emitting _ rfl) fun compare =>
    .bind_resolve (fun _ _ => True.intro) fun t₀ found₀ =>
    .bind (.weaken (useBlock_emitting (M := fun _ => True) (fun _ _ _ _ => True.intro) t₀
      (listed t₀ (List.getElem?_mem found₀))) (fun _ h => ⟨h, True.intro⟩) (fun _ _ h => h)
      fun _ _ h => h) fun y₀ =>
    .bind_resolve (fun _ _ => True.intro) fun t₁ found₁ =>
    .bind (.weaken (useBlock_emitting (M := fun f => f t₀ = some y₀)
      (fun _ _ kept h => kept _ _ h) t₁ (listed t₁ (List.getElem?_mem found₁)))
      (fun _ h => ⟨h.1, h.2.2⟩) (fun _ _ h => h)
      fun _ _ h => h) fun y₁ =>
    .bind (.weaken (insert_closes (.condBr compare y₀ y₁) value rfl) (fun s h => ⟨h.1, ?_⟩)
      (fun _ _ h => h) fun _ _ h => h) fun _ =>
    quiet_closed fun _ => ⟨rfl, rfl, rfl, rfl, rfl⟩
  obtain ⟨rest, successors⟩ : ∃ rest, value.successors = t₀ :: t₁ :: rest := by
    match split : value.successors, found₀, found₁ with
    | a :: b :: rest, first, second =>
      simp only [List.getElem?_cons_zero, List.getElem?_cons_succ, Option.some.injEq]
        at first second
      exact ⟨rest, by rw [first, second]⟩
  simp [LOp.targets, HValue.branchTargets, known, isCompare, successors, h.2.1, h.2.2]

omit huse in
/-- `DoReturn` ends the block's code with a return, which has no targets. -/
theorem doReturn_closes (value : HValue) (returned parameterCount : Nat)
    (known : value.knownSuccessor = none)
    (isReturn : value.opcode? = some (.«return» returned parameterCount))
    (huse : Triple (Emitting graph base x kept) (use returned)
      (fun _ => Emitting graph base x kept) (fun _ _ => True)) :
    Triple (Emitting graph base x kept) (cb.doReturn use returned parameterCount)
      (fun _ => Closed graph base x kept value) (fun _ _ => True) := by
  have aborts := @aborts_trivially graph base x kept
  have rest : Triple (Emitting graph base x kept) (do
      dcheck (!cb.info.isStub) "!info()->IsStub()"
      match (← cb.valueAt parameterCount).kind with
      | .instruction (.constant _) => discard (insert (.ret (← use returned)))
      | _ => unimplemented) (fun _ => Closed graph base x kept value) (fun _ _ => True) :=
    .bind (dcheck_triple aborts _ _ (by decide)) fun _ =>
      .bind (valueAt_triple aborts cb _) fun count => by
        split
        · exact .bind huse fun _ => .of_discard (.weaken (insert_closes (.ret _) value rfl)
            (fun _ h => ⟨h, by simp [LOp.targets, HValue.branchTargets, known, isReturn]⟩)
            (fun _ _ h => h) fun _ _ h => h)
        · exact unimplemented_triple aborts
  have abort {α : Type} {Q : α → BuilderState → Prop} :
      Triple (Emitting graph base x kept) unimplemented Q (fun _ _ => True) :=
    unimplemented_triple aborts
  unfold doReturn
  exact .of_ite (fun _ => .bind abort fun _ => .of_ite (fun _ => .bind abort fun _ => rest)
    fun _ => .bind (.of_pure _ fun _ h => h) fun _ => rest) fun _ =>
    .bind (.of_pure _ fun _ h => h) fun _ => .of_ite (fun _ => .bind abort fun _ => rest)
      fun _ => .bind (.of_pure _ fun _ h => h) fun _ => rest

end Control

section Visit

variable (cb : LLVMChunkBuilder) (formed : cb.graph.cfgFormed = true) {base : List LInst} {x : Nat}
  {kept : Nat → Option Nat}
include formed

/-- `Use` of an operand keeps the code free of terminators if the visits of operands that are not
control instructions do: the operands it visits are emitted at their uses, so they are not. -/
theorem useValue_emitting {visit : Nat → BuildM Unit}
    (hvisit : ∀ o, cb.graph.isControl o = false →
      Triple (Emitting cb.graph base x kept) (visit o)
      (fun _ => Emitting cb.graph base x kept) (fun _ _ => True)) (o : Nat) :
    Triple (Emitting cb.graph base x kept) (cb.useValue visit o)
      (fun _ => Emitting cb.graph base x kept) (fun _ _ => True) :=
  useValue_triple (fun _ _ _ => True.intro) cb o
    (fun _ found emits => hvisit o (HGraph.isControl_of_emitAtUses formed found emits))
    fun _ => quiet_emitting fun _ => ⟨rfl, rfl, rfl, rfl, rfl⟩

/-- Visiting an instruction that is not a control instruction inserts no terminator. -/
theorem visitInstruction_emitting (fuel : Nat) : ∀ id, cb.graph.isControl id = false →
    Triple (Emitting cb.graph base x kept) (cb.visitInstruction fuel id)
      (fun _ => Emitting cb.graph base x kept) (fun _ _ => True) := by
  induction fuel with
  | zero => exact fun _ _ => .of_throw _ fun _ _ => True.intro
  | succ fuel visit =>
    intro id plain
    exact visitInstruction_triple aborts_trivially (fun _ h => h) cb id insert_emitting
      (fun _ found control => absurd control (by simp [← HGraph.isControl_of found, plain]))
      (fun _ => quiet_emitting fun _ => ⟨rfl, rfl, rfl, rfl, rfl⟩)
      (fun _ found block member => .weaken (useBlock_emitting (M := fun _ => True)
        (fun _ _ _ _ => True.intro) block (HGraph.blockRefs_listed formed found block member))
        (fun _ h => ⟨h, True.intro⟩) (fun _ _ h => h.1) fun _ _ h => h)
      doSimulate_emitting fuel (quiet_emitting fun _ => ⟨rfl, rfl, rfl, rfl, rfl⟩)
      fun _ _ _ _ o _ => useValue_emitting cb formed visit o

/-- Visiting a block's control instruction closes the block's code with the instruction's
terminator. -/
theorem visitInstruction_closes (fuel c : Nat) (value : HValue)
    (found : cb.graph.value c = some value)
    (control : value.isControlInstruction = true) :
    Triple (Emitting cb.graph base x kept) (cb.visitInstruction fuel c)
      (fun _ => Closed cb.graph base x kept value) (fun _ _ => True) := by
  cases fuel with
  | zero => exact .of_throw _ fun _ _ => True.intro
  | succ fuel =>
    have aborts := @aborts_trivially cb.graph base x kept
    refine .bind (quiet_emitting fun _ => ⟨rfl, rfl, rfl, rfl, rfl⟩) fun _ =>
      .bind_resolve (fun _ _ => True.intro) fun current current_found => ?_
    obtain rfl : current = value := Option.some.inj (current_found.symm.trans found)
    refine .bind_dchecked (fun _ _ => True.intro) fun opcode isInstruction =>
      .of_ite (fun _ => ?_) fun _ => ?_
    · split
      · exact unimplemented_triple aborts
      · exact .bind (valueAt_triple aborts cb _) fun _ =>
          .bind (dcheck_triple aborts _ _ (by decide)) fun _ => unimplemented_triple aborts
    · split
      · next successor _ known =>
        exact .bind (.weaken (useBlock_emitting (M := fun _ => True) (fun _ _ _ _ => True.intro)
          successor (HGraph.blockRefs_listed formed found successor
            (by simp [HValue.blockRefs, known]))) (fun _ h => ⟨h, True.intro⟩) (fun _ _ h => h)
          fun _ _ h => h) fun _ => .of_discard (.weaken (insert_closes (.br _) current rfl)
            (fun _ h => ⟨h.1, by simp [LOp.targets, HValue.branchTargets, known, h.2.2]⟩)
            (fun _ _ h => h) fun _ _ h => h)
      · next noBranch =>
        have known : current.knownSuccessor = none := by
          cases successor : current.knownSuccessor
          · rfl
          · exact absurd (noBranch _ control successor) id
        have uses : ∀ o, Triple (Emitting cb.graph base x kept)
            (cb.useValue (cb.visitInstruction fuel) o) (fun _ => Emitting cb.graph base x kept)
            (fun _ _ => True) :=
          useValue_emitting cb formed (visitInstruction_emitting cb formed fuel)
        have opcodeControl :=
          (HValue.isControlInstruction_of_opcode isInstruction).symm.trans control
        cases opcode
        case compareNumericAndBranch =>
          exact doCompareNumericAndBranch_closes cb uses c current _ _ _ known isInstruction
            fun t member =>
              HGraph.blockRefs_listed formed found t (by simp [HValue.blockRefs, member])
        case «return» => exact doReturn_closes cb current _ _ known isInstruction (uses _)
        case goto | stub => exact unimplemented_triple aborts
        all_goals simp [HOpcode.isControlInstruction] at opcodeControl

/-- One turn of the instruction loop on an instruction that is not a control instruction. -/
theorem doInstructions_cons {Q : Unit → BuilderState → Prop} (fuel u : Nat) (rest : List Nat)
    (plain : cb.graph.isControl u = false)
    (next : Triple (Emitting cb.graph base x kept) (cb.doInstructions fuel rest) Q
      (fun _ _ => True)) :
    Triple (Emitting cb.graph base x kept) (cb.doInstructions fuel (u :: rest)) Q
      (fun _ _ => True) := by
  refine .bind (Q := fun a s => Emitting cb.graph base x kept s ∧ a = s)
    (.of_get fun _ h => ⟨h, rfl⟩) fun s₁ => .of_ite (fun aborted => ?_) fun _ =>
      .weaken (.bind_resolve (fun _ _ => True.intro) fun _ _ => .of_ite
        (fun _ => .bind (visitInstruction_emitting cb formed fuel u plain) fun _ => next)
        fun _ => .bind (.of_pure _ fun _ h => h) fun _ => next) (fun _ h => h.1) (fun _ _ h => h)
        fun _ _ h => h
  rintro s ⟨⟨inserting, -⟩, rfl⟩
  exact absurd aborted inserting.notAborted

/-- The instruction loop over a block's instructions, the control instruction last, closes the
block's code with the control instruction's terminator. -/
theorem doInstructions_closes (fuel c : Nat) (value : HValue)
    (found : cb.graph.value c = some value)
    (control : value.isControlInstruction = true) (plain : List Nat)
    (plains : ∀ u ∈ plain, cb.graph.isControl u = false) :
    Triple (Emitting cb.graph base x kept) (cb.doInstructions fuel (plain ++ [c]))
      (fun _ => Closed cb.graph base x kept value) (fun _ _ => True) := by
  induction plain with
  | cons u rest loop =>
    exact doInstructions_cons cb formed fuel u _ (plains u (List.mem_cons_self u rest))
      (loop fun v member => plains v (List.mem_cons_of_mem u member))
  | nil =>
    refine .bind (Q := fun a s => Emitting cb.graph base x kept s ∧ a = s)
      (.of_get fun _ h => ⟨h, rfl⟩) fun s₁ => .of_ite (fun aborted => ?_) fun _ =>
        .weaken (.bind_resolve (fun _ _ => True.intro) fun current current_found => ?_)
          (fun _ h => h.1) (fun _ _ h => h) fun _ _ h => h
    · rintro s ⟨⟨inserting, -⟩, rfl⟩
      exact absurd aborted inserting.notAborted
    · obtain rfl : current = value := Option.some.inj (current_found.symm.trans found)
      refine .of_ite (fun _ =>
        .bind (visitInstruction_closes cb formed fuel c current found control)
        fun _ => .of_pure _ fun _ h => h) fun skips => absurd ?_ skips
      simp [HGraph.emitAtUses_of_control formed found control]

end Visit

/-- Between blocks: the LLVM blocks are numbered, the build is not aborted, no LLVM block exists
before the first block, the first block's LLVM block is the first one, and the code is one
segment for each block processed, in order. -/
structure Laid (graph : HGraph) (done : List HBasicBlock) (s : BuilderState) : Prop where
  numbered : Numbered graph s
  notAborted : s.status ≠ .aborted
  empty : done = [] → s.basicBlockCount = 0
  start : ∀ b ∈ done.head?, s.llvmBasicBlock b.blockId = some 0
  segments : ∃ segments, s.instructions = segments.flatten ∧
    List.Forall₂ (Segment graph s.llvmBasicBlock) done segments

theorem Laid.congr {graph : HGraph} {done : List HBasicBlock} {s t : BuilderState}
    (instructions : t.instructions = s.instructions) (blocks : t.llvmBasicBlock = s.llvmBasicBlock)
    (count : t.basicBlockCount = s.basicBlockCount) (notAborted : t.status ≠ .aborted)
    (laid : Laid graph done s) : Laid graph done t := by
  obtain ⟨numbered, -, empty, start, segments⟩ := laid
  exact ⟨numbered.congr blocks count, notAborted, count ▸ empty, blocks ▸ start,
    by rw [instructions, blocks]; exact segments⟩

/-- Before the first block no LLVM block exists, so the first one `Use` creates is block `0`. -/
theorem Laid.useBlock_first {graph : HGraph} {s : BuilderState} (laid : Laid graph [] s)
    {b y : Nat} (fresh : s.llvmBasicBlock b = none → y = s.basicBlockCount) : y = 0 := by
  have unset : s.llvmBasicBlock b = none := by
    cases found : s.llvmBasicBlock b with
    | none => rfl
    | some z =>
      exact absurd (laid.numbered.blockMap.lt_count _ z found) (by rw [laid.empty rfl]; omega)
  rw [fresh unset, laid.empty rfl]

section Blocks

variable (cb : LLVMChunkBuilder) (formed : cb.graph.cfgFormed = true)
include formed

/-- A block of the order adds its segment to the code. -/
theorem doBasicBlock_lays (fuel : Nat) (block : HBasicBlock) (member : block ∈ cb.graph.blocks)
    (done : List HBasicBlock) :
    Triple (Laid cb.graph done) (cb.doBasicBlock fuel block)
      (fun _ => Laid cb.graph (done ++ [block])) (fun _ _ => True) := by
  obtain ⟨plain, c, value, split, found, control, plains⟩ :=
    HGraph.instructions_of_mem formed member
  refine .bind (.of_get fun _ h => h) fun _ => .bind (.of_dcheck _ _ fun _ _ => True.intro)
    fun _ => .of_start fun s₀ laid => ?_
  obtain ⟨y, s₁, run, blocksKept, instructions, status, -, numbered, entered, fresh⟩ :=
    useBlock_step (List.mem_map_of_mem _ member) laid.numbered
  refine .of_run run (.bind (Q := fun _ s => s = s₁.enterBlock y block.blockId)
    (.of_modify fun _ same => by rw [same]) fun _ => .bind (Q := fun _ => EnvStep
      (s₁.enterBlock y block.blockId)) (.weaken (bindEnvironment_envStep
        (fun _ _ first second => first.trans second) (fun _ _ _ _ => True.intro) cb block)
          (fun _ same => EnvStep.of_eq same) (fun _ _ h => h) fun _ _ h => h)
      fun _ => .bind (Q := fun _ => Laid cb.graph (done ++ [block]))
        (.of_start fun s₃ step => ?_) fun _ =>
        .of_modify fun s laid => Laid.congr (s := s) (t := s.leaveBlock block.blockId) rfl rfl rfl
          laid.notAborted laid)
  rw [split]
  have closes : Triple (Emitting cb.graph s₃.instructions y s₃.llvmBasicBlock)
      (cb.doInstructions fuel (plain ++ [c]))
      (fun _ => Closed cb.graph s₃.instructions y s₃.llvmBasicBlock value) (fun _ _ => True) :=
    doInstructions_closes cb formed fuel c value found control plain plains
  refine .weaken closes (fun s same => ?_) (fun _ s closed => ?_) fun _ _ h => h
  · subst same
    refine ⟨⟨numbered.congr step.llvmBasicBlock step.basicBlockCount, fun _ _ h => h, ?_,
      step.insertBlock⟩, [], by simp, by simp⟩
    rw [step.status]
    exact status ▸ laid.notAborted
  · obtain ⟨inserting, code, appended, terminated⟩ := closed
    have kept : ∀ b z, s₀.llvmBasicBlock b = some z → s.llvmBasicBlock b = some z :=
      fun b z h => inserting.kept b z (by rw [step.llvmBasicBlock]; exact blocksKept b z h)
    have ownBlock : s.llvmBasicBlock block.blockId = some y :=
      inserting.kept _ _ (by rw [step.llvmBasicBlock]; exact entered)
    obtain ⟨segments, flat, laidOut⟩ := laid.segments
    refine ⟨inserting.numbered, inserting.notAborted, fun appendedNil => by simp at appendedNil,
      fun b first => ?_, segments ++ [code], ?_,
      List.rel_append (laidOut.imp fun _ _ h => h.mono kept) (.cons
        ⟨y, c, value, ownBlock, by simp [HBasicBlock.end, split], found, terminated⟩ .nil)⟩
    · cases done with
      | nil => rw [show b = block by simpa using first.symm, ownBlock, laid.useBlock_first fresh]
      | cons d rest => exact kept _ _ (laid.start b (by simpa using first))
    · rw [appended, step.instructions, List.flatten_append, List.flatten_singleton]
      show s₁.instructions ++ code = _
      rw [instructions, flat]

/-- The block loop of `Build` lays out its blocks in order. -/
theorem doBlocks_lays (fuel : Nat) (blocks : List HBasicBlock) : ∀ done,
    (∀ b ∈ blocks, b ∈ cb.graph.blocks) →
    Triple (Laid cb.graph done) (cb.doBlocks fuel blocks)
      (fun _ => Laid cb.graph (done ++ blocks)) (fun _ _ => True) := by
  induction blocks with
  | nil => exact fun done _ => .of_pure _ fun _ h => by simpa using h
  | cons block rest loop =>
    intro done members
    have next := loop (done ++ [block]) fun b member => members b (List.mem_cons_of_mem _ member)
    rw [List.append_assoc, List.singleton_append] at next
    refine .bind (doBasicBlock_lays cb formed fuel block (members block (List.mem_cons_self _ _))
      done) fun _ => .bind (Q := fun a s => Laid cb.graph (done ++ [block]) s ∧ a = s)
        (.of_get fun _ h => ⟨h, rfl⟩) fun s₁ => .of_ite (fun aborted => ?_) fun _ =>
          .weaken next (fun _ h => h.1) (fun _ _ h => h) fun _ _ h => h
    rintro s ⟨laid, rfl⟩
    exact absurd aborted laid.notAborted

/-- A build from the initial state lays out the blocks of the order. -/
theorem build_lays (fuel : Nat) (session : LLVMGranularity) :
    Triple (· = BuilderState.initial cb.graph session) (cb.build fuel)
      (fun _ => Laid cb.graph cb.graph.blocks) (fun _ _ => True) := by
  have blocks := doBlocks_lays cb formed fuel cb.graph.blocks [] fun _ member => member
  have start : ∀ s, s = BuilderState.initial cb.graph session →
      Laid cb.graph [] (s.startBuild cb.functionArity) := by
    rintro s rfl
    exact ⟨⟨⟨fun _ _ => nofun, fun _ _ _ => nofun,
      fun _ below => absurd below (Nat.not_lt_zero _)⟩,
      fun _ _ => nofun⟩, by simp, fun _ => rfl, nofun, [], rfl, .nil⟩
  unfold build
  exact .bind (.of_modify start) fun _ => .bind blocks fun _ =>
    .of_ite (fun _ => .of_pure _ fun _ h => h) fun _ => .bind (.of_pure _ fun _ h => h) fun _ =>
      .bind (.of_modify fun s laid => Laid.congr (s := s) (t := s.finishBuild) rfl rfl rfl
        (by simp) laid) fun _ => .bind (.of_get fun _ h => h) fun _ => .of_pure _ fun _ h => h

end Blocks

/-! ## LLVM blocks are never replaced -/

section Kept

variable (cb : LLVMChunkBuilder)

theorem useBlock_blocksKept (block : Nat) : Guarantee BlocksKept (useBlock block) :=
  Guarantee.of_triple fun _ =>
    useBlock_stable (fun _ _ kept step b y found => step.llvmBasicBlock b y (kept b y found)) block

theorem bindEnvironment_blocksKept (block : HBasicBlock) :
    Guarantee BlocksKept (cb.bindEnvironment block) :=
  Guarantee.of_triple fun _ => bindEnvironment_envStep
    (fun _ _ kept step => by rw [BlocksKept, step.llvmBasicBlock]; exact kept)
    (fun _ _ kept _ => kept) cb block

theorem doBasicBlock_blocksKept (fuel : Nat) (block : HBasicBlock) :
    Guarantee BlocksKept (cb.doBasicBlock fuel block) :=
  .bind .of_get fun _ => .bind (.of_dcheck _ _) fun _ => .bind (useBlock_blocksKept _) fun _ =>
    .bind (.of_modify fun _ _ _ found => found) fun _ =>
    .bind (bindEnvironment_blocksKept cb block) fun _ =>
    .bind ((doInstructions_instrStep cb fuel _).mono fun _ _ step => step.llvmBasicBlock) fun _ =>
    .of_modify fun _ _ _ found => found

theorem doBlocks_blocksKept (fuel : Nat) (blocks : List HBasicBlock) :
    Guarantee BlocksKept (cb.doBlocks fuel blocks) := by
  induction blocks with
  | nil => exact .of_pure _
  | cons block rest loop =>
    exact .bind (doBasicBlock_blocksKept cb fuel block) fun _ => .bind .of_get fun _ =>
      .of_ite (.of_pure _) loop

theorem build_blocksKept (fuel : Nat) : Guarantee BlocksKept (cb.build fuel) :=
  .bind (.of_modify fun _ _ _ found => found) fun _ => .bind (doBlocks_blocksKept cb fuel _)
    fun _ => .of_ite (.of_pure _) (.bind (.of_pure _) fun _ =>
      .bind (.of_modify fun _ _ _ found => found) fun _ => .bind .of_get fun _ => .of_pure _)

end Kept

end LLVMChunkBuilder

/-! ## The code of each LLVM block -/

section Segments

variable {graph : HGraph} {f : Nat → Option Nat}

/-- Every instruction of laid-out code lies in the LLVM block of one of the blocks. -/
theorem parents_of_segments {blocks : List HBasicBlock} {segments : List (List LInst)}
    (laidOut : List.Forall₂ (Segment graph f) blocks segments) :
    ∀ inst ∈ segments.flatten, ∃ b ∈ blocks, f b.blockId = some inst.parent := by
  induction laidOut with
  | nil => simp
  | cons segment _ rest =>
    intro inst member
    rcases List.mem_append.mp (List.flatten_cons ▸ member) with own | later
    · obtain ⟨x, _, _, found, _, _, terminated⟩ := segment
      exact ⟨_, List.mem_cons_self _ _, by rw [found, terminated.parent inst own]⟩
    · obtain ⟨b, member, found⟩ := rest inst later
      exact ⟨b, List.mem_cons_of_mem _ member, found⟩

/-- For distinct blocks with distinct LLVM blocks, the instructions of laid-out code in a block's
LLVM block are the block's segment. -/
theorem filter_segments (injective : ∀ b b' y, f b = some y → f b' = some y → b = b')
    {blocks : List HBasicBlock} {segments : List (List LInst)}
    (laidOut : List.Forall₂ (Segment graph f) blocks segments)
    (distinct : (blocks.map (·.blockId)).Nodup) {block : HBasicBlock} (member : block ∈ blocks)
    {y : Nat} (found : f block.blockId = some y) :
    ∃ value, Terminated y value f (segments.flatten.filter (·.parent == y)) := by
  induction laidOut with
  | nil => cases member
  | @cons b code laterBlocks laterSegments segment rest next =>
    rw [List.map_cons, List.nodup_cons] at distinct
    obtain ⟨x, c, value, own, _, _, terminated⟩ := segment
    have parents := terminated.parent
    rw [List.flatten_cons, List.filter_append]
    rcases List.mem_cons.mp member with rfl | later
    · obtain rfl : x = y := Option.some.inj (own.symm.trans found)
      have others : laterSegments.flatten.filter (·.parent == x) = [] :=
        List.filter_eq_nil_iff.mpr fun inst member' same => by
          obtain ⟨b', member'', found'⟩ := parents_of_segments rest inst member'
          rw [show inst.parent = x by simpa using same] at found'
          exact distinct.1 (injective _ _ _ found' own ▸ List.mem_map_of_mem _ member'')
      rw [List.filter_eq_self.mpr fun inst member' => by simp [parents inst member'], others,
        List.append_nil]
      exact ⟨value, terminated⟩
    · have mine : code.filter (·.parent == y) = [] := List.filter_eq_nil_iff.mpr
        fun inst member' same => by
          rw [parents inst member'] at same
          rw [show x = y by simpa using same] at own
          exact distinct.1 (injective _ _ _ own found ▸ List.mem_map_of_mem _ later)
      rw [mine, List.nil_append]
      exact next distinct.2 later

end Segments

namespace LLVMChunkBuilder

/-- The LLVM control-flow graph of a completed build is an image of the block order's.  Over every
run of `Build`, from any state, no block's LLVM block is replaced.  For a well-formed block order,
a completed build has numbered its LLVM blocks from zero, one for each of distinct blocks of the
order, the first block's first; its code is one segment for each block, in block order, lying in
the block's LLVM block and ending with the block's only terminator, whose targets are the LLVM
blocks of the branch targets of the block's control instruction; and each LLVM block holds its
block's segment, so it ends with its only terminator. -/
theorem build_cfg_image (cb : LLVMChunkBuilder) (formed : cb.graph.cfgFormed = true) (fuel : Nat)
    (session : LLVMGranularity) :
    Guarantee BlocksKept (cb.build fuel) ∧
    ∀ chunk s, cb.build fuel (BuilderState.initial cb.graph session) = .ok (some chunk) s →
      BlockMap s ∧ (∀ b y, s.llvmBasicBlock b = some y → b ∈ cb.graph.blockIds) ∧
      (∀ b ∈ cb.graph.blocks.head?, s.llvmBasicBlock b.blockId = some 0) ∧
      (∃ segments, s.instructions = segments.flatten ∧
        List.Forall₂ (Segment cb.graph s.llvmBasicBlock) cb.graph.blocks segments) ∧
      ∀ y < s.basicBlockCount, ∃ body last,
        s.instructions.filter (·.parent == y) = body ++ [last] ∧
        (∀ inst ∈ body, inst.op.isTerminator = false) ∧ last.op.isTerminator = true := by
  refine ⟨build_blocksKept cb fuel, fun chunk s ran => ?_⟩
  have laid := build_lays cb formed fuel session _ rfl
  rw [ran] at laid
  obtain ⟨numbered, -, -, start, segments, flat, laidOut⟩ := laid
  refine ⟨numbered.blockMap, numbered.known, start, ⟨segments, flat, laidOut⟩,
    fun y below => ?_⟩
  obtain ⟨b, found⟩ := numbered.blockMap.onto y below
  obtain ⟨block, member, rfl⟩ := List.mem_map.mp (numbered.known b y found)
  obtain ⟨_, body, last, split, -, plain, terminator, -⟩ := filter_segments
    numbered.blockMap.injective laidOut (HGraph.blockIds_nodup formed) member found
  exact ⟨body, last, by rw [flat, split], plain, terminator⟩

/-- A comparison of the first parameter with zero that branches to two returns. -/
def signBranch : HGraph where
  values := [
    { kind := .instruction (.parameter 1), block := 0, representation := .tagged },
    { kind := .instruction (.change 0 .tagged .integer32), block := 0,
      representation := .integer32 },
    { kind := .instruction (.constant (.integer32 0)), block := 0, representation := .integer32,
      emitAtUses := true },
    { kind := .instruction (.compareNumericAndBranch .lt 1 2), block := 0,
      representation := .integer32, successors := [1, 2] },
    { kind := .instruction (.«return» 0 2), block := 1, representation := .tagged },
    { kind := .instruction (.«return» 2 2), block := 2, representation := .tagged }]
  blocks := [
    { blockId := 0, isStartBlock := true, instructions := [0, 1, 3] },
    { blockId := 1, predecessors := [0], instructions := [4] },
    { blockId := 2, predecessors := [0], instructions := [5] }]

theorem build_cfg_image_signBranch :
    let cb : LLVMChunkBuilder := ⟨⟨1, false, false⟩, signBranch, true⟩
    Guarantee BlocksKept (cb.build 3) ∧
    ∀ chunk s, cb.build 3 (BuilderState.initial cb.graph {}) = .ok (some chunk) s →
      BlockMap s ∧ (∀ b y, s.llvmBasicBlock b = some y → b ∈ cb.graph.blockIds) ∧
      (∀ b ∈ cb.graph.blocks.head?, s.llvmBasicBlock b.blockId = some 0) ∧
      (∃ segments, s.instructions = segments.flatten ∧
        List.Forall₂ (Segment cb.graph s.llvmBasicBlock) cb.graph.blocks segments) ∧
      ∀ y < s.basicBlockCount, ∃ body last,
        s.instructions.filter (·.parent == y) = body ++ [last] ∧
        (∀ inst ∈ body, inst.op.isTerminator = false) ∧ last.op.isTerminator = true :=
  build_cfg_image ⟨⟨1, false, false⟩, signBranch, true⟩ (by decide) 3 {}

/-- The code of `signBranch`: the comparison and the conditional branch in the start block's LLVM
block `0`, and one return in each of the LLVM blocks `1` and `2` of its successors. -/
example : LLVMChunk.code (LLVMChunk.newChunk ⟨1, false, false⟩ signBranch 3 {}) = some [
    ⟨0, .lShr (.argument 2) 32⟩, ⟨0, .iCmp .icmpSlt (.instruction 0) (.constantInt 0)⟩,
    ⟨0, .condBr (.instruction 1) 1 2⟩, ⟨1, .ret (.argument 2)⟩,
    ⟨2, .ret (.constantInt 0)⟩] := by
  decide

end LLVMChunkBuilder

end Llv8
