import Llv8.Join
import Llv8.Materialize
import Llv8.Sharing

/-!
# Blocks replay their simulates

While `DoBasicBlock` processes a block, the environment heap is written only by the block's
environment step and by `DoSimulate`, which replays an `HSimulate` into the block's environment.
Every other handler leaves the heap alone, and so does `Use`, as long as no simulate is an
operand that a handler hands to `Use` (`HGraph.simulatesUnused`): the visit of any other
instruction, with every visit it makes, is a `QuietStep` (`visitInstruction_quiet`).

So a block finishes with the environment it entered with, its simulates replayed in the order
of its instruction list (`HGraph.Replayed`).  A block with one predecessor enters with the
contents it inherits, and a join with them after its phi loops have run; the start block, when it
comes first, enters with the start environment (`build_replays_simulates`).

In a graph that is also `sharingOrdered`, every block takes what its first predecessor finished
with, so the graph fixes every environment: processed block after block, each finishes with what
`HGraph.finishedAfter` computes (`Static`, `doBasicBlock_static`).
-/

namespace Llv8

namespace HGraph

variable (graph : HGraph)

/-- The pop count and values of an `HSimulate`. -/
def simulateOf (id : Nat) : Option (Nat × List (Option Nat × Nat)) :=
  match graph.opcodeOf id with
  | some (.simulate popCount values) => some (popCount, values)
  | _ => none

/-- No simulate is an operand that a handler hands to `Use`. -/
def simulatesUnused : Bool :=
  (List.range graph.values.length).all fun u =>
    (graph.usedOperands u).all fun o => (graph.simulateOf o).isNone

/-- What the block loop's visit of instruction `id` does to the block's environment: a
simulate that is not emitted at its uses is replayed into it. -/
def replayStep (env : List Nat) (id : Nat) : List Nat :=
  if graph.emitsAtUses id then env
  else ((graph.simulateOf id).map fun simulate =>
    replayEnvironment simulate.1 simulate.2 env).getD env

/-- The block loop's replay of the simulates among the instructions `ids`, in order. -/
def replayInstructions (ids : List Nat) (env : List Nat) : List Nat :=
  ids.foldl graph.replayStep env

@[simp] theorem replayInstructions_nil (env : List Nat) : graph.replayInstructions [] env = env :=
  rfl

@[simp] theorem replayInstructions_cons (id : Nat) (ids env : List Nat) :
    graph.replayInstructions (id :: ids) env =
      graph.replayInstructions ids (graph.replayStep env id) :=
  rfl

/-- A join's phi loop on contents: every phi with a merged index is written into its slot. -/
def writePhis (phis : List Nat) (env : List Nat) : List Nat :=
  phis.foldl (fun env phi => ((graph.mergedIndex phi).map fun index => env.set index phi).getD env)
    env

/-- A join's deleted-phi loop on contents: every deleted index is reset to undefined (`List.set`
leaves an index out of range alone, as the loop does). -/
def clearPhis (indices : List Nat) (env : List Nat) : List Nat :=
  indices.foldl (fun env index => env.set index graph.constantUndefined) env

/-- The environment a block enters with: the start environment `start` for a start block, and for
another block the contents it inherited, at a join after its phi loops. -/
def entryEnvironment (block : HBasicBlock) (start : List Nat) (inherited : Option (List Nat)) :
    Option (List Nat) :=
  if block.isStartBlock then some start
  else if block.predecessors.length = 1 then inherited
  else inherited.map fun env => graph.clearPhis block.deletedPhis (graph.writePhis block.phis env)

/-- A block was finished with the environment it entered with, its simulates replayed. -/
def Replayed (s : BuilderState) (block : HBasicBlock) : Prop :=
  s.finishedEnvironment block.blockId =
    (graph.entryEnvironment block graph.startEnvironment (s.inheritedEnvironment block.blockId)).map
      (graph.replayInstructions block.instructions)

/-- The environment `block` finishes with, given those its predecessors finished with: it enters
as `entryEnvironment` says, with what its first predecessor finished with, and replays its
simulates. -/
def finishBlock (finished : Nat → Option (List Nat)) (block : HBasicBlock) :
    Nat → Option (List Nat) :=
  updateAt finished block.blockId
    ((graph.entryEnvironment block graph.startEnvironment (block.predecessors[0]?.bind finished)).map
      (graph.replayInstructions block.instructions))

/-- The environments the blocks `blocks` finish with when processed in order: the environments a
build computes, as far as they are fixed by the graph. -/
def finishedAfter (blocks : List HBasicBlock) : Nat → Option (List Nat) :=
  blocks.foldl graph.finishBlock fun _ => none

theorem finishedAfter_append_singleton (blocks : List HBasicBlock) (block : HBasicBlock) :
    graph.finishedAfter (blocks ++ [block]) = graph.finishBlock (graph.finishedAfter blocks) block :=
  List.foldl_append _ _ _ _

theorem Replayed.congr {graph : HGraph} {s s' : BuilderState} {block : HBasicBlock}
    (replayed : graph.Replayed s block)
    (finished : s'.finishedEnvironment block.blockId = s.finishedEnvironment block.blockId)
    (inherited : s'.inheritedEnvironment block.blockId = s.inheritedEnvironment block.blockId) :
    graph.Replayed s' block := by
  rw [Replayed, finished, inherited]
  exact replayed

theorem simulateOf_none_of_used (unused : graph.simulatesUnused = true) {u : Nat} {value : HValue}
    {opcode : HOpcode} (found : graph.value u = some value) (isInstruction : value.opcode? = some opcode)
    {o : Nat} (used : o ∈ opcode.usedOperands) : graph.simulateOf o = none := by
  have inRange : u < graph.values.length := (List.getElem?_eq_some_iff.mp found).1
  have check := List.all_eq_true.mp unused u (List.mem_range.mpr inRange)
  rw [graph.usedOperands_of found isInstruction] at check
  simpa using List.all_eq_true.mp check o used

theorem exists_of_simulateOf {id popCount : Nat} {values : List (Option Nat × Nat)}
    (simulate : graph.simulateOf id = some (popCount, values)) :
    ∃ value, graph.value id = some value ∧ value.opcode? = some (.simulate popCount values) := by
  unfold simulateOf opcodeOf at simulate
  split at simulate
  · next popCount' values' isSimulate =>
    obtain ⟨value, found, isInstruction⟩ := Option.bind_eq_some.mp isSimulate
    cases simulate
    exact ⟨value, found, isInstruction⟩
  · cases simulate

end HGraph

/-! ## Quiet steps -/

/-- An instruction step that writes no environment object. -/
def QuietStep (s s' : BuilderState) : Prop := InstrStep s s' ∧ s'.environments = s.environments

instance : IsPreorder BuilderState QuietStep where
  refl s := ⟨refl_of InstrStep s, rfl⟩
  trans _ _ _ first second := ⟨trans_of InstrStep first.1 second.1, second.2.trans first.2⟩

namespace LLVMChunkBuilder

variable (cb : LLVMChunkBuilder)

theorem record_quiet (e : Event) : Guarantee QuietStep (record e) :=
  Guarantee.of_modify fun s => ⟨InstrStep.of_addEvent s e, rfl⟩

theorem insert_quiet (op : LOp) : Guarantee QuietStep (insert op) :=
  Guarantee.of_modifyGet fun s => ⟨InstrStep.of_pushInstruction s op, rfl⟩

theorem setLlvmValue_quiet (id : Nat) (v : LValue) : Guarantee QuietStep (setLlvmValue id v) :=
  Guarantee.of_modify fun s => ⟨InstrStep.of_setValue s id v, rfl⟩

theorem useBlock_quiet (block : Nat) : Guarantee QuietStep (useBlock block) :=
  Guarantee.of_triple fun _ s related => by
    simp only [useBlock, bind_apply, get_apply]
    cases fresh : s.llvmBasicBlock block
    · exact trans_of QuietStep related ⟨InstrStep.of_addBasicBlock s block fresh, rfl⟩
    · exact related

/-- Every handler but `DoSimulate` writes no environment object, if the `Use`s it makes write
none. -/
theorem compileToLLVM_quiet {use : Nat → BuildM LValue} (id : Nat) (instr : HValue)
    {opcode : HOpcode} (notSimulate : ∀ popCount values, opcode ≠ .simulate popCount values)
    (huse : ∀ o ∈ opcode.usedOperands, Guarantee QuietStep (use o)) :
    Guarantee QuietStep (cb.compileToLLVM use id instr opcode) := by
  refine Guarantee.of_triple fun s₀ => ?_
  have throws : ∀ (e : Abort) s, QuietStep s₀ s → e.ofHandler = true → QuietStep s₀ s := fun _ _ h _ => h
  have keep : ∀ s, QuietStep s₀ s → QuietStep s₀ s := fun _ h => h
  have hinsert (op : LOp) (_ : op.isTerminator = false) := (insert_quiet op).triple s₀
  have hterm (op : LOp) (_ : op.isTerminator = true) := (insert_quiet op).triple s₀
  have hset (v : LValue) := (setLlvmValue_quiet id v).triple s₀
  have hblock (block : Nat) (_ : block ∈ instr.blockRefs) := (useBlock_quiet block).triple s₀
  have hused (o : Nat) (used : o ∈ opcode.usedOperands) := (huse o used).triple s₀
  cases opcode
  case parameter => exact hset _
  case constant => exact .bind (constantWord_triple throws cb _ _) fun _ => hset _
  case change val _ _ =>
    exact doChange_triple throws keep cb id hinsert hset _ _ _ _
      (hused val (by simp [HOpcode.usedOperands]))
  case add left right =>
    exact doAdd_triple throws cb id hinsert hset _ _ _ (hused left (by simp [HOpcode.usedOperands]))
      (hused right (by simp [HOpcode.usedOperands]))
  case sub => exact doBinaryOnValues_triple throws cb id hinsert hset .sub (fun _ _ => rfl) _ _ _
  case mul => exact doBinaryOnValues_triple throws cb id hinsert hset .mul (fun _ _ => rfl) _ _ _
  case compareNumericAndBranch _ left right =>
    exact doCompareNumericAndBranch_triple throws cb id hinsert hset hterm _ _ _ _ hblock
      (hused left (by simp [HOpcode.usedOperands])) (hused right (by simp [HOpcode.usedOperands]))
  case «return» value _ =>
    exact doReturn_triple throws keep cb hterm _ _ (hused value (by simp [HOpcode.usedOperands]))
  case simulate => exact absurd rfl (notSimulate _ _)
  case blockEntry => exact .of_discard ((useBlock_quiet _).triple s₀)
  case context =>
    exact .of_ite (fun _ => .of_pure _ keep) fun _ =>
      .of_ite (fun _ => unimplemented_triple throws) fun _ => .of_pure _ keep
  case argumentsObject | stackCheck => exact .of_pure _ keep
  all_goals exact unimplemented_triple throws

/-- The visit of an instruction that is not a simulate writes no environment object, at any
fuel, when no simulate is handed to `Use`. -/
theorem visitInstruction_quiet (unused : cb.graph.simulatesUnused = true) (fuel : Nat) :
    ∀ id, cb.graph.simulateOf id = none → Guarantee QuietStep (cb.visitInstruction fuel id) := by
  induction fuel with
  | zero => exact fun _ _ => Guarantee.of_throw _
  | succ fuel visit =>
    intro id notSimulate
    refine Guarantee.of_triple fun s₀ => ?_
    have throws : ∀ (e : Abort) s, QuietStep s₀ s → e.ofHandler = true → QuietStep s₀ s :=
      fun _ _ h _ => h
    refine .bind ((record_quiet _).triple s₀) fun _ => .bind_resolve (fun _ h => h)
      fun current found => .bind_dchecked (fun _ h => h) fun opcode isInstruction =>
      .of_ite (fun _ => ?_) fun _ => ?_
    · split
      · exact unimplemented_triple throws
      · exact .bind (valueAt_triple throws cb _) fun _ =>
          .bind (dcheck_triple throws _ _ (by decide)) fun _ => unimplemented_triple throws
    · split
      · exact .bind ((useBlock_quiet _).triple s₀) fun _ => .of_discard ((insert_quiet _).triple s₀)
      · refine (compileToLLVM_quiet cb id current (fun popCount values same => ?_)
          fun o used => ?_).triple s₀
        · simp [HGraph.simulateOf, HGraph.opcodeOf, found, isInstruction, same] at notSimulate
        · have operand := cb.graph.simulateOf_none_of_used unused found isInstruction used
          exact Guarantee.of_triple fun s₁ => useValue_triple (fun _ _ h => h) cb o
            (fun _ _ _ => (visit o operand).triple s₁) fun _ => (record_quiet _).triple s₁

/-! ## Replaying a block -/

section Replay

variable {cb} {F : BuilderState → Prop} (stable : ∀ s s', F s → InstrStep s s' → F s')
  {a : Nat} (current : ∀ s, F s → s.currentEnvironment = some a)
include stable current

/-- The visit of a simulate replays it into the block's environment. -/
theorem visitInstruction_simulate {fuel id popCount : Nat} {values : List (Option Nat × Nat)}
    (simulate : cb.graph.simulateOf id = some (popCount, values)) {env : List Nat} :
    Triple (fun s => F s ∧ s.environments a = env) (cb.visitInstruction (fuel + 1) id)
      (fun _ s => F s ∧ s.environments a = replayEnvironment popCount values env)
      (fun _ _ => True) := by
  obtain ⟨value, found, isInstruction⟩ := cb.graph.exists_of_simulateOf simulate
  refine .bind (((record_quiet _).stable_triple fun _ _ h step => ⟨stable _ _ h.1 step.1,
    step.2 ▸ h.2⟩).weaken (fun _ h => h) (fun _ _ h => h) fun _ _ _ => True.intro) fun _ =>
    .bind_resolve_some found <| .bind_dchecked_some isInstruction <|
    .of_ite (fun _ => ?_) fun _ => ?_
  · split
    · exact .of_throw _ fun _ _ => True.intro
    · exact .bind (.trivial _) fun _ => .bind (.trivial _) fun _ => .of_throw _ fun _ _ => True.intro
  · have notControl : value.isControlInstruction = false :=
      HValue.isControlInstruction_of_opcode isInstruction
    split
    · next control _ => exact absurd (notControl ▸ control) Bool.false_ne_true
    · intro s ⟨holds, contents⟩
      simp only [compileToLLVM, doSimulate, bind_apply, get_apply, current s holds, dchecked,
        pure_apply, Llv8.writeEnvironment, modify_apply]
      exact ⟨stable _ _ holds (InstrStep.of_writeEnvironment s _ _ (current s holds)),
        by simp [contents]⟩

variable (building : ∀ s, F s → s.status = .building)
include building

/-- The instruction loop of a block replays the block's simulates into its environment. -/
theorem doInstructions_replays (unused : cb.graph.simulatesUnused = true) (fuel : Nat)
    (ids : List Nat) : ∀ env, Triple (fun s => F s ∧ s.environments a = env)
      (cb.doInstructions fuel ids)
      (fun _ s => F s ∧ s.environments a = cb.graph.replayInstructions ids env)
      (fun _ _ => True) := by
  induction ids with
  | nil => exact fun _ => .of_pure _ fun _ h => h
  | cons id rest loop =>
    intro env
    refine .bind (Q := fun x s => (F s ∧ s.environments a = env) ∧ x = s)
      (.of_get fun _ h => ⟨h, rfl⟩) fun s₁ => .of_ite (fun aborted => ?_) fun _ =>
      .weaken (.bind_resolve (fun _ _ => True.intro) fun value found => ?_) (fun _ h => h.1)
        (fun _ _ h => h) fun _ _ h => h
    · rintro _ ⟨⟨holds, _⟩, rfl⟩
      rw [building _ holds] at aborted
      cases aborted
    · have emits := HGraph.emitsAtUses_of cb.graph found
      have next := loop (cb.graph.replayStep env id)
      refine .of_ite (fun direct => .bind ?_ fun _ => next) fun deferred =>
        .bind (.of_pure _ fun _ h => ?_) fun _ => next
      · have notEmits : cb.graph.emitsAtUses id = false := by simpa [emits] using direct
        cases simulate : cb.graph.simulateOf id with
        | none =>
          refine .weaken ((visitInstruction_quiet cb unused fuel id simulate).stable_triple
            fun _ _ h step => ⟨stable _ _ h.1 step.1, step.2 ▸ h.2⟩) (fun _ h => h) ?_
            fun _ _ _ => True.intro
          intro _ s ⟨holds, contents⟩
          simp [HGraph.replayStep, notEmits, simulate, contents, holds]
        | some simulate' =>
          cases fuel with
          | zero => exact .of_throw _ fun _ _ => True.intro
          | succ fuel =>
            refine .weaken (visitInstruction_simulate stable current simulate) (fun _ h => h)
              ?_ fun _ _ _ => True.intro
            intro _ s ⟨holds, contents⟩
            simp [HGraph.replayStep, notEmits, simulate, contents, holds]
      · have emitting : cb.graph.emitsAtUses id = true := by simpa [emits] using deferred
        simpa [HGraph.replayStep, emitting] using h

end Replay

/-! ## The environment step -/

/-- What `DoBasicBlock` keeps while it processes block `b`: the build is running on the block,
the finished environments are `finished`, and the other blocks' inherited contents are
`inherited`. -/
structure Steady (finished inherited : Nat → Option (List Nat)) (b : Nat) (s : BuilderState) :
    Prop where
  building : s.status = .building
  current : s.currentBlock = some b
  finished : s.finishedEnvironment = finished
  others : ∀ c ≠ b, s.inheritedEnvironment c = inherited c

namespace Steady

variable {finished inherited : Nat → Option (List Nat)} {b : Nat} {s s' : BuilderState}

theorem congr (steady : Steady finished inherited b s) (status : s'.status = s.status)
    (current : s'.currentBlock = s.currentBlock)
    (finishedSame : s'.finishedEnvironment = s.finishedEnvironment)
    (others : ∀ c ≠ b, s'.inheritedEnvironment c = s.inheritedEnvironment c) :
    Steady finished inherited b s' :=
  ⟨status.trans steady.building, current.trans steady.current,
    finishedSame.trans steady.finished, fun c other => (others c other).trans (steady.others c other)⟩

theorem stable (steady : Steady finished inherited b s) (step : InstrStep s s') :
    Steady finished inherited b s' :=
  steady.congr step.status step.currentBlock step.finishedEnvironment fun _ _ => by
    rw [step.inheritedEnvironment]

theorem write (steady : Steady finished inherited b s) (address : Nat) (contents : List Nat) :
    Steady finished inherited b (s.writeEnvironment address contents) :=
  steady.congr rfl rfl rfl fun _ _ => rfl

end Steady

section Loops

variable {cb} {W : BuilderState → Prop} {address : Nat}
  (writes : ∀ s contents, W s → W (s.writeEnvironment address contents))
include writes

theorem setValueAt_contents {index value : Nat} {env : List Nat} :
    Triple (fun s => W s ∧ s.environments address = env) (setValueAt address index value)
      (fun _ s => W s ∧ s.environments address = env.set index value) (fun _ _ => True) := by
  intro s ⟨holds, contents⟩
  by_cases below : index < (s.environments address).length
  · rw [setValueAt_of_lt value below]
    exact ⟨writes _ _ holds, by simp [contents]⟩
  · simp [setValueAt, dcheck, below]

/-- The phi loop of a join writes its phis into their merged slots. -/
theorem setPhis_contents (phis : List Nat) : ∀ env,
    Triple (fun s => W s ∧ s.environments address = env) (cb.setPhis address phis)
      (fun _ s => W s ∧ s.environments address = cb.graph.writePhis phis env) (fun _ _ => True) := by
  induction phis with
  | nil => exact fun _ => .of_pure _ fun _ h => h
  | cons phi rest loop =>
    intro env
    refine .bind_resolve (fun _ _ => True.intro) fun value found => ?_
    split
    · next index kind =>
      have merged : cb.graph.mergedIndex phi = some index := by
        simp [HGraph.mergedIndex, found, HValue.mergedIndex, kind]
      have step : cb.graph.writePhis (phi :: rest) env =
          cb.graph.writePhis rest (env.set index phi) := by
        simp [HGraph.writePhis, merged]
      rw [step]
      exact .bind (setValueAt_contents writes) fun _ => loop _
    · next kind =>
      have merged : cb.graph.mergedIndex phi = none := by
        simp [HGraph.mergedIndex, found, HValue.mergedIndex, kind]
      have step : cb.graph.writePhis (phi :: rest) env = cb.graph.writePhis rest env := by
        simp [HGraph.writePhis, merged]
      rw [step]
      exact .bind (.of_pure _ fun _ h => h) fun _ => loop _
    · exact .bind (.of_throw _ fun _ _ => True.intro) fun _ => loop _

/-- The deleted-phi loop of a join resets its deleted indices. -/
theorem clearDeletedPhis_contents (indices : List Nat) : ∀ env,
    Triple (fun s => W s ∧ s.environments address = env) (cb.clearDeletedPhis address indices)
      (fun _ s => W s ∧ s.environments address = cb.graph.clearPhis indices env)
      (fun _ _ => True) := by
  induction indices with
  | nil => exact fun _ => .of_pure _ fun _ h => h
  | cons index rest loop =>
    intro env
    refine .bind (Q := fun x s => (W s ∧ s.environments address = env) ∧ x = s)
      (.of_get fun _ h => ⟨h, rfl⟩) fun s₁ => .of_ite (fun _ =>
        .bind (.weaken (setValueAt_contents writes) (fun _ h => h.1) (fun _ _ h => h)
          fun _ _ h => h) fun _ => loop _) fun above =>
        .bind (.of_pure _ fun _ h => ?_) fun _ => loop _
    obtain ⟨⟨holds, contents⟩, rfl⟩ := h
    refine ⟨holds, ?_⟩
    rw [contents] at above ⊢
    exact (List.set_eq_of_length_le (not_lt.mp above)).symm

end Loops

/-- `DoBasicBlock`'s environment step points the block at an object that holds the environment
the block enters with, and records no other block's inherited contents. -/
theorem bindEnvironment_binds (block : HBasicBlock) {finished inherited : Nat → Option (List Nat)}
    {initial : List Nat} :
    Triple (fun s => Steady finished inherited block.blockId s ∧
        s.environments startEnvironmentAddress = initial) (cb.bindEnvironment block)
      (fun _ s => Steady finished inherited block.blockId s ∧ ∃ a,
        s.lastEnvironment block.blockId = some a ∧
        cb.graph.entryEnvironment block initial (s.inheritedEnvironment block.blockId) =
          some (s.environments a)) (fun _ _ => True) := by
  have record (address : Nat) : Triple (Steady finished inherited block.blockId)
      (modify fun s => s.recordInherited block.blockId (s.environments address))
      (fun _ s => Steady finished inherited block.blockId s ∧
        s.inheritedEnvironment block.blockId = some (s.environments address))
      (fun _ _ => True) :=
    .of_modify fun _ steady => ⟨steady.congr rfl rfl rfl fun c other => by
      simp [updateAt_apply, other], by simp⟩
  unfold bindEnvironment
  refine .of_ite (fun start => .bind (Q := fun _ s => Steady finished inherited block.blockId s ∧
      s.lastEnvironment block.blockId = some startEnvironmentAddress ∧
      s.environments startEnvironmentAddress = initial)
    (.of_modify fun _ ⟨steady, contents⟩ => ⟨steady.congr rfl rfl rfl fun _ _ => rfl,
      updateAt_same _ _ _, contents⟩) fun _ =>
    .of_modify fun _ ⟨steady, last, contents⟩ => ⟨steady.congr rfl rfl rfl fun _ _ => rfl, _,
      last, by simp [HGraph.entryEnvironment, start, contents]⟩) fun notStart =>
    .of_ite (fun one => ?_) fun join => ?_
  · have finish (pred : HBasicBlock) (address : Nat) : Triple
        (Steady finished inherited block.blockId) (do
          modify fun s => s.recordInherited block.blockId (s.environments address)
          updateEnvironment block.blockId address
          let count := (← get).blockArgumentCount pred.blockId
          dcheck (count ≥ 0) "pred->argument_count() >= 0"
          modify (·.setArgumentCount count))
        (fun _ s => Steady finished inherited block.blockId s ∧ ∃ a,
          s.lastEnvironment block.blockId = some a ∧
          cb.graph.entryEnvironment block initial (s.inheritedEnvironment block.blockId) =
            some (s.environments a)) (fun _ _ => True) :=
      .bind (record address) fun _ => .bind (Q := fun _ s =>
        (Steady finished inherited block.blockId s ∧
          s.inheritedEnvironment block.blockId = some (s.environments address)) ∧
        s.lastEnvironment block.blockId = some address) (.of_modify fun _ ⟨steady, recorded⟩ =>
        ⟨⟨steady.congr rfl rfl rfl fun _ _ => rfl, recorded⟩, updateAt_same _ _ _⟩) fun _ =>
      .bind (Q := fun _ s => (Steady finished inherited block.blockId s ∧
          s.inheritedEnvironment block.blockId = some (s.environments address)) ∧
        s.lastEnvironment block.blockId = some address) (.of_get fun _ h => h) fun _ =>
      .bind (.of_dcheck _ _ fun _ _ => True.intro) fun _ =>
      .of_modify fun _ ⟨⟨steady, recorded⟩, last⟩ => ⟨steady.congr rfl rfl rfl fun _ _ => rfl,
        address, last, by simp [HGraph.entryEnvironment, notStart, one, recorded]⟩
    refine .weaken (.bind (.of_dcheck _ _ fun _ _ => True.intro) fun _ =>
      .bind_dchecked (fun _ _ => True.intro) fun _ _ => .bind_resolve (fun _ _ => True.intro)
      fun pred _ => .bind (.of_get fun _ h => h) fun _ => .bind_dchecked (fun _ _ => True.intro)
      fun address _ => .bind_resolve (fun _ _ => True.intro) fun _ _ =>
      .bind_resolve (fun _ _ => True.intro) fun predEnd _ => ?_) (fun _ h => h.1)
      (fun _ _ h => h) fun _ _ h => h
    split
    · exact .bind (.of_dcheck _ _ fun _ _ => True.intro) fun _ =>
        .bind (.of_pure _ fun _ h => h) fun _ => finish pred _
    · exact .bind_resolve (fun _ _ => True.intro) fun _ _ => .of_ite (fun _ =>
        .bind (.of_modifyGet fun _ steady => by exact steady.congr rfl rfl rfl fun _ _ => rfl)
          fun _ => finish pred _) fun _ => .bind (.of_pure _ fun _ h => h) fun _ => finish pred _
  · refine .weaken (.bind_dchecked (fun _ _ => True.intro) fun _ _ =>
      .bind_resolve (fun _ _ => True.intro) fun pred _ => .bind (.of_get fun _ h => h) fun _ =>
      .bind_resolve (fun _ _ => True.intro) fun address _ => .bind (record address) fun _ =>
      .of_start fun s₀ ⟨steady₀, recorded₀⟩ => ?_) (fun _ h => h.1) (fun _ _ h => h)
      fun _ _ h => h
    have writes : ∀ s contents, (Steady finished inherited block.blockId s ∧
        s.inheritedEnvironment block.blockId = some (s₀.environments address)) →
        (Steady finished inherited block.blockId (s.writeEnvironment address contents) ∧
          (s.writeEnvironment address contents).inheritedEnvironment block.blockId =
            some (s₀.environments address)) :=
      fun _ _ ⟨steady, recorded⟩ => ⟨steady.write _ _, recorded⟩
    refine .weaken (.bind (setPhis_contents writes block.phis _) fun _ =>
      .bind (clearDeletedPhis_contents writes block.deletedPhis
        (cb.graph.writePhis block.phis (s₀.environments address))) fun _ =>
      .bind (Q := fun _ s => ((Steady finished inherited block.blockId s ∧
          s.inheritedEnvironment block.blockId = some (s₀.environments address)) ∧
          s.environments address = cb.graph.clearPhis block.deletedPhis
            (cb.graph.writePhis block.phis (s₀.environments address))) ∧
          s.lastEnvironment block.blockId = some address)
        (.of_modify fun _ ⟨⟨steady, recorded⟩, contents⟩ =>
          ⟨⟨⟨by exact steady.congr rfl rfl rfl fun _ _ => rfl, recorded⟩, contents⟩,
            updateAt_same _ _ _⟩) fun _ =>
      .of_modify fun _ ⟨⟨⟨steady, recorded⟩, contents⟩, last⟩ =>
        ⟨steady.congr rfl rfl rfl fun _ _ => rfl, address, last, ?_⟩)
      (fun _ same => by subst same; exact ⟨⟨steady₀, recorded₀⟩, rfl⟩) (fun _ _ h => h)
      fun _ _ h => h
    simp [HGraph.entryEnvironment, notStart, join, recorded, contents]

/-! ## Blocks -/

/-- `DoBasicBlock` finishes a block with the environment it entered with, its simulates
replayed, and records no other block's environments. -/
theorem doBasicBlock_replays (unused : cb.graph.simulatesUnused = true) (fuel : Nat)
    (block : HBasicBlock) (finished inherited : Nat → Option (List Nat)) (initial : List Nat) :
    Triple (fun s => s.finishedEnvironment = finished ∧ s.inheritedEnvironment = inherited ∧
        s.environments startEnvironmentAddress = initial) (cb.doBasicBlock fuel block)
      (fun _ s => s.status = .building ∧ (∀ c ≠ block.blockId,
        s.finishedEnvironment c = finished c ∧ s.inheritedEnvironment c = inherited c) ∧
        s.finishedEnvironment block.blockId =
          (cb.graph.entryEnvironment block initial (s.inheritedEnvironment block.blockId)).map
            (cb.graph.replayInstructions block.instructions)) (fun _ _ => True) := by
  unfold doBasicBlock
  refine .bind (Q := fun x s => (s.finishedEnvironment = finished ∧
      s.inheritedEnvironment = inherited ∧ s.environments startEnvironmentAddress = initial) ∧
      x = s) (.of_get fun _ h => ⟨h, rfl⟩) fun s₁ =>
    .bind_dcheck (fun _ _ => True.intro) fun building => ?_
  have entering := ((useBlock_quiet block.blockId).stable_triple (P := fun s =>
      (s.finishedEnvironment = finished ∧ s.inheritedEnvironment = inherited ∧
        s.environments startEnvironmentAddress = initial) ∧ s.status = .building)
    fun _ _ ⟨⟨f, i, e⟩, b⟩ step => ⟨⟨step.1.finishedEnvironment.trans f,
      step.1.inheritedEnvironment.trans i, step.2 ▸ e⟩, step.1.status.trans b⟩)
  refine .bind (.weaken entering (fun _ ⟨h, same⟩ => ⟨h, by simpa [← same] using building⟩)
    (fun _ _ h => h) fun _ _ _ => True.intro) fun _ => .bind (Q := fun _ s =>
      Steady finished inherited block.blockId s ∧ s.environments startEnvironmentAddress = initial)
    (.of_modify fun _ ⟨⟨f, i, e⟩, b⟩ => ⟨⟨b, rfl, f, fun c _ => by simp [i]⟩, e⟩) fun _ =>
    .bind (bindEnvironment_binds cb block) fun _ => .of_start fun s₀ ⟨steady₀, a, last₀, entry₀⟩ => ?_
  have stable : ∀ s s', (Steady finished inherited block.blockId s ∧
      s.lastEnvironment block.blockId = some a ∧
      s.inheritedEnvironment block.blockId = s₀.inheritedEnvironment block.blockId) →
      InstrStep s s' → (Steady finished inherited block.blockId s' ∧
        s'.lastEnvironment block.blockId = some a ∧
        s'.inheritedEnvironment block.blockId = s₀.inheritedEnvironment block.blockId) :=
    fun _ _ ⟨steady, last, inherits⟩ step => ⟨steady.stable step,
      step.lastEnvironment ▸ last, step.inheritedEnvironment ▸ inherits⟩
  refine .weaken (.bind (doInstructions_replays (a := a) stable (fun _ ⟨steady, last, _⟩ => by
      simp [BuilderState.currentEnvironment, steady.current, last]) (fun _ h => h.1.building)
      unused fuel block.instructions (s₀.environments a)) fun _ =>
    .of_modify fun _ ⟨⟨steady, last, inherits⟩, contents⟩ => ⟨steady.building, fun c other =>
      ⟨by simp [updateAt_apply, other, steady.finished], steady.others c other⟩, ?_⟩)
    (fun _ same => by subst same; exact ⟨⟨steady₀, last₀, rfl⟩, rfl⟩) (fun _ _ h => h)
    fun _ _ h => h
  simp [last, contents, inherits, entry₀]

/-- The block loop of `Build` finishes every block it processes as `HGraph.Replayed` says, when
only the first of its blocks may be a start block and the start environment is then intact. -/
theorem doBlocks_replays (unused : cb.graph.simulatesUnused = true) (fuel : Nat)
    (blocks : List HBasicBlock) : ∀ done : List HBasicBlock,
    ((done ++ blocks).map (·.blockId)).Nodup → (∀ block ∈ blocks.tail, block.isStartBlock = false) →
    Triple (fun s => (∀ block ∈ done, cb.graph.Replayed s block) ∧
        ∀ block ∈ blocks.head?, block.isStartBlock = true →
          s.environments startEnvironmentAddress = cb.graph.startEnvironment)
      (cb.doBlocks fuel blocks) (fun _ s => ∀ block ∈ done ++ blocks, cb.graph.Replayed s block)
      (fun _ _ => True) := by
  induction blocks with
  | nil => exact fun _ _ _ => .of_pure _ fun _ h => by simpa using h.1
  | cons block rest loop =>
    intro done distinct later
    have apart : ∀ c ∈ done, c.blockId ≠ block.blockId := by
      intro c member same
      rw [List.map_append, List.nodup_append] at distinct
      exact distinct.2.2 (List.mem_map_of_mem _ member)
        (same ▸ List.mem_map_of_mem _ (List.mem_cons_self _ _))
    have next := loop (done ++ [block]) (by simpa using distinct)
      fun c member => later c (List.mem_of_mem_tail member)
    refine .of_start fun s₀ ⟨replayed, initial⟩ => .bind (.weaken (doBasicBlock_replays cb unused
      fuel block s₀.finishedEnvironment s₀.inheritedEnvironment
      (s₀.environments startEnvironmentAddress)) (fun _ same => by subst same; exact ⟨rfl, rfl, rfl⟩)
      (fun _ _ h => h) fun _ _ h => h) fun _ => ?_
    refine .bind (Q := fun x s => (s.status = .building ∧ (∀ c ≠ block.blockId,
        s.finishedEnvironment c = s₀.finishedEnvironment c ∧
        s.inheritedEnvironment c = s₀.inheritedEnvironment c) ∧
        s.finishedEnvironment block.blockId = (cb.graph.entryEnvironment block
          (s₀.environments startEnvironmentAddress) (s.inheritedEnvironment block.blockId)).map
          (cb.graph.replayInstructions block.instructions)) ∧ x = s)
      (.of_get fun _ h => ⟨h, rfl⟩) fun s₁ => .of_ite (fun aborted => ?_) fun _ =>
      .weaken next ?_ (fun _ _ h => by simpa using h) fun _ _ h => h
    · rintro _ ⟨⟨building, _⟩, rfl⟩
      rw [building] at aborted
      cases aborted
    · rintro s ⟨⟨_, kept, own⟩, rfl⟩
      refine ⟨fun c member => ?_, fun c first start => by
        simp [later c (List.mem_of_mem_head? first)] at start⟩
      rcases List.mem_append.mp member with old | last
      · exact (replayed c old).congr (kept _ (apart c old)).1 (kept _ (apart c old)).2
      · rw [List.mem_singleton.mp last, HGraph.Replayed, own]
        by_cases start : block.isStartBlock
        · simp [HGraph.entryEnvironment, start, initial block rfl start]
        · simp [HGraph.entryEnvironment, start]

/-! ## Environments the graph fixes -/

/-- The state between blocks of a graph that `sharingOrdered` admits, `done` processed and `rest`
to come: the blocks still to come find what their first predecessors finished with, every
processed block finished with the environment `finishedAfter` computes, and before the first
block the start environment is intact. -/
structure Static (graph : HGraph) (done rest : List HBasicBlock) (s : BuilderState) : Prop where
  between : Between done rest s
  idle : s.currentBlock = none
  finished : ∀ q ∈ done, s.finishedEnvironment q.blockId = graph.finishedAfter done q.blockId
  start : done = [] → s.environments startEnvironmentAddress = graph.startEnvironment

section Static

variable (cb : LLVMChunkBuilder) (ordered : cb.graph.sharingOrdered = true)
  (unused : cb.graph.simulatesUnused = true) {done rest : List HBasicBlock} {c : HBasicBlock}
  (order : done ++ c :: rest = cb.graph.blocks)
include ordered order

/-- A block that is not the start one, once processed, inherited what its first predecessor
finished with, which `finishedAfter` computes. -/
theorem inherited_of_static {s₀ s : BuilderState} (static₀ : Static cb.graph done (c :: rest) s₀)
    (between : Between (done ++ [c]) rest s)
    (kept : ∀ x ≠ c.blockId, s.finishedEnvironment x = s₀.finishedEnvironment x)
    (notStart : c.isStartBlock = false) :
    s.inheritedEnvironment c.blockId = c.predecessors[0]?.bind (cb.graph.finishedAfter done) := by
  obtain ⟨fresh, -⟩ := HGraph.ids_around ordered order
  obtain ⟨contents, took⟩ := Option.ne_none_iff_exists'.mp
    (between.taken c (by simp) notStart)
  obtain ⟨block, member, same, pred, predMember, first, fin⟩ :=
    between.recorded c.blockId contents took
  obtain rfl : block = c := by
    rcases List.mem_append.mp member with old | new
    · exact absurd same (fresh block old).ne
    · exact List.mem_singleton.mp new
  obtain ⟨pred₀, _, fp⟩ := HGraph.firstPredecessor_of ordered (by simp [← order]) notStart
  have earlier : pred.blockId < block.blockId := by
    rw [fp.first, Option.some.injEq] at first
    exact first ▸ fp.earlier
  have predDone : pred ∈ done := by
    rcases List.mem_append.mp predMember with old | new
    · exact old
    · exact absurd (congrArg HBasicBlock.blockId (List.mem_singleton.mp new)) earlier.ne
  rw [took, first, Option.some_bind, ← static₀.finished pred predDone, ← kept _ earlier.ne, fin]

include unused

/-- Processing a block keeps the objects of the blocks still to come, and the block finishes with
the environment `finishBlock` computes. -/
theorem doBasicBlock_static (fuel : Nat) :
    Triple (Static cb.graph done (c :: rest)) (cb.doBasicBlock fuel c)
      (fun _ => Static cb.graph (done ++ [c]) rest) (fun _ _ => True) := by
  obtain ⟨fresh, -⟩ := HGraph.ids_around ordered order
  refine .of_start fun s₀ static₀ => .weaken ((doBasicBlock_shares cb ordered order fuel).conj
    (doBasicBlock_replays cb unused fuel c s₀.finishedEnvironment s₀.inheritedEnvironment
      (s₀.environments startEnvironmentAddress)))
    (fun _ same => by subst same; exact ⟨⟨static₀.between, static₀.idle⟩, rfl, rfl, rfl⟩)
    (fun _ s ⟨⟨between, idle⟩, _, kept, own⟩ => ⟨between, idle, fun q member => ?_,
      fun empty => by simp at empty⟩) fun _ _ _ => True.intro
  rw [HGraph.finishedAfter_append_singleton, HGraph.finishBlock, updateAt_apply]
  rcases List.mem_append.mp member with old | new
  · rw [if_neg (fresh q old).ne, (kept _ (fresh q old).ne).1, static₀.finished q old]
  · obtain rfl := List.mem_singleton.mp new
    rw [if_pos rfl, own]
    by_cases start : q.isStartBlock
    · simp [HGraph.entryEnvironment, start,
        static₀.start (HGraph.done_nil_of_start ordered order start)]
    · have notStart : q.isStartBlock = false := by simpa using start
      rw [inherited_of_static cb ordered order static₀ between (fun x other => (kept x other).1)
        notStart]
      simp [HGraph.entryEnvironment, notStart]

end Static

end LLVMChunkBuilder

/-- Every block of a completed build finishes with the environment it entered with, its
simulates replayed in order. -/
theorem build_replays_simulates (cb : LLVMChunkBuilder)
    (unused : cb.graph.simulatesUnused = true) (distinct : (cb.graph.blocks.map (·.blockId)).Nodup)
    (startFirst : ∀ block ∈ cb.graph.blocks.tail, block.isStartBlock = false) (fuel : Nat)
    (session : LLVMGranularity) :
    ∀ chunk s, cb.build fuel (BuilderState.initial cb.graph session) = .ok chunk s →
      ∀ block ∈ cb.graph.blocks, cb.graph.Replayed s block := by
  have run : Triple (· = BuilderState.initial cb.graph session) (cb.build fuel)
      (fun _ s => ∀ block ∈ cb.graph.blocks, cb.graph.Replayed s block) (fun _ _ => True) := by
    have blocks := cb.doBlocks_replays unused fuel cb.graph.blocks [] (by simpa using distinct)
      startFirst
    have finish : ∀ s, (∀ block ∈ cb.graph.blocks, cb.graph.Replayed s block) →
        ∀ block ∈ cb.graph.blocks, cb.graph.Replayed s.finishBuild block :=
      fun _ h block member => (h block member).congr rfl rfl
    unfold LLVMChunkBuilder.build
    refine .bind (.of_modify fun _ start => by subst start; exact ⟨by simp, fun _ _ _ => by
      simp [BuilderState.initial]⟩) fun _ => .bind (.weaken blocks (fun _ h => h)
      (fun _ _ h => by simpa using h) fun _ _ h => h) fun _ =>
      .of_ite (fun _ => .of_pure _ fun _ h => h) fun _ => .bind (.of_pure _ fun _ h => h) fun _ =>
        .bind (.of_modify finish) fun _ => .bind (.of_get fun _ h => h) fun _ =>
        .of_pure _ fun _ h => h
  intro chunk s ran
  have outcome := run _ rfl
  rw [ran] at outcome
  exact outcome

/-- In the diamond, no simulate is used, the block ids are distinct and the start block comes
first. -/
theorem build_replays_simulates_diamond :
    let cb : LLVMChunkBuilder := ⟨⟨1, false, false⟩, LLVMChunkBuilder.diamond, true⟩
    ∀ chunk s, cb.build 3 (BuilderState.initial cb.graph {}) = .ok chunk s →
      ∀ block ∈ cb.graph.blocks, cb.graph.Replayed s block :=
  build_replays_simulates ⟨⟨1, false, false⟩, LLVMChunkBuilder.diamond, true⟩ (by decide)
    (by decide) (by decide) 3 {}

end Llv8
