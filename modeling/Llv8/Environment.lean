import Llv8.Frame

/-!
# The environment step of a block

Before it visits a block's instructions, `DoBasicBlock` binds the block's environment: the
start environment, its predecessor's environment (copied or shared), or at a join its first
predecessor's environment with the phis written in.  These steps touch only the environment
heap, the blocks' environment pointers and `argument_count_` (`EnvStep`), and their aborts are
failed `DCHECK`s of the environment or lookups that fail, never the `DCHECK` of `Use`.
-/

namespace Llv8

/-- A step that changes only the environments, the blocks' environment pointers and the
argument count. -/
structure EnvStep (s s' : BuilderState) : Prop where
  status : s'.status = s.status
  currentBlock : s'.currentBlock = s.currentBlock
  insertBlock : s'.insertBlock = s.insertBlock
  moduleId : s'.moduleId = s.moduleId
  functionArity : s'.functionArity = s.functionArity
  basicBlockCount : s'.basicBlockCount = s.basicBlockCount
  instructions : s'.instructions = s.instructions
  llvmValue : s'.llvmValue = s.llvmValue
  llvmBasicBlock : s'.llvmBasicBlock = s.llvmBasicBlock
  blockArgumentCount : s'.blockArgumentCount = s.blockArgumentCount
  session : s'.session = s.session
  trace : s'.trace = s.trace

namespace EnvStep

theorem of_eq {s s' : BuilderState} (same : s' = s) : EnvStep s s' := by
  subst same
  exact ⟨rfl, rfl, rfl, rfl, rfl, rfl, rfl, rfl, rfl, rfl, rfl, rfl⟩

theorem trans {s₁ s₂ s₃ : BuilderState} (first : EnvStep s₁ s₂)
    (second : EnvStep s₂ s₃) :
    EnvStep s₁ s₃ :=
  ⟨second.1.trans first.1, second.2.trans first.2, second.3.trans first.3,
    second.4.trans first.4, second.5.trans first.5, second.6.trans first.6,
    second.7.trans first.7, second.8.trans first.8, second.9.trans first.9,
    second.10.trans first.10, second.11.trans first.11, second.12.trans first.12⟩

theorem setLastEnvironment (s : BuilderState) (block address : Nat) :
    EnvStep s (s.setLastEnvironment block address) :=
  ⟨rfl, rfl, rfl, rfl, rfl, rfl, rfl, rfl, rfl, rfl, rfl, rfl⟩

theorem setArgumentCount (s : BuilderState) (count : Int) :
    EnvStep s (s.setArgumentCount count) :=
  ⟨rfl, rfl, rfl, rfl, rfl, rfl, rfl, rfl, rfl, rfl, rfl, rfl⟩

theorem allocEnvironment (s : BuilderState) (address : Nat) :
    EnvStep s (s.allocEnvironment address) :=
  ⟨rfl, rfl, rfl, rfl, rfl, rfl, rfl, rfl, rfl, rfl, rfl, rfl⟩

theorem writeEnvironment (s : BuilderState) (address : Nat) (contents : List Nat) :
    EnvStep s (s.writeEnvironment address contents) :=
  ⟨rfl, rfl, rfl, rfl, rfl, rfl, rfl, rfl, rfl, rfl, rfl, rfl⟩

theorem recordInherited (s : BuilderState) (block : Nat) (contents : List Nat) :
    EnvStep s (s.recordInherited block contents) :=
  ⟨rfl, rfl, rfl, rfl, rfl, rfl, rfl, rfl, rfl, rfl, rfl, rfl⟩

end EnvStep

namespace LLVMChunkBuilder

section Writes

/-! The phi loops of a join write only into the environment object they are given. -/

variable {P : BuilderState → Prop} {A : Abort → BuilderState → Prop}
  (throws : ∀ e s, P s → e.ofHandler = true → A e s) (cb : LLVMChunkBuilder) {address : Nat}
  (writes : ∀ s contents, P s → P (s.writeEnvironment address contents))
include throws writes

theorem setValueAt_writes (index value : Nat) :
    Triple P (setValueAt address index value) (fun _ => P) A :=
  .bind (.of_get fun _ h => h) fun _ => .bind (dcheck_triple throws _ _ (by decide)) fun _ =>
    .of_modify fun s holds => writes s _ holds

theorem setPhis_writes (phis : List Nat) : Triple P (cb.setPhis address phis) (fun _ => P) A := by
  induction phis with
  | nil => exact .of_pure _ fun _ h => h
  | cons phi rest loop =>
    refine .bind (valueAt_triple throws cb _) fun value => ?_
    split
    · exact .bind (setValueAt_writes throws writes _ _) fun _ => loop
    · exact .bind (.of_pure _ fun _ h => h) fun _ => loop
    · exact .bind (throw_triple throws _ rfl) fun _ => loop

theorem clearDeletedPhis_writes (indices : List Nat) :
    Triple P (cb.clearDeletedPhis address indices) (fun _ => P) A := by
  induction indices with
  | nil => exact .of_pure _ fun _ h => h
  | cons index rest loop =>
    exact .bind (.of_get fun _ h => h) fun _ => .of_ite
      (fun _ => .bind (setValueAt_writes throws writes _ _) fun _ => loop)
      fun _ => .bind (.of_pure _ fun _ h => h) fun _ => loop

end Writes

section EnvSteps

variable {P : BuilderState → Prop} {A : Abort → BuilderState → Prop}
  (stable : ∀ s s', P s → EnvStep s s' → P s')
  (throws : ∀ e s, P s → e.ofHandler = true → A e s)
  (cb : LLVMChunkBuilder)
include stable throws

omit throws in
theorem updateEnvironment_envStep (block address : Nat) :
    Triple P (updateEnvironment block address) (fun _ => P) A :=
  .of_modify fun s holds => stable _ _ holds (EnvStep.setLastEnvironment s block address)

/-- Binding a block's environment is an environment step. -/
theorem bindEnvironment_envStep (block : HBasicBlock) :
    Triple P (cb.bindEnvironment block) (fun _ => P) A := by
  have setCount (count : BuilderState → Int) :
      Triple P (modify fun s => s.setArgumentCount (count s)) (fun _ => P) A :=
    .of_modify fun s holds => stable _ _ holds (EnvStep.setArgumentCount s _)
  have finish (pred : HBasicBlock) (address : Nat) : Triple P (do
      updateEnvironment block.blockId address
      let count := (← get).blockArgumentCount pred.blockId
      dcheck (count ≥ 0) "pred->argument_count() >= 0"
      modify (·.setArgumentCount count)) (fun _ => P) A :=
    .bind (updateEnvironment_envStep stable _ _) fun _ => .bind (.of_get fun _ h => h) fun _ =>
      .bind (dcheck_triple throws _ _ (by decide)) fun _ => setCount _
  have writes {address : Nat} (s : BuilderState) (contents : List Nat) (holds : P s) :
      P (s.writeEnvironment address contents) :=
    stable _ _ holds (EnvStep.writeEnvironment s _ _)
  have record (address : Nat) : Triple P (modify fun s =>
      s.recordInherited block.blockId (s.environments address)) (fun _ => P) A :=
    .of_modify fun s holds => stable _ _ holds (EnvStep.recordInherited s _ _)
  unfold bindEnvironment
  refine .of_ite (fun _ => .bind (updateEnvironment_envStep stable _ _) fun _ => setCount _)
    fun _ => .of_ite (fun _ => ?_) fun _ => ?_
  · refine .bind (dcheck_triple throws _ _ (by decide)) fun _ =>
      .bind (dchecked_triple throws _ _ (by decide)) fun _ =>
      .bind (resolve_triple throws _) fun pred => .bind (.of_get fun _ h => h) fun _ =>
      .bind (dchecked_triple throws _ _ (by decide)) fun address =>
      .bind (resolve_triple throws _) fun _ => .bind (valueAt_triple throws cb _) fun predEnd => ?_
    split
    · exact .bind (dcheck_triple throws _ _ (by decide)) fun _ =>
        .bind (.of_pure _ fun _ h => h) fun _ => .bind (record _) fun _ => finish pred _
    · exact .bind (resolve_triple throws _) fun _ => .of_ite
        (fun _ => .bind (.of_modifyGet fun s holds => stable _ _ holds
          (EnvStep.allocEnvironment s address)) fun _ => .bind (record _) fun _ => finish pred _)
        fun _ => .bind (.of_pure _ fun _ h => h) fun _ => .bind (record _) fun _ => finish pred _
  · exact .bind (dchecked_triple throws _ _ (by decide)) fun _ =>
      .bind (resolve_triple throws _) fun pred => .bind (.of_get fun _ h => h) fun _ =>
      .bind (resolve_triple throws _) fun _ => .bind (record _) fun _ =>
      .bind (setPhis_writes throws cb writes _) fun _ =>
      .bind (clearDeletedPhis_writes throws cb writes _) fun _ =>
      .bind (updateEnvironment_envStep stable _ _) fun _ => setCount _

end EnvSteps

end LLVMChunkBuilder

end Llv8
