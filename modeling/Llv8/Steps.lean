import Llv8.Chunk
import Mathlib.Order.Defs.Unbundled

/-!
# What a step of the builder can do

A `BuildM` computation is a function from states to results, so its steps are inverted by
unfolding `bind`.  `Guarantee R m` says that every run of `m`, returning or aborting, ends in
a state related to its start by `R`.  For a reflexive and transitive `R`, guarantees compose
along `bind`, so a guarantee for a handler follows from guarantees for the primitive steps it
is made of.

`InstrStep` is what visiting an instruction may do to the state: it may set LLVM values,
create basic blocks, append instructions to the insertion block, extend the trace, and
rewrite the environment of the block being processed, and nothing else.
-/

namespace Llv8

section Monad

variable {α β : Type}

@[simp] theorem bind_apply (x : BuildM α) (f : α → BuildM β) (s : BuilderState) :
    (x >>= f) s = match x s with
      | .ok a s' => f a s'
      | .error e s' => .error e s' := by
  show EStateM.bind x f s = _
  unfold EStateM.bind
  cases x s <;> rfl

@[simp] theorem pure_apply (a : α) (s : BuilderState) : (pure a : BuildM α) s = .ok a s := rfl

@[simp] theorem throw_apply (e : Abort) (s : BuilderState) :
    (throw e : BuildM α) s = .error e s := rfl

@[simp] theorem get_apply (s : BuilderState) : (get : BuildM BuilderState) s = .ok s s := rfl

@[simp] theorem modify_apply (f : BuilderState → BuilderState) (s : BuilderState) :
    (modify f : BuildM PUnit) s = .ok ⟨⟩ (f s) := rfl

@[simp] theorem modifyGet_apply (f : BuilderState → α × BuilderState) (s : BuilderState) :
    (modifyGet f : BuildM α) s = .ok (f s).1 (f s).2 := rfl

@[simp] theorem discard_apply (x : BuildM α) (s : BuilderState) :
    (discard x : BuildM PUnit) s = match x s with
      | .ok _ s' => .ok ⟨⟩ s'
      | .error e s' => .error e s' := by
  show EStateM.map _ x s = _
  unfold EStateM.map
  cases x s <;> rfl

end Monad

/-! ## Guarantees -/

/-- Every run of `m` ends in a state related to its start by `R`. -/
def Guarantee {α : Type} (R : BuilderState → BuilderState → Prop) (m : BuildM α) : Prop :=
  ∀ s, R s (finalState (m s))

namespace Guarantee

variable {α β : Type} {R : BuilderState → BuilderState → Prop}

theorem of_modify {f : BuilderState → BuilderState} (step : ∀ s, R s (f s)) :
    Guarantee R (modify f : BuildM PUnit) := step

theorem of_modifyGet {f : BuilderState → α × BuilderState} (step : ∀ s, R s (f s).2) :
    Guarantee R (modifyGet f : BuildM α) := step

theorem of_discard {x : BuildM α} (body : Guarantee R x) :
    Guarantee R (discard x : BuildM PUnit) := by
  intro s
  have step := body s
  rw [discard_apply]
  split <;> next run => rw [run] at step; exact step

theorem mono {R' : BuilderState → BuilderState → Prop} {x : BuildM α}
    (weaker : ∀ s s', R s s' → R' s s') (keeps : Guarantee R x) : Guarantee R' x :=
  fun s => weaker _ _ (keeps s)

theorem of_ite {c : Prop} [Decidable c] {x y : BuildM α} (yes : Guarantee R x)
    (no : Guarantee R y) : Guarantee R (if c then x else y) := by
  split
  · exact yes
  · exact no

variable [IsPreorder BuilderState R]

theorem of_pure (a : α) : Guarantee R (pure a : BuildM α) := fun s => refl_of R s

theorem of_throw (e : Abort) : Guarantee R (throw e : BuildM α) := fun s => refl_of R s

theorem of_get : Guarantee R (get : BuildM BuilderState) := fun s => refl_of R s

theorem bind {x : BuildM α} {f : α → BuildM β} (first : Guarantee R x)
    (rest : ∀ a, Guarantee R (f a)) : Guarantee R (x >>= f) := by
  intro s
  have firstStep := first s
  rw [bind_apply]
  split
  · next a s₁ run =>
    rw [run] at firstStep
    exact trans_of R firstStep (rest a s₁)
  · next e s₁ run =>
    rw [run] at firstStep
    exact firstStep

theorem of_dcheck (c : Bool) (text : String) : Guarantee R (dcheck c text) :=
  of_ite (of_pure _) (of_throw _)

theorem of_resolve (o : Option α) : Guarantee R (resolve o) := by
  cases o
  · exact of_throw _
  · exact of_pure _

theorem of_checked (o : Option α) (text : String) : Guarantee R (checked o text) := by
  cases o
  · exact of_throw _
  · exact of_pure _

theorem of_dchecked (o : Option α) (text : String) : Guarantee R (dchecked o text) := by
  cases o
  · exact of_throw _
  · exact of_pure _

end Guarantee

/-! ## Instruction steps -/

/-- The LLVM blocks created so far are numbered `0 ..< basicBlockCount`, each attached to
exactly one Hydrogen block. -/
structure BlockMap (s : BuilderState) : Prop where
  lt_count : ∀ b x, s.llvmBasicBlock b = some x → x < s.basicBlockCount
  injective : ∀ b b' x, s.llvmBasicBlock b = some x → s.llvmBasicBlock b' = some x → b = b'
  onto : ∀ x < s.basicBlockCount, ∃ b, s.llvmBasicBlock b = some x

theorem BlockMap.congr {s s' : BuilderState} (blocks : s'.llvmBasicBlock = s.llvmBasicBlock)
    (count : s'.basicBlockCount = s.basicBlockCount) (map : BlockMap s) : BlockMap s' := by
  obtain ⟨lt_count, injective, onto⟩ := map
  exact ⟨by rw [blocks, count]; exact lt_count, by rw [blocks]; exact injective,
    by rw [blocks, count]; exact onto⟩

/-- What visiting an instruction may do to the state. -/
structure InstrStep (s s' : BuilderState) : Prop where
  status : s'.status = s.status
  currentBlock : s'.currentBlock = s.currentBlock
  insertBlock : s'.insertBlock = s.insertBlock
  argumentCount : s'.argumentCount = s.argumentCount
  moduleId : s'.moduleId = s.moduleId
  functionArity : s'.functionArity = s.functionArity
  lastEnvironment : s'.lastEnvironment = s.lastEnvironment
  blockArgumentCount : s'.blockArgumentCount = s.blockArgumentCount
  environmentCount : s'.environmentCount = s.environmentCount
  session : s'.session = s.session
  environments : ∀ address, s.currentEnvironment ≠ some address →
    s'.environments address = s.environments address
  llvmValue : ∀ id, s.llvmValue id ≠ none → s'.llvmValue id ≠ none
  llvmBasicBlock : ∀ block x, s.llvmBasicBlock block = some x →
    s'.llvmBasicBlock block = some x
  basicBlockCount : s.basicBlockCount ≤ s'.basicBlockCount
  blockMap : BlockMap s → BlockMap s'
  instructions : ∃ added, s'.instructions = s.instructions ++ added ∧
    ∀ inst ∈ added, inst.parent = s.insertBlock
  trace : ∃ events, s'.trace = s.trace ++ events
  inheritedEnvironment : s'.inheritedEnvironment = s.inheritedEnvironment
  finishedEnvironment : s'.finishedEnvironment = s.finishedEnvironment

namespace InstrStep

theorem currentEnvironment {s s' : BuilderState} (step : InstrStep s s') :
    s'.currentEnvironment = s.currentEnvironment := by
  simp only [BuilderState.currentEnvironment, step.currentBlock, step.lastEnvironment]

instance : IsPreorder BuilderState InstrStep where
  refl s := ⟨rfl, rfl, rfl, rfl, rfl, rfl, rfl, rfl, rfl, rfl, fun _ _ => rfl, fun _ h => h,
    fun _ _ h => h, le_rfl, id, ⟨[], by simp, by simp⟩, ⟨[], by simp⟩, rfl, rfl⟩
  trans s₁ s₂ s₃ first second := by
    obtain ⟨added₁, instructions₁, parents₁⟩ := first.instructions
    obtain ⟨added₂, instructions₂, parents₂⟩ := second.instructions
    obtain ⟨events₁, trace₁⟩ := first.trace
    obtain ⟨events₂, trace₂⟩ := second.trace
    refine ⟨second.status.trans first.status, second.currentBlock.trans first.currentBlock,
      second.insertBlock.trans first.insertBlock, second.argumentCount.trans first.argumentCount,
      second.moduleId.trans first.moduleId, second.functionArity.trans first.functionArity,
      second.lastEnvironment.trans first.lastEnvironment,
      second.blockArgumentCount.trans first.blockArgumentCount,
      second.environmentCount.trans first.environmentCount, second.session.trans first.session,
      fun address other => ?_, fun id set => second.llvmValue id (first.llvmValue id set),
      fun block x h => second.llvmBasicBlock block x (first.llvmBasicBlock block x h),
      first.basicBlockCount.trans second.basicBlockCount, second.blockMap ∘ first.blockMap,
      ⟨added₁ ++ added₂, by rw [instructions₂, instructions₁, List.append_assoc], ?_⟩,
      ⟨events₁ ++ events₂, by rw [trace₂, trace₁, List.append_assoc]⟩,
      second.inheritedEnvironment.trans first.inheritedEnvironment,
      second.finishedEnvironment.trans first.finishedEnvironment⟩
    · rw [second.environments address (by rw [first.currentEnvironment]; exact other)]
      exact first.environments address other
    · intro inst member
      rcases List.mem_append.mp member with old | new
      · exact parents₁ inst old
      · rw [parents₂ inst new, first.insertBlock]

end InstrStep

end Llv8
