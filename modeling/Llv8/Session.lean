import Llv8.Environment

/-!
# The session across builds

`Build` takes a fresh module from the process-wide `LLVMGranularity` session when it starts and
adds it to the session when every block is done; nothing in between touches the session, the
build's module or its status.  So nothing sets the status to aborted: the `is_aborted()` exit of
the block loop never fires and `Build` never returns `NULL`.  A completed build adds exactly the
module its chunk names, an aborted one adds none, and over any sequence of `NewChunk` calls the
session lists each module once, in creation order, and only modules it has created.
-/

namespace Llv8

/-- What the block loop of `Build` leaves alone: the build's status and module, and the
session. -/
structure SessionKept (s t : BuilderState) : Prop where
  status : t.status = s.status
  moduleId : t.moduleId = s.moduleId
  session : t.session = s.session

instance : IsPreorder BuilderState SessionKept where
  refl _ := ⟨rfl, rfl, rfl⟩
  trans _ _ _ first second := ⟨second.status.trans first.status,
    second.moduleId.trans first.moduleId, second.session.trans first.session⟩

theorem SessionKept.of_instrStep {s t : BuilderState} (step : InstrStep s t) : SessionKept s t :=
  ⟨step.status, step.moduleId, step.session⟩

theorem SessionKept.of_envStep {s t : BuilderState} (step : EnvStep s t) : SessionKept s t :=
  ⟨step.status, step.moduleId, step.session⟩

namespace LLVMChunkBuilder

variable (cb : LLVMChunkBuilder)

theorem doBasicBlock_sessionKept (fuel : Nat) (block : HBasicBlock) :
    Guarantee SessionKept (cb.doBasicBlock fuel block) :=
  .bind .of_get fun _ => .bind (.of_dcheck _ _) fun _ =>
    .bind (Guarantee.of_triple fun _ => useBlock_stable
      (fun _ _ kept step => trans_of SessionKept kept (.of_instrStep step)) _) fun _ =>
    .bind (.of_modify fun _ => ⟨rfl, rfl, rfl⟩) fun _ =>
    .bind (Guarantee.of_triple fun _ => bindEnvironment_envStep
      (fun _ _ kept step => trans_of SessionKept kept (.of_envStep step))
      (fun _ _ kept _ => kept) cb block) fun _ =>
    .bind ((doInstructions_instrStep cb fuel _).mono fun _ _ => .of_instrStep) fun _ =>
    .of_modify fun _ => ⟨rfl, rfl, rfl⟩

/-- The block loop runs every block and returns `true`: the status stays `BUILDING`, so the
`is_aborted()` exit never fires. -/
theorem doBlocks_completes {P : BuilderState → Prop}
    (stable : ∀ s t, P s → SessionKept s t → P t) (building : ∀ s, P s → s.status = .building)
    (fuel : Nat) (blocks : List HBasicBlock) :
    Triple P (cb.doBlocks fuel blocks) (fun completed s => P s ∧ completed = true)
      (fun _ => P) := by
  induction blocks with
  | nil => exact .of_pure _ fun _ holds => ⟨holds, rfl⟩
  | cons block rest loop =>
    refine .bind ((doBasicBlock_sessionKept cb fuel block).stable_triple stable) fun _ =>
      .bind (Q := fun t s => t = s ∧ P s) (.of_get fun _ holds => ⟨rfl, holds⟩) fun _ =>
      .of_ite (fun aborted => ?_)
        fun _ => loop.weaken (fun _ h => h.2) (fun _ _ h => h) fun _ _ h => h
    rintro s ⟨rfl, holds⟩
    exact absurd ((building _ holds).symm.trans aborted) (by decide)

/-- `Build` against a session never returns `NULL`.  A completed build ends `DONE` and returns
the chunk of the module it took, the session's next one, which it adds to the session; an
aborted build takes the module and adds none. -/
theorem build_session (fuel : Nat) (session : LLVMGranularity) :
    Triple (fun s => s.session = session) (cb.build fuel)
      (fun chunk s => chunk = some ⟨session.moduleCount⟩ ∧ s.status = .done ∧
        s.session = ⟨session.moduleCount + 1, session.modules ++ [session.moduleCount]⟩)
      (fun _ s => s.session = ⟨session.moduleCount + 1, session.modules⟩) := by
  let started (s : BuilderState) : Prop := s.status = .building ∧
    s.moduleId = session.moduleCount ∧ s.session = ⟨session.moduleCount + 1, session.modules⟩
  let finished (s : BuilderState) : Prop := s.moduleId = session.moduleCount ∧
    s.status = .done ∧ s.session = ⟨session.moduleCount + 1, session.modules ++ [session.moduleCount]⟩
  refine .bind (Q := fun _ => started) (.of_modify fun s start => by subst start; exact
    ⟨rfl, rfl, rfl⟩) fun _ => .bind_fact ((doBlocks_completes cb (P := started)
      (fun _ _ ⟨status, moduleId, session⟩ kept => ⟨kept.status.trans status,
        kept.moduleId.trans moduleId, kept.session.trans session⟩) (fun _ h => h.1) fuel _).weaken
      (fun _ h => h) (fun _ _ h => h) fun _ _ h => h.2.2) fun completed done => ?_
  subst done
  exact .of_ite (fun incomplete => absurd incomplete (by decide)) fun _ =>
    .bind (Q := fun _ => started) (.of_pure _ fun _ h => h) fun _ =>
    .bind (Q := fun _ => finished) (.of_modify fun _ ⟨_, moduleId, session⟩ => by
      simp only [finished, BuilderState.finishBuild, moduleId, session, and_self]) fun _ =>
    .bind (Q := fun t s => t.moduleId = session.moduleCount ∧ finished s)
      (.of_get fun _ h => ⟨h.1, h⟩) fun _ =>
    .of_pure _ fun _ ⟨moduleId, _, done, added⟩ => ⟨by rw [moduleId], done, added⟩

end LLVMChunkBuilder

/-- `NewChunk` never returns `NULL`: a completed build returns the chunk of the session's next
module, ends `DONE` and adds exactly that module to the session; an aborted build takes the
module and adds none. -/
theorem newChunk_session (info : CompilationInfo) (graph : HGraph) (fuel : Nat)
    (session : LLVMGranularity) :
    match LLVMChunk.newChunk info graph fuel session with
    | .ok chunk s => chunk = some ⟨session.moduleCount⟩ ∧ s.status = .done ∧
        s.session = ⟨session.moduleCount + 1, session.modules ++ [session.moduleCount]⟩
    | .error _ s => s.session = ⟨session.moduleCount + 1, session.modules⟩ := by
  have run := LLVMChunkBuilder.build_session ⟨info, graph, true⟩ fuel session
    (BuilderState.initial graph session) rfl
  revert run
  unfold LLVMChunk.newChunk
  cases LLVMChunkBuilder.build ⟨info, graph, true⟩ fuel (BuilderState.initial graph session) <;>
    exact id

namespace LLVMGranularity

/-- A session is consistent when it lists each module once, in creation order, and only modules
it has created. -/
def Consistent (session : LLVMGranularity) : Prop :=
  session.modules.Pairwise (· < ·) ∧ ∀ m ∈ session.modules, m < session.moduleCount

/-- One `NewChunk` call against a session, completed or aborted, and the session it leaves. -/
def Step (session session' : LLVMGranularity) : Prop :=
  ∃ info graph fuel, (finalState (LLVMChunk.newChunk info graph fuel session)).session = session'

/-- Every `NewChunk` call keeps the session consistent. -/
theorem Consistent.step {session session' : LLVMGranularity} (consistent : session.Consistent)
    (step : Step session session') : session'.Consistent := by
  obtain ⟨info, graph, fuel, rfl⟩ := step
  obtain ⟨ordered, created⟩ := consistent
  have run := LLVMChunkBuilder.build_session ⟨info, graph, true⟩ fuel session
    (BuilderState.initial graph session) rfl
  revert run
  unfold LLVMChunk.newChunk finalState
  cases LLVMChunkBuilder.build ⟨info, graph, true⟩ fuel (BuilderState.initial graph session) with
  | ok _ s =>
    rintro ⟨-, -, added⟩
    rw [added]
    refine ⟨List.pairwise_append.mpr ⟨ordered, List.pairwise_singleton _ _, ?_⟩, ?_⟩
    · simpa using created
    · simp only [List.mem_append, List.mem_singleton]
      rintro m (member | rfl)
      · exact Nat.lt_succ_of_lt (created m member)
      · exact Nat.lt_succ_self _
  | error _ s =>
    intro kept
    rw [kept]
    exact ⟨ordered, fun m member => Nat.lt_succ_of_lt (created m member)⟩

end LLVMGranularity

/-- Over any sequence of `NewChunk` calls from a fresh session, completed or aborted, the
session lists each module once, in creation order, and only modules it has created. -/
theorem sessions_consistent {session : LLVMGranularity}
    (reached : Relation.ReflTransGen LLVMGranularity.Step {} session) : session.Consistent := by
  induction reached with
  | refl => exact ⟨List.Pairwise.nil, nofun⟩
  | tail _ step consistent => exact consistent.step step

/-- A graph whose one block ends in `HGoto`, which `DoGoto` does not implement. -/
def gotoOnly : HGraph where
  values := [{ kind := .instruction .goto, block := 0, representation := .tagged }]
  blocks := [{ blockId := 0, isStartBlock := true, instructions := [0] }]

/-- An aborted build of `gotoOnly`, then a completed build of the empty graph. -/
theorem sessions_consistent_abortThenBuild :
    Relation.ReflTransGen LLVMGranularity.Step {} ⟨2, [1]⟩ ∧
      LLVMGranularity.Consistent ⟨2, [1]⟩ :=
  have reached : Relation.ReflTransGen LLVMGranularity.Step {} ⟨2, [1]⟩ :=
    .tail (.single ⟨⟨0, false, false⟩, gotoOnly, 1, rfl⟩) ⟨⟨0, false, false⟩, { values := [], blocks := [] }, 1, rfl⟩
  ⟨reached, sessions_consistent reached⟩

end Llv8
