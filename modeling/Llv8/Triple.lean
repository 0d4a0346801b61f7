import Llv8.Steps

/-!
# Triples over the builder's runs

`Triple pre m post abort`: from a state satisfying `pre`, a run of `m` either returns a value
and a state satisfying `post`, or aborts with an error and a state satisfying `abort`.  An
aborted build keeps the state it reached, so what holds of a whole run, aborted or not, is
stated through both.  The rules follow the shape of the `do` blocks of the handlers: one per
primitive step, and `bind`, `ite` and weakening.
-/

namespace Llv8

/-- From a state satisfying `pre`, `m` returns into `post` or aborts into `abort`. -/
def Triple {α : Type} (pre : BuilderState → Prop) (m : BuildM α)
    (post : α → BuilderState → Prop) (abort : Abort → BuilderState → Prop) : Prop :=
  ∀ s, pre s → match m s with
    | .ok a s' => post a s'
    | .error e s' => abort e s'

namespace Triple

variable {α β : Type} {P : BuilderState → Prop} {Q : α → BuilderState → Prop}
  {A : Abort → BuilderState → Prop}

theorem bind {x : BuildM α} {f : α → BuildM β} {R : β → BuilderState → Prop}
    (first : Triple P x Q A) (rest : ∀ a, Triple (Q a) (f a) R A) :
    Triple P (x >>= f) R A := by
  intro s pre
  have firstRun := first s pre
  rw [bind_apply]
  cases run : x s with
  | ok a s₁ => rw [run] at firstRun; exact rest a s₁ firstRun
  | error e s₁ => rw [run] at firstRun; exact firstRun

theorem weaken {x : BuildM α} {P' : BuilderState → Prop} {Q' : α → BuilderState → Prop}
    {A' : Abort → BuilderState → Prop} (run : Triple P x Q A) (pre : ∀ s, P' s → P s)
    (post : ∀ a s, Q a s → Q' a s) (abort : ∀ e s, A e s → A' e s) : Triple P' x Q' A' := by
  intro s start
  have step := run s (pre s start)
  split <;> next result => rw [result] at step; first | exact post _ _ step | exact abort _ _ step

theorem of_pure (a : α) (returns : ∀ s, P s → Q a s) : Triple P (pure a) Q A := returns

theorem of_throw (e : Abort) (aborts : ∀ s, P s → A e s) : Triple P (throw e : BuildM α) Q A :=
  aborts

theorem of_get {Q : BuilderState → BuilderState → Prop} (returns : ∀ s, P s → Q s s) :
    Triple P get Q A := returns

theorem of_modify {f : BuilderState → BuilderState} {Q : PUnit → BuilderState → Prop}
    (step : ∀ s, P s → Q ⟨⟩ (f s)) : Triple P (modify f) Q A := step

theorem of_modifyGet {f : BuilderState → α × BuilderState}
    (step : ∀ s, P s → Q (f s).1 (f s).2) : Triple P (modifyGet f) Q A := step

theorem of_ite {c : Prop} [Decidable c] {x y : BuildM α} (yes : c → Triple P x Q A)
    (no : ¬c → Triple P y Q A) : Triple P (if c then x else y) Q A := by
  split
  · exact yes ‹_›
  · exact no ‹_›

theorem of_discard {x : BuildM α} {Q : PUnit → BuilderState → Prop}
    (body : Triple P x (fun _ => Q ⟨⟩) A) : Triple P (discard x) Q A := by
  intro s pre
  have step := body s pre
  rw [discard_apply]
  cases run : x s <;> rw [run] at step <;> exact step

/-! Checks leave the state as it is: they return into `pre` or abort with their condition. -/

theorem of_dcheck (c : Bool) (text : String) (aborts : ∀ s, P s → A (.dcheckFailed text) s) :
    Triple P (dcheck c text) (fun _ => P) A :=
  of_ite (fun _ => of_pure _ fun _ => id) fun _ => of_throw _ aborts

theorem of_resolve (o : Option α) (aborts : ∀ s, P s → A .malformedGraph s) :
    Triple P (resolve o) (fun a s => P s ∧ o = some a) A := by
  cases o
  · exact of_throw _ aborts
  · exact of_pure _ fun _ pre => ⟨pre, rfl⟩

theorem of_checked (o : Option α) (text : String)
    (aborts : ∀ s, P s → A (.checkFailed text) s) :
    Triple P (checked o text) (fun a s => P s ∧ o = some a) A := by
  cases o
  · exact of_throw _ aborts
  · exact of_pure _ fun _ pre => ⟨pre, rfl⟩

theorem of_dchecked (o : Option α) (text : String)
    (aborts : ∀ s, P s → A (.dcheckFailed text) s) :
    Triple P (dchecked o text) (fun a s => P s ∧ o = some a) A := by
  cases o
  · exact of_throw _ aborts
  · exact of_pure _ fun _ pre => ⟨pre, rfl⟩

/-- Two triples of one program combine. -/
theorem conj {x : BuildM α} {P' : BuilderState → Prop} {Q' : α → BuilderState → Prop}
    {A' : Abort → BuilderState → Prop} (first : Triple P x Q A) (second : Triple P' x Q' A') :
    Triple (fun s => P s ∧ P' s) x (fun a s => Q a s ∧ Q' a s)
      (fun e s => A e s ∧ A' e s) := by
  intro s ⟨pre, pre'⟩
  have one := first s pre
  have two := second s pre'
  split <;> next result => rw [result] at one two; exact ⟨one, two⟩

theorem trivial (x : BuildM α) : Triple P x (fun _ _ => True) (fun _ _ => True) := by
  intro s _
  split <;> exact True.intro

/-- A triple may be proved for each start state on its own. -/
theorem of_start {x : BuildM α} (body : ∀ s₀, P s₀ → Triple (· = s₀) x Q A) :
    Triple P x Q A :=
  fun s holds => body s holds s rfl

/-- A first step whose run from the start state is known. -/
theorem of_run {x : BuildM α} {f : α → BuildM β} {R : β → BuilderState → Prop}
    {s₀ s₁ : BuilderState} {a : α} (run : x s₀ = .ok a s₁)
    (rest : Triple (· = s₁) (f a) R A) :
    Triple (· = s₀) (x >>= f) R A := by
  rintro s rfl
  rw [bind_apply, run]
  exact rest s₁ rfl

/-- A lookup that must succeed: the rest of the run may assume what it found. -/
theorem bind_resolve {o : Option α} {f : α → BuildM β} {R : β → BuilderState → Prop}
    (aborts : ∀ s, P s → A .malformedGraph s)
    (rest : ∀ a, o = some a → Triple P (f a) R A) :
    Triple P (resolve o >>= f) R A :=
  bind (of_resolve o aborts) fun a s found => rest a found.2 s found.1

/-- A `DCHECK`ed pointer: the rest of the run may assume what it points to. -/
theorem bind_dchecked {o : Option α} {text : String} {f : α → BuildM β}
    {R : β → BuilderState → Prop} (aborts : ∀ s, P s → A (.dcheckFailed text) s)
    (rest : ∀ a, o = some a → Triple P (f a) R A) : Triple P (dchecked o text >>= f) R A :=
  bind (of_dchecked o text aborts) fun a s found => rest a found.2 s found.1

/-- A step that returns a value with a property: the rest of the run may assume it. -/
theorem bind_fact {x : BuildM α} {f : α → BuildM β} {F : α → Prop} {R : β → BuilderState → Prop}
    (first : Triple P x (fun a s => P s ∧ F a) A) (rest : ∀ a, F a → Triple P (f a) R A) :
    Triple P (x >>= f) R A :=
  bind first fun a s holds => rest a holds.2 s holds.1

/-- A `DCHECK` that passes: the rest of the run may assume its condition. -/
theorem bind_dcheck {c : Bool} {text : String} {f : PUnit → BuildM β}
    {R : β → BuilderState → Prop} (aborts : ∀ s, P s → A (.dcheckFailed text) s)
    (rest : c = true → Triple P (f ⟨⟩) R A) : Triple P (dcheck c text >>= f) R A := by
  cases c
  · exact bind (Q := fun _ _ => False) (of_throw _ aborts) fun _ _ impossible => impossible.elim
  · exact bind (of_pure _ fun _ h => h) fun _ => rest rfl

/-- A pointer read from the state and `CHECK`ed: the rest of the run may assume that the state
it starts from holds it. -/
theorem bind_checked_get {g : BuilderState → Option α} {text : String} {f : α → BuildM β}
    {R : β → BuilderState → Prop} (aborts : ∀ s, P s → A (.checkFailed text) s)
    (rest : ∀ a, Triple (fun s => P s ∧ g s = some a) (f a) R A) :
    Triple P (get >>= fun s => checked (g s) text >>= f) R A := by
  intro s holds
  rw [bind_apply, get_apply]
  dsimp only
  rw [bind_apply]
  cases read : g s with
  | none => exact aborts s holds
  | some a => exact rest a s ⟨holds, read⟩

end Triple

/-- A guarantee of a reflexive and transitive relation is a triple whose pre- and
postconditions are the states related to a fixed one. -/
theorem Guarantee.of_triple {α : Type} {R : BuilderState → BuilderState → Prop}
    [IsPreorder BuilderState R] {m : BuildM α}
    (run : ∀ s₀, Triple (R s₀) m (fun _ => R s₀) (fun _ => R s₀)) : Guarantee R m := by
  intro s
  have step := run s s (refl_of R s)
  unfold finalState
  split <;> next result => rw [result] at step; exact step

/-- A guarantee keeps every property that its relation keeps. -/
theorem Guarantee.stable_triple {α : Type} {R : BuilderState → BuilderState → Prop}
    {m : BuildM α} (keeps : Guarantee R m) {P : BuilderState → Prop}
    (stable : ∀ s t, P s → R s t → P t) : Triple P m (fun _ => P) (fun _ => P) := by
  intro s holds
  have step := stable _ _ holds (keeps s)
  unfold finalState at step
  split <;> next result => rw [result] at step; exact step

/-- In particular, a guarantee keeps the states related to a fixed one. -/
theorem Guarantee.triple {α : Type} {R : BuilderState → BuilderState → Prop}
    [IsTrans BuilderState R] {m : BuildM α} (keeps : Guarantee R m) (s₀ : BuilderState) :
    Triple (R s₀) m (fun _ => R s₀) (fun _ => R s₀) :=
  keeps.stable_triple fun _ _ related step => trans_of R related step

/-- A run that is an instruction step keeps every property that instruction steps keep, beside
what a triple says of it. -/
theorem Triple.frame {α : Type} {P : BuilderState → Prop} {Q : α → BuilderState → Prop}
    {A : Abort → BuilderState → Prop} {m : BuildM α} (run : Triple P m Q A)
    (keeps : Guarantee InstrStep m) {F : BuilderState → Prop}
    (stable : ∀ s s', F s → InstrStep s s' → F s') :
    Triple (fun s => P s ∧ F s) m (fun a s => Q a s ∧ F s) A :=
  (run.conj (keeps.stable_triple stable)).weaken (fun _ h => h) (fun _ _ h => h)
    fun _ _ h => h.1

/-! ## Steps that go on

Lookups that find what they look for and checks that pass: the rest of the run follows. -/

namespace Triple

variable {α β : Type} {P : BuilderState → Prop} {R : β → BuilderState → Prop}
  {A : Abort → BuilderState → Prop} {f : α → BuildM β} {o : Option α} {a : α}

theorem bind_resolve_some (found : o = some a) (rest : Triple P (f a) R A) :
    Triple P (resolve o >>= f) R A := by
  subst found
  exact rest

theorem bind_dchecked_some {text : String} (found : o = some a) (rest : Triple P (f a) R A) :
    Triple P (dchecked o text >>= f) R A := by
  subst found
  exact rest

theorem bind_checked_get_some {g : BuilderState → Option α} {text : String} {f : α → BuildM β}
    (present : ∀ s, P s → g s ≠ none) (rest : ∀ a, Triple P (f a) R A) :
    Triple P (get >>= fun s => checked (g s) text >>= f) R A := by
  intro s holds
  obtain ⟨a, read⟩ := Option.ne_none_iff_exists'.mp (present s holds)
  simp only [bind_apply, get_apply, read, checked, pure_apply]
  exact rest a s holds

theorem bind_dchecked_get_some {g : BuilderState → Option α} {text : String}
    {f : α → BuildM β} (present : ∀ s, P s → g s ≠ none) (rest : ∀ a, Triple P (f a) R A) :
    Triple P (get >>= fun s => dchecked (g s) text >>= f) R A := by
  intro s holds
  obtain ⟨a, read⟩ := Option.ne_none_iff_exists'.mp (present s holds)
  simp only [bind_apply, get_apply, read, dchecked, pure_apply]
  exact rest a s holds

theorem bind_resolve_get_some {g : BuilderState → Option α} {f : α → BuildM β}
    (present : ∀ s, P s → g s ≠ none) (rest : ∀ a, Triple (fun s => P s ∧ g s = some a) (f a) R A) :
    Triple P (get >>= fun s => resolve (g s) >>= f) R A := by
  intro s holds
  obtain ⟨a, read⟩ := Option.ne_none_iff_exists'.mp (present s holds)
  simp only [bind_apply, get_apply, read, resolve, pure_apply]
  exact rest a s ⟨holds, read⟩

theorem bind_get_dcheck_pass {g : BuilderState → Bool} {text : String}
    {f : BuilderState → PUnit → BuildM β} (holds : ∀ s, P s → g s = true)
    (rest : ∀ s₀, P s₀ → Triple P (f s₀ ⟨⟩) R A) :
    Triple P (get >>= fun s => dcheck (g s) text >>= f s) R A := by
  intro s holding
  simp only [bind_apply, get_apply, holds s holding, dcheck, ↓reduceIte, pure_apply]
  exact rest s holding s holding

theorem bind_dcheck_pass {c : Bool} {text : String} {f : PUnit → BuildM β} (holds : c = true)
    (rest : Triple P (f ⟨⟩) R A) : Triple P (dcheck c text >>= f) R A := by
  subst holds
  exact rest

end Triple

end Llv8
