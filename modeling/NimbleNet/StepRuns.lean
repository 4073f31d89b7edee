import Mathlib

/-! Runs of a partial step function. `none` is a step that the system cannot
take: it is disabled, or its behaviour is undefined. -/
namespace NimbleNet.StepRuns

variable {σ α : Type} (step : σ → α → Option σ)

def run (s : σ) : List α → Option σ
  | [] => some s
  | a :: rest => do
      let next ← step s a
      run next rest

theorem runCons {s : σ} {a : α} {rest : List α} {final : σ} :
    run step s (a :: rest) = some final ↔ ∃ next, step s a = some next ∧ run step next rest = some final := by
  simp only [run,bind,Option.bind_eq_some_iff]

theorem runAppend {s : σ} {before after : List α} {final : σ} :
    run step s (before ++ after) = some final ↔
      ∃ middle, run step s before = some middle ∧ run step middle after = some final := by
  induction before generalizing s with
  | nil => simp [run]
  | cons a rest ih =>
      simp only [List.cons_append,runCons,ih]
      constructor
      · rintro ⟨next,taken,middle,left,right⟩
        exact ⟨middle,⟨next,taken,left⟩,right⟩
      · rintro ⟨middle,⟨next,taken,left⟩,right⟩
        exact ⟨next,taken,middle,left,right⟩

theorem runInvariant {Inv : σ → Prop}
    (preserved : ∀ s a next, Inv s → step s a = some next → Inv next)
    {s final : σ} {actions : List α} (start : Inv s) (ok : run step s actions = some final) : Inv final := by
  induction actions generalizing s with
  | nil => cases ok; exact start
  | cons a rest ih =>
      obtain ⟨next,taken,later⟩ := (runCons step).mp ok
      exact ih (preserved s a next start taken) later

/- Every step of the run is taken in a state where the guard holds of it. -/
def Guarded (guard : σ → α → Prop) (s : σ) : List α → Prop
  | [] => True
  | a :: rest => guard s a ∧ ∀ next, step s a = some next → Guarded guard next rest

instance guardedDecidable (guard : σ → α → Prop) [∀ s a, Decidable (guard s a)] :
    (s : σ) → (actions : List α) → Decidable (Guarded step guard s actions)
  | _,[] => isTrue trivial
  | s,a :: rest =>
      match taken : step s a with
      | none => decidable_of_iff (guard s a)
          ⟨fun here => ⟨here,fun next other => by rw [taken] at other; contradiction⟩,And.left⟩
      | some next =>
          have := guardedDecidable guard next rest
          decidable_of_iff (guard s a ∧ Guarded step guard next rest)
            ⟨fun both => ⟨both.1,fun other same => by
              rw [taken] at same
              cases same
              exact both.2⟩,fun both => ⟨both.1,both.2 next taken⟩⟩

/- The predicate holds in every state the run visits, the first one included. -/
def Always (P : σ → Prop) (s : σ) : List α → Prop
  | [] => P s
  | a :: rest => P s ∧ ∀ next, step s a = some next → Always P next rest

variable {step}

theorem guardedPrefix {guard : σ → α → Prop} {s : σ} {before after : List α}
    (h : Guarded step guard s (before ++ after)) : Guarded step guard s before := by
  induction before generalizing s with
  | nil => trivial
  | cons a rest ih => exact ⟨h.1,fun next taken => ih (h.2 next taken)⟩

theorem guardedSuffix {guard : σ → α → Prop} {s middle : σ} {before after : List α}
    (h : Guarded step guard s (before ++ after)) (reached : run step s before = some middle) :
    Guarded step guard middle after := by
  induction before generalizing s with
  | nil => cases reached; exact h
  | cons a rest ih =>
      obtain ⟨next,taken,later⟩ := (runCons step).mp reached
      exact ih (h.2 next taken) later

theorem guardedAppend {guard : σ → α → Prop} {s middle : σ} {before after : List α}
    (first : Guarded step guard s before) (reached : run step s before = some middle)
    (last : Guarded step guard middle after) : Guarded step guard s (before ++ after) := by
  induction before generalizing s with
  | nil => cases reached; exact last
  | cons a rest ih =>
      obtain ⟨next,taken,later⟩ := (runCons step).mp reached
      refine ⟨first.1,fun other same => ?_⟩
      cases Option.some.inj (taken.symm.trans same)
      exact ih (first.2 next taken) later

theorem guardedOfAll {guard : σ → α → Prop} {s : σ} {actions : List α} (all : ∀ s, ∀ a ∈ actions, guard s a) :
    Guarded step guard s actions := by
  induction actions generalizing s with
  | nil => trivial
  | cons a rest ih =>
      exact ⟨all s a List.mem_cons_self,fun _ _ => ih (fun s b member => all s b (List.mem_cons_of_mem a member))⟩

theorem guardedAnd {scope : α → Prop} {guard : σ → α → Prop} {s : σ} {actions : List α} (all : ∀ a ∈ actions, scope a)
    (guarded : Guarded step guard s actions) : Guarded step (fun s a => scope a ∧ guard s a) s actions := by
  induction actions generalizing s with
  | nil => trivial
  | cons a rest ih =>
      exact ⟨⟨all a List.mem_cons_self,guarded.1⟩,fun next taken =>
        ih (fun b member => all b (List.mem_cons_of_mem a member)) (guarded.2 next taken)⟩

theorem guardedInvariant {Inv : σ → Prop} {guard : σ → α → Prop}
    (preserved : ∀ s a next, Inv s → guard s a → step s a = some next → Inv next)
    {s final : σ} {actions : List α} (start : Inv s) (guarded : Guarded step guard s actions)
    (ok : run step s actions = some final) : Inv final := by
  induction actions generalizing s with
  | nil => cases ok; exact start
  | cons a rest ih =>
      obtain ⟨next,taken,later⟩ := (runCons step).mp ok
      exact ih (preserved s a next start guarded.1 taken) (guarded.2 next taken) later

theorem guardedAlways {Inv P : σ → Prop} {guard : σ → α → Prop} (good : ∀ s, Inv s → P s)
    (preserved : ∀ s a next, Inv s → guard s a → step s a = some next → Inv next)
    {s : σ} {actions : List α} (start : Inv s) (guarded : Guarded step guard s actions) : Always step P s actions := by
  induction actions generalizing s with
  | nil => exact good s start
  | cons a rest ih =>
      exact ⟨good s start,fun next taken => ih (preserved s a next start guarded.1 taken) (guarded.2 next taken)⟩

theorem guardedReturns {Inv : σ → Prop} {guard : σ → α → Prop}
    (returns : ∀ s a, Inv s → guard s a → ∃ next, step s a = some next ∧ Inv next)
    {s : σ} {actions : List α} (start : Inv s) (guarded : Guarded step guard s actions) :
    ∃ final, run step s actions = some final ∧ Inv final := by
  induction actions generalizing s with
  | nil => exact ⟨s,rfl,start⟩
  | cons a rest ih =>
      obtain ⟨next,taken,inv⟩ := returns s a start guarded.1
      obtain ⟨final,later,last⟩ := ih inv (guarded.2 next taken)
      exact ⟨final,(runCons step).mpr ⟨next,taken,later⟩,last⟩

theorem guardedImplies {Inv : σ → Prop} {guard implied : σ → α → Prop} (implies : ∀ s a, Inv s → guard s a → implied s a)
    (preserved : ∀ s a next, Inv s → guard s a → step s a = some next → Inv next)
    {s : σ} {actions : List α} (start : Inv s) (guarded : Guarded step guard s actions) : Guarded step implied s actions := by
  induction actions generalizing s with
  | nil => trivial
  | cons a rest ih =>
      exact ⟨implies s a start guarded.1,fun next taken =>
        ih (preserved s a next start guarded.1 taken) (guarded.2 next taken)⟩

theorem guardedIffWithin {Inv : σ → Prop} {scope guard guard' : σ → α → Prop}
    (same : ∀ s a, Inv s → scope s a → (guard s a ↔ guard' s a))
    (preserved : ∀ s a next, Inv s → scope s a → step s a = some next → Inv next)
    {s : σ} {actions : List α} (start : Inv s) (within : Guarded step scope s actions) :
    Guarded step guard s actions ↔ Guarded step guard' s actions := by
  induction actions generalizing s with
  | nil => exact Iff.rfl
  | cons a rest ih =>
      exact and_congr (same s a start within.1) (forall₂_congr (fun next taken =>
        ih (preserved s a next start within.1 taken) (within.2 next taken)))

theorem alwaysStart {P : σ → Prop} {s : σ} {actions : List α} (h : Always step P s actions) : P s := by
  cases actions with
  | nil => exact h
  | cons a rest => exact h.1

theorem alwaysAt {P : σ → Prop} {s middle : σ} {before after : List α}
    (h : Always step P s (before ++ after)) (reached : run step s before = some middle) : P middle := by
  induction before generalizing s with
  | nil => cases reached; exact alwaysStart h
  | cons a rest ih =>
      obtain ⟨next,taken,later⟩ := (runCons step).mp reached
      exact ih (h.2 next taken) later

theorem alwaysEnd {P : σ → Prop} {s final : σ} {actions : List α} (h : Always step P s actions)
    (ok : run step s actions = some final) : P final := by
  rw [← List.append_nil actions] at h
  exact alwaysAt h ok

/- When, from a good state and in the scope, a step leads to a good state exactly where the
guard holds, a run in the scope stays good exactly if it is guarded. -/
theorem alwaysIffGuardedWithin {Inv P : σ → Prop} {scope guard : σ → α → Prop}
    (exact : ∀ s a next, Inv s → P s → scope s a → step s a = some next → Inv next ∧ (P next ↔ guard s a))
    {s final : σ} {actions : List α} (inv : Inv s) (good : P s) (within : Guarded step scope s actions)
    (ok : run step s actions = some final) :
    Always step P s actions ↔ Guarded step guard s actions := by
  induction actions generalizing s with
  | nil => exact iff_of_true good trivial
  | cons a rest ih =>
      obtain ⟨next,taken,later⟩ := (runCons step).mp ok
      have only : ∀ other, step s a = some other → other = next :=
        fun other h => Option.some.inj (h.symm.trans taken)
      obtain ⟨inv',here⟩ := exact s a next inv good within.1 taken
      have within' := within.2 next taken
      constructor
      · intro all
        have rest' := all.2 next taken
        have good' := alwaysStart rest'
        refine ⟨here.mp good',fun other h => ?_⟩
        rw [only other h]
        exact (ih inv' good' within' later).mp rest'
      · intro guarded
        refine ⟨good,fun other h => ?_⟩
        rw [only other h]
        exact (ih inv' (here.mpr guarded.1) within' later).mpr (guarded.2 next taken)

theorem alwaysIffGuarded {Inv P : σ → Prop} {guard : σ → α → Prop}
    (exact : ∀ s a next, Inv s → P s → step s a = some next → Inv next ∧ (P next ↔ guard s a))
    {s final : σ} {actions : List α} (inv : Inv s) (good : P s)
    (ok : run step s actions = some final) :
    Always step P s actions ↔ Guarded step guard s actions :=
  alwaysIffGuardedWithin (fun s a next inv good _ => exact s a next inv good) inv good
    (@guardedOfAll _ _ _ (fun _ _ => True) s actions (fun _ _ _ => trivial)) ok

theorem endIffGuarded {Inv P : σ → Prop} {guard : σ → α → Prop}
    (exact : ∀ s a next, Inv s → step s a = some next → Inv next ∧ (P next ↔ P s ∧ guard s a))
    {s final : σ} {actions : List α} (inv : Inv s) (ok : run step s actions = some final) :
    Inv final ∧ (P final ↔ P s ∧ Guarded step guard s actions) := by
  induction actions generalizing s with
  | nil =>
      cases ok
      exact ⟨inv,⟨fun good => ⟨good,trivial⟩,And.left⟩⟩
  | cons a rest ih =>
      obtain ⟨next,taken,later⟩ := (runCons step).mp ok
      obtain ⟨inv',here⟩ := exact s a next inv taken
      obtain ⟨invLast,last⟩ := ih inv' later
      refine ⟨invLast,last.trans ⟨fun ⟨good,guarded⟩ => ?_,fun ⟨good,guarded⟩ => ?_⟩⟩
      · refine ⟨(here.mp good).1,(here.mp good).2,fun other same => ?_⟩
        cases Option.some.inj (taken.symm.trans same)
        exact guarded
      · exact ⟨here.mpr ⟨good,guarded.1⟩,guarded.2 next taken⟩

section Views
variable {τ : Type} {step' : τ → α → Option τ} {view : σ → τ} {Inv : σ → Prop}
  (agrees : ∀ s a, Inv s → (step s a).map view = step' (view s) a)
  (preserved : ∀ s a next, Inv s → step s a = some next → Inv next)
include agrees preserved

theorem runView {s : σ} (start : Inv s) (actions : List α) : (run step s actions).map view = run step' (view s) actions := by
  induction actions generalizing s with
  | nil => rfl
  | cons a rest ih =>
      have here := agrees s a start
      cases taken : step s a with
      | none =>
          rw [taken] at here
          simp [run,taken,← here]
      | some next =>
          rw [taken] at here
          simpa [run,taken,← here] using ih (preserved s a next start taken)

theorem guardedView (guard : τ → α → Prop) {s : σ} (start : Inv s) {actions : List α} :
    Guarded step (fun s a => guard (view s) a) s actions ↔ Guarded step' guard (view s) actions := by
  induction actions generalizing s with
  | nil => exact Iff.rfl
  | cons a rest ih =>
      have here := agrees s a start
      refine and_congr Iff.rfl ?_
      cases taken : step s a with
      | none =>
          rw [taken] at here
          simp [← here]
      | some next =>
          rw [taken] at here
          simpa [← here] using ih (preserved s a next start taken)

end Views

end NimbleNet.StepRuns
