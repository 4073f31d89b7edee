import Mathlib

/-! Statements that run on, leave their function with a result, or have no defined
behaviour, and loops over such a body. No model or table is mentioned here. -/
namespace NimbleNet

inductive Flow (σ ε : Type) where
  | proceed (s : σ)
  | leave (s : σ) (e : ε)
  | undefined

namespace Flow

variable {σ ε α : Type}

def andThen : Flow σ ε → (σ → Flow σ ε) → Flow σ ε
  | proceed s,next => next s
  | leave s e,_ => leave s e
  | undefined,_ => undefined

def loop (body : σ → α → Flow σ ε) : σ → List α → Flow σ ε
  | s,[] => proceed s
  | s,a :: rest => (body s a).andThen (loop body · rest)

def Ends (P : σ → Prop) : Flow σ ε → Prop
  | proceed s => P s
  | leave s _ => P s
  | undefined => True

theorem endsAndThen {P : σ → Prop} {first : Flow σ ε} {next : σ → Flow σ ε} (start : first.Ends P)
    (each : ∀ s, P s → (next s).Ends P) : (first.andThen next).Ends P := by
  cases first with
  | proceed s => exact each s start
  | leave s e => exact start
  | undefined => trivial

theorem endsImp {P Q : σ → Prop} {f : Flow σ ε} (ends : f.Ends P) (each : ∀ s, P s → Q s) : f.Ends Q := by
  cases f with
  | proceed s => exact each s ends
  | leave s e => exact each s ends
  | undefined => trivial

theorem loopEndsMem {P : σ → Prop} {body : σ → α → Flow σ ε} {items : List α}
    (each : ∀ s, ∀ a ∈ items, P s → (body s a).Ends P) {s : σ} (start : P s) : (loop body s items).Ends P := by
  induction items generalizing s with
  | nil => exact start
  | cons a rest ih =>
      have later := fun s b inside => each s b (List.mem_cons_of_mem a inside)
      exact endsAndThen (each s a List.mem_cons_self start) (fun next good => ih later good)

theorem loopEnds {P : σ → Prop} {body : σ → α → Flow σ ε} (each : ∀ s a, P s → (body s a).Ends P) {s : σ} (start : P s)
    (items : List α) : (loop body s items).Ends P :=
  loopEndsMem (fun s a _ good => each s a good) start

theorem loopDone {I : List α → σ → Prop} {body : σ → α → Flow σ ε}
    (each : ∀ done a s s', I done s → body s a = proceed s' → I (done ++ [a]) s') {items done : List α} {s s' : σ}
    (start : I done s) (ok : loop body s items = proceed s') : I (done ++ items) s' := by
  induction items generalizing done s with
  | nil =>
      cases ok
      simpa using start
  | cons a rest ih =>
      simp only [loop] at ok
      cases pass : body s a with
      | proceed next =>
          rw [pass] at ok
          have all := ih (each done a s next start pass) ok
          rwa [List.append_assoc] at all
      | leave next e => simp [pass,andThen] at ok
      | undefined => simp [pass,andThen] at ok

theorem loopDoneEach {Q : α → Prop} {body : σ → α → Flow σ ε} (each : ∀ a s s', body s a = proceed s' → Q a)
    {items : List α} {s s' : σ} (ok : loop body s items = proceed s') : ∀ a ∈ items, Q a := by
  have start : ∀ a ∈ ([] : List α), Q a := by simp
  refine loopDone (I := fun done _ => ∀ a ∈ done, Q a) (fun done a s s' before pass => ?_) start ok
  rw [List.forall_mem_append]
  exact ⟨before,by simpa using each a s s' pass⟩

def isProceed : Flow σ ε → Bool
  | proceed _ => true
  | _ => false

def Leaves (Q : ε → Prop) : Flow σ ε → Prop
  | leave _ e => Q e
  | _ => True

theorem leavesAndThen {Q : ε → Prop} {first : Flow σ ε} {next : σ → Flow σ ε} (here : first.Leaves Q)
    (each : ∀ s, (next s).Leaves Q) : (first.andThen next).Leaves Q := by
  cases first with
  | proceed s => exact each s
  | leave s e => exact here
  | undefined => trivial

theorem loopLeaves {Q : ε → Prop} {body : σ → α → Flow σ ε} (each : ∀ s a, (body s a).Leaves Q) (s : σ)
    (items : List α) : (loop body s items).Leaves Q := by
  induction items generalizing s with
  | nil => trivial
  | cons a rest ih => exact leavesAndThen (each s a) ih

/- The guard holds at every pass of the loop that is reached. -/
def Reached (body : σ → α → Flow σ ε) (guard : σ → α → Prop) (s : σ) : List α → Prop
  | [] => True
  | a :: rest => guard s a ∧ ∀ next, body s a = proceed next → Reached body guard next rest

instance reachedDecidable (body : σ → α → Flow σ ε) (guard : σ → α → Prop) [∀ s a, Decidable (guard s a)] :
    (s : σ) → (items : List α) → Decidable (Reached body guard s items)
  | _,[] => isTrue trivial
  | s,a :: rest =>
      match pass : body s a with
      | proceed next =>
          have := reachedDecidable body guard next rest
          decidable_of_iff (guard s a ∧ Reached body guard next rest) (by simp [Reached,pass])
      | leave next e => decidable_of_iff (guard s a) (by simp [Reached,pass])
      | undefined => decidable_of_iff (guard s a) (by simp [Reached,pass])

theorem endsIff {Q P : σ → Prop} {R : Prop} {f : Flow σ ε} (defined : f ≠ undefined) (ends : f.Ends Q)
    (each : ∀ s, Q s → (P s ↔ R)) : f.Ends P ↔ R := by
  cases f with
  | proceed s => exact each s ends
  | leave s e => exact each s ends
  | undefined => exact absurd rfl defined

theorem endsBack {Q P : σ → Prop} {R : Prop} {f : Flow σ ε} (defined : f ≠ undefined) (ends : f.Ends Q) (good : f.Ends P)
    (each : ∀ s, Q s → P s → R) : R := by
  cases f with
  | proceed s => exact each s ends good
  | leave s e => exact each s ends good
  | undefined => exact absurd rfl defined

/- When a pass ends well exactly where its guard holds, and nothing makes a bad state
good again, the loop ends well exactly if every pass it reaches is guarded. -/
theorem loopEndsIff {P : σ → Prop} {guard : σ → α → Prop} {body : σ → α → Flow σ ε}
    (exact : ∀ s a, P s → body s a ≠ undefined → ((body s a).Ends P ↔ guard s a))
    (stays : ∀ s a, body s a ≠ undefined → (body s a).Ends P → P s) {s : σ} (start : P s) {items : List α}
    (defined : loop body s items ≠ undefined) : (loop body s items).Ends P ↔ Reached body guard s items := by
  have back : ∀ (items : List α) (s : σ), loop body s items ≠ undefined → (loop body s items).Ends P → P s := by
    intro items
    induction items with
    | nil => exact fun s _ ends => ends
    | cons a rest ih =>
        intro s defined ends
        unfold loop at defined ends
        apply stays s a <;> cases pass : body s a <;> simp only [pass,andThen] at defined ends
        · simp
        · simp
        · exact absurd rfl defined
        · exact ih _ defined ends
        · exact ends
        · exact absurd rfl defined
  induction items generalizing s with
  | nil => exact iff_of_true start trivial
  | cons a rest ih =>
      have here := exact s a start
      simp only [loop,Reached] at defined ⊢
      cases pass : body s a with
      | proceed next =>
          rw [pass] at here defined
          have here := here (by simp)
          simp only [andThen,proceed.injEq,forall_eq'] at defined ⊢
          constructor
          · intro ends
            have good := back rest next defined ends
            exact ⟨here.mp good,(ih good defined).mp ends⟩
          · rintro ⟨guarded,later⟩
            exact (ih (here.mpr guarded) defined).mpr later
      | leave next e =>
          rw [pass] at here
          simpa [andThen] using here
      | undefined =>
          rw [pass] at defined
          exact absurd rfl defined

section Matches
variable {τ : Type} {R : σ → τ → Prop}

def Matches (R : σ → τ → Prop) : Flow σ ε → Flow τ ε → Prop
  | proceed s,proceed t => R s t
  | leave s e,leave t e' => R s t ∧ e = e'
  | undefined,undefined => True
  | _,_ => False

theorem matchesAndThen {first : Flow σ ε} {first' : Flow τ ε} {next : σ → Flow σ ε} {next' : τ → Flow τ ε}
    (here : Matches R first first') (each : ∀ s t, R s t → Matches R (next s) (next' t)) :
    Matches R (first.andThen next) (first'.andThen next') := by
  cases first <;> cases first' <;> first | exact here.elim | skip
  · exact each _ _ here
  · exact here
  · trivial

theorem loopMatches {body : σ → α → Flow σ ε} {body' : τ → α → Flow τ ε}
    (each : ∀ s t a, R s t → Matches R (body s a) (body' t a)) {s : σ} {t : τ} (start : R s t) (items : List α) :
    Matches R (loop body s items) (loop body' t items) := by
  induction items generalizing s t with
  | nil => exact start
  | cons a rest ih => exact matchesAndThen (each s t a start) (fun _ _ related => ih related)

end Matches

end Flow
end NimbleNet
