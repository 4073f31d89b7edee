import NimbleNet.HostNormalisation
import NimbleNet.StepRuns

/-! initialize_nimblenet and the calls of the interface, from any number of threads at once. A
step of a thread is one statement on the data they share, and the others see it at once. What
the components do is modelled elsewhere; here a component is the number it was made with. -/
namespace NimbleNet.Initialization
open StepRuns

inductive Call where
  | getInference
  | exitInference
  | writeLog
  | writeMetric
  | addEvent
  | getModelStatus
  | internetSwitchedOn
  | getInputsForInferId
  deriving DecidableEq

def Call.checks : Call → Bool
  | .getInputsForInferId => false
  | _ => true

/- `owner`: the thread that holds _initMutex. `background`: the threads of
perform_long_running_tasks. -/
structure CommandCenter where
  owner : Option Nat
  config : Config
  initializeSuccess : Bool
  metricsDirectory : Option String
  metricsDevice : String × String
  resourceManager : Option Nat
  mlExecutor : Option Nat
  featureStoreManager : Option Nat
  userEventsManager : Option Nat
  background : Nat

namespace CommandCenter

def new : CommandCenter := ⟨none,⟨false,"","","","",[],[],[],false,0⟩,false,none,("",""),none,none,none,none,0⟩

def serves (s : CommandCenter) : Call → Bool
  | .getInference => s.mlExecutor.isSome && s.featureStoreManager.isSome && s.userEventsManager.isSome
  | .exitInference | .getModelStatus | .getInputsForInferId => s.mlExecutor.isSome
  | .addEvent => s.userEventsManager.isSome
  | .writeLog | .writeMetric | .internetSwitchedOn => true

/- The pointers that initialize follows to load what is on the device: a plan goes through
the executor and the constructor of its model to create_preprocessor. -/
def loads (s : CommandCenter) : Bool :=
  (s.config.modelIds.isEmpty || s.resourceManager.isSome && s.mlExecutor.isSome && s.userEventsManager.isSome) &&
    (s.config.featureStores.isEmpty || s.resourceManager.isSome && s.featureStoreManager.isSome)

def works (s : CommandCenter) : Bool :=
  s.resourceManager.isSome && s.mlExecutor.isSome && s.featureStoreManager.isSome && s.userEventsManager.isSome

end CommandCenter

/- Where a thread is. `building`: so many of the statements of initialize are done. -/
inductive Phase where
  | outside
  | homing (homeDirectory : String) (config : Config)
  | parsing (config : Config)
  | trying (config : Config)
  | locked (config : Config)
  | building (done : Nat)
  | leaving (result : Option Int)
  | serving (call : Call)

def Phase.inside : Phase → Bool
  | .locked _ | .building _ | .leaving _ => true
  | _ => false

/- `logHome`: _logDirectory is `logs` below it. `opened`: the home directory of each file when
it is used. `results`: what the calls of initialize_nimblenet returned. `crashed`: a null
pointer was followed. -/
structure Process where
  center : CommandCenter
  homeDir : String
  logHome : String
  logDevice : String × String × Bool
  opened : List String
  made : Nat
  threads : Nat → Phase
  results : List Int
  crashed : Bool

namespace Process

def start : Process := ⟨.new,"","",("","",false),[],0,fun _ => .outside,[],false⟩

def goTo (s : Process) (thread : Nat) (p : Phase) : Process := {s with threads := Function.update s.threads thread p}

def ends (s : Process) (thread : Nat) (result : Int) : Process :=
  {s.goTo thread .outside with results := result :: s.results}

def build (s : Process) : Nat → Process
  | 0 => {s with center.metricsDirectory := some (s.homeDir ++ "/metrics"), opened := s.homeDir :: s.opened}
  | 1 => {s with center.metricsDevice := (s.center.config.deviceId,s.center.config.clientId)}
  | 2 => {s with center.resourceManager := some s.made, made := s.made + 1}
  | 3 => {s with center.mlExecutor := some s.made, made := s.made + 1}
  | 4 => {s with center.featureStoreManager := some s.made, made := s.made + 1}
  | 5 => {s with center.userEventsManager := some s.made, made := s.made + 1, opened := s.homeDir :: s.opened}
  | 6 => if s.center.config.modelIds = [] ∧ s.center.config.featureStores = [] then s
      else {s with opened := s.homeDir :: s.opened, crashed := !s.center.loads}
  | _ => {s with center.background := s.center.background + 1}

/- `throws`: the statement ends in an exception, and the guard gives the lock back. -/
def go (s : Process) (thread : Nat) (throws : Bool) : Phase → Option Process
  | .outside => none
  | .homing homeDirectory config => some ({s with homeDir := homeDirectory}.goTo thread (.parsing config))
  | .parsing config =>
      if config.valid then
        some ({s with logDevice := (config.deviceId,config.clientId,config.debug)}.goTo thread (.trying config))
      else some (s.ends thread 0)
  | .trying config =>
      if s.center.owner = none then some ({s with center.owner := some thread}.goTo thread (.locked config))
      else some (s.ends thread 0)
  | .locked config =>
      if s.center.initializeSuccess then some (s.goTo thread (.leaving (some 1)))
      else
        let s := {s with center.config := config}
        if config.valid then some (s.goTo thread (.building 0)) else some (s.goTo thread (.leaving (some 0)))
  | .building done =>
      if done < 8 then
        if throws then some (s.goTo thread (.leaving none)) else some ((s.build done).goTo thread (.building (done + 1)))
      else some ({s with center.initializeSuccess := true}.goTo thread (.leaving (some 1)))
  | .leaving none => some ({s with center.owner := none}.goTo thread .outside)
  | .leaving (some result) => some ({s with center.owner := none}.ends thread result)
  | .serving call => some ({s with crashed := !s.center.serves call}.goTo thread .outside)

end Process

inductive Action where
  | initializeNimblenet (thread : Nat) (homeDirectory : String) (config : Config) (initLogger : Bool)
  | serve (thread : Nat) (call : Call)
  | go (thread : Nat) (throws : Bool)
  | tasks (sendsLogs : Bool)
  | movesLog

/- `initLogger`: the log file is opened. `sendsLogs`: send_pending_logs of the logger comes to
the files of its directory. `movesLog`: write_log moves a full file away in there. -/
def step (s : Process) (a : Action) : Option Process :=
  if s.crashed then none
  else match a with
    | .initializeNimblenet thread homeDirectory config initLogger =>
        match s.threads thread with
        | .outside =>
            let s := {s with logHome := homeDirectory}
            if initLogger then some ({s with opened := homeDirectory :: s.opened}.goTo thread (.homing homeDirectory config))
            else some (s.ends thread 0)
        | _ => none
    | .serve thread call =>
        match s.threads thread with
        | .outside => if call.checks && !s.center.initializeSuccess then some s else some (s.goTo thread (.serving call))
        | _ => none
    | .go thread throws => s.go thread throws (s.threads thread)
    | .tasks sendsLogs =>
        if s.center.background = 0 then none
        else some {s with
          opened := s.homeDir :: if sendsLogs then s.logHome :: s.opened else s.opened
          crashed := !s.center.works}
    | .movesLog => if s.opened = [] then none else some {s with opened := s.logHome :: s.opened}

structure Made (center : CommandCenter) (done : Nat) : Prop where
  resourceManager : 3 ≤ done → center.resourceManager.isSome = true
  mlExecutor : 4 ≤ done → center.mlExecutor.isSome = true
  featureStoreManager : 5 ≤ done → center.featureStoreManager.isSome = true
  userEventsManager : 6 ≤ done → center.userEventsManager.isSome = true

structure Inv (s : Process) : Prop where
  owned : ∀ thread, (s.threads thread).inside = true → s.center.owner = some thread
  building : ∀ thread done, s.threads thread = .building done →
    s.center.initializeSuccess = false ∧ done ≤ 8 ∧ Made s.center done ∧ s.center.background = if done = 8 then 1 else 0
  waiting : s.center.initializeSuccess = false → s.center.background = 0 ∨ ∃ thread, s.threads thread = .building 8
  done : s.center.initializeSuccess = true → Made s.center 8 ∧ s.center.background = 1
  served : ∀ thread call, s.threads thread = .serving call → call.checks = true → s.center.initializeSuccess = true
  leaving : ∀ thread, s.threads thread = .leaving (some 1) → s.center.initializeSuccess = true
  told : 1 ∈ s.results → s.center.initializeSuccess = true

theorem madeSame {center other : CommandCenter} {done : Nat} (h : Made center done)
    (resourceManager : other.resourceManager = center.resourceManager) (mlExecutor : other.mlExecutor = center.mlExecutor)
    (featureStoreManager : other.featureStoreManager = center.featureStoreManager)
    (userEventsManager : other.userEventsManager = center.userEventsManager) : Made other done where
  resourceManager := by rw [resourceManager]; exact h.resourceManager
  mlExecutor := by rw [mlExecutor]; exact h.mlExecutor
  featureStoreManager := by rw [featureStoreManager]; exact h.featureStoreManager
  userEventsManager := by rw [userEventsManager]; exact h.userEventsManager

section Steps
variable {s next : Process} {thread : Nat} {p : Phase}

theorem startInv : Inv .start where
  owned _ inside := by simp [Process.start,Phase.inside] at inside
  building _ _ here := by simp [Process.start] at here
  waiting _ := .inl rfl
  done set := by simp [Process.start,CommandCenter.new] at set
  served _ _ here := by simp [Process.start] at here
  leaving _ here := by simp [Process.start] at here
  told member := by simp [Process.start] at member

theorem insideOnce (h : Inv s) {other : Nat} (here : (s.threads thread).inside = true)
    (there : (s.threads other).inside = true) : other = thread :=
  Option.some.inj ((h.owned other there).symm.trans (h.owned thread here))

theorem idleInside (h : Inv s) (inside : (s.threads thread).inside = true) (early : s.threads thread ≠ .building 8)
    (unset : s.center.initializeSuccess = false) : s.center.background = 0 := by
  refine (h.waiting unset).resolve_right (fun ⟨other,last⟩ => ?_)
  cases insideOnce h inside (by rw [last]; rfl : (s.threads other).inside = true)
  exact early last

theorem outsideInv (h : Inv s) (before : (s.threads thread).inside = false) (after : p.inside = false)
    (threads : next.threads = Function.update s.threads thread p) (center : next.center = s.center)
    (serves : ∀ call, p = .serving call → call.checks = true → s.center.initializeSuccess = true)
    (told : 1 ∈ next.results → 1 ∈ s.results) : Inv next := by
  have moved : ∀ other, (next.threads other).inside = true → other ≠ thread ∧ next.threads other = s.threads other := by
    intro other inside
    rw [threads,Function.update_apply] at inside ⊢
    split at inside
    · rw [after] at inside
      contradiction
    · rename_i apart
      exact ⟨apart,if_neg apart⟩
  constructor
  · intro other inside
    rw [(moved other inside).2] at inside
    rw [center]
    exact h.owned other inside
  · intro other done here
    rw [center]
    exact h.building other done ((moved other (by rw [here]; rfl)).2.symm.trans here)
  · intro unset
    rw [center] at unset ⊢
    refine (h.waiting unset).imp_right (fun ⟨other,last⟩ => ⟨other,?_⟩)
    have apart : other ≠ thread := by
      rintro rfl
      rw [last] at before
      contradiction
    rw [threads,Function.update_of_ne apart,last]
  · rw [center]
    exact h.done
  · intro other call here checks
    rw [center]
    rw [threads,Function.update_apply] at here
    split at here
    · exact serves call here checks
    · exact h.served other call here checks
  · intro other here
    rw [center]
    exact h.leaving other ((moved other (by rw [here]; rfl)).2.symm.trans here)
  · intro member
    rw [center]
    exact h.told (told member)

theorem insideInv (h : Inv s) (alone : ∀ other, other ≠ thread → (s.threads other).inside = false)
    (threads : next.threads = Function.update s.threads thread p) (quiet : ∀ call, p ≠ .serving call)
    (owned : p.inside = true → next.center.owner = some thread)
    (building : ∀ done, p = .building done → next.center.initializeSuccess = false ∧ done ≤ 8 ∧ Made next.center done ∧
      next.center.background = if done = 8 then 1 else 0)
    (waiting : next.center.initializeSuccess = false → next.center.background = 0 ∨ p = .building 8)
    (done : next.center.initializeSuccess = true → Made next.center 8 ∧ next.center.background = 1)
    (keeps : s.center.initializeSuccess = true → next.center.initializeSuccess = true)
    (leaving : p = .leaving (some 1) → next.center.initializeSuccess = true)
    (told : 1 ∈ next.results → next.center.initializeSuccess = true) : Inv next := by
  have only : ∀ other, (next.threads other).inside = true → other = thread ∧ p = next.threads other := by
    intro other inside
    rw [threads,Function.update_apply] at inside ⊢
    split at inside
    · rename_i same
      exact ⟨same,(if_pos same).symm⟩
    · rename_i apart
      rw [alone other apart] at inside
      contradiction
  constructor
  · intro other inside
    obtain ⟨rfl,same⟩ := only other inside
    exact owned (by rw [same]; exact inside)
  · intro other count here
    exact building count ((only other (by rw [here]; rfl)).2.trans here)
  · intro unset
    refine (waiting unset).imp_right (fun last => ⟨thread,?_⟩)
    rw [threads,Function.update_self,last]
  · exact done
  · intro other call here checks
    rw [threads,Function.update_apply] at here
    split at here
    · exact absurd here (quiet call)
    · exact keeps (h.served other call here checks)
  · intro other here
    exact leaving ((only other (by rw [here]; rfl)).2.trans here)
  · exact told

theorem endsInv (h : Inv s) (inside : (s.threads thread).inside = true) (early : s.threads thread ≠ .building 8)
    (threads : next.threads = Function.update s.threads thread p) (ended : p = .outside ∨ ∃ result, p = .leaving result)
    (same : next.center = {s.center with owner := next.center.owner, config := next.center.config})
    (owned : p.inside = true → next.center.owner = some thread)
    (leaving : p = .leaving (some 1) → s.center.initializeSuccess = true)
    (told : 1 ∈ next.results → s.center.initializeSuccess = true) : Inv next := by
  have alone : ∀ other, other ≠ thread → (s.threads other).inside = false :=
    fun other apart => Bool.not_eq_true _ ▸ fun there => apart (insideOnce h inside there)
  have success : next.center.initializeSuccess = s.center.initializeSuccess := by rw [same]
  have background : next.center.background = s.center.background := by rw [same]
  refine insideInv h alone threads ?_ owned ?_ (fun unset => .inl ?_) (fun set => ?_) success.trans
    (fun last => success.trans (leaving last)) (fun member => success.trans (told member))
  · rcases ended with rfl | ⟨result,rfl⟩ <;> simp
  · rcases ended with rfl | ⟨result,rfl⟩ <;> simp
  · exact background.trans (idleInside h inside early (success.symm.trans unset))
  · obtain ⟨all,running⟩ := h.done (success.symm.trans set)
    exact ⟨madeSame all (by rw [same]) (by rw [same]) (by rw [same]) (by rw [same]),background.trans running⟩

theorem buildMade {done : Nat} (few : done < 8) (h : Made s.center done) : Made (s.build done).center (done + 1) := by
  obtain ⟨resourceManager,mlExecutor,featureStoreManager,userEventsManager⟩ := h
  interval_cases done <;> constructor <;> intro later <;> simp_all [Process.build] <;> split <;> simp_all

theorem buildKeeps (s : Process) {done : Nat} (few : done < 8) : (s.build done).threads = s.threads ∧
    (s.build done).center.owner = s.center.owner ∧ (s.build done).results = s.results ∧
    (s.build done).center.initializeSuccess = s.center.initializeSuccess ∧
    (s.build done).center.background = s.center.background + (if done = 7 then 1 else 0) := by
  interval_cases done <;> simp only [Process.build] <;> split <;> simp_all

theorem buildAlive {done : Nat} (few : done < 8) (h : Made s.center done) (alive : s.crashed = false) :
    (s.build done).crashed = false := by
  obtain ⟨resourceManager,mlExecutor,featureStoreManager,userEventsManager⟩ := h
  interval_cases done <;> simp only [Process.build] <;> try exact alive
  split
  · exact alive
  · simp [CommandCenter.loads,resourceManager,mlExecutor,featureStoreManager,userEventsManager]

theorem goInv {throws : Bool} (h : Inv s) (taken : s.go thread throws (s.threads thread) = some next) : Inv next := by
  have alone : (s.threads thread).inside = true → ∀ other, other ≠ thread → (s.threads other).inside = false :=
    fun here other apart => Bool.not_eq_true _ ▸ fun there => apart (insideOnce h here there)
  cases here : s.threads thread with
  | outside =>
      rw [here] at taken
      contradiction
  | homing homeDirectory config =>
      rw [here] at taken
      cases taken
      exact outsideInv h (by rw [here]; rfl) rfl rfl rfl (fun _ same => by cases same) id
  | parsing config =>
      rw [here] at taken
      simp only [Process.go] at taken
      split at taken
      · cases taken
        exact outsideInv h (by rw [here]; rfl) rfl rfl rfl (fun _ same => by cases same) id
      · cases taken
        exact outsideInv h (by rw [here]; rfl) rfl rfl rfl (fun _ same => by cases same) (fun told => by
          simpa [Process.ends] using told)
  | trying config =>
      rw [here] at taken
      simp only [Process.go] at taken
      split at taken
      · rename_i unowned
        cases taken
        have none : ∀ other, (s.threads other).inside = false := fun other => by
          by_contra there
          rw [Bool.not_eq_false] at there
          rw [h.owned other there] at unowned
          contradiction
        refine insideInv h (fun other _ => none other) rfl (fun _ => by simp) (fun _ => rfl) (fun _ same => by cases same)
          ?_ (fun set => ⟨madeSame (h.done set).1 rfl rfl rfl rfl,(h.done set).2⟩) id (fun same => by cases same) h.told
        intro unset
        refine .inl ((h.waiting unset).resolve_right (fun ⟨other,last⟩ => ?_))
        have inside := none other
        rw [last] at inside
        contradiction
      · cases taken
        exact outsideInv h (by rw [here]; rfl) rfl rfl rfl (fun _ same => by cases same) (fun told => by
          simpa [Process.ends] using told)
  | locked config =>
      have inside : (s.threads thread).inside = true := by rw [here]; rfl
      have early : s.threads thread ≠ .building 8 := by rw [here]; simp
      rw [here] at taken
      simp only [Process.go] at taken
      split at taken
      · rename_i set
        cases taken
        exact endsInv h inside early rfl (.inr ⟨_,rfl⟩) rfl (fun _ => h.owned thread inside) (fun _ => set) h.told
      · rename_i unset
        rw [Bool.not_eq_true] at unset
        split at taken
        · cases taken
          have idle := idleInside h inside early unset
          refine insideInv h (alone inside) rfl (fun _ => by simp) (fun _ => h.owned thread inside) ?_
            (fun _ => .inl idle) (fun set => ?_) id (fun same => by cases same) h.told
          · rintro _ ⟨⟩
            exact ⟨unset,by decide,⟨by simp,by simp,by simp,by simp⟩,idle⟩
          · exact absurd (unset.symm.trans set) (by simp)
        · cases taken
          exact endsInv h inside early rfl (.inr ⟨_,rfl⟩) rfl (fun _ => h.owned thread inside) (fun last => by cases last) h.told
  | building done =>
      have inside : (s.threads thread).inside = true := by rw [here]; rfl
      obtain ⟨unset,few,made,background⟩ := h.building thread done here
      rw [here] at taken
      simp only [Process.go] at taken
      split at taken
      · rename_i early
        split at taken
        · cases taken
          have first : s.threads thread ≠ .building 8 := by
            rw [here]
            rintro ⟨⟩
            omega
          exact endsInv h inside first rfl (.inr ⟨_,rfl⟩) rfl (fun _ => h.owned thread inside) (fun last => by cases last) h.told
        · obtain ⟨threads,owner,results,success,ready⟩ := buildKeeps s early
          cases taken
          rw [background,if_neg (by omega)] at ready
          refine insideInv h (alone inside) (congrArg (Function.update · thread _) threads) (fun _ => by simp)
            (fun _ => owner.trans (h.owned thread inside)) ?_ (fun _ => ?_) (fun set => ?_) (fun set => success.trans set)
            (fun same => by cases same) (fun told => success.trans (h.told (results ▸ told)))
          · rintro _ ⟨⟩
            exact ⟨success.trans unset,by omega,buildMade early made,ready.trans (by split <;> split <;> omega)⟩
          · by_cases last : done = 7
            · exact .inr (by rw [last])
            · exact .inl (ready.trans (by rw [if_neg last]))
          · exact absurd ((success.trans unset).symm.trans set) (by simp)
      · have last : done = 8 := by omega
        cases taken
        subst last
        exact insideInv h (alone inside) rfl (fun _ => by simp) (fun _ => h.owned thread inside) (fun _ same => by cases same)
          (fun set => by cases set) (fun _ => ⟨madeSame made rfl rfl rfl rfl,background⟩) (fun _ => rfl) (fun _ => rfl)
          (fun _ => rfl)
  | leaving result =>
      have inside : (s.threads thread).inside = true := by rw [here]; rfl
      have early : s.threads thread ≠ .building 8 := by rw [here]; simp
      rw [here] at taken
      cases result with
      | none =>
          cases taken
          exact endsInv h inside early rfl (.inl rfl) rfl (fun outside => by cases outside) (fun last => by cases last) h.told
      | some result =>
          cases taken
          refine endsInv h inside early rfl (.inl rfl) rfl (fun outside => by cases outside) (fun last => by cases last)
            (fun told => ?_)
          rcases List.mem_cons.mp told with rfl | earlier
          · exact h.leaving thread here
          · exact h.told earlier
  | serving call =>
      rw [here] at taken
      cases taken
      exact outsideInv h (by rw [here]; rfl) rfl rfl rfl (fun _ same => by cases same) id

theorem stepInv (s : Process) (a : Action) (next : Process) (h : Inv s) (taken : step s a = some next) : Inv next := by
  unfold step at taken
  split at taken
  · contradiction
  cases a with
  | initializeNimblenet thread homeDirectory config initLogger =>
      dsimp only at taken
      split at taken
      · rename_i here
        split at taken
        · cases taken
          exact outsideInv h (by rw [here]; rfl) rfl rfl rfl (fun _ same => by cases same) id
        · cases taken
          exact outsideInv h (by rw [here]; rfl) rfl rfl rfl (fun _ same => by cases same) (fun told => by
            simpa [Process.ends] using told)
      · contradiction
  | serve thread call =>
      dsimp only at taken
      split at taken
      · rename_i here
        split at taken
        · cases taken
          exact h
        · rename_i allowed
          cases taken
          refine outsideInv h (by rw [here]; rfl) rfl rfl rfl (fun other same checks => ?_) id
          cases same
          simpa [checks] using allowed
      · contradiction
  | go thread throws => exact goInv h taken
  | tasks sendsLogs =>
      dsimp only at taken
      split at taken
      · contradiction
      · cases taken
        exact ⟨h.owned,h.building,h.waiting,h.done,h.served,h.leaving,h.told⟩
  | movesLog =>
      dsimp only at taken
      split at taken
      · contradiction
      · cases taken
        exact ⟨h.owned,h.building,h.waiting,h.done,h.served,h.leaving,h.told⟩

theorem runInv {before : Process} {actions : List Action} (start : Inv before) (ran : run step before actions = some s) : Inv s :=
  runInvariant step stepInv start ran

theorem goStays {throws : Bool} (h : Inv s) (set : s.center.initializeSuccess = true)
    (taken : s.go thread throws (s.threads thread) = some next) : {next.center with owner := s.center.owner} = s.center := by
  cases here : s.threads thread with
  | building done => exact absurd ((h.building thread done here).1.symm.trans set) (by simp)
  | locked config =>
      rw [here] at taken
      simp only [Process.go,set,if_true,Option.some.injEq] at taken
      rw [← taken]
      rfl
  | leaving result =>
      rw [here] at taken
      cases result <;> cases taken <;> rfl
  | outside =>
      rw [here] at taken
      contradiction
  | homing homeDirectory config =>
      rw [here] at taken
      cases taken
      rfl
  | serving call =>
      rw [here] at taken
      cases taken
      rfl
  | parsing config =>
      rw [here] at taken
      simp only [Process.go] at taken
      split at taken <;> cases taken <;> rfl
  | trying config =>
      rw [here] at taken
      simp only [Process.go] at taken
      split at taken <;> cases taken <;> rfl

theorem stepStays {a : Action} (h : Inv s) (set : s.center.initializeSuccess = true) (taken : step s a = some next) :
    {next.center with owner := s.center.owner} = s.center := by
  unfold step at taken
  split at taken
  · contradiction
  cases a with
  | initializeNimblenet thread homeDirectory config initLogger =>
      dsimp only at taken
      split at taken
      · split at taken <;> cases taken <;> rfl
      · contradiction
  | serve thread call =>
      dsimp only at taken
      split at taken
      · split at taken <;> cases taken <;> rfl
      · contradiction
  | go thread throws => exact goStays h set taken
  | tasks sendsLogs =>
      dsimp only at taken
      split at taken
      · contradiction
      · cases taken
        rfl
  | movesLog =>
      dsimp only at taken
      split at taken
      · contradiction
      · cases taken
        rfl

def Phase.pointerSet (center : CommandCenter) : Phase → Bool
  | .serving .getInputsForInferId => center.mlExecutor.isSome
  | _ => true

def Served (s : Process) : Action → Prop
  | .go thread _ => (s.threads thread).pointerSet s.center = true
  | _ => True

instance (s : Process) : (a : Action) → Decidable (Served s a)
  | .go thread _ => inferInstanceAs (Decidable ((s.threads thread).pointerSet s.center = true))
  | .initializeNimblenet _ _ _ _ | .serve _ _ | .tasks _ | .movesLog => inferInstanceAs (Decidable True)

theorem madeServes {center : CommandCenter} (h : Made center 8) (call : Call) : center.serves call = true := by
  have mlExecutor := h.mlExecutor (by omega)
  have featureStoreManager := h.featureStoreManager (by omega)
  have userEventsManager := h.userEventsManager (by omega)
  cases call <;> simp [CommandCenter.serves,mlExecutor,featureStoreManager,userEventsManager]

theorem madeWorks (h : Inv s) (running : s.center.background ≠ 0) : s.center.works = true := by
  have made : Made s.center 8 := by
    cases set : s.center.initializeSuccess with
    | true => exact (h.done set).1
    | false =>
        obtain ⟨thread,last⟩ := (h.waiting set).resolve_left running
        exact (h.building thread 8 last).2.2.1
  have resourceManager := made.resourceManager (by omega)
  have mlExecutor := made.mlExecutor (by omega)
  have featureStoreManager := made.featureStoreManager (by omega)
  have userEventsManager := made.userEventsManager (by omega)
  simp [CommandCenter.works,resourceManager,mlExecutor,featureStoreManager,userEventsManager]

theorem goCrashes {throws : Bool} (h : Inv s) (alive : s.crashed = false)
    (taken : s.go thread throws (s.threads thread) = some next) :
    next.crashed = false ↔ Served s (.go thread throws) := by
  cases here : s.threads thread with
  | serving call =>
      rw [here] at taken
      cases taken
      by_cases unchecked : call = .getInputsForInferId
      · subst unchecked
        simp [Process.goTo,Served,Phase.pointerSet,here,CommandCenter.serves]
      · have checks : call.checks = true := by cases call <;> simp_all [Call.checks]
        refine iff_of_true ?_ ?_
        · simp [Process.goTo,madeServes (h.done (h.served thread call here checks)).1 call]
        · cases call <;> simp_all [Served,Phase.pointerSet]
  | outside =>
      rw [here] at taken
      contradiction
  | homing homeDirectory config =>
      rw [here] at taken
      cases taken
      exact iff_of_true alive (by simp [Served,Phase.pointerSet,here])
  | parsing config =>
      rw [here] at taken
      simp only [Process.go] at taken
      split at taken <;> cases taken <;> exact iff_of_true alive (by simp [Served,Phase.pointerSet,here])
  | trying config =>
      rw [here] at taken
      simp only [Process.go] at taken
      split at taken <;> cases taken <;> exact iff_of_true alive (by simp [Served,Phase.pointerSet,here])
  | locked config =>
      rw [here] at taken
      simp only [Process.go] at taken
      refine iff_of_true ?_ (by simp [Served,Phase.pointerSet,here])
      split at taken
      · cases taken
        exact alive
      · split at taken <;> cases taken <;> exact alive
  | building done =>
      have made := (h.building thread done here).2.2.1
      rw [here] at taken
      simp only [Process.go] at taken
      refine iff_of_true ?_ (by simp [Served,Phase.pointerSet,here])
      split at taken
      · rename_i early
        split at taken
        · cases taken
          exact alive
        · cases taken
          exact buildAlive early made alive
      · cases taken
        exact alive
  | leaving result =>
      rw [here] at taken
      cases result <;> cases taken <;> exact iff_of_true alive (by simp [Served,Phase.pointerSet,here])

theorem stepCrashes {a : Action} (h : Inv s) (alive : s.crashed = false) (taken : step s a = some next) :
    next.crashed = false ↔ Served s a := by
  cases a with
  | go thread throws => exact goCrashes h alive (by simpa only [step,alive,Bool.false_eq_true,if_false] using taken)
  | initializeNimblenet thread homeDirectory config initLogger =>
      refine iff_of_true ?_ trivial
      simp only [step,alive,Bool.false_eq_true,if_false] at taken
      split at taken
      · split at taken <;> cases taken <;> rfl
      · contradiction
  | serve thread call =>
      refine iff_of_true ?_ trivial
      simp only [step,alive,Bool.false_eq_true,if_false] at taken
      split at taken
      · split at taken <;> cases taken <;> exact alive
      · contradiction
  | tasks sendsLogs =>
      refine iff_of_true ?_ trivial
      simp only [step,alive,Bool.false_eq_true,if_false] at taken
      split at taken
      · contradiction
      · rename_i running
        cases taken
        simp [madeWorks h running]
  | movesLog =>
      refine iff_of_true ?_ trivial
      simp only [step,alive,Bool.false_eq_true,if_false] at taken
      split at taken
      · contradiction
      · cases taken
        rfl

def Agrees (s : Process) : Prop := ∃ home, ∀ d ∈ s.opened, d = home

theorem agreesCons {home : String} (opened : next.opened = home :: s.opened) : Agrees next ↔ ∀ d ∈ s.opened, d = home := by
  rw [Agrees,opened]
  constructor
  · rintro ⟨other,same⟩ d member
    exact (same d (List.mem_cons_of_mem _ member)).trans (same home List.mem_cons_self).symm
  · exact fun same => ⟨home,List.forall_mem_cons.mpr ⟨rfl,same⟩⟩

theorem agreesUsed {home : String} (agrees : Agrees s) (used : home ∈ s.opened) : ∀ d ∈ s.opened, d = home := by
  obtain ⟨other,same⟩ := agrees
  exact fun d member => (same d member).trans (same home used).symm

def Phase.homed : Phase → Bool
  | .parsing _ | .trying _ | .locked _ | .building _ | .leaving _ => true
  | _ => false

structure Homed (s : Process) : Prop where
  named : ∀ thread home config, s.threads thread = .homing home config → home ∈ s.opened
  used : s.homeDir ∈ s.opened ∨ (s.center.background = 0 ∧ ∀ thread, (s.threads thread).homed = false)

theorem homedUsed (h : Homed s) (homed : (s.threads thread).homed = true) : s.homeDir ∈ s.opened :=
  h.used.resolve_right (fun idle => Bool.false_ne_true ((idle.2 thread).symm.trans homed))

theorem buildOpens {done : Nat} (early : done < 8) : (s.build done).homeDir = s.homeDir ∧
    ((s.build done).opened = s.opened ∨ (s.build done).opened = s.homeDir :: s.opened) := by
  by_cases unread : s.center.config.modelIds = [] ∧ s.center.config.featureStores = [] <;>
    interval_cases done <;> simp [Process.build,unread]

/- The directory that a call names, and the one that the logger has when its files are sent or
moved, is that of the files used before. -/
def SameHome (s : Process) : Action → Prop
  | .initializeNimblenet _ homeDirectory _ initLogger => initLogger = true → ∀ d ∈ s.opened, d = homeDirectory
  | .tasks sendsLogs => sendsLogs = true → ∀ d ∈ s.opened, d = s.logHome
  | .movesLog => ∀ d ∈ s.opened, d = s.logHome
  | _ => True

instance (s : Process) : (a : Action) → Decidable (SameHome s a)
  | .initializeNimblenet _ homeDirectory _ initLogger =>
      inferInstanceAs (Decidable (initLogger = true → ∀ d ∈ s.opened, d = homeDirectory))
  | .tasks sendsLogs => inferInstanceAs (Decidable (sendsLogs = true → ∀ d ∈ s.opened, d = s.logHome))
  | .movesLog => inferInstanceAs (Decidable (∀ d ∈ s.opened, d = s.logHome))
  | .go _ _ | .serve _ _ => inferInstanceAs (Decidable True)

theorem goAgrees {throws : Bool} (h : Homed s) (agrees : Agrees s)
    (taken : s.go thread throws (s.threads thread) = some next) : Agrees next := by
  cases here : s.threads thread with
  | building done =>
      have used : s.homeDir ∈ s.opened := homedUsed h (by rw [here]; rfl : (s.threads thread).homed = true)
      rw [here] at taken
      simp only [Process.go] at taken
      split at taken
      · rename_i early
        split at taken
        · cases taken
          exact agrees
        · cases taken
          rcases (buildOpens (s := s) early).2 with same | same
          · exact agrees.imp (fun home all => same ▸ all)
          · exact (agreesCons same).mpr (agreesUsed agrees used)
      · cases taken
        exact agrees
  | outside =>
      rw [here] at taken
      contradiction
  | homing homeDirectory config =>
      rw [here] at taken
      cases taken
      exact agrees
  | parsing config =>
      rw [here] at taken
      simp only [Process.go] at taken
      split at taken <;> cases taken <;> exact agrees
  | trying config =>
      rw [here] at taken
      simp only [Process.go] at taken
      split at taken <;> cases taken <;> exact agrees
  | locked config =>
      rw [here] at taken
      simp only [Process.go] at taken
      split at taken
      · cases taken
        exact agrees
      · split at taken <;> cases taken <;> exact agrees
  | leaving result =>
      rw [here] at taken
      cases result <;> cases taken <;> exact agrees
  | serving call =>
      rw [here] at taken
      cases taken
      exact agrees

theorem stepAgrees {a : Action} (h : Homed s) (agrees : Agrees s) (taken : step s a = some next) :
    Agrees next ↔ SameHome s a := by
  unfold step at taken
  split at taken
  · contradiction
  cases a with
  | go thread throws => exact iff_of_true (goAgrees h agrees taken) trivial
  | initializeNimblenet thread homeDirectory config initLogger =>
      dsimp only at taken
      split at taken
      · split at taken
        · rename_i opens
          cases taken
          simp only [SameHome,opens,forall_const]
          exact agreesCons rfl
        · rename_i fails
          cases taken
          exact iff_of_true agrees (fun opens => absurd opens fails)
      · contradiction
  | serve thread call =>
      refine iff_of_true ?_ trivial
      dsimp only at taken
      split at taken
      · split at taken <;> cases taken <;> exact agrees
      · contradiction
  | tasks sendsLogs =>
      dsimp only at taken
      split at taken
      · contradiction
      · rename_i running
        have used := h.used.resolve_right (fun idle => running idle.1)
        cases taken
        cases sendsLogs with
        | false => exact iff_of_true ((agreesCons rfl).mpr (agreesUsed agrees used)) (by simp [SameHome])
        | true =>
            simp only [SameHome,forall_const]
            constructor
            · rintro ⟨home,same⟩ d member
              have log := same s.logHome (by simp)
              exact (same d (by simp [member])).trans log.symm
            · intro same
              refine ⟨s.logHome,?_⟩
              simpa [same s.homeDir used] using same
  | movesLog =>
      dsimp only at taken
      split at taken
      · contradiction
      · cases taken
        exact agreesCons rfl

end Steps

section Opening

def phone (deviceId : String) : Config := ⟨true,deviceId,"app","https://host","secret",["ranker"],[],[],false,0⟩

def opening : List Action :=
  [.initializeNimblenet 0 "/a/" (phone "p") true,.initializeNimblenet 1 "/a/" (phone "q") true] ++
    List.replicate 4 (.go 0 false) ++ List.replicate 3 (.go 1 false) ++ List.replicate 10 (.go 0 false)

def again : List Action :=
  [.serve 0 .getInference,.initializeNimblenet 1 "/b/" (phone "q") true,.go 0 false] ++ List.replicate 5 (.go 1 false)

def refused : List Action := [.initializeNimblenet 1 "/b/" (phone "q") false]

end Opening

section Results
variable {s final : Process} {actions before after : List Action}

structure Once (s : Process) : Prop where
  alone : ∀ thread other, (s.threads thread).inside = true → (s.threads other).inside = true → other = thread
  background : s.center.background ≤ 1
  told : 1 ∈ s.results → s.center.initializeSuccess = true
  ready : s.center.initializeSuccess = true → Made s.center 8 ∧ s.center.background = 1

theorem initializesOnce (ran : run step .start actions = some s) : Once s := by
  have h := runInv startInv ran
  refine ⟨fun _ _ => insideOnce h,?_,h.told,h.done⟩
  cases set : s.center.initializeSuccess with
  | true => exact (h.done set).2.le
  | false =>
      rcases h.waiting set with idle | ⟨thread,last⟩
      · omega
      · exact (h.building thread 8 last).2.2.2.le

theorem openingOnce : ∃ s, run step .start opening = some s ∧ s.results = [1,0] ∧ Once s := by
  obtain ⟨s,ran,results⟩ : ∃ s, run step .start opening = some s ∧ s.results = [1,0] := ⟨_,rfl,by decide +kernel⟩
  exact ⟨s,ran,results,initializesOnce ran⟩

theorem initializedStays (reached : run step .start before = some s) (set : s.center.initializeSuccess = true)
    (ran : run step s after = some final) : {final.center with owner := s.center.owner} = s.center := by
  let Stays (next : Process) : Prop := Inv next ∧ next.center.initializeSuccess = true ∧
    {next.center with owner := s.center.owner} = s.center
  have preserved : ∀ middle a next, Stays middle → step middle a = some next → Stays next := by
    intro middle a next stays taken
    obtain ⟨h,set,same⟩ := stays
    have only := stepStays h set taken
    refine ⟨stepInv middle a next h taken,(congrArg CommandCenter.initializeSuccess only).trans set,?_⟩
    exact (congrArg (fun center : CommandCenter => {center with owner := s.center.owner}) only).trans same
  have kept : Stays final := runInvariant step preserved ⟨runInv startInv reached,set,rfl⟩ ran
  exact kept.2.2

theorem againStays : ∃ s final, run step .start opening = some s ∧ run step s again = some final ∧ final.results = [1,1,0] ∧
    {final.center with owner := s.center.owner} = s.center := by
  obtain ⟨s,final,reached,set,ran,results⟩ : ∃ s final, run step .start opening = some s ∧ s.center.initializeSuccess = true ∧
      run step s again = some final ∧ final.results = [1,1,0] := ⟨_,_,rfl,rfl,rfl,by decide +kernel⟩
  exact ⟨s,final,reached,ran,results,initializedStays reached set ran⟩

theorem servedIff (ran : run step .start actions = some s) :
    Always step (·.crashed = false) .start actions ↔ Guarded step Served .start actions :=
  alwaysIffGuarded (fun s a next h alive taken => ⟨stepInv s a next h taken,stepCrashes h alive taken⟩) startInv rfl ran

theorem openingServed : Always step (·.crashed = false) .start (opening ++ again ++ [.serve 2 .getInputsForInferId,.go 2 false]) ∧
    ¬ Always step (·.crashed = false) .start [.serve 2 .getInputsForInferId,.go 2 false] :=
  ⟨(servedIff rfl).mpr (by decide +kernel),fun alive => absurd ((servedIff rfl).mp alive) (by decide +kernel)⟩

end Results

end NimbleNet.Initialization
