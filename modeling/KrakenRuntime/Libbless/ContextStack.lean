import KrakenRuntime.Libbless.Routing

/- The application's context stacks under ScopedCtxGuard (libbless.cpp), along every run of the
   routing. The guard pushes the context of its route and pops at the end of the call. It does
   not look at the answer of cuCtxPushCurrent, so that a refused push is followed by a pop too,
   which then takes a context of the application. -/
namespace Routing
open Runs
variable {n : ℕ}

def isOpen : PC → Bool
  | .driver _ pushed => pushed
  | .pop => true
  | _ => false

/-- The stack of a thread as its guard leaves it. -/
def own (t : Thread) : List Ctx := if isOpen t.pc then t.stack.tail else t.stack

def isRefused (g : Shared) (t : Thread) : Bool :=
  match t.pc with
  | .push _ none => true
  | .push _ (some c) => decide (c ∈ g.destroyed)
  | _ => false

def countRefused (s : State n) : Action n → (Fin n → ℕ) → Fin n → ℕ
  | .step i _, k => if isRefused s.shared (s.threads i) then Function.update k i (k i + 1) else k
  | _, k => k

def reconfigures : Action n → Bool
  | .command (.reconfSm _) => true
  | .command (.setLimitPct _) => true
  | _ => false

section Own
variable {g : Shared} {t : Thread} {answer : Bool}

theorem own_goto {pc : PC} (same : isOpen pc = isOpen t.pc) : own (t.goto pc) = own t := by
  simp only [own, Thread.goto, same]

theorem pushCurrent_refused {c : Call} {target : Option Ctx} (here : t.pc = .push c target)
    (refused : isRefused g t = true) : pushCurrent g target t.stack = t.stack := by
  cases target with
  | none => rfl
  | some c =>
    simp only [isRefused, here, decide_eq_true_eq] at refused
    simp [pushCurrent, refused]

theorem pushCurrent_taken {c : Call} {target : Option Ctx} (here : t.pc = .push c target)
    (taken : isRefused g t = false) : (pushCurrent g target t.stack).tail = t.stack := by
  cases target with
  | none => simp [isRefused, here] at taken
  | some c =>
    simp only [isRefused, here, decide_eq_false_iff_not] at taken
    simp [pushCurrent, taken]

/-- A refused push, and nothing else, costs the thread a context of its own. -/
theorem access_own :
    own (access g t answer).2 = (own t).drop (if isRefused g t then 1 else 0) := by
  cases here : t.pc with
  | push c target =>
    have closed : own t = t.stack := by simp [own, here, isOpen]
    have opened : own (access g t answer).2 = (pushCurrent g target t.stack).tail := by
      simp [access, here, own, isOpen]
    rw [closed, opened]
    cases refused : isRefused g t with
    | true => simp [pushCurrent_refused here refused]
    | false => simp [pushCurrent_taken here refused]
  | driver c pushed =>
    have pushes_nothing : isRefused g t = false := by simp [isRefused, here]
    rw [pushes_nothing]
    cases pushed <;> simp [access, here, own, isOpen, Thread.goto]
  | pop => simp [access, here, own, isOpen, isRefused]
  | idle => simp [access, here, isRefused]
  | checkQuota | testRoute | waitGate | loadApplied | getCurrent =>
    have pushes_nothing : isRefused g t = false := by simp [isRefused, here]
    rw [pushes_nothing]
    simp only [access, here]
    split <;> exact own_goto (by simp [here, isOpen])
  | storeAlloc | loadRoute | readCtx =>
    have pushes_nothing : isRefused g t = false := by simp [isRefused, here]
    rw [pushes_nothing]
    simp only [access, here]
    exact own_goto (by simp [here, isOpen])

end Own

section Steps
variable {s u : State n} {a : Action n} {currents : Fin n → List Ctx} {k : Fin n → ℕ}

/-- Every thread has what it came with, less its refused pushes. -/
def Accounted (currents : Fin n → List Ctx) (s : State n) (k : Fin n → ℕ) : Prop :=
  ∀ i, own (s.threads i) = (currents i).drop (k i)

theorem call_accounted (accounted : Accounted currents s k) {i : Fin n} {pc : PC}
    (shut : isOpen pc = false) (h : call s i pc = some u) : Accounted currents u k := by
  unfold call at h
  split at h
  · rename_i idle
    cases h
    intro j
    dsimp only
    by_cases same : j = i
    · subst same
      rw [Function.update_self, own_goto (by rw [idle, shut]; rfl)]
      exact accounted j
    · rw [Function.update_of_ne same]
      exact accounted j
  · cases h

theorem access_accounted (accounted : Accounted currents s k) (i : Fin n) (answer : Bool) :
    ∀ j, own (Function.update s.threads i (access s.shared (s.threads i) answer).2 j) =
      (currents j).drop (countRefused s (.step i answer) k j) := by
  intro j
  by_cases same : j = i
  · subst same
    rw [Function.update_self, access_own, accounted j, List.drop_drop, countRefused]
    split <;> simp
  · rw [Function.update_of_ne same, accounted j, countRefused]
    split
    · rw [Function.update_of_ne same]
    · rfl

theorem step_accounted (accounted : Accounted currents s k) (h : RouteStep s a u) :
    Accounted currents u (countRefused s a k) := by
  unfold RouteStep Fires at h
  cases a with
  | malloc i => exact call_accounted accounted rfl h
  | launch i => exact call_accounted accounted rfl h
  | step i answer =>
    simp only [next, Option.some.injEq] at h
    subst h
    exact access_accounted accounted i answer
  | command c =>
    simp only [next] at h
    split at h
    · cases h
      exact accounted
    · cases h
  | control answer =>
    simp only [next, Option.some.injEq] at h
    subst h
    exact accounted

def choseNull : PC → Bool
  | .loadApplied _ none => true
  | .getCurrent _ none => true
  | .push _ none => true
  | _ => false

def onlyRoutes : Control → Bool
  | .ready => true
  | .testAlloc _ => true
  | .storeRoute _ => true
  | _ => false

/-- What the driver needs to take every context that a guard pushes. -/
structure Takes (s : State n) : Prop where
  lives : s.shared.destroyed = []
  fallback : s.shared.ctxUnlimited.isSome = true
  control : onlyRoutes s.control = true
  chosen : ∀ i, choseNull (s.threads i).pc = false

theorem Takes.isRefused_false (takes : Takes s) (i : Fin n) :
    isRefused s.shared (s.threads i) = false := by
  have chosen := takes.chosen i
  unfold isRefused
  split
  · rename_i here
    rw [here] at chosen
    cases chosen
  · simp [takes.lives]
  · rfl

theorem target_isSome {g : Shared} (fallback : g.ctxUnlimited.isSome = true) (r : Route) :
    (target g r).isSome = true := by
  cases r with
  | unlimited => exact fallback
  | limited => simp [target, fallback]

theorem access_choseNull {g : Shared} {t : Thread} (answer : Bool)
    (fallback : g.ctxUnlimited.isSome = true) (chosen : choseNull t.pc = false) :
    choseNull (access g t answer).2.pc = false := by
  cases here : t.pc with
  | readCtx c r =>
    obtain ⟨ctx, found⟩ := Option.isSome_iff_exists.mp (target_isSome fallback r)
    simp [access, here, Thread.goto, found, choseNull]
  | loadApplied c target | getCurrent c target =>
    rw [here] at chosen
    simp only [access, here, Thread.goto]
    split
    · cases target <;> first | exact chosen | rfl
    · cases target <;> first | exact chosen | rfl
  | checkQuota | testRoute | waitGate | driver =>
    simp only [access, here, Thread.goto]
    split <;> rfl
  | idle => simp [access, here, choseNull]
  | _ => simp [access, here, Thread.goto, choseNull]

theorem Takes.one_thread (takes : Takes s) {i : Fin n} {g : Shared} {t : Thread}
    (lives : g.destroyed = s.shared.destroyed) (fallback : g.ctxUnlimited = s.shared.ctxUnlimited)
    (chosen : choseNull t.pc = false) :
    Takes { s with shared := g, threads := Function.update s.threads i t } where
  lives := lives.trans takes.lives
  fallback := by
    dsimp only
    rw [fallback]
    exact takes.fallback
  control := takes.control
  chosen := by
    intro j
    dsimp only
    by_cases same : j = i
    · subst same
      rw [Function.update_self]
      exact chosen
    · rw [Function.update_of_ne same]
      exact takes.chosen j

theorem call_takes (takes : Takes s) {i : Fin n} {pc : PC} (chosen : choseNull pc = false)
    (h : call s i pc = some u) : Takes u := by
  unfold call at h
  split at h
  · cases h
    exact takes.one_thread rfl rfl chosen
  · cases h

theorem advance_takes (takes : Takes s) (answer : Bool) :
    Takes { s with
      shared := (advance s.shared answer s.control).1
      control := (advance s.shared answer s.control).2 } := by
  have control := takes.control
  cases here : s.control with
  | ready => exact ⟨takes.lives, takes.fallback, rfl, takes.chosen⟩
  | testAlloc r =>
    refine ⟨takes.lives, takes.fallback, ?_, takes.chosen⟩
    simp only [advance]
    split <;> rfl
  | storeRoute r => exact ⟨takes.lives, takes.fallback, rfl, takes.chosen⟩
  | _ =>
    rw [here] at control
    cases control

theorem step_takes (takes : Takes s) (quiet : reconfigures a = false)
    (h : RouteStep s a u) : Takes u := by
  unfold RouteStep Fires at h
  cases a with
  | malloc i => exact call_takes takes rfl h
  | launch i => exact call_takes takes rfl h
  | step i answer =>
    simp only [next, Option.some.injEq] at h
    subst h
    have same : SameRouting s.shared (access s.shared (s.threads i) answer).1 := access_same
    exact takes.one_thread same.destroyed same.unlimited
      (access_choseNull answer takes.fallback (takes.chosen i))
  | command c =>
    simp only [next] at h
    split at h
    · cases h
      refine ⟨takes.lives, takes.fallback, ?_, takes.chosen⟩
      cases c with
      | reconfSm | setLimitPct => cases quiet
      | _ => rfl
    · cases h
  | control answer =>
    simp only [next, Option.some.injEq] at h
    subst h
    exact advance_takes takes answer

end Steps

/-- At every point of every run, between two calls or inside one, a thread has the contexts that
    it came with, less one for each of its refused pushes, under the one that its guard has
    pushed. Without a reconfiguration, and with an unlimited context to fall back on, no push is
    refused. -/
theorem contexts_given_back {limited unlimited : Bool} {totalSms initSms : ℤ}
    {currents : Fin n → List Ctx} {labels : List (Action n)} {x : State n × (Fin n → ℕ)}
    (run : Run (Watched countRefused RouteStep)
      (start limited unlimited totalSms initSms currents, fun _ => 0) labels x) :
    (∀ i, own (x.1.threads i) = (currents i).drop (x.2 i)) ∧
      (unlimited = true → (∀ a ∈ labels, reconfigures a = false) → ∀ i, x.2 i = 0) := by
  constructor
  · apply run_invariant (fun x : State n × (Fin n → ℕ) => Accounted currents x.1 x.2) _ run
    · intro i
      rfl
    · rintro ⟨s, k⟩ a ⟨u, k'⟩ accounted ⟨fires, counted⟩
      dsimp only at counted
      rw [counted]
      exact step_accounted accounted fires
  · intro fallback quiet
    have kept : Takes x.1 ∧ ∀ i, x.2 i = 0 := by
      apply run_invariant_of_labels (fun a : Action n => reconfigures a = false)
        (fun x : State n × (Fin n → ℕ) => Takes x.1 ∧ ∀ i, x.2 i = 0) _ run quiet
      · refine ⟨⟨rfl, ?_, rfl, fun _ => rfl⟩, fun _ => rfl⟩
        simp [start, fallback]
      · rintro ⟨s, k⟩ a ⟨u, k'⟩ quiet ⟨takes, none_lost⟩ ⟨fires, counted⟩
        dsimp only at counted none_lost
        refine ⟨step_takes takes quiet fires, ?_⟩
        intro i
        dsimp only
        rw [counted]
        cases a with
        | step j answer =>
          rw [countRefused, takes.isRefused_false j]
          exact none_lost i
        | _ => exact none_lost i
    exact kept.2

/-- The launch of `crossing`, to its end: its push of the destroyed context was refused. -/
def crossed : List (Action 2) := crossing ++ accesses 1 2

def rerouted : List (Action 2) :=
  [.launch 1] ++ accesses 1 7 ++ [.command .unlimited] ++ controls 2 ++ [.malloc 0] ++
    accesses 0 7

theorem contexts_given_back_or_lost :
    (∃ x : State 2 × (Fin 2 → ℕ), Run (Watched countRefused RouteStep)
      (start true true 100 50 fun _ => [7], fun _ => 0) crossed x ∧
        (x.1.threads 1).pc = .idle ∧ x.2 1 = 1 ∧ own (x.1.threads 1) = [7].drop 1) ∧
      ∃ x : State 2 × (Fin 2 → ℕ), Run (Watched countRefused RouteStep)
        (start true true 100 50 fun _ => [7], fun _ => 0) rerouted x ∧
          (x.1.threads 0).stack = [1, 7] ∧ own (x.1.threads 0) = [7] := by
  constructor
  · obtain ⟨x, run, checked⟩ := watched_run_reaches
      (fun x : State 2 × (Fin 2 → ℕ) => decide ((x.1.threads 1).pc = .idle ∧ x.2 1 = 1))
      (show (exec (watching countRefused next) (start true true 100 50 fun _ => [7], fun _ => 0)
        crossed).any _ = true by decide +kernel)
    obtain ⟨idle, lost⟩ := of_decide_eq_true checked
    have accounted := (contexts_given_back run).1 1
    rw [lost] at accounted
    exact ⟨x, run, idle, lost, accounted⟩
  · obtain ⟨x, run, checked⟩ := watched_run_reaches
      (fun x : State 2 × (Fin 2 → ℕ) => decide ((x.1.threads 0).stack = [1, 7]))
      (show (exec (watching countRefused next) (start true true 100 50 fun _ => [7], fun _ => 0)
        rerouted).any _ = true by decide +kernel)
    have kept := contexts_given_back run
    have accounted := kept.1 0
    rw [kept.2 rfl (by decide) 0] at accounted
    exact ⟨x, run, of_decide_eq_true checked, accounted⟩

end Routing
