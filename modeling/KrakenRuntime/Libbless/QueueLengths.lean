import KrakenRuntime.Libbless.LaunchPath

/- The queue lengths of libbless under any number of launching threads. Every thread goes
   through the stages of a launch (LaunchPath), whose accesses to the queue lengths, to
   current_priority and to the preemption flags are one step each; the credit gates and the
   driver call touch none of them and end when they like. A thread keeps a note of the
   priority that its last priority_queue_gate counted it at, which the code itself forgets
   when that function returns. -/
namespace QueueLengths
open Runs TimeGate LaunchPath

structure Launcher where
  stage : Stage := .idle
  entered : Option Priority := none
  deriving DecidableEq

/-- `pending` is the second store of urgent_request or urgent_clear. -/
structure State (n : ℕ) where
  front : Front
  currentPriority : Priority
  threads : Fin n → Launcher
  pending : Option Bool

inductive Action (n : ℕ) where
  | launch (i : Fin n)
  | step (i : Fin n)
  | prioritySet (p : Priority)
  | urgent (on : Bool)
  | urgentStore
  | pause (on : Bool)
  | route (limited : Bool)
  | reconf (gate : ℤ)
  deriving DecidableEq

variable {n : ℕ}

def Launcher.noted (t : Launcher) (priority : Priority) : Option Priority :=
  match t.stage with
  | .loadPriority _ => some priority
  | _ => t.entered

/-- One access of a thread; the credit gates and the driver call are one stay. -/
def access (f : Front) (priority : Priority) (t : Launcher) : Front × Launcher :=
  match t.stage with
  | .gated => (f, { t with stage := .donePriority .launched })
  | stage => ((advance f priority stage).1, ⟨(advance f priority stage).2, t.noted priority⟩)

def State.setThread (s : State n) (i : Fin n) (t : Launcher) : State n :=
  { s with threads := Function.update s.threads i t }

def next (s : State n) : Action n → Option (State n)
  | .launch i =>
    if (s.threads i).stage = .idle then some (s.setThread i ⟨.loadPriority .first, none⟩) else none
  | .step i =>
    if (s.threads i).stage = .idle then none
    else
      let moved := access s.front s.currentPriority (s.threads i)
      some ({ s with front := moved.1 }.setThread i moved.2)
  | .prioritySet p => if s.pending = none then some { s with currentPriority := p } else none
  | .urgent on =>
    if s.pending = none then
      some { s with front := { s.front with urgentPending := on }, pending := some on }
    else none
  | .urgentStore =>
    match s.pending with
    | none => none
    | some on => some { s with front := { s.front with preemptRequested := on }, pending := none }
  | .pause on =>
    if s.pending = none then some { s with front := { s.front with pauseMode := on } } else none
  | .route limited => some { s with front := { s.front with limited := limited } }
  | .reconf gate => some { s with front := { s.front with gate := gate } }

abbrev QueueStep : State n → Action n → State n → Prop := Fires next

def start (n : ℕ) (f : Front) (priority : Priority) : State n := ⟨f, priority, fun _ => {}, none⟩

def Launcher.insideAt (p : Priority) (t : Launcher) : Prop := t.stage ≠ .idle ∧ t.entered = some p

instance (p : Priority) (t : Launcher) : Decidable (t.insideAt p) := inferInstanceAs (Decidable (_ ∧ _))

def inside (s : State n) (p : Priority) : ℕ := (Threads.having (Launcher.insideAt p) s.threads).card

def counted : Stage → Bool
  | .idle => false
  | .loadPriority _ => false
  | .enqueue .. => false
  | .requeue .. => false
  | .doneZero .. => false
  | _ => true

def Launcher.countsAt (p : Priority) (t : Launcher) : ℕ :=
  if counted t.stage = true ∧ t.entered = some p then 1 else 0

def loadsDone : Stage → Bool
  | .donePriority _ => true
  | _ => false

/-- Each priority_queue_done loads the priority that the gate before it has counted. -/
def Matched (s : State n) : Action n → Prop
  | .step i =>
    loadsDone (s.threads i).stage = true → (s.threads i).entered = some s.currentPriority
  | _ => True

instance (s : State n) : ∀ a, Decidable (Matched s a)
  | .step _ => inferInstanceAs (Decidable (_ → _))
  | .launch _ | .prioritySet _ | .urgent _ | .urgentStore | .pause _ | .route _ | .reconf _ =>
    isTrue trivial

/-- The note of a thread says what the stage has still in hand. -/
def Launcher.Placed (t : Launcher) : Prop :=
  match t.stage with
  | .idle => True
  | .loadPriority _ => True
  | .enqueue _ p => t.entered = some p
  | .urgentTest _ p _ _ => t.entered = some p
  | .dequeue _ p _ => t.entered = some p
  | .requeue _ p _ => t.entered = some p
  | .doneSub _ p => t.entered = some p
  | .doneZero .. => False
  | _ => ∃ p, t.entered = some p

theorem addQueue_at (f : Front) (p q : Priority) (d : ℤ) :
    (f.addQueue p d).queueLen q = f.queueLen q + if q = p then d else 0 := by
  by_cases same : q = p
  · subst same
    simp [Front.addQueue]
  · simp [Front.addQueue, same]

def Counts (p : Priority) (stage : Stage) : Prop :=
  counted stage = true ∧ Launcher.Placed ⟨stage, some p⟩

theorem counts_afterQueue (c : Call) (p : Priority) : Counts p (afterQueue c) := by
  cases c <;> exact ⟨rfl, p, rfl⟩

theorem counts_afterUrgent (c : Call) (p : Priority) : Counts p (afterUrgent c p) := by
  unfold afterUrgent
  split
  · exact ⟨rfl, p, rfl⟩
  · exact counts_afterQueue c p

theorem counts_backgroundWait (c : Call) (waited : ℕ) (p : Priority) :
    Counts p (backgroundWait c waited) := by
  unfold backgroundWait
  generalize (if waited < 50 then waited + 1 else 0) = waited
  dsimp only
  split
  · exact counts_afterQueue c p
  · exact ⟨rfl, p, rfl⟩

structure Tallied (f : Front) (t : Launcher) (f' : Front) (t' : Launcher) : Prop where
  placed : t'.Placed
  moved : ∀ p, f'.queueLen p + t.countsAt p = f.queueLen p + t'.countsAt p

section Access
variable {f : Front} {priority p : Priority} {stage stage' : Stage}

theorem stay_tallied (into : counted stage = true) (after : Counts p stage') :
    Tallied f ⟨stage, some p⟩ f ⟨stage', some p⟩ := by
  refine ⟨after.2, ?_⟩
  intro q
  simp [Launcher.countsAt, into, after.1]

theorem enter_tallied (out : counted stage = false) (after : Counts p stage') :
    Tallied f ⟨stage, some p⟩ (f.addQueue p 1) ⟨stage', some p⟩ := by
  refine ⟨after.2, ?_⟩
  intro q
  by_cases same : q = p
  · subst same
    simp [addQueue_at, Launcher.countsAt, out, after.1]
  · simp [addQueue_at, Launcher.countsAt, same, Ne.symm same]

theorem leave_tallied (into : counted stage = true) (out : counted stage' = false)
    (placed : Launcher.Placed ⟨stage', some p⟩) :
    Tallied f ⟨stage, some p⟩ (f.addQueue p (-1)) ⟨stage', some p⟩ := by
  refine ⟨placed, ?_⟩
  intro q
  by_cases same : q = p
  · subst same
    simp [addQueue_at, Launcher.countsAt, out, into]
  · simp [addQueue_at, Launcher.countsAt, same, Ne.symm same]

end Access

theorem access_tallied {f : Front} {priority : Priority} {t : Launcher} (placed : t.Placed)
    (matched : loadsDone t.stage = true → t.entered = some priority)
    (enough : ∀ d p, t.stage = .doneSub d p → 0 < f.queueLen p) :
    Tallied f t (access f priority t).1 (access f priority t).2 := by
  obtain ⟨stage, entered⟩ := t
  cases stage with
  | idle => exact ⟨trivial, fun _ => rfl⟩
  | loadPriority c => exact ⟨rfl, fun _ => rfl⟩
  | enqueue c p =>
    cases placed
    apply enter_tallied rfl
    simp only [advance]
    split
    · exact counts_afterUrgent c p
    · exact ⟨rfl, rfl⟩
  | urgentTest c p waited stuck =>
    cases placed
    apply stay_tallied rfl
    simp only [advance]
    split
    · exact ⟨rfl, rfl⟩
    · exact counts_afterUrgent c p
  | dequeue c p waited =>
    cases placed
    exact leave_tallied rfl rfl rfl
  | requeue c p waited =>
    cases placed
    exact enter_tallied rfl ⟨rfl, rfl⟩
  | urgentLen c waited stuck =>
    obtain ⟨p, rfl⟩ := placed
    apply stay_tallied rfl
    simp only [advance]
    split
    · exact counts_backgroundWait c waited p
    · exact ⟨rfl, p, rfl⟩
  | backgroundLen c normal waited stuck =>
    obtain ⟨p, rfl⟩ := placed
    apply stay_tallied rfl
    simp only [advance]
    split
    · exact counts_backgroundWait c waited p
    · exact counts_afterQueue c p
  | loadRoute | loadGate stuck | loadPause stuck | loadPreempt | preemptPriority =>
    obtain ⟨p, rfl⟩ := placed
    apply stay_tallied rfl
    simp only [advance]
    split <;> exact ⟨rfl, p, rfl⟩
  | normalLen c waited stuck =>
    obtain ⟨p, rfl⟩ := placed
    exact stay_tallied rfl ⟨rfl, p, rfl⟩
  | gated =>
    obtain ⟨p, rfl⟩ := placed
    exact stay_tallied rfl ⟨rfl, p, rfl⟩
  | donePriority d =>
    cases matched rfl
    exact stay_tallied rfl ⟨rfl, rfl⟩
  | doneSub d p =>
    cases placed
    have positive := enough d p rfl
    -- the clamp against an underflow is not reached
    have returns : (access f priority ⟨.doneSub d p, some p⟩).2 = ⟨afterDone d, some p⟩ := by
      simp [access, advance, Launcher.noted, positive]
    rw [returns]
    apply leave_tallied rfl
    · cases d <;> rfl
    · cases d <;> trivial
  | doneZero d p => exact placed.elim

structure Kept (s : State n) : Prop where
  placed : ∀ i, (s.threads i).Placed
  tally : ∀ p, s.front.queueLen p = (Threads.total (Launcher.countsAt p) s.threads : ℕ)

theorem kept_of_same {s t : State n} (kept : Kept s) (threads : t.threads = s.threads)
    (lengths : t.front.queueLen = s.front.queueLen) : Kept t := by
  constructor
  · rw [threads]
    exact kept.placed
  · rw [threads, lengths]
    exact kept.tally

theorem moved_kept {s : State n} {i : Fin n} {f : Front} {t : Launcher} (kept : Kept s)
    (tallied : Tallied s.front (s.threads i) f t) : Kept ({ s with front := f }.setThread i t) := by
  constructor
  · intro j
    by_cases same : j = i
    · subst same
      simp only [State.setThread, Function.update_self]
      exact tallied.placed
    · simp only [State.setThread, Function.update_of_ne same]
      exact kept.placed j
  · intro p
    have total := Threads.total_update (Launcher.countsAt p) s.threads i t
    have moved := tallied.moved p
    have before := kept.tally p
    simp only [State.setThread]
    omega

theorem counted_positive {s : State n} (kept : Kept s) {i : Fin n} {d : Done} {p : Priority}
    (here : (s.threads i).stage = .doneSub d p) : 0 < s.front.queueLen p := by
  have entered : (s.threads i).entered = some p := by
    have placed := kept.placed i
    simpa [Launcher.Placed, here] using placed
  have own : (s.threads i).countsAt p = 1 := by
    simp [Launcher.countsAt, here, entered, counted]
  have part := Threads.le_total (Launcher.countsAt p) s.threads i
  have tally := kept.tally p
  omega

theorem step_kept {s t : State n} {a : Action n} (kept : Kept s) (matched : Matched s a)
    (step : QueueStep s a t) : Kept t := by
  cases a with
  | launch i =>
    simp only [Fires, next, Option.ite_none_right_eq_some, Option.some.injEq] at step
    obtain ⟨idle, rfl⟩ := step
    apply moved_kept (f := s.front) kept
    refine ⟨trivial, ?_⟩
    intro p
    simp [Launcher.countsAt, idle, counted]
  | step i =>
    simp only [Fires, next, Option.ite_none_left_eq_some, Option.some.injEq] at step
    obtain ⟨_, rfl⟩ := step
    apply moved_kept kept
    exact access_tallied (kept.placed i) matched fun d p here => counted_positive kept here
  | prioritySet p =>
    simp only [Fires, next, Option.ite_none_right_eq_some, Option.some.injEq] at step
    obtain ⟨_, rfl⟩ := step
    exact kept_of_same kept rfl rfl
  | urgent on | pause on =>
    simp only [Fires, next, Option.ite_none_right_eq_some, Option.some.injEq] at step
    obtain ⟨_, rfl⟩ := step
    exact kept_of_same kept rfl rfl
  | urgentStore =>
    simp only [Fires, next] at step
    split at step
    · cases step
    · cases step
      exact kept_of_same kept rfl rfl
  | route limited | reconf gate =>
    cases step
    exact kept_of_same kept rfl rfl

theorem total_le_inside (s : State n) (p : Priority) :
    Threads.total (Launcher.countsAt p) s.threads ≤ inside s p := by
  apply Threads.total_le_having
  intro t
  unfold Launcher.countsAt Launcher.insideAt
  split
  · rename_i counts
    have launching : t.stage ≠ .idle := by
      intro idle
      rw [idle] at counts
      cases counts.1
    simp [launching, counts.2]
  · exact Nat.zero_le _

theorem start_kept {f : Front} (empty : ∀ p, f.queueLen p = 0) (priority : Priority) :
    Kept (start n f priority) := by
  refine ⟨fun _ => trivial, ?_⟩
  intro p
  have none_counted : Threads.total (Launcher.countsAt p) (start n f priority).threads = 0 :=
    Threads.total_eq_zero fun _ => rfl
  rw [none_counted]
  exact empty p

/-- In every run in which each priority_queue_done loads the priority its thread was counted
    at, the queue lengths count threads that are inside a launch. -/
theorem queue_lengths_count_waiters {f : Front} (empty : ∀ p, f.queueLen p = 0)
    {priority : Priority} {t : State n} {labels : List (Action n)}
    (run : Run (Guarded Matched QueueStep) (start n f priority) labels t) :
    (∀ p, 0 ≤ t.front.queueLen p ∧ t.front.queueLen p ≤ inside t p) ∧
      ((∀ i, (t.threads i).stage = .idle) → ∀ p, t.front.queueLen p = 0) := by
  have kept : Kept t := by
    apply run_invariant Kept _ run (start_kept empty priority)
    rintro x a y kept ⟨matched, step⟩
    exact step_kept kept matched step
  constructor
  · intro p
    have tally := kept.tally p
    have bound := total_le_inside t p
    omega
  · intro idle p
    have none_counted : Threads.total (Launcher.countsAt p) t.threads = 0 := by
      apply Threads.total_eq_zero
      intro i
      simp [Launcher.countsAt, idle i, counted]
    rw [kept.tally p, none_counted]
    rfl

def steps (i : Fin 2) (k : ℕ) : List (Action 2) := List.replicate k (.step i)

/-- A launch that is preempted, waits and is let in again; after it has returned the
    priority changes and the other thread launches. -/
def preemptedThenBackground : List (Action 2) :=
  .launch 0 :: steps 0 5 ++ .urgent true :: .urgentStore :: steps 0 10 ++
    .urgent false :: .urgentStore :: steps 0 4 ++
    .prioritySet .background :: .launch 1 :: steps 1 8

theorem preempted_then_background_counted : ∃ t,
    Run (Guarded Matched QueueStep) (start 2 {} .normal) preemptedThenBackground t ∧
    t.front.queueLen .background = 1 ∧
    (∀ p, 0 ≤ t.front.queueLen p ∧ t.front.queueLen p ≤ inside t p) ∧
    ((∀ i, (t.threads i).stage = .idle) → ∀ p, t.front.queueLen p = 0) := by
  obtain ⟨t, run, reached⟩ := guarded_run_reaches Matched
    (fun t : State 2 => decide (t.front.queueLen .background = 1))
    (show (exec (guarding Matched next) (start 2 {} .normal) preemptedThenBackground).any _ = true by
      decide +kernel)
  exact ⟨t, run, of_decide_eq_true reached, queue_lengths_count_waiters (fun _ => rfl) run⟩

def changedInside : List (Action 1) :=
  .launch 0 :: List.replicate 8 (.step 0) ++ .prioritySet .urgent :: List.replicate 3 (.step 0)

theorem queue_length_leaks : ∃ t, Run QueueStep (start 1 {} .normal) changedInside t ∧
    (∀ i, (t.threads i).stage = .idle) ∧ t.front.queueLen .normal = 1 := by
  obtain ⟨t, run, reached⟩ := run_reaches
    (fun t : State 1 => decide ((∀ i, (t.threads i).stage = .idle) ∧ t.front.queueLen .normal = 1))
    (show (exec next (start 1 {} .normal) changedInside).any _ = true by decide +kernel)
  exact ⟨t, run, of_decide_eq_true reached⟩

end QueueLengths
