import KrakenRuntime.Libbless.QueueLengths

/- What holds launches back in libbless: a preemption request against a process that is not
   URGENT, the reconf gate, and the pause of the LIMITED route. The controller relies on it that
   once one of them is up only those launches still reach the device that were already past its
   last test. The launches are those of cudaLaunchKernel and cuLaunchKernel; cudaGraphLaunch
   tests no barrier. The threads, the commands and their interleaving are those of
   QueueLengths. -/
namespace QueueLengths
open Runs TimeGate LaunchPath

inductive Barrier where
  | urgent
  | reconf
  | pause
  deriving DecidableEq

variable {n : ℕ}

/-- Both stores of urgent_request are done; a later one may be half done. -/
def Barrier.Up (s : State n) : Barrier → Prop
  | .urgent =>
    s.front.urgentPending = true ∧ s.front.preemptRequested = true ∧ s.currentPriority ≠ .urgent ∧
      s.pending ≠ some false
  | .reconf => s.front.gate ≠ 0 ∧ s.front.limited = true
  | .pause => s.front.pauseMode = true ∧ s.front.limited = true

def Barrier.Keeps : Barrier → Action n → Prop
  | .urgent, .urgent on => on = true
  | .urgent, .prioritySet p => p ≠ .urgent
  | .reconf, .reconf gate => gate ≠ 0
  | .reconf, .route limited => limited = true
  | .pause, .pause on => on = true
  | .pause, .route limited => limited = true
  | _, _ => True

def letInAgain : Stage → Bool
  | .enqueue .again p => decide (p = .urgent)
  | .urgentLen .again _ _ => true
  | .normalLen .again _ _ => true
  | .backgroundLen .again _ _ _ => true
  | .gated => true
  | _ => false

def behindRoute : Stage → Bool
  | .loadPriority .again => true
  | .enqueue .again _ => true
  | .urgentTest .again .. => true
  | .dequeue .again .. => true
  | .requeue .again .. => true
  | .loadPreempt => true
  | .preemptPriority => true
  | .donePriority .preempted => true
  | .doneSub .preempted _ => true
  | .doneZero .preempted _ => true
  | stage => letInAgain stage

/-- A thread at this stage can reach the driver without another test of the barrier. -/
def Barrier.past : Barrier → Stage → Bool
  | .urgent, stage => letInAgain stage
  | .reconf, .loadPause _ => true
  | .reconf, stage => behindRoute stage
  | .pause, stage => behindRoute stage

def Barrier.pastThreads (b : Barrier) (s : State n) : Finset (Fin n) :=
  Threads.having (fun t : Launcher => b.past t.stage = true) s.threads

def Barrier.pastNow (b : Barrier) (t : Launcher) : ℕ := if b.past t.stage then 1 else 0

def launches (s : State n) : Action n → (Fin n → ℕ) → Fin n → ℕ
  | .step i, k => if (s.threads i).stage = .gated then Function.update k i (k i + 1) else k
  | _, k => k

instance (s : State n) (b : Barrier) : Decidable (b.Up s) := by
  cases b <;> dsimp only [Barrier.Up] <;> infer_instance

section Stages
variable {f : Front} {priority : Priority} {stage : Stage}

theorem backgroundWait_first (waited : ℕ) : letInAgain (backgroundWait .first waited) = false ∧
    behindRoute (backgroundWait .first waited) = false := by
  unfold backgroundWait
  generalize (if waited < 50 then waited + 1 else 0) = waited
  dsimp only
  split <;> exact ⟨rfl, rfl⟩

theorem afterUrgent_first (p : Priority) : letInAgain (afterUrgent .first p) = false ∧
    behindRoute (afterUrgent .first p) = false := by
  unfold afterUrgent
  split <;> exact ⟨rfl, rfl⟩

theorem advance_letInAgain (pending : f.urgentPending = true) (preempt : f.preemptRequested = true)
    (lower : priority ≠ .urgent) (out : letInAgain stage = false) :
    letInAgain (advance f priority stage).2 = false := by
  cases stage with
  | loadPriority c => cases c <;> simp [advance, letInAgain, lower]
  | enqueue c p =>
    cases c with
    | first =>
      simp only [advance]
      split
      · exact (afterUrgent_first p).1
      · rfl
    | again =>
      have held : p ≠ .urgent := by simpa [letInAgain] using out
      simp [advance, held, letInAgain]
  | urgentTest c p waited stuck => simp [advance, pending, letInAgain]
  | urgentLen c waited stuck =>
    cases c with
    | first =>
      simp only [advance]
      split
      · exact (backgroundWait_first waited).1
      · rfl
    | again => cases out
  | backgroundLen c normal waited stuck =>
    cases c with
    | first =>
      simp only [advance]
      split
      · exact (backgroundWait_first waited).1
      · rfl
    | again => cases out
  | normalLen c waited stuck =>
    cases c with
    | first => rfl
    | again => cases out
  | loadRoute | loadGate | loadPause =>
    simp only [advance]
    split <;> rfl
  | loadPreempt => simp [advance, preempt, letInAgain]
  | preemptPriority => simp [advance, lower, letInAgain]
  | doneSub d p =>
    simp only [advance]
    split
    · rfl
    · cases d <;> rfl
  | doneZero d p => cases d <;> rfl
  | gated => cases out
  | idle | dequeue | requeue | donePriority => rfl

theorem advance_behindRoute (limited : f.limited = true)
    (paused : ∀ stuck, stage = .loadPause stuck → f.pauseMode = true)
    (out : behindRoute stage = false) : behindRoute (advance f priority stage).2 = false := by
  cases stage with
  | loadPriority c | dequeue c | requeue c | normalLen c =>
    cases c with
    | first => rfl
    | again => cases out
  | enqueue c p =>
    cases c with
    | first =>
      simp only [advance]
      split
      · exact (afterUrgent_first p).2
      · rfl
    | again => cases out
  | urgentTest c p waited stuck =>
    cases c with
    | first =>
      simp only [advance]
      split
      · rfl
      · exact (afterUrgent_first p).2
    | again => cases out
  | urgentLen c waited stuck | backgroundLen c normal waited stuck =>
    cases c with
    | first =>
      simp only [advance]
      split
      · exact (backgroundWait_first waited).2
      · rfl
    | again => cases out
  | loadRoute => simp [advance, limited, behindRoute, letInAgain]
  | loadGate stuck =>
    simp only [advance]
    split <;> rfl
  | loadPause stuck => simp [advance, paused stuck rfl, behindRoute, letInAgain]
  | donePriority d =>
    cases d with
    | preempted => cases out
    | launched => rfl
  | doneSub d p =>
    cases d with
    | preempted => cases out
    | launched =>
      simp only [advance]
      split <;> rfl
  | doneZero d p =>
    cases d with
    | preempted => cases out
    | launched => rfl
  | loadPreempt | preemptPriority | gated => cases out
  | idle => rfl

theorem past_reconf_eq_false : Barrier.reconf.past stage = false ↔
    (∀ stuck, stage ≠ .loadPause stuck) ∧ behindRoute stage = false := by
  cases stage <;> simp [Barrier.past]

theorem afterQueue_ne_loadPause (c : Call) (stuck : Bool) : afterQueue c ≠ .loadPause stuck := by
  cases c <;> exact Stage.noConfusion

theorem advance_ne_loadPause (closed : f.gate ≠ 0) (out : ∀ stuck, stage ≠ .loadPause stuck)
    (stuck : Bool) : (advance f priority stage).2 ≠ .loadPause stuck := by
  cases stage with
  | loadGate stuck => simp [advance, closed]
  | loadPause stuck => exact absurd rfl (out stuck)
  | loadRoute | loadPreempt | preemptPriority =>
    simp only [advance]
    split <;> exact Stage.noConfusion
  | enqueue c p =>
    simp only [advance, afterUrgent]
    split_ifs
    · exact Stage.noConfusion
    · exact afterQueue_ne_loadPause c stuck
    · exact Stage.noConfusion
  | urgentTest c p waited stuck =>
    simp only [advance, afterUrgent]
    split_ifs
    · exact Stage.noConfusion
    · exact Stage.noConfusion
    · exact afterQueue_ne_loadPause c _
  | urgentLen c waited stuck =>
    simp only [advance, backgroundWait]
    split_ifs
    all_goals first | exact Stage.noConfusion | exact afterQueue_ne_loadPause c _
  | backgroundLen c normal waited stuck =>
    simp only [advance, backgroundWait]
    split_ifs
    all_goals first | exact Stage.noConfusion | exact afterQueue_ne_loadPause c _
  | doneSub d p =>
    simp only [advance]
    split
    · exact Stage.noConfusion
    · cases d <;> exact Stage.noConfusion
  | doneZero d p => cases d <;> exact Stage.noConfusion
  | idle | loadPriority | dequeue | requeue | normalLen | donePriority | gated =>
    exact Stage.noConfusion

end Stages

theorem advance_past {b : Barrier} {s : State n} (up : b.Up s) {stage : Stage}
    (out : b.past stage = false) : b.past (advance s.front s.currentPriority stage).2 = false := by
  cases b with
  | urgent => exact advance_letInAgain up.1 up.2.1 up.2.2.1 out
  | reconf =>
    obtain ⟨before, out⟩ := past_reconf_eq_false.mp out
    refine past_reconf_eq_false.mpr ⟨advance_ne_loadPause up.1 before, ?_⟩
    exact advance_behindRoute up.2 (fun stuck here => absurd here (before stuck)) out
  | pause => exact advance_behindRoute up.2 (fun _ _ => up.1) out

theorem access_front (f : Front) (priority : Priority) (t : Launcher) :
    ∃ lengths, (access f priority t).1 = { f with queueLen := lengths } := by
  obtain ⟨stage, entered⟩ := t
  cases stage <;> exact ⟨_, rfl⟩

theorem access_past {b : Barrier} {s : State n} (up : b.Up s) {t : Launcher} (entered : t.stage ≠ .gated)
    (past : b.past (access s.front s.currentPriority t).2.stage = true) : b.past t.stage = true := by
  have moved : (access s.front s.currentPriority t).2.stage =
      (advance s.front s.currentPriority t.stage).2 := by
    unfold access
    split
    · rename_i here
      exact absurd here entered
    · rfl
  by_contra out
  rw [moved, advance_past up (Bool.eq_false_iff.mpr out)] at past
  cases past

section Threads
variable {b : Barrier} {s : State n} {i : Fin n} {t : Launcher}

theorem past_le (f : Front) (back : b.past t.stage = true → b.past (s.threads i).stage = true)
    (j : Fin n) :
    b.pastNow (({ s with front := f }.setThread i t).threads j) ≤ b.pastNow (s.threads j) := by
  by_cases same : j = i
  · subst same
    simp only [State.setThread, Function.update_self, Barrier.pastNow]
    by_cases now : b.past t.stage = true
    · simp [now, back now]
    · simp [now]
  · simp [State.setThread, Function.update_of_ne same]

theorem access_holds (up : b.Up s) (i : Fin n) (k : Fin n → ℕ) (j : Fin n) :
    launches s (.step i) k j + b.pastNow (({ s with
        front := (access s.front s.currentPriority (s.threads i)).1 }.setThread i
          (access s.front s.currentPriority (s.threads i)).2).threads j) ≤
      k j + b.pastNow (s.threads j) := by
  by_cases here : (s.threads i).stage = .gated
  · simp only [launches, here, if_true]
    by_cases same : j = i
    · subst same
      have before : b.past (s.threads j).stage = true := by
        rw [here]
        cases b <;> rfl
      have after : b.past (access s.front s.currentPriority (s.threads j)).2.stage = false := by
        simp only [access, here]
        cases b <;> rfl
      simp [State.setThread, Barrier.pastNow, before, after]
    · simp [State.setThread, Function.update_of_ne same]
  · have fewer := past_le (access s.front s.currentPriority (s.threads i)).1
      (access_past up here) j
    simp only [launches, here, if_false]
    omega

theorem pastThreads_card (b : Barrier) (s : State n) :
    (b.pastThreads s).card = ∑ j, b.pastNow (s.threads j) := Finset.card_filter _ _

end Threads

theorem step_holds {b : Barrier} {s t : State n} {a : Action n} (up : b.Up s) (keeps : b.Keeps a)
    (step : QueueStep s a t) (k : Fin n → ℕ) :
    b.Up t ∧ ∀ j, launches s a k j + b.pastNow (t.threads j) ≤ k j + b.pastNow (s.threads j) := by
  cases a with
  | launch i =>
    simp only [Fires, next, Option.ite_none_right_eq_some, Option.some.injEq] at step
    obtain ⟨_, rfl⟩ := step
    have back : b.past (.loadPriority .first) = true → b.past (s.threads i).stage = true := by
      cases b <;> exact Bool.noConfusion
    refine ⟨by cases b <;> exact up, ?_⟩
    exact fun j => Nat.add_le_add_left (past_le s.front back j) (k j)
  | step i =>
    simp only [Fires, next, Option.ite_none_left_eq_some, Option.some.injEq] at step
    obtain ⟨_, rfl⟩ := step
    refine ⟨?_, access_holds up i k⟩
    obtain ⟨lengths, same⟩ := access_front s.front s.currentPriority (s.threads i)
    rw [same]
    cases b <;> exact up
  | prioritySet p =>
    simp only [Fires, next, Option.ite_none_right_eq_some, Option.some.injEq] at step
    obtain ⟨_, rfl⟩ := step
    refine ⟨?_, fun _ => le_refl _⟩
    cases b with
    | urgent => exact ⟨up.1, up.2.1, keeps, up.2.2.2⟩
    | reconf => exact up
    | pause => exact up
  | urgent on =>
    simp only [Fires, next, Option.ite_none_right_eq_some, Option.some.injEq] at step
    obtain ⟨_, rfl⟩ := step
    refine ⟨?_, fun _ => le_refl _⟩
    cases b with
    | urgent =>
      cases keeps
      exact ⟨rfl, up.2.1, up.2.2.1, by simp⟩
    | reconf => exact up
    | pause => exact up
  | urgentStore =>
    simp only [Fires, next] at step
    split at step
    · cases step
    · rename_i on waiting
      cases step
      refine ⟨?_, fun _ => le_refl _⟩
      cases b with
      | urgent =>
        obtain ⟨pending, _, lower, kept⟩ := up
        rw [waiting] at kept
        refine ⟨pending, ?_, lower, by simp⟩
        cases on with
        | true => rfl
        | false => exact absurd rfl kept
      | reconf => exact up
      | pause => exact up
  | pause on =>
    simp only [Fires, next, Option.ite_none_right_eq_some, Option.some.injEq] at step
    obtain ⟨_, rfl⟩ := step
    refine ⟨?_, fun _ => le_refl _⟩
    cases b with
    | urgent => exact up
    | reconf => exact up
    | pause => exact ⟨keeps, up.2⟩
  | route limited =>
    cases step
    refine ⟨?_, fun _ => le_refl _⟩
    cases b with
    | urgent => exact up
    | reconf => exact ⟨up.1, keeps⟩
    | pause => exact ⟨up.1, keeps⟩
  | reconf gate =>
    cases step
    refine ⟨?_, fun _ => le_refl _⟩
    cases b with
    | urgent => exact up
    | reconf => exact ⟨keeps, up.2⟩
    | pause => exact up

/-- While a barrier stays up no thread launches that was not past it and none launches twice,
    and those that are still past it at the end have not launched. -/
theorem barrier_holds (b : Barrier) {s t : State n} {labels : List (Action n)} {k : Fin n → ℕ}
    (up : b.Up s)
    (run : Run (Watched launches (Guarded (fun _ => b.Keeps) QueueStep)) (s, fun _ => 0) labels (t, k)) :
    b.Up t ∧
      (∀ i, k i + (if i ∈ b.pastThreads t then 1 else 0) ≤
        if i ∈ b.pastThreads s then 1 else 0) ∧
      ∑ i, k i + (b.pastThreads t).card ≤ (b.pastThreads s).card := by
  have kept : b.Up t ∧ ∀ j, k j + b.pastNow (t.threads j) ≤ 0 + b.pastNow (s.threads j) := by
    refine run_invariant (fun y : State n × (Fin n → ℕ) =>
      b.Up y.1 ∧ ∀ j, y.2 j + b.pastNow (y.1.threads j) ≤ 0 + b.pastNow (s.threads j)) ?_ run
      ⟨up, fun _ => le_refl _⟩
    rintro x a y ⟨up, bound⟩ ⟨⟨keeps, step⟩, counted⟩
    obtain ⟨up', fewer⟩ := step_holds up keeps step x.2
    refine ⟨up', ?_⟩
    intro j
    rw [counted]
    exact (fewer j).trans (bound j)
  refine ⟨kept.1, ?_, ?_⟩
  · intro i
    have once := kept.2 i
    have before : i ∈ b.pastThreads s ↔ b.past (s.threads i).stage = true := Threads.mem_having _
    have after : i ∈ b.pastThreads t ↔ b.past (t.threads i).stage = true := Threads.mem_having _
    simp only [Barrier.pastNow, zero_add] at once
    simpa only [before, after] using once
  · rw [pastThreads_card, pastThreads_card, ← Finset.sum_add_distrib]
    apply Finset.sum_le_sum
    intro j _
    have once := kept.2 j
    omega

instance (b : Barrier) (a : Action n) : Decidable (b.Keeps a) := by
  cases b <;> cases a <;> dsimp only [Barrier.Keeps] <;> infer_instance

def requested : State 2 where
  front := Front.addQueue { urgentPending := true, preemptRequested := true } .normal 1
  currentPriority := .normal
  threads := Function.update (fun _ => {}) 0 ⟨.gated, some .normal⟩
  pending := none

def heldBack : List (Action 2) :=
  steps 0 3 ++ [.launch 0, .launch 1] ++ steps 1 9 ++ steps 0 9

theorem barrier_holds_requested : ∃ t k, Run (Watched launches
      (Guarded (fun _ => Barrier.urgent.Keeps) QueueStep)) (requested, fun _ => 0) heldBack (t, k) ∧
    k 0 = 1 ∧ (Barrier.urgent.pastThreads requested).card = 1 ∧
    Barrier.urgent.Up t ∧
    (∀ i, k i + (if i ∈ Barrier.urgent.pastThreads t then 1 else 0) ≤
      if i ∈ Barrier.urgent.pastThreads requested then 1 else 0) ∧
    ∑ i, k i + (Barrier.urgent.pastThreads t).card ≤
      (Barrier.urgent.pastThreads requested).card := by
  obtain ⟨⟨t, k⟩, run, once⟩ := watched_guarded_run_reaches (fun _ => Barrier.urgent.Keeps)
    (fun y : State 2 × (Fin 2 → ℕ) => decide (y.2 0 = 1))
    (show (exec (watching launches (guarding (fun _ => Barrier.urgent.Keeps) next))
      (requested, fun _ => 0) heldBack).any _ = true by decide +kernel)
  exact ⟨t, k, run, of_decide_eq_true once, by decide, barrier_holds .urgent (by decide) run⟩

end QueueLengths
