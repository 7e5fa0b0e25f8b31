import KrakenRuntime.Libbless.KernelCredit
import KrakenRuntime.Libbless.TimeGate

/- How long a launch stays in the credit gates of libbless. Neither gate bounds the time, but a
   thread goes round only for a reason: it has loaded a credit that is used up, or somebody else
   has changed the credit under its compare-exchange. Every access of one thread is charged to
   the call it belongs to or to such a reason, whatever the other threads and the control server
   do meanwhile. Where gate_metrics_on is set a thread records its wait on its way out, which is not
   counted here (Measurements). -/
namespace TimeGate
open Runs
variable {n : ℕ}

/-- The most accesses a thread still makes before it is outside, unless it goes round. -/
def rank : PC → ℕ
  | .outside => 0
  | .kernelGate => 1
  | .batchStart => 1
  | .borrowUs _ => 2
  | .wcPass => 2
  | .waitCredit _ => 2
  | .borrowEvents _ => 3
  | .waitUnlimited _ => 3
  | .loadPeerIdleAt .. => 4
  | .readNow _ => 5
  | .loadPeerIdle _ => 6
  | .loadWcOn _ => 7
  | .wakeLimit _ => 8
  | .wakePriority _ => 9
  | .loadMetrics _ => 10
  | .subCredit .. => 11
  | .wcExtra .. => 11
  | .chargeUnlimited .. => 12
  | .storeAvg .. => 13
  | .loadAvg .. => 14
  | .addTotal .. => 15
  | .charge _ => 16
  | .denied _ => 17
  | .syncMode => 17
  | .loadLimit _ => 18
  | .loadPriority _ => 19
  | .loadCredit => 20
  | .loadUnlimited => 21
  | .loadBoost => 22
  | .loadMode => 23

def exhausted (g : Shared) : PC → ℕ
  | .waitCredit wakeAt => if g.timeCreditUs ≤ wakeAt then 1 else 0
  | _ => 0

structure Tally where
  calls : ℕ := 0
  accesses : ℕ := 0
  exhausted : ℕ := 0
  deriving DecidableEq

def watch (i : Fin n) (s : State n) : Action n → Tally → Tally
  | .launch j, k => if j = i then { k with calls := k.calls + 1 } else k
  | .synchronize j, k => if j = i then { k with calls := k.calls + 1 } else k
  | .step j, k =>
    if j = i ∧ (s.threads i).pc ≠ .outside then
      { k with
        accesses := k.accesses + 1
        exhausted := k.exhausted + exhausted s.shared (s.threads i).pc }
    else k
  | _, k => k

theorem access_rank (g : Shared) {t : Thread} (inside : t.pc ≠ .outside) :
    1 + rank (access g t).2.pc ≤ rank t.pc + 6 * exhausted g t.pc := by
  obtain ⟨pc, start, count, riding⟩ := t
  cases pc with
  | outside => exact absurd rfl inside
  | charge k | chargeUnlimited elapsedUs k =>
    simp only [access, Thread.goto, Thread.reset]
    cases k <;> split_ifs <;> simp only [resume, rank] <;> omega
  | wcExtra elapsedUs k | subCredit elapsedUs k =>
    simp only [access, Thread.reset]
    cases k <;> simp only [resume, rank] <;> omega
  | wakePriority credit | wakeLimit credit =>
    simp only [access, Thread.goto, loopTest]
    split_ifs <;> simp only [rank] <;> omega
  | waitCredit wakeAt =>
    simp only [access, Thread.goto, loopTest, exhausted]
    split_ifs <;> simp only [rank] <;> omega
  | loadMode | loadBoost | loadUnlimited | loadCredit | loadPriority credit | loadLimit credit
  | loadWcOn wakeAt | loadPeerIdle wakeAt | loadPeerIdleAt wakeAt nowUs | waitUnlimited wakeAt
  | syncMode =>
    simp only [access, Thread.goto]
    split_ifs <;> simp only [rank] <;> omega
  | kernelGate | borrowEvents credit | borrowUs credit | denied credit | loadMetrics credit
  | addTotal elapsedUs k
  | loadAvg elapsedUs k | storeAvg elapsedUs oldAvg k | readNow wakeAt | wcPass | batchStart =>
    simp only [access, Thread.goto, rank]
    omega

def Paid (first : ℕ) (i : Fin n) (s : State n) (k : Tally) : Prop :=
  k.accesses + rank (s.threads i).pc ≤ first + 23 * k.calls + 6 * k.exhausted

theorem step_paid {first : ℕ} {i : Fin n} {s t : State n} {k : Tally} {a : Action n}
    (paid : Paid first i s k) (step : TimeStep s a t) : Paid first i t (watch i s a k) := by
  have same : t.threads i = s.threads i → watch i s a k = k → Paid first i t (watch i s a k) := by
    intro threads tally
    rw [tally, Paid, threads]
    exact paid
  cases a with
  | launch j | synchronize j =>
    simp only [Fires, next, Option.ite_none_right_eq_some, Option.some.injEq] at step
    obtain ⟨outside, rfl⟩ := step
    by_cases own : j = i
    · subst own
      rw [Paid, outside] at paid
      simp only [Paid, watch, if_true, Function.update_self, Thread.goto, rank] at paid ⊢
      omega
    · exact same (by simp [Ne.symm own]) (by simp [watch, own])
  | step j =>
    cases step
    by_cases own : j = i
    · subst own
      by_cases inside : (s.threads j).pc = .outside
      · have still : (access s.shared (s.threads j)).2 = s.threads j := by simp [access, inside]
        exact same (by simp [still]) (by simp [watch, inside])
      · have lower := access_rank s.shared inside
        rw [Paid] at paid
        simp only [Paid, watch, ne_eq, inside, not_false_eq_true, and_self, if_true,
          Function.update_self]
        omega
    · exact same (by simp [Ne.symm own]) (by simp [watch, own])
  | command c =>
    simp only [Fires, next, Option.ite_none_right_eq_some, Option.some.injEq] at step
    obtain ⟨_, rfl⟩ := step
    exact same rfl rfl
  | control =>
    simp only [Fires, next] at step
    split at step
    · cases step
    · cases step
      exact same rfl rfl
    · cases step
      exact same rfl rfl
  | tick us =>
    cases step
    exact same rfl rfl

/-- A thread in the time-credit gate goes round for want of credit and for nothing else: over any
    stretch of a run it makes at most 23 accesses a call and six more each time the credit it loads
    is used up. -/
theorem waits_for_credit (i : Fin n) {s t : State n} {labels : List (Action n)} {k : Tally}
    (run : Run (Watched (watch i) TimeStep) (s, {}) labels (t, k)) :
    k.accesses + rank (t.threads i).pc ≤
      rank (s.threads i).pc + 23 * k.calls + 6 * k.exhausted := by
  refine run_invariant (fun y : State n × Tally => Paid (rank (s.threads i).pc) i y.1 y.2) ?_ run ?_
  · rintro x a y paid ⟨step, tally⟩
    rw [tally]
    exact step_paid paid step
  · simp [Paid]

/-- A launch finds the credit used up, goes round once and gets in after a time_add. -/
def roundOnce : List (Action 1) :=
  .command (.timeMode 1) :: .command (.timeCredit 0) :: .control :: .launch 0 ::
    List.replicate 11 (.step 0) ++ .command (.timeAdd 5) :: List.replicate 4 (.step 0)

theorem waits_for_credit_round_once : ∃ t,
    Run (Watched (watch 0) TimeStep) ((⟨{}, fun _ => {}, .ready⟩ : State 1), {}) roundOnce
      (t, ⟨1, 15, 1⟩) ∧
    (t.threads 0).pc = .outside ∧ 15 + rank (t.threads 0).pc ≤ 0 + 23 * 1 + 6 * 1 := by
  obtain ⟨⟨t, k⟩, run, reached⟩ := watched_run_reaches
    (fun y : State 1 × Tally => decide (y.2 = ⟨1, 15, 1⟩ ∧ (y.1.threads 0).pc = .outside))
    (show (exec (watching (watch 0) next) ((⟨{}, fun _ => {}, .ready⟩ : State 1), {})
      roundOnce).any _ = true by decide +kernel)
  obtain ⟨tally, out⟩ := of_decide_eq_true reached
  dsimp only at tally out
  subst tally
  exact ⟨t, run, out, waits_for_credit 0 run⟩

end TimeGate

namespace KernelGate
open Runs
variable {n : ℕ}

def rank : PC → ℕ
  | .outside => 0
  | .loadBoost => 4
  | .loadCredit => 3
  | .loadCur _ => 2
  | .exchange .. => 1

def stale (g : Shared) : PC → ℕ
  | .exchange cur _ => if g.creditRemain = cur then 0 else 1
  | _ => 0

def exhausted (g : Shared) : PC → ℕ
  | .loadCur _ => if g.creditRemain = 0 then 1 else 0
  | _ => 0

/-- The calls and accesses of one thread, and what can send it round: exhausted credits, spurious
    failures, and changes of the credit that are not its own. -/
structure Tally where
  calls : ℕ := 0
  accesses : ℕ := 0
  exhausted : ℕ := 0
  spurious : ℕ := 0
  changes : ℕ := 0
  deriving DecidableEq

def watch (i : Fin n) (s : State n) : Action n → Tally → Tally
  | .launch j, k => if j = i then { k with calls := k.calls + 1 } else k
  | .step j spurious, k =>
    if j = i then
      if (s.threads i).pc = .outside then k
      else
        { k with
          accesses := k.accesses + 1
          exhausted := k.exhausted + exhausted s.shared (s.threads i).pc
          spurious := k.spurious + spurious.toNat }
    else if (access s.shared (s.threads j) spurious).1.creditRemain = s.shared.creditRemain then k
    else { k with changes := k.changes + 1 }
  | .command c, k =>
    if (command s.shared c).creditRemain = s.shared.creditRemain then k
    else { k with changes := k.changes + 1 }

theorem access_rank (g : Shared) {t : Thread} (inside : t.pc ≠ .outside) (spurious : Bool) :
    1 + rank (access g t spurious).2.pc + 2 * stale (access g t spurious).1 (access g t spurious).2.pc ≤
      rank t.pc + 2 * stale g t.pc + exhausted g t.pc + 2 * spurious.toNat := by
  obtain ⟨pc, burst⟩ := t
  cases pc with
  | outside => exact absurd rfl inside
  | loadBoost | loadCredit =>
    simp only [access, Thread.goto]
    split_ifs <;> simp only [rank, stale] <;> omega
  | loadCur waited =>
    simp only [access, Thread.goto, exhausted]
    split_ifs <;> simp only [rank, stale, if_true] <;> omega
  | exchange cur waited =>
    -- a failure is spurious, or finds a credit that was changed
    by_cases same : g.creditRemain = cur
    · cases spurious <;> simp [access, Thread.goto, same, rank, stale, exhausted]
    · simp only [access, Thread.goto, same, false_and, if_false, rank, stale]
      omega

theorem stale_le_one (g : Shared) (pc : PC) : stale g pc ≤ 1 := by
  unfold stale
  split
  · split <;> decide
  · decide

theorem stale_congr {g g' : Shared} (same : g'.creditRemain = g.creditRemain) (pc : PC) :
    stale g' pc = stale g pc := by
  cases pc <;> simp [stale, same]

def Paid (first : ℕ) (i : Fin n) (s : State n) (k : Tally) : Prop :=
  k.accesses + rank (s.threads i).pc + 2 * stale s.shared (s.threads i).pc ≤
    first + 4 * k.calls + k.exhausted + 2 * k.spurious + 2 * k.changes

/-- What others do can make the credit that the thread has loaded stale, once a change. -/
theorem paid_of_others {first : ℕ} {i : Fin n} {s t : State n} {k : Tally} (paid : Paid first i s k)
    (threads : t.threads i = s.threads i) :
    Paid first i t (if t.shared.creditRemain = s.shared.creditRemain then k
      else { k with changes := k.changes + 1 }) := by
  rw [Paid] at paid
  split
  · rename_i same
    rw [Paid, threads, stale_congr same]
    exact paid
  · have bound := stale_le_one t.shared (s.threads i).pc
    rw [Paid, threads]
    dsimp only
    omega

theorem step_paid {first : ℕ} {i : Fin n} {s t : State n} {k : Tally} {a : Action n}
    (paid : Paid first i s k) (step : KernelStep s a t) : Paid first i t (watch i s a k) := by
  cases a with
  | launch j =>
    simp only [Fires, next, Option.ite_none_right_eq_some, Option.some.injEq] at step
    obtain ⟨outside, rfl⟩ := step
    by_cases own : j = i
    · subst own
      rw [Paid, outside] at paid
      simp only [Paid, watch, if_true, Function.update_self, Thread.goto, rank, stale] at paid ⊢
      omega
    · simpa [watch, own, Paid, Ne.symm own] using paid
  | step j spurious =>
    cases step
    by_cases own : j = i
    · subst own
      by_cases inside : (s.threads j).pc = .outside
      · simpa [watch, inside, Paid, access] using paid
      · have lower := access_rank s.shared inside spurious
        rw [Paid] at paid
        simp only [Paid, watch, if_true, inside, if_false, Function.update_self]
        omega
    · have others := paid_of_others (t := ⟨(access s.shared (s.threads j) spurious).1,
        Function.update s.threads j (access s.shared (s.threads j) spurious).2⟩) paid
        (by simp [Ne.symm own])
      simpa [watch, own] using others
  | command c =>
    cases step
    exact paid_of_others (t := { s with shared := command s.shared c }) paid rfl

/-- A thread in the kernel-credit gate makes at most four accesses a call, one more for each
    exhausted credit it loads, and two more for each spurious failure and each change of the
    credit by somebody else. -/
theorem retries_have_cause (i : Fin n) {s t : State n} {labels : List (Action n)} {k : Tally}
    (run : Run (Watched (watch i) KernelStep) (s, {}) labels (t, k)) :
    k.accesses + rank (t.threads i).pc + 2 * stale t.shared (t.threads i).pc ≤
      rank (s.threads i).pc + 2 * stale s.shared (s.threads i).pc + 4 * k.calls + k.exhausted +
        2 * k.spurious + 2 * k.changes := by
  refine run_invariant (fun y : State n × Tally =>
    Paid (rank (s.threads i).pc + 2 * stale s.shared (s.threads i).pc) i y.1 y.2) ?_ run ?_
  · rintro x a y paid ⟨step, tally⟩
    rw [tally]
    exact step_paid paid step
  · simp [Paid]

/-- Two threads load the same credit; the second loses the race once and fails once for nothing. -/
def lostRace : List (Action 2) :=
  .command (.creditSet 20) :: .launch 0 :: .launch 1 :: List.replicate 3 (.step 0 false) ++
    List.replicate 3 (.step 1 false) ++ [.step 0 false, .step 1 false, .step 1 false, .step 1 true,
      .step 1 false, .step 1 false]

theorem retries_have_cause_lost_race : ∃ t,
    Run (Watched (watch 1) KernelStep) (({} : State 2), {}) lostRace (t, ⟨1, 8, 0, 1, 2⟩) ∧
    t.shared.creditRemain = 0 ∧
    8 + rank (t.threads 1).pc + 2 * stale t.shared (t.threads 1).pc ≤
      0 + 2 * 0 + 4 * 1 + 0 + 2 * 1 + 2 * 2 := by
  obtain ⟨⟨t, k⟩, run, reached⟩ := watched_run_reaches
    (fun y : State 2 × Tally => decide (y.2 = ⟨1, 8, 0, 1, 2⟩ ∧ y.1.shared.creditRemain = 0))
    (show (exec (watching (watch 1) next) (({} : State 2), {}) lostRace).any _ = true by
      decide +kernel)
  obtain ⟨tally, left⟩ := of_decide_eq_true reached
  dsimp only at tally left
  subst tally
  exact ⟨t, run, left, retries_have_cause 1 run⟩

end KernelGate
