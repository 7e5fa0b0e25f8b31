import KrakenRuntime.Lib.Int64
import KrakenRuntime.Lib.Runs
import KrakenRuntime.Lib.Threads
import Mathlib.Logic.Function.Basic

/- Squads and shares in libbless (libbless.cpp): the part of cudaLaunchKernel and cuLaunchKernel
   between the credit gates and the driver call, which counts kernels and tells BLESS_MASTER that
   the share of a squad is used up, and the commands set_squad, set_share and squad_reset. Every
   atomic access is one step, and any number of threads and the control server interleave
   freely. A message is what snprintf gets. squad_prog is an int and kernel_seq a long long, and
   both wrap. -/
namespace Squad
open Runs Int32Word Int64Word
variable {n : ℕ}

structure Shared where
  kernelSeq : ℤ := 0
  squadSize : ℤ := 100
  squadProg : ℤ := 0
  shareQuota : ℤ := 0
  sdSent : ℤ := 0
  deriving DecidableEq

structure Message where
  sp : ℤ
  kseq : ℤ
  deriving DecidableEq

inductive PC where
  | outside
  | addSeq
  | addProg (kseq : ℤ)
  | loadSize (m : Message)
  | storeProg (m : Message)
  | loadQuota (m : Message)
  | exchangeSent (m : Message)
  | send (m : Message)
  deriving DecidableEq

/-- One access of a thread, and the message it sends. `master` says that master_fd is open. -/
def access (master : Bool) (g : Shared) : PC → Shared × PC × Option Message
  | .outside => (g, .outside, none)
  | .addSeq =>
    ({ g with kernelSeq := int64 (g.kernelSeq + 1) }, .addProg (int64 (g.kernelSeq + 1)), none)
  | .addProg kseq =>
    ({ g with squadProg := int32 (g.squadProg + 1) }, .loadSize ⟨int32 (g.squadProg + 1), kseq⟩,
      none)
  | .loadSize m => (g, if g.squadSize ≤ m.sp then .storeProg m else .loadQuota m, none)
  | .storeProg m => ({ g with squadProg := 0 }, .loadQuota m, none)
  | .loadQuota m =>
    (g, if 0 < g.shareQuota ∧ g.shareQuota ≤ m.sp then .exchangeSent m else .outside, none)
  | .exchangeSent m =>
    ({ g with sdSent := 1 }, if g.sdSent = 0 ∧ master then .send m else .outside, none)
  | .send m => (g, .outside, some m)

structure State (n : ℕ) where
  shared : Shared := {}
  threads : Fin n → PC := fun _ => .outside
  /-- The store to sd_sent with which set_share 0 and squad_reset end. -/
  clearing : Bool := false
  sent : List Message := []
  deriving DecidableEq

inductive Action (n : ℕ) where
  | launch (i : Fin n)
  | step (i : Fin n)
  | setSquad (k : ℤ)
  | setShare (q : ℤ)
  | squadReset
  | clear
  deriving DecidableEq

def next (master : Bool) (s : State n) : Action n → Option (State n)
  | .launch i =>
    if s.threads i = .outside then some { s with threads := Function.update s.threads i .addSeq }
    else none
  | .step i =>
    let moved := access master s.shared (s.threads i)
    some { s with
      shared := moved.1
      threads := Function.update s.threads i moved.2.1
      sent := moved.2.2.toList ++ s.sent }
  | .setSquad k =>
    if s.clearing then none
    else some (if 0 < k then { s with shared.squadSize := k } else s)
  | .setShare q =>
    if s.clearing then none
    else some (if 0 ≤ q then { s with shared.shareQuota := q, clearing := decide (q = 0) } else s)
  | .squadReset =>
    if s.clearing then none else some { s with shared.squadProg := 0, clearing := true }
  | .clear =>
    if s.clearing then some { s with shared.sdSent := 0, clearing := false } else none

abbrev SquadStep (master : Bool) : State n → Action n → State n → Prop := Fires (next master)

def clears (s : State n) : Action n → ℕ → ℕ
  | .clear, k => if s.shared.sdSent = 0 then k else k + 1
  | _, k => k

def sends : PC → ℕ
  | .send _ => 1
  | _ => 0

def room (g : Shared) : ℕ := if g.sdSent = 0 then 1 else 0

/-- The messages that were sent or are about to be, and the one that the next exchange makes. -/
def signals (s : State n) : ℕ := s.sent.length + Threads.total sends s.threads + room s.shared

theorem access_signals (g : Shared) (pc : PC) :
    (access true g pc).2.2.toList.length + sends (access true g pc).2.1 +
      room (access true g pc).1 = sends pc + room g := by
  cases pc with
  | exchangeSent m =>
    -- whoever finds the flag down takes the room that it gave
    by_cases down : g.sdSent = 0 <;> simp [access, room, sends, down]
  | loadSize m | loadQuota m =>
    simp only [access]
    split <;> rfl
  | outside | addSeq | addProg kseq | storeProg m => rfl
  | send m => rfl

theorem step_signals {s t : State n} {a : Action n} (step : SquadStep true s a t) (k : ℕ) :
    signals t + k = signals s + clears s a k := by
  cases a with
  | launch i =>
    simp only [Fires, next, Option.ite_none_right_eq_some, Option.some.injEq] at step
    obtain ⟨outside, rfl⟩ := step
    have total := Threads.total_update sends s.threads i .addSeq
    rw [outside] at total
    simp only [sends] at total
    simp only [signals, clears]
    omega
  | step i =>
    cases step
    have total := Threads.total_update sends s.threads i (access true s.shared (s.threads i)).2.1
    have moved := access_signals s.shared (s.threads i)
    simp only [signals, clears, List.length_append]
    omega
  | setSquad q | setShare q =>
    simp only [Fires, next, Option.ite_none_left_eq_some, Option.some.injEq] at step
    obtain ⟨_, rfl⟩ := step
    split <;> rfl
  | squadReset =>
    simp only [Fires, next, Option.ite_none_left_eq_some, Option.some.injEq] at step
    obtain ⟨_, rfl⟩ := step
    rfl
  | clear =>
    simp only [Fires, next, Option.ite_none_right_eq_some, Option.some.injEq] at step
    obtain ⟨_, rfl⟩ := step
    have lowered : room { s.shared with sdSent := 0 } = 1 := rfl
    simp only [signals, clears, lowered]
    by_cases down : s.shared.sdSent = 0
    · simp [room, down]
    · simp only [room, down, if_false]
      omega

/-- The master is told exactly once each time the flag goes up: over any stretch of a run every
    message is accounted for by a clearing of the raised flag, by the flag as it was found, or by
    a thread that had it in hand. -/
theorem share_signalled_once {s t : State n} {labels : List (Action n)} {k : ℕ}
    (run : Run (Watched clears (SquadStep true)) (s, 0) labels (t, k)) :
    t.sent.length + Threads.total sends t.threads + room t.shared =
      s.sent.length + Threads.total sends s.threads + room s.shared + k := by
  refine run_invariant (fun y : State n × ℕ => signals y.1 = signals s + y.2) ?_ run rfl
  rintro x a y bound ⟨step, counted⟩
  have moved := step_signals step x.2
  rw [counted]
  omega

/-- Two launches of a squad with a share of one kernel, a reset, and a third. -/
def twoSquads : List (Action 2) :=
  .setShare 1 :: .launch 0 :: .launch 1 :: List.replicate 6 (.step 0) ++
    List.replicate 5 (.step 1) ++ [.squadReset, .clear, .launch 1] ++ List.replicate 6 (.step 1)

theorem share_signalled_once_two_squads : ∃ t,
    Run (Watched clears (SquadStep true)) (({} : State 2), 0) twoSquads (t, 1) ∧
    t.sent = [⟨1, 3⟩, ⟨1, 1⟩] ∧
    t.sent.length + Threads.total sends t.threads + room t.shared =
      ({} : State 2).sent.length + Threads.total sends ({} : State 2).threads +
        room ({} : State 2).shared + 1 := by
  obtain ⟨⟨t, k⟩, run, reached⟩ := watched_run_reaches
    (fun y : State 2 × ℕ => decide (y.2 = 1 ∧ y.1.sent = [⟨1, 3⟩, ⟨1, 1⟩]))
    (show (exec (watching clears (next true)) (({} : State 2), 0) twoSquads).any _ = true by
      decide +kernel)
  obtain ⟨once, sent⟩ := of_decide_eq_true reached
  dsimp only at once sent
  subst once
  exact ⟨t, run, sent, share_signalled_once run⟩

/-- A thread whose count has reached `m` and that has not yet set the progress back. -/
def oversteps (m : ℤ) : PC → ℕ
  | .loadSize x => if m ≤ x.sp then 1 else 0
  | .storeProg x => if m ≤ x.sp then 1 else 0
  | _ => 0

def SizesWithin (m : ℤ) : Action n → Prop
  | .setSquad k => k ≤ m
  | _ => True

structure Bounded (m : ℤ) (s : State n) : Prop where
  size : s.shared.squadSize ≤ m
  nonneg : 0 ≤ s.shared.squadProg
  bound : s.shared.squadProg ≤ m - 1 + Threads.total (oversteps m) s.threads

theorem oversteps_total_le (m : ℤ) (threads : Fin n → PC) :
    Threads.total (oversteps m) threads ≤ n := by
  have one : ∀ i ∈ Finset.univ, oversteps m (threads i) ≤ 1 := by
    intro i _
    cases threads i with
    | loadSize x | storeProg x =>
      simp only [oversteps]
      split <;> omega
    | _ => exact Nat.zero_le 1
  have bound := Finset.sum_le_card_nsmul Finset.univ _ 1 one
  simpa [Threads.total] using bound

theorem access_bounded {m : ℤ} (positive : 1 ≤ m) {g : Shared} (size : g.squadSize ≤ m)
    (nonneg : 0 ≤ g.squadProg) {pc : PC} {others : ℕ}
    (bound : g.squadProg ≤ m - 1 + (others + oversteps m pc : ℕ)) (room : g.squadProg + 1 < 2 ^ 31)
    (master : Bool) :
    (access master g pc).1.squadSize ≤ m ∧ 0 ≤ (access master g pc).1.squadProg ∧
      (access master g pc).1.squadProg ≤
        m - 1 + (others + oversteps m (access master g pc).2.1 : ℕ) := by
  cases pc with
  | addProg kseq =>
    have kept : int32 (g.squadProg + 1) = g.squadProg + 1 := (int32_eq_iff (by omega)).mpr room
    simp only [access, oversteps, kept] at bound ⊢
    refine ⟨size, by omega, ?_⟩
    split <;> omega
  | loadSize x =>
    refine ⟨size, nonneg, ?_⟩
    simp only [access, oversteps] at bound ⊢
    -- a count of at least `m` is at least the size, whichever is loaded
    by_cases reached : g.squadSize ≤ x.sp
    · simpa [reached, oversteps] using bound
    · have below : ¬ m ≤ x.sp := by omega
      simpa [reached, below, oversteps] using bound
  | storeProg x =>
    refine ⟨size, le_refl 0, ?_⟩
    simp only [access]
    omega
  | loadQuota x | exchangeSent x =>
    refine ⟨size, nonneg, ?_⟩
    simp only [access]
    split <;> exact bound
  | outside | addSeq | send x => exact ⟨size, nonneg, bound⟩

theorem step_bounded {master : Bool} {m : ℤ} (positive : 1 ≤ m) (fits : m + n < 2 ^ 31)
    {s t : State n} {a : Action n} (bounded : Bounded m s) (within : SizesWithin m a)
    (step : SquadStep master s a t) : Bounded m t := by
  obtain ⟨size, nonneg, bound⟩ := bounded
  cases a with
  | launch i =>
    simp only [Fires, next, Option.ite_none_right_eq_some, Option.some.injEq] at step
    obtain ⟨outside, rfl⟩ := step
    have total := Threads.total_update (oversteps m) s.threads i .addSeq
    rw [outside] at total
    simp only [oversteps] at total
    refine ⟨size, nonneg, ?_⟩
    dsimp only
    omega
  | step i =>
    cases step
    -- what the other threads hold stays as it is
    have own := Threads.le_total (oversteps m) s.threads i
    obtain ⟨others, sum⟩ := Nat.exists_eq_add_of_le own
    have total := Threads.total_update (oversteps m) s.threads i
      (access master s.shared (s.threads i)).2.1
    have bound' : s.shared.squadProg ≤ m - 1 + (others + oversteps m (s.threads i) : ℕ) := by omega
    have most := oversteps_total_le m s.threads
    have room : s.shared.squadProg + 1 < 2 ^ 31 := by omega
    obtain ⟨size', nonneg', after⟩ := access_bounded positive size nonneg bound' room master
    refine ⟨size', nonneg', ?_⟩
    dsimp only
    omega
  | setSquad k =>
    simp only [Fires, next, Option.ite_none_left_eq_some, Option.some.injEq] at step
    obtain ⟨_, rfl⟩ := step
    split
    · exact ⟨within, nonneg, bound⟩
    · exact ⟨size, nonneg, bound⟩
  | setShare q =>
    simp only [Fires, next, Option.ite_none_left_eq_some, Option.some.injEq] at step
    obtain ⟨_, rfl⟩ := step
    split <;> exact ⟨size, nonneg, bound⟩
  | squadReset =>
    simp only [Fires, next, Option.ite_none_left_eq_some, Option.some.injEq] at step
    obtain ⟨_, rfl⟩ := step
    refine ⟨size, le_refl 0, ?_⟩
    dsimp only
    omega
  | clear =>
    simp only [Fires, next, Option.ite_none_right_eq_some, Option.some.injEq] at step
    obtain ⟨_, rfl⟩ := step
    exact ⟨size, nonneg, bound⟩

/-- The progress of a squad never passes the largest size by more than the threads that are about
    to set it back, and is below that size whenever no launch is under way, as long as the
    largest size and the threads together stay in the range of an int. -/
theorem squad_progress_bounded {master : Bool} {m : ℤ} {s t : State n} {labels : List (Action n)}
    (fits : m + n < 2 ^ 31) (size : s.shared.squadSize ≤ m)
    (progress : 0 ≤ s.shared.squadProg ∧ s.shared.squadProg < m)
    (run : Run (Guarded (fun _ => SizesWithin m) (SquadStep master)) s labels t) :
    0 ≤ t.shared.squadProg ∧
      t.shared.squadProg ≤ m - 1 + Threads.total (oversteps m) t.threads ∧
      ((∀ i, t.threads i = .outside) → t.shared.squadProg < m) := by
  have positive : 1 ≤ m := by omega
  have start : Bounded m s := ⟨size, progress.1, by omega⟩
  have bounded : Bounded m t := by
    refine run_invariant (Bounded m) ?_ run start
    rintro x a y bounded ⟨within, step⟩
    exact step_bounded positive fits bounded within step
  refine ⟨bounded.nonneg, bounded.bound, ?_⟩
  intro outside
  have none : Threads.total (oversteps m) t.threads = 0 := by
    apply Threads.total_eq_zero
    intro i
    rw [outside i]
    rfl
  have bound := bounded.bound
  omega

instance (m : ℤ) : ∀ a : Action n, Decidable (SizesWithin m a)
  | .setSquad k => inferInstanceAs (Decidable (k ≤ m))
  | .launch _ | .step _ | .setShare _ | .squadReset | .clear => isTrue trivial

def overlapping : List (Action 2) :=
  [.setSquad 2, .launch 0, .step 0, .step 0, .step 0, .step 0, .launch 0, .step 0, .step 0,
    .launch 1, .step 1, .step 1]

theorem squad_progress_bounded_overlapping : ∃ t,
    Run (Guarded (fun _ => SizesWithin 2) (SquadStep false))
      { ({} : State 2) with shared.squadSize := 1 } overlapping t ∧
    t.shared.squadProg = 3 ∧ Threads.total (oversteps 2) t.threads = 2 ∧
    0 ≤ t.shared.squadProg ∧
    t.shared.squadProg ≤ 2 - 1 + Threads.total (oversteps 2) t.threads ∧
    ((∀ i, t.threads i = .outside) → t.shared.squadProg < 2) := by
  obtain ⟨t, run, reached⟩ := guarded_run_reaches (fun _ => SizesWithin 2)
    (fun t : State 2 => decide (t.shared.squadProg = 3 ∧ Threads.total (oversteps 2) t.threads = 2))
    (show (exec (guarding (fun _ => SizesWithin 2) (next false))
      { ({} : State 2) with shared.squadSize := 1 } overlapping).any _ = true by decide +kernel)
  obtain ⟨three, two⟩ := of_decide_eq_true reached
  exact ⟨t, run, three, two, squad_progress_bounded (by decide) (by decide) (by decide) run⟩

end Squad
