import KrakenRuntime.Gating.Budget
import KrakenRuntime.Gating.MutualExclusion
import Mathlib.Algebra.BigOperators.Group.Finset.Basic
import Mathlib.Algebra.Order.BigOperators.Group.Finset

/- The clock behind the times that the killer gate books (gating/stream_gate.cpp,
   timeslice/time_slice.cpp, timespec_diff_us of kraken_runtime.h). The accesses of the gate
   take the measured difference as an input; here it is the difference of two readings of
   CLOCK_MONOTONIC, taken where the source takes them, while the clock goes on between any two
   steps and is the same for all processes. -/
namespace Gate
open Runs

structure Timespec where
  tvSec : ℤ
  tvNsec : ℤ

def timespec (ns : ℕ) : Timespec := ⟨ns / 1000000000, ns % 1000000000⟩

def timespecDiffUs (start stop : Timespec) : ℤ :=
  (stop.tvSec - start.tvSec) * 1000000 + (stop.tvNsec - start.tvNsec).tdiv 1000

/-- Either part may be rounded towards zero, so that the difference is off by less than a
    microsecond to either side, but it is never negative. -/
theorem timespecDiffUs_bounds {a b : ℕ} (le : a ≤ b) :
    0 ≤ timespecDiffUs (timespec a) (timespec b) ∧
      1000 * timespecDiffUs (timespec a) (timespec b) < b - a + 1000 ∧
      b - a < 1000 * timespecDiffUs (timespec a) (timespec b) + 1000 := by
  simp only [timespecDiffUs, timespec]
  by_cases forward : (0 : ℤ) ≤ (b : ℤ) % 1000000000 - (a : ℤ) % 1000000000
  · rw [Int.tdiv_eq_ediv_of_nonneg forward]
    omega
  · have backward : (b : ℤ) % 1000000000 - (a : ℤ) % 1000000000 =
        -((a : ℤ) % 1000000000 - (b : ℤ) % 1000000000) := by omega
    rw [backward, Int.neg_tdiv, Int.tdiv_eq_ediv_of_nonneg (by omega)]
    omega

def PC.readsStart : PC → Bool
  | .waitLoop | .peerSpin _ | .killer => true
  | _ => false

def PC.readsStop : PC → Bool
  | .addWait | .peerAddWait _ | .killer => true
  | _ => false

/-- The clock, the readings that each process still has to use, the time between the readings it
    has used, and their number; the last field counts the killers of all tenants. -/
structure Watch where
  now : ℕ := 0
  start : ℕ → Option ℕ := fun _ => none
  stop : ℕ → Option ℕ := fun _ => none
  spent : ℕ → ℕ := fun _ => 0
  measured : ℕ → ℕ := fun _ => 0
  killers : ℕ := 0

namespace Watch

/-- A first reading, unless the loop has been entered before, or a second one. -/
def read (w : Watch) (my : ℕ) (pc : PC) : Option Watch :=
  match w.start my, w.stop my with
  | none, _ =>
    if pc.readsStart then some { w with start := Function.update w.start my (some w.now) } else none
  | some _, none =>
    if pc.readsStop then some { w with stop := Function.update w.stop my (some w.now) } else none
  | some _, some _ => none

/-- Both readings are there where the access measures, and `us` is their difference. -/
def Allows (w : Watch) (my us : ℕ) (pc : PC) : Prop :=
  (pc.readsStart = true → w.start my ≠ none) ∧
    (pc.readsStop = true → ∃ a ∈ w.start my, ∃ b ∈ w.stop my,
      (us : ℤ) = timespecDiffUs (timespec a) (timespec b))

instance (w : Watch) (my us : ℕ) (pc : PC) : Decidable (w.Allows my us pc) := by
  unfold Allows
  infer_instance

def book (w : Watch) (my : ℕ) (pc : PC) : Watch :=
  if pc.readsStop then
    { w with
      start := Function.update w.start my none
      stop := Function.update w.stop my none
      spent := Function.update w.spent my
        (w.spent my + ((w.stop my).getD 0 - (w.start my).getD 0))
      measured := Function.update w.measured my (w.measured my + 1)
      killers := if pc = .killer then w.killers + 1 else w.killers }
  else w

end Watch

inductive ClockAction where
  | passes (ns : ℕ)
  | reads (my : ℕ)
  | acts (a : Action)

def clockNext (round : ℚ → ℚ) (x : System × Watch) : ClockAction → Option (System × Watch)
  | .passes ns => some (x.1, { x.2 with now := x.2.now + ns })
  | .reads my => (x.2.read my (x.1.pc my)).map fun w => (x.1, w)
  | .acts (.step my us) =>
    if x.2.Allows my us (x.1.pc my) then
      (next round x.1 (.step my us)).map fun s => (s, x.2.book my (x.1.pc my))
    else none
  | .acts a => (next round x.1 a).map fun s => (s, x.2)

abbrev ClockStep (round : ℚ → ℚ) : System × Watch → ClockAction → System × Watch → Prop :=
  Fires (clockNext round)

def PC.unbooked : PC → ℕ
  | .deductRemain e => e
  | .addExec e => e
  | _ => 0

def execBooked (s : System) (i : ℕ) : ℤ := s.shm.exec i + (s.pc i).unbooked

def Shm.waited (m : Shm) (i : ℕ) : ℤ := (m.tenants i).totalWaitUs

/-- What the next access books of the `us` that it measures, as killer time and as wait. -/
def PC.killerUs (us : ℕ) : PC → ℕ
  | .killer => us
  | _ => 0

def PC.waitUs (us : ℕ) : PC → ℕ
  | .addWait => us
  | .peerAddWait _ => us
  | _ => 0

section Tick
variable {round : ℚ → ℚ} {s : System} {my us i : ℕ}

theorem tick_execBooked :
    execBooked (tick round s my us) my = execBooked s my + (s.pc my).killerUs us := by
  simp only [execBooked]
  rw [tick_pc_self]
  simp only [tick, apply_exec]
  cases s.pc my <;> simp only [access] <;> (try split_ifs) <;> simp [PC.unbooked, PC.killerUs]

theorem tick_execBooked_other (ne : i ≠ my) :
    execBooked (tick round s my us) i = execBooked s i := by
  rw [execBooked, execBooked, tick_exec_other ne, tick_pc_other _ _ _ _ ne]

theorem apply_waited (m : Shm) (w : Write) : (w.apply m).waited i =
    match w with
    | .addWait j us => if i = j then m.waited i + us else m.waited i
    | _ => m.waited i := by
  cases w <;> simp only [Write.apply, Shm.waited, setTenant_at] <;> split <;> rfl

theorem tick_waited :
    (tick round s my us).shm.waited my = s.shm.waited my + (s.pc my).waitUs us := by
  simp only [tick, apply_waited]
  cases s.pc my <;> simp only [access] <;> (try split_ifs) <;> simp [PC.waitUs]

theorem tick_waited_other (ne : i ≠ my) :
    (tick round s my us).shm.waited i = s.shm.waited i := by
  simp only [tick, apply_waited]
  cases s.pc my with
  | roundTriggerCas => by_cases held : s.shm.roundTriggerLock = true <;> simp [access, held]
  | storeRoundId j rid => by_cases last : s.shm.tenantCount ≤ j <;> simp [access, last]
  | addWait => simp [access, ne]
  | peerAddWait j => simp [access, ne]
  | _ => rfl

theorem booked_us (pc : PC) (us : ℕ) :
    pc.killerUs us + pc.waitUs us = if pc.readsStop then us else 0 := by
  cases pc <;> simp [PC.killerUs, PC.waitUs, PC.readsStop]

end Tick

def booked (s : System) (i : ℕ) : ℤ := execBooked s i + s.shm.waited i

section Steps
variable {round : ℚ → ℚ} {x y : System × Watch} {c : ClockAction} {i : ℕ}

theorem read_cases {w w' : Watch} {my : ℕ} {pc : PC} (h : w.read my pc = some w') :
    (w.start my = none ∧ pc.readsStart = true ∧
        w' = { w with start := Function.update w.start my (some w.now) }) ∨
      ∃ a, w.start my = some a ∧ w.stop my = none ∧
        w' = { w with stop := Function.update w.stop my (some w.now) } := by
  unfold Watch.read at h
  split at h
  · rename_i unread
    rw [Option.ite_none_right_eq_some] at h
    exact .inl ⟨unread, h.1, (Option.some.inj h.2).symm⟩
  · rename_i a first second
    rw [Option.ite_none_right_eq_some] at h
    exact .inr ⟨a, first, second, (Option.some.inj h.2).symm⟩
  · cases h

theorem read_start {w w' : Watch} {my : ℕ} {pc : PC} (read : w.read my pc = some w') {a : ℕ}
    (first : w'.start i = some a) :
    w.start i = some a ∨ (i = my ∧ pc.readsStart = true ∧ a = w.now) := by
  rcases read_cases read with ⟨_, starts, rfl⟩ | ⟨_, _, _, rfl⟩
  · by_cases here : i = my
    · subst here
      simp only [Function.update_self, Option.some.injEq] at first
      exact .inr ⟨rfl, starts, first.symm⟩
    · simp only [Function.update_of_ne here] at first
      exact .inl first
  · exact .inl first

theorem other_step {s t : System} {a : Action} (step : GateStep round s a t)
    (other : ∀ my us, a ≠ .step my us) (j : ℕ) :
    execBooked t j = execBooked s j ∧ t.shm.waited j = s.shm.waited j ∧
      (t.pc j = s.pc j ∨ (s.pc j = .outside ∧ t.pc j = .loadMode)) := by
  rcases step_cases step with ⟨my, _, _, outside, _, rfl⟩ | ⟨my, us, here, _⟩ |
    ⟨my, on, _, _, _, rfl⟩ | ⟨_, _, _, _, _, _, _, rfl⟩
  · by_cases here : j = my
    · subst here
      simp [execBooked, outside, PC.unbooked]
    · simp [execBooked, here]
  · exact absurd here (other my us)
  · refine ⟨?_, ?_, .inl rfl⟩
    · simp only [execBooked, setActive, Shm.exec, setTenant_at]
      split <;> rfl
    · simp only [setActive, Shm.waited, setTenant_at]
      split <;> rfl
  · exact ⟨rfl, rfl, .inl rfl⟩

theorem clockStep_cases (h : ClockStep round x c y) :
    (∃ ns, y = (x.1, { x.2 with now := x.2.now + ns })) ∨
    (∃ my w, x.2.read my (x.1.pc my) = some w ∧ y = (x.1, w)) ∨
    (∃ my us, c = .acts (.step my us) ∧ x.2.Allows my us (x.1.pc my) ∧
      GateStep round x.1 (.step my us) y.1 ∧ y.1 = tick round x.1 my us ∧
      y.2 = x.2.book my (x.1.pc my)) ∨
    (∃ a, c = .acts a ∧ (∀ my us, a ≠ .step my us) ∧ GateStep round x.1 a y.1 ∧ y.2 = x.2) := by
  unfold ClockStep Fires at h
  cases c with
  | passes ns => exact .inl ⟨ns, (Option.some.inj h).symm⟩
  | reads my =>
    simp only [clockNext, Option.map_eq_some_iff] at h
    obtain ⟨w, read, rfl⟩ := h
    exact .inr (.inl ⟨my, w, read, rfl⟩)
  | acts a =>
    cases a with
    | step my us =>
      simp only [clockNext, Option.ite_none_right_eq_some, Option.map_eq_some_iff] at h
      obtain ⟨allowed, s, step, rfl⟩ := h
      exact .inr (.inr (.inl ⟨my, us, rfl, allowed, step, (step_tick step).2.2, rfl⟩))
    | _ =>
      simp only [clockNext, Option.map_eq_some_iff] at h
      obtain ⟨s, step, rfl⟩ := h
      exact .inr (.inr (.inr ⟨_, rfl, nofun, step, rfl⟩))

structure Readings (w : Watch) (i : ℕ) : Prop where
  paired : w.start i = none → w.stop i = none
  start_le : ∀ a, w.start i = some a → a ≤ w.now
  stop_le : ∀ a b, w.start i = some a → w.stop i = some b → a ≤ b ∧ b ≤ w.now

theorem book_other {w : Watch} {my : ℕ} {pc : PC} (ne : i ≠ my) :
    (w.book my pc).start i = w.start i ∧ (w.book my pc).stop i = w.stop i ∧
      (w.book my pc).spent i = w.spent i ∧ (w.book my pc).measured i = w.measured i := by
  unfold Watch.book
  split <;> simp [ne]

theorem book_now (w : Watch) (my : ℕ) (pc : PC) : (w.book my pc).now = w.now := by
  unfold Watch.book
  split <;> rfl

theorem readings_of_same {w w' : Watch} (readings : Readings w i) (now : w.now ≤ w'.now)
    (start : w'.start i = w.start i) (stop : w'.stop i = w.stop i) : Readings w' i where
  paired unread := by
    rw [stop]
    exact readings.paired (start ▸ unread)
  start_le a first := (readings.start_le a (start ▸ first)).trans now
  stop_le a b first second := by
    obtain ⟨order, past⟩ := readings.stop_le a b (start ▸ first) (stop ▸ second)
    exact ⟨order, past.trans now⟩

theorem book_readings {w : Watch} {my : ℕ} {pc : PC} (readings : Readings w i) :
    Readings (w.book my pc) i := by
  by_cases here : i = my
  · subst here
    unfold Watch.book
    split
    · constructor <;> simp
    · exact readings
  · have same : (w.book my pc).start i = w.start i ∧ (w.book my pc).stop i = w.stop i ∧ _ :=
      book_other here
    exact readings_of_same readings (book_now w my pc).ge same.1 same.2.1

theorem read_readings {w w' : Watch} {my : ℕ} {pc : PC} (readings : Readings w i)
    (read : w.read my pc = some w') : Readings w' i := by
  by_cases here : i = my
  · subst here
    rcases read_cases read with ⟨unread, _, rfl⟩ | ⟨a, first, second, rfl⟩
    · have unstopped := readings.paired unread
      constructor <;> simp [unstopped]
    · have past := readings.start_le a first
      constructor <;> simp_all
  · rcases read_cases read with ⟨_, _, rfl⟩ | ⟨_, _, _, rfl⟩ <;>
      exact readings_of_same readings le_rfl (by simp [here]) (by simp [here])

theorem step_readings (readings : Readings x.2 i) (h : ClockStep round x c y) :
    Readings y.2 i := by
  rcases clockStep_cases h with ⟨ns, rfl⟩ | ⟨my, w, read, rfl⟩ | ⟨my, us, _, _, _, _, booked⟩ |
    ⟨_, _, _, _, same⟩
  · exact readings_of_same readings (Nat.le_add_right _ _) rfl rfl
  · exact read_readings readings read
  · rw [booked]
    exact book_readings readings
  · rw [same]
    exact readings

/-- What is booked for a tenant since `t₀` differs from the time between its readings by no more
    than a microsecond each, and these times do not overlap. -/
structure OnBooks (i : ℕ) (base : ℤ) (t₀ : ℕ) (x : System × Watch) : Prop where
  readings : Readings x.2 i
  close : |1000 * (booked x.1 i - base) - x.2.spent i| ≤ 1000 * x.2.measured i
  within : t₀ + x.2.spent i ≤ x.2.now
  before : ∀ a, x.2.start i = some a → t₀ + x.2.spent i ≤ a

variable {base : ℤ} {t₀ : ℕ}

theorem booked_tick {s : System} {my us : ℕ} : booked (tick round s my us) my =
    booked s my + if (s.pc my).readsStop then (us : ℤ) else 0 := by
  have sum := booked_us (s.pc my) us
  rw [booked, booked, tick_execBooked, tick_waited]
  by_cases stops : (s.pc my).readsStop = true
  · rw [if_pos stops] at sum ⊢
    omega
  · rw [if_neg stops] at sum ⊢
    omega

theorem booked_tick_other {s : System} {my us : ℕ} (ne : i ≠ my) :
    booked (tick round s my us) i = booked s i := by
  rw [booked, booked, tick_execBooked_other ne, tick_waited_other ne]

theorem onBooks_of_same (books : OnBooks i base t₀ x) (readings : Readings y.2 i)
    (now : x.2.now ≤ y.2.now) (same : booked y.1 i = booked x.1 i)
    (spent : y.2.spent i = x.2.spent i) (measured : y.2.measured i = x.2.measured i)
    (start : ∀ a, y.2.start i = some a → x.2.start i = some a ∨ a = x.2.now) :
    OnBooks i base t₀ y where
  readings := readings
  close := by
    rw [same, spent, measured]
    exact books.close
  within := by
    rw [spent]
    exact books.within.trans now
  before := by
    intro a first
    rw [spent]
    rcases start a first with old | new
    · exact books.before a old
    · rw [new]
      exact books.within

theorem book_onBooks {my us : ℕ} (books : OnBooks my base t₀ x)
    (stops : (x.1.pc my).readsStop = true) (allowed : x.2.Allows my us (x.1.pc my)) :
    OnBooks my base t₀ (tick round x.1 my us, x.2.book my (x.1.pc my)) := by
  obtain ⟨a, first, b, second, measured⟩ := allowed.2 stops
  obtain ⟨order, past⟩ := books.readings.stop_le a b first second
  obtain ⟨_, less, more⟩ := timespecDiffUs_bounds order
  have since := books.before a first
  have close := abs_le.mp books.close
  have spent : (x.2.book my (x.1.pc my)).spent my = x.2.spent my + (b - a) := by
    rw [Watch.book, if_pos stops, Option.mem_def.mp first, Option.mem_def.mp second]
    simp
  have times : (x.2.book my (x.1.pc my)).measured my = x.2.measured my + 1 := by
    rw [Watch.book, if_pos stops]
    simp
  have used : (x.2.book my (x.1.pc my)).start my = none := by
    rw [Watch.book, if_pos stops]
    simp
  refine ⟨book_readings books.readings, ?_, ?_, ?_⟩
  · dsimp only
    rw [booked_tick, if_pos stops, measured, spent, times, abs_le]
    push_cast [order]
    constructor <;> linarith [close.1, close.2]
  · dsimp only
    rw [spent, book_now]
    omega
  · dsimp only
    rw [used]
    exact nofun

theorem step_onBooks (books : OnBooks i base t₀ x) (h : ClockStep round x c y) :
    OnBooks i base t₀ y := by
  have readings := step_readings books.readings h
  rcases clockStep_cases h with ⟨ns, rfl⟩ | ⟨my, w, read, rfl⟩ |
    ⟨my, us, _, allowed, _, ticked, noted⟩ | ⟨a, _, other, step, same⟩
  · exact onBooks_of_same books readings (Nat.le_add_right _ _) rfl rfl rfl fun a => .inl
  · have start : ∀ a, w.start i = some a → x.2.start i = some a ∨ a = x.2.now := by
      intro a first
      exact (read_start read first).imp_right fun new => new.2.2
    rcases read_cases read with ⟨_, _, rfl⟩ | ⟨_, _, _, rfl⟩ <;>
      exact onBooks_of_same books readings le_rfl rfl rfl rfl start
  · have moved : y = (tick round x.1 my us, x.2.book my (x.1.pc my)) := Prod.ext ticked noted
    rw [moved] at readings ⊢
    by_cases here : i = my
    · subst here
      by_cases stops : (x.1.pc i).readsStop = true
      · exact book_onBooks books stops allowed
      · have unused : x.2.book i (x.1.pc i) = x.2 := by rw [Watch.book, if_neg stops]
        rw [unused] at readings ⊢
        refine onBooks_of_same books readings le_rfl ?_ rfl rfl fun a => .inl
        rw [booked_tick, if_neg stops, add_zero]
    · obtain ⟨start, _, spent, measured⟩ :=
        (book_other here : (x.2.book my (x.1.pc my)).start i = _ ∧ _)
      refine onBooks_of_same books readings (book_now _ _ _).ge (booked_tick_other here) spent
        measured fun a first => .inl (start ▸ first)
  · obtain ⟨exec, waited, _⟩ := other_step step other i
    refine onBooks_of_same books readings (same ▸ le_rfl) ?_ (same ▸ rfl) (same ▸ rfl)
      fun a first => .inl (same ▸ first)
    rw [booked, booked, exec, waited]

end Steps

/-- What total_exec_us and total_wait_us gain together is the time between the clock readings, up
    to a microsecond each, and no time is booked twice: together they gain no more than the time
    that has passed. -/
theorem books_follow_clock {round : ℚ → ℚ} {s : System} {t₀ : ℕ} {labels : List ClockAction}
    {y : System × Watch} (run : Run (ClockStep round) (s, { now := t₀ }) labels y) (i : ℕ) :
    |1000 * (booked y.1 i - booked s i) - y.2.spent i| ≤ 1000 * y.2.measured i ∧
      t₀ + y.2.spent i ≤ y.2.now := by
  have books : OnBooks i (booked s i) t₀ y := by
    apply run_invariant (OnBooks i (booked s i) t₀) _ run
    · exact ⟨⟨fun _ => rfl, nofun, nofun⟩, by simp, le_rfl, nofun⟩
    · intro x c y books step
      exact step_onBooks books step
  exact ⟨books.close, books.within⟩

def unmeasured (my k : ℕ) : List ClockAction := List.replicate k (.acts (.step my 0))

/-- A killer that runs for `ns` and is measured as `us`, with the accesses that book it. -/
def timedKiller (my ns us : ℕ) : List ClockAction :=
  [.reads my, .passes ns, .reads my, .acts (.step my us)] ++ unmeasured my 2

/-- The second of the two readings is in the next second of the clock, and the difference of 600
    nanoseconds is rounded up. -/
def nextSecond : List ClockAction :=
  .acts (.launch 0) :: unmeasured 0 3 ++ timedKiller 0 600 1

theorem books_follow_clock_next_second : ∃ y, Run (ClockStep id)
    (registered 1 .free fun _ => 0, { now := 999999500 }) nextSecond y ∧
    booked y.1 0 = 1 ∧ y.2.spent 0 = 600 ∧ y.2.measured 0 = 1 ∧
    |1000 * (booked y.1 0 - booked (registered 1 .free fun _ => 0) 0) - y.2.spent 0| ≤
      1000 * y.2.measured 0 := by
  obtain ⟨y, run, reached⟩ := run_reaches
    (fun y : System × Watch => decide (booked y.1 0 = 1 ∧ y.2.spent 0 = 600 ∧ y.2.measured 0 = 1))
    (show (exec (clockNext id) (registered 1 .free fun _ => 0, { now := 999999500 })
      nextSecond).any _ = true by decide +kernel)
  obtain ⟨sum, spent, measured⟩ := of_decide_eq_true reached
  exact ⟨y, run, sum, spent, measured, (books_follow_clock run 0).1⟩

/-- The condition for killers to exclude one another, on the accesses of the gate. -/
def ClockApart (x : System × Watch) : ClockAction → Prop
  | .acts a => a.keepsMode ∧ Apart x.1 a
  | _ => True

def PC.keepsStart : PC → Bool
  | .waitLoop | .allWaitingActive _ | .allWaitingGate _ | .roundTriggerCas | .reloadPolicy => true
  | .roundActive _ | .calcSlice .. | .rechargeRemain .. | .rechargeGate _ | .loadRoundId => true
  | .storeRoundId .. | .roundTriggerUnlock | .addWait | .peerSpin _ | .peerAddWait _ => true
  | .killer => true
  | _ => false

/-- Where the clock would stand if some tenants' killers since `t₀` had followed one another without
    a pause, each a microsecond shorter than it is booked. -/
def packed (S : Finset ℕ) (base : ℤ) (t₀ : ℕ) (x : System × Watch) : ℤ :=
  t₀ + 1000 * (∑ i ∈ S, execBooked x.1 i - base - x.2.killers)

/-- The clock stands there or later, and did so when the killer that now runs began. -/
structure InTurn (S : Finset ℕ) (base : ℤ) (t₀ : ℕ) (x : System × Watch) : Prop where
  steady : Steady x.1
  ordered : Ordered x.1
  readings : ∀ i, Readings x.2 i
  held : ∀ i a, x.2.start i = some a → (x.1.pc i).keepsStart = true
  within : packed S base t₀ x ≤ x.2.now
  before : ∀ i a, x.1.pc i = .killer → x.2.start i = some a → packed S base t₀ x ≤ a

section Turns
variable {round : ℚ → ℚ} {x y : System × Watch} {c : ClockAction} {S : Finset ℕ} {base : ℤ}
  {t₀ : ℕ}

theorem sum_tick_le {s : System} {my us : ℕ} :
    ∑ i ∈ S, execBooked (tick round s my us) i ≤
      ∑ i ∈ S, execBooked s i + (s.pc my).killerUs us := by
  by_cases member : my ∈ S
  · rw [← Finset.add_sum_erase S _ member, ← Finset.add_sum_erase S (execBooked s) member,
      tick_execBooked, Finset.sum_congr rfl fun i inside =>
        tick_execBooked_other (Finset.ne_of_mem_erase inside)]
    omega
  · have apart : ∀ i ∈ S, i ≠ my := by
      rintro i inside rfl
      exact member inside
    rw [Finset.sum_congr rfl fun i inside => tick_execBooked_other (apart i inside)]
    omega

theorem killer_alone (ordered : Ordered x.1) {u v : ℕ} (first : x.1.pc u = .killer)
    (second : (x.1.pc v).inKiller) : v = u := by
  by_contra ne
  have inside : (x.1.pc u).inKiller := by
    rw [first]
    trivial
  exact ordered.one_way v u ne ⟨.inr second, .inr inside⟩

theorem access_keepsStart {m : Shm} {my us : ℕ} {pc : PC} (keeps : pc.keepsStart = true)
    (goes_on : pc.readsStop = false) : (access round m my us pc).2.keepsStart = true := by
  cases pc <;> simp only [access] <;> (try split_ifs) <;> simp_all [PC.keepsStart, PC.readsStop]

theorem book_start {w : Watch} {my : ℕ} {pc : PC} {i a : ℕ}
    (first : (w.book my pc).start i = some a) :
    w.start i = some a ∧ (i = my → pc.readsStop = false) := by
  unfold Watch.book at first
  split at first
  · rename_i stops
    by_cases here : i = my
    · subst here
      simp at first
    · simp only [Function.update_of_ne here] at first
      exact ⟨first, fun same => absurd same here⟩
  · rename_i goes_on
    exact ⟨first, fun _ => Bool.eq_false_of_not_eq_true goes_on⟩

theorem tick_held {my us : ℕ} (held : ∀ i a, x.2.start i = some a → (x.1.pc i).keepsStart = true)
    (i a : ℕ) (first : (x.2.book my (x.1.pc my)).start i = some a) :
    ((tick round x.1 my us).pc i).keepsStart = true := by
  obtain ⟨before, goes_on⟩ := book_start first
  by_cases here : i = my
  · subst here
    rw [tick_pc_self]
    exact access_keepsStart (held i a before) (goes_on rfl)
  · rw [tick_pc_other _ _ _ _ here]
    exact held i a before

theorem tick_killer {m : Shm} {my us : ℕ} {pc : PC} (other : pc ≠ .killer)
    (now : (access round m my us pc).2 = .killer) : pc.keepsStart = false := by
  cases pc <;> simp only [access] at now <;> (try split_ifs at now) <;> simp_all [PC.keepsStart]

theorem fresh_ordered {s : System} (fresh : Fresh s) (overcommit : s.shm.mode = .overcommit) :
    Ordered s := by
  constructor
  case marked =>
    intro u inside
    rw [fresh.outside u] at inside
    exact inside.elim
  case one_way =>
    intro u v _ both
    exact cleared_inside both.1 (fresh.outside u)
  case overcommit => exact overcommit

theorem packed_killer {my us : ℕ} (turn : InTurn S base t₀ x) (here : x.1.pc my = .killer)
    (allowed : x.2.Allows my us (x.1.pc my)) :
    packed S base t₀ (tick round x.1 my us, x.2.book my (x.1.pc my)) ≤ x.2.now := by
  have stops : (x.1.pc my).readsStop = true := by
    rw [here]
    rfl
  obtain ⟨a, first, b, second, measured⟩ := allowed.2 stops
  obtain ⟨order, past⟩ := (turn.readings my).stop_le a b first second
  obtain ⟨_, less, _⟩ := timespecDiffUs_bounds order
  have before := turn.before my a here first
  have sum : ∑ i ∈ S, execBooked (tick round x.1 my us) i ≤ _ := sum_tick_le
  have killers : (x.2.book my (x.1.pc my)).killers = x.2.killers + 1 := by
    rw [Watch.book, if_pos stops]
    simp [here]
  simp only [here, PC.killerUs] at sum
  simp only [packed, killers] at before ⊢
  push_cast
  omega

theorem packed_other {my us : ℕ} (other : x.1.pc my ≠ .killer) :
    packed S base t₀ (tick round x.1 my us, x.2.book my (x.1.pc my)) ≤ packed S base t₀ x := by
  have sum : ∑ i ∈ S, execBooked (tick round x.1 my us) i ≤ _ := sum_tick_le
  have nothing : (x.1.pc my).killerUs us = 0 := by
    cases pc : x.1.pc my with
    | killer => exact absurd pc other
    | _ => rfl
  have killers : (x.2.book my (x.1.pc my)).killers = x.2.killers := by
    simp only [Watch.book, if_neg other]
    split <;> rfl
  rw [nothing] at sum
  simp only [packed, killers]
  omega

theorem tick_inTurn {my us : ℕ} (turn : InTurn S base t₀ x)
    (apart : ClockApart x (.acts (.step my us)))
    (step : GateStep round x.1 (.step my us) (tick round x.1 my us))
    (allowed : x.2.Allows my us (x.1.pc my)) :
    InTurn S base t₀ (tick round x.1 my us, x.2.book my (x.1.pc my)) := by
  have steady := step_steady turn.steady step
  have ordered := step_ordered apart.1 turn.steady turn.ordered apart.2 step
  have readings : ∀ i, Readings (x.2.book my (x.1.pc my)) i := fun i =>
    book_readings (turn.readings i)
  refine ⟨steady, ordered, readings, tick_held turn.held, ?_, ?_⟩
  · dsimp only
    rw [book_now]
    by_cases killer : x.1.pc my = .killer
    · exact packed_killer turn killer allowed
    · exact (packed_other killer).trans turn.within
  · intro i a running first
    dsimp only at running first
    obtain ⟨old, _⟩ := book_start first
    by_cases here : i = my
    · subst here
      rw [tick_pc_self] at running
      have held := turn.held i a old
      by_cases killer : x.1.pc i = .killer
      · rw [killer] at running
        cases running
      · rw [tick_killer killer running] at held
        cases held
    · rw [tick_pc_other _ _ _ _ here] at running
      -- somebody else's killer runs, so this access is not the end of one
      have killer : x.1.pc my ≠ .killer := by
        intro killer
        have inside : (x.1.pc i).inKiller := by
          rw [running]
          trivial
        exact here (killer_alone turn.ordered killer inside)
      exact (packed_other killer).trans (turn.before i a running old)

theorem step_inTurn (turn : InTurn S base t₀ x) (apart : ClockApart x c)
    (h : ClockStep round x c y) : InTurn S base t₀ y := by
  have readings : ∀ i, Readings y.2 i := fun i => step_readings (turn.readings i) h
  rcases clockStep_cases h with ⟨ns, rfl⟩ | ⟨my, w, read, rfl⟩ |
    ⟨my, us, rfl, allowed, step, ticked, noted⟩ | ⟨a, rfl, other, step, same⟩
  · have within := turn.within
    refine ⟨turn.steady, turn.ordered, readings, turn.held, ?_, turn.before⟩
    simp only [packed] at within ⊢
    push_cast
    omega
  · have unmoved : packed S base t₀ (x.1, w) = packed S base t₀ x ∧ w.now = x.2.now := by
      rcases read_cases read with ⟨_, _, rfl⟩ | ⟨_, _, _, rfl⟩ <;> exact ⟨rfl, rfl⟩
    refine ⟨turn.steady, turn.ordered, readings, ?_, ?_, ?_⟩
    · intro i a first
      rcases read_start read first with old | ⟨rfl, starts, _⟩
      · exact turn.held i a old
      · revert starts
        cases x.1.pc i <;> simp [PC.readsStart, PC.keepsStart]
    · dsimp only
      rw [unmoved.1, unmoved.2]
      exact turn.within
    · intro i a running first
      rw [unmoved.1]
      rcases read_start read first with old | ⟨_, _, rfl⟩
      · exact turn.before i a running old
      · exact turn.within
  · have moved : y = (tick round x.1 my us, x.2.book my (x.1.pc my)) := Prod.ext ticked noted
    rw [moved]
    exact tick_inTurn turn apart (ticked ▸ step) allowed
  · have unmoved : packed S base t₀ y = packed S base t₀ x := by
      rw [packed, packed, same, Finset.sum_congr rfl fun i _ => (other_step step other i).1]
    refine ⟨step_steady turn.steady step,
      step_ordered apart.1 turn.steady turn.ordered apart.2 step, readings, ?_, ?_, ?_⟩
    · intro i a first
      have held := turn.held i a (same ▸ first)
      rcases (other_step step other i).2.2 with stays | ⟨outside, _⟩
      · rw [stays]
        exact held
      · rw [outside] at held
        cases held
    · rw [unmoved, same]
      exact turn.within
    · intro i a running first
      rw [unmoved]
      rcases (other_step step other i).2.2 with stays | ⟨_, entered⟩
      · exact turn.before i a (stays ▸ running) (same ▸ first)
      · rw [entered] at running
        cases running

end Turns

/-- As long as killers exclude one another, all tenants together are booked no more killer time than
    has passed, but for a microsecond a killer. -/
theorem killers_within_clock {round : ℚ → ℚ} {s : System} (fresh : Fresh s)
    (overcommit : s.shm.mode = .overcommit) {t₀ : ℕ} {labels : List ClockAction}
    {y : System × Watch}
    (run : Run (Guarded ClockApart (ClockStep round)) (s, { now := t₀ }) labels y) (S : Finset ℕ) :
    1000 * (∑ i ∈ S, y.1.shm.exec i - ∑ i ∈ S, s.shm.exec i) ≤
      y.2.now - t₀ + 1000 * y.2.killers := by
  have idle : ∀ i, execBooked s i = s.shm.exec i := by
    intro i
    simp [execBooked, fresh.outside i, PC.unbooked]
  have start : InTurn S (∑ i ∈ S, s.shm.exec i) t₀ (s, { now := t₀ }) := by
    refine ⟨fresh_steady fresh, fresh_ordered fresh overcommit,
      fun i => ⟨fun _ => rfl, nofun, nofun⟩, nofun, ?_, nofun⟩
    simp [packed, idle]
  have turn : InTurn S (∑ i ∈ S, s.shm.exec i) t₀ y := by
    apply run_invariant (InTurn S (∑ i ∈ S, s.shm.exec i) t₀) _ run start
    rintro x c y turn ⟨apart, step⟩
    exact step_inTurn turn apart step
  have within := turn.within
  have added : ∑ i ∈ S, y.1.shm.exec i ≤ ∑ i ∈ S, execBooked y.1 i := by
    apply Finset.sum_le_sum
    intro i _
    simp [execBooked]
  simp only [packed] at within
  linarith

instance (x : System × Watch) (c : ClockAction) : Decidable (ClockApart x c) := by
  induction c using ClockAction.casesOn <;> dsimp only [ClockApart] <;> infer_instance

def oneThenOther : List ClockAction :=
  .acts (.launch 0) :: unmeasured 0 8 ++ timedKiller 0 2000 2 ++ unmeasured 0 2 ++
    .acts (.launch 1) :: unmeasured 1 8 ++ timedKiller 1 3500 3

theorem killers_within_clock_in_turn : ∃ y, Run (Guarded ClockApart (ClockStep id))
    (registered 2 .overcommit fun _ => 100, { now := 0 }) oneThenOther y ∧
    y.2.now = 5500 ∧ y.2.killers = 2 ∧ y.1.shm.exec 0 = 2 ∧ y.1.shm.exec 1 = 3 ∧
    1000 * (∑ i ∈ Finset.range 2, y.1.shm.exec i -
      ∑ i ∈ Finset.range 2, (registered 2 .overcommit fun _ => 100).shm.exec i) ≤
        y.2.now - (0 : ℕ) + 1000 * y.2.killers := by
  obtain ⟨y, run, reached⟩ := guarded_run_reaches ClockApart
    (fun y : System × Watch => decide (y.2.now = 5500 ∧ y.2.killers = 2 ∧ y.1.shm.exec 0 = 2 ∧
      y.1.shm.exec 1 = 3))
    (show (exec (guarding ClockApart (clockNext id))
      (registered 2 .overcommit fun _ => 100, { now := 0 }) oneThenOther).any _ = true by
      decide +kernel)
  obtain ⟨now, killers, first, second⟩ := of_decide_eq_true reached
  exact ⟨y, run, now, killers, first, second,
    killers_within_clock (registered_fresh 2 .overcommit _) rfl run (Finset.range 2)⟩

end Gate
