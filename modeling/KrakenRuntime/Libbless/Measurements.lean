import KrakenRuntime.Libbless.PeakMemory
import KrakenRuntime.Lib.Threads

/- What libbless measures of itself under several threads (libbless.cpp): the context switches of
   ScopedCtxGuard and the waits that bless_gate_block_record notes down behind time_credit_gate.
   Every access to a counter is one step; the durations are any that a steady clock gives, which
   never runs backwards. Overflow of the microseconds is left out. -/
namespace Measurements
open Runs Threads
open PeakMemory (Climbing)

/-- The record of a switch keeps an average as well, and a second duration follows when the guard
    pops. -/
inductive Kind where
  | ctxSwitch
  | gateBlock
  deriving DecidableEq

structure Counters where
  count : ℤ := 0
  totalUs : ℤ := 0
  avgUs : ℤ := 0
  maxUs : ℤ := 0
  deriving DecidableEq

inductive PC where
  | outside
  | addCount (elapsed : ℤ)
  | addTotal (elapsed : ℤ)
  | loadAvg (elapsed : ℤ)
  | storeAvg (elapsed oldAvg : ℤ)
  | loadMax (elapsed : ℤ)
  | exchangeMax (elapsed curMax : ℤ)
  -- between the two ends of ScopedCtxGuard
  | guarded
  | addPop (elapsed : ℤ)
  deriving DecidableEq

def recorded : Kind → PC
  | .ctxSwitch => .guarded
  | .gateBlock => .outside

def afterTotal : Kind → ℤ → PC
  | .ctxSwitch, elapsed => .loadAvg elapsed
  | .gateBlock, elapsed => .loadMax elapsed

def maxTest (k : Kind) (elapsed curMax : ℤ) : PC :=
  if curMax < elapsed then .exchangeMax elapsed curMax else recorded k

/-- One access. The weak exchange may fail on an equal value. -/
def access (k : Kind) (m : Counters) (spurious : Bool) : PC → Counters × PC
  | .outside => (m, .outside)
  | .addCount elapsed => ({ m with count := m.count + 1 }, .addTotal elapsed)
  | .addTotal elapsed => ({ m with totalUs := m.totalUs + elapsed }, afterTotal k elapsed)
  | .loadAvg elapsed => (m, .storeAvg elapsed m.avgUs)
  | .storeAvg elapsed oldAvg =>
    ({ m with avgUs := (oldAvg * 7 + elapsed).tdiv 8 }, .loadMax elapsed)
  | .loadMax elapsed => (m, maxTest k elapsed m.maxUs)
  | .exchangeMax elapsed curMax =>
    if m.maxUs = curMax ∧ spurious = false then ({ m with maxUs := elapsed }, recorded k)
    else (m, maxTest k elapsed m.maxUs)
  | .guarded => (m, .guarded)
  | .addPop elapsed => ({ m with totalUs := m.totalUs + elapsed }, .outside)

structure State (n : ℕ) where
  counters : Counters := {}
  threads : Fin n → PC := fun _ => .outside
  deriving DecidableEq

inductive Action (n : ℕ) where
  /-- A switch or a wait is over and took so long. -/
  | begins (i : Fin n) (elapsed : ℤ)
  /-- The guard has popped, which took so long. -/
  | pops (i : Fin n) (elapsed : ℤ)
  | step (i : Fin n) (spurious : Bool)
  deriving DecidableEq

variable {n : ℕ}

def next (k : Kind) (s : State n) : Action n → Option (State n)
  | .begins i elapsed =>
    if s.threads i = .outside ∧ 0 ≤ elapsed then
      some { s with threads := Function.update s.threads i (.addCount elapsed) }
    else none
  | .pops i elapsed =>
    if s.threads i = .guarded ∧ 0 ≤ elapsed then
      some { s with threads := Function.update s.threads i (.addPop elapsed) }
    else none
  | .step i spurious =>
    some
      { counters := (access k s.counters spurious (s.threads i)).1
        threads := Function.update s.threads i (access k s.counters spurious (s.threads i)).2 }

abbrev MeasureStep (k : Kind) : State n → Action n → State n → Prop := Fires (next k)

structure Record where
  durations : List ℤ := []
  pops : List ℤ := []
  deriving DecidableEq

def observe (_ : State n) : Action n → Record → Record
  | .begins _ elapsed, r => { r with durations := elapsed :: r.durations }
  | .pops _ elapsed, r => { r with pops := elapsed :: r.pops }
  | .step _ _, r => r

def largest : List ℤ → ℤ
  | [] => 0
  | d :: rest => max (largest rest) d

def uncounted : PC → ℤ
  | .addCount _ => 1
  | _ => 0

def owing : PC → ℤ
  | .addCount elapsed => elapsed
  | .addTotal elapsed => elapsed
  | .addPop elapsed => elapsed
  | _ => 0

def carries : PC → Option ℤ
  | .addCount elapsed => some elapsed
  | .addTotal elapsed => some elapsed
  | .loadAvg elapsed => some elapsed
  | .storeAvg elapsed _ => some elapsed
  | .loadMax elapsed => some elapsed
  | .exchangeMax elapsed _ => some elapsed
  | _ => none

def settled (pc : PC) : Bool := decide (pc = .outside ∨ pc = .guarded)

section Access
variable {k : Kind} {m : Counters} {spurious : Bool} {pc : PC}

theorem maxTest_uncounted (k : Kind) (elapsed curMax : ℤ) :
    uncounted (maxTest k elapsed curMax) = 0 := by
  unfold maxTest
  split
  · rfl
  · cases k <;> rfl

theorem maxTest_owing (k : Kind) (elapsed curMax : ℤ) : owing (maxTest k elapsed curMax) = 0 := by
  unfold maxTest
  split
  · rfl
  · cases k <;> rfl

theorem access_count : (access k m spurious pc).1.count + uncounted (access k m spurious pc).2 =
    m.count + uncounted pc := by
  cases pc with
  | addCount => simp [access, uncounted]
  | addTotal => cases k <;> rfl
  | loadMax =>
    simp only [access]
    rw [maxTest_uncounted]
    rfl
  | exchangeMax =>
    simp only [access]
    split
    · cases k <;> rfl
    · rw [maxTest_uncounted]
      rfl
  | _ => rfl

theorem access_time : (access k m spurious pc).1.totalUs + owing (access k m spurious pc).2 =
    m.totalUs + owing pc := by
  cases pc with
  | addTotal => cases k <;> simp [access, afterTotal, owing]
  | addPop => simp [access, owing]
  | loadMax =>
    simp only [access]
    rw [maxTest_owing]
    rfl
  | exchangeMax =>
    simp only [access]
    split
    · cases k <;> rfl
    · rw [maxTest_owing]
      rfl
  | _ => rfl

theorem recorded_settled (k : Kind) : carries (recorded k) = none := by
  cases k <;> rfl

/-- What an access does about the maximum: nothing, or a duration is done with once the maximum is
    at least as high. -/
inductive Reach (m : Counters) (pc : PC) (m' : Counters) (pc' : PC) : Prop where
  | keeps (same : m'.maxUs = m.maxUs) (carried : carries pc' = carries pc)
  | arrives {elapsed : ℤ} (before : carries pc = some elapsed) (after : carries pc' = none)
      (higher : m.maxUs ≤ m'.maxUs) (reached : elapsed ≤ m'.maxUs)
      (source : m'.maxUs = m.maxUs ∨ m'.maxUs = elapsed)

def Raising : PC → Prop
  | .exchangeMax elapsed curMax => curMax < elapsed
  | _ => True

theorem maxTest_raising (k : Kind) (elapsed curMax : ℤ) : Raising (maxTest k elapsed curMax) := by
  unfold maxTest
  split
  · assumption
  · cases k <;> trivial

theorem maxTest_reach {elapsed : ℤ} (before : carries pc = some elapsed) :
    Reach m pc m (maxTest k elapsed m.maxUs) := by
  unfold maxTest
  split
  · exact .keeps rfl before.symm
  · rename_i high
    exact .arrives before (recorded_settled k) le_rfl (not_lt.mp high) (.inl rfl)

theorem access_reach (raising : Raising pc) :
    Reach m pc (access k m spurious pc).1 (access k m spurious pc).2 ∧
      Raising (access k m spurious pc).2 := by
  cases pc with
  | addTotal => cases k <;> exact ⟨.keeps rfl rfl, trivial⟩
  | loadMax elapsed => exact ⟨maxTest_reach rfl, maxTest_raising k _ _⟩
  | exchangeMax elapsed curMax =>
    simp only [access]
    split
    · rename_i unchanged
      have higher : m.maxUs ≤ elapsed := by
        rw [unchanged.1]
        exact le_of_lt raising
      refine ⟨.arrives rfl (recorded_settled k) higher le_rfl (.inr rfl), ?_⟩
      cases k <;> trivial
    · exact ⟨maxTest_reach rfl, maxTest_raising k _ _⟩
  | _ => exact ⟨.keeps rfl rfl, trivial⟩

def oldAverage : PC → Option ℤ
  | .storeAvg _ oldAvg => some oldAvg
  | _ => none

theorem access_average {top : ℤ} (average : 0 ≤ m.avgUs ∧ m.avgUs ≤ top)
    (durations : ∀ elapsed, carries pc = some elapsed → 0 ≤ elapsed ∧ elapsed ≤ top)
    (read : ∀ oldAvg, oldAverage pc = some oldAvg → 0 ≤ oldAvg ∧ oldAvg ≤ top) :
    (0 ≤ (access k m spurious pc).1.avgUs ∧ (access k m spurious pc).1.avgUs ≤ top) ∧
      ∀ oldAvg, oldAverage (access k m spurious pc).2 = some oldAvg →
        0 ≤ oldAvg ∧ oldAvg ≤ top := by
  cases pc with
  | loadAvg elapsed =>
    refine ⟨average, ?_⟩
    intro oldAvg here
    cases here
    exact average
  | storeAvg elapsed oldAvg =>
    have mixed := durations elapsed rfl
    have old := read oldAvg rfl
    have positive : 0 ≤ oldAvg * 7 + elapsed := by omega
    refine ⟨?_, nofun⟩
    simp only [access]
    rw [Int.tdiv_eq_ediv_of_nonneg positive]
    omega
  | addTotal => cases k <;> exact ⟨average, nofun⟩
  | loadMax elapsed =>
    refine ⟨average, ?_⟩
    simp only [access, maxTest]
    split
    · exact nofun
    · cases k <;> exact nofun
  | exchangeMax elapsed curMax =>
    simp only [access, maxTest]
    split
    · refine ⟨average, ?_⟩
      cases k <;> exact nofun
    · refine ⟨average, ?_⟩
      split
      · exact nofun
      · cases k <;> exact nofun
  | _ => exact ⟨average, nofun⟩

theorem access_gateBlock (outside : pc ≠ .guarded) :
    (access .gateBlock m spurious pc).2 ≠ .guarded := by
  cases pc with
  | guarded => exact absurd rfl outside
  | loadMax elapsed =>
    simp only [access, maxTest]
    split <;> exact nofun
  | exchangeMax elapsed curMax =>
    simp only [access, maxTest]
    split
    · exact nofun
    · dsimp only
      split <;> exact nofun
  | _ => exact nofun

end Access

/-- What holds of a thread while no duration was longer than `top`. -/
structure Fine (k : Kind) (top : ℤ) (pc : PC) : Prop where
  raising : Raising pc
  nonneg : ∀ elapsed, carries pc = some elapsed → 0 ≤ elapsed
  read : ∀ oldAvg, oldAverage pc = some oldAvg → 0 ≤ oldAvg ∧ oldAvg ≤ top
  gate : k = .gateBlock → pc ≠ .guarded

/-- The counters against the durations: what is missing from them, the threads have still to
    add. -/
structure Measured (k : Kind) (s : State n) (r : Record) : Prop where
  count : s.counters.count + total uncounted s.threads = r.durations.length
  time : s.counters.totalUs + total owing s.threads = r.durations.sum + r.pops.sum
  climbing : Climbing (r.durations.headD 0) s.counters.maxUs (fun i => carries (s.threads i))
    (largest r.durations)
  average : 0 ≤ s.counters.avgUs ∧ s.counters.avgUs ≤ largest r.durations
  fine : ∀ i, Fine k (largest r.durations) (s.threads i)
  unpopped : k = .gateBlock → r.pops = []
  nonneg : ∀ d ∈ r.durations, 0 ≤ d

section Steps
variable {k : Kind} {s t : State n} {r : Record} {a : Action n} {i : Fin n}

theorem Fine.mono {top higher : ℤ} {pc : PC} (fine : Fine k top pc) (le : top ≤ higher) :
    Fine k higher pc where
  raising := fine.raising
  nonneg := fine.nonneg
  read oldAvg here := ⟨(fine.read oldAvg here).1, (fine.read oldAvg here).2.trans le⟩
  gate := fine.gate

theorem start_measured : Measured k ({} : State n) {} where
  count := by
    have counted : total uncounted ({} : State n).threads = 0 := total_eq_zero fun _ => rfl
    rw [counted]
    rfl
  time := by
    have added : total owing ({} : State n).threads = 0 := total_eq_zero fun _ => rfl
    rw [added]
    rfl
  climbing := ⟨le_rfl, le_rfl, fun _ _ => nofun, .inl rfl⟩
  average := ⟨le_rfl, le_rfl⟩
  fine _ := ⟨trivial, nofun, nofun, nofun⟩
  unpopped _ := rfl
  nonneg := nofun

theorem update_fine {top : ℤ} {pc : PC} (all : ∀ j, Fine k top (s.threads j)) (fine : Fine k top pc)
    (j : Fin n) : Fine k top (Function.update s.threads i pc j) := by
  by_cases same : j = i
  · subst same
    rw [Function.update_self]
    exact fine
  · rw [Function.update_of_ne same]
    exact all j

theorem update_carries (threads : Fin n → PC) (i : Fin n) (pc : PC) :
    (fun j => carries (Function.update threads i pc j)) =
      Function.update (fun j => carries (threads j)) i (carries pc) := by
  funext j
  by_cases same : j = i
  · subst same
    simp
  · simp [same]

theorem begins_measured (measured : Measured k s r) {elapsed : ℤ} (outside : s.threads i = .outside)
    (nonneg : 0 ≤ elapsed) :
    Measured k { s with threads := Function.update s.threads i (.addCount elapsed) }
      { r with durations := elapsed :: r.durations } where
  count := by
    have moved := total_update uncounted s.threads i (.addCount elapsed)
    have count := measured.count
    rw [outside] at moved
    simp only [uncounted, List.length_cons, Nat.cast_add, Nat.cast_one] at moved ⊢
    omega
  time := by
    have moved := total_update owing s.threads i (.addCount elapsed)
    have time := measured.time
    rw [outside] at moved
    simp only [owing, List.sum_cons] at moved ⊢
    omega
  climbing := by
    dsimp only
    rw [update_carries]
    apply measured.climbing.adds
    rw [outside]
    rfl
  average := ⟨measured.average.1, measured.average.2.trans (le_max_left _ _)⟩
  fine := by
    have fine : Fine k (largest (elapsed :: r.durations)) (.addCount elapsed) := by
      refine ⟨trivial, ?_, nofun, nofun⟩
      intro e here
      cases here
      exact nonneg
    exact update_fine (fun j => (measured.fine j).mono (le_max_left _ _)) fine
  unpopped := measured.unpopped
  nonneg := List.forall_mem_cons.mpr ⟨nonneg, measured.nonneg⟩

theorem pops_measured (measured : Measured k s r) {elapsed : ℤ} (inside : s.threads i = .guarded) :
    Measured k { s with threads := Function.update s.threads i (.addPop elapsed) }
      { r with pops := elapsed :: r.pops } where
  count := by
    have moved := total_update uncounted s.threads i (.addPop elapsed)
    have count := measured.count
    rw [inside] at moved
    simp only [uncounted] at moved ⊢
    omega
  time := by
    have moved := total_update owing s.threads i (.addPop elapsed)
    have time := measured.time
    rw [inside] at moved
    simp only [owing, List.sum_cons] at moved ⊢
    omega
  climbing := by
    have same : carries (.addPop elapsed) = carries (s.threads i) := by
      rw [inside]
      rfl
    dsimp only
    rw [update_carries, same, Function.update_eq_self]
    exact measured.climbing
  average := measured.average
  fine := update_fine measured.fine ⟨trivial, nofun, nofun, nofun⟩
  unpopped := by
    intro gate
    exact absurd inside ((measured.fine i).gate gate)
  nonneg := measured.nonneg

theorem access_measured (measured : Measured k s r) (i : Fin n) (spurious : Bool) :
    Measured k
      { counters := (access k s.counters spurious (s.threads i)).1
        threads := Function.update s.threads i (access k s.counters spurious (s.threads i)).2 }
      r := by
  have fine := measured.fine i
  have durations : ∀ elapsed, carries (s.threads i) = some elapsed →
      0 ≤ elapsed ∧ elapsed ≤ largest r.durations := by
    intro elapsed here
    exact ⟨fine.nonneg elapsed here, measured.climbing.carried_le i elapsed here⟩
  have count : (access k s.counters spurious (s.threads i)).1.count + _ = _ := access_count
  have time : (access k s.counters spurious (s.threads i)).1.totalUs + _ = _ := access_time
  have reached : Reach s.counters (s.threads i) (access k s.counters spurious (s.threads i)).1
      (access k s.counters spurious (s.threads i)).2 ∧ _ := access_reach fine.raising
  have average : (0 ≤ (access k s.counters spurious (s.threads i)).1.avgUs ∧ _) ∧ _ :=
    access_average measured.average durations fine.read
  have gate : k = .gateBlock → (access k s.counters spurious (s.threads i)).2 ≠ .guarded := by
    rintro rfl
    exact access_gateBlock (fine.gate rfl)
  obtain ⟨reach, raising⟩ := reached
  generalize (access k s.counters spurious (s.threads i)).1 = m at *
  generalize (access k s.counters spurious (s.threads i)).2 = pc at *
  have nonneg : ∀ elapsed, carries pc = some elapsed → 0 ≤ elapsed := by
    intro elapsed here
    cases reach with
    | keeps same carried => exact fine.nonneg elapsed (carried ▸ here)
    | arrives before after higher reached source =>
      rw [after] at here
      cases here
  refine ⟨?_, ?_, ?_, average.1, ?_, measured.unpopped, measured.nonneg⟩
  · have moved := total_update uncounted s.threads i pc
    have before := measured.count
    dsimp only
    omega
  · have moved := total_update owing s.threads i pc
    have before := measured.time
    dsimp only
    omega
  · dsimp only
    rw [update_carries]
    cases reach with
    | keeps same carried =>
      rw [same, carried, Function.update_eq_self]
      exact measured.climbing
    | arrives before after higher reached source =>
      rw [after]
      refine measured.climbing.arrives before higher reached ?_
      rcases source with same | own
      · rw [same]
        exact measured.climbing.peak_le
      · rw [own]
        exact (durations _ before).2
  · exact update_fine measured.fine ⟨raising, nonneg, average.2, gate⟩

theorem step_measured (measured : Measured k s r) (h : MeasureStep k s a t) :
    Measured k t (observe s a r) := by
  unfold MeasureStep Fires at h
  cases a with
  | begins i elapsed =>
    simp only [next] at h
    split at h
    · rename_i allowed
      cases h
      exact begins_measured measured allowed.1 allowed.2
    · cases h
  | pops i elapsed =>
    simp only [next] at h
    split at h
    · rename_i allowed
      cases h
      exact pops_measured measured allowed.1
    · cases h
  | step i spurious =>
    simp only [next, Option.some.injEq] at h
    subst h
    exact access_measured measured i spurious

theorem run_measured {labels : List (Action n)} {x : State n × Record}
    (run : Run (Watched observe (MeasureStep k)) ({}, {}) labels x) : Measured k x.1 x.2 := by
  apply run_invariant (fun x : State n × Record => Measured k x.1 x.2) _ run start_measured
  rintro ⟨s, r⟩ a ⟨t, r'⟩ measured ⟨fires, observed⟩
  dsimp only at observed
  rw [observed]
  exact step_measured measured fires

end Steps

section Largest

theorem largest_isGreatest (ds : List ℤ) : IsGreatest {d | d = 0 ∨ d ∈ ds} (largest ds) := by
  induction ds with
  | nil => simp [largest, IsGreatest, upperBounds]
  | cons d rest ih =>
    constructor
    · rcases max_choice (largest rest) d with old | new
      · rw [largest, old]
        exact ih.1.imp_right (List.mem_cons_of_mem d)
      · exact .inr (by simp [largest, new])
    · rintro e (zero | member)
      · exact (ih.2 (.inl zero)).trans (le_max_left _ _)
      · rcases List.mem_cons.mp member with rfl | later
        · exact le_max_right _ _
        · exact (ih.2 (.inr later)).trans (le_max_left _ _)

theorem sum_le_largest (ds : List ℤ) : ds.sum ≤ ds.length * largest ds := by
  have bound := List.sum_le_card_nsmul ds (largest ds) fun d member =>
    (largest_isGreatest ds).2 (.inr member)
  rwa [nsmul_eq_mul] at bound

end Largest

/-- What gate_stats prints for the average. -/
def printedAvg (m : Counters) : ℤ := if m.count = 0 then 0 else m.totalUs.tdiv m.count

theorem printedAvg_le {m : Counters} {ds : List ℤ} (count : m.count = ds.length)
    (time : m.totalUs = ds.sum) (nonneg : ∀ d ∈ ds, 0 ≤ d) : printedAvg m ≤ largest ds := by
  unfold printedAvg
  split
  · exact (largest_isGreatest ds).2 (.inl rfl)
  · rename_i some_counted
    have positive : 0 < m.count := by omega
    have spent : 0 ≤ m.totalUs := time ▸ List.sum_nonneg nonneg
    rw [Int.tdiv_eq_ediv_of_nonneg spent]
    apply Int.ediv_le_of_le_mul positive
    rw [time, count, mul_comm]
    exact sum_le_largest ds

/-- However the threads interleave, neither the maximum nor the average ever passes the longest
    duration, and whenever no thread is inside a record the counters agree with the durations: all
    are counted, the times add up, the maximum is the longest of them, and both averages lie
    between 0 and it, although updates of the average can be lost. -/
theorem measurements_agree {k : Kind} {labels : List (Action n)} {x : State n × Record}
    (run : Run (Watched observe (MeasureStep k)) ({}, {}) labels x) {longest : ℤ}
    (greatest : IsGreatest {d | d = 0 ∨ d ∈ x.2.durations} longest) :
    (x.1.counters.maxUs ≤ longest ∧ 0 ≤ x.1.counters.avgUs ∧ x.1.counters.avgUs ≤ longest) ∧
      ((∀ i, settled (x.1.threads i) = true) →
        x.1.counters.count = x.2.durations.length ∧
          x.1.counters.totalUs = x.2.durations.sum + x.2.pops.sum ∧
          x.1.counters.maxUs = longest ∧
          (k = .gateBlock → printedAvg x.1.counters ≤ longest)) := by
  have measured := run_measured run
  have longest_eq : longest = largest x.2.durations :=
    greatest.unique (largest_isGreatest x.2.durations)
  rw [longest_eq]
  refine ⟨⟨measured.climbing.peak_le, measured.average⟩, ?_⟩
  intro quiet
  have at_rest : ∀ i, x.1.threads i = .outside ∨ x.1.threads i = .guarded := by
    intro i
    exact of_decide_eq_true (quiet i)
  have count := measured.count
  have time := measured.time
  have counted : total uncounted x.1.threads = 0 := by
    apply total_eq_zero
    intro i
    rcases at_rest i with here | here <;> rw [here] <;> rfl
  have added : total owing x.1.threads = 0 := by
    apply total_eq_zero
    intro i
    rcases at_rest i with here | here <;> rw [here] <;> rfl
  rw [counted, add_zero] at count
  rw [added, add_zero] at time
  refine ⟨count, time, ?_, ?_⟩
  · rcases measured.climbing.reached with up | ⟨i, carried⟩
    · exact up
    · rcases at_rest i with here | here <;> rw [here] at carried <;> cases carried
  · intro gate
    rw [measured.unpopped gate, List.sum_nil, add_zero] at time
    exact printedAvg_le count time measured.nonneg

/-- Two switches whose records overlap: the second store of the average overwrites the first, and
    the first thread raises the maximum behind the second, after a failed and a spurious
    exchange. -/
def switches : List (Action 2) :=
  [.begins 0 10, .begins 1 4, .step 0 false, .step 0 false, .step 0 false, .step 1 false,
    .step 1 false, .step 1 false, .step 0 false, .step 1 false, .step 0 false, .step 1 false,
    .step 1 false, .step 0 false, .step 0 true, .step 0 false, .pops 0 3, .step 0 false]

def blocks : List (Action 2) :=
  [.begins 0 10, .begins 1 4, .step 0 false, .step 0 false, .step 1 false, .step 1 false,
    .step 0 false, .step 1 false, .step 1 false, .step 0 false, .step 0 true, .step 0 false]

theorem longest_of_two : IsGreatest {d : ℤ | d = 0 ∨ d ∈ [4, 10]} 10 :=
  largest_isGreatest [4, 10]

theorem measurements_agree_overlapping :
    (∃ x : State 2 × Record, Run (Watched observe (MeasureStep .ctxSwitch)) ({}, {}) switches x ∧
      x.1.counters = ⟨2, 17, 0, 10⟩ ∧ x.2 = ⟨[4, 10], [3]⟩ ∧ x.1.counters.maxUs = 10) ∧
      ∃ x : State 2 × Record, Run (Watched observe (MeasureStep .gateBlock)) ({}, {}) blocks x ∧
        x.1.counters = ⟨2, 14, 0, 10⟩ ∧ printedAvg x.1.counters ≤ 10 := by
  constructor
  · obtain ⟨x, run, checked⟩ := watched_run_reaches
      (fun x : State 2 × Record => decide (x.1.counters = ⟨2, 17, 0, 10⟩ ∧ x.2 = ⟨[4, 10], [3]⟩ ∧
        ∀ i, settled (x.1.threads i) = true))
      (show (exec (watching observe (next .ctxSwitch)) ({}, {}) switches).any _ = true by
        decide +kernel)
    obtain ⟨counters, record, quiet⟩ := of_decide_eq_true checked
    have greatest : IsGreatest {d | d = 0 ∨ d ∈ x.2.durations} 10 := by
      rw [record]
      exact longest_of_two
    exact ⟨x, run, counters, record, ((measurements_agree run greatest).2 quiet).2.2.1⟩
  · obtain ⟨x, run, checked⟩ := watched_run_reaches
      (fun x : State 2 × Record => decide (x.1.counters = ⟨2, 14, 0, 10⟩ ∧
        x.2.durations = [4, 10] ∧ ∀ i, settled (x.1.threads i) = true))
      (show (exec (watching observe (next .gateBlock)) ({}, {}) blocks).any _ = true by
        decide +kernel)
    obtain ⟨counters, durations, quiet⟩ := of_decide_eq_true checked
    have greatest : IsGreatest {d | d = 0 ∨ d ∈ x.2.durations} 10 := by
      rw [durations]
      exact longest_of_two
    exact ⟨x, run, counters, ((measurements_agree run greatest).2 quiet).2.2.2 rfl⟩

end Measurements
