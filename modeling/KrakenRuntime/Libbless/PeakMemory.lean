import KrakenRuntime.Libbless.MemoryQuota
import Mathlib.Order.Bounds.Basic

/- The peak counter of libbless under several threads (libbless.cpp): any calls of track_alloc
   and track_free, with the accesses of MemoryQuota. A thread adds to mem_current_bytes first
   and raises mem_peak_bytes afterwards, with the value it got from the addition; until it has
   done so it carries that value. Addresses and sizes are any at all. The blocks of the driver
   play no part here: what follows track_alloc and track_free is the return of the call. -/
namespace PeakMemory
open Int64Word Runs MemoryLedger

structure State (n : ℕ) where
  memory : Memory
  threads : Fin n → MemoryQuota.PC
  deriving DecidableEq

inductive Action (n : ℕ) where
  | trackAlloc (i : Fin n) (ptr size : ℕ)
  | trackFree (i : Fin n) (ptr : ℕ)
  | step (i : Fin n) (spurious : Bool)
  deriving DecidableEq

variable {n : ℕ}

def next (s : State n) : Action n → Option (State n)
  | .trackAlloc i ptr size =>
    if s.threads i = .outside then
      some { s with threads := Function.update s.threads i (.loadTracking ptr size) }
    else none
  | .trackFree i ptr =>
    if s.threads i = .outside then
      some { s with threads := Function.update s.threads i (.freeTracking ptr) }
    else none
  | .step i spurious =>
    (MemoryQuota.access s.memory Dict.empty none spurious (s.threads i)).map fun r =>
      { memory := r.1, threads := Function.update s.threads i r.2.2 }

abbrev PeakStep : State n → Action n → State n → Prop := Fires next

def start (n : ℕ) : State n := ⟨{}, fun _ => .outside⟩

def carried : MemoryQuota.PC → Option ℤ
  | .loadPeak _ current => some current
  | .exchangePeak _ current _ => some current
  | _ => none

def insideTrackAlloc : MemoryQuota.PC → Bool
  | .loadTracking .. | .insertEntry .. | .addAllocCount .. | .addTotal .. | .addCurrent .. => true
  | .loadPeak .. | .exchangePeak .. => true
  | _ => false

/-- The subtraction under way does not wrap. (An addition may: the thread carries what the
    counter then shows.) -/
def PCFits (m : Memory) : MemoryQuota.PC → Prop
  | .subCurrent _ size => -2 ^ 63 ≤ m.memCurrentBytes - size
  | _ => True

def Fits (s : State n) : Action n → Prop
  | .step i _ => PCFits s.memory (s.threads i)
  | _ => True

instance (m : Memory) (pc : MemoryQuota.PC) : Decidable (PCFits m pc) := by
  induction pc using MemoryQuota.PC.casesOn <;> dsimp only [PCFits] <;> infer_instance

instance (s : State n) (a : Action n) : Decidable (Fits s a) := by
  induction a using Action.casesOn <;> dsimp only [Fits] <;> infer_instance

def Raising : MemoryQuota.PC → Prop
  | .exchangePeak _ current peak => peak < current
  | _ => True

inductive Effect (m : Memory) (pc : MemoryQuota.PC) (m' : Memory) (pc' : MemoryQuota.PC) : Prop where
  | passes (falls : m'.memCurrentBytes ≤ m.memCurrentBytes)
      (peak : m'.memPeakBytes = m.memPeakBytes) (carries : carried pc' = carried pc)
  | adds (peak : m'.memPeakBytes = m.memPeakBytes) (before : carried pc = none)
      (after : carried pc' = some m'.memCurrentBytes)
  | leaves {current : ℤ} (same : m' = m) (before : carried pc = some current)
      (after : carried pc' = none) (reached : current ≤ m.memPeakBytes)
  | raises {current : ℤ} (before : carried pc = some current) (after : carried pc' = none)
      (rises : m.memPeakBytes < current) (peak : m'.memPeakBytes = current)
      (same : m'.memCurrentBytes = m.memCurrentBytes)

theorem peakTest_raising (ptr : ℕ) (current peak : ℤ) :
    Raising (MemoryQuota.peakTest ptr current peak) := by
  unfold MemoryQuota.peakTest
  split
  · assumption
  · trivial

theorem peakTest_effect {m : Memory} {pc : MemoryQuota.PC} {ptr : ℕ} {current : ℤ}
    (before : carried pc = some current) :
    Effect m pc m (MemoryQuota.peakTest ptr current m.memPeakBytes) := by
  unfold MemoryQuota.peakTest
  split
  · exact .passes le_rfl rfl before.symm
  · rename_i high
    exact .leaves rfl before rfl (not_lt.mp high)

section Access
variable {m m' : Memory} {blocks blocks' : Dict ℕ MemoryQuota.Block} {answer : Option ℕ}
  {spurious : Bool} {pc pc' : MemoryQuota.PC}

theorem access_effect
    (h : MemoryQuota.access m blocks answer spurious pc = some (m', blocks', pc'))
    (fits : PCFits m pc) (raising : Raising pc) : Effect m pc m' pc' ∧ Raising pc' := by
  cases pc with
  | outside => cases h
  | driverAlloc size =>
    cases answer with
    | none =>
      cases h
      exact ⟨.passes le_rfl rfl rfl, trivial⟩
    | some ptr =>
      simp only [MemoryQuota.access] at h
      split at h
      · cases h
        exact ⟨.passes le_rfl rfl rfl, trivial⟩
      · cases h
  | addCurrent ptr size =>
    cases h
    exact ⟨.adds rfl rfl rfl, trivial⟩
  | subCurrent ptr size =>
    cases h
    refine ⟨.passes ?_ rfl rfl, trivial⟩
    have stored := int64_le fits
    exact stored.trans (by omega)
  | loadPeak ptr current =>
    cases h
    exact ⟨peakTest_effect rfl, peakTest_raising _ _ _⟩
  | exchangePeak ptr current peak =>
    simp only [MemoryQuota.access] at h
    split at h
    · rename_i unchanged
      cases h
      refine ⟨.raises rfl rfl ?_ rfl rfl, trivial⟩
      rw [unchanged.1]
      exact raising
    · cases h
      exact ⟨peakTest_effect rfl, peakTest_raising _ _ _⟩
  | loadQuota | loadCurrent | loadTracking | freeTracking | eraseEntry =>
    simp only [MemoryQuota.access, Option.some.injEq, Prod.mk.injEq] at h
    obtain ⟨rfl, _, rfl⟩ := h
    split <;> exact ⟨.passes le_rfl rfl rfl, trivial⟩
  | driverFree ptr uncounted =>
    cases answer <;> cases h <;> exact ⟨.passes le_rfl rfl rfl, trivial⟩
  | _ =>
    cases h
    exact ⟨.passes le_rfl rfl rfl, trivial⟩

end Access

/-- A value that moves, a peak that is raised later, and what is carried to it: the largest
    value so far is the peak, or somebody carries it. -/
structure Climbing {ι : Type} (current peak : ℤ) (carries : ι → Option ℤ) (largest : ℤ) :
    Prop where
  current_le : current ≤ largest
  peak_le : peak ≤ largest
  carried_le : ∀ i c, carries i = some c → c ≤ largest
  reached : peak = largest ∨ ∃ i, carries i = some largest

section Climbing
variable {ι : Type} [DecidableEq ι] {current peak largest c : ℤ} {carries : ι → Option ℤ} {i : ι}

omit [DecidableEq ι] in
theorem Climbing.falls (climbing : Climbing current peak carries largest) (falls : c ≤ current) :
    Climbing c peak carries (max largest c) := by
  have below := falls.trans climbing.current_le
  rw [max_eq_left below]
  exact { climbing with current_le := below }

theorem Climbing.adds (climbing : Climbing current peak carries largest) (idle : carries i = none) :
    Climbing c peak (Function.update carries i (some c)) (max largest c) where
  current_le := le_max_right _ _
  peak_le := climbing.peak_le.trans (le_max_left _ _)
  carried_le := by
    intro j d here
    by_cases same : j = i
    · subst same
      simp only [Function.update_self, Option.some.injEq] at here
      exact here ▸ le_max_right _ _
    · rw [Function.update_of_ne same] at here
      exact (climbing.carried_le j d here).trans (le_max_left _ _)
  reached := by
    rcases le_total largest c with new | old
    · right
      exact ⟨i, by simp [max_eq_right new]⟩
    · rw [max_eq_left old]
      rcases climbing.reached with up | ⟨j, here⟩
      · exact .inl up
      · right
        refine ⟨j, ?_⟩
        have apart : j ≠ i := by
          rintro rfl
          rw [idle] at here
          cases here
        rwa [Function.update_of_ne apart]

theorem Climbing.arrives (climbing : Climbing current peak carries largest)
    (here : carries i = some c) {peak' : ℤ} (higher : peak ≤ peak') (reaches : c ≤ peak')
    (bounded : peak' ≤ largest) :
    Climbing current peak' (Function.update carries i none) largest where
  current_le := climbing.current_le
  peak_le := bounded
  carried_le := by
    intro j d there
    by_cases same : j = i
    · subst same
      simp at there
    · rw [Function.update_of_ne same] at there
      exact climbing.carried_le j d there
  reached := by
    rcases climbing.reached with up | ⟨j, there⟩
    · exact .inl (le_antisymm bounded (up ▸ higher))
    · by_cases same : j = i
      · subst same
        rw [here, Option.some.injEq] at there
        exact .inl (le_antisymm bounded (there ▸ reaches))
      · exact .inr ⟨j, by rwa [Function.update_of_ne same]⟩

end Climbing

structure Peaked (s : State n) (largest : ℤ) : Prop where
  climbing : Climbing s.memory.memCurrentBytes s.memory.memPeakBytes
    (fun i => carried (s.threads i)) largest
  raising : ∀ i, Raising (s.threads i)

section Steps
variable {s t : State n} {a : Action n}

theorem step_effect (step : Guarded Fits PeakStep s a t) (raising : ∀ i, Raising (s.threads i)) :
    ∃ i pc, t.threads = Function.update s.threads i pc ∧
      Effect s.memory (s.threads i) t.memory pc ∧ Raising pc := by
  obtain ⟨fits, step⟩ := step
  cases a with
  | trackAlloc i _ _ | trackFree i _ =>
    simp only [Fires, next] at step
    split at step
    · rename_i outside
      cases step
      exact ⟨i, _, rfl, .passes le_rfl rfl (by rw [outside]; rfl), trivial⟩
    · cases step
  | step i spurious =>
    simp only [Fires, next, Option.map_eq_some_iff] at step
    obtain ⟨r, accessed, rfl⟩ := step
    exact ⟨i, _, rfl, access_effect accessed fits (raising i)⟩

theorem step_peak_le {largest : ℤ} (peaked : Peaked s largest)
    (step : Guarded Fits PeakStep s a t) :
    s.memory.memPeakBytes ≤ t.memory.memPeakBytes := by
  obtain ⟨i, pc, _, effect, _⟩ := step_effect step peaked.raising
  cases effect with
  | passes falls peak carries => exact peak.ge
  | adds peak before after => exact peak.ge
  | leaves same before after reached => rw [same]
  | raises before after rises peak same => exact (rises.trans_eq peak.symm).le

theorem step_peaked {largest : ℤ} (peaked : Peaked s largest)
    (step : Guarded Fits PeakStep s a t) :
    Peaked t (max largest t.memory.memCurrentBytes) := by
  obtain ⟨i, pc, threads, effect, raises⟩ := step_effect step peaked.raising
  have carries : (fun j => carried (t.threads j)) =
      Function.update (fun j => carried (s.threads j)) i (carried pc) := by
    funext j
    by_cases same : j = i
    · subst same
      simp [threads]
    · simp [threads, same]
  refine ⟨?_, ?_⟩
  · rw [carries]
    cases effect with
    | passes falls peak same =>
      rw [peak, same, Function.update_eq_self]
      exact peaked.climbing.falls falls
    | adds peak before after =>
      rw [peak, after]
      exact peaked.climbing.adds before
    | leaves same before after reached =>
      rw [same, after, max_eq_left peaked.climbing.current_le]
      exact peaked.climbing.arrives before le_rfl reached peaked.climbing.peak_le
    | raises before after rises peak same =>
      rw [same, after, max_eq_left peaked.climbing.current_le]
      exact peaked.climbing.arrives before (rises.trans_eq peak.symm).le peak.ge
        (peak.trans_le (peaked.climbing.carried_le i _ before))
  · intro j
    rw [threads]
    by_cases same : j = i
    · subst same
      simpa using raises
    · simpa [same] using peaked.raising j

end Steps

def current (s : State n) : ℤ := s.memory.memCurrentBytes

theorem run_peaked {s t : State n} {labels : List (Action n)} {largest : ℤ}
    (run : Run (Guarded Fits PeakStep) s labels t) (peaked : Peaked s largest) :
    ∃ largest', Peaked t largest' ∧
      IsGreatest {c | c = largest ∨ Shows current (Guarded Fits PeakStep) s labels c} largest' ∧
      s.memory.memPeakBytes ≤ t.memory.memPeakBytes := by
  induction run generalizing largest with
  | nil s =>
    refine ⟨largest, peaked, ⟨.inl rfl, ?_⟩, le_rfl⟩
    rintro c (rfl | shown)
    · exact le_rfl
    · rw [shows_nil_iff.mp shown]
      exact peaked.climbing.current_le
  | @cons s m t a rest first tail ih =>
    obtain ⟨largest', peaked', ⟨attained, bound⟩, rises⟩ := ih (step_peaked peaked first)
    have shown_iff (c : ℤ) :
        Shows current (Guarded Fits PeakStep) s (a :: rest) c ↔
          c = current s ∨ Shows current (Guarded Fits PeakStep) m rest c :=
      shows_cons_iff (guarded_deterministic (fires_deterministic next)) first
    refine ⟨largest', peaked', ⟨?_, ?_⟩, (step_peak_le peaked first).trans rises⟩
    · rcases attained with new | shown
      · rcases max_choice largest m.memory.memCurrentBytes with old | here
        · exact .inl (new.trans old)
        · refine .inr ((shown_iff _).mpr (.inr ?_))
          rw [new, here]
          exact shows_start current _ m rest
      · exact .inr ((shown_iff _).mpr (.inr shown))
    · have above : largest ≤ largest' := (le_max_left _ _).trans (bound (.inl rfl))
      rintro c (rfl | shown)
      · exact above
      · rcases (shown_iff _).mp shown with rfl | later
        · exact peaked.climbing.current_le.trans above
        · exact bound (.inr later)

theorem start_peaked : Peaked (start n) 0 :=
  ⟨⟨le_rfl, le_rfl, by simp [start, carried], .inl rfl⟩, fun _ => trivial⟩

/-- Whenever no thread is inside track_alloc the peak is the largest value that the counter
    has had since the start, and no run from there lowers it. -/
theorem peak_is_largest {s t : State n} {labels more : List (Action n)}
    (run : Run (Guarded Fits PeakStep) (start n) labels s)
    (later : Run (Guarded Fits PeakStep) s more t) :
    ((∀ i, insideTrackAlloc (s.threads i) = false) →
        IsGreatest {c | Shows current (Guarded Fits PeakStep) (start n) labels c}
          s.memory.memPeakBytes) ∧
      s.memory.memPeakBytes ≤ t.memory.memPeakBytes := by
  obtain ⟨largest, peaked, greatest, _⟩ := run_peaked run start_peaked
  obtain ⟨_, _, _, rises⟩ := run_peaked later peaked
  refine ⟨?_, rises⟩
  intro outside
  have at_peak : s.memory.memPeakBytes = largest := by
    rcases peaked.climbing.reached with up | ⟨i, carries⟩
    · exact up
    · have out := outside i
      cases place : s.threads i <;> simp_all [carried, insideTrackAlloc]
  rw [at_peak]
  refine ⟨?_, fun c shown => greatest.2 (.inr shown)⟩
  rcases greatest.1 with zero | shown
  · rw [zero]
    exact shows_start current _ (start n) labels
  · exact shown

/-- Two allocations that overlap, and a free between the second addition and its peak. -/
def overlapping : List (Action 2) :=
  [.trackAlloc 0 1 10, .trackAlloc 1 2 5, .step 0 false, .step 0 false, .step 0 false,
    .step 0 false, .step 0 false, .step 1 false, .step 1 false, .step 1 false, .step 1 false,
    .step 1 false, .step 0 false, .step 0 false, .step 0 false, .trackFree 0 1, .step 0 false,
    .step 0 false, .step 0 false, .step 0 false, .step 0 false, .step 1 false, .step 1 true,
    .step 1 false, .step 1 false]

theorem peak_is_largest_overlapping :
    ∃ s : State 2, Run (Guarded Fits PeakStep) (start 2) overlapping s ∧
      current s = 5 ∧ s.memory.memPeakBytes = 15 ∧
      IsGreatest {c | Shows current (Guarded Fits PeakStep) (start 2) overlapping c} 15 := by
  obtain ⟨s, run, checked⟩ := guarded_run_reaches Fits
    (fun s : State 2 => decide (current s = 5 ∧ s.memory.memPeakBytes = 15 ∧
      ∀ i, insideTrackAlloc (s.threads i) = false))
    (show (exec (guarding Fits next) (start 2) overlapping).any _ = true by decide +kernel)
  obtain ⟨now, peak, outside⟩ := of_decide_eq_true checked
  have largest := (peak_is_largest run (.nil s)).1 outside
  rw [peak] at largest
  exact ⟨s, run, now, peak, largest⟩

end PeakMemory
