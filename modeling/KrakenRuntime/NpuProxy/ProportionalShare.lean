import KrakenRuntime.NpuProxy.DeficitFairness

/- What the request gate gives to tenants that compete: of the time of the processing element
   each gets the part that its grant is of all grants, and none of them waits longer than the
   lead of the others and one run of each. Nobody is charged for a run that raises, and the
   gate does not measure it: `lasted` tells how long such runs hold the processing element. -/
namespace GateCore
open Runs Spread
variable {Name Req : Type} [DecidableEq Name]

def weight (c : Core Name Req) (name : Name) : ℚ := max (grantedOf c name) 1

def runUs (lasted : Flight Name Req → ℚ) : Event Name Req → ℚ
  | .finished _ dtUs _ => dtUs
  | .raised f => lasted f
  | _ => 0

def raisedUs (lasted : Flight Name Req → ℚ) : Event Name Req → ℚ
  | .raised f => lasted f
  | _ => 0

/-- The time that all runs of a stretch have taken. -/
def busyUs (lasted : Flight Name Req → ℚ) (events : List (Event Name Req)) : ℚ :=
  (events.map (runUs lasted)).sum

/-- The part of it that went to runs that raised. -/
def lostUs (lasted : Flight Name Req → ℚ) (events : List (Event Name Req)) : ℚ :=
  (events.map (raisedUs lasted)).sum

theorem weight_pos (c : Core Name Req) (name : Name) : 0 < weight c name :=
  lt_of_lt_of_le zero_lt_one (le_max_right _ _)

theorem charged_eq (c : Core Name Req) (name : Name) :
    chargedOf c name = weight c name * ratioOf c name := by
  exact (mul_div_cancel₀ (chargedOf c name) (weight_pos c name).ne').symm

section Stretch
variable {S : Finset Name} {nonempty : S.Nonempty} {d : ℚ} {first c c' : Core Name Req}
  {cfg : Config} {events : List (Event Name Req)}

theorem Level.weight_eq {b : ℚ} (level : Level S nonempty b first c) (name : Name) :
    weight c name = weight first name := by
  rw [weight, weight, level.granted]

theorem step_charged {b : ℚ} (level : Level S nonempty b first c) {ev : Event Name Req}
    (competing : Competing S d c ev) (step : CoreStep cfg c ev c')
    (lasted : Flight Name Req → ℚ) :
    ∑ n ∈ S, chargedOf c' n = ∑ n ∈ S, chargedOf c n + (runUs lasted ev - raisedUs lasted ev) := by
  have unchanged : SameBooksAs c c' → runUs lasted ev = raisedUs lasted ev →
      ∑ n ∈ S, chargedOf c' n =
        ∑ n ∈ S, chargedOf c n + (runUs lasted ev - raisedUs lasted ev) := by
    intro books uncharged
    rw [uncharged, sub_self, add_zero]
    exact Finset.sum_congr rfl fun n _ => (books n).1
  cases step with
  | register name => exact unchanged (register_books c name) rfl
  | unregister name => exact competing.elim
  | cmd name k => exact competing.elim
  | submit h => exact unchanged (submit_books h) rfl
  | idle => exact unchanged (fun _ => ⟨rfl, rfl⟩) rfl
  | selected free chosen pop => exact unchanged (popFrom_books pop) rfl
  | @finished f dtUs now busy elapsed =>
    have lowest := level.flight f busy
    have charged : runUs lasted (.finished f dtUs now) - raisedUs lasted (.finished f dtUs now) =
        dtUs := sub_zero dtUs
    rw [Finset.sum_congr rfl fun n _ => (finish_charged lowest cfg dtUs now n).1,
      Finset.sum_add_distrib, Finset.sum_ite_eq' S f.name, if_pos lowest.member, charged]
  | raised busy => exact unchanged (fun _ => ⟨rfl, rfl⟩) rfl

theorem run_charged (level : Level S nonempty (d / leastGrant S nonempty first) first c)
    (run : Run (Guarded (Competing S d) (CoreStep cfg)) c events c')
    (lasted : Flight Name Req → ℚ) :
    Level S nonempty (d / leastGrant S nonempty first) first c' ∧
      ∑ n ∈ S, chargedOf c' n =
        ∑ n ∈ S, chargedOf c n + (busyUs lasted events - lostUs lasted events) := by
  induction run with
  | nil c => exact ⟨level, by simp [busyUs, lostUs]⟩
  | cons head tail ih =>
    obtain ⟨competing, step⟩ := head
    obtain ⟨level', charged⟩ := ih (step_level level competing step)
    refine ⟨level', ?_⟩
    rw [charged, step_charged level competing step lasted]
    simp only [busyUs, lostUs, List.map_cons, List.sum_cons]
    ring

end Stretch

theorem start_level {S : Finset Name} (nonempty : S.Nonempty) {b : ℚ} {c : Core Name Req}
    (free : c.flight = none) : Level S nonempty b c c := by
  refine ⟨fun _ => rfl, le_max_left _ _, le_refl _, ?_⟩
  intro f busy
  rw [free] at busy
  cases busy

/-- While the same tenants compete, each is charged for its part by the grants of the time that
    runs have taken without raising, up to its grant times the distance of the ratios at the
    start and at the end. -/
theorem proportional_share {cfg : Config} {S : Finset Name} (nonempty : S.Nonempty) {d : ℚ}
    {c c' : Core Name Req} {events : List (Event Name Req)} (free : c.flight = none)
    (run : Run (Guarded (Competing S d) (CoreStep cfg)) c events c') {n : Name} (member : n ∈ S)
    (lasted : Flight Name Req → ℚ) :
    |chargedOf c' n - chargedOf c n -
        weight c n / (∑ s ∈ S, weight c s) * (busyUs lasted events - lostUs lasted events)| ≤
      weight c n * (spread S nonempty (ratioOf c) +
        max (spread S nonempty (ratioOf c)) (d / leastGrant S nonempty c)) := by
  obtain ⟨level, charged⟩ := run_charged (start_level nonempty free) run lasted
  have positive : ∀ s ∈ S, 0 < weight c s := fun s _ => weight_pos c s
  have total : (∑ s ∈ S, weight c s) ≠ 0 := (Finset.sum_pos positive nonempty).ne'
  have after : ∀ s, chargedOf c' s = weight c s * ratioOf c' s := by
    intro s
    rw [charged_eq, level.weight_eq]
  -- the time charged is the sum of all grants times the rise of the mean ratio
  have busy : busyUs lasted events - lostUs lasted events =
      (∑ s ∈ S, weight c s) * (mean S (weight c) (ratioOf c') - mean S (weight c) (ratioOf c)) := by
    have spent : busyUs lasted events - lostUs lasted events =
        ∑ s ∈ S, chargedOf c' s - ∑ s ∈ S, chargedOf c s := by
      rw [charged]
      ring
    rw [spent, Finset.sum_congr rfl fun s _ => after s,
      Finset.sum_congr rfl fun s _ => charged_eq c s, mean, mean, mul_sub, mul_div_cancel₀ _ total,
      mul_div_cancel₀ _ total]
  have apart : chargedOf c' n - chargedOf c n -
      weight c n / (∑ s ∈ S, weight c s) * (busyUs lasted events - lostUs lasted events) =
      weight c n * ((ratioOf c' n - mean S (weight c) (ratioOf c')) -
        (ratioOf c n - mean S (weight c) (ratioOf c))) := by
    rw [after, charged_eq c n, busy]
    field_simp
    ring
  have now : |ratioOf c' n - mean S (weight c) (ratioOf c')| ≤ spread S nonempty (ratioOf c') :=
    abs_sub_mean_le positive member
  have before : |ratioOf c n - mean S (weight c) (ratioOf c)| ≤ spread S nonempty (ratioOf c) :=
    abs_sub_mean_le positive member
  rw [apart, abs_mul, abs_of_pos (weight_pos c n)]
  apply mul_le_mul_of_nonneg_left _ (weight_pos c n).le
  calc |(ratioOf c' n - mean S (weight c) (ratioOf c')) -
        (ratioOf c n - mean S (weight c) (ratioOf c))|
      ≤ |ratioOf c' n - mean S (weight c) (ratioOf c')| +
          |ratioOf c n - mean S (weight c) (ratioOf c)| := abs_sub _ _
    _ ≤ spread S nonempty (ratioOf c') + spread S nonempty (ratioOf c) := add_le_add now before
    _ ≤ _ := by
      have together := level.together
      linarith

def fourthRaises : List (Event Bool ℕ) :=
  threeRuns ++ [.selected (some ⟨true, 1, 5, false⟩), .raised ⟨true, 1, 5, false⟩]

theorem proportional_share_two_to_one : ∃ c c', Run (CoreStep {}) Core.init twoToOne c ∧
    Run (Guarded (Competing competitors 10) (CoreStep {})) c fourthRaises c' ∧
    busyUs (fun _ => 7) fourthRaises = 37 ∧ lostUs (fun _ => 7) fourthRaises = 7 ∧
    weight c false = 40 ∧ weight c true = 20 ∧
    |chargedOf c' false - chargedOf c false - weight c false / (∑ s ∈ competitors, weight c s) *
          (busyUs (fun _ => 7) fourthRaises - lostUs (fun _ => 7) fourthRaises)| ≤
      weight c false * (spread competitors competitors_nonempty (ratioOf c) +
        max (spread competitors competitors_nonempty (ratioOf c))
          (10 / leastGrant competitors competitors_nonempty c)) := by
  let c : Core Bool ℕ := (exec (next {}) Core.init twoToOne).getD Core.init
  have reached : exec (next {}) Core.init twoToOne = some c := by decide +kernel
  obtain ⟨c', guarded, _⟩ := guarded_run_reaches (Competing competitors 10)
    (fun c' : Core Bool ℕ => decide (chargedOf c' false = 20))
    (show (exec (guarding (Competing competitors 10) (next {})) c fourthRaises).any _ = true by
      decide +kernel)
  have run : Run (Guarded (Competing competitors 10) (CoreStep {})) c fourthRaises c' :=
    run_mono (fun _ _ _ step => ⟨step.1, step_of_next step.2⟩) guarded
  exact ⟨c, c', run_of_next reached, run, by decide +kernel, by decide +kernel, by decide +kernel,
    by decide +kernel,
    proportional_share competitors_nonempty (by decide +kernel) run (by decide) fun _ => 7⟩

/-- What a competitor may still take before a tenant whose ratio is `r`. -/
def leadUs (c : Core Name Req) (r : ℚ) (name : Name) : ℚ := weight c name * max 0 (r - ratioOf c name)

/-- Since `first` the tenant has not run, and the others have used up no more than their lead
    and one run. -/
structure PassedOver (S : Finset Name) (nonempty : S.Nonempty) (d : ℚ) (name : Name)
    (first c : Core Name Req) : Prop where
  level : Level S nonempty (d / leastGrant S nonempty first) first c
  same : chargedOf c name = chargedOf first name
  waits : ∀ f, c.flight = some f → f.name ≠ name
  taken : ∀ s ∈ S, chargedOf c s ≤ chargedOf first s + (leadUs first (ratioOf first name) s + d)

section PassedOver
variable {S : Finset Name} {nonempty : S.Nonempty} {d : ℚ} {name : Name} {first c c' : Core Name Req}
  {cfg : Config}

theorem PassedOver.of_books (passed : PassedOver S nonempty d name first c) (books : SameBooksAs c c')
    (level : Level S nonempty (d / leastGrant S nonempty first) first c')
    (waits : ∀ f, c'.flight = some f → f.name ≠ name) : PassedOver S nonempty d name first c' := by
  refine ⟨level, (books name).1.trans passed.same, waits, ?_⟩
  intro s inside
  rw [(books s).1]
  exact passed.taken s inside

theorem PassedOver.finished (passed : PassedOver S nonempty d name first c) (member : name ∈ S)
    {f : Flight Name Req} {dtUs now : ℚ} (busy : c.flight = some f) (elapsed : 0 ≤ dtUs)
    (bound : dtUs ≤ d) : PassedOver S nonempty d name first (finish cfg c f dtUs now) := by
  have lowest := passed.level.flight f busy
  have books := finish_charged lowest cfg dtUs now
  have other := passed.waits f busy
  refine ⟨finished_level passed.level busy elapsed bound, ?_, ?_, ?_⟩
  · rw [(books name).1, if_neg other.symm, add_zero]
    exact passed.same
  · intro g still
    cases still
  · intro s inside
    rw [(books s).1]
    by_cases ran : s = f.name
    · have behind : ratioOf c s ≤ ratioOf first name := by
        have still : ratioOf c name = ratioOf first name := by
          rw [ratioOf, ratioOf, passed.same, passed.level.granted]
        rw [ran, ← still]
        exact lowest.lowest name member
      have before : chargedOf c s ≤ chargedOf first s + leadUs first (ratioOf first name) s := by
        calc chargedOf c s = weight first s * ratioOf c s := by
              rw [charged_eq, passed.level.weight_eq]
          _ ≤ weight first s * (ratioOf first s + max 0 (ratioOf first name - ratioOf first s)) := by
              apply mul_le_mul_of_nonneg_left _ (weight_pos first s).le
              have lead := le_max_right 0 (ratioOf first name - ratioOf first s)
              linarith
          _ = chargedOf first s + leadUs first (ratioOf first name) s := by
              rw [charged_eq first s, leadUs]
              ring
      rw [if_pos ran]
      linarith
    · rw [if_neg ran, add_zero]
      exact passed.taken s inside

theorem PassedOver.step (passed : PassedOver S nonempty d name first c) (member : name ∈ S)
    {ev : Event Name Req} (competing : Competing S d c ev) (step : CoreStep cfg c ev c')
    (skipped : ∀ f, ev = .selected (some f) → f.name ≠ name) :
    PassedOver S nonempty d name first c' := by
  have level := step_level passed.level competing step
  cases step with
  | register n => exact passed.of_books (register_books c n) level passed.waits
  | unregister n => exact competing.elim
  | cmd n k => exact competing.elim
  | submit h => exact passed.of_books (submit_books h) level (submit_flight h ▸ passed.waits)
  | idle => exact passed
  | @selected _ e extra f free chosen pop =>
    apply passed.of_books (popFrom_books pop) level
    intro g busy
    obtain ⟨_, _, _, _, _, after⟩ := popFrom_spec pop
    have same : f = g := by
      rw [after] at busy
      exact Option.some.inj busy
    exact same ▸ skipped f rfl
  | finished busy elapsed => exact passed.finished member busy elapsed competing
  | raised busy =>
    have books : SameBooksAs c { c with flight := none } := fun _ => ⟨rfl, rfl⟩
    apply passed.of_books books level
    intro f still
    cases still

end PassedOver

/-- A competitor that is passed over waits no longer than the leads of the others over it, one
    run of each, and the runs that raise. -/
theorem bounded_wait {cfg : Config} {S : Finset Name} {d : ℚ} (nonneg : 0 ≤ d)
    {c c' : Core Name Req} {events : List (Event Name Req)} (free : c.flight = none)
    (run : Run (Guarded (Competing S d) (CoreStep cfg)) c events c') {name : Name} (member : name ∈ S)
    (skipped : ∀ f, Event.selected (some f) ∈ events → f.name ≠ name)
    (lasted : Flight Name Req → ℚ) :
    busyUs lasted events ≤
      ∑ s ∈ S.erase name, (leadUs c (ratioOf c name) s + d) + lostUs lasted events := by
  have nonempty : S.Nonempty := ⟨name, member⟩
  have start : PassedOver S nonempty d name c c := by
    refine ⟨start_level nonempty free, rfl, ?_, ?_⟩
    · intro f busy
      rw [free] at busy
      cases busy
    · intro s _
      have lead : 0 ≤ leadUs c (ratioOf c name) s :=
        mul_nonneg (weight_pos c s).le (le_max_left _ _)
      linarith
  have passed : PassedOver S nonempty d name c c' := by
    refine run_invariant_of_labels (fun ev => ∀ f, ev = .selected (some f) → f.name ≠ name)
      (PassedOver S nonempty d name c) ?_ run ?_ start
    · rintro x ev y skips passed ⟨competing, step⟩
      exact passed.step member competing step skips
    · rintro ev inside f rfl
      exact skipped f inside
  have charged := (run_charged start.level run lasted).2
  rw [← Finset.add_sum_erase S _ member, ← Finset.add_sum_erase S (chargedOf c) member,
    passed.same] at charged
  have taken : ∑ s ∈ S.erase name, chargedOf c' s ≤
      ∑ s ∈ S.erase name, (chargedOf c s + (leadUs c (ratioOf c name) s + d)) :=
    Finset.sum_le_sum fun s inside => passed.taken s (Finset.mem_of_mem_erase inside)
  rw [Finset.sum_add_distrib] at taken
  linarith

/-- The first of the three runs raises, and the same tenant is taken again. -/
def oneRun : List (Event Bool ℕ) :=
  [.selected (some ⟨false, 0, 1, false⟩), .raised ⟨false, 0, 1, false⟩,
    .selected (some ⟨false, 0, 2, false⟩), .finished ⟨false, 0, 2, false⟩ 10 10]

theorem bounded_wait_one_run : ∃ c c', Run (CoreStep {}) Core.init twoToOne c ∧
    Run (Guarded (Competing competitors 10) (CoreStep {})) c oneRun c' ∧
    busyUs (fun _ => 7) oneRun = 17 ∧ lostUs (fun _ => 7) oneRun = 7 ∧
    busyUs (fun _ => 7) oneRun ≤
      ∑ s ∈ competitors.erase true, (leadUs c (ratioOf c true) s + 10) +
        lostUs (fun _ => 7) oneRun := by
  let c : Core Bool ℕ := (exec (next {}) Core.init twoToOne).getD Core.init
  have reached : exec (next {}) Core.init twoToOne = some c := by decide +kernel
  obtain ⟨c', guarded, _⟩ := guarded_run_reaches (Competing competitors 10)
    (fun c' : Core Bool ℕ => decide (chargedOf c' false = 10))
    (show (exec (guarding (Competing competitors 10) (next {})) c oneRun).any _ = true by
      decide +kernel)
  have run : Run (Guarded (Competing competitors 10) (CoreStep {})) c oneRun c' :=
    run_mono (fun _ _ _ step => ⟨step.1, step_of_next step.2⟩) guarded
  refine ⟨c, c', run_of_next reached, run, by decide +kernel, by decide +kernel,
    bounded_wait (by decide) (by decide +kernel) run (by decide) ?_ fun _ => 7⟩
  intro f chosen
  simp only [oneRun, List.mem_cons, Event.selected.injEq, Option.some.injEq, reduceCtorEq,
    List.not_mem_nil, or_false, false_or] at chosen
  rcases chosen with rfl | rfl <;> decide

end GateCore
