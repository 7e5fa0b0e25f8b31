import KrakenRuntime.Gating.Invariants
import Mathlib.Algebra.Order.Ring.Nat

/- What a tenant may run between two recharges of its slice, in OVERCOMMIT mode. The slice
   is tested before a killer and charged after it, so a tenant overdraws by killers that it
   was admitted to without a test on the new slice: one that was already under way when the
   slice was stored, and one that the RUNNING store of the same recharge releases. -/
namespace Gate
open Runs

def Shm.exec (m : Shm) (i : ℕ) : ℤ := (m.tenants i).totalExecUs

/-- Taken from time_remain_us and not yet added to total_exec_us. -/
def PC.owedExec : PC → ℕ
  | .addExec e => e
  | _ => 0

/-- The stretch since a recharge: the slice it stored, the elapsed times deducted since,
    the last one first, and total_exec_us when it began with what was still owed to it. -/
structure Stretch where
  sliceUs : ℤ
  deducted : List ℕ
  execBefore : ℤ
  owedBefore : ℕ
  deriving DecidableEq

structure Ended where
  stretch : Stretch
  execAfter : ℤ
  owedAfter : ℕ
  deriving DecidableEq

structure Meter where
  running : Option Stretch := none
  ended : List Ended := []
  deriving DecidableEq

def meterAccess (i : ℕ) (s : System) (my : ℕ) (b : Meter) : Meter :=
  match s.pc my with
  | .rechargeRemain j sliceUs =>
    if j = i then
      { running := some ⟨sliceUs, [], s.shm.exec i, (s.pc i).owedExec⟩
        ended := (b.running.map fun v => ⟨v, s.shm.exec i, (s.pc i).owedExec⟩).toList ++ b.ended }
    else b
  | .deductRemain e =>
    if my = i then
      { b with running := b.running.map fun v => { v with deducted := e :: v.deducted } }
    else b
  | _ => b

def metering (i : ℕ) (s : System) : Action → Meter → Meter
  | .step my _, b => meterAccess i s my b
  | _, b => b

/-- At most the slice and two killers, however long the longest one was. -/
def Stretch.WithinBudget (v : Stretch) : Prop :=
  ∀ longest : ℕ, (∀ e ∈ v.deducted, e ≤ longest) →
    (v.deducted.sum : ℤ) ≤ max v.sliceUs 0 + 2 * longest

/-- From the slice test, or the end of the waiting loop, to the deduction. -/
def PC.admitted : PC → Prop
  | .addWait | .peerActive _ | .peerGate _ | .peerSpin _ | .peerAddWait _ => True
  | .markActive | .killer | .deductRemain _ => True
  | _ => False

/-- A deduction is coming that no later slice test has to allow. -/
def Admitted (s : System) (i : ℕ) : Prop :=
  (s.pc i).admitted ∨ ((s.pc i).inWaiting ∧ s.shm.gate i ≠ .waiting)

def Releasing (s : System) (i : ℕ) : Prop := ∃ u, s.pc u = .rechargeGate i

def Stretch.longest (v : Stretch) : ℕ := v.deducted.foldr max 0

/-- The account of the running stretch: each way to one more killer keeps the longest one
    in reserve. -/
structure Metered (i : ℕ) (s : System) (v : Stretch) : Prop where
  remain_eq : s.shm.remain i = v.sliceUs - v.deducted.sum
  spent : (v.deducted.sum : ℤ) ≤ max v.sliceUs 0 + 2 * v.longest
  one_coming : Admitted s i ∨ Releasing s i → (v.deducted.sum : ℤ) ≤ max v.sliceUs 0 + v.longest
  two_coming : Admitted s i ∧ Releasing s i → (v.deducted.sum : ℤ) ≤ max v.sliceUs 0
  exec_eq : s.shm.exec i + (s.pc i).owedExec =
    v.execBefore + v.owedBefore + v.deducted.sum

theorem foldr_max_le {l : List ℕ} {d : ℕ} (all : ∀ e ∈ l, e ≤ d) : l.foldr max 0 ≤ d := by
  induction l with
  | nil => exact Nat.zero_le d
  | cons e rest ih =>
    obtain ⟨here, later⟩ := List.forall_mem_cons.mp all
    exact max_le here (ih later)

theorem metered_withinBudget {i : ℕ} {s : System} {v : Stretch} (metered : Metered i s v) :
    v.WithinBudget := by
  intro longest all
  have spent := metered.spent
  have bound : v.longest ≤ longest := foldr_max_le all
  omega

def PC.deducts : PC → ℕ
  | .deductRemain e => e
  | _ => 0

section Tick
variable {round : ℚ → ℚ} {s : System} {my us i : ℕ}

theorem apply_exec (m : Shm) (w : Write) : (w.apply m).exec i =
    match w with
    | .addExec j us => if i = j then m.exec i + us else m.exec i
    | _ => m.exec i := by
  cases w <;> simp only [Write.apply, Shm.exec, setTenant_at] <;> split <;> rfl

theorem tick_exec_other (ne : i ≠ my) : (tick round s my us).shm.exec i = s.shm.exec i := by
  simp only [tick, apply_exec]
  cases s.pc my with
  | roundTriggerCas => by_cases held : s.shm.roundTriggerLock = true <;> simp [access, held]
  | storeRoundId j rid => by_cases last : s.shm.tenantCount ≤ j <;> simp [access, last]
  | addExec e => simp [access, ne]
  | _ => rfl

/-- What is deducted is owed to the execution total until it is added. -/
theorem tick_exec_self : (tick round s my us).shm.exec my +
    ((tick round s my us).pc my).owedExec =
      s.shm.exec my + (s.pc my).owedExec + (s.pc my).deducts := by
  rw [tick_pc_self]
  simp only [tick, apply_exec]
  cases s.pc my <;> simp only [access] <;> (try split_ifs) <;>
    simp [PC.owedExec, PC.deducts]

theorem access_releases (m : Shm) (pc : PC) :
    (access round m my us pc).2 = .rechargeGate i ↔ ∃ sliceUs, pc = .rechargeRemain i sliceUs := by
  cases pc <;> simp only [access] <;> (try split_ifs) <;> simp

theorem releasing_of_tick (other : ∀ sliceUs, s.pc my ≠ .rechargeRemain i sliceUs)
    (releasing : Releasing (tick round s my us) i) : Releasing s i := by
  obtain ⟨u, here⟩ := releasing
  by_cases same : u = my
  · subst same
    rw [tick_pc_self, access_releases] at here
    obtain ⟨sliceUs, recharge⟩ := here
    exact absurd recharge (other sliceUs)
  · rw [tick_pc_other _ _ _ _ same] at here
    exact ⟨u, here⟩

theorem released_once (steady : Steady s) (here : s.pc my = .rechargeGate i) :
    ¬ Releasing (tick round s my us) i := by
  rintro ⟨u, again⟩
  by_cases same : u = my
  · subst same
    rw [tick_pc_self, access_releases, here] at again
    obtain ⟨_, impossible⟩ := again
    cases impossible
  · rw [tick_pc_other _ _ _ _ same] at again
    exact same (steady.round_alone u my (by rw [again]; trivial) (by rw [here]; trivial))

theorem access_admitted (overcommit : s.shm.mode = .overcommit)
    (admitted : Admitted (tick round s my us) my) :
    Admitted s my ∨ (s.pc my = .timesliceExhausted ∧ 0 < s.shm.remain my) ∨
      s.pc my = .rechargeGate my := by
  unfold Admitted at admitted
  rw [tick_pc_self, tick_gate] at admitted
  unfold Admitted
  cases here : s.pc my <;> rw [here] at admitted <;> simp only [access, gateAfter] at admitted <;>
    revert admitted <;> (try split_ifs) <;>
    simp_all [PC.admitted, PC.inWaiting]

theorem admitted_of_tick (overcommit : s.shm.mode = .overcommit)
    (admitted : Admitted (tick round s my us) i) :
    Admitted s i ∨ (my = i ∧ s.pc i = .timesliceExhausted ∧ 0 < s.shm.remain i) ∨
      s.pc my = .rechargeGate i := by
  by_cases same : my = i
  · subst same
    rcases access_admitted overcommit admitted with before | tested | released
    · exact .inl before
    · exact .inr (.inl ⟨rfl, tested⟩)
    · exact .inr (.inr released)
  · have ne : i ≠ my := fun eq => same eq.symm
    unfold Admitted at admitted ⊢
    rw [tick_pc_other _ _ _ _ ne, tick_gate] at admitted
    rcases admitted with running | ⟨inWaiting, notWaiting⟩
    · exact .inl (.inl running)
    · by_cases before : s.shm.gate i = .waiting
      · right
        right
        rw [before] at notWaiting
        unfold gateAfter at notWaiting
        split at notWaiting <;> simp_all
      · exact .inl (.inr ⟨inWaiting, before⟩)

theorem recharge_metered {sliceUs : ℤ} (here : s.pc my = .rechargeRemain i sliceUs) :
    Metered i (tick round s my us) ⟨sliceUs, [], s.shm.exec i, (s.pc i).owedExec⟩ := by
  constructor
  · simp [tick_remain, remainAfter, here]
  · simp [Stretch.longest]
  · simp [Stretch.longest]
  · simp
  · by_cases same : my = i
    · subst same
      rw [tick_exec_self, here]
      simp [PC.deducts]
    · have ne : i ≠ my := fun eq => same eq.symm
      rw [tick_exec_other ne, tick_pc_other _ _ _ _ ne]
      simp

theorem deduct_metered {v : Stretch} {e : ℕ} (metered : Metered my s v)
    (here : s.pc my = .deductRemain e) :
    Metered my (tick round s my us) { v with deducted := e :: v.deducted } := by
  have admitted : Admitted s my := by
    left
    rw [here]
    trivial
  have left_region : ¬ Admitted (tick round s my us) my := by
    unfold Admitted
    rw [tick_pc_self, here]
    simp [access, PC.admitted, PC.inWaiting]
  have releasing_before : Releasing (tick round s my us) my → Releasing s my :=
    releasing_of_tick (by simp [here])
  have one_coming := metered.one_coming (.inl admitted)
  have exec_eq := metered.exec_eq
  have remain_eq := metered.remain_eq
  have longer : Stretch.longest { v with deducted := e :: v.deducted } = max e v.longest := rfl
  constructor
  · simp only [tick_remain, remainAfter, here, ↓reduceIte, List.sum_cons]
    omega
  · rw [longer]
    simp only [List.sum_cons]
    omega
  · rintro (impossible | releasing)
    · exact absurd impossible left_region
    · have two_coming := metered.two_coming ⟨admitted, releasing_before releasing⟩
      rw [longer]
      simp only [List.sum_cons]
      omega
  · rintro ⟨impossible, _⟩
    exact absurd impossible left_region
  · rw [tick_exec_self, here]
    rw [here] at exec_eq
    simp only [PC.owedExec, PC.deducts, List.sum_cons] at exec_eq ⊢
    omega

theorem other_metered {v : Stretch} (steady : Steady s) (overcommit : s.shm.mode = .overcommit)
    (metered : Metered i s v) (noRecharge : ∀ sliceUs, s.pc my ≠ .rechargeRemain i sliceUs)
    (noDeduct : my = i → (s.pc my).deducts = 0 ∧ ∀ e, s.pc my ≠ .deductRemain e) :
    Metered i (tick round s my us) v := by
  have remain : (tick round s my us).shm.remain i = s.shm.remain i := by
    rw [tick_remain]
    unfold remainAfter
    split
    · rename_i j sliceUs here
      rw [if_neg]
      rintro rfl
      exact noRecharge sliceUs here
    · rename_i e here
      rw [if_neg]
      rintro rfl
      exact (noDeduct rfl).2 e here
    · rfl
  have exec : (tick round s my us).shm.exec i + ((tick round s my us).pc i).owedExec =
      s.shm.exec i + (s.pc i).owedExec := by
    by_cases same : my = i
    · subst same
      rw [tick_exec_self, (noDeduct rfl).1]
      simp
    · have ne : i ≠ my := fun eq => same eq.symm
      rw [tick_exec_other ne, tick_pc_other _ _ _ _ ne]
  have remain_eq := metered.remain_eq
  -- a tenant that passes the slice test has not used its slice up
  have tested : (my = i ∧ s.pc i = .timesliceExhausted ∧ 0 < s.shm.remain i) →
      (v.deducted.sum : ℤ) ≤ max v.sliceUs 0 := by
    rintro ⟨_, _, positive⟩
    omega
  constructor
  · rw [remain]
    exact remain_eq
  · exact metered.spent
  · rintro (admitted | releasing)
    · rcases admitted_of_tick overcommit admitted with before | passed | released
      · exact metered.one_coming (.inl before)
      · have spent := tested passed
        omega
      · exact metered.one_coming (.inr ⟨my, released⟩)
    · exact metered.one_coming (.inr (releasing_of_tick noRecharge releasing))
  · rintro ⟨admitted, releasing⟩
    rcases admitted_of_tick overcommit admitted with before | passed | released
    · exact metered.two_coming ⟨before, releasing_of_tick noRecharge releasing⟩
    · exact tested passed
    · exact absurd releasing (released_once steady released)
  · rw [exec]
    exact metered.exec_eq

end Tick

structure OnBudget (i : ℕ) (s : System) (b : Meter) : Prop where
  overcommit : s.shm.mode = .overcommit
  running : ∀ v ∈ b.running, Metered i s v
  ended : ∀ v ∈ b.ended, v.stretch.WithinBudget ∧
    v.execAfter + v.owedAfter =
      v.stretch.execBefore + v.stretch.owedBefore + v.stretch.deducted.sum

section Steps
variable {round : ℚ → ℚ} {s t : System} {b : Meter} {i : ℕ}

theorem frame_metered {v : Stretch} (metered : Metered i s v)
    (remain : t.shm.remain i = s.shm.remain i) (gate : t.shm.gate i = s.shm.gate i)
    (exec : t.shm.exec i = s.shm.exec i)
    (pc : ∀ u, t.pc u = s.pc u ∨ s.pc u = .outside ∧ t.pc u = .loadMode) : Metered i t v := by
  have releasing : Releasing t i → Releasing s i := by
    rintro ⟨u, here⟩
    rcases pc u with same | ⟨_, started⟩
    · exact ⟨u, by rw [← same, here]⟩
    · rw [started] at here
      cases here
  have admitted : Admitted t i → Admitted s i := by
    unfold Admitted
    rw [gate]
    rcases pc i with same | ⟨_, started⟩
    · rw [same]
      exact id
    · rw [started]
      simp [PC.admitted, PC.inWaiting]
  have owed : (t.pc i).owedExec = (s.pc i).owedExec := by
    rcases pc i with same | ⟨before, started⟩
    · rw [same]
    · rw [before, started]
      rfl
  constructor
  · rw [remain]
    exact metered.remain_eq
  · exact metered.spent
  · intro coming
    exact metered.one_coming (coming.imp admitted releasing)
  · intro coming
    exact metered.two_coming (coming.imp admitted releasing)
  · rw [exec, owed]
    exact metered.exec_eq

theorem tick_onBudget (steady : Steady s) (budget : OnBudget i s b) {my us : ℕ} :
    OnBudget i (tick round s my us) (meterAccess i s my b) := by
  have overcommit : (tick round s my us).shm.mode = .overcommit :=
    (tick_fixed round s my us).2.1.trans budget.overcommit
  refine ⟨overcommit, ?_, ?_⟩
  · intro v running
    unfold meterAccess at running
    cases here : s.pc my with
    | rechargeRemain j sliceUs =>
      rw [here] at running
      simp only at running
      split at running
      · rename_i same
        subst same
        cases running
        exact recharge_metered here
      · rename_i other
        apply other_metered steady budget.overcommit (budget.running v running)
        · simp [here, other]
        · simp [here, PC.deducts]
    | deductRemain e =>
      rw [here] at running
      simp only at running
      split at running
      · rename_i same
        subst same
        obtain ⟨w, before, rfl⟩ := Option.map_eq_some_iff.mp running
        exact deduct_metered (budget.running w before) here
      · rename_i other
        apply other_metered steady budget.overcommit (budget.running v running)
        · simp [here]
        · intro same
          exact absurd same other
    | _ =>
      rw [here] at running
      apply other_metered steady budget.overcommit (budget.running v running)
      · simp [here]
      · simp [here, PC.deducts]
  · intro v ended
    unfold meterAccess at ended
    cases here : s.pc my with
    | rechargeRemain j sliceUs =>
      rw [here] at ended
      simp only at ended
      split at ended
      · rename_i same
        subst same
        rcases List.mem_append.mp ended with now | before
        · simp only [Option.mem_toList, Option.map_eq_some_iff] at now
          obtain ⟨w, running, rfl⟩ := now
          have metered := budget.running w running
          exact ⟨metered_withinBudget metered, metered.exec_eq⟩
        · exact budget.ended v before
      · exact budget.ended v ended
    | deductRemain e =>
      rw [here] at ended
      simp only at ended
      split at ended
      · exact budget.ended v ended
      · exact budget.ended v ended
    | _ =>
      rw [here] at ended
      exact budget.ended v ended

theorem step_onBudget {a : Action} (keeps : a.keepsMode) (steady : Steady s)
    (budget : OnBudget i s b) (step : GateStep round s a t) :
    OnBudget i t (metering i s a b) := by
  have mode := (step_keeps_mode keeps step).trans budget.overcommit
  rcases step_cases step with ⟨my, rfl, _, outside, _, rfl⟩ | ⟨my, us, rfl, _, _, rfl⟩ |
    ⟨my, on, which, _, _, rfl⟩ | ⟨_, _, _, _, _, _, plain, rfl⟩
  · refine ⟨mode, ?_, budget.ended⟩
    intro v running
    refine frame_metered (budget.running v running) rfl rfl rfl ?_
    intro u
    by_cases same : u = my
    · subst same
      exact .inr ⟨outside, by simp⟩
    · exact .inl (by simp [same])
  · exact tick_onBudget steady budget
  · have unmetered : metering i s a b = b := by
      rcases which with ⟨rfl, _⟩ | ⟨rfl, _⟩ <;> rfl
    rw [unmetered]
    refine ⟨mode, ?_, budget.ended⟩
    intro v running
    refine frame_metered (budget.running v running) (setActive_remain my on i)
      (setActive_gate my on i) ?_ fun u => .inl rfl
    simp only [setActive, Shm.exec, setTenant_at]
    split <;> rfl
  · have unmetered : metering i s a b = b := by
      cases a with
      | step my us => exact absurd rfl (plain my us)
      | _ => rfl
    rw [unmetered]
    refine ⟨mode, ?_, budget.ended⟩
    intro v running
    exact frame_metered (budget.running v running) rfl rfl rfl fun u => .inl rfl

theorem run_onBudget {labels : List Action} (fresh : Fresh s)
    (overcommit : s.shm.mode = .overcommit) (fixedMode : ∀ a ∈ labels, a.keepsMode)
    (run : Run (Watched (metering i) (GateStep round)) (s, {}) labels (t, b)) :
    OnBudget i t b := by
  have both := run_invariant_of_labels Action.keepsMode
    (fun x : System × Meter => Steady x.1 ∧ OnBudget i x.1 x.2)
    (by
      rintro x a y keeps ⟨steady, budget⟩ ⟨step, recorded⟩
      rw [recorded]
      exact ⟨step_steady steady step, step_onBudget keeps steady budget step⟩)
    run fixedMode ⟨fresh_steady fresh, overcommit, by simp, by simp⟩
  exact both.2

end Steps

/-- Between two recharges of tenant `i`, at most the slice and two of its longest killers
    are deducted; total_exec_us grows by what is deducted exactly when the two recharges
    meet the same deduction half booked. The bound also holds of the running stretch. -/
theorem slice_budget_kept {round : ℚ → ℚ} {i : ℕ} {s t : System} {b : Meter}
    {labels : List Action} (fresh : Fresh s) (overcommit : s.shm.mode = .overcommit)
    (fixedMode : ∀ a ∈ labels, a.keepsMode)
    (run : Run (Watched (metering i) (GateStep round)) (s, {}) labels (t, b)) :
    (∀ v ∈ b.ended, v.stretch.WithinBudget ∧
      (v.execAfter - v.stretch.execBefore = v.stretch.deducted.sum ↔
        v.owedAfter = v.stretch.owedBefore)) ∧
    ∀ v ∈ b.running, v.WithinBudget := by
  have budget := run_onBudget fresh overcommit fixedMode run
  constructor
  · intro v ended
    obtain ⟨within, balance⟩ := budget.ended v ended
    refine ⟨within, ?_⟩
    omega
  · intro v running
    exact metered_withinBudget (budget.running v running)

/-- One tenant starts a round alone, runs for 2000 on a slice of 1000, and starts the next. -/
def twoRounds : List Action :=
  .launch 0 :: steps 0 24 ++ [.step 0 2000] ++ steps 0 4 ++ .launch 0 :: steps 0 13

theorem overrun_within_budget : ∃ t b,
    Run (Watched (metering 0) (GateStep id)) (registered 1 .overcommit fun _ => 0, {})
      twoRounds (t, b) ∧
    b.ended = [⟨⟨1000, [2000], 0, 0⟩, 2000, 0⟩] ∧
    ∀ v ∈ b.ended, v.stretch.WithinBudget ∧
      (v.execAfter - v.stretch.execBefore = v.stretch.deducted.sum ↔
        v.owedAfter = v.stretch.owedBefore) := by
  obtain ⟨⟨t, b⟩, run, reached⟩ := watched_run_reaches
    (fun y : System × Meter => decide (y.2.ended = [⟨⟨1000, [2000], 0, 0⟩, 2000, 0⟩]))
    (show (exec (watching (metering 0) (next id)) (registered 1 .overcommit fun _ => 0, {})
      twoRounds).any _ = true by decide +kernel)
  exact ⟨t, b, run, of_decide_eq_true reached,
    (slice_budget_kept (registered_fresh 1 .overcommit _) rfl (by decide) run).1⟩

/-- No recharge of tenant `i` comes between its fetch_sub on time_remain_us and its
    fetch_add on total_exec_us. -/
def RechargedApart (i : ℕ) (s : System) : Action → Prop
  | .step my _ => ∀ sliceUs, s.pc my = .rechargeRemain i sliceUs → ∀ e, s.pc i ≠ .addExec e
  | _ => True

structure WhollyBooked (b : Meter) : Prop where
  running : ∀ v ∈ b.running, v.owedBefore = 0
  ended : ∀ v ∈ b.ended, v.stretch.owedBefore = 0 ∧ v.owedAfter = 0

theorem metering_whollyBooked {i : ℕ} {s : System} {b : Meter} {a : Action}
    (booked : WhollyBooked b) (apart : RechargedApart i s a) :
    WhollyBooked (metering i s a b) := by
  cases a with
  | step my us =>
    simp only [metering, meterAccess]
    split
    · rename_i j sliceUs here
      split
      · rename_i same
        subst same
        have owed : (s.pc j).owedExec = 0 := by
          cases at_total : s.pc j with
          | addExec e => exact absurd at_total (apart sliceUs here e)
          | _ => rfl
        refine ⟨by simp [owed], ?_⟩
        intro v ended
        rcases List.mem_append.mp ended with now | before
        · simp only [Option.mem_toList, Option.map_eq_some_iff] at now
          obtain ⟨w, running, rfl⟩ := now
          exact ⟨booked.running w running, owed⟩
        · exact booked.ended v before
      · exact booked
    · split
      · refine ⟨?_, booked.ended⟩
        intro v running
        obtain ⟨w, before, rfl⟩ := Option.map_eq_some_iff.mp running
        exact booked.running w before
      · exact booked
    · exact booked
  | _ => exact booked

/-- Where no recharge comes between the two, total_exec_us grows by what is deducted in every
    stretch. -/
theorem booked_when_recharged_apart {round : ℚ → ℚ} {i : ℕ} {s t : System} {b : Meter}
    {labels : List Action} (fresh : Fresh s) (overcommit : s.shm.mode = .overcommit)
    (fixedMode : ∀ a ∈ labels, a.keepsMode)
    (run : Run (Watched (metering i) (Guarded (RechargedApart i) (GateStep round)))
      (s, {}) labels (t, b)) :
    ∀ v ∈ b.ended, v.execAfter - v.stretch.execBefore = v.stretch.deducted.sum := by
  have wholly := run_invariant (fun x : System × Meter => WhollyBooked x.2)
    (by
      rintro x a y booked ⟨⟨apart, -⟩, recorded⟩
      rw [recorded]
      exact metering_whollyBooked booked apart)
    run ⟨by simp, by simp⟩
  have budget := run_onBudget fresh overcommit fixedMode
    (run_mono (fun _ _ _ step => ⟨step.1.2, step.2⟩) run)
  intro v ended
  have balance := (budget.ended v ended).2
  obtain ⟨before, after⟩ := wholly.ended v ended
  omega

/-- Both tenants finish all_waiting, tenant 1 runs a round and a killer up to its deduction,
    and then tenant 0 starts a second round that recharges tenant 1. -/
def rechargedHalfBooked : List Action :=
  .launch 0 :: .launch 1 :: steps 0 4 ++ steps 1 4 ++ steps 0 5 ++ steps 1 5 ++ steps 1 20 ++
    steps 1 9 ++ steps 0 13

/-- The 10 microseconds are deducted in this stretch and not added to the total in it. -/
theorem deduction_not_booked : Fresh (registered 2 .overcommit fun _ => 0) ∧
    (∀ a ∈ rechargedHalfBooked, a.keepsMode) ∧ ∃ t b,
    Run (Watched (metering 1) (GateStep id)) (registered 2 .overcommit fun _ => 0, {})
      rechargedHalfBooked (t, b) ∧
    ∃ v ∈ b.ended, v.stretch.deducted = [10] ∧ v.execAfter - v.stretch.execBefore = 0 := by
  refine ⟨registered_fresh 2 .overcommit _, by decide, ?_⟩
  obtain ⟨⟨t, b⟩, run, reached⟩ := watched_run_reaches
    (fun y : System × Meter => decide (y.2.ended = [⟨⟨500, [10], 0, 0⟩, 0, 10⟩]))
    (show (exec (watching (metering 1) (next id)) (registered 2 .overcommit fun _ => 0, {})
      rechargedHalfBooked).any _ = true by decide +kernel)
  have ended : b.ended = [⟨⟨500, [10], 0, 0⟩, 0, 10⟩] := of_decide_eq_true reached
  refine ⟨t, b, run, ⟨⟨500, [10], 0, 0⟩, 0, 10⟩, ?_, rfl, rfl⟩
  rw [ended]
  exact List.mem_singleton_self _

end Gate
