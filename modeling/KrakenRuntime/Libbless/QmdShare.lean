import KrakenRuntime.Libbless.QmdMask

/- The share that is in force in SPACE_QMD mode (libbless.cpp): the commands qmd_pct and
   set_limit_pct of the control server after the mode was turned on, with allocations in
   between. qmd_pct sets the mask by its argument; set_limit_pct keeps its argument as
   requested_pct and goes through reconf_limited_ctx, which sets the mask by BLESS_LIMIT_PCT
   again. The rest of reconf_limited_ctx, where an allocation makes a difference, does not
   touch the mask. -/
namespace QmdShare
open Runs QmdMode QmdMask

structure State where
  qmd : QmdMode.State
  requestedPct : ℤ
  anyAlloc : Bool := false
  deriving DecidableEq

inductive Action where
  | allocate
  | qmdPct (pct : ℤ)
  | setLimitPct (pct : ℤ) (d : Driver)
  deriving DecidableEq

def clampPct (pct : ℤ) : ℤ := max 1 (min pct 99)

def next (e : Env) (s : State) : Action → Option State
  | .allocate => some { s with anyAlloc := true }
  | .qmdPct pct => (QmdMode.next e s.qmd (.qmdPct pct)).map fun qmd => { s with qmd := qmd }
  | .setLimitPct pct d =>
    (QmdMode.next e s.qmd (.setLimitPct pct d)).map fun qmd =>
      { s with qmd := qmd, requestedPct := clampPct pct }

/-- BLESS_LIMIT_PCT as ensure_init reads it, which does not take 100 where reconf_limited_ctx
    does. -/
def initPct (e : Env) : ℤ :=
  match e.limitPct with
  | some v => if 0 < v ∧ v < 100 then v else 50
  | none => 50

def start (e : Env) (d : Driver) : State where
  qmd := reconfLimitedCtx e {} d
  requestedPct := initPct e

def observe (_ : State) : Action → ℤ → ℤ
  | .allocate, q => q
  | .qmdPct pct, _ => max 1 (min pct 100)
  | .setLimitPct pct _, _ => clampPct pct

abbrev ShareStep (e : Env) : State × ℤ → Action → State × ℤ → Prop :=
  Watched observe (Fires (next e))

structure InForce (e : Env) (s : State) (q : ℤ) : Prop where
  maskW0 : s.qmd.qmdMaskW0 = (krakenQmdSetAllowed e s.qmd (krakenQmdPctToTpc q)).qmdMaskW0
  maskW1 : s.qmd.qmdMaskW1 = (krakenQmdSetAllowed e s.qmd (krakenQmdPctToTpc q)).qmdMaskW1
  maskW2 : s.qmd.qmdMaskW2 = (krakenQmdSetAllowed e s.qmd (krakenQmdPctToTpc q)).qmdMaskW2
  allowed : s.qmd.qmdAllowedTpc = (krakenQmdSetAllowed e s.qmd (krakenQmdPctToTpc q)).qmdAllowedTpc

/-- A command that asks for the share of BLESS_LIMIT_PCT, or does not go the way that
    forgets what it asks for. -/
def Agrees (e : Env) : Action → Prop
  | .setLimitPct pct _ => krakenQmdPctToTpc (clampPct pct) = krakenQmdPctToTpc (limitPct e)
  | _ => True

theorem pctToTpc_count (pct : ℤ) : Count (krakenQmdPctToTpc pct) := by
  unfold Count krakenQmdPctToTpc qmdTpcTotal
  omega

theorem setAllowed_allowed (e : Env) (q : QmdMode.State) (pct : ℤ) :
    (krakenQmdSetAllowed e q (krakenQmdPctToTpc pct)).qmdAllowedTpc = krakenQmdPctToTpc pct := by
  obtain ⟨positive, bounded⟩ := pctToTpc_count pct
  simp only [krakenQmdSetAllowed]
  rw [length_openTpcs (by omega)]
  omega

theorem pctToTpc_clamped (pct : ℤ) :
    krakenQmdPctToTpc (max 1 (min pct 100)) = krakenQmdPctToTpc pct := by
  have same : max 1 (min (max 1 (min pct 100)) 100) = max 1 (min pct 100) := by omega
  rw [krakenQmdPctToTpc, same, krakenQmdPctToTpc]

theorem inForce_iff (e : Env) {s : State} {pct q : ℤ} (inForce : InForce e s pct) :
    InForce e s q ↔ krakenQmdPctToTpc q = krakenQmdPctToTpc pct := by
  constructor
  · intro other
    have counted := inForce.allowed
    have counted' := other.allowed
    rw [setAllowed_allowed] at counted counted'
    exact counted'.symm.trans counted
  · intro same
    obtain ⟨w0, w1, w2, allowed⟩ := inForce
    rw [← same] at w0 w1 w2 allowed
    exact ⟨w0, w1, w2, allowed⟩

theorem reconf_in_force (e : Env) {q : QmdMode.State} {d : Driver} (requested : ℤ) (any : Bool)
    (set_up : q.setupDone = true ∨ d.registers = true) :
    InForce e ⟨reconfLimitedCtx e q d, requested, any⟩ (limitPct e) ∧
      (reconfLimitedCtx e q d).setupDone = true := by
  have succeeds : (krakenQmdSetup q d).2 = true ∧ (krakenQmdSetup q d).1.setupDone = true := by
    unfold krakenQmdSetup
    cases done : q.setupDone with
    | true => simp [done]
    | false => simpa [done] using set_up
  cases setup : krakenQmdSetup q d with
  | mk q' ok =>
    rw [setup] at succeeds
    obtain ⟨rfl, done⟩ := succeeds
    simp only [reconfLimitedCtx, setup]
    exact ⟨⟨rfl, rfl, rfl, rfl⟩, done⟩

theorem start_in_force (e : Env) {d : Driver} (registered : d.registers = true) :
    InForce e (start e d) (limitPct e) ∧ (start e d).qmd.setupDone = true :=
  reconf_in_force e (initPct e) false (.inr registered)

section Steps
variable {e : Env} {x y : State × ℤ} {a : Action}

theorem step_set_up (set_up : x.1.qmd.setupDone = true) (step : ShareStep e x a y) :
    y.1.qmd.setupDone = true := by
  obtain ⟨step, _⟩ := step
  cases a with
  | allocate =>
    rw [← Option.some.inj step]
    exact set_up
  | qmdPct pct =>
    rw [← Option.some.inj step]
    exact set_up
  | setLimitPct pct d =>
    rw [← Option.some.inj step]
    exact (reconf_in_force e (clampPct pct) x.1.anyAlloc (.inl set_up)).2

/-- The share of the last request is in force after a step exactly if the step agrees. -/
theorem step_in_force_iff (set_up : x.1.qmd.setupDone = true) (inForce : InForce e x.1 x.2)
    (step : ShareStep e x a y) : Agrees e a ↔ InForce e y.1 y.2 := by
  obtain ⟨step, requested⟩ := step
  rw [requested]
  cases a with
  | allocate =>
    rw [← Option.some.inj step]
    obtain ⟨w0, w1, w2, allowed⟩ := inForce
    exact iff_of_true trivial ⟨w0, w1, w2, allowed⟩
  | qmdPct pct =>
    rw [← Option.some.inj step]
    refine iff_of_true trivial ?_
    simp only [observe]
    constructor
    all_goals
      rw [pctToTpc_clamped]
      rfl
  | setLimitPct pct d =>
    rw [← Option.some.inj step]
    have limit := (reconf_in_force e (d := d) (clampPct pct) x.1.anyAlloc (.inl set_up)).1
    exact (inForce_iff e limit).symm

end Steps

/-- In every state that the commands lead to the last requested share is in force, if and
    only if every set_limit_pct among them asks for as many TPCs as BLESS_LIMIT_PCT. -/
theorem last_share_in_force_iff {e : Env} {pct : ℤ} (limit : e.limitPct = some pct)
    (range : 1 ≤ pct ∧ pct ≤ 99) {d : Driver} (registered : d.registers = true)
    {labels : List Action} {y : State × ℤ}
    (run : Run (ShareStep e) (start e d, pct) labels y) :
    (∀ xs ys z, labels = xs ++ ys → Run (ShareStep e) (start e d, pct) xs z →
        InForce e z.1 z.2) ↔
      ∀ p answer, Action.setLimitPct p answer ∈ labels →
        krakenQmdPctToTpc (clampPct p) = krakenQmdPctToTpc pct := by
  have given : limitPct e = pct := by
    simp only [limitPct, limit]
    rw [if_pos (by omega)]
  have begun := start_in_force e registered
  rw [given] at begun
  have guarded := run_guarded_iff
    (watched_deterministic (fires_deterministic (next e)))
    (fun _ _ _ set_up step => step_set_up set_up step)
    (fun x a y set_up (inForce : InForce e x.1 x.2) step =>
      step_in_force_iff set_up inForce step) run begun.2 begun.1
  rw [← guarded]
  rw [run_guarded_labels_iff run]
  constructor
  · intro agree p answer member
    rw [← given]
    exact agree _ member
  · intro agree a member
    cases a with
    | allocate => trivial
    | qmdPct p => trivial
    | setLimitPct p answer =>
      rw [Agrees, given]
      exact agree p answer member

/-- 16 and 17 percent both amount to 16 TPCs. -/
def agreeing : List Action := [.qmdPct 40, .allocate, .setLimitPct 17 refusing, .qmdPct (-3)]

theorem agreeing_in_force : ∃ y,
    Run (ShareStep ⟨some 16, false⟩) (start ⟨some 16, false⟩ willing, 16) agreeing y ∧
      ∀ xs ys z, agreeing = xs ++ ys →
        Run (ShareStep ⟨some 16, false⟩) (start ⟨some 16, false⟩ willing, 16) xs z →
          InForce ⟨some 16, false⟩ z.1 z.2 := by
  obtain ⟨y, run, _⟩ := watched_run_reaches (fun y : State × ℤ => y.1.anyAlloc)
    (show (exec (watching observe (next ⟨some 16, false⟩)) (start ⟨some 16, false⟩ willing, 16)
      agreeing).any _ = true by decide +kernel)
  refine ⟨y, run, (last_share_in_force_iff rfl (by decide) (by decide) run).mpr ?_⟩
  intro p answer member
  simp only [agreeing, List.mem_cons, Action.setLimitPct.injEq, List.not_mem_nil, or_false,
    reduceCtorEq, false_or] at member
  rw [member.1]
  decide

/-- With BLESS_LIMIT_PCT at 50 a request for 20 percent leaves 47 TPCs open, not 19. -/
theorem requested_share_not_in_force : ∃ y,
    Run (ShareStep ⟨some 50, false⟩) (start ⟨some 50, false⟩ willing, 50)
        [.setLimitPct 20 willing] y ∧
      y.2 = 20 ∧ krakenQmdPctToTpc 20 = 19 ∧ y.1.qmd.qmdAllowedTpc = 47 ∧
      ¬ InForce ⟨some 50, false⟩ y.1 y.2 := by
  obtain ⟨y, run, checked⟩ := watched_run_reaches
    (fun y : State × ℤ => decide (y.2 = 20 ∧ y.1.qmd.qmdAllowedTpc = 47))
    (show (exec (watching observe (next ⟨some 50, false⟩)) (start ⟨some 50, false⟩ willing, 50)
      [.setLimitPct 20 willing]).any _ = true by decide +kernel)
  obtain ⟨requested, open_tpcs⟩ := of_decide_eq_true checked
  refine ⟨y, run, requested, by decide, open_tpcs, ?_⟩
  intro inForce
  have counted := inForce.allowed
  rw [setAllowed_allowed, requested, open_tpcs] at counted
  exact absurd counted (by decide)

end QmdShare
