import KrakenRuntime.Lib.Runs
import Mathlib.Data.Int.Notation

/- The QMD space mode of libbless (libbless.cpp): kraken_qmd_setup, which registers the
   launch callback with the driver, and the branch of reconf_limited_ctx that turns the mode
   on. The driver answers each call as it likes. The part of reconf_limited_ctx behind this
   branch, which recreates the limited context, is in Routing and touches none of these
   variables. -/
namespace QmdMode
open Runs

/-- What the driver answers to cuGetExportTable (with whether it gave a table), to the
    table's subscribe and to its enable. Zero is success. -/
structure Driver where
  getExportTable : ℤ
  table : Bool
  subscribe : ℤ
  enable : ℤ
  deriving DecidableEq

structure Env where
  limitPct : Option ℤ := none
  spread : Bool := false

def qmdTpcTotal : ℕ := 94

/-- `callback` is the driver's: kraken_qmd_callback is subscribed and enabled. -/
structure State where
  setupDone : Bool := false
  callback : Bool := false
  qmdActive : Bool := false
  qmdMaskW0 : BitVec 32 := 0
  qmdMaskW1 : BitVec 32 := 0
  qmdMaskW2 : BitVec 32 := 0
  qmdAllowedTpc : ℕ := qmdTpcTotal
  deriving DecidableEq

def Driver.registers (d : Driver) : Bool :=
  decide (d.getExportTable = 0) && d.table && decide (d.subscribe = 0) && decide (d.enable = 0)

/-- The flag is taken before the driver is asked, and is not given back. -/
def krakenQmdSetup (s : State) (d : Driver) : State × Bool :=
  if s.setupDone then (s, true)
  else ({ s with setupDone := true, callback := s.callback || d.registers }, d.registers)

def krakenQmdPctToTpc (pct : ℤ) : ℕ := ((qmdTpcTotal * (max 1 (min pct 100)) + 99) / 100).toNat

def openTpc (allowed : ℕ) (given : List ℕ) (t : ℕ) : List ℕ :=
  if given.length < allowed ∧ t ∉ given then given ++ [t] else given

def openTpcs (spread : Bool) (allowed : ℕ) : List ℕ :=
  if spread then
    let stride := qmdTpcTotal / allowed
    let apart := ((List.range qmdTpcTotal).filter fun t => t % stride = 0).foldl (openTpc allowed) []
    (List.range qmdTpcTotal).foldl (openTpc allowed) apart
  else List.range allowed

/-- Word `w` of the mask; a set bit forbids its TPC. -/
def maskWord (given : List ℕ) (w : ℕ) : BitVec 32 :=
  (given.filter fun t => t / 32 = w).foldl (fun m t => m &&& ~~~(1#32 <<< (t % 32))) (BitVec.allOnes 32)

def krakenQmdSetAllowed (e : Env) (s : State) (n : ℕ) : State :=
  let given := openTpcs e.spread (max 1 (min n qmdTpcTotal))
  { s with
    qmdMaskW0 := maskWord given 0
    qmdMaskW1 := maskWord given 1
    qmdMaskW2 := maskWord given 2
    qmdAllowedTpc := given.length }

def limitPct (e : Env) : ℤ :=
  match e.limitPct with
  | some v => if 0 < v ∧ v ≤ 100 then v else 50
  | none => 50

def reconfLimitedCtx (e : Env) (s : State) (d : Driver) : State :=
  match krakenQmdSetup s d with
  | (s, true) =>
    { krakenQmdSetAllowed e s (krakenQmdPctToTpc (limitPct e)) with qmdActive := true }
  | (s, false) => s

/-- The call in ensure_init and the commands of the control server in SPACE_QMD mode, each
    with what the driver would answer. -/
inductive Action where
  | init (d : Driver)
  | reconfSm (k : ℤ) (d : Driver)
  | setLimitPct (pct : ℤ) (d : Driver)
  | qmdPct (pct : ℤ)
  deriving DecidableEq

def next (e : Env) (s : State) : Action → Option State
  | .init d => some (reconfLimitedCtx e s d)
  | .reconfSm k d => some (if 0 < k then reconfLimitedCtx e s d else s)
  | .setLimitPct _ d => some (reconfLimitedCtx e s d)
  | .qmdPct pct => some (krakenQmdSetAllowed e s (krakenQmdPctToTpc pct))

abbrev QmdStep (e : Env) : State → Action → State → Prop := Fires (next e)

def Action.attempts : Action → Bool
  | .init _ => true
  | .reconfSm k _ => decide (0 < k)
  | .setLimitPct .. => true
  | .qmdPct _ => false

/-- The mode is on only if the callback that enforces it is registered. -/
def Enforced (s : State) : Prop := s.qmdActive = true → s.callback = true

instance (s : State) : Decidable (Enforced s) := inferInstanceAs (Decidable (_ → _))

/-- No reconfiguration follows an attempt at the setup that has failed. -/
def SetUp (s : State) (a : Action) : Prop :=
  a.attempts = true → s.setupDone = true → s.callback = true

instance (s : State) (a : Action) : Decidable (SetUp s a) := inferInstanceAs (Decidable (_ → _ → _))

theorem reconf_enforced_iff (e : Env) {s : State} (d : Driver) (enforced : Enforced s) :
    (s.setupDone = true → s.callback = true) ↔ Enforced (reconfLimitedCtx e s d) := by
  cases done : s.setupDone with
  | true =>
    -- the setup is skipped and reports success
    simp [Enforced, reconfLimitedCtx, krakenQmdSetup, krakenQmdSetAllowed, done]
  | false =>
    cases answer : d.registers with
    | true => simp [Enforced, reconfLimitedCtx, krakenQmdSetup, krakenQmdSetAllowed, done, answer]
    | false =>
      have same : Enforced (reconfLimitedCtx e s d) := by
        simpa [Enforced, reconfLimitedCtx, krakenQmdSetup, done, answer] using enforced
      exact iff_of_true nofun same

theorem step_enforced_iff (e : Env) {s t : State} {a : Action} (enforced : Enforced s)
    (step : QmdStep e s a t) : SetUp s a ↔ Enforced t := by
  cases a with
  | init d =>
    cases step
    simpa [SetUp, Action.attempts] using reconf_enforced_iff e d enforced
  | setLimitPct pct d =>
    cases step
    simpa [SetUp, Action.attempts] using reconf_enforced_iff e d enforced
  | reconfSm k d =>
    cases step
    by_cases positive : 0 < k
    · simpa [SetUp, Action.attempts, positive] using reconf_enforced_iff e d enforced
    · simpa [SetUp, Action.attempts, positive] using enforced
  | qmdPct pct =>
    cases step
    simpa [SetUp, Action.attempts, Enforced, krakenQmdSetAllowed] using enforced

/-- The mode is reported active only when it is enforced, in every state of a run, exactly
    when no reconfiguration of the run follows a failed setup. -/
theorem qmd_enforced_iff (e : Env) {t : State} {labels : List Action}
    (run : Run (QmdStep e) {} labels t) :
    Run (Guarded SetUp (QmdStep e)) {} labels t ↔
      ∀ xs ys u, labels = xs ++ ys → Run (QmdStep e) {} xs u → Enforced u := by
  have fresh : Enforced {} := nofun
  have always : ∀ s a u, True → QmdStep e s a u → True := fun _ _ _ _ _ => trivial
  exact run_guarded_iff (fires_deterministic _) always
    (fun _ _ _ _ enforced step => step_enforced_iff e enforced step) run trivial fresh

def willing : Driver := ⟨0, true, 0, 0⟩

def refusing : Driver := ⟨0, true, 0, 1⟩

def setUpOnce : List Action := [.init willing, .reconfSm 10 refusing, .setLimitPct 30 willing]

theorem set_up_once_enforced : ∃ t, Run (QmdStep {}) {} setUpOnce t ∧ t.qmdActive = true ∧
    ∀ xs ys u, setUpOnce = xs ++ ys → Run (QmdStep {}) {} xs u → Enforced u := by
  obtain ⟨t, guarded, active⟩ := guarded_run_reaches SetUp (fun t : State => t.qmdActive)
    (show (exec (guarding SetUp (next {})) {} setUpOnce).any _ = true by decide +kernel)
  have run := run_mono (fun _ _ _ step => step.2) guarded
  exact ⟨t, run, active, (qmd_enforced_iff {} run).mp guarded⟩

def refusedThenReconf : List Action := [.init refusing, .reconfSm 10 refusing]

theorem active_without_callback : ∃ t, Run (QmdStep {}) {} refusedThenReconf t ∧
    t.qmdActive = true ∧ t.callback = false := by
  obtain ⟨t, run, reached⟩ := run_reaches
    (fun t : State => decide (t.qmdActive = true ∧ t.callback = false))
    (show (exec (next {}) {} refusedThenReconf).any _ = true by decide +kernel)
  exact ⟨t, run, of_decide_eq_true reached⟩

end QmdMode
