import KrakenRuntime.Lib.Ledger
import KrakenRuntime.Lib.Threads
import KrakenRuntime.Libbless.TimeGate
import Mathlib.Data.Fintype.Card

/- Conservation of time credit and the bound on the overdraft, for a process that is armed
   in time mode and from then on receives only time_add and peer_idle. A thread is
   admitted on a load of the credit that stood above the floor, and owes one charge until
   it has made it; a batch that rides along owes nothing. So the credit is an account of
   the ledger library with the threads that owe as its holders, as long as the word that
   holds it does not wrap. -/
namespace TimeGate
open Runs Ledger Int64Word
variable {n : ℕ}

/-- What was added to the credit and to total_time_us, and the batches taken from the
    credit, the last one first. -/
structure Books where
  added : ℤ := 0
  measured : ℤ := 0
  charges : List ℤ := []

def Books.longest (b : Books) : ℤ := b.charges.foldr max 0

def entered (t : Thread) : ℤ :=
  match t.pc with
  | .addTotal elapsedUs _ => elapsedUs
  | _ => 0

def observe (s : State n) : Action n → Books → Books
  | .command (.timeAdd us), b => { b with added := b.added + us }
  | .step i, b =>
    { b with
      measured := b.measured + entered (s.threads i)
      charges :=
        match (s.threads i).pc with
        | .subCredit elapsedUs _ => elapsedUs :: b.charges
        | _ => b.charges }
  | _, b => b

/-- The credit above which a launch passes the gate. -/
def floor (g : Shared) : ℤ := if g.currentPriority = .urgent then -g.urgentLimitUs else 0

def pending (t : Thread) : ℤ :=
  match t.pc with
  | .loadAvg elapsedUs _ | .storeAvg elapsedUs _ _ => elapsedUs
  | .chargeUnlimited elapsedUs _ | .subCredit elapsedUs _ => elapsedUs
  | _ => 0

def PC.charging : PC → Prop
  | .addTotal _ _ | .loadAvg _ _ | .storeAvg _ _ _ | .chargeUnlimited _ _ | .subCredit _ _ => True
  | _ => False

def PC.admitted (floor : ℤ) : PC → Prop
  | .batchStart | .borrowEvents _ | .borrowUs _ | .wcPass => True
  | .loadPriority credit | .loadLimit credit => floor < credit
  | _ => False

def PC.loadsCredit : PC → Prop
  | .loadCredit | .waitCredit _ => True
  | _ => False

instance (pc : PC) : Decidable pc.charging := by
  induction pc using PC.casesOn <;> dsimp only [PC.charging] <;> infer_instance

instance (floor : ℤ) (pc : PC) : Decidable (pc.admitted floor) := by
  induction pc using PC.casesOn <;> dsimp only [PC.admitted] <;> infer_instance

/-- A charge is coming from this thread that no later load of the credit has to allow. -/
def Owes (floor : ℤ) (t : Thread) : Prop :=
  t.pc.charging ∨ (t.wcRiding = false ∧ (0 < t.batchKernelCount ∨ t.pc.admitted floor))

instance (floor : ℤ) : DecidablePred (Owes floor) :=
  fun _ => inferInstanceAs (Decidable (_ ∨ _))

def After.below (floor : ℤ) : After → Prop
  | .wait credit => credit ≤ floor
  | .synced => True

def PC.sound (g : Shared) : PC → Prop
  | .loadPriority credit => credit ≤ 0
  | .loadLimit credit => credit ≤ 0 ∧ g.currentPriority = .urgent
  | .denied credit | .loadMetrics credit | .wakePriority credit => credit ≤ floor g
  | .wakeLimit credit => credit ≤ floor g ∧ g.currentPriority = .urgent
  | .charge k => k.below (floor g)
  | .wcExtra elapsedUs k | .addTotal elapsedUs k | .loadAvg elapsedUs k => 0 ≤ elapsedUs ∧ k.below (floor g)
  | .storeAvg elapsedUs _ k | .chargeUnlimited elapsedUs k => 0 ≤ elapsedUs ∧ k.below (floor g)
  | .subCredit elapsedUs k => 0 ≤ elapsedUs ∧ k.below (floor g)
  | .loadWcOn wakeAt | .loadPeerIdle wakeAt | .readNow wakeAt => wakeAt = floor g
  | .loadPeerIdleAt wakeAt _ | .waitUnlimited wakeAt | .waitCredit wakeAt => wakeAt = floor g
  | .kernelGate => False
  | _ => True

structure Sound (g : Shared) (t : Thread) : Prop where
  started : 0 < t.batchKernelCount → t.batchStartUs ≤ g.nowUs
  loaded : t.pc.sound g

/-- The part of the shared state that stays as it was when the process was armed. -/
structure InForce (g₀ g : Shared) : Prop where
  mode : g.creditMode = 1
  limited : g.timeUnlimited = false
  unboosted : g.boostMode = false
  priority : g.currentPriority = g₀.currentPriority
  limit : g.urgentLimitUs = g₀.urgentLimitUs

theorem inForce_floor {g₀ g : Shared} (inForce : InForce g₀ g) : floor g = floor g₀ := by
  simp only [floor, inForce.priority, inForce.limit]

section Access
variable {g₀ g : Shared} {t : Thread}

theorem access_inForce (inForce : InForce g₀ g) : InForce g₀ (access g t).1 := by
  obtain ⟨mode, limited, unboosted, priority, limit⟩ := inForce
  unfold access
  split <;> exact ⟨mode, limited, unboosted, priority, limit⟩

theorem access_now : (access g t).1.nowUs = g.nowUs := by
  unfold access
  split <;> rfl

theorem access_priority : (access g t).1.currentPriority = g.currentPriority := by
  unfold access
  split <;> rfl

theorem access_floor : floor (access g t).1 = floor g := by
  unfold access
  split <;> rfl

theorem loopTest_sound {credit wakeAt : ℤ} (here : wakeAt = floor g) :
    (loopTest credit wakeAt).sound g := by
  unfold loopTest
  split
  · exact here
  · trivial

theorem resume_sound {k : After} (below : k.below (floor g)) : (resume k).sound g := by
  cases k with
  | wait credit => exact below
  | synced => trivial

theorem sound_of_floor {g' : Shared} {pc : PC} (same : floor g' = floor g)
    (priority : g'.currentPriority = g.currentPriority) (sound : pc.sound g) : pc.sound g' := by
  cases pc <;> simp_all [PC.sound]

theorem access_loaded (inForce : InForce g₀ g) (sound : Sound g t) :
    (access g t).2.pc.sound g := by
  obtain ⟨started, loaded⟩ := sound
  obtain ⟨mode, limited, unboosted, _, _⟩ := inForce
  obtain ⟨pc, start, count, riding⟩ := t
  simp only at started loaded
  cases pc with
  | loadMode => simp [access, mode, Thread.goto, PC.sound]
  | kernelGate => exact loaded.elim
  | loadBoost => simp [access, unboosted, Thread.goto, PC.sound]
  | loadUnlimited => simp [access, limited, Thread.goto, PC.sound]
  | loadCredit =>
    simp only [access, Thread.goto]
    split
    · trivial
    · simp only [PC.sound]
      omega
  | loadPriority credit =>
    simp only [PC.sound] at loaded
    simp only [access, Thread.goto]
    split
    · rename_i urgent
      exact ⟨loaded, urgent⟩
    · rename_i calm
      simp only [PC.sound, After.below, floor, if_neg calm]
      exact loaded
  | loadLimit credit =>
    obtain ⟨_, urgent⟩ := loaded
    simp only [access, Thread.goto]
    split
    · trivial
    · simp only [PC.sound, floor, if_pos urgent]
      omega
  | charge k =>
    simp only [PC.sound] at loaded
    simp only [access]
    split
    · exact resume_sound loaded
    · rename_i some_kernels
      have early := started (by omega)
      split
      · exact ⟨by omega, loaded⟩
      · exact ⟨by omega, loaded⟩
  | wcExtra elapsedUs k => exact resume_sound loaded.2
  | chargeUnlimited elapsedUs k =>
    simp only [access, limited]
    exact loaded
  | subCredit elapsedUs k => exact resume_sound loaded.2
  | wakePriority credit =>
    simp only [PC.sound] at loaded
    simp only [access, Thread.goto]
    split
    · rename_i urgent
      exact ⟨loaded, urgent⟩
    · rename_i calm
      apply loopTest_sound
      simp [floor, calm]
  | wakeLimit credit =>
    simp only [access, Thread.goto]
    apply loopTest_sound
    simp [floor, loaded.2]
  | loadWcOn wakeAt | loadPeerIdle wakeAt =>
    simp only [access, Thread.goto]
    split <;> exact loaded
  | loadPeerIdleAt wakeAt nowUs =>
    simp only [access, Thread.goto]
    split
    · trivial
    · exact loaded
  | waitUnlimited wakeAt =>
    simp only [access, Thread.goto, limited]
    exact loaded
  | waitCredit wakeAt => exact loopTest_sound loaded
  | syncMode => simp [access, mode, Thread.goto, PC.sound, After.below]
  | outside | borrowEvents _ | borrowUs _ | wcPass | batchStart => trivial
  | denied _ | loadMetrics _ | addTotal _ _ | loadAvg _ _ | storeAvg _ _ _ | readNow _ =>
    exact loaded

theorem access_started (sound : Sound g t) (open_ : 0 < (access g t).2.batchKernelCount) :
    (access g t).2.batchStartUs ≤ g.nowUs := by
  have started := sound.started
  obtain ⟨pc, start, count, riding⟩ := t
  cases pc with
  | batchStart =>
    simp only [access]
    split
    · exact le_refl _
    · exact started (by simp only; omega)
  | charge k =>
    revert open_
    simp only [access]
    split
    · exact started
    · split <;> exact started
  | chargeUnlimited elapsedUs k =>
    revert open_
    simp only [access]
    split
    · simp [Thread.reset]
    · exact started
  | wcExtra _ _ | subCredit _ _ => simp [access, Thread.reset] at open_
  | loadPeerIdleAt wakeAt nowUs =>
    revert open_
    simp only [access]
    split <;> exact started
  | _ => exact started open_

theorem access_sound (inForce : InForce g₀ g) (sound : Sound g t) :
    Sound (access g t).1 (access g t).2 := by
  constructor
  case started =>
    rw [access_now]
    exact access_started sound
  case loaded => exact sound_of_floor access_floor access_priority (access_loaded inForce sound)

def taken (t : Thread) : ℤ :=
  match t.pc with
  | .subCredit elapsedUs _ => elapsedUs
  | _ => 0

theorem access_credit : (access g t).1.timeCreditUs = g.timeCreditUs - taken t := by
  obtain ⟨pc, start, count, riding⟩ := t
  cases pc <;> simp [access, taken]

theorem access_entered : (access g t).1.totalTimeUs = g.totalTimeUs + entered t := by
  obtain ⟨pc, start, count, riding⟩ := t
  cases pc <;> simp [access, entered]

theorem pending_goto_resume (t : Thread) (k : After) : pending (t.goto (resume k)) = 0 := by
  cases k <;> rfl

theorem pending_reset (t : Thread) (k : After) : pending (t.reset k) = 0 := by
  cases k <;> rfl

theorem pending_loopTest (t : Thread) (credit wakeAt : ℤ) :
    pending (t.goto (loopTest credit wakeAt)) = 0 := by
  unfold loopTest
  split <;> rfl

/-- What goes into the total comes out of the credit, once the update is complete. -/
theorem access_total (limited : g.timeUnlimited = false) :
    (access g t).1.totalTimeUs + pending t = g.totalTimeUs + pending (access g t).2 + taken t := by
  obtain ⟨pc, start, count, riding⟩ := t
  cases pc with
  | charge k =>
    simp only [access, taken]
    split
    · simp only [pending_goto_resume]
      simp [pending]
    · split <;> simp [pending, Thread.goto]
  | wcExtra _ k => cases k <;> simp [access, pending, taken, Thread.reset, resume]
  | subCredit elapsedUs k =>
    simp only [access, pending_reset, taken]
    simp [pending]
  | chargeUnlimited elapsedUs k => simp [access, limited, pending, taken, Thread.goto]
  | addTotal elapsedUs k => simp [access, pending, taken, Thread.goto]
  | wakePriority credit =>
    simp only [access, taken]
    split
    · simp [pending, Thread.goto]
    · simp only [pending_loopTest]
      simp [pending]
  | wakeLimit credit | waitCredit wakeAt =>
    simp only [access, taken, pending_loopTest]
    simp [pending]
  | loadMode | loadBoost | loadUnlimited | loadCredit | loadPriority _ | loadLimit _ | syncMode =>
    simp only [access, taken]
    split <;> simp [pending, Thread.goto]
  | loadWcOn _ | loadPeerIdle _ | loadPeerIdleAt _ _ | waitUnlimited _ =>
    simp only [access, taken]
    split <;> simp [pending, Thread.goto]
  | _ => simp [access, pending, taken, Thread.goto]

theorem access_pending (limited : g.timeUnlimited = false) :
    entered t + pending t = pending (access g t).2 + taken t := by
  have total := access_total (t := t) limited
  rw [access_entered] at total
  omega

theorem resume_owes (k : After) (limit : ℤ) :
    ¬ (resume k).charging ∧ ¬ (resume k).admitted limit := by
  cases k <;> simp [resume, PC.charging, PC.admitted]

theorem owes_goto {pc : PC} {limit : ℤ} (idle : ¬ pc.charging ∧ ¬ pc.admitted limit)
    (owes : Owes limit (t.goto pc)) : Owes limit t := by
  rcases owes with charging | ⟨calm, open_ | admitted⟩
  · exact absurd charging idle.1
  · exact .inr ⟨calm, .inl open_⟩
  · exact absurd admitted idle.2

theorem owes_reset {limit : ℤ} {k : After} : ¬ Owes limit (t.reset k) := by
  rintro (charging | ⟨_, open_ | admitted⟩)
  · exact (resume_owes k limit).1 charging
  · simp [Thread.reset] at open_
  · exact (resume_owes k limit).2 admitted

theorem owes_passing {pc : PC} {limit : ℤ} (calm : pc.charging → t.pc.charging)
    (passing : t.pc.admitted limit) (owes : Owes limit (t.goto pc)) : Owes limit t := by
  rcases owes with charging | ⟨calm', _⟩
  · exact .inl (calm charging)
  · exact .inr ⟨calm', .inr passing⟩

theorem access_owes_of_stays (inForce : InForce g₀ g) (shallow : floor g ≤ 0) (sound : Sound g t)
    (stays : ¬ t.pc.loadsCredit) (owes : Owes (floor g) (access g t).2) : Owes (floor g) t := by
  obtain ⟨mode, limited, unboosted, _, _⟩ := inForce
  have loaded := sound.loaded
  cases here : t.pc with
  | loadPriority credit =>
    simp only [access, here] at owes
    split at owes
    · by_cases above : floor g < credit
      · exact owes_passing (by simp [PC.charging]) (by rw [here]; exact above) owes
      · exact owes_goto (by exact ⟨by simp [PC.charging], above⟩) owes
    · exact owes_goto (by simp [PC.charging, PC.admitted]) owes
  | loadLimit credit =>
    rw [here] at loaded
    simp only [access, here] at owes
    split at owes
    · rename_i above
      apply owes_passing (by simp [PC.charging]) _ owes
      rw [here]
      simp only [PC.admitted, floor, if_pos loaded.2]
      exact above
    · exact owes_goto (by simp [PC.charging, PC.admitted]) owes
  | wakePriority credit =>
    rw [here] at loaded
    simp only [PC.sound] at loaded
    simp only [access, here, loopTest] at owes
    split at owes
    · exact owes_goto (by simp [PC.charging, PC.admitted]) owes
    · rw [if_pos (by omega)] at owes
      exact owes_goto (by simp [PC.charging, PC.admitted]) owes
  | wakeLimit credit =>
    rw [here] at loaded
    have low := loaded.1
    simp only [floor, if_pos loaded.2] at low
    simp only [access, here, loopTest, if_pos low] at owes
    exact owes_goto (by simp [PC.charging, PC.admitted]) owes
  | charge k =>
    simp only [access, here] at owes
    split at owes
    · exact owes_goto (resume_owes k _) owes
    · rename_i some_kernels
      split at owes
      · exact owes_goto (by simp [PC.charging, PC.admitted]) owes
      · rename_i calm
        exact .inr ⟨by simpa using calm, .inl (by omega)⟩
  | chargeUnlimited _ _ | addTotal _ _ | loadAvg _ _ | storeAvg _ _ _ | subCredit _ _ =>
    left
    rw [here]
    trivial
  | wcExtra elapsedUs k =>
    simp only [access, here] at owes
    exact absurd owes (owes_reset (t := { t with wcRiding := false }))
  | borrowEvents _ | borrowUs _ | wcPass =>
    simp only [access, here] at owes
    exact owes_passing (by simp [PC.charging]) (by rw [here]; trivial) owes
  | batchStart =>
    simp only [access, here] at owes
    rcases owes with charging | ⟨calm, _⟩
    · exact charging.elim
    · exact .inr ⟨calm, .inr (by rw [here]; trivial)⟩
  | loadPeerIdleAt wakeAt nowUs =>
    simp only [access, here] at owes
    split at owes
    · rcases owes with charging | ⟨calm, _⟩
      · exact charging.elim
      · cases calm
    · exact owes_goto (by simp [PC.charging, PC.admitted]) owes
  | loadMode | loadBoost | loadUnlimited | waitUnlimited _ | syncMode =>
    simp only [access, here, mode, limited, unboosted] at owes
    exact owes_goto (by simp [PC.charging, PC.admitted]) owes
  | loadWcOn _ | loadPeerIdle _ =>
    simp only [access, here] at owes
    split at owes <;> exact owes_goto (by simp [PC.charging, PC.admitted]) owes
  | denied _ | loadMetrics _ | readNow _ =>
    simp only [access, here] at owes
    exact owes_goto (by simp [PC.charging, PC.admitted]) owes
  | loadCredit | waitCredit _ =>
    rw [here] at stays
    exact absurd trivial stays
  | kernelGate =>
    rw [here] at loaded
    exact loaded.elim
  | outside =>
    simp only [access, here] at owes
    exact owes

/-- A thread comes to owe only by loading a credit above the floor. -/
theorem access_owes (inForce : InForce g₀ g) (shallow : floor g ≤ 0) (sound : Sound g t)
    (owes : Owes (floor g) (access g t).2) : Owes (floor g) t ∨ floor g < g.timeCreditUs := by
  by_cases above : floor g < g.timeCreditUs
  · exact .inr above
  left
  have loaded := sound.loaded
  by_cases loads : t.pc.loadsCredit
  · cases here : t.pc with
    | loadCredit =>
      simp only [access, here] at owes
      rw [if_neg (by omega)] at owes
      exact owes_goto (by exact ⟨by simp [PC.charging], above⟩) owes
    | waitCredit wakeAt =>
      rw [here] at loaded
      simp only [access, here, loopTest] at owes
      rw [if_pos (by rw [loaded]; omega)] at owes
      exact owes_goto (by simp [PC.charging, PC.admitted]) owes
    | _ =>
      rw [here] at loads
      exact loads.elim
  · exact access_owes_of_stays inForce shallow sound loads owes

theorem subCredit_owes (limit : ℤ) {elapsedUs : ℤ} {k : After} (here : t.pc = .subCredit elapsedUs k) :
    Owes limit t ∧ ¬ Owes limit (access g t).2 := by
  constructor
  · left
    rw [here]
    trivial
  · simp only [access, here]
    exact owes_reset

end Access

/-- The credit as an account whose holders are the threads that owe. -/
def account (s : State n) (b : Books) : Account (Fin n) ℤ where
  balance := s.shared.timeCreditUs
  granted := b.added
  charged := b.charges.sum
  longest := b.longest
  holders := Threads.having (Owes (floor s.shared)) s.threads

/-- A process armed in time mode, with no batch open. -/
structure Armed (s : State n) : Prop where
  mode : s.shared.creditMode = 1
  limited : s.shared.timeUnlimited = false
  unboosted : s.shared.boostMode = false
  credit : 0 ≤ s.shared.timeCreditUs
  limit : 0 ≤ s.shared.urgentLimitUs
  ready : s.control = .ready
  idle : ∀ i, (s.threads i).pc = .outside ∧ (s.threads i).batchKernelCount = 0

/-- Launches, synchronisations, the clock, time_add of what is not negative, and peer_idle. -/
def Action.settled : Action n → Prop
  | .command (.timeAdd us) => 0 ≤ us
  | .command (.peerIdle _) => True
  | .command _ => False
  | _ => True

instance (a : Action n) : Decidable a.settled := by
  induction a using Action.casesOn with
  | command c => induction c using Command.casesOn <;> dsimp only [Action.settled] <;> infer_instance
  | _ =>
    dsimp only [Action.settled]
    infer_instance

structure Counted (s₀ s : State n) (b : Books) : Prop where
  total : int64 s.shared.totalTimeUs = int64 (s₀.shared.totalTimeUs + b.measured)
  measured : b.measured = b.charges.sum + Threads.total pending s.threads
  elapsed : ∀ us ∈ b.charges, 0 ≤ us

structure Kept (s₀ s : State n) (b : Books) : Prop where
  inForce : InForce s₀.shared s.shared
  control : ∀ us, s.control ≠ .storeCredit us
  sound : ∀ i, Sound s.shared (s.threads i)
  counted : Counted s₀ s b
  net : net (account s b) = s₀.shared.timeCreditUs
  safe : Safe (floor s₀.shared) Finset.univ (account s b)

theorem armed_floor {s : State n} (armed : Armed s) : floor s.shared ≤ 0 := by
  unfold floor
  have limit := armed.limit
  split <;> omega

theorem armed_kept {s : State n} (armed : Armed s) : Kept s s {} := by
  have outside : ∀ i, (s.threads i).pc = .outside := fun i => (armed.idle i).1
  have nobody : Threads.having (Owes (floor s.shared)) s.threads = ∅ := by
    ext i
    simp [Threads.mem_having, Owes, armed.idle i, PC.charging, PC.admitted]
  constructor
  case inForce => exact ⟨armed.mode, armed.limited, armed.unboosted, rfl, rfl⟩
  case control => simp [armed.ready]
  case sound =>
    intro i
    constructor
    · simp [armed.idle i]
    · rw [outside i]
      trivial
  case counted =>
    have nothing : Threads.total pending s.threads = 0 :=
      Threads.total_eq_zero (by intro i; simp [pending, outside i])
    exact ⟨by simp, by simp [nothing], by simp⟩
  case net => simp [account, net]
  case safe =>
    have low := armed_floor armed
    have credit := armed.credit
    constructor
    case holders_subset => simp
    case longest_nonneg => simp [account, Books.longest]
    case overdraft =>
      simp [account, Books.longest]
      omega

section Steps
variable {s₀ s t : State n} {b : Books}

theorem kept_of_move (t : State n) (kept : Kept s₀ s b) {b' : Books}
    (inForce : InForce s₀.shared t.shared) (control : ∀ us, t.control ≠ .storeCredit us)
    (sound : ∀ i, Sound t.shared (t.threads i))
    (counted : Counted s₀ t b')
    (move : account t b' = account s b ∨
      Move (floor s₀.shared) Finset.univ (account s b) (account t b')) : Kept s₀ t b' := by
  constructor
  case inForce => exact inForce
  case control => exact control
  case sound => exact sound
  case counted => exact counted
  case net =>
    rcases move with same | move
    · rw [same]
      exact kept.net
    · exact (move_net move).trans kept.net
  case safe =>
    rcases move with same | move
    · rw [same]
      exact kept.safe
    · exact move_safe move kept.safe

theorem begin_kept (kept : Kept s₀ s b) {i : Fin n} {pc : PC}
    (outside : (s.threads i).pc = .outside) (begins : pc = .loadMode ∨ pc = .syncMode) :
    Kept s₀ { s with threads := Function.update s.threads i ((s.threads i).goto pc) } b := by
  have calm : pending ((s.threads i).goto pc) = pending (s.threads i) := by
    rcases begins with rfl | rfl <;> simp [pending, Thread.goto, outside]
  apply kept_of_move _ kept
  · exact kept.inForce
  · exact kept.control
  · intro j
    by_cases same : j = i
    · subst same
      have sound := kept.sound j
      simp only [Function.update_self]
      constructor
      · exact sound.started
      · rcases begins with rfl | rfl <;> trivial
    · simp only [Function.update_of_ne same]
      exact kept.sound j
  · obtain ⟨total, measured, elapsed⟩ := kept.counted
    have moved := Threads.total_update pending s.threads i ((s.threads i).goto pc)
    refine ⟨total, ?_, elapsed⟩
    simp only
    omega
  · left
    have owes : Owes (floor s.shared) ((s.threads i).goto pc) ↔
        Owes (floor s.shared) (s.threads i) := by
      rcases begins with rfl | rfl <;> simp [Owes, Thread.goto, outside, PC.charging, PC.admitted]
    simp only [account, Threads.having_keeps (Owes (floor s.shared)) s.threads i owes]

def advance (s : State n) (i : Fin n) : State n :=
  { s with
    shared := (access s.shared (s.threads i)).1
    threads := Function.update s.threads i (access s.shared (s.threads i)).2 }

theorem advance_sound (kept : Kept s₀ s b) (i j : Fin n) :
    Sound (advance s i).shared ((advance s i).threads j) := by
  by_cases same : j = i
  · subst same
    simp only [advance, Function.update_self]
    exact access_sound kept.inForce (kept.sound j)
  · have sound := kept.sound j
    simp only [advance, Function.update_of_ne same]
    constructor
    · rw [access_now]
      exact sound.started
    · exact sound_of_floor access_floor access_priority sound.loaded

theorem advance_counted (kept : Kept s₀ s b) (i : Fin n) {charges : List ℤ}
    (taking : charges.sum = b.charges.sum + taken (s.threads i))
    (elapsed : ∀ us ∈ charges, 0 ≤ us) :
    Counted s₀ (advance s i)
      { b with measured := b.measured + entered (s.threads i), charges := charges } := by
  obtain ⟨total, measured, -⟩ := kept.counted
  have moved := Threads.total_update pending s.threads i (access s.shared (s.threads i)).2
  have due := access_pending (t := s.threads i) kept.inForce.limited
  refine ⟨?_, ?_, elapsed⟩
  · simp only [advance]
    rw [access_entered, ← int64_add, total, int64_add, add_assoc]
  · simp only [advance]
    omega

theorem advance_free (kept : Kept s₀ s b) (shallow : floor s₀.shared ≤ 0) {i : Fin n}
    (free : ∀ elapsedUs k, (s.threads i).pc ≠ .subCredit elapsedUs k) :
    Kept s₀ (advance s i) { b with measured := b.measured + entered (s.threads i) } := by
  have nothing : taken (s.threads i) = 0 := by
    unfold taken
    split
    · rename_i here
      exact absurd here (free _ _)
    · rfl
  have credit : (advance s i).shared.timeCreditUs = s.shared.timeCreditUs := by
    simp only [advance, access_credit, nothing, sub_zero]
  have taking : b.charges.sum = b.charges.sum + taken (s.threads i) := by
    rw [nothing, add_zero]
  have counted := advance_counted kept i taking kept.counted.elapsed
  have same_floor := inForce_floor kept.inForce
  have forced := access_inForce (t := s.threads i) kept.inForce
  have sound := advance_sound kept i
  have gated : floor (advance s i).shared = floor s.shared := access_floor
  by_cases owes : Owes (floor s.shared) (access s.shared (s.threads i)).2
  · rcases access_owes kept.inForce (by rw [same_floor]; exact shallow) (kept.sound i) owes with
      before | above
    · apply kept_of_move (advance s i) kept forced kept.control sound counted
      left
      have holders := Threads.having_keeps (Owes (floor s.shared)) s.threads i
        (iff_of_true owes before)
      simp only [account, credit, gated, Books.longest]
      rw [← holders]
      rfl
    · apply kept_of_move (advance s i) kept forced kept.control sound counted
      right
      have holders := Threads.having_gains (Owes (floor s.shared)) s.threads i owes
      have account_eq :
          account (advance s i) { b with measured := b.measured + entered (s.threads i) } =
          { account s b with holders := insert i (account s b).holders } := by
        simp only [account, credit, gated, Books.longest]
        rw [← holders]
        rfl
      rw [account_eq]
      exact .enter _ i (Finset.mem_univ i) (by rw [← same_floor]; exact above)
  · apply kept_of_move (advance s i) kept forced kept.control sound counted
    right
    have holders := Threads.having_loses (Owes (floor s.shared)) s.threads i owes
    have account_eq :
        account (advance s i) { b with measured := b.measured + entered (s.threads i) } =
        { account s b with holders := (account s b).holders.erase i } := by
      simp only [account, credit, gated, Books.longest]
      rw [← holders]
      rfl
    rw [account_eq]
    exact .leave _ i

theorem advance_charge (kept : Kept s₀ s b) {i : Fin n} {elapsedUs : ℤ} {k : After}
    (here : (s.threads i).pc = .subCredit elapsedUs k) :
    Kept s₀ (advance s i)
      { b with
        measured := b.measured + entered (s.threads i)
        charges := elapsedUs :: b.charges } := by
  have amount : taken (s.threads i) = elapsedUs := by simp [taken, here]
  have loaded := (kept.sound i).loaded
  rw [here] at loaded
  obtain ⟨owes, free⟩ := subCredit_owes (g := s.shared) (floor s.shared) here
  have holders := Threads.having_loses (Owes (floor s.shared)) s.threads i free
  have gated : floor (advance s i).shared = floor s.shared := access_floor
  apply kept_of_move (advance s i) kept (access_inForce (t := s.threads i) kept.inForce) kept.control
    (advance_sound kept i)
  · apply advance_counted kept i
    · rw [amount, List.sum_cons, add_comm]
    · simpa using ⟨loaded.1, kept.counted.elapsed⟩
  · right
    have account_eq :
        account (advance s i)
          { b with
            measured := b.measured + entered (s.threads i)
            charges := elapsedUs :: b.charges } =
        { account s b with
          balance := (account s b).balance - elapsedUs
          charged := (account s b).charged + elapsedUs
          longest := max (account s b).longest elapsedUs
          holders := (account s b).holders.erase i } := by
      simp only [account, gated, Books.longest, List.foldr_cons, List.sum_cons]
      rw [← holders, max_comm, add_comm]
      simp only [advance, access_credit, amount]
    rw [account_eq]
    exact .charge _ i elapsedUs ((Threads.mem_having _).mpr owes) loaded.1

theorem outer_kept (kept : Kept s₀ s b) {g : Shared} {control : Control} {b' : Books}
    (same : g.creditMode = s.shared.creditMode ∧ g.timeUnlimited = s.shared.timeUnlimited ∧
      g.boostMode = s.shared.boostMode ∧ g.currentPriority = s.shared.currentPriority ∧
      g.urgentLimitUs = s.shared.urgentLimitUs ∧ g.totalTimeUs = s.shared.totalTimeUs)
    (later : s.shared.nowUs ≤ g.nowUs) (plain : ∀ us, control ≠ .storeCredit us)
    (unmeasured : b'.measured = b.measured) (uncharged : b'.charges = b.charges)
    (granted : 0 ≤ g.timeCreditUs - s.shared.timeCreditUs)
    (added : b'.added = b.added + (g.timeCreditUs - s.shared.timeCreditUs)) :
    Kept s₀ { s with shared := g, control := control } b' := by
  obtain ⟨mode, unlimited, boost, priority, limit, total⟩ := same
  obtain ⟨mode₀, limited₀, unboosted₀, priority₀, limit₀⟩ := kept.inForce
  have same_floor : floor g = floor s.shared := by simp only [floor, priority, limit]
  apply kept_of_move _ kept
  · exact ⟨mode.trans mode₀, unlimited.trans limited₀, boost.trans unboosted₀,
      priority.trans priority₀, limit.trans limit₀⟩
  · exact plain
  · intro i
    constructor
    · intro open_
      exact ((kept.sound i).started open_).trans later
    · exact sound_of_floor same_floor priority (kept.sound i).loaded
  · obtain ⟨word, measured, elapsed⟩ := kept.counted
    constructor
    · simp only [total, unmeasured, word]
    · simpa only [unmeasured, uncharged] using measured
    · simpa only [uncharged] using elapsed
  · right
    have account_eq : account { s with shared := g, control := control } b' =
        { account s b with
          balance := (account s b).balance + (g.timeCreditUs - s.shared.timeCreditUs)
          granted := (account s b).granted + (g.timeCreditUs - s.shared.timeCreditUs) } := by
      simp only [account, same_floor, uncharged, added, Books.longest]
      congr 1
      omega
    rw [account_eq]
    exact .grant _ _ granted

theorem step_kept (shallow : floor s₀.shared ≤ 0) {a : Action n} (kept : Kept s₀ s b)
    (settled : a.settled) (step : TimeStep s a t) : Kept s₀ t (observe s a b) := by
  cases a with
  | launch i =>
    simp only [TimeStep, Fires, next] at step
    split at step <;> cases step
    rename_i outside
    exact begin_kept kept outside (.inl rfl)
  | synchronize i =>
    simp only [TimeStep, Fires, next] at step
    split at step <;> cases step
    rename_i outside
    exact begin_kept kept outside (.inr rfl)
  | step i =>
    cases step
    simp only [observe]
    split
    · rename_i elapsedUs k here
      exact advance_charge kept here
    · rename_i free
      exact advance_free kept shallow free
  | command c =>
    simp only [TimeStep, Fires, next] at step
    split at step <;> cases step
    cases c with
    | timeAdd us =>
      exact outer_kept kept ⟨rfl, rfl, rfl, rfl, rfl, rfl⟩ (le_refl _) (by simp [command]) rfl rfl
        (by simpa [command, Action.settled] using settled) (by simp [command, observe])
    | peerIdle v =>
      exact outer_kept kept ⟨rfl, rfl, rfl, rfl, rfl, rfl⟩ (le_refl _) (by simp [command]) rfl rfl
        (by simp [command]) (by simp [command, observe])
    | _ => exact settled.elim
  | control =>
    simp only [TimeStep, Fires, next] at step
    split at step
    · cases step
    · rename_i us pending
      exact absurd pending (kept.control us)
    · cases step
      exact outer_kept kept ⟨rfl, rfl, rfl, rfl, rfl, rfl⟩ (le_refl _) (by simp) rfl rfl
        (by simp) (by simp [observe])
  | tick us =>
    cases step
    exact outer_kept kept ⟨rfl, rfl, rfl, rfl, rfl, rfl⟩ (by simp) kept.control rfl rfl
      (by simp) (by simp [observe])

theorem stored_kept (kept : Kept s₀ s b)
    (fits : int64 s.shared.timeCreditUs = s.shared.timeCreditUs) : Kept s₀ s.stored b := by
  have same_account : account s.stored b = account s b := by
    simp only [account, State.stored, Shared.stored, fits]
    rfl
  apply kept_of_move s.stored kept
  · exact ⟨kept.inForce.mode, kept.inForce.limited, kept.inForce.unboosted,
      kept.inForce.priority, kept.inForce.limit⟩
  · exact kept.control
  · intro i
    exact ⟨(kept.sound i).started, sound_of_floor rfl rfl (kept.sound i).loaded⟩
  · obtain ⟨total, measured, elapsed⟩ := kept.counted
    refine ⟨?_, measured, elapsed⟩
    rw [← total]
    exact int64_int64 _
  · exact .inl same_account

/-- What can be reached from here, with the adds and the batches so far, are 64-bit words. -/
structure Fits (s₀ : State n) (b : Books) : Prop where
  upper : s₀.shared.timeCreditUs + b.added < 2 ^ 63
  lower : -2 ^ 63 ≤ floor s₀.shared - n * b.longest

theorem fits_before {a : Action n} (settled : a.settled) (fits : Fits s₀ (observe s a b)) :
    Fits s₀ b := by
  obtain ⟨upper, lower⟩ := fits
  constructor
  case upper =>
    cases a with
    | command c =>
      cases c with
      | timeAdd us =>
        simp only [Action.settled] at settled
        simp only [observe] at upper
        omega
      | _ => exact upper
    | _ => exact upper
  case lower =>
    cases a with
    | step i =>
      have longer : b.longest ≤ (observe s (.step i) b).longest := by
        simp only [observe, Books.longest]
        split
        · exact le_max_right _ _
        · exact le_refl _
      have wider := mul_le_mul_of_nonneg_left longer (Nat.cast_nonneg (α := ℤ) n)
      omega
    | command c => cases c <;> exact lower
    | _ => exact lower

theorem kept_fits (kept : Kept s₀ s b) (fits : Fits s₀ b) :
    int64 s.shared.timeCreditUs = s.shared.timeCreditUs := by
  have charged : 0 ≤ b.charges.sum := List.sum_nonneg kept.counted.elapsed
  have net := kept.net
  have bound := safe_bound kept.safe
  simp only [Ledger.net, account, Finset.card_univ, Fintype.card_fin] at net bound
  apply int64_of_range
  · exact fits.lower.trans bound
  · have upper := fits.upper
    omega

theorem stored_of_step {a : Action n} (step : WordStep s a t) : t.stored = t := by
  simp only [Fires, wordNext, Option.map_eq_some_iff] at step
  obtain ⟨u, -, rfl⟩ := step
  simp [State.stored, Shared.stored, int64_int64]

theorem word_step_kept (shallow : floor s₀.shared ≤ 0) {a : Action n} (kept : Kept s₀ s b)
    (settled : a.settled) (step : WordStep s a t) (fits : Fits s₀ (observe s a b)) :
    Kept s₀ t (observe s a b) := by
  simp only [Fires, wordNext, Option.map_eq_some_iff] at step
  obtain ⟨u, moved, rfl⟩ := step
  have later := step_kept shallow kept settled moved
  exact stored_kept later (kept_fits later fits)

end Steps

def urgentPair : State 2 where
  shared :=
    { creditMode := 1, timeUnlimited := false, timeCreditUs := 5, currentPriority := .urgent,
      urgentLimitUs := 10 }
  threads := fun _ => {}
  control := .ready

def times (k : ℕ) (a : Action n) : List (Action n) := List.replicate k a

def fullCredit : State 1 where
  shared := { creditMode := 1, timeUnlimited := false, timeCreditUs := 2 ^ 63 - 1 }
  threads := fun _ => {}
  control := .ready

def deepPair : State 2 where
  shared :=
    { creditMode := 1, timeUnlimited := false, timeCreditUs := 0, currentPriority := .urgent,
      urgentLimitUs := 2 ^ 63 - 1 }
  threads := fun _ => {}
  control := .ready

end TimeGate
