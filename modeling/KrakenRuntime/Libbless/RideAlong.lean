import KrakenRuntime.Libbless.TimeCredit

/- Ride-along and contract work on the bills of one launching thread: what each batch that
   time_batch_end_and_charge closes was made of, and where its elapsed time went. The
   process is armed in time mode and receives only time_add and peer_idle; other threads may
   launch beside the one that is watched. -/
namespace TimeGate
open Runs
variable {n : ℕ}

/-- A batch: its kernels by the way they were admitted, the time measured for it, and what
    its charge moved on the three counters. -/
structure Bill where
  rides : ℕ := 0
  paid : ℕ := 0
  elapsedUs : ℤ := 0
  toExtra : ℤ := 0
  toTotal : ℤ := 0
  fromCredit : ℤ := 0
  deriving DecidableEq

/-- One kind of work only, and the whole time on its account. -/
def Bill.Pure (b : Bill) : Prop :=
  (0 < b.rides ∧ b.paid = 0 ∧ b.toExtra = b.elapsedUs ∧ b.toTotal = 0 ∧ b.fromCredit = 0) ∨
  (0 < b.paid ∧ b.rides = 0 ∧ b.toTotal = b.elapsedUs ∧ b.fromCredit = b.elapsedUs ∧ b.toExtra = 0)

instance (b : Bill) : Decidable b.Pure := by
  dsimp only [Bill.Pure]
  infer_instance

def Bill.Unmoved (b : Bill) : Prop := b.toExtra = 0 ∧ b.toTotal = 0 ∧ b.fromCredit = 0

def Bill.moved (b : Bill) (g g' : Shared) : Bill :=
  { b with
    toExtra := b.toExtra + (g'.wcExtraUs - g.wcExtraUs)
    toTotal := b.toTotal + (g'.totalTimeUs - g.totalTimeUs)
    fromCredit := b.fromCredit + (g.timeCreditUs - g'.timeCreditUs) }

structure Bills where
  passed : Bool := false
  running : Bill := {}
  closed : List Bill := []
  deriving DecidableEq

def billAccess (g : Shared) (t : Thread) (r : Bills) : Bills :=
  match t.pc with
  | .wcPass => { r with passed := true }
  | .batchStart =>
    if r.passed then { r with running := { r.running with rides := r.running.rides + 1 } }
    else { r with running := { r.running with paid := r.running.paid + 1 } }
  | .charge _ => { r with running := { r.running with elapsedUs := g.nowUs - t.batchStartUs } }
  | _ =>
    if 0 < t.batchKernelCount ∧ (access g t).2.batchKernelCount = 0 then
      { r with running := {}, closed := r.running.moved g (access g t).1 :: r.closed }
    else { r with running := r.running.moved g (access g t).1 }

def billing (i : Fin n) (s : State n) : Action n → Bills → Bills
  | .launch j, r => if j = i then { r with passed := false } else r
  | .step j, r => if j = i then billAccess s.shared (s.threads i) r else r
  | _, r => r

/-- A launch that the gate lets pass on its credit, its own or borrowed, is not part of a
    batch that rides along. -/
def PC.passesUnridden (g : Shared) (t : Thread) : PC → Prop
  | .loadCredit => 0 < g.timeCreditUs → t.wcRiding = false
  | .loadLimit credit => -g.urgentLimitUs < credit → t.wcRiding = false
  | _ => True

def Unmixed (i : Fin n) (s : State n) : Action n → Prop
  | .step j => j = i → (s.threads i).pc.passesUnridden s.shared (s.threads i)
  | _ => True

instance (g : Shared) (t : Thread) (pc : PC) : Decidable (pc.passesUnridden g t) := by
  induction pc using PC.casesOn <;> dsimp only [PC.passesUnridden] <;> infer_instance

instance (i : Fin n) (s : State n) (a : Action n) : Decidable (Unmixed i s a) := by
  induction a using Action.casesOn <;> dsimp only [Unmixed] <;> infer_instance

/-- The commands of a feeder that only adds credit and says whether the peer is idle. -/
def Action.fed : Action n → Prop
  | .command (.timeAdd _) | .command (.peerIdle _) => True
  | .command _ => False
  | _ => True

instance (a : Action n) : Decidable a.fed := by
  induction a using Action.casesOn with
  | command c => induction c using Command.casesOn <;> dsimp only [Action.fed] <;> infer_instance
  | _ =>
    dsimp only [Action.fed]
    infer_instance

/-- Armed, limited, not boosted, and thread `i` has no batch open. -/
structure ReadyToRide (i : Fin n) (s : State n) : Prop where
  mode : s.shared.creditMode = 1
  limited : s.shared.timeUnlimited = false
  unboosted : s.shared.boostMode = false
  control : s.control = .ready
  idle : s.threads i = {}

def After.unpassed (r : Bills) : After → Prop
  | .wait _ => r.passed = false
  | .synced => True

def PC.billed (t : Thread) (r : Bills) : PC → Prop
  | .outside | .syncMode => (t.wcRiding = true → 0 < t.batchKernelCount) ∧ r.running.Unmoved
  | .loadMode | .loadBoost | .loadUnlimited | .loadCredit | .loadPriority _ | .loadLimit _
  | .denied _ =>
    r.passed = false ∧ (t.wcRiding = true → 0 < t.batchKernelCount) ∧ r.running.Unmoved
  | .borrowEvents _ | .borrowUs _ => r.passed = false ∧ t.wcRiding = false ∧ r.running.Unmoved
  | .charge k =>
    k.unpassed r ∧ (t.wcRiding = true → 0 < t.batchKernelCount) ∧ r.running.Unmoved
  | .wcExtra elapsedUs k =>
    k.unpassed r ∧ t.wcRiding = true ∧ 0 < t.batchKernelCount ∧
      r.running.elapsedUs = elapsedUs ∧ r.running.Unmoved
  | .addTotal elapsedUs k =>
    k.unpassed r ∧ t.wcRiding = false ∧ 0 < t.batchKernelCount ∧
      r.running.elapsedUs = elapsedUs ∧ r.running.Unmoved
  | .loadAvg elapsedUs k | .storeAvg elapsedUs _ k | .chargeUnlimited elapsedUs k
  | .subCredit elapsedUs k =>
    k.unpassed r ∧ t.wcRiding = false ∧ 0 < t.batchKernelCount ∧
      r.running.elapsedUs = elapsedUs ∧
      r.running.toExtra = 0 ∧ r.running.toTotal = elapsedUs ∧ r.running.fromCredit = 0
  | .loadMetrics _ | .wakePriority _ | .wakeLimit _ | .loadWcOn _ | .loadPeerIdle _
  | .readNow _ | .loadPeerIdleAt _ _ | .waitUnlimited _ | .waitCredit _ =>
    r.passed = false ∧ t.wcRiding = false ∧ t.batchKernelCount = 0 ∧ r.running.Unmoved
  | .wcPass => t.wcRiding = true ∧ t.batchKernelCount = 0 ∧ r.running.Unmoved
  | .batchStart => r.passed = t.wcRiding ∧ r.running.Unmoved
  | .kernelGate => False

structure Billed (t : Thread) (r : Bills) : Prop where
  counted : t.batchKernelCount = r.running.rides + r.running.paid
  riding_pure : t.wcRiding = true → r.running.paid = 0
  paying_pure : t.wcRiding = false → r.running.rides = 0
  place : t.pc.billed t r
  closed_pure : ∀ b ∈ r.closed, b.Pure

section Access
variable {g : Shared} {t : Thread} {r : Bills}

theorem billed_goto (billed : Billed t r) {pc : PC} (place : pc.billed t r) :
    Billed (t.goto pc) r := by
  refine ⟨billed.counted, billed.riding_pure, billed.paying_pure, ?_, billed.closed_pure⟩
  cases pc <;> exact place

def PC.plain : PC → Prop
  | .wcPass | .batchStart | .charge _ | .wcExtra _ _ | .addTotal _ _ | .chargeUnlimited _ _
  | .subCredit _ _ | .loadPeerIdleAt _ _ => False
  | _ => True

theorem plain_bills (plain : t.pc.plain) : billAccess g t r = r := by
  cases here : t.pc <;> rw [here] at plain <;>
    first
    | exact plain.elim
    | simp only [billAccess, access, here, Thread.goto, Bill.moved, sub_self, add_zero]
      rw [if_neg (by omega)]

theorem loop_billed (billed : Billed t r) {credit wakeAt : ℤ}
    (waiting : r.passed = false ∧ t.wcRiding = false ∧ t.batchKernelCount = 0 ∧ r.running.Unmoved) :
    Billed (t.goto (loopTest credit wakeAt)) r := by
  obtain ⟨unpassed, calm, empty, unmoved⟩ := waiting
  unfold loopTest
  split
  · exact billed_goto billed ⟨unpassed, calm, empty, unmoved⟩
  · exact billed_goto billed ⟨by rw [unpassed, calm], unmoved⟩

theorem plain_billed (mode : g.creditMode = 1) (limited : g.timeUnlimited = false)
    (unboosted : g.boostMode = false) (unridden : t.pc.passesUnridden g t) (billed : Billed t r)
    (plain : t.pc.plain) : Billed (access g t).2 r := by
  have place := billed.place
  cases here : t.pc <;> rw [here] at plain place unridden <;> simp only [access, here]
  case outside => exact billed
  case kernelGate => exact place.elim
  case loadMode =>
    rw [if_pos mode]
    exact billed_goto billed place
  case loadBoost =>
    rw [unboosted, if_neg Bool.false_ne_true]
    exact billed_goto billed place
  case loadUnlimited =>
    rw [limited, if_neg Bool.false_ne_true]
    exact billed_goto billed place
  case loadCredit =>
    obtain ⟨unpassed, riding, unmoved⟩ := place
    split
    · rename_i enough
      apply billed_goto billed
      exact ⟨by rw [unpassed, unridden enough], unmoved⟩
    · exact billed_goto billed ⟨unpassed, riding, unmoved⟩
  case loadPriority credit =>
    split
    · exact billed_goto billed place
    · exact billed_goto billed place
  case loadLimit credit =>
    obtain ⟨unpassed, riding, unmoved⟩ := place
    split
    · rename_i within
      exact billed_goto billed ⟨unpassed, unridden within, unmoved⟩
    · exact billed_goto billed ⟨unpassed, riding, unmoved⟩
  case borrowUs credit =>
    obtain ⟨unpassed, calm, unmoved⟩ := place
    exact billed_goto billed ⟨by rw [unpassed, calm], unmoved⟩
  case wakePriority credit =>
    split
    · exact billed_goto billed place
    · exact loop_billed billed place
  case wakeLimit credit => exact loop_billed billed place
  case waitCredit wakeAt => exact loop_billed billed place
  case waitUnlimited wakeAt =>
    rw [limited, if_neg Bool.false_ne_true]
    exact billed_goto billed place
  case loadWcOn wakeAt =>
    split
    · exact billed_goto billed place
    · exact billed_goto billed place
  case loadPeerIdle wakeAt =>
    split
    · exact billed_goto billed place
    · exact billed_goto billed place
  case syncMode =>
    rw [if_pos mode]
    exact billed_goto billed ⟨trivial, place⟩
  case borrowEvents | denied | loadMetrics | loadAvg | storeAvg | readNow =>
    exact billed_goto billed place
  all_goals exact plain.elim

theorem closed_billed {k : After} {bill : Bill} {u : Thread} (billed : Billed t r)
    (unpassed : k.unpassed r) (pure : bill.Pure) (empty : u.batchKernelCount = 0)
    (calm : u.wcRiding = false) (back : u.pc = resume k) :
    Billed u { r with running := {}, closed := bill :: r.closed } := by
  constructor
  · simp [empty]
  · simp
  · simp
  · rw [back]
    cases k with
    | wait credit => exact ⟨unpassed, calm, empty, rfl, rfl, rfl⟩
    | synced => exact ⟨by simp [calm], rfl, rfl, rfl⟩
  · intro b member
    rcases List.mem_cons.mp member with rfl | older
    · exact pure
    · exact billed.closed_pure b older

theorem charge_billed {k : After} (here : t.pc = .charge k) (billed : Billed t r) :
    Billed (access g t).2 (billAccess g t r) := by
  have place := billed.place
  rw [here] at place
  obtain ⟨unpassed, riding, unmoved⟩ := place
  have measured : Billed t (billAccess g t r) := by
    simp only [billAccess, here]
    refine { billed with place := ?_ }
    rw [here]
    exact ⟨by cases k <;> exact unpassed, riding, unmoved⟩
  have elapsed : (billAccess g t r).running.elapsedUs = g.nowUs - t.batchStartUs := by
    simp only [billAccess, here]
  have place' := measured.place
  rw [here] at place'
  obtain ⟨unpassed', _, unmoved'⟩ := place'
  simp only [access, here]
  split
  · rename_i empty
    have calm : t.wcRiding = false := by
      cases flag : t.wcRiding with
      | false => rfl
      | true => exact absurd (riding flag) (by omega)
    apply billed_goto measured
    cases k with
    | wait credit => exact ⟨unpassed', calm, empty, unmoved'⟩
    | synced => exact ⟨riding, unmoved'⟩
  · rename_i nonempty
    split
    · rename_i rides
      exact billed_goto measured ⟨unpassed', rides, by omega, elapsed, unmoved'⟩
    · rename_i calm
      exact billed_goto measured
        ⟨unpassed', by simpa using calm, by omega, elapsed, unmoved'⟩

theorem wcExtra_billed {elapsedUs : ℤ} {k : After} (here : t.pc = .wcExtra elapsedUs k)
    (billed : Billed t r) : Billed (access g t).2 (billAccess g t r) := by
  have place := billed.place
  rw [here] at place
  obtain ⟨unpassed, rides, some_kernels, elapsed, extra, total, credit⟩ := place
  have counted := billed.counted
  have paid := billed.riding_pure rides
  simp only [access, billAccess, here, Thread.reset, some_kernels, and_self, ↓reduceIte]
  refine closed_billed billed unpassed ?_ rfl rfl rfl
  left
  refine ⟨?_, paid, ?_, ?_, ?_⟩
  · simp only [Bill.moved]
    omega
  all_goals simp [Bill.moved, elapsed, extra, total, credit]

theorem addTotal_billed {elapsedUs : ℤ} {k : After} (here : t.pc = .addTotal elapsedUs k)
    (billed : Billed t r) : Billed (access g t).2 (billAccess g t r) := by
  have place := billed.place
  rw [here] at place
  obtain ⟨unpassed, calm, some_kernels, elapsed, extra, total, credit⟩ := place
  simp only [access, billAccess, here, Thread.goto]
  rw [if_neg (by omega)]
  refine ⟨billed.counted, billed.riding_pure, billed.paying_pure, ?_, billed.closed_pure⟩
  refine ⟨by cases k <;> exact unpassed, calm, some_kernels, elapsed, ?_⟩
  simp [Bill.moved, extra, total, credit]

theorem chargeUnlimited_billed {elapsedUs : ℤ} {k : After} (limited : g.timeUnlimited = false)
    (here : t.pc = .chargeUnlimited elapsedUs k) (billed : Billed t r) :
    Billed (access g t).2 (billAccess g t r) := by
  have place := billed.place
  rw [here] at place
  simp only [access, billAccess, here, limited, Bool.false_eq_true, ↓reduceIte, Thread.goto,
    Bill.moved, sub_self, add_zero]
  rw [if_neg (by omega)]
  exact billed_goto billed place

theorem subCredit_billed {elapsedUs : ℤ} {k : After} (here : t.pc = .subCredit elapsedUs k)
    (billed : Billed t r) : Billed (access g t).2 (billAccess g t r) := by
  have place := billed.place
  rw [here] at place
  obtain ⟨unpassed, calm, some_kernels, elapsed, extra, total, credit⟩ := place
  have counted := billed.counted
  have unridden := billed.paying_pure calm
  simp only [access, billAccess, here, Thread.reset, some_kernels, and_self, ↓reduceIte]
  refine closed_billed billed unpassed ?_ rfl calm rfl
  right
  refine ⟨?_, unridden, ?_, ?_, ?_⟩
  · simp only [Bill.moved]
    omega
  all_goals simp [Bill.moved, elapsed, extra, total, credit]

theorem loadPeerIdleAt_billed {wakeAt nowUs : ℤ} (here : t.pc = .loadPeerIdleAt wakeAt nowUs)
    (billed : Billed t r) : Billed (access g t).2 (billAccess g t r) := by
  have place := billed.place
  rw [here] at place
  obtain ⟨unpassed, calm, empty, unmoved⟩ := place
  have counted := billed.counted
  have same : billAccess g t r = r := by
    simp only [billAccess, access, here, empty, Bill.moved, sub_self, add_zero]
    rw [if_neg (by omega)]
  rw [same]
  simp only [access, here]
  split
  · refine ⟨counted, ?_, ?_, ⟨rfl, empty, unmoved⟩, billed.closed_pure⟩
    · intro _
      omega
    · simp
  · exact billed_goto billed ⟨unpassed, calm, empty, unmoved⟩

theorem wcPass_billed (here : t.pc = .wcPass) (billed : Billed t r) :
    Billed (access g t).2 (billAccess g t r) := by
  have place := billed.place
  rw [here] at place
  obtain ⟨rides, empty, unmoved⟩ := place
  simp only [access, billAccess, here]
  have passed : Billed t { r with passed := true } := by
    refine { billed with place := ?_ }
    rw [here]
    exact ⟨rides, empty, unmoved⟩
  exact billed_goto passed ⟨rides.symm, unmoved⟩

theorem batchStart_billed (here : t.pc = .batchStart) (billed : Billed t r) :
    Billed (access g t).2 (billAccess g t r) := by
  have place := billed.place
  rw [here] at place
  obtain ⟨passed, unmoved⟩ := place
  have counted := billed.counted
  simp only [access, billAccess, here, passed]
  cases flag : t.wcRiding with
  | true =>
    have pure := billed.riding_pure flag
    simp only [↓reduceIte]
    refine ⟨?_, fun _ => pure, by simp, ⟨by simp, unmoved⟩, billed.closed_pure⟩
    simp only
    omega
  | false =>
    have pure := billed.paying_pure flag
    simp only [Bool.false_eq_true, ↓reduceIte]
    refine ⟨?_, by simp, fun _ => pure, ⟨by simp, unmoved⟩, billed.closed_pure⟩
    simp only
    omega

theorem access_billed (mode : g.creditMode = 1) (limited : g.timeUnlimited = false)
    (unboosted : g.boostMode = false) (unridden : t.pc.passesUnridden g t) (billed : Billed t r) :
    Billed (access g t).2 (billAccess g t r) := by
  cases here : t.pc with
  | charge k => exact charge_billed here billed
  | wcExtra elapsedUs k => exact wcExtra_billed here billed
  | addTotal elapsedUs k => exact addTotal_billed here billed
  | chargeUnlimited elapsedUs k => exact chargeUnlimited_billed limited here billed
  | subCredit elapsedUs k => exact subCredit_billed here billed
  | loadPeerIdleAt wakeAt nowUs => exact loadPeerIdleAt_billed here billed
  | wcPass => exact wcPass_billed here billed
  | batchStart => exact batchStart_billed here billed
  | _ =>
    have plain : t.pc.plain := by
      rw [here]
      trivial
    rw [plain_bills plain]
    exact plain_billed mode limited unboosted unridden billed plain

end Access

section Steps
variable {i : Fin n} {s t : State n} {r : Bills}

structure RideKept (i : Fin n) (s : State n) (r : Bills) : Prop where
  mode : s.shared.creditMode = 1
  limited : s.shared.timeUnlimited = false
  unboosted : s.shared.boostMode = false
  control : ∀ us, s.control ≠ .storeCredit us
  billed : Billed (s.threads i) r

theorem rideKept_of_thread (kept : RideKept i s r) {j : Fin n} (other : j ≠ i) (u : Thread) :
    RideKept i { s with threads := Function.update s.threads j u } r := by
  refine { kept with billed := ?_ }
  simp only [Function.update_of_ne other.symm]
  exact kept.billed

theorem launch_rideKept (kept : RideKept i s r) {j : Fin n}
    (outside : (s.threads j).pc = .outside) :
    RideKept i { s with threads := Function.update s.threads j ((s.threads j).goto .loadMode) }
      (billing i s (.launch j) r) := by
  by_cases same : j = i
  · subst same
    have place := kept.billed.place
    rw [outside] at place
    have unpassed : Billed (s.threads j) { r with passed := false } := by
      refine { kept.billed with place := ?_ }
      rw [outside]
      exact place
    simp only [billing, ↓reduceIte]
    refine { kept with billed := ?_ }
    simp only [Function.update_self]
    exact billed_goto unpassed ⟨rfl, place⟩
  · simp only [billing, if_neg same]
    exact rideKept_of_thread kept same _

theorem synchronize_rideKept (kept : RideKept i s r) {j : Fin n}
    (outside : (s.threads j).pc = .outside) :
    RideKept i { s with threads := Function.update s.threads j ((s.threads j).goto .syncMode) }
      r := by
  by_cases same : j = i
  · subst same
    have place := kept.billed.place
    rw [outside] at place
    refine { kept with billed := ?_ }
    simp only [Function.update_self]
    exact billed_goto kept.billed place
  · exact rideKept_of_thread kept same _

theorem advance_rideKept (kept : RideKept i s r) {j : Fin n} (unmixed : Unmixed i s (.step j)) :
    RideKept i (advance s j) (billing i s (.step j) r) := by
  have forced : InForce s.shared (access s.shared (s.threads j)).1 :=
    access_inForce ⟨kept.mode, kept.limited, kept.unboosted, rfl, rfl⟩
  refine ⟨forced.mode, forced.limited, forced.unboosted, kept.control, ?_⟩
  by_cases same : j = i
  · subst same
    simp only [advance, Function.update_self, billing, ↓reduceIte]
    exact access_billed kept.mode kept.limited kept.unboosted (unmixed rfl) kept.billed
  · simp only [advance, Function.update_of_ne (Ne.symm same), billing, if_neg same]
    exact kept.billed

theorem step_rideKept {a : Action n} (kept : RideKept i s r) (fed : a.fed)
    (unmixed : Unmixed i s a) (step : TimeStep s a t) : RideKept i t (billing i s a r) := by
  cases a with
  | launch j =>
    simp only [TimeStep, Fires, next] at step
    split at step <;> cases step
    rename_i outside
    exact launch_rideKept kept outside
  | synchronize j =>
    simp only [TimeStep, Fires, next] at step
    split at step <;> cases step
    rename_i outside
    exact synchronize_rideKept kept outside
  | step j =>
    cases step
    exact advance_rideKept kept unmixed
  | command c =>
    simp only [TimeStep, Fires, next] at step
    split at step <;> cases step
    cases c with
    | timeAdd us => exact { kept with control := by simp [command] }
    | peerIdle v => exact { kept with control := by simp [command] }
    | _ => exact fed.elim
  | control =>
    simp only [TimeStep, Fires, next] at step
    split at step
    · cases step
    · rename_i us storing
      exact absurd storing (kept.control us)
    · cases step
      exact { kept with control := by simp }
  | tick us =>
    cases step
    exact { kept with }

theorem ready_rideKept (ready : ReadyToRide i s) : RideKept i s {} := by
  refine ⟨ready.mode, ready.limited, ready.unboosted, by simp [ready.control], ?_⟩
  rw [ready.idle]
  exact ⟨rfl, by simp, by simp, ⟨by simp, rfl, rfl, rfl⟩, by simp⟩

end Steps

def rider : State 1 where
  shared := { creditMode := 1, timeUnlimited := false, timeCreditUs := 0, wcOn := true }
  threads := fun _ => {}
  control := .ready

theorem rider_ready : ReadyToRide 0 rider := ⟨rfl, rfl, rfl, rfl, rfl⟩

def rideFirst : List (Action 1) :=
  .command (.peerIdle 1) :: .control :: .launch 0 :: times 14 (.step 0)

def closedBetween : List (Action 1) :=
  rideFirst ++ [.tick 30, .synchronize 0] ++ times 3 (.step 0) ++
    [.command (.timeAdd 50), .launch 0] ++ times 5 (.step 0) ++ [.tick 10, .synchronize 0] ++
    times 7 (.step 0)

/-- The second launch of the batch passes on credit that has arrived meanwhile. -/
def creditArrives : List (Action 1) :=
  rideFirst ++ [.command (.timeAdd 50), .launch 0] ++ times 5 (.step 0) ++
    [.tick 30, .synchronize 0] ++ times 3 (.step 0)

end TimeGate
