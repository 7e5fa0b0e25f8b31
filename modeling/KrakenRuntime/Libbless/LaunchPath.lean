import KrakenRuntime.Libbless.TimeGate
import Mathlib.Data.List.Basic

/- The whole way of a launch through libbless (libbless.cpp): cudaLaunchKernel and
   cuLaunchKernel go through priority_queue_gate, the reconf and pause loops, the check for
   a preemption request and the credit gates, and end in priority_queue_done. One launching
   thread; every atomic access is one step, and the control server and the clock interleave
   with it freely. The time-credit gate and the charge are those of TimeGate; the inside of
   kernel_credit_gate is one place where the thread may stay as long as it likes. What the
   launch does after the gates (sequence numbers, squad quota, the driver call) touches none
   of these variables and is left out. -/
namespace LaunchPath
open Runs TimeGate

structure Front where
  urgentPending : Bool := false
  preemptRequested : Bool := false
  queueLen : Priority → ℤ := fun _ => 0
  limited : Bool := true
  gate : ℤ := 0
  pauseMode : Bool := false

def Front.addQueue (f : Front) (p : Priority) (d : ℤ) : Front :=
  { f with queueLen := Function.update f.queueLen p (f.queueLen p + d) }

def Front.zeroQueue (f : Front) (p : Priority) : Front :=
  { f with queueLen := Function.update f.queueLen p 0 }

/-- Which call of priority_queue_gate: at the start, or after a preemption request. -/
inductive Call where
  | first
  | again
  deriving DecidableEq

inductive Done where
  | preempted
  | launched
  deriving DecidableEq

/-- The next access of the thread outside of the credit gates. `stuck` says that the loop
    has failed its test before. -/
inductive Stage where
  -- no launch under way; a synchronisation runs here
  | idle
  -- priority_queue_gate
  | loadPriority (c : Call)
  | enqueue (c : Call) (p : Priority)
  | urgentTest (c : Call) (p : Priority) (waited : ℕ) (stuck : Bool)
  | dequeue (c : Call) (p : Priority) (waited : ℕ)
  | requeue (c : Call) (p : Priority) (waited : ℕ)
  | urgentLen (c : Call) (waited : ℕ) (stuck : Bool)
  | normalLen (c : Call) (waited : ℕ) (stuck : Bool)
  | backgroundLen (c : Call) (normal : ℤ) (waited : ℕ) (stuck : Bool)
  -- cudaLaunchKernel up to the credit gates
  | loadRoute
  | loadGate (stuck : Bool)
  | loadPause (stuck : Bool)
  | loadPreempt
  | preemptPriority
  -- priority_queue_done
  | donePriority (d : Done)
  | doneSub (d : Done) (p : Priority)
  | doneZero (d : Done) (p : Priority)
  -- the credit gates
  | gated
  deriving DecidableEq

def afterQueue : Call → Stage
  | .first => .loadRoute
  | .again => .gated

def afterDone : Done → Stage
  | .preempted => .loadPriority .again
  | .launched => .idle

/-- The loop of the BACKGROUND priority goes round; its counter never passes the bound
    that would end it. -/
def backgroundWait (c : Call) (waited : ℕ) : Stage :=
  let waited := if waited < 50 then waited + 1 else 0
  if 100 < waited then afterQueue c else .urgentLen c waited true

def afterUrgent (c : Call) (p : Priority) : Stage :=
  if p = .background then .urgentLen c 0 false else afterQueue c

def advance (f : Front) (priority : Priority) : Stage → Front × Stage
  | .idle => (f, .idle)
  | .loadPriority c => (f, .enqueue c priority)
  | .enqueue c p =>
    (f.addQueue p 1, if p = .urgent then afterUrgent c p else .urgentTest c p 0 false)
  | .urgentTest c p waited _ =>
    (f, if f.urgentPending then .dequeue c p waited else afterUrgent c p)
  | .dequeue c p waited =>
    (f.addQueue p (-1), .requeue c p (if waited < 100 then waited + 1 else 0))
  | .requeue c p waited => (f.addQueue p 1, .urgentTest c p waited true)
  | .urgentLen c waited stuck =>
    (f, if 0 < f.queueLen .urgent then backgroundWait c waited else .normalLen c waited stuck)
  | .normalLen c waited stuck => (f, .backgroundLen c (f.queueLen .normal) waited stuck)
  | .backgroundLen c normal waited _ =>
    (f, if f.queueLen .background < normal then backgroundWait c waited else afterQueue c)
  | .loadRoute => (f, if f.limited then .loadGate false else .loadPreempt)
  | .loadGate _ => (f, if f.gate ≠ 0 then .loadGate true else .loadPause false)
  | .loadPause _ => (f, if f.pauseMode then .loadPause true else .loadPreempt)
  | .loadPreempt => (f, if f.preemptRequested then .preemptPriority else .gated)
  | .preemptPriority => (f, if priority = .urgent then .gated else .donePriority .preempted)
  | .donePriority d => (f, .doneSub d priority)
  | .doneSub d p => (f.addQueue p (-1), if f.queueLen p ≤ 0 then .doneZero d p else afterDone d)
  | .doneZero d p => (f.zeroQueue p, afterDone d)
  | .gated => (f, .gated)

/-- `pending` is the second store of urgent_request or urgent_clear. -/
structure State where
  time : TimeGate.State 1
  front : Front
  stage : Stage
  pending : Option Bool

def State.thread (s : State) : Thread := s.time.threads 0

/-- The accesses of the thread, the commands of the control server and the clock. A
    reconfiguration shows as stores to the reconf gate. -/
inductive Action where
  | launch
  | synchronize
  | step
  | command (c : Command)
  | control
  | pause (on : Bool)
  | urgent (on : Bool)
  | urgentStore
  | route (limited : Bool)
  | reconf (gate : ℤ)
  | tick (us : ℕ)
  deriving DecidableEq

def ControlReady (s : State) : Prop := s.pending = none ∧ s.time.control = .ready

instance (s : State) : Decidable (ControlReady s) := by
  dsimp only [ControlReady]
  infer_instance

def stepGates (s : State) : Option State :=
  (TimeGate.next s.time (.step 0)).map fun time =>
    { s with
      time := time
      stage := if (time.threads 0).pc = .outside then .donePriority .launched else .gated }

def stepFront (s : State) : Option State :=
  let moved := advance s.front s.time.shared.currentPriority s.stage
  if moved.2 = .gated then
    (TimeGate.next s.time (.launch 0)).map fun time =>
      { s with time := time, front := moved.1, stage := .gated }
  else some { s with front := moved.1, stage := moved.2 }

def next (s : State) : Action → Option State
  | .launch =>
    if s.stage = .idle ∧ s.thread.pc = .outside then some { s with stage := .loadPriority .first }
    else none
  | .synchronize =>
    if s.stage = .idle then
      (TimeGate.next s.time (.synchronize 0)).map fun time => { s with time := time }
    else none
  | .step =>
    match s.stage with
    | .idle => (TimeGate.next s.time (.step 0)).map fun time => { s with time := time }
    | .gated => stepGates s
    | _ => stepFront s
  | .command c =>
    if ControlReady s then
      (TimeGate.next s.time (.command c)).map fun time => { s with time := time }
    else none
  | .control => (TimeGate.next s.time .control).map fun time => { s with time := time }
  | .pause on =>
    if ControlReady s then some { s with front := { s.front with pauseMode := on } } else none
  | .urgent on =>
    if ControlReady s then
      some { s with front := { s.front with urgentPending := on }, pending := some on }
    else none
  | .urgentStore =>
    match s.pending with
    | none => none
    | some on =>
      some { s with front := { s.front with preemptRequested := on }, pending := none }
  | .route limited => some { s with front := { s.front with limited := limited } }
  | .reconf gate => some { s with front := { s.front with gate := gate } }
  | .tick us => (TimeGate.next s.time (.tick us)).map fun time => { s with time := time }

abbrev LaunchStep : State → Action → State → Prop := Runs.Fires next

def start (g : Shared) (f : Front) : State := ⟨⟨g, fun _ => {}, .ready⟩, f, .idle, none⟩

def Stage.waits : Stage → Bool
  | .urgentTest _ _ _ stuck => stuck
  | .dequeue .. => true
  | .requeue .. => true
  | .urgentLen _ _ stuck => stuck
  | .normalLen _ _ stuck => stuck
  | .backgroundLen _ _ _ stuck => stuck
  | .loadGate stuck => stuck
  | .loadPause stuck => stuck
  | _ => false

def looping : PC → Bool
  | .loadMetrics _ => true
  | .wakePriority _ => true
  | .wakeLimit _ => true
  | .loadWcOn _ => true
  | .loadPeerIdle _ => true
  | .readNow _ => true
  | .loadPeerIdleAt .. => true
  | .waitUnlimited _ => true
  | .waitCredit _ => true
  | _ => false

/-- The thread is blocked in one of the gates, or may be. -/
def Blocked (s : State) : Prop :=
  s.stage.waits = true ∨ looping s.thread.pc = true ∨ s.thread.pc = .kernelGate

instance (s : State) : Decidable (Blocked s) := by
  dsimp only [Blocked]
  infer_instance

def settling : PC → Option ℤ
  | .addTotal elapsedUs _ => some elapsedUs
  | .loadAvg elapsedUs _ => some elapsedUs
  | .storeAvg elapsedUs _ _ => some elapsedUs
  | .chargeUnlimited elapsedUs _ => some elapsedUs
  | .subCredit elapsedUs _ => some elapsedUs
  | _ => none

def bills : PC → Option ℤ
  | .addTotal elapsedUs _ => some elapsedUs
  | .subCredit elapsedUs _ => some elapsedUs
  | _ => none

/-- Stretches of time, each up to its second component: those on the accounts, and those
    that are no use of the device. -/
structure Ledger where
  billed : List (ℤ × ℤ) := []
  unused : List (ℤ × ℤ) := []
  deriving DecidableEq

def observeAccess (t : Thread) (r : Ledger) : Ledger :=
  match bills t.pc with
  | none => r
  | some elapsedUs =>
    { r with billed := (t.batchStartUs, t.batchStartUs + elapsedUs) :: r.billed }

def observe (s : State) : Action → Ledger → Ledger
  | .step, r => if s.stage = .idle ∨ s.stage = .gated then observeAccess s.thread r else r
  | .tick us, r =>
    if s.time.shared.creditMode ≠ 1 ∨ Blocked s then
      { r with unused := (s.time.shared.nowUs, s.time.shared.nowUs + us) :: r.unused }
    else r
  | _, r => r

/-- No instant of an unused stretch lies in a billed one. -/
def Fair (r : Ledger) : Prop :=
  ∀ b ∈ r.billed, ∀ w ∈ r.unused, ∀ x, b.1 ≤ x → x < b.2 → ¬ (w.1 ≤ x ∧ x < w.2)

def Open (t : Thread) : Prop :=
  0 < t.batchKernelCount ∧ t.wcRiding = false ∧ settling t.pc = none

instance (t : Thread) : Decidable (Open t) := by
  dsimp only [Open]
  infer_instance

def waitsAfter : After → Bool
  | .wait _ => true
  | .synced => false

def entering : PC → Bool
  | .outside => false
  | .loadMode => false
  | .kernelGate => false
  | .syncMode => false
  | .charge k => waitsAfter k
  | .wcExtra _ k => waitsAfter k
  | .addTotal _ k => waitsAfter k
  | .loadAvg _ k => waitsAfter k
  | .storeAvg _ _ k => waitsAfter k
  | .chargeUnlimited _ k => waitsAfter k
  | .subCredit _ k => waitsAfter k
  | _ => true

def heldUp (f : Front) : Stage → Bool
  | .urgentTest .. => f.urgentPending
  | .urgentLen .. => decide (0 < f.queueLen .urgent)
  | .backgroundLen _ normal _ _ => decide (f.queueLen .background < normal)
  | .loadGate _ => decide (f.gate ≠ 0)
  | .loadPause _ => f.pauseMode
  | _ => false

/-- While a batch is open no test holds the thread up, and time mode is only left when no
    batch is open and none is about to be. -/
def Settled (s : State) : Action → Prop
  | .step => heldUp s.front s.stage = true → ¬ Open s.thread
  | .command (.timeMode m) => m = 1 ∨ (¬ Open s.thread ∧ entering s.thread.pc = false)
  | _ => True

instance (s : State) (a : Action) : Decidable (Settled s a) := by
  induction a using Action.casesOn with
  | command c =>
    induction c using Command.casesOn <;> dsimp only [Settled] <;> infer_instance
  | _ =>
    dsimp only [Settled]
    infer_instance

section Accesses
variable {g : Shared} {t : Thread}

theorem access_clock : (access g t).1.creditMode = g.creditMode ∧ (access g t).1.nowUs = g.nowUs := by
  unfold access
  cases t.pc <;> exact ⟨rfl, rfl⟩

inductive Effect (g : Shared) (t : Thread) : Thread → Prop where
  | moved {pc : PC} (before : settling t.pc = none) (after : settling pc = none)
      (enters : entering pc = true → entering t.pc = true ∨ g.creditMode = 1)
      (loops : looping pc = true → looping t.pc = true ∨ t.batchKernelCount = 0)
      (counts : pc = .kernelGate → g.creditMode ≠ 1) : Effect g t (t.goto pc)
  | measured {k : After} (here : t.pc = .charge k) (some_kernel : 0 < t.batchKernelCount)
      (paid : t.wcRiding = false) : Effect g t (t.goto (.addTotal (g.nowUs - t.batchStartUs) k))
  | settled {pc : PC} (elapsedUs : ℤ) (before : settling t.pc = some elapsedUs)
      (after : settling pc = some elapsedUs) (enters : entering pc = entering t.pc) :
      Effect g t (t.goto pc)
  | closed {k : After} (riding : Bool) (enters : entering t.pc = waitsAfter k) :
      Effect g t { t.reset k with wcRiding := riding }
  | rides (here : looping t.pc = true) (entered : entering t.pc = true) :
      Effect g t { t.goto .wcPass with wcRiding := true }
  | started (here : t.pc = .batchStart) :
      Effect g t
        { t with
          pc := .outside
          batchStartUs := if t.batchKernelCount = 0 then g.nowUs else t.batchStartUs
          batchKernelCount := t.batchKernelCount + 1 }

theorem Effect.jump {pc : PC} (before : settling t.pc = none) (after : settling pc = none)
    (entered : entering t.pc = true) (runs : looping pc = false) (timed : pc ≠ .kernelGate) :
    Effect g t (t.goto pc) :=
  .moved before after (fun _ => .inl entered) (fun loops => by simp [runs] at loops)
    (fun here => absurd here timed)

theorem Effect.turn {pc : PC} (here : looping t.pc = true) (before : settling t.pc = none)
    (after : settling pc = none) (entered : entering t.pc = true) (timed : pc ≠ .kernelGate) :
    Effect g t (t.goto pc) :=
  .moved before after (fun _ => .inl entered) (fun _ => .inl here) (fun there => absurd there timed)

theorem Effect.test {credit wakeAt : ℤ} (here : looping t.pc = true) (before : settling t.pc = none)
    (entered : entering t.pc = true) : Effect g t (t.goto (loopTest credit wakeAt)) := by
  unfold loopTest
  split
  · exact .turn here before rfl entered (by simp)
  · exact .turn here before rfl entered (by simp)

theorem charge_effect {k : After} (here : t.pc = .charge k) : Effect g t (access g t).2 := by
  simp only [access, here]
  split
  · rename_i none_yet
    apply Effect.moved
    · simp [here, settling]
    · cases k <;> rfl
    · intro enters
      left
      cases k with
      | wait credit => simp [here, entering, waitsAfter]
      | synced => cases enters
    · intro _
      exact .inr none_yet
    · cases k <;> simp [resume]
  · rename_i some_kernel
    split
    · apply Effect.moved
      · simp [here, settling]
      · rfl
      · intro enters
        left
        simpa [here, entering] using enters
      · intro loops
        cases loops
      · simp
    · rename_i paid
      exact .measured here (Nat.pos_of_ne_zero some_kernel) (by simpa using paid)

theorem access_effect : Effect g t (access g t).2 := by
  cases here : t.pc with
  | outside =>
    have still : (access g t).2 = t.goto .outside := by
      simp only [access, here, Thread.goto]
      rw [← here]
    rw [still]
    apply Effect.moved <;> simp [here, settling, entering, looping]
  | loadMode =>
    simp only [access, here]
    split
    · rename_i timed
      apply Effect.moved <;> simp [here, settling, looping, timed]
    · rename_i counted
      apply Effect.moved <;> simp [here, settling, entering, looping, counted]
  | kernelGate =>
    simp only [access, here]
    apply Effect.moved <;> simp [here, settling, entering, looping]
  | syncMode =>
    simp only [access, here]
    split
    · apply Effect.moved <;> simp [here, settling, entering, looping, waitsAfter]
    · apply Effect.moved <;> simp [here, settling, entering, looping]
  | charge k => exact charge_effect here
  | wcExtra elapsedUs k =>
    simp only [access, here]
    exact .closed false (by simp [here, entering])
  | addTotal elapsedUs k | loadAvg elapsedUs k | storeAvg elapsedUs _ k =>
    simp only [access, here]
    exact .settled elapsedUs (by rw [here]; rfl) rfl (by simp [here, entering])
  | chargeUnlimited elapsedUs k =>
    simp only [access, here]
    split
    · exact .closed t.wcRiding (by simp [here, entering])
    · exact .settled elapsedUs (by rw [here]; rfl) rfl (by simp [here, entering])
  | subCredit elapsedUs k =>
    simp only [access, here]
    exact .closed t.wcRiding (by simp [here, entering])
  | loadPeerIdleAt wakeAt nowUs =>
    simp only [access, here]
    split
    · exact .rides (by simp [here, looping]) (by simp [here, entering])
    · apply Effect.turn <;> simp [here, settling, entering, looping]
  | batchStart =>
    simp only [access, here]
    exact .started here
  | wakePriority credit =>
    simp only [access, here]
    split
    · apply Effect.turn <;> simp [here, settling, entering, looping]
    · apply Effect.test <;> simp [here, settling, entering, looping]
  | wakeLimit _ | waitCredit _ =>
    simp only [access, here]
    apply Effect.test <;> simp [here, settling, entering, looping]
  | loadWcOn _ | loadPeerIdle _ | waitUnlimited _ =>
    simp only [access, here]
    split <;> apply Effect.turn <;> simp [here, settling, entering, looping]
  | loadMetrics credit | readNow wakeAt =>
    simp only [access, here]
    apply Effect.turn <;> simp [here, settling, entering, looping]
  | borrowEvents _ | borrowUs _ | denied _ | wcPass =>
    simp only [access, here]
    apply Effect.jump <;> simp [here, settling, entering, looping]
  | loadBoost | loadUnlimited | loadCredit | loadPriority _ | loadLimit _ =>
    simp only [access, here]
    split <;> apply Effect.jump <;> simp [here, settling, entering, looping]

end Accesses

/-- The stretches are over, none of those that are no use lies in a batch that is open or
    being charged, and time mode is only off while nothing can be charged for it. -/
structure Kept (g : Shared) (t : Thread) (r : Ledger) : Prop where
  off : g.creditMode ≠ 1 → ¬ Open t ∧ entering t.pc = false
  loop : looping t.pc = true → t.batchKernelCount = 0
  counted : t.pc = .kernelGate → ¬ Open t
  running : Open t → ∀ w ∈ r.unused, w.2 ≤ t.batchStartUs
  charging : ∀ elapsedUs, settling t.pc = some elapsedUs → t.batchStartUs + elapsedUs ≤ g.nowUs ∧
    ∀ w ∈ r.unused, w.2 ≤ t.batchStartUs ∨ t.batchStartUs + elapsedUs ≤ w.1
  unused_past : ∀ w ∈ r.unused, w.2 ≤ g.nowUs
  billed_past : ∀ b ∈ r.billed, b.2 ≤ g.nowUs
  apart : ∀ b ∈ r.billed, ∀ w ∈ r.unused, w.2 ≤ b.1 ∨ b.2 ≤ w.1

theorem Kept.fair {g : Shared} {t : Thread} {r : Ledger} (kept : Kept g t r) : Fair r := by
  intro b billed w unused x from_start to_end inside
  have apart := kept.apart b billed w unused
  omega

section Threads
variable {g : Shared} {t t' : Thread} {r : Ledger}

theorem Kept.rebuild (kept : Kept g t r)
    (off : g.creditMode ≠ 1 → ¬ Open t' ∧ entering t'.pc = false)
    (loop : looping t'.pc = true → t'.batchKernelCount = 0)
    (counted : t'.pc = .kernelGate → ¬ Open t')
    (running : Open t' → ∀ w ∈ r.unused, w.2 ≤ t'.batchStartUs)
    (charging : ∀ elapsedUs, settling t'.pc = some elapsedUs →
      t'.batchStartUs + elapsedUs ≤ g.nowUs ∧
        ∀ w ∈ r.unused, w.2 ≤ t'.batchStartUs ∨ t'.batchStartUs + elapsedUs ≤ w.1) :
    Kept g t' r :=
  ⟨off, loop, counted, running, charging, kept.unused_past, kept.billed_past, kept.apart⟩

theorem Kept.shut (kept : Kept g t r) (shut : ¬ Open t')
    (off : g.creditMode ≠ 1 → entering t'.pc = false)
    (loop : looping t'.pc = true → t'.batchKernelCount = 0)
    (charging : ∀ elapsedUs, settling t'.pc = some elapsedUs →
      t'.batchStartUs + elapsedUs ≤ g.nowUs ∧
        ∀ w ∈ r.unused, w.2 ≤ t'.batchStartUs ∨ t'.batchStartUs + elapsedUs ≤ w.1) :
    Kept g t' r :=
  kept.rebuild (fun left => ⟨shut, off left⟩) loop (fun _ => shut)
    (fun running => absurd running shut) charging

theorem goto_open {pc : PC} (before : settling t.pc = none) (running : Open (t.goto pc)) : Open t :=
  ⟨running.1, running.2.1, before⟩

theorem settling_shut {elapsedUs : ℤ} (charging : settling t.pc = some elapsedUs) : ¬ Open t := by
  intro running
  have still := running.2.2
  simp [charging] at still

theorem settling_runs {pc : PC} {elapsedUs : ℤ} (charging : settling pc = some elapsedUs) :
    looping pc = false := by
  cases pc <;> simp_all [settling, looping]

theorem moved_kept {pc : PC} (kept : Kept g t r) (before : settling t.pc = none)
    (after : settling pc = none)
    (enters : entering pc = true → entering t.pc = true ∨ g.creditMode = 1)
    (loops : looping pc = true → looping t.pc = true ∨ t.batchKernelCount = 0)
    (counts : pc = .kernelGate → g.creditMode ≠ 1) : Kept g (t.goto pc) r := by
  apply kept.rebuild
  · intro off
    obtain ⟨shut, outside⟩ := kept.off off
    refine ⟨fun running => shut (goto_open before running), ?_⟩
    by_contra entered
    rcases enters (by simpa [Thread.goto] using entered) with inside | timed
    · simp [outside] at inside
    · exact off timed
  · intro looped
    rcases loops looped with looped | empty
    · exact kept.loop looped
    · exact empty
  · intro here running
    exact (kept.off (counts here)).1 (goto_open before running)
  · intro running
    exact kept.running (goto_open before running)
  · intro elapsedUs charging
    simp [Thread.goto, after] at charging

theorem measured_kept {k : After} (kept : Kept g t r) (running : Open t) :
    Kept g (t.goto (.addTotal (g.nowUs - t.batchStartUs) k)) r := by
  apply kept.shut
  · exact settling_shut rfl
  · intro off
    exact absurd running (kept.off off).1
  · intro looped
    cases looped
  · intro elapsedUs charging
    simp only [Thread.goto, settling, Option.some.injEq] at charging
    subst charging
    refine ⟨by dsimp only [Thread.goto]; omega, ?_⟩
    intro w unused
    exact .inl (kept.running running w unused)

theorem settled_kept {pc : PC} {elapsedUs : ℤ} (kept : Kept g t r)
    (before : settling t.pc = some elapsedUs) (after : settling pc = some elapsedUs)
    (enters : entering pc = entering t.pc) : Kept g (t.goto pc) r := by
  have there : settling (t.goto pc).pc = some elapsedUs := after
  apply kept.shut
  · exact settling_shut there
  · intro off
    exact enters.trans (kept.off off).2
  · intro looped
    exact absurd ((settling_runs there).symm.trans looped) (by decide)
  · intro elapsedUs' charging
    rw [there, Option.some.injEq] at charging
    subst charging
    exact kept.charging elapsedUs before

theorem closed_kept {k : After} {riding : Bool} (kept : Kept g t r)
    (enters : entering t.pc = waitsAfter k) :
    Kept g { t.reset k with wcRiding := riding } r := by
  apply kept.shut
  · intro running
    exact absurd running.1 (lt_irrefl 0)
  · intro off
    have outside := (kept.off off).2
    cases k with
    | wait credit => simp [enters, waitsAfter] at outside
    | synced => rfl
  · intro _
    rfl
  · intro elapsedUs charging
    cases k <;> cases charging

theorem started_kept (kept : Kept g t r) (here : t.pc = .batchStart) :
    Kept g
      { t with
        pc := .outside
        batchStartUs := if t.batchKernelCount = 0 then g.nowUs else t.batchStartUs
        batchKernelCount := t.batchKernelCount + 1 } r := by
  apply kept.rebuild
  · intro off
    have outside := (kept.off off).2
    simp [here, entering] at outside
  · intro looped
    cases looped
  · intro out
    cases out
  · intro running w unused
    dsimp only
    split
    · exact kept.unused_past w unused
    · rename_i some_kernel
      exact kept.running ⟨Nat.pos_of_ne_zero some_kernel, running.2.1, by simp [here, settling]⟩
        w unused
  · intro elapsedUs charging
    cases charging

theorem effect_kept (kept : Kept g t r) (effect : Effect g t t') : Kept g t' r := by
  cases effect with
  | moved before after enters loops counts => exact moved_kept kept before after enters loops counts
  | measured here some_kernel paid =>
    exact measured_kept kept ⟨some_kernel, paid, by simp [here, settling]⟩
  | settled elapsedUs before after enters => exact settled_kept kept before after enters
  | closed riding enters => exact closed_kept kept enters
  | rides here entered =>
    apply kept.shut
    · intro running
      cases running.2.1
    · intro off
      have outside := (kept.off off).2
      simp [entered] at outside
    · intro _
      exact kept.loop here
    · intro elapsedUs charging
      cases charging
  | started here => exact started_kept kept here

theorem Kept.congr {g' : Shared} (kept : Kept g t r) (mode : g'.creditMode = g.creditMode)
    (clock : g'.nowUs = g.nowUs) : Kept g' t r := by
  obtain ⟨off, loop, counted, running, charging, unused_past, billed_past, apart⟩ := kept
  rw [← mode] at off
  rw [← clock] at charging unused_past billed_past
  exact ⟨off, loop, counted, running, charging, unused_past, billed_past, apart⟩

theorem bills_settling {pc : PC} {elapsedUs : ℤ} (billed : bills pc = some elapsedUs) :
    settling pc = some elapsedUs := by
  cases pc <;> simp_all [bills, settling]

theorem bill_kept (kept : Kept g t r) : Kept g t (observeAccess t r) := by
  unfold observeAccess
  split
  · exact kept
  · rename_i elapsedUs billed
    obtain ⟨ended, apart⟩ := kept.charging elapsedUs (bills_settling billed)
    refine ⟨kept.off, kept.loop, kept.counted, kept.running, kept.charging, kept.unused_past, ?_, ?_⟩
    · intro b member
      rcases List.mem_cons.mp member with rfl | member
      · exact ended
      · exact kept.billed_past b member
    · intro b member
      rcases List.mem_cons.mp member with rfl | member
      · exact apart
      · exact kept.apart b member

theorem access_kept (kept : Kept g t r) :
    Kept (access g t).1 (access g t).2 (observeAccess t r) :=
  (effect_kept (bill_kept kept) access_effect).congr access_clock.1 access_clock.2

theorem call_kept {pc : PC} (kept : Kept g t r) (out : t.pc = .outside)
    (calls : pc = .loadMode ∨ pc = .syncMode) : Kept g (t.goto pc) r := by
  have before : settling t.pc = none := by simp [out, settling]
  apply effect_kept kept
  rcases calls with rfl | rfl
  · apply Effect.moved before <;> simp [settling, entering, looping]
  · apply Effect.moved before <;> simp [settling, entering, looping]

theorem later_kept (kept : Kept g t r) (us : ℕ) : Kept { g with nowUs := g.nowUs + us } t r := by
  refine { kept with charging := ?_, unused_past := ?_, billed_past := ?_ }
  · intro elapsedUs settles
    obtain ⟨ended, clear⟩ := kept.charging elapsedUs settles
    exact ⟨by dsimp only; omega, clear⟩
  · intro w member
    have past := kept.unused_past w member
    dsimp only
    omega
  · intro b member
    have past := kept.billed_past b member
    dsimp only
    omega

theorem tick_kept {us : ℕ} {idle : Prop} [Decidable idle] (kept : Kept g t r)
    (shut : idle → ¬ Open t) :
    Kept { g with nowUs := g.nowUs + us } t
      (if idle then { r with unused := (g.nowUs, g.nowUs + us) :: r.unused } else r) := by
  have later := later_kept kept us
  split
  · rename_i now_idle
    refine { later with running := ?_, charging := ?_, unused_past := ?_, apart := ?_ }
    · intro running
      exact absurd running (shut now_idle)
    · intro elapsedUs settles
      refine ⟨(later.charging elapsedUs settles).1, ?_⟩
      intro w member
      rcases List.mem_cons.mp member with rfl | member
      · exact .inr (kept.charging elapsedUs settles).1
      · exact (kept.charging elapsedUs settles).2 w member
    · intro w member
      rcases List.mem_cons.mp member with rfl | member
      · exact le_refl _
      · exact later.unused_past w member
    · intro b billed w member
      rcases List.mem_cons.mp member with rfl | member
      · exact .inr (kept.billed_past b billed)
      · exact kept.apart b billed w member
  · exact later

theorem command_kept {c : Command} (kept : Kept g t r)
    (settled : ∀ m, c = .timeMode m → m = 1 ∨ (¬ Open t ∧ entering t.pc = false)) :
    Kept (command g c).1 t r := by
  cases c with
  | timeMode m =>
    obtain ⟨off, loop, counted, running, charging, unused_past, billed_past, apart⟩ := kept
    refine ⟨?_, loop, counted, running, charging, unused_past, billed_past, apart⟩
    intro left
    exact (settled m rfl).resolve_left left
  | timeCredit us =>
    simp only [command]
    split <;> exact kept.congr rfl rfl
  | urgentLimit us =>
    simp only [command]
    split <;> exact kept.congr rfl rfl
  | _ => exact kept.congr rfl rfl

end Threads

structure Inv (x : State × Ledger) : Prop where
  kept : Kept x.1.time.shared x.1.thread x.2
  waits : x.1.stage.waits = true → ¬ Open x.1.thread

theorem start_inv (g : Shared) (f : Front) : Inv (start g f, {}) := by
  have shut : ¬ Open ({} : Thread) := by simp [Open]
  constructor
  · refine ⟨fun _ => ⟨shut, rfl⟩, fun _ => rfl, fun _ => shut, fun now => absurd now shut, ?_, ?_, ?_, ?_⟩
    · intro elapsedUs settles
      cases settles
    · simp
    · simp
    · simp
  · intro waiting
    cases waiting

theorem afterQueue_waits (c : Call) : (afterQueue c).waits = false := by
  cases c <;> rfl

theorem afterUrgent_waits (c : Call) (p : Priority) : (afterUrgent c p).waits = false := by
  unfold afterUrgent
  split
  · rfl
  · exact afterQueue_waits c

theorem afterDone_waits (d : Done) : (afterDone d).waits = false := by
  cases d <;> rfl

theorem advance_waits (f : Front) (priority : Priority) (stage : Stage)
    (waits : (advance f priority stage).2.waits = true) :
    stage.waits = true ∨ heldUp f stage = true := by
  by_contra free
  simp only [not_or, Bool.not_eq_true] at free
  obtain ⟨running, passes⟩ := free
  cases stage with
  | enqueue c p =>
    simp only [advance] at waits
    split at waits
    · simp [afterUrgent_waits] at waits
    · cases waits
  | urgentTest c p waited stuck =>
    simp only [heldUp] at passes
    simp [advance, passes, afterUrgent_waits] at waits
  | dequeue _ _ _ | requeue _ _ _ => cases running
  | urgentLen c waited stuck =>
    simp only [heldUp, decide_eq_false_iff_not] at passes
    simp only [advance, if_neg passes] at waits
    exact absurd (running.symm.trans waits) (by decide)
  | normalLen c waited stuck => exact absurd (running.symm.trans waits) (by decide)
  | backgroundLen c normal waited stuck =>
    simp only [heldUp, decide_eq_false_iff_not] at passes
    simp [advance, passes, afterQueue_waits] at waits
  | loadRoute | loadPreempt | preemptPriority =>
    simp only [advance] at waits
    split at waits <;> cases waits
  | loadGate stuck =>
    simp only [heldUp, decide_eq_false_iff_not] at passes
    simp only [advance, if_neg passes] at waits
    cases waits
  | loadPause stuck =>
    simp only [heldUp] at passes
    simp [advance, passes, Stage.waits] at waits
  | doneSub d p =>
    simp only [advance] at waits
    split at waits
    · cases waits
    · simp [afterDone_waits] at waits
  | doneZero d p => simp [advance, afterDone_waits] at waits
  | _ => cases waits

section Steps
variable {s u : State} {r : Ledger}

theorem next_access {time : TimeGate.State 1} (h : TimeGate.next s.time (.step 0) = some time) :
    time.shared = (access s.time.shared s.thread).1 ∧
      time.threads 0 = (access s.time.shared s.thread).2 := by
  simp only [TimeGate.next, Option.some.injEq] at h
  subst h
  exact ⟨rfl, by simp [State.thread]⟩

theorem next_call {time : TimeGate.State 1} {a : TimeGate.Action 1} {pc : PC}
    (calls : a = .launch 0 ∧ pc = .loadMode ∨ a = .synchronize 0 ∧ pc = .syncMode)
    (h : TimeGate.next s.time a = some time) :
    s.thread.pc = .outside ∧ time.shared = s.time.shared ∧ time.threads 0 = s.thread.goto pc := by
  rcases calls with ⟨rfl, rfl⟩ | ⟨rfl, rfl⟩
  all_goals
    simp only [TimeGate.next] at h
    split at h
    · rename_i out
      cases h
      exact ⟨out, rfl, by simp [State.thread]⟩
    · cases h

theorem access_inv {time : TimeGate.State 1} {stage : Stage} (inv : Inv (s, r))
    (h : TimeGate.next s.time (.step 0) = some time) (runs : stage.waits = false) :
    Inv ({ s with time := time, stage := stage }, observeAccess s.thread r) := by
  obtain ⟨shared, thread⟩ := next_access h
  constructor
  · show Kept time.shared (time.threads 0) _
    rw [shared, thread]
    exact access_kept inv.kept
  · intro waits
    exact absurd (runs.symm.trans waits) (by decide)

theorem stepFront_inv (inv : Inv (s, r)) (settled : heldUp s.front s.stage = true → ¬ Open s.thread)
    (h : stepFront s = some u) : Inv (u, r) := by
  unfold stepFront at h
  dsimp only at h
  split at h
  · simp only [Option.map_eq_some_iff] at h
    obtain ⟨time, called, rfl⟩ := h
    obtain ⟨out, shared, thread⟩ := next_call (.inl ⟨rfl, rfl⟩) called
    constructor
    · show Kept time.shared (time.threads 0) r
      rw [shared, thread]
      exact call_kept inv.kept out (.inl rfl)
    · intro waits
      cases waits
  · cases h
    refine ⟨inv.kept, ?_⟩
    intro waits
    rcases advance_waits _ _ _ waits with before | held
    · exact inv.waits before
    · exact settled held

theorem step_inv (inv : Inv (s, r)) (settled : Settled s .step) (h : next s .step = some u) :
    Inv (u, observe s .step r) := by
  simp only [next] at h
  split at h
  · rename_i idle
    simp only [Option.map_eq_some_iff] at h
    obtain ⟨time, accessed, rfl⟩ := h
    simp only [observe, idle, true_or, if_true]
    exact access_inv inv accessed rfl
  · rename_i gated
    simp only [stepGates, Option.map_eq_some_iff] at h
    obtain ⟨time, accessed, rfl⟩ := h
    simp only [observe, gated, or_true, if_true]
    exact access_inv inv accessed (by split <;> rfl)
  · rename_i not_idle not_gated
    have front : ¬ (s.stage = .idle ∨ s.stage = .gated) := by
      rintro (idle | gated)
      · exact not_idle idle
      · exact not_gated gated
    simp only [observe, if_neg front]
    exact stepFront_inv inv settled h

theorem tick_inv {us : ℕ} (inv : Inv (s, r)) (h : next s (.tick us) = some u) :
    Inv (u, observe s (.tick us) r) := by
  simp only [next, TimeGate.next, Option.map_some, Option.some.injEq] at h
  subst h
  refine ⟨?_, inv.waits⟩
  apply tick_kept inv.kept
  rintro (off | waiting | looping | counted)
  · exact (inv.kept.off off).1
  · exact inv.waits waiting
  · intro running
    exact absurd (inv.kept.loop looping) (Nat.ne_of_gt running.1)
  · exact inv.kept.counted counted

theorem launch_step_inv {a : Action} (inv : Inv (s, r)) (settled : Settled s a)
    (h : next s a = some u) : Inv (u, observe s a r) := by
  cases a with
  | step => exact step_inv inv settled h
  | tick us => exact tick_inv inv h
  | launch =>
    simp only [next] at h
    split at h
    · cases h
      refine ⟨inv.kept, ?_⟩
      intro waits
      cases waits
    · cases h
  | synchronize =>
    simp only [next] at h
    split at h
    · simp only [Option.map_eq_some_iff] at h
      obtain ⟨time, called, rfl⟩ := h
      obtain ⟨out, shared, thread⟩ := next_call (.inr ⟨rfl, rfl⟩) called
      rename_i idle
      constructor
      · show Kept time.shared (time.threads 0) r
        rw [shared, thread]
        exact call_kept inv.kept out (.inr rfl)
      · intro waits
        dsimp only at waits
        rw [idle] at waits
        cases waits
    · cases h
  | command c =>
    simp only [next] at h
    split at h
    · simp only [TimeGate.next, Option.map_eq_some_iff] at h
      obtain ⟨time, commanded, rfl⟩ := h
      split at commanded
      · cases commanded
        refine ⟨command_kept inv.kept ?_, inv.waits⟩
        rintro m rfl
        exact settled
      · cases commanded
    · cases h
  | control =>
    simp only [next, TimeGate.next, Option.map_eq_some_iff] at h
    obtain ⟨time, stored, rfl⟩ := h
    split at stored
    · cases stored
    · cases stored
      exact ⟨inv.kept.congr rfl rfl, inv.waits⟩
    · cases stored
      exact ⟨inv.kept.congr rfl rfl, inv.waits⟩
  | pause on | urgent on =>
    simp only [next] at h
    split at h
    · cases h
      exact ⟨inv.kept, inv.waits⟩
    · cases h
  | urgentStore =>
    simp only [next] at h
    split at h
    · cases h
    · cases h
      exact ⟨inv.kept, inv.waits⟩
  | route _ | reconf _ =>
    cases h
    exact ⟨inv.kept, inv.waits⟩

/-- In a run whose steps are all settled, waiting is never billed as usage. -/
theorem waiting_is_not_billed {g : Shared} {f : Front} {labels : List Action} {x : State × Ledger}
    (run : Run (Watched observe (Guarded Settled LaunchStep)) (start g f, {}) labels x) :
    Fair x.2 := by
  have inv : Inv x := by
    apply run_invariant Inv _ run (start_inv g f)
    rintro ⟨s, r⟩ a ⟨u, r'⟩ inv ⟨⟨settled, fires⟩, observed⟩
    dsimp only at observed
    rw [observed]
    exact launch_step_inv inv settled fires
  exact inv.kept.fair

end Steps

def armed : Shared := { creditMode := 1, timeUnlimited := false, timeCreditUs := 1000 }

def launched : List Action := .launch :: List.replicate 14 .step

def synchronized : List Action := .synchronize :: List.replicate 7 .step

/-- Two batches; the launch of the second waits for the end of a pause. -/
def pausedBetween : List Action :=
  launched ++ [.tick 10] ++ synchronized ++ [.pause true, .launch] ++ List.replicate 6 .step ++
    [.tick 50, .pause false] ++ List.replicate 9 .step ++ [.tick 5] ++ synchronized

theorem paused_between_fair : ∃ x : State × Ledger,
    Run (Watched observe (Guarded Settled LaunchStep)) (start armed {}, {}) pausedBetween x ∧
      x.2 = ⟨[(60, 65), (60, 65), (0, 10), (0, 10)], [(10, 60)]⟩ ∧ Fair x.2 := by
  obtain ⟨x, run, checked⟩ := watched_guarded_run_reaches Settled
    (fun x : State × Ledger => decide (x.2 = ⟨[(60, 65), (60, 65), (0, 10), (0, 10)], [(10, 60)]⟩))
    (show (exec (watching observe (guarding Settled next)) (start armed {}, {}) pausedBetween).any _ =
      true by decide +kernel)
  exact ⟨x, run, of_decide_eq_true checked, waiting_is_not_billed run⟩

def heldUpInBatch : List Action :=
  launched ++ [.tick 10, .urgent true, .urgentStore, .launch] ++ List.replicate 3 .step ++
    [.tick 50, .urgent false, .urgentStore] ++ List.replicate 14 .step ++ synchronized

theorem waiting_billed : ∃ x : State × Ledger,
    Run (Watched observe LaunchStep) (start armed {}, {}) heldUpInBatch x ∧
      x.2 = ⟨[(0, 60), (0, 60)], [(10, 60)]⟩ ∧ ¬ Fair x.2 := by
  obtain ⟨x, run, checked⟩ := watched_run_reaches
    (fun x : State × Ledger => decide (x.2 = ⟨[(0, 60), (0, 60)], [(10, 60)]⟩))
    (show (exec (watching observe next) (start armed {}, {}) heldUpInBatch).any _ = true by
      decide +kernel)
  have ledger := of_decide_eq_true checked
  refine ⟨x, run, ledger, ?_⟩
  intro fair
  rw [ledger] at fair
  exact fair (0, 60) (by simp) (10, 60) (by simp) 30 (by simp) (by simp) (by simp)

end LaunchPath
