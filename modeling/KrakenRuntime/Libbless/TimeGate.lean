import KrakenRuntime.Lib.Int64
import KrakenRuntime.Lib.Runs
import KrakenRuntime.Lib.Threads
import Mathlib.Data.Fintype.Basic
import Mathlib.Logic.Function.Basic

/- The time-credit gate of libbless (libbless.cpp): time_credit_gate, time_batch_start and
   time_batch_end_and_charge as launching threads run them from cudaLaunchKernel and the
   synchronisation calls, and the control commands that write the same variables. Every
   atomic access and every reading of the clock is one step, and the threads and the
   control server interleave freely. `next` computes with integers; `wordNext` keeps
   time_credit_us and total_time_us as the 64-bit words that the code has. What is done where
   gate_metrics_on is set is left out (bless_gate_block_record is in Measurements), and so is
   what a launch does before it tests the credit mode: neither reads or writes any of these
   variables. -/
namespace TimeGate

inductive Priority where
  | urgent
  | normal
  | background
  deriving DecidableEq

structure Shared where
  boostMode : Bool := false
  creditMode : ℤ := 0
  timeUnlimited : Bool := true
  timeCreditUs : ℤ := -1
  totalTimeUs : ℤ := 0
  avgKernelTimeUs : ℤ := 10
  currentPriority : Priority := .normal
  urgentLimitUs : ℤ := 10000
  urgentBorrowEvents : ℕ := 0
  urgentBorrowUs : ℤ := 0
  urgentDenied : ℕ := 0
  wcOn : Bool := false
  peerIdle : Bool := false
  peerIdleAtUs : ℤ := 0
  wcPassCount : ℕ := 0
  wcExtraUs : ℤ := 0
  nowUs : ℤ := 0
  deriving DecidableEq

/-- Where time_batch_end_and_charge returns to: the waiting part of the gate, with the
    credit loaded before, or the end of a synchronisation. -/
inductive After where
  | wait (credit : ℤ)
  | synced
  deriving DecidableEq

inductive PC where
  | outside
  | loadMode
  | kernelGate
  -- time_credit_gate, the fast path and borrowing
  | loadBoost
  | loadUnlimited
  | loadCredit
  | loadPriority (credit : ℤ)
  | loadLimit (credit : ℤ)
  | borrowEvents (credit : ℤ)
  | borrowUs (credit : ℤ)
  | denied (credit : ℤ)
  -- time_batch_end_and_charge
  | charge (k : After)
  | wcExtra (elapsedUs : ℤ) (k : After)
  | addTotal (elapsedUs : ℤ) (k : After)
  | loadAvg (elapsedUs : ℤ) (k : After)
  | storeAvg (elapsedUs oldAvg : ℤ) (k : After)
  | chargeUnlimited (elapsedUs : ℤ) (k : After)
  | subCredit (elapsedUs : ℤ) (k : After)
  -- time_credit_gate, the waiting loop
  | loadMetrics (credit : ℤ)
  | wakePriority (credit : ℤ)
  | wakeLimit (credit : ℤ)
  | loadWcOn (wakeAt : ℤ)
  | loadPeerIdle (wakeAt : ℤ)
  | readNow (wakeAt : ℤ)
  | loadPeerIdleAt (wakeAt nowUs : ℤ)
  | wcPass
  | waitUnlimited (wakeAt : ℤ)
  | waitCredit (wakeAt : ℤ)
  -- time_batch_start
  | batchStart
  -- cudaDeviceSynchronize and cudaStreamSynchronize
  | syncMode
  deriving DecidableEq

structure Thread where
  pc : PC := .outside
  batchStartUs : ℤ := 0
  batchKernelCount : ℕ := 0
  wcRiding : Bool := false
  deriving DecidableEq

def resume : After → PC
  | .wait credit => .loadMetrics credit
  | .synced => .outside

def Thread.reset (t : Thread) (k : After) : Thread :=
  { t with pc := resume k, batchKernelCount := 0, batchStartUs := 0 }

def Thread.goto (t : Thread) (pc : PC) : Thread := { t with pc := pc }

def loopTest (credit wakeAt : ℤ) : PC := if credit ≤ wakeAt then .loadWcOn wakeAt else .batchStart

def newAvg (oldAvg elapsedUs : ℤ) (kernelCount : ℕ) : ℤ :=
  max 1 ((oldAvg * 3 + elapsedUs.tdiv kernelCount).tdiv 4)

def access (g : Shared) (t : Thread) : Shared × Thread :=
  match t.pc with
  | .outside => (g, t)
  | .loadMode => (g, t.goto (if g.creditMode = 1 then .loadBoost else .kernelGate))
  | .kernelGate => (g, t.goto .outside)
  | .loadBoost => (g, t.goto (if g.boostMode then .batchStart else .loadUnlimited))
  | .loadUnlimited => (g, t.goto (if g.timeUnlimited then .batchStart else .loadCredit))
  | .loadCredit =>
    (g, t.goto (if 0 < g.timeCreditUs then .batchStart else .loadPriority g.timeCreditUs))
  | .loadPriority credit =>
    (g, t.goto (if g.currentPriority = .urgent then .loadLimit credit else .charge (.wait credit)))
  | .loadLimit credit =>
    (g, t.goto (if -g.urgentLimitUs < credit then .borrowEvents credit else .denied credit))
  | .borrowEvents credit =>
    ({ g with urgentBorrowEvents := g.urgentBorrowEvents + 1 }, t.goto (.borrowUs credit))
  | .borrowUs credit => ({ g with urgentBorrowUs := g.urgentBorrowUs - credit }, t.goto .batchStart)
  | .denied credit =>
    ({ g with urgentDenied := g.urgentDenied + 1 }, t.goto (.charge (.wait credit)))
  | .charge k =>
    (g,
      if t.batchKernelCount = 0 then t.goto (resume k)
      else if t.wcRiding then t.goto (.wcExtra (g.nowUs - t.batchStartUs) k)
      else t.goto (.addTotal (g.nowUs - t.batchStartUs) k))
  | .wcExtra elapsedUs k =>
    ({ g with wcExtraUs := g.wcExtraUs + elapsedUs }, { t.reset k with wcRiding := false })
  | .addTotal elapsedUs k =>
    ({ g with totalTimeUs := g.totalTimeUs + elapsedUs }, t.goto (.loadAvg elapsedUs k))
  | .loadAvg elapsedUs k => (g, t.goto (.storeAvg elapsedUs g.avgKernelTimeUs k))
  | .storeAvg elapsedUs oldAvg k =>
    ({ g with avgKernelTimeUs := newAvg oldAvg elapsedUs t.batchKernelCount },
      t.goto (.chargeUnlimited elapsedUs k))
  | .chargeUnlimited elapsedUs k =>
    (g, if g.timeUnlimited then t.reset k else t.goto (.subCredit elapsedUs k))
  | .subCredit elapsedUs k => ({ g with timeCreditUs := g.timeCreditUs - elapsedUs }, t.reset k)
  | .loadMetrics credit => (g, t.goto (.wakePriority credit))
  | .wakePriority credit =>
    (g, t.goto (if g.currentPriority = .urgent then .wakeLimit credit else loopTest credit 0))
  | .wakeLimit credit => (g, t.goto (loopTest credit (-g.urgentLimitUs)))
  | .loadWcOn wakeAt => (g, t.goto (if g.wcOn then .loadPeerIdle wakeAt else .waitUnlimited wakeAt))
  | .loadPeerIdle wakeAt =>
    (g, t.goto (if g.peerIdle then .readNow wakeAt else .waitUnlimited wakeAt))
  | .readNow wakeAt => (g, t.goto (.loadPeerIdleAt wakeAt g.nowUs))
  | .loadPeerIdleAt wakeAt nowUs =>
    (g,
      if nowUs - g.peerIdleAtUs < 20000 then { t.goto .wcPass with wcRiding := true }
      else t.goto (.waitUnlimited wakeAt))
  | .wcPass => ({ g with wcPassCount := g.wcPassCount + 1 }, t.goto .batchStart)
  | .waitUnlimited wakeAt => (g, t.goto (if g.timeUnlimited then .batchStart else .waitCredit wakeAt))
  | .waitCredit wakeAt => (g, t.goto (loopTest g.timeCreditUs wakeAt))
  | .batchStart =>
    (g,
      { t with
        pc := .outside
        batchStartUs := if t.batchKernelCount = 0 then g.nowUs else t.batchStartUs
        batchKernelCount := t.batchKernelCount + 1 })
  | .syncMode => (g, t.goto (if g.creditMode = 1 then .charge .synced else .outside))

inductive Command where
  | timeMode (m : ℤ)
  | timeCredit (us : ℤ)
  | timeUnlimited
  | timeAdd (us : ℤ)
  | peerIdle (v : ℤ)
  | prioritySet (p : Priority)
  | urgentLimit (us : ℤ)
  | boost (on : Bool)
  deriving DecidableEq

/-- The second store of a command that makes two. -/
inductive Control where
  | ready
  | storeCredit (us : ℤ)
  | storePeerIdleAt
  deriving DecidableEq

def command (g : Shared) : Command → Shared × Control
  | .timeMode m => ({ g with creditMode := m }, .ready)
  | .timeCredit us =>
    if us < 0 then ({ g with timeUnlimited := true }, .storeCredit (-1))
    else ({ g with timeUnlimited := false }, .storeCredit us)
  | .timeUnlimited => ({ g with timeUnlimited := true }, .storeCredit (-1))
  | .timeAdd us => ({ g with timeCreditUs := g.timeCreditUs + us }, .ready)
  | .peerIdle v => ({ g with peerIdle := v ≠ 0 }, .storePeerIdleAt)
  | .prioritySet p => ({ g with currentPriority := p }, .ready)
  | .urgentLimit us => (if 0 ≤ us then { g with urgentLimitUs := us } else g, .ready)
  | .boost on => ({ g with boostMode := on }, .ready)

structure State (n : ℕ) where
  shared : Shared
  threads : Fin n → Thread
  control : Control
  deriving DecidableEq

inductive Action (n : ℕ) where
  | launch (i : Fin n)
  | synchronize (i : Fin n)
  | step (i : Fin n)
  | command (c : Command)
  | control
  | tick (us : ℕ)
  deriving DecidableEq

variable {n : ℕ}

def next (s : State n) : Action n → Option (State n)
  | .launch i =>
    if (s.threads i).pc = .outside then
      some { s with threads := Function.update s.threads i ((s.threads i).goto .loadMode) }
    else none
  | .synchronize i =>
    if (s.threads i).pc = .outside then
      some { s with threads := Function.update s.threads i ((s.threads i).goto .syncMode) }
    else none
  | .step i =>
    some { s with
      shared := (access s.shared (s.threads i)).1
      threads := Function.update s.threads i (access s.shared (s.threads i)).2 }
  | .command c =>
    if s.control = .ready then
      some { s with shared := (command s.shared c).1, control := (command s.shared c).2 }
    else none
  | .control =>
    match s.control with
    | .ready => none
    | .storeCredit us =>
      some { s with shared := { s.shared with timeCreditUs := us }, control := .ready }
    | .storePeerIdleAt =>
      some { s with shared := { s.shared with peerIdleAtUs := s.shared.nowUs }, control := .ready }
  | .tick us => some { s with shared := { s.shared with nowUs := s.shared.nowUs + us } }

abbrev TimeStep : State n → Action n → State n → Prop := Runs.Fires next

/-- fetch_add and fetch_sub on a std::atomic<int64_t> wrap. -/
def Shared.stored (g : Shared) : Shared :=
  { g with
    timeCreditUs := Int64Word.int64 g.timeCreditUs
    totalTimeUs := Int64Word.int64 g.totalTimeUs }

def State.stored (s : State n) : State n := { s with shared := s.shared.stored }

def wordNext (s : State n) (a : Action n) : Option (State n) := (next s a).map State.stored

abbrev WordStep : State n → Action n → State n → Prop := Runs.Fires wordNext

end TimeGate
