import KrakenRuntime.Lib.Runs
import Mathlib.Data.Rat.Floor
import Mathlib.Algebra.Order.Field.Rat
import Mathlib.Logic.Function.Basic

/- The killer gate (gating/stream_gate.cpp) with the round and slice code it calls
   (timeslice/round_manager.cpp, timeslice/time_slice.cpp). The processes share one
   memory segment; every __atomic load, store and read-modify-write is one step, and the
   steps of all tenants interleave freely under sequential consistency. The layout of
   the segment is in a header outside the repository and is taken as plain fields.
   Single-precision arithmetic appears only in the slice length, through an arbitrary
   `round`. Time differences that a process measures are inputs of its steps. -/
namespace Gate

inductive Mode where
  | free
  | overcommit
  | profiling
  deriving DecidableEq

inductive GateState where
  | running
  | waiting
  | killerActive
  deriving DecidableEq

structure TenantState where
  active : Bool
  gateState : GateState
  timeRemainUs : ℤ
  totalExecUs : ℤ
  totalWaitUs : ℤ
  killerCount : ℕ
  roundId : BitVec 32

structure Policy where
  weights : ℕ → ℚ
  roundDurationUs : ℤ

structure Shm where
  tenantCount : ℕ
  mode : Mode
  profilingTenantIdx : ℕ
  roundTriggerLock : Bool
  killerPolicyVersion : ℕ
  policy : Policy
  tenants : ℕ → TenantState

namespace Shm

def active (m : Shm) (i : ℕ) : Bool := (m.tenants i).active
def gate (m : Shm) (i : ℕ) : GateState := (m.tenants i).gateState
def remain (m : Shm) (i : ℕ) : ℤ := (m.tenants i).timeRemainUs

def setTenant (m : Shm) (i : ℕ) (f : TenantState → TenantState) : Shm :=
  { m with tenants := Function.update m.tenants i (f (m.tenants i)) }

end Shm

/-- Where a tenant's launching thread stands, one constructor for each access it makes
    next. The numbers are the loop variables of the source. -/
inductive PC where
  | outside
  -- gate_killer_enter, up to the slice test
  | loadMode
  | loadProfilingIdx
  | loadModeAgain
  | timesliceExhausted
  | timesliceSetWaiting
  -- round_check_and_trigger: all_waiting
  | allWaitingActive (i : ℕ)
  | allWaitingGate (i : ℕ)
  -- start_new_round
  | roundTriggerCas
  | reloadPolicy
  | roundActive (i : ℕ)
  | calcSlice (i j : ℕ) (totalW : ℚ)
  | rechargeRemain (i : ℕ) (sliceUs : ℤ)
  | rechargeGate (i : ℕ)
  | loadRoundId
  | storeRoundId (i : ℕ) (rid : BitVec 32)
  | roundTriggerUnlock
  -- gate_killer_enter, waiting for the round and for the peers
  | waitLoop
  | addWait
  | peerActive (i : ℕ)
  | peerGate (i : ℕ)
  | peerSpin (i : ℕ)
  | peerAddWait (i : ℕ)
  | markActive
  -- the kernel runs, then gate_killer_exit
  | killer
  | deductRemain (elapsedUs : ℕ)
  | addExec (elapsedUs : ℕ)
  | addKillerCount
  | exitRunning
  deriving DecidableEq

inductive Write where
  | nothing
  | gate (i : ℕ) (g : GateState)
  | remain (i : ℕ) (us : ℤ)
  | subRemain (i : ℕ) (us : ℤ)
  | addExec (i : ℕ) (us : ℤ)
  | addWait (i : ℕ) (us : ℤ)
  | addKillerCount (i : ℕ)
  | roundId (i : ℕ) (rid : BitVec 32)
  | lock (held : Bool)

def Write.apply (m : Shm) : Write → Shm
  | .nothing => m
  | .gate i g => m.setTenant i fun t => { t with gateState := g }
  | .remain i us => m.setTenant i fun t => { t with timeRemainUs := us }
  | .subRemain i us => m.setTenant i fun t => { t with timeRemainUs := t.timeRemainUs - us }
  | .addExec i us => m.setTenant i fun t => { t with totalExecUs := t.totalExecUs + us }
  | .addWait i us => m.setTenant i fun t => { t with totalWaitUs := t.totalWaitUs + us }
  | .addKillerCount i => m.setTenant i fun t => { t with killerCount := t.killerCount + 1 }
  | .roundId i rid => m.setTenant i fun t => { t with roundId := rid }
  | .lock held => { m with roundTriggerLock := held }

def truncate (q : ℚ) : ℤ := if 0 ≤ q then ⌊q⌋ else ⌈q⌉

/-- The end of `calc_slice_us`, once the weights of the active tenants are summed. -/
def calcSliceUs (round : ℚ → ℚ) (p : Policy) (tenantIdx : ℕ) (totalW : ℚ) : ℤ :=
  let totalW := if totalW ≤ 0 then 1 else totalW
  let rd : ℤ := if 0 < p.roundDurationUs then p.roundDurationUs else 100000
  truncate (round (round (round rd * p.weights tenantIdx) / totalW))

/-- One access of tenant `my`: what it writes and where it stands afterwards. `us` is the
    time difference the access measures, if it measures one. -/
def access (round : ℚ → ℚ) (m : Shm) (my : ℕ) (us : ℕ) : PC → Write × PC
  | .outside => (.nothing, .outside)
  | .loadMode => (.nothing, if m.mode = .profiling then .loadProfilingIdx else .loadModeAgain)
  | .loadProfilingIdx =>
    (.nothing, if m.profilingTenantIdx = my then .loadModeAgain else .loadMode)
  | .loadModeAgain => (.nothing, if m.mode = .free then .markActive else .timesliceExhausted)
  | .timesliceExhausted =>
    (.nothing, if m.remain my ≤ 0 then .timesliceSetWaiting else .peerActive 0)
  | .timesliceSetWaiting => (.gate my .waiting, .allWaitingActive 0)
  | .allWaitingActive i =>
    (.nothing,
      if m.tenantCount ≤ i then .roundTriggerCas
      else if m.active i then .allWaitingGate i else .allWaitingActive (i + 1))
  | .allWaitingGate i =>
    (.nothing, if m.gate i = .waiting then .allWaitingActive (i + 1) else .waitLoop)
  | .roundTriggerCas =>
    if m.roundTriggerLock then (.nothing, .waitLoop) else (.lock true, .reloadPolicy)
  | .reloadPolicy => (.nothing, .roundActive 0)
  | .roundActive i =>
    (.nothing,
      if m.tenantCount ≤ i then .loadRoundId
      else if m.active i then .calcSlice i 0 0 else .roundActive (i + 1))
  | .calcSlice i j totalW =>
    (.nothing,
      if m.tenantCount ≤ j then .rechargeRemain i (calcSliceUs round m.policy i totalW)
      else .calcSlice i (j + 1)
        (if m.active j then round (totalW + m.policy.weights j) else totalW))
  | .rechargeRemain i sliceUs => (.remain i sliceUs, .rechargeGate i)
  | .rechargeGate i => (.gate i .running, .roundActive (i + 1))
  | .loadRoundId => (.nothing, .storeRoundId 0 (m.tenants my).roundId)
  | .storeRoundId i rid =>
    if m.tenantCount ≤ i then (.nothing, .roundTriggerUnlock)
    else (.roundId i (rid + 1), .storeRoundId (i + 1) rid)
  | .roundTriggerUnlock => (.lock false, .waitLoop)
  | .waitLoop => (.nothing, if m.gate my = .waiting then .allWaitingActive 0 else .addWait)
  | .addWait => (.addWait my us, .peerActive 0)
  | .peerActive i =>
    (.nothing,
      if m.tenantCount ≤ i then .markActive
      else if i = my then .peerActive (i + 1)
      else if m.active i then .peerGate i else .peerActive (i + 1))
  | .peerGate i =>
    (.nothing, if m.gate i = .killerActive then .peerSpin i else .peerActive (i + 1))
  | .peerSpin i =>
    (.nothing, if m.gate i = .killerActive then .peerSpin i else .peerAddWait i)
  | .peerAddWait i => (.addWait my us, .peerActive (i + 1))
  | .markActive => (.gate my .killerActive, .killer)
  | .killer => (.nothing, .deductRemain us)
  | .deductRemain e => (.subRemain my e, .addExec e)
  | .addExec e => (.addExec my e, .addKillerCount)
  | .addKillerCount => (.addKillerCount my, .exitRunning)
  | .exitRunning => (.gate my .running, .outside)

structure System where
  shm : Shm
  pc : ℕ → PC
  loadedKillerVersion : ℕ → ℕ

/-- A launch of a killer, one access of a tenant, registration and exit of a tenant
    process outside a launch, and what the controller writes. -/
inductive Action where
  | launch (my : ℕ)
  | step (my : ℕ) (us : ℕ)
  | register (my : ℕ)
  | fini (my : ℕ)
  | setMode (mode : Mode) (profilingIdx : ℕ)
  | setPolicy (p : Policy)
  | publishKillers

def tick (round : ℚ → ℚ) (s : System) (my us : ℕ) : System where
  shm := (access round s.shm my us (s.pc my)).1.apply s.shm
  pc := Function.update s.pc my (access round s.shm my us (s.pc my)).2
  loadedKillerVersion :=
    if s.pc my = .reloadPolicy then
      Function.update s.loadedKillerVersion my s.shm.killerPolicyVersion
    else s.loadedKillerVersion

def setActive (s : System) (my : ℕ) (on : Bool) : System :=
  { s with shm := s.shm.setTenant my fun t => { t with active := on } }

def next (round : ℚ → ℚ) (s : System) : Action → Option System
  | .launch my =>
    if my < s.shm.tenantCount ∧ s.pc my = .outside ∧ s.shm.active my = true then
      some { s with pc := Function.update s.pc my .loadMode }
    else none
  | .step my us =>
    if my < s.shm.tenantCount ∧ s.pc my ≠ .outside then some (tick round s my us) else none
  | .register my =>
    if my < s.shm.tenantCount ∧ s.pc my = .outside then some (setActive s my true) else none
  | .fini my =>
    if my < s.shm.tenantCount ∧ s.pc my = .outside then some (setActive s my false) else none
  | .setMode mode idx => some { s with shm := { s.shm with mode := mode, profilingTenantIdx := idx } }
  | .setPolicy p => some { s with shm := { s.shm with policy := p } }
  | .publishKillers =>
    some { s with shm := { s.shm with killerPolicyVersion := s.shm.killerPolicyVersion + 1 } }

abbrev GateStep (round : ℚ → ℚ) : System → Action → System → Prop := Runs.Fires (next round)

/-- A fresh segment: no tenant is in the gate, all gates are open and no round is running. -/
structure Fresh (s : System) : Prop where
  outside : ∀ i, s.pc i = .outside
  running : ∀ i, s.shm.gate i = .running
  unlocked : s.shm.roundTriggerLock = false

def registered (n : ℕ) (mode : Mode) (remain : ℕ → ℤ) : System where
  shm :=
    { tenantCount := n
      mode := mode
      profilingTenantIdx := 0
      roundTriggerLock := false
      killerPolicyVersion := 0
      policy := { weights := fun _ => 1, roundDurationUs := 1000 }
      tenants := fun i =>
        { active := decide (i < n), gateState := .running, timeRemainUs := remain i,
          totalExecUs := 0, totalWaitUs := 0, killerCount := 0, roundId := 0 } }
  pc := fun _ => .outside
  loadedKillerVersion := fun _ => 0

def steps (my : ℕ) : ℕ → List Action
  | 0 => []
  | k + 1 => .step my 10 :: steps my k

theorem registered_fresh (n : ℕ) (mode : Mode) (remain : ℕ → ℤ) :
    Fresh (registered n mode remain) :=
  ⟨fun _ => rfl, fun _ => rfl, rfl⟩

end Gate
