import KrakenRuntime.Gating.Invariants
import KrakenRuntime.Lib.Threads

/- The tenant processes behind the slots of the segment: kraken_init, which registers in
   kraken_shm_open, loads the killer policy and then records the version of the segment, the
   launching thread, and kraken_fini, which stores active = 0 and then unmaps the segment
   while the launching thread may stand anywhere. A process that has unmapped makes no
   further access: gate_killer_exit finds no segment and returns. A tenant id is taken by
   a new process only after the old one has stored active = 0; registration resets neither
   the gate word nor the slice. Slot search, tenant names and the SM and memory shares that
   kraken_shm_open writes are left out. A reload first loads the version; reading the file and
   noting that version down is its second step. -/
namespace Gate
open Runs

inductive Status where
  | unborn
  | live
  | leaving
  | gone
  deriving DecidableEq

/-- `policyVersion` is the version that the segment showed when the policy in force was
    loaded, which the code does not keep; `reloading` is the version that a reload has found,
    while it reads the file. -/
structure Process where
  slot : ℕ := 0
  status : Status := .unborn
  pc : PC := .outside
  policyVersion : Option ℕ := none
  loadedKillerVersion : ℕ := 0
  reloading : Option ℕ := none
  initialized : Bool := false
  deriving DecidableEq

def Process.mapped (p : Process) : Prop := p.status = .live ∨ p.status = .leaving

instance (p : Process) : Decidable p.mapped := inferInstanceAs (Decidable (_ ∨ _))

theorem mapped_born {p : Process} (mapped : p.mapped) : p.status ≠ .unborn := by
  intro unborn
  rcases mapped with live | leaving
  · rw [unborn] at live
    cases live
  · rw [unborn] at leaving
    cases leaving

/-- The process is live and its launching thread between mark_active and the end of
    gate_killer_exit. -/
def Process.runsKiller (p : Process) : Prop := p.status = .live ∧ p.pc.inKiller

instance (p : Process) : Decidable p.runsKiller := inferInstanceAs (Decidable (_ ∧ _))

/-- The first access of a reload that has to read the file. -/
def Process.findsNewer (p : Process) (m : Shm) : Prop :=
  p.pc = .reloadPolicy ∧ p.reloading = none ∧ m.killerPolicyVersion ≠ p.loadedKillerVersion

instance (p : Process) (m : Shm) : Decidable (p.findsNewer m) :=
  inferInstanceAs (Decidable (_ ∧ _))

structure World (n : ℕ) where
  shm : Shm
  procs : Fin n → Process

inductive Event (n : ℕ) where
  | register (p : Fin n) (slot : ℕ)
  | loadKillerPolicy (p : Fin n)
  | recordVersion (p : Fin n)
  | launch (p : Fin n)
  | step (p : Fin n) (us : ℕ)
  | fini (p : Fin n)
  | unmap (p : Fin n)
  | setMode (mode : Mode) (profilingIdx : ℕ)
  | setPolicy (policy : Policy)
  | publishKillers

variable {n : ℕ}

namespace World

def setProc (w : World n) (p : Fin n) (q : Process) : World n :=
  { w with procs := Function.update w.procs p q }

/-- What holds of every process holds still when one is replaced by a process it holds of. -/
theorem setProc_all {w : World n} {p : Fin n} {q : Process} (P : Fin n → Process → Prop)
    (before : ∀ r, P r (w.procs r)) (replaced : P p q) : ∀ r, P r ((w.setProc p q).procs r) :=
  (Function.forall_update_iff w.procs P).mpr ⟨replaced, fun r _ => before r⟩

def setActive (w : World n) (slot : ℕ) (on : Bool) : World n :=
  { w with shm := w.shm.setTenant slot fun t => { t with active := on } }

def tick (round : ℚ → ℚ) (w : World n) (p : Fin n) (us : ℕ) : World n where
  shm := (access round w.shm (w.procs p).slot us (w.procs p).pc).1.apply w.shm
  procs := Function.update w.procs p
    { w.procs p with
      pc := (access round w.shm (w.procs p).slot us (w.procs p).pc).2
      policyVersion :=
        if (w.procs p).pc = .reloadPolicy ∧ (w.procs p).reloading.isSome then
          some w.shm.killerPolicyVersion
        else (w.procs p).policyVersion
      loadedKillerVersion :=
        if (w.procs p).pc = .reloadPolicy then
          (w.procs p).reloading.getD (w.procs p).loadedKillerVersion
        else (w.procs p).loadedKillerVersion
      reloading := none }

def next (round : ℚ → ℚ) (w : World n) : Event n → Option (World n)
  | .register p slot =>
    if (w.procs p).status = .unborn ∧ slot < w.shm.tenantCount ∧ w.shm.active slot = false then
      some ((w.setActive slot true).setProc p
        { slot := slot, status := .live })
    else none
  | .loadKillerPolicy p =>
    if (w.procs p).status = .live ∧ (w.procs p).initialized = false ∧
        (w.procs p).policyVersion = none then
      some (w.setProc p { w.procs p with policyVersion := some w.shm.killerPolicyVersion })
    else none
  | .recordVersion p =>
    if (w.procs p).status = .live ∧ (w.procs p).initialized = false ∧
        (w.procs p).policyVersion.isSome then
      some (w.setProc p
        { w.procs p with
          loadedKillerVersion := w.shm.killerPolicyVersion
          initialized := true })
    else none
  | .launch p =>
    if ((w.procs p).mapped ∧ (w.procs p).initialized) ∧ (w.procs p).pc = .outside then
      some (w.setProc p { w.procs p with pc := .loadMode })
    else none
  | .step p us =>
    if (w.procs p).mapped ∧ (w.procs p).pc ≠ .outside then
      if (w.procs p).findsNewer w.shm then
        some (w.setProc p { w.procs p with reloading := some w.shm.killerPolicyVersion })
      else some (w.tick round p us)
    else none
  | .fini p =>
    if (w.procs p).status = .live ∧ (w.procs p).initialized then
      some ((w.setActive (w.procs p).slot false).setProc p { w.procs p with status := .leaving })
    else none
  | .unmap p =>
    if (w.procs p).status = .leaving then some (w.setProc p { w.procs p with status := .gone })
    else none
  | .setMode mode idx =>
    some { w with shm := { w.shm with mode := mode, profilingTenantIdx := idx } }
  | .setPolicy policy => some { w with shm := { w.shm with policy := policy } }
  | .publishKillers =>
    some { w with shm := { w.shm with killerPolicyVersion := w.shm.killerPolicyVersion + 1 } }

end World

abbrev WorldStep (round : ℚ → ℚ) : World n → Event n → World n → Prop := Fires (World.next round)

theorem process_step_cases {round : ℚ → ℚ} {w t : World n} {p : Fin n} {us : ℕ}
    (step : WorldStep round w (.step p us) t) :
    ((w.procs p).mapped ∧ (w.procs p).pc ≠ .outside) ∧
      ((w.procs p).findsNewer w.shm ∧
          t = w.setProc p { w.procs p with reloading := some w.shm.killerPolicyVersion } ∨
        ¬ (w.procs p).findsNewer w.shm ∧ t = w.tick round p us) := by
  simp only [Fires, World.next, Option.ite_none_right_eq_some] at step
  obtain ⟨ready, moved⟩ := step
  refine ⟨ready, ?_⟩
  split at moved
  · rename_i newer
    exact .inl ⟨newer, (Option.some.inj moved).symm⟩
  · rename_i current
    exact .inr ⟨current, (Option.some.inj moved).symm⟩

structure Empty (w : World n) : Prop where
  unborn : ∀ p, (w.procs p).status = .unborn
  inactive : ∀ i, w.shm.active i = false
  running : ∀ i, w.shm.gate i = .running

def emptyWorld (n slots : ℕ) (remain : ℤ) : World n where
  shm :=
    { tenantCount := slots
      mode := .overcommit
      profilingTenantIdx := 0
      roundTriggerLock := false
      killerPolicyVersion := 0
      policy := { weights := fun _ => 1, roundDurationUs := 1000 }
      tenants := fun _ =>
        { active := false, gateState := .running, timeRemainUs := remain,
          totalExecUs := 0, totalWaitUs := 0, killerCount := 0, roundId := 0 } }
  procs := fun _ => {}

theorem emptyWorld_empty (n slots : ℕ) (remain : ℤ) : Empty (emptyWorld n slots remain) :=
  ⟨fun _ => rfl, fun _ => rfl, fun _ => rfl⟩

/-- kraken_init with nothing in between. -/
def krakenInit (p : Fin n) (slot : ℕ) : List (Event n) :=
  [.register p slot, .loadKillerPolicy p, .recordVersion p]

def accesses (p : Fin n) (k : ℕ) : List (Event n) := List.replicate k (.step p 10)

section Fields
variable (round : ℚ → ℚ) (w : World n) (p q : Fin n) (us i : ℕ)

theorem setActive_gate_at (slot : ℕ) (on : Bool) :
    (w.setActive slot on).shm.gate i = w.shm.gate i := by
  simp only [World.setActive, Shm.gate, setTenant_at]
  split <;> rfl

theorem setActive_active_at (slot : ℕ) (on : Bool) :
    (w.setActive slot on).shm.active i = if i = slot then on else w.shm.active i := by
  simp only [World.setActive, Shm.active, setTenant_at]
  split <;> rfl

theorem tick_active_at : (w.tick round p us).shm.active i = w.shm.active i :=
  apply_active _ _ _

theorem tick_gate_at : (w.tick round p us).shm.gate i =
    gateAfter (w.procs p).slot (w.procs p).pc i (w.shm.gate i) :=
  access_gate ..

theorem tick_proc_other {p q : Fin n} (ne : q ≠ p) : (w.tick round p us).procs q = w.procs q := by
  simp [World.tick, ne]

theorem tick_slot : ((w.tick round p us).procs q).slot = (w.procs q).slot := by
  by_cases same : q = p
  · subst same
    simp [World.tick]
  · rw [tick_proc_other round w us same]

theorem tick_status : ((w.tick round p us).procs q).status = (w.procs q).status := by
  by_cases same : q = p
  · subst same
    simp [World.tick]
  · rw [tick_proc_other round w us same]

end Fields

end Gate
