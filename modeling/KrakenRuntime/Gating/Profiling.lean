import KrakenRuntime.Gating.Invariants

/- The profiled tenant and the tenants held for its sake. gate_killer_enter has no branch of
   its own for the profiled tenant: it leaves the PROFILING loop and takes the OVERCOMMIT
   slice test, where a spent slice makes it wait for a round that the held tenants, which
   keep their RUNNING words, cannot complete. The mode may be switched at any step. -/
namespace Gate
open Runs

/-- In the waiting loop of gate_killer_enter or in a scan or CAS that the loop makes. -/
def PC.spinning (pc : PC) : Prop := pc.inWaiting ∧ ¬ pc.inRound

def PC.held : PC → Prop
  | .loadMode | .loadProfilingIdx => True
  | _ => False

/-- In the waiting branch, from the exhausted slice test on. -/
def PC.waits : PC → Prop
  | .timesliceSetWaiting => True
  | pc => pc.inWaiting

instance (pc : PC) : Decidable pc.inWaiting := by
  induction pc using PC.casesOn <;> dsimp only [PC.inWaiting] <;> infer_instance

instance (pc : PC) : Decidable pc.waits := by
  induction pc using PC.casesOn <;> dsimp only [PC.waits] <;> infer_instance

/-- The profiled tenant waits for a round while another active tenant, held for its sake,
    is not WAITING. -/
def ProfiledStuck (s : System) : Prop :=
  s.shm.mode = .profiling ∧ (s.pc s.shm.profilingTenantIdx).spinning ∧
    s.shm.gate s.shm.profilingTenantIdx = .waiting ∧
    ∃ q, q ≠ s.shm.profilingTenantIdx ∧ s.shm.active q = true ∧ (s.pc q).held ∧
      s.shm.gate q ≠ .waiting

/-- The condition on one step: the slice test of the profiled tenant finds time left, and
    the mode is switched to profile a tenant only while that tenant is not in its waiting
    branch. -/
def SliceLeft (s : System) : Action → Prop
  | .step my _ => s.pc my = .timesliceExhausted → s.shm.mode = .profiling →
    s.shm.profilingTenantIdx = my → 0 < s.shm.remain my
  | .setMode mode idx => mode = .profiling → ¬ (s.pc idx).waits
  | _ => True

instance (s : System) (a : Action) : Decidable (SliceLeft s a) := by
  induction a using Action.casesOn <;> dsimp only [SliceLeft] <;> infer_instance

def Unheld (s : System) : Prop :=
  s.shm.mode = .profiling → ¬ (s.pc s.shm.profilingTenantIdx).waits

section Steps
variable {round : ℚ → ℚ} {s t : System} {my us : ℕ}

theorem access_waits {m : Shm} {pc : PC} (h : (access round m my us pc).2.waits) :
    pc.waits ∨ (pc = .timesliceExhausted ∧ m.remain my ≤ 0) := by
  cases pc with
  | timesliceExhausted =>
    simp only [access] at h
    split at h
    · rename_i spent
      exact .inr ⟨rfl, spent⟩
    · exact h.elim
  | timesliceSetWaiting | allWaitingActive _ | allWaitingGate _ | roundTriggerCas => exact .inl trivial
  | reloadPolicy | roundActive _ | calcSlice _ _ _ | rechargeRemain _ _ => exact .inl trivial
  | rechargeGate _ | loadRoundId | storeRoundId _ _ | roundTriggerUnlock => exact .inl trivial
  | waitLoop => exact .inl trivial
  | _ =>
    simp only [access, apply_ite PC.waits] at h
    simp [PC.waits, PC.inWaiting] at h

theorem tick_unheld (unheld : Unheld s) (left : SliceLeft s (.step my us)) :
    Unheld (tick round s my us) := by
  intro profiling waits
  obtain ⟨_, mode, idx⟩ := tick_fixed round s my us
  rw [mode] at profiling
  rw [idx] at waits
  by_cases self : s.shm.profilingTenantIdx = my
  · rw [self, tick_pc_self] at waits
    rcases access_waits waits with before | ⟨testing, spent⟩
    · exact unheld profiling (self.symm ▸ before)
    · have positive := left testing profiling self
      omega
  · rw [tick_pc_other _ _ _ _ self] at waits
    exact unheld profiling waits

theorem step_unheld {a : Action} (unheld : Unheld s) (left : SliceLeft s a)
    (step : GateStep round s a t) : Unheld t := by
  rcases step_cases step with ⟨my, _, _, outside, _, rfl⟩ | ⟨my, us, rfl, _, _, rfl⟩ |
    ⟨my, on, _, _, _, rfl⟩ | ⟨mode, idx, _, _, change, _, _, rfl⟩
  · intro profiling waits
    have region := launch_region PC.waits (by simp [PC.waits, PC.inWaiting])
      (by simp [PC.waits, PC.inWaiting]) outside s.shm.profilingTenantIdx
    exact unheld profiling (region.mp waits)
  · exact tick_unheld unheld left
  · exact unheld
  · rcases change with rfl | ⟨rfl, rfl⟩
    · exact left
    · exact unheld

end Steps

/-- In every run in which the profiled tenant's slice does not run out, it never waits for
    tenants that are held for its sake, however the mode is switched. -/
theorem profiled_never_stuck {round : ℚ → ℚ} {s t : System} {labels : List Action}
    (fresh : Fresh s) (run : Run (Guarded SliceLeft (GateStep round)) s labels t) :
    ¬ ProfiledStuck t := by
  have start : Unheld s := by
    intro _ waits
    rw [fresh.outside] at waits
    exact waits
  have unheld : Unheld t := by
    apply run_invariant Unheld _ run start
    rintro x a y before ⟨left, step⟩
    exact step_unheld before left step
  rintro ⟨profiling, ⟨waiting, _⟩, _⟩
  apply unheld profiling
  revert waiting
  cases t.pc t.shm.profilingTenantIdx <;> simp [PC.inWaiting, PC.waits]

/-- The profiled tenant has time left and launches while the other tenant is held. -/
theorem profiled_runs_while_peer_held : ∃ t,
    Run (Guarded SliceLeft (GateStep id)) (registered 2 .overcommit fun _ => 100)
      (.setMode .profiling 0 :: .launch 1 :: .launch 0 :: (steps 1 2 ++ steps 0 9)) t ∧
    t.pc 0 = .killer ∧ (t.pc 1).held ∧ ¬ ProfiledStuck t := by
  obtain ⟨t, run, reached⟩ := guarded_run_reaches SliceLeft
    (fun t : System => decide (t.pc 0 = .killer ∧ t.pc 1 = .loadMode))
    (show (exec (guarding SliceLeft (next id)) (registered 2 .overcommit fun _ => 100)
      (.setMode .profiling 0 :: .launch 1 :: .launch 0 :: (steps 1 2 ++ steps 0 9))).any _ = true by
      decide +kernel)
  obtain ⟨runs, held⟩ := of_decide_eq_true reached
  exact ⟨t, run, runs, by rw [held]; trivial,
    profiled_never_stuck (registered_fresh 2 .overcommit _) run⟩

/-- The profiled tenant launches with a spent slice; the other tenant is held with its
    RUNNING word, and no round can start. -/
theorem profiled_waits_for_held : Fresh (registered 2 .overcommit fun _ => 0) ∧ ∃ t,
    Run (GateStep id) (registered 2 .overcommit fun _ => 0)
      (.setMode .profiling 0 :: .launch 1 :: .launch 0 :: (steps 1 2 ++ steps 0 9)) t ∧
    ProfiledStuck t := by
  constructor
  · exact registered_fresh 2 .overcommit _
  obtain ⟨t, run, reached⟩ := run_reaches
    (fun t : System => decide (t.shm.mode = .profiling ∧ t.shm.profilingTenantIdx = 0 ∧
      t.pc 0 = .waitLoop ∧ t.shm.gate 0 = .waiting ∧ t.shm.active 1 = true ∧
      t.pc 1 = .loadMode ∧ t.shm.gate 1 = .running))
    (show (exec (next id) (registered 2 .overcommit fun _ => 0)
      (.setMode .profiling 0 :: .launch 1 :: .launch 0 :: (steps 1 2 ++ steps 0 9))).any _ = true by
      decide +kernel)
  obtain ⟨profiling, profiled, spins, waiting, active, held, open_⟩ := of_decide_eq_true reached
  refine ⟨t, run, profiling, ?_, ?_, 1, ?_, active, ?_, ?_⟩
  · rw [profiled, spins]
    simp [PC.spinning, PC.inWaiting, PC.inRound]
  · rw [profiled]
    exact waiting
  · omega
  · rw [held]
    trivial
  · rw [open_]
    simp

end Gate
