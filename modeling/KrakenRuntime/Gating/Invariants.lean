import KrakenRuntime.Gating.Gate

/- What one access can change, said once for each field of the segment, and the facts
   about control and gate words that hold in every mode and every interleaving. -/
namespace Gate
open Runs

section Fields
variable (m : Shm) (u : ℕ)

theorem setTenant_at (i : ℕ) (f : TenantState → TenantState) :
    (m.setTenant i f).tenants u = if u = i then f (m.tenants u) else m.tenants u := by
  simp only [Shm.setTenant, Function.update_apply]
  split
  · rename_i same
    rw [same]
  · rfl

theorem apply_gate (w : Write) : (w.apply m).gate u =
    match w with
    | .gate i g => if u = i then g else m.gate u
    | _ => m.gate u := by
  cases w <;> simp only [Write.apply, Shm.gate, setTenant_at] <;> split <;> rfl

theorem apply_active (w : Write) : (w.apply m).active u = m.active u := by
  cases w <;> simp only [Write.apply, Shm.active, setTenant_at] <;> split <;> rfl

theorem apply_remain (w : Write) : (w.apply m).remain u =
    match w with
    | .remain i us => if u = i then us else m.remain u
    | .subRemain i us => if u = i then m.remain u - us else m.remain u
    | _ => m.remain u := by
  cases w <;> simp only [Write.apply, Shm.remain, setTenant_at] <;> split <;> rfl

end Fields

def gateAfter (my : ℕ) (pc : PC) (u : ℕ) (old : GateState) : GateState :=
  match pc with
  | .timesliceSetWaiting => if u = my then .waiting else old
  | .rechargeGate i => if u = i then .running else old
  | .markActive => if u = my then .killerActive else old
  | .exitRunning => if u = my then .running else old
  | _ => old

def lockAfter (pc : PC) (old : Bool) : Bool :=
  match pc with
  | .roundTriggerCas => true
  | .roundTriggerUnlock => false
  | _ => old

def remainAfter (my : ℕ) (pc : PC) (u : ℕ) (old : ℤ) : ℤ :=
  match pc with
  | .rechargeRemain i sliceUs => if u = i then sliceUs else old
  | .deductRemain e => if u = my then old - e else old
  | _ => old

section Access
variable (round : ℚ → ℚ) (m : Shm) (my us : ℕ) (pc : PC)

theorem access_gate (u : ℕ) : ((access round m my us pc).1.apply m).gate u =
    gateAfter my pc u (m.gate u) := by
  simp only [apply_gate]
  cases pc with
  | roundTriggerCas => by_cases held : m.roundTriggerLock = true <;> simp [access, gateAfter, held]
  | storeRoundId i rid => by_cases last : m.tenantCount ≤ i <;> simp [access, gateAfter, last]
  | _ => rfl

theorem access_remain (u : ℕ) : ((access round m my us pc).1.apply m).remain u =
    remainAfter my pc u (m.remain u) := by
  simp only [apply_remain]
  cases pc with
  | roundTriggerCas => by_cases held : m.roundTriggerLock = true <;> simp [access, remainAfter, held]
  | storeRoundId i rid => by_cases last : m.tenantCount ≤ i <;> simp [access, remainAfter, last]
  | _ => rfl

theorem access_lock : ((access round m my us pc).1.apply m).roundTriggerLock =
    lockAfter pc m.roundTriggerLock := by
  cases pc with
  | roundTriggerCas =>
    simp only [access, lockAfter]
    split <;> simp_all [Write.apply]
  | storeRoundId i rid =>
    simp only [access, lockAfter]
    split <;> rfl
  | _ => rfl

theorem access_fixed : ((access round m my us pc).1.apply m).tenantCount = m.tenantCount ∧
    ((access round m my us pc).1.apply m).mode = m.mode ∧
    ((access round m my us pc).1.apply m).profilingTenantIdx = m.profilingTenantIdx := by
  cases pc with
  | roundTriggerCas =>
    simp only [access]
    split <;> exact ⟨rfl, rfl, rfl⟩
  | storeRoundId i rid =>
    simp only [access]
    split <;> exact ⟨rfl, rfl, rfl⟩
  | _ => exact ⟨rfl, rfl, rfl⟩

end Access

section Tick
variable (round : ℚ → ℚ) (s : System) (my us : ℕ)

theorem tick_gate (u : ℕ) : (tick round s my us).shm.gate u =
    gateAfter my (s.pc my) u (s.shm.gate u) :=
  access_gate ..

theorem tick_active (u : ℕ) : (tick round s my us).shm.active u = s.shm.active u :=
  apply_active ..

theorem tick_remain (u : ℕ) : (tick round s my us).shm.remain u =
    remainAfter my (s.pc my) u (s.shm.remain u) :=
  access_remain ..

theorem tick_lock : (tick round s my us).shm.roundTriggerLock =
    lockAfter (s.pc my) s.shm.roundTriggerLock :=
  access_lock ..

theorem tick_fixed : (tick round s my us).shm.tenantCount = s.shm.tenantCount ∧
    (tick round s my us).shm.mode = s.shm.mode ∧
    (tick round s my us).shm.profilingTenantIdx = s.shm.profilingTenantIdx :=
  access_fixed ..

theorem tick_pc_self : (tick round s my us).pc my = (access round s.shm my us (s.pc my)).2 := by
  simp [tick]

theorem tick_pc_other {u : ℕ} (ne : u ≠ my) : (tick round s my us).pc u = s.pc u := by
  simp [tick, ne]

end Tick

section Regions

/-- Between the WAITING store and the end of the waiting loop. -/
def PC.inWaiting : PC → Prop
  | .allWaitingActive _ | .allWaitingGate _ | .roundTriggerCas | .waitLoop => True
  | .reloadPolicy | .roundActive _ | .calcSlice _ _ _ | .rechargeRemain _ _ => True
  | .rechargeGate _ | .loadRoundId | .storeRoundId _ _ | .roundTriggerUnlock => True
  | _ => False

def PC.inRound : PC → Prop
  | .reloadPolicy | .roundActive _ | .calcSlice _ _ _ | .rechargeRemain _ _ => True
  | .rechargeGate _ | .loadRoundId | .storeRoundId _ _ | .roundTriggerUnlock => True
  | _ => False

def PC.inKiller : PC → Prop
  | .killer | .deductRemain _ | .addExec _ | .addKillerCount | .exitRunning => True
  | _ => False

instance (pc : PC) : Decidable pc.inKiller := by
  induction pc using PC.casesOn <;> dsimp only [PC.inKiller] <;> infer_instance

end Regions

structure Steady (s : System) : Prop where
  waiting_inside : ∀ u, s.shm.gate u = .waiting → (s.pc u).inWaiting
  killer_inside : ∀ u, s.shm.gate u = .killerActive → (s.pc u).inKiller
  inside_active : ∀ u, s.pc u ≠ .outside → s.shm.active u = true
  inside_slot : ∀ u, s.pc u ≠ .outside → u < s.shm.tenantCount
  round_locked : ∀ u, (s.pc u).inRound → s.shm.roundTriggerLock = true
  round_alone : ∀ u v, (s.pc u).inRound → (s.pc v).inRound → u = v
  locked_round : s.shm.roundTriggerLock = true → ∃ u, (s.pc u).inRound

theorem fresh_steady {s : System} (fresh : Fresh s) : Steady s := by
  obtain ⟨outside, running, unlocked⟩ := fresh
  constructor <;> intros <;> simp_all [PC.inRound]

section Steps
variable {round : ℚ → ℚ} {s t : System}

theorem step_tick {my us : ℕ} (h : GateStep round s (.step my us) t) :
    my < s.shm.tenantCount ∧ s.pc my ≠ .outside ∧ t = tick round s my us := by
  simp only [GateStep, Fires, next] at h
  split at h
  · rename_i ready
    exact ⟨ready.1, ready.2, by simpa using h.symm⟩
  · cases h

theorem step_cases {a : Action} (h : GateStep round s a t) :
    (∃ my, a = .launch my ∧ my < s.shm.tenantCount ∧ s.pc my = .outside ∧
      s.shm.active my = true ∧ t = { s with pc := Function.update s.pc my .loadMode }) ∨
    (∃ my us, a = .step my us ∧ my < s.shm.tenantCount ∧ s.pc my ≠ .outside ∧
      t = tick round s my us) ∨
    (∃ my on, (a = .register my ∧ on = true ∨ a = .fini my ∧ on = false) ∧
      my < s.shm.tenantCount ∧ s.pc my = .outside ∧ t = setActive s my on) ∨
    (∃ mode idx policy version,
      (a = .setMode mode idx ∨ mode = s.shm.mode ∧ idx = s.shm.profilingTenantIdx) ∧
      (∀ u, a ≠ .register u) ∧ (∀ u us, a ≠ .step u us) ∧
      t = { s with
        shm :=
          { s.shm with
            mode := mode, profilingTenantIdx := idx, policy := policy,
            killerPolicyVersion := version } }) := by
  cases a with
  | launch my =>
    simp only [GateStep, Fires, next] at h
    split at h
    · rename_i ready
      exact .inl ⟨my, rfl, ready.1, ready.2.1, ready.2.2, by simpa using h.symm⟩
    · cases h
  | step my us => exact .inr (.inl ⟨my, us, rfl, step_tick h⟩)
  | register my =>
    simp only [GateStep, Fires, next] at h
    split at h
    · rename_i ready
      exact .inr (.inr (.inl ⟨my, true, .inl ⟨rfl, rfl⟩, ready.1, ready.2, by simpa using h.symm⟩))
    · cases h
  | fini my =>
    simp only [GateStep, Fires, next] at h
    split at h
    · rename_i ready
      exact .inr (.inr (.inl ⟨my, false, .inr ⟨rfl, rfl⟩, ready.1, ready.2, by simpa using h.symm⟩))
    · cases h
  | setMode mode idx =>
    simp only [GateStep, Fires, next, Option.some.injEq] at h
    exact .inr (.inr (.inr ⟨mode, idx, s.shm.policy, s.shm.killerPolicyVersion, .inl rfl,
      by simp, by simp, h.symm⟩))
  | setPolicy p =>
    simp only [GateStep, Fires, next, Option.some.injEq] at h
    exact .inr (.inr (.inr ⟨s.shm.mode, s.shm.profilingTenantIdx, p, s.shm.killerPolicyVersion,
      .inr ⟨rfl, rfl⟩, by simp, by simp, h.symm⟩))
  | publishKillers =>
    simp only [GateStep, Fires, next, Option.some.injEq] at h
    exact .inr (.inr (.inr ⟨s.shm.mode, s.shm.profilingTenantIdx, s.shm.policy,
      s.shm.killerPolicyVersion + 1, .inr ⟨rfl, rfl⟩, by simp, by simp, h.symm⟩))

def Action.keepsMode : Action → Prop
  | .setMode _ _ => False
  | _ => True

instance (a : Action) : Decidable a.keepsMode := by
  induction a using Action.casesOn <;> dsimp only [Action.keepsMode] <;> infer_instance

theorem step_keeps_mode {a : Action} (keeps : a.keepsMode) (step : GateStep round s a t) :
    t.shm.mode = s.shm.mode := by
  rcases step_cases step with ⟨_, _, _, _, _, rfl⟩ | ⟨my, us, _, _, _, rfl⟩ | ⟨_, _, _, _, _, rfl⟩ |
    ⟨_, _, _, _, same, _, _, rfl⟩
  · rfl
  · exact (tick_fixed round s my us).2.1
  · rfl
  · rcases same with change | ⟨same, _⟩
    · rw [change] at keeps
      exact keeps.elim
    · exact same

theorem setActive_gate (my : ℕ) (on : Bool) (u : ℕ) :
    (setActive s my on).shm.gate u = s.shm.gate u := by
  simp only [setActive, Shm.gate, setTenant_at]
  split <;> rfl

theorem setActive_remain (my : ℕ) (on : Bool) (u : ℕ) :
    (setActive s my on).shm.remain u = s.shm.remain u := by
  simp only [setActive, Shm.remain, setTenant_at]
  split <;> rfl

theorem setActive_active (my : ℕ) (on : Bool) (u : ℕ) :
    (setActive s my on).shm.active u = if u = my then on else s.shm.active u := by
  simp only [setActive, Shm.active, setTenant_at]
  split <;> rfl

end Steps

section Access
variable (round : ℚ → ℚ) (m : Shm) (my us : ℕ) (pc : PC)

theorem access_inWaiting (waiting : gateAfter my pc my (m.gate my) = .waiting)
    (inside : m.gate my = .waiting → pc.inWaiting) :
    (access round m my us pc).2.inWaiting := by
  cases pc with
  | waitLoop =>
    simp only [gateAfter] at waiting
    simp [access, waiting, PC.inWaiting]
  | markActive => simp [gateAfter] at waiting
  | exitRunning => simp [gateAfter] at waiting
  | timesliceSetWaiting => trivial
  | outside | loadMode | loadProfilingIdx | loadModeAgain | timesliceExhausted | addWait =>
    exact absurd (inside waiting) (by simp [PC.inWaiting])
  | peerActive _ | peerGate _ | peerSpin _ | peerAddWait _ =>
    exact absurd (inside waiting) (by simp [PC.inWaiting])
  | killer | deductRemain _ | addExec _ | addKillerCount =>
    exact absurd (inside waiting) (by simp [PC.inWaiting])
  | _ =>
    simp only [access, apply_ite Prod.snd, apply_ite PC.inWaiting]
    simp [PC.inWaiting]

theorem access_inKiller (active : gateAfter my pc my (m.gate my) = .killerActive)
    (inside : m.gate my = .killerActive → pc.inKiller) :
    (access round m my us pc).2.inKiller := by
  cases pc with
  | timesliceSetWaiting => simp [gateAfter] at active
  | exitRunning => simp [gateAfter] at active
  | rechargeGate i =>
    simp only [gateAfter] at active
    split at active
    · cases active
    · exact absurd (inside active) (by simp [PC.inKiller])
  | markActive | killer | deductRemain _ | addExec _ | addKillerCount => trivial
  | _ => exact absurd (inside active) (by simp [PC.inKiller])

theorem access_inRound : (access round m my us pc).2.inRound ↔
    (pc = .roundTriggerCas ∧ m.roundTriggerLock = false) ∨
      (pc.inRound ∧ pc ≠ .roundTriggerUnlock) := by
  cases pc <;> simp only [access, apply_ite Prod.snd, apply_ite PC.inRound] <;> simp [PC.inRound]

end Access

section Steady
variable {round : ℚ → ℚ} {s t : System} {my us : ℕ}

theorem tick_round_alone (steady : Steady s) {u v : ℕ}
    (hu : ((tick round s my us).pc u).inRound) (hv : ((tick round s my us).pc v).inRound) :
    u = v := by
  have others : ∀ w, w ≠ my → (s.pc w).inRound → ¬ ((tick round s my us).pc my).inRound := by
    intro w ne hw new
    rw [tick_pc_self, access_inRound] at new
    rcases new with ⟨_, free⟩ | ⟨body, _⟩
    · have held := steady.round_locked w hw
      rw [free] at held
      cases held
    · exact ne (steady.round_alone w my hw body)
  by_cases hmu : u = my <;> by_cases hmv : v = my
  · rw [hmu, hmv]
  · rw [tick_pc_other _ _ _ _ hmv] at hv
    exact absurd (hmu ▸ hu) (others v hmv hv)
  · rw [tick_pc_other _ _ _ _ hmu] at hu
    exact absurd (hmv ▸ hv) (others u hmu hu)
  · rw [tick_pc_other _ _ _ _ hmu] at hu
    rw [tick_pc_other _ _ _ _ hmv] at hv
    exact steady.round_alone u v hu hv

theorem tick_round_locked (steady : Steady s) (u : ℕ)
    (hu : ((tick round s my us).pc u).inRound) :
    (tick round s my us).shm.roundTriggerLock = true := by
  rw [tick_lock]
  by_cases same : u = my
  · subst same
    rw [tick_pc_self, access_inRound] at hu
    rcases hu with ⟨cas, _⟩ | ⟨body, unlocked⟩
    · rw [cas]
      rfl
    · have held := steady.round_locked u body
      rw [held]
      unfold lockAfter
      split
      · rfl
      · contradiction
      · rfl
  · rw [tick_pc_other _ _ _ _ same] at hu
    rw [steady.round_locked u hu]
    unfold lockAfter
    split
    · rfl
    · rename_i unlock
      exact absurd (steady.round_alone u my hu (by rw [unlock]; trivial)) same
    · rfl

theorem tick_locked_round (steady : Steady s)
    (held : (tick round s my us).shm.roundTriggerLock = true) :
    ∃ u, ((tick round s my us).pc u).inRound := by
  rw [tick_lock] at held
  by_cases before : s.shm.roundTriggerLock = true
  · obtain ⟨u, hu⟩ := steady.locked_round before
    use u
    by_cases same : u = my
    · subst same
      rw [tick_pc_self, access_inRound]
      right
      constructor
      · exact hu
      · intro unlock
        rw [unlock] at held
        cases held
    · rw [tick_pc_other _ _ _ _ same]
      exact hu
  · have free : s.shm.roundTriggerLock = false := by simpa using before
    use my
    rw [tick_pc_self, access_inRound]
    left
    rw [free] at held
    unfold lockAfter at held
    split at held
    · rename_i cas
      exact ⟨cas, free⟩
    · cases held
    · cases held

theorem gateAfter_other {u : ℕ} (ne : u ≠ my) (pc : PC) (old : GateState)
    (changed : gateAfter my pc u old ≠ .running) : gateAfter my pc u old = old := by
  revert changed
  unfold gateAfter
  split <;> simp_all

theorem tick_steady (steady : Steady s) (slot : my < s.shm.tenantCount)
    (inside : s.pc my ≠ .outside) : Steady (tick round s my us) := by
  constructor
  case waiting_inside =>
    intro u waiting
    rw [tick_gate] at waiting
    by_cases same : u = my
    · subst same
      rw [tick_pc_self]
      exact access_inWaiting round s.shm u us _ waiting (steady.waiting_inside u)
    · rw [tick_pc_other _ _ _ _ same]
      apply steady.waiting_inside
      rw [← gateAfter_other same (s.pc my) (s.shm.gate u) (by simp [waiting])]
      exact waiting
  case killer_inside =>
    intro u active
    rw [tick_gate] at active
    by_cases same : u = my
    · subst same
      rw [tick_pc_self]
      exact access_inKiller round s.shm u us _ active (steady.killer_inside u)
    · rw [tick_pc_other _ _ _ _ same]
      apply steady.killer_inside
      rw [← gateAfter_other same (s.pc my) (s.shm.gate u) (by simp [active])]
      exact active
  case inside_active =>
    intro u hu
    rw [tick_active]
    by_cases same : u = my
    · subst same
      exact steady.inside_active u inside
    · rw [tick_pc_other _ _ _ _ same] at hu
      exact steady.inside_active u hu
  case inside_slot =>
    intro u hu
    rw [(tick_fixed round s my us).1]
    by_cases same : u = my
    · rw [same]
      exact slot
    · rw [tick_pc_other _ _ _ _ same] at hu
      exact steady.inside_slot u hu
  case round_locked => exact tick_round_locked steady
  case round_alone => exact fun u v => tick_round_alone steady
  case locked_round => exact tick_locked_round steady

theorem launch_region (region : PC → Prop) (out : ¬ region .outside) (load : ¬ region .loadMode)
    (outside : s.pc my = .outside) (u : ℕ) :
    region (Function.update s.pc my .loadMode u) ↔ region (s.pc u) := by
  by_cases same : u = my
  · subst same
    simp [outside, out, load]
  · simp [Function.update_of_ne same]

theorem launch_steady (steady : Steady s) (slot : my < s.shm.tenantCount)
    (outside : s.pc my = .outside) (active : s.shm.active my = true) :
    Steady { s with pc := Function.update s.pc my .loadMode } := by
  have waiting :=
    launch_region PC.inWaiting (by simp [PC.inWaiting]) (by simp [PC.inWaiting]) outside
  have killer := launch_region PC.inKiller (by simp [PC.inKiller]) (by simp [PC.inKiller]) outside
  have body := launch_region PC.inRound (by simp [PC.inRound]) (by simp [PC.inRound]) outside
  constructor
  case waiting_inside => exact fun u h => (waiting u).mpr (steady.waiting_inside u h)
  case killer_inside => exact fun u h => (killer u).mpr (steady.killer_inside u h)
  case inside_active =>
    intro u hu
    by_cases same : u = my
    · rw [same]
      exact active
    · exact steady.inside_active u (by simpa [Function.update_of_ne same] using hu)
  case inside_slot =>
    intro u hu
    by_cases same : u = my
    · rw [same]
      exact slot
    · exact steady.inside_slot u (by simpa [Function.update_of_ne same] using hu)
  case round_locked => exact fun u h => steady.round_locked u ((body u).mp h)
  case round_alone =>
    exact fun u v hu hv => steady.round_alone u v ((body u).mp hu) ((body v).mp hv)
  case locked_round =>
    intro held
    obtain ⟨u, hu⟩ := steady.locked_round held
    exact ⟨u, (body u).mpr hu⟩

theorem setActive_steady (steady : Steady s) (outside : s.pc my = .outside) (on : Bool) :
    Steady (setActive s my on) := by
  constructor
  case waiting_inside =>
    intro u h
    rw [setActive_gate] at h
    exact steady.waiting_inside u h
  case killer_inside =>
    intro u h
    rw [setActive_gate] at h
    exact steady.killer_inside u h
  case inside_active =>
    intro u h
    have other : u ≠ my := by
      intro same
      rw [same] at h
      exact h outside
    rw [setActive_active, if_neg other]
    exact steady.inside_active u h
  case inside_slot => exact steady.inside_slot
  case round_locked => exact steady.round_locked
  case round_alone => exact steady.round_alone
  case locked_round => exact steady.locked_round

theorem step_steady {a : Action} (steady : Steady s) (step : GateStep round s a t) :
    Steady t := by
  rcases step_cases step with ⟨my, _, slot, outside, active, rfl⟩ | ⟨my, us, _, slot, inside, rfl⟩ |
    ⟨my, on, _, _, outside, rfl⟩ | ⟨_, _, _, _, _, _, _, rfl⟩
  · exact launch_steady steady slot outside active
  · exact tick_steady steady slot inside
  · exact setActive_steady steady outside on
  · exact ⟨steady.1, steady.2, steady.3, steady.4, steady.5, steady.6, steady.7⟩

theorem run_steady {labels : List Action} (fresh : Fresh s)
    (run : Run (GateStep round) s labels t) : Steady t :=
  run_invariant Steady (fun _ _ _ steady step => step_steady steady step) run (fresh_steady fresh)

end Steady

end Gate
