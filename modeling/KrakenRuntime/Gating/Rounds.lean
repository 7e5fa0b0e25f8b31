import KrakenRuntime.Gating.Invariants

/- When a round may start. all_waiting is a scan, the CAS comes after it, and the lock is
   free again as soon as a round body ends; so a scan that passed slots before a round can
   win the CAS after it. The lock does give a weaker guarantee, which is proved here: a
   scan stays true for as long as the lock is free. A round therefore starts from an
   all-WAITING state in every run in which no unlock leaves an outdated scan behind and no
   slot is registered behind a scan or ahead of a round body. Nothing here depends on
   the mode. -/
namespace Gate
open Runs

def AllWaiting (s : System) : Prop :=
  ∀ i < s.shm.tenantCount, s.shm.active i = true → s.shm.gate i = .waiting

def Wins (s : System) (my : ℕ) : Prop :=
  s.pc my = .roundTriggerCas ∧ s.shm.roundTriggerLock = false

instance (s : System) (my : ℕ) : Decidable (Wins s my) :=
  inferInstanceAs (Decidable (_ ∧ _))

/-- The all_waiting scan has gone past slot `i`. -/
def PC.checked (i : ℕ) : PC → Prop
  | .allWaitingActive k | .allWaitingGate k => i < k
  | .roundTriggerCas => True
  | _ => False

def PC.recharges (i : ℕ) : PC → Prop
  | .reloadPolicy => True
  | .roundActive k | .calcSlice k _ _ | .rechargeRemain k _ | .rechargeGate k => k ≤ i
  | _ => False

def PC.target : PC → Option ℕ
  | .calcSlice i _ _ | .rechargeRemain i _ | .rechargeGate i => some i
  | _ => none

instance (i : ℕ) (pc : PC) : Decidable (pc.checked i) := by
  induction pc using PC.casesOn <;> dsimp only [PC.checked] <;> infer_instance

instance (i : ℕ) (pc : PC) : Decidable (pc.recharges i) := by
  induction pc using PC.casesOn <;> dsimp only [PC.recharges] <;> infer_instance

/-- The condition on one step: an unlock leaves no scan behind that has gone past a slot
    which is no longer WAITING, and a slot is registered neither behind a scan nor ahead
    of a round body. -/
def Current (s : System) : Action → Prop
  | .step my _ => s.pc my = .roundTriggerUnlock →
    ∀ u < s.shm.tenantCount, ∀ i < s.shm.tenantCount, (s.pc u).checked i →
      s.shm.active i = true → s.shm.gate i = .waiting
  | .register i => ∀ u < s.shm.tenantCount, ¬ (s.pc u).checked i ∧ ¬ (s.pc u).recharges i
  | _ => True

instance (s : System) (a : Action) : Decidable (Current s a) := by
  induction a using Action.casesOn <;> dsimp only [Current] <;> infer_instance

/-- Scans are true while the lock is free, the rest of a round body's slots are WAITING,
    and a tenant waits only with its slice spent. -/
structure Timely (s : System) : Prop where
  scans_true : s.shm.roundTriggerLock = false → ∀ u i, i < s.shm.tenantCount →
    (s.pc u).checked i → s.shm.active i = true → s.shm.gate i = .waiting
  rest_waiting : ∀ u i, i < s.shm.tenantCount → (s.pc u).recharges i →
    s.shm.active i = true → s.shm.gate i = .waiting
  target_active : ∀ u i, (s.pc u).target = some i →
    i < s.shm.tenantCount ∧ s.shm.active i = true
  waiting_spent : ∀ u, s.shm.gate u = .waiting → (∀ v, s.pc v ≠ .rechargeGate u) →
    s.shm.remain u ≤ 0
  about_to_wait : ∀ u, s.pc u = .timesliceSetWaiting → s.shm.remain u ≤ 0

theorem fresh_timely {s : System} (fresh : Fresh s) : Timely s := by
  obtain ⟨outside, running, unlocked⟩ := fresh
  constructor <;> intros <;> simp_all [PC.checked, PC.recharges, PC.target]

theorem recharges_inRound {pc : PC} {i : ℕ} (h : pc.recharges i) : pc.inRound := by
  cases pc with
  | reloadPolicy | roundActive _ | calcSlice _ _ _ | rechargeRemain _ _ | rechargeGate _ => trivial
  | _ => exact h.elim

theorem target_recharges {pc : PC} {i : ℕ} (h : pc.target = some i) : pc.recharges i := by
  cases pc with
  | calcSlice k _ _ | rechargeRemain k _ | rechargeGate k =>
    simp only [PC.target, Option.some.injEq] at h
    simp only [PC.recharges]
    omega
  | _ => cases h

section Access
variable {round : ℚ → ℚ} {m : Shm} {my us : ℕ} {pc : PC}

theorem access_checked {i : ℕ} (slot : i < m.tenantCount)
    (h : (access round m my us pc).2.checked i) (active : m.active i = true) :
    pc.checked i ∨ m.gate i = .waiting := by
  cases pc with
  | allWaitingActive k =>
    simp only [access] at h
    split at h
    · left
      simp only [PC.checked]
      omega
    · split at h
      · exact .inl h
      · rename_i inactive
        simp only [PC.checked] at h ⊢
        by_cases same : i = k
        · rw [← same] at inactive
          exact absurd active inactive
        · left
          omega
  | allWaitingGate k =>
    simp only [access] at h
    split at h
    · rename_i waiting
      simp only [PC.checked] at h ⊢
      by_cases same : i = k
      · rw [same]
        exact .inr waiting
      · left
        omega
    · exact h.elim
  | timesliceSetWaiting => simp [access, PC.checked] at h
  | waitLoop =>
    simp only [access] at h
    split at h <;> simp [PC.checked] at h
  | _ =>
    simp only [access, apply_ite Prod.snd, apply_ite (PC.checked i)] at h
    simp [PC.checked] at h

/-- A slot comes ahead of a round body by a won CAS and falls behind it by the RUNNING store. -/
theorem access_recharges {i : ℕ} (h : (access round m my us pc).2.recharges i) :
    (pc = .roundTriggerCas ∧ m.roundTriggerLock = false) ∨
      (pc.recharges i ∧ pc ≠ .rechargeGate i) := by
  cases pc with
  | roundTriggerCas =>
    simp only [access] at h
    split at h
    · exact h.elim
    · rename_i free
      exact .inl ⟨rfl, by simpa using free⟩
  | reloadPolicy => exact .inr ⟨trivial, by simp⟩
  | roundActive k =>
    right
    simp only [access] at h
    split at h
    · exact h.elim
    · split at h <;> simp only [PC.recharges] at h ⊢ <;> simp <;> omega
  | calcSlice k j w =>
    right
    simp only [access] at h
    split at h <;> simp only [PC.recharges] at h ⊢ <;> simp <;> omega
  | rechargeRemain k slice =>
    right
    simp only [access, PC.recharges] at h ⊢
    simp
    omega
  | rechargeGate k =>
    right
    simp only [access, PC.recharges] at h ⊢
    simp
    omega
  | _ =>
    simp only [access, apply_ite Prod.snd, apply_ite (PC.recharges i)] at h
    simp [PC.recharges] at h

theorem access_target {i : ℕ} (h : (access round m my us pc).2.target = some i) :
    pc.target = some i ∨ (i < m.tenantCount ∧ m.active i = true) := by
  cases pc with
  | roundActive k =>
    simp only [access] at h
    split at h
    · cases h
    · rename_i slot
      split at h
      · rename_i active
        simp only [PC.target, Option.some.injEq] at h
        subst h
        exact .inr ⟨by omega, active⟩
      · cases h
  | calcSlice k j w =>
    left
    simp only [access] at h
    split at h <;> exact h
  | rechargeRemain k slice => exact .inl h
  | _ =>
    simp only [access, apply_ite Prod.snd, apply_ite PC.target] at h
    simp [PC.target] at h

end Access

section Steps
variable {round : ℚ → ℚ} {s t : System} {my us : ℕ}

theorem tick_waiting_stays (steady : Steady s) {i : ℕ} (waiting : s.shm.gate i = .waiting)
    (notRecharged : s.pc my ≠ .rechargeGate i) :
    (tick round s my us).shm.gate i = .waiting := by
  have inside := steady.waiting_inside i waiting
  rw [tick_gate, waiting]
  unfold gateAfter
  split
  · split <;> rfl
  · rename_i k recharge
    have other : i ≠ k := by
      intro same
      rw [same] at notRecharged
      exact notRecharged recharge
    rw [if_neg other]
  · rename_i mark
    have other : i ≠ my := by
      intro same
      rw [same, mark] at inside
      exact inside
    rw [if_neg other]
  · rename_i leave
    have other : i ≠ my := by
      intro same
      rw [same, leave] at inside
      exact inside
    rw [if_neg other]
  · rfl

theorem tick_scans_true (steady : Steady s) (timely : Timely s) (current : Current s (.step my us))
    (free : (tick round s my us).shm.roundTriggerLock = false) {u i : ℕ}
    (slot : i < s.shm.tenantCount) (checked : ((tick round s my us).pc u).checked i)
    (active : s.shm.active i = true) : (tick round s my us).shm.gate i = .waiting := by
  by_cases unlock : s.pc my = .roundTriggerUnlock
  · have notSelf : u ≠ my := by
      intro same
      rw [same, tick_pc_self, unlock] at checked
      exact checked
    rw [tick_pc_other _ _ _ _ notSelf] at checked
    have inside : s.pc u ≠ .outside := by
      intro outside
      rw [outside] at checked
      exact checked
    apply tick_waiting_stays steady
    · exact current unlock u (steady.inside_slot u inside) i slot checked active
    · simp [unlock]
  · have freeBefore : s.shm.roundTriggerLock = false := by
      rw [tick_lock] at free
      unfold lockAfter at free
      split at free
      · cases free
      · contradiction
      · exact free
    have notRecharging : s.pc my ≠ .rechargeGate i := by
      intro recharge
      have held := steady.round_locked my (by rw [recharge]; trivial)
      rw [freeBefore] at held
      cases held
    apply tick_waiting_stays steady _ notRecharging
    by_cases self : u = my
    · subst self
      rw [tick_pc_self] at checked
      rcases access_checked slot checked active with before | waiting
      · exact timely.scans_true freeBefore u i slot before active
      · exact waiting
    · rw [tick_pc_other _ _ _ _ self] at checked
      exact timely.scans_true freeBefore u i slot checked active

theorem tick_rest_waiting (steady : Steady s) (timely : Timely s) {u i : ℕ}
    (slot : i < s.shm.tenantCount) (ahead : ((tick round s my us).pc u).recharges i)
    (active : s.shm.active i = true) : (tick round s my us).shm.gate i = .waiting := by
  by_cases self : u = my
  · subst self
    rw [tick_pc_self] at ahead
    rcases access_recharges ahead with ⟨cas, free⟩ | ⟨before, notStored⟩
    · apply tick_waiting_stays steady
      · exact timely.scans_true free u i slot (by rw [cas]; trivial) active
      · simp [cas]
    · exact tick_waiting_stays steady (timely.rest_waiting u i slot before active) notStored
  · rw [tick_pc_other _ _ _ _ self] at ahead
    apply tick_waiting_stays steady (timely.rest_waiting u i slot ahead active)
    intro recharge
    exact self (steady.round_alone u my (recharges_inRound ahead) (by rw [recharge]; trivial))

theorem target_waiting (timely : Timely s) {u i : ℕ} (h : (s.pc u).target = some i) :
    s.shm.gate i = .waiting := by
  obtain ⟨slot, active⟩ := timely.target_active u i h
  exact timely.rest_waiting u i slot (target_recharges h) active

theorem gateAfter_waiting {pc : PC} {u : ℕ} {old : GateState}
    (h : gateAfter my pc u old = .waiting) :
    old = .waiting ∨ (pc = .timesliceSetWaiting ∧ u = my) := by
  cases pc with
  | timesliceSetWaiting =>
    simp only [gateAfter] at h
    split at h
    · rename_i self
      exact .inr ⟨rfl, self⟩
    · exact .inl h
  | rechargeGate _ | markActive | exitRunning =>
    simp only [gateAfter] at h
    split at h
    · cases h
    · exact .inl h
  | _ => exact .inl h

theorem tick_waiting_spent (steady : Steady s) (timely : Timely s) {u : ℕ}
    (waiting : (tick round s my us).shm.gate u = .waiting)
    (notRecharging : ∀ v, (tick round s my us).pc v ≠ .rechargeGate u) :
    (tick round s my us).shm.remain u ≤ 0 := by
  rw [tick_gate] at waiting
  have spentBefore : s.pc my ≠ .timesliceSetWaiting ∨ u ≠ my → s.shm.remain u ≤ 0 := by
    intro notSetting
    have waitingBefore : s.shm.gate u = .waiting := by
      rcases gateAfter_waiting waiting with before | ⟨setting, self⟩
      · exact before
      · exact absurd setting (notSetting.resolve_right (fun ne => ne self))
    apply timely.waiting_spent u waitingBefore
    intro v recharge
    by_cases self : v = my
    · subst self
      simp [recharge, gateAfter] at waiting
    · exact notRecharging v (by rw [tick_pc_other _ _ _ _ self]; exact recharge)
  rw [tick_remain]
  unfold remainAfter
  split
  · rename_i i slice recharge
    split
    · rename_i same
      have stored := notRecharging my
      rw [tick_pc_self, recharge, same] at stored
      exact absurd rfl stored
    · exact spentBefore (.inl (by simp [recharge]))
  · rename_i elapsed deduct
    split
    · rename_i self
      have before : s.shm.gate my = .waiting := by
        rw [deduct, self] at waiting
        exact waiting
      have inside := steady.waiting_inside my before
      rw [deduct] at inside
      exact inside.elim
    · rename_i other
      exact spentBefore (.inr other)
  · by_cases setting : s.pc my = .timesliceSetWaiting ∧ u = my
    · rw [setting.2]
      exact timely.about_to_wait my setting.1
    · apply spentBefore
      by_cases self : u = my
      · exact .inl fun store => setting ⟨store, self⟩
      · exact .inr self

theorem tick_about_to_wait (steady : Steady s) (timely : Timely s) {u : ℕ}
    (about : (tick round s my us).pc u = .timesliceSetWaiting) :
    (tick round s my us).shm.remain u ≤ 0 := by
  rw [tick_remain]
  by_cases self : u = my
  · subst self
    rw [tick_pc_self] at about
    have loaded : s.pc u = .timesliceExhausted ∧ s.shm.remain u ≤ 0 := by
      revert about
      cases s.pc u <;> simp only [access] <;> (try split) <;> (try split) <;> (try split) <;>
        simp_all
    rw [loaded.1]
    exact loaded.2
  · rw [tick_pc_other _ _ _ _ self] at about
    have before := timely.about_to_wait u about
    unfold remainAfter
    split
    · rename_i i slice recharge
      split
      · rename_i same
        have waiting := target_waiting timely (u := my) (i := i) (by rw [recharge]; rfl)
        rw [← same] at waiting
        have inside := steady.waiting_inside u waiting
        rw [about] at inside
        exact inside.elim
      · exact before
    · rw [if_neg self]
      exact before
    · exact before

theorem tick_timely (steady : Steady s) (timely : Timely s) (current : Current s (.step my us)) :
    Timely (tick round s my us) := by
  have count := (tick_fixed round s my us).1
  constructor
  case scans_true =>
    intro free u i slot checked active
    rw [tick_active] at active
    exact tick_scans_true steady timely current free (count ▸ slot) checked active
  case rest_waiting =>
    intro u i slot ahead active
    rw [tick_active] at active
    exact tick_rest_waiting steady timely (count ▸ slot) ahead active
  case target_active =>
    intro u i target
    rw [tick_active, count]
    by_cases self : u = my
    · subst self
      rw [tick_pc_self] at target
      rcases access_target target with before | now
      · exact timely.target_active u i before
      · exact now
    · rw [tick_pc_other _ _ _ _ self] at target
      exact timely.target_active u i target
  case waiting_spent => exact fun u => tick_waiting_spent steady timely
  case about_to_wait => exact fun u => tick_about_to_wait steady timely

theorem launch_timely (timely : Timely s) (outside : s.pc my = .outside) :
    Timely { s with pc := Function.update s.pc my .loadMode } := by
  have region := fun (p : PC → Prop) out load => launch_region p out load outside
  constructor
  case scans_true =>
    intro free u i slot checked
    have before := (region (PC.checked i) (by simp [PC.checked]) (by simp [PC.checked]) u).mp checked
    exact timely.scans_true free u i slot before
  case rest_waiting =>
    intro u i slot ahead
    have before :=
      (region (PC.recharges i) (by simp [PC.recharges]) (by simp [PC.recharges]) u).mp ahead
    exact timely.rest_waiting u i slot before
  case target_active =>
    intro u i target
    have before := (region (fun pc => pc.target = some i) (by simp [PC.target])
      (by simp [PC.target]) u).mp target
    exact timely.target_active u i before
  case waiting_spent =>
    intro u waiting notRecharging
    apply timely.waiting_spent u waiting
    intro v recharge
    have after := (region (fun pc => pc = .rechargeGate u) (by simp) (by simp) v).mpr recharge
    exact notRecharging v after
  case about_to_wait =>
    intro u about
    have before := (region (fun pc => pc = .timesliceSetWaiting) (by simp) (by simp) u).mp about
    exact timely.about_to_wait u before

theorem setActive_timely (steady : Steady s) (timely : Timely s) (outside : s.pc my = .outside)
    {on : Bool} (current : on = true → Current s (.register my)) : Timely (setActive s my on) := by
  have unseen : on = true → ∀ u, ¬ (s.pc u).checked my ∧ ¬ (s.pc u).recharges my := by
    intro registering u
    by_cases inside : s.pc u = .outside
    · simp [inside, PC.checked, PC.recharges]
    · exact current registering u (steady.inside_slot u inside)
  constructor
  case scans_true =>
    intro free u i slot checked active
    rw [setActive_gate]
    rw [setActive_active] at active
    split at active
    · rename_i same
      rw [same] at checked
      exact absurd checked (unseen active u).1
    · exact timely.scans_true free u i slot checked active
  case rest_waiting =>
    intro u i slot ahead active
    rw [setActive_gate]
    rw [setActive_active] at active
    split at active
    · rename_i same
      rw [same] at ahead
      exact absurd ahead (unseen active u).2
    · exact timely.rest_waiting u i slot ahead active
  case target_active =>
    intro u i target
    have other : i ≠ my := by
      intro same
      have inside := steady.waiting_inside i (target_waiting timely target)
      rw [same, outside] at inside
      exact inside
    rw [setActive_active, if_neg other]
    exact timely.target_active u i target
  case waiting_spent =>
    intro u waiting notRecharging
    rw [setActive_gate] at waiting
    rw [setActive_remain]
    exact timely.waiting_spent u waiting notRecharging
  case about_to_wait =>
    intro u about
    rw [setActive_remain]
    exact timely.about_to_wait u about

theorem step_timely {a : Action} (steady : Steady s) (timely : Timely s) (current : Current s a)
    (step : GateStep round s a t) : Timely t := by
  rcases step_cases step with ⟨my, _, _, outside, _, rfl⟩ | ⟨my, us, rfl, _, _, rfl⟩ |
    ⟨my, on, kind, _, outside, rfl⟩ | ⟨_, _, _, _, _, _, _, rfl⟩
  · exact launch_timely timely outside
  · exact tick_timely steady timely current
  · apply setActive_timely steady timely outside
    intro registering
    rcases kind with ⟨rfl, _⟩ | ⟨_, off⟩
    · exact current
    · rw [registering] at off
      cases off
  · exact ⟨timely.1, timely.2, timely.3, timely.4, timely.5⟩

end Steps

section Episodes
variable {round : ℚ → ℚ} {s t : System} {my : ℕ}

theorem access_recharges_self {m : Shm} {us : ℕ} {pc : PC} (slot : my < m.tenantCount)
    (active : m.active my = true) (ahead : pc.recharges my)
    (passed : ¬ (access round m my us pc).2.recharges my) : pc = .rechargeGate my := by
  cases pc with
  | reloadPolicy =>
    simp only [access, PC.recharges] at passed
    omega
  | roundActive k =>
    simp only [PC.recharges] at ahead
    simp only [access] at passed
    split at passed
    · omega
    · split at passed
      · exact absurd ahead passed
      · rename_i inactive
        have beyond : k ≠ my := by
          intro same
          rw [same] at inactive
          exact inactive active
        exact absurd (show k + 1 ≤ my by omega) passed
  | calcSlice k j w =>
    simp only [access] at passed
    split at passed <;> exact absurd ahead passed
  | rechargeRemain k slice => exact absurd ahead passed
  | rechargeGate k =>
    simp only [access, PC.recharges] at ahead passed
    have same : k = my := by omega
    rw [same]
  | _ => exact ahead.elim

/-- From a state in which `my` holds the lock and has not recharged itself, the lock comes
    free only after a state in which `my` is active and no longer WAITING. -/
theorem episode_ends_before_unlock {labels : List Action} (my : ℕ) (steady : Steady s)
    (ahead : (s.pc my).recharges my) (run : Run (GateStep round) s labels t)
    (free : t.shm.roundTriggerLock = false) :
    ∃ before after x, labels = before ++ after ∧ Run (GateStep round) s before x ∧
      Run (GateStep round) x after t ∧ ¬ AllWaiting x := by
  induction run with
  | nil =>
    have held := steady.round_locked my (recharges_inRound ahead)
    rw [free] at held
    cases held
  | @cons s y t a rest first tail ih =>
    have inside : s.pc my ≠ .outside := by
      intro outside
      rw [outside] at ahead
      exact ahead
    by_cases still : (y.pc my).recharges my
    · obtain ⟨before, after, x, split, run₁, run₂, ended⟩ := ih (step_steady steady first) still free
      exact ⟨a :: before, after, x, by simp [split], .cons first run₁, run₂, ended⟩
    · have ended : ¬ AllWaiting y := by
        rcases step_cases first with ⟨v, _, _, outside, _, rfl⟩ | ⟨v, us, _, _, _, rfl⟩ |
          ⟨_, _, _, _, _, rfl⟩ | ⟨_, _, _, _, _, _, _, rfl⟩
        · have other : my ≠ v := by
            intro same
            rw [same] at inside
            exact inside outside
          exact absurd (by simpa [Function.update_of_ne other] using ahead) still
        · have self : my = v := by
            by_contra other
            rw [tick_pc_other _ _ _ _ other] at still
            exact still ahead
          subst self
          have slot := steady.inside_slot my inside
          have active := steady.inside_active my inside
          rw [tick_pc_self] at still
          have recharge := access_recharges_self slot active ahead still
          intro waiting
          have mine := waiting my (by rw [(tick_fixed round s my us).1]; exact slot)
            (by rw [tick_active]; exact active)
          rw [tick_gate, recharge] at mine
          simp [gateAfter] at mine
        · exact absurd ahead still
        · exact absurd ahead still
      exact ⟨[a], rest, y, rfl, run_single first, tail, ended⟩

end Episodes

/-- What a round should be: it starts from an all-WAITING state, two rounds never start in
    one all-WAITING episode, no recharge overwrites the gate word of a running killer, and
    only spent slices are refilled. -/
structure RoundsInTurn (round : ℚ → ℚ) (s t : System) : Prop where
  all_waiting : ∀ my, Wins t my → AllWaiting t
  one_per_episode : ∀ earlier x my us y later, Run (GateStep round) s earlier x → Wins x my →
    GateStep round x (.step my us) y → Run (GateStep round) y later t → (∃ u, Wins t u) →
    ∃ before after z, later = before ++ after ∧ Run (GateStep round) y before z ∧
      Run (GateStep round) z after t ∧ ¬ AllWaiting z
  keeps_killers : ∀ my i, t.pc my = .rechargeGate i → t.shm.gate i ≠ .killerActive
  refills_spent : ∀ my i slice, t.pc my = .rechargeRemain i slice → t.shm.remain i ≤ 0

/-- In every run whose unlocks leave no outdated scan behind and whose registrations come
    neither behind a scan nor ahead of a round body, rounds are in turn. -/
theorem rounds_in_turn {round : ℚ → ℚ} {s t : System} {labels : List Action} (fresh : Fresh s)
    (run : Run (Guarded Current (GateStep round)) s labels t) : RoundsInTurn round s t := by
  have both : Steady t ∧ Timely t := by
    apply run_invariant (fun x => Steady x ∧ Timely x) _ run
      ⟨fresh_steady fresh, fresh_timely fresh⟩
    rintro x a y ⟨steady, timely⟩ ⟨current, step⟩
    exact ⟨step_steady steady step, step_timely steady timely current step⟩
  obtain ⟨steady, timely⟩ := both
  constructor
  case all_waiting =>
    rintro my ⟨cas, free⟩ i slot active
    exact timely.scans_true free my i slot (by rw [cas]; trivial) active
  case one_per_episode =>
    rintro earlier x my us y later first ⟨cas, unlocked⟩ win second ⟨u, _, free⟩
    have steadyThen := run_steady fresh first
    apply episode_ends_before_unlock my (step_steady steadyThen win) _ second free
    rw [(step_tick win).2.2, tick_pc_self, cas]
    simp [access, unlocked, PC.recharges]
  case keeps_killers =>
    intro my i recharge
    rw [target_waiting timely (u := my) (i := i) (by rw [recharge]; rfl)]
    simp
  case refills_spent =>
    intro my i slice recharge
    apply timely.waiting_spent i (target_waiting timely (u := my) (by rw [recharge]; rfl))
    intro v storing
    have same := steady.round_alone v my (by rw [storing]; trivial) (by rw [recharge]; trivial)
    rw [same, recharge] at storing
    cases storing

theorem second_waiter_starts_round : ∃ t,
    Run (Guarded Current (GateStep id)) (registered 2 .overcommit fun _ => 0)
      (.launch 0 :: .launch 1 :: (steps 0 8 ++ steps 1 9)) t ∧
    Wins t 1 ∧ RoundsInTurn id (registered 2 .overcommit fun _ => 0) t := by
  obtain ⟨t, run, reached⟩ := guarded_run_reaches Current
    (fun t : System => decide (Wins t 1))
    (show (exec (guarding Current (next id)) (registered 2 .overcommit fun _ => 0)
      (.launch 0 :: .launch 1 :: (steps 0 8 ++ steps 1 9))).any _ = true by decide +kernel)
  exact ⟨t, run, of_decide_eq_true reached, rounds_in_turn (registered_fresh 2 .overcommit _) run⟩

/-- Both tenants see all_waiting; the first runs its round and is in its killer when the
    CAS of the second, which the comment in start_new_round takes to fail, succeeds. -/
theorem outdated_scan_wins : Fresh (registered 2 .overcommit fun _ => 0) ∧ ∃ t,
    Run (GateStep id) (registered 2 .overcommit fun _ => 0)
      (.launch 0 :: .launch 1 :: (steps 0 4 ++ steps 1 4 ++ steps 0 5 ++ steps 1 5 ++ steps 0 27)) t ∧
    t.shm.mode = .overcommit ∧ Wins t 1 ∧ t.shm.gate 0 = .killerActive ∧
    ¬ RoundsInTurn id (registered 2 .overcommit fun _ => 0) t := by
  constructor
  · exact registered_fresh 2 .overcommit _
  obtain ⟨t, run, reached⟩ := run_reaches
    (fun t : System => decide (t.shm.mode = .overcommit ∧ Wins t 1 ∧
      t.shm.gate 0 = .killerActive ∧ 0 < t.shm.tenantCount ∧ t.shm.active 0 = true))
    (show (exec (next id) (registered 2 .overcommit fun _ => 0)
      (.launch 0 :: .launch 1 ::
        (steps 0 4 ++ steps 1 4 ++ steps 0 5 ++ steps 1 5 ++ steps 0 27))).any _ = true by
      decide +kernel)
  obtain ⟨overcommit, wins, marked, slot, active⟩ := of_decide_eq_true reached
  exact ⟨t, run, overcommit, wins, marked, fun inTurn => by
    have waiting := inTurn.all_waiting 1 wins 0 slot active
    rw [marked] at waiting
    cases waiting⟩

end Gate
