import KrakenRuntime.Gating.Invariants

/- Whether two tenants can run a killer at once. The peer scan of gate_killer_enter and
   the KILLER_ACTIVE store after it are separate accesses, and a round body also writes
   gate words, so exclusion is not a property of every interleaving. What is proved is
   that exactly two kinds of access can break it: a tenant that goes past a peer which
   has itself gone past this tenant and has not marked itself yet, and a round body that
   stores RUNNING over the word of a tenant whose killer runs. -/
namespace Gate
open Runs

def Exclusive (s : System) : Prop :=
  ∀ u v, u ≠ v → s.shm.active u = true → s.shm.active v = true →
    ¬ ((s.pc u).inKiller ∧ (s.pc v).inKiller)

/-- The peer scan has gone past slot `j`, and the tenant is not marked yet. -/
def PC.scanned (j : ℕ) : PC → Prop
  | .peerActive i | .peerGate i | .peerSpin i => j < i
  | .peerAddWait i => j ≤ i
  | .markActive => True
  | _ => False

instance (j : ℕ) (pc : PC) : Decidable (pc.scanned j) := by
  induction pc using PC.casesOn <;> dsimp only [PC.scanned] <;> infer_instance

def PC.cleared (j : ℕ) (pc : PC) : Prop := pc.scanned j ∨ pc.inKiller

/-- The condition on one access: a tenant that finds its peer unmarked has not been gone
    past by that peer, and RUNNING is not stored over the word of a running killer. -/
def Apart (s : System) : Action → Prop
  | .step my _ =>
    match s.pc my with
    | .peerGate j | .peerSpin j => s.shm.gate j = .killerActive ∨ ¬ (s.pc j).scanned my
    | .rechargeGate i => ¬ (s.pc i).inKiller
    | _ => True
  | _ => True

instance (s : System) (a : Action) : Decidable (Apart s a) := by
  induction a using Action.casesOn with
  | step my us =>
    dsimp only [Apart]
    generalize s.pc my = pc
    induction pc using PC.casesOn <;> dsimp only <;> infer_instance
  | _ =>
    dsimp only [Apart]
    infer_instance

theorem apart_crossing {s : System} {my us j : ℕ} (apart : Apart s (.step my us))
    (here : s.pc my = .peerGate j ∨ s.pc my = .peerSpin j)
    (unmarked : s.shm.gate j ≠ .killerActive) : ¬ (s.pc j).scanned my := by
  simp only [Apart] at apart
  rcases here with here | here
  · rw [here] at apart
    exact apart.resolve_left unmarked
  · rw [here] at apart
    exact apart.resolve_left unmarked

theorem apart_overwrite {s : System} {my us i : ℕ} (apart : Apart s (.step my us))
    (here : s.pc my = .rechargeGate i) : ¬ (s.pc i).inKiller := by
  simp only [Apart, here] at apart
  exact apart

structure Ordered (s : System) : Prop where
  marked : ∀ u, (s.pc u).inKiller → s.shm.gate u = .killerActive
  one_way : ∀ u v, u ≠ v → ¬ ((s.pc u).cleared v ∧ (s.pc v).cleared u)
  overcommit : s.shm.mode = .overcommit

theorem cleared_inside {pc : PC} {j : ℕ} (h : pc.cleared j) : pc ≠ .outside := by
  intro outside
  rw [outside] at h
  rcases h with h | h
  · exact h
  · exact h

theorem cleared_next {pc : PC} {i j : ℕ} (next : pc = .peerActive (i + 1) ∨ pc = .peerAddWait i)
    (h : pc.cleared j) : j < i ∨ j = i := by
  rcases next with rfl | rfl <;> simp only [PC.cleared, PC.scanned, PC.inKiller, or_false] at h <;>
    omega

section Access
variable {round : ℚ → ℚ} {m : Shm} {my us : ℕ} {pc : PC}

theorem access_cleared {v : ℕ} (ne : v ≠ my) (slot : v < m.tenantCount) (gated : m.mode ≠ .free)
    (h : (access round m my us pc).2.cleared v) :
    pc.cleared v ∨ m.active v = false ∨
      ((pc = .peerGate v ∨ pc = .peerSpin v) ∧ m.gate v ≠ .killerActive) := by
  cases pc with
  | peerActive i =>
    simp only [access] at h
    split at h
    · left
      left
      simp only [PC.scanned]
      omega
    · split at h
      · rename_i self
        simp only [PC.cleared, PC.scanned, PC.inKiller, or_false] at h ⊢
        left
        omega
      · split at h
        · exact .inl h
        · rename_i inactive
          rcases cleared_next (.inl rfl) h with before | same
          · exact .inl (.inl before)
          · right
            left
            rw [same]
            simpa using inactive
  | peerGate i =>
    simp only [access] at h
    split at h
    · exact .inl h
    · rename_i unmarked
      rcases cleared_next (.inl rfl) h with before | same
      · exact .inl (.inl before)
      · subst same
        exact .inr (.inr ⟨.inl rfl, unmarked⟩)
  | peerSpin i =>
    simp only [access] at h
    split at h
    · exact .inl h
    · rename_i unmarked
      rcases cleared_next (.inr rfl) h with before | same
      · exact .inl (.inl before)
      · subst same
        exact .inr (.inr ⟨.inr rfl, unmarked⟩)
  | peerAddWait i =>
    simp only [access, PC.cleared, PC.scanned, PC.inKiller, or_false] at h ⊢
    left
    omega
  | loadModeAgain => simp [access, gated, PC.cleared, PC.scanned, PC.inKiller] at h
  | timesliceExhausted =>
    simp only [access] at h
    split at h <;> simp [PC.cleared, PC.scanned, PC.inKiller] at h
  | markActive | killer | deductRemain _ | addExec _ | addKillerCount =>
    left
    simp [PC.cleared, PC.scanned, PC.inKiller]
  | addWait | exitRunning => simp [access, PC.cleared, PC.scanned, PC.inKiller] at h
  | _ =>
    simp only [access, apply_ite Prod.snd, apply_ite (PC.cleared v)] at h
    simp [PC.cleared, PC.scanned, PC.inKiller] at h

theorem access_marked (h : (access round m my us pc).2.inKiller) :
    pc = .markActive ∨ pc.inKiller ∧ pc ≠ .exitRunning := by
  cases pc with
  | markActive => exact .inl rfl
  | killer | deductRemain _ | addExec _ | addKillerCount => exact .inr ⟨trivial, by simp⟩
  | _ =>
    simp only [access, apply_ite Prod.snd, apply_ite PC.inKiller] at h
    simp [PC.inKiller] at h

end Access

section Steps
variable {round : ℚ → ℚ} {s t : System} {my us : ℕ}

theorem tick_marked (ordered : Ordered s) (apart : Apart s (.step my us)) (u : ℕ)
    (h : ((tick round s my us).pc u).inKiller) :
    (tick round s my us).shm.gate u = .killerActive := by
  rw [tick_gate]
  by_cases same : u = my
  · subst same
    rw [tick_pc_self] at h
    rcases access_marked h with mark | ⟨inside, notExit⟩
    · simp [mark, gateAfter]
    · have before := ordered.marked u inside
      revert inside notExit
      cases s.pc u <;> simp_all [PC.inKiller, gateAfter]
  · rw [tick_pc_other _ _ _ _ same] at h
    have before := ordered.marked u h
    unfold gateAfter
    split
    · simp [same, before]
    · rename_i i recharge
      have other : u ≠ i := by
        intro hui
        exact apart_overwrite apart recharge (hui ▸ h)
      simp [other, before]
    · simp [same, before]
    · simp [same, before]
    · exact before

/-- The tenant that moves does not clear a peer that has cleared it. -/
theorem tick_one_way (steady : Steady s) (ordered : Ordered s) (apart : Apart s (.step my us))
    {v : ℕ} (ne : v ≠ my) (peer : (s.pc v).cleared my) :
    ¬ ((tick round s my us).pc my).cleared v := by
  intro h
  rw [tick_pc_self] at h
  have inside := cleared_inside peer
  have gated : s.shm.mode ≠ .free := by
    rw [ordered.overcommit]
    simp
  rcases access_cleared ne (steady.inside_slot v inside) gated h with
    before | inactive | ⟨here, unmarked⟩
  · exact ordered.one_way v my ne ⟨peer, before⟩
  · have active := steady.inside_active v inside
    rw [inactive] at active
    cases active
  · rcases peer with scanned | running
    · exact apart_crossing apart here unmarked scanned
    · exact unmarked (ordered.marked v running)

theorem tick_ordered (steady : Steady s) (ordered : Ordered s) (apart : Apart s (.step my us)) :
    Ordered (tick round s my us) := by
  constructor
  case marked => exact tick_marked ordered apart
  case one_way =>
    rintro u v ne ⟨hu, hv⟩
    by_cases hmu : u = my
    · subst hmu
      rw [tick_pc_other _ _ _ _ ne.symm] at hv
      exact tick_one_way steady ordered apart ne.symm hv hu
    · by_cases hmv : v = my
      · subst hmv
        rw [tick_pc_other _ _ _ _ ne] at hu
        exact tick_one_way steady ordered apart ne hu hv
      · rw [tick_pc_other _ _ _ _ hmu] at hu
        rw [tick_pc_other _ _ _ _ hmv] at hv
        exact ordered.one_way u v ne ⟨hu, hv⟩
  case overcommit =>
    rw [(tick_fixed round s my us).2.1]
    exact ordered.overcommit

theorem step_ordered {a : Action} (keeps : a.keepsMode) (steady : Steady s) (ordered : Ordered s)
    (apart : Apart s a) (step : GateStep round s a t) : Ordered t := by
  have mode := step_keeps_mode keeps step
  rcases step_cases step with ⟨my, _, _, outside, _, rfl⟩ | ⟨my, us, rfl, _, _, rfl⟩ |
    ⟨my, on, _, _, _, rfl⟩ | ⟨_, _, _, _, _, _, _, rfl⟩
  · have killer :=
      launch_region PC.inKiller (by simp [PC.inKiller]) (by simp [PC.inKiller]) outside
    have cleared : ∀ j u, (Function.update s.pc my .loadMode u).cleared j ↔ (s.pc u).cleared j :=
      fun j => launch_region (PC.cleared j) (by simp [PC.cleared, PC.scanned, PC.inKiller])
        (by simp [PC.cleared, PC.scanned, PC.inKiller]) outside
    constructor
    case marked => exact fun u h => ordered.marked u ((killer u).mp h)
    case one_way =>
      rintro u v ne ⟨hu, hv⟩
      exact ordered.one_way u v ne ⟨(cleared v u).mp hu, (cleared u v).mp hv⟩
    case overcommit => exact ordered.overcommit
  · exact tick_ordered steady ordered apart
  · constructor
    case marked =>
      intro u h
      rw [setActive_gate]
      exact ordered.marked u h
    case one_way => exact ordered.one_way
    case overcommit => exact ordered.overcommit
  · constructor
    case marked => exact ordered.marked
    case one_way => exact ordered.one_way
    case overcommit => exact mode.trans ordered.overcommit

end Steps

/-- In every run whose accesses neither cross nor reopen a running killer, no two tenants
    run a killer at once. -/
theorem killers_exclusive {round : ℚ → ℚ} {s t : System} {labels : List Action}
    (fresh : Fresh s) (overcommit : s.shm.mode = .overcommit)
    (fixedMode : ∀ a ∈ labels, a.keepsMode)
    (run : Run (Guarded Apart (GateStep round)) s labels t) : Exclusive t := by
  have start : Ordered s := by
    constructor
    case marked =>
      intro u h
      rw [fresh.outside u] at h
      exact h.elim
    case one_way =>
      intro u v _ h
      exact cleared_inside h.1 (fresh.outside u)
    case overcommit => exact overcommit
  have both : Steady t ∧ Ordered t := by
    apply run_invariant_of_labels Action.keepsMode (fun x => Steady x ∧ Ordered x) _ run fixedMode
      ⟨fresh_steady fresh, start⟩
    rintro x a y keeps ⟨steady, ordered⟩ ⟨apart, step⟩
    exact ⟨step_steady steady step, step_ordered keeps steady ordered apart step⟩
  rintro u v ne _ _ ⟨hu, hv⟩
  exact both.2.one_way u v ne ⟨.inr hu, .inr hv⟩

/-- The second tenant scans after the first has marked itself, and is still held. -/
theorem second_scan_is_held : ∃ t,
    Run (Guarded Apart (GateStep id)) (registered 2 .overcommit fun _ => 100)
      (.launch 0 :: .launch 1 :: (steps 0 8 ++ steps 1 5)) t ∧
    (t.pc 0).inKiller ∧ t.pc 1 = .peerSpin 0 ∧ Exclusive t := by
  obtain ⟨t, run, reached⟩ := guarded_run_reaches Apart
    (fun t : System => decide ((t.pc 0).inKiller ∧ t.pc 1 = .peerSpin 0))
    (show (exec (guarding Apart (next id)) (registered 2 .overcommit fun _ => 100)
      (.launch 0 :: .launch 1 :: (steps 0 8 ++ steps 1 5))).any _ = true by decide +kernel)
  have here := of_decide_eq_true reached
  exact ⟨t, run, here.1, here.2,
    killers_exclusive (registered_fresh 2 .overcommit _) rfl (by decide) run⟩

/-- Two tenants with time left scan each other before either has marked itself. -/
theorem scans_cross : Fresh (registered 2 .overcommit fun _ => 100) ∧ ∃ t,
    Run (GateStep id) (registered 2 .overcommit fun _ => 100)
      (.launch 0 :: .launch 1 :: (steps 0 7 ++ steps 1 8 ++ steps 0 1)) t ∧
    t.shm.mode = .overcommit ∧ ¬ Exclusive t := by
  constructor
  · exact registered_fresh 2 .overcommit _
  obtain ⟨t, run, reached⟩ := run_reaches
    (fun t : System => decide (t.shm.mode = .overcommit ∧ t.shm.active 0 = true ∧ t.shm.active 1 = true ∧
      (t.pc 0).inKiller ∧ (t.pc 1).inKiller))
    (show (exec (next id) (registered 2 .overcommit fun _ => 100)
      (.launch 0 :: .launch 1 :: (steps 0 7 ++ steps 1 8 ++ steps 0 1))).any _ = true by
        decide +kernel)
  obtain ⟨overcommit, first, second, killers⟩ := of_decide_eq_true reached
  exact ⟨t, run, overcommit, fun exclusive => exclusive 0 1 (by decide) first second killers⟩

end Gate
