import KrakenRuntime.Gating.Processes

/- Whether the gate word of a slot tells the truth about the killer of the process behind
   it, over registrations, exits and rounds. -/
namespace Gate
open Runs
variable {n : ℕ}

/-- Active and KILLER_ACTIVE means that the live process of the slot runs a killer, and
    whoever spins on a slot that no process has mapped leaves at its next load. -/
structure Truthful (w : World n) : Prop where
  word_iff : ∀ i, (w.shm.active i = true ∧ w.shm.gate i = .killerActive) ↔
    ∃ p, (w.procs p).slot = i ∧ (w.procs p).runsKiller
  spin_ends : ∀ p i, (w.procs p).pc = .peerSpin i →
    (∀ q, (w.procs q).slot = i → ¬ (w.procs q).mapped) → w.shm.gate i ≠ .killerActive

def PC.sparesKillers (w : World n) : PC → Prop
  | .rechargeGate i => ∀ q, (w.procs q).slot = i → ¬ (w.procs q).runsKiller
  | _ => True

/-- No process leaves its KILLER_ACTIVE word behind, a slot is registered again only when
    its old process has unmapped, and no round stores RUNNING over a running killer. -/
def Orderly (w : World n) : Event n → Prop
  | .unmap p => w.shm.gate (w.procs p).slot ≠ .killerActive
  | .register _ slot => ∀ q, (w.procs q).slot = slot → ¬ (w.procs q).mapped
  | .step p _ => (w.procs p).pc.sparesKillers w
  | _ => True

instance (w : World n) (pc : PC) : Decidable (pc.sparesKillers w) := by
  induction pc using PC.casesOn <;> dsimp only [PC.sparesKillers] <;> infer_instance

instance (w : World n) (e : Event n) : Decidable (Orderly w e) := by
  induction e using Event.casesOn <;> dsimp only [Orderly] <;> infer_instance

structure Honest (w : World n) : Prop where
  active_iff : ∀ i, w.shm.active i = true ↔
    ∃ p, (w.procs p).slot = i ∧ (w.procs p).status = .live
  alone : ∀ p q, (w.procs p).mapped → (w.procs q).mapped → (w.procs p).slot = (w.procs q).slot →
    p = q
  word_owner : ∀ i, w.shm.gate i = .killerActive →
    ∃ p, (w.procs p).slot = i ∧ (w.procs p).mapped ∧ (w.procs p).pc.inKiller
  owner_word : ∀ p, (w.procs p).runsKiller → w.shm.gate (w.procs p).slot = .killerActive

theorem honest_truthful {w : World n} (honest : Honest w) : Truthful w := by
  constructor
  · intro i
    constructor
    · rintro ⟨active, marked⟩
      obtain ⟨p, slot, live⟩ := (honest.active_iff i).mp active
      obtain ⟨q, slot', mapped, inside⟩ := honest.word_owner i marked
      have same := honest.alone p q (.inl live) mapped (slot.trans slot'.symm)
      subst same
      exact ⟨p, slot, live, inside⟩
    · rintro ⟨p, rfl, runs⟩
      exact ⟨(honest.active_iff _).mpr ⟨p, rfl, runs.1⟩, honest.owner_word p runs⟩
  · intro p i _ gone marked
    obtain ⟨q, slot, mapped, _⟩ := honest.word_owner i marked
    exact gone q slot mapped

theorem empty_honest {w : World n} (empty : Empty w) : Honest w := by
  constructor
  · intro i
    simp [empty.inactive, empty.unborn]
  · intro p q mapped
    simp [Process.mapped, empty.unborn] at mapped
  · intro i marked
    rw [empty.running i] at marked
    cases marked
  · rintro p ⟨live, _⟩
    rw [empty.unborn p] at live
    cases live

theorem access_inKiller_iff (round : ℚ → ℚ) (m : Shm) (my us : ℕ) (pc : PC) :
    (access round m my us pc).2.inKiller ↔ pc = .markActive ∨ (pc.inKiller ∧ pc ≠ .exitRunning) := by
  cases pc <;> simp only [access, apply_ite Prod.snd, apply_ite PC.inKiller] <;> simp [PC.inKiller]

section Steps
variable {round : ℚ → ℚ} {w : World n} {p : Fin n} {us : ℕ}

theorem gateAfter_killerActive {my i : ℕ} {pc : PC} {old : GateState}
    (marked : gateAfter my pc i old = .killerActive) :
    (pc = .markActive ∧ i = my) ∨ (old = .killerActive ∧ (pc = .exitRunning → i ≠ my)) := by
  revert marked
  unfold gateAfter
  split <;> (try split) <;> simp_all

theorem gateAfter_keeps {my i : ℕ} {pc : PC} (other : i ≠ my) (noRecharge : pc ≠ .rechargeGate i)
    (old : GateState) : gateAfter my pc i old = old := by
  unfold gateAfter
  split
  · exact if_neg other
  · rename_i j
    apply if_neg
    rintro rfl
    exact noRecharge rfl
  · exact if_neg other
  · exact if_neg other
  · rfl

theorem tick_honest (honest : Honest w) (mapped : (w.procs p).mapped)
    (spares : (w.procs p).pc.sparesKillers w) : Honest (w.tick round p us) := by
  have pc_self : ((w.tick round p us).procs p).pc =
      (access round w.shm (w.procs p).slot us (w.procs p).pc).2 := by
    simp [World.tick]
  constructor
  case active_iff =>
    intro i
    simp only [tick_active_at, tick_slot, tick_status]
    exact honest.active_iff i
  case alone =>
    intro q r hq hr
    simp only [Process.mapped, tick_slot, tick_status] at hq hr ⊢
    exact honest.alone q r hq hr
  case word_owner =>
    intro i marked
    rw [tick_gate_at] at marked
    rcases gateAfter_killerActive marked with ⟨marks, here⟩ | ⟨before, kept⟩
    · refine ⟨p, by rw [tick_slot, here], by simpa [Process.mapped, tick_status] using mapped, ?_⟩
      rw [pc_self, access_inKiller_iff]
      exact .inl marks
    · obtain ⟨q, slot, mapped', inside⟩ := honest.word_owner i before
      refine ⟨q, by rw [tick_slot, slot], by simpa [Process.mapped, tick_status] using mapped', ?_⟩
      by_cases same : q = p
      · subst same
        rw [pc_self, access_inKiller_iff]
        right
        exact ⟨inside, fun exits => kept exits slot.symm⟩
      · rw [tick_proc_other _ _ _ same]
        exact inside
  case owner_word =>
    intro q runs
    rw [tick_slot, tick_gate_at]
    have live : (w.procs q).status = .live := by
      rw [← tick_status round w p q us]
      exact runs.1
    by_cases same : q = p
    · subst same
      have inside := runs.2
      rw [pc_self, access_inKiller_iff] at inside
      rcases inside with marks | ⟨inside, notLast⟩
      · simp [gateAfter, marks]
      · have marked := honest.owner_word q ⟨live, inside⟩
        cases here : (w.procs q).pc <;> rw [here] at inside notLast <;>
          first
          | exact inside.elim
          | exact absurd rfl notLast
          | exact marked
    · have inside := runs.2
      rw [tick_proc_other _ _ _ same] at inside
      have other : (w.procs q).slot ≠ (w.procs p).slot := by
        intro eq
        exact same (honest.alone q p (.inl live) mapped eq)
      rw [gateAfter_keeps other]
      · exact honest.owner_word q ⟨live, inside⟩
      · intro recharges
        rw [recharges] at spares
        exact spares q rfl ⟨live, inside⟩

theorem Honest.active_split (honest : Honest w) (p : Fin n) (i : ℕ) :
    w.shm.active i = true ↔ ((w.procs p).slot = i ∧ (w.procs p).status = .live) ∨
      ∃ r, r ≠ p ∧ (w.procs r).slot = i ∧ (w.procs r).status = .live := by
  rw [honest.active_iff]
  constructor
  · rintro ⟨r, slot, live⟩
    by_cases same : r = p
    · subst same
      exact .inl ⟨slot, live⟩
    · exact .inr ⟨r, same, slot, live⟩
  · rintro (⟨slot, live⟩ | ⟨r, -, slot, live⟩)
    · exact ⟨p, slot, live⟩
    · exact ⟨r, slot, live⟩

theorem replaced_honest {v : World n} {q : Process} (honest : Honest w)
    (procs : v.procs = Function.update w.procs p q) (gates : ∀ i, v.shm.gate i = w.shm.gate i)
    (active : ∀ i, v.shm.active i = true ↔ (q.slot = i ∧ q.status = .live) ∨
      ∃ r, r ≠ p ∧ (w.procs r).slot = i ∧ (w.procs r).status = .live)
    (alone : q.mapped → ∀ r, r ≠ p → (w.procs r).mapped → (w.procs r).slot ≠ q.slot)
    (word : (w.procs p).mapped → (w.procs p).pc.inKiller →
      w.shm.gate (w.procs p).slot = .killerActive →
      q.slot = (w.procs p).slot ∧ q.mapped ∧ q.pc.inKiller)
    (marked : q.runsKiller → w.shm.gate q.slot = .killerActive) : Honest v := by
  have here : v.procs p = q := by rw [procs, Function.update_self]
  have others : ∀ r, r ≠ p → v.procs r = w.procs r := by
    intro r ne
    rw [procs, Function.update_of_ne ne]
  constructor
  case active_iff =>
    intro i
    rw [active]
    constructor
    · rintro (⟨slot, live⟩ | ⟨r, ne, slot, live⟩)
      · exact ⟨p, by rw [here]; exact ⟨slot, live⟩⟩
      · exact ⟨r, by rw [others r ne]; exact ⟨slot, live⟩⟩
    · rintro ⟨r, slot, live⟩
      by_cases same : r = p
      · subst same
        rw [here] at slot live
        exact .inl ⟨slot, live⟩
      · rw [others r same] at slot live
        exact .inr ⟨r, same, slot, live⟩
  case alone =>
    intro r u hr hu same
    by_cases er : r = p <;> by_cases eu : u = p
    · rw [er, eu]
    · subst er
      rw [here] at hr same
      rw [others u eu] at hu same
      exact absurd same.symm (alone hr u eu hu)
    · subst eu
      rw [here] at hu same
      rw [others r er] at hr same
      exact absurd same (alone hu r er hr)
    · rw [others r er] at hr same
      rw [others u eu] at hu same
      exact honest.alone r u hr hu same
  case word_owner =>
    intro i killer
    rw [gates] at killer
    obtain ⟨r, slot, mapped, inside⟩ := honest.word_owner i killer
    by_cases same : r = p
    · subst same
      rw [← slot] at killer
      obtain ⟨slot', mapped', inside'⟩ := word mapped inside killer
      exact ⟨r, by rw [here]; exact ⟨slot'.trans slot, mapped', inside'⟩⟩
    · exact ⟨r, by rw [others r same]; exact ⟨slot, mapped, inside⟩⟩
  case owner_word =>
    intro r runs
    rw [gates]
    by_cases same : r = p
    · subst same
      rw [here] at runs ⊢
      exact marked runs
    · rw [others r same] at runs ⊢
      exact honest.owner_word r runs

theorem register_honest {slot : ℕ} (honest : Honest w) (unborn : (w.procs p).status = .unborn)
    (vacant : ∀ q, (w.procs q).slot = slot → ¬ (w.procs q).mapped) :
    Honest ((w.setActive slot true).setProc p { slot := slot, status := .live }) := by
  apply replaced_honest honest (p := p) rfl
  · intro i
    exact setActive_gate_at w i slot true
  · intro i
    simp only [World.setProc, setActive_active_at]
    split
    · rename_i here
      exact iff_of_true rfl (.inl ⟨here.symm, trivial⟩)
    · rename_i other
      rw [honest.active_split p, unborn]
      simp [Ne.symm other]
  · intro _ r _ mapped same
    exact vacant r same mapped
  · intro mapped
    simp [Process.mapped, unborn] at mapped
  · rintro ⟨-, inside⟩
    cases inside

theorem setProc_honest {q : Process} (honest : Honest w) (slot : q.slot = (w.procs p).slot)
    (status : q.status = (w.procs p).status) (region : q.pc.inKiller ↔ (w.procs p).pc.inKiller) :
    Honest (w.setProc p q) := by
  have mapped : q.mapped ↔ (w.procs p).mapped := by rw [Process.mapped, status, Process.mapped]
  apply replaced_honest honest (p := p) rfl
  · intro i
    rfl
  · intro i
    rw [slot, status]
    exact honest.active_split p i
  · intro mapped' r ne there same
    exact ne (honest.alone r p there (mapped.mp mapped') (same.trans slot))
  · intro mapped' inside _
    exact ⟨slot, mapped.mpr mapped', region.mpr inside⟩
  · rintro ⟨live, inside⟩
    rw [slot]
    exact honest.owner_word p ⟨status ▸ live, region.mp inside⟩

theorem fini_honest (honest : Honest w) (live : (w.procs p).status = .live) :
    Honest ((w.setActive (w.procs p).slot false).setProc p
      { w.procs p with status := .leaving }) := by
  apply replaced_honest honest (p := p) rfl
  · intro i
    exact setActive_gate_at w i (w.procs p).slot false
  · intro i
    simp only [World.setProc, setActive_active_at]
    split
    · rename_i here
      apply iff_of_false (by simp)
      rintro (⟨-, leaves⟩ | ⟨r, ne, slot, live'⟩)
      · cases leaves
      · exact ne (honest.alone r p (.inl live') (.inl live) (slot.trans here))
    · rename_i other
      rw [honest.active_split p]
      simp [Ne.symm other]
  · intro _ r ne mapped same
    exact ne (honest.alone r p mapped (.inl live) same)
  · intro _ inside _
    exact ⟨rfl, .inr rfl, inside⟩
  · rintro ⟨leaves, -⟩
    cases leaves

theorem unmap_honest (honest : Honest w) (leaving : (w.procs p).status = .leaving)
    (unmarked : w.shm.gate (w.procs p).slot ≠ .killerActive) :
    Honest (w.setProc p { w.procs p with status := .gone }) := by
  apply replaced_honest honest (p := p) rfl
  · intro i
    rfl
  · intro i
    show w.shm.active i = true ↔ _
    rw [honest.active_split p, leaving]
    simp
  · intro mapped
    simp [Process.mapped] at mapped
  · intro _ _ killer
    exact absurd killer unmarked
  · rintro ⟨gone, -⟩
    cases gone

theorem step_honest {t : World n} {e : Event n} (honest : Honest w) (orderly : Orderly w e)
    (step : WorldStep round w e t) : Honest t := by
  cases e with
  | register p slot =>
    simp only [Fires, World.next] at step
    split at step <;> cases step
    rename_i ready
    exact register_honest honest ready.1 orderly
  | loadKillerPolicy p | recordVersion p =>
    simp only [Fires, World.next] at step
    split at step <;> cases step
    exact setProc_honest honest rfl rfl Iff.rfl
  | launch p =>
    simp only [Fires, World.next] at step
    split at step <;> cases step
    rename_i ready
    refine setProc_honest honest ?_ ?_ ?_
    · rfl
    · rfl
    · simp [ready.2, PC.inKiller]
  | step p us =>
    obtain ⟨ready, ⟨_, rfl⟩ | ⟨_, rfl⟩⟩ := process_step_cases step
    · exact setProc_honest honest rfl rfl Iff.rfl
    · exact tick_honest honest ready.1 orderly
  | fini p =>
    simp only [Fires, World.next] at step
    split at step <;> cases step
    rename_i ready
    exact fini_honest honest ready.1
  | unmap p =>
    simp only [Fires, World.next] at step
    split at step <;> cases step
    rename_i leaving
    exact unmap_honest honest leaving orderly
  | setMode mode idx =>
    cases step
    exact { honest with }
  | setPolicy policy =>
    cases step
    exact { honest with }
  | publishKillers =>
    cases step
    exact { honest with }

end Steps

/-- In every run of processes, in every mode, whose exits and registrations are orderly and
    whose rounds spare running killers, the gate words are truthful in every state. -/
theorem gate_word_truthful {round : ℚ → ℚ} {w t : World n} {events : List (Event n)}
    (empty : Empty w) (run : Run (Guarded Orderly (WorldStep round)) w events t) : Truthful t := by
  apply honest_truthful
  apply run_invariant Honest _ run (empty_honest empty)
  rintro x e y honest ⟨orderly, step⟩
  exact step_honest honest orderly step

def successor : List (Event 2) :=
  krakenInit 0 0 ++ [.launch 0] ++ accesses 0 5 ++ [.fini 0] ++ accesses 0 6 ++ [.unmap 0] ++
    krakenInit 1 0 ++ [.launch 1] ++ accesses 1 6

theorem successor_truthful : ∃ t,
    Run (Guarded Orderly (WorldStep id)) (emptyWorld 2 1 100) successor t ∧
    t.shm.gate 0 = .killerActive ∧ (t.procs 1).runsKiller ∧ Truthful t := by
  obtain ⟨t, run, reached⟩ := guarded_run_reaches Orderly
    (fun t : World 2 => decide (t.shm.gate 0 = .killerActive ∧ (t.procs 1).runsKiller))
    (show (exec (guarding Orderly (World.next id)) (emptyWorld 2 1 100) successor).any _ = true by
      decide +kernel)
  obtain ⟨marked, runs⟩ := of_decide_eq_true reached
  exact ⟨t, run, marked, runs, gate_word_truthful (emptyWorld_empty 2 1 100) run⟩

/-- A process exits inside its killer while a peer spins on its slot, and another process
    takes the slot. -/
def exitInsideKiller : List (Event 3) :=
  krakenInit 0 0 ++ krakenInit 1 1 ++ [.launch 0] ++ accesses 0 8 ++ [.launch 1] ++
    accesses 1 5 ++ [.fini 0, .unmap 0] ++ krakenInit 2 0 ++ accesses 1 1

/-- The word stays KILLER_ACTIVE over an idle process, and the peer goes on spinning. -/
theorem word_left_behind : Empty (emptyWorld 3 2 100) ∧ ∃ t,
    Run (WorldStep id) (emptyWorld 3 2 100) exitInsideKiller t ∧
    t.shm.mode = .overcommit ∧ (t.procs 1).pc = .peerSpin 0 ∧ ¬ Truthful t := by
  refine ⟨emptyWorld_empty 3 2 100, ?_⟩
  obtain ⟨t, run, reached⟩ := run_reaches
    (fun t : World 3 => decide (t.shm.mode = .overcommit ∧ (t.procs 1).pc = .peerSpin 0 ∧
      (t.shm.active 0 = true ∧ t.shm.gate 0 = .killerActive) ∧
      ∀ p, (t.procs p).slot = 0 → ¬ (t.procs p).runsKiller))
    (show (exec (World.next id) (emptyWorld 3 2 100) exitInsideKiller).any _ = true by
      decide +kernel)
  obtain ⟨mode, spins, word, nobody⟩ := of_decide_eq_true reached
  refine ⟨t, run, mode, spins, ?_⟩
  intro truthful
  obtain ⟨p, slot, runs⟩ := (truthful.word_iff 0).mp word
  exact nobody p slot runs

end Gate
