import KrakenRuntime.Gating.Rounds
import Mathlib.Data.Finset.Card
import Mathlib.Data.Finset.Range

/- The overcommit gate cannot strand its tenants. Once every active tenant is inside
   gate_killer_enter there is no marked killer, and some sequence of the tenants' own
   accesses ends with a KILLER_ACTIVE store. A tenant whose gate word is not WAITING runs
   alone to its store, or becomes WAITING; the holder of the round lock recharges itself
   before it unlocks; and when all are WAITING with the lock free any of them can win it.
   Fairness of the scheduler is not part of the model: the sequence is shown to exist. -/
namespace Gate
open Runs

def PC.inEnter (pc : PC) : Prop := pc ≠ .outside ∧ ¬ pc.inKiller

def PC.late : PC → Prop
  | .addWait | .peerActive _ | .peerGate _ | .peerSpin _ | .peerAddWait _ | .markActive => True
  | pc => pc.inWaiting

/-- Some accesses of active tenants, and no others, lead to a KILLER_ACTIVE store. -/
def Marks (round : ℚ → ℚ) (s : System) : Prop :=
  ∃ labels t my, Run (GateStep round) s labels t ∧
    (∀ a ∈ labels, ∃ u us, a = .step u us ∧ s.shm.active u = true) ∧
    t.pc my = .killer ∧ t.shm.gate my = .killerActive

/-- All active tenants, of which there are some, are inside gate_killer_enter. -/
structure Crowded (s : System) : Prop where
  steady : Steady s
  overcommit : s.shm.mode = .overcommit
  someone : ∃ u < s.shm.tenantCount, s.shm.active u = true
  inside : ∀ u < s.shm.tenantCount, s.shm.active u = true → (s.pc u).inEnter

/-- How far a tenant is from its store when nothing holds it up. -/
def rank (n : ℕ) : PC → ℕ
  | .markActive => 1
  | .peerActive i => 2 + 3 * (n - i)
  | .peerAddWait i => 2 + 3 * (n - (i + 1)) + 1
  | .peerGate i | .peerSpin i => 2 + 3 * (n - (i + 1)) + 2
  | .addWait => 3 * n + 3
  | .waitLoop => 3 * n + 4
  | .roundTriggerUnlock => 3 * n + 5
  | .storeRoundId i _ => 3 * n + 6 + (n - i)
  | .loadRoundId => 4 * n + 7
  | .roundActive i => 4 * n + 8 + (n - i) * (n + 5)
  | .rechargeGate i => 4 * n + 8 + (n - (i + 1)) * (n + 5) + 1
  | .rechargeRemain i _ => 4 * n + 8 + (n - (i + 1)) * (n + 5) + 2
  | .calcSlice i j _ => 4 * n + 8 + (n - (i + 1)) * (n + 5) + 3 + (n - j)
  | .reloadPolicy => 4 * n + 8 + n * (n + 5) + 1
  | .roundTriggerCas => 4 * n + 8 + n * (n + 5) + 2
  | .allWaitingActive i => 4 * n + 8 + n * (n + 5) + 3 + 2 * (n - i)
  | .allWaitingGate i => 4 * n + 8 + n * (n + 5) + 3 + 2 * (n - (i + 1)) + 1
  | _ => 0

section Access
variable (round : ℚ → ℚ) {m : Shm} {my : ℕ} (us : ℕ) {pc : PC}

theorem access_late (late : pc.late) (unmarked : pc ≠ .markActive)
    (unblocked : pc = .waitLoop → m.gate my ≠ .waiting) : (access round m my us pc).2.late := by
  cases pc with
  | waitLoop => simp [access, unblocked rfl, PC.late]
  | markActive => exact absurd rfl unmarked
  | outside | loadMode | loadProfilingIdx | loadModeAgain | timesliceExhausted => exact late.elim
  | timesliceSetWaiting | killer | deductRemain _ | addExec _ => exact late.elim
  | addKillerCount | exitRunning => exact late.elim
  | _ =>
    simp only [access, apply_ite Prod.snd, apply_ite PC.late]
    simp [PC.late, PC.inWaiting]

theorem access_inEnter (inside : pc.inEnter) (unmarked : pc ≠ .markActive) :
    (access round m my us pc).2.inEnter := by
  cases pc with
  | markActive => exact absurd rfl unmarked
  | outside => exact absurd rfl inside.1
  | killer | deductRemain _ | addExec _ | addKillerCount | exitRunning =>
    exact absurd trivial inside.2
  | _ =>
    simp only [access, apply_ite Prod.snd, apply_ite PC.inEnter]
    simp [PC.inEnter, PC.inKiller]

theorem access_rank (slot : my < m.tenantCount) (quiet : ∀ v, m.gate v ≠ .killerActive)
    (late : pc.late) (unmarked : pc ≠ .markActive)
    (unblocked : pc = .waitLoop → m.gate my ≠ .waiting) :
    rank m.tenantCount (access round m my us pc).2 < rank m.tenantCount pc := by
  have row : ∀ i, i < m.tenantCount → (m.tenantCount - i) * (m.tenantCount + 5) =
      (m.tenantCount - (i + 1)) * (m.tenantCount + 5) + (m.tenantCount + 5) := by
    intro i below
    have next : m.tenantCount - i = m.tenantCount - (i + 1) + 1 := by omega
    rw [next, Nat.add_mul, Nat.one_mul]
  cases pc with
  | waitLoop =>
    simp only [access, if_neg (unblocked rfl), rank]
    omega
  | markActive => exact absurd rfl unmarked
  | outside | loadMode | loadProfilingIdx | loadModeAgain | timesliceExhausted => exact late.elim
  | timesliceSetWaiting | killer | deductRemain _ | addExec _ => exact late.elim
  | addKillerCount | exitRunning => exact late.elim
  | roundActive i =>
    simp only [access]
    split
    · simp only [rank]
      omega
    · have this_row := row i (by omega)
      split <;> simp only [rank] <;> omega
  | peerGate i =>
    simp only [access, if_neg (quiet i), rank]
    omega
  | peerSpin i =>
    simp only [access, if_neg (quiet i), rank]
    omega
  | allWaitingActive i | peerActive i =>
    simp only [access]
    split
    · simp only [rank]
      omega
    · split
      · simp only [rank]
        omega
      · first
          | (split <;> simp only [rank] <;> omega)
          | (simp only [rank]; omega)
  | roundTriggerCas | allWaitingGate i | calcSlice i j w | storeRoundId i rid =>
    simp only [access]
    split <;> simp only [rank] <;> omega
  | _ =>
    simp only [access, rank, Nat.sub_zero]
    omega

end Access

section Crowd
variable {round : ℚ → ℚ} {s : System} {my : ℕ}

theorem crowded_quiet (crowded : Crowded s) (v : ℕ) : s.shm.gate v ≠ .killerActive := by
  intro marked
  have running := crowded.steady.killer_inside v marked
  have inside : s.pc v ≠ .outside := by
    intro outside
    rw [outside] at running
    exact running
  have active := crowded.steady.inside_active v inside
  exact (crowded.inside v (crowded.steady.inside_slot v inside) active).2 running

theorem tick_crowded (crowded : Crowded s) (slot : my < s.shm.tenantCount)
    (active : s.shm.active my = true) (unmarked : s.pc my ≠ .markActive) :
    Crowded (tick round s my 0) := by
  have mine := crowded.inside my slot active
  obtain ⟨count, mode, _⟩ := tick_fixed round s my 0
  constructor
  case steady => exact tick_steady crowded.steady slot mine.1
  case overcommit => exact mode.trans crowded.overcommit
  case someone => exact ⟨my, by rw [count]; exact slot, by rw [tick_active]; exact active⟩
  case inside =>
    intro u hslot hactive
    rw [count] at hslot
    rw [tick_active] at hactive
    by_cases self : u = my
    · subst self
      rw [tick_pc_self]
      exact access_inEnter round 0 mine unmarked
    · rw [tick_pc_other _ _ _ _ self]
      exact crowded.inside u hslot hactive

theorem marks_of_tick (slot : my < s.shm.tenantCount) (active : s.shm.active my = true)
    (inside : s.pc my ≠ .outside) (later : Marks round (tick round s my 0)) : Marks round s := by
  obtain ⟨labels, t, u, run, own, marked⟩ := later
  have first : GateStep round s (.step my 0) (tick round s my 0) := by
    simp [GateStep, Fires, next, slot, inside]
  use .step my 0 :: labels, t, u
  constructor
  · exact .cons first run
  constructor
  · intro a member
    rcases List.mem_cons.mp member with rfl | old
    · exact ⟨my, 0, rfl, active⟩
    · obtain ⟨v, us, label, activeLater⟩ := own a old
      rw [tick_active] at activeLater
      exact ⟨v, us, label, activeLater⟩
  · exact marked

theorem marks_of_markActive (slot : my < s.shm.tenantCount) (active : s.shm.active my = true)
    (here : s.pc my = .markActive) : Marks round s := by
  apply marks_of_tick slot active (by simp [here])
  use [], tick round s my 0, my
  constructor
  · exact .nil _
  constructor
  · simp
  · rw [tick_pc_self, tick_gate, here]
    simp [access, gateAfter]

/-- The waiting loop will not hold `my`: its word is not WAITING, or it holds the round
    lock and has its own slot still to recharge. -/
def Promised (s : System) (my : ℕ) : Prop :=
  s.shm.gate my ≠ .waiting ∧ (s.pc my).late ∨ (s.pc my).recharges my

theorem recharges_late {pc : PC} {i : ℕ} (h : pc.recharges i) : pc.late := by
  cases pc with
  | reloadPolicy | roundActive _ | calcSlice _ _ _ | rechargeRemain _ _ | rechargeGate _ => trivial
  | _ => exact h.elim

theorem promised_late (promised : Promised s my) : (s.pc my).late := by
  rcases promised with open_late | ahead
  · exact open_late.2
  · exact recharges_late ahead

theorem promised_unblocked (promised : Promised s my) (here : s.pc my = .waitLoop) :
    s.shm.gate my ≠ .waiting := by
  rcases promised with open_late | ahead
  · exact open_late.1
  · rw [here] at ahead
    exact ahead.elim

theorem tick_promised (slot : my < s.shm.tenantCount)
    (active : s.shm.active my = true) (unmarked : s.pc my ≠ .markActive)
    (promised : Promised s my) : Promised (tick round s my 0) my := by
  have late := access_late round 0 (promised_late promised) unmarked
    (promised_unblocked promised)
  rcases promised with ⟨open_, early⟩ | ahead
  · left
    rw [tick_gate, tick_pc_self]
    constructor
    · intro waiting
      rcases gateAfter_waiting waiting with before | ⟨setting, _⟩
      · exact open_ before
      · rw [setting] at early
        exact early
    · exact late
  · by_cases still : ((tick round s my 0).pc my).recharges my
    · exact .inr still
    · left
      rw [tick_pc_self] at still
      have here := access_recharges_self slot active ahead still
      rw [tick_gate, tick_pc_self, here]
      simp [gateAfter, access, PC.late, PC.inWaiting]

theorem promised_marks (my : ℕ) (crowded : Crowded s) (slot : my < s.shm.tenantCount)
    (active : s.shm.active my = true) (promised : Promised s my) : Marks round s := by
  induction h : rank s.shm.tenantCount (s.pc my) using Nat.strongRecOn generalizing s with
  | ind r ih =>
    by_cases marking : s.pc my = .markActive
    · exact marks_of_markActive slot active marking
    · have count := (tick_fixed round s my 0).1
      have closer := access_rank round 0 slot (crowded_quiet crowded)
        (promised_late promised) marking (promised_unblocked promised)
      apply marks_of_tick slot active (crowded.inside my slot active).1
      apply ih (rank s.shm.tenantCount (access round s.shm my 0 (s.pc my)).2) (h ▸ closer)
        (tick_crowded crowded slot active marking) (by rw [count]; exact slot)
        (by rw [tick_active]; exact active)
        (tick_promised slot active marking promised)
      rw [count, tick_pc_self]

def Recharged (s : System) : Prop :=
  ∀ u, (s.pc u).inRound → (s.pc u).recharges u ∨ s.shm.gate u ≠ .waiting

theorem tick_recharged {us : ℕ} (steady : Steady s) (inside : s.pc my ≠ .outside)
    (recharged : Recharged s) : Recharged (tick round s my us) := by
  intro u body
  by_cases self : u = my
  · subst self
    rw [tick_pc_self] at body ⊢
    rw [tick_gate]
    rcases (access_inRound round s.shm u us (s.pc u)).mp body with ⟨cas, free⟩ | ⟨before, _⟩
    · left
      simp [cas, access, free, PC.recharges]
    · rcases recharged u before with ahead | open_
      · by_cases still : (access round s.shm u us (s.pc u)).2.recharges u
        · exact .inl still
        · right
          rw [access_recharges_self (steady.inside_slot u inside) (steady.inside_active u inside)
            ahead still]
          simp [gateAfter]
      · right
        intro waiting
        rcases gateAfter_waiting waiting with old | ⟨setting, _⟩
        · exact open_ old
        · rw [setting] at before
          exact before
  · rw [tick_pc_other _ _ _ _ self] at body ⊢
    rw [tick_gate]
    rcases recharged u body with ahead | open_
    · exact .inl ahead
    · right
      intro waiting
      rcases gateAfter_waiting waiting with old | ⟨_, same⟩
      · exact open_ old
      · exact self same

theorem step_recharged {t : System} {a : Action} (steady : Steady s) (recharged : Recharged s)
    (step : GateStep round s a t) : Recharged t := by
  rcases step_cases step with ⟨v, _, _, outside, _, rfl⟩ | ⟨v, us, _, _, inside, rfl⟩ |
    ⟨v, on, _, _, _, rfl⟩ | ⟨_, _, _, _, _, _, _, rfl⟩
  · intro u body
    have before :=
      (launch_region PC.inRound (by simp [PC.inRound]) (by simp [PC.inRound]) outside u).mp body
    rcases recharged u before with ahead | open_
    · exact .inl ((launch_region (PC.recharges u) (by simp [PC.recharges])
        (by simp [PC.recharges]) outside u).mpr ahead)
    · exact .inr open_
  · exact tick_recharged steady inside recharged
  · intro u body
    rw [setActive_gate]
    exact recharged u body
  · exact recharged

theorem holder_marks (crowded : Crowded s) (recharged : Recharged s) {u : ℕ}
    (body : (s.pc u).inRound) : Marks round s := by
  have inside : s.pc u ≠ .outside := by
    intro outside
    rw [outside] at body
    exact body
  apply promised_marks u crowded (crowded.steady.inside_slot u inside)
    (crowded.steady.inside_active u inside)
  rcases recharged u body with ahead | open_
  · exact .inr ahead
  · left
    constructor
    · exact open_
    · revert body
      cases s.pc u <;> simp [PC.inRound, PC.late, PC.inWaiting]

structure Assembled (s : System) (my : ℕ) : Prop where
  crowded : Crowded s
  slot : my < s.shm.tenantCount
  active : s.shm.active my = true
  free : s.shm.roundTriggerLock = false
  waiting : AllWaiting s

theorem tick_assembled (round : ℚ → ℚ) (assembled : Assembled s my)
    (reads : (∃ i, s.pc my = .allWaitingActive i) ∨ (∃ i, s.pc my = .allWaitingGate i) ∨
      s.pc my = .waitLoop) : Assembled (tick round s my 0) my := by
  obtain ⟨crowded, slot, active, free, waiting⟩ := assembled
  have unmarked : s.pc my ≠ .markActive := by
    rcases reads with ⟨i, here⟩ | ⟨i, here⟩ | here <;> simp [here]
  constructor
  case crowded => exact tick_crowded crowded slot active unmarked
  case slot =>
    rw [(tick_fixed round s my 0).1]
    exact slot
  case active =>
    rw [tick_active]
    exact active
  case free =>
    rw [tick_lock]
    rcases reads with ⟨i, here⟩ | ⟨i, here⟩ | here <;> simp [here, lockAfter, free]
  case waiting =>
    intro i below up
    rw [(tick_fixed round s my 0).1] at below
    rw [tick_active] at up
    rw [tick_gate, waiting i below up]
    rcases reads with ⟨i, here⟩ | ⟨i, here⟩ | here <;> simp [here, gateAfter]

theorem cas_marks (assembled : Assembled s my) (here : s.pc my = .roundTriggerCas) :
    Marks round s := by
  obtain ⟨crowded, slot, active, free, _⟩ := assembled
  apply marks_of_tick slot active (by simp [here])
  apply promised_marks my
  · exact tick_crowded crowded slot active (by simp [here])
  · rw [(tick_fixed round s my 0).1]
    exact slot
  · rw [tick_active]
    exact active
  · right
    rw [tick_pc_self, here]
    simp [access, free, PC.recharges]

theorem scan_marks {i : ℕ} (assembled : Assembled s my) (here : s.pc my = .allWaitingActive i) :
    Marks round s := by
  induction left : s.shm.tenantCount - i generalizing s i with
  | zero =>
    apply marks_of_tick assembled.slot assembled.active (by simp [here])
    apply cas_marks (tick_assembled round assembled (.inl ⟨i, here⟩))
    rw [tick_pc_self, here]
    simp only [access]
    rw [if_pos (by omega)]
  | succ k ih =>
    have below : ¬ s.shm.tenantCount ≤ i := by omega
    have count := (tick_fixed round s my 0).1
    have first := tick_assembled round assembled (.inl ⟨i, here⟩)
    apply marks_of_tick assembled.slot assembled.active (by simp [here])
    by_cases up : s.shm.active i = true
    · have second : (tick round s my 0).pc my = .allWaitingGate i := by
        rw [tick_pc_self, here]
        simp [access, below, up]
      apply marks_of_tick first.slot first.active (by simp [second])
      apply ih (tick_assembled round first (.inr (.inl ⟨i, second⟩))) (i := i + 1)
      · rw [tick_pc_self, second]
        have waiting := first.waiting i (by rw [count]; omega) (by rw [tick_active]; exact up)
        simp [access, waiting]
      · rw [(tick_fixed round _ my 0).1, count]
        omega
    · apply ih first (i := i + 1)
      · rw [tick_pc_self, here]
        simp [access, below, up]
      · rw [count]
        omega

theorem waitLoop_marks (assembled : Assembled s my) (here : s.pc my = .waitLoop) :
    Marks round s := by
  have waiting := assembled.waiting my assembled.slot assembled.active
  apply marks_of_tick assembled.slot assembled.active (by simp [here])
  apply scan_marks (tick_assembled round assembled (.inr (.inr here))) (i := 0)
  rw [tick_pc_self, here]
  simp [access, waiting]

theorem assembled_marks (assembled : Assembled s my) : Marks round s := by
  have waiting := assembled.waiting my assembled.slot assembled.active
  have inside := assembled.crowded.steady.waiting_inside my waiting
  have noRound : ¬ (s.pc my).inRound := by
    intro body
    have held := assembled.crowded.steady.round_locked my body
    rw [assembled.free] at held
    cases held
  cases here : s.pc my with
  | allWaitingActive i => exact scan_marks assembled here
  | allWaitingGate i =>
    apply marks_of_tick assembled.slot assembled.active (by simp [here])
    have after := tick_assembled round assembled (.inr (.inl ⟨i, here⟩))
    by_cases peer : s.shm.gate i = .waiting
    · apply scan_marks after (i := i + 1)
      rw [tick_pc_self, here]
      simp [access, peer]
    · apply waitLoop_marks after
      rw [tick_pc_self, here]
      simp [access, peer]
  | roundTriggerCas => exact cas_marks assembled here
  | waitLoop => exact waitLoop_marks assembled here
  | reloadPolicy | roundActive _ | calcSlice _ _ _ | rechargeRemain _ _ | rechargeGate _ =>
    rw [here] at noRound
    exact absurd trivial noRound
  | loadRoundId | storeRoundId _ _ | roundTriggerUnlock =>
    rw [here] at noRound
    exact absurd trivial noRound
  | _ =>
    rw [here] at inside
    exact inside.elim

def unready (m : Shm) : ℕ :=
  ((Finset.range m.tenantCount).filter fun i => m.active i = true ∧ m.gate i ≠ .waiting).card

theorem tick_unready (unchanged : ∀ u, (tick round s my 0).shm.gate u = s.shm.gate u) :
    unready (tick round s my 0).shm = unready s.shm := by
  simp only [unready, unchanged, tick_active, (tick_fixed round s my 0).1]

theorem tick_unready_lt (round : ℚ → ℚ) (slot : my < s.shm.tenantCount) (active : s.shm.active my = true)
    (early : s.shm.gate my ≠ .waiting) (here : s.pc my = .timesliceSetWaiting) :
    unready (tick round s my 0).shm < unready s.shm := by
  apply Finset.card_lt_card
  constructor
  · intro i
    simp only [Finset.mem_filter, Finset.mem_range, (tick_fixed round s my 0).1, tick_active,
      tick_gate, here, gateAfter]
    by_cases self : i = my <;> simp [self]
  · intro back
    have mine := @back my (by simp [slot, active, early])
    simp [tick_gate, here, gateAfter] at mine

structure Early (bound : ℕ) (s : System) (my : ℕ) : Prop where
  crowded : Crowded s
  recharged : Recharged s
  slot : my < s.shm.tenantCount
  active : s.shm.active my = true
  open_ : s.shm.gate my ≠ .waiting
  count : unready s.shm ≤ bound

section Early
variable {bound : ℕ}

theorem tick_early (round : ℚ → ℚ) (early : Early bound s my) (unmarked : s.pc my ≠ .markActive)
    (reads : ∀ u old, gateAfter my (s.pc my) u old = old) : Early bound (tick round s my 0) my := by
  obtain ⟨crowded, recharged, slot, active, open_, count⟩ := early
  have gates : ∀ u, (tick round s my 0).shm.gate u = s.shm.gate u := by
    intro u
    rw [tick_gate, reads]
  constructor
  case crowded => exact tick_crowded crowded slot active unmarked
  case recharged => exact tick_recharged crowded.steady (crowded.inside my slot active).1 recharged
  case slot =>
    rw [(tick_fixed round s my 0).1]
    exact slot
  case active =>
    rw [tick_active]
    exact active
  case open_ =>
    rw [gates]
    exact open_
  case count =>
    rw [tick_unready gates]
    exact count

variable (fewer : ∀ x, Crowded x → Recharged x → unready x.shm < bound → Marks round x)
include fewer

theorem timesliceSetWaiting_marks (early : Early bound s my)
    (here : s.pc my = .timesliceSetWaiting) : Marks round s := by
  obtain ⟨crowded, recharged, slot, active, open_, count⟩ := early
  apply marks_of_tick slot active (by simp [here])
  apply fewer
  · exact tick_crowded crowded slot active (by simp [here])
  · exact tick_recharged crowded.steady (by simp [here]) recharged
  · have drop := tick_unready_lt round slot active open_ here
    omega

theorem timesliceExhausted_marks (early : Early bound s my)
    (here : s.pc my = .timesliceExhausted) : Marks round s := by
  have after := tick_early round early (by simp [here]) (by simp [here, gateAfter])
  apply marks_of_tick early.slot early.active (by simp [here])
  by_cases spent : s.shm.remain my ≤ 0
  · apply timesliceSetWaiting_marks fewer after
    rw [tick_pc_self, here]
    simp [access, spent]
  · apply promised_marks my after.crowded after.slot after.active
    left
    constructor
    · exact after.open_
    · rw [tick_pc_self, here]
      simp [access, spent, PC.late]

theorem loadModeAgain_marks (early : Early bound s my) (here : s.pc my = .loadModeAgain) :
    Marks round s := by
  have after := tick_early round early (by simp [here]) (by simp [here, gateAfter])
  apply marks_of_tick early.slot early.active (by simp [here])
  apply timesliceExhausted_marks fewer after
  rw [tick_pc_self, here]
  simp [access, early.crowded.overcommit]

theorem loadMode_marks (early : Early bound s my) (here : s.pc my = .loadMode) :
    Marks round s := by
  have after := tick_early round early (by simp [here]) (by simp [here, gateAfter])
  apply marks_of_tick early.slot early.active (by simp [here])
  apply loadModeAgain_marks fewer after
  rw [tick_pc_self, here]
  simp [access, early.crowded.overcommit]

theorem early_marks (early : Early bound s my) (notLate : ¬ (s.pc my).late) : Marks round s := by
  have inside := early.crowded.inside my early.slot early.active
  cases here : s.pc my with
  | loadMode => exact loadMode_marks fewer early here
  | loadProfilingIdx =>
    have after := tick_early round early (by simp [here]) (by simp [here, gateAfter])
    apply marks_of_tick early.slot early.active (by simp [here])
    by_cases mine : s.shm.profilingTenantIdx = my
    · apply loadModeAgain_marks fewer after
      rw [tick_pc_self, here]
      simp [access, mine]
    · apply loadMode_marks fewer after
      rw [tick_pc_self, here]
      simp [access, mine]
  | loadModeAgain => exact loadModeAgain_marks fewer early here
  | timesliceExhausted => exact timesliceExhausted_marks fewer early here
  | timesliceSetWaiting => exact timesliceSetWaiting_marks fewer early here
  | outside => exact absurd here inside.1
  | killer | deductRemain _ | addExec _ | addKillerCount | exitRunning =>
    rw [here] at inside
    exact absurd trivial inside.2
  | _ =>
    rw [here] at notLate
    exact absurd trivial notLate

end Early

theorem crowded_marks (crowded : Crowded s) (recharged : Recharged s) : Marks round s := by
  induction count : unready s.shm using Nat.strongRecOn generalizing s with
  | ind bound ih =>
    by_cases held : s.shm.roundTriggerLock = true
    · obtain ⟨u, body⟩ := crowded.steady.locked_round held
      exact holder_marks crowded recharged body
    · by_cases waiting : AllWaiting s
      · obtain ⟨u, slot, active⟩ := crowded.someone
        have assembled : Assembled s u := ⟨crowded, slot, active, by simpa using held, waiting⟩
        exact assembled_marks assembled
      · simp only [AllWaiting, not_forall] at waiting
        obtain ⟨u, slot, active, early⟩ := waiting
        by_cases late : (s.pc u).late
        · exact promised_marks u crowded slot active (.inl ⟨early, late⟩)
        · apply early_marks _ ⟨crowded, recharged, slot, active, early, count.le⟩ late
          intro x crowdedX rechargedX smaller
          exact ih (unready x.shm) smaller crowdedX rechargedX rfl

end Crowd

/-- Deadlock freedom: from every reachable state in which all active tenants are inside
    gate_killer_enter, accesses of theirs lead to a KILLER_ACTIVE store. -/
theorem gate_deadlock_free {round : ℚ → ℚ} {s t : System} {labels : List Action}
    (fresh : Fresh s) (overcommit : s.shm.mode = .overcommit)
    (fixedMode : ∀ a ∈ labels, a.keepsMode) (run : Run (GateStep round) s labels t)
    (someone : ∃ u < t.shm.tenantCount, t.shm.active u = true)
    (inside : ∀ u < t.shm.tenantCount, t.shm.active u = true → (t.pc u).inEnter) :
    Marks round t := by
  have invariant : Steady t ∧ Recharged t ∧ t.shm.mode = .overcommit := by
    apply run_invariant_of_labels Action.keepsMode
      (fun x => Steady x ∧ Recharged x ∧ x.shm.mode = .overcommit) _ run fixedMode
    · constructor
      · exact fresh_steady fresh
      constructor
      · intro u body
        rw [fresh.outside u] at body
        exact body.elim
      · exact overcommit
    · rintro x a y keeps ⟨steady, recharged, mode⟩ step
      exact ⟨step_steady steady step, step_recharged steady recharged step,
        (step_keeps_mode keeps step).trans mode⟩
  obtain ⟨steady, recharged, mode⟩ := invariant
  exact crowded_marks ⟨steady, mode, someone, inside⟩ recharged

theorem two_waiters_progress : ∃ t,
    Run (GateStep id) (registered 2 .overcommit fun _ => 0)
      (.launch 0 :: .launch 1 :: (steps 0 8 ++ steps 1 9)) t ∧
    t.pc 0 = .waitLoop ∧ t.pc 1 = .roundTriggerCas ∧ Marks id t := by
  obtain ⟨t, run, reached⟩ := run_reaches
    (fun t : System => decide (t.shm.tenantCount = 2 ∧ t.shm.active 0 = true ∧
      t.pc 0 = .waitLoop ∧ t.pc 1 = .roundTriggerCas))
    (show (exec (next id) (registered 2 .overcommit fun _ => 0)
      (.launch 0 :: .launch 1 :: (steps 0 8 ++ steps 1 9))).any _ = true by decide +kernel)
  obtain ⟨two, active, first, second⟩ := of_decide_eq_true reached
  have marks := gate_deadlock_free (registered_fresh 2 .overcommit _) rfl (by decide) run
    ⟨0, by omega, active⟩ (by
      intro u below _
      have cases : u = 0 ∨ u = 1 := by omega
      rcases cases with rfl | rfl
      · simp [first, PC.inEnter, PC.inKiller]
      · simp [second, PC.inEnter, PC.inKiller])
  exact ⟨t, run, first, second, marks⟩

end Gate
