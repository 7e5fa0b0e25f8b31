import KrakenRuntime.Gating.Processes

/- Round bodies one after the other, and the numbers they leave in the slots. Any number of
   processes, several of them possibly at one slot; registration, exit and unmapping come at
   any moment. A process that unmaps inside a body never releases the lock, and counts as
   being in the body from then on. -/
namespace Gate
open Runs
variable {n : ℕ}

def roundIdAt (w : World n) (i : ℕ) : BitVec 32 := (w.shm.tenants i).roundId

def completed (w : World n) : Event n → ℕ → ℕ
  | .step p _, k => if (w.procs p).pc = .roundTriggerUnlock then k + 1 else k
  | _, k => k

/-- A segment with equal round numbers, the lock free and no process in a round body. -/
structure Ready (rid : BitVec 32) (w : World n) : Prop where
  slots : ∀ p, (w.procs p).status ≠ .unborn → (w.procs p).slot < w.shm.tenantCount
  outside : ∀ p, ¬ (w.procs p).pc.inRound
  unlocked : w.shm.roundTriggerLock = false
  equal : ∀ i < w.shm.tenantCount, roundIdAt w i = rid

/-- The number in slot `i` while a body that began at `base` stands at `pc`. -/
def written (base : BitVec 32) : PC → ℕ → BitVec 32
  | .storeRoundId j _, i => if i < j then base + 1 else base
  | .roundTriggerUnlock, _ => base + 1
  | _, _ => base

def carries (base : BitVec 32) : PC → Prop
  | .storeRoundId _ rid => rid = base
  | _ => True

structure Numbered (count : ℕ) (base : BitVec 32) (w : World n) : Prop where
  count_eq : w.shm.tenantCount = count
  slots : ∀ p, (w.procs p).status ≠ .unborn → (w.procs p).slot < count
  born : ∀ p, (w.procs p).pc.inRound → (w.procs p).status ≠ .unborn
  alone : ∀ p q, (w.procs p).pc.inRound → (w.procs q).pc.inRound → p = q
  locked : w.shm.roundTriggerLock = true ↔ ∃ p, (w.procs p).pc.inRound
  idle : w.shm.roundTriggerLock = false → ∀ i < count, roundIdAt w i = base
  body : ∀ p, (w.procs p).pc.inRound →
    carries base (w.procs p).pc ∧ ∀ i < count, roundIdAt w i = written base (w.procs p).pc i

theorem ready_numbered {rid : BitVec 32} {w : World n} (ready : Ready rid w) :
    Numbered w.shm.tenantCount rid w := by
  obtain ⟨slots, outside, unlocked, equal⟩ := ready
  constructor
  case count_eq => rfl
  case slots => exact slots
  case born =>
    intro p inside
    exact absurd inside (outside p)
  case alone =>
    intro p q inside
    exact absurd inside (outside p)
  case locked =>
    rw [unlocked]
    constructor
    · nofun
    · rintro ⟨p, inside⟩
      exact absurd inside (outside p)
  case idle => exact fun _ => equal
  case body =>
    intro p inside
    exact absurd inside (outside p)

section Frame
variable {count : ℕ} {base : BitVec 32} {w t : World n}

theorem frame_numbered (numbered : Numbered count base w)
    (count_eq : t.shm.tenantCount = w.shm.tenantCount)
    (lock_eq : t.shm.roundTriggerLock = w.shm.roundTriggerLock)
    (ids_eq : ∀ i, roundIdAt t i = roundIdAt w i)
    (slots : ∀ p, (t.procs p).status ≠ .unborn → (t.procs p).slot < count)
    (pcs : ∀ p, ((t.procs p).pc = (w.procs p).pc ∧
        ((w.procs p).status ≠ .unborn → (t.procs p).status ≠ .unborn)) ∨
      (¬ (t.procs p).pc.inRound ∧ ¬ (w.procs p).pc.inRound)) : Numbered count base t := by
  have back : ∀ p, (t.procs p).pc.inRound → (t.procs p).pc = (w.procs p).pc ∧
      ((w.procs p).status ≠ .unborn → (t.procs p).status ≠ .unborn) := by
    intro p inside
    rcases pcs p with same | ⟨out, _⟩
    · exact same
    · exact absurd inside out
  have forth : ∀ p, (w.procs p).pc.inRound → (t.procs p).pc = (w.procs p).pc := by
    intro p inside
    rcases pcs p with same | ⟨_, out⟩
    · exact same.1
    · exact absurd inside out
  constructor
  case count_eq => exact count_eq.trans numbered.count_eq
  case slots => exact slots
  case born =>
    intro p inside
    obtain ⟨same, stays⟩ := back p inside
    rw [same] at inside
    exact stays (numbered.born p inside)
  case alone =>
    intro p q hp hq
    apply numbered.alone p q
    · rw [← (back p hp).1]
      exact hp
    · rw [← (back q hq).1]
      exact hq
  case locked =>
    rw [lock_eq, numbered.locked]
    constructor
    · rintro ⟨p, inside⟩
      exact ⟨p, by rw [forth p inside]; exact inside⟩
    · rintro ⟨p, inside⟩
      exact ⟨p, by rw [← (back p inside).1]; exact inside⟩
  case idle =>
    intro free i below
    rw [ids_eq]
    exact numbered.idle (lock_eq ▸ free) i below
  case body =>
    intro p inside
    obtain ⟨same, _⟩ := back p inside
    rw [same] at inside ⊢
    obtain ⟨carried, ids⟩ := numbered.body p inside
    refine ⟨carried, ?_⟩
    intro i below
    rw [ids_eq]
    exact ids i below

end Frame

section Tick
variable (round : ℚ → ℚ) (w : World n) (p : Fin n) (us : ℕ)

theorem apply_roundId (m : Shm) (x : Write) (i : ℕ) : ((x.apply m).tenants i).roundId =
    match x with
    | .roundId j rid => if i = j then rid else (m.tenants i).roundId
    | _ => (m.tenants i).roundId := by
  cases x <;> simp only [Write.apply, setTenant_at] <;> split <;> rfl

theorem tick_roundId (i : ℕ) : roundIdAt (w.tick round p us) i =
    match (w.procs p).pc with
    | .storeRoundId j rid => if j < w.shm.tenantCount ∧ i = j then rid + 1 else roundIdAt w i
    | _ => roundIdAt w i := by
  simp only [roundIdAt, World.tick, apply_roundId]
  cases (w.procs p).pc with
  | roundTriggerCas => by_cases held : w.shm.roundTriggerLock = true <;> simp [access, held]
  | storeRoundId j rid =>
    by_cases last : w.shm.tenantCount ≤ j
    · simp [access, last, Nat.not_lt.mpr last]
    · simp [access, last, Nat.lt_of_not_le last]
  | _ => rfl

theorem tick_lock_at : (w.tick round p us).shm.roundTriggerLock =
    lockAfter (w.procs p).pc w.shm.roundTriggerLock :=
  access_lock ..

theorem tick_count : (w.tick round p us).shm.tenantCount = w.shm.tenantCount :=
  (access_fixed ..).1

theorem tick_pc_at : ((w.tick round p us).procs p).pc =
    (access round w.shm (w.procs p).slot us (w.procs p).pc).2 := by
  simp [World.tick]

end Tick

section Body
variable {round : ℚ → ℚ} {count : ℕ} {base : BitVec 32} {w : World n} {p : Fin n} {us : ℕ}

theorem body_written (numbered : Numbered count base w) (inside : (w.procs p).pc.inRound)
    (held : (w.procs p).pc ≠ .roundTriggerUnlock) :
    carries base ((w.tick round p us).procs p).pc ∧ ∀ i < count,
      roundIdAt (w.tick round p us) i = written base ((w.tick round p us).procs p).pc i := by
  obtain ⟨carried, ids⟩ := numbered.body p inside
  have below := numbered.slots p (numbered.born p inside)
  simp only [tick_roundId, tick_pc_at]
  rw [numbered.count_eq]
  generalize slot_eq : (w.procs p).slot = slot at *
  cases here : (w.procs p).pc with
  | reloadPolicy | rechargeRemain _ _ | rechargeGate _ =>
    simp only [here, written] at ids
    exact ⟨trivial, ids⟩
  | roundActive i =>
    simp only [here, written] at ids
    simp only [access]
    split_ifs <;> exact ⟨trivial, ids⟩
  | calcSlice i j totalW =>
    simp only [here, written] at ids
    simp only [access]
    split <;> exact ⟨trivial, ids⟩
  | loadRoundId =>
    simp only [here, written] at ids
    simp only [access, carries, written, Nat.not_lt_zero, if_false]
    exact ⟨ids slot below, ids⟩
  | storeRoundId j rid =>
    simp only [here, written, carries] at ids carried
    subst carried
    simp only [access, numbered.count_eq]
    by_cases last : count ≤ j
    · simp only [last, if_true, written, carries, Nat.not_lt.mpr last, false_and, if_false, true_and]
      intro i small
      rw [ids i small, if_pos (by omega)]
    · simp only [last, if_false, written, carries, Nat.lt_of_not_le last, true_and]
      intro i small
      rw [ids i small]
      split_ifs <;> first | rfl | omega
  | roundTriggerUnlock => exact absurd here held
  | _ =>
    rw [here] at inside
    exact inside.elim

theorem tick_inRound (q : Fin n) : ((w.tick round p us).procs q).pc.inRound ↔
    if q = p then ((w.procs p).pc = .roundTriggerCas ∧ w.shm.roundTriggerLock = false) ∨
      ((w.procs p).pc.inRound ∧ (w.procs p).pc ≠ .roundTriggerUnlock)
    else (w.procs q).pc.inRound := by
  split
  · rename_i same
    subst same
    rw [tick_pc_at, access_inRound]
  · rename_i other
    rw [tick_proc_other round w us other]

theorem tick_slots (numbered : Numbered count base w) (q : Fin n)
    (born : ((w.tick round p us).procs q).status ≠ .unborn) :
    ((w.tick round p us).procs q).slot < count := by
  rw [tick_status] at born
  rw [tick_slot]
  exact numbered.slots q born

theorem outside_numbered (numbered : Numbered count base w) (outside : ¬ (w.procs p).pc.inRound)
    (loses : (w.procs p).pc = .roundTriggerCas → w.shm.roundTriggerLock = true) :
    Numbered count base (w.tick round p us) := by
  have still : ¬ ((w.tick round p us).procs p).pc.inRound := by
    rw [tick_inRound, if_pos rfl]
    rintro (⟨cas, free⟩ | ⟨inside, _⟩)
    · rw [loses cas] at free
      cases free
    · exact outside inside
  apply frame_numbered numbered (tick_count round w p us) _ _ (tick_slots numbered)
  · intro q
    by_cases same : q = p
    · subst same
      exact .inr ⟨still, outside⟩
    · rw [tick_proc_other round w us same]
      exact .inl ⟨rfl, id⟩
  · rw [tick_lock_at]
    unfold lockAfter
    split
    · rename_i cas
      exact (loses cas).symm
    · rename_i unlock
      exact absurd (by rw [unlock]; trivial) outside
    · rfl
  · intro i
    rw [tick_roundId]
    split
    · rename_i store
      exact absurd (by rw [store]; trivial) outside
    · rfl

theorem win_numbered (numbered : Numbered count base w) (born : (w.procs p).status ≠ .unborn)
    (cas : (w.procs p).pc = .roundTriggerCas) (free : w.shm.roundTriggerLock = false) :
    Numbered count base (w.tick round p us) := by
  have nobody : ∀ q, ¬ (w.procs q).pc.inRound := by
    intro q inside
    rw [numbered.locked.mpr ⟨q, inside⟩] at free
    cases free
  have only : ∀ q, ((w.tick round p us).procs q).pc.inRound → q = p := by
    intro q inside
    rw [tick_inRound] at inside
    by_contra other
    rw [if_neg other] at inside
    exact nobody q inside
  have opened : ((w.tick round p us).procs p).pc = .reloadPolicy := by
    rw [tick_pc_at, cas]
    simp [access, free]
  have ids : ∀ i, roundIdAt (w.tick round p us) i = roundIdAt w i := by
    intro i
    rw [tick_roundId, cas]
  have taken : (w.tick round p us).shm.roundTriggerLock = true := by
    rw [tick_lock_at, cas]
    rfl
  constructor
  case count_eq => exact (tick_count round w p us).trans numbered.count_eq
  case slots => exact tick_slots numbered
  case born =>
    intro q inside
    rw [tick_status, only q inside]
    exact born
  case alone =>
    intro q r hq hr
    rw [only q hq, only r hr]
  case locked => exact iff_of_true taken ⟨p, by rw [opened]; trivial⟩
  case idle =>
    intro unlocked
    rw [taken] at unlocked
    cases unlocked
  case body =>
    intro q inside
    rw [only q inside, opened]
    refine ⟨trivial, ?_⟩
    intro i below
    rw [ids]
    exact numbered.idle free i below

theorem body_numbered (numbered : Numbered count base w) (inside : (w.procs p).pc.inRound)
    (held : (w.procs p).pc ≠ .roundTriggerUnlock) : Numbered count base (w.tick round p us) := by
  have only : ∀ q, ((w.tick round p us).procs q).pc.inRound ↔ q = p := by
    intro q
    rw [tick_inRound]
    split
    · rename_i same
      exact iff_of_true (.inr ⟨inside, held⟩) same
    · rename_i other
      exact iff_of_false (fun body => other (numbered.alone q p body inside)) other
  have taken : (w.tick round p us).shm.roundTriggerLock = true := by
    rw [tick_lock_at]
    have before := numbered.locked.mpr ⟨p, inside⟩
    unfold lockAfter
    split
    · rfl
    · rename_i unlock
      exact absurd unlock held
    · exact before
  constructor
  case count_eq => exact (tick_count round w p us).trans numbered.count_eq
  case slots => exact tick_slots numbered
  case born =>
    intro q body
    rw [tick_status, (only q).mp body]
    exact numbered.born p inside
  case alone =>
    intro q r hq hr
    rw [(only q).mp hq, (only r).mp hr]
  case locked => exact iff_of_true taken ⟨p, (only p).mpr rfl⟩
  case idle =>
    intro unlocked
    rw [taken] at unlocked
    cases unlocked
  case body =>
    intro q body
    rw [(only q).mp body]
    exact body_written numbered inside held

theorem unlock_numbered (numbered : Numbered count base w)
    (unlock : (w.procs p).pc = .roundTriggerUnlock) :
    Numbered count (base + 1) (w.tick round p us) := by
  have inside : (w.procs p).pc.inRound := by
    rw [unlock]
    trivial
  have nobody : ∀ q, ¬ ((w.tick round p us).procs q).pc.inRound := by
    intro q
    rw [tick_inRound]
    split
    · simp [unlock]
    · rename_i other
      exact fun body => other (numbered.alone q p body inside)
  have freed : (w.tick round p us).shm.roundTriggerLock = false := by
    rw [tick_lock_at, unlock]
    rfl
  constructor
  case count_eq => exact (tick_count round w p us).trans numbered.count_eq
  case slots => exact tick_slots numbered
  case born =>
    intro q body
    exact absurd body (nobody q)
  case alone =>
    intro q r body
    exact absurd body (nobody q)
  case locked =>
    rw [freed]
    exact iff_of_false nofun fun ⟨q, body⟩ => nobody q body
  case idle =>
    intro _ i below
    rw [tick_roundId, unlock, (numbered.body p inside).2 i below, unlock]
    rfl
  case body =>
    intro q body
    exact absurd body (nobody q)

theorem tick_numbered (numbered : Numbered count base w) (born : (w.procs p).status ≠ .unborn) :
    Numbered count (if (w.procs p).pc = .roundTriggerUnlock then base + 1 else base)
      (w.tick round p us) := by
  split
  · rename_i unlock
    exact unlock_numbered numbered unlock
  · rename_i held
    by_cases inside : (w.procs p).pc.inRound
    · exact body_numbered numbered inside held
    · by_cases wins : (w.procs p).pc = .roundTriggerCas ∧ w.shm.roundTriggerLock = false
      · exact win_numbered numbered born wins.1 wins.2
      · apply outside_numbered numbered inside
        intro cas
        by_contra free
        exact wins ⟨cas, by simpa using free⟩

end Body

section Steps
variable {round : ℚ → ℚ} {count : ℕ} {base : BitVec 32} {w t : World n}

theorem setProc_numbered {p : Fin n} {q : Process} (numbered : Numbered count base w)
    (slot : q.slot < count) (born : q.status ≠ .unborn)
    (pc : q.pc = (w.procs p).pc ∨ ¬ q.pc.inRound ∧ ¬ (w.procs p).pc.inRound) :
    Numbered count base (w.setProc p q) := by
  apply frame_numbered (t := w.setProc p q) numbered rfl rfl (fun _ => rfl)
  · exact World.setProc_all (fun _ r => r.status ≠ .unborn → r.slot < count) numbered.slots
      fun _ => slot
  · apply World.setProc_all (fun i r => r.pc = (w.procs i).pc ∧
        ((w.procs i).status ≠ .unborn → r.status ≠ .unborn) ∨
          ¬ r.pc.inRound ∧ ¬ (w.procs i).pc.inRound)
    · exact fun _ => .inl ⟨rfl, id⟩
    · exact pc.imp (fun same => ⟨same, fun _ => born⟩) id

theorem shm_numbered {m : Shm} (numbered : Numbered count base w)
    (count_eq : m.tenantCount = w.shm.tenantCount)
    (lock_eq : m.roundTriggerLock = w.shm.roundTriggerLock)
    (ids_eq : ∀ i, (m.tenants i).roundId = (w.shm.tenants i).roundId) :
    Numbered count base { w with shm := m } :=
  frame_numbered numbered count_eq lock_eq ids_eq numbered.slots fun _ => .inl ⟨rfl, id⟩

theorem setActive_numbered (numbered : Numbered count base w) (slot : ℕ) (on : Bool) :
    Numbered count base (w.setActive slot on) := by
  apply shm_numbered (m := (w.setActive slot on).shm) numbered rfl rfl
  intro i
  simp only [World.setActive, setTenant_at]
  split <;> rfl

theorem step_numbered {e : Event n} {rid : BitVec 32} {k : ℕ}
    (numbered : Numbered count (rid + BitVec.ofNat 32 k) w) (step : WorldStep round w e t) :
    Numbered count (rid + BitVec.ofNat 32 (completed w e k)) t := by
  cases e with
  | register p slot =>
    simp only [Fires, World.next, Option.ite_none_right_eq_some, Option.some.injEq] at step
    obtain ⟨⟨unborn, below, _⟩, rfl⟩ := step
    apply setProc_numbered (setActive_numbered numbered slot true)
    · rw [← numbered.count_eq]
      exact below
    · simp
    · exact .inr ⟨id, fun inside => numbered.born p inside unborn⟩
  | loadKillerPolicy p | recordVersion p =>
    simp only [Fires, World.next, Option.ite_none_right_eq_some, Option.some.injEq] at step
    obtain ⟨⟨live, _⟩, rfl⟩ := step
    have born : (w.procs p).status ≠ .unborn := by simp [live]
    exact setProc_numbered numbered (numbered.slots p born) born (.inl rfl)
  | launch p =>
    simp only [Fires, World.next, Option.ite_none_right_eq_some, Option.some.injEq] at step
    obtain ⟨⟨⟨mapped, _⟩, outside⟩, rfl⟩ := step
    have born := mapped_born mapped
    apply setProc_numbered numbered
    · exact numbered.slots p born
    · exact born
    · exact .inr ⟨id, by rw [outside]; exact id⟩
  | step p us =>
    obtain ⟨⟨mapped, _⟩, ⟨newer, rfl⟩ | ⟨_, rfl⟩⟩ := process_step_cases step
    · have born := mapped_born mapped
      have uncompleted : completed w (.step p us) k = k := by simp [completed, newer.1]
      rw [uncompleted]
      exact setProc_numbered numbered (numbered.slots p born) born (.inl rfl)
    · have moved : Numbered count _ (w.tick round p us) :=
        tick_numbered numbered (mapped_born mapped)
      simp only [completed]
      split at moved
      · rename_i unlock
        rw [if_pos unlock, BitVec.ofNat_add, ← BitVec.add_assoc]
        exact moved
      · rename_i held
        rw [if_neg held]
        exact moved
  | fini p =>
    simp only [Fires, World.next, Option.ite_none_right_eq_some, Option.some.injEq] at step
    obtain ⟨⟨live, _⟩, rfl⟩ := step
    apply setProc_numbered (setActive_numbered numbered _ false)
    · exact numbered.slots p (by rw [live]; simp)
    · simp
    · exact .inl rfl
  | unmap p =>
    simp only [Fires, World.next, Option.ite_none_right_eq_some, Option.some.injEq] at step
    obtain ⟨leaving, rfl⟩ := step
    apply setProc_numbered numbered
    · exact numbered.slots p (by rw [leaving]; simp)
    · simp
    · exact .inl rfl
  | setMode mode idx | setPolicy policy | publishKillers =>
    cases step
    exact shm_numbered numbered rfl rfl fun _ => rfl

end Steps

/-- Round bodies are serialised by the lock and each of them adds one to the number in every
    slot. -/
theorem rounds_serialised_numbered {round : ℚ → ℚ} {rid : BitVec 32} {w t : World n} {k : ℕ}
    {labels : List (Event n)} (ready : Ready rid w)
    (run : Run (Watched completed (WorldStep round)) (w, 0) labels (t, k)) :
    (∀ p q, (t.procs p).pc.inRound → (t.procs q).pc.inRound → p = q) ∧
      (t.shm.roundTriggerLock = true ↔ ∃ p, (t.procs p).pc.inRound) ∧
      (t.shm.roundTriggerLock = false →
        ∀ i < w.shm.tenantCount, roundIdAt t i = rid + BitVec.ofNat 32 k) := by
  have start : Numbered w.shm.tenantCount (rid + BitVec.ofNat 32 0) w := by
    simpa using ready_numbered ready
  have numbered : Numbered w.shm.tenantCount (rid + BitVec.ofNat 32 k) t := by
    apply run_invariant
      (fun x : World n × ℕ => Numbered w.shm.tenantCount (rid + BitVec.ofNat 32 x.2) x.1) _ run start
    rintro x e y numbered ⟨step, counted⟩
    rw [counted]
    exact step_numbered numbered step
  exact ⟨numbered.alone, numbered.locked, numbered.idle⟩

theorem emptyWorld_ready (n slots : ℕ) (remain : ℤ) : Ready 0 (emptyWorld n slots remain) :=
  ⟨fun _ born => absurd rfl born, fun _ => id, rfl, fun _ _ => rfl⟩

def twoBodies : List (Event 2) :=
  krakenInit 0 0 ++ krakenInit 1 1 ++ [.launch 0, .launch 1] ++ accesses 0 4 ++ accesses 1 9 ++
    accesses 0 25 ++ [.fini 0] ++ accesses 1 22

theorem two_bodies_numbered : ∃ t k,
    Run (Watched completed (WorldStep id)) (emptyWorld 2 2 0, 0) twoBodies (t, k) ∧
    k = 2 ∧ t.shm.roundTriggerLock = false ∧
    (∀ p q, (t.procs p).pc.inRound → (t.procs q).pc.inRound → p = q) ∧
    (t.shm.roundTriggerLock = true ↔ ∃ p, (t.procs p).pc.inRound) ∧
    (t.shm.roundTriggerLock = false → ∀ i < 2, roundIdAt t i = 0 + BitVec.ofNat 32 k) := by
  obtain ⟨⟨t, k⟩, run, reached⟩ := watched_run_reaches
    (fun y : World 2 × ℕ => decide (y.2 = 2 ∧ y.1.shm.roundTriggerLock = false))
    (show (exec (watching completed (World.next id)) (emptyWorld 2 2 0, 0) twoBodies).any _ = true by
      decide +kernel)
  obtain ⟨two, free⟩ := of_decide_eq_true reached
  exact ⟨t, k, run, two, free, rounds_serialised_numbered (emptyWorld_ready 2 2 0) run⟩

end Gate
