import KrakenRuntime.Shm.ShmClient
import KrakenRuntime.Lib.Threads

/- Which slots the processes of a group take when their registrations interleave. The slot
   search of kraken_shm_open takes no lock: a process takes a slot when it has read its own
   id there or has seen the slot free, and writes its id afterwards, byte by byte. -/
namespace ShmClient
open Runs

def Stage.idx : Stage → Option ℕ
  | .copy i _ | .readSm i | .putSm i | .putMem i | .readPhysical i | .putMps i _ | .addSm i
  | .addMem i | .publish i | .registered i => some i
  | .map | .readMagic | .compare .. | .loadActive _ | .readFirst _ | .refused => none

def Stage.copying : Stage → Bool
  | .copy .. => true
  | _ => false

/-- Byte `j` of the slot of a process, as far as the process has written it. -/
def Stage.written (text : List Char) (j : ℕ) : Stage → Char
  | .copy _ k => if j < k then charAt text j else nul
  | _ => charAt text j

/-- The slot that the next access makes the process take. -/
def takes (L : Layout) (e : Env) (seg : Segment) : Stage → Option ℕ
  | .compare i j =>
    if i < L.maxTenants ∧ (seg.slots i).tenantId j = charAt e.tenantId j ∧
      (seg.slots i).tenantId j = nul then some i else none
  | .readFirst i => if (seg.slots i).tenantId 0 = nul then some i else none
  | _ => none

section Access
variable {L : Layout} {e : Env} {seg seg' : Segment} {stage stage' : Stage}

theorem takes_idx {i : ℕ} (taken : takes L e seg stage = some i) : stage.idx = none := by
  cases stage <;> simp_all [takes, Stage.idx]

theorem takes_tick {i : ℕ} (taken : takes L e seg stage = some i) :
    tick L e seg stage = some (seg, .copy i 0) := by
  cases stage <;> simp only [takes, reduceCtorEq] at taken
  case compare k j =>
    split at taken
    · rename_i found
      cases taken
      have ended := found.2.1.symm.trans found.2.2
      simp [tick, found.1, found.2.2, ended]
    · cases taken
  case readFirst k =>
    split at taken
    · rename_i free
      cases taken
      simp [tick, free]
    · cases taken

/-- The accesses that touch neither the ids nor the choice of a slot. -/
structure Quiet (e : Env) (seg : Segment) (stage : Stage) (seg' : Segment) (stage' : Stage) :
    Prop where
  ids : ∀ k, (seg'.slots k).tenantId = (seg.slots k).tenantId
  idx : stage'.idx = stage.idx
  written : ∀ j, stage.idx ≠ none → stage'.written e.tenantId j = stage.written e.tenantId j
  compares : ∀ i j, stage' = .compare i j → j = 0 ∨ ∃ k, j = k + 1 ∧ stage = .compare i k ∧
    (seg.slots i).tenantId k = charAt e.tenantId k ∧ charAt e.tenantId k ≠ nul

theorem charAt_past {text : List Char} {j : ℕ} (past : text.length ≤ j) : charAt text j = nul :=
  List.getD_eq_default _ _ past

theorem tenantId_length (e : Env) : e.tenantId.length ≤ 15 := by
  simp [Env.tenantId]

theorem written_of_copied {text : List Char} {j : ℕ} (copied : stage.copying = false) :
    stage.written text j = charAt text j := by
  cases stage <;> simp_all [Stage.copying, Stage.written]

theorem copied_quiet {i j : ℕ} (past : ¬ j < L.idSize - 1) :
    Quiet e seg (.copy i j) seg (.readSm i) := by
  refine ⟨fun _ => rfl, rfl, ?_, nofun⟩
  intro k _
  have short := tenantId_length e
  have fits := L.holds
  simp only [Stage.written]
  split
  · rfl
  · rename_i behind
    exact charAt_past (by omega)

theorem quiet_of_copied (ids : ∀ k, (seg'.slots k).tenantId = (seg.slots k).tenantId)
    (idx : stage'.idx = stage.idx) (before : stage.copying = false) (after : stage'.copying = false)
    (start : ∀ i j, stage' = .compare i j → j = 0) : Quiet e seg stage seg' stage' := by
  refine ⟨ids, idx, ?_, fun i j here => .inl (start i j here)⟩
  intro j _
  rw [written_of_copied before, written_of_copied after]

theorem onSlot_ids (i : ℕ) {f : Slot → Slot} (keeps : ∀ slot, (f slot).tenantId = slot.tenantId)
    (k : ℕ) : ((seg.onSlot i f).slots k).tenantId = (seg.slots k).tenantId := by
  by_cases here : k = i
  · subst here
    rw [onSlot_self, keeps]
  · rw [onSlot_other _ _ _ here]

theorem compare_quiet {i j : ℕ} (ticked : tick L e seg (.compare i j) = some (seg', stage'))
    (stays : takes L e seg (.compare i j) = none) : Quiet e seg (.compare i j) seg' stage' := by
  simp only [tick] at ticked
  split at ticked
  · rename_i inside
    split at ticked
    · cases ticked
      refine quiet_of_copied (fun _ => rfl) rfl rfl rfl ?_
      intro _ _ here
      cases here
      rfl
    · rename_i same
      have equal := not_ne_iff.mp same
      split at ticked
      · rename_i ended
        simp [takes, inside, equal, equal ▸ ended] at stays
      · rename_i more
        cases ticked
        refine ⟨fun _ => rfl, rfl, ?_, ?_⟩
        · intro _ placed
          exact absurd rfl placed
        · intro _ _ here
          cases here
          exact .inr ⟨j, rfl, rfl, equal, equal ▸ more⟩
  · cases ticked
    exact quiet_of_copied (fun _ => rfl) rfl rfl rfl (by simp)

theorem other_quiet (ticked : tick L e seg stage = some (seg', stage'))
    (stays : takes L e seg stage = none) (copied : stage.copying = false) :
    Quiet e seg stage seg' stage' := by
  cases stage with
  | compare i j => exact compare_quiet ticked stays
  | copy i j => cases copied
  | map =>
    cases ticked
    split <;> exact quiet_of_copied (fun _ => rfl) rfl rfl rfl (by simp)
  | readMagic =>
    cases ticked
    split
    · refine quiet_of_copied (fun _ => rfl) rfl rfl rfl ?_
      intro _ _ here
      cases here
      rfl
    · exact quiet_of_copied (fun _ => rfl) rfl rfl rfl (by simp)
  | loadActive i =>
    simp only [tick] at ticked
    split at ticked
    · cases ticked
      split <;> exact quiet_of_copied (fun _ => rfl) rfl rfl rfl (by simp)
    · cases ticked
      exact quiet_of_copied (fun _ => rfl) rfl rfl rfl (by simp)
  | readFirst i =>
    simp only [takes, ite_eq_right_iff, reduceCtorEq, imp_false] at stays
    simp only [tick, stays, if_false, Option.some.injEq, Prod.mk.injEq] at ticked
    obtain ⟨rfl, rfl⟩ := ticked
    exact quiet_of_copied (fun _ => rfl) rfl rfl rfl (by simp)
  | readSm i =>
    cases ticked
    split <;> exact quiet_of_copied (fun _ => rfl) rfl rfl rfl (by simp)
  | readPhysical i =>
    cases ticked
    exact quiet_of_copied (fun _ => rfl) rfl rfl rfl (by simp)
  | publish i =>
    cases ticked
    exact quiet_of_copied (onSlot_ids i fun _ => rfl) rfl rfl rfl (by simp)
  | putSm i | putMem i | putMps i phys =>
    simp only [tick, Option.map_eq_some_iff, Prod.mk.injEq] at ticked
    obtain ⟨g, -, rfl, rfl⟩ := ticked
    exact quiet_of_copied (onSlot_ids i fun _ => rfl) rfl rfl rfl (by simp)
  | addSm i | addMem i =>
    simp only [tick, Option.map_eq_some_iff, Prod.mk.injEq] at ticked
    obtain ⟨g, -, rfl, rfl⟩ := ticked
    exact quiet_of_copied (fun _ => rfl) rfl rfl rfl (by simp)
  | registered i => cases ticked
  | refused => cases ticked

theorem tick_cases (ticked : tick L e seg stage = some (seg', stage')) :
    (∃ i, takes L e seg stage = some i ∧ seg' = seg ∧ stage' = .copy i 0) ∨
    (∃ i j, stage = .copy i j ∧ stage' = .copy i (j + 1) ∧
      seg' = seg.onSlot i fun slot => slot.putChar j (charAt e.tenantId j)) ∨
    (takes L e seg stage = none ∧ Quiet e seg stage seg' stage') := by
  cases taken : takes L e seg stage with
  | some i =>
    have moved := (takes_tick taken).symm.trans ticked
    simp only [Option.some.injEq, Prod.mk.injEq] at moved
    exact .inl ⟨i, rfl, moved.1.symm, moved.2.symm⟩
  | none =>
    right
    cases copying : stage.copying with
    | false => exact .inr ⟨rfl, other_quiet ticked taken copying⟩
    | true =>
      cases stage <;> simp only [Stage.copying, Bool.false_eq_true] at copying
      case copy i j =>
        simp only [tick] at ticked
        split at ticked
        · simp only [Option.some.injEq, Prod.mk.injEq] at ticked
          exact .inl ⟨i, j, rfl, ticked.2.symm, ticked.1.symm⟩
        · rename_i past
          cases ticked
          exact .inr ⟨rfl, copied_quiet past⟩

end Access

section Slots
variable {ι : Type} {L : Layout} {env : ι → Env} {s t : System ι}

/-- No two processes hold one slot, whether they have registered or still register. -/
def Apart (s : System ι) : Prop :=
  ∀ p q i, (s.stage p).idx = some i → (s.stage q).idx = some i → p = q

/-- Who takes a slot finds there only processes that have finished copying their ids, and
    these differ from its own in the 15 bytes that are kept. -/
def Clear (L : Layout) (env : ι → Env) (s : System ι) (p : ι) : Prop :=
  ∀ i, takes L (env p) s.seg (s.stage p) = some i → ∀ q, q ≠ p → (s.stage q).idx = some i →
    (s.stage q).copying = false ∧ (env q).tenantId ≠ (env p).tenantId

/-- The ids in the segment are those of the processes that hold the slots, and what a
    process has compared so far still stands there. -/
structure Laid (env : ι → Env) (s : System ι) : Prop where
  apart : Apart s
  vacant : ∀ i, (∀ p, (s.stage p).idx ≠ some i) → ∀ j, (s.seg.slots i).tenantId j = nul
  owned : ∀ p i, (s.stage p).idx = some i → ∀ j,
    (s.seg.slots i).tenantId j = (s.stage p).written (env p).tenantId j
  compared : ∀ p i j, s.stage p = .compare i j → ∀ k, k < j →
    (s.seg.slots i).tenantId k = charAt (env p).tenantId k ∧ charAt (env p).tenantId k ≠ nul

/-- An environment variable holds no NUL, and this one is not empty. -/
def Named (env : ι → Env) : Prop := ∀ p, (env p).tenant ≠ [] ∧ nul ∉ (env p).tenant

theorem named_clean (named : Named env) (p : ι) : nul ∉ (env p).tenantId :=
  fun member => (named p).2 (List.mem_of_mem_take member)

theorem named_first (named : Named env) (p : ι) : charAt (env p).tenantId 0 ≠ nul := by
  rw [charAt_ne_nul (named_clean named p)]
  have some_char := List.length_pos_iff.mpr (named p).1
  simp only [Env.tenantId, List.length_take]
  omega

theorem eq_of_charAt {first second : List Char} (clean : nul ∉ first) (clean' : nul ∉ second)
    {j : ℕ} (same : ∀ k, k < j → charAt first k = charAt second k ∧ charAt second k ≠ nul)
    (ends : charAt first j = nul) (ends' : charAt second j = nul) : first = second := by
  have long : ∀ k, k < j → k < first.length ∧ k < second.length := by
    intro k before
    obtain ⟨equal, more⟩ := same k before
    exact ⟨(charAt_ne_nul clean).mp (equal ▸ more), (charAt_ne_nul clean').mp more⟩
  have short : ¬ j < first.length := fun more => (charAt_ne_nul clean).mpr more ends
  have short' : ¬ j < second.length := fun more => (charAt_ne_nul clean').mpr more ends'
  have lengths : first.length = second.length := by
    by_contra differ
    rcases Nat.lt_or_gt_of_ne differ with less | less
    · have := (long first.length (by omega)).1
      omega
    · have := (long second.length (by omega)).2
      omega
  apply List.ext_getElem lengths
  intro k inside inside'
  have equal := (same k (by omega)).1
  rwa [charAt, charAt, List.getD_eq_getElem _ _ inside, List.getD_eq_getElem _ _ inside'] at equal

/-- Whoever held the slot would have been seen there. -/
theorem unheld_of_clear (named : Named env) (laid : Laid env s) {p : ι} (clear : Clear L env s p)
    {i : ℕ} (taken : takes L (env p) s.seg (s.stage p) = some i) (q : ι) :
    (s.stage q).idx ≠ some i := by
  intro held
  have other : q ≠ p := by
    rintro rfl
    simp [takes_idx taken] at held
  obtain ⟨copied, differ⟩ := clear i taken q other held
  have bytes : ∀ j, (s.seg.slots i).tenantId j = charAt (env q).tenantId j := by
    intro j
    rw [laid.owned q i held j, written_of_copied copied]
  cases stage : s.stage p <;> simp only [stage, takes, reduceCtorEq] at taken
  case compare k j =>
    split at taken
    · rename_i found
      cases taken
      apply differ
      apply eq_of_charAt (named_clean named q) (named_clean named p) (j := j)
      · intro k before
        have seen := laid.compared p i j stage k before
        exact ⟨(bytes k).symm.trans seen.1, seen.2⟩
      · exact (bytes j).symm.trans found.2.2
      · exact found.2.1.symm.trans found.2.2
    · cases taken
  case readFirst k =>
    split at taken
    · rename_i free
      cases taken
      exact named_first named q ((bytes 0).symm.trans free)
    · cases taken

variable [DecidableEq ι] {p : ι}

theorem next_cases (step : OpenStep L env s p t) : ∃ stage,
    tick L (env p) s.seg (s.stage p) = some (t.seg, stage) ∧
      t.stage = Function.update s.stage p stage := by
  simp only [Fires, next, Option.map_eq_some_iff, Prod.exists] at step
  obtain ⟨seg, stage, ticked, rfl⟩ := step
  exact ⟨stage, ticked, rfl⟩

theorem quiet_laid {stage : Stage} (laid : Laid env s)
    (quiet : Quiet (env p) s.seg (s.stage p) t.seg stage)
    (moved : t.stage = Function.update s.stage p stage) : Laid env t := by
  have idx : ∀ q, (t.stage q).idx = (s.stage q).idx := by
    intro q
    by_cases here : q = p
    · subst here
      rw [moved, Function.update_self, quiet.idx]
    · rw [moved, Function.update_of_ne here]
  refine ⟨?_, ?_, ?_, ?_⟩
  · intro q r i held held'
    exact laid.apart q r i (idx q ▸ held) (idx r ▸ held')
  · intro i vacant j
    rw [quiet.ids i]
    exact laid.vacant i (fun q => idx q ▸ vacant q) j
  · intro q i held j
    rw [idx q] at held
    rw [quiet.ids i, laid.owned q i held j]
    by_cases here : q = p
    · subst here
      rw [moved, Function.update_self, quiet.written j (by simp [held])]
    · rw [moved, Function.update_of_ne here]
  · intro q i j comparing k before
    rw [quiet.ids i]
    by_cases here : q = p
    · subst here
      rw [moved, Function.update_self] at comparing
      rcases quiet.compares i j comparing with rfl | ⟨last, rfl, at_last, same, more⟩
      · omega
      · rcases Nat.lt_succ_iff_lt_or_eq.mp before with earlier | rfl
        · exact laid.compared q i last at_last k earlier
        · exact ⟨same, more⟩
    · rw [moved, Function.update_of_ne here] at comparing
      exact laid.compared q i j comparing k before

theorem taken_laid (laid : Laid env s) (seeking : (s.stage p).idx = none) {i : ℕ}
    (unheld : ∀ q, (s.stage q).idx ≠ some i) (kept : t.seg = s.seg)
    (moved : t.stage = Function.update s.stage p (.copy i 0)) : Laid env t := by
  have holder : ∀ q k, q ≠ p → (t.stage q).idx = some k → (s.stage q).idx = some k := by
    intro q k other held
    rwa [moved, Function.update_of_ne other] at held
  have mine : (t.stage p).idx = some i := by rw [moved, Function.update_self]; rfl
  refine ⟨?_, ?_, ?_, ?_⟩
  · intro q r k held held'
    by_cases here : q = p <;> by_cases here' : r = p
    · rw [here, here']
    · subst here
      rw [mine, Option.some.injEq] at held
      exact absurd (holder r k here' held') (held ▸ unheld r)
    · subst here'
      rw [mine, Option.some.injEq] at held'
      exact absurd (holder q k here held) (held' ▸ unheld q)
    · exact laid.apart q r k (holder q k here held) (holder r k here' held')
  · intro k vacant j
    rw [kept]
    apply laid.vacant k
    intro q held
    by_cases here : q = p
    · subst here
      simp [seeking] at held
    · exact vacant q (by rwa [moved, Function.update_of_ne here])
  · intro q k held j
    rw [kept]
    by_cases here : q = p
    · subst here
      rw [mine, Option.some.injEq] at held
      subst held
      rw [moved, Function.update_self]
      simpa [Stage.written] using laid.vacant i unheld j
    · rw [moved, Function.update_of_ne here] at held ⊢
      exact laid.owned q k held j
  · intro q k j comparing
    rw [kept]
    by_cases here : q = p
    · subst here
      rw [moved, Function.update_self] at comparing
      cases comparing
    · rw [moved, Function.update_of_ne here] at comparing
      exact laid.compared q k j comparing

theorem copied_laid (laid : Laid env s) {i j : ℕ} (at_byte : s.stage p = .copy i j)
    (put : t.seg = s.seg.onSlot i fun slot => slot.putChar j (charAt (env p).tenantId j))
    (moved : t.stage = Function.update s.stage p (.copy i (j + 1))) : Laid env t := by
  have mine : (s.stage p).idx = some i := by rw [at_byte]; rfl
  have idx : ∀ q, (t.stage q).idx = (s.stage q).idx := by
    intro q
    by_cases here : q = p
    · subst here
      rw [moved, Function.update_self, at_byte]
      rfl
    · rw [moved, Function.update_of_ne here]
  have elsewhere : ∀ k, k ≠ i → t.seg.slots k = s.seg.slots k := by
    intro k other
    rw [put, onSlot_other _ _ _ other]
  have bytes : ∀ k, k ≠ j → (t.seg.slots i).tenantId k = (s.seg.slots i).tenantId k := by
    intro k other
    rw [put, onSlot_self]
    exact Function.update_of_ne other ..
  have byte : (t.seg.slots i).tenantId j = charAt (env p).tenantId j := by
    rw [put, onSlot_self]
    exact Function.update_self ..
  have owned := laid.owned p i mine
  simp only [at_byte, Stage.written] at owned
  refine ⟨?_, ?_, ?_, ?_⟩
  · intro q r k held held'
    exact laid.apart q r k (idx q ▸ held) (idx r ▸ held')
  · intro k vacant m
    have other : k ≠ i := by
      rintro rfl
      exact vacant p ((idx p).trans mine)
    rw [elsewhere k other]
    exact laid.vacant k (fun q => idx q ▸ vacant q) m
  · intro q k held m
    rw [idx q] at held
    by_cases here : q = p
    · subst here
      cases mine.symm.trans held
      rw [moved, Function.update_self]
      simp only [Stage.written]
      by_cases last : m = j
      · rw [last, byte, if_pos (Nat.lt_succ_self j)]
      · have same : m < j ↔ m < j + 1 := by omega
        rw [bytes m last, owned m]
        exact if_congr same rfl rfl
    · have other : k ≠ i := by
        rintro rfl
        exact here (laid.apart q p k held mine)
      rw [elsewhere k other, moved, Function.update_of_ne here]
      exact laid.owned q k held m
  · intro q k m comparing n before
    have comparing' : s.stage q = .compare k m := by
      by_cases here : q = p
      · subst here
        rw [moved, Function.update_self] at comparing
        cases comparing
      · rwa [moved, Function.update_of_ne here] at comparing
    have seen := laid.compared q k m comparing' n before
    by_cases here : k = i
    · subst here
      -- the byte that is written now was empty, so nobody has compared it
      have other : n ≠ j := by
        rintro rfl
        have empty := owned n
        rw [if_neg (Nat.lt_irrefl n)] at empty
        exact seen.2 (seen.1.symm.trans empty)
      rw [bytes n other]
      exact seen
    · rw [elsewhere k here]
      exact seen

theorem step_laid (named : Named env) (laid : Laid env s) (step : OpenStep L env s p t)
    (clear : Clear L env s p) : Laid env t := by
  obtain ⟨stage, ticked, moved⟩ := next_cases step
  rcases tick_cases ticked with ⟨i, taken, kept, rfl⟩ | ⟨i, j, at_byte, rfl, put⟩ | ⟨-, quiet⟩
  · exact taken_laid laid (takes_idx taken) (unheld_of_clear named laid clear taken) kept moved
  · exact copied_laid laid at_byte put moved
  · exact quiet_laid laid quiet moved

theorem step_apart_iff (named : Named env) (laid : Laid env s) (step : OpenStep L env s p t) :
    Clear L env s p ↔ Apart t := by
  constructor
  · intro clear
    exact (step_laid named laid step clear).apart
  · intro apart i taken q other held
    obtain ⟨stage, ticked, moved⟩ := next_cases step
    have copy := (takes_tick taken).symm.trans ticked
    simp only [Option.some.injEq, Prod.mk.injEq] at copy
    have mine : (t.stage p).idx = some i := by
      rw [moved, Function.update_self, ← copy.2]
      rfl
    have theirs : (t.stage q).idx = some i := by rwa [moved, Function.update_of_ne other]
    exact absurd (apart q p i theirs mine) other

def created (L : Layout) (phys : ℤ) : System ι :=
  { seg := { magic := L.shmMagic, physicalSmTotal := phys }, stage := fun _ => .map }

omit [DecidableEq ι] in
theorem created_laid (phys : ℤ) : Laid env (created L phys : System ι) :=
  ⟨nofun, fun _ _ _ => rfl, nofun, nofun⟩

/-- In a run of interleaved registrations no two processes come to hold one slot exactly when
    the run is clear at every step; the registered ones are then apart as well. -/
theorem tenants_apart_iff (phys : ℤ) (named : Named env) {labels : List ι}
    (run : Run (OpenStep L env) (created L phys) labels t) :
    (Run (Guarded (Clear L env) (OpenStep L env)) (created L phys) labels t ↔
      ∀ xs ys u, labels = xs ++ ys → Run (OpenStep L env) (created L phys) xs u → Apart u) ∧
    (Run (Guarded (Clear L env) (OpenStep L env)) (created L phys) labels t →
      ∀ p q i, t.stage p = .registered i → t.stage q = .registered i → p = q) := by
  have start : Laid env (created L phys) := created_laid phys
  have clear_iff := run_guarded_shown_iff (fires_deterministic _)
    (fun _ _ _ (_ : True) _ => trivial)
    (fun _ _ _ _ laid step clear => step_laid named laid step clear)
    (fun _ _ _ _ laid step => step_apart_iff named laid step) run trivial start start.apart
  refine ⟨clear_iff, ?_⟩
  intro guarded p q i mine theirs
  apply clear_iff.mp guarded labels [] t (List.append_nil labels).symm run p q i
  · rw [mine]
    rfl
  · rw [theirs]
    rfl

/-- Registrations one after the other: who makes an access finds every other process not
    started yet, registered or refused. -/
def OneByOne (s : System ι) (p : ι) : Prop :=
  ∀ q, q ≠ p → s.stage q = .map ∨ s.stage q = .refused ∨ ∃ i, s.stage q = .registered i

omit [DecidableEq ι] in
theorem clear_of_oneByOne (distinct : ∀ p q, p ≠ q → (env p).tenantId ≠ (env q).tenantId)
    (alone : OneByOne s p) : Clear L env s p := by
  intro i _ q other held
  refine ⟨?_, distinct q p other⟩
  rcases alone q other with unstarted | refused | ⟨k, registered⟩
  · rw [unstarted] at held
    cases held
  · rw [refused] at held
    cases held
  · rw [registered]
    rfl

/-- Tenants whose ids differ in the 15 bytes that are kept, registered one after the other,
    have a slot each. -/
theorem apart_one_by_one (phys : ℤ) (named : Named env)
    (distinct : ∀ p q, p ≠ q → (env p).tenantId ≠ (env q).tenantId) {labels : List ι}
    (run : Run (Guarded OneByOne (OpenStep L env)) (created L phys) labels t) :
    ∀ p q i, t.stage p = .registered i → t.stage q = .registered i → p = q := by
  have laid : Laid env t := run_invariant (Laid env)
    (fun _ _ _ laid step => step_laid named laid step.2 (clear_of_oneByOne distinct step.1))
    run (created_laid phys)
  intro p q i mine theirs
  apply laid.apart p q i
  · rw [mine]
    rfl
  · rw [theirs]
    rfl

end Slots

def alike (p : Fin 2) : Env := { tenant := if p = 0 then ['a', 'b'] else ['a', 'b', 'c'] }

theorem alike_named : Named alike := by
  unfold Named
  decide

instance (L : Layout) (env : Fin 2 → Env) (s : System (Fin 2)) (p : Fin 2) :
    Decidable (Clear L env s p) :=
  decidable_of_iff (∀ i ∈ takes L (env p) s.seg (s.stage p), ∀ q, q ≠ p →
    (s.stage q).idx = some i → (s.stage q).copying = false ∧ (env q).tenantId ≠ (env p).tenantId)
    Iff.rfl

def inTurn : List (Fin 2) := List.replicate 25 0 ++ List.replicate 28 1

theorem in_turn_apart : ∃ t, Run (OpenStep twoSlots alike) (created twoSlots 100) inTurn t ∧
    t.stage 0 = .registered 0 ∧ t.stage 1 = .registered 1 ∧
    ∀ p q i, t.stage p = .registered i → t.stage q = .registered i → p = q := by
  obtain ⟨t, guarded, reached⟩ := guarded_run_reaches (Clear twoSlots alike)
    (fun t : System (Fin 2) => decide (t.stage 0 = .registered 0 ∧ t.stage 1 = .registered 1))
    (show (exec (guarding (Clear twoSlots alike) (next twoSlots alike)) (created twoSlots 100)
      inTurn).any _ = true by decide +kernel)
  have run := run_mono (fun _ _ _ step => step.2) guarded
  obtain ⟨first, second⟩ := of_decide_eq_true reached
  exact ⟨t, run, first, second, (tenants_apart_iff 100 alike_named run).2 guarded⟩

/-- Both see the first slot free before either has written its id. -/
def together : List (Fin 2) :=
  List.replicate 7 0 ++ List.replicate 7 1 ++ List.replicate 18 0 ++ List.replicate 18 1

theorem free_slot_taken_twice : Named alike ∧ (alike 0).tenant ≠ (alike 1).tenant ∧
    ∃ t, Run (OpenStep twoSlots alike) (created twoSlots 100) together t ∧
      t.stage 0 = .registered 0 ∧ t.stage 1 = .registered 0 := by
  refine ⟨alike_named, by decide, ?_⟩
  obtain ⟨t, run, reached⟩ := run_reaches
    (fun t : System (Fin 2) => decide (t.stage 0 = .registered 0 ∧ t.stage 1 = .registered 0))
    (show (exec (next twoSlots alike) (created twoSlots 100) together).any _ = true by
      decide +kernel)
  exact ⟨t, run, of_decide_eq_true reached⟩

end ShmClient
