import KrakenRuntime.Shm.ShmClient
import KrakenRuntime.Lib.Threads

/- The totals of virtual SMs and memory over the whole life of a group: processes register,
   exit and register again, one call after the other, and the controller writes nothing. The
   comment in virtual_sm.cpp says that virtual_sm_total is the sum over the active tenants. -/
namespace OvercommitTotals
open ShmClient Runs Int32Word

/-- A process with positive KRAKEN_VIRTUAL_SM and KRAKEN_VIRTUAL_MEM_MB. -/
structure Request where
  env : Env
  vsm : ℤ
  vmem : ℤ
  granted : env.grant = some (vsm, vmem)

/-- `held` is g_kraken.tenant_idx of the processes that are attached. -/
structure Group (ι : Type) where
  seg : Segment
  held : ι → Option ℕ

inductive Action (ι : Type) where
  | register (p : ι) (r : Request)
  | exit (p : ι)

section Steps
variable {ι : Type} [DecidableEq ι]

def next (L : Layout) (s : Group ι) : Action ι → Option (Group ι)
  | .register p r =>
    match s.held p, krakenShmOpen L r.env s.seg with
    | some _, _ => none
    | none, (seg, idx) => some { seg, held := Function.update s.held p idx }
  | .exit p =>
    match s.held p with
    | some i => some { seg := krakenFini s.seg i, held := Function.update s.held p none }
    | none => some s

abbrev GroupStep (L : Layout) : Group ι → Action ι → Group ι → Prop := Fires (next L)

end Steps

def activeSum (L : Layout) (value : Slot → ℤ) (seg : Segment) : ℤ :=
  Threads.total (fun slot => if slot.active then value slot else 0)
    fun i : Fin L.maxTenants => seg.slots i

structure TotalsMatch (L : Layout) (seg : Segment) : Prop where
  sm : seg.virtualSmTotal = activeSum L Slot.virtualSm seg
  mem : seg.virtualMemTotalMb = activeSum L Slot.virtualMemMb seg
  overcommit : resourceIsOvercommit seg = true ↔
    activeSum L Slot.virtualSm seg > seg.physicalSmTotal

structure Changed (i : ℕ) (before after : Segment) (sm mem : ℤ) (active : Bool) : Prop where
  others : ∀ k, k ≠ i → after.slots k = before.slots k
  sm : (after.slots i).virtualSm = sm
  mem : (after.slots i).virtualMemMb = mem
  active : (after.slots i).active = active

section Sums
variable {L : Layout} {seg after : Segment} {i : ℕ}

theorem activeSum_change (value : Slot → ℤ) (inside : i < L.maxTenants)
    (others : ∀ k, k ≠ i → after.slots k = seg.slots k) :
    activeSum L value after + (if (seg.slots i).active then value (seg.slots i) else 0) =
      activeSum L value seg + if (after.slots i).active then value (after.slots i) else 0 := by
  have moved : (fun k : Fin L.maxTenants => after.slots k) =
      Function.update (fun k : Fin L.maxTenants => seg.slots k) ⟨i, inside⟩ (after.slots i) := by
    funext k
    by_cases here : k = ⟨i, inside⟩
    · subst here
      simp
    · have other : k.val ≠ i := fun same => here (Fin.ext same)
      rw [others k other, Function.update_of_ne here]
  unfold activeSum
  rw [moved]
  exact Threads.total_update _ _ _ _

theorem activeSum_nonneg {value : Slot → ℤ} (nonneg : ∀ i, 0 ≤ value (seg.slots i)) :
    0 ≤ activeSum L value seg := by
  unfold activeSum Threads.total
  apply Finset.sum_nonneg
  intro i _
  simp only
  split
  · exact nonneg i
  · exact le_refl 0

theorem changed_sums {sm mem : ℤ} {active : Bool} (inside : i < L.maxTenants)
    (changed : Changed i seg after sm mem active) :
    activeSum L Slot.virtualSm after +
        (if (seg.slots i).active then (seg.slots i).virtualSm else 0) =
      activeSum L Slot.virtualSm seg + (if active then sm else 0) ∧
    activeSum L Slot.virtualMemMb after +
        (if (seg.slots i).active then (seg.slots i).virtualMemMb else 0) =
      activeSum L Slot.virtualMemMb seg + if active then mem else 0 := by
  have sums := activeSum_change Slot.virtualSm inside changed.others
  have mems := activeSum_change Slot.virtualMemMb inside changed.others
  rw [changed.active] at sums mems
  rw [changed.sm] at sums
  rw [changed.mem] at mems
  exact ⟨sums, mems⟩

theorem totals_match_iff : TotalsMatch L seg ↔
    seg.virtualSmTotal = activeSum L Slot.virtualSm seg ∧
      seg.virtualMemTotalMb = activeSum L Slot.virtualMemMb seg := by
  constructor
  · rintro ⟨sm, mem, -⟩
    exact ⟨sm, mem⟩
  · rintro ⟨sm, mem⟩
    refine ⟨sm, mem, ?_⟩
    rw [resourceIsOvercommit, decide_eq_true_iff, sm]

end Sums

section Calls
variable {L : Layout} {e : Env} {seg : Segment} {i : ℕ} {vsm vmem : ℤ}

theorem grant_positive (granted : e.grant = some (vsm, vmem)) : 0 < vsm ∧ 0 < vmem := by
  unfold Env.grant at granted
  split at granted
  · split at granted
    · rename_i positive
      simp only [Option.some.injEq, Prod.mk.injEq] at granted
      rw [← granted.1, ← granted.2]
      exact positive
    · cases granted
  · cases granted

theorem search_lt {search : ℕ → ℕ → Option ℕ} {hit : ℕ → Bool} (stops : ∀ k, search k 0 = none)
    (goes_on : ∀ k left, search k (left + 1) = if hit k then some k else search (k + 1) left)
    {left k : ℕ} (found : search k left = some i) : i < k + left := by
  induction left generalizing k with
  | zero =>
    rw [stops] at found
    cases found
  | succ left ih =>
    rw [goes_on] at found
    split at found
    · cases found
      omega
    · have later := ih found
      omega

theorem searchSlot_lt (found : searchSlot L e seg = some i) : i < L.maxTenants := by
  unfold searchSlot at found
  split at found
  · rename_i by_id
    cases found
    have inside := search_lt (fun _ => rfl) (fun _ _ => rfl) by_id
    omega
  · have inside := search_lt (fun _ => rfl) (fun _ _ => rfl) found
    omega

def taken (L : Layout) (e : Env) (seg : Segment) (i : ℕ) : Segment :=
  setActive true (fillSlot e (recordId L e seg i) i) i

theorem taken_fills (granted : e.grant = some (vsm, vmem)) (empty : (seg.slots i).virtualSm = 0) :
    Changed i seg (taken L e seg i) vsm vmem true ∧
      (taken L e seg i).virtualSmTotal = int32 (seg.virtualSmTotal + vsm) ∧
      (taken L e seg i).virtualMemTotalMb = int32 (seg.virtualMemTotalMb + vmem) := by
  refine ⟨⟨?_, ?_, ?_, ?_⟩, ?_, ?_⟩
  · intro k other
    simp [taken, setActive, fillSlot, recordId, granted, empty, Segment.onSlot,
      Segment.addTotals, other]
  all_goals
    simp [taken, setActive, fillSlot, recordId, granted, empty, Segment.onSlot, Segment.addTotals]

theorem taken_rejoins (filled : (seg.slots i).virtualSm ≠ 0) :
    Changed i seg (taken L e seg i) (seg.slots i).virtualSm (seg.slots i).virtualMemMb true ∧
      (taken L e seg i).virtualSmTotal = seg.virtualSmTotal ∧
      (taken L e seg i).virtualMemTotalMb = seg.virtualMemTotalMb := by
  refine ⟨⟨?_, ?_, ?_, ?_⟩, ?_, ?_⟩
  · intro k other
    simp [taken, setActive, fillSlot, recordId, filled, Segment.onSlot, other]
  all_goals simp [taken, setActive, fillSlot, recordId, filled, Segment.onSlot]

theorem fini_changed : Changed i seg (krakenFini seg i) (seg.slots i).virtualSm
    (seg.slots i).virtualMemMb false := by
  refine ⟨?_, ?_, ?_, ?_⟩
  · intro k other
    simp [krakenFini, setActive, onSlot_other _ _ _ other]
  all_goals simp [krakenFini, setActive]

end Calls

section Invariant
variable {ι : Type} {L : Layout} {s t : Group ι}

def chosen (L : Layout) (r : Request) (seg : Segment) : Option ℕ :=
  if r.env.mapped && decide (seg.magic = L.shmMagic) then searchSlot L r.env seg else none

theorem chosen_lt {r : Request} {seg : Segment} {i : ℕ} (found : chosen L r seg = some i) :
    i < L.maxTenants := by
  unfold chosen at found
  split at found
  · exact searchSlot_lt found
  · cases found

theorem open_chosen (r : Request) (seg : Segment) : krakenShmOpen L r.env seg =
    match chosen L r seg with
    | some i => (taken L r.env seg i, some i)
    | none => (seg, none) := by
  unfold krakenShmOpen chosen
  split <;> rfl

/-- A slot is as the controller made it, or has been filled by a registration. -/
def Filled (slot : Slot) : Prop := 0 < slot.virtualSm ∧ 0 < slot.virtualMemMb

def Unused (slot : Slot) : Prop :=
  slot.virtualSm = 0 ∧ slot.virtualMemMb = 0 ∧ slot.active = false

structure Steady (L : Layout) (s : Group ι) : Prop where
  slots : ∀ i, Unused (s.seg.slots i) ∨ Filled (s.seg.slots i)
  held : ∀ p i, s.held p = some i → i < L.maxTenants ∧ Filled (s.seg.slots i)

/-- No attached process exits, and what a first registration adds leaves the totals inside
    an int32. -/
def Fits (L : Layout) (s : Group ι) : Action ι → Prop
  | .register _ r => ∀ i, chosen L r s.seg = some i → (s.seg.slots i).virtualSm = 0 →
    s.seg.virtualSmTotal + r.vsm < 2 ^ 31 ∧ s.seg.virtualMemTotalMb + r.vmem < 2 ^ 31
  | .exit p => s.held p = none

/-- The totals match, and every slot that was ever filled is active. -/
structure Joined (L : Layout) (s : Group ι) : Prop where
  totals : TotalsMatch L s.seg
  active : ∀ i, Filled (s.seg.slots i) → (s.seg.slots i).active = true

theorem taken_filled {r : Request} {seg : Segment} {i : ℕ}
    (before : Unused (seg.slots i) ∨ Filled (seg.slots i)) : ∃ sm mem,
    Changed i seg (taken L r.env seg i) sm mem true ∧ 0 < sm ∧ 0 < mem := by
  rcases before with unused | filled
  · exact ⟨_, _, (taken_fills r.granted unused.1).1, grant_positive r.granted⟩
  · exact ⟨_, _, (taken_rejoins (ne_of_gt filled.1)).1, filled⟩

theorem changed_filled {i : ℕ} {before after : Segment} {sm mem : ℤ} {active : Bool}
    (changed : Changed i before after sm mem active) (positive : 0 < sm ∧ 0 < mem) :
    Filled (after.slots i) := by
  rw [Filled, changed.sm, changed.mem]
  exact positive

theorem changed_steady {i : ℕ} {sm mem : ℤ} {active : Bool} (steady : Steady L s)
    (changed : Changed i s.seg t.seg sm mem active) (positive : 0 < sm ∧ 0 < mem)
    (held : ∀ p k, t.held p = some k → s.held p = some k ∨ k = i) (inside : i < L.maxTenants) :
    Steady L t := by
  have here := changed_filled changed positive
  refine ⟨?_, ?_⟩
  · intro k
    by_cases same : k = i
    · exact .inr (same ▸ here)
    · rw [changed.others k same]
      exact steady.slots k
  · intro p k holds
    by_cases same : k = i
    · exact same ▸ ⟨inside, here⟩
    · rw [changed.others k same]
      exact steady.held p k ((held p k holds).resolve_right same)

theorem fills_match_iff {r : Request} {i : ℕ} (steady : Steady L s) (joined : Joined L s)
    (inside : i < L.maxTenants) (unused : Unused (s.seg.slots i)) :
    TotalsMatch L (taken L r.env s.seg i) ↔
      s.seg.virtualSmTotal + r.vsm < 2 ^ 31 ∧ s.seg.virtualMemTotalMb + r.vmem < 2 ^ 31 := by
  obtain ⟨sm, mem⟩ := totals_match_iff.mp joined.totals
  have values : ∀ k, 0 ≤ (s.seg.slots k).virtualSm ∧ 0 ≤ (s.seg.slots k).virtualMemMb := by
    intro k
    rcases steady.slots k with ⟨sm, mem, -⟩ | ⟨sm, mem⟩ <;> omega
  have nonneg : 0 ≤ activeSum L Slot.virtualSm s.seg :=
    activeSum_nonneg fun k => (values k).1
  have nonneg' : 0 ≤ activeSum L Slot.virtualMemMb s.seg :=
    activeSum_nonneg fun k => (values k).2
  have positive := grant_positive r.granted
  obtain ⟨changed, sm', mem'⟩ := taken_fills (L := L) r.granted unused.1
  have sums := changed_sums inside changed
  simp only [unused.2.2, Bool.false_eq_true, if_false, add_zero, if_true] at sums
  rw [totals_match_iff, sm', mem', sums.1, sums.2, ← sm, ← mem, int32_eq_iff (by omega),
    int32_eq_iff (by omega)]

theorem rejoins_match {r : Request} {i : ℕ} (joined : Joined L s) (inside : i < L.maxTenants)
    (filled : Filled (s.seg.slots i)) : TotalsMatch L (taken L r.env s.seg i) := by
  obtain ⟨changed, sm', mem'⟩ := taken_rejoins (L := L) (e := r.env) (ne_of_gt filled.1)
  obtain ⟨sm, mem⟩ := totals_match_iff.mp joined.totals
  have sums := changed_sums inside changed
  simp only [joined.active i filled, if_true, add_left_inj] at sums
  rw [totals_match_iff, sm', mem', sums.1, sums.2]
  exact ⟨sm, mem⟩

theorem fini_unmatched {i : ℕ} (joined : Joined L s) (inside : i < L.maxTenants)
    (filled : Filled (s.seg.slots i)) : ¬ TotalsMatch L (krakenFini s.seg i) := by
  intro totals
  have before := (totals_match_iff.mp joined.totals).1
  have after := (totals_match_iff.mp totals).1
  have same : (krakenFini s.seg i).virtualSmTotal = s.seg.virtualSmTotal := rfl
  have changed : Changed i s.seg (krakenFini s.seg i) _ _ false := fini_changed
  have sums := (changed_sums inside changed).1
  simp only [joined.active i filled, if_true, Bool.false_eq_true, if_false, add_zero] at sums
  have positive := filled.1
  omega

end Invariant

section Runs
variable {ι : Type} [DecidableEq ι] {L : Layout} {s t : Group ι} {a : Action ι}

theorem next_cases (step : GroupStep L s a t) :
    (∃ p r, a = .register p r ∧ chosen L r s.seg = none ∧ t = s) ∨
    (∃ p r i, a = .register p r ∧ chosen L r s.seg = some i ∧ t.seg = taken L r.env s.seg i ∧
      t.held = Function.update s.held p (some i)) ∨
    (∃ p, a = .exit p ∧ s.held p = none ∧ t = s) ∨
    (∃ p i, a = .exit p ∧ s.held p = some i ∧ t.seg = krakenFini s.seg i ∧
      t.held = Function.update s.held p none) := by
  cases a with
  | register p r =>
    cases held : s.held p with
    | some i => simp [Fires, next, held] at step
    | none =>
      simp only [Fires, next, held, open_chosen] at step
      cases found : chosen L r s.seg with
      | some i =>
        simp only [found, Option.some.injEq] at step
        subst step
        exact .inr (.inl ⟨p, r, i, rfl, found, rfl, rfl⟩)
      | none =>
        simp only [found, Option.some.injEq] at step
        have same : Function.update s.held p none = s.held := by
          rw [← held, Function.update_eq_self]
        rw [same] at step
        exact .inl ⟨p, r, rfl, found, step.symm⟩
  | exit p =>
    right; right
    cases held : s.held p with
    | none =>
      simp only [Fires, next, held, Option.some.injEq] at step
      exact .inl ⟨p, rfl, held, step.symm⟩
    | some i =>
      simp only [Fires, next, held, Option.some.injEq] at step
      subst step
      exact .inr ⟨p, i, rfl, held, rfl, rfl⟩

theorem step_steady (steady : Steady L s) (step : GroupStep L s a t) : Steady L t := by
  rcases next_cases step with ⟨p, r, -, -, rfl⟩ | ⟨p, r, i, -, found, seg, held⟩ | ⟨p, -, -, rfl⟩ |
    ⟨p, i, -, here, seg, held⟩
  · exact steady
  · obtain ⟨sm, mem, changed, positive⟩ := taken_filled (L := L) (r := r) (steady.slots i)
    rw [← seg] at changed
    apply changed_steady steady changed positive _ (chosen_lt found)
    intro q k holds
    rw [held] at holds
    by_cases mine : q = p
    · subst mine
      rw [Function.update_self, Option.some.injEq] at holds
      exact .inr holds.symm
    · rw [Function.update_of_ne mine] at holds
      exact .inl holds
  · exact steady
  · obtain ⟨inside, filled⟩ := steady.held p i here
    have changed : Changed i s.seg (krakenFini s.seg i) _ _ false := fini_changed
    rw [← seg] at changed
    apply changed_steady steady changed filled _ inside
    intro q k holds
    rw [held] at holds
    have other : q ≠ p := by
      rintro rfl
      simp at holds
    rw [Function.update_of_ne other] at holds
    exact .inl holds

theorem step_match_iff (steady : Steady L s) (joined : Joined L s) (step : GroupStep L s a t) :
    Fits L s a ↔ TotalsMatch L t.seg := by
  rcases next_cases step with ⟨p, r, rfl, found, rfl⟩ | ⟨p, r, i, rfl, found, seg, -⟩ |
    ⟨p, rfl, here, rfl⟩ | ⟨p, i, rfl, here, seg, -⟩
  · exact iff_of_true (by simp [Fits, found]) joined.totals
  · rw [seg]
    simp only [Fits, found, Option.some.injEq, forall_eq']
    rcases steady.slots i with unused | filled
    · rw [fills_match_iff steady joined (chosen_lt found) unused]
      simp [unused.1]
    · have full := ne_of_gt filled.1
      exact iff_of_true (fun empty => absurd empty full) (rejoins_match joined (chosen_lt found) filled)
  · exact iff_of_true here joined.totals
  · obtain ⟨inside, filled⟩ := steady.held p i here
    rw [seg]
    exact iff_of_false (by simp [Fits, here]) (fini_unmatched joined inside filled)

theorem step_joined (steady : Steady L s) (joined : Joined L s) (step : GroupStep L s a t)
    (fits : Fits L s a) : Joined L t := by
  refine ⟨(step_match_iff steady joined step).mp fits, ?_⟩
  rcases next_cases step with ⟨p, r, -, -, rfl⟩ | ⟨p, r, i, -, found, seg, -⟩ | ⟨p, -, -, rfl⟩ |
    ⟨p, i, rfl, here, -, -⟩
  · exact joined.active
  · obtain ⟨sm, mem, changed, -⟩ := taken_filled (L := L) (r := r) (steady.slots i)
    rw [← seg] at changed
    intro k filled
    by_cases same : k = i
    · exact same ▸ changed.active
    · rw [changed.others k same] at filled ⊢
      exact joined.active k filled
  · exact joined.active
  · simp [Fits, here] at fits

def created (L : Layout) (phys : ℤ) : Group ι :=
  { seg := { magic := L.shmMagic, physicalSmTotal := phys }, held := fun _ => none }

omit [DecidableEq ι] in
theorem created_steady (phys : ℤ) : Steady L (created L phys : Group ι) :=
  ⟨fun _ => .inl ⟨rfl, rfl, rfl⟩, nofun⟩

omit [DecidableEq ι] in
theorem created_joined (phys : ℤ) : Joined L (created L phys : Group ι) := by
  have none_active : ∀ value, activeSum L value (created L phys : Group ι).seg = 0 := by
    intro value
    exact Threads.total_eq_zero fun _ => rfl
  refine ⟨totals_match_iff.mpr ⟨?_, ?_⟩, ?_⟩
  · rw [none_active]
    rfl
  · rw [none_active]
    rfl
  · intro i filled
    exact absurd filled.1 (lt_irrefl 0)

/-- The totals match the active tenants in every state of a run exactly when no attached
    process of the run exits and the totals stay inside an int32. -/
theorem totals_follow_tenants_iff (phys : ℤ) {labels : List (Action ι)}
    (run : Run (GroupStep L) (created L phys) labels t) :
    Run (Guarded (Fits L) (GroupStep L)) (created L phys) labels t ↔
      ∀ xs ys u, labels = xs ++ ys → Run (GroupStep L) (created L phys) xs u →
        TotalsMatch L u.seg :=
  run_guarded_shown_iff (fires_deterministic _) (fun _ _ _ steady step => step_steady steady step)
    (fun _ _ _ steady joined step fits => step_joined steady joined step fits)
    (fun _ _ _ steady joined step => step_match_iff steady joined step) run
    (created_steady phys) (created_joined phys) (created_joined phys).totals

end Runs

section Instances
variable {ι : Type}

instance (L : Layout) (s : Group ι) (a : Action ι) : Decidable (Fits L s a) :=
  match a with
  | .register _ r => decidable_of_iff (∀ i ∈ chosen L r s.seg, (s.seg.slots i).virtualSm = 0 →
      s.seg.virtualSmTotal + r.vsm < 2 ^ 31 ∧ s.seg.virtualMemTotalMb + r.vmem < 2 ^ 31) Iff.rfl
  | .exit p => inferInstanceAs (Decidable (s.held p = none))

end Instances

def request (name : Char) : Request where
  env := { tenant := [name], virtualSm := some ['6', '0'], virtualMemMb := some ['8'] }
  vsm := 60
  vmem := 8
  granted := by
    have sm : int32 (CText.atoi ['6', '0']) = 60 := by decide +kernel
    have mem : int32 (CText.atoi ['8']) = 8 := by decide +kernel
    simp [Env.grant, sm, mem]

def joins : List (Action (Fin 3)) :=
  [.register 0 (request 'a'), .register 1 (request 'b'), .register 2 (request 'a')]

theorem joins_match : ∃ t, Run (GroupStep twoSlots) (created twoSlots 100) joins t ∧
    resourceIsOvercommit t.seg = true ∧
    ∀ xs ys u, joins = xs ++ ys → Run (GroupStep twoSlots) (created twoSlots 100) xs u →
      TotalsMatch twoSlots u.seg := by
  obtain ⟨t, guarded, reached⟩ := guarded_run_reaches (Fits twoSlots)
    (fun t : Group (Fin 3) => resourceIsOvercommit t.seg)
    (show (exec (guarding (Fits twoSlots) (next twoSlots)) (created twoSlots 100) joins).any _ = true by
      decide +kernel)
  have run := run_mono (fun _ _ _ step => step.2) guarded
  exact ⟨t, run, reached, (totals_follow_tenants_iff 100 run).mp guarded⟩

def leaves : List (Action (Fin 1)) := [.register 0 (request 'a'), .exit 0]

/-- The group is found overcommitted with no tenant left. -/
theorem exit_keeps_totals : ∃ t, Run (GroupStep twoSlots) (created twoSlots 50) leaves t ∧
    resourceIsOvercommit t.seg = true ∧ activeSum twoSlots Slot.virtualSm t.seg = 0 ∧
    ¬ TotalsMatch twoSlots t.seg := by
  obtain ⟨t, run, reached⟩ := run_reaches
    (fun t : Group (Fin 1) => decide (resourceIsOvercommit t.seg = true ∧
      activeSum twoSlots Slot.virtualSm t.seg = 0 ∧ t.seg.physicalSmTotal = 50))
    (show (exec (next twoSlots) (created twoSlots 50) leaves).any _ = true by decide +kernel)
  obtain ⟨overcommit, empty, phys⟩ := of_decide_eq_true reached
  refine ⟨t, run, overcommit, empty, ?_⟩
  intro totals
  have exceeds := totals.overcommit.mp overcommit
  rw [empty, phys] at exceeds
  exact absurd exceeds (by decide)

end OvercommitTotals
