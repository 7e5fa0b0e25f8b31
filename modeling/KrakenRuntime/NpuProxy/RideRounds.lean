import KrakenRuntime.Lib.Rotation
import KrakenRuntime.NpuProxy.WorkConserving
import Mathlib.Data.Finset.Card
import Mathlib.Data.List.Sort

/- The order of the ride-along runs of the request gate: while nobody is eligible and the
   same tenants have work, those that have used the least of their grants take turns. The
   ride-along does not move the ratio that comes first in the key, but it moves the time of
   the last run, which comes second; tenants with the same time stand in dictionary order. -/
namespace GateCore
open Runs Rotation
variable {Name Req : Type} [DecidableEq Name]

def readings (_ : Core Name Req) : Event Name Req → ℚ → ℚ
  | .finished _ _ now, _ => now
  | _, clock => clock

abbrev ClockedStep (cfg : Config) : Core Name Req × ℚ → Event Name Req → Core Name Req × ℚ → Prop :=
  Runs.Watched readings (CoreStep cfg)

def Ticking (x : Core Name Req × ℚ) : Event Name Req → Prop
  | .finished _ _ now => x.2 < now
  | _ => True

def readyNames (c : Core Name Req) : Finset Name := ((ready c).map Prod.fst).toFinset

/-- No command and no unregistration, every selection finds these tenants with work, and the
    clock goes on. -/
def Undisturbed (R : Finset Name) (x : Core Name Req × ℚ) : Event Name Req → Prop
  | .cmd .. => False
  | .unregister _ => False
  | .selected _ => readyNames x.1 = R
  | .finished _ _ now => x.2 < now
  | _ => True

/-- The tenants whose requests were run to the end, in order. -/
def served : List (Event Name Req) → List Name
  | [] => []
  | .finished f _ _ :: rest => f.name :: served rest
  | _ :: rest => served rest

/-- The tenants whose requests were taken, in order, whether the run raised or not. -/
def stepped : List (Event Name Req) → List Name
  | [] => []
  | .selected (some f) :: rest => f.name :: stepped rest
  | _ :: rest => stepped rest

def lowest (c : Core Name Req) : Finset Name :=
  (((ready c).filter fun e => decide (∀ u ∈ ready c, ratio e.2 ≤ ratio u.2)).map Prod.fst).toFinset

theorem mem_readyNames {c : Core Name Req} {n : Name} :
    n ∈ readyNames c ↔ ∃ t, (n, t) ∈ ready c := by
  simp [readyNames]

theorem mem_lowest {c : Core Name Req} {n : Name} :
    n ∈ lowest c ↔ ∃ t, (n, t) ∈ ready c ∧ ∀ u ∈ ready c, ratio t ≤ ratio u.2 := by
  simp [lowest]

/-- What decides whether a tenant may run, and its accounts. -/
structure SameTerms (t u : Tenant Req) : Prop where
  oid : u.oid = t.oid
  armed : u.armed = t.armed
  unlimited : u.unlimited = t.unlimited
  creditUs : u.creditUs = t.creditUs
  grantedUs : u.grantedUs = t.grantedUs
  chargedUs : u.chargedUs = t.chargedUs

theorem SameTerms.refl (t : Tenant Req) : SameTerms t t := ⟨rfl, rfl, rfl, rfl, rfl, rfl⟩

theorem SameTerms.trans {t u v : Tenant Req} (first : SameTerms t u) (second : SameTerms u v) :
    SameTerms t v where
  oid := second.oid.trans first.oid
  armed := second.armed.trans first.armed
  unlimited := second.unlimited.trans first.unlimited
  creditUs := second.creditUs.trans first.creditUs
  grantedUs := second.grantedUs.trans first.grantedUs
  chargedUs := second.chargedUs.trans first.chargedUs

theorem SameTerms.ratio_eq {t u : Tenant Req} (same : SameTerms t u) : ratio u = ratio t := by
  simp only [ratio, same.chargedUs, same.grantedUs]

theorem SameTerms.mayRun_eq {t u : Tenant Req} (same : SameTerms t u) : mayRun u = mayRun t := by
  simp only [mayRun, same.unlimited, same.armed, same.creditUs]

def lastRunOf (c : Core Name Req) (n : Name) : ℚ :=
  match c.tenants.get? n with
  | none => 0
  | some t => t.lastRunT

def keys (c : Core Name Req) : List Name := c.tenants.items.map Prod.fst

/-- Where a tenant stands among those with the same ratio. -/
def turn (c : Core Name Req) (n : Name) : ℚ ×ₗ ℕ := toLex (lastRunOf c n, (keys c).idxOf n)

structure Carries (c c' : Core Name Req) : Prop where
  terms : ∀ n t, c.tenants.get? n = some t → ∃ u, c'.tenants.get? n = some u ∧ SameTerms t u
  turns : ∀ n t, c.tenants.get? n = some t → turn c' n = turn c n

section Frames
variable {c c' : Core Name Req} {name : Name}

theorem mem_keys {n : Name} {t : Tenant Req} (present : c.tenants.get? n = some t) : n ∈ keys c :=
  List.mem_map.mpr ⟨(n, t), (Dict.mem_items_iff _ _ _).mpr present, rfl⟩

theorem keys_modify (f : Tenant Req → Tenant Req) (after : c'.tenants = c.tenants.modify name f) :
    keys c' = keys c := by
  simp only [keys, after, Dict.modify, List.map_map]
  apply List.map_congr_left
  intro e _
  simp only [Function.comp_apply]
  split <;> rfl

theorem modify_carries (f : Tenant Req → Tenant Req) (after : c'.tenants = c.tenants.modify name f)
    (terms : ∀ t, SameTerms t (f t)) (times : ∀ t, (f t).lastRunT = t.lastRunT) : Carries c c' where
  terms := by
    intro n t present
    by_cases same : n = name
    · subst same
      exact ⟨f t, by simp [after, present], terms t⟩
    · exact ⟨t, by simp [after, same, present], .refl t⟩
  turns := by
    intro n t present
    simp only [turn, keys_modify f after, lastRunOf, after, present]
    by_cases same : n = name
    · subst same
      simp [present, times]
    · simp [same, present]

theorem get?_register {n : Name} {t : Tenant Req} (present : c.tenants.get? n = some t) :
    (register c name).tenants.get? n = some t := by
  simp only [register, Dict.get?_setDefault]
  by_cases same : n = name
  · subst same
    simp [present]
  · simp [same, present]

/-- A new tenant goes to the end of the dictionary. -/
theorem register_carries (c : Core Name Req) (name : Name) : Carries c (register c name) where
  terms := fun n t present => ⟨t, get?_register present, .refl t⟩
  turns := by
    intro n t present
    have place : (keys (register c name)).idxOf n = (keys c).idxOf n := by
      simp only [keys, register, Dict.setDefault]
      split
      · rw [List.map_append]
        exact List.idxOf_append_of_mem (mem_keys present)
      · rfl
    simp only [turn, lastRunOf, get?_register present, present, place]

theorem submit_carries {req : Req} (h : submit c name req = some c') : Carries c c' := by
  unfold submit at h
  split at h
  · cases h
  · cases h
    exact modify_carries (fun t => { t with queue := t.queue ++ [req] }) rfl
      (fun t => ⟨rfl, rfl, rfl, rfl, rfl, rfl⟩) fun _ => rfl

theorem popFrom_carries {e : Name × Tenant Req} {extra : Bool} {f : Flight Name Req}
    (h : popFrom c e extra = some (c', f)) : Carries c c' := by
  obtain ⟨rest, _, _, _, _, rfl⟩ := popFrom_spec h
  exact modify_carries (fun t => { t with queue := rest }) rfl
    (fun t => ⟨rfl, rfl, rfl, rfl, rfl, rfl⟩) fun _ => rfl

end Frames

/-- No run has ended later than the clock shows. -/
structure Stamped (c : Core Name Req) (clock : ℚ) : Prop where
  nonneg : 0 ≤ clock
  past : ∀ n t, c.tenants.get? n = some t → t.lastRunT ≤ clock

section Clock
variable {c c' : Core Name Req} {clock : ℚ}

theorem modify_stamped (stamped : Stamped c clock) {name : Name} (f : Tenant Req → Tenant Req)
    (after : c'.tenants = c.tenants.modify name f) (times : ∀ t, (f t).lastRunT = t.lastRunT) :
    Stamped c' clock := by
  refine ⟨stamped.nonneg, ?_⟩
  intro n t present
  rw [after, Dict.get?_modify] at present
  split at present
  · obtain ⟨u, before, rfl⟩ := Option.map_eq_some_iff.mp present
    rw [times]
    exact stamped.past n u before
  · exact stamped.past n t present

theorem applyCmd_lastRunT (cfg : Config) (t : Tenant Req) (k : Cmd) :
    (applyCmd cfg t k).lastRunT = t.lastRunT := by
  cases k with
  | timeCredit v =>
    simp only [applyCmd]
    split <;> rfl
  | _ => rfl

theorem finish_stamped (stamped : Stamped c clock) {cfg : Config} {f : Flight Name Req}
    {dtUs now : ℚ} (later : clock < now) : Stamped (finish cfg c f dtUs now) now := by
  refine ⟨stamped.nonneg.trans later.le, ?_⟩
  intro n t present
  simp only [finish, Dict.get?_modify] at present
  split at present
  · obtain ⟨u, before, rfl⟩ := Option.map_eq_some_iff.mp present
    split
    · simp [charge]
    · exact (stamped.past n u before).trans later.le
  · exact (stamped.past n t present).trans later.le

theorem step_stamped {cfg : Config} {x y : Core Name Req × ℚ} {ev : Event Name Req}
    (stamped : Stamped x.1 x.2) (ticks : Ticking x ev) (step : ClockedStep cfg x ev y) :
    Stamped y.1 y.2 := by
  obtain ⟨c, clock⟩ := x
  obtain ⟨c', clock'⟩ := y
  obtain ⟨step, reading⟩ := step
  simp only at stamped step reading
  subst reading
  cases step with
  | register name =>
    refine ⟨stamped.nonneg, ?_⟩
    intro n t present
    simp only [GateCore.register, Dict.get?_setDefault] at present
    split at present
    · rename_i same
      subst same
      cases known : c.tenants.get? n with
      | none =>
        rw [known] at present
        cases present
        exact stamped.nonneg
      | some u =>
        rw [known] at present
        cases present
        exact stamped.past n u known
    · exact stamped.past n t present
  | unregister name =>
    refine ⟨stamped.nonneg, ?_⟩
    intro n t present
    simp only [GateCore.unregister, Dict.get?_pop] at present
    split at present
    · cases present
    · exact stamped.past n t present
  | cmd name k =>
    simp only [GateCore.cmd]
    split
    · exact stamped
    · exact modify_stamped stamped _ rfl fun t => applyCmd_lastRunT cfg t k
  | @submit _ name req h =>
    unfold GateCore.submit at h
    split at h
    · cases h
    · cases h
      exact modify_stamped stamped (fun t => { t with queue := t.queue ++ [req] }) rfl fun _ => rfl
  | idle => exact stamped
  | selected free chosen pop =>
    obtain ⟨rest, _, _, _, _, rfl⟩ := popFrom_spec pop
    exact modify_stamped stamped (fun t => { t with queue := rest }) rfl fun _ => rfl
  | finished busy elapsed => exact finish_stamped stamped ticks
  | raised busy => exact ⟨stamped.nonneg, stamped.past⟩

end Clock

theorem ticking_of_undisturbed {R : Finset Name} {x : Core Name Req × ℚ} {ev : Event Name Req}
    (calm : Undisturbed R x ev) : Ticking x ev := by
  cases ev with
  | finished f dtUs now => exact calm
  | _ => trivial

/-- Since `first`, where nobody was eligible: the tenants are on the same terms, those with
    the lowest ratio stand in the order of their turns, and the run in flight is a ride-along
    of the one in front. -/
structure Riding (first : Core Name Req) (order : List Name) (c : Core Name Req) : Prop where
  terms : ∀ n t, first.tenants.get? n = some t → ∃ u, c.tenants.get? n = some u ∧ SameTerms t u
  members : ∀ n, n ∈ order ↔ n ∈ lowest first
  sorted : order.Pairwise fun a b => turn c a < turn c b
  flight : ∀ f, c.flight = some f →
    f.extra = true ∧ order.head? = some f.name ∧ ∃ u, c.tenants.get? f.name = some u ∧ u.oid = f.oid

section Stretch
variable {first c c' : Core Name Req} {order : List Name} {cfg : Config}

theorem Riding.present (riding : Riding first order c) {n : Name} (inside : n ∈ order) :
    ∃ u, c.tenants.get? n = some u := by
  obtain ⟨t, isReady, _⟩ := mem_lowest.mp ((riding.members n).mp inside)
  obtain ⟨u, present, _⟩ := riding.terms n t (mem_ready.mp isReady).1
  exact ⟨u, present⟩

theorem Riding.carried (riding : Riding first order c) (carries : Carries c c')
    (flight : ∀ f, c'.flight = some f →
      f.extra = true ∧ order.head? = some f.name ∧
        ∃ u, c.tenants.get? f.name = some u ∧ u.oid = f.oid) :
    Riding first order c' := by
  constructor
  case terms =>
    intro n t before
    obtain ⟨u, present, same⟩ := riding.terms n t before
    obtain ⟨v, present', same'⟩ := carries.terms n u present
    exact ⟨v, present', same.trans same'⟩
  case members => exact riding.members
  case sorted =>
    apply riding.sorted.imp_of_mem
    intro a b ha hb lt
    obtain ⟨u, present⟩ := riding.present ha
    obtain ⟨v, present'⟩ := riding.present hb
    rwa [carries.turns a u present, carries.turns b v present']
  case flight =>
    intro f busy
    obtain ⟨extra, front, u, present, own⟩ := flight f busy
    obtain ⟨v, present', same⟩ := carries.terms f.name u present
    exact ⟨extra, front, v, present', same.oid.trans own⟩

section Selection
variable (riding : Riding first order c) (same_ready : readyNames c = readyNames first)
include riding same_ready

theorem ready_before {e : Name × Tenant Req} (isReady : e ∈ ready c) :
    ∃ t, (e.1, t) ∈ ready first ∧ SameTerms t e.2 := by
  have named : e.1 ∈ readyNames first := same_ready ▸ mem_readyNames.mpr ⟨e.2, isReady⟩
  obtain ⟨t, before⟩ := mem_readyNames.mp named
  obtain ⟨u, present, same⟩ := riding.terms e.1 t (mem_ready.mp before).1
  have eq := Option.some.inj (present.symm.trans (mem_ready.mp isReady).1)
  subst eq
  exact ⟨t, before, same⟩

theorem ready_after {n : Name} {t : Tenant Req} (before : (n, t) ∈ ready first) :
    ∃ u, (n, u) ∈ ready c ∧ SameTerms t u := by
  have named : n ∈ readyNames c := same_ready ▸ mem_readyNames.mpr ⟨t, before⟩
  obtain ⟨u, isReady⟩ := mem_readyNames.mp named
  obtain ⟨v, present, same⟩ := riding.terms n t (mem_ready.mp before).1
  have eq := Option.some.inj (present.symm.trans (mem_ready.mp isReady).1)
  subst eq
  exact ⟨v, isReady, same⟩

theorem nobody_eligible (nobody : candidates first = []) : candidates c = [] := by
  rw [List.eq_nil_iff_forall_not_mem]
  intro e member
  obtain ⟨isReady, may⟩ := mem_candidates.mp member
  obtain ⟨t, before, same⟩ := ready_before riding same_ready isReady
  have candidate : (e.1, t) ∈ candidates first := mem_candidates.mpr ⟨before, same.mayRun_eq ▸ may⟩
  rw [nobody] at candidate
  cases candidate

theorem mem_order_of_lowest {e : Name × Tenant Req} (isReady : e ∈ ready c)
    (least : ∀ u ∈ ready c, ratio e.2 ≤ ratio u.2) : e.1 ∈ order := by
  obtain ⟨t, before, same⟩ := ready_before riding same_ready isReady
  refine (riding.members e.1).mpr (mem_lowest.mpr ⟨t, before, ?_⟩)
  intro v other
  obtain ⟨u, now, same'⟩ := ready_after riding same_ready other
  rw [← same.ratio_eq, ← same'.ratio_eq]
  exact least (v.1, u) now

theorem lowest_of_mem_order {n : Name} (inside : n ∈ order) :
    ∃ u, (n, u) ∈ ready c ∧ ∀ v ∈ ready c, ratio u ≤ ratio v.2 := by
  obtain ⟨t, before, least⟩ := mem_lowest.mp ((riding.members n).mp inside)
  obtain ⟨u, now, same⟩ := ready_after riding same_ready before
  refine ⟨u, now, ?_⟩
  intro v other
  obtain ⟨w, before', same'⟩ := ready_before riding same_ready other
  rw [same.ratio_eq, same'.ratio_eq]
  exact least (v.1, w) before'

theorem ride_takes_front {e : Name × Tenant Req}
    (best : (ready c).argmin (fun e => key e.2) = some e) : order.head? = some e.1 := by
  have isReady := List.argmin_mem best
  have least {u : Name × Tenant Req} (other : u ∈ ready c) : key e.2 ≤ key u.2 :=
    List.le_of_mem_argmin (f := fun e : Name × Tenant Req => key e.2) other best
  have inside : e.1 ∈ order :=
    mem_order_of_lowest riding same_ready isReady fun u other => ratio_le_of_key_le (least other)
  cases turns : order with
  | nil =>
    rw [turns] at inside
    cases inside
  | cons a rest =>
    rw [List.head?_cons, Option.some.injEq]
    by_contra apart
    have behind : turn c a < turn c e.1 := by
      rw [turns] at inside
      have sorted := riding.sorted
      rw [turns, List.pairwise_cons] at sorted
      rcases List.mem_cons.mp inside with same | later
      · exact absurd same.symm apart
      · exact sorted.1 e.1 later
    obtain ⟨u, front, lowest_ratio⟩ :=
      lowest_of_mem_order riding same_ready (turns ▸ List.mem_cons_self : a ∈ order)
    have same_ratio : ratio u = ratio e.2 :=
      le_antisymm (lowest_ratio e isReady) (ratio_le_of_key_le (least front))
    have not_later : e.2.lastRunT ≤ u.lastRunT := by
      rcases Prod.Lex.toLex_le_toLex.mp (least front) with lower | ⟨_, times⟩
      · exact absurd same_ratio lower.ne'
      · exact times
    have times : lastRunOf c a = u.lastRunT ∧ lastRunOf c e.1 = e.2.lastRunT := by
      simp [lastRunOf, (mem_ready.mp front).1, (mem_ready.mp isReady).1]
    rcases Prod.Lex.toLex_lt_toLex.mp behind with earlier | ⟨tie, place⟩
    · rw [times.1, times.2] at earlier
      exact absurd not_later (not_le.mpr earlier)
    · -- the same time: the first in the dictionary is taken
      have same_time : u.lastRunT = e.2.lastRunT := times.1.symm.trans (tie.trans times.2)
      have tied : key u ≤ key e.2 := le_of_eq (by simp only [key, same_ratio, same_time])
      have first_taken := idxOf_argmin_le (fun e : Name × Tenant Req => key e.2) Prod.fst _
        c.tenants.nodup best front tied
      exact absurd first_taken (not_le.mpr place)

end Selection

omit [DecidableEq Name] in
theorem eligible_ride {e : Name × Tenant Req} (h : eligible cfg c = some (e, true)) :
    (ready c).argmin (fun e => key e.2) = some e := by
  unfold eligible at h
  split at h
  · cases h
  · split at h
    · simpa using h
    · cases h

theorem selected_riding (riding : Riding first order c)
    (same_ready : readyNames c = readyNames first) (nobody : candidates first = [])
    {e : Name × Tenant Req} {extra : Bool} {f : Flight Name Req}
    (chosen : eligible cfg c = some (e, extra)) (pop : popFrom c e extra = some (c', f)) :
    f.extra = true ∧ Riding first order c' := by
  have rides : extra = true := by
    cases extra with
    | true => rfl
    | false =>
      have candidate := (eligible_contract chosen).1
      rw [nobody_eligible riding same_ready nobody] at candidate
      cases candidate
  subst rides
  have best := eligible_ride chosen
  have front := ride_takes_front riding same_ready best
  have present := (mem_ready.mp (List.argmin_mem best)).1
  have carries := popFrom_carries pop
  obtain ⟨rest, _, name_eq, oid_eq, extra_eq, after⟩ := popFrom_spec pop
  refine ⟨extra_eq, riding.carried carries ?_⟩
  intro g busy
  have same : f = g := by
    rw [after] at busy
    exact Option.some.inj busy
  subst same
  refine ⟨extra_eq, name_eq ▸ front, e.2, ?_, oid_eq.symm⟩
  rw [name_eq]
  exact present

theorem finish_tenants {f : Flight Name Req} {u : Tenant Req} (dtUs now : ℚ)
    (present : c.tenants.get? f.name = some u) (own : u.oid = f.oid) :
    (finish cfg c f dtUs now).tenants.get? f.name = some (charge cfg f.extra dtUs now u) ∧
      ∀ b, b ≠ f.name → (finish cfg c f dtUs now).tenants.get? b = c.tenants.get? b := by
  constructor
  · simp [finish, present, own]
  · intro b other
    simp [finish, other]

theorem finish_turns {f : Flight Name Req} {u : Tenant Req} (dtUs now : ℚ)
    (present : c.tenants.get? f.name = some u) (own : u.oid = f.oid) :
    turn (finish cfg c f dtUs now) f.name = toLex (now, (keys c).idxOf f.name) ∧
      ∀ b, b ≠ f.name → turn (finish cfg c f dtUs now) b = turn c b := by
  obtain ⟨charged, others⟩ := finish_tenants dtUs now present own
  have same_keys : keys (finish cfg c f dtUs now) = keys c :=
    keys_modify (fun t => if t.oid = f.oid then charge cfg f.extra dtUs now t else t) rfl
  constructor
  · rw [turn, same_keys, lastRunOf, charged]
    rfl
  · intro b other
    rw [turn, same_keys, lastRunOf, others b other]
    rfl

theorem finished_riding (exact_books : cfg.legacyRepay = false) {rest : List Name}
    {f : Flight Name Req} {clock dtUs now : ℚ} (riding : Riding first (f.name :: rest) c)
    (stamped : Stamped c clock) (busy : c.flight = some f) (later : clock < now) :
    Riding first (rest ++ [f.name]) (finish cfg c f dtUs now) := by
  obtain ⟨extra, _, u, present, own⟩ := riding.flight f busy
  have sorted := riding.sorted
  rw [List.pairwise_cons] at sorted
  have apart : ∀ b ∈ rest, b ≠ f.name := by
    rintro _ member rfl
    exact lt_irrefl _ (sorted.1 f.name member)
  obtain ⟨charged, others⟩ := finish_tenants dtUs now present own
  obtain ⟨own_turn, other_turn⟩ := finish_turns dtUs now present own
  constructor
  case terms =>
    intro n t before
    obtain ⟨v, found, same⟩ := riding.terms n t before
    by_cases here : n = f.name
    · subst here
      have eq := Option.some.inj (found.symm.trans present)
      subst eq
      refine ⟨_, charged, same.trans ?_⟩
      rw [extra]
      simp only [charge, exact_books, Bool.not_false, Bool.and_true, if_true]
      exact ⟨rfl, rfl, rfl, rfl, rfl, rfl⟩
    · exact ⟨v, (others n here).trans found, same⟩
  case members =>
    intro n
    rw [← riding.members n]
    simp [or_comm]
  case sorted =>
    rw [List.pairwise_append]
    refine ⟨?_, List.pairwise_singleton _ _, ?_⟩
    · apply sorted.2.imp_of_mem
      intro a b ha hb lt
      rwa [other_turn a (apart a ha), other_turn b (apart b hb)]
    · intro a ha b hb
      rw [List.mem_singleton.mp hb, own_turn, other_turn a (apart a ha)]
      obtain ⟨v, found⟩ := riding.present (List.mem_cons_of_mem f.name ha)
      apply Prod.Lex.toLex_lt_toLex.mpr
      left
      simp only [lastRunOf, found]
      exact (stamped.past a v found).trans_lt later
  case flight =>
    intro g still
    cases still

/-- One step of the stretch: a turn is taken when a run ends, and only then. -/
theorem step_riding (exact_books : cfg.legacyRepay = false) (nobody : candidates first = [])
    {x y : Core Name Req × ℚ} {ev : Event Name Req} (riding : Riding first order x.1)
    (stamped : Stamped x.1 x.2) (calm : Undisturbed (readyNames first) x ev)
    (step : ClockedStep cfg x ev y) :
    (∀ f, ev = .selected (some f) → f.extra = true) ∧
      ∃ order', Riding first order' y.1 ∧
        ∀ later last, Rotates order' (served later) last →
          Rotates order (served (ev :: later)) last := by
  obtain ⟨c, clock⟩ := x
  obtain ⟨c', clock'⟩ := y
  obtain ⟨step, _⟩ := step
  simp only at riding stamped step
  cases step with
  | register name =>
    refine ⟨by simp, order, ?_, fun _ _ turns => turns⟩
    exact riding.carried (register_carries c name) riding.flight
  | unregister name => exact calm.elim
  | cmd name k => exact calm.elim
  | submit h =>
    refine ⟨by simp, order, ?_, fun _ _ turns => turns⟩
    exact riding.carried (submit_carries h) (submit_flight h ▸ riding.flight)
  | idle => exact ⟨by simp, order, riding, fun _ _ turns => turns⟩
  | @selected _ e extra f free chosen pop =>
    obtain ⟨rides, riding'⟩ := selected_riding riding calm nobody chosen pop
    refine ⟨?_, order, riding', fun _ _ turns => turns⟩
    intro g same
    simp only [Event.selected.injEq, Option.some.injEq] at same
    exact same ▸ rides
  | @finished f dtUs now busy elapsed =>
    obtain ⟨_, front, _⟩ := riding.flight f busy
    obtain ⟨rest, rfl⟩ := List.head?_eq_some_iff.mp front
    refine ⟨by simp, rest ++ [f.name], finished_riding exact_books riding stamped busy calm, ?_⟩
    exact fun _ _ turns => .serve turns
  | raised busy =>
    refine ⟨by simp, order, ⟨riding.terms, riding.members, riding.sorted, ?_⟩, fun _ _ turns => turns⟩
    intro f still
    cases still

theorem run_riding (exact_books : cfg.legacyRepay = false) (nobody : candidates first = [])
    {x y : Core Name Req × ℚ} {events : List (Event Name Req)}
    (run : Run (Guarded (Undisturbed (readyNames first)) (ClockedStep cfg)) x events y)
    (riding : Riding first order x.1) (stamped : Stamped x.1 x.2) :
    (∀ f, .selected (some f) ∈ events → f.extra = true) ∧
      ∃ order', Riding first order' y.1 ∧ Rotates order (served events) order' := by
  induction run generalizing order with
  | nil x => exact ⟨by simp, order, riding, .nil order⟩
  | @cons x z y ev rest head tail ih =>
    obtain ⟨calm, step⟩ := head
    obtain ⟨rides, middle, riding', turns⟩ :=
      step_riding exact_books nobody riding stamped calm step
    obtain ⟨later_rides, last, riding'', later⟩ :=
      ih riding' (step_stamped stamped (ticking_of_undisturbed calm) step)
    refine ⟨?_, last, riding'', turns rest last later⟩
    intro f member
    rcases List.mem_cons.mp member with here | inside
    · exact rides f here.symm
    · exact later_rides f inside

end Stretch

theorem turn_injective {c : Core Name Req} {a b : Name} {t : Tenant Req}
    (present : c.tenants.get? a = some t) (same : turn c a = turn c b) : a = b := by
  have places := congrArg (fun k => (ofLex k).2) same
  exact (List.idxOf_inj (mem_keys present)).mp places

theorem start_riding {first : Core Name Req} (free : first.flight = none) :
    ∃ order : List Name, Riding first order first ∧ order.Nodup := by
  let behind (a b : Name) : Prop := turn first a ≤ turn first b
  have total : Std.Total behind := ⟨fun a b => le_total (turn first a) (turn first b)⟩
  have trans : IsTrans Name behind := ⟨fun _ _ _ ab bc => le_trans ab bc⟩
  let order := (lowest first).toList.insertionSort behind
  have perm : order.Perm (lowest first).toList := List.perm_insertionSort behind _
  have members (n : Name) : n ∈ order ↔ n ∈ lowest first := by
    rw [perm.mem_iff, Finset.mem_toList]
  have nodup : order.Nodup := perm.nodup_iff.mpr (Finset.nodup_toList _)
  have sorted := (List.pairwise_insertionSort behind (lowest first).toList).and nodup
  refine ⟨order, ⟨fun n t before => ⟨t, before, .refl t⟩, members, ?_, ?_⟩, nodup⟩
  · apply sorted.imp_of_mem
    intro a b ha _ ordered
    obtain ⟨t, isReady, _⟩ := mem_lowest.mp ((members a).mp ha)
    apply lt_of_le_of_ne ordered.1
    intro same
    exact ordered.2 (turn_injective (mem_ready.mp isReady).1 same)
  · intro f busy
    rw [free] at busy
    cases busy

/-- From any state that is reached with a clock that starts after zero and never repeats a
    reading: while nobody is eligible and the same tenants have work, every run is a
    ride-along, the accounts stand still, and only those with the lowest ratio are served, in
    turns: as many finished runs in a row as they are serve each of them once. -/
theorem ride_along_round_robin {cfg : Config} (exact_books : cfg.legacyRepay = false)
    {history events : List (Event Name Req)} {x y : Core Name Req × ℚ}
    (reached : Run (Guarded Ticking (ClockedStep cfg)) (Core.init, 0) history x)
    (free : x.1.flight = none) (nobody : candidates x.1 = [])
    (stretch : Run (Guarded (Undisturbed (readyNames x.1)) (ClockedStep cfg)) x events y) :
    (∀ f, .selected (some f) ∈ events → f.extra = true) ∧
      (∀ n t, x.1.tenants.get? n = some t → ∃ u, y.1.tenants.get? n = some u ∧
        u.creditUs = t.creditUs ∧ u.grantedUs = t.grantedUs ∧ u.chargedUs = t.chargedUs) ∧
      (∀ n ∈ served events, n ∈ lowest x.1) ∧
      ∀ before window after, served events = before ++ window ++ after →
        window.length = (lowest x.1).card → window.Nodup ∧ window.toFinset = lowest x.1 := by
  have stamped : Stamped x.1 x.2 := by
    apply run_invariant (fun x => Stamped x.1 x.2) _ reached
    · exact ⟨le_rfl, by simp [Core.init]⟩
    · intro x ev y before step
      exact step_stamped before step.1 step.2
  obtain ⟨order, riding, nodup⟩ := start_riding free
  obtain ⟨rides, order', riding', turns⟩ := run_riding exact_books nobody stretch riding stamped
  have everyone : order.toFinset = lowest x.1 := by
    ext n
    rw [List.mem_toFinset, riding.members n]
  refine ⟨rides, ?_, ?_, ?_⟩
  · intro n t present
    obtain ⟨u, found, same⟩ := riding'.terms n t present
    exact ⟨u, found, same.creditUs, same.grantedUs, same.chargedUs⟩
  · intro n member
    exact (riding.members n).mp (turns.served_mem n member)
  · intro before window after split length
    rw [← everyone, List.toFinset_card_of_nodup nodup] at length
    have perm := turns.window split length
    exact ⟨perm.nodup_iff.mpr nodup, (List.toFinset_eq_of_perm _ _ perm).trans everyone⟩

instance (x : Core Name Req × ℚ) : ∀ ev, Decidable (Ticking x ev)
  | .finished _ _ now => inferInstanceAs (Decidable (x.2 < now))
  | .register _ | .unregister _ | .cmd .. | .submit .. | .selected _ | .raised _ => isTrue trivial

instance (R : Finset Name) (x : Core Name Req × ℚ) : ∀ ev, Decidable (Undisturbed R x ev)
  | .cmd .. => isFalse id
  | .unregister _ => isFalse id
  | .selected _ => inferInstanceAs (Decidable (_ = R))
  | .finished _ _ now => inferInstanceAs (Decidable (x.2 < now))
  | .register _ | .submit .. | .raised _ => isTrue trivial

def bothSpent : List (Event Bool ℕ) :=
  [.register false, .register true, .submit false 1, .selected (some ⟨false, 0, 1, false⟩),
    .finished ⟨false, 0, 1, false⟩ 0 5, .cmd false (.timeMode 1), .cmd true (.timeMode 1),
    .submit false 2, .submit false 3, .submit true 4, .submit true 5, .submit true 6]

def spent : Core Bool ℕ × ℚ :=
  (exec (guarding Ticking (watching readings (next {}))) (Core.init, 0) bothSpent).getD
    (Core.init, 0)

theorem spent_reached : Run (Guarded Ticking (ClockedStep {})) (Core.init, 0) bothSpent spent := by
  have run : Run (Fires (guarding Ticking (watching readings (next {})))) (Core.init, 0)
      bothSpent spent := run_of_exec (by decide +kernel)
  refine run_mono ?_ run
  intro a ev b fires
  obtain ⟨ticks, step⟩ := guarded_of_fires Ticking fires
  obtain ⟨moved, reading⟩ := watched_of_fires step
  exact ⟨ticks, step_of_next moved, reading⟩

theorem spent_stretch (events : List (Event Bool ℕ))
    (h : (exec (guarding (Undisturbed (readyNames spent.1)) (watching readings (next {}))) spent
      events).any (fun _ => true) = true) :
    ∃ y, Run (Guarded (Undisturbed (readyNames spent.1)) (ClockedStep {})) spent events y := by
  obtain ⟨y, rides, _⟩ := guarded_run_reaches (Undisturbed (readyNames spent.1)) (fun _ => true) h
  refine ⟨y, run_mono ?_ rides⟩
  intro a ev b step
  obtain ⟨moved, reading⟩ := watched_of_fires step.2
  exact ⟨step.1, step_of_next moved, reading⟩

/-- The second of two tenants goes first; one of the runs fails and is made up for. -/
def threeRides : List (Event Bool ℕ) :=
  [.selected (some ⟨true, 1, 4, true⟩), .raised ⟨true, 1, 4, true⟩,
    .selected (some ⟨true, 1, 5, true⟩), .finished ⟨true, 1, 5, true⟩ 10 20,
    .selected (some ⟨false, 0, 2, true⟩), .finished ⟨false, 0, 2, true⟩ 10 30,
    .selected (some ⟨true, 1, 6, true⟩), .finished ⟨true, 1, 6, true⟩ 10 40]

theorem both_spent_take_turns : ∃ x y,
    Run (Guarded Ticking (ClockedStep {})) (Core.init, 0) bothSpent x ∧
      Run (Guarded (Undisturbed (readyNames x.1)) (ClockedStep {})) x threeRides y ∧
      served threeRides = [true, false, true] ∧
      [false, true].Nodup ∧ [false, true].toFinset = lowest x.1 := by
  obtain ⟨y, stretch⟩ := spent_stretch threeRides (by decide +kernel)
  have turns := (ride_along_round_robin rfl spent_reached (by decide +kernel) (by decide +kernel)
    stretch).2.2.2
  exact ⟨spent, y, spent_reached, stretch, rfl, turns [true] [false, true] [] rfl (by decide +kernel)⟩

/-- A run that raises does not move the time of the last run, and its tenant is taken again:
    two steps in a row take the second of two tenants that are to take turns. -/
theorem raised_taken_again : ∃ x y,
    Run (Guarded Ticking (ClockedStep {})) (Core.init, 0) bothSpent x ∧
      x.1.flight = none ∧ candidates x.1 = [] ∧
      Run (Guarded (Undisturbed (readyNames x.1)) (ClockedStep {})) x (threeRides.take 4) y ∧
      stepped (threeRides.take 4) = [true, true] ∧ lowest x.1 = {false, true} ∧
      ¬ ∀ before window after, stepped (threeRides.take 4) = before ++ window ++ after →
        window.length = (lowest x.1).card → window.Nodup ∧ window.toFinset = lowest x.1 := by
  obtain ⟨y, stretch⟩ := spent_stretch (threeRides.take 4) (by decide +kernel)
  refine ⟨spent, y, spent_reached, by decide +kernel, by decide +kernel, stretch, rfl,
    by decide +kernel, ?_⟩
  intro turns
  have once := (turns [] [true, true] [] rfl (by decide +kernel)).1
  exact absurd once (by decide)

end GateCore
