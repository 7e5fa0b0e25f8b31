import KrakenRuntime.Lib.Spread
import KrakenRuntime.NpuProxy.WorkConserving

/- The proportional share of the request gate: while the same tenants compete, the one that
   has used the least of its grant runs next, so that their ratios stay together. -/
namespace GateCore
open Runs Spread
variable {Name Req : Type} [DecidableEq Name]

def chargedOf (c : Core Name Req) (name : Name) : ℚ :=
  match c.tenants.get? name with
  | none => 0
  | some t => t.chargedUs

def grantedOf (c : Core Name Req) (name : Name) : ℚ :=
  match c.tenants.get? name with
  | none => 0
  | some t => t.grantedUs

def ratioOf (c : Core Name Req) (name : Name) : ℚ := chargedOf c name / max (grantedOf c name) 1

/-- No command and no unregistration; every selection finds `S` ready and eligible, and every
    run takes at most `d`. -/
def Competing (S : Finset Name) (d : ℚ) (c : Core Name Req) : Event Name Req → Prop
  | .cmd .. => False
  | .unregister _ => False
  | .selected _ => ((candidates c).map Prod.fst).toFinset = S
  | .finished _ dtUs _ => dtUs ≤ d
  | _ => True

def leastGrant (S : Finset Name) (nonempty : S.Nonempty) (c : Core Name Req) : ℚ :=
  least S nonempty fun name => max (grantedOf c name) 1

section Accounts
variable {c : Core Name Req} {name n : Name}

theorem ratioOf_present {t : Tenant Req} (present : c.tenants.get? name = some t) :
    ratioOf c name = ratio t := by
  simp [ratioOf, chargedOf, grantedOf, present, ratio]

def SameBooksAs (c c' : Core Name Req) : Prop :=
  ∀ n, chargedOf c' n = chargedOf c n ∧ grantedOf c' n = grantedOf c n

theorem register_books (c : Core Name Req) (name : Name) : SameBooksAs c (register c name) := by
  intro n
  simp only [chargedOf, grantedOf, register, Dict.get?_setDefault]
  by_cases same : n = name
  · subst same
    cases c.tenants.get? n <;> simp
  · simp [same]

theorem modify_books (f : Tenant Req → Tenant Req) {c' : Core Name Req}
    (after : c'.tenants = c.tenants.modify name f) (charged : ∀ t, (f t).chargedUs = t.chargedUs)
    (granted : ∀ t, (f t).grantedUs = t.grantedUs) : SameBooksAs c c' := by
  intro n
  simp only [chargedOf, grantedOf, after, Dict.get?_modify]
  by_cases same : n = name
  · subst same
    cases c.tenants.get? n with
    | none => simp
    | some t => simp [charged t, granted t]
  · simp [same]

theorem submit_books {c' : Core Name Req} {req : Req} (h : submit c name req = some c') :
    SameBooksAs c c' := by
  unfold submit at h
  split at h
  · cases h
  · cases h
    exact modify_books (fun t => { t with queue := t.queue ++ [req] }) rfl (fun _ => rfl) fun _ => rfl

theorem popFrom_books {c' : Core Name Req} {e : Name × Tenant Req} {extra : Bool}
    {f : Flight Name Req} (h : popFrom c e extra = some (c', f)) : SameBooksAs c c' := by
  obtain ⟨rest, _, _, _, _, rfl⟩ := popFrom_spec h
  exact modify_books (fun t => { t with queue := rest }) rfl (fun _ => rfl) fun _ => rfl

theorem SameBooksAs.ratio {c' : Core Name Req} (h : SameBooksAs c c') (n : Name) :
    ratioOf c' n = ratioOf c n := by
  simp only [ratioOf, (h n).1, (h n).2]

end Accounts

/-- The run in flight is a contract run of a competitor that has used the least of its grant,
    and is charged to the object that is registered. -/
structure LowestRuns (S : Finset Name) (c : Core Name Req) (f : Flight Name Req) : Prop where
  contract : f.extra = false
  member : f.name ∈ S
  object : ∃ t, c.tenants.get? f.name = some t ∧ t.oid = f.oid
  lowest : ∀ n ∈ S, ratioOf c f.name ≤ ratioOf c n

/-- Since `first`, with a bound `b` on what one run adds to a ratio. -/
structure Level (S : Finset Name) (nonempty : S.Nonempty) (b : ℚ) (first c : Core Name Req) :
    Prop where
  granted : ∀ n, grantedOf c n = grantedOf first n
  together : spread S nonempty (ratioOf c) ≤ max (spread S nonempty (ratioOf first)) b
  rising : least S nonempty (ratioOf first) ≤ least S nonempty (ratioOf c)
  flight : ∀ f, c.flight = some f → LowestRuns S c f

section Stretch
variable {S : Finset Name} {nonempty : S.Nonempty} {b d : ℚ} {first c c' : Core Name Req}
  {cfg : Config}

theorem level_of_books (level : Level S nonempty b first c) (books : SameBooksAs c c')
    (flight : ∀ f, c'.flight = some f → LowestRuns S c' f) : Level S nonempty b first c' := by
  constructor
  case granted =>
    intro n
    rw [(books n).2, level.granted n]
  case together =>
    rw [spread_congr fun n _ => books.ratio n]
    exact level.together
  case rising =>
    rw [least_congr fun n _ => books.ratio n]
    exact level.rising
  case flight => exact flight

theorem lowest_of_books {f : Flight Name Req} (lowest : LowestRuns S c f)
    (books : SameBooksAs c c')
    (objects : ∀ t, c.tenants.get? f.name = some t →
      ∃ t', c'.tenants.get? f.name = some t' ∧ t'.oid = t.oid) : LowestRuns S c' f := by
  constructor
  case contract => exact lowest.contract
  case member => exact lowest.member
  case object =>
    obtain ⟨t, present, own⟩ := lowest.object
    obtain ⟨t', present', same⟩ := objects t present
    exact ⟨t', present', same.trans own⟩
  case lowest =>
    intro n inside
    rw [books.ratio, books.ratio]
    exact lowest.lowest n inside

theorem register_level (level : Level S nonempty b first c) (name : Name) :
    Level S nonempty b first (register c name) := by
  apply level_of_books level (register_books c name)
  intro f busy
  apply lowest_of_books (level.flight f busy) (register_books c name)
  intro t present
  refine ⟨t, ?_, rfl⟩
  simp only [register, Dict.get?_setDefault]
  by_cases same : f.name = name
  · subst same
    simp [present]
  · simp [same, present]

theorem submit_level (level : Level S nonempty b first c) {name : Name} {req : Req}
    (h : submit c name req = some c') : Level S nonempty b first c' := by
  apply level_of_books level (submit_books h)
  intro f busy
  apply lowest_of_books (level.flight f (submit_flight h ▸ busy)) (submit_books h)
  intro t present
  unfold submit at h
  split at h
  · cases h
  · cases h
    simp only [Dict.get?_modify]
    by_cases same : f.name = name
    · simp [same, same ▸ present]
    · simp [same, present]

theorem selected_level (level : Level S nonempty b first c) {e : Name × Tenant Req}
    {extra : Bool} {f : Flight Name Req}
    (competing : ((candidates c).map Prod.fst).toFinset = S)
    (chosen : eligible cfg c = some (e, extra)) (pop : popFrom c e extra = some (c', f)) :
    Level S nonempty b first c' := by
  have books := popFrom_books pop
  obtain ⟨rest, _, name_eq, oid_eq, extra_eq, after⟩ := popFrom_spec pop
  have contract : extra = false := by
    cases extra with
    | false => rfl
    | true =>
      -- with a competitor there is no ride-along
      obtain ⟨name, inside⟩ := nonempty
      rw [← competing, (eligible_extra chosen).1] at inside
      cases inside
  subst contract
  obtain ⟨candidate, best⟩ := eligible_contract chosen
  have present := (mem_ready.mp (mem_candidates.mp candidate).1).1
  apply level_of_books level books
  intro g busy
  have same : f = g := by
    rw [after] at busy
    exact Option.some.inj busy
  subst same
  constructor
  case contract => exact extra_eq
  case member =>
    rw [name_eq, ← competing, List.mem_toFinset]
    exact List.mem_map_of_mem candidate
  case object =>
    refine ⟨{ e.2 with queue := rest }, ?_, oid_eq.symm⟩
    rw [after, name_eq]
    simp [present]
  case lowest =>
    intro n inside
    rw [← competing, List.mem_toFinset] at inside
    obtain ⟨⟨n, u⟩, other, rfl⟩ := List.mem_map.mp inside
    have found := (mem_ready.mp (mem_candidates.mp other).1).1
    rw [books.ratio, books.ratio, name_eq, ratioOf_present present, ratioOf_present found]
    exact ratio_le_of_key_le (best (n, u) other)

theorem finish_charged {f : Flight Name Req} (lowest : LowestRuns S c f) (cfg : Config)
    (dtUs now : ℚ) (n : Name) :
    chargedOf (finish cfg c f dtUs now) n = chargedOf c n + (if n = f.name then dtUs else 0) ∧
      grantedOf (finish cfg c f dtUs now) n = grantedOf c n := by
  obtain ⟨t, present, own⟩ := lowest.object
  simp only [chargedOf, grantedOf, finish, Dict.get?_modify]
  by_cases same : n = f.name
  · subst same
    simp [present, own, charge, lowest.contract]
  · simp [same]

theorem finished_level (level : Level S nonempty (d / leastGrant S nonempty first) first c)
    {f : Flight Name Req} {dtUs now : ℚ} (busy : c.flight = some f) (elapsed : 0 ≤ dtUs)
    (bound : dtUs ≤ d) :
    Level S nonempty (d / leastGrant S nonempty first) first (finish cfg c f dtUs now) := by
  have lowest := level.flight f busy
  have books := finish_charged lowest cfg dtUs now
  have share : 1 ≤ max (grantedOf c f.name) 1 := le_max_right _ _
  have smallest : leastGrant S nonempty first ≤ max (grantedOf c f.name) 1 := by
    rw [level.granted]
    exact Finset.inf'_le (fun name => max (grantedOf first name) 1) lowest.member
  have positive : 0 < leastGrant S nonempty first := by
    apply lt_of_lt_of_le zero_lt_one
    exact Finset.le_inf' nonempty _ fun name _ => le_max_right _ _
  have raised : ratioOf (finish cfg c f dtUs now) f.name =
      ratioOf c f.name + dtUs / max (grantedOf c f.name) 1 := by
    simp only [ratioOf, (books f.name).1, (books f.name).2, if_true]
    rw [add_div]
  have others : ∀ n ∈ S, n ≠ f.name → ratioOf (finish cfg c f dtUs now) n = ratioOf c n := by
    intro n _ other
    simp [ratioOf, (books n).1, (books n).2, other]
  have up : ratioOf c f.name ≤ ratioOf (finish cfg c f dtUs now) f.name := by
    rw [raised]
    exact le_add_of_nonneg_right (div_nonneg elapsed (by linarith))
  have step : dtUs / max (grantedOf c f.name) 1 ≤ d / leastGrant S nonempty first :=
    div_le_div₀ (by linarith) bound positive smallest
  constructor
  case granted =>
    intro n
    rw [(books n).2, level.granted n]
  case together =>
    have bounded : ratioOf (finish cfg c f dtUs now) f.name ≤
        ratioOf c f.name + d / leastGrant S nonempty first := by
      rw [raised]
      linarith
    have once : spread S nonempty (ratioOf (finish cfg c f dtUs now)) ≤
        max (spread S nonempty (ratioOf c)) (d / leastGrant S nonempty first) :=
      spread_raise lowest.member lowest.lowest others up bounded
    exact once.trans (max_le level.together (le_max_right _ _))
  case rising =>
    apply level.rising.trans
    apply least_mono
    intro n inside
    by_cases same : n = f.name
    · rw [same]
      exact up
    · exact (others n inside same).ge
  case flight =>
    intro g still
    cases still

theorem step_level (level : Level S nonempty (d / leastGrant S nonempty first) first c)
    {ev : Event Name Req} (competing : Competing S d c ev) (step : CoreStep cfg c ev c') :
    Level S nonempty (d / leastGrant S nonempty first) first c' := by
  cases step with
  | register name => exact register_level level name
  | unregister name => exact competing.elim
  | cmd name k => exact competing.elim
  | submit h => exact submit_level level h
  | idle => exact level
  | selected free chosen pop => exact selected_level level competing chosen pop
  | finished busy elapsed => exact finished_level level busy elapsed competing
  | raised busy =>
    refine level_of_books level (fun n => ⟨rfl, rfl⟩) ?_
    intro f still
    cases still

end Stretch

/-- Between two steps of the scheduler, and while the same tenants compete: their ratios stay
    as close together as they were or as one run of the smallest grant, and the least of them
    never falls. -/
theorem deficit_fairness {cfg : Config} {S : Finset Name} (nonempty : S.Nonempty) {d : ℚ}
    {c c' : Core Name Req} {events : List (Event Name Req)} (free : c.flight = none)
    (run : Run (Guarded (Competing S d) (CoreStep cfg)) c events c') :
    spread S nonempty (ratioOf c') ≤
        max (spread S nonempty (ratioOf c)) (d / leastGrant S nonempty c) ∧
      least S nonempty (ratioOf c) ≤ least S nonempty (ratioOf c') := by
  have start : Level S nonempty (d / leastGrant S nonempty c) c c := by
    refine ⟨fun _ => rfl, le_max_left _ _, le_refl _, ?_⟩
    intro f busy
    rw [free] at busy
    cases busy
  have level : Level S nonempty (d / leastGrant S nonempty c) c c' := by
    apply run_invariant (Level S nonempty (d / leastGrant S nonempty c) c) _ run start
    rintro x ev y level ⟨competing, step⟩
    exact step_level level competing step
  exact ⟨level.together, level.rising⟩

def twoToOne : List (Event Bool ℕ) :=
  [.register false, .register true, .cmd false (.timeAdd 40), .cmd true (.timeAdd 20),
    .submit false 1, .submit false 2, .submit false 3, .submit true 4, .submit true 5,
    .submit true 6]

def threeRuns : List (Event Bool ℕ) :=
  [.selected (some ⟨false, 0, 1, false⟩), .finished ⟨false, 0, 1, false⟩ 10 10,
    .selected (some ⟨true, 1, 4, false⟩), .submit true 7, .finished ⟨true, 1, 4, false⟩ 10 20,
    .selected (some ⟨false, 0, 2, false⟩), .finished ⟨false, 0, 2, false⟩ 10 30]

instance (S : Finset Name) (d : ℚ) (c : Core Name Req) : ∀ ev, Decidable (Competing S d c ev)
  | .cmd .. => isFalse id
  | .unregister _ => isFalse id
  | .selected _ => inferInstanceAs (Decidable (_ = S))
  | .finished _ dtUs _ => inferInstanceAs (Decidable (dtUs ≤ d))
  | .register _ | .submit .. | .raised _ => isTrue trivial

def competitors : Finset Bool := {false, true}

theorem competitors_nonempty : competitors.Nonempty := ⟨false, by decide⟩

theorem two_to_one_fair : ∃ c c', Run (CoreStep {}) Core.init twoToOne c ∧
    Run (Guarded (Competing competitors 10) (CoreStep {})) c threeRuns c' ∧
    ratioOf c' false = 1 / 2 ∧
    spread competitors competitors_nonempty (ratioOf c') ≤
      max (spread competitors competitors_nonempty (ratioOf c))
        (10 / leastGrant competitors competitors_nonempty c) ∧
    least competitors competitors_nonempty (ratioOf c) ≤
      least competitors competitors_nonempty (ratioOf c') := by
  let c : Core Bool ℕ := (exec (next {}) Core.init twoToOne).getD Core.init
  have reached : exec (next {}) Core.init twoToOne = some c := by decide +kernel
  obtain ⟨c', guarded, half⟩ := guarded_run_reaches (Competing competitors 10)
    (fun c' : Core Bool ℕ => decide (ratioOf c' false = 1 / 2))
    (show (exec (guarding (Competing competitors 10) (next {})) c threeRuns).any _ = true by
      decide +kernel)
  have run : Run (Guarded (Competing competitors 10) (CoreStep {})) c threeRuns c' :=
    run_mono (fun _ _ _ step => ⟨step.1, step_of_next step.2⟩) guarded
  exact ⟨c, c', run_of_next reached, run, of_decide_eq_true half,
    deficit_fairness competitors_nonempty (by decide +kernel) run⟩

end GateCore
