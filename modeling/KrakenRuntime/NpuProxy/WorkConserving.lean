import KrakenRuntime.NpuProxy.GateCore

/- The work-conserving gate against the strict one. A ride-along run leaves no trace in
   the contract books, so taking the ride-along steps out of an execution, and with them
   the submissions of the requests they served, leaves an execution of the strict gate.
   Only the time of a tenant's last run differs, and it decides nothing but ties. -/
namespace GateCore
open Runs
variable {Name Req : Type} [DecidableEq Name] [DecidableEq Req]

def submissions (events : List (Event Name Req)) : List Req :=
  events.filterMap fun
    | .submit _ req => some req
    | _ => none

def servedRequests (events : List (Event Name Req)) : List Req :=
  events.filterMap fun
    | .selected (some f) => some f.req
    | _ => none

def riddenRequests (events : List (Event Name Req)) : List Req :=
  events.filterMap fun
    | .selected (some f) => if f.extra then some f.req else none
    | _ => none

def contractRuns (events : List (Event Name Req)) : List (Flight Name Req × ℚ) :=
  events.filterMap fun
    | .finished f dtUs _ => if f.extra then none else some (f, dtUs)
    | _ => none

/-- Is the event left once the ride-along steps that served `ridden` are deleted? -/
def remains (ridden : List Req) : Event Name Req → Bool
  | .submit _ req => decide (req ∉ ridden)
  | .selected (some f) => !f.extra
  | .finished f _ _ => !f.extra
  | .raised f => !f.extra
  | _ => true

def withoutRides (ridden : List Req) (events : List (Event Name Req)) : List (Event Name Req) :=
  events.filter (remains ridden)

/-- The strict gate's choice with ties of the contract ratio resolved either way. -/
def Tied (c : Core Name Req) : Option ((Name × Tenant Req) × Bool) → Prop
  | none => candidates c = []
  | some (e, extra) =>
    extra = false ∧ e ∈ candidates c ∧ ∀ u ∈ candidates c, ratio e.2 ≤ ratio u.2

def Config.strict (cfg : Config) : Config := { cfg with workConserving := false }

abbrev StrictStep (cfg : Config) : Core Name Req → Event Name Req → Core Name Req → Prop :=
  Step cfg.strict Tied

omit [DecidableEq Name] [DecidableEq Req] in
theorem ratio_le_of_key_le {t u : Tenant Req} (h : key t ≤ key u) : ratio t ≤ ratio u := by
  rcases Prod.Lex.toLex_le_toLex.mp h with lt | ⟨eq, _⟩
  · exact le_of_lt lt
  · exact le_of_eq eq

omit [DecidableEq Name] [DecidableEq Req] in
theorem strict_choice_tied {cfg : Config} {c : Core Name Req}
    {r : Option ((Name × Tenant Req) × Bool)} (h : Chosen cfg.strict c r) : Tied c r := by
  match r with
  | none => exact (eligible_none h).1
  | some (e, false) =>
    obtain ⟨mem, least⟩ := eligible_contract h
    exact ⟨rfl, mem, fun u hu => ratio_le_of_key_le (least u hu)⟩
  | some (e, true) =>
    have conserving := (eligible_extra h).2.1
    cases conserving

structure SameBooks (t u : Tenant Req) : Prop where
  armed : u.armed = t.armed
  unlimited : u.unlimited = t.unlimited
  credit : u.creditUs = t.creditUs
  granted : u.grantedUs = t.grantedUs
  charged : u.chargedUs = t.chargedUs

/-- A tenant object without the requests that will be ridden. -/
structure Thin (ridden : List Req) (t u : Tenant Req) : Prop extends SameBooks t u where
  oid : u.oid = t.oid
  queue : u.queue = t.queue.filter (· ∉ ridden)

structure Thinned (ridden : List Req) (c s : Core Name Req) : Prop where
  nextOid : s.nextOid = c.nextOid
  tenants : ∀ n, Option.Rel (Thin ridden) (c.tenants.get? n) (s.tenants.get? n)
  flight : s.flight = c.flight.filter fun f => !f.extra

omit [DecidableEq Req] in
theorem SameBooks.ratio {t u : Tenant Req} (h : SameBooks t u) : GateCore.ratio u = GateCore.ratio t := by
  simp [GateCore.ratio, h.charged, h.granted]

omit [DecidableEq Req] in
theorem SameBooks.mayRun {t u : Tenant Req} (h : SameBooks t u) :
    GateCore.mayRun u = GateCore.mayRun t := by
  simp [GateCore.mayRun, h.armed, h.unlimited, h.credit]

section Simulation
variable {ridden : List Req} {c c' s : Core Name Req}

omit [DecidableEq Name] in
theorem rel_map {a b : Option (Tenant Req)} {f g : Tenant Req → Tenant Req}
    (h : Option.Rel (Thin ridden) a b) (both : ∀ t u, Thin ridden t u → Thin ridden (f t) (g u)) :
    Option.Rel (Thin ridden) (a.map f) (b.map g) := by
  cases h with
  | none => exact .none
  | some thin => exact .some (both _ _ thin)

theorem rel_modify (h : Thinned ridden c s) (name : Name) {f g : Tenant Req → Tenant Req}
    (both : ∀ t u, Thin ridden t u → Thin ridden (f t) (g u)) (n : Name) :
    Option.Rel (Thin ridden) ((c.tenants.modify name f).get? n) ((s.tenants.modify name g).get? n) := by
  simp only [Dict.get?_modify]
  split
  · exact rel_map (h.tenants n) both
  · exact h.tenants n

theorem rel_modify_left (h : Thinned ridden c s) (name : Name) {f : Tenant Req → Tenant Req}
    (unseen : ∀ t u, c.tenants.get? name = some t → Thin ridden t u → Thin ridden (f t) u)
    (n : Name) :
    Option.Rel (Thin ridden) ((c.tenants.modify name f).get? n) (s.tenants.get? n) := by
  simp only [Dict.get?_modify]
  split
  · rename_i same
    subst n
    have rel := h.tenants name
    cases hc : c.tenants.get? name with
    | none =>
      rw [hc] at rel
      exact rel
    | some t =>
      rw [hc] at rel
      generalize s.tenants.get? name = b at rel ⊢
      cases rel with
      | some thin => exact .some (unseen t _ hc thin)
  · exact h.tenants n

theorem thin_of_get? (h : Thinned ridden c s) {n : Name} {u : Tenant Req}
    (registered : s.tenants.get? n = some u) :
    ∃ t, c.tenants.get? n = some t ∧ Thin ridden t u := by
  have rel := h.tenants n
  rw [registered] at rel
  generalize hc : c.tenants.get? n = a at rel
  cases rel with
  | some thin => exact ⟨_, rfl, thin⟩

theorem thinner_of_get? (h : Thinned ridden c s) {n : Name} {t : Tenant Req}
    (registered : c.tenants.get? n = some t) :
    ∃ u, s.tenants.get? n = some u ∧ Thin ridden t u := by
  have rel := h.tenants n
  rw [registered] at rel
  generalize hs : s.tenants.get? n = b at rel
  cases rel with
  | some thin => exact ⟨_, rfl, thin⟩

theorem register_thinned (h : Thinned ridden c s) (name : Name) :
    Thinned ridden (register c name) (register s name) := by
  refine ⟨by simp [register, h.nextOid], ?_, h.flight⟩
  intro n
  simp only [register, Dict.get?_setDefault, h.nextOid]
  split
  · have rel := h.tenants name
    generalize c.tenants.get? name = a at rel
    generalize s.tenants.get? name = b at rel
    cases rel with
    | none => exact .some ⟨⟨rfl, rfl, rfl, rfl, rfl⟩, rfl, rfl⟩
    | some thin => exact .some thin
  · exact h.tenants n

theorem unregister_thinned (h : Thinned ridden c s) (name : Name) :
    Thinned ridden (unregister c name).1 (unregister s name).1 := by
  refine ⟨h.nextOid, ?_, h.flight⟩
  intro n
  simp only [unregister, Dict.get?_pop]
  split
  · exact .none
  · exact h.tenants n

omit [DecidableEq Name] in
theorem applyCmd_thin {cfg : Config} {t u : Tenant Req} (h : Thin ridden t u) (k : Cmd) :
    Thin ridden (applyCmd cfg t k) (applyCmd cfg.strict u k) := by
  obtain ⟨⟨armed, unlimited, credit, granted, charged⟩, oid, queue⟩ := h
  cases k with
  | timeMode m => exact ⟨⟨rfl, by simp [applyCmd, unlimited], credit, granted, charged⟩, oid, queue⟩
  | timeCredit v =>
    by_cases neg : v < 0
    · simp only [applyCmd, neg, ↓reduceIte]
      exact ⟨⟨armed, rfl, rfl, granted, charged⟩, oid, queue⟩
    · simp only [applyCmd, neg, ↓reduceIte]
      exact ⟨⟨armed, rfl, rfl, granted, charged⟩, oid, queue⟩
  | timeAdd v =>
    exact ⟨⟨armed, unlimited, by simp [applyCmd, timeAdd, credit, Config.strict],
      by simp [applyCmd, timeAdd, credit, granted, Config.strict], charged⟩, oid, queue⟩
  | timeStats => exact ⟨⟨armed, unlimited, credit, granted, charged⟩, oid, queue⟩

theorem cmd_thinned {cfg : Config} (h : Thinned ridden c s) (name : Name) (k : Cmd) :
    Thinned ridden (cmd cfg c name k).1 (cmd cfg.strict s name k).1 := by
  have known := h.tenants name
  cases hc : c.tenants.get? name with
  | none =>
    rw [hc] at known
    generalize hs : s.tenants.get? name = b at known
    cases known
    simpa only [cmd, hc, hs] using h
  | some t =>
    obtain ⟨u, hs, _⟩ := thinner_of_get? h hc
    simp only [cmd, hc, hs]
    exact ⟨h.nextOid, rel_modify h name fun t u thin => applyCmd_thin thin k, h.flight⟩

theorem submit_thinned (h : Thinned ridden c s) {name : Name} {req : Req}
    (sub : submit c name req = some c') (stays : req ∉ ridden) :
    ∃ s', submit s name req = some s' ∧ Thinned ridden c' s' := by
  cases hc : c.tenants.get? name with
  | none => simp [submit, hc] at sub
  | some t =>
    obtain ⟨u, hs, _⟩ := thinner_of_get? h hc
    simp only [submit, hc, Option.some.injEq] at sub
    subst c'
    have sent : submit s name req = some
        { s with tenants := s.tenants.modify name fun t => { t with queue := t.queue ++ [req] } } := by
      simp only [submit, hs]
    refine ⟨_, sent, h.nextOid, ?_, h.flight⟩
    apply rel_modify h
    intro t u thin
    exact { thin with queue := by simp [thin.queue, stays] }

theorem submit_ridden (h : Thinned ridden c s) {name : Name} {req : Req}
    (sub : submit c name req = some c') (rides : req ∈ ridden) : Thinned ridden c' s := by
  cases hc : c.tenants.get? name with
  | none => simp [submit, hc] at sub
  | some t =>
    simp only [submit, hc, Option.some.injEq] at sub
    subst c'
    refine ⟨h.nextOid, ?_, h.flight⟩
    apply rel_modify_left h
    intro t u _ thin
    exact { thin with queue := by simp [thin.queue, rides] }

theorem candidate_lifts (h : Thinned ridden c s) {e : Name × Tenant Req} (mem : e ∈ candidates s) :
    ∃ t, (e.1, t) ∈ candidates c ∧ Thin ridden t e.2 := by
  obtain ⟨waiting, may⟩ := mem_candidates.mp mem
  obtain ⟨registered, nonempty⟩ := mem_ready.mp waiting
  obtain ⟨t, found, thin⟩ := thin_of_get? h registered
  refine ⟨t, mem_candidates.mpr ⟨mem_ready.mpr ⟨found, ?_⟩, ?_⟩, thin⟩
  · intro empty
    apply nonempty
    rw [thin.queue, empty]
    rfl
  · rw [← thin.mayRun]
    exact may

theorem idle_thinned (h : Thinned ridden c s) {cfg : Config} (conserving : cfg.workConserving = true)
    (idle : eligible cfg c = none) : candidates s = [] := by
  have none_ready := (eligible_none idle).2 conserving
  apply List.eq_nil_iff_forall_not_mem.mpr
  intro e mem
  obtain ⟨t, lifted, _⟩ := candidate_lifts h mem
  have waiting := (mem_candidates.mp lifted).1
  simp [none_ready] at waiting

theorem ride_thinned (h : Thinned ridden c s) {e : Name × Tenant Req} {f : Flight Name Req}
    (registered : c.tenants.get? e.1 = some e.2) (free : c.flight = none)
    (pop : popFrom c e true = some (c', f)) (rides : f.req ∈ ridden) : Thinned ridden c' s := by
  obtain ⟨rest, queue, _, _, fextra, after⟩ := popFrom_spec pop
  subst c'
  refine ⟨h.nextOid, ?_, by simp [h.flight, free, fextra, Option.filter]⟩
  apply rel_modify_left h
  intro t u found thin
  have object : t = e.2 := Option.some.inj (found.symm.trans registered)
  exact { thin with queue := by rw [thin.queue, object, queue]; simp [rides] }

theorem contract_thinned (h : Thinned ridden c s) {cfg : Config} {e : Name × Tenant Req}
    {f : Flight Name Req} (chosen : eligible cfg c = some (e, false))
    (pop : popFrom c e false = some (c', f)) (stays : f.req ∉ ridden) :
    ∃ u s', Tied s (some ((e.1, u), false)) ∧ popFrom s (e.1, u) false = some (s', f) ∧
      Thinned ridden c' s' := by
  obtain ⟨rest, queue, fname, foid, fextra, after⟩ := popFrom_spec pop
  obtain ⟨mem, least⟩ := eligible_contract chosen
  obtain ⟨waiting, may⟩ := mem_candidates.mp mem
  obtain ⟨u, found, thin⟩ := thinner_of_get? h (mem_ready.mp waiting).1
  have thinQueue : u.queue = f.req :: rest.filter (· ∉ ridden) := by
    rw [thin.queue, queue]
    simp [stays]
  have sameFlight : (⟨e.1, u.oid, f.req, false⟩ : Flight Name Req) = f := by
    rw [thin.oid, ← fname, ← foid, ← fextra]
  have popped : popFrom s (e.1, u) false = some
      ({ s with
        tenants := s.tenants.modify e.1 fun t => { t with queue := rest.filter (· ∉ ridden) }
        flight := some f }, f) := by
    simp only [popFrom, thinQueue, sameFlight]
  refine ⟨u, _, ⟨rfl, ?_, ?_⟩, popped, ?_⟩
  · have nonempty : u.queue ≠ [] := by simp [thinQueue]
    exact mem_candidates.mpr ⟨mem_ready.mpr ⟨found, nonempty⟩, thin.mayRun.trans may⟩
  · intro v hv
    obtain ⟨t, lifted, thinV⟩ := candidate_lifts h hv
    rw [thin.ratio, thinV.ratio]
    exact ratio_le_of_key_le (least _ lifted)
  · subst c'
    refine ⟨h.nextOid, ?_, by simp [fextra, Option.filter]⟩
    apply rel_modify h
    intro t w thinW
    exact { thinW with queue := rfl }

omit [DecidableEq Name] in
theorem charge_extra_thin {cfg : Config} (exact_books : cfg.legacyRepay = false)
    {t u : Tenant Req} (h : Thin ridden t u) (dtUs now : ℚ) :
    Thin ridden (charge cfg true dtUs now t) u := by
  obtain ⟨⟨armed, unlimited, credit, granted, charged⟩, oid, queue⟩ := h
  simp only [charge, exact_books, Bool.not_false, Bool.and_self, ↓reduceIte]
  exact ⟨⟨armed, unlimited, credit, granted, charged⟩, oid, queue⟩

omit [DecidableEq Name] in
theorem charge_contract_thin {cfg : Config} {t u : Tenant Req} (h : Thin ridden t u)
    (dtUs now : ℚ) :
    Thin ridden (charge cfg false dtUs now t) (charge cfg.strict false dtUs now u) := by
  obtain ⟨⟨armed, unlimited, credit, granted, charged⟩, oid, queue⟩ := h
  exact ⟨⟨armed, unlimited, by simp [charge, armed, unlimited, credit], granted,
    by simp [charge, charged]⟩, oid, queue⟩

theorem finish_ride (h : Thinned ridden c s) {cfg : Config} (exact_books : cfg.legacyRepay = false)
    {f : Flight Name Req} (busy : c.flight = some f) (ride : f.extra = true) (dtUs now : ℚ) :
    Thinned ridden (finish cfg c f dtUs now) s := by
  refine ⟨h.nextOid, ?_, by simp [h.flight, busy, ride, finish, Option.filter]⟩
  apply rel_modify_left h
  intro t u _ thin
  split
  · rw [ride]
    exact charge_extra_thin exact_books thin dtUs now
  · exact thin

theorem finish_contract (h : Thinned ridden c s) {cfg : Config} {f : Flight Name Req}
    (contract : f.extra = false) (dtUs now : ℚ) :
    Thinned ridden (finish cfg c f dtUs now) (finish cfg.strict s f dtUs now) := by
  refine ⟨h.nextOid, ?_, rfl⟩
  apply rel_modify h
  intro t u thin
  rw [thin.oid, contract]
  split
  · exact charge_contract_thin thin dtUs now
  · exact thin

/-- A label about a run agrees with the list of ridden requests. -/
def Honest (ridden : List Req) : Event Name Req → Prop
  | .selected (some f) => f.extra = true ↔ f.req ∈ ridden
  | _ => True

/-- One event of the work-conserving gate: deleted, or taken by the strict gate as well. -/
theorem step_thinned {cfg : Config} (exact_books : cfg.legacyRepay = false)
    (conserving : cfg.workConserving = true) (h : Thinned ridden c s) {ev : Event Name Req}
    (honest : Honest ridden ev) (step : CoreStep cfg c ev c') :
    if remains ridden ev then ∃ s', StrictStep cfg s ev s' ∧ Thinned ridden c' s'
    else Thinned ridden c' s := by
  cases step with
  | register name => exact ⟨_, .register s name, register_thinned h name⟩
  | unregister name => exact ⟨_, .unregister s name, unregister_thinned h name⟩
  | cmd name k => exact ⟨_, .cmd s name k, cmd_thinned h name k⟩
  | @submit _ name req sub =>
    by_cases rides : req ∈ ridden
    · rw [if_neg (by simp [remains, rides])]
      exact submit_ridden h sub rides
    · rw [if_pos (by simp [remains, rides])]
      obtain ⟨s', sent, thinned⟩ := submit_thinned h sub rides
      exact ⟨s', .submit sent, thinned⟩
  | idle free idle =>
    have quiet : s.flight = none := by simp [h.flight, free]
    exact ⟨s, .idle quiet (idle_thinned h conserving idle), h⟩
  | @selected _ e extra f free chosen pop =>
    obtain ⟨_, _, _, _, fextra, _⟩ := popFrom_spec pop
    cases extra with
    | true =>
      rw [if_neg (by simp [remains, fextra])]
      have registered := (mem_ready.mp (eligible_extra chosen).2.2.1).1
      exact ride_thinned h registered free pop (honest.mp fextra)
    | false =>
      rw [if_pos (by simp [remains, fextra])]
      have stays : f.req ∉ ridden := by
        intro rides
        have ride := honest.mpr rides
        simp [fextra] at ride
      obtain ⟨u, s', tied, popped, thinned⟩ := contract_thinned h chosen pop stays
      have quiet : s.flight = none := by simp [h.flight, free]
      exact ⟨s', .selected quiet tied popped, thinned⟩
  | @finished f dtUs now busy elapsed =>
    cases ride : f.extra with
    | true =>
      rw [if_neg (by simp [remains, ride])]
      exact finish_ride h exact_books busy ride dtUs now
    | false =>
      rw [if_pos (by simp [remains, ride])]
      have strictBusy : s.flight = some f := by simp [h.flight, busy, ride, Option.filter]
      exact ⟨_, .finished strictBusy elapsed, finish_contract h ride dtUs now⟩
  | @raised f busy =>
    cases ride : f.extra with
    | true =>
      rw [if_neg (by simp [remains, ride])]
      exact ⟨h.nextOid, h.tenants, by simp [h.flight, busy, ride, Option.filter]⟩
    | false =>
      rw [if_pos (by simp [remains, ride])]
      have strictBusy : s.flight = some f := by simp [h.flight, busy, ride, Option.filter]
      exact ⟨_, .raised strictBusy, h.nextOid, h.tenants, rfl⟩

theorem run_thinned {cfg : Config} (exact_books : cfg.legacyRepay = false)
    (conserving : cfg.workConserving = true) {events : List (Event Name Req)}
    (run : Run (CoreStep cfg) c events c') (honest : ∀ ev ∈ events, Honest ridden ev)
    (h : Thinned ridden c s) :
    ∃ s', Run (StrictStep cfg) s (withoutRides ridden events) s' ∧ Thinned ridden c' s' := by
  induction run generalizing s with
  | nil => exact ⟨s, .nil s, h⟩
  | @cons _ _ _ ev rest first tail ih =>
    have later : ∀ ev ∈ rest, Honest ridden ev := fun ev mem =>
      honest ev (List.mem_cons_of_mem _ mem)
    have one := step_thinned exact_books conserving h (honest ev (by simp)) first
    cases kept : remains ridden ev with
    | true =>
      rw [kept] at one
      obtain ⟨s1, strict, thinned⟩ := one
      obtain ⟨s', strictTail, thinned'⟩ := ih later thinned
      refine ⟨s', ?_, thinned'⟩
      rw [withoutRides, List.filter_cons_of_pos kept]
      exact .cons strict strictTail
    | false =>
      rw [kept] at one
      obtain ⟨s', strictTail, thinned'⟩ := ih later (by simpa using one)
      refine ⟨s', ?_, thinned'⟩
      rw [withoutRides, List.filter_cons_of_neg (by simp [kept])]
      exact strictTail

end Simulation

def queuedCount (c : Core Name Req) (req : Req) : ℕ := c.tenants.total fun t => t.queue.count req

def handedBack (c : Core Name Req) : Event Name Req → List Req
  | .unregister name => (unregister c name).2
  | _ => []

theorem step_conserves {cfg : Config} {c c' : Core Name Req} {ev : Event Name Req} (req : Req)
    (step : CoreStep cfg c ev c') :
    (servedRequests [ev]).count req + queuedCount c' req + (handedBack c ev).count req =
      queuedCount c req + (submissions [ev]).count req := by
  cases step with
  | register name =>
    have same : queuedCount (register c name) req = queuedCount c req := by
      simp only [queuedCount, register]
      cases present : c.tenants.get? name with
      | none => simp [Dict.total_setDefault_of_absent _ _ _ present]
      | some t => rw [Dict.setDefault_of_present _ _ present]
    simp [servedRequests, submissions, handedBack, same]
  | unregister name =>
    have removed := c.tenants.total_pop name fun t : Tenant Req => t.queue.count req
    simp only [servedRequests, submissions, queuedCount, handedBack, unregister,
      List.filterMap_cons, List.filterMap_nil, List.count_nil]
    cases present : c.tenants.get? name <;> simp [present] at removed ⊢ <;> omega
  | cmd name k =>
    have same : queuedCount (cmd cfg c name k).1 req = queuedCount c req := by
      unfold cmd
      split
      · rfl
      · simp only [queuedCount]
        apply Dict.total_modify_of_eq
        intro t
        rw [applyCmd_queue]
    simp [servedRequests, submissions, handedBack, same]
  | @submit _ name r sub =>
    cases present : c.tenants.get? name with
    | none => simp [submit, present] at sub
    | some t =>
      simp only [submit, present, Option.some.injEq] at sub
      subst c'
      have moved := Dict.total_modify c.tenants (fun t => { t with queue := t.queue ++ [r] })
        (fun t : Tenant Req => t.queue.count req) present
      simp only [servedRequests, submissions, queuedCount, handedBack, List.filterMap_cons,
        List.filterMap_nil, List.count_nil, List.count_append] at moved ⊢
      omega
  | idle => simp [servedRequests, submissions, handedBack]
  | @selected _ e extra f free chosen pop =>
    obtain ⟨rest, queue, _, _, _, after⟩ := popFrom_spec pop
    have registered := (mem_ready.mp (eligible_ready chosen)).1
    have moved := Dict.total_modify c.tenants (fun t => { t with queue := rest })
      (fun t : Tenant Req => t.queue.count req) registered
    subst c'
    simp only [servedRequests, submissions, queuedCount, handedBack, List.filterMap_cons,
      List.filterMap_nil, List.count_nil, queue, List.count_cons] at moved ⊢
    omega
  | @finished f dtUs now =>
    have same : queuedCount (finish cfg c f dtUs now) req = queuedCount c req := by
      simp only [queuedCount, finish]
      apply Dict.total_modify_of_eq
      intro t
      split
      · rw [charge_queue]
      · rfl
    simp [servedRequests, submissions, handedBack, same]
  | raised => simp [servedRequests, submissions, queuedCount, handedBack]

theorem run_counts {cfg : Config} {c c' : Core Name Req} {events : List (Event Name Req)}
    (req : Req) (run : Run (CoreStep cfg) c events c') :
    (servedRequests events).count req + queuedCount c' req ≤
      queuedCount c req + (submissions events).count req := by
  induction run with
  | nil => simp [servedRequests, submissions]
  | @cons _ _ _ ev rest first tail ih =>
    have one := step_conserves req first
    have split (g : Event Name Req → Option Req) :
        ((ev :: rest).filterMap g).count req =
          ([ev].filterMap g).count req + (rest.filterMap g).count req := by
      rw [← List.count_append, ← List.filterMap_append]
      rfl
    simp only [servedRequests, submissions] at one ih ⊢
    rw [split, split]
    omega

omit [DecidableEq Req] in
theorem strict_step_deterministic {cfg : Config} {s s1 s2 : Core Name Req} {ev : Event Name Req}
    (first : StrictStep cfg s ev s1) (second : StrictStep cfg s ev s2) : s1 = s2 := by
  cases first with
  | register => cases second; rfl
  | unregister => cases second; rfl
  | cmd => cases second; rfl
  | submit sub =>
    cases second with
    | submit sub' => exact Option.some.inj (sub.symm.trans sub')
  | idle => cases second; rfl
  | @selected _ e extra f _ tied pop =>
    cases second with
    | @selected _ e' extra' _ _ tied' pop' =>
      obtain ⟨rfl, mem, _⟩ := tied
      obtain ⟨rfl, mem', _⟩ := tied'
      obtain ⟨_, _, fname, _⟩ := popFrom_spec pop
      obtain ⟨_, _, fname', _⟩ := popFrom_spec pop'
      have found := (mem_ready.mp (mem_candidates.mp mem).1).1
      have found' := (mem_ready.mp (mem_candidates.mp mem').1).1
      have names : e.1 = e'.1 := fname.symm.trans fname'
      have object : e.2 = e'.2 := by
        rw [names, found'] at found
        exact (Option.some.inj found).symm
      have same : e = e' := Prod.ext names object
      subst e'
      have eq := pop.symm.trans pop'
      simp only [Option.some.injEq, Prod.mk.injEq, and_true] at eq
      exact eq
  | finished => cases second; rfl
  | raised => cases second; rfl

omit [DecidableEq Name] in
theorem contractRuns_withoutRides (ridden : List Req) (events : List (Event Name Req)) :
    contractRuns (withoutRides ridden events) = contractRuns events := by
  simp only [contractRuns, withoutRides, List.filterMap_filter]
  apply List.filterMap_congr
  intro ev _
  cases ev with
  | finished f dtUs now => cases h : f.extra <;> simp [remains, h]
  | submit name req => split <;> rfl
  | selected choice =>
    cases choice with
    | none => rfl
    | some f => cases h : f.extra <;> simp [remains, h]
  | raised f => cases h : f.extra <;> simp [remains, h]
  | register => rfl
  | unregister => rfl
  | cmd => rfl

/-- Requests are objects, and the proxy builds a new one for every submission: a ride-along
    and a contract run never serve the same one. -/
theorem honest_of_distinct {cfg : Config} {c : Core Name Req} {events : List (Event Name Req)}
    (run : Run (CoreStep cfg) Core.init events c) (distinct : (submissions events).Nodup) :
    ∀ ev ∈ events, Honest (riddenRequests events) ev := by
  intro ev mem
  match ev with
  | .selected (some f) =>
    constructor
    · intro ride
      exact List.mem_filterMap.mpr ⟨_, mem, by simp [ride]⟩
    · intro rides
      obtain ⟨ev', mem', eq⟩ := List.mem_filterMap.mp rides
      match ev' with
      | .selected (some g) =>
        by_contra contract
        simp only [Option.ite_none_right_eq_some, Option.some.injEq] at eq
        have differ : (.selected (some f) : Event Name Req) ≠ .selected (some g) := by
          intro same
          cases same
          exact contract eq.1
        have twice : 2 ≤ (servedRequests events).count f.req := by
          obtain ⟨l, r, split⟩ := List.append_of_mem mem
          subst events
          have other : .selected (some g) ∈ l ++ r := by
            simp only [List.mem_append, List.mem_cons] at mem' ⊢
            rcases mem' with h | h | h
            · exact Or.inl h
            · exact absurd h.symm differ
            · exact Or.inr h
          have once : f.req ∈ servedRequests (l ++ r) :=
            List.mem_filterMap.mpr ⟨_, other, by simp [eq.2]⟩
          have pos := List.count_pos_iff.mpr once
          simp only [servedRequests, List.filterMap_append, List.filterMap_cons,
            List.count_append, List.count_cons_self] at pos ⊢
          omega
        have bound := run_counts f.req run
        have few := List.nodup_iff_count_le_one.mp distinct f.req
        simp only [queuedCount, Core.init, Dict.total_empty] at bound
        omega
  | .selected none => trivial
  | .register _ => trivial
  | .unregister _ => trivial
  | .cmd _ _ => trivial
  | .submit _ _ => trivial
  | .finished _ _ _ => trivial
  | .raised _ => trivial

def SameContracts (c s : Core Name Req) : Prop :=
  ∀ n, Option.Rel SameBooks (c.tenants.get? n) (s.tenants.get? n)

theorem sameContracts_of_thinned {ridden : List Req} {c s : Core Name Req}
    (h : Thinned ridden c s) : SameContracts c s := by
  intro n
  have rel := h.tenants n
  generalize c.tenants.get? n = a at rel
  generalize s.tenants.get? n = b at rel
  cases rel with
  | none => exact .none
  | some thin => exact .some thin.toSameBooks

theorem thinned_init (ridden : List Req) :
    Thinned ridden (Core.init : Core Name Req) (Core.init : Core Name Req) :=
  ⟨rfl, fun _ => .none, rfl⟩

/-- Deleting the ride-alongs of a work-conserving execution leaves a strict execution with
    the same contract runs, and at every point the same contract books. -/
theorem work_conserving_refines_strict {cfg : Config} (exact_books : cfg.legacyRepay = false)
    (conserving : cfg.workConserving = true) {c : Core Name Req} {events : List (Event Name Req)}
    (run : Run (CoreStep cfg) Core.init events c) (distinct : (submissions events).Nodup) :
    ∃ s, Run (StrictStep cfg) Core.init (withoutRides (riddenRequests events) events) s ∧
      SameContracts c s ∧
      contractRuns (withoutRides (riddenRequests events) events) = contractRuns events ∧
      ∀ before after b, events = before ++ after → Run (CoreStep cfg) Core.init before b →
        ∃ m, Run (StrictStep cfg) Core.init (withoutRides (riddenRequests events) before) m ∧
          Run (StrictStep cfg) m (withoutRides (riddenRequests events) after) s ∧
          SameContracts b m := by
  have honest := honest_of_distinct run distinct
  obtain ⟨s, strict, thinned⟩ := run_thinned exact_books conserving run honest (thinned_init _)
  refine ⟨s, strict, sameContracts_of_thinned thinned, contractRuns_withoutRides _ _, ?_⟩
  intro before after b split reaches
  have early : ∀ ev ∈ before, Honest (riddenRequests events) ev := by
    intro ev mem
    exact honest ev (by rw [split]; exact List.mem_append_left _ mem)
  obtain ⟨m, strictBefore, thinnedB⟩ :=
    run_thinned exact_books conserving reaches early (thinned_init _)
  -- the strict run is determined by its labels, so its own middle state is this one
  have pieces (ridden : List Req) : withoutRides ridden events =
      withoutRides ridden before ++ withoutRides ridden after := by
    rw [split]
    exact List.filter_append _ _
  rw [pieces] at strict
  obtain ⟨m', first, second⟩ := run_split strict
  have same : m' = m := by
    apply run_deterministic _ first strictBefore
    intro u ev v w h h'
    exact strict_step_deterministic h h'
  subst same
  exact ⟨m', first, second, sameContracts_of_thinned thinnedB⟩

theorem one_ride_one_contract :
    let ride : Flight ℕ ℕ := ⟨0, 0, 1, true⟩
    let paid : Flight ℕ ℕ := ⟨0, 0, 2, false⟩
    let events : List (Event ℕ ℕ) := [.register 0, .cmd 0 (.timeMode 1), .submit 0 1,
      .selected (some ride), .submit 0 2, .finished ride 30 1, .cmd 0 (.timeAdd 50),
      .selected (some paid), .finished paid 20 2]
    ∃ c s, exec (next {}) Core.init events = some c ∧
      Run (StrictStep {}) Core.init [.register 0, .cmd 0 (.timeMode 1), .submit 0 2,
        .cmd 0 (.timeAdd 50), .selected (some paid), .finished paid 20 2] s ∧
      SameContracts c s := by
  intro ride paid events
  let c := (exec (next {}) Core.init events).getD Core.init
  have run : exec (next {}) Core.init events = some c := by decide +kernel
  obtain ⟨s, strict, same, _⟩ :=
    work_conserving_refines_strict rfl rfl (run_of_next run) (by decide)
  exact ⟨c, s, run, strict, same⟩

end GateCore
