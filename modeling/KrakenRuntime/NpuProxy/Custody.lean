import KrakenRuntime.NpuProxy.WorkConserving

/- Where every request of the gate is, and what every tenant has been charged for, over whole
   runs of the core with any interleaving of the calls. A step of the scheduler holds the
   lock only at its two ends, so a tenant may be removed or made anew while its request
   runs. The runner does not raise here. -/
namespace GateCore
open Runs
variable {Name Req : Type} [DecidableEq Name] [DecidableEq Req]

/-- What has happened so far. `runs` has, for each name, the completed runs that were selected
    since its latest registration, with whether they were ride-alongs and how long they took;
    `current` says that the run in flight was selected since then. -/
structure History (Name Req : Type) where
  submitted : List (Name × Req) := []
  selected : List (Name × Req) := []
  returned : List Req := []
  handedBack : List Req := []
  runs : Name → List (Bool × ℚ) := fun _ => []
  current : Bool := true

/-- A call of register for a name that is already there registers nothing. -/
def observeRegister (c : Core Name Req) (name : Name) (h : History Name Req) : History Name Req :=
  match c.tenants.get? name with
  | some _ => h
  | none =>
    { h with
      runs := Function.update h.runs name []
      current := h.current && (c.flight.all fun f => decide (f.name ≠ name)) }

def observeFinished (f : Flight Name Req) (dtUs : ℚ) (h : History Name Req) : History Name Req :=
  { h with
    returned := h.returned ++ [f.req]
    runs :=
      if h.current then Function.update h.runs f.name (h.runs f.name ++ [(f.extra, dtUs)])
      else h.runs }

def observe (c : Core Name Req) : Event Name Req → History Name Req → History Name Req
  | .register name, h => observeRegister c name h
  | .unregister name, h => { h with handedBack := h.handedBack ++ (unregister c name).2 }
  | .submit name req, h => { h with submitted := h.submitted ++ [(name, req)] }
  | .selected (some f), h =>
    { h with selected := h.selected ++ [(f.name, f.req)], current := true }
  | .finished f dtUs _, h => observeFinished f dtUs h
  | _, h => h

def ofTenant (name : Name) (requests : List (Name × Req)) : List Req :=
  (requests.filter fun p => p.1 = name).map Prod.snd

def inFlight (c : Core Name Req) : List Req := (c.flight.map Flight.req).toList

/-- How often a request is in a queue, in flight, returned by a step or handed back. -/
def places (c : Core Name Req) (h : History Name Req) (req : Req) : ℕ :=
  queuedCount c req + (inFlight c).count req + h.returned.count req + h.handedBack.count req

structure Books (t : Tenant Req) (runs : List (Bool × ℚ)) : Prop where
  done : t.doneN = runs.length
  doneExtra : t.doneExtraN = (runs.filter fun r => r.1).length
  extra : t.chargedExtraUs = ((runs.filter fun r => r.1).map Prod.snd).sum
  total : t.chargedUs + t.chargedExtraUs = (runs.map Prod.snd).sum

def Calm : Event Name Req → Prop
  | .raised _ => False
  | _ => True

section Observe
variable (c : Core Name Req) (ev : Event Name Req) (h : History Name Req)

omit [DecidableEq Req] in
theorem observe_submitted : (observe c ev h).submitted.map Prod.snd =
    h.submitted.map Prod.snd ++ submissions [ev] := by
  cases ev with
  | register name =>
    simp only [observe, observeRegister]
    split <;> simp [submissions]
  | selected choice => cases choice <;> simp [observe, submissions]
  | _ => simp [observe, observeFinished, submissions]

omit [DecidableEq Req] in
theorem observe_handedBack : (observe c ev h).handedBack = h.handedBack ++ handedBack c ev := by
  cases ev with
  | register name =>
    simp only [observe, observeRegister]
    split <;> simp [handedBack]
  | selected choice => cases choice <;> simp [observe, handedBack]
  | _ => simp [observe, observeFinished, handedBack]

omit [DecidableEq Req] in
theorem observeRegister_returned (name : Name) :
    (observeRegister c name h).returned = h.returned := by
  unfold observeRegister
  split <;> rfl

end Observe

section Places
variable {cfg : Config} {c c' : Core Name Req} {ev : Event Name Req} {h : History Name Req}

theorem step_flight (calm : Calm ev) (step : CoreStep cfg c ev c') (req : Req) :
    (inFlight c').count req + (observe c ev h).returned.count req =
      (inFlight c).count req + h.returned.count req + (servedRequests [ev]).count req := by
  cases step with
  | register name => simp [observe, observeRegister_returned, servedRequests, inFlight, register]
  | unregister name => simp [observe, servedRequests, inFlight, unregister]
  | cmd name k => simp [observe, servedRequests, inFlight, cmd_flight]
  | submit sub => simp [observe, servedRequests, inFlight, submit_flight sub]
  | idle => simp [observe, servedRequests]
  | @selected _ e extra f free chosen pop =>
    obtain ⟨rest, _, _, _, _, rfl⟩ := popFrom_spec pop
    simp only [observe, servedRequests, inFlight, free, Option.map_some, Option.toList_some,
      Option.map_none, Option.toList_none, List.count_nil, List.filterMap_cons, List.filterMap_nil]
    omega
  | @finished f dtUs now busy elapsed =>
    simp only [observe, observeFinished, servedRequests, inFlight, busy, finish, Option.map_some,
      Option.toList_some, Option.map_none, Option.toList_none, List.count_append, List.count_nil,
      List.filterMap_cons, List.filterMap_nil]
    omega
  | raised => exact calm.elim

theorem step_places (calm : Calm ev) (step : CoreStep cfg c ev c') (req : Req)
    (all : places c h req = (h.submitted.map Prod.snd).count req) :
    places c' (observe c ev h) req = ((observe c ev h).submitted.map Prod.snd).count req := by
  have conserved := step_conserves req step
  have flown := step_flight (h := h) calm step req
  rw [observe_submitted, List.count_append]
  simp only [places, observe_handedBack, List.count_append] at all ⊢
  omega

end Places

section Order
variable {cfg : Config} {c c' : Core Name Req} {ev : Event Name Req} {h : History Name Req}

omit [DecidableEq Req] in
theorem ofTenant_append (name : Name) (xs : List (Name × Req)) (n : Name) (req : Req) :
    ofTenant name (xs ++ [(n, req)]) = ofTenant name xs ++ if n = name then [req] else [] := by
  by_cases same : n = name <;> simp [ofTenant, same]

/-- What was selected and what still waits, in this order, was submitted in this order. -/
def Ordered (c : Core Name Req) (h : History Name Req) : Prop :=
  ∀ name, (ofTenant name h.selected ++ queueOf c name).Sublist (ofTenant name h.submitted)

omit [DecidableEq Req] in
theorem ordered_of_same {h' : History Name Req} (ordered : Ordered c h)
    (selected : h'.selected = h.selected) (submitted : h'.submitted = h.submitted)
    (queues : ∀ name, (queueOf c' name).Sublist (queueOf c name)) : Ordered c' h' := by
  intro name
  rw [selected, submitted]
  exact (List.Sublist.append_left (queues name) _).trans (ordered name)

omit [DecidableEq Req] in
theorem step_ordered (ordered : Ordered c h) (step : CoreStep cfg c ev c') :
    Ordered c' (observe c ev h) := by
  cases step with
  | register name =>
    have same : (observeRegister c name h).selected = h.selected ∧
        (observeRegister c name h).submitted = h.submitted := by
      unfold observeRegister
      split <;> exact ⟨rfl, rfl⟩
    apply ordered_of_same ordered same.1 same.2
    intro n
    rw [queueOf_register]
  | unregister name =>
    apply ordered_of_same ordered rfl rfl
    intro n
    rw [queueOf_unregister]
    split
    · exact List.nil_sublist _
    · exact List.Sublist.refl _
  | cmd name k =>
    apply ordered_of_same ordered rfl rfl
    intro n
    rw [queueOf_cmd]
  | @submit _ name req sub =>
    intro n
    simp only [observe, ofTenant_append, queueOf_submit n sub]
    by_cases same : n = name
    · subst same
      simp only [if_true, ← List.append_assoc]
      exact (ordered n).append (List.Sublist.refl _)
    · simpa [same, Ne.symm same] using ordered n
  | idle => exact ordered
  | @selected _ e extra f free chosen pop =>
    have present := (mem_ready.mp (eligible_ready chosen)).1
    obtain ⟨first, others⟩ := queueOf_popFrom present pop
    obtain ⟨_, _, name_eq, _⟩ := popFrom_spec pop
    intro n
    simp only [observe, ofTenant_append, name_eq]
    by_cases same : n = e.1
    · subst same
      have before := ordered e.1
      rw [first] at before
      simpa using before
    · rw [others n same]
      simpa [same, Ne.symm same] using ordered n
  | finished busy elapsed =>
    apply ordered_of_same ordered rfl rfl
    intro n
    rw [queueOf_finish]
  | raised => exact ordered

end Order

section Accounts
variable {cfg : Config} {c c' : Core Name Req} {ev : Event Name Req} {h : History Name Req}

/-- Object numbers are handed out once, so the run in flight is charged to the registered
    tenant exactly if it was selected since that tenant's registration. -/
structure Accounted (c : Core Name Req) (h : History Name Req) : Prop where
  fresh : ∀ name t, c.tenants.get? name = some t → t.oid < c.nextOid
  flown : ∀ f, c.flight = some f → f.oid < c.nextOid
  own : ∀ f, c.flight = some f → ∀ t, c.tenants.get? f.name = some t →
    (t.oid = f.oid ↔ h.current = true)
  books : ∀ name t, c.tenants.get? name = some t → Books t (h.runs name)

def SameTenant (t t' : Tenant Req) : Prop :=
  t'.oid = t.oid ∧ t'.doneN = t.doneN ∧ t'.doneExtraN = t.doneExtraN ∧
    t'.chargedUs = t.chargedUs ∧ t'.chargedExtraUs = t.chargedExtraUs

omit [DecidableEq Req] in
theorem sameTenant_books {t t' : Tenant Req} {runs : List (Bool × ℚ)} (same : SameTenant t t')
    (books : Books t runs) : Books t' runs := by
  obtain ⟨_, done, doneExtra, charged, extra⟩ := same
  exact ⟨done.trans books.done, doneExtra.trans books.doneExtra, extra.trans books.extra,
    by rw [charged, extra]; exact books.total⟩

omit [DecidableEq Req] in
theorem accounted_of_same (accounted : Accounted c h) (next : c'.nextOid = c.nextOid)
    (flight : c'.flight = c.flight)
    (back : ∀ name t', c'.tenants.get? name = some t' →
      ∃ t, c.tenants.get? name = some t ∧ SameTenant t t') {h' : History Name Req}
    (runs : h'.runs = h.runs) (current : h'.current = h.current) : Accounted c' h' := by
  constructor
  case fresh =>
    intro name t' present
    obtain ⟨t, before, same⟩ := back name t' present
    rw [same.1, next]
    exact accounted.fresh name t before
  case flown =>
    intro f busy
    rw [next]
    exact accounted.flown f (flight ▸ busy)
  case own =>
    intro f busy t' present
    obtain ⟨t, before, same⟩ := back f.name t' present
    rw [same.1, current]
    exact accounted.own f (flight ▸ busy) t before
  case books =>
    intro name t' present
    obtain ⟨t, before, same⟩ := back name t' present
    rw [runs]
    exact sameTenant_books same (accounted.books name t before)

omit [DecidableEq Req] in
theorem modify_back {g : Tenant Req → Tenant Req} {k name : Name} {t' : Tenant Req}
    (present : (c.tenants.modify k g).get? name = some t') (keeps : ∀ t, SameTenant t (g t)) :
    ∃ t, c.tenants.get? name = some t ∧ SameTenant t t' := by
  rw [Dict.get?_modify] at present
  split at present
  · obtain ⟨t, before, rfl⟩ := Option.map_eq_some_iff.mp present
    exact ⟨t, before, keeps t⟩
  · exact ⟨t', present, rfl, rfl, rfl, rfl, rfl⟩

omit [DecidableEq Name] [DecidableEq Req] in
theorem applyCmd_same (cfg : Config) (k : Cmd) (t : Tenant Req) : SameTenant t (applyCmd cfg t k) := by
  cases k with
  | timeCredit v =>
    simp only [applyCmd]
    split <;> exact ⟨rfl, rfl, rfl, rfl, rfl⟩
  | _ => exact ⟨rfl, rfl, rfl, rfl, rfl⟩

omit [DecidableEq Req] in
theorem register_accounted (accounted : Accounted c h) (name : Name) :
    Accounted (register c name) (observeRegister c name h) := by
  unfold observeRegister
  cases present : c.tenants.get? name with
  | some t =>
    have same : register c name = { c with nextOid := c.nextOid + 1 } := by
      simp only [register, Dict.setDefault_of_present _ _ present]
    rw [same]
    refine ⟨?_, ?_, accounted.own, accounted.books⟩
    · intro n u there
      have below := accounted.fresh n u there
      exact Nat.lt_succ_of_lt below
    · intro f busy
      have below := accounted.flown f busy
      exact Nat.lt_succ_of_lt below
  | none =>
    have tenants : ∀ n, (register c name).tenants.get? n =
        if n = name then some { oid := c.nextOid } else c.tenants.get? n := by
      intro n
      simp only [register, Dict.get?_setDefault, present, Option.getD_none]
    constructor
    case fresh =>
      intro n u there
      rw [tenants] at there
      split at there
      · cases there
        exact Nat.lt_succ_self _
      · have below := accounted.fresh n u there
        exact Nat.lt_succ_of_lt below
    case flown =>
      intro f busy
      have below := accounted.flown f busy
      exact Nat.lt_succ_of_lt below
    case own =>
      intro f busy u there
      have busy : c.flight = some f := busy
      rw [tenants] at there
      simp only [busy, Option.all_some]
      split at there
      · rename_i same
        cases there
        -- the run was selected from an object made earlier
        have below := accounted.flown f busy
        simp only [same, ne_eq, not_true_eq_false, decide_false, Bool.and_false, Bool.false_eq_true,
          iff_false]
        omega
      · rename_i other
        simpa [other] using accounted.own f busy u there
    case books =>
      intro n u there
      rw [tenants] at there
      split at there
      · rename_i same
        subst same
        cases there
        simp only [Function.update_self]
        exact ⟨rfl, rfl, rfl, by simp⟩
      · rename_i other
        simp only [Function.update_of_ne other]
        exact accounted.books n u there

omit [DecidableEq Name] [DecidableEq Req] in
theorem charge_books (exact_books : cfg.legacyRepay = false) {t : Tenant Req}
    {runs : List (Bool × ℚ)} (books : Books t runs) (extra : Bool) (dtUs now : ℚ) :
    Books (charge cfg extra dtUs now t) (runs ++ [(extra, dtUs)]) := by
  obtain ⟨done, doneExtra, ride, total⟩ := books
  cases extra with
  | true =>
    constructor
    · simp [charge, exact_books, done]
    · simp [charge, exact_books, doneExtra]
    · simp [charge, exact_books, ride]
    · simp only [charge, exact_books, Bool.not_false, Bool.and_self, if_true, List.map_append,
        List.sum_append, List.map_cons, List.map_nil, List.sum_singleton]
      rw [← add_assoc, total]
  | false =>
    constructor
    · simp [charge, done]
    · simp [charge, doneExtra]
    · simp [charge, ride]
    · simp only [charge, Bool.false_and, Bool.false_eq_true, if_false, List.map_append,
        List.sum_append, List.map_cons, List.map_nil, List.sum_singleton]
      rw [add_right_comm, total]

omit [DecidableEq Name] [DecidableEq Req] in
theorem charge_oid (cfg : Config) (extra : Bool) (dtUs now : ℚ) (t : Tenant Req) :
    (charge cfg extra dtUs now t).oid = t.oid := by
  unfold charge
  split <;> rfl

omit [DecidableEq Req] in
theorem finish_accounted (exact_books : cfg.legacyRepay = false) (accounted : Accounted c h)
    {f : Flight Name Req} (busy : c.flight = some f) (dtUs now : ℚ) :
    Accounted (finish cfg c f dtUs now) (observeFinished f dtUs h) := by
  have back : ∀ n t', (finish cfg c f dtUs now).tenants.get? n = some t' →
      ∃ t, c.tenants.get? n = some t ∧
        t' = if n = f.name ∧ t.oid = f.oid then charge cfg f.extra dtUs now t else t := by
    intro n t' there
    simp only [finish, Dict.get?_modify] at there
    split at there
    · rename_i same
      obtain ⟨t, before, rfl⟩ := Option.map_eq_some_iff.mp there
      exact ⟨t, before, by simp [same]⟩
    · rename_i other
      exact ⟨t', there, by simp [other]⟩
  constructor
  case fresh =>
    intro n t' there
    obtain ⟨t, before, rfl⟩ := back n t' there
    have below := accounted.fresh n t before
    split
    · rw [charge_oid]
      exact below
    · exact below
  case flown =>
    intro g still
    cases still
  case own =>
    intro g still
    cases still
  case books =>
    intro n t' there
    obtain ⟨t, before, rfl⟩ := back n t' there
    have books := accounted.books n t before
    by_cases same : n = f.name
    · subst same
      have own := accounted.own f busy t before
      simp only [observeFinished, true_and, own]
      split
      · simp only [Function.update_self]
        exact charge_books exact_books books f.extra dtUs now
      · exact books
    · have others : (observeFinished f dtUs h).runs n = h.runs n := by
        simp only [observeFinished]
        split
        · rw [Function.update_of_ne same]
        · rfl
      rw [others]
      simpa [same] using books

omit [DecidableEq Req] in
theorem step_accounted (exact_books : cfg.legacyRepay = false) (accounted : Accounted c h)
    (calm : Calm ev) (step : CoreStep cfg c ev c') : Accounted c' (observe c ev h) := by
  cases step with
  | register name => exact register_accounted accounted name
  | unregister name =>
    apply accounted_of_same accounted
    case back =>
      intro n t' there
      simp only [unregister, Dict.get?_pop] at there
      split at there
      · cases there
      · exact ⟨t', there, rfl, rfl, rfl, rfl, rfl⟩
    all_goals rfl
  | cmd name k =>
    unfold cmd
    split
    · exact accounted
    · apply accounted_of_same accounted
      case back => exact fun n t' there => modify_back there fun t => applyCmd_same cfg k t
      all_goals rfl
  | @submit _ name req sub =>
    unfold submit at sub
    split at sub
    · cases sub
    · cases sub
      apply accounted_of_same accounted
      case back => exact fun n t' there => modify_back there fun _ => ⟨rfl, rfl, rfl, rfl, rfl⟩
      all_goals rfl
  | idle => exact accounted
  | @selected _ e extra f free chosen pop =>
    have present := (mem_ready.mp (eligible_ready chosen)).1
    obtain ⟨rest, _, name_eq, oid_eq, _, rfl⟩ := popFrom_spec pop
    have back : ∀ n t', (c.tenants.modify e.1 fun t => { t with queue := rest }).get? n = some t' →
        ∃ t, c.tenants.get? n = some t ∧ SameTenant t t' := by
      intro n t' there
      exact modify_back there fun _ => ⟨rfl, rfl, rfl, rfl, rfl⟩
    constructor
    case fresh =>
      intro n t' there
      obtain ⟨t, before, same⟩ := back n t' there
      rw [same.1]
      exact accounted.fresh n t before
    case flown =>
      intro g busy
      cases busy
      rw [oid_eq]
      exact accounted.fresh e.1 e.2 present
    case own =>
      intro g busy t' there
      cases busy
      obtain ⟨t, before, same⟩ := back f.name t' there
      rw [name_eq, present] at before
      cases before
      rw [same.1, oid_eq]
      exact iff_of_true rfl rfl
    case books =>
      intro n t' there
      obtain ⟨t, before, same⟩ := back n t' there
      exact sameTenant_books same (accounted.books n t before)
  | finished busy elapsed => exact finish_accounted exact_books accounted busy _ _
  | raised => exact calm.elim

end Accounts

/-- The gate loses, duplicates and reorders nothing, and the accounts of a registered tenant
    are those of the completed runs selected since its registration. -/
theorem nothing_lost_or_reordered {cfg : Config} (exact_books : cfg.legacyRepay = false)
    {c : Core Name Req} {h : History Name Req} {events : List (Event Name Req)}
    (calm : ∀ ev ∈ events, Calm ev)
    (run : Run (Runs.Watched observe (CoreStep cfg)) (Core.init, {}) events (c, h))
    (distinct : (h.submitted.map Prod.snd).Nodup) :
    (∀ req, places c h req = if req ∈ h.submitted.map Prod.snd then 1 else 0) ∧
      (∀ name, (ofTenant name h.selected).Sublist (ofTenant name h.submitted)) ∧
      (∀ name t, c.tenants.get? name = some t → Books t (h.runs name)) := by
  have kept : (∀ req, places c h req = (h.submitted.map Prod.snd).count req) ∧ Ordered c h ∧
      Accounted c h := by
    apply run_invariant_of_labels Calm
      (fun x : Core Name Req × History Name Req =>
        (∀ req, places x.1 x.2 req = (x.2.submitted.map Prod.snd).count req) ∧ Ordered x.1 x.2 ∧
          Accounted x.1 x.2) _ run calm
    · refine ⟨fun _ => rfl, fun _ => List.Sublist.refl _, ?_⟩
      constructor <;> nofun
    · rintro x ev y calm ⟨all, ordered, accounted⟩ ⟨step, noted⟩
      rw [noted]
      exact ⟨fun req => step_places calm step req (all req), step_ordered ordered step,
        step_accounted exact_books accounted calm step⟩
  obtain ⟨all, ordered, accounted⟩ := kept
  refine ⟨?_, ?_, accounted.books⟩
  · intro req
    rw [all req, distinct.count]
  · intro name
    exact (List.sublist_append_left _ _).trans (ordered name)

/-- The tenant is removed and made anew while its first request runs; its second request is
    handed back. -/
def madeAnew : List (Event Bool ℕ) :=
  [.register true, .submit true 1, .submit true 2, .selected (some ⟨true, 0, 1, false⟩),
    .unregister true, .register true, .submit true 3, .finished ⟨true, 0, 1, false⟩ 10 10,
    .selected (some ⟨true, 1, 3, false⟩), .finished ⟨true, 1, 3, false⟩ 20 40]

theorem made_anew_kept : ∃ c h,
    Run (Runs.Watched observe (CoreStep {})) (Core.init, {}) madeAnew (c, h) ∧
    h.returned = [1, 3] ∧ h.handedBack = [2] ∧ h.runs true = [(false, 20)] ∧
    (∀ req, places c h req = if req ∈ h.submitted.map Prod.snd then 1 else 0) ∧
    (∀ name, (ofTenant name h.selected).Sublist (ofTenant name h.submitted)) ∧
    (∀ name t, c.tenants.get? name = some t → Books t (h.runs name)) := by
  obtain ⟨⟨c, h⟩, fired, reached⟩ := watched_run_reaches
    (fun y : Core Bool ℕ × History Bool ℕ => decide (y.2.returned = [1, 3] ∧
      y.2.handedBack = [2] ∧ y.2.runs true = [(false, 20)] ∧ (y.2.submitted.map Prod.snd).Nodup))
    (show (exec (watching observe (next {})) (Core.init, {}) madeAnew).any _ = true by
      decide +kernel)
  have run : Run (Runs.Watched observe (CoreStep {})) (Core.init, {}) madeAnew (c, h) :=
    run_mono (fun _ _ _ step => ⟨step_of_next step.1, step.2⟩) fired
  obtain ⟨returned, back, runs, distinct⟩ := of_decide_eq_true reached
  have calm : ∀ ev ∈ madeAnew, Calm ev := by simp [madeAnew, Calm]
  exact ⟨c, h, run, returned, back, runs, nothing_lost_or_reordered rfl calm run distinct⟩

end GateCore
