import KrakenRuntime.Lib.Dict
import KrakenRuntime.Lib.Runs
import Mathlib.Data.List.MinMax
import Mathlib.Data.Prod.Lex
import Mathlib.Data.Rat.Floor
import Mathlib.Algebra.Order.Field.Rat

/- The request gate of one NPU processing element (npu_proxy/gate_core.py). Times are
   exact rationals in microseconds; floating-point rounding is not modelled. A tenant's
   `name` slot is its dictionary key. Python objects have an identity: a run in flight
   keeps the tenant object it was selected from, which is not the object registered
   later under the same name. -/
namespace GateCore
variable {Name Req : Type} [DecidableEq Name]

/-- `GATE_CREDIT_CAP_US`, `GATE_LEGACY_REPAY` and the constructor's `work_conserving`. -/
structure Config where
  creditCapUs : ℚ := 100000
  legacyRepay : Bool := false
  workConserving : Bool := true
  deriving DecidableEq

structure Tenant (Req : Type) where
  oid : ℕ
  queue : List Req := []
  armed : Bool := false
  unlimited : Bool := true
  creditUs : ℚ := 0
  grantedUs : ℚ := 0
  chargedUs : ℚ := 0
  chargedExtraUs : ℚ := 0
  doneN : ℕ := 0
  doneExtraN : ℕ := 0
  lastRunT : ℚ := 0
  deriving DecidableEq

/-- What `step` keeps between its two locked halves. -/
structure Flight (Name Req : Type) where
  name : Name
  oid : ℕ
  req : Req
  extra : Bool
  deriving DecidableEq

structure Core (Name Req : Type) where
  tenants : Dict Name (Tenant Req)
  nextOid : ℕ
  flight : Option (Flight Name Req)
  deriving DecidableEq

def Core.init : Core Name Req := ⟨Dict.empty, 0, none⟩

def register (c : Core Name Req) (name : Name) : Core Name Req :=
  { c with
    tenants := c.tenants.setDefault name { oid := c.nextOid }
    nextOid := c.nextOid + 1 }

/-- The second component is the list of unserved requests handed back to the caller. -/
def unregister (c : Core Name Req) (name : Name) : Core Name Req × List Req :=
  ({ c with tenants := c.tenants.pop name },
    match c.tenants.get? name with
    | none => []
    | some t => t.queue)

/-- Commands with their arguments already converted by `int` or `float`. A conversion
    that raises changes nothing, and neither does an unknown command. -/
inductive Cmd where
  | timeMode (m : ℤ)
  | timeCredit (v : ℤ)
  | timeAdd (v : ℚ)
  | timeStats
  deriving DecidableEq

def timeAdd (cfg : Config) (v : ℚ) (t : Tenant Req) : Tenant Req :=
  let credit := min (t.creditUs + v) cfg.creditCapUs
  { t with
    creditUs := credit
    -- what the cap throws away was not given, unless the old accounting is asked for
    grantedUs := t.grantedUs + if cfg.legacyRepay then v else credit - t.creditUs }

def applyCmd (cfg : Config) (t : Tenant Req) : Cmd → Tenant Req
  | .timeMode m =>
    let armed := decide (m = 1)
    { t with armed := armed, unlimited := if armed then false else t.unlimited }
  | .timeCredit v =>
    if v < 0 then { t with unlimited := true, creditUs := 0 }
    else { t with unlimited := false, creditUs := min (v : ℚ) cfg.creditCapUs }
  | .timeAdd v => timeAdd cfg v t
  | .timeStats => t

/-- Python's `int` on a float: towards zero. -/
def truncate (q : ℚ) : ℤ := if 0 ≤ q then ⌊q⌋ else ⌈q⌉

def statsLine (t : Tenant Req) : String :=
  "[npu-proxy] mode=" ++ (if t.armed then "1" else "0") ++
    " time_credit=" ++ toString (truncate t.creditUs) ++
    " total=" ++ toString (truncate t.chargedUs) ++ " kernels=" ++ toString t.doneN

def cmd (cfg : Config) (c : Core Name Req) (name : Name) (k : Cmd) :
    Core Name Req × Option String :=
  match c.tenants.get? name with
  | none => (c, none)
  | some t =>
    ({ c with tenants := c.tenants.modify name fun t => applyCmd cfg t k },
      match k with
      | .timeStats => some (statsLine t)
      | _ => none)

/-- `none` is the `KeyError` of an unknown tenant. -/
def submit (c : Core Name Req) (name : Name) (req : Req) : Option (Core Name Req) :=
  match c.tenants.get? name with
  | none => none
  | some _ =>
    some { c with tenants := c.tenants.modify name fun t => { t with queue := t.queue ++ [req] } }

def ratio (t : Tenant Req) : ℚ := t.chargedUs / max t.grantedUs 1

def key (t : Tenant Req) : ℚ ×ₗ ℚ := toLex (ratio t, t.lastRunT)

def mayRun (t : Tenant Req) : Bool := t.unlimited || !t.armed || decide (0 < t.creditUs)

def ready (c : Core Name Req) : List (Name × Tenant Req) :=
  c.tenants.items.filter fun e => !e.2.queue.isEmpty

def candidates (c : Core Name Req) : List (Name × Tenant Req) :=
  (ready c).filter fun e => mayRun e.2

/-- The chosen tenant and whether its run is a ride-along. Python's `min` keeps the first
    of several minima, as `List.argmin` does. -/
def eligible (cfg : Config) (c : Core Name Req) : Option ((Name × Tenant Req) × Bool) :=
  match (candidates c).argmin fun e => key e.2 with
  | some e => some (e, false)
  | none =>
    if cfg.workConserving then ((ready c).argmin fun e => key e.2).map fun e => (e, true)
    else none

/-- First locked half of `step`, once the tenant is chosen. -/
def popFrom (c : Core Name Req) (e : Name × Tenant Req) (extra : Bool) :
    Option (Core Name Req × Flight Name Req) :=
  match e.2.queue with
  | [] => none
  | req :: rest =>
    let f : Flight Name Req := ⟨e.1, e.2.oid, req, extra⟩
    some ({ c with
      tenants := c.tenants.modify e.1 fun t => { t with queue := rest }
      flight := some f }, f)

def charge (cfg : Config) (extra : Bool) (dtUs now : ℚ) (t : Tenant Req) : Tenant Req :=
  let t :=
    if extra && !cfg.legacyRepay then
      { t with chargedExtraUs := t.chargedExtraUs + dtUs, doneExtraN := t.doneExtraN + 1 }
    else
      { t with
        chargedUs := t.chargedUs + dtUs
        creditUs := if t.armed && !t.unlimited then t.creditUs - dtUs else t.creditUs }
  { t with doneN := t.doneN + 1, lastRunT := now }

/-- Second locked half of `step`. A tenant object that is no longer registered is charged
    out of sight. -/
def finish (cfg : Config) (c : Core Name Req) (f : Flight Name Req) (dtUs now : ℚ) :
    Core Name Req :=
  { c with
    tenants := c.tenants.modify f.name fun t => if t.oid = f.oid then charge cfg f.extra dtUs now t else t
    flight := none }

/-- Everything that can happen to the core. A selection and the end of a run say which
    request they are about; `selected none` is a `step` that returns `None`. -/
inductive Event (Name Req : Type) where
  | register (name : Name)
  | unregister (name : Name)
  | cmd (name : Name) (k : Cmd)
  | submit (name : Name) (req : Req)
  | selected (choice : Option (Flight Name Req))
  | finished (f : Flight Name Req) (dtUs now : ℚ)
  | raised (f : Flight Name Req)
  deriving DecidableEq

/-- The transitions, given which tenants a selection may choose. One scheduler thread:
    a selection waits for the run in flight. Clocks do not run backwards. -/
inductive Step (cfg : Config) (picks : Core Name Req → Option ((Name × Tenant Req) × Bool) → Prop) :
    Core Name Req → Event Name Req → Core Name Req → Prop where
  | register (c name) : Step cfg picks c (.register name) (GateCore.register c name)
  | unregister (c name) : Step cfg picks c (.unregister name) (GateCore.unregister c name).1
  | cmd (c name k) : Step cfg picks c (.cmd name k) (GateCore.cmd cfg c name k).1
  | submit {c c' name req} (h : GateCore.submit c name req = some c') :
      Step cfg picks c (.submit name req) c'
  | idle {c} (free : c.flight = none) (h : picks c none) : Step cfg picks c (.selected none) c
  | selected {c c' e extra f} (free : c.flight = none) (h : picks c (some (e, extra)))
      (pop : popFrom c e extra = some (c', f)) : Step cfg picks c (.selected (some f)) c'
  | finished {c f dtUs now} (busy : c.flight = some f) (elapsed : 0 ≤ dtUs) :
      Step cfg picks c (.finished f dtUs now) (finish cfg c f dtUs now)
  | raised {c f} (busy : c.flight = some f) :
      Step cfg picks c (.raised f) { c with flight := none }

theorem mem_ready {c : Core Name Req} {e : Name × Tenant Req} :
    e ∈ ready c ↔ c.tenants.get? e.1 = some e.2 ∧ e.2.queue ≠ [] := by
  simp only [ready, List.mem_filter, Bool.not_eq_true', List.isEmpty_eq_false_iff,
    ← Dict.mem_items_iff]

omit [DecidableEq Name] in
theorem mem_candidates {c : Core Name Req} {e : Name × Tenant Req} :
    e ∈ candidates c ↔ e ∈ ready c ∧ mayRun e.2 = true := by
  simp only [candidates, List.mem_filter]

omit [DecidableEq Name] in
theorem eligible_contract {cfg : Config} {c : Core Name Req} {e : Name × Tenant Req}
    (h : eligible cfg c = some (e, false)) :
    e ∈ candidates c ∧ ∀ u ∈ candidates c, key e.2 ≤ key u.2 := by
  unfold eligible at h
  split at h
  · rename_i first best
    cases h
    exact ⟨List.argmin_mem best, fun u hu =>
      List.le_of_mem_argmin (f := fun e : Name × Tenant Req => key e.2) hu best⟩
  · split at h <;> simp at h

omit [DecidableEq Name] in
theorem eligible_extra {cfg : Config} {c : Core Name Req} {e : Name × Tenant Req}
    (h : eligible cfg c = some (e, true)) :
    candidates c = [] ∧ cfg.workConserving = true ∧ e ∈ ready c ∧
      ∀ u ∈ ready c, key e.2 ≤ key u.2 := by
  unfold eligible at h
  split at h
  · cases h
  · rename_i none_left
    split at h
    · rename_i conserving
      simp only [Option.map_eq_some_iff, Prod.mk.injEq, and_true, exists_eq_right] at h
      exact ⟨List.argmin_eq_none.mp none_left, conserving, List.argmin_mem h,
        fun u hu => List.le_of_mem_argmin (f := fun e : Name × Tenant Req => key e.2) hu h⟩
    · cases h

omit [DecidableEq Name] in
theorem eligible_ready {cfg : Config} {c : Core Name Req} {e : Name × Tenant Req} {extra : Bool}
    (h : eligible cfg c = some (e, extra)) : e ∈ ready c := by
  cases extra with
  | false => exact (mem_candidates.mp (eligible_contract h).1).1
  | true => exact (eligible_extra h).2.2.1

omit [DecidableEq Name] in
theorem eligible_none {cfg : Config} {c : Core Name Req} (h : eligible cfg c = none) :
    candidates c = [] ∧ (cfg.workConserving = true → ready c = []) := by
  unfold eligible at h
  split at h
  · cases h
  · rename_i none_left
    refine ⟨List.argmin_eq_none.mp none_left, ?_⟩
    intro conserving
    simpa [conserving] using h

theorem popFrom_spec {c c' : Core Name Req} {e : Name × Tenant Req} {extra : Bool}
    {f : Flight Name Req} (h : popFrom c e extra = some (c', f)) :
    ∃ rest, e.2.queue = f.req :: rest ∧ f.name = e.1 ∧ f.oid = e.2.oid ∧ f.extra = extra ∧
      c' = { c with
        tenants := c.tenants.modify e.1 fun t => { t with queue := rest }
        flight := some f } := by
  unfold popFrom at h
  split at h
  · cases h
  · rename_i req rest queue
    cases h
    exact ⟨rest, queue, rfl, rfl, rfl, rfl⟩

def queueOf (c : Core Name Req) (name : Name) : List Req :=
  match c.tenants.get? name with
  | none => []
  | some t => t.queue

section Queues
variable (c : Core Name Req) (name n : Name)

theorem queueOf_register : queueOf (register c name) n = queueOf c n := by
  simp only [queueOf, register, Dict.get?_setDefault]
  by_cases same : n = name
  · subst same
    cases c.tenants.get? n <;> simp
  · simp [same]

theorem queueOf_unregister :
    queueOf (unregister c name).1 n = if n = name then [] else queueOf c n := by
  simp only [queueOf, unregister, Dict.get?_pop]
  by_cases same : n = name <;> simp [same]

theorem queueOf_modify (f : Tenant Req → Tenant Req) (keeps : ∀ t, (f t).queue = t.queue) :
    queueOf { c with tenants := c.tenants.modify name f } n = queueOf c n := by
  simp only [queueOf, Dict.get?_modify]
  by_cases same : n = name
  · simp only [same, if_true]
    cases c.tenants.get? name with
    | none => rfl
    | some t => exact keeps t
  · simp [same]

theorem applyCmd_queue (cfg : Config) (t : Tenant Req) (k : Cmd) :
    (applyCmd cfg t k).queue = t.queue := by
  cases k with
  | timeCredit v =>
    simp only [applyCmd]
    split <;> rfl
  | _ => rfl

theorem queueOf_cmd (cfg : Config) (k : Cmd) :
    queueOf (cmd cfg c name k).1 n = queueOf c n := by
  unfold cmd
  split
  · rfl
  · exact queueOf_modify c name n _ fun t => applyCmd_queue cfg t k

theorem charge_queue (cfg : Config) (extra : Bool) (dtUs now : ℚ) (t : Tenant Req) :
    (charge cfg extra dtUs now t).queue = t.queue := by
  unfold charge
  split <;> rfl

theorem queueOf_finish (cfg : Config) (f : Flight Name Req) (dtUs now : ℚ) :
    queueOf (finish cfg c f dtUs now) n = queueOf c n := by
  apply queueOf_modify c f.name n
  intro t
  split
  · exact charge_queue cfg f.extra dtUs now t
  · rfl

theorem cmd_flight (cfg : Config) (k : Cmd) : (cmd cfg c name k).1.flight = c.flight := by
  unfold cmd
  split <;> rfl

variable {c name}

theorem queueOf_submit {c' : Core Name Req} {req : Req} (h : submit c name req = some c') :
    queueOf c' n = if n = name then queueOf c n ++ [req] else queueOf c n := by
  unfold submit at h
  split at h
  · cases h
  · rename_i t present
    cases h
    simp only [queueOf, Dict.get?_modify]
    by_cases same : n = name
    · subst same
      simp [present]
    · simp [same]

theorem submit_flight {c' : Core Name Req} {req : Req} (h : submit c name req = some c') :
    c'.flight = c.flight := by
  unfold submit at h
  split at h
  · cases h
  · cases h
    rfl

theorem queueOf_popFrom {c' : Core Name Req} {e : Name × Tenant Req} {extra : Bool}
    {f : Flight Name Req} (present : c.tenants.get? e.1 = some e.2)
    (h : popFrom c e extra = some (c', f)) :
    queueOf c e.1 = f.req :: queueOf c' e.1 ∧ ∀ n, n ≠ e.1 → queueOf c' n = queueOf c n := by
  obtain ⟨rest, queue, _, _, _, rfl⟩ := popFrom_spec h
  constructor
  · simp [queueOf, present, queue]
  · intro n other
    simp [queueOf, other]

end Queues

def Chosen (cfg : Config) (c : Core Name Req) (r : Option ((Name × Tenant Req) × Bool)) : Prop :=
  eligible cfg c = r

abbrev CoreStep (cfg : Config) : Core Name Req → Event Name Req → Core Name Req → Prop :=
  Step cfg (Chosen cfg)

/-- The same transitions as a function, for computing runs. -/
def next [DecidableEq Req] (cfg : Config) (c : Core Name Req) : Event Name Req → Option (Core Name Req)
  | .register name => some (register c name)
  | .unregister name => some (unregister c name).1
  | .cmd name k => some (cmd cfg c name k).1
  | .submit name req => submit c name req
  | .selected none => if c.flight = none ∧ eligible cfg c = none then some c else none
  | .selected (some f) =>
    match c.flight, eligible cfg c with
    | none, some (e, extra) =>
      match popFrom c e extra with
      | some (c', g) => if g = f then some c' else none
      | none => none
    | _, _ => none
  | .finished f dtUs now =>
    if c.flight = some f ∧ 0 ≤ dtUs then some (finish cfg c f dtUs now) else none
  | .raised f => if c.flight = some f then some { c with flight := none } else none

theorem step_of_next [DecidableEq Req] {cfg : Config} {c c' : Core Name Req}
    {ev : Event Name Req} (h : next cfg c ev = some c') : CoreStep cfg c ev c' := by
  cases ev with
  | register name => cases h; exact .register c name
  | unregister name => cases h; exact .unregister c name
  | cmd name k => cases h; exact .cmd c name k
  | submit name req => exact .submit h
  | selected choice =>
    cases choice with
    | none =>
      simp only [next, Option.ite_none_right_eq_some, Option.some.injEq] at h
      obtain ⟨⟨free, idle⟩, rfl⟩ := h
      exact .idle free idle
    | some f =>
      simp only [next] at h
      split at h
      · rename_i e extra free chosen
        split at h
        · rename_i c'' g pop
          simp only [Option.ite_none_right_eq_some, Option.some.injEq] at h
          obtain ⟨rfl, rfl⟩ := h
          exact .selected free chosen pop
        · cases h
      · cases h
  | finished f dtUs now =>
    simp only [next, Option.ite_none_right_eq_some, Option.some.injEq] at h
    obtain ⟨⟨busy, elapsed⟩, rfl⟩ := h
    exact .finished busy elapsed
  | raised f =>
    simp only [next, Option.ite_none_right_eq_some, Option.some.injEq] at h
    obtain ⟨busy, rfl⟩ := h
    exact .raised busy

theorem run_of_next [DecidableEq Req] {cfg : Config} {c c' : Core Name Req}
    {events : List (Event Name Req)} (h : Runs.exec (next cfg) c events = some c') :
    Runs.Run (CoreStep cfg) c events c' :=
  Runs.run_mono (fun _ _ _ fires => step_of_next fires) (Runs.run_of_exec h)

end GateCore
