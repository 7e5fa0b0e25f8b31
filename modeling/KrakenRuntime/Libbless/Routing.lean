import KrakenRuntime.Lib.Runs
import KrakenRuntime.Lib.Threads
import Mathlib.Data.Fintype.Basic
import Mathlib.Data.List.Basic
import Mathlib.Logic.Function.Basic

/- Routing in libbless (libbless.cpp), in ctx space mode and after ensure_init: cudaMalloc
   and cudaMallocManaged, the route test and reconf gate of a launch, ScopedCtxGuard, the
   control commands limited, unlimited, set_route, reconf_sm and set_limit_pct, and
   reconf_limited_ctx. Every atomic access, every access to ctx_limited, every creation or
   destruction of a context and every driver call is one step. The driver gives every new
   context a handle of its own and refuses destroyed ones. Left out are the other gates of a
   launch, which only delay it, the counters of context switches, and the context stack of
   the control thread, which neither allocates nor launches. The number of SMs of a
   percentage is a product in single precision, and comes with the command. -/
namespace Routing
open Runs
variable {n : ℕ}

inductive Route where
  | limited
  | unlimited
  deriving DecidableEq

/-- Handles; `none` is the null pointer where one can stand. -/
abbrev Ctx := ℕ

/-- The device's primary context, in which a thread without a current one allocates. -/
def primary : Ctx := 0

structure Shared where
  route : Route := .limited
  anyAlloc : Bool := false
  gate : ℤ := 0
  ctxLimited : Option Ctx
  ctxUnlimited : Option Ctx
  limitedApplied : Bool
  limitedSms : ℤ
  totalSms : ℤ
  -- the driver's
  destroyed : List Ctx := []
  nextCtx : Ctx
  deriving DecidableEq

inductive Call where
  | alloc
  | launch
  deriving DecidableEq

inductive PC where
  | idle
  -- cudaMalloc and cudaMallocManaged
  | storeAlloc
  | checkQuota
  -- cudaLaunchKernel
  | testRoute
  | waitGate
  -- ScopedCtxGuard
  | loadRoute (c : Call)
  | readCtx (c : Call) (r : Route)
  | loadApplied (c : Call) (target : Option Ctx)
  | getCurrent (c : Call) (target : Option Ctx)
  | push (c : Call) (target : Option Ctx)
  | driver (c : Call) (pushed : Bool)
  | pop
  deriving DecidableEq

structure Thread where
  pc : PC := .idle
  stack : List Ctx := []
  deriving DecidableEq

def Thread.goto (t : Thread) (pc : PC) : Thread := { t with pc := pc }

def Thread.current (t : Thread) : Ctx := t.stack.headD primary

def target (g : Shared) : Route → Option Ctx
  | .unlimited => g.ctxUnlimited
  | .limited => g.ctxLimited.or g.ctxUnlimited

/-- cuCtxPushCurrent: a null or destroyed context is refused. -/
def pushCurrent (g : Shared) (target : Option Ctx) (stack : List Ctx) : List Ctx :=
  match target with
  | none => stack
  | some c => if c ∈ g.destroyed then stack else c :: stack

/-- One access of an application thread. `answer` is what the quota check or the driver
    says. -/
def access (g : Shared) (t : Thread) (answer : Bool) : Shared × Thread :=
  match t.pc with
  | .idle => (g, t)
  | .storeAlloc => ({ g with anyAlloc := true }, t.goto .checkQuota)
  | .checkQuota => (g, t.goto (if answer then .loadRoute .alloc else .idle))
  | .testRoute => (g, t.goto (if g.route = .limited then .waitGate else .loadRoute .launch))
  | .waitGate => (g, t.goto (if g.gate = 0 then .loadRoute .launch else .waitGate))
  | .loadRoute c => (g, t.goto (.readCtx c g.route))
  | .readCtx c r => (g, t.goto (.loadApplied c (target g r)))
  | .loadApplied c target =>
    (g, t.goto (if g.limitedApplied then .getCurrent c target else .driver c false))
  | .getCurrent c target =>
    (g, t.goto (if t.stack.head? = target then .driver c false else .push c target))
  -- whether the driver took it or not, the guard pops later
  | .push c target => (g, ⟨.driver c true, pushCurrent g target t.stack⟩)
  | .driver _ pushed => (g, t.goto (if pushed then .pop else .idle))
  | .pop => (g, ⟨.idle, t.stack.tail⟩)

def allocates (g : Shared) (t : Thread) (answer : Bool) : Option Ctx :=
  match t.pc with
  | .driver .alloc _ => if answer ∧ t.current ∉ g.destroyed then some t.current else none
  | _ => none

inductive Command where
  | limited
  | unlimited
  | setRoute (r : ℤ)
  | reconfSm (k : ℤ)
  /-- `share` is `(int)(total_sms * (pct/100.0f))`. -/
  | setLimitPct (share : ℤ)
  deriving DecidableEq

inductive Control where
  | ready
  -- limited, unlimited, set_route
  | testAlloc (r : Route)
  | storeRoute (r : Route)
  -- reconf_limited_ctx
  | reconfTest (sms : ℤ)
  | readLimited (sms : ℤ)
  | closeGate (sms : ℤ)
  | pushOld (sms : ℤ)
  | syncOld (sms : ℤ)
  | popOld (sms : ℤ)
  | destroyOld (sms : ℤ)
  | create (sms : ℤ)
  | storeNull (sms : ℤ)
  | storeUnapplied (sms : ℤ)
  | pushNew (sms : ℤ)
  | queryNew (sms : ℤ)
  | popNew (sms : ℤ)
  | storeApplied (sms : ℤ)
  | storeSms (sms : ℤ)
  | openGate
  deriving DecidableEq

def command : Command → Control
  | .limited => .testAlloc .limited
  | .unlimited => .testAlloc .unlimited
  | .setRoute r => .testAlloc (if r = 1 then .unlimited else .limited)
  | .reconfSm k => if 0 < k then .reconfTest k else .ready
  | .setLimitPct share => .reconfTest (max share 1)

def clampSms (g : Shared) (sms : ℤ) : ℤ := min (max sms 1) g.totalSms

/-- One access of the control thread. `answer` is whether the driver creates the context;
    the handle is only written when it does. -/
def advance (g : Shared) (answer : Bool) : Control → Shared × Control
  | .ready => (g, .ready)
  | .testAlloc r => (g, if g.anyAlloc then .ready else .storeRoute r)
  | .storeRoute r => ({ g with route := r }, .ready)
  | .reconfTest sms => (g, if g.anyAlloc then .ready else .readLimited (clampSms g sms))
  | .readLimited sms => (g, if g.ctxLimited.isSome then .closeGate sms else .create sms)
  | .closeGate sms => ({ g with gate := if g.gate = 0 then 1 else g.gate }, .pushOld sms)
  | .pushOld sms => (g, .syncOld sms)
  | .syncOld sms => (g, .popOld sms)
  | .popOld sms => (g, .destroyOld sms)
  | .destroyOld sms => ({ g with destroyed := g.ctxLimited.toList ++ g.destroyed }, .create sms)
  | .create sms =>
    if answer then
      ({ g with ctxLimited := some g.nextCtx, nextCtx := g.nextCtx + 1 }, .pushNew sms)
    else (g, .storeNull sms)
  | .storeNull sms => ({ g with ctxLimited := none }, .storeUnapplied sms)
  | .storeUnapplied sms => ({ g with limitedApplied := false }, .storeSms sms)
  | .pushNew sms => (g, .queryNew sms)
  | .queryNew sms => (g, .popNew sms)
  | .popNew sms => (g, .storeApplied sms)
  | .storeApplied sms => ({ g with limitedApplied := true }, .storeSms sms)
  | .storeSms sms => ({ g with limitedSms := sms }, .openGate)
  | .openGate => ({ g with gate := 0 }, .ready)

structure State (n : ℕ) where
  shared : Shared
  threads : Fin n → Thread
  control : Control
  deriving DecidableEq

inductive Action (n : ℕ) where
  | malloc (i : Fin n)
  | launch (i : Fin n)
  | step (i : Fin n) (answer : Bool)
  | command (c : Command)
  | control (answer : Bool)
  deriving DecidableEq

def call (s : State n) (i : Fin n) (pc : PC) : Option (State n) :=
  if (s.threads i).pc = .idle then
    some { s with threads := Function.update s.threads i ((s.threads i).goto pc) }
  else none

def next (s : State n) : Action n → Option (State n)
  | .malloc i => call s i .storeAlloc
  | .launch i => call s i .testRoute
  | .step i answer =>
    some { s with
      shared := (access s.shared (s.threads i) answer).1
      threads := Function.update s.threads i (access s.shared (s.threads i) answer).2 }
  | .command c =>
    if s.control = .ready then some { s with control := command c } else none
  | .control answer =>
    some { s with
      shared := (advance s.shared answer s.control).1
      control := (advance s.shared answer s.control).2 }

abbrev RouteStep : State n → Action n → State n → Prop := Runs.Fires next

/-- After ensure_init, with either context created or not and any contexts current to the
    threads. -/
def start (limited unlimited : Bool) (totalSms initSms : ℤ) (currents : Fin n → List Ctx) :
    State n where
  shared :=
    { ctxLimited := if limited then some 2 else none
      ctxUnlimited := if unlimited then some 1 else none
      limitedApplied := limited
      limitedSms := initSms
      totalSms := totalSms
      nextCtx := 3 }
  threads i := { stack := currents i }
  control := .ready

/-- The route and the limited context at the first successful allocation, the contexts
    allocated in, and whether a launch pushed a context that was destroyed. -/
structure Record where
  frozen : Option (Route × Option Ctx) := none
  allocs : List Ctx := []
  stalePush : Bool := false
  deriving DecidableEq

def recordAlloc (g : Shared) (r : Record) (c : Ctx) : Record :=
  { r with
    frozen := some (r.frozen.getD (g.route, g.ctxLimited))
    allocs := c :: r.allocs }

def pushesStale (g : Shared) (t : Thread) : Bool :=
  match t.pc with
  | .push .launch (some c) => decide (c ∈ g.destroyed)
  | _ => false

def observe (s : State n) : Action n → Record → Record
  | .step i answer, r =>
    let r := { r with stalePush := r.stalePush || pushesStale s.shared (s.threads i) }
    match allocates s.shared (s.threads i) answer with
    | none => r
    | some c => recordAlloc s.shared r c
  | _, r => r

/-- Allocation freezes routing: nothing has moved since the first one, no allocation has
    lost its context, and no launch has pushed a destroyed one. -/
structure Frozen (s : State n) (r : Record) : Prop where
  routing : ∀ f, r.frozen = some f → f = (s.shared.route, s.shared.ctxLimited)
  contexts : ∀ c ∈ r.allocs, c ∉ s.shared.destroyed
  pushes : r.stalePush = false

/-- The control thread is past its test of any_alloc and still to move the route or the
    limited context. -/
def Changing (g : Shared) : Control → Prop
  | .storeRoute r => r ≠ g.route
  | .readLimited _ => True
  | .closeGate _ => True
  | .pushOld _ => True
  | .syncOld _ => True
  | .popOld _ => True
  | .destroyOld _ => True
  | .create _ => True
  | .storeNull _ => g.ctxLimited ≠ none
  | _ => False

instance (g : Shared) (k : Control) : Decidable (Changing g k) := by
  induction k using Control.casesOn <;> dsimp only [Changing] <;> infer_instance

/-- The old context is destroyed and ctx_limited still holds it. -/
def isReplacing : Control → Bool
  | .create _ => true
  | .storeNull _ => true
  | _ => false

def isDestroying : Control → Bool
  | .destroyOld _ => true
  | _ => false

def chosen : PC → Option Ctx
  | .loadApplied .launch target => target
  | .getCurrent .launch target => target
  | .push .launch target => target
  | _ => none

/-- An allocation does not succeed while a command is still to move something, no launch
    reads ctx_limited while it holds a context under replacement, and the limited context is
    not destroyed while a launch has chosen it. -/
def Undisturbed (s : State n) : Action n → Prop
  | .step i answer =>
    (allocates s.shared (s.threads i) answer ≠ none → ¬ Changing s.shared s.control) ∧
      ((s.threads i).pc = .readCtx .launch .limited → isReplacing s.control = true →
        s.shared.ctxLimited = none)
  | .control _ => isDestroying s.control = true →
    ∀ i, chosen (s.threads i).pc = none ∨ chosen (s.threads i).pc ≠ s.shared.ctxLimited
  | _ => True

instance (s : State n) (a : Action n) : Decidable (Undisturbed s a) := by
  induction a using Action.casesOn <;> dsimp only [Undisturbed] <;> infer_instance

def allocating : PC → Bool
  | .checkQuota => true
  | .loadRoute .alloc => true
  | .readCtx .alloc _ => true
  | .loadApplied .alloc _ => true
  | .getCurrent .alloc _ => true
  | .push .alloc _ => true
  | .driver .alloc _ => true
  | _ => false

structure Kept (s : State n) (r : Record) : Prop where
  frozen : ∀ f, r.frozen = some f → f = (s.shared.route, s.shared.ctxLimited) ∧
    s.shared.anyAlloc = true ∧ ¬ Changing s.shared s.control
  recorded : r.frozen = none → r.allocs = []
  contexts : ∀ c ∈ r.allocs, c ∉ s.shared.destroyed
  pushes : r.stalePush = false
  announced : ∀ i, allocating (s.threads i).pc = true → s.shared.anyAlloc = true
  chosen_lives : ∀ i c, chosen (s.threads i).pc = some c → c ∉ s.shared.destroyed
  limited_lives : ∀ c, s.shared.ctxLimited = some c → c ∈ s.shared.destroyed →
    isReplacing s.control = true
  unlimited_lives : ∀ c, s.shared.ctxUnlimited = some c → c < s.shared.nextCtx ∧
    c ∉ s.shared.destroyed ∧ s.shared.ctxLimited ≠ some c
  limited_known : ∀ c, s.shared.ctxLimited = some c → c < s.shared.nextCtx
  destroyed_known : ∀ c ∈ s.shared.destroyed, c < s.shared.nextCtx

theorem start_kept (limited unlimited : Bool) (totalSms initSms : ℤ)
    (currents : Fin n → List Ctx) :
    Kept (start limited unlimited totalSms initSms currents) {} := by
  constructor
  · intro f frozen
    cases frozen
  · intro _
    rfl
  · simp
  · rfl
  · intro i announced
    cases announced
  · intro i c held
    cases held
  · simp [start]
  · intro c held
    simp only [start] at held ⊢
    cases unlimited with
    | false => cases held
    | true =>
      simp only [if_true, Option.some.injEq] at held
      subst held
      cases limited <;> simp
  · intro c held
    simp only [start] at held ⊢
    cases limited with
    | false => cases held
    | true =>
      simp only [if_true, Option.some.injEq] at held
      subst held
      decide
  · simp [start]

structure SameRouting (g g' : Shared) : Prop where
  route : g'.route = g.route
  limited : g'.ctxLimited = g.ctxLimited
  unlimited : g'.ctxUnlimited = g.ctxUnlimited
  destroyed : g'.destroyed = g.destroyed
  nextCtx : g'.nextCtx = g.nextCtx
  anyAlloc : g.anyAlloc = true → g'.anyAlloc = true

section Steps
variable {s u : State n} {r : Record}

theorem changing_congr {g g' : Shared} (same : SameRouting g g') (k : Control) :
    Changing g' k ↔ Changing g k := by
  cases k <;> simp [Changing, same.route, same.limited]

theorem Kept.frame (kept : Kept s r) (same : SameRouting s.shared u.shared)
    (announced : ∀ i, allocating (u.threads i).pc = true →
      allocating (s.threads i).pc = true ∨ u.shared.anyAlloc = true)
    (lives : ∀ i c, chosen (u.threads i).pc = some c → c ∉ s.shared.destroyed)
    (changing : s.shared.anyAlloc = true → Changing s.shared u.control → Changing s.shared s.control)
    (replacing : isReplacing s.control = true → isReplacing u.control = true) : Kept u r := by
  constructor
  · intro f frozen
    obtain ⟨eq, alloc, settled⟩ := kept.frozen f frozen
    rw [same.route, same.limited, changing_congr same]
    exact ⟨eq, same.anyAlloc alloc, fun moves => settled (changing alloc moves)⟩
  · exact kept.recorded
  · rw [same.destroyed]
    exact kept.contexts
  · exact kept.pushes
  · intro i asks
    rcases announced i asks with before | now
    · exact same.anyAlloc (kept.announced i before)
    · exact now
  · rw [same.destroyed]
    exact lives
  · rw [same.destroyed, same.limited]
    intro c held gone
    exact replacing (kept.limited_lives c held gone)
  · rw [same.destroyed, same.limited, same.unlimited, same.nextCtx]
    exact kept.unlimited_lives
  · rw [same.limited, same.nextCtx]
    exact kept.limited_known
  · rw [same.destroyed, same.nextCtx]
    exact kept.destroyed_known

section Access
variable {g : Shared} {t : Thread} {answer : Bool}

theorem access_same : SameRouting g (access g t answer).1 := by
  unfold access
  cases t.pc <;> exact ⟨rfl, rfl, rfl, rfl, rfl, fun alloc => by first | rfl | exact alloc⟩

theorem access_allocating (asks : allocating (access g t answer).2.pc = true) :
    allocating t.pc = true ∨ (access g t answer).1.anyAlloc = true := by
  unfold access at *
  cases here : t.pc with
  | storeAlloc => exact .inr rfl
  | idle => simp [here, allocating] at asks
  | testRoute | waitGate =>
    simp only [here] at asks
    split at asks <;> cases asks
  | driver c pushed =>
    simp only [here] at asks
    cases pushed <;> cases asks
  | pop =>
    simp only [here] at asks
    cases asks
  | checkQuota => exact .inl rfl
  | loadApplied c target | getCurrent c target =>
    cases c with
    | alloc => exact .inl rfl
    | launch =>
      simp only [here] at asks
      split at asks <;> cases asks
  | _ c =>
    cases c with
    | alloc => exact .inl rfl
    | launch =>
      simp only [here] at asks
      cases asks

theorem access_chosen {c : Ctx} (holds : chosen (access g t answer).2.pc = some c) :
    chosen t.pc = some c ∨ ∃ route, t.pc = .readCtx .launch route ∧ target g route = some c := by
  unfold access at holds
  cases here : t.pc with
  | idle => simp [here, chosen] at holds
  | checkQuota | testRoute | waitGate =>
    simp only [here] at holds
    split at holds <;> cases holds
  | readCtx k route =>
    cases k with
    | alloc => simp [here, Thread.goto, chosen] at holds
    | launch =>
      refine .inr ⟨route, rfl, ?_⟩
      simpa [here, Thread.goto, chosen] using holds
  | loadApplied k target =>
    simp only [here] at holds
    left
    cases k with
    | alloc => split at holds <;> cases holds
    | launch =>
      split at holds
      · exact holds
      · cases holds
  | getCurrent k target =>
    simp only [here] at holds
    left
    cases k with
    | alloc => split at holds <;> cases holds
    | launch =>
      split at holds
      · cases holds
      · exact holds
  | driver k pushed =>
    simp only [here] at holds
    split at holds <;> cases holds
  | _ =>
    simp only [here] at holds
    cases holds

theorem allocates_cases {c : Ctx} (made : allocates g t answer = some c) :
    allocating t.pc = true ∧ c ∉ g.destroyed := by
  unfold allocates at made
  split at made
  · rename_i pushed here
    split at made
    · rename_i granted
      cases made
      exact ⟨by rw [here]; rfl, granted.2⟩
    · cases made
  · cases made

end Access

/-- The context a call is sent to is not destroyed, unless ctx_limited is being replaced. -/
theorem target_lives (kept : Kept s r) {route : Route} {c : Ctx}
    (sent : target s.shared route = some c)
    (whole : route = .limited → isReplacing s.control = true → s.shared.ctxLimited = none) :
    c ∉ s.shared.destroyed := by
  cases route with
  | unlimited => exact (kept.unlimited_lives c sent).2.1
  | limited =>
    simp only [target, Option.or_eq_some_iff] at sent
    rcases sent with held | ⟨-, fallback⟩
    · intro gone
      have null := whole rfl (kept.limited_lives c held gone)
      exact absurd (null.symm.trans held) (by simp)
    · exact (kept.unlimited_lives c fallback).2.1

theorem record_kept (kept : Kept s r) {c : Ctx} (alloc : s.shared.anyAlloc = true)
    (settled : ¬ Changing s.shared s.control) (lives : c ∉ s.shared.destroyed) :
    Kept s (recordAlloc s.shared r c) := by
  refine { kept with frozen := ?_, recorded := ?_, contexts := ?_ }
  · intro f frozen
    simp only [recordAlloc, Option.some.injEq] at frozen
    refine ⟨?_, alloc, settled⟩
    cases first : r.frozen with
    | none =>
      rw [first] at frozen
      exact frozen.symm
    | some f' =>
      rw [first] at frozen
      exact frozen.symm.trans (kept.frozen f' first).1
  · intro none_yet
    cases none_yet
  · intro c' member
    rcases List.mem_cons.mp member with rfl | member
    · exact lives
    · exact kept.contexts c' member

theorem pushesStale_false (kept : Kept s r) (i : Fin n) :
    pushesStale s.shared (s.threads i) = false := by
  unfold pushesStale
  split
  · rename_i c here
    have lives := kept.chosen_lives i c (by rw [here]; rfl)
    simpa using lives
  · rfl

theorem observe_kept (kept : Kept s r) {i : Fin n} {answer : Bool}
    (settled : allocates s.shared (s.threads i) answer ≠ none → ¬ Changing s.shared s.control) :
    Kept s (observe s (.step i answer) r) := by
  have same : ({ r with stalePush := r.stalePush || pushesStale s.shared (s.threads i) } : Record) =
      r := by
    rw [pushesStale_false kept i, Bool.or_false]
  simp only [observe, same]
  cases made : allocates s.shared (s.threads i) answer with
  | none => exact kept
  | some c =>
    obtain ⟨asks, lives⟩ := allocates_cases made
    exact record_kept kept (kept.announced i asks) (settled (by simp [made])) lives

theorem Kept.one_thread (kept : Kept s r) {i : Fin n} {g : Shared} {t : Thread}
    (same : SameRouting s.shared g)
    (announced : allocating t.pc = true → allocating (s.threads i).pc = true ∨ g.anyAlloc = true)
    (lives : ∀ c, chosen t.pc = some c → c ∉ s.shared.destroyed) :
    Kept { s with shared := g, threads := Function.update s.threads i t } r := by
  apply kept.frame same
  · intro j asks
    by_cases this : j = i
    · subst this
      simp only [Function.update_self] at asks
      exact announced asks
    · simp only [Function.update_of_ne this] at asks
      exact .inl asks
  · intro j c holds
    by_cases this : j = i
    · subst this
      simp only [Function.update_self] at holds
      exact lives c holds
    · simp only [Function.update_of_ne this] at holds
      exact kept.chosen_lives j c holds
  · intro _ changing
    exact changing
  · exact id

theorem access_kept (kept : Kept s r) {i : Fin n} {answer : Bool}
    (whole : (s.threads i).pc = .readCtx .launch .limited → isReplacing s.control = true →
      s.shared.ctxLimited = none) :
    Kept
      { s with
        shared := (access s.shared (s.threads i) answer).1
        threads := Function.update s.threads i (access s.shared (s.threads i) answer).2 } r := by
  apply kept.one_thread access_same
  · exact access_allocating
  · intro c holds
    rcases access_chosen holds with before | ⟨route, here, sent⟩
    · exact kept.chosen_lives i c before
    · apply target_lives kept sent
      intro limited
      subst limited
      exact whole here

theorem call_kept (kept : Kept s r) {i : Fin n} {pc : PC} (asks_nothing : allocating pc = false)
    (holds_nothing : chosen pc = none) (h : call s i pc = some u) : Kept u r := by
  unfold call at h
  split at h
  · cases h
    apply kept.one_thread ⟨rfl, rfl, rfl, rfl, rfl, id⟩
    · intro asks
      exact absurd (asks_nothing.symm.trans asks) (by decide)
    · intro c holds
      exact absurd (holds_nothing.symm.trans holds) (by simp)
  · cases h

theorem Kept.quiet (kept : Kept s r) {g : Shared} {k : Control} (same : SameRouting s.shared g)
    (changing : s.shared.anyAlloc = true → Changing s.shared k → Changing s.shared s.control)
    (whole : isReplacing s.control = false) : Kept { s with shared := g, control := k } r := by
  apply kept.frame same
  · intro i asks
    exact .inl asks
  · exact kept.chosen_lives
  · exact changing
  · intro replacing
    exact absurd (whole.symm.trans replacing) (by decide)

theorem command_kept (kept : Kept s r) (c : Command) (idle : s.control = .ready) :
    Kept { s with control := command c } r := by
  apply kept.quiet
  · exact ⟨rfl, rfl, rfl, rfl, rfl, id⟩
  · intro _ changing
    cases c with
    | reconfSm k =>
      simp only [command] at changing
      split at changing <;> cases changing
    | _ => cases changing
  · rw [idle]
    rfl

theorem Kept.unfrozen (kept : Kept s r) (changing : Changing s.shared s.control) :
    r.frozen = none ∧ r.allocs = [] := by
  cases first : r.frozen with
  | none => exact ⟨rfl, kept.recorded first⟩
  | some f => exact absurd changing (kept.frozen f first).2.2

theorem storeRoute_kept (kept : Kept s r) {route : Route} (here : s.control = .storeRoute route) :
    Kept { s with shared := { s.shared with route := route }, control := .ready } r := by
  refine { kept with frozen := ?_, limited_lives := ?_ }
  · intro f frozen
    obtain ⟨eq, alloc, settled⟩ := kept.frozen f frozen
    have same : route = s.shared.route := by
      by_contra moves
      exact settled (by rw [here]; exact moves)
    dsimp only
    rw [same]
    exact ⟨eq, alloc, fun changing => changing⟩
  · intro c held gone
    have replacing := kept.limited_lives c held gone
    rw [here] at replacing
    cases replacing

theorem destroyOld_kept (kept : Kept s r) {sms : ℤ} (here : s.control = .destroyOld sms)
    (spared : ∀ i, chosen (s.threads i).pc = none ∨ chosen (s.threads i).pc ≠ s.shared.ctxLimited) :
    Kept
      { s with
        shared := { s.shared with destroyed := s.shared.ctxLimited.toList ++ s.shared.destroyed }
        control := .create sms } r := by
  obtain ⟨unfrozen, no_allocs⟩ := kept.unfrozen (by rw [here]; trivial)
  refine { kept with
    frozen := ?_, contexts := ?_, chosen_lives := ?_, limited_lives := ?_, unlimited_lives := ?_,
    destroyed_known := ?_ }
  · intro f frozen
    rw [unfrozen] at frozen
    cases frozen
  · simp [no_allocs]
  · intro i c holds gone
    rcases List.mem_append.mp gone with old | before
    · rw [Option.mem_toList] at old
      rcases spared i with nothing | other
      · exact absurd (nothing.symm.trans holds) (by simp)
      · exact other (holds.trans old.symm)
    · exact kept.chosen_lives i c holds before
  · intro c held gone
    rfl
  · intro c held
    obtain ⟨known, lives, other⟩ := kept.unlimited_lives c held
    refine ⟨known, ?_, other⟩
    intro gone
    rcases List.mem_append.mp gone with old | before
    · exact other (Option.mem_toList.mp old)
    · exact lives before
  · intro c gone
    rcases List.mem_append.mp gone with old | before
    · exact kept.limited_known c (Option.mem_toList.mp old)
    · exact kept.destroyed_known c before

theorem created_kept (kept : Kept s r) {sms : ℤ} (here : s.control = .create sms) :
    Kept
      { s with
        shared :=
          { s.shared with ctxLimited := some s.shared.nextCtx, nextCtx := s.shared.nextCtx + 1 }
        control := .pushNew sms } r := by
  obtain ⟨unfrozen, -⟩ := kept.unfrozen (by rw [here]; trivial)
  refine { kept with
    frozen := ?_, limited_lives := ?_, unlimited_lives := ?_, limited_known := ?_,
    destroyed_known := ?_ }
  · intro f frozen
    rw [unfrozen] at frozen
    cases frozen
  · intro c held gone
    cases held
    exact absurd (kept.destroyed_known _ gone) (lt_irrefl _)
  · intro c held
    obtain ⟨known, lives, -⟩ := kept.unlimited_lives c held
    refine ⟨Nat.lt_succ_of_lt known, lives, ?_⟩
    intro same
    cases same
    exact lt_irrefl _ known
  · intro c held
    cases held
    exact Nat.lt_succ_self _
  · intro c gone
    exact Nat.lt_succ_of_lt (kept.destroyed_known c gone)

theorem uncreated_kept (kept : Kept s r) {sms : ℤ} (here : s.control = .create sms) :
    Kept { s with control := .storeNull sms } r := by
  obtain ⟨unfrozen, -⟩ := kept.unfrozen (by rw [here]; trivial)
  refine { kept with frozen := ?_, limited_lives := ?_ }
  · intro f frozen
    rw [unfrozen] at frozen
    cases frozen
  · intro c held gone
    rfl

theorem storeNull_kept (kept : Kept s r) {sms : ℤ} (here : s.control = .storeNull sms) :
    Kept
      { s with shared := { s.shared with ctxLimited := none }, control := .storeUnapplied sms } r := by
  refine { kept with frozen := ?_, limited_lives := ?_, unlimited_lives := ?_, limited_known := ?_ }
  · intro f frozen
    obtain ⟨eq, alloc, settled⟩ := kept.frozen f frozen
    have null : s.shared.ctxLimited = none := by
      by_contra held
      exact settled (by rw [here]; exact held)
    rw [null] at eq
    exact ⟨eq, alloc, fun changing => changing⟩
  · intro c held
    cases held
  · intro c held
    obtain ⟨known, lives, -⟩ := kept.unlimited_lives c held
    exact ⟨known, lives, by simp⟩
  · intro c held
    cases held

theorem advance_kept (kept : Kept s r) (answer : Bool) (undisturbed : Undisturbed s (.control answer)) :
    Kept
      { s with
        shared := (advance s.shared answer s.control).1
        control := (advance s.shared answer s.control).2 } r := by
  cases here : s.control with
  | storeRoute route => exact storeRoute_kept kept here
  | destroyOld sms => exact destroyOld_kept kept here (undisturbed (by rw [here]; rfl))
  | create sms =>
    cases answer with
    | true => exact created_kept kept here
    | false => exact uncreated_kept kept here
  | storeNull sms => exact storeNull_kept kept here
  | testAlloc _ | reconfTest _ =>
    apply kept.quiet
    · exact ⟨rfl, rfl, rfl, rfl, rfl, id⟩
    · intro alloc changing
      simp only [advance, alloc, if_true] at changing
      cases changing
    · rw [here]
      rfl
  | readLimited sms =>
    apply kept.quiet
    · exact ⟨rfl, rfl, rfl, rfl, rfl, id⟩
    · intro _ _
      rw [here]
      trivial
    · rw [here]
      rfl
  | _ =>
    apply kept.quiet
    · exact ⟨rfl, rfl, rfl, rfl, rfl, id⟩
    · intro _ changing
      rw [here]
      exact changing
    · rw [here]
      rfl

theorem step_kept {a : Action n} (kept : Kept s r) (undisturbed : Undisturbed s a)
    (h : next s a = some u) : Kept u (observe s a r) := by
  cases a with
  | malloc i => exact call_kept kept rfl rfl h
  | launch i => exact call_kept kept rfl rfl h
  | step i answer =>
    simp only [next, Option.some.injEq] at h
    subst h
    exact access_kept (observe_kept kept undisturbed.1) undisturbed.2
  | command c =>
    simp only [next] at h
    split at h
    · rename_i idle
      cases h
      exact command_kept kept c idle
    · cases h
  | control answer =>
    simp only [next, Option.some.injEq] at h
    subst h
    exact advance_kept kept answer undisturbed

/-- Where no step is disturbed, allocation freezes routing. -/
theorem allocation_freezes_routing {limited unlimited : Bool} {totalSms initSms : ℤ}
    {currents : Fin n → List Ctx} {labels : List (Action n)} {x : State n × Record}
    (run : Run (Watched observe (Guarded Undisturbed RouteStep))
      (start limited unlimited totalSms initSms currents, {}) labels x) : Frozen x.1 x.2 := by
  have kept : Kept x.1 x.2 := by
    apply run_invariant (fun x : State n × Record => Kept x.1 x.2) _ run
      (start_kept limited unlimited totalSms initSms currents)
    rintro ⟨s, r⟩ a ⟨u, r'⟩ kept ⟨⟨undisturbed, fires⟩, observed⟩
    dsimp only at observed
    rw [observed]
    exact step_kept kept undisturbed fires
  exact ⟨fun f frozen => (kept.frozen f frozen).1, kept.contexts, kept.pushes⟩

end Steps

def accesses (i : Fin n) (k : ℕ) : List (Action n) := List.replicate k (.step i true)

def controls (k : ℕ) : List (Action n) := List.replicate k (.control true)

/-- A launch, then a reconfiguration, then an allocation, then a command that comes too
    late. -/
def oneAtATime : List (Action 2) :=
  [.launch 1] ++ accesses 1 9 ++ [.command (.reconfSm 10)] ++ controls 14 ++
    [.malloc 0] ++ accesses 0 9 ++ [.command .unlimited] ++ controls 1

theorem one_at_a_time_frozen : ∃ x : State 2 × Record,
    Run (Watched observe (Guarded Undisturbed RouteStep))
      (start true true 100 50 fun _ => [], {}) oneAtATime x ∧
      x.2 = ⟨some (.limited, some 3), [3], false⟩ ∧ Frozen x.1 x.2 := by
  obtain ⟨x, run, checked⟩ := watched_guarded_run_reaches Undisturbed
    (fun x : State 2 × Record => decide (x.2 = ⟨some (.limited, some 3), [3], false⟩))
    (show (exec (watching observe (guarding Undisturbed next))
      (start true true 100 50 fun _ => [], {}) oneAtATime).any _ = true by decide +kernel)
  exact ⟨x, run, of_decide_eq_true checked, allocation_freezes_routing run⟩

/-- A launch has chosen the limited context and a reconfiguration has made its test when
    an allocation comes; then the context is destroyed, pushed and replaced. -/
def crossing : List (Action 2) :=
  [.launch 1] ++ accesses 1 6 ++ [.command (.reconfSm 10)] ++ controls 1 ++
    [.malloc 0] ++ accesses 0 9 ++ controls 6 ++ accesses 1 1 ++ controls 1

theorem allocation_loses_its_context : ∃ x : State 2 × Record,
    Run (Watched observe RouteStep) (start true true 100 50 fun _ => [], {}) crossing x ∧
      x.2 = ⟨some (.limited, some 2), [2], true⟩ ∧ x.1.shared.ctxLimited = some 3 ∧
      2 ∈ x.1.shared.destroyed ∧ ¬ Frozen x.1 x.2 := by
  obtain ⟨x, run, checked⟩ := watched_run_reaches
    (fun x : State 2 × Record => decide (x.2 = ⟨some (.limited, some 2), [2], true⟩ ∧
      x.1.shared.ctxLimited = some 3 ∧ 2 ∈ x.1.shared.destroyed))
    (show (exec (watching observe next) (start true true 100 50 fun _ => [], {}) crossing).any _ =
      true by decide +kernel)
  obtain ⟨recorded, replaced, gone⟩ := of_decide_eq_true checked
  refine ⟨x, run, recorded, replaced, gone, ?_⟩
  intro frozen
  exact frozen.contexts 2 (by rw [recorded]; exact List.mem_singleton_self _) gone

end Routing
