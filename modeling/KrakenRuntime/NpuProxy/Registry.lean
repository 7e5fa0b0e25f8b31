import KrakenRuntime.NpuProxy.Replies
import Mathlib.Data.Fintype.Option

/- The tenants that the proxy knows: in the core, in logs, in ctrl_socks, and by the control
   socket at the tenant's path. ensure_tenant and drop_tenant change these one after the other
   and without a lock; ensure_tenant stops in the middle where the log cannot be opened or the
   socket not be bound. -/
namespace Proxy
open GateCore Runs

/-- What happened so far: the tenant that a control socket was bound for, and whether an
    ensure_tenant for a tenant has returned since the last drop_tenant for it began. -/
structure Record (Name : Type) where
  owner : ℕ → Option Name := fun _ => none
  ensured : Name → Bool := fun _ => false

section Observing
variable {Name Path Conn Body Out : Type} [DecidableEq Name]

def noteEnsure (sockPath : Name → Path) (s : State Name Path Conn Body Out) (r : Record Name)
    (name : Name) (refused : Bool) : Ensure → Record Name
  | .lookup => if s.logs name then { r with ensured := Function.update r.ensured name true } else r
  | .bind =>
    if refused then r
    else
      match s.path (sockPath name) with
      | some _ => r
      | none => { r with owner := Function.update r.owner s.nextSock (some name) }
  | .setCtrl _ => { r with ensured := Function.update r.ensured name true }
  | .register | .openLog | .unlink => r

def observeTenants (sockPath : Name → Path) (s : State Name Path Conn Body Out)
    (ev : Event Name Conn Body Out) (r : Record Name) : Record Name :=
  match ev with
  | .ensure c refused =>
    match (s.conns c).phase with
    | .ensuring name stage => noteEnsure sockPath s r name refused stage
    | _ => r
  | .admin refused =>
    match s.admin with
    | .ensuring name stage => noteEnsure sockPath s r name refused stage
    | _ => r
  | .adminUnregister name => { r with ensured := Function.update r.ensured name false }
  | _ => r

end Observing

/-- A call on the tables of a tenant, from its first change on: ensure_tenant behind its
    lookup, or drop_tenant. -/
inductive Call where
  | ensure (stage : Ensure)
  | unregister
  | replyErr
  | closeCtrl (sock : ℕ)
  | unlink
  | popLog
  deriving DecidableEq

def Call.drops : Call → Bool
  | .ensure _ => false
  | _ => true

section Calls
variable {Name Path Conn Body Out : Type}

def Phase.call : Phase Name Conn Body → Option (Name × Call)
  | .ensuring _ .lookup => none
  | .ensuring name stage => some (name, .ensure stage)
  | _ => none

def Admin.call : Admin Name Conn Body → Option (Name × Call)
  | .ensuring _ .lookup => none
  | .ensuring name stage => some (name, .ensure stage)
  | .unregister name => some (name, .unregister)
  | .replyErr name _ => some (name, .replyErr)
  | .closeCtrl name sock => some (name, .closeCtrl sock)
  | .unlink name => some (name, .unlink)
  | .popLog name => some (name, .popLog)
  | .idle | .dead => none

def callOf (s : State Name Path Conn Body Out) : Option Conn → Option (Name × Call)
  | some c => (s.conns c).phase.call
  | none => s.admin.call

def Busy (s : State Name Path Conn Body Out) (name : Name) : Prop :=
  ∃ a call, callOf s a = some (name, call)

def Dropping (s : State Name Path Conn Body Out) (name : Name) : Prop :=
  ∃ call, s.admin.call = some (name, call) ∧ call.drops = true

variable {s : State Name Path Conn Body Out}

theorem dropping_iff {name : Name} :
    Dropping s name ↔ ∃ call, callOf s none = some (name, call) ∧ call.drops = true :=
  Iff.rfl

theorem conn_call_ensures {c : Conn} {name : Name} {call : Call}
    (here : callOf s (some c) = some (name, call)) : call.drops = false := by
  simp only [callOf] at here
  cases phase : (s.conns c).phase with
  | ensuring n stage => cases stage <;> rw [phase] at here <;> cases here <;> rfl
  | _ =>
    rw [phase] at here
    cases here

/-- A tenant that may have a socket at its path. -/
def Present (s : State Name Path Conn Body Out) (name : Name) : Prop :=
  s.logs name = true ∨ ∃ a stage, callOf s a = some (name, .ensure stage)

def PathFree (sockPath : Name → Path) (s : State Name Path Conn Body Out) (name : Name) : Prop :=
  ∀ n, n ≠ name → sockPath n = sockPath name → ¬ Present s n

def LookupSeparate (sockPath : Name → Path) (s : State Name Path Conn Body Out) (name : Name) : Prop :=
  if s.logs name then ¬ Dropping s name else ¬ Busy s name ∧ PathFree sockPath s name

def EnsureSeparate (sockPath : Name → Path) (s : State Name Path Conn Body Out) (name : Name)
    (refused : Bool) : Ensure → Prop
  | .lookup => LookupSeparate sockPath s name
  | .openLog | .bind => refused = false
  | .unlink => refused = true → s.path (sockPath name) = none
  | .register | .setCtrl _ => True

/-- An ensure_tenant finds the tenant in logs only while no drop_tenant for it is in progress,
    misses it only while no call for it is in progress and no other tenant has its path, and a
    drop_tenant begins only while no call for the tenant is in progress. In ensure_tenant the
    log can be opened and the socket be bound, and unlink leaves nothing at the path. -/
def Separate (sockPath : Name → Path) (s : State Name Path Conn Body Out) :
    Event Name Conn Body Out → Prop
  | .ensure c refused =>
    match (s.conns c).phase with
    | .ensuring name stage => EnsureSeparate sockPath s name refused stage
    | _ => True
  | .admin refused =>
    match s.admin with
    | .ensuring name stage => EnsureSeparate sockPath s name refused stage
    | _ => True
  | .adminUnregister name => ¬ Busy s name
  | _ => True

end Calls

/-- The tables as they stand for one tenant; `opens` are its open control sockets. -/
structure View where
  known : Bool
  logged : Bool
  ctrl : Option ℕ
  path : Option ℕ
  opens : ℕ → Bool

section Views
variable {Name Path Conn Body Out : Type} [DecidableEq Name]

def viewOf (sockPath : Name → Path) (s : State Name Path Conn Body Out) (r : Record Name)
    (name : Name) : View where
  known := (s.core.tenants.get? name).isSome
  logged := s.logs name
  ctrl := s.ctrlSocks name
  path := s.path (sockPath name)
  opens := fun j => decide (r.owner j = some name) && s.sockOpen j

theorem view_eq {sockPath : Name → Path} {s t : State Name Path Conn Body Out} {r r' : Record Name}
    {n : Name}
    (known : (t.core.tenants.get? n).isSome = (s.core.tenants.get? n).isSome)
    (logs : t.logs n = s.logs n) (ctrl : t.ctrlSocks n = s.ctrlSocks n)
    (path : t.path (sockPath n) = s.path (sockPath n)) (opens : t.sockOpen = s.sockOpen)
    (owner : r'.owner = r.owner) :
    viewOf sockPath t r' n = viewOf sockPath s r n := by
  simp only [viewOf, known, logs, ctrl, path, opens, owner]

end Views

def View.holds (v : View) (sock : Option ℕ) : Prop :=
  (∀ j, v.opens j = true ↔ sock = some j) ∧ ∀ j, sock = some j → v.path = some j

theorem View.holds_none {v : View} (closed : ∀ j, v.opens j = true ↔ none = some j) :
    v.holds none :=
  ⟨closed, nofun⟩

def View.rests (v : View) : Prop :=
  v.logged = v.known ∧ v.ctrl.isSome = v.known ∧ v.holds v.ctrl

def View.stands (v : View) (known logged : Bool) (sock : Option ℕ) : Prop :=
  v.known = known ∧ v.logged = logged ∧ v.ctrl = none ∧ v.holds sock

/-- What a call has done so far. -/
def View.during (v : View) : Call → Prop
  | .ensure .lookup => False
  | .ensure .register => v.stands false false none
  | .ensure .openLog => v.stands true false none
  | .ensure .unlink => v.stands true true none
  | .ensure .bind => v.stands true true none ∧ v.path = none
  | .ensure (.setCtrl sock) => v.stands true true (some sock)
  | .unregister => v.rests
  | .replyErr => v.known = false ∧ v.logged = v.ctrl.isSome ∧ v.holds v.ctrl
  | .closeCtrl sock => v.stands false true (some sock)
  | .unlink => v.stands false true none
  | .popLog => v.known = false ∧ v.ctrl = none ∧ v.holds none

/-- Where nothing is in logs, whatever lies at the path is not the tenant's. -/
theorem rests_path {v : View} (path : Option ℕ) (rests : v.rests) (unlogged : v.logged = false) :
    View.rests { v with path := path } := by
  obtain ⟨same, bound, opens, -⟩ := rests
  refine ⟨same, bound, opens, ?_⟩
  intro j here
  rw [← same, unlogged, Option.isSome_eq_false_iff, Option.isNone_iff_eq_none] at bound
  cases bound.symm.trans here

theorem during_path {v : View} {call : Call} (path : Option ℕ) (shape : v.during call)
    (drops : call.drops = true) (unlogged : v.logged = false) :
    View.during { v with path := path } call := by
  cases call with
  | ensure stage => cases drops
  | unregister => exact rests_path path shape unlogged
  | replyErr =>
    obtain ⟨unknown, logged, opens, -⟩ := shape
    refine ⟨unknown, logged, opens, ?_⟩
    intro j here
    rw [unlogged, here] at logged
    cases logged
  | closeCtrl sock => exact absurd (unlogged.symm.trans shape.2.1) (by decide)
  | unlink => exact absurd (unlogged.symm.trans shape.2.1) (by decide)
  | popLog =>
    obtain ⟨unknown, unbound, opens, -⟩ := shape
    exact ⟨unknown, unbound, View.holds_none opens⟩

section Invariant
variable {Name Path Conn Body Out : Type} [DecidableEq Name]

structure Registered (sockPath : Name → Path) (s : State Name Path Conn Body Out) (r : Record Name) :
    Prop where
  rest : ∀ name, ¬ Busy s name → (viewOf sockPath s r name).rests
  during : ∀ a name call, callOf s a = some (name, call) → (viewOf sockPath s r name).during call
  alone : ∀ a b name x y, callOf s a = some (name, x) → callOf s b = some (name, y) → a = b
  apart : ∀ name, Present s name → PathFree sockPath s name
  ensured : ∀ name, r.ensured name = true → (viewOf sockPath s r name).known = true
  dropped : ∀ name, Dropping s name → r.ensured name = false
  fresh : ∀ j, s.nextSock ≤ j → s.sockOpen j = false ∧ r.owner j = none

variable {sockPath : Name → Path} {s t : State Name Path Conn Body Out} {r r' : Record Name}

theorem init_registered : Registered sockPath (State.init : State Name Path Conn Body Out) {} := by
  refine ⟨?_, ?_, ?_, ?_, nofun, ?_, fun _ _ => ⟨rfl, rfl⟩⟩
  · intro name _
    refine ⟨rfl, rfl, ?_, nofun⟩
    intro j
    simp [viewOf, State.init]
  · intro a name call here
    cases a <;> cases here
  · intro a b name x y here
    cases a <;> cases here
  · rintro name (logged | ⟨a, stage, here⟩)
    · cases logged
    · cases a <;> cases here
  · rintro name ⟨call, here, -⟩
    cases here

theorem registered_frame (reg : Registered sockPath s r) (calls : ∀ a, callOf t a = callOf s a)
    (views : ∀ name, viewOf sockPath t r name = viewOf sockPath s r name) (sock : t.nextSock = s.nextSock)
    (opens : t.sockOpen = s.sockOpen) : Registered sockPath t r := by
  have busy : ∀ name, Busy t name ↔ Busy s name := by
    intro name
    simp only [Busy, calls]
  have dropping : ∀ name, Dropping t name ↔ Dropping s name := by
    intro name
    have admin : t.admin.call = s.admin.call := calls none
    simp only [Dropping, admin]
  have present : ∀ name, Present t name ↔ Present s name := by
    intro name
    have logs : t.logs name = s.logs name := congrArg View.logged (views name)
    simp only [Present, calls, logs]
  refine ⟨?_, ?_, ?_, ?_, ?_, ?_, ?_⟩
  · intro name quiet
    rw [views]
    exact reg.rest name (mt (busy name).mpr quiet)
  · intro a name call here
    rw [views]
    exact reg.during a name call (calls a ▸ here)
  · intro a b name x y here there
    exact reg.alone a b name x y (calls a ▸ here) (calls b ▸ there)
  · intro name here n other same there
    exact reg.apart name ((present name).mp here) n other same ((present n).mp there)
  · intro name returned
    rw [views]
    exact reg.ensured name returned
  · intro name dropped
    exact reg.dropped name ((dropping name).mp dropped)
  · rw [sock, opens]
    exact reg.fresh

/-- The tables of a tenant are as they were, but for a path that it has lost. -/
def Alike (sockPath : Name → Path) (s t : State Name Path Conn Body Out) (r r' : Record Name)
    (n : Name) : Prop :=
  ∃ path, viewOf sockPath t r' n = { viewOf sockPath s r n with path := path } ∧
    (Present s n → path = s.path (sockPath n))

theorem alike_same {n : Name} (same : viewOf sockPath t r' n = viewOf sockPath s r n) :
    Alike sockPath s t r r' n :=
  ⟨s.path (sockPath n), same, fun _ => rfl⟩

theorem alike_path {name n : Name} (free : PathFree sockPath s name) (other : n ≠ name)
    (path : ∀ p, p ≠ sockPath name → t.path p = s.path p)
    (views : viewOf sockPath t r' n =
      { viewOf sockPath s r n with path := t.path (sockPath n) }) :
    Alike sockPath s t r r' n := by
  refine ⟨t.path (sockPath n), views, ?_⟩
  intro present
  apply path
  intro same
  exact free n other same present

theorem alike_known {n : Name} (alike : Alike sockPath s t r r' n) :
    (viewOf sockPath t r' n).known = (viewOf sockPath s r n).known := by
  obtain ⟨path, view, -⟩ := alike
  rw [view]

theorem alike_logs {n : Name} (alike : Alike sockPath s t r r' n) : t.logs n = s.logs n := by
  obtain ⟨path, view, -⟩ := alike
  exact congrArg View.logged view

theorem alike_view {n : Name} (alike : Alike sockPath s t r r' n) (present : Present s n) :
    viewOf sockPath t r' n = viewOf sockPath s r n := by
  obtain ⟨path, view, own⟩ := alike
  rw [view, own present]
  rfl

theorem alike_rests {n : Name} (alike : Alike sockPath s t r r' n)
    (rests : (viewOf sockPath s r n).rests) : (viewOf sockPath t r' n).rests := by
  by_cases present : Present s n
  · rw [alike_view alike present]
    exact rests
  · obtain ⟨path, view, -⟩ := alike
    rw [view]
    apply rests_path path rests
    cases logged : s.logs n with
    | false => exact logged
    | true => exact absurd (.inl logged) present

theorem alike_during {n : Name} (alike : Alike sockPath s t r r' n) {a : Option Conn} {call : Call}
    (here : callOf s a = some (n, call)) (shape : (viewOf sockPath s r n).during call) :
    (viewOf sockPath t r' n).during call := by
  by_cases present : Present s n
  · rw [alike_view alike present]
    exact shape
  · obtain ⟨path, view, -⟩ := alike
    rw [view]
    apply during_path path shape
    · cases call with
      | ensure stage => exact absurd (.inr ⟨a, stage, here⟩) present
      | _ => rfl
    · cases logged : s.logs n with
      | false => exact logged
      | true => exact absurd (.inl logged) present

omit [DecidableEq Name] in
theorem present_before {n : Name} {a : Option Conn} (others : ∀ b, b ≠ a → callOf t b = callOf s b)
    (logs : t.logs n = true → s.logs n = true)
    (mine : ∀ stage, callOf t a ≠ some (n, .ensure stage)) (present : Present t n) :
    Present s n := by
  rcases present with logged | ⟨b, stage, busy⟩
  · exact .inl (logs logged)
  · have other : b ≠ a := by
      rintro rfl
      exact mine stage busy
    exact .inr ⟨b, stage, (others b other).symm.trans busy⟩

theorem act_apart (reg : Registered sockPath s r) (name : Name)
    (present : Present t name → Present s name ∨ PathFree sockPath s name)
    (before : ∀ n, n ≠ name → Present t n → Present s n) :
    ∀ n, Present t n → PathFree sockPath t n := by
  have free : Present t name → PathFree sockPath s name := by
    intro here
    rcases present here with there | free
    · exact reg.apart name there
    · exact free
  intro n here m other same there
  by_cases first : n = name
  · subst first
    exact free here m other same (before m other there)
  · by_cases second : m = name
    · subst second
      exact free there n first same.symm (before n first here)
    · exact reg.apart n (before n first here) m other same (before m second there)

theorem registered_act (reg : Registered sockPath s r) (a : Option Conn) (name : Name)
    (others : ∀ b, b ≠ a → callOf t b = callOf s b)
    (before : ∀ n call, callOf s a = some (n, call) → n = name)
    (sole : ∀ b, b ≠ a → ∀ call, callOf s b ≠ some (name, call))
    (now : ∀ n call, callOf t a = some (n, call) →
      n = name ∧ (viewOf sockPath t r' name).during call)
    (rest : callOf t a = none → (viewOf sockPath t r' name).rests)
    (present : Present t name → Present s name ∨ PathFree sockPath s name)
    (views : ∀ n, n ≠ name → Alike sockPath s t r r' n)
    (ensured : ∀ n, r'.ensured n = true → (viewOf sockPath t r' n).known = true)
    (dropped : ∀ n, Dropping t n → r'.ensured n = false)
    (fresh : ∀ j, t.nextSock ≤ j → t.sockOpen j = false ∧ r'.owner j = none) :
    Registered sockPath t r' := by
  refine ⟨?_, ?_, ?_, ?_, ensured, dropped, fresh⟩
  · intro n quiet
    by_cases here : n = name
    · subst here
      apply rest
      cases busy : callOf t a with
      | none => rfl
      | some call =>
        obtain ⟨same, -⟩ := now call.1 call.2 busy
        exact absurd ⟨a, call.2, busy.trans (by rw [← same])⟩ quiet
    · apply alike_rests (views n here)
      apply reg.rest
      rintro ⟨b, call, busy⟩
      have other : b ≠ a := by
        rintro rfl
        exact here (before n call busy)
      exact quiet ⟨b, call, (others b other).trans busy⟩
  · intro b n call busy
    by_cases mine : b = a
    · subst mine
      obtain ⟨rfl, shape⟩ := now n call busy
      exact shape
    · rw [others b mine] at busy
      have here : n ≠ name := by
        rintro rfl
        exact sole b mine call busy
      exact alike_during (views n here) busy (reg.during b n call busy)
  · intro b c n x y first second
    by_cases mine : b = a <;> by_cases mine' : c = a
    · rw [mine, mine']
    · subst mine
      obtain ⟨rfl, -⟩ := now n x first
      exact absurd ((others c mine').symm.trans second) (sole c mine' y)
    · subst mine'
      obtain ⟨rfl, -⟩ := now n y second
      exact absurd ((others b mine).symm.trans first) (sole b mine x)
    · exact reg.alone b c n x y ((others b mine).symm.trans first) ((others c mine').symm.trans second)
  · apply act_apart reg name present
    intro n other
    apply present_before others (alike_logs (views n other) ▸ id)
    intro stage busy
    exact other (now n _ busy).1

end Invariant

section Ensuring
variable {Name Path Conn Body Out : Type} [DecidableEq Name] [DecidableEq Path]
  {sockPath : Name → Path} {s t : State Name Path Conn Body Out} {r : Record Name} {refused : Bool}

structure Ensured (sockPath : Name → Path) (s t : State Name Path Conn Body Out) (r r' : Record Name)
    (name : Name) (result : Option (Option Ensure)) : Prop where
  others : ∀ n, n ≠ name → Alike sockPath s t r r' n
  known : (viewOf sockPath s r name).known = true → (viewOf sockPath t r' name).known = true
  returns : result = none →
    (viewOf sockPath t r' name).rests ∧ (viewOf sockPath t r' name).known = true
  goes_on : ∀ stage, result = some (some stage) →
    (viewOf sockPath t r' name).during (.ensure stage)
  survives : result ≠ some none
  fresh : ∀ j, t.nextSock ≤ j → t.sockOpen j = false ∧ r'.owner j = none
  recorded : ∀ n, r'.ensured n = true → r.ensured n = true ∨ n = name ∧ result = none

omit [DecidableEq Path] in
theorem advance_ensured {r' : Record Name} {name : Name} {stage : Ensure}
    {result : Option (Option Ensure)} (goes_on : result = some (some stage))
    (others : ∀ n, n ≠ name → Alike sockPath s t r r' n)
    (known : (viewOf sockPath t r' name).known = true)
    (shape : (viewOf sockPath t r' name).during (.ensure stage))
    (fresh : ∀ j, t.nextSock ≤ j → t.sockOpen j = false ∧ r'.owner j = none)
    (recorded : r'.ensured = r.ensured) : Ensured sockPath s t r r' name result := by
  subst goes_on
  refine ⟨others, fun _ => known, ?_, ?_, ?_, fresh, ?_⟩
  · intro returned
    cases returned
  · intro stage' same
    cases same
    exact shape
  · intro raised
    cases raised
  · intro n returned
    rw [recorded] at returned
    exact .inl returned

theorem bind_ensured (reg : Registered sockPath s r) {name : Name}
    (shape : (viewOf sockPath s r name).during (.ensure .bind)) (free : PathFree sockPath s name) :
    Ensured sockPath s (ensureTenant sockPath s name false .bind).1 r
      (noteEnsure sockPath s r name false .bind) name
      (ensureTenant sockPath s name false .bind).2 := by
  obtain ⟨⟨known, logged, ctrl, opens, -⟩, path⟩ := shape
  have unbound : s.path (sockPath name) = none := path
  have new := reg.fresh s.nextSock (Nat.le_refl _)
  simp only [ensureTenant, noteEnsure, unbound, Bool.false_eq_true, if_false]
  refine advance_ensured rfl ?_ known ⟨known, logged, ctrl, ?_, ?_⟩ ?_ rfl
  · intro n other
    apply alike_path free other
    · intro p elsewhere
      exact Function.update_of_ne elsewhere ..
    · simp only [viewOf, View.mk.injEq, true_and]
      funext j
      by_cases here : j = s.nextSock
      · subst here
        simp [new.1, Ne.symm other]
      · simp [here]
  · intro j
    by_cases here : j = s.nextSock
    · subst here
      simp [viewOf]
    · have shut : (viewOf sockPath s r name).opens j ≠ true := by
        intro is_open
        cases (opens j).mp is_open
      simpa [viewOf, here, Ne.symm here] using shut
  · intro j bound
    cases bound
    simp [viewOf]
  · intro j later
    have beyond : s.nextSock < j := later
    have old := reg.fresh j (Nat.le_of_lt beyond)
    simp [Nat.ne_of_gt beyond, old.1, old.2]

theorem setCtrl_ensured (reg : Registered sockPath s r) {name : Name} {sock : ℕ}
    (shape : (viewOf sockPath s r name).during (.ensure (.setCtrl sock))) :
    Ensured sockPath s (ensureTenant sockPath s name refused (.setCtrl sock)).1 r
      (noteEnsure sockPath s r name refused (.setCtrl sock)) name
      (ensureTenant sockPath s name refused (.setCtrl sock)).2 := by
  obtain ⟨known, logged, ctrl, holds⟩ := shape
  have now : (viewOf sockPath (ensureTenant sockPath s name refused (.setCtrl sock)).1
      (noteEnsure sockPath s r name refused (.setCtrl sock)) name).ctrl = some sock := by
    simp [viewOf, ensureTenant]
  refine ⟨?_, id, ?_, ?_, ?_, reg.fresh, ?_⟩
  · intro n other
    exact alike_same (view_eq rfl rfl (Function.update_of_ne other ..) rfl rfl rfl)
  · intro _
    refine ⟨⟨logged.trans known.symm, ?_, ?_⟩, known⟩
    · exact (congrArg Option.isSome now).trans known.symm
    · rw [now]
      exact holds
  · intro stage goes_on
    cases goes_on
  · intro raised
    cases raised
  · intro n returned
    by_cases here : n = name
    · exact .inr ⟨here, rfl⟩
    · simp only [noteEnsure, Function.update_of_ne here] at returned
      exact .inl returned

theorem unlink_ensured (reg : Registered sockPath s r) {name : Name}
    (shape : (viewOf sockPath s r name).during (.ensure .unlink)) (free : PathFree sockPath s name)
    (gone : refused = true → s.path (sockPath name) = none) :
    Ensured sockPath s (ensureTenant sockPath s name refused .unlink).1 r r name
      (ensureTenant sockPath s name refused .unlink).2 := by
  obtain ⟨known, logged, ctrl, opens, -⟩ := shape
  cases refused with
  | true =>
    refine advance_ensured rfl (fun n _ => alike_same rfl) known
      ⟨⟨known, logged, ctrl, View.holds_none opens⟩, gone rfl⟩ reg.fresh rfl
  | false =>
    refine advance_ensured rfl ?_ known ⟨⟨known, logged, ctrl, View.holds_none opens⟩, ?_⟩
      reg.fresh rfl
    · intro n other
      apply alike_path free other
      · intro p elsewhere
        exact Function.update_of_ne elsewhere ..
      · rfl
    · simp [viewOf, ensureTenant]

theorem ensure_ensured (reg : Registered sockPath s r) {name : Name} {stage : Ensure}
    (shape : (viewOf sockPath s r name).during (.ensure stage)) (free : PathFree sockPath s name)
    (separate : EnsureSeparate sockPath s name refused stage) :
    Ensured sockPath s (ensureTenant sockPath s name refused stage).1 r
      (noteEnsure sockPath s r name refused stage) name
      (ensureTenant sockPath s name refused stage).2 := by
  cases stage with
  | lookup => exact shape.elim
  | bind =>
    cases separate
    exact bind_ensured reg shape free
  | setCtrl sock => exact setCtrl_ensured reg shape
  | unlink => exact unlink_ensured reg shape free separate
  | register =>
    obtain ⟨-, logged, ctrl, holds⟩ := shape
    have known : (viewOf sockPath (ensureTenant sockPath s name refused .register).1 r name).known =
        true := by
      simp [viewOf, ensureTenant, GateCore.register, Dict.get?_setDefault]
    refine advance_ensured rfl ?_ known ⟨known, logged, ctrl, holds⟩ reg.fresh rfl
    intro n other
    refine alike_same (view_eq ?_ rfl rfl rfl rfl rfl)
    simp [ensureTenant, GateCore.register, Dict.get?_setDefault, other]
  | openLog =>
    cases separate
    obtain ⟨known, -, ctrl, holds⟩ := shape
    refine advance_ensured rfl ?_ known ⟨known, ?_, ctrl, holds⟩ reg.fresh rfl
    · intro n other
      exact alike_same (view_eq rfl (Function.update_of_ne other ..) rfl rfl rfl rfl)
    · simp [viewOf, ensureTenant]

def ensuringCall (name : Name) : Option (Option Ensure) → Option (Name × Call)
  | some (some stage) => some (name, .ensure stage)
  | _ => none

omit [DecidableEq Name] in
theorem ensuringCall_some {name n : Name} {result : Option (Option Ensure)} {call : Call}
    (now : ensuringCall name result = some (n, call)) :
    ∃ stage, result = some (some stage) ∧ n = name ∧ call = .ensure stage := by
  match result with
  | none => cases now
  | some none => cases now
  | some (some stage) =>
    cases now
    exact ⟨stage, rfl, rfl, rfl⟩

omit [DecidableEq Name] in
theorem ensuringCall_none {name : Name} {result : Option (Option Ensure)}
    (now : ensuringCall name result = none) : result = none ∨ result = some none := by
  match result with
  | none => exact .inl rfl
  | some none => exact .inr rfl
  | some (some stage) => cases now

structure EnsureStep (sockPath : Name → Path) (s t : State Name Path Conn Body Out) (a : Option Conn)
    (name : Name) (refused : Bool) (stage : Ensure) : Prop where
  others : ∀ b, b ≠ a → callOf t b = callOf s b
  mine : callOf t a = ensuringCall name (ensureTenant sockPath s name refused stage).2
  views : ∀ r n, viewOf sockPath t r n =
    viewOf sockPath (ensureTenant sockPath s name refused stage).1 r n
  sock : t.nextSock = (ensureTenant sockPath s name refused stage).1.nextSock
  opens : t.sockOpen = (ensureTenant sockPath s name refused stage).1.sockOpen

theorem ensured_registered (reg : Registered sockPath s r) {a : Option Conn} {name : Name}
    {stage : Ensure} (here : callOf s a = some (name, .ensure stage))
    (separate : EnsureSeparate sockPath s name refused stage)
    (step : EnsureStep sockPath s t a name refused stage) :
    Registered sockPath t (noteEnsure sockPath s r name refused stage) := by
  obtain ⟨others, mine, views, sock, opens⟩ := step
  have present : Present s name := .inr ⟨a, stage, here⟩
  have after := ensure_ensured reg (reg.during a name _ here) (reg.apart name present) separate
  have sole : ∀ b, b ≠ a → ∀ call, callOf s b ≠ some (name, call) := by
    intro b other call busy
    exact other (reg.alone b a name _ _ busy here)
  apply registered_act reg a name others _ sole
  · intro n call now
    obtain ⟨stage', result, rfl, rfl⟩ := ensuringCall_some (mine.symm.trans now)
    rw [views]
    exact ⟨rfl, after.goes_on stage' result⟩
  · intro idle
    rw [views]
    rcases ensuringCall_none (mine.symm.trans idle) with result | result
    · exact (after.returns result).1
    · exact absurd result after.survives
  · exact fun _ => .inl present
  · intro n other
    obtain ⟨path, view, own⟩ := after.others n other
    exact ⟨path, (views _ n).trans view, own⟩
  · intro n returned
    rw [views]
    by_cases at_name : n = name
    · subst at_name
      rcases after.recorded n returned with before | ⟨-, result⟩
      · exact after.known (reg.ensured n before)
      · exact (after.returns result).2
    · rw [alike_known (after.others n at_name)]
      rcases after.recorded n returned with before | ⟨same, -⟩
      · exact reg.ensured n before
      · exact absurd same at_name
  · intro n dropping
    obtain ⟨call, busy, drops⟩ := dropping_iff.mp dropping
    have elsewhere : none ≠ a := by
      rintro rfl
      obtain ⟨stage', -, -, rfl⟩ := ensuringCall_some (mine.symm.trans busy)
      cases drops
    rw [others none elsewhere] at busy
    have before := reg.dropped n ⟨call, busy, drops⟩
    by_contra returned
    rcases after.recorded n (by simpa using returned) with old | ⟨same, -⟩
    · rw [old] at before
      cases before
    · exact sole none elsewhere call (same ▸ busy)
  · rw [sock, opens]
    exact after.fresh
  · intro n call busy
    rw [here] at busy
    cases busy
    rfl

omit [DecidableEq Path] in
theorem logged_known (reg : Registered sockPath s r) {name : Name} (logged : s.logs name = true)
    (kept : ¬ Dropping s name) : (viewOf sockPath s r name).known = true := by
  have here : (viewOf sockPath s r name).logged = true := logged
  by_cases busy : Busy s name
  · obtain ⟨a, call, busy⟩ := busy
    have ensures : call.drops = false := by
      cases a with
      | some c => exact conn_call_ensures busy
      | none =>
        by_contra drops
        exact kept ⟨call, busy, by simpa using drops⟩
    have shape := reg.during a name call busy
    cases call with
    | ensure stage =>
      cases stage with
      | lookup => exact shape.elim
      | register => exact absurd (here.symm.trans shape.2.1) (by decide)
      | openLog => exact shape.1
      | unlink => exact shape.1
      | bind => exact shape.1.1
      | setCtrl sock => exact shape.1
    | _ => cases ensures
  · exact (reg.rest name busy).1.symm.trans here

theorem hit_registered (reg : Registered sockPath s r) {a : Option Conn} {name : Name}
    (logged : s.logs name = true) (kept : ¬ Dropping s name) (here : callOf s a = none)
    (step : EnsureStep sockPath s t a name refused .lookup) :
    Registered sockPath t { r with ensured := Function.update r.ensured name true } := by
  have calls : ∀ b, callOf t b = callOf s b := by
    intro b
    by_cases same : b = a
    · subst same
      rw [step.mine, here]
      simp [ensureTenant, logged, ensuringCall]
    · exact step.others b same
  have framed := registered_frame reg calls (step.views r) step.sock step.opens
  refine ⟨framed.rest, framed.during, framed.alone, framed.apart, ?_, ?_, framed.fresh⟩
  · intro n returned
    by_cases at_name : n = name
    · subst at_name
      rw [step.views]
      exact logged_known reg logged kept
    · simp only [Function.update_of_ne at_name] at returned
      exact framed.ensured n returned
  · intro n dropping
    have at_name : n ≠ name := by
      rintro rfl
      obtain ⟨call, busy, drops⟩ := dropping_iff.mp dropping
      exact kept ⟨call, (calls none).symm.trans busy, drops⟩
    simp only [Function.update_of_ne at_name]
    exact framed.dropped n dropping

theorem miss_registered (reg : Registered sockPath s r) {a : Option Conn} {name : Name}
    (missed : s.logs name = false) (quiet : ¬ Busy s name) (free : PathFree sockPath s name)
    (here : callOf s a = none)
    (step : EnsureStep sockPath s t a name refused .lookup) : Registered sockPath t r := by
  obtain ⟨same, bound, holds⟩ := reg.rest name quiet
  have unlogged : (viewOf sockPath s r name).logged = false := missed
  have unknown : (viewOf sockPath s r name).known = false := same.symm.trans unlogged
  have unbound : (viewOf sockPath s r name).ctrl = none := by
    rw [unknown] at bound
    simpa using bound
  have mine : callOf t a = some (name, .ensure .register) := by
    rw [step.mine]
    simp [ensureTenant, missed, ensuringCall]
  have views : ∀ n, viewOf sockPath t r n = viewOf sockPath s r n := step.views r
  apply registered_act reg a name step.others
  · intro n call busy
    rw [here] at busy
    cases busy
  · intro b _ call busy
    exact quiet ⟨b, call, busy⟩
  · intro n call now
    cases mine.symm.trans now
    rw [views]
    rw [unbound] at holds
    exact ⟨rfl, unknown, unlogged, unbound, holds⟩
  · intro idle
    cases mine.symm.trans idle
  · exact fun _ => .inr free
  · intro n _
    exact alike_same (views n)
  · intro n returned
    rw [views]
    exact reg.ensured n returned
  · intro n dropping
    obtain ⟨call, busy, drops⟩ := dropping_iff.mp dropping
    have elsewhere : none ≠ a := by
      rintro rfl
      cases mine.symm.trans busy
      cases drops
    exact reg.dropped n ⟨call, (step.others none elsewhere).symm.trans busy, drops⟩
  · rw [step.sock, step.opens]
    exact reg.fresh

theorem lookup_registered (reg : Registered sockPath s r) {a : Option Conn} {name : Name}
    (separate : LookupSeparate sockPath s name) (here : callOf s a = none)
    (step : EnsureStep sockPath s t a name refused .lookup) :
    Registered sockPath t (noteEnsure sockPath s r name refused .lookup) := by
  cases logged : s.logs name with
  | true =>
    have kept : ¬ Dropping s name := by simpa [LookupSeparate, logged] using separate
    simp only [noteEnsure, logged, if_true]
    exact hit_registered reg logged kept here step
  | false =>
    have apart : ¬ Busy s name ∧ PathFree sockPath s name := by
      simpa [LookupSeparate, logged] using separate
    have note : noteEnsure sockPath s r name refused .lookup = r := by simp [noteEnsure, logged]
    rw [note]
    exact miss_registered reg logged apart.1 apart.2 here step

end Ensuring

section Threads
variable {Name Path Conn Body Out : Type} [DecidableEq Name] [DecidableEq Path] [DecidableEq Conn]
  {sockPath : Name → Path} {s t : State Name Path Conn Body Out} {r : Record Name} {name : Name}
  {refused : Bool} {stage : Ensure}

omit [DecidableEq Name] [DecidableEq Path] in
theorem callOf_setConn (c : Conn) (f : ConnState Name Conn Body Out → ConnState Name Conn Body Out)
    (b : Option Conn) : callOf (setConn s c f) b =
      if b = some c then (f (s.conns c)).phase.call else callOf s b := by
  cases b with
  | none => rfl
  | some d =>
    by_cases same : d = c
    · subst same
      simp [callOf, setConn]
    · simp [callOf, setConn, same]

omit [DecidableEq Conn] in
theorem ensureTenant_next {stage' : Ensure}
    (result : (ensureTenant sockPath s name refused stage).2 = some (some stage')) :
    stage' ≠ .lookup := by
  rintro rfl
  cases stage with
  | bind =>
    cases refused
    · simp only [ensureTenant, Bool.false_eq_true, if_false] at result
      split at result <;> cases result
    · cases result
  | lookup =>
    simp only [ensureTenant] at result
    split at result <;> cases result
  | openLog => cases refused <;> cases result
  | _ => cases result

omit [DecidableEq Name] [DecidableEq Path] [DecidableEq Conn] in
theorem ensuring_call (behind : stage ≠ .lookup) :
    (Phase.ensuring name stage : Phase Name Conn Body).call = some (name, .ensure stage) ∧
    (Admin.ensuring name stage : Admin Name Conn Body).call = some (name, .ensure stage) := by
  cases stage with
  | lookup => exact absurd rfl behind
  | _ => exact ⟨rfl, rfl⟩

theorem connEnsure_step (sockPath : Name → Path) (c : Conn) (name : Name) (refused : Bool)
    (stage : Ensure) :
    EnsureStep sockPath s (connEnsure sockPath s c name refused stage) (some c) name refused stage := by
  obtain ⟨conns, admin, -⟩ := ensureTenant_keeps sockPath s name refused stage
  have calls : ∀ b, callOf (ensureTenant sockPath s name refused stage).1 b = callOf s b := by
    intro b
    cases b <;> simp only [callOf, conns, admin]
  refine ⟨?_, ?_, ?_, ?_, ?_⟩
  · intro b other
    rw [← calls b]
    unfold connEnsure
    split <;> rename_i found <;> rw [setPhase, callOf_setConn, if_neg other, found]
  · unfold connEnsure
    split <;> rename_i found <;> rw [setPhase, callOf_setConn, if_pos rfl, found]
    · rfl
    · rfl
    · exact (ensuring_call (ensureTenant_next (congrArg Prod.snd found))).1
  · intro r n
    unfold connEnsure
    split <;> rename_i found <;> rw [found] <;> rfl
  · unfold connEnsure
    split <;> rename_i found <;> rw [found] <;> rfl
  · unfold connEnsure
    split <;> rename_i found <;> rw [found] <;> rfl

theorem adminEnsure_step (stands : s.admin = .ensuring name stage)
    (stepped : adminStep sockPath s refused = some t) :
    EnsureStep sockPath s t none name refused stage := by
  obtain ⟨conns, -⟩ := ensureTenant_keeps sockPath s name refused stage
  simp only [adminStep, stands] at stepped
  split at stepped <;> rename_i found <;> cases stepped
  all_goals
    refine ⟨?_, ?_, ?_, ?_, ?_⟩
    · intro b other
      cases b with
      | none => exact absurd rfl other
      | some c =>
        rw [found] at conns
        exact congrArg (fun conns => (conns c).phase.call) conns
    · simp only [callOf, found]
      first | rfl | exact (ensuring_call (ensureTenant_next (congrArg Prod.snd found))).2
    · intro r n
      rw [found]
      rfl
    · rw [found]
    · rw [found]

theorem connEnsure_registered (reg : Registered sockPath s r) {c : Conn}
    (phase : (s.conns c).phase = .ensuring name stage)
    (separate : EnsureSeparate sockPath s name refused stage) :
    Registered sockPath (connEnsure sockPath s c name refused stage)
      (noteEnsure sockPath s r name refused stage) := by
  have here : callOf s (some c) = (Phase.ensuring name stage : Phase Name Conn Body).call :=
    congrArg Phase.call phase
  by_cases look : stage = .lookup
  · subst look
    exact lookup_registered reg separate here (connEnsure_step sockPath c name refused .lookup)
  · rw [(ensuring_call look).1] at here
    exact ensured_registered reg here separate (connEnsure_step sockPath c name refused stage)

theorem adminEnsure_registered (reg : Registered sockPath s r) (stands : s.admin = .ensuring name stage)
    (separate : EnsureSeparate sockPath s name refused stage)
    (stepped : adminStep sockPath s refused = some t) :
    Registered sockPath t (noteEnsure sockPath s r name refused stage) := by
  have here : callOf s none = (Admin.ensuring name stage : Admin Name Conn Body).call :=
    congrArg Admin.call stands
  by_cases look : stage = .lookup
  · subst look
    exact lookup_registered reg separate here (adminEnsure_step stands stepped)
  · rw [(ensuring_call look).2] at here
    exact ensured_registered reg here separate (adminEnsure_step stands stepped)

omit [DecidableEq Path] [DecidableEq Conn] in
theorem drop_registered (reg : Registered sockPath s r) {call : Call}
    (here : s.admin.call = some (name, call)) (drops : call.drops = true)
    (others : ∀ c, callOf t (some c) = callOf s (some c))
    (now : ∀ n call', t.admin.call = some (n, call') →
      n = name ∧ call'.drops = true ∧ (viewOf sockPath t r name).during call')
    (rest : t.admin.call = none → (viewOf sockPath t r name).rests)
    (logs : t.logs name = true → s.logs name = true)
    (views : ∀ n, n ≠ name → Alike sockPath s t r r n)
    (fresh : ∀ j, t.nextSock ≤ j → t.sockOpen j = false ∧ r.owner j = none) :
    Registered sockPath t r := by
  have forgotten : r.ensured name = false := reg.dropped name ⟨call, here, drops⟩
  have conns : ∀ b, b ≠ none → callOf t b = callOf s b := by
    intro b other
    cases b with
    | none => exact absurd rfl other
    | some c => exact others c
  apply registered_act reg none name conns _ _ _ rest _ views _ _ fresh
  · intro n call' busy
    cases here.symm.trans busy
    rfl
  · intro b other call' busy
    exact other (reg.alone b none name _ _ busy here)
  · intro n call' busy
    exact ⟨(now n call' busy).1, (now n call' busy).2.2⟩
  · intro there
    left
    apply present_before conns logs _ there
    intro stage busy
    cases (now name _ busy).2.1
  · intro n returned
    have elsewhere : n ≠ name := by
      rintro rfl
      rw [forgotten] at returned
      cases returned
    rw [alike_known (views n elsewhere)]
    exact reg.ensured n returned
  · intro n dropping
    obtain ⟨call', busy, -⟩ := dropping
    obtain ⟨rfl, -⟩ := now n call' busy
    exact forgotten

omit [DecidableEq Path] [DecidableEq Conn] in
theorem dropping_registered (reg : Registered sockPath s r) {call call' : Call}
    (here : s.admin.call = some (name, call)) (drops : call.drops = true)
    (goes_on : t.admin.call = some (name, call')) (drops' : call'.drops = true)
    (others : ∀ c, callOf t (some c) = callOf s (some c))
    (shape : (viewOf sockPath t r name).during call') (logs : t.logs = s.logs)
    (views : ∀ n, n ≠ name → Alike sockPath s t r r n)
    (fresh : ∀ j, t.nextSock ≤ j → t.sockOpen j = false ∧ r.owner j = none) :
    Registered sockPath t r := by
  apply drop_registered reg here drops others _ _ _ views fresh
  · intro n next now
    cases goes_on.symm.trans now
    exact ⟨rfl, drops', shape⟩
  · intro ended
    cases goes_on.symm.trans ended
  · rw [logs]
    exact id

omit [DecidableEq Path] [DecidableEq Conn] in
theorem closeCtrl_registered (reg : Registered sockPath s r) {sock : ℕ}
    (stands : s.admin = .closeCtrl name sock) :
    Registered sockPath { s with
      sockOpen := Function.update s.sockOpen sock false
      admin := .unlink name } r := by
  have here : s.admin.call = some (name, .closeCtrl sock) := congrArg Admin.call stands
  obtain ⟨unknown, logged, unbound, opens, -⟩ := reg.during none name _ here
  have mine : r.owner sock = some name := by
    have is_open := (opens sock).mpr rfl
    simp only [viewOf, Bool.and_eq_true, decide_eq_true_eq] at is_open
    exact is_open.1
  refine dropping_registered reg here rfl rfl rfl (fun _ => rfl)
    ⟨unknown, logged, unbound, ?_, ?_⟩ rfl ?_ ?_
  · intro j
    by_cases at_sock : j = sock
    · simp [viewOf, at_sock]
    · have shut : (viewOf sockPath s r name).opens j ≠ true := by
        intro is_open
        exact at_sock (Option.some.inj ((opens j).mp is_open)).symm
      simpa [viewOf, at_sock] using shut
  · intro j bound
    cases bound
  · intro m other
    apply alike_same
    simp only [viewOf, View.mk.injEq, true_and]
    funext j
    by_cases at_sock : j = sock
    · subst at_sock
      simp [mine, Ne.symm other]
    · simp [at_sock]
  · intro j later
    have old := reg.fresh j later
    refine ⟨?_, old.2⟩
    by_cases at_sock : j = sock
    · simp [at_sock]
    · simpa [at_sock] using old.1

theorem popCtrl_registered (reg : Registered sockPath s r)
    (stands : s.admin = .replyErr name []) (stepped : adminStep sockPath s refused = some t) :
    Registered sockPath t r := by
  have here : s.admin.call = some (name, .replyErr) := congrArg Admin.call stands
  obtain ⟨unknown, logged, holds⟩ := reg.during none name _ here
  simp only [adminStep, stands] at stepped
  split at stepped
  · rename_i sock bound
    have bound' : (viewOf sockPath s r name).ctrl = some sock := bound
    rw [bound'] at logged holds
    cases stepped
    refine dropping_registered reg here rfl rfl rfl (fun _ => rfl)
      ⟨unknown, logged, ?_, holds⟩ rfl ?_ reg.fresh
    · simp [viewOf]
    · intro m other
      exact alike_same (view_eq rfl rfl (Function.update_of_ne other ..) rfl rfl rfl)
  · rename_i unbound
    have unbound' : (viewOf sockPath s r name).ctrl = none := unbound
    rw [unbound'] at holds
    cases stepped
    exact dropping_registered reg here rfl rfl rfl (fun _ => rfl) ⟨unknown, unbound', holds⟩ rfl
      (fun _ _ => alike_same rfl) reg.fresh

omit [DecidableEq Path] [DecidableEq Conn] in
theorem popLog_registered (reg : Registered sockPath s r) (stands : s.admin = .popLog name) :
    Registered sockPath { s with logs := Function.update s.logs name false, admin := .idle } r := by
  have here : s.admin.call = some (name, .popLog) := congrArg Admin.call stands
  obtain ⟨unknown, unbound, holds⟩ := reg.during none name _ here
  rw [← unbound] at holds
  refine drop_registered reg here rfl (fun _ => rfl) ?_ ?_ ?_ ?_ reg.fresh
  · intro n call now
    cases now
  · intro _
    refine ⟨Eq.trans ?_ unknown.symm, (congrArg Option.isSome unbound).trans unknown.symm, holds⟩
    simp [viewOf]
  · simp
  · intro m other
    exact alike_same (view_eq rfl (Function.update_of_ne other ..) rfl rfl rfl rfl)

theorem adminDrop_registered (reg : Registered sockPath s r) {call : Call}
    (here : s.admin.call = some (name, call)) (drops : call.drops = true)
    (stepped : adminStep sockPath s refused = some t) : Registered sockPath t r := by
  have before := here
  have shape := reg.during none name call here
  cases stands : s.admin with
  | idle => simp [stands, Admin.call] at here
  | dead => simp [stands, Admin.call] at here
  | ensuring n stage =>
    rw [stands] at here
    cases stage <;> cases here <;> cases drops
  | unregister n =>
    rw [stands] at here
    cases here
    simp only [adminStep, stands, Option.some.injEq] at stepped
    subst stepped
    obtain ⟨logged, bound, holds⟩ := shape
    refine dropping_registered reg before rfl rfl rfl (fun _ => rfl)
      ⟨?_, logged.trans bound.symm, holds⟩ rfl ?_ reg.fresh
    · simp [viewOf, GateCore.unregister, Dict.get?_pop]
    · intro m other
      refine alike_same (view_eq ?_ rfl rfl rfl rfl rfl)
      simp [GateCore.unregister, Dict.get?_pop, other]
  | replyErr n unserved =>
    rw [stands] at here
    cases here
    cases unserved with
    | nil => exact popCtrl_registered reg stands stepped
    | cons req rest =>
      simp only [adminStep, stands, Option.some.injEq] at stepped
      subst stepped
      refine dropping_registered reg before rfl rfl rfl ?_ shape rfl (fun _ _ => alike_same rfl)
        reg.fresh
      intro c
      exact congrArg Phase.call (sendall_phase (.error req) c)
  | closeCtrl n sock =>
    rw [stands] at here
    cases here
    simp only [adminStep, stands, Option.some.injEq] at stepped
    subst stepped
    exact closeCtrl_registered reg stands
  | unlink n =>
    rw [stands] at here
    cases here
    simp only [adminStep, stands, Option.some.injEq] at stepped
    subst stepped
    obtain ⟨unknown, logged, unbound, opens, -⟩ := shape
    refine dropping_registered reg before rfl rfl rfl (fun _ => rfl)
      ⟨unknown, unbound, View.holds_none opens⟩ rfl ?_ reg.fresh
    intro m other
    have free : PathFree sockPath s name := reg.apart name (.inl logged)
    refine alike_path free other ?_ rfl
    intro p elsewhere
    cases refused with
    | false => exact Function.update_of_ne elsewhere ..
    | true => rfl
  | popLog n =>
    rw [stands] at here
    cases here
    simp only [adminStep, stands, Option.some.injEq] at stepped
    subst stepped
    exact popLog_registered reg stands

omit [DecidableEq Path] [DecidableEq Conn] in
theorem begins_registered (reg : Registered sockPath s r) (idle : s.admin = .idle)
    (quiet : ¬ Busy s name) :
    Registered sockPath { s with admin := .unregister name }
      { r with ensured := Function.update r.ensured name false } := by
  have conns : ∀ b, b ≠ none →
      callOf { s with admin := Admin.unregister name } b = callOf s b := by
    intro b other
    cases b with
    | none => exact absurd rfl other
    | some c => rfl
  refine registered_act reg none name conns ?_ ?_ ?_ nofun ?_ (fun _ _ => alike_same rfl) ?_ ?_
    reg.fresh
  · intro n call busy
    simp [callOf, idle, Admin.call] at busy
  · intro b _ call busy
    exact quiet ⟨b, call, busy⟩
  · rintro n call ⟨⟩
    exact ⟨rfl, reg.rest name quiet⟩
  · intro there
    exact .inl (present_before conns id nofun there)
  · intro n returned
    by_cases here : n = name
    · simp [here] at returned
    · simp only [Function.update_of_ne here] at returned
      exact reg.ensured n returned
  · rintro n ⟨call, ⟨⟩, -⟩
    simp

end Threads

section Runs
variable {Name Path Conn Body Out : Type} [DecidableEq Name] [DecidableEq Path] [DecidableEq Conn]
  {cfg : Config} {sockPath : Name → Path} {s t : State Name Path Conn Body Out} {r : Record Name}

omit [DecidableEq Path] [DecidableEq Conn] in
theorem core_registered (reg : Registered sockPath s r) {core : Core Name (Request Conn Body)}
    (same : ∀ n, (core.tenants.get? n).isSome = (s.core.tenants.get? n).isSome) :
    Registered sockPath { s with core := core } r := by
  refine registered_frame reg ?_ ?_ rfl rfl
  · intro a
    cases a <;> rfl
  · intro n
    exact view_eq (same n) rfl rfl rfl rfl rfl

omit [DecidableEq Path] in
theorem setConn_registered (reg : Registered sockPath s r) (c : Conn)
    (f : ConnState Name Conn Body Out → ConnState Name Conn Body Out)
    (same : (f (s.conns c)).phase.call = (s.conns c).phase.call) :
    Registered sockPath (setConn s c f) r := by
  refine registered_frame reg ?_ (fun _ => rfl) rfl rfl
  intro a
  rw [callOf_setConn]
  split
  · rename_i here
    rw [here]
    exact same
  · rfl

omit [DecidableEq Path] in
theorem sendall_registered (reg : Registered sockPath s r) (reply : Reply Conn Body Out) :
    Registered sockPath (sendall s reply) r := by
  apply setConn_registered reg
  split <;> rfl

omit [DecidableEq Conn] in
theorem submit_keys {core core' : Core Name (Request Conn Body)} {name : Name}
    {req : Request Conn Body} (submitted : GateCore.submit core name req = some core') (n : Name) :
    (core'.tenants.get? n).isSome = (core.tenants.get? n).isSome := by
  unfold GateCore.submit at submitted
  split at submitted
  · cases submitted
  · cases submitted
    exact Dict.isSome_get?_modify ..

omit [DecidableEq Conn] in
theorem cmd_keys (core : Core Name (Request Conn Body)) (name : Name) (k : Cmd) (n : Name) :
    ((GateCore.cmd cfg core name k).1.tenants.get? n).isSome = (core.tenants.get? n).isSome := by
  unfold GateCore.cmd
  split
  · rfl
  · exact Dict.isSome_get?_modify ..

omit [DecidableEq Path] [DecidableEq Conn] in
theorem select_registered (reg : Registered sockPath s r) : Registered sockPath (select cfg s) r := by
  unfold select
  split
  · exact reg
  · split
    · exact reg
    · rename_i popped
      obtain ⟨rest, -, -, -, -, rfl⟩ := popFrom_spec popped
      exact core_registered reg fun n => Dict.isSome_get?_modify ..

theorem admin_registered (reg : Registered sockPath s r) {refused : Bool}
    (separate : Separate sockPath s (.admin refused))
    (stepped : adminStep sockPath s refused = some t) :
    Registered sockPath t (observeTenants sockPath s (.admin refused) r) := by
  cases stands : s.admin with
  | idle => simp [adminStep, stands] at stepped
  | dead => simp [adminStep, stands] at stepped
  | ensuring name stage =>
    simp only [observeTenants, stands]
    apply adminEnsure_registered reg stands _ stepped
    simpa only [Separate, stands] using separate
  | unregister name | replyErr name unserved | closeCtrl name sock | unlink name | popLog name =>
    simp only [observeTenants, stands]
    exact adminDrop_registered reg (congrArg Admin.call stands) rfl stepped

theorem step_registered {ev : Event Name Conn Body Out} (reg : Registered sockPath s r)
    (separate : Separate sockPath s ev) (step : ProxyStep cfg sockPath s ev t) :
    Registered sockPath t (observeTenants sockPath s ev r) := by
  cases step_move step with
  | admin step => exact admin_registered reg separate step
  | @ensure c name refused stage phase =>
    simp only [observeTenants, phase]
    apply connEnsure_registered reg phase
    simpa only [Separate, phase] using separate
  | @handshake c name phase =>
    apply setConn_registered reg c
    rw [phase]
    rfl
  | @read c body name req phase numbered =>
    apply setConn_registered reg c
    rw [phase]
    rfl
  | @hangup c name phase =>
    apply setConn_registered reg c
    rw [phase]
    rfl
  | @refused c name req phase missing =>
    apply setConn_registered reg c
    rw [phase]
    rfl
  | @submitted c name req core phase done =>
    apply setConn_registered (core_registered reg (submit_keys done)) c
    rw [phase]
    rfl
  | adminRegister idle =>
    refine registered_frame reg ?_ (fun _ => rfl) rfl rfl
    intro a
    cases a with
    | some c => rfl
    | none => simp [callOf, Admin.call, idle]
  | adminUnregister idle => exact begins_registered reg idle separate
  | @cmd name k => exact core_registered reg (cmd_keys s.core name k)
  | select idle quiet => exact select_registered reg
  | @ran out dtUs now f busy =>
    have kept : Registered sockPath { s with core := finish cfg s.core f dtUs now } r :=
      core_registered reg fun n => Dict.isSome_get?_modify ..
    exact registered_frame kept (fun a => by cases a <;> rfl) (fun _ => rfl) rfl rfl
  | raised busy => exact core_registered reg fun _ => rfl
  | @send req out sending =>
    have kept := sendall_registered reg (.result req out)
    exact registered_frame kept (fun a => by cases a <;> rfl) (fun _ => rfl) rfl rfl

def NoCall (s : State Name Path Conn Body Out) : Prop :=
  (∀ c name stage, (s.conns c).phase ≠ .ensuring name stage) ∧
    (s.admin = .idle ∨ s.admin = .dead)

omit [DecidableEq Name] [DecidableEq Path] [DecidableEq Conn] in
theorem noCall_quiet (quiet : NoCall s) (name : Name) : ¬ Busy s name := by
  rintro ⟨a, call, busy⟩
  cases a with
  | none => rcases quiet.2 with idle | dead <;> simp_all [callOf, Admin.call]
  | some c =>
    simp only [callOf] at busy
    cases phase : (s.conns c).phase with
    | ensuring n stage => exact quiet.1 c n stage phase
    | _ =>
      rw [phase] at busy
      cases busy

/-- The three tables have the same names, each of them has exactly one open control socket,
    the one at its path, and a tenant that was ensured since its last drop is there. -/
structure Consistent (sockPath : Name → Path) (s : State Name Path Conn Body Out) (r : Record Name) :
    Prop where
  logs : ∀ name, s.logs name = (s.core.tenants.get? name).isSome
  ctrl : ∀ name, (s.ctrlSocks name).isSome = (s.core.tenants.get? name).isSome
  socket : ∀ name, (s.core.tenants.get? name).isSome = true → ∃ sock,
    s.ctrlSocks name = some sock ∧ s.path (sockPath name) = some sock ∧
      ∀ j, s.sockOpen j = true ∧ r.owner j = some name ↔ j = sock
  ensured : ∀ name, r.ensured name = true → (s.core.tenants.get? name).isSome = true

omit [DecidableEq Path] [DecidableEq Conn] in
theorem registered_consistent (reg : Registered sockPath s r) (quiet : NoCall s) :
    Consistent sockPath s r := by
  have rests : ∀ name, (viewOf sockPath s r name).rests :=
    fun name => reg.rest name (noCall_quiet quiet name)
  refine ⟨fun name => (rests name).1, fun name => (rests name).2.1, ?_, reg.ensured⟩
  intro name known
  obtain ⟨-, bound, opens, path⟩ := rests name
  obtain ⟨sock, here⟩ := Option.isSome_iff_exists.mp (bound.trans known)
  refine ⟨sock, here, path sock here, ?_⟩
  intro j
  have is_open := opens j
  rw [here, Option.some.injEq] at is_open
  simp only [viewOf, Bool.and_eq_true, decide_eq_true_eq] at is_open
  rw [and_comm, is_open, eq_comm]

/-- Whenever no call is in progress, the registry is consistent, in every run whose calls keep
    apart and can register their tenants. -/
theorem registry_consistent {labels : List (Event Name Conn Body Out)}
    (run : Run (Runs.Watched (observeTenants sockPath)
      (Guarded (Separate sockPath) (ProxyStep cfg sockPath))) (State.init, {}) labels (t, r))
    (quiet : NoCall t) : Consistent sockPath t r := by
  have reg := run_invariant
    (fun x : State Name Path Conn Body Out × Record Name => Registered sockPath x.1 x.2)
    (fun x ev y reg step => by
      rw [step.2]
      exact step_registered reg step.1.1 step.1.2) run init_registered
  exact registered_consistent reg quiet

end Runs

section Races
variable {Name Path Conn Body Out : Type} [DecidableEq Name] [Fintype Conn]

instance (s : State Name Path Conn Body Out) (name : Name) : Decidable (Busy s name) :=
  decidable_of_iff (∃ a, (callOf s a).map Prod.fst = some name) (by simp [Busy])

instance (s : State Name Path Conn Body Out) (name : Name) : Decidable (Dropping s name) :=
  decidable_of_iff ((s.admin.call.any fun x => decide (x.1 = name) && x.2.drops) = true) (by
    simp [Dropping, Option.any_eq_true])

instance (s : State Name Name Conn Body Out) (name : Name) : Decidable (PathFree id s name) :=
  isTrue fun _ other same => absurd same other

instance (s : State Name Name Conn Body Out) (name : Name) : Decidable (LookupSeparate id s name) := by
  dsimp only [LookupSeparate]
  infer_instance

instance (s : State Name Name Conn Body Out) (name : Name) (refused : Bool) (stage : Ensure) :
    Decidable (EnsureSeparate id s name refused stage) := by
  cases stage <;> dsimp only [EnsureSeparate] <;> infer_instance

instance (s : State Name Name Conn Body Out) (ev : Event Name Conn Body Out) :
    Decidable (Separate id s ev) := by
  induction ev using Event.casesOn <;> dsimp only [Separate] <;> try infer_instance
  · split <;> infer_instance
  · split <;> infer_instance

def ensures (c : Bool) (k : ℕ) : List (Event ℕ Bool ℕ ℕ) := List.replicate k (.ensure c false)

def drops (k : ℕ) : List (Event ℕ Bool ℕ ℕ) := List.replicate k (.admin false)

def oneAfterAnother : List (Event ℕ Bool ℕ ℕ) :=
  .handshake false 7 :: ensures false 6 ++ .adminUnregister 7 :: drops 5 ++
    .handshake true 7 :: ensures true 6

def bothMiss : List (Event ℕ Bool ℕ ℕ) :=
  .handshake false 7 :: .handshake true 7 :: .ensure false false :: .ensure true false ::
    ensures false 5 ++ ensures true 5

def foundInDrop : List (Event ℕ Bool ℕ ℕ) :=
  .handshake false 7 :: ensures false 6 ++
    .adminUnregister 7 :: .admin false :: .handshake true 7 :: .ensure true false :: drops 4

def logRefused : List (Event ℕ Bool ℕ ℕ) :=
  .handshake false 7 :: ensures false 2 ++ [.ensure false true]

def twoNames : List (Event ℕ Bool ℕ ℕ) :=
  .handshake false 7 :: ensures false 6 ++ .handshake true 8 :: ensures true 6

def Phase.isEnsuring : Phase Name Conn Body → Bool
  | .ensuring _ _ => true
  | _ => false

omit [DecidableEq Name] [Fintype Conn] in
theorem noCall_of_phases {t : State Name Path Conn Body Out}
    (outside : ∀ c, (t.conns c).phase.isEnsuring = false) (idle : t.admin = .idle) : NoCall t := by
  refine ⟨?_, .inl idle⟩
  intro c n stage ensuring
  have here := outside c
  rw [ensuring] at here
  cases here

theorem ensured_again :
    ∃ (t : State ℕ ℕ Bool ℕ ℕ) (r : Record ℕ),
      Run (Runs.Watched (observeTenants id) (Guarded (Separate id) (ProxyStep {} id)))
        (State.init, {}) oneAfterAnother (t, r) ∧
      NoCall t ∧ t.ctrlSocks 7 = some 1 ∧ r.ensured 7 = true ∧ Consistent id t r := by
  obtain ⟨⟨t, r⟩, run, reached⟩ := watched_guarded_run_reaches (Separate id)
    (fun x : State ℕ ℕ Bool ℕ ℕ × Record ℕ =>
      decide ((∀ c, (x.1.conns c).phase.isEnsuring = false) ∧ x.1.admin = .idle ∧
        x.1.ctrlSocks 7 = some 1 ∧ x.2.ensured 7 = true))
    (show (exec (watching (observeTenants id) (guarding (Separate id) (next {} id)))
      (State.init, {}) oneAfterAnother).any _ = true by decide +kernel)
  obtain ⟨outside, idle, bound, returned⟩ := of_decide_eq_true reached
  have quiet := noCall_of_phases outside idle
  exact ⟨t, r, run, quiet, bound, returned, registry_consistent run quiet⟩

theorem quiet_run [DecidableEq Path] (sockPath : ℕ → Path) (labels : List (Event ℕ Bool ℕ ℕ))
    (check : State ℕ Path Bool ℕ ℕ × Record ℕ → Bool)
    (h : (exec (watching (observeTenants sockPath) (next {} sockPath)) (State.init, {}) labels).any
      (fun x => decide ((∀ c, (x.1.conns c).phase.isEnsuring = false) ∧ x.1.admin = .idle) &&
        check x) = true) :
    ∃ t r, Run (Runs.Watched (observeTenants sockPath) (ProxyStep {} sockPath)) (State.init, {})
        labels (t, r) ∧ NoCall t ∧ check (t, r) = true := by
  obtain ⟨⟨t, r⟩, run, reached⟩ := watched_run_reaches _ h
  obtain ⟨standing, checked⟩ := Bool.and_eq_true_iff.mp reached
  obtain ⟨outside, idle⟩ := of_decide_eq_true standing
  exact ⟨t, r, run, noCall_of_phases outside idle, checked⟩

/-- Behind two misses the control socket of the first call stays open at no path; behind a
    hit in a drop the call has returned and the core does not know the tenant; a tenant whose
    log cannot be opened is known to the core only; and of two tenants with one path the second
    takes the path from the first. -/
theorem calls_get_mixed :
    (∃ (t : State ℕ ℕ Bool ℕ ℕ) (r : Record ℕ),
      Run (Runs.Watched (observeTenants id) (ProxyStep {} id)) (State.init, {})
        bothMiss (t, r) ∧
      NoCall t ∧ ¬ Consistent id t r) ∧
    (∃ (t : State ℕ ℕ Bool ℕ ℕ) (r : Record ℕ),
      Run (Runs.Watched (observeTenants id) (ProxyStep {} id)) (State.init, {})
        foundInDrop (t, r) ∧
      NoCall t ∧ ¬ Consistent id t r) ∧
    (∃ (t : State ℕ ℕ Bool ℕ ℕ) (r : Record ℕ),
      Run (Runs.Watched (observeTenants id) (ProxyStep {} id)) (State.init, {})
        logRefused (t, r) ∧
      NoCall t ∧ ¬ Consistent id t r) ∧
    (∃ (t : State ℕ Unit Bool ℕ ℕ) (r : Record ℕ),
      Run (Runs.Watched (observeTenants fun _ => ()) (ProxyStep {} fun _ => ())) (State.init, {})
        twoNames (t, r) ∧
      NoCall t ∧ ¬ Consistent (fun _ => ()) t r) := by
  refine ⟨?_, ?_, ?_, ?_⟩
  · obtain ⟨t, r, run, quiet, reached⟩ := quiet_run id bothMiss
      (fun x => decide (x.1.ctrlSocks 7 = some 1 ∧ x.1.sockOpen 0 = true ∧
        x.2.owner 0 = some 7 ∧ (x.1.core.tenants.get? 7).isSome = true)) (by decide +kernel)
    obtain ⟨second, is_open, owner, known⟩ := of_decide_eq_true reached
    refine ⟨t, r, run, quiet, ?_⟩
    intro consistent
    obtain ⟨sock, bound, -, only⟩ := consistent.socket 7 known
    have here : 0 = sock := (only 0).mp ⟨is_open, owner⟩
    rw [second, ← here] at bound
    cases bound
  · obtain ⟨t, r, run, quiet, reached⟩ := quiet_run id foundInDrop
      (fun x => decide (x.2.ensured 7 = true ∧ (x.1.core.tenants.get? 7).isSome = false))
      (by decide +kernel)
    obtain ⟨returned, unknown⟩ := of_decide_eq_true reached
    refine ⟨t, r, run, quiet, ?_⟩
    intro consistent
    have known := consistent.ensured 7 returned
    rw [unknown] at known
    cases known
  · obtain ⟨t, r, run, quiet, reached⟩ := quiet_run id logRefused
      (fun x => decide (x.1.logs 7 = false ∧ (x.1.core.tenants.get? 7).isSome = true))
      (by decide +kernel)
    obtain ⟨unlogged, known⟩ := of_decide_eq_true reached
    refine ⟨t, r, run, quiet, ?_⟩
    intro consistent
    have logged := consistent.logs 7
    rw [unlogged, known] at logged
    cases logged
  · obtain ⟨t, r, run, quiet, reached⟩ := quiet_run (fun _ => ()) twoNames
      (fun x => decide (x.1.ctrlSocks 7 = some 0 ∧ x.1.path () = some 1 ∧
        (x.1.core.tenants.get? 7).isSome = true)) (by decide +kernel)
    obtain ⟨first, taken, known⟩ := of_decide_eq_true reached
    refine ⟨t, r, run, quiet, ?_⟩
    intro consistent
    obtain ⟨sock, bound, path, -⟩ := consistent.socket 7 known
    rw [first] at bound
    rw [taken, ← bound] at path
    cases path

end Races

end Proxy
