import KrakenRuntime.NpuProxy.Proxy

/- Where a request is between the frame that carried it and the reply frame: in the hand of
   its reader, in a queue of the core, on the list that unregister returned to the admin
   thread, or with the scheduler. Replies match requests one for one and in order in every
   run in which no run raises, no frame is submitted to a removed tenant or past requests
   that the admin thread has still to answer, and no tenant is removed while the scheduler
   is busy with a request of a connection that has more of them queued there. Each of
   these conditions is violated by some run, with the loss or the exchange it leads to. -/
namespace Proxy
open GateCore Runs
variable {Name Path Conn Body Out : Type}

section Places

def Phase.isClosed : Phase Name Conn Body → Bool
  | .closed => true
  | _ => false

def Phase.name : Phase Name Conn Body → Option Name
  | .ensuring name _ | .reading name | .submitting name _ | .dead name => some name
  | _ => none

def Phase.hand : Phase Name Conn Body → List (Request Conn Body)
  | .submitting _ req => [req]
  | _ => []

def Admin.held : Admin Name Conn Body → List (Request Conn Body)
  | .replyErr _ unserved => unserved
  | _ => []

def engaged (s : State Name Path Conn Body Out) : List (Request Conn Body) :=
  (s.sending.toList.map fun r => r.1) ++ s.core.flight.toList.map fun f => f.req

variable [DecidableEq Conn]

def ofConn (c : Conn) (reqs : List (Request Conn Body)) : List (Request Conn Body) :=
  reqs.filter fun r => r.conn = c

@[simp] theorem ofConn_nil (c : Conn) : ofConn c ([] : List (Request Conn Body)) = [] := rfl

@[simp] theorem ofConn_append (c : Conn) (xs ys : List (Request Conn Body)) :
    ofConn c (xs ++ ys) = ofConn c xs ++ ofConn c ys :=
  List.filter_append ..

theorem ofConn_cons (c : Conn) (r : Request Conn Body) (rest : List (Request Conn Body)) :
    ofConn c (r :: rest) = if r.conn = c then r :: ofConn c rest else ofConn c rest := by
  simp [ofConn, List.filter_cons]

theorem ofConn_eq_nil {c : Conn} {reqs : List (Request Conn Body)} :
    ofConn c reqs = [] ↔ ∀ r ∈ reqs, r.conn ≠ c := by
  simp [ofConn]

end Places

/-- What concerns one connection: its own state, and its part of what the admin thread,
    the scheduler and the queues hold. -/
structure Account (Name Conn Body Out : Type) where
  conn : ConnState Name Conn Body Out
  held : List (Request Conn Body)
  engaged : List (Request Conn Body)
  queue : Name → List (Request Conn Body)

namespace Account

def queued (a : Account Name Conn Body Out) : List (Request Conn Body) :=
  match a.conn.phase.name with
  | none => []
  | some name => a.queue name

/-- The requests that have no reply yet, oldest first. -/
def outstanding (a : Account Name Conn Body Out) : List (Request Conn Body) :=
  a.engaged ++ a.held ++ a.queued ++ a.conn.phase.hand

end Account

/-- Replies and outstanding requests make up the requests, in this order. -/
structure Tidy (a : Account Name Conn Body Out) : Prop where
  matched : a.conn.requests = a.conn.replies.map Reply.req ++ a.outstanding
  own : ∀ name, a.queue name ≠ [] → a.conn.phase.name = some name
  apart : a.held ≠ [] → a.engaged = [] ∧ a.queued = []

section Moves
variable {a : Account Name Conn Body Out}

theorem tidy_queued (tidy : Tidy a) {name : Name} (here : a.queue name ≠ []) :
    a.queued = a.queue name := by
  simp only [Account.queued, tidy.own name here]

theorem tidy_phase (tidy : Tidy a) {phase : Phase Name Conn Body}
    (empty : a.conn.phase.hand = []) (empty' : phase.hand = [])
    (names : phase.name = a.conn.phase.name ∨ a.conn.phase.name = none) :
    Tidy { a with conn := { a.conn with phase := phase } } := by
  have unqueued : a.conn.phase.name = none → ∀ name, a.queue name = [] := by
    intro unnamed name
    by_contra some_queued
    rw [tidy.own name some_queued] at unnamed
    cases unnamed
  have queued : Account.queued { a with conn := { a.conn with phase := phase } } = a.queued := by
    simp only [Account.queued]
    rcases names with same | unnamed
    · rw [same]
    · rw [unnamed]
      split
      · rfl
      · exact unqueued unnamed _
  constructor
  case matched =>
    have before := tidy.matched
    simp only [Account.outstanding, empty] at before
    simp only [Account.outstanding, queued, empty']
    exact before
  case own =>
    intro name here
    rcases names with same | unnamed
    · exact same.trans (tidy.own name here)
    · exact absurd (unqueued unnamed name) here
  case apart =>
    intro some_held
    rw [queued]
    exact tidy.apart some_held

theorem tidy_read (tidy : Tidy a) {name : Name} (reading : a.conn.phase = .reading name)
    (req : Request Conn Body) :
    Tidy { a with conn :=
      { a.conn with phase := .submitting name req, requests := a.conn.requests ++ [req] } } := by
  have before := tidy.matched
  have own := tidy.own
  have apart := tidy.apart
  simp only [Account.outstanding, Account.queued, reading, Phase.name, Phase.hand,
    List.append_nil] at before own apart
  constructor
  case matched =>
    simp only [Account.outstanding, Account.queued, Phase.name, Phase.hand, before,
      List.append_assoc]
  case own => exact own
  case apart => exact apart

theorem tidy_submit [DecidableEq Name] (tidy : Tidy a) {name : Name} {req : Request Conn Body}
    (submitting : a.conn.phase = .submitting name req) (unheld : a.held = []) :
    Tidy { a with
      conn := { a.conn with phase := .reading name }
      queue := fun n => if n = name then a.queue n ++ [req] else a.queue n } := by
  have before := tidy.matched
  have own := tidy.own
  simp only [Account.outstanding, Account.queued, submitting, Phase.name, Phase.hand] at before own
  constructor
  case matched =>
    simp only [Account.outstanding, Account.queued, Phase.name, Phase.hand, before, if_true,
      List.append_assoc, List.append_nil]
  case own =>
    intro n here
    by_cases same : n = name
    · rw [same]
      rfl
    · simp only [if_neg same] at here
      exact own n here
  case apart =>
    intro some_held
    exact absurd unheld some_held

theorem tidy_unregister [DecidableEq Name] (tidy : Tidy a) (name : Name) (unheld : a.held = [])
    (free : a.queue name ≠ [] → a.engaged = []) :
    Tidy { a with
      held := a.queue name
      queue := fun n => if n = name then [] else a.queue n } := by
  have before := tidy.matched
  simp only [Account.outstanding, unheld, List.append_nil] at before
  by_cases here : a.queue name = []
  · have same : (fun n => if n = name then [] else a.queue n) = a.queue := by
      funext n
      by_cases hn : n = name
      · simp [hn, here]
      · simp [hn]
    rw [same, here, ← unheld]
    exact tidy
  · have mine := tidy.own name here
    have queued := tidy_queued tidy here
    constructor
    case matched =>
      rw [queued] at before
      simp only [Account.outstanding, Account.queued, mine, if_true, List.append_nil]
      exact before
    case own =>
      intro n some_queued
      by_cases same : n = name
      · simp [same] at some_queued
      · simp only [if_neg same] at some_queued
        exact tidy.own n some_queued
    case apart =>
      intro _
      simp only [Account.queued, mine, if_true, and_true]
      exact free here

theorem tidy_error (tidy : Tidy a) {req : Request Conn Body} {rest : List (Request Conn Body)}
    (held : a.held = req :: rest) :
    Tidy { a with
      conn := { a.conn with replies := a.conn.replies ++ [.error req] }
      held := rest } := by
  obtain ⟨idle, unqueued⟩ := tidy.apart (by simp [held])
  have before := tidy.matched
  simp only [Account.outstanding, idle, held, unqueued] at before
  constructor
  case matched =>
    simp only [Account.outstanding, idle]
    rw [before]
    simp only [Account.queued] at unqueued
    simp [Account.queued, unqueued, Reply.req]
  case own => exact tidy.own
  case apart => exact fun _ => ⟨idle, unqueued⟩

theorem tidy_select [DecidableEq Name] (tidy : Tidy a) (name : Name) {req : Request Conn Body}
    {rest : List (Request Conn Body)} (idle : a.engaged = []) (queue : a.queue name = req :: rest) :
    Tidy { a with
      engaged := [req]
      queue := fun n => if n = name then rest else a.queue n } := by
  have here : a.queue name ≠ [] := by simp [queue]
  have mine := tidy.own name here
  have queued := tidy_queued tidy here
  have unheld : a.held = [] := by
    by_contra some_held
    have unqueued := (tidy.apart some_held).2
    rw [queued] at unqueued
    exact here unqueued
  have before := tidy.matched
  simp only [Account.outstanding, idle, unheld, queued, queue] at before
  constructor
  case matched =>
    simp only [Account.outstanding, Account.queued, unheld, mine, if_true, before]
    simp
  case own =>
    intro n some_queued
    by_cases same : n = name
    · rw [same]
      exact mine
    · simp only [if_neg same] at some_queued
      exact tidy.own n some_queued
  case apart => exact fun some_held => absurd unheld some_held

theorem tidy_send (tidy : Tidy a) {req : Request Conn Body} (out : Out)
    (busy : a.engaged = [req]) :
    Tidy { a with
      conn := { a.conn with replies := a.conn.replies ++ [.result req out] }
      engaged := [] } := by
  have before := tidy.matched
  simp only [Account.outstanding, busy] at before
  constructor
  case matched =>
    simp only [Account.outstanding]
    rw [before]
    simp only [Account.queued]
    simp [Reply.req]
  case own => exact tidy.own
  case apart => exact fun some_held => ⟨rfl, (tidy.apart some_held).2⟩

end Moves

section Steps
variable [DecidableEq Name] [DecidableEq Conn]

def account (s : State Name Path Conn Body Out) (c : Conn) : Account Name Conn Body Out where
  conn := s.conns c
  held := ofConn c s.admin.held
  engaged := ofConn c (engaged s)
  queue := fun name => ofConn c (queueOf s.core name)

def Orderly (s : State Name Path Conn Body Out) : Event Name Conn Body Out → Prop
  | .raised => False
  | .submit c =>
    match (s.conns c).phase with
    | .submitting name _ =>
      (s.core.tenants.get? name).isSome = true ∧ ∀ r ∈ s.admin.held, r.conn ≠ c
    | _ => True
  | .admin _ =>
    match s.admin with
    | .unregister name => ∀ r ∈ engaged s, ∀ q ∈ queueOf s.core name, q.conn ≠ r.conn
    | _ => True
  | _ => True

instance (s : State Name Path Conn Body Out) (ev : Event Name Conn Body Out) :
    Decidable (Orderly s ev) := by
  induction ev using Event.casesOn with
  | submit c =>
    dsimp only [Orderly]
    generalize (s.conns c).phase = phase
    induction phase using Phase.casesOn <;> dsimp only <;> infer_instance
  | admin refused =>
    dsimp only [Orderly]
    generalize s.admin = admin
    induction admin using Admin.casesOn <;> dsimp only <;> infer_instance
  | _ =>
    dsimp only [Orderly]
    infer_instance

structure InOrder (s : State Name Path Conn Body Out) : Prop where
  tidy : ∀ c, (s.conns c).phase.isClosed = false → Tidy (account s c)
  hand : ∀ c, ∀ r ∈ (s.conns c).phase.hand, r.conn = c
  one_run : s.sending = none ∨ s.core.flight = none

theorem init_inOrder : InOrder (State.init : State Name Path Conn Body Out) := by
  constructor
  case tidy =>
    intro c _
    constructor <;> simp [account, State.init, Account.outstanding, Account.queued, Admin.held,
      engaged, queueOf, Core.init, Phase.name, Phase.hand]
  case hand => simp [State.init, Phase.hand]
  case one_run => exact .inl rfl

variable {s t : State Name Path Conn Body Out} {sockPath : Name → Path}

theorem inOrder_frame (inOrder : InOrder s) (conns : t.conns = s.conns)
    (held : t.admin.held = s.admin.held) (sending : t.sending = s.sending)
    (flight : t.core.flight = s.core.flight)
    (queue : ∀ name, queueOf t.core name = queueOf s.core name) : InOrder t := by
  have same : ∀ c, account t c = account s c := by
    intro c
    simp only [account, conns, held, engaged, sending, flight, queue]
  constructor
  case tidy =>
    intro c live
    rw [conns] at live
    rw [same c]
    exact inOrder.tidy c live
  case hand =>
    rw [conns]
    exact inOrder.hand
  case one_run =>
    rw [sending, flight]
    exact inOrder.one_run

theorem inOrder_at (inOrder : InOrder s) (c : Conn)
    (others : ∀ d, d ≠ c → account t d = account s d)
    (self : (t.conns c).phase.isClosed = false → Tidy (account t c))
    (hand : ∀ r ∈ (t.conns c).phase.hand, r.conn = c)
    (one_run : t.sending = none ∨ t.core.flight = none) : InOrder t := by
  have conns : ∀ d, d ≠ c → t.conns d = s.conns d := by
    intro d ne
    exact congrArg Account.conn (others d ne)
  constructor
  case tidy =>
    intro d live
    by_cases same : d = c
    · subst same
      exact self live
    · rw [conns d same] at live
      rw [others d same]
      exact inOrder.tidy d live
  case hand =>
    intro d r member
    by_cases same : d = c
    · subst same
      exact hand r member
    · rw [conns d same] at member
      exact inOrder.hand d r member
  case one_run => exact one_run

theorem setConn_account (c : Conn)
    (f : ConnState Name Conn Body Out → ConnState Name Conn Body Out) (d : Conn) :
    account (setConn s c f) d =
      { account s d with conn := if d = c then f (s.conns d) else s.conns d } := by
  simp only [account, setConn, Function.update_apply]
  by_cases same : d = c
  · simp only [same, if_true]
    rfl
  · simp only [same, if_false]
    rfl

theorem setConn_inOrder (inOrder : InOrder s) (c : Conn)
    (f : ConnState Name Conn Body Out → ConnState Name Conn Body Out)
    (hand : ∀ r ∈ (f (s.conns c)).phase.hand, r.conn = c)
    (tidy : (f (s.conns c)).phase.isClosed = false →
      Tidy { account s c with conn := f (s.conns c) }) : InOrder (setConn s c f) := by
  have self : (setConn s c f).conns c = f (s.conns c) := by simp [setConn]
  apply inOrder_at inOrder c
  · intro d ne
    rw [setConn_account, if_neg ne]
    rfl
  · intro live
    rw [self] at live
    rw [setConn_account, if_pos rfl]
    exact tidy live
  · rw [self]
    exact hand
  · exact inOrder.one_run

theorem setPhase_inOrder (inOrder : InOrder s) (c : Conn) (phase : Phase Name Conn Body)
    (live : (s.conns c).phase.isClosed = false) (empty : (s.conns c).phase.hand = [])
    (empty' : phase.hand = [])
    (names : phase.isClosed = true ∨ phase.name = (s.conns c).phase.name ∨
      (s.conns c).phase.name = none) : InOrder (setPhase s c phase) := by
  apply setConn_inOrder inOrder c
  · simp [empty']
  · intro stays
    apply tidy_phase (inOrder.tidy c live) empty empty'
    rcases names with closing | names
    · simp [stays] at closing
    · exact names

omit [DecidableEq Conn] in
theorem ensureTenant_keeps [DecidableEq Path] (sockPath : Name → Path)
    (s : State Name Path Conn Body Out) (name : Name) (refused : Bool) (stage : Ensure) :
    (ensureTenant sockPath s name refused stage).1.conns = s.conns ∧
    (ensureTenant sockPath s name refused stage).1.admin = s.admin ∧
    (ensureTenant sockPath s name refused stage).1.sending = s.sending ∧
    (ensureTenant sockPath s name refused stage).1.core.flight = s.core.flight ∧
    ∀ n, queueOf (ensureTenant sockPath s name refused stage).1.core n = queueOf s.core n := by
  cases stage with
  | register => exact ⟨rfl, rfl, rfl, rfl, queueOf_register s.core name⟩
  | openLog | unlink => cases refused <;> exact ⟨rfl, rfl, rfl, rfl, fun _ => rfl⟩
  | bind =>
    cases refused
    · simp only [ensureTenant, Bool.false_eq_true, if_false]
      split <;> exact ⟨rfl, rfl, rfl, rfl, fun _ => rfl⟩
    · exact ⟨rfl, rfl, rfl, rfl, fun _ => rfl⟩
  | _ => exact ⟨rfl, rfl, rfl, rfl, fun _ => rfl⟩

theorem connEnsure_inOrder [DecidableEq Path] (inOrder : InOrder s) {c : Conn} {name : Name} {refused : Bool}
    {stage : Ensure} (here : (s.conns c).phase = .ensuring name stage) :
    InOrder (connEnsure sockPath s c name refused stage) := by
  obtain ⟨conns, admin, sending, flight, queue⟩ := 
      ensureTenant_keeps sockPath s name refused stage
  have kept : InOrder (ensureTenant sockPath s name refused stage).1 :=
    inOrder_frame inOrder conns (by rw [admin]) sending flight queue
  have moves : ∀ phase : Phase Name Conn Body, phase.hand = [] → phase.name = some name →
      InOrder (setPhase (ensureTenant sockPath s name refused stage).1 c phase) := by
    intro phase empty named
    apply setPhase_inOrder kept c phase
    · rw [conns, here]
      rfl
    · rw [conns, here]
      rfl
    · exact empty
    · rw [conns, here]
      exact .inr (.inl named)
  unfold connEnsure
  split
  · rename_i found
    rw [found] at moves
    exact moves (.reading name) rfl rfl
  · rename_i found
    rw [found] at moves
    exact moves (.dead name) rfl rfl
  · rename_i stage' found
    rw [found] at moves
    exact moves (.ensuring name stage') rfl rfl

theorem submit_inOrder (inOrder : InOrder s) {c : Conn} {name : Name} {req : Request Conn Body}
    {core : Core Name (Request Conn Body)} (here : (s.conns c).phase = .submitting name req)
    (unheld : ∀ r ∈ s.admin.held, r.conn ≠ c) (done : GateCore.submit s.core name req = some core) :
    InOrder (setPhase { s with core := core } c (.reading name)) := by
  have mine : req.conn = c := inOrder.hand c req (by simp [here, Phase.hand])
  have live : (s.conns c).phase.isClosed = false := by simp [here, Phase.isClosed]
  have flight := submit_flight done
  have queue := fun n => queueOf_submit n done
  apply inOrder_at inOrder c
  · intro d ne
    have other : req.conn ≠ d := by
      rw [mine]
      exact ne.symm
    rw [setPhase, setConn_account, if_neg ne]
    simp only [account, engaged, flight, queue, apply_ite (ofConn d), ofConn_append, ofConn_cons,
      if_neg other, ofConn_nil, List.append_nil, ite_self]
  · intro _
    have after := tidy_submit (inOrder.tidy c live) here (ofConn_eq_nil.mpr unheld)
    rw [setPhase, setConn_account, if_pos rfl]
    simp only [account, engaged, flight, queue, apply_ite (ofConn c), ofConn_append, ofConn_cons,
      if_pos mine, ofConn_nil] at after ⊢
    exact after
  · simp [setPhase, setConn, Phase.hand]
  · have one_run := inOrder.one_run
    rw [← flight] at one_run
    exact one_run

theorem unregister_inOrder (inOrder : InOrder s) {name : Name} (here : s.admin = .unregister name)
    (free : ∀ r ∈ engaged s, ∀ q ∈ queueOf s.core name, q.conn ≠ r.conn) :
    InOrder { s with
      core := (GateCore.unregister s.core name).1
      admin := .replyErr name (GateCore.unregister s.core name).2 } := by
  constructor
  case tidy =>
    intro c live
    have after := tidy_unregister (inOrder.tidy c live) name
      (by simp [account, here, Admin.held]) (by
        intro some_queued
        simp only [account, ne_eq, ofConn_eq_nil, not_forall, not_not] at some_queued ⊢
        obtain ⟨q, member, same⟩ := some_queued
        intro r busy mine
        exact free r busy q member (same.trans mine.symm))
    simp only [account, queueOf_unregister, apply_ite (ofConn c), ofConn_nil, Admin.held] at after ⊢
    exact after
  case hand => exact inOrder.hand
  case one_run => exact inOrder.one_run

omit [DecidableEq Name] in
theorem sendall_conns (reply : Reply Conn Body Out) (d : Conn) :
    (sendall s reply).conns d =
      if d = reply.req.conn ∧ (s.conns d).phase.isClosed = false then
        { s.conns d with replies := (s.conns d).replies ++ [reply] }
      else s.conns d := by
  by_cases same : d = reply.req.conn
  · subst same
    cases phase : (s.conns reply.req.conn).phase <;>
      simp [sendall, setConn, phase, Phase.isClosed]
  · simp [sendall, setConn, same]

omit [DecidableEq Name] in
theorem sendall_phase (reply : Reply Conn Body Out) (d : Conn) :
    ((sendall s reply).conns d).phase = (s.conns d).phase := by
  rw [sendall_conns]
  split <;> rfl

theorem replyErr_inOrder (inOrder : InOrder s) {name : Name} {req : Request Conn Body}
    {rest : List (Request Conn Body)} (here : s.admin = .replyErr name (req :: rest)) :
    InOrder { sendall s (.error req) with admin := .replyErr name rest } := by
  have held : s.admin.held = req :: rest := by rw [here]; rfl
  apply inOrder_at inOrder req.conn
  · intro d ne
    have conn := sendall_conns (s := s) (.error req) d
    rw [if_neg (by simp [Reply.req, ne])] at conn
    simp only [account, conn, held, ofConn_cons, if_neg ne.symm]
    rfl
  · intro live
    rw [sendall_phase] at live
    have conn := sendall_conns (s := s) (.error req) req.conn
    rw [if_pos ⟨rfl, live⟩] at conn
    have after := tidy_error (inOrder.tidy req.conn live)
      (show ofConn req.conn s.admin.held = req :: ofConn req.conn rest by
        rw [held, ofConn_cons, if_pos rfl])
    simp only [account, conn]
    exact after
  · rw [sendall_phase]
    exact inOrder.hand req.conn
  · exact inOrder.one_run

theorem send_inOrder (inOrder : InOrder s) {req : Request Conn Body} {out : Out}
    (here : s.sending = some (req, out)) :
    InOrder { sendall s (.result req out) with sending := none } := by
  have idle : s.core.flight = none := by
    rcases inOrder.one_run with quiet | idle
    · rw [here] at quiet
      cases quiet
    · exact idle
  have busy : engaged s = [req] := by simp [engaged, here, idle]
  have after_idle : engaged { sendall s (.result req out) with sending := none } = [] := by
    simp only [engaged, sendall, setConn, idle]
    rfl
  apply inOrder_at inOrder req.conn
  · intro d ne
    have conn := sendall_conns (s := s) (.result req out) d
    rw [if_neg (by simp [Reply.req, ne])] at conn
    simp only [account, conn, busy, after_idle, ofConn_cons, if_neg ne.symm]
    rfl
  · intro live
    rw [sendall_phase] at live
    have conn := sendall_conns (s := s) (.result req out) req.conn
    rw [if_pos ⟨rfl, live⟩] at conn
    have after := tidy_send (inOrder.tidy req.conn live) out
      (show ofConn req.conn (engaged s) = [req] by rw [busy, ofConn_cons, if_pos rfl]; rfl)
    simp only [account, conn, after_idle]
    exact after
  · rw [sendall_phase]
    exact inOrder.hand req.conn
  · exact .inl rfl

theorem select_inOrder (cfg : Config) (inOrder : InOrder s) (idle : s.core.flight = none)
    (quiet : s.sending = none) : InOrder (select cfg s) := by
  unfold select
  split
  · exact inOrder
  · rename_i e extra chosen
    split
    · exact inOrder
    · rename_i core f popped
      have present := (mem_ready.mp (eligible_ready chosen)).1
      obtain ⟨head, others⟩ := queueOf_popFrom present popped
      obtain ⟨_, _, _, _, _, core_eq⟩ := popFrom_spec popped
      have flight : core.flight = some f := by rw [core_eq]
      have free : engaged s = [] := by simp [engaged, idle, quiet]
      have busy : engaged { s with core := core } = [f.req] := by
        simp [engaged, flight, quiet]
      apply inOrder_at inOrder f.req.conn
      · intro d ne
        have queue : (fun n => ofConn d (queueOf core n)) = fun n => ofConn d (queueOf s.core n) := by
          funext n
          by_cases same : n = e.1
          · rw [same, head, ofConn_cons, if_neg ne.symm]
          · rw [others n same]
        simp only [account, busy, free, queue, ofConn_cons, if_neg ne.symm, ofConn_nil]
      · intro live
        have after := tidy_select (inOrder.tidy f.req.conn live) e.1
          (show ofConn f.req.conn (engaged s) = [] by rw [free]; rfl)
          (show ofConn f.req.conn (queueOf s.core e.1) = f.req :: ofConn f.req.conn (queueOf core e.1) by
            rw [head, ofConn_cons, if_pos rfl])
        have queue : (fun n => ofConn f.req.conn (queueOf core n)) =
            fun n => if n = e.1 then ofConn f.req.conn (queueOf core e.1)
              else ofConn f.req.conn (queueOf s.core n) := by
          funext n
          by_cases same : n = e.1
          · simp [same]
          · simp [same, others n same]
        simp only [account, busy, queue, ofConn_cons, if_true, ofConn_nil]
        exact after
      · exact inOrder.hand f.req.conn
      · exact .inl quiet

theorem ran_inOrder (cfg : Config) (inOrder : InOrder s) {f : Flight Name (Request Conn Body)}
    (here : s.core.flight = some f) (out : Out) (dtUs now : ℚ) :
    InOrder { s with core := finish cfg s.core f dtUs now, sending := some (f.req, out) } := by
  have quiet : s.sending = none := by
    rcases inOrder.one_run with quiet | idle
    · exact quiet
    · rw [here] at idle
      cases idle
  have same : ∀ c, account
      { s with core := finish cfg s.core f dtUs now, sending := some (f.req, out) } c =
      account s c := by
    intro c
    simp only [account, queueOf_finish, engaged, here, quiet]
    simp [finish]
  constructor
  case tidy =>
    intro c live
    rw [same c]
    exact inOrder.tidy c live
  case hand => exact inOrder.hand
  case one_run => exact .inr rfl

theorem adminStep_inOrder [DecidableEq Path] (inOrder : InOrder s) {refused : Bool}
    (orderly : Orderly s (.admin refused)) (step : adminStep sockPath s refused = some t) : InOrder t := by
  cases here : s.admin with
  | idle => simp [adminStep, here] at step
  | dead => simp [adminStep, here] at step
  | ensuring name stage =>
    obtain ⟨conns, admin, sending, flight, queue⟩ := 
      ensureTenant_keeps sockPath s name refused stage
    have unheld : s.admin.held = [] := by rw [here]; rfl
    simp only [adminStep, here] at step
    split at step <;> rename_i found <;> rw [found] at conns sending flight queue <;> cases step <;>
      exact inOrder_frame inOrder conns unheld.symm sending flight queue
  | unregister name =>
    simp only [adminStep, here, Option.some.injEq] at step
    subst step
    simp only [Orderly, here] at orderly
    exact unregister_inOrder inOrder here orderly
  | replyErr name unserved =>
    cases unserved with
    | nil =>
      have unheld : s.admin.held = [] := by rw [here]; rfl
      simp only [adminStep, here] at step
      split at step <;> cases step <;>
        exact inOrder_frame inOrder rfl unheld.symm rfl rfl fun _ => rfl
    | cons req rest =>
      simp only [adminStep, here, Option.some.injEq] at step
      subst step
      exact replyErr_inOrder inOrder here
  | closeCtrl _ _ | unlink _ | popLog _ =>
    have unheld : s.admin.held = [] := by rw [here]; rfl
    simp only [adminStep, here, Option.some.injEq] at step
    subst step
    exact inOrder_frame inOrder rfl unheld.symm rfl rfl fun _ => rfl

theorem step_inOrder [DecidableEq Path] (cfg : Config) {ev : Event Name Conn Body Out} (inOrder : InOrder s)
    (orderly : Orderly s ev) (step : ProxyStep cfg sockPath s ev t) : InOrder t := by
  cases step_move step with
  | @handshake c name here =>
    exact setPhase_inOrder inOrder c _ (by rw [here]; rfl) (by rw [here]; rfl) rfl
      (.inr (.inr (by rw [here]; rfl)))
  | ensure here => exact connEnsure_inOrder inOrder here
  | @read c body name req here numbered =>
    subst numbered
    apply setConn_inOrder inOrder c
    · simp [Phase.hand]
    · intro _
      exact tidy_read (inOrder.tidy c (by rw [here]; rfl)) here _
  | @hangup c name here =>
    exact setPhase_inOrder inOrder c _ (by rw [here]; rfl) (by rw [here]; rfl) rfl (.inl rfl)
  | @refused c name req here missing =>
    have absent : s.core.tenants.get? name = none := by
      unfold GateCore.submit at missing
      split at missing
      · assumption
      · cases missing
    simp [Orderly, here, absent] at orderly
  | submitted here done =>
    simp only [Orderly, here] at orderly
    exact submit_inOrder inOrder here orderly.2 done
  | adminRegister idle =>
    exact inOrder_frame inOrder rfl (by rw [idle]; rfl) rfl rfl fun _ => rfl
  | adminUnregister idle =>
    exact inOrder_frame inOrder rfl (by rw [idle]; rfl) rfl rfl fun _ => rfl
  | admin step => exact adminStep_inOrder inOrder orderly step
  | @cmd name k =>
    exact inOrder_frame inOrder rfl rfl rfl (cmd_flight s.core name cfg k)
      fun n => queueOf_cmd s.core name n cfg k
  | select idle quiet => exact select_inOrder cfg inOrder idle quiet
  | @ran out dtUs now f busy => exact ran_inOrder cfg inOrder busy out dtUs now
  | raised busy => exact orderly.elim
  | send sending => exact send_inOrder inOrder sending

def Numbered (s : State Name Path Conn Body Out) : Prop :=
  ∀ c, (s.conns c).requests.map Request.frame = List.range (s.conns c).requests.length

omit [DecidableEq Name] in
theorem setConn_numbered (numbered : Numbered s) (c : Conn)
    (f : ConnState Name Conn Body Out → ConnState Name Conn Body Out)
    (keeps : (f (s.conns c)).requests = (s.conns c).requests) : Numbered (setConn s c f) := by
  intro d
  by_cases same : d = c
  · subst same
    simp only [setConn, Function.update_self, keeps]
    exact numbered d
  · simp only [setConn, Function.update_of_ne same]
    exact numbered d

omit [DecidableEq Name] in
theorem sendall_numbered (numbered : Numbered s) (reply : Reply Conn Body Out) :
    Numbered (sendall s reply) := by
  apply setConn_numbered numbered
  split <;> rfl

omit [DecidableEq Conn] in
theorem ensureTenant_numbered [DecidableEq Path] (sockPath : Name → Path) (numbered : Numbered s)
    (name : Name) (refused : Bool) (stage : Ensure) :
    Numbered (ensureTenant sockPath s name refused stage).1 := by
  intro d
  rw [(ensureTenant_keeps sockPath s name refused stage).1]
  exact numbered d

theorem adminStep_numbered [DecidableEq Path] (numbered : Numbered s) {refused : Bool}
    (step : adminStep sockPath s refused = some t) : Numbered t := by
  cases here : s.admin with
  | idle => simp [adminStep, here] at step
  | dead => simp [adminStep, here] at step
  | ensuring name stage =>
    have kept := ensureTenant_numbered sockPath numbered name refused stage
    simp only [adminStep, here] at step
    split at step <;> rename_i found <;> rw [found] at kept <;> cases step <;> exact kept
  | replyErr name unserved =>
    cases unserved with
    | nil =>
      simp only [adminStep, here] at step
      split at step <;> cases step <;> exact numbered
    | cons req rest =>
      simp only [adminStep, here, Option.some.injEq] at step
      subst step
      exact sendall_numbered numbered _
  | unregister _ | closeCtrl _ _ | unlink _ | popLog _ =>
    simp only [adminStep, here, Option.some.injEq] at step
    subst step
    exact numbered

theorem step_numbered [DecidableEq Path] (cfg : Config) {ev : Event Name Conn Body Out}
    (numbered : Numbered s) (step : ProxyStep cfg sockPath s ev t) : Numbered t := by
  cases step_move step with
  | @handshake c name here => exact setConn_numbered numbered c _ rfl
  | @ensure c name refused stage here =>
    have kept := ensureTenant_numbered sockPath numbered name refused stage
    unfold connEnsure
    split <;> rename_i found <;> rw [found] at kept <;> exact setConn_numbered kept c _ rfl
  | @read c body name req here next_ =>
    intro d
    by_cases same : d = c
    · subst same
      simp only [setConn, Function.update_self, List.map_append, List.length_append, numbered d]
      simp [List.range_succ, next_]
    · simp only [setConn, Function.update_of_ne same]
      exact numbered d
  | @hangup c name here => exact setConn_numbered numbered c _ rfl
  | @refused c name req here missing => exact setConn_numbered numbered c _ rfl
  | @submitted c name req core here done =>
    have kept : Numbered { s with core := core } := numbered
    exact setConn_numbered kept c _ rfl
  | adminRegister idle => exact numbered
  | adminUnregister idle => exact numbered
  | admin step => exact adminStep_numbered numbered step
  | cmd => exact numbered
  | select idle quiet =>
    unfold select
    split
    · exact numbered
    · split <;> exact numbered
  | ran busy => exact numbered
  | raised busy => exact numbered
  | send sending => exact sendall_numbered numbered _

/-- The scheduler is idle, all queues are empty, and neither the admin thread nor the
    reader of the connection has a request in its hand. -/
structure Quiescent (s : State Name Path Conn Body Out) (c : Conn) : Prop where
  idle : s.core.flight = none ∧ s.sending = none
  drained : ∀ name, queueOf s.core name = []
  answered : s.admin.held = []
  submitted : (s.conns c).phase.hand = []

omit [DecidableEq Conn] in
theorem drained_of_items {core : Core Name (Request Conn Body)}
    (empty : core.tenants.items.all (fun e => e.2.queue.isEmpty) = true) (name : Name) :
    queueOf core name = [] := by
  unfold queueOf
  split
  · rfl
  · rename_i tenant present
    have member := (core.tenants.mem_items_iff name tenant).mpr present
    simpa using List.all_eq_true.mp empty _ member

theorem quiescent_nothing_outstanding {c : Conn} (quiet : Quiescent s c) :
    (account s c).outstanding = [] := by
  obtain ⟨⟨idle, sent⟩, drained, answered, submitted⟩ := quiet
  simp only [Account.outstanding, Account.queued, account, engaged, idle, sent, drained, answered,
    submitted]
  split <;> simp

end Steps

/-- What a client relies on when it matches replies by position. -/
structure Answered (s : State Name Path Conn Body Out) [DecidableEq Name] (c : Conn) : Prop where
  numbered : (s.conns c).requests.map Request.frame = List.range (s.conns c).requests.length
  in_order : (s.conns c).replies.map Reply.req <+: (s.conns c).requests
  one_each : Quiescent s c → (s.conns c).replies.map Reply.req = (s.conns c).requests

/-- In every orderly run, on every connection that stays open, the replies answer the
    requests one for one and in order, with nothing left over once the proxy is quiet. -/
theorem replies_match_requests [DecidableEq Name] [DecidableEq Path] [DecidableEq Conn]
    {cfg : Config} {sockPath : Name → Path} {labels : List (Event Name Conn Body Out)}
    {t : State Name Path Conn Body Out}
    (run : Run (Guarded Orderly (ProxyStep cfg sockPath)) State.init labels t) (c : Conn)
    (live : (t.conns c).phase.isClosed = false) : Answered t c := by
  have kept : InOrder t ∧ Numbered t := by
    apply run_invariant (fun x => InOrder x ∧ Numbered x) _ run
    · exact ⟨init_inOrder, fun _ => rfl⟩
    · rintro x ev y ⟨inOrder, numbered⟩ ⟨orderly, step⟩
      exact ⟨step_inOrder cfg inOrder orderly step, step_numbered cfg numbered step⟩
  have matched := (kept.1.tidy c live).matched
  constructor
  case numbered => exact kept.2 c
  case in_order => exact ⟨(account t c).outstanding, matched.symm⟩
  case one_each =>
    intro quiet
    rw [quiescent_nothing_outstanding quiet, List.append_nil] at matched
    exact matched.symm

section Runs

def opening (c name : ℕ) : List (Event ℕ ℕ ℕ ℕ) :=
  .handshake c name :: List.replicate 6 (.ensure c false)

def frame (c body : ℕ) : List (Event ℕ ℕ ℕ ℕ) := [.read c body, .submit c]

def quiet (t : State ℕ ℕ ℕ ℕ ℕ) (c : ℕ) : Bool :=
  t.core.flight.isNone && t.sending.isNone && t.admin.held.isEmpty &&
    (t.conns c).phase.hand.isEmpty && t.core.tenants.items.all fun e => e.2.queue.isEmpty

theorem quiescent_of_quiet {t : State ℕ ℕ ℕ ℕ ℕ} {c : ℕ} (h : quiet t c = true) : Quiescent t c := by
  simp only [quiet, Bool.and_eq_true, Option.isNone_iff_eq_none, List.isEmpty_iff] at h
  obtain ⟨⟨⟨⟨idle, sent⟩, answered⟩, submitted⟩, empty⟩ := h
  exact ⟨⟨idle, sent⟩, drained_of_items empty, answered, submitted⟩

theorem served_then_unregistered : ∃ t : State ℕ ℕ ℕ ℕ ℕ,
    Run (Guarded Orderly (ProxyStep {} id)) State.init
      (opening 0 7 ++ frame 0 5 ++ [.select, .ran 6 10 20, .send] ++ frame 0 8 ++
        [.adminUnregister 7, .admin false, .admin false]) t ∧
    (t.conns 0).replies = [.result ⟨0, 0, 5⟩ 6, .error ⟨0, 1, 8⟩] ∧ Quiescent t 0 ∧
    Answered t 0 := by
  obtain ⟨t, run, reached⟩ := guarded_run_reaches Orderly
    (fun t : State ℕ ℕ ℕ ℕ ℕ => decide ((t.conns 0).phase.isClosed = false ∧
      (t.conns 0).replies = [.result ⟨0, 0, 5⟩ 6, .error ⟨0, 1, 8⟩] ∧ quiet t 0 = true))
    (show (exec (guarding Orderly (next {} id)) State.init
      (opening 0 7 ++ frame 0 5 ++ [.select, .ran 6 10 20, .send] ++ frame 0 8 ++
        [.adminUnregister 7, .admin false, .admin false])).any _ = true by decide +kernel)
  obtain ⟨live, replies, calm⟩ := of_decide_eq_true reached
  exact ⟨t, run, replies, quiescent_of_quiet calm, replies_match_requests run 0 live⟩

/-- A concrete run after which the proxy is quiet and the replies are not those that the
    requests call for. -/
theorem unanswered_run (labels : List (Event ℕ ℕ ℕ ℕ))
    (h : (exec (next {} id) State.init labels).any (fun t : State ℕ ℕ ℕ ℕ ℕ =>
      decide ((t.conns 0).phase.isClosed = false ∧ quiet t 0 = true ∧
        (t.conns 0).replies.map Reply.req ≠ (t.conns 0).requests)) = true) :
    ∃ t : State ℕ ℕ ℕ ℕ ℕ, Run (ProxyStep {} id) State.init labels t ∧
      (t.conns 0).phase.isClosed = false ∧ Quiescent t 0 ∧ ¬ Answered t 0 := by
  obtain ⟨t, run, reached⟩ := run_reaches _ h
  obtain ⟨live, calm, differ⟩ := of_decide_eq_true reached
  have quiescent := quiescent_of_quiet calm
  exact ⟨t, run, live, quiescent, fun answered => differ (answered.one_each quiescent)⟩

/-- A run that raises leaves its request without a reply; a frame submitted to a tenant
    that was removed meanwhile kills its reader; and unregister answers the second of two
    requests while the first still runs. -/
theorem replies_go_wrong :
    (∃ t : State ℕ ℕ ℕ ℕ ℕ,
      Run (ProxyStep {} id) State.init (opening 0 7 ++ frame 0 5 ++ [.select, .raised]) t ∧
      (t.conns 0).phase.isClosed = false ∧ Quiescent t 0 ∧ ¬ Answered t 0) ∧
    (∃ t : State ℕ ℕ ℕ ℕ ℕ,
      Run (ProxyStep {} id) State.init
        (opening 0 7 ++ [.read 0 5, .adminUnregister 7, .admin false, .submit 0]) t ∧
      (t.conns 0).phase.isClosed = false ∧ Quiescent t 0 ∧ ¬ Answered t 0) ∧
    (∃ t : State ℕ ℕ ℕ ℕ ℕ,
      Run (ProxyStep {} id) State.init
        (opening 0 7 ++ frame 0 5 ++ frame 0 8 ++
          [.select, .adminUnregister 7, .admin false, .admin false, .ran 6 10 20, .send]) t ∧
      (t.conns 0).phase.isClosed = false ∧ Quiescent t 0 ∧ ¬ Answered t 0) := by
  constructor
  · exact unanswered_run _ (by decide +kernel)
  constructor
  · exact unanswered_run _ (by decide +kernel)
  · exact unanswered_run _ (by decide +kernel)

end Runs

end Proxy
