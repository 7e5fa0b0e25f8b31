import KrakenRuntime.NpuProxy.GateCore

/- The proxy process around the request gate (npu_proxy/npu_proxy.py): one reader thread
   for each data connection, one scheduler thread, one admin thread and the control
   sockets. A dictionary operation, a call into the core, a socket operation and a frame
   read or sent are one step each, and the threads interleave freely. The bytes of a
   handshake and of a frame are taken as read; the runner returns or raises at will, and so
   do the calls of ensure_tenant into the operating system. `sockPath` is the file that a
   tenant's control socket is bound at, which several names may have in common. A request
   carries its frame number, which stands for the identity of the Python object. -/
namespace Proxy
open GateCore
variable {Name Path Conn Body Out : Type} [DecidableEq Name] [DecidableEq Path] [DecidableEq Conn]

structure Request (Conn Body : Type) where
  conn : Conn
  frame : ℕ
  body : Body
  deriving DecidableEq

inductive Reply (Conn Body Out : Type) where
  | result (req : Request Conn Body) (out : Out)
  | error (req : Request Conn Body)
  deriving DecidableEq

def Reply.req : Reply Conn Body Out → Request Conn Body
  | .result req _ => req
  | .error req => req

inductive Ensure where
  | lookup
  | register
  | openLog
  | unlink
  | bind
  | setCtrl (sock : ℕ)
  deriving DecidableEq

inductive Phase (Name Conn Body : Type) where
  | absent
  | ensuring (name : Name) (stage : Ensure)
  | reading (name : Name)
  | submitting (name : Name) (req : Request Conn Body)
  | closed
  | dead (name : Name)
  deriving DecidableEq

structure ConnState (Name Conn Body Out : Type) where
  phase : Phase Name Conn Body := .absent
  requests : List (Request Conn Body) := []
  replies : List (Reply Conn Body Out) := []
  deriving DecidableEq

inductive Admin (Name Conn Body : Type) where
  | idle
  | ensuring (name : Name) (stage : Ensure)
  | unregister (name : Name)
  | replyErr (name : Name) (unserved : List (Request Conn Body))
  | closeCtrl (name : Name) (sock : ℕ)
  | unlink (name : Name)
  | popLog (name : Name)
  | dead
  deriving DecidableEq

structure State (Name Path Conn Body Out : Type) where
  core : Core Name (Request Conn Body)
  logs : Name → Bool
  ctrlSocks : Name → Option ℕ
  /-- the socket bound at a path -/
  path : Path → Option ℕ
  sockOpen : ℕ → Bool
  nextSock : ℕ
  conns : Conn → ConnState Name Conn Body Out
  admin : Admin Name Conn Body
  /-- a served request whose result frame the scheduler has still to send -/
  sending : Option (Request Conn Body × Out)

def State.init : State Name Path Conn Body Out where
  core := Core.init
  logs := fun _ => false
  ctrlSocks := fun _ => none
  path := fun _ => none
  sockOpen := fun _ => false
  nextSock := 0
  conns := fun _ => {}
  admin := .idle
  sending := none

/-- One step of ensure_tenant. The result says how the call goes on: `none` is a return,
    `some none` an exception. Where the operating system refuses, open and bind end the call;
    the exception of unlink is caught. -/
def ensureTenant (sockPath : Name → Path) (s : State Name Path Conn Body Out) (name : Name)
    (refused : Bool) : Ensure → State Name Path Conn Body Out × Option (Option Ensure)
  | .lookup => (s, if s.logs name then none else some (some .register))
  | .register => ({ s with core := GateCore.register s.core name }, some (some .openLog))
  | .openLog =>
    if refused then (s, some none)
    else ({ s with logs := Function.update s.logs name true }, some (some .unlink))
  | .unlink =>
    (if refused then s else { s with path := Function.update s.path (sockPath name) none },
      some (some .bind))
  | .bind =>
    if refused then (s, some none)
    else
      match s.path (sockPath name) with
      | some _ => (s, some none)
      | none =>
        ({ s with
          path := Function.update s.path (sockPath name) (some s.nextSock)
          sockOpen := Function.update s.sockOpen s.nextSock true
          nextSock := s.nextSock + 1 }, some (some (.setCtrl s.nextSock)))
  | .setCtrl sock => ({ s with ctrlSocks := Function.update s.ctrlSocks name (some sock) }, none)

def setConn (s : State Name Path Conn Body Out) (c : Conn)
    (f : ConnState Name Conn Body Out → ConnState Name Conn Body Out) : State Name Path Conn Body Out :=
  { s with conns := Function.update s.conns c (f (s.conns c)) }

def setPhase (s : State Name Path Conn Body Out) (c : Conn) (phase : Phase Name Conn Body) :
    State Name Path Conn Body Out :=
  setConn s c fun k => { k with phase := phase }

/-- `conn.sendall`: a connection that was closed here raises `OSError`, and the reply is
    thrown away. -/
def sendall (s : State Name Path Conn Body Out) (reply : Reply Conn Body Out) :
    State Name Path Conn Body Out :=
  setConn s reply.req.conn fun k =>
    match k.phase with
    | .closed => k
    | _ => { k with replies := k.replies ++ [reply] }

inductive Event (Name Conn Body Out : Type) where
  | handshake (c : Conn) (name : Name)
  | ensure (c : Conn) (refused : Bool)
  | read (c : Conn) (body : Body)
  | hangup (c : Conn)
  | submit (c : Conn)
  | adminRegister (name : Name)
  | adminUnregister (name : Name)
  | admin (refused : Bool)
  | cmd (name : Name) (k : Cmd)
  | select
  | ran (out : Out) (dtUs now : ℚ)
  | raised
  | send

def connEnsure (sockPath : Name → Path) (s : State Name Path Conn Body Out) (c : Conn) (name : Name)
    (refused : Bool) (stage : Ensure) : State Name Path Conn Body Out :=
  match ensureTenant sockPath s name refused stage with
  | (s', none) => setPhase s' c (.reading name)
  | (s', some none) => setPhase s' c (.dead name)
  | (s', some (some stage')) => setPhase s' c (.ensuring name stage')

def adminStep (sockPath : Name → Path) (s : State Name Path Conn Body Out) (refused : Bool) :
    Option (State Name Path Conn Body Out) :=
  match s.admin with
  | .idle => none
  | .dead => none
  | .ensuring name stage =>
    match ensureTenant sockPath s name refused stage with
    | (s', none) => some { s' with admin := .idle }
    | (s', some none) => some { s' with admin := .dead }
    | (s', some (some stage')) => some { s' with admin := .ensuring name stage' }
  | .unregister name =>
    some { s with
      core := (GateCore.unregister s.core name).1
      admin := .replyErr name (GateCore.unregister s.core name).2 }
  | .replyErr name (req :: rest) => some { sendall s (.error req) with admin := .replyErr name rest }
  | .replyErr name [] =>
    match s.ctrlSocks name with
    | some sock =>
      some { s with
        ctrlSocks := Function.update s.ctrlSocks name none
        admin := .closeCtrl name sock }
    | none => some { s with admin := .popLog name }
  | .closeCtrl name sock =>
    some { s with sockOpen := Function.update s.sockOpen sock false, admin := .unlink name }
  | .unlink name =>
    some { s with
      path := if refused then s.path else Function.update s.path (sockPath name) none
      admin := .popLog name }
  | .popLog name => some { s with logs := Function.update s.logs name false, admin := .idle }

/-- First half of `GateCore.step` as `_sched_loop` calls it; nothing to run is no change. -/
def select (cfg : Config) (s : State Name Path Conn Body Out) : State Name Path Conn Body Out :=
  match eligible cfg s.core with
  | none => s
  | some (e, extra) =>
    match popFrom s.core e extra with
    | none => s
    | some (core, _) => { s with core := core }

def next (cfg : Config) (sockPath : Name → Path) (s : State Name Path Conn Body Out) :
    Event Name Conn Body Out → Option (State Name Path Conn Body Out)
  | .handshake c name =>
    match (s.conns c).phase with
    | .absent => some (setPhase s c (.ensuring name .lookup))
    | _ => none
  | .ensure c refused =>
    match (s.conns c).phase with
    | .ensuring name stage => some (connEnsure sockPath s c name refused stage)
    | _ => none
  | .read c body =>
    match (s.conns c).phase with
    | .reading name =>
      let req : Request Conn Body := ⟨c, (s.conns c).requests.length, body⟩
      some (setConn s c fun k =>
        { k with phase := .submitting name req, requests := k.requests ++ [req] })
    | _ => none
  | .hangup c =>
    match (s.conns c).phase with
    | .reading _ => some (setPhase s c .closed)
    | _ => none
  | .submit c =>
    match (s.conns c).phase with
    | .submitting name req =>
      match GateCore.submit s.core name req with
      | none => some (setPhase s c (.dead name))
      | some core => some (setPhase { s with core := core } c (.reading name))
    | _ => none
  | .adminRegister name =>
    match s.admin with
    | .idle => some { s with admin := .ensuring name .lookup }
    | _ => none
  | .adminUnregister name =>
    match s.admin with
    | .idle => some { s with admin := .unregister name }
    | _ => none
  | .admin refused => adminStep sockPath s refused
  | .cmd name k => some { s with core := (GateCore.cmd cfg s.core name k).1 }
  | .select =>
    match s.core.flight, s.sending with
    | none, none => some (select cfg s)
    | _, _ => none
  | .ran out dtUs now =>
    match s.core.flight with
    | some f => some { s with core := finish cfg s.core f dtUs now, sending := some (f.req, out) }
    | none => none
  | .raised =>
    match s.core.flight with
    | some _ => some { s with core := { s.core with flight := none } }
    | none => none
  | .send =>
    match s.sending with
    | some (req, out) => some { sendall s (.result req out) with sending := none }
    | none => none

abbrev ProxyStep (cfg : Config) (sockPath : Name → Path) :
    State Name Path Conn Body Out → Event Name Conn Body Out → State Name Path Conn Body Out → Prop :=
  Runs.Fires (next cfg sockPath)

inductive Move (cfg : Config) (sockPath : Name → Path) (s : State Name Path Conn Body Out) :
    Event Name Conn Body Out → State Name Path Conn Body Out → Prop where
  | handshake {c : Conn} {name : Name} (here : (s.conns c).phase = .absent) :
      Move cfg sockPath s (.handshake c name) (setPhase s c (.ensuring name .lookup))
  | ensure {c : Conn} {name : Name} {refused : Bool} {stage : Ensure}
      (here : (s.conns c).phase = .ensuring name stage) :
      Move cfg sockPath s (.ensure c refused) (connEnsure sockPath s c name refused stage)
  | read {c : Conn} {body : Body} {name : Name} {req : Request Conn Body}
      (here : (s.conns c).phase = .reading name)
      (numbered : req = ⟨c, (s.conns c).requests.length, body⟩) :
      Move cfg sockPath s (.read c body) (setConn s c fun k =>
        { k with phase := .submitting name req, requests := k.requests ++ [req] })
  | hangup {c : Conn} {name : Name} (here : (s.conns c).phase = .reading name) :
      Move cfg sockPath s (.hangup c) (setPhase s c .closed)
  | refused {c : Conn} {name : Name} {req : Request Conn Body}
      (here : (s.conns c).phase = .submitting name req)
      (missing : GateCore.submit s.core name req = none) :
      Move cfg sockPath s (.submit c) (setPhase s c (.dead name))
  | submitted {c : Conn} {name : Name} {req : Request Conn Body} {core : Core Name (Request Conn Body)}
      (here : (s.conns c).phase = .submitting name req)
      (done : GateCore.submit s.core name req = some core) :
      Move cfg sockPath s (.submit c) (setPhase { s with core := core } c (.reading name))
  | adminRegister {name : Name} (idle : s.admin = .idle) :
      Move cfg sockPath s (.adminRegister name) { s with admin := .ensuring name .lookup }
  | adminUnregister {name : Name} (idle : s.admin = .idle) :
      Move cfg sockPath s (.adminUnregister name) { s with admin := .unregister name }
  | admin {refused : Bool} {t : State Name Path Conn Body Out}
      (step : adminStep sockPath s refused = some t) : Move cfg sockPath s (.admin refused) t
  | cmd {name : Name} {k : Cmd} :
      Move cfg sockPath s (.cmd name k) { s with core := (GateCore.cmd cfg s.core name k).1 }
  | select (idle : s.core.flight = none) (quiet : s.sending = none) :
      Move cfg sockPath s .select (Proxy.select cfg s)
  | ran {out : Out} {dtUs now : ℚ} {f : Flight Name (Request Conn Body)} (busy : s.core.flight = some f) :
      Move cfg sockPath s (.ran out dtUs now)
        { s with core := finish cfg s.core f dtUs now, sending := some (f.req, out) }
  | raised {f : Flight Name (Request Conn Body)} (busy : s.core.flight = some f) :
      Move cfg sockPath s .raised { s with core := { s.core with flight := none } }
  | send {req : Request Conn Body} {out : Out} (sending : s.sending = some (req, out)) :
      Move cfg sockPath s .send { sendall s (.result req out) with sending := none }

theorem step_move {cfg : Config} {sockPath : Name → Path} {s t : State Name Path Conn Body Out}
    {ev : Event Name Conn Body Out} (step : ProxyStep cfg sockPath s ev t) : Move cfg sockPath s ev t := by
  cases ev with
  | admin refused => exact .admin step
  | cmd name k =>
    cases step
    exact .cmd
  | submit c =>
    simp only [ProxyStep, Runs.Fires, next] at step
    split at step
    · rename_i here
      split at step <;> rename_i answer <;> cases step
      · exact .refused here answer
      · exact .submitted here answer
    · cases step
  | select =>
    simp only [ProxyStep, Runs.Fires, next] at step
    split at step <;> cases step
    rename_i idle quiet
    exact .select idle quiet
  | read c body =>
    simp only [ProxyStep, Runs.Fires, next] at step
    split at step <;> cases step
    rename_i here
    exact .read here rfl
  | _ =>
    simp only [ProxyStep, Runs.Fires, next] at step
    split at step <;> cases step
    rename_i here
    first
    | exact .handshake here
    | exact .ensure here
    | exact .hangup here
    | exact .adminRegister here
    | exact .adminUnregister here
    | exact .ran here
    | exact .raised here
    | exact .send here

end Proxy
