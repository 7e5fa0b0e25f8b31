import KrakenRuntime.Lib.Runs
import Mathlib.Data.List.Nodup

/- The tenant client of the proxy (npu_proxy/client.py): the send loop and the receiver
   thread, which share the deque of submitted requests, the semaphore of the pipeline depth
   and the socket that a reconnection replaces. A queue, semaphore or socket operation is one
   step, and the two threads interleave freely. A connection is named by its epoch, counted
   from the first one, and a request by a number that stands for its time stamp in the deque.
   The proxy answers the requests of a connection in their order, each once, and may hang up
   at any time. What is only counted for the report (lost, done, lat, reconnects) is left
   out. -/
namespace Client
open Runs

/-- `sent` are the requests whose frame went out, `answered` counts the replies that the
    proxy has written and `read` those that the receiver has read. -/
structure Conn where
  sent : List ℕ := []
  answered : ℕ := 0
  read : ℕ := 0
  hungUp : Bool := false
  closed : Bool := false
  deriving DecidableEq

def Conn.live (c : Conn) : Bool := !c.hungUp && !c.closed

def Conn.ended (c : Conn) : Bool := c.closed || (c.hungUp && decide (c.read = c.answered))

/-- An entry of submits: the connection that it was made for and the request. -/
abbrev Entry := ℕ × ℕ

structure Shared where
  permits : ℕ
  submits : List Entry := []
  nextId : ℕ := 0
  epoch : ℕ := 0
  conns : ℕ → Conn := fun _ => {}
  stop : Bool := false

inductive Repair where
  | test
  | popleft
  | release
  | compare
  | connecting
  | closing (old : ℕ)
  deriving DecidableEq

inductive Sender where
  | top
  | current
  | append (k : ℕ)
  | send (k id : ℕ)
  | repair (k : ℕ) (stage : Repair)
  | finishing
  | finished
  | crashed
  deriving DecidableEq

inductive Receiver where
  | top
  | current
  | header (k : ℕ)
  | ended (k : ℕ)
  | body (k : ℕ)
  | test (k reply : ℕ)
  | popleft (k reply : ℕ)
  | release
  | repair (k : ℕ) (stage : Repair)
  | returned
  | crashed
  deriving DecidableEq

structure State where
  shared : Shared
  sender : Sender := .top
  receiver : Receiver := .top

/-- How an operation that depends on the outside turns out: `empty` is a reply without body. -/
inductive Outcome where
  | ok
  | empty
  | fail
  deriving DecidableEq

inductive Progress where
  | more (stage : Repair)
  | done (reconnected : Bool)
  | raised
  deriving DecidableEq

def Shared.onConn (s : Shared) (k : ℕ) (f : Conn → Conn) : Shared :=
  { s with conns := Function.update s.conns k (f (s.conns k)) }

def Conn.close (c : Conn) : Conn := { c with closed := true }

def Conn.push (id : ℕ) (c : Conn) : Conn := { c with sent := c.sent ++ [id] }

def Conn.readReply (c : Conn) : Conn := { c with read := c.read + 1 }

def Conn.answer (c : Conn) : Conn := { c with answered := c.answered + 1 }

def Conn.hangUp (c : Conn) : Conn := { c with hungUp := true }

section Threads
variable (reconnectEnabled : Bool) (s : Shared)

def repair (k : ℕ) (o : Outcome) : Repair → Option (Shared × Progress)
  | .test => some (s, if s.submits = [] then .more .compare else .more .popleft)
  | .popleft =>
    match s.submits with
    | [] => some (s, .raised)
    | _ :: rest => some ({ s with submits := rest }, .more .release)
  | .release => some ({ s with permits := s.permits + 1 }, .more .test)
  | .compare =>
    if !reconnectEnabled then some (s, .done false)
    else some (s, if s.epoch ≠ k then .done true else .more .connecting)
  | .connecting =>
    if s.stop then some (s, .done false)
    else match o with
      | .ok => some ({ s with epoch := s.epoch + 1 }, .more (.closing s.epoch))
      | .fail => some (s, .more .connecting)
      | .empty => none
  | .closing old => some (s.onConn old Conn.close, .done true)

def senderAfter (k : ℕ) : Progress → Sender
  | .more stage => .repair k stage
  | .done _ => .top
  | .raised => .crashed

def receiverAfter (k : ℕ) : Progress → Receiver
  | .more stage => .repair k stage
  | .done true => .top
  | .done false => .returned
  | .raised => .crashed

/-- One operation of the send loop; at its top `fail` says that the time is up. -/
def stepSender (o : Outcome) : Sender → Option (Shared × Sender)
  | .top =>
    match o with
    | .ok => if 0 < s.permits then some ({ s with permits := s.permits - 1 }, .current) else none
    | .fail => some ({ s with stop := true }, .finishing)
    | .empty => none
  | .current => some (s, .append s.epoch)
  | .append k =>
    some ({ s with submits := s.submits ++ [(k, s.nextId)], nextId := s.nextId + 1 }, .send k s.nextId)
  | .send k id =>
    if (s.conns k).live then some (s.onConn k (Conn.push id), .top)
    else some (s, .repair k .test)
  | .repair k stage => (repair reconnectEnabled s k o stage).map fun (s, p) => (s, senderAfter k p)
  | .finishing => some (s.onConn s.epoch Conn.close, .finished)
  | .finished => none
  | .crashed => none

def takeReply (k : ℕ) : Shared × Receiver :=
  (s.onConn k Conn.readReply, .test k (s.conns k).read)

def stepReceiver (o : Outcome) : Receiver → Option (Shared × Receiver)
  | .top => some (s, if s.stop then .returned else .current)
  | .current => some (s, .header s.epoch)
  | .header k =>
    match o with
    | .ok =>
      if !(s.conns k).closed && decide ((s.conns k).read < (s.conns k).sent.length) then some (s, .body k)
      else none
    | .empty =>
      if !(s.conns k).closed && decide ((s.conns k).read < (s.conns k).answered) then some (takeReply s k)
      else none
    | .fail => if (s.conns k).ended then some (s, .ended k) else none
  | .ended k => some (s, if s.stop then .returned else .repair k .test)
  | .body k =>
    match o with
    | .ok =>
      if !(s.conns k).closed && decide ((s.conns k).read < (s.conns k).answered) then some (takeReply s k)
      else none
    | .fail => if (s.conns k).ended then some (s, .repair k .test) else none
    | .empty => none
  | .test k reply => some (s, if s.submits = [] then .release else .popleft k reply)
  | .popleft _ _ =>
    match s.submits with
    | [] => some (s, .crashed)
    | _ :: rest => some ({ s with submits := rest }, .release)
  | .release => some ({ s with permits := s.permits + 1 }, .top)
  | .repair k stage => (repair reconnectEnabled s k o stage).map fun (s, p) => (s, receiverAfter k p)
  | .returned => none
  | .crashed => none

end Threads

inductive Event where
  | sender (o : Outcome)
  | receiver (o : Outcome)
  | answer (k : ℕ)
  | hangUp (k : ℕ)
  deriving DecidableEq

def next (reconnectEnabled : Bool) (s : State) : Event → Option State
  | .sender o => (stepSender reconnectEnabled s.shared o s.sender).map fun (shared, sender) =>
    { s with shared, sender }
  | .receiver o => (stepReceiver reconnectEnabled s.shared o s.receiver).map fun (shared, receiver) =>
    { s with shared, receiver }
  | .answer k =>
    let c := s.shared.conns k
    if c.live && decide (c.answered < c.sent.length) then
      some { s with shared := s.shared.onConn k Conn.answer }
    else none
  | .hangUp k =>
    if k ≤ s.shared.epoch then
      some { s with shared := s.shared.onConn k Conn.hangUp }
    else none

abbrev ClientStep (reconnectEnabled : Bool) : State → Event → State → Prop := Fires (next reconnectEnabled)

def State.start (depth : ℕ) : State := { shared := { permits := depth } }

end Client
