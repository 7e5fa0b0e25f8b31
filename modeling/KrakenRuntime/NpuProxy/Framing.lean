import KrakenRuntime.Lib.Wire
import KrakenRuntime.NpuProxy.Proxy

/- The bytes of the data plane: what client.py sends (a handshake line of JSON, then frames of
   a length and a body) and how `_conn_loop` of npu_proxy.py reads it, byte by byte up to the
   newline and with recv_exact after it. The JSON library is a parameter. Between the
   handshake and the first frame `_conn_loop` calls ensure_tenant, which reads no byte and is
   part of the proxy model: it may raise for a name that cannot be registered. The bytes are
   those of a tenant that it did register and that stays registered, so that no submission
   raises; what the loop submits, the proxy model queues. -/
namespace Framing
open Wire
variable {Name : Type}

def inBytes : ℕ := 1 * 3 * 224 * 224

def newline : UInt8 := 10

/-- `(json.dumps({"tenant": name}) + "\n").encode()`. -/
def handshake (dumps : Name → List UInt8) (name : Name) : List UInt8 := dumps name ++ [newline]

def frame (body : List UInt8) : List UInt8 := packWord body.length ++ body

/-- The request loop of `_conn_loop`: the bodies it submits until it breaks. -/
def readRequests (s : Stream UInt8) : List (List UInt8) :=
  match _header : Stream.recvExact 4 s with
  | (none, _) => []
  | (some hdr, s') =>
    match _body : Stream.recvExact (unpackWord hdr) s' with
    | (none, _) => []
    | (some body, s'') => if unpackWord hdr ≠ inBytes then [] else body :: readRequests s''
termination_by s.bytes.length
decreasing_by
  obtain ⟨four, first⟩ := Stream.recvExact_some _header
  obtain ⟨_, second⟩ := Stream.recvExact_some _body
  have whole := congrArg List.length first
  have rest := congrArg List.length second
  rw [List.length_append] at whole rest
  omega

structure Outcome (Name : Type) where
  tenant : Option Name := none
  submitted : List (Name × List UInt8) := []
  closed : Bool := false

/-- `loads` is `json.loads(line)["tenant"]`; where it raises, the thread ends with the
    connection open. The call of ensure_tenant is left out. -/
def connLoop (loads : List UInt8 → Option Name) (s : Stream UInt8) : Outcome Name :=
  match Stream.recvLine (fun c => c = newline) [] s with
  | (none, _) => { closed := true }
  | (some line, s') =>
    match loads line with
    | none => {}
    | some name =>
      { tenant := some name
        submitted := (readRequests s').map fun body => (name, body)
        closed := true }

/-- What may follow the last whole frame: nothing or part of a header, part of a body, or a
    frame with another length and anything behind it. -/
inductive Trailing : List UInt8 → Prop where
  | header {bytes : List UInt8} (short : bytes.length < 4) : Trailing bytes
  | body {n : ℕ} {bytes : List UInt8} (word : n < 2 ^ 32) (short : bytes.length < n) :
      Trailing (packWord n ++ bytes)
  | length {n : ℕ} {bytes : List UInt8} (word : n < 2 ^ 32) (wrong : n ≠ inBytes) :
      Trailing (packWord n ++ bytes)

theorem inBytes_word : inBytes < 2 ^ 32 := by decide

section Requests
variable {s rest : Stream UInt8}

theorem readRequests_closed (ended : Stream.recvExact 4 s = (none, rest)) : readRequests s = [] := by
  rw [readRequests]
  split
  · rfl
  · rename_i found
    rw [ended] at found
    cases found

theorem readRequests_header {n : ℕ} (word : n < 2 ^ 32)
    (header : Stream.recvExact 4 s = (some (packWord n), rest)) :
    readRequests s =
      match Stream.recvExact n rest with
      | (none, _) => []
      | (some body, s') => if n ≠ inBytes then [] else body :: readRequests s' := by
  rw [readRequests]
  split
  · rename_i missing
    rw [header] at missing
    cases missing
  · rename_i found
    rw [header] at found
    cases found
    rw [unpack_pack word]
    split
    · rename_i missing
      rw [missing]
    · rename_i present
      rw [present]

theorem header_read {n : ℕ} {after : List UInt8} (bytes_eq : s.bytes = packWord n ++ after) :
    ∃ rest : Stream UInt8, Stream.recvExact 4 s = (some (packWord n), rest) ∧ rest.bytes = after := by
  have read := Stream.recvExact_enough bytes_eq
  rwa [packWord_length] at read

theorem readRequests_frame {body after : List UInt8} (size : body.length = inBytes)
    (bytes_eq : s.bytes = frame body ++ after) :
    ∃ rest : Stream UInt8, readRequests s = body :: readRequests rest ∧ rest.bytes = after := by
  rw [frame, List.append_assoc] at bytes_eq
  obtain ⟨mid, header, remains⟩ := header_read bytes_eq
  obtain ⟨rest, read, left⟩ := Stream.recvExact_enough remains
  refine ⟨rest, ?_, left⟩
  rw [readRequests_header (size ▸ inBytes_word) header, read]
  simp [size]

theorem readRequests_trailing (trailing : Trailing s.bytes) : readRequests s = [] := by
  generalize bytes_eq : s.bytes = bytes at trailing
  cases trailing with
  | header short =>
    obtain ⟨rest, ended⟩ := Stream.recvExact_short (bytes_eq ▸ short)
    exact readRequests_closed ended
  | body word short =>
    obtain ⟨rest, header, remains⟩ := header_read bytes_eq
    obtain ⟨last, ended⟩ := Stream.recvExact_short (remains ▸ short)
    rw [readRequests_header word header, ended]
  | length word wrong =>
    obtain ⟨rest, header, _⟩ := header_read bytes_eq
    rw [readRequests_header word header]
    split
    · rfl
    · rw [if_pos wrong]

theorem readRequests_frames {bodies : List (List UInt8)} {tail : List UInt8}
    (sized : ∀ body ∈ bodies, body.length = inBytes) (trailing : Trailing tail)
    (bytes_eq : s.bytes = bodies.flatMap frame ++ tail) : readRequests s = bodies := by
  induction bodies generalizing s with
  | nil =>
    apply readRequests_trailing
    rw [bytes_eq]
    exact trailing
  | cons body bodies ih =>
    rw [List.flatMap_cons, List.append_assoc] at bytes_eq
    obtain ⟨rest, read, remains⟩ := readRequests_frame (sized body (by simp)) bytes_eq
    rw [read, ih (fun b later => sized b (List.mem_cons_of_mem _ later)) remains]

end Requests

theorem connLoop_encoded {dumps : Name → List UInt8} {loads : List UInt8 → Option Name}
    {name : Name} (plain : newline ∉ dumps name)
    (parses : loads (handshake dumps name) = some name) {bodies : List (List UInt8)}
    (sized : ∀ body ∈ bodies, body.length = inBytes) {tail : List UInt8} (trailing : Trailing tail)
    {s : Stream UInt8}
    (bytes_eq : s.bytes = handshake dumps name ++ bodies.flatMap frame ++ tail) :
    connLoop loads s =
      { tenant := some name, submitted := bodies.map fun body => (name, body), closed := true } := by
  have line_first : s.bytes = dumps name ++ newline :: (bodies.flatMap frame ++ tail) := by
    rw [bytes_eq, handshake]
    simp
  obtain ⟨rest, line, remains⟩ := Stream.recvLine_line (fun c => c = newline)
    (decide_eq_true rfl) [] s rfl
    (fun c inside => decide_eq_false fun same => plain (same ▸ inside)) line_first
  rw [connLoop, line]
  simp only [List.nil_append]
  rw [show dumps name ++ [newline] = handshake dumps name from rfl, parses]
  simp only
  rw [readRequests_frames sized trailing remains]

open Runs GateCore Proxy

section Queues
variable {Path Conn Out : Type} [DecidableEq Name] [DecidableEq Path] [DecidableEq Conn]
  {cfg : Config} {sockPath : Name → Path} {c : Conn} {name : Name}

/-- The reader of a connection is in its request loop for a tenant that is registered. -/
structure Serving (c : Conn) (name : Name) (s : State Name Path Conn (List UInt8) Out) : Prop where
  reading : (s.conns c).phase = .reading name
  registered : ∃ t, s.core.tenants.get? name = some t

/-- The steps of the proxy model for the bodies that the loop submits, and the close. -/
def loopEvents (c : Conn) (bodies : List (List UInt8)) : List (Proxy.Event Name Conn (List UInt8) Out) :=
  bodies.flatMap (fun body => [.read c body, .submit c]) ++ [.hangup c]

theorem serve_body {s : State Name Path Conn (List UInt8) Out} (serving : Serving c name s)
    (body : List UInt8) : ∃ t req, Run (ProxyStep cfg sockPath) s [.read c body, .submit c] t ∧
      Serving c name t ∧ req.body = body ∧ queueOf t.core name = queueOf s.core name ++ [req] := by
  obtain ⟨reading, t, registered⟩ := serving
  let req : Request Conn (List UInt8) := ⟨c, (s.conns c).requests.length, body⟩
  let read : State Name Path Conn (List UInt8) Out := setConn s c fun k =>
    { k with phase := .submitting name req, requests := k.requests ++ [req] }
  have first : ProxyStep cfg sockPath s (.read c body) read := by
    simp only [Fires, Proxy.next, reading]
    rfl
  have submitting : (read.conns c).phase = .submitting name req := by
    simp [read, setConn]
  have accepted : GateCore.submit read.core name req = some { s.core with
      tenants := s.core.tenants.modify name fun t => { t with queue := t.queue ++ [req] } } := by
    show GateCore.submit s.core name req = _
    simp only [GateCore.submit, registered]
  have second : ProxyStep cfg sockPath read (.submit c) (setPhase { read with core := { s.core with
      tenants := s.core.tenants.modify name fun t => { t with queue := t.queue ++ [req] } } } c
        (.reading name)) := by
    simp only [Fires, Proxy.next, submitting, accepted]
  refine ⟨_, req, .cons first (run_single second), ⟨?_, ?_⟩, rfl, ?_⟩
  · simp [setPhase, setConn]
  · exact ⟨{ t with queue := t.queue ++ [req] }, by simp [setPhase, setConn, registered]⟩
  · simp [setPhase, setConn, queueOf, registered]

theorem loop_queues {s : State Name Path Conn (List UInt8) Out} (serving : Serving c name s)
    (bodies : List (List UInt8)) : ∃ t, Run (ProxyStep cfg sockPath) s (loopEvents c bodies) t ∧
      (t.conns c).phase = .closed ∧
      (queueOf t.core name).map Request.body = (queueOf s.core name).map Request.body ++ bodies := by
  induction bodies generalizing s with
  | nil =>
    have closes : ProxyStep cfg sockPath s (.hangup c) (setPhase s c .closed) := by
      simp only [Fires, Proxy.next, serving.reading]
    exact ⟨_, run_single closes, by simp [setPhase, setConn], by simp [setPhase, setConn]⟩
  | cons body bodies ih =>
    obtain ⟨mid, req, run, serving', same, queue⟩ := serve_body serving body
    obtain ⟨t, later, closed, queued⟩ := ih serving'
    have split : (loopEvents c (body :: bodies) : List (Proxy.Event Name Conn (List UInt8) Out)) =
        [.read c body, .submit c] ++ loopEvents c bodies := by simp [loopEvents]
    rw [split]
    refine ⟨t, run_append run later, closed, ?_⟩
    rw [queued, queue, List.map_append, List.map_singleton, same, List.append_assoc]
    rfl

end Queues

/-- However the bytes are cut, the reader inverts the client's encoder, and the proxy queues
    for the tenant what it submits. -/
theorem framing_inverts_encoder {Path Conn Out : Type} [DecidableEq Name] [DecidableEq Path]
    [DecidableEq Conn] {dumps : Name → List UInt8} {loads : List UInt8 → Option Name}
    {name : Name} (plain : newline ∉ dumps name)
    (parses : loads (handshake dumps name) = some name) {bodies : List (List UInt8)}
    (sized : ∀ body ∈ bodies, body.length = inBytes) {tail : List UInt8} (trailing : Trailing tail)
    {s : Stream UInt8}
    (bytes_eq : s.bytes = handshake dumps name ++ bodies.flatMap frame ++ tail) :
    connLoop loads s =
      { tenant := some name, submitted := bodies.map fun body => (name, body), closed := true } ∧
    ∀ (cfg : Config) (sockPath : Name → Path) (c : Conn)
      (p : State Name Path Conn (List UInt8) Out), Serving c name p →
      ∃ q, Run (ProxyStep cfg sockPath) p
          (loopEvents c ((connLoop loads s).submitted.map Prod.snd)) q ∧
        (q.conns c).phase = .closed ∧
        (queueOf q.core name).map Request.body = (queueOf p.core name).map Request.body ++ bodies := by
  have read := connLoop_encoded plain parses sized trailing bytes_eq
  refine ⟨read, ?_⟩
  intro cfg sockPath c p serving
  have bodies_eq : (connLoop loads s).submitted.map Prod.snd = bodies := by
    rw [read, List.map_map]
    exact List.map_id bodies
  rw [bodies_eq]
  exact loop_queues serving bodies

def ascii (text : String) : List UInt8 := text.toList.map fun c => UInt8.ofNat c.toNat

/-- `json.dumps` and `json.loads` for a tenant name of plain letters. -/
def dumpsPlain (name : List UInt8) : List UInt8 :=
  ascii "\x7b\"tenant\": \"" ++ name ++ ascii "\"\x7d"

def loadsPlain (line : List UInt8) : Option (List UInt8) :=
  let name := (line.drop 12).take (line.length - 15)
  if line = handshake dumpsPlain name then some name else none

def cutStream : Stream UInt8 where
  chunks := [handshake dumpsPlain (ascii "A") ++ [0], [2, 76], 0 :: List.replicate 100 7,
    List.replicate (inBytes - 100) 7 ++ [0, 0]]
  nonempty := by simp

def servingA : State (List UInt8) (List UInt8) ℕ (List UInt8) ℕ :=
  setPhase { State.init with core := GateCore.register Core.init (ascii "A") } 0
    (.reading (ascii "A"))

theorem servingA_serves : Serving 0 (ascii "A") servingA := by
  refine ⟨?_, ?_⟩
  · simp [servingA, setPhase, setConn]
  · simp [servingA, setPhase, setConn, GateCore.register, Dict.get?_setDefault]

theorem cut_stream_read :
    connLoop loadsPlain cutStream =
      { tenant := some (ascii "A"), submitted := [(ascii "A", List.replicate inBytes 7)],
        closed := true } ∧
    ∃ q, Run (ProxyStep {} id) servingA
        (loopEvents 0 ((connLoop loadsPlain cutStream).submitted.map Prod.snd)) q ∧
      (q.conns 0).phase = .closed ∧
      (queueOf q.core (ascii "A")).map Request.body = [List.replicate inBytes 7] := by
  have sized : ∀ body ∈ [List.replicate inBytes (7 : UInt8)], body.length = inBytes := by simp
  have trailing : Trailing [0, 0] := .header (by decide)
  have header : packWord inBytes = [0, 2, 76, 0] := by decide
  have bytes_eq : cutStream.bytes = handshake dumpsPlain (ascii "A") ++
      [List.replicate inBytes 7].flatMap frame ++ [0, 0] := by
    have whole : List.replicate inBytes (7 : UInt8) =
        List.replicate 100 7 ++ List.replicate (inBytes - 100) 7 := by
      rw [List.replicate_append_replicate]
      rfl
    rw [List.flatMap_singleton, frame, List.length_replicate, header, whole]
    simp only [Stream.bytes, cutStream, List.flatten_cons, List.flatten_nil, List.append_assoc,
      List.cons_append, List.nil_append, List.append_nil]
  have parses : loadsPlain (handshake dumpsPlain (ascii "A")) = some (ascii "A") := by decide
  obtain ⟨read, queues⟩ := @framing_inverts_encoder (List UInt8) (List UInt8) ℕ ℕ _ _ _
    dumpsPlain loadsPlain (ascii "A") (by decide) parses _ sized _ trailing _ bytes_eq
  exact ⟨read, queues {} id 0 servingA servingA_serves⟩

end Framing
