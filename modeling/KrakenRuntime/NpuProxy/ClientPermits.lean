import KrakenRuntime.NpuProxy.Client
import Mathlib.Algebra.Order.Ring.Nat

/- What the semaphore and the deque of the client say about the requests that are on their
   way. The invariant follows the deque: the entries of the current connection are its last
   requests, and behind them there is at most the one entry that the sender has appended and
   not yet sent. -/
namespace Client
open Runs

abbrev Shared.now (sh : Shared) : Conn := sh.conns sh.epoch

/-- The permits that a thread has taken out of the semaphore or of the deque. -/
def Repair.hand : Repair → ℕ
  | .release => 1
  | _ => 0

def Sender.hand : Sender → ℕ
  | .current | .append _ => 1
  | .repair _ stage => stage.hand
  | _ => 0

def Receiver.hand : Receiver → ℕ
  | .release => 1
  | .repair _ stage => stage.hand
  | _ => 0

def Receiver.answering : Receiver → Option (ℕ × ℕ)
  | .test k reply | .popleft k reply => some (k, reply)
  | _ => none

def taken (sh : Shared) (receiver : Receiver) : ℕ :=
  match receiver.answering with
  | some (k, reply) => if k = sh.epoch then reply else sh.now.read
  | none => sh.now.read

def Repair.drained : Repair → Bool
  | .compare | .connecting | .closing _ => true
  | .test | .popleft | .release => false

structure RepairOk (epoch : ℕ) (conns : ℕ → Conn) (n k : ℕ) (stage : Repair) : Prop where
  reached : k ≤ epoch
  lost : (conns k).live = false
  drained : stage.drained = true → k = epoch → (conns epoch).sent.length ≤ n
  closing : ∀ old, stage = .closing old → old < epoch

def Unsent (sh : Shared) (id : ℕ) : Prop := ∀ k, id ∉ (sh.conns k).sent

/-- `own` is the entry that the sender has appended and not sent, while it is in the deque. -/
def SenderOk (sh : Shared) (n : ℕ) (own : List Entry) : Sender → Prop
  | .top | .current | .finishing | .finished => own = []
  | .append k => k ≤ sh.epoch ∧ own = []
  | .send k id => k ≤ sh.epoch ∧ id < sh.nextId ∧ Unsent sh id ∧
    ((own = [] ∧ (sh.conns k).live = false) ∨ own = [(k, id)])
  | .repair k stage => RepairOk sh.epoch sh.conns n k stage ∧
    (own = [] ∨ stage.drained = false ∧ ∃ id, own = [(k, id)] ∧ Unsent sh id)
  | .crashed => False

def ReceiverOk (sh : Shared) (n : ℕ) : Receiver → Prop
  | .top | .current | .release | .returned => True
  | .header k | .body k => k ≤ sh.epoch
  | .ended k => k ≤ sh.epoch ∧ (sh.conns k).live = false
  | .test k reply | .popleft k reply => k ≤ sh.epoch ∧ reply + 1 = (sh.conns k).read
  | .repair k stage => RepairOk sh.epoch sh.conns n k stage
  | .crashed => False

/-- From request `n` of the current connection on, the deque holds its entries. -/
structure Lined (depth : ℕ) (sh : Shared) (sender : Sender) (receiver : Receiver) (n : ℕ)
    (own : List Entry) : Prop where
  unused : ∀ k, sh.epoch < k → sh.conns k = {}
  ids : ∀ k id, id ∈ (sh.conns k).sent → id < sh.nextId
  distinct : sh.now.sent.Nodup
  old : ∀ k, k < sh.epoch → (sh.conns k).live = false
  queue : sh.submits = (sh.now.sent.drop n).map (Prod.mk sh.epoch) ++ own
  within : n ≤ sh.now.sent.length
  behind : taken sh receiver ≤ n
  matched : sh.now.live = true → n = taken sh receiver
  window : sh.now.sent.length ≤ taken sh receiver + depth
  sender : SenderOk sh n own sender
  receiver : ReceiverOk sh n receiver

def Balanced (depth : ℕ) (sh : Shared) (sender : Sender) (receiver : Receiver) : Prop :=
  sh.permits + sh.submits.length + sender.hand + receiver.hand = depth

def Kept (depth : ℕ) (sh : Shared) (sender : Sender) (receiver : Receiver) : Prop :=
  Balanced depth sh sender receiver ∧ ∃ n own, Lined depth sh sender receiver n own

section Conditions
variable (sh : Shared) (k : ℕ)

/-- What drop_inflight takes out was put in for the lost connection, and no other thread has
    replaced this connection when a new one is put in its place. -/
def RepairOrderly (o : Outcome) : Repair → Prop
  | .popleft => sh.submits.head?.map Prod.fst = some k
  | .connecting => o = .ok → sh.stop = false → sh.epoch = k
  | _ => True

/-- A reply finds the entry of the request that it answers first in the deque. -/
def ReplyOrderly (reply : ℕ) : Prop :=
  sh.submits ≠ [] ∧ sh.submits.head? = (sh.conns k).sent[reply]?.map (Prod.mk k)

def SenderOrderly (o : Outcome) : Sender → Prop
  | .repair k stage => RepairOrderly sh k o stage
  | _ => True

def ReceiverOrderly (o : Outcome) : Receiver → Prop
  | .test k reply | .popleft k reply => ReplyOrderly sh k reply
  | .repair k stage => RepairOrderly sh k o stage
  | _ => True

end Conditions

def Orderly (s : State) : Event → Prop
  | .sender o => SenderOrderly s.shared o s.sender
  | .receiver o => ReceiverOrderly s.shared o s.receiver
  | .answer _ | .hangUp _ => True

section Dimmed
variable {depth n : ℕ} {sh : Shared} {sender : Sender} {receiver : Receiver} {own : List Entry}

theorem onConn_self (k : ℕ) (f : Conn → Conn) : (sh.onConn k f).conns k = f (sh.conns k) := by
  simp [Shared.onConn]

theorem onConn_other {j k : ℕ} (f : Conn → Conn) (other : j ≠ k) :
    (sh.onConn k f).conns j = sh.conns j := by
  simp [Shared.onConn, other]

structure Dims (f : Conn → Conn) : Prop where
  sent : ∀ c, (f c).sent = c.sent
  live : ∀ c, (f c).live = true → c.live = true

theorem close_dims : Dims Conn.close := by
  refine ⟨fun _ => rfl, ?_⟩
  intro c live
  simp [Conn.close, Conn.live] at live

theorem hangUp_dims : Dims Conn.hangUp := by
  refine ⟨fun _ => rfl, ?_⟩
  intro c live
  simp [Conn.hangUp, Conn.live] at live

theorem answer_dims : Dims Conn.answer := ⟨fun _ => rfl, fun _ live => live⟩

theorem readReply_dims : Dims Conn.readReply := ⟨fun _ => rfl, fun _ live => live⟩

variable {k : ℕ} {f : Conn → Conn} (dims : Dims f)

section Dims
include dims

theorem dims_sent (j : ℕ) : ((sh.onConn k f).conns j).sent = (sh.conns j).sent := by
  by_cases here : j = k
  · rw [here, onConn_self, dims.sent]
  · rw [onConn_other f here]

theorem dims_lost {j : ℕ} (lost : (sh.conns j).live = false) :
    ((sh.onConn k f).conns j).live = false := by
  by_cases here : j = k
  · subst here
    rw [onConn_self]
    by_contra live
    exact absurd (dims.live _ (by simpa using live)) (by simp [lost])
  · rwa [onConn_other f here]

theorem dims_repair {j : ℕ} {stage : Repair} (ok : RepairOk sh.epoch sh.conns n j stage) :
    RepairOk sh.epoch (sh.onConn k f).conns n j stage := by
  refine ⟨ok.reached, dims_lost dims ok.lost, ?_, ok.closing⟩
  intro drained here
  have short := ok.drained drained here
  rwa [← dims_sent dims (k := k) sh.epoch] at short

theorem dims_unsent {id : ℕ} (unsent : Unsent sh id) : Unsent (sh.onConn k f) id := by
  intro j
  rw [dims_sent dims j]
  exact unsent j

theorem dims_sender (ok : SenderOk sh n own sender) : SenderOk (sh.onConn k f) n own sender := by
  cases sender with
  | top => exact ok
  | current => exact ok
  | append j => exact ok
  | send j id =>
    obtain ⟨reached, fresh, unsent, held⟩ := ok
    refine ⟨reached, fresh, dims_unsent dims unsent, ?_⟩
    rcases held with ⟨none_left, lost⟩ | held
    · exact .inl ⟨none_left, dims_lost dims lost⟩
    · exact .inr held
  | repair j stage =>
    refine ⟨dims_repair dims ok.1, ?_⟩
    rcases ok.2 with none_left | ⟨early, id, held, unsent⟩
    · exact .inl none_left
    · exact .inr ⟨early, id, held, dims_unsent dims unsent⟩
  | finishing => exact ok
  | finished => exact ok
  | crashed => exact ok

theorem dims_lined {receiver' : Receiver} (lined : Lined depth sh sender receiver n own)
    (reached : k ≤ sh.epoch) (same : taken (sh.onConn k f) receiver' = taken sh receiver)
    (ok : ReceiverOk (sh.onConn k f) n receiver') :
    Lined depth (sh.onConn k f) sender receiver' n own := by
  have now : (sh.onConn k f).now.sent = sh.now.sent := dims_sent dims sh.epoch
  refine ⟨?_, ?_, ?_, ?_, ?_, ?_, ?_, ?_, ?_, dims_sender dims lined.sender, ok⟩
  · intro j beyond
    have later : sh.epoch < j := beyond
    rw [onConn_other f (by omega)]
    exact lined.unused j beyond
  · intro j id
    rw [dims_sent dims j]
    exact lined.ids j id
  · rw [now]
    exact lined.distinct
  · intro j earlier
    exact dims_lost dims (lined.old j earlier)
  · rw [now]
    exact lined.queue
  · rw [now]
    exact lined.within
  · rw [same]
    exact lined.behind
  · intro live
    rw [same]
    apply lined.matched
    by_contra lost
    have still : (sh.onConn k f).now.live = false := dims_lost dims (Bool.eq_false_iff.mpr lost)
    rw [still] at live
    cases live
  · rw [now, same]
    exact lined.window

end Dims

variable (reads : ∀ c, (f c).read = c.read)
include reads

theorem reads_same (j : ℕ) : ((sh.onConn k f).conns j).read = (sh.conns j).read := by
  by_cases here : j = k
  · rw [here, onConn_self, reads]
  · rw [onConn_other f here]

theorem reads_taken (receiver : Receiver) : taken (sh.onConn k f) receiver = taken sh receiver := by
  have epoch : (sh.onConn k f).epoch = sh.epoch := rfl
  have read : (sh.onConn k f).now.read = sh.now.read := reads_same reads sh.epoch
  simp only [taken, epoch, read]

include dims

theorem dims_receiver (ok : ReceiverOk sh n receiver) : ReceiverOk (sh.onConn k f) n receiver := by
  cases receiver with
  | ended j => exact ⟨ok.1, dims_lost dims ok.2⟩
  | test j reply => exact ⟨ok.1, ok.2.trans (reads_same reads j).symm⟩
  | popleft j reply => exact ⟨ok.1, ok.2.trans (reads_same reads j).symm⟩
  | repair j stage => exact dims_repair dims ok
  | _ => exact ok

theorem dimmed_lined (lined : Lined depth sh sender receiver n own) (reached : k ≤ sh.epoch) :
    Lined depth (sh.onConn k f) sender receiver n own :=
  dims_lined dims lined reached (reads_taken reads receiver)
    (dims_receiver dims reads lined.receiver)

end Dimmed

section Popped
variable {depth n : ℕ} {sh : Shared} {sender : Sender} {receiver : Receiver} {own : List Entry}

theorem SenderOk.own_short (ok : SenderOk sh n own sender) : own = [] ∨ ∃ e, own = [e] := by
  cases sender with
  | append k => exact .inl ok.2
  | send k id =>
    rcases ok.2.2.2 with ⟨none_left, -⟩ | held
    · exact .inl none_left
    · exact .inr ⟨_, held⟩
  | repair k stage =>
    rcases ok.2 with none_left | ⟨-, id, held, -⟩
    · exact .inl none_left
    · exact .inr ⟨_, held⟩
  | crashed => exact ok.elim
  | _ => exact .inl ok

theorem Lined.first (lined : Lined depth sh sender receiver n own) {e : Entry}
    {rest : List Entry} (entries : sh.submits = e :: rest) :
    (e.1 = sh.epoch ∧ sh.now.sent[n]? = some e.2 ∧
      rest = (sh.now.sent.drop (n + 1)).map (Prod.mk sh.epoch) ++ own) ∨
    (sh.now.sent.length ≤ n ∧ own = [e] ∧ rest = []) := by
  have queue := entries.symm.trans lined.queue
  cases waiting : sh.now.sent.drop n with
  | nil =>
    right
    rw [waiting, List.map_nil, List.nil_append] at queue
    refine ⟨List.drop_eq_nil_iff.mp waiting, ?_⟩
    rcases lined.sender.own_short with none_left | ⟨e', held⟩
    · rw [none_left] at queue
      cases queue
    · rw [held] at queue ⊢
      cases queue
      exact ⟨rfl, rfl⟩
  | cons id later =>
    left
    rw [waiting, List.map_cons, List.cons_append, List.cons.injEq] at queue
    have here : sh.now.sent[n]? = some id := by
      rw [← List.head?_drop, waiting, List.head?_cons]
    have behind : sh.now.sent.drop (n + 1) = later := by
      rw [← List.tail_drop, waiting, List.tail_cons]
    rw [behind, queue.1]
    exact ⟨rfl, here, queue.2⟩

theorem RepairOk.later {k m : ℕ} {stage : Repair} (ok : RepairOk sh.epoch sh.conns n k stage)
    (more : n ≤ m) : RepairOk sh.epoch sh.conns m k stage :=
  ⟨ok.reached, ok.lost, fun drained here => (ok.drained drained here).trans more, ok.closing⟩

theorem SenderOk.later {m : ℕ} (ok : SenderOk sh n own sender) (more : n ≤ m) :
    SenderOk sh m own sender := by
  cases sender with
  | repair k stage => exact ⟨ok.1.later more, ok.2⟩
  | _ => exact ok

theorem ReceiverOk.later {m : ℕ} (ok : ReceiverOk sh n receiver) (more : n ≤ m) :
    ReceiverOk sh m receiver := by
  cases receiver with
  | repair k stage => exact RepairOk.later ok more
  | _ => exact ok

/-- Somebody has thrown away the entry that the sender would still send for. -/
theorem SenderOk.popped {e : Entry} (ok : SenderOk sh n [e] sender)
    (lost : (sh.conns e.1).live = false) : SenderOk sh n [] sender := by
  cases sender with
  | append k => exact absurd ok.2 (by simp)
  | send k id =>
    obtain ⟨reached, fresh, unsent, held⟩ := ok
    rcases held with ⟨none_left, -⟩ | held
    · cases none_left
    · cases held
      exact ⟨reached, fresh, unsent, .inl ⟨rfl, lost⟩⟩
  | repair k stage => exact ⟨ok.1, .inl rfl⟩
  | crashed => exact ok
  | _ => cases ok

theorem Lined.drop (lined : Lined depth sh sender receiver n own) {e : Entry} {rest : List Entry}
    (entries : sh.submits = e :: rest) (lost : (sh.conns e.1).live = false) : ∃ m own',
    n ≤ m ∧ m ≤ sh.now.sent.length ∧
      rest = (sh.now.sent.drop m).map (Prod.mk sh.epoch) ++ own' ∧
      (sh.now.live = true → m = n) ∧ SenderOk sh m own' sender := by
  rcases lined.first entries with ⟨here, found, after⟩ | ⟨-, held, after⟩
  · have inside := (List.getElem?_eq_some_iff.mp found).1
    refine ⟨n + 1, own, Nat.le_succ n, inside, after, ?_, lined.sender.later (Nat.le_succ n)⟩
    intro live
    rw [here] at lost
    simp [Shared.now, lost] at live
  · have short := lined.queue
    rw [entries, held] at short
    have none_waiting : (sh.now.sent.drop n).map (Prod.mk sh.epoch) = [] := by
      rw [after] at short
      simpa using short
    refine ⟨n, [], Nat.le_refl n, lined.within, ?_, fun _ => rfl, ?_⟩
    · rw [none_waiting, after]
      rfl
    · have ok := lined.sender
      rw [held] at ok
      exact ok.popped lost

end Popped

section Published
variable {depth n : ℕ} {sh : Shared} {sender sender' : Sender} {receiver receiver' : Receiver}
  {own : List Entry}

def Shared.publish (sh : Shared) : Shared := { sh with epoch := sh.epoch + 1 }

theorem RepairOk.published {k : ℕ} {stage : Repair} (ok : RepairOk sh.epoch sh.conns n k stage) :
    RepairOk (sh.epoch + 1) sh.conns 0 k stage := by
  refine ⟨Nat.le_succ_of_le ok.reached, ok.lost, ?_, ?_⟩
  · intro _ here
    have reached := ok.reached
    omega
  · intro old at_old
    exact Nat.lt_succ_of_lt (ok.closing old at_old)

theorem SenderOk.published (ok : SenderOk sh n own sender) : SenderOk sh.publish 0 own sender := by
  cases sender with
  | append k => exact ⟨Nat.le_succ_of_le ok.1, ok.2⟩
  | send k id => exact ⟨Nat.le_succ_of_le ok.1, ok.2⟩
  | repair k stage => exact ⟨ok.1.published, ok.2⟩
  | _ => exact ok

theorem ReceiverOk.published (ok : ReceiverOk sh n receiver) :
    ReceiverOk sh.publish 0 receiver := by
  cases receiver with
  | header k => exact Nat.le_succ_of_le ok
  | body k => exact Nat.le_succ_of_le ok
  | ended k => exact ⟨Nat.le_succ_of_le ok.1, ok.2⟩
  | test k reply => exact ⟨Nat.le_succ_of_le ok.1, ok.2⟩
  | popleft k reply => exact ⟨Nat.le_succ_of_le ok.1, ok.2⟩
  | repair k stage => exact RepairOk.published ok
  | _ => exact ok

theorem ReceiverOk.answering_reached (ok : ReceiverOk sh n receiver) {k reply : ℕ}
    (answering : receiver.answering = some (k, reply)) : k ≤ sh.epoch := by
  cases receiver <;> cases answering <;> exact ok.1

theorem Lined.publish (lined : Lined depth sh sender receiver n own)
    (lost : sh.now.live = false) (drained : sh.now.sent.length ≤ n) :
    Lined depth sh.publish sender receiver 0 own := by
  have fresh : sh.publish.now = {} := lined.unused (sh.epoch + 1) (Nat.lt_succ_self _)
  have nothing : taken sh.publish receiver = 0 := by
    simp only [taken, fresh]
    cases here : receiver.answering with
    | none => rfl
    | some answer =>
      have reached := lined.receiver.answering_reached here
      have other : answer.1 ≠ sh.publish.epoch := by
        simp only [Shared.publish]
        omega
      simp [other]
  have queue := lined.queue
  rw [List.drop_eq_nil_of_le drained, List.map_nil, List.nil_append] at queue
  refine ⟨?_, lined.ids, ?_, ?_, ?_, Nat.zero_le _, ?_, ?_, ?_, lined.sender.published,
    lined.receiver.published⟩
  · intro k beyond
    exact lined.unused k (Nat.lt_of_succ_lt beyond)
  · simp [fresh]
  · intro k earlier
    rcases Nat.lt_succ_iff_lt_or_eq.mp earlier with before | rfl
    · exact lined.old k before
    · exact lost
  · simp only [fresh, List.drop_nil, List.map_nil, List.nil_append]
    exact queue
  · rw [nothing]
  · intro _
    rw [nothing]
  · simp [fresh]

end Published

section Repairs
variable {depth n : ℕ} {sh sh' : Shared} {sender : Sender} {receiver : Receiver}
  {own : List Entry} {enabled : Bool} {o : Outcome} {k : ℕ} {stage : Repair} {p : Progress}

theorem SenderOk.own_drained (ok : SenderOk sh n own (.repair k stage))
    (drained : stage.drained = true) : own = [] := by
  rcases ok.2 with none_left | ⟨early, -⟩
  · exact none_left
  · rw [drained] at early
    cases early

theorem RepairOk.early (ok : RepairOk sh.epoch sh.conns n k stage) {stage' : Repair}
    (early : stage'.drained = false) : RepairOk sh.epoch sh.conns n k stage' := by
  refine ⟨ok.reached, ok.lost, ?_, ?_⟩
  · intro drained
    rw [early] at drained
    cases drained
  · rintro old rfl
    cases early

theorem Lined.drained_of_empty (lined : Lined depth sh sender receiver n own)
    (empty : sh.submits = []) : sh.now.sent.length ≤ n ∧ own = [] := by
  have queue := empty.symm.trans lined.queue
  have parts := List.append_eq_nil_iff.mp queue.symm
  exact ⟨List.drop_eq_nil_iff.mp (List.map_eq_nil_iff.mp parts.1), parts.2⟩

theorem head_of_orderly (orderly : RepairOrderly sh k o .popleft) :
    ∃ e rest, sh.submits = e :: rest ∧ e.1 = k := by
  cases entries : sh.submits with
  | nil => simp [RepairOrderly, entries] at orderly
  | cons e rest =>
    refine ⟨e, rest, rfl, ?_⟩
    simpa [RepairOrderly, entries] using orderly

def Progress.hand : Progress → ℕ
  | .more stage => stage.hand
  | _ => 0

def Progress.drained : Progress → Bool
  | .more stage => stage.drained
  | _ => true

def ProgressOk (sh : Shared) (n k : ℕ) : Progress → Prop
  | .more stage => RepairOk sh.epoch sh.conns n k stage
  | .done _ => True
  | .raised => False

structure Repaired (depth : ℕ) (sh sh' : Shared) (sender : Sender) (receiver : Receiver)
    (k : ℕ) (stage : Repair) (p : Progress) (n : ℕ) (own : List Entry) : Prop where
  lined : Lined depth sh' sender receiver n own
  balance : sh'.permits + sh'.submits.length + p.hand =
    sh.permits + sh.submits.length + stage.hand
  ok : ProgressOk sh' n k p
  drained : p.drained = true → stage.drained = true ∨ own = []

theorem repair_kept (lined : Lined depth sh sender receiver n own)
    (ok : RepairOk sh.epoch sh.conns n k stage)
    (repaired : repair enabled sh k o stage = some (sh', p))
    (orderly : RepairOrderly sh k o stage) :
    ∃ n' own', Repaired depth sh sh' sender receiver k stage p n' own' := by
  cases stage with
  | test =>
    simp only [repair, Option.some.injEq, Prod.mk.injEq] at repaired
    obtain ⟨rfl, rfl⟩ := repaired
    refine ⟨n, own, ?_⟩
    split
    · rename_i empty
      obtain ⟨drained, none_left⟩ := lined.drained_of_empty empty
      refine ⟨lined, rfl, ?_, fun _ => .inr none_left⟩
      exact ⟨ok.reached, ok.lost, fun _ _ => drained, nofun⟩
    · exact ⟨lined, rfl, ok.early rfl, nofun⟩
  | popleft =>
    obtain ⟨e, rest, entries, rfl⟩ := head_of_orderly orderly
    simp only [repair, entries, Option.some.injEq, Prod.mk.injEq] at repaired
    obtain ⟨rfl, rfl⟩ := repaired
    obtain ⟨m, own', more, inside, after, matched, ok'⟩ := lined.drop entries ok.lost
    refine ⟨m, own', { lined with
      queue := after
      within := inside
      behind := lined.behind.trans more
      matched := fun live => (matched live).trans (lined.matched live)
      sender := ok'
      receiver := lined.receiver.later more }, ?_, (ok.later more).early rfl, nofun⟩
    simp only [entries, List.length_cons, Progress.hand, Repair.hand]
    omega
  | release =>
    simp only [repair, Option.some.injEq, Prod.mk.injEq] at repaired
    obtain ⟨rfl, rfl⟩ := repaired
    refine ⟨n, own, { lined with }, ?_, ok.early rfl, nofun⟩
    simp only [Progress.hand, Repair.hand]
    omega
  | compare =>
    refine ⟨n, own, ?_⟩
    simp only [repair] at repaired
    split at repaired
    · cases repaired
      exact ⟨lined, rfl, trivial, fun _ => .inl rfl⟩
    · cases repaired
      split
      · exact ⟨lined, rfl, trivial, fun _ => .inl rfl⟩
      · refine ⟨lined, rfl, ?_, fun _ => .inl rfl⟩
        exact ⟨ok.reached, ok.lost, ok.drained, nofun⟩
  | connecting =>
    simp only [repair] at repaired
    split at repaired
    · cases repaired
      exact ⟨n, own, lined, rfl, trivial, fun _ => .inl rfl⟩
    · rename_i going
      cases o with
      | ok =>
        cases repaired
        have here : sh.epoch = k := orderly rfl (Bool.eq_false_iff.mpr going)
        subst here
        have published := ok.published
        refine ⟨0, own, lined.publish ok.lost (ok.drained rfl rfl), rfl, ?_, fun _ => .inl rfl⟩
        refine ⟨published.reached, published.lost, published.drained, ?_⟩
        intro old closing
        cases closing
        exact Nat.lt_succ_self _
      | fail =>
        cases repaired
        exact ⟨n, own, lined, rfl, ok, fun _ => .inl rfl⟩
      | empty => cases repaired
  | closing old =>
    simp only [repair, Option.some.injEq, Prod.mk.injEq] at repaired
    obtain ⟨rfl, rfl⟩ := repaired
    have closed := dimmed_lined close_dims (fun _ => rfl) lined (Nat.le_of_lt (ok.closing old rfl))
    exact ⟨n, own, closed, rfl, trivial, fun _ => .inl rfl⟩

theorem sender_repair_kept (kept : Kept depth sh (.repair k stage) receiver)
    (repaired : repair enabled sh k o stage = some (sh', p))
    (orderly : RepairOrderly sh k o stage) : Kept depth sh' (senderAfter k p) receiver := by
  obtain ⟨balance, n, own, lined⟩ := kept
  obtain ⟨n, own, after⟩ := repair_kept lined lined.sender.1 repaired orderly
  have ok := after.lined.sender
  have done_own : p.drained = true → own = [] := by
    intro drained
    rcases after.drained drained with before | none_left
    · exact ok.own_drained before
    · exact none_left
  have hand : (senderAfter k p).hand = p.hand := by cases p <;> rfl
  refine ⟨?_, n, own, { after.lined with sender := ?_ }⟩
  · have moved := after.balance
    have before : sh.permits + sh.submits.length + stage.hand + receiver.hand = depth := balance
    rw [Balanced, hand]
    omega
  · cases p with
    | done reconnected => exact done_own rfl
    | raised => exact after.ok.elim
    | more stage' =>
      refine ⟨after.ok, ?_⟩
      cases drained : stage'.drained with
      | true => exact .inl (done_own drained)
      | false =>
        rcases ok.2 with none_left | ⟨-, held⟩
        · exact .inl none_left
        · exact .inr ⟨rfl, held⟩

theorem receiver_repair_kept (kept : Kept depth sh sender (.repair k stage))
    (repaired : repair enabled sh k o stage = some (sh', p))
    (orderly : RepairOrderly sh k o stage) : Kept depth sh' sender (receiverAfter k p) := by
  obtain ⟨balance, n, own, lined⟩ := kept
  obtain ⟨n, own, after⟩ := repair_kept lined lined.receiver repaired orderly
  have moved := after.balance
  cases p with
  | raised => exact after.ok.elim
  | more stage' =>
    refine ⟨?_, n, own, { after.lined with receiver := after.ok }⟩
    simp only [Balanced, Receiver.hand, receiverAfter, Progress.hand] at balance moved ⊢
    omega
  | done reconnected =>
    have settled : sh'.permits + sh'.submits.length + sender.hand = depth := by
      simp only [Balanced, Receiver.hand, Progress.hand] at balance moved
      omega
    cases reconnected with
    | true => exact ⟨settled, n, own, { after.lined with receiver := trivial }⟩
    | false => exact ⟨settled, n, own, { after.lined with receiver := trivial }⟩

end Repairs

section Steps
variable {depth n : ℕ} {sh sh' : Shared} {sender sender' : Sender} {receiver receiver' : Receiver}
  {own : List Entry} {enabled : Bool} {o : Outcome} {k : ℕ}

theorem append_kept (kept : Kept depth sh (.append k) receiver) :
    Kept depth { sh with submits := sh.submits ++ [(k, sh.nextId)], nextId := sh.nextId + 1 }
      (.send k sh.nextId) receiver := by
  obtain ⟨balance, n, own, lined⟩ := kept
  obtain ⟨reached, none_left⟩ := lined.sender
  subst none_left
  have unsent : Unsent sh sh.nextId := fun j member => absurd (lined.ids j _ member) (lt_irrefl _)
  refine ⟨?_, n, [(k, sh.nextId)], { lined with
    ids := fun j id member => Nat.lt_succ_of_lt (lined.ids j id member)
    queue := by rw [lined.queue, List.append_nil]
    sender := ⟨reached, Nat.lt_succ_self _, unsent, .inr rfl⟩ }⟩
  simp only [Balanced, Sender.hand, List.length_append, List.length_singleton] at balance ⊢
  omega

theorem receiver_pushed {id : ℕ} (ok : ReceiverOk sh n receiver) (live : sh.now.live = true) :
    ReceiverOk (sh.onConn sh.epoch (Conn.push id)) n receiver := by
  have reads : ∀ j, ((sh.onConn sh.epoch (Conn.push id)).conns j).read = (sh.conns j).read :=
    reads_same (f := Conn.push id) fun _ => rfl
  have lost_other : ∀ j, (sh.conns j).live = false → j ≠ sh.epoch := by
    rintro j lost rfl
    rw [lost] at live
    cases live
  cases receiver with
  | ended j =>
    rw [ReceiverOk, onConn_other _ (lost_other j ok.2)]
    exact ok
  | test j reply => exact ⟨ok.1, ok.2.trans (reads j).symm⟩
  | popleft j reply => exact ⟨ok.1, ok.2.trans (reads j).symm⟩
  | repair j stage =>
    have other := lost_other j ok.lost
    refine ⟨ok.reached, ?_, fun _ here => absurd here other, ok.closing⟩
    rw [onConn_other _ other]
    exact ok.lost
  | _ => exact ok

theorem sent_kept {id : ℕ} (kept : Kept depth sh (.send k id) receiver)
    (live : (sh.conns k).live = true) :
    Kept depth (sh.onConn k (Conn.push id)) .top receiver := by
  obtain ⟨balance, n, own, lined⟩ := kept
  obtain ⟨reached, fresh, unsent, held⟩ := lined.sender
  have here : k = sh.epoch := by
    by_contra other
    have lost := lined.old k (by omega)
    rw [lost] at live
    cases live
  subst here
  have mine : own = [(sh.epoch, id)] := by
    rcases held with ⟨-, lost⟩ | held
    · rw [lost] at live
      cases live
    · exact held
  subst mine
  have now : (sh.onConn sh.epoch (Conn.push id)).now.sent = sh.now.sent ++ [id] :=
    congrArg Conn.sent (onConn_self sh.epoch (Conn.push id))
  have others : ∀ j, j ≠ sh.epoch → (sh.onConn sh.epoch (Conn.push id)).conns j = sh.conns j :=
    fun j other => onConn_other _ other
  have same : taken (sh.onConn sh.epoch (Conn.push id)) receiver = taken sh receiver :=
    reads_taken (f := Conn.push id) (fun _ => rfl) receiver
  have matched := lined.matched live
  refine ⟨balance, n, [], ?_, ?_, ?_, ?_, ?_, ?_, ?_, ?_, ?_, rfl, ?_⟩
  · intro j beyond
    rw [others j (Nat.ne_of_gt beyond)]
    exact lined.unused j beyond
  · intro j other member
    by_cases at_now : j = sh.epoch
    · subst at_now
      rw [onConn_self, Conn.push, List.mem_append, List.mem_singleton] at member
      rcases member with member | rfl
      · exact lined.ids _ _ member
      · exact fresh
    · rw [others j at_now] at member
      exact lined.ids j other member
  · rw [now]
    exact List.nodup_append_comm.mp (List.nodup_cons.mpr ⟨unsent sh.epoch, lined.distinct⟩)
  · intro j earlier
    rw [others j (Nat.ne_of_lt earlier)]
    exact lined.old j earlier
  · rw [now, List.drop_append_of_le_length lined.within, List.map_append, List.append_nil]
    exact lined.queue
  · rw [now, List.length_append]
    exact Nat.le_add_right_of_le lined.within
  · rw [same]
    exact lined.behind
  · intro _
    rw [same]
    exact matched
  · rw [now, same, List.length_append, List.length_singleton]
    have queue := congrArg List.length lined.queue
    simp only [List.length_append, List.length_map, List.length_drop, List.length_singleton] at queue
    simp only [Balanced, Sender.hand] at balance
    omega
  · exact receiver_pushed lined.receiver live

theorem sender_kept (kept : Kept depth sh sender receiver)
    (stepped : stepSender enabled sh o sender = some (sh', sender'))
    (orderly : SenderOrderly sh o sender) : Kept depth sh' sender' receiver := by
  cases sender with
  | append k =>
    cases stepped
    exact append_kept kept
  | send k id =>
    simp only [stepSender] at stepped
    split at stepped
    · rename_i live
      cases stepped
      exact sent_kept kept live
    · rename_i lost
      cases stepped
      obtain ⟨balance, n, own, lined⟩ := kept
      obtain ⟨reached, -, unsent, held⟩ := lined.sender
      refine ⟨balance, n, own, { lined with sender := ⟨?_, ?_⟩ }⟩
      · exact ⟨reached, Bool.eq_false_iff.mpr lost, nofun, nofun⟩
      · rcases held with ⟨none_left, -⟩ | held
        · exact .inl none_left
        · exact .inr ⟨rfl, id, held, unsent⟩
  | repair k stage =>
    simp only [stepSender, Option.map_eq_some_iff, Prod.mk.injEq, Prod.exists] at stepped
    obtain ⟨shared, p, repaired, rfl, rfl⟩ := stepped
    exact sender_repair_kept kept repaired orderly
  | top =>
    obtain ⟨balance, n, own, lined⟩ := kept
    cases o with
    | ok =>
      simp only [stepSender] at stepped
      split at stepped
      · cases stepped
        refine ⟨?_, n, own, { lined with sender := lined.sender }⟩
        simp only [Balanced, Sender.hand] at balance ⊢
        omega
      · cases stepped
    | fail =>
      cases stepped
      exact ⟨balance, n, own, { lined with sender := lined.sender }⟩
    | empty => cases stepped
  | current =>
    cases stepped
    obtain ⟨balance, n, own, lined⟩ := kept
    exact ⟨balance, n, own, { lined with sender := ⟨Nat.le_refl _, lined.sender⟩ }⟩
  | finishing =>
    cases stepped
    obtain ⟨balance, n, own, lined⟩ := kept
    have closed := dimmed_lined close_dims (fun _ => rfl) lined (Nat.le_refl sh.epoch)
    exact ⟨balance, n, own, { closed with sender := lined.sender }⟩
  | finished => cases stepped
  | crashed => cases stepped

theorem reply_kept (kept : Kept depth sh sender receiver) (idle : receiver.hand = 0)
    (reading : receiver.answering = none) (reached : k ≤ sh.epoch) :
    Kept depth (sh.onConn k Conn.readReply) sender (.test k (sh.conns k).read) := by
  obtain ⟨balance, n, own, lined⟩ := kept
  have before : taken sh receiver = sh.now.read := by simp only [taken, reading]
  have same : taken (sh.onConn k Conn.readReply) (.test k (sh.conns k).read) =
      taken sh receiver := by
    rw [before]
    by_cases here : k = sh.epoch
    · subst here
      exact if_pos rfl
    · refine (if_neg here).trans ?_
      exact congrArg Conn.read (onConn_other _ (Ne.symm here))
  have read : ((sh.onConn k Conn.readReply).conns k).read = (sh.conns k).read + 1 :=
    congrArg Conn.read (onConn_self k _)
  refine ⟨?_, n, own, dims_lined readReply_dims lined reached same ⟨reached, read.symm⟩⟩
  rw [Balanced, idle] at balance
  exact balance

theorem SenderOk.own_unsent {e : Entry} (ok : SenderOk sh n [e] sender) : Unsent sh e.2 := by
  cases sender with
  | append k => exact absurd ok.2 (by simp)
  | send k id =>
    obtain ⟨-, -, unsent, held⟩ := ok
    rcases held with ⟨none_left, -⟩ | held
    · cases none_left
    · cases held
      exact unsent
  | repair k stage =>
    rcases ok.2 with none_left | ⟨-, id, held, unsent⟩
    · cases none_left
    · cases held
      exact unsent
  | crashed => exact ok.elim
  | _ => cases ok

theorem answered_kept {reply : ℕ} {e : Entry} {rest : List Entry}
    (kept : Kept depth sh sender (.popleft k reply)) (entries : sh.submits = e :: rest)
    (orderly : ReplyOrderly sh k reply) :
    Kept depth { sh with submits := rest } sender .release := by
  obtain ⟨balance, n, own, lined⟩ := kept
  obtain ⟨reached, read⟩ := lined.receiver
  have first := orderly.2
  rw [entries, List.head?_cons] at first
  obtain ⟨id, answers, rfl⟩ := Option.map_eq_some_iff.mp first.symm
  have sent : id ∈ (sh.conns k).sent := List.mem_of_getElem? answers
  rcases lined.first entries with ⟨here, found, after⟩ | ⟨-, held, -⟩
  · have at_now : k = sh.epoch := here
    subst at_now
    have inside := (List.getElem?_eq_some_iff.mp found).1
    have index : n = reply :=
      (List.getElem?_inj inside lined.distinct).mp (found.trans answers.symm)
    have before : taken sh (.popleft sh.epoch reply) = reply := if_pos rfl
    have now : taken { sh with submits := rest } .release = reply + 1 := read.symm
    subst index
    refine ⟨?_, n + 1, own, { lined with
      queue := after
      within := inside
      behind := le_of_eq now
      matched := fun _ => now.symm
      window := ?_
      sender := lined.sender.later (Nat.le_succ n)
      receiver := trivial }⟩
    · simp only [Balanced, entries, List.length_cons, Receiver.hand] at balance ⊢
      omega
    · have window := lined.window
      rw [before] at window
      rw [now]
      have same : ({ sh with submits := rest } : Shared).now.sent = sh.now.sent := rfl
      rw [same]
      omega
  · have ok := lined.sender
    rw [held] at ok
    exact absurd sent (ok.own_unsent k)

theorem ended_lost {c : Conn} (ended : c.ended = true) : c.live = false := by
  simp only [Conn.ended, Bool.or_eq_true, Bool.and_eq_true] at ended
  rcases ended with closed | ⟨hungUp, -⟩
  · simp [Conn.live, closed]
  · simp [Conn.live, hungUp]

theorem receiver_ok (kept : Kept depth sh sender receiver) : ∃ n, ReceiverOk sh n receiver := by
  obtain ⟨-, n, own, lined⟩ := kept
  exact ⟨n, lined.receiver⟩

theorem receiver_moves {receiver' : Receiver} (kept : Kept depth sh sender receiver)
    (hand : receiver'.hand = receiver.hand) (answering : receiver'.answering = receiver.answering)
    (ok : ∀ n, ReceiverOk sh n receiver → ReceiverOk sh n receiver') :
    Kept depth sh sender receiver' := by
  obtain ⟨balance, n, own, lined⟩ := kept
  have same : taken sh receiver' = taken sh receiver := by
    simp only [taken, answering]
  refine ⟨?_, n, own, { lined with
    behind := ?_
    matched := ?_
    window := ?_
    receiver := ok n lined.receiver }⟩
  · rw [Balanced, hand]
    exact balance
  · rw [same]
    exact lined.behind
  · rw [same]
    exact lined.matched
  · rw [same]
    exact lined.window

theorem receiver_kept (kept : Kept depth sh sender receiver)
    (stepped : stepReceiver enabled sh o receiver = some (sh', receiver'))
    (orderly : ReceiverOrderly sh o receiver) : Kept depth sh' sender receiver' := by
  cases receiver with
  | top =>
    cases stepped
    split
    · exact receiver_moves kept rfl rfl fun _ _ => trivial
    · exact receiver_moves kept rfl rfl fun _ _ => trivial
  | current =>
    cases stepped
    exact receiver_moves kept rfl rfl fun _ _ => Nat.le_refl _
  | header k =>
    cases o with
    | ok =>
      simp only [stepReceiver] at stepped
      split at stepped
      · cases stepped
        exact receiver_moves kept rfl rfl fun _ reached => reached
      · cases stepped
    | empty =>
      simp only [stepReceiver] at stepped
      split at stepped
      · cases stepped
        obtain ⟨_, reached⟩ := receiver_ok kept
        exact reply_kept kept rfl rfl reached
      · cases stepped
    | fail =>
      simp only [stepReceiver] at stepped
      split at stepped
      · rename_i ended
        cases stepped
        exact receiver_moves kept rfl rfl fun _ reached => ⟨reached, ended_lost ended⟩
      · cases stepped
  | ended k =>
    cases stepped
    split
    · exact receiver_moves kept rfl rfl fun _ _ => trivial
    · exact receiver_moves kept rfl rfl fun _ lost => ⟨lost.1, lost.2, nofun, nofun⟩
  | body k =>
    cases o with
    | ok =>
      simp only [stepReceiver] at stepped
      split at stepped
      · cases stepped
        obtain ⟨_, reached⟩ := receiver_ok kept
        exact reply_kept kept rfl rfl reached
      · cases stepped
    | fail =>
      simp only [stepReceiver] at stepped
      split at stepped
      · rename_i ended
        cases stepped
        exact receiver_moves kept rfl rfl fun _ reached =>
          ⟨reached, ended_lost ended, nofun, nofun⟩
      · cases stepped
    | empty => cases stepped
  | test k reply =>
    cases stepped
    rw [if_neg (show sh.submits ≠ [] from orderly.1)]
    exact receiver_moves kept rfl rfl fun _ answering => answering
  | popleft k reply =>
    cases entries : sh.submits with
    | nil => exact absurd entries orderly.1
    | cons e rest =>
      simp only [stepReceiver, entries, Option.some.injEq, Prod.mk.injEq] at stepped
      obtain ⟨rfl, rfl⟩ := stepped
      exact answered_kept kept entries orderly
  | release =>
    cases stepped
    obtain ⟨balance, n, own, lined⟩ := kept
    refine ⟨?_, n, own, { lined with receiver := trivial }⟩
    simp only [Balanced, Receiver.hand] at balance ⊢
    omega
  | repair k stage =>
    simp only [stepReceiver, Option.map_eq_some_iff, Prod.mk.injEq, Prod.exists] at stepped
    obtain ⟨shared, p, repaired, rfl, rfl⟩ := stepped
    exact receiver_repair_kept kept repaired orderly
  | returned => cases stepped
  | crashed => cases stepped

end Steps

section Runs
variable {depth : ℕ} {enabled : Bool} {s t : State} {e : Event}

theorem step_kept (kept : Kept depth s.shared s.sender s.receiver) (orderly : Orderly s e)
    (step : ClientStep enabled s e t) : Kept depth t.shared t.sender t.receiver := by
  cases e with
  | sender o =>
    simp only [Fires, next, Option.map_eq_some_iff, Prod.exists] at step
    obtain ⟨shared, sender, stepped, rfl⟩ := step
    exact sender_kept kept stepped orderly
  | receiver o =>
    simp only [Fires, next, Option.map_eq_some_iff, Prod.exists] at step
    obtain ⟨shared, receiver, stepped, rfl⟩ := step
    exact receiver_kept kept stepped orderly
  | answer k =>
    obtain ⟨balance, n, own, lined⟩ := kept
    simp only [Fires, next] at step
    split at step
    · rename_i open_
      cases step
      have reached : k ≤ s.shared.epoch := by
        by_contra beyond
        simp [lined.unused k (by omega)] at open_
      exact ⟨balance, n, own, dimmed_lined answer_dims (fun _ => rfl) lined reached⟩
    · cases step
  | hangUp k =>
    obtain ⟨balance, n, own, lined⟩ := kept
    simp only [Fires, next] at step
    split at step
    · rename_i reached
      cases step
      exact ⟨balance, n, own, dimmed_lined hangUp_dims (fun _ => rfl) lined reached⟩
    · cases step

theorem start_kept (depth : ℕ) : Kept depth (State.start depth).shared .top .top :=
  ⟨rfl, 0, [], fun _ _ => rfl, nofun, List.nodup_nil, nofun, rfl, Nat.zero_le _, Nat.le_refl 0,
    fun _ => rfl, Nat.zero_le _, rfl, trivial⟩

def AtRest (s : State) : Prop :=
  (s.sender = .top ∨ s.sender = .finished) ∧
    (s.receiver = .top ∨ s.receiver = .current ∨ (∃ k, s.receiver = .header k) ∨
      s.receiver = .returned)

def outstanding (s : State) : List ℕ := s.shared.now.sent.drop s.shared.now.read

structure Conserved (depth : ℕ) (s : State) : Prop where
  permits : s.shared.permits + s.shared.submits.length = depth
  distinct : s.shared.submits.Nodup
  stands : ∀ e ∈ s.shared.submits, e.1 = s.shared.epoch ∧ e.2 ∈ outstanding s
  bounded : (outstanding s).length ≤ depth
  /-- as long as the connection is not lost, every outstanding request has its entry -/
  all : s.shared.now.live = true → s.shared.submits.map Prod.snd = outstanding s

theorem kept_conserved (kept : Kept depth s.shared s.sender s.receiver) (rest : AtRest s) :
    Conserved depth s := by
  obtain ⟨balance, n, own, lined⟩ := kept
  have no_hand : s.sender.hand = 0 ∧ own = [] := by
    have ok := lined.sender
    rcases rest.1 with here | here <;> rw [here] at ok ⊢ <;> exact ⟨rfl, ok⟩
  have no_answer : s.receiver.hand = 0 ∧ taken s.shared s.receiver = s.shared.now.read := by
    rcases rest.2 with here | here | ⟨k, here⟩ | here <;> rw [here] <;> exact ⟨rfl, rfl⟩
  have queue := lined.queue
  rw [no_hand.2, List.append_nil] at queue
  have behind := lined.behind
  rw [no_answer.2] at behind
  refine ⟨?_, ?_, ?_, ?_, ?_⟩
  · rw [Balanced, no_hand.1, no_answer.1] at balance
    exact balance
  · rw [queue]
    apply List.Nodup.map
    · intro first second same
      exact (Prod.mk.inj same).2
    · exact lined.distinct.sublist (List.drop_sublist n _)
  · intro e member
    rw [queue, List.mem_map] at member
    obtain ⟨id, waiting, rfl⟩ := member
    refine ⟨rfl, ?_⟩
    have later : n = s.shared.now.read + (n - s.shared.now.read) := by omega
    rw [later, ← List.drop_drop] at waiting
    exact List.mem_of_mem_drop waiting
  · have window := lined.window
    rw [no_answer.2] at window
    rw [outstanding, List.length_drop]
    omega
  · intro live
    have matched := lined.matched live
    rw [no_answer.2] at matched
    rw [queue, outstanding, List.map_map, matched]
    exact List.map_id _

/-- In a run whose replies find their entries and whose repairs touch only what the lost
    connection left, the permits are conserved whenever both threads rest, and no thread
    fails. -/
theorem permits_conserved {labels : List Event}
    (run : Run (Guarded Orderly (ClientStep enabled)) (State.start depth) labels t) :
    (AtRest t → Conserved depth t) ∧ t.sender ≠ .crashed ∧ t.receiver ≠ .crashed := by
  have kept := run_invariant (fun s : State => Kept depth s.shared s.sender s.receiver)
    (fun _ _ _ kept step => step_kept kept step.1 step.2) run (start_kept depth)
  refine ⟨kept_conserved kept, ?_, ?_⟩
  · obtain ⟨-, n, own, lined⟩ := kept
    intro crashed
    have ok := lined.sender
    rw [crashed] at ok
    exact ok
  · obtain ⟨-, n, own, lined⟩ := kept
    intro crashed
    have ok := lined.receiver
    rw [crashed] at ok
    exact ok

end Runs

instance (sh : Shared) (k : ℕ) (o : Outcome) (stage : Repair) :
    Decidable (RepairOrderly sh k o stage) :=
  match stage with
  | .popleft => inferInstanceAs (Decidable (_ = _))
  | .connecting => inferInstanceAs (Decidable (_ → _ → _))
  | .test | .release | .compare | .closing _ => .isTrue trivial

instance (sh : Shared) (k reply : ℕ) : Decidable (ReplyOrderly sh k reply) :=
  inferInstanceAs (Decidable (_ ∧ _))

instance (sh : Shared) (o : Outcome) (sender : Sender) : Decidable (SenderOrderly sh o sender) :=
  match sender with
  | .repair k stage => inferInstanceAs (Decidable (RepairOrderly sh k o stage))
  | .top | .current | .append _ | .send .. | .finishing | .finished | .crashed => .isTrue trivial

instance (sh : Shared) (o : Outcome) (receiver : Receiver) :
    Decidable (ReceiverOrderly sh o receiver) :=
  match receiver with
  | .test k reply | .popleft k reply => inferInstanceAs (Decidable (ReplyOrderly sh k reply))
  | .repair k stage => inferInstanceAs (Decidable (RepairOrderly sh k o stage))
  | .top | .current | .header _ | .ended _ | .body _ | .release | .returned | .crashed =>
    .isTrue trivial

instance (s : State) (e : Event) : Decidable (Orderly s e) :=
  match e with
  | .sender o => inferInstanceAs (Decidable (SenderOrderly s.shared o s.sender))
  | .receiver o => inferInstanceAs (Decidable (ReceiverOrderly s.shared o s.receiver))
  | .answer _ | .hangUp _ => .isTrue trivial

def sends (k : ℕ) : List Event := List.replicate k (.sender .ok)

def receives (k : ℕ) : List Event := List.replicate k (.receiver .ok)

/-- A request is answered; another one is lost, the receiver reconnects, and the sender goes on
    with a third. -/
def reconnects : List Event :=
  sends 4 ++ receives 2 ++ .answer 0 :: .receiver .empty :: receives 3 ++ sends 4 ++
    .hangUp 0 :: receives 2 ++ .receiver .fail :: receives 8 ++ sends 4

theorem reconnects_conserved : ∃ t,
    Run (Guarded Orderly (ClientStep true)) (State.start 2) reconnects t ∧
    t.shared.epoch = 1 ∧ t.shared.submits = [(1, 2)] ∧ Conserved 2 t := by
  obtain ⟨t, run, reached⟩ := guarded_run_reaches Orderly
    (fun t : State => decide (t.shared.epoch = 1 ∧ t.shared.submits = [(1, 2)] ∧
      t.sender = .top ∧ t.receiver = .top))
    (show (exec (guarding Orderly (next true)) (State.start 2) reconnects).any _ = true by
      decide +kernel)
  obtain ⟨epoch, submits, sender, receiver⟩ := of_decide_eq_true reached
  exact ⟨t, run, epoch, submits, (permits_conserved run).1 ⟨.inl sender, .inl receiver⟩⟩

/-- The proxy answers and hangs up; the next send fails and drops both entries, and the
    receiver then reads the answer that was still in the socket. -/
def lateReply : List Event :=
  sends 4 ++ .answer 0 :: .hangUp 0 :: sends 11 ++ receives 2 ++ .receiver .empty :: receives 2 ++
    sends 3

theorem late_reply_adds_permit : ∃ t, Run (ClientStep true) (State.start 2) lateReply t ∧
    AtRest t ∧ t.shared.permits = 3 ∧ ¬ Conserved 2 t := by
  obtain ⟨t, run, reached⟩ := run_reaches
    (fun t : State => decide (t.shared.permits = 3 ∧ t.sender = .top ∧ t.receiver = .top))
    (show (exec (next true) (State.start 2) lateReply).any _ = true by decide +kernel)
  obtain ⟨permits, sender, receiver⟩ := of_decide_eq_true reached
  refine ⟨t, run, ⟨.inl sender, .inl receiver⟩, permits, ?_⟩
  intro conserved
  have sum := conserved.permits
  omega

end Client
