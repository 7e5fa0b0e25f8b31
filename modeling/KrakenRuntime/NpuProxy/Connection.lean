import KrakenRuntime.Lib.Runs
import KrakenRuntime.Lib.Threads
import Mathlib.Data.List.Nodup

/- The class Connection of the tenant client (npu_proxy/client.py) and the two threads that
   share it: the send loop and the receiver take the current socket and its epoch, use it
   until it fails, and then call reconnect_loop for that epoch. Each lock region, test of
   stop, connect attempt and close is one step, and the threads interleave freely. The epoch
   is compared in one lock region and advanced in another. A socket is named by a number,
   given when it is connected. What the threads do with the requests in flight is in Client
   and does not touch the connection. -/
namespace Connection
open Runs

structure Shared where
  sock : ℕ := 0
  epoch : ℕ := 1
  reconnects : ℕ := 0
  connected : ℕ := 1
  stop : Bool := false
  closed : List ℕ := []
  deriving DecidableEq

/-- Where a thread stands. Inside reconnect_loop it carries the socket and the epoch that it
    was called for. -/
inductive Stage where
  | top
  | current
  | inUse (sock epoch : ℕ)
  | compare (sock epoch : ℕ)
  | testStop (sock epoch : ℕ)
  | connect (sock epoch : ℕ)
  | install (sock epoch new : ℕ)
  | close (sock epoch old : ℕ)
  | count (sock epoch : ℕ)
  -- the end of main
  | lastCurrent
  | lastClose (sock : ℕ)
  | returned
  deriving DecidableEq

structure State where
  shared : Shared := {}
  threads : Fin 2 → Stage := fun _ => .top
  deriving DecidableEq

def sender : Fin 2 := 0

def receiver : Fin 2 := 1

/-- How a step turns out that depends on the outside: the time that is left, the socket, the
    proxy. A receiver that fails on the body of a reply does not look at stop. -/
inductive Outcome where
  | ok
  | fail
  | failBody
  deriving DecidableEq

/-- reconnect_loop returns false: the receiver returns, the sender goes on. -/
def refused (i : Fin 2) : Stage := if i = receiver then .returned else .top

def reconnectLoop (reconnectEnabled : Bool) (i : Fin 2) (sock epoch : ℕ) : Stage :=
  if reconnectEnabled then .compare sock epoch else refused i

def access (reconnectEnabled : Bool) (i : Fin 2) (s : Shared) (o : Outcome) :
    Stage → Option (Shared × Stage)
  | .top =>
    if i = receiver then some (s, if s.stop then .returned else .current)
    else if o = .ok then some (s, .current)
    else some ({ s with stop := true }, .lastCurrent)
  | .current => some (s, .inUse s.sock s.epoch)
  | .inUse sock epoch =>
    if o = .ok then some (s, .top)
    else if i = receiver ∧ o = .fail ∧ s.stop then some (s, .returned)
    else some (s, reconnectLoop reconnectEnabled i sock epoch)
  | .compare sock epoch =>
    some (s, if s.epoch ≠ epoch then .top else .testStop sock epoch)
  | .testStop sock epoch => some (s, if s.stop then refused i else .connect sock epoch)
  | .connect sock epoch =>
    if o = .ok then
      some ({ s with connected := s.connected + 1 }, .install sock epoch s.connected)
    else some (s, .testStop sock epoch)
  | .install sock epoch new =>
    some ({ s with sock := new, epoch := s.epoch + 1 }, .close sock epoch s.sock)
  | .close sock epoch old => some ({ s with closed := old :: s.closed }, .count sock epoch)
  | .count _ _ => some ({ s with reconnects := s.reconnects + 1 }, .top)
  | .lastCurrent => some (s, .lastClose s.sock)
  | .lastClose sock => some ({ s with closed := sock :: s.closed }, .returned)
  | .returned => none

structure Action where
  thread : Fin 2
  outcome : Outcome := .ok
  deriving DecidableEq

def next (reconnectEnabled : Bool) (s : State) (a : Action) : Option State :=
  (access reconnectEnabled a.thread s.shared a.outcome (s.threads a.thread)).map fun r =>
    { shared := r.1, threads := Function.update s.threads a.thread r.2 }

abbrev ConnStep (reconnectEnabled : Bool) : State → Action → State → Prop :=
  Fires (next reconnectEnabled)

/-- A socket that a reconnect_loop installs: the socket and the epoch that the call was made
    for, and the socket and the epoch that it replaces. -/
structure Install where
  lostSock : ℕ
  lostEpoch : ℕ
  oldSock : ℕ
  oldEpoch : ℕ
  deriving DecidableEq

def observe (s : State) (a : Action) (installs : List Install) : List Install :=
  match s.threads a.thread with
  | .install sock epoch _ => ⟨sock, epoch, s.shared.sock, s.shared.epoch⟩ :: installs
  | _ => installs

/-- The epoch that a thread reconnects for, after its test and before its socket is in. -/
def Stage.trying : Stage → Option ℕ
  | .testStop _ epoch | .connect _ epoch | .install _ epoch _ => some epoch
  | _ => none

def Stage.passing (s : Shared) (others : ℕ → Prop) : Stage → Prop
  | .compare _ epoch => s.epoch = epoch → others epoch
  | _ => True

/-- A thread that passes the test of its epoch finds no other one that has passed it and
    whose socket is not in yet. -/
def Alone (s : State) (a : Action) : Prop :=
  (s.threads a.thread).passing s.shared fun epoch =>
    ∀ j, j ≠ a.thread → (s.threads j).trying ≠ some epoch

instance (s : Shared) (others : ℕ → Prop) [DecidablePred others] (st : Stage) :
    Decidable (st.passing s others) := by
  induction st using Stage.casesOn <;> dsimp only [Stage.passing] <;> infer_instance

instance (s : State) (a : Action) : Decidable (Alone s a) := by
  dsimp only [Alone]
  infer_instance

def Stage.uncounted : Stage → ℕ
  | .close .. | .count .. => 1
  | _ => 0

/-- What a thread carries is not newer than the connection, and still the current one while
    it reconnects. -/
def Stage.Fits (sock epoch : ℕ) : Stage → Prop
  | .inUse so e | .compare so e => e ≤ epoch ∧ (e = epoch → so = sock)
  | .testStop so e | .connect so e | .install so e _ => e = epoch ∧ so = sock
  | .close so _ old => old = so
  | _ => True

structure Replaced (s : Shared) (installs : List Install) : Prop where
  own : ∀ x ∈ installs, x.oldEpoch = x.lostEpoch ∧ x.oldSock = x.lostSock
  older : ∀ x ∈ installs, x.lostEpoch < s.epoch
  once : (installs.map Install.lostEpoch).Nodup
  epoch_eq : s.epoch = installs.length + 1

structure Kept (s : State) (installs : List Install) : Prop where
  fits : ∀ i, (s.threads i).Fits s.shared.sock s.shared.epoch
  alone : ∀ i j, (s.threads i).trying.isSome = true → (s.threads j).trying.isSome = true → i = j
  replaced : Replaced s.shared installs
  counted : s.shared.reconnects + Threads.total Stage.uncounted s.threads = installs.length

inductive Effect (s : Shared) (st : Stage) (s' : Shared) (st' : Stage) : Prop where
  | moves (sock : s'.sock = s.sock) (epoch : s'.epoch = s.epoch)
      (reconnects : s'.reconnects = s.reconnects) (uncounted : st'.uncounted = st.uncounted)
      (trying : st'.trying.isSome = true → st.trying.isSome = true)
      (fits : st'.Fits s.sock s.epoch) (no_install : ∀ so e new, st ≠ .install so e new)
  | passes {so e : ℕ} (here : st = .compare so e) (now : s.epoch = e) (same : s' = s)
      (there : st' = .testStop so e)
  | installs {so e new : ℕ} (here : st = .install so e new)
      (new_sock : s' = { s with sock := new, epoch := s.epoch + 1 })
      (there : st' = .close so e s.sock)
  | counts {so e : ℕ} (here : st = .count so e)
      (counted : s' = { s with reconnects := s.reconnects + 1 }) (there : st' = .top)

theorem refused_idle (i : Fin 2) (sock epoch : ℕ) :
    (refused i).uncounted = 0 ∧ (refused i).trying = none ∧ (refused i).Fits sock epoch := by
  unfold refused
  split <;> exact ⟨rfl, rfl, trivial⟩

theorem access_effect {enabled : Bool} {i : Fin 2} {s s' : Shared} {o : Outcome} {st st' : Stage}
    (h : access enabled i s o st = some (s', st')) (fits : st.Fits s.sock s.epoch) :
    Effect s st s' st' := by
  obtain ⟨idle_count, idle_try, idle_fits⟩ := refused_idle i s.sock s.epoch
  cases st with
  | top =>
    simp only [access] at h
    split at h
    · cases h
      split <;> exact .moves rfl rfl rfl rfl (by simp [Stage.trying]) trivial (by simp)
    · split at h <;> cases h <;>
        exact .moves rfl rfl rfl rfl (by simp [Stage.trying]) trivial (by simp)
  | current =>
    cases h
    exact .moves rfl rfl rfl rfl (by simp [Stage.trying]) ⟨le_rfl, fun _ => rfl⟩ (by simp)
  | inUse so e =>
    simp only [access] at h
    split at h
    · cases h
      exact .moves rfl rfl rfl rfl (by simp [Stage.trying]) trivial (by simp)
    · split at h
      · cases h
        exact .moves rfl rfl rfl rfl (by simp [Stage.trying]) trivial (by simp)
      · cases h
        unfold reconnectLoop
        split
        · exact .moves rfl rfl rfl rfl (by simp [Stage.trying]) fits (by simp)
        · exact .moves rfl rfl rfl idle_count (by simp [idle_try]) idle_fits (by simp)
  | compare so e =>
    simp only [access, Option.some.injEq, Prod.mk.injEq] at h
    obtain ⟨rfl, rfl⟩ := h
    by_cases now : s.epoch = e
    · exact .passes rfl now rfl (by simp [now])
    · exact .moves rfl rfl rfl (by simp [now, Stage.uncounted]) (by simp [now, Stage.trying])
        (by simp [now, Stage.Fits]) (by simp)
  | testStop so e =>
    cases h
    split
    · exact .moves rfl rfl rfl idle_count (by simp [idle_try]) idle_fits (by simp)
    · exact .moves rfl rfl rfl rfl (by simp [Stage.trying]) fits (by simp)
  | connect so e =>
    simp only [access] at h
    split at h <;> cases h <;>
      exact .moves rfl rfl rfl rfl (by simp [Stage.trying]) fits (by simp)
  | install so e new =>
    cases h
    exact .installs rfl rfl rfl
  | close _ _ _ | lastCurrent | lastClose _ =>
    cases h
    exact .moves rfl rfl rfl rfl (by simp [Stage.trying]) trivial (by simp)
  | count so e =>
    cases h
    exact .counts rfl rfl rfl
  | returned => cases h

section Steps
variable {s : State} {i : Fin 2} {st : Stage} {installs : List Install}

theorem fits_update {threads : Fin 2 → Stage} {sock epoch : ℕ} (mine : st.Fits sock epoch)
    (others : ∀ j, j ≠ i → (threads j).Fits sock epoch) (j : Fin 2) :
    (Function.update threads i st j).Fits sock epoch := by
  by_cases same : j = i
  · subst same
    simpa using mine
  · rw [Function.update_of_ne same]
    exact others j same

theorem alone_update {threads : Fin 2 → Stage}
    (alone : ∀ j k, (threads j).trying.isSome = true → (threads k).trying.isSome = true → j = k)
    (mine : st.trying.isSome = true →
      (threads i).trying.isSome = true ∨ ∀ j, j ≠ i → (threads j).trying.isSome = false)
    (j k : Fin 2) (hj : (Function.update threads i st j).trying.isSome = true)
    (hk : (Function.update threads i st k).trying.isSome = true) : j = k := by
  by_cases same_j : j = i <;> by_cases same_k : k = i
  · rw [same_j, same_k]
  · subst same_j
    rw [Function.update_self] at hj
    rw [Function.update_of_ne same_k] at hk
    rcases mine hj with before | none
    · exact alone j k before hk
    · simp [none k same_k] at hk
  · subst same_k
    rw [Function.update_self] at hk
    rw [Function.update_of_ne same_j] at hj
    rcases mine hk with before | none
    · exact alone j k hj before
    · simp [none j same_j] at hj
  · rw [Function.update_of_ne same_j] at hj
    rw [Function.update_of_ne same_k] at hk
    exact alone j k hj hk

/-- What another thread carries is older than the socket that comes in. -/
theorem fits_older {sock sock' epoch : ℕ} (fits : st.Fits sock epoch)
    (idle : st.trying.isSome = false) : st.Fits sock' (epoch + 1) := by
  cases st with
  | inUse so e => exact ⟨by have := fits.1; omega, fun eq => by have := fits.1; omega⟩
  | compare so e => exact ⟨by have := fits.1; omega, fun eq => by have := fits.1; omega⟩
  | testStop so e => simp [Stage.trying] at idle
  | connect so e => simp [Stage.trying] at idle
  | install so e new => simp [Stage.trying] at idle
  | close so e old => exact fits
  | _ => trivial

theorem moved_kept (kept : Kept s installs) {s' : Shared} (sock : s'.sock = s.shared.sock)
    (epoch : s'.epoch = s.shared.epoch) (reconnects : s'.reconnects = s.shared.reconnects)
    (uncounted : st.uncounted = (s.threads i).uncounted)
    (trying : st.trying.isSome = true → (s.threads i).trying.isSome = true ∨
      ∀ j, j ≠ i → (s.threads j).trying.isSome = false)
    (fits : st.Fits s.shared.sock s.shared.epoch) :
    Kept ⟨s', Function.update s.threads i st⟩ installs where
  fits := by
    rw [sock, epoch]
    exact fits_update fits fun j _ => kept.fits j
  alone := alone_update kept.alone trying
  replaced :=
    { kept.replaced with
      older := by
        rw [epoch]
        exact kept.replaced.older
      epoch_eq := epoch.trans kept.replaced.epoch_eq }
  counted := by
    have total := Threads.total_update Stage.uncounted s.threads i st
    have counted := kept.counted
    simp only [reconnects]
    omega

theorem installed_kept (kept : Kept s installs) {so e new : ℕ}
    (here : s.threads i = .install so e new) :
    Kept ⟨{ s.shared with sock := new, epoch := s.shared.epoch + 1 },
        Function.update s.threads i (.close so e s.shared.sock)⟩
      (⟨so, e, s.shared.sock, s.shared.epoch⟩ :: installs) := by
  have fits := kept.fits i
  rw [here] at fits
  obtain ⟨rfl, rfl⟩ := fits
  have trying : (s.threads i).trying.isSome = true := by
    rw [here]
    rfl
  have others (j : Fin 2) (apart : j ≠ i) : (s.threads j).trying.isSome = false := by
    rw [Bool.eq_false_iff]
    intro tries
    exact apart (kept.alone j i tries trying)
  refine ⟨?_, ?_, ?_, ?_⟩
  · exact fits_update rfl fun j apart => fits_older (kept.fits j) (others j apart)
  · exact alone_update kept.alone fun _ => .inl trying
  · obtain ⟨own, older, once, epoch_eq⟩ := kept.replaced
    refine ⟨?_, ?_, ?_, ?_⟩
    · intro x member
      rcases List.mem_cons.mp member with rfl | earlier
      · exact ⟨rfl, rfl⟩
      · exact own x earlier
    · intro x member
      rcases List.mem_cons.mp member with rfl | earlier
      · exact Nat.lt_succ_self _
      · exact (older x earlier).trans (Nat.lt_succ_self _)
    · rw [List.map_cons, List.nodup_cons]
      refine ⟨?_, once⟩
      intro before
      obtain ⟨x, member, eq⟩ := List.mem_map.mp before
      exact absurd eq (older x member).ne
    · rw [List.length_cons, ← epoch_eq]
  · have total := Threads.total_update Stage.uncounted s.threads i
      (.close s.shared.sock s.shared.epoch s.shared.sock)
    have counted := kept.counted
    simp only [here, Stage.uncounted] at total
    simp only [List.length_cons]
    omega

theorem step_kept {enabled : Bool} {a : Action} {t : State} (kept : Kept s installs)
    (step : Guarded Alone (ConnStep enabled) s a t) : Kept t (observe s a installs) := by
  obtain ⟨alone, step⟩ := step
  simp only [Fires, next, Option.map_eq_some_iff] at step
  obtain ⟨⟨s', st'⟩, accessed, rfl⟩ := step
  cases access_effect accessed (kept.fits a.thread) with
  | moves sock epoch reconnects uncounted trying fits no_install =>
    have same : observe s a installs = installs := by
      unfold observe
      split
      · rename_i so e new here
        exact absurd here (no_install so e new)
      · rfl
    rw [same]
    exact moved_kept kept sock epoch reconnects uncounted (fun tries => .inl (trying tries)) fits
  | @passes so e here now same there =>
    subst same there
    have fits := kept.fits a.thread
    rw [here] at fits
    simp only [Alone, here, Stage.passing] at alone
    simp only [observe, here]
    refine moved_kept kept rfl rfl rfl (by rw [here]; rfl) ?_ ⟨now.symm, fits.2 now.symm⟩
    -- whoever else tries does so for the current epoch, which is this thread's
    refine fun _ => .inr ?_
    intro j apart
    rw [Bool.eq_false_iff]
    intro tries
    obtain ⟨e', its⟩ := Option.isSome_iff_exists.mp tries
    have current : e' = s.shared.epoch := by
      have fits_j := kept.fits j
      cases place : s.threads j <;> simp_all [Stage.trying, Stage.Fits]
    exact alone now j apart (by rw [its, current, now])
  | @installs so e new here new_sock there =>
    subst new_sock there
    simp only [observe, here]
    exact installed_kept kept here
  | @counts so e here counted there =>
    subst counted there
    simp only [observe, here]
    have total := Threads.total_update Stage.uncounted s.threads a.thread .top
    have before := kept.counted
    rw [here] at total
    simp only [Stage.uncounted] at total
    refine ⟨?_, ?_, { kept.replaced with }, ?_⟩
    · exact fits_update trivial fun j _ => kept.fits j
    · exact alone_update kept.alone (by simp [Stage.trying])
    · simp only
      omega

end Steps

theorem start_kept : Kept {} [] where
  fits := fun _ => trivial
  alone := by simp [Stage.trying]
  replaced := ⟨by simp, by simp, by simp, rfl⟩
  counted := by simp [Threads.total, Stage.uncounted]

/-- If no thread passes the test of an epoch while another one that has passed it has no
    socket in, then in every state of the run at most one call of reconnect_loop has
    installed a socket for each lost epoch, it has replaced just the connection that it was
    made for, the epoch counts these installs and so does reconnects, up to those under way,
    and what is closed is the lost socket. -/
theorem one_reconnect_per_epoch (enabled : Bool) {labels : List Action}
    {y : State × List Install}
    (run : Run (Watched observe (Guarded Alone (ConnStep enabled))) ({}, []) labels y) :
    (y.2.map Install.lostEpoch).Nodup ∧
      (∀ x ∈ y.2, x.oldEpoch = x.lostEpoch ∧ x.oldSock = x.lostSock) ∧
      y.1.shared.epoch = y.2.length + 1 ∧
      y.1.shared.reconnects + Threads.total Stage.uncounted y.1.threads = y.2.length ∧
      ∀ i so e old, y.1.threads i = .close so e old → old = so := by
  have kept : Kept y.1 y.2 :=
    run_invariant (fun x => Kept x.1 x.2)
      (fun _ _ _ before step => step.2 ▸ step_kept before step.1) run start_kept
  refine ⟨kept.replaced.once, kept.replaced.own, kept.replaced.epoch_eq, kept.counted, ?_⟩
  intro i so e old here
  have fits := kept.fits i
  rw [here] at fits
  exact fits

def loses (i : Fin 2) : List Action := [⟨i, .ok⟩, ⟨i, .ok⟩, ⟨i, .fail⟩]

def reconnects (i : Fin 2) : List Action :=
  [⟨i, .ok⟩, ⟨i, .ok⟩, ⟨i, .fail⟩, ⟨i, .ok⟩, ⟨i, .ok⟩, ⟨i, .ok⟩, ⟨i, .ok⟩, ⟨i, .ok⟩]

/-- Both threads lose the first connection, and the sender comes to its test after the
    receiver has reconnected. -/
theorem one_reconnect_when_in_turn : ∃ y,
    Run (Watched observe (Guarded Alone (ConnStep true))) ({}, [])
        (loses sender ++ loses receiver ++ reconnects receiver ++ [⟨sender, .ok⟩]) y ∧
      y.2 = [⟨0, 1, 0, 1⟩] ∧ y.1.shared.epoch = y.2.length + 1 := by
  obtain ⟨y, run, checked⟩ := watched_guarded_run_reaches Alone
    (fun y : State × List Install => decide (y.2 = [⟨0, 1, 0, 1⟩]))
    (show (exec (watching observe (guarding Alone (next true))) ({}, [])
      (loses sender ++ loses receiver ++ reconnects receiver ++ [⟨sender, .ok⟩])).any _ = true by
        decide +kernel)
  exact ⟨y, run, of_decide_eq_true checked, (one_reconnect_per_epoch true run).2.2.1⟩

/-- Both threads pass the test for the first epoch before either has reconnected. The
    receiver installs socket 1; the sender then installs socket 2 for the same epoch and
    closes socket 1. -/
theorem two_reconnects_for_one_epoch : ∃ y,
    Run (Watched observe (ConnStep true)) ({}, [])
        (loses sender ++ loses receiver ++ [⟨sender, .ok⟩] ++ reconnects receiver ++
          [⟨sender, .ok⟩, ⟨sender, .ok⟩, ⟨sender, .ok⟩, ⟨sender, .ok⟩, ⟨sender, .ok⟩]) y ∧
      y.2 = [⟨0, 1, 1, 2⟩, ⟨0, 1, 0, 1⟩] ∧ ¬ (y.2.map Install.lostEpoch).Nodup ∧
      y.1.shared.reconnects = 2 ∧ y.1.shared.closed = [1, 0] := by
  obtain ⟨y, run, checked⟩ := watched_run_reaches
    (fun y : State × List Install =>
      decide (y.2 = [⟨0, 1, 1, 2⟩, ⟨0, 1, 0, 1⟩] ∧ ¬ (y.2.map Install.lostEpoch).Nodup ∧
        y.1.shared.reconnects = 2 ∧ y.1.shared.closed = [1, 0]))
    (show (exec (watching observe (next true)) ({}, [])
      (loses sender ++ loses receiver ++ [⟨sender, .ok⟩] ++ reconnects receiver ++
        [⟨sender, .ok⟩, ⟨sender, .ok⟩, ⟨sender, .ok⟩, ⟨sender, .ok⟩, ⟨sender, .ok⟩])).any _ =
          true by decide +kernel)
  exact ⟨y, run, of_decide_eq_true checked⟩

end Connection
