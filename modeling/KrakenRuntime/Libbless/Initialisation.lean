import KrakenRuntime.Lib.Once
import KrakenRuntime.Lib.Runs
import KrakenRuntime.Lib.Threads

/- The first calls of a process under libbless (libbless.cpp): a hook goes through ensure_init and,
   but for cudaMemcpy, cudaMemcpyAsync, cudaGraphLaunch and two of the queries, through
   attach_runtime_if_needed before it calls the real function, and ensure_init itself attaches the
   runtime on its way. The hooks of ioctl and mmap initialise nothing and are left out: they run
   inside cuInit as well. Both functions work behind a flag and a mutex of their own. Every access
   to a flag or a mutex is one step, and any number of threads interleave freely. What the bodies
   do in between is one step each; it waits for nobody (the control server is given a bounded time
   to get ready). A ScopedCtxGuard behind this loads the flag of ensure_init once more and finds it
   up; that load is not counted. -/
namespace Initialisation
open Runs
variable {n : ℕ}

inductive Caller where
  | init
  | hook
  deriving DecidableEq

/-- What a hook calls before the real function. -/
inductive Hook where
  | both
  | initOnly
  deriving DecidableEq

inductive PC where
  | outside
  -- ensure_init, up to the call of attach_runtime_if_needed
  | loadInited
  | lockInit
  | reloadInited
  | prepare
  -- attach_runtime_if_needed
  | loadAttached (c : Caller)
  | lockRt (c : Caller)
  | reloadAttached (c : Caller)
  | bind (c : Caller)
  | storeAttached (c : Caller)
  | unlockRt (c : Caller)
  -- ensure_init, after it
  | conclude
  | storeInited
  | unlockInit
  -- the real function
  | hooked (h : Hook)
  deriving DecidableEq

def Caller.back : Caller → PC
  | .init => .conclude
  | .hook => .hooked .both

def Hook.goesOn : Hook → PC
  | .both => .loadAttached .hook
  | .initOnly => .hooked .initOnly

/-- `inits` and `attaches` count how often a body was begun. -/
structure State (n : ℕ) where
  inited : Bool := false
  initMu : Option (Fin n) := none
  inits : ℕ := 0
  rtAttached : Bool := false
  rtMu : Option (Fin n) := none
  attaches : ℕ := 0
  hooks : Fin n → Hook := fun _ => .both
  threads : Fin n → PC := fun _ => .outside
  deriving DecidableEq

def State.goto (s : State n) (i : Fin n) (pc : PC) : State n :=
  { s with threads := Function.update s.threads i pc }

/-- One access. A thread that finds a mutex taken stays where it is. -/
def access (s : State n) (i : Fin n) : Option (State n) :=
  match s.threads i with
  | .outside => none
  | .loadInited => some (s.goto i (if s.inited then (s.hooks i).goesOn else .lockInit))
  | .lockInit =>
    if s.initMu = none then some ({ s with initMu := some i }.goto i .reloadInited) else none
  | .reloadInited =>
    some (if s.inited then s.goto i .unlockInit
      else { s with inits := s.inits + 1 }.goto i .prepare)
  | .prepare => some (s.goto i (.loadAttached .init))
  | .loadAttached c => some (s.goto i (if s.rtAttached then c.back else .lockRt c))
  | .lockRt c =>
    if s.rtMu = none then some ({ s with rtMu := some i }.goto i (.reloadAttached c)) else none
  | .reloadAttached c =>
    some (if s.rtAttached then s.goto i (.unlockRt c)
      else { s with attaches := s.attaches + 1 }.goto i (.bind c))
  | .bind c => some (s.goto i (.storeAttached c))
  | .storeAttached c => some ({ s with rtAttached := true }.goto i (.unlockRt c))
  | .unlockRt c => some ({ s with rtMu := none }.goto i c.back)
  | .conclude => some (s.goto i .storeInited)
  | .storeInited => some ({ s with inited := true }.goto i .unlockInit)
  | .unlockInit => some ({ s with initMu := none }.goto i (s.hooks i).goesOn)
  | .hooked _ => some (s.goto i .outside)

inductive Action (n : ℕ) where
  | call (i : Fin n) (h : Hook)
  | step (i : Fin n)
  deriving DecidableEq

def next (s : State n) : Action n → Option (State n)
  | .call i h =>
    if s.threads i = .outside then
      some ({ s with hooks := Function.update s.hooks i h }.goto i .loadInited)
    else none
  | .step i => access s i

abbrev InitStep : State n → Action n → State n → Prop := Fires next

def initPlace : PC → Once.Place
  | .outside => .away
  | .loadInited => .test
  | .lockInit => .lock
  | .reloadInited => .retest
  | .prepare | .conclude => .body
  | .loadAttached .init | .lockRt .init | .reloadAttached .init => .body
  | .bind .init | .storeAttached .init | .unlockRt .init => .body
  | .storeInited => .store
  | .unlockInit => .unlock
  | _ => .passed

def rtPlace : PC → Once.Place
  | .loadAttached _ => .test
  | .lockRt _ => .lock
  | .reloadAttached _ => .retest
  | .bind _ => .body
  | .storeAttached _ => .store
  | .unlockRt _ => .unlock
  | .conclude | .storeInited | .hooked .both => .passed
  | _ => .away

def initCell (s : State n) : Once.Cell (Fin n) :=
  ⟨s.inited, s.initMu, s.inits, fun i => initPlace (s.threads i)⟩

def rtCell (s : State n) : Once.Cell (Fin n) :=
  ⟨s.rtAttached, s.rtMu, s.attaches, fun i => rtPlace (s.threads i)⟩

theorem initCell_goto (s : State n) (i : Fin n) (pc : PC) :
    initCell (s.goto i pc) = (initCell s).place i (initPlace pc) := by
  simp only [initCell, State.goto, Once.Cell.place]
  congr 1
  funext j
  by_cases same : j = i
  · subst same
    simp
  · simp [same]

theorem rtCell_goto (s : State n) (i : Fin n) (pc : PC) :
    rtCell (s.goto i pc) = (rtCell s).place i (rtPlace pc) := by
  simp only [rtCell, State.goto, Once.Cell.place]
  congr 1
  funext j
  by_cases same : j = i
  · subst same
    simp
  · simp [same]

theorem place_same {c : Once.Cell (Fin n)} {i : Fin n} {p : Once.Place} (here : c.places i = p) :
    c.place i p = c := by
  rw [← here, Once.Cell.place, Function.update_eq_self]

def Seen (c : Once.Cell (Fin n)) (i : Fin n) (c' : Once.Cell (Fin n)) : Prop :=
  Once.Step c i c' ∨ c' = c

theorem Seen.kept {c c' : Once.Cell (Fin n)} {i : Fin n} (kept : Once.Kept c) (seen : Seen c i c') :
    Once.Kept c' := by
  rcases seen with step | same
  · exact Once.step_kept kept step
  · rw [same]
    exact kept

section Access
variable {s t : State n} {i : Fin n}

theorem stays_init {s' : State n} {pc : PC} (cell : initCell s' = initCell s)
    (same : initPlace pc = initPlace (s.threads i)) : Seen (initCell s) i (initCell (s'.goto i pc)) := by
  right
  rw [initCell_goto, cell, same]
  exact place_same rfl

theorem stays_rt {s' : State n} {pc : PC} (cell : rtCell s' = rtCell s)
    (same : rtPlace pc = rtPlace (s.threads i)) : Seen (rtCell s) i (rtCell (s'.goto i pc)) := by
  right
  rw [rtCell_goto, cell, same]
  exact place_same rfl

theorem initPlace_goesOn (h : Hook) : initPlace h.goesOn = .passed := by
  cases h <;> rfl

theorem access_init (accessed : access s i = some t) : Seen (initCell s) i (initCell t) := by
  have here : (initCell s).places i = initPlace (s.threads i) := rfl
  cases at_pc : s.threads i with
  | outside => simp [access, at_pc] at accessed
  | loadInited =>
    simp only [access, at_pc, Option.some.injEq] at accessed here
    subst accessed
    rw [initCell_goto]
    split
    · rename_i up
      rw [initPlace_goesOn]
      exact .inl (.seen here up)
    · rename_i down
      exact .inl (.unseen here (Bool.eq_false_of_not_eq_true down))
  | lockInit =>
    simp only [access, at_pc, Option.ite_none_right_eq_some, Option.some.injEq] at accessed here
    obtain ⟨free, rfl⟩ := accessed
    rw [initCell_goto]
    exact .inl (.locked here free)
  | reloadInited =>
    simp only [access, at_pc, Option.some.injEq] at accessed here
    subst accessed
    split
    · rename_i up
      rw [initCell_goto]
      exact .inl (.beaten here up)
    · rename_i down
      rw [initCell_goto]
      exact .inl (.begins here (Bool.eq_false_of_not_eq_true down))
  | conclude =>
    simp only [access, at_pc, Option.some.injEq] at accessed here
    subst accessed
    rw [initCell_goto]
    exact .inl (.ends here)
  | storeInited =>
    simp only [access, at_pc, Option.some.injEq] at accessed here
    subst accessed
    rw [initCell_goto]
    exact .inl (.stored here)
  | unlockInit =>
    simp only [access, at_pc, Option.some.injEq] at accessed here
    subst accessed
    rw [initCell_goto, initPlace_goesOn]
    exact .inl (.unlocked here)
  | hooked h =>
    simp only [access, at_pc, Option.some.injEq] at accessed here
    subst accessed
    rw [initCell_goto]
    exact .inl (.leaves here)
  | prepare =>
    simp only [access, at_pc, Option.some.injEq] at accessed
    subst accessed
    exact stays_init rfl (by rw [at_pc]; rfl)
  | loadAttached c =>
    simp only [access, at_pc, Option.some.injEq] at accessed
    subst accessed
    apply stays_init rfl
    rw [at_pc]
    cases c <;> split <;> rfl
  | lockRt c =>
    simp only [access, at_pc, Option.ite_none_right_eq_some, Option.some.injEq] at accessed
    obtain ⟨_, rfl⟩ := accessed
    exact stays_init rfl (by rw [at_pc]; cases c <;> rfl)
  | reloadAttached c =>
    simp only [access, at_pc, Option.some.injEq] at accessed
    subst accessed
    split
    · exact stays_init rfl (by rw [at_pc]; cases c <;> rfl)
    · exact stays_init rfl (by rw [at_pc]; cases c <;> rfl)
  | bind c | storeAttached c | unlockRt c =>
    simp only [access, at_pc, Option.some.injEq] at accessed
    subst accessed
    exact stays_init rfl (by rw [at_pc]; cases c <;> rfl)

theorem goesOn_rt {s' : State n} (cell : rtCell s' = rtCell s)
    (here : (rtCell s).places i = .away) (h : Hook) :
    Seen (rtCell s) i (rtCell (s'.goto i h.goesOn)) := by
  rw [rtCell_goto, cell]
  cases h with
  | both => exact .inl (.arrive (.inl here))
  | initOnly => exact .inr (place_same here)

theorem access_rt (accessed : access s i = some t) : Seen (rtCell s) i (rtCell t) := by
  have here : (rtCell s).places i = rtPlace (s.threads i) := rfl
  cases at_pc : s.threads i with
  | outside => simp [access, at_pc] at accessed
  | loadInited =>
    simp only [access, at_pc, Option.some.injEq] at accessed here
    subst accessed
    split
    · exact goesOn_rt rfl here (s.hooks i)
    · exact stays_rt rfl (by rw [at_pc]; rfl)
  | lockInit =>
    simp only [access, at_pc, Option.ite_none_right_eq_some, Option.some.injEq] at accessed
    obtain ⟨_, rfl⟩ := accessed
    exact stays_rt rfl (by rw [at_pc]; rfl)
  | reloadInited =>
    simp only [access, at_pc, Option.some.injEq] at accessed
    subst accessed
    split
    · exact stays_rt rfl (by rw [at_pc]; rfl)
    · exact stays_rt rfl (by rw [at_pc]; rfl)
  | conclude =>
    simp only [access, at_pc, Option.some.injEq] at accessed
    subst accessed
    exact stays_rt rfl (by rw [at_pc]; rfl)
  | prepare =>
    simp only [access, at_pc, Option.some.injEq] at accessed here
    subst accessed
    rw [rtCell_goto]
    exact .inl (.arrive (.inl here))
  | unlockInit =>
    simp only [access, at_pc, Option.some.injEq] at accessed here
    subst accessed
    exact goesOn_rt rfl here (s.hooks i)
  | loadAttached c =>
    simp only [access, at_pc, Option.some.injEq] at accessed here
    subst accessed
    rw [rtCell_goto]
    split
    · rename_i up
      cases c <;> exact .inl (.seen here up)
    · rename_i down
      exact .inl (.unseen here (Bool.eq_false_of_not_eq_true down))
  | lockRt c =>
    simp only [access, at_pc, Option.ite_none_right_eq_some, Option.some.injEq] at accessed here
    obtain ⟨free, rfl⟩ := accessed
    rw [rtCell_goto]
    exact .inl (.locked here free)
  | reloadAttached c =>
    simp only [access, at_pc, Option.some.injEq] at accessed here
    subst accessed
    split
    · rename_i up
      rw [rtCell_goto]
      exact .inl (.beaten here up)
    · rename_i down
      rw [rtCell_goto]
      exact .inl (.begins here (Bool.eq_false_of_not_eq_true down))
  | bind c =>
    simp only [access, at_pc, Option.some.injEq] at accessed here
    subst accessed
    rw [rtCell_goto]
    exact .inl (.ends here)
  | storeAttached c =>
    simp only [access, at_pc, Option.some.injEq] at accessed here
    subst accessed
    rw [rtCell_goto]
    exact .inl (.stored here)
  | unlockRt c =>
    simp only [access, at_pc, Option.some.injEq] at accessed here
    subst accessed
    rw [rtCell_goto]
    cases c <;> exact .inl (.unlocked here)
  | storeInited =>
    simp only [access, at_pc, Option.some.injEq] at accessed here
    subst accessed
    rw [rtCell_goto]
    exact .inl (.leaves here)
  | hooked h =>
    simp only [access, at_pc, Option.some.injEq] at accessed here
    subst accessed
    cases h with
    | both =>
      rw [rtCell_goto]
      exact .inl (.leaves here)
    | initOnly => exact stays_rt rfl (by rw [at_pc]; rfl)

theorem access_attached (accessed : access s i = some t)
    (order : s.inited = true → s.rtAttached = true)
    (passed : s.threads i = .storeInited → s.rtAttached = true) :
    t.inited = true → t.rtAttached = true := by
  cases at_pc : s.threads i with
  | outside => simp [access, at_pc] at accessed
  | lockInit | lockRt c =>
    simp only [access, at_pc, Option.ite_none_right_eq_some, Option.some.injEq] at accessed
    obtain ⟨_, rfl⟩ := accessed
    exact order
  | reloadInited | reloadAttached c =>
    simp only [access, at_pc, Option.some.injEq] at accessed
    subst accessed
    split <;> exact order
  | storeAttached c =>
    simp only [access, at_pc, Option.some.injEq] at accessed
    subst accessed
    exact fun _ => rfl
  | storeInited =>
    simp only [access, at_pc, Option.some.injEq] at accessed
    subst accessed
    exact fun _ => passed at_pc
  | loadInited | prepare | loadAttached c | bind c | unlockRt c | conclude | unlockInit | hooked h =>
    simp only [access, at_pc, Option.some.injEq] at accessed
    subst accessed
    exact order

/-- A thread that cannot go on waits for a mutex. -/
theorem access_blocked (blocked : access s i = none) : s.threads i = .outside ∨
    (s.threads i = .lockInit ∧ s.initMu ≠ none) ∨
      ((∃ c, s.threads i = .lockRt c) ∧ s.rtMu ≠ none) := by
  cases at_pc : s.threads i with
  | outside => exact .inl rfl
  | lockInit =>
    simp only [access, at_pc, ite_eq_right_iff, reduceCtorEq, imp_false] at blocked
    exact .inr (.inl ⟨rfl, blocked⟩)
  | lockRt c =>
    simp only [access, at_pc, ite_eq_right_iff, reduceCtorEq, imp_false] at blocked
    exact .inr (.inr ⟨⟨c, rfl⟩, blocked⟩)
  | _ => simp [access, at_pc] at blocked

end Access

structure Kept (s : State n) : Prop where
  init : Once.Kept (initCell s)
  rt : Once.Kept (rtCell s)
  order : s.inited = true → s.rtAttached = true

theorem step_kept {s t : State n} {a : Action n} (kept : Kept s) (step : InitStep s a t) : Kept t := by
  cases a with
  | call i h =>
    simp only [Fires, next, Option.ite_none_right_eq_some, Option.some.injEq] at step
    obtain ⟨outside, rfl⟩ := step
    have away : (initCell s).places i = .away := by simp [initCell, outside, initPlace]
    refine ⟨?_, ?_, kept.order⟩
    · rw [initCell_goto]
      exact Once.step_kept kept.init (.arrive (.inl away))
    · have called : rtCell { s with hooks := Function.update s.hooks i h } = rtCell s := rfl
      exact (stays_rt called (by rw [outside]; rfl)).kept kept.rt
  | step i =>
    refine ⟨(access_init step).kept kept.init, (access_rt step).kept kept.rt, ?_⟩
    apply access_attached step kept.order
    intro here
    apply kept.rt.known i
    simp [rtCell, here, rtPlace, Once.Place.relies]

/-- The mutexes are taken in one order, so that somebody can always go on. -/
theorem kept_not_stuck {s : State n} (kept : Kept s) {i : Fin n} (inside : s.threads i ≠ .outside) :
    ∃ j t, access s j = some t := by
  by_contra stuck
  have blocked : ∀ j, access s j = none := by
    intro j
    cases accessed : access s j with
    | none => rfl
    | some t => exact absurd ⟨j, t, accessed⟩ stuck
  have rt_free : s.rtMu = none := by
    cases owner : s.rtMu with
    | none => rfl
    | some j =>
      have holds := (kept.rt.owner j).mpr owner
      simp only [rtCell] at holds
      rcases access_blocked (blocked j) with here | ⟨here, _⟩ | ⟨⟨c, here⟩, _⟩
      all_goals
        rw [here] at holds
        cases holds
  have init_free : s.initMu = none := by
    cases owner : s.initMu with
    | none => rfl
    | some j =>
      have holds := (kept.init.owner j).mpr owner
      simp only [initCell] at holds
      rcases access_blocked (blocked j) with here | ⟨here, _⟩ | ⟨_, taken⟩
      · rw [here] at holds
        cases holds
      · rw [here] at holds
        cases holds
      · exact absurd rt_free taken
  rcases access_blocked (blocked i) with here | ⟨_, taken⟩ | ⟨_, taken⟩
  · exact inside here
  · exact taken init_free
  · exact taken rt_free

/-- How many accesses a call still makes at most. -/
def rank : PC → ℕ
  | .outside => 0
  | .hooked _ => 1
  | .unlockRt .hook => 2
  | .storeAttached .hook => 3
  | .bind .hook => 4
  | .reloadAttached .hook => 5
  | .lockRt .hook => 6
  | .loadAttached .hook => 7
  | .unlockInit => 8
  | .storeInited => 9
  | .conclude => 10
  | .unlockRt .init => 11
  | .storeAttached .init => 12
  | .bind .init => 13
  | .reloadAttached .init => 14
  | .lockRt .init => 15
  | .loadAttached .init => 16
  | .prepare => 17
  | .reloadInited => 18
  | .lockInit => 19
  | .loadInited => 20

def Action.isStep : Action n → Bool
  | .step _ => true
  | _ => false

def Action.isCall : Action n → Bool
  | .call .. => true
  | _ => false

theorem access_rank {s t : State n} {i : Fin n} (accessed : access s i = some t) :
    ∃ pc, t.threads = Function.update s.threads i pc ∧ rank pc < rank (s.threads i) := by
  cases at_pc : s.threads i with
  | outside => simp [access, at_pc] at accessed
  | lockInit =>
    simp only [access, at_pc, Option.ite_none_right_eq_some, Option.some.injEq] at accessed
    obtain ⟨_, rfl⟩ := accessed
    exact ⟨_, rfl, by decide⟩
  | lockRt c =>
    simp only [access, at_pc, Option.ite_none_right_eq_some, Option.some.injEq] at accessed
    obtain ⟨_, rfl⟩ := accessed
    exact ⟨_, rfl, by cases c <;> decide⟩
  | loadInited =>
    simp only [access, at_pc, Option.some.injEq] at accessed
    subst accessed
    refine ⟨_, rfl, ?_⟩
    cases s.hooks i <;> split <;> decide
  | loadAttached c =>
    simp only [access, at_pc, Option.some.injEq] at accessed
    subst accessed
    refine ⟨_, rfl, ?_⟩
    cases c <;> split <;> decide
  | reloadInited =>
    simp only [access, at_pc, Option.some.injEq] at accessed
    subst accessed
    split
    · exact ⟨_, rfl, by decide⟩
    · exact ⟨_, rfl, by decide⟩
  | reloadAttached c =>
    simp only [access, at_pc, Option.some.injEq] at accessed
    subst accessed
    split
    · exact ⟨_, rfl, by cases c <;> decide⟩
    · exact ⟨_, rfl, by cases c <;> decide⟩
  | bind c | storeAttached c | unlockRt c =>
    simp only [access, at_pc, Option.some.injEq] at accessed
    subst accessed
    exact ⟨_, rfl, by cases c <;> decide⟩
  | unlockInit =>
    simp only [access, at_pc, Option.some.injEq] at accessed
    subst accessed
    exact ⟨_, rfl, by cases s.hooks i <;> decide⟩
  | prepare | conclude | storeInited | hooked _ =>
    simp only [access, at_pc, Option.some.injEq] at accessed
    subst accessed
    exact ⟨_, rfl, by simp [rank]⟩

theorem run_rank {s t : State n} {labels : List (Action n)} (run : Run InitStep s labels t) :
    labels.countP Action.isStep + Threads.total rank t.threads ≤
      Threads.total rank s.threads + 20 * labels.countP Action.isCall := by
  induction run with
  | nil s => simp
  | @cons s u t a rest first tail ih =>
    cases a with
    | call i h =>
      simp only [Fires, next, Option.ite_none_right_eq_some, Option.some.injEq] at first
      obtain ⟨outside, rfl⟩ := first
      have total := Threads.total_update rank s.threads i .loadInited
      rw [outside] at total
      simp only [rank] at total
      simp only [State.goto] at ih
      simp only [List.countP_cons, Action.isStep, Action.isCall, Bool.false_eq_true, if_true,
        if_false]
      omega
    | step i =>
      obtain ⟨pc, threads, lower⟩ := access_rank first
      have total := Threads.total_update rank s.threads i pc
      rw [threads] at ih
      simp only [List.countP_cons, Action.isStep, Action.isCall, Bool.false_eq_true, if_true,
        if_false]
      omega

theorem start_kept : Kept ({} : State n) := ⟨Once.fresh_kept, Once.fresh_kept, Bool.noConfusion⟩

/-- Two threads call at once; the second waits for the mutex, finds the work done and does not
    attach the runtime itself. -/
def together : List (Action 2) :=
  [.call 0 .both, .call 1 .initOnly] ++ List.replicate 3 (.step 0) ++ [.step 1] ++
    List.replicate 10 (.step 0) ++ List.replicate 3 (.step 1)

end Initialisation
