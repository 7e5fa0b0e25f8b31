import KrakenRuntime.Libbless.KernelCredit
import KrakenRuntime.Libbless.TimeGate
import KrakenRuntime.NpuProxy.GateCore

/- One command contract for two gates. The same commands and the same completed work items
   go to a fresh libbless process with one launching thread and to a fresh tenant of a
   GateCore. A work item is a launch that goes through the gate at once, the time it takes
   and the synchronisation that charges it on one side, and a request submitted, selected
   and finished on the other. The command texts are the same for both and are not modelled;
   neither are sequences in which the tenant's balance reaches its cap. -/
namespace CommandContract
open Runs GateCore
variable {Name Req : Type} [DecidableEq Name]

/-- A work item also carries what only the proxy sees of it: its request and the reading
    of the proxy's clock when it ends. -/
inductive Feed (Req : Type) where
  | timeMode (m : ℤ)
  | timeCredit (v : ℤ)
  | timeAdd (us : ℕ)
  | work (us : ℕ) (req : Req) (endedAt : ℚ)
  deriving DecidableEq

@[ext]
structure Gpu where
  time : TimeGate.State 1
  kernel : KernelGate.State 1

def Gpu.fresh : Gpu := ⟨⟨{}, fun _ => {}, .ready⟩, {}⟩

/-- The thread is about to load again what it has found exhausted, after a yield. -/
def yields : TimeGate.PC → Bool
  | .waitUnlimited _ => true
  | _ => false

def TimeAwake (s : TimeGate.State 1) (_ : TimeGate.Action 1) : Prop :=
  yields (s.threads 0).pc = false

def KernelAwake (s : KernelGate.State 1) (_ : KernelGate.Action 1) : Prop :=
  ∀ waited, (s.threads 0).pc = .loadCur waited → s.shared.creditRemain ≠ 0

/-- The accesses of a launch, and as many more as one likes once it is over. -/
def launching (k : ℕ) : List (TimeGate.Action 1) := .launch 0 :: List.replicate k (.step 0)

def kernelLaunching (k : ℕ) : List (KernelGate.Action 1) :=
  .launch 0 :: List.replicate k (.step 0 false)

def synchronizing (k : ℕ) : List (TimeGate.Action 1) := .synchronize 0 :: List.replicate k (.step 0)

/-- A launch made now comes out of its gate without waiting in it. -/
def Gpu.Admits (g : Gpu) : Prop :=
  (∃ k t, Run (Guarded TimeAwake TimeGate.TimeStep) g.time (launching k) t ∧
    (t.threads 0).pc = .outside) ∧
  (g.time.shared.creditMode ≠ 1 → ∃ k t,
    Run (Guarded KernelAwake KernelGate.KernelStep) g.kernel (kernelLaunching k) t ∧
      (t.threads 0).pc = .outside)

def Gpu.Works (g : Gpu) (us : ℕ) (g' : Gpu) : Prop :=
  (∃ j k launched, Run TimeGate.TimeStep g.time (launching j) launched ∧
    (launched.threads 0).pc = .outside ∧
    Run TimeGate.TimeStep launched (.tick us :: synchronizing k) g'.time ∧
    (g'.time.threads 0).pc = .outside) ∧
  if g.time.shared.creditMode = 1 then g'.kernel = g.kernel
  else ∃ k, Run KernelGate.KernelStep g.kernel (kernelLaunching k) g'.kernel ∧
    (g'.kernel.threads 0).pc = .outside

def Gpu.Step (g : Gpu) : Feed Req → Gpu → Prop
  | .timeMode m, g' =>
    Run TimeGate.TimeStep g.time [.command (.timeMode m)] g'.time ∧ g'.kernel = g.kernel
  | .timeCredit v, g' =>
    Run TimeGate.TimeStep g.time [.command (.timeCredit v), .control] g'.time ∧
      g'.kernel = g.kernel
  | .timeAdd us, g' =>
    Run TimeGate.TimeStep g.time [.command (.timeAdd us)] g'.time ∧ g'.kernel = g.kernel
  | .work us _ _, g' => g.Works us g'

/-- A request submitted now would be in the candidate list of `_eligible`. -/
def NpuAdmits (name : Name) (c : Core Name Req) : Prop :=
  ∀ req, ∃ c' t, submit c name req = some c' ∧ (name, t) ∈ candidates c'

def NpuStep (cfg : Config) (name : Name) (c : Core Name Req) : Feed Req → Core Name Req → Prop
  | .timeMode m, c' => c' = (cmd cfg c name (.timeMode m)).1
  | .timeCredit v, c' => c' = (cmd cfg c name (.timeCredit v)).1
  | .timeAdd us, c' => c' = (cmd cfg c name (.timeAdd us)).1
  | .work us req endedAt, c' => ∃ f,
    Run (CoreStep cfg) c [.submit name req, .selected (some f), .finished f us endedAt] c'

@[ext]
structure Pair (Name Req : Type) where
  gpu : Gpu
  npu : Core Name Req

def Pair.fresh (name : Name) : Pair Name Req := ⟨Gpu.fresh, register Core.init name⟩

/-- Both take the same item; work is only completed where both admitted it, and the
    tenant's balance stays below the cap. -/
structure Both (cfg : Config) (name : Name) (s : Pair Name Req) (a : Feed Req)
    (t : Pair Name Req) : Prop where
  gpu : s.gpu.Step a t.gpu
  npu : NpuStep cfg name s.npu a t.npu
  admitted : ∀ us req endedAt, a = .work us req endedAt → s.gpu.Admits ∧ NpuAdmits name s.npu
  underCap : ∀ e, t.npu.tenants.get? name = some e → e.creditUs < cfg.creditCapUs

def Agree (name : Name) (s : Pair Name Req) : Prop := s.gpu.Admits ↔ NpuAdmits name s.npu

/-- libbless has no limit in force while GateCore is armed: arming must then find a balance,
    and work must leave one. -/
def Covered (name : Name) (s : Pair Name Req) : Feed Req → Prop
  | .timeMode m => m = 1 → s.gpu.time.shared.timeUnlimited = true →
    ∀ e, s.npu.tenants.get? name = some e → 0 < e.creditUs
  | .work us _ _ => s.gpu.time.shared.creditMode = 1 → s.gpu.time.shared.timeUnlimited = true →
    ∀ e, s.npu.tenants.get? name = some e → e.unlimited = true ∨ us < e.creditUs
  | _ => True

section Gates

def solo (g : TimeGate.Shared) (t : TimeGate.Thread) : TimeGate.State 1 := ⟨g, fun _ => t, .ready⟩

theorem update_solo {τ : Type} (f : Fin 1 → τ) (t : τ) : Function.update f 0 t = fun _ => t := by
  funext i
  rw [Subsingleton.elim i 0, Function.update_self]

theorem solo_access (g : TimeGate.Shared) (t : TimeGate.Thread) :
    TimeGate.next (solo g t) (.step 0) =
      some (solo (TimeGate.access g t).1 (TimeGate.access g t).2) := by
  simp only [TimeGate.next, solo, update_solo]

theorem time_rests (s : TimeGate.State 1) (done : (s.threads 0).pc = .outside) :
    TimeGate.next s (.step 0) = some s := by
  have still : TimeGate.access s.shared (s.threads 0) = (s.shared, s.threads 0) := by
    simp only [TimeGate.access, done]
  simp only [TimeGate.next, still, Function.update_eq_self]

theorem kernel_rests (s : KernelGate.State 1) (done : (s.threads 0).pc = .outside) :
    KernelGate.next s (.step 0 false) = some s := by
  have still : KernelGate.access s.shared (s.threads 0) false = (s.shared, s.threads 0) := by
    simp only [KernelGate.access, done]
  simp only [KernelGate.next, still, Function.update_eq_self]

variable {g g' : TimeGate.Shared} {t t' : TimeGate.Thread} {u : TimeGate.State 1} {k : ℕ}

theorem solo_cons (moves : TimeGate.access g t = (g', t'))
    (tail : Run TimeGate.TimeStep (solo g' t') (List.replicate k (.step 0)) u) :
    Run TimeGate.TimeStep (solo g t) (List.replicate (k + 1) (.step 0)) u := by
  rw [List.replicate_succ]
  apply Run.cons _ tail
  show TimeGate.next _ _ = _
  rw [solo_access, moves]

theorem awake_cons (awake : yields t.pc = false) (moves : TimeGate.access g t = (g', t'))
    (tail : Run (Guarded TimeAwake TimeGate.TimeStep) (solo g' t') (List.replicate k (.step 0)) u) :
    Run (Guarded TimeAwake TimeGate.TimeStep) (solo g t) (List.replicate (k + 1) (.step 0)) u := by
  rw [List.replicate_succ]
  refine .cons ⟨awake, ?_⟩ tail
  show TimeGate.next _ _ = _
  rw [solo_access, moves]

structure Plain (g : TimeGate.Shared) : Prop where
  boost : g.boostMode = false
  priority : g.currentPriority = .normal
  wc : g.wcOn = false

def Free (g : TimeGate.Shared) : Prop :=
  g.creditMode = 1 → g.timeUnlimited = true ∨ 0 < g.timeCreditUs

def launched (g : TimeGate.Shared) : TimeGate.Thread :=
  if g.creditMode = 1 then { batchStartUs := g.nowUs, batchKernelCount := 1 } else {}

theorem launched_outside (g : TimeGate.Shared) : (launched g).pc = .outside := by
  unfold launched
  split <;> rfl

theorem launch_fires (g : TimeGate.Shared) :
    Guarded TimeAwake TimeGate.TimeStep (solo g {}) (.launch 0) (solo g { pc := .loadMode }) := by
  constructor
  · rfl
  · show TimeGate.next _ _ = _
    simp only [TimeGate.next, solo, update_solo, if_true]
    rfl

theorem started_path (timed : g.creditMode = 1) :
    Run (Guarded TimeAwake TimeGate.TimeStep) (solo g { pc := .batchStart }) [.step 0]
      (solo g (launched g)) := by
  have begins : TimeGate.access g { pc := .batchStart } = (g, launched g) := by
    simp [TimeGate.access, launched, timed]
  exact awake_cons (k := 0) rfl begins (.nil _)

theorem free_path (plain : Plain g) (free : Free g) : ∃ k,
    Run (Guarded TimeAwake TimeGate.TimeStep) (solo g { pc := .loadMode })
      (List.replicate k (.step 0)) (solo g (launched g)) := by
  by_cases timed : g.creditMode = 1
  · have boost : TimeGate.access g { pc := .loadMode } = (g, { pc := .loadBoost }) := by
      simp [TimeGate.access, TimeGate.Thread.goto, timed]
    have unlimited : TimeGate.access g { pc := .loadBoost } = (g, { pc := .loadUnlimited }) := by
      simp [TimeGate.access, TimeGate.Thread.goto, plain.boost]
    by_cases without : g.timeUnlimited = true
    · have start : TimeGate.access g { pc := .loadUnlimited } = (g, { pc := .batchStart }) := by
        simp [TimeGate.access, TimeGate.Thread.goto, without]
      exact ⟨4, awake_cons rfl boost (awake_cons rfl unlimited
        (awake_cons rfl start (started_path timed)))⟩
    · have credit : TimeGate.access g { pc := .loadUnlimited } = (g, { pc := .loadCredit }) := by
        simp [TimeGate.access, TimeGate.Thread.goto, without]
      have positive := (free timed).resolve_left without
      have start : TimeGate.access g { pc := .loadCredit } = (g, { pc := .batchStart }) := by
        simp [TimeGate.access, TimeGate.Thread.goto, positive]
      exact ⟨5, awake_cons rfl boost (awake_cons rfl unlimited
        (awake_cons rfl credit (awake_cons rfl start (started_path timed))))⟩
  · have kernel : TimeGate.access g { pc := .loadMode } = (g, { pc := .kernelGate }) := by
      simp [TimeGate.access, TimeGate.Thread.goto, timed]
    have out : TimeGate.access g { pc := .kernelGate } = (g, launched g) := by
      simp [TimeGate.access, TimeGate.Thread.goto, launched, timed]
    exact ⟨2, awake_cons rfl kernel (awake_cons rfl out (.nil _))⟩

theorem held_path (plain : Plain g) (held : ¬ Free g) :
    Run TimeGate.TimeStep (solo g { pc := .loadMode }) (List.replicate 9 (.step 0))
      (solo g { pc := .waitUnlimited 0 }) := by
  simp only [Free, Classical.not_imp, not_or, Bool.not_eq_true, not_lt] at held
  obtain ⟨timed, limited, exhausted⟩ := held
  have boost : TimeGate.access g { pc := .loadMode } = (g, { pc := .loadBoost }) := by
    simp [TimeGate.access, TimeGate.Thread.goto, timed]
  have unlimited : TimeGate.access g { pc := .loadBoost } = (g, { pc := .loadUnlimited }) := by
    simp [TimeGate.access, TimeGate.Thread.goto, plain.boost]
  have credit : TimeGate.access g { pc := .loadUnlimited } = (g, { pc := .loadCredit }) := by
    simp [TimeGate.access, TimeGate.Thread.goto, limited]
  have priority : TimeGate.access g { pc := .loadCredit } =
      (g, { pc := .loadPriority g.timeCreditUs }) := by
    simp [TimeGate.access, TimeGate.Thread.goto, exhausted]
  have charge : TimeGate.access g { pc := .loadPriority g.timeCreditUs } =
      (g, { pc := .charge (.wait g.timeCreditUs) }) := by
    simp [TimeGate.access, TimeGate.Thread.goto, plain.priority]
  have metrics : TimeGate.access g { pc := .charge (.wait g.timeCreditUs) } =
      (g, { pc := .loadMetrics g.timeCreditUs }) := by
    simp [TimeGate.access, TimeGate.Thread.goto, TimeGate.resume]
  have wake : TimeGate.access g { pc := .loadMetrics g.timeCreditUs } =
      (g, { pc := .wakePriority g.timeCreditUs }) := by
    simp [TimeGate.access, TimeGate.Thread.goto]
  have wc : TimeGate.access g { pc := .wakePriority g.timeCreditUs } =
      (g, { pc := .loadWcOn 0 }) := by
    simp [TimeGate.access, TimeGate.Thread.goto, TimeGate.loopTest, plain.priority, exhausted]
  have wait : TimeGate.access g { pc := .loadWcOn 0 } = (g, { pc := .waitUnlimited 0 }) := by
    simp [TimeGate.access, TimeGate.Thread.goto, plain.wc]
  exact solo_cons boost (solo_cons unlimited (solo_cons credit (solo_cons priority
    (solo_cons charge (solo_cons metrics (solo_cons wake (solo_cons wc (solo_cons wait
      (.nil _)))))))))

theorem kernel_gate_open :
    Run (Guarded KernelAwake KernelGate.KernelStep) {} (kernelLaunching 2) {} := by
  refine .cons (t := ⟨{}, fun _ => { pc := .loadBoost }⟩) ⟨?_, ?_⟩
    (.cons (t := ⟨{}, fun _ => { pc := .loadCredit }⟩) ⟨?_, ?_⟩ (.cons (t := {}) ⟨?_, ?_⟩ (.nil _)))
  · intro waited at_cur
    cases at_cur
  · simp only [Fires, KernelGate.next, update_solo, if_true]
    rfl
  · intro waited at_cur
    cases at_cur
  · simp only [Fires, KernelGate.next, update_solo]
    rfl
  · intro waited at_cur
    cases at_cur
  · simp only [Fires, KernelGate.next, update_solo]
    rfl

def gpuAt (g : TimeGate.Shared) : Gpu := ⟨solo g {}, {}⟩

theorem gpu_admits_iff (plain : Plain g) : (gpuAt g).Admits ↔ Free g := by
  constructor
  · rintro ⟨⟨k, s, run, done⟩, -⟩
    by_contra held
    cases run with
    | cons head tail =>
      have eq := fires_deterministic _ _ _ _ _ head.2 (launch_fires g).2
      subst eq
      exact refused_never_settles time_rests (held_path plain held) (by simp [TimeAwake, solo, yields])
        (by simp [solo]) tail done
  · intro free
    obtain ⟨k, run⟩ := free_path plain free
    exact ⟨⟨k, _, .cons (launch_fires g) run, launched_outside g⟩,
      fun _ => ⟨2, _, kernel_gate_open, rfl⟩⟩

def measured (g : TimeGate.Shared) (us : ℕ) : TimeGate.Shared :=
  { g with
    totalTimeUs := g.totalTimeUs + us
    avgKernelTimeUs := TimeGate.newAvg g.avgKernelTimeUs us 1 }

def worked (g : TimeGate.Shared) (us : ℕ) : TimeGate.Shared :=
  if g.creditMode = 1 then
    { measured g us with
      nowUs := g.nowUs + us
      timeCreditUs := if g.timeUnlimited then g.timeCreditUs else g.timeCreditUs - us }
  else { g with nowUs := g.nowUs + us }

def inBatch (start : ℤ) (pc : TimeGate.PC) : TimeGate.Thread :=
  { pc := pc, batchStartUs := start, batchKernelCount := 1 }

theorem measured_path {start : ℤ} {us : ℕ} (timed : g.creditMode = 1)
    (elapsed : g.nowUs - start = us)
    (tail : Run TimeGate.TimeStep
      (solo (measured g us) (inBatch start (.chargeUnlimited us .synced)))
      (List.replicate k (.step 0)) u) :
    Run TimeGate.TimeStep (solo g (inBatch start .syncMode)) (List.replicate (k + 5) (.step 0)) u := by
  have mode : TimeGate.access g (inBatch start .syncMode) = (g, inBatch start (.charge .synced)) := by
    simp [TimeGate.access, TimeGate.Thread.goto, inBatch, timed]
  have charge : TimeGate.access g (inBatch start (.charge .synced)) =
      (g, inBatch start (.addTotal us .synced)) := by
    simp [TimeGate.access, TimeGate.Thread.goto, inBatch, elapsed]
  exact solo_cons mode (solo_cons charge (solo_cons rfl (solo_cons rfl (solo_cons rfl tail))))

theorem charge_path (start : ℤ) (us : ℕ) (timed : g.creditMode = 1)
    (elapsed : g.nowUs - start = us) : ∃ k,
    Run TimeGate.TimeStep (solo g (inBatch start .syncMode)) (List.replicate k (.step 0))
      (solo
        { measured g us with
          timeCreditUs := if g.timeUnlimited then g.timeCreditUs else g.timeCreditUs - us } {}) := by
  by_cases without : g.timeUnlimited = true
  · refine ⟨6, measured_path timed elapsed (solo_cons ?_ (.nil _))⟩
    simp [TimeGate.access, TimeGate.Thread.reset, TimeGate.resume, inBatch, measured, without]
  · have limited : TimeGate.access (measured g us) (inBatch start (.chargeUnlimited us .synced)) =
        (measured g us, inBatch start (.subCredit us .synced)) := by
      simp [TimeGate.access, TimeGate.Thread.goto, inBatch, measured, without]
    refine ⟨7, measured_path timed elapsed (solo_cons limited (solo_cons ?_ (.nil _)))⟩
    simp [TimeGate.access, TimeGate.Thread.reset, TimeGate.resume, inBatch, measured, without]

theorem synchronize_path (g : TimeGate.Shared) (us : ℕ) : ∃ k,
    Run TimeGate.TimeStep (solo g (launched g)) (.tick us :: synchronizing k)
      (solo (worked g us) {}) := by
  by_cases timed : g.creditMode = 1
  · obtain ⟨k, run⟩ := charge_path (g := { g with nowUs := g.nowUs + us }) g.nowUs us timed
      (add_sub_cancel_left _ _)
    refine ⟨k, .cons (t := solo { g with nowUs := g.nowUs + us } (launched g)) rfl
      (.cons (t := solo { g with nowUs := g.nowUs + us } (inBatch g.nowUs .syncMode)) ?_ ?_)⟩
    · simp only [Fires, TimeGate.next, solo, update_solo, launched, timed, if_true]
      rfl
    · rw [worked, if_pos timed]
      exact run
  · refine ⟨1, .cons (t := solo { g with nowUs := g.nowUs + us } (launched g)) rfl
      (.cons (t := solo { g with nowUs := g.nowUs + us } { pc := .syncMode }) ?_
        (solo_cons (k := 0) ?_ (.nil _)))⟩
    · simp only [Fires, TimeGate.next, solo, update_solo, launched, timed, if_false, if_true]
      rfl
    · simp [TimeGate.access, TimeGate.Thread.goto, worked, timed]

theorem gpu_works (plain : Plain g) (free : Free g) (us : ℕ) :
    (gpuAt g).Works us (gpuAt (worked g us)) := by
  obtain ⟨j, there⟩ := free_path plain free
  obtain ⟨k, back⟩ := synchronize_path g us
  constructor
  · exact ⟨j, k, _, .cons (launch_fires g).2 (run_mono (fun _ _ _ step => step.2) there),
      launched_outside g, back, rfl⟩
  · split
    · rfl
    · exact ⟨2, run_mono (fun _ _ _ step => step.2) kernel_gate_open, rfl⟩

def gpuAfter (g : TimeGate.Shared) : Feed Req → TimeGate.Shared
  | .timeMode m => { g with creditMode := m }
  | .timeCredit v =>
    { g with timeUnlimited := decide (v < 0), timeCreditUs := if v < 0 then -1 else v }
  | .timeAdd us => { g with timeCreditUs := g.timeCreditUs + us }
  | .work us _ _ => worked g us

theorem gpu_steps (plain : Plain g) (a : Feed Req)
    (free : ∀ us req endedAt, a = .work us req endedAt → Free g) :
    (gpuAt g).Step a (gpuAt (gpuAfter g a)) := by
  cases a with
  | timeMode m => exact ⟨.cons rfl (.nil _), rfl⟩
  | timeCredit v =>
    refine ⟨?_, rfl⟩
    by_cases negative : v < 0
    · refine .cons (t := ⟨{ g with timeUnlimited := true }, fun _ => {}, .storeCredit (-1)⟩) ?_
        (.cons ?_ (.nil _))
      · simp [Fires, TimeGate.next, TimeGate.command, gpuAt, solo, negative]
      · simp [Fires, TimeGate.next, gpuAt, solo, gpuAfter, negative]
    · refine .cons (t := ⟨{ g with timeUnlimited := false }, fun _ => {}, .storeCredit v⟩) ?_
        (.cons ?_ (.nil _))
      · simp [Fires, TimeGate.next, TimeGate.command, gpuAt, solo, negative]
      · simp [Fires, TimeGate.next, gpuAt, solo, gpuAfter, negative]
  | timeAdd us => exact ⟨.cons rfl (.nil _), rfl⟩
  | work us req endedAt => exact gpu_works plain (free us req endedAt rfl) us

theorem works_deterministic {a b c : Gpu} {us : ℕ} (first : a.Works us b) (second : a.Works us c) :
    b = c := by
  obtain ⟨⟨j, k, m, there, out, back, ended⟩, kernel⟩ := first
  obtain ⟨⟨j', k', m', there', out', back', ended'⟩, kernel'⟩ := second
  have time : b.time = c.time := by
    cases there with
    | cons head there =>
      cases there' with
      | cons head' there' =>
        have eq := fires_deterministic _ _ _ _ _ head head'
        subst eq
        have eq := settled_unique time_rests there there' out out'
        subst eq
        rcases back with _ | ⟨tick, _ | ⟨sync, back⟩⟩
        rcases back' with _ | ⟨tick', _ | ⟨sync', back'⟩⟩
        have eq := fires_deterministic _ _ _ _ _ tick tick'
        subst eq
        have eq := fires_deterministic _ _ _ _ _ sync sync'
        subst eq
        exact settled_unique time_rests back back' ended ended'
  have counted : b.kernel = c.kernel := by
    by_cases timed : a.time.shared.creditMode = 1
    · rw [if_pos timed] at kernel kernel'
      rw [kernel, kernel']
    · rw [if_neg timed] at kernel kernel'
      obtain ⟨k, run, out⟩ := kernel
      obtain ⟨k', run', out'⟩ := kernel'
      rcases run with _ | ⟨head, run⟩
      rcases run' with _ | ⟨head', run'⟩
      have eq := fires_deterministic _ _ _ _ _ head head'
      subst eq
      exact settled_unique kernel_rests run run' out out'
  exact Gpu.ext time counted

theorem commanded_deterministic {a b c : Gpu} {labels : List (TimeGate.Action 1)}
    (first : Run TimeGate.TimeStep a.time labels b.time ∧ b.kernel = a.kernel)
    (second : Run TimeGate.TimeStep a.time labels c.time ∧ c.kernel = a.kernel) : b = c := by
  have time := run_deterministic (fires_deterministic TimeGate.next) first.1 second.1
  have kernel := first.2.trans second.2.symm
  exact Gpu.ext time kernel

theorem gpu_deterministic {s b c : Gpu} {a : Feed Req} (first : s.Step a b) (second : s.Step a c) :
    b = c := by
  cases a with
  | work us req endedAt => exact works_deterministic first second
  | _ => exact commanded_deterministic first second

end Gates

section Tenants
variable {cfg : Config} {name : Name} {t : Tenant Req} {oid : ℕ}

def npuAt (name : Name) (t : Tenant Req) (oid : ℕ) : Core Name Req :=
  ⟨⟨[(name, t)], by simp⟩, oid, none⟩

theorem npuAt_get? : (npuAt name t oid).tenants.get? name = some t := by
  simp [npuAt, Dict.get?, Dict.lookup]

theorem npuAt_cmd (k : Cmd) :
    (cmd cfg (npuAt name t oid) name k).1 = npuAt name (applyCmd cfg t k) oid := by
  unfold cmd
  rw [npuAt_get?]
  simp [npuAt, Dict.modify]

theorem npuAt_submit (req : Req) :
    submit (npuAt name t oid) name req =
      some (npuAt name { t with queue := t.queue ++ [req] } oid) := by
  unfold submit
  rw [npuAt_get?]
  simp [npuAt, Dict.modify]

omit [DecidableEq Name] in
theorem npuAt_candidates (waiting : t.queue ≠ []) :
    candidates (npuAt name t oid) = if mayRun t then [(name, t)] else [] := by
  simp [candidates, ready, npuAt, waiting, List.filter_cons]

theorem npu_admits_iff [Inhabited Req] : NpuAdmits name (npuAt name t oid) ↔ mayRun t = true := by
  constructor
  · intro admits
    obtain ⟨c, e, submitted, member⟩ := admits default
    rw [npuAt_submit, Option.some.injEq] at submitted
    subst submitted
    rw [npuAt_candidates (by simp)] at member
    by_contra held
    rw [if_neg (by simpa [mayRun] using held)] at member
    cases member
  · intro may req
    refine ⟨_, { t with queue := t.queue ++ [req] }, npuAt_submit req, ?_⟩
    rw [npuAt_candidates (by simp), if_pos (by simpa [mayRun] using may)]
    exact List.mem_singleton_self _

def npuAfter (cfg : Config) (t : Tenant Req) : Feed Req → Tenant Req
  | .timeMode m => applyCmd cfg t (.timeMode m)
  | .timeCredit v => applyCmd cfg t (.timeCredit v)
  | .timeAdd us => applyCmd cfg t (.timeAdd us)
  | .work us _ endedAt => charge cfg false us endedAt t

theorem npu_works (empty : t.queue = []) (may : mayRun t = true) (us : ℕ) (req : Req)
    (endedAt : ℚ) :
    NpuStep cfg name (npuAt name t oid) (.work us req endedAt)
      (npuAt name (charge cfg false us endedAt t) oid) := by
  have chosen : eligible cfg (npuAt name { t with queue := [req] } oid) =
      some ((name, { t with queue := [req] }), false) := by
    unfold eligible
    rw [npuAt_candidates (by simp), if_pos (by simpa [mayRun] using may), List.argmin_singleton]
  let f : Flight Name Req := ⟨name, t.oid, req, false⟩
  let running : Core Name Req := { npuAt name t oid with flight := some f }
  have popped : popFrom (npuAt name { t with queue := [req] } oid) (name, { t with queue := [req] })
      false = some (running, f) := by
    simp [popFrom, npuAt, Dict.modify, running, f, ← empty]
  have finished : finish cfg running f us endedAt =
      npuAt name (charge cfg false us endedAt t) oid := by
    simp [finish, npuAt, Dict.modify, running, f]
  refine ⟨f, .cons (.submit (by rw [npuAt_submit, empty]; rfl))
    (.cons (.selected rfl chosen popped) (.cons ?_ (.nil _)))⟩
  rw [← finished]
  exact .finished rfl (by simp)

theorem npu_steps (a : Feed Req) (empty : t.queue = [])
    (free : ∀ us req endedAt, a = .work us req endedAt → mayRun t = true) :
    NpuStep cfg name (npuAt name t oid) a (npuAt name (npuAfter cfg t a) oid) := by
  cases a with
  | timeMode m => exact (npuAt_cmd (.timeMode m)).symm
  | timeCredit v => exact (npuAt_cmd (.timeCredit v)).symm
  | timeAdd us => exact (npuAt_cmd (.timeAdd us)).symm
  | work us req endedAt => exact npu_works empty (free us req endedAt rfl) us req endedAt

theorem work_cases {c c' : Core Name Req} {us : ℕ} {req : Req} {endedAt : ℚ}
    (work : NpuStep cfg name c (.work us req endedAt) c') : ∃ queued popped e extra f,
    submit c name req = some queued ∧ eligible cfg queued = some (e, extra) ∧
      popFrom queued e extra = some (popped, f) ∧ c' = finish cfg popped f us endedAt := by
  obtain ⟨f, run⟩ := work
  rcases run with _ | ⟨submitted, _ | ⟨selected, _ | ⟨finished, _ | _⟩⟩⟩
  cases submitted with
  | submit submitted =>
    cases selected with
    | selected free chosen pop =>
      cases finished
      exact ⟨_, _, _, _, f, submitted, chosen, pop, rfl⟩

theorem npu_deterministic {c b d : Core Name Req} {a : Feed Req} (first : NpuStep cfg name c a b)
    (second : NpuStep cfg name c a d) : b = d := by
  cases a with
  | work us req endedAt =>
    obtain ⟨q, p, e, extra, f, submitted, chosen, pop, rfl⟩ := work_cases first
    obtain ⟨q', p', e', extra', f', submitted', chosen', pop', rfl⟩ := work_cases second
    cases submitted.symm.trans submitted'
    cases chosen.symm.trans chosen'
    cases pop.symm.trans pop'
    rfl
  | _ => exact first.trans second.symm

end Tenants

section Pairs
variable {cfg : Config} {name : Name} {g : TimeGate.Shared} {t : Tenant Req} {oid : ℕ}

/-- The two gates hold the same mode, and the same balance where libbless has a limit. -/
structure Matched (g : TimeGate.Shared) (t : Tenant Req) : Prop where
  plain : Plain g
  empty : t.queue = []
  mode : t.armed = decide (g.creditMode = 1)
  limited : g.timeUnlimited = false → t.unlimited = false ∧ t.creditUs = g.timeCreditUs

def pairAt (name : Name) (g : TimeGate.Shared) (t : Tenant Req) (oid : ℕ) : Pair Name Req :=
  ⟨gpuAt g, npuAt name t oid⟩

def Steady (name : Name) (s : Pair Name Req) : Prop :=
  ∃ g t oid, s = pairAt name g t oid ∧ Matched g t

def Parted (g : TimeGate.Shared) (t : Tenant Req) : Prop :=
  g.creditMode = 1 ∧ g.timeUnlimited = true ∧ t.unlimited = false ∧ t.creditUs ≤ 0

theorem free_of_mayRun (matched : Matched g t) (may : mayRun t = true) : Free g := by
  intro timed
  by_contra held
  simp only [not_or, Bool.not_eq_true, not_lt] at held
  obtain ⟨limited, same⟩ := matched.limited held.1
  simp [mayRun, limited, matched.mode, timed, same] at may
  omega

theorem mayRun_of_free (matched : Matched g t) (together : ¬ Parted g t) (free : Free g) :
    mayRun t = true := by
  by_contra held
  simp only [mayRun, matched.mode, Bool.or_eq_true, Bool.not_eq_true', decide_eq_true_eq,
    decide_eq_false_iff_not, not_or, not_not, Bool.not_eq_true, not_lt] at held
  obtain ⟨⟨limited, timed⟩, exhausted⟩ := held
  by_cases without : g.timeUnlimited = true
  · exact together ⟨timed, without, limited, exhausted⟩
  · have positive := (free timed).resolve_left without
    obtain ⟨-, same⟩ := matched.limited (by simpa using without)
    rw [same] at exhausted
    exact absurd positive (not_lt.mpr (by exact_mod_cast exhausted))

theorem agree_iff [Inhabited Req] (matched : Matched g t) :
    Agree name (pairAt name g t oid) ↔ ¬ Parted g t := by
  have same : Agree name (pairAt name g t oid) ↔ (Free g ↔ mayRun t = true) :=
    iff_congr (gpu_admits_iff matched.plain) npu_admits_iff
  rw [same]
  constructor
  · rintro same ⟨timed, without, limited, exhausted⟩
    have may := same.mp fun _ => .inl without
    simp [mayRun, limited, matched.mode, timed] at may
    exact absurd may (not_lt.mpr exhausted)
  · intro together
    exact ⟨mayRun_of_free matched together, free_of_mayRun matched⟩

theorem worked_creditMode (us : ℕ) : (worked g us).creditMode = g.creditMode := by
  unfold worked
  split <;> rfl

theorem worked_timeUnlimited (us : ℕ) : (worked g us).timeUnlimited = g.timeUnlimited := by
  unfold worked
  split <;> rfl

theorem worked_plain (plain : Plain g) (us : ℕ) : Plain (worked g us) := by
  unfold worked
  split <;> exact ⟨plain.boost, plain.priority, plain.wc⟩

omit [DecidableEq Name] in
theorem matched_after (matched : Matched g t) (a : Feed Req)
    (underCap : (npuAfter cfg t a).creditUs < cfg.creditCapUs) :
    Matched (gpuAfter g a) (npuAfter cfg t a) := by
  obtain ⟨plain, empty, mode, limited⟩ := matched
  cases a with
  | timeMode m =>
    refine ⟨⟨plain.boost, plain.priority, plain.wc⟩, empty, rfl, ?_⟩
    intro bounded
    obtain ⟨bound, same⟩ := limited bounded
    exact ⟨by simp [npuAfter, applyCmd, bound], same⟩
  | timeCredit v =>
    by_cases negative : v < 0
    · refine ⟨⟨plain.boost, plain.priority, plain.wc⟩, ?_, ?_, ?_⟩
      · simpa [npuAfter, applyCmd, negative] using empty
      · simpa [npuAfter, gpuAfter, applyCmd, negative] using mode
      · simp [gpuAfter, negative]
    · refine ⟨⟨plain.boost, plain.priority, plain.wc⟩, ?_, ?_, ?_⟩
      · simpa [npuAfter, applyCmd, negative] using empty
      · simpa [npuAfter, gpuAfter, applyCmd, negative] using mode
      · intro _
        simp only [npuAfter, applyCmd, negative, if_false, min_lt_iff, lt_irrefl, or_false] at underCap
        simp [npuAfter, gpuAfter, applyCmd, negative, underCap.le]
  | timeAdd us =>
    refine ⟨⟨plain.boost, plain.priority, plain.wc⟩, empty, mode, ?_⟩
    intro bounded
    obtain ⟨bound, same⟩ := limited bounded
    refine ⟨bound, ?_⟩
    simp only [npuAfter, applyCmd, timeAdd, min_lt_iff, lt_irrefl, or_false] at underCap
    simp only [npuAfter, gpuAfter, applyCmd, timeAdd, min_eq_left underCap.le]
    rw [same]
    push_cast
    rfl
  | work us req endedAt =>
    refine ⟨worked_plain plain us, ?_, ?_, ?_⟩
    · simp [npuAfter, charge, empty]
    · simp [npuAfter, gpuAfter, charge, worked_creditMode, mode]
    · intro bounded
      rw [gpuAfter, worked_timeUnlimited] at bounded
      obtain ⟨bound, same⟩ := limited bounded
      refine ⟨by simpa [npuAfter, charge] using bound, ?_⟩
      by_cases timed : g.creditMode = 1
      · simp [npuAfter, gpuAfter, charge, worked, timed, mode, bound, bounded, same]
      · simp [npuAfter, gpuAfter, charge, worked, timed, mode, same]

variable (cfg name oid) in
theorem both_after (matched : Matched g t) (a : Feed Req)
    (free : ∀ us req endedAt, a = .work us req endedAt → mayRun t = true)
    (underCap : (npuAfter cfg t a).creditUs < cfg.creditCapUs) [Inhabited Req] :
    Both cfg name (pairAt name g t oid) a
      (pairAt name (gpuAfter g a) (npuAfter cfg t a) oid) := by
  have free' : ∀ us req endedAt, a = .work us req endedAt → Free g := fun us req endedAt item =>
    free_of_mayRun matched (free us req endedAt item)
  refine ⟨gpu_steps matched.plain a free', npu_steps a matched.empty free, ?_, ?_⟩
  · intro us req endedAt item
    exact ⟨(gpu_admits_iff matched.plain).mpr (free' us req endedAt item),
      npu_admits_iff.mpr (free us req endedAt item)⟩
  · intro e found
    have found := npuAt_get?.symm.trans found
    rw [Option.some.injEq] at found
    rw [← found]
    exact underCap

theorem both_deterministic (s : Pair Name Req) (a : Feed Req) (u v : Pair Name Req)
    (first : Both cfg name s a u) (second : Both cfg name s a v) : u = v := by
  have gpu := gpu_deterministic first.gpu second.gpu
  have npu := npu_deterministic first.npu second.npu
  exact Pair.ext gpu npu

theorem both_cases [Inhabited Req] {u : Pair Name Req} {a : Feed Req} (matched : Matched g t)
    (step : Both cfg name (pairAt name g t oid) a u) :
    u = pairAt name (gpuAfter g a) (npuAfter cfg t a) oid ∧
      Matched (gpuAfter g a) (npuAfter cfg t a) := by
  have free : ∀ us req endedAt, a = .work us req endedAt → mayRun t = true := fun us req endedAt item =>
    npu_admits_iff.mp (step.admitted us req endedAt item).2
  have landed : u.npu = npuAt name (npuAfter cfg t a) oid :=
    npu_deterministic step.npu (npu_steps a matched.empty free)
  have underCap := step.underCap (npuAfter cfg t a) (by rw [landed, npuAt_get?])
  have same := both_deterministic _ _ _ _ step (both_after cfg name oid matched a free underCap)
  exact ⟨same, matched_after matched a underCap⟩

theorem covered_iff (matched : Matched g t) (together : ¬ Parted g t) (a : Feed Req)
    (underCap : (npuAfter cfg t a).creditUs < cfg.creditCapUs) :
    Covered name (pairAt name g t oid) a ↔ ¬ Parted (gpuAfter g a) (npuAfter cfg t a) := by
  have tenant : ∀ p : Tenant Req → Prop,
      (∀ e, (pairAt name g t oid).npu.tenants.get? name = some e → p e) ↔ p t := by
    intro p
    show (∀ e, (npuAt name t oid).tenants.get? name = some e → p e) ↔ p t
    simp [npuAt_get?]
  cases a with
  | timeMode m =>
    simp only [Covered, tenant]
    show (m = 1 → g.timeUnlimited = true → 0 < t.creditUs) ↔ _
    by_cases arms : m = 1
    · simp [Parted, gpuAfter, npuAfter, applyCmd, arms]
    · simp [Parted, gpuAfter, arms]
  | timeCredit v =>
    simp only [Covered, true_iff]
    rintro ⟨-, without, limited, -⟩
    simp only [gpuAfter, decide_eq_true_eq] at without
    simp [npuAfter, applyCmd, without] at limited
  | timeAdd us =>
    simp only [Covered, true_iff]
    rintro ⟨timed, without, limited, exhausted⟩
    simp only [npuAfter, applyCmd, timeAdd, min_lt_iff, lt_irrefl, or_false] at underCap
    simp only [npuAfter, applyCmd, timeAdd, min_eq_left underCap.le] at exhausted
    have added : (0 : ℚ) ≤ us := by positivity
    exact together ⟨timed, without, limited, by linarith⟩
  | work us req endedAt =>
    simp only [Covered, tenant]
    show (g.creditMode = 1 → g.timeUnlimited = true → t.unlimited = true ∨ us < t.creditUs) ↔ _
    by_cases timed : g.creditMode = 1
    · by_cases without : t.unlimited = true
      · simp [Parted, npuAfter, charge, without]
      · simp [Parted, gpuAfter, npuAfter, charge, worked_creditMode, worked_timeUnlimited, timed,
          matched.mode, without]
    · simp [Parted, gpuAfter, worked_creditMode, timed]

theorem fresh_eq : (Pair.fresh name : Pair Name Req) = pairAt name {} { oid := 0 } 1 := by
  simp [Pair.fresh, Gpu.fresh, pairAt, gpuAt, solo, npuAt, register, Core.init, Dict.setDefault,
    Dict.empty, Dict.lookup]

theorem fresh_matched : Matched {} ({ oid := 0 } : Tenant Req) :=
  ⟨⟨rfl, rfl, rfl⟩, rfl, rfl, by intro bounded; cases bounded⟩

theorem fresh_together : ¬ Parted {} ({ oid := 0 } : Tenant Req) := by
  rintro ⟨timed, -⟩
  cases timed

variable [Inhabited Req]

theorem steady_step (s : Pair Name Req) (a : Feed Req) (u : Pair Name Req) (steady : Steady name s)
    (step : Both cfg name s a u) : Steady name u := by
  obtain ⟨g, t, oid, rfl, matched⟩ := steady
  obtain ⟨rfl, after⟩ := both_cases matched step
  exact ⟨_, _, oid, rfl, after⟩

theorem covered_step_iff (s : Pair Name Req) (a : Feed Req) (u : Pair Name Req)
    (steady : Steady name s) (agree : Agree name s) (step : Both cfg name s a u) :
    Covered name s a ↔ Agree name u := by
  obtain ⟨g, t, oid, rfl, matched⟩ := steady
  obtain ⟨rfl, after⟩ := both_cases matched step
  rw [agree_iff after]
  exact covered_iff matched ((agree_iff matched).mp agree) a (step.underCap _ npuAt_get?)

/-- The two gates agree after every prefix of what both are fed exactly when every item of
    it is covered. -/
theorem gates_agree_iff {labels : List (Feed Req)} {s : Pair Name Req}
    (run : Run (Both cfg name) (Pair.fresh name) labels s) :
    Run (Guarded (Covered name) (Both cfg name)) (Pair.fresh name) labels s ↔
      ∀ xs ys u, labels = xs ++ ys → Run (Both cfg name) (Pair.fresh name) xs u → Agree name u := by
  apply run_guarded_iff both_deterministic steady_step covered_step_iff run
  · exact ⟨_, _, _, fresh_eq, fresh_matched⟩
  · rw [fresh_eq]
    exact (agree_iff fresh_matched).mpr fresh_together

end Pairs

def strict : Config := { workConserving := false }

def limitFirst : List (Feed ℕ) := [.timeCredit 100, .timeMode 1, .work 40 7 5, .timeAdd 20]

theorem limit_first_agrees : ∃ s : Pair ℕ ℕ,
    Run (Both strict 0) (Pair.fresh 0) limitFirst s ∧
      ∀ xs ys u, limitFirst = xs ++ ys → Run (Both strict 0) (Pair.fresh 0) xs u → Agree 0 u := by
  have given := both_after strict 0 1 fresh_matched
    (.timeCredit 100 : Feed ℕ) (by rintro _ _ _ ⟨⟩) (by decide +kernel)
  have matched := (both_cases fresh_matched given).2
  have armed := both_after strict 0 1 matched (.timeMode 1)
    (by rintro _ _ _ ⟨⟩) (by decide +kernel)
  have matched := (both_cases matched armed).2
  have worked := both_after strict 0 1 matched (.work 40 7 5)
    (by intro _ _ _ _; decide +kernel) (by decide +kernel)
  have matched := (both_cases matched worked).2
  have added := both_after strict 0 1 matched (.timeAdd 20)
    (by rintro _ _ _ ⟨⟩) (by decide +kernel)
  rw [← fresh_eq] at given
  refine ⟨_, .cons given (.cons armed (.cons worked (.cons added (.nil _)))), ?_⟩
  apply (gates_agree_iff (.cons given (.cons armed (.cons worked (.cons added (.nil _)))))).mp
  refine .cons ⟨trivial, given⟩ (.cons ⟨?_, armed⟩ (.cons ⟨?_, worked⟩
    (.cons ⟨trivial, added⟩ (.nil _))))
  · rintro - ⟨⟩
  · rintro - ⟨⟩

theorem arming_parts_the_gates : ∃ s : Pair ℕ ℕ,
    Run (Both strict 0) (Pair.fresh 0) [.timeMode 1] s ∧ s.gpu.Admits ∧ ¬ NpuAdmits 0 s.npu := by
  have armed := both_after strict 0 1 fresh_matched
    (.timeMode 1 : Feed ℕ) (by rintro _ _ _ ⟨⟩) (by decide +kernel)
  have matched := (both_cases fresh_matched armed).2
  rw [← fresh_eq] at armed
  refine ⟨_, .cons armed (.nil _), (gpu_admits_iff matched.plain).mpr fun _ => .inl rfl, ?_⟩
  intro admits
  exact absurd (npu_admits_iff.mp admits) (by decide +kernel)

end CommandContract
