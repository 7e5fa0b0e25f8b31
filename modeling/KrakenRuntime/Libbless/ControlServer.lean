import KrakenRuntime.Libbless.ControlText
import KrakenRuntime.Libbless.MemoryLedger
import KrakenRuntime.Libbless.QmdShare
import KrakenRuntime.Libbless.Routing
import KrakenRuntime.Libbless.TimeGate

/- The settings of a libbless process (libbless.cpp): what ensure_init makes of the
   environment, and what every branch of the control server does to them. Datagrams can hold
   any bytes. The time-credit variables are those of TimeGate, the memory counters those of
   MemoryLedger, the masks those of QmdMode; a command that stores twice is one step here.
   The product of a number of SMs and a percentage is computed in single precision, and is
   any function that gives no more SMs than there are. Messages to BLESS_MASTER and on stderr
   are left out, and with them the branches that only print. -/
namespace ControlServer
open Runs

inductive SpaceMode where
  | ctx
  | mpsEnv
  | qmd
  deriving DecidableEq

/-- The variables of the spatial limit. `ctxLimited` says whether the context is there. -/
structure Space where
  mode : SpaceMode := .ctx
  totalSms : ℤ
  ctxLimited : Bool := false
  limitedApplied : Bool := false
  limitedSms : ℤ := 0
  requestedPct : ℤ := 50
  gate : ℤ := 0
  qmd : QmdMode.State := {}
  deriving DecidableEq

structure Settings where
  space : Space
  time : TimeGate.Shared := {}
  memory : MemoryLedger.Memory := {}
  creditRemain : ℤ := -1
  route : Routing.Route := .limited
  anyAlloc : Bool := false
  pauseMode : Bool := false
  squadSize : ℤ := 100
  squadProg : ℤ := 0
  shareQuota : ℤ := 0
  sdSent : ℤ := 0
  timeSliceUs : ℤ := 1000
  urgentPending : Bool := false
  preemptRequested : Bool := false
  syscallInterceptEnabled : Bool := false
  ctrlRunning : Bool := true
  deriving DecidableEq

/-- What the driver answers to a reconfiguration: to the calls of kraken_qmd_setup, and
    whether a new limited context came out of bless_ctx_create. -/
structure Answers where
  qmd : QmdMode.Driver
  created : Bool

def recreate (anyAlloc : Bool) (sp : Space) (newSms : ℤ) (created : Bool) : Space :=
  if anyAlloc then sp
  else
    { sp with
      ctxLimited := created
      limitedApplied := created
      limitedSms := min (max newSms 1) sp.totalSms
      gate := 0 }

def reconfLimitedCtx (e : QmdMode.Env) (anyAlloc : Bool) (sp : Space) (newSms : ℤ) (a : Answers) :
    Space :=
  match sp.mode with
  | .qmd =>
    -- the branch for QMD does not return
    recreate anyAlloc { sp with qmd := QmdMode.reconfLimitedCtx e sp.qmd a.qmd } newSms a.created
  | .mpsEnv => { sp with ctxLimited := false, limitedApplied := false, limitedSms := newSms, gate := 0 }
  | .ctx => recreate anyAlloc sp newSms a.created

def timeCommand (g : TimeGate.Shared) (c : TimeGate.Command) : TimeGate.Shared :=
  match TimeGate.command g c with
  | (g, .ready) => g
  | (g, .storeCredit us) => { g with timeCreditUs := us }
  | (g, .storePeerIdleAt) => { g with peerIdleAtUs := g.nowUs }

def priority : ℤ → Option TimeGate.Priority
  | 0 => some .urgent
  | 1 => some .normal
  | 2 => some .background
  | _ => none

def Settings.setTime (s : Settings) (c : TimeGate.Command) : Settings :=
  { s with time := timeCommand s.time c }

def Settings.setRoute (s : Settings) (r : Routing.Route) : Settings :=
  if s.anyAlloc then s else { s with route := r }

section Perform
variable (share : ℤ → ℤ → ℤ) (e : QmdMode.Env)

/-- set_limit_pct, with `(int)(total_sms * (pct/100.0f))` as `share`. -/
def setLimitPct (s : Settings) (pct : ℤ) (a : Answers) : Settings :=
  let pct := max 1 (min pct 99)
  let sms := max 1 (share s.space.totalSms pct)
  { s with space := reconfLimitedCtx e s.anyAlloc { s.space with requestedPct := pct } sms a }

def perform (s : Settings) (w : Word) (i : ℤ) (a : Answers) : Settings :=
  match w with
  | .limited => s.setRoute .limited
  | .unlimited => s.setRoute .unlimited
  | .setRoute => s.setRoute (if i = 1 then .unlimited else .limited)
  | .pause => { s with pauseMode := true }
  | .resume => { s with pauseMode := false }
  | .boostOn => s.setTime (.boost true)
  | .boostOff => s.setTime (.boost false)
  | .setSquad => if 0 < i then { s with squadSize := i } else s
  | .setShare =>
    if 0 ≤ i then { s with shareQuota := i, sdSent := if i = 0 then 0 else s.sdSent } else s
  | .squadReset => { s with squadProg := 0, sdSent := 0 }
  | .creditSet => { s with creditRemain := i }
  | .creditOff => { s with creditRemain := -1 }
  | .timeMode => s.setTime (.timeMode i)
  | .timeCredit => s.setTime (.timeCredit i)
  | .timeUnlimited => s.setTime .timeUnlimited
  | .timeSlice => if 0 < i then { s with timeSliceUs := i } else s
  | .timeAdd => s.setTime (.timeAdd i)
  | .peerIdle => s.setTime (.peerIdle i)
  | .memQuota => { s with memory := MemoryLedger.memQuota s.memory i }
  | .memTrack => { s with memory := MemoryLedger.memTrack s.memory i }
  | .memReset => { s with memory := MemoryLedger.memReset s.memory }
  | .prioritySet =>
    match priority i with
    | some p => s.setTime (.prioritySet p)
    | none => s
  | .urgentRequest => { s with urgentPending := true, preemptRequested := true }
  | .urgentLimit => s.setTime (.urgentLimit i)
  | .urgentClear => { s with urgentPending := false, preemptRequested := false }
  | .syscallOn => { s with syscallInterceptEnabled := true }
  | .syscallOff => { s with syscallInterceptEnabled := false }
  | .qmdPct =>
    if s.space.mode = .qmd then
      { s with
        space.qmd := QmdMode.krakenQmdSetAllowed e s.space.qmd (QmdMode.krakenQmdPctToTpc i) }
    else s
  | .reconfSm =>
    if s.space.mode = .mpsEnv then s
    else if 0 < i then { s with space := reconfLimitedCtx e s.anyAlloc s.space i a }
    else s
  | .setLimitPct => if s.space.mode = .mpsEnv then s else setLimitPct share e s i a
  -- the loop is left; the variable ctrl_running itself is only cleared by bless_dtor
  | .quit => { s with ctrlRunning := false }
  | .timeStats | .wcStats | .gateStats | .ctxStats | .memStats | .urgentStats | .queueStats
  | .syscallStats | .smStats | .qmdStats => s

end Perform

/-- What getenv finds. `nvidiaVersion` is the version in /proc/driver/nvidia/version. -/
structure Environment where
  spaceMode : Option (List Char) := none
  qmdDriver : Option (List Char) := none
  nvidiaVersion : Option (List Char) := none
  qmdForce : Option (List Char) := none
  qmdSpread : Option (List Char) := none
  limitPct : Option (List Char) := none
  priority : Option (List Char) := none
  memQuotaMb : Option (List Char) := none
  timeWc : Option (List Char) := none

def isOne (v : Option (List Char)) : Bool := (v.getD []).head? = some '1'

def verifiedDriver : List Char := "590.48.01".toList

def driverVersion (v : Environment) : List Char :=
  match v.qmdDriver with
  | some version => version.take 63
  | none => (v.nvidiaVersion.getD []).take 63

/-- An unknown version is accepted only by force, another version not at all. -/
def qmdPermitted (v : Environment) : Bool :=
  if driverVersion v = [] then isOne v.qmdForce else driverVersion v = verifiedDriver

def chosenMode (v : Environment) : SpaceMode :=
  match v.spaceMode with
  | none => .ctx
  | some m =>
    if m = "mps_env".toList then .mpsEnv
    else if m = "qmd".toList then if qmdPermitted v then .qmd else .ctx
    else .ctx

def strcasecmp (a b : List Char) : Bool := a.map Char.toLower = b.map Char.toLower

def namedPriority (v : Environment) : TimeGate.Priority :=
  match v.priority with
  | none => .normal
  | some name =>
    if strcasecmp name "high".toList then .urgent
    else if strcasecmp name "low".toList then .background
    else .normal

section Init
variable (num : Numbers) (share : ℤ → ℤ → ℤ)

def qmdEnv (v : Environment) : QmdMode.Env := ⟨v.limitPct.map num.atoi, isOne v.qmdSpread⟩

def initPct (v : Environment) : ℤ := QmdShare.initPct (qmdEnv num v)

def initMemory (v : Environment) : MemoryLedger.Memory :=
  match v.memQuotaMb.map num.atoll with
  | some mb => if 0 < mb then MemoryLedger.memQuota {} mb else {}
  | none => {}

/-- The settings with which the control server starts; the quota and the opt-ins are set while
    it already runs, before the first call of the application goes on. -/
def ensureInit (v : Environment) (totalSms : ℤ) (a : Answers) : Settings :=
  let pct := initPct num v
  let sms := max 1 (share totalSms pct)
  let sp : Space := { mode := chosenMode v, totalSms := totalSms, limitedSms := sms, requestedPct := pct }
  { space := reconfLimitedCtx (qmdEnv num v) false sp sms a
    time := { currentPriority := namedPriority v, wcOn := isOne v.timeWc }
    memory := initMemory num v }

/-- Datagrams of any bytes, the mark that an allocation leaves, and the clock. -/
inductive Action where
  | datagram (bytes : List Char) (a : Answers)
  | allocate
  | tick (us : ℕ)

def next (v : Environment) (s : Settings) : Action → Option Settings
  | .datagram bytes a =>
    if s.ctrlRunning then
      match read num chain (received bytes) with
      | some (w, i) => some (perform share (qmdEnv num v) s w i a)
      | none => some s
    else none
  | .allocate => some { s with anyAlloc := true }
  | .tick us => some { s with time.nowUs := s.time.nowUs + us }

abbrev ServerStep (v : Environment) : Settings → Action → Settings → Prop := Fires (next num share v)

end Init

/-- The spatial limit is one that a launch can run under. -/
structure Usable (mode : SpaceMode) (sp : Space) : Prop where
  kept : sp.mode = mode
  exist : 1 ≤ sp.totalSms
  pct : 1 ≤ sp.requestedPct ∧ sp.requestedPct ≤ 99
  sms : 1 ≤ sp.limitedSms
  sms_exist : sp.limitedSms ≤ sp.totalSms
  applied : sp.limitedApplied = sp.ctxLimited
  delegated : mode = .mpsEnv → sp.ctxLimited = false
  open_gate : sp.gate = 0
  masked : sp.qmd.qmdActive = true → mode = .qmd
  tpcs : QmdMask.Count sp.qmd.qmdAllowedTpc
  words : sp.qmd.qmdActive = true →
    QmdMask.opened sp.qmd.qmdMaskW0 sp.qmd.qmdMaskW1 sp.qmd.qmdMaskW2 = sp.qmd.qmdAllowedTpc

/-- `(int)(total_sms * (pct/100.0f))` for the percentages that are asked for. -/
def Fits (share : ℤ → ℤ → ℤ) : Prop :=
  ∀ sms pct, 1 ≤ sms → 1 ≤ pct → pct ≤ 99 → share sms pct ≤ sms

/-- What the branches of the control server check before they store. -/
structure Sane (mode : SpaceMode) (s : Settings) : Prop where
  space : Usable mode s.space
  squad : 0 < s.squadSize ∧ IsInt s.squadSize
  share : 0 ≤ s.shareQuota ∧ IsInt s.shareQuota
  slice : 0 < s.timeSliceUs
  borrowing : 0 ≤ s.time.urgentLimitUs
  credit : IsInt s.creditRemain

theorem reconf_tpcs (e : QmdMode.Env) {q : QmdMode.State} (d : QmdMode.Driver)
    (tpcs : QmdMask.Count q.qmdAllowedTpc) :
    QmdMask.Count (QmdMode.reconfLimitedCtx e q d).qmdAllowedTpc := by
  have same : (QmdMode.krakenQmdSetup q d).1.qmdAllowedTpc = q.qmdAllowedTpc := by
    unfold QmdMode.krakenQmdSetup
    split <;> rfl
  unfold QmdMode.reconfLimitedCtx
  split
  · rw [QmdShare.setAllowed_allowed]
    exact QmdShare.pctToTpc_count _
  · rename_i q' failed
    rw [failed] at same
    rw [same]
    exact tpcs

theorem reconf_words (e : QmdMode.Env) {q : QmdMode.State} (d : QmdMode.Driver)
    (words : q.qmdActive = true →
      QmdMask.opened q.qmdMaskW0 q.qmdMaskW1 q.qmdMaskW2 = q.qmdAllowedTpc)
    (active : (QmdMode.reconfLimitedCtx e q d).qmdActive = true) :
    QmdMask.opened (QmdMode.reconfLimitedCtx e q d).qmdMaskW0
        (QmdMode.reconfLimitedCtx e q d).qmdMaskW1 (QmdMode.reconfLimitedCtx e q d).qmdMaskW2 =
      (QmdMode.reconfLimitedCtx e q d).qmdAllowedTpc := by
  cases setup : QmdMode.krakenQmdSetup q d with
  | mk q' ok =>
    cases ok with
    | true =>
      simp only [QmdMode.reconfLimitedCtx, setup]
      exact QmdMask.setAllowed_opened e q' _
    | false =>
      have same : q' = { q with setupDone := q'.setupDone, callback := q'.callback } := by
        unfold QmdMode.krakenQmdSetup at setup
        split at setup <;> obtain ⟨rfl, _⟩ := Prod.mk.inj setup <;> rfl
      simp only [QmdMode.reconfLimitedCtx, setup] at active ⊢
      rw [same] at active ⊢
      exact words active

section Usable
variable {mode : SpaceMode} {sp : Space}

theorem recreate_usable (usable : Usable mode sp) (created_there : mode ≠ .mpsEnv)
    (anyAlloc : Bool) (newSms : ℤ) (created : Bool) :
    Usable mode (recreate anyAlloc sp newSms created) := by
  unfold recreate
  cases anyAlloc with
  | true => exact usable
  | false =>
    simp only [Bool.false_eq_true, if_false]
    have exist := usable.exist
    exact { usable with
      sms := by show 1 ≤ min (max newSms 1) sp.totalSms; omega
      sms_exist := by show min (max newSms 1) sp.totalSms ≤ sp.totalSms; omega
      applied := rfl
      delegated := fun given => absurd given created_there
      open_gate := rfl }

theorem reconf_usable (usable : Usable mode sp) {newSms : ℤ} (positive : 1 ≤ newSms)
    (delegated_fit : mode = .mpsEnv → newSms ≤ sp.totalSms) (e : QmdMode.Env) (anyAlloc : Bool)
    (a : Answers) :
    Usable mode (reconfLimitedCtx e anyAlloc sp newSms a) := by
  unfold reconfLimitedCtx
  have kept := usable.kept
  split
  · rename_i qmd
    rw [qmd] at kept
    subst kept
    have set_up : Usable .qmd { sp with qmd := QmdMode.reconfLimitedCtx e sp.qmd a.qmd } :=
      { usable with
        masked := fun _ => rfl
        tpcs := reconf_tpcs e a.qmd usable.tpcs
        words := reconf_words e a.qmd usable.words }
    exact recreate_usable set_up (by decide) anyAlloc newSms a.created
  · rename_i delegated
    rw [delegated] at kept
    subst kept
    exact { usable with
      sms := positive
      sms_exist := delegated_fit rfl
      applied := rfl
      delegated := fun _ => rfl
      open_gate := rfl }
  · rename_i ctx
    rw [ctx] at kept
    subst kept
    exact recreate_usable usable (by decide) anyAlloc newSms a.created

theorem reconf_stored (e : QmdMode.Env) (sp : Space) (newSms : ℤ) (a : Answers) (limited : ℤ) :
    reconfLimitedCtx e false { sp with limitedSms := limited } newSms a =
      reconfLimitedCtx e false sp newSms a := by
  cases mode : sp.mode <;> simp only [reconfLimitedCtx, mode, recreate, Bool.false_eq_true, if_false]

end Usable

theorem perform_delegated (share : ℤ → ℤ → ℤ) (e : QmdMode.Env) {s : Settings}
    (delegated : s.space.mode = .mpsEnv) (w : Word) (i : ℤ) (a : Answers) :
    (perform share e s w i a).space = s.space := by
  cases w <;> simp only [perform, Settings.setRoute, Settings.setTime, delegated, reduceCtorEq,
    if_true, if_false] <;> (try split) <;> rfl

theorem timeCommand_borrowing {g : TimeGate.Shared} (borrowing : 0 ≤ g.urgentLimitUs)
    (c : TimeGate.Command) : 0 ≤ (timeCommand g c).urgentLimitUs := by
  cases c with
  | timeCredit us =>
    by_cases unlimited : us < 0
    · simpa [timeCommand, TimeGate.command, unlimited] using borrowing
    · simpa [timeCommand, TimeGate.command, unlimited] using borrowing
  | urgentLimit us =>
    simp only [timeCommand, TimeGate.command]
    split_ifs with valid
    · exact valid
    · exact borrowing
  | _ => exact borrowing

section Steps
variable {mode : SpaceMode} {s : Settings}

theorem setTime_sane (sane : Sane mode s) (c : TimeGate.Command) : Sane mode (s.setTime c) :=
  { sane with borrowing := timeCommand_borrowing sane.borrowing c }

theorem setRoute_sane (sane : Sane mode s) (r : Routing.Route) : Sane mode (s.setRoute r) := by
  unfold Settings.setRoute
  split
  · exact sane
  · exact { sane with }

theorem setLimitPct_sane {share : ℤ → ℤ → ℤ} (fits : Fits share) (e : QmdMode.Env)
    (sane : Sane mode s) (pct : ℤ) (a : Answers) : Sane mode (setLimitPct share e s pct a) := by
  have range : 1 ≤ max 1 (min pct 99) ∧ max 1 (min pct 99) ≤ 99 := by omega
  have clamped : Usable mode { s.space with requestedPct := max 1 (min pct 99) } :=
    { sane.space with pct := range }
  have exist := sane.space.exist
  have part := max_le exist (fits s.space.totalSms _ exist range.1 range.2)
  exact { sane with
    space := reconf_usable clamped (le_max_left 1 _) (fun _ => part) e s.anyAlloc a }

theorem perform_sane {share : ℤ → ℤ → ℤ} (fits : Fits share) (e : QmdMode.Env)
    (sane : Sane mode s) (w : Word) {i : ℤ} (number : w.argument = .int → IsInt i) (a : Answers) :
    Sane mode (perform share e s w i a) := by
  cases w with
  | limited | unlimited | setRoute => exact setRoute_sane sane _
  | boostOn | boostOff | timeMode | timeCredit | timeUnlimited | timeAdd | peerIdle | urgentLimit =>
    exact setTime_sane sane _
  | pause | resume | memQuota | memTrack | memReset | urgentRequest | urgentClear | syscallOn
  | syscallOff | quit | squadReset => exact { sane with }
  | setSquad =>
    simp only [perform]
    split
    · rename_i positive
      exact { sane with squad := ⟨positive, number rfl⟩ }
    · exact sane
  | setShare =>
    simp only [perform]
    split
    · rename_i valid
      exact { sane with share := ⟨valid, number rfl⟩ }
    · exact sane
  | creditSet => exact { sane with credit := number rfl }
  | creditOff =>
    have off : IsInt (-1) := ⟨by decide, by decide⟩
    exact { sane with credit := off }
  | timeSlice =>
    simp only [perform]
    split
    · rename_i positive
      exact { sane with slice := positive }
    · exact sane
  | prioritySet =>
    simp only [perform]
    split
    · exact setTime_sane sane _
    · exact sane
  | qmdPct =>
    simp only [perform]
    split
    · have tpcs : QmdMask.Count (QmdMode.krakenQmdSetAllowed e s.space.qmd
          (QmdMode.krakenQmdPctToTpc i)).qmdAllowedTpc := by
        rw [QmdShare.setAllowed_allowed]
        exact QmdShare.pctToTpc_count i
      have words := QmdMask.setAllowed_opened e s.space.qmd (QmdMode.krakenQmdPctToTpc i)
      exact { sane with space := { sane.space with tpcs := tpcs, words := fun _ => words } }
    · exact sane
  | reconfSm =>
    simp only [perform]
    split
    · exact sane
    · rename_i here
      have elsewhere : mode ≠ .mpsEnv := sane.space.kept ▸ here
      split
      · rename_i positive
        exact { sane with
          space := reconf_usable sane.space positive (fun there => absurd there elsewhere) e
            s.anyAlloc a }
      · exact sane
  | setLimitPct =>
    simp only [perform]
    split
    · exact sane
    · exact setLimitPct_sane fits e sane i a
  | timeStats | wcStats | gateStats | ctxStats | memStats | urgentStats | queueStats
  | syscallStats | smStats | qmdStats => exact sane

end Steps

section Runs
variable (num : Numbers) (share : ℤ → ℤ → ℤ)

theorem value_int {w : Word} (int : w.argument = .int) (rest : List Char) :
    IsInt (value num w rest) := by
  rw [value, int]
  exact num.atoi_int rest

theorem read_int {words : List Word} {buf : List Char} {w : Word} {i : ℤ}
    (found : read num words buf = some (w, i)) (int : w.argument = .int) : IsInt i := by
  obtain ⟨x, _, same⟩ := Option.map_eq_some_iff.mp found
  obtain ⟨rfl, rfl⟩ := Prod.mk.inj same
  exact value_int num int x.2

theorem initPct_range (v : Environment) : 1 ≤ initPct num v ∧ initPct num v ≤ 99 := by
  unfold initPct QmdShare.initPct
  split
  · split <;> omega
  · omega

theorem ensureInit_sane (fits : Fits share) (v : Environment) {totalSms : ℤ}
    (exist : 1 ≤ totalSms) (a : Answers) :
    Sane (chosenMode v) (ensureInit num share v totalSms a) := by
  have tpcs : QmdMask.Count QmdMode.qmdTpcTotal := ⟨by decide, by decide⟩
  -- the product of total_sms and the percentage is stored uncut before it is cut
  have whole : Usable (chosenMode v)
      { mode := chosenMode v, totalSms := totalSms, limitedSms := totalSms,
        requestedPct := initPct num v } :=
    { kept := rfl
      exist := exist
      pct := initPct_range num v
      sms := exist
      sms_exist := le_refl totalSms
      applied := rfl
      delegated := fun _ => rfl
      open_gate := rfl
      masked := nofun
      tpcs := tpcs
      words := nofun }
  have sms := le_max_left 1 (share totalSms (initPct num v))
  obtain ⟨low, high⟩ := initPct_range num v
  have part := max_le exist (fits totalSms _ exist low high)
  exact
    { space := by
        rw [ensureInit, ← reconf_stored _ _ _ _ totalSms]
        exact reconf_usable whole sms (fun _ => part) (qmdEnv num v) false a
      squad := by simp [ensureInit, IsInt]
      share := by simp [ensureInit, IsInt]
      slice := by simp [ensureInit]
      borrowing := by simp [ensureInit]
      credit := by simp [ensureInit, IsInt] }

variable {num share} in
theorem step_sane (fits : Fits share) {mode : SpaceMode} {v : Environment} {s t : Settings}
    {x : Action} (sane : Sane mode s) (step : ServerStep num share v s x t) :
    Sane mode t ∧ (mode = .mpsEnv → t.space = s.space) := by
  have kept := sane.space.kept
  cases x with
  | datagram bytes a =>
    simp only [ServerStep, Fires, next] at step
    split at step
    · split at step
      · rename_i w i found
        rw [← Option.some.inj step]
        refine ⟨perform_sane fits _ sane w (read_int num found) a, ?_⟩
        intro delegated
        exact perform_delegated share _ (kept.trans delegated) w i a
      · rw [← Option.some.inj step]
        exact ⟨sane, fun _ => rfl⟩
    · cases step
  | allocate =>
    rw [← Option.some.inj step]
    exact ⟨{ sane with }, fun _ => rfl⟩
  | tick us =>
    rw [← Option.some.inj step]
    exact ⟨{ sane with }, fun _ => rfl⟩

/-- No datagrams, whatever bytes they hold, lead out of the settings that a process can run
    under, and where the limit is delegated none of them touches it. -/
theorem settings_sane (fits : Fits share) (v : Environment) {totalSms : ℤ} (exist : 1 ≤ totalSms)
    (a : Answers)
    {labels : List Action} {s : Settings}
    (run : Run (ServerStep num share v) (ensureInit num share v totalSms a) labels s) :
    Sane (chosenMode v) s ∧
      (chosenMode v = .mpsEnv → s.space = (ensureInit num share v totalSms a).space) := by
  refine run_invariant (fun s => Sane (chosenMode v) s ∧
    (chosenMode v = .mpsEnv → s.space = (ensureInit num share v totalSms a).space)) ?_ run
    ⟨ensureInit_sane num share fits v exist a, fun _ => rfl⟩
  rintro s x t ⟨sane, same⟩ step
  obtain ⟨kept, untouched⟩ := step_sane fits sane step
  exact ⟨kept, fun delegated => (untouched delegated).trans (same delegated)⟩

end Runs

def floorShare (sms pct : ℤ) : ℤ := sms * pct / 100

theorem floorShare_fits : Fits floorShare := by
  intro sms pct exist low high
  apply Int.ediv_le_of_le_mul (by decide)
  apply Int.mul_le_mul_of_nonneg_left <;> omega

def refusal : Answers := ⟨QmdMode.refusing, false⟩

/-- A squad of no kernels, a limit far out of range, an allocation and noise. -/
def hostile : List Action :=
  [.datagram "set_squad 0".toList refusal, .datagram "set_limit_pct 4000".toList refusal, .allocate,
    .datagram "reconf_sm 7 noise".toList refusal, .datagram "qmd_pct -5".toList refusal]

theorem settings_sane_hostile : ∃ s,
    Run (ServerStep glibc floorShare {}) (ensureInit glibc floorShare {} 188 refusal) hostile s ∧
      s.space.requestedPct = 99 ∧ s.space.limitedSms = 186 ∧ Sane .ctx s := by
  obtain ⟨s, run, checked⟩ := run_reaches
    (fun s : Settings => decide (s.space.requestedPct = 99 ∧ s.space.limitedSms = 186))
    (show (exec (next glibc floorShare {}) (ensureInit glibc floorShare {} 188 refusal)
      hostile).any _ = true by decide +kernel)
  obtain ⟨pct, sms⟩ := of_decide_eq_true checked
  exact ⟨s, run, pct, sms, (settings_sane glibc floorShare floorShare_fits {} (by decide)
    refusal run).1⟩

end ControlServer
