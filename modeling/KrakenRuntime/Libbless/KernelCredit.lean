import KrakenRuntime.Lib.Runs
import KrakenRuntime.Lib.Threads
import Mathlib.Algebra.Order.BigOperators.Group.Finset
import Mathlib.Algebra.Order.BigOperators.Group.List
import Mathlib.Logic.Function.Basic

/- The kernel-count credit gate of libbless (libbless.cpp): kernel_credit_gate as launching
   threads run it, and the control commands that write the variables it loads. Every atomic
   access is one step, and the threads and the control server interleave freely. The weak
   compare-exchange may fail although the value is the expected one. Yielding and sleeping
   while the credit is exhausted only show in the counter that decides between them. -/
namespace KernelGate
open Runs
variable {n : ℕ}

structure Shared where
  boostMode : Bool := false
  creditRemain : ℤ := -1
  deriving DecidableEq

inductive PC where
  | outside
  | loadBoost
  | loadCredit
  | loadCur (waited : ℕ)
  | exchange (cur : ℤ) (waited : ℕ)
  deriving DecidableEq

structure Thread where
  pc : PC := .outside
  tlBurst : ℤ := 0
  deriving DecidableEq

def Thread.goto (t : Thread) (pc : PC) : Thread := { t with pc := pc }

def burst : ℤ := 16

def chunk (cur : ℤ) : ℤ := if burst ≤ cur then burst else cur

def access (g : Shared) (t : Thread) (spurious : Bool) : Shared × Thread :=
  match t.pc with
  | .outside => (g, t)
  | .loadBoost => (g, t.goto (if g.boostMode then .outside else .loadCredit))
  | .loadCredit =>
    (g,
      if g.creditRemain < 0 then t.goto .outside
      else if 0 < t.tlBurst then { t.goto .outside with tlBurst := t.tlBurst - 1 }
      else t.goto (.loadCur 0))
  | .loadCur waited =>
    (g,
      if g.creditRemain < 0 then t.goto .outside
      else if 0 < g.creditRemain then t.goto (.exchange g.creditRemain waited)
      else t.goto (.loadCur (if waited < 50 then waited + 1 else 0)))
  | .exchange cur waited =>
    if g.creditRemain = cur ∧ spurious = false then
      ({ g with creditRemain := cur - chunk cur },
        { t.goto .outside with tlBurst := chunk cur - 1 })
    else (g, t.goto (.loadCur waited))

def consumes (g : Shared) (t : Thread) (spurious : Bool) : Bool :=
  match t.pc with
  | .loadCredit => 0 ≤ g.creditRemain && 0 < t.tlBurst
  | .exchange cur _ => g.creditRemain = cur && !spurious
  | _ => false

inductive Command where
  | creditSet (q : ℤ)
  | creditOff
  | boostOn
  | boostOff
  deriving DecidableEq

def command (g : Shared) : Command → Shared
  | .creditSet q => { g with creditRemain := q }
  | .creditOff => { g with creditRemain := -1 }
  | .boostOn => { g with boostMode := true }
  | .boostOff => { g with boostMode := false }

structure State (n : ℕ) where
  shared : Shared := {}
  threads : Fin n → Thread := fun _ => {}
  deriving DecidableEq

inductive Action (n : ℕ) where
  | launch (i : Fin n)
  | step (i : Fin n) (spurious : Bool)
  | command (c : Command)
  deriving DecidableEq

def next (s : State n) : Action n → Option (State n)
  | .launch i =>
    if (s.threads i).pc = .outside then
      some { s with threads := Function.update s.threads i ((s.threads i).goto .loadBoost) }
    else none
  | .step i spurious =>
    some
      { shared := (access s.shared (s.threads i) spurious).1
        threads := Function.update s.threads i (access s.shared (s.threads i) spurious).2 }
  | .command c => some { s with shared := command s.shared c }

abbrev KernelStep : State n → Action n → State n → Prop := Runs.Fires next

def Action.issues : Action n → Prop
  | .command (.creditSet q) => 0 ≤ q
  | _ => True

instance (a : Action n) : Decidable a.issues := by
  induction a using Action.casesOn with
  | command c => induction c using Command.casesOn <;> dsimp only [Action.issues] <;> infer_instance
  | _ =>
    dsimp only [Action.issues]
    infer_instance

/-- What was issued, the launches admitted on it, the positive remainders that a command
    overwrote, and the last command about credit. -/
structure Books where
  issued : ℤ := 0
  admitted : ℕ := 0
  overwritten : List ℤ := []
  last : Option Command := none

def Books.overwrite (b : Books) (g : Shared) (c : Command) (q : ℤ) : Books :=
  { b with
    issued := b.issued + q
    overwritten := if 0 < g.creditRemain then g.creditRemain :: b.overwritten else b.overwritten
    last := some c }

def observe (s : State n) : Action n → Books → Books
  | .command (.creditSet q), b => b.overwrite s.shared (.creditSet q) q
  | .command .creditOff, b => b.overwrite s.shared .creditOff 0
  | .step i spurious, b =>
    { b with admitted := b.admitted + (consumes s.shared (s.threads i) spurious).toNat }
  | _, b => b

/-- Credit in the shared counter, where a negative value says that there is no limit. -/
def remainder (g : Shared) : ℤ := max g.creditRemain 0

/-- A thread only goes for the shared credit when its burst is used up. -/
def Thread.looping (t : Thread) : Prop :=
  match t.pc with
  | .loadCur _ => t.tlBurst = 0
  | .exchange cur _ => t.tlBurst = 0 ∧ 0 < cur
  | _ => True

structure Thread.Sound (t : Thread) : Prop where
  cached : 0 ≤ t.tlBurst
  looping : t.looping

section Access
variable {g : Shared} {t : Thread} {spurious : Bool}

theorem chunk_bounds {cur : ℤ} (positive : 0 < cur) : 1 ≤ chunk cur ∧ chunk cur ≤ cur := by
  unfold chunk burst
  split <;> omega

theorem access_sound (sound : t.Sound) : (access g t spurious).2.Sound := by
  obtain ⟨cached, looping⟩ := sound
  obtain ⟨pc, tlBurst⟩ := t
  simp only [Thread.looping] at cached looping
  cases pc with
  | outside => exact ⟨cached, trivial⟩
  | loadBoost =>
    constructor
    · exact cached
    · simp only [access, Thread.goto]
      split <;> trivial
  | loadCredit =>
    simp only [access, Thread.goto]
    split
    · exact ⟨cached, trivial⟩
    · split
      · exact ⟨by simp only; omega, trivial⟩
      · exact ⟨cached, by simp only [Thread.looping]; omega⟩
  | loadCur waited =>
    simp only [access, Thread.goto]
    split
    · exact ⟨cached, trivial⟩
    · split
      · rename_i positive
        exact ⟨cached, looping, positive⟩
      · exact ⟨cached, looping⟩
  | exchange cur waited =>
    have bounds := chunk_bounds looping.2
    simp only [access, Thread.goto]
    split
    · exact ⟨by simp only; omega, trivial⟩
    · exact ⟨cached, looping.1⟩

theorem access_balance (spurious : Bool) (sound : t.Sound) :
    (consumes g t spurious).toNat + (access g t spurious).2.tlBurst +
      remainder (access g t spurious).1 = t.tlBurst + remainder g := by
  have looping := sound.looping
  obtain ⟨pc, tlBurst⟩ := t
  simp only [Thread.looping] at looping
  cases pc with
  | outside | loadBoost => simp [consumes, access, Thread.goto]
  | loadCredit =>
    by_cases unlimited : g.creditRemain < 0
    · simp [consumes, access, Thread.goto, unlimited]
    · by_cases some_cached : 0 < tlBurst
      · simp [consumes, access, Thread.goto, unlimited, not_lt.mp unlimited, some_cached]
      · simp [consumes, access, Thread.goto, unlimited, some_cached]
  | loadCur waited =>
    simp only [consumes, access, Thread.goto, Bool.toNat_false, Nat.cast_zero, zero_add]
    split
    · rfl
    · split <;> rfl
  | exchange cur waited =>
    obtain ⟨drained, positive⟩ := looping
    have bounds := chunk_bounds positive
    by_cases exchanged : g.creditRemain = cur ∧ spurious = false
    · obtain ⟨equal, exact_⟩ := exchanged
      simp only [consumes, access, Thread.goto, remainder, equal, exact_, drained, and_self, if_true,
        decide_true, Bool.not_false, Bool.and_self, Bool.toNat_true, Nat.cast_one]
      omega
    · simp only [consumes, access, Thread.goto, if_neg exchanged]
      simp_all

theorem access_sentinel (sound : t.Sound)
    (negative : (access g t spurious).1.creditRemain < 0) : g.creditRemain < 0 := by
  have looping := sound.looping
  obtain ⟨pc, tlBurst⟩ := t
  cases pc with
  | exchange cur waited =>
    have bounds := chunk_bounds looping.2
    simp only [access] at negative
    split at negative
    · simp only at negative
      omega
    · exact negative
  | _ => exact negative

end Access

/-- Issued credit is admitted, cached, left or overwritten, and only credit_off leaves the
    counter negative. -/
structure Kept (s : State n) (b : Books) : Prop where
  sound : ∀ i, (s.threads i).Sound
  sentinel : s.shared.creditRemain < 0 → b.last = none ∨ b.last = some .creditOff
  conserved : b.admitted + Threads.total Thread.tlBurst s.threads + remainder s.shared +
    b.overwritten.sum = b.issued
  lost : ∀ r ∈ b.overwritten, 0 < r

theorem initial_kept : Kept ({} : State n) {} := by
  constructor
  case sound =>
    intro i
    exact ⟨le_refl _, trivial⟩
  case sentinel => simp
  case conserved => simp [Threads.total, remainder]
  case lost => simp

section Steps
variable {s t : State n} {b : Books}

theorem update_sound (kept : Kept s b) {i : Fin n} {u : Thread} (sound : u.Sound) (j : Fin n) :
    (Function.update s.threads i u j).Sound := by
  by_cases same : j = i
  · subst same
    simpa using sound
  · simpa [same] using kept.sound j

theorem launch_kept (kept : Kept s b) (i : Fin n) :
    Kept { s with threads := Function.update s.threads i ((s.threads i).goto .loadBoost) } b := by
  constructor
  case sound => exact update_sound kept ⟨(kept.sound i).cached, trivial⟩
  case sentinel => exact kept.sentinel
  case conserved =>
    have moved := Threads.total_update Thread.tlBurst s.threads i ((s.threads i).goto .loadBoost)
    have conserved := kept.conserved
    simp only [Thread.goto] at moved ⊢
    omega
  case lost => exact kept.lost

theorem advance_kept (kept : Kept s b) (i : Fin n) (spurious : Bool) :
    Kept
      { shared := (access s.shared (s.threads i) spurious).1
        threads := Function.update s.threads i (access s.shared (s.threads i) spurious).2 }
      (observe s (.step i spurious) b) := by
  have sound := kept.sound i
  constructor
  case sound => exact update_sound kept (access_sound sound)
  case sentinel =>
    intro negative
    exact kept.sentinel (access_sentinel sound negative)
  case conserved =>
    have moved := Threads.total_update Thread.tlBurst s.threads i
      (access s.shared (s.threads i) spurious).2
    have balance := access_balance (g := s.shared) spurious sound
    have conserved := kept.conserved
    simp only [observe, Nat.cast_add]
    omega
  case lost => exact kept.lost

theorem overwrite_kept (kept : Kept s b) {c : Command} {r q : ℤ} (issued : max r 0 = q)
    (marked : r < 0 → c = .creditOff) :
    Kept { s with shared := { s.shared with creditRemain := r } } (b.overwrite s.shared c q) := by
  constructor
  case sound => exact kept.sound
  case sentinel =>
    intro negative
    right
    simp only [Books.overwrite, marked negative]
  case conserved =>
    have conserved := kept.conserved
    simp only [remainder] at conserved
    simp only [Books.overwrite, remainder, issued]
    split
    · rw [List.sum_cons]
      omega
    · omega
  case lost =>
    simp only [Books.overwrite]
    split
    · rename_i positive
      intro r member
      rcases List.mem_cons.mp member with here | before
      · omega
      · exact kept.lost r before
    · exact kept.lost

theorem step_kept {a : Action n} (issues : a.issues) (kept : Kept s b) (step : KernelStep s a t) :
    Kept t (observe s a b) := by
  cases a with
  | launch i =>
    simp only [KernelStep, Fires, next] at step
    split at step <;> cases step
    exact launch_kept kept i
  | step i spurious =>
    cases step
    exact advance_kept kept i spurious
  | command c =>
    cases step
    cases c with
    | creditSet q =>
      simp only [Action.issues] at issues
      exact overwrite_kept kept (by omega) (by omega)
    | creditOff => exact overwrite_kept kept (by decide) (fun _ => rfl)
    | boostOn | boostOff => exact ⟨kept.sound, kept.sentinel, kept.conserved, kept.lost⟩

end Steps

theorem total_bursts {s : State n} {b : Books} (kept : Kept s b) :
    0 ≤ Threads.total Thread.tlBurst s.threads :=
  Finset.sum_nonneg fun i _ => (kept.sound i).cached

theorem sum_overwritten {s : State n} {b : Books} (kept : Kept s b) : 0 ≤ b.overwritten.sum :=
  List.sum_nonneg fun r member => (kept.lost r member).le

/-- No interleaving admits more launches on credit than were issued, or takes an exhausted
    counter for an unlimited one. -/
theorem kernel_credit_conserved {t : State n} {b : Books} {labels : List (Action n)}
    (issues : ∀ a ∈ labels, a.issues)
    (run : Run (Watched observe KernelStep) ({}, {}) labels (t, b)) :
    (t.shared.creditRemain < 0 → b.last = none ∨ b.last = some .creditOff) ∧
    b.admitted + Threads.total Thread.tlBurst t.threads + max t.shared.creditRemain 0 ≤ b.issued ∧
    (b.overwritten = [] →
      b.admitted + Threads.total Thread.tlBurst t.threads + max t.shared.creditRemain 0 =
        b.issued) ∧
    b.admitted ≤ b.issued := by
  have kept : Kept t b := by
    have invariant := run_invariant_of_labels Action.issues
      (fun x : State n × Books => Kept x.1 x.2)
      (by
        rintro x a y allowed kept ⟨step, recorded⟩
        rw [recorded]
        exact step_kept allowed kept step)
      run issues initial_kept
    exact invariant
  have conserved := kept.conserved
  have cached := total_bursts kept
  have lost := sum_overwritten kept
  simp only [remainder] at conserved
  refine ⟨kept.sentinel, by omega, ?_, by omega⟩
  intro untouched
  rw [untouched, List.sum_nil] at conserved
  omega

def steps (i : Fin n) (k : ℕ) : List (Action n) := List.replicate k (.step i false)

/-- Of 18 credits the first thread takes 16 and the second, whose first exchange fails and
    whose second one fails spuriously, the other 2; a third launch of the second thread
    waits at an exhausted counter. -/
def twoBursts : List (Action 2) :=
  .command (.creditSet 18) :: .launch 0 :: .launch 1 :: steps 0 3 ++ steps 1 3 ++
    .step 0 false :: steps 1 2 ++ .step 1 true :: steps 1 2 ++ .launch 1 :: steps 1 2 ++
    .launch 1 :: steps 1 4

theorem two_bursts_exhaust : ∃ (t : State 2) (b : Books),
    Run (Watched observe KernelStep) ({}, {}) twoBursts (t, b) ∧
    t.shared.creditRemain = 0 ∧ (t.threads 0).tlBurst = 15 ∧ (t.threads 1).pc = .loadCur 2 ∧
    b.admitted + Threads.total Thread.tlBurst t.threads + max t.shared.creditRemain 0 ≤ b.issued := by
  obtain ⟨t, run, reached⟩ := run_reaches
    (fun t : State 2 => decide
      (t.shared.creditRemain = 0 ∧ (t.threads 0).tlBurst = 15 ∧ (t.threads 1).pc = .loadCur 2))
    (show (exec next {} twoBursts).any _ = true by decide +kernel)
  obtain ⟨exhausted, first, second⟩ := of_decide_eq_true reached
  obtain ⟨b, watched⟩ := run_watched observe run {}
  have bounded := (kernel_credit_conserved (by decide) watched).2.1
  exact ⟨t, b, watched, exhausted, first, second, bounded⟩

end KernelGate
