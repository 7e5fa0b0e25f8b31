import KrakenRuntime.Hooks.KillerPolicy
import KrakenRuntime.Lib.Int64
import Mathlib.Data.Int.Basic

/- The place of a launch in its iteration (cuda_hooks.cpp): the three launch hooks, each of
   which classifies the launch by the kernel_idx it finds and then adds one to it. The
   counter is an int that is never reduced modulo kernels_per_iter, so it starts again from
   -2^31 after 2^31 - 1, and the remainder of C has the sign of the dividend. The gate, the
   driver calls and the reload of the policy are left out: none of them touches kernel_idx. -/
namespace Hooks
open Int32Word

structure Launcher where
  g : Kraken := {}
  initialized : Bool := true

/-- One call of a launch hook: the killer test of that hook, and whether the real function
    was resolved. The answer is the one the hook acts on, if it gets that far. -/
def launch (killer : Kraken → Bool) (resolved : Bool) (s : Launcher) : Launcher × Option Bool :=
  if !s.initialized || !resolved then (s, none)
  else ({ s with g := { s.g with kernelIdx := int32 (s.g.kernelIdx + 1) } }, some (killer s.g))

def isCudaRtKiller (g : Kraken) (symbol : Option (List Char)) : Bool :=
  (symbol.isSome && isKillerByName g.policy symbol) || isKillerByIndex g.policy g.kernelIdx

/-- The argument is the name that cuFuncGetName gives, if any. -/
def cuLaunchKernel (name : Option (List Char)) := launch fun g => isKiller g name

def cuLaunchKernelEx (name : Option (List Char)) := launch fun g => isKiller g name

/-- The argument is the name that dladdr gives, if any. -/
def cudaLaunchKernel (symbol : Option (List Char)) := launch fun g => isCudaRtKiller g symbol

inductive Hook
  | cuLaunchKernel
  | cuLaunchKernelEx
  | cudaLaunchKernel

structure Call where
  hook : Hook
  name : Option (List Char) := none
  resolved : Bool := true

def Call.make (c : Call) : Launcher → Launcher × Option Bool :=
  match c.hook with
  | .cuLaunchKernel => cuLaunchKernel c.name c.resolved
  | .cuLaunchKernelEx => cuLaunchKernelEx c.name c.resolved
  | .cudaLaunchKernel => cudaLaunchKernel c.name c.resolved

def launches : Launcher → List Call → Launcher
  | s, [] => s
  | s, c :: calls => launches (c.make s).1 calls

def made (calls : List Call) : ℕ := (calls.filter Call.resolved).length

theorem made_replicate (n : ℕ) (c : Call) (resolved : c.resolved = true) :
    made (List.replicate n c) = n := by
  simp [made, resolved]

theorem call_counts (c : Call) (s : Launcher) (ready : s.initialized = true) :
    (c.make s).1.initialized = true ∧ (c.make s).1.g.policy = s.g.policy ∧
      (c.make s).1.g.kernelIdx =
        if c.resolved then int32 (s.g.kernelIdx + 1) else s.g.kernelIdx := by
  have once (killer : Kraken → Bool) :
      (launch killer c.resolved s).1.initialized = true ∧
        (launch killer c.resolved s).1.g.policy = s.g.policy ∧
        (launch killer c.resolved s).1.g.kernelIdx =
          if c.resolved then int32 (s.g.kernelIdx + 1) else s.g.kernelIdx := by
    cases found : c.resolved <;> simp [launch, ready]
  cases hook : c.hook with
  | cuLaunchKernel =>
    simp only [Call.make, hook, cuLaunchKernel]
    exact once _
  | cuLaunchKernelEx =>
    simp only [Call.make, hook, cuLaunchKernelEx]
    exact once _
  | cudaLaunchKernel =>
    simp only [Call.make, hook, cudaLaunchKernel]
    exact once _

theorem launches_count (calls : List Call) (s : Launcher) (n : ℤ) (ready : s.initialized = true)
    (idx : s.g.kernelIdx = int32 n) :
    (launches s calls).g.policy = s.g.policy ∧
      (launches s calls).g.kernelIdx = int32 (n + made calls) := by
  induction calls generalizing s n with
  | nil => simp [launches, made, idx]
  | cons c calls ih =>
    obtain ⟨ready', policy, counted⟩ := call_counts c s ready
    cases found : c.resolved with
    | false =>
      rw [found] at counted
      obtain ⟨policy', counted'⟩ := ih (c.make s).1 n ready' (by simpa [idx] using counted)
      rw [launches, policy', counted', policy]
      simp [made, found]
    | true =>
      rw [found, if_pos rfl, idx, int32_add] at counted
      obtain ⟨policy', counted'⟩ := ih (c.make s).1 (n + 1) ready' counted
      have count : made (c :: calls) = made calls + 1 := by simp [made, found]
      rw [launches, policy', counted', policy, count]
      refine ⟨rfl, ?_⟩
      congr 1
      omega

/-- When the counter has the same remainder as the number of launches: on the way up from
    zero, the turns it has taken are whole iterations; on the way up from -2^31, where
    remainders are not positive, both numbers are. -/
def InStep (k : ℤ) (n : ℕ) : Prop :=
  (n % 2 ^ 32 < 2 ^ 31 ∧ k ∣ n - n % 2 ^ 32) ∨
    (2 ^ 31 ≤ n % 2 ^ 32 ∧ k ∣ n ∧ k ∣ 2 ^ 32 - n % 2 ^ 32)

theorem tmod_int32_eq_iff {k : ℤ} (positive : 0 < k) (n : ℕ) :
    (int32 n).tmod k = n % k ↔ InStep k n := by
  have lower : (0 : ℤ) ≤ n % 2 ^ 32 := Int.emod_nonneg _ (by decide)
  have upper : (n : ℤ) % 2 ^ 32 < 2 ^ 32 := Int.emod_lt_of_pos _ (by decide)
  by_cases up : n % 2 ^ 32 < 2 ^ 31
  · have value : int32 n = n % 2 ^ 32 := by
      unfold int32
      omega
    have turns : (n : ℤ) % k = (n % 2 ^ 32) % k ↔ k ∣ n - n % 2 ^ 32 := by
      rw [Int.emod_eq_emod_iff_emod_sub_eq_zero, Int.dvd_iff_emod_eq_zero]
    rw [value, Int.tmod_eq_emod_of_nonneg lower, eq_comm, turns, InStep]
    omega
  · have value : int32 n = -(2 ^ 32 - n % 2 ^ 32) := by
      unfold int32
      omega
    have back : (0 : ℤ) ≤ 2 ^ 32 - n % 2 ^ 32 := by omega
    have negative := Int.emod_nonneg (2 ^ 32 - (n : ℤ) % 2 ^ 32) positive.ne'
    have remainder := Int.emod_nonneg (n : ℤ) positive.ne'
    rw [value, Int.neg_tmod, Int.tmod_eq_emod_of_nonneg back, InStep,
      Int.dvd_iff_emod_eq_zero (b := (n : ℤ)), Int.dvd_iff_emod_eq_zero (b := 2 ^ 32 - (n : ℤ) % 2 ^ 32)]
    omega

/-- A policy whose killer indices lie inside an iteration of k kernels. -/
structure Within (k : ℤ) (p : KillerPolicy) : Prop where
  iter : p.kernelsPerIter = k
  inside : ∀ i < p.count, 0 ≤ p.indices i ∧ p.indices i < k

theorem isKillerByIndex_within {k : ℤ} (positive : 0 < k) {p : KillerPolicy} (within : Within k p)
    (idx : ℤ) : isKillerByIndex p idx = true ↔ ∃ i < p.count, p.indices i = idx.tmod k := by
  simp [isKillerByIndex, within.iter, positive]

/-- Whatever the killer indices, the launch after these calls is judged by its place in the
    iteration, if and only if the counter is in step there. -/
theorem iteration_index_iff {k : ℤ} (positive : 0 < k) (calls : List Call) :
    (∀ s : Launcher, s.initialized = true → s.g.kernelIdx = 0 → Within k s.g.policy →
      (isKillerByIndex (launches s calls).g.policy (launches s calls).g.kernelIdx = true ↔
        ∃ i < s.g.policy.count, s.g.policy.indices i = made calls % k)) ↔
      InStep k (made calls) := by
  have start : (0 : ℤ) = int32 0 := by decide
  rw [← tmod_int32_eq_iff positive]
  constructor
  · intro judged
    -- the killer index is the place that the next launch has
    let p : KillerPolicy :=
      { count := 1, indices := fun _ => made calls % k, kernelsPerIter := k }
    have inside : (0 : ℤ) ≤ made calls % k ∧ (made calls : ℤ) % k < k :=
      ⟨Int.emod_nonneg _ positive.ne', Int.emod_lt_of_pos _ positive⟩
    have within : Within k p := ⟨rfl, fun _ _ => inside⟩
    obtain ⟨policy, idx⟩ := launches_count calls { g := { policy := p } } 0 rfl start
    have answer := (judged { g := { policy := p } } rfl rfl within).mpr ⟨0, zero_lt_one, rfl⟩
    rw [policy, idx, isKillerByIndex_within positive within, zero_add] at answer
    obtain ⟨_, _, same⟩ := answer
    exact same.symm
  · intro same s ready zero within
    obtain ⟨policy, idx⟩ := launches_count calls s 0 ready (zero.trans start)
    rw [policy, idx, isKillerByIndex_within positive within, zero_add, same]

def secondOfThree : Launcher :=
  { g := { policy := { count := 1, indices := fun _ => 1, kernelsPerIter := 3 } } }

theorem iteration_index_of_three :
    isKillerByIndex (launches secondOfThree [⟨.cudaLaunchKernel, none, true⟩]).g.policy
      (launches secondOfThree [⟨.cudaLaunchKernel, none, true⟩]).g.kernelIdx = true := by
  have inStep : InStep 3 (made [⟨.cudaLaunchKernel, none, true⟩]) := .inl (by decide)
  have within : Within 3 secondOfThree.g.policy := ⟨rfl, fun _ _ => by simp [secondOfThree]⟩
  have second : ∃ i < secondOfThree.g.policy.count,
      secondOfThree.g.policy.indices i = made [⟨.cudaLaunchKernel, none, true⟩] % 3 :=
    ⟨0, zero_lt_one, by decide⟩
  exact ((iteration_index_iff (by decide) _).mpr inStep secondOfThree rfl rfl within).mpr second

/-- Three kernels an iteration, of which the last is a killer: after 2^31 launches the next
    one is the last of its iteration, and it is not taken for a killer. -/
theorem iteration_index_drifts :
    ∃ (s : Launcher) (calls : List Call),
      s.initialized = true ∧ s.g.kernelIdx = 0 ∧ Within 3 s.g.policy ∧
        made calls = 2 ^ 31 ∧
        isKillerByIndex (launches s calls).g.policy (launches s calls).g.kernelIdx = false ∧
        ∃ i < s.g.policy.count, s.g.policy.indices i = made calls % 3 := by
  let p : KillerPolicy := { count := 1, indices := fun _ => 2, kernelsPerIter := 3 }
  obtain ⟨calls, count⟩ : ∃ calls, made calls = 2 ^ 31 :=
    ⟨_, made_replicate (2 ^ 31) ⟨.cuLaunchKernel, none, true⟩ rfl⟩
  have within : Within 3 p := ⟨rfl, fun _ _ => by simp [p]⟩
  obtain ⟨policy, idx⟩ := launches_count calls { g := { policy := p } } 0 rfl (by decide)
  refine ⟨{ g := { policy := p } }, calls, rfl, rfl, within, count, ?_, 0, zero_lt_one, ?_⟩
  · rw [policy, idx, count]
    decide
  · rw [count]
    decide

end Hooks
