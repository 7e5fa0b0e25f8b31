import Mathlib.Algebra.BigOperators.Group.Finset.Basic
import Mathlib.Algebra.BigOperators.Group.Finset.Piecewise
import Mathlib.Algebra.Order.BigOperators.Group.Finset
import Mathlib.Data.Fintype.Basic
import Mathlib.Tactic.Abel

/- A finite pool of threads, each with its own local state. What the pool holds is the
   sum of what the threads hold, and a step of one thread changes one summand; the threads
   with a property change by that one thread. -/
namespace Threads

/-- The threads of the smallest pools are named by numerals. -/
instance (priority := high) neZero_one : NeZero 1 := ⟨Nat.one_ne_zero⟩

instance (priority := high) neZero_two : NeZero 2 := ⟨Nat.succ_ne_zero 1⟩

instance (priority := high) neZero_three : NeZero 3 := ⟨Nat.succ_ne_zero 2⟩

variable {ι τ K : Type} [Fintype ι] [DecidableEq ι]

section Sum
variable [AddCommMonoid K]

def total (g : τ → K) (threads : ι → τ) : K := ∑ i, g (threads i)

theorem total_update (g : τ → K) (threads : ι → τ) (i : ι) (t : τ) :
    total g (Function.update threads i t) + g (threads i) = total g threads + g t := by
  have after := Finset.add_sum_erase Finset.univ
    (fun j => g (Function.update threads i t j)) (Finset.mem_univ i)
  have before := Finset.add_sum_erase Finset.univ (fun j => g (threads j)) (Finset.mem_univ i)
  have rest : ∑ j ∈ Finset.univ.erase i, g (Function.update threads i t j) =
      ∑ j ∈ Finset.univ.erase i, g (threads j) := by
    apply Finset.sum_congr rfl
    intro j member
    rw [Function.update_of_ne (Finset.ne_of_mem_erase member)]
  simp only [Function.update_self, rest] at after
  simp only [total]
  rw [← after, ← before]
  abel

omit [DecidableEq ι] in
theorem total_eq_zero {g : τ → K} {threads : ι → τ} (h : ∀ i, g (threads i) = 0) :
    total g threads = 0 :=
  Finset.sum_eq_zero fun i _ => h i

end Sum

omit [DecidableEq ι] in
theorem le_total (g : τ → ℕ) (threads : ι → τ) (i : ι) : g (threads i) ≤ total g threads :=
  Finset.single_le_sum (f := fun j => g (threads j)) (fun _ _ => Nat.zero_le _) (Finset.mem_univ i)

section Having
variable (p : τ → Prop) [DecidablePred p]

def having (threads : ι → τ) : Finset ι := Finset.univ.filter fun i => p (threads i)

omit [DecidableEq ι] in
theorem mem_having {threads : ι → τ} {i : ι} : i ∈ having p threads ↔ p (threads i) := by
  simp [having]

theorem having_gains (threads : ι → τ) (i : ι) {t : τ} (now : p t) :
    having p (Function.update threads i t) = insert i (having p threads) := by
  ext j
  by_cases same : j = i
  · subst same
    simp [mem_having, now]
  · simp [mem_having, same]

theorem having_loses (threads : ι → τ) (i : ι) {t : τ} (now : ¬ p t) :
    having p (Function.update threads i t) = (having p threads).erase i := by
  ext j
  by_cases same : j = i
  · subst same
    simp [mem_having, now]
  · simp [mem_having, same]

theorem having_keeps (threads : ι → τ) (i : ι) {t : τ} (same : p t ↔ p (threads i)) :
    having p (Function.update threads i t) = having p threads := by
  ext j
  by_cases here : j = i
  · subst here
    simp [mem_having, same]
  · simp [mem_having, here]

omit [DecidableEq ι] in
/-- What the threads hold is at most their number, if only those with the property hold
    anything and each of them holds at most one. -/
theorem total_le_having {g : τ → ℕ} (threads : ι → τ) (one : ∀ t, g t ≤ if p t then 1 else 0) :
    total g threads ≤ (having p threads).card := by
  unfold having total
  rw [Finset.card_filter]
  exact Finset.sum_le_sum fun i _ => one (threads i)

end Having

section Hands
variable {P : Type} {hand : τ → P} {null : P} {threads : ι → τ}

omit [Fintype ι] in
/-- Threads with different things in hand keep them apart when one of them takes up
    something that no other has. -/
theorem hands_apart_update
    (distinct : ∀ i j, hand (threads i) ≠ null → hand (threads i) = hand (threads j) → i = j)
    {i : ι} {t : τ} (unowned : ∀ j, j ≠ i → hand t ≠ null → hand (threads j) ≠ hand t) (j k : ι)
    (nonnull : hand (Function.update threads i t j) ≠ null)
    (equal : hand (Function.update threads i t j) = hand (Function.update threads i t k)) :
    j = k := by
  by_cases hj : j = i <;> by_cases hk : k = i
  · rw [hj, hk]
  · subst hj
    simp only [Function.update_self, Function.update_of_ne hk] at nonnull equal
    exact absurd equal.symm (unowned k hk nonnull)
  · subst hk
    simp only [Function.update_self, Function.update_of_ne hj] at nonnull equal
    exact absurd equal (unowned j hj (equal ▸ nonnull))
  · simp only [Function.update_of_ne hj, Function.update_of_ne hk] at nonnull equal
    exact distinct j k nonnull equal

end Hands

end Threads
