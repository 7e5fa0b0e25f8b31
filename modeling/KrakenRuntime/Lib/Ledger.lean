import Mathlib.Algebra.Order.Ring.Defs
import Mathlib.Data.Finset.Card
import Mathlib.Tactic.Linarith
import Mathlib.Tactic.Ring

/-!
A prepaid account whose spending is measured only after the fact. A spender is admitted
while the balance stands above the floor and then owes one charge of unknown size; until
that charge arrives it is a holder. Several holders may owe at once, so the balance can
fall below the floor, but only by one charge for each spender of a fixed pool.
-/
namespace Ledger

structure Account (ι K : Type) where
  balance : K
  granted : K
  charged : K
  longest : K
  holders : Finset ι

variable {ι K : Type} [DecidableEq ι] [CommRing K] [LinearOrder K] [IsStrictOrderedRing K]

inductive Move (floor : K) (pool : Finset ι) : Account ι K → Account ι K → Prop where
  | grant (a : Account ι K) (d : K) (h : 0 ≤ d) :
      Move floor pool a { a with balance := a.balance + d, granted := a.granted + d }
  | enter (a : Account ι K) (i : ι) (member : i ∈ pool) (above : floor < a.balance) :
      Move floor pool a { a with holders := insert i a.holders }
  | charge (a : Account ι K) (i : ι) (e : K) (owes : i ∈ a.holders) (h : 0 ≤ e) :
      Move floor pool a
        { a with
          balance := a.balance - e
          charged := a.charged + e
          longest := max a.longest e
          holders := a.holders.erase i }
  | leave (a : Account ι K) (i : ι) :
      Move floor pool a { a with holders := a.holders.erase i }

/-- Each spender of the pool that is not a holder has put at most one charge on top of
    the floor. -/
structure Safe (floor : K) (pool : Finset ι) (a : Account ι K) : Prop where
  holders_subset : a.holders ⊆ pool
  longest_nonneg : 0 ≤ a.longest
  overdraft : floor - ((pool.card - a.holders.card : ℕ) : K) * a.longest ≤ a.balance

def net (a : Account ι K) : K := a.balance - a.granted + a.charged

omit [IsStrictOrderedRing K] in
theorem move_net {floor : K} {pool : Finset ι} {a b : Account ι K}
    (move : Move floor pool a b) : net b = net a := by
  cases move <;> simp only [net] <;> ring

omit [DecidableEq ι] in
theorem safe_grant {floor : K} {pool : Finset ι} {a : Account ι K} (safe : Safe floor pool a)
    {d : K} (h : 0 ≤ d) :
    Safe floor pool { a with balance := a.balance + d, granted := a.granted + d } := by
  refine ⟨safe.holders_subset, safe.longest_nonneg, ?_⟩
  have := safe.overdraft
  simp only at this ⊢
  linarith

theorem safe_enter {floor : K} {pool : Finset ι} {a : Account ι K} (safe : Safe floor pool a)
    {i : ι} (member : i ∈ pool) (above : floor < a.balance) :
    Safe floor pool { a with holders := insert i a.holders } := by
  refine ⟨Finset.insert_subset member safe.holders_subset, safe.longest_nonneg, ?_⟩
  have room : 0 ≤ ((pool.card - (insert i a.holders).card : ℕ) : K) * a.longest :=
    mul_nonneg (Nat.cast_nonneg _) safe.longest_nonneg
  simp only
  linarith

theorem safe_charge {floor : K} {pool : Finset ι} {a : Account ι K} (safe : Safe floor pool a)
    {i : ι} {e : K} (owes : i ∈ a.holders) :
    Safe floor pool
      { a with
        balance := a.balance - e
        charged := a.charged + e
        longest := max a.longest e
        holders := a.holders.erase i } := by
  refine ⟨(Finset.erase_subset _ _).trans safe.holders_subset,
    le_max_of_le_left safe.longest_nonneg, ?_⟩
  have few : a.holders.card ≤ pool.card := Finset.card_le_card safe.holders_subset
  have some_holder : 0 < a.holders.card := Finset.card_pos.mpr ⟨i, owes⟩
  have count : pool.card - (a.holders.erase i).card = (pool.card - a.holders.card) + 1 := by
    rw [Finset.card_erase_of_mem owes]
    omega
  have grown : ((pool.card - a.holders.card : ℕ) : K) * a.longest ≤
      ((pool.card - a.holders.card : ℕ) : K) * max a.longest e :=
    mul_le_mul_of_nonneg_left (le_max_left _ _) (Nat.cast_nonneg _)
  have own : e ≤ max a.longest e := le_max_right _ _
  have before := safe.overdraft
  simp only [count, Nat.cast_add, Nat.cast_one, add_mul, one_mul]
  linarith

theorem safe_leave {floor : K} {pool : Finset ι} {a : Account ι K} (safe : Safe floor pool a)
    (i : ι) : Safe floor pool { a with holders := a.holders.erase i } := by
  refine ⟨(Finset.erase_subset _ _).trans safe.holders_subset, safe.longest_nonneg, ?_⟩
  have fewer : (a.holders.erase i).card ≤ a.holders.card := Finset.card_erase_le
  have wider : ((pool.card - a.holders.card : ℕ) : K) * a.longest ≤
      ((pool.card - (a.holders.erase i).card : ℕ) : K) * a.longest :=
    mul_le_mul_of_nonneg_right (by exact_mod_cast Nat.sub_le_sub_left fewer _)
      safe.longest_nonneg
  have before := safe.overdraft
  simp only at wider before ⊢
  linarith

theorem move_safe {floor : K} {pool : Finset ι} {a b : Account ι K}
    (move : Move floor pool a b) (safe : Safe floor pool a) : Safe floor pool b := by
  cases move with
  | grant d h => exact safe_grant safe h
  | enter i member above => exact safe_enter safe member above
  | charge i e owes h => exact safe_charge safe owes
  | leave i => exact safe_leave safe i

omit [DecidableEq ι] in
/-- However many holders are left, the overdraft is one charge for each spender. -/
theorem safe_bound {floor : K} {pool : Finset ι} {a : Account ι K}
    (safe : Safe floor pool a) : floor - (pool.card : K) * a.longest ≤ a.balance := by
  have fewer : ((pool.card - a.holders.card : ℕ) : K) * a.longest ≤ (pool.card : K) * a.longest :=
    mul_le_mul_of_nonneg_right (by exact_mod_cast Nat.sub_le _ _) safe.longest_nonneg
  have := safe.overdraft
  linarith

end Ledger
