import Mathlib.Data.List.MinMax
import Mathlib.Data.List.Perm.Basic

/- Taking turns. A list of those who wait is served from the front, and whoever was served
   goes to the end; over as many turns as there are names everyone is served once. Beside it,
   what the first minimum of a list says about the places of the others. -/
namespace Rotation
variable {α β κ : Type}

/-- Serving these in turn takes the one order to the other. -/
inductive Rotates : List α → List α → List α → Prop where
  | nil (order : List α) : Rotates order [] order
  | serve {a : α} {order served order' : List α} (rest : Rotates (order ++ [a]) served order') :
      Rotates (a :: order) (a :: served) order'

theorem Rotates.perm {order served order' : List α} (turns : Rotates order served order') :
    order.Perm order' := by
  induction turns with
  | nil order => exact List.Perm.refl order
  | @serve a order served order' rest ih => exact (List.perm_append_singleton a order).symm.trans ih

theorem Rotates.served_mem {order served order' : List α} (turns : Rotates order served order') :
    ∀ a ∈ served, a ∈ order := by
  induction turns with
  | nil order => simp
  | @serve a order served order' rest ih =>
    intro b member
    rcases List.mem_cons.mp member with rfl | later
    · exact List.mem_cons_self
    · rcases List.mem_append.mp (ih b later) with inside | last
      · exact List.mem_cons_of_mem a inside
      · exact List.mem_singleton.mp last ▸ List.mem_cons_self

theorem Rotates.split {order order' : List α} {xs ys : List α}
    (turns : Rotates order (xs ++ ys) order') :
    ∃ middle, Rotates order xs middle ∧ Rotates middle ys order' := by
  induction xs generalizing order with
  | nil => exact ⟨order, .nil order, turns⟩
  | cons a xs ih =>
    cases turns with
    | serve rest =>
      obtain ⟨middle, first, second⟩ := ih rest
      exact ⟨middle, .serve first, second⟩

theorem Rotates.first_round {order served order' : List α} (turns : Rotates order served order')
    (short : served.length ≤ order.length) : served <+: order := by
  induction turns with
  | nil order => exact List.nil_prefix
  | @serve a order served order' rest ih =>
    have fits : served.length ≤ order.length := by simpa using short
    have before := ih (by rw [List.length_append]; omega)
    have whole : served <+: order :=
      List.prefix_of_prefix_length_le before (List.prefix_append order [a]) fits
    exact (List.cons_prefix_cons).mpr ⟨rfl, whole⟩

theorem Rotates.window {order served order' : List α} (turns : Rotates order served order')
    {before window after : List α} (split : served = before ++ window ++ after)
    (length : window.length = order.length) : window.Perm order := by
  rw [split, List.append_assoc] at turns
  obtain ⟨middle, first, later⟩ := turns.split
  obtain ⟨_, round, _⟩ := later.split
  have same : window.length = middle.length := length.trans first.perm.length_eq
  have exact_round := (round.first_round same.le).eq_of_length same
  rw [exact_round]
  exact first.perm.symm

theorem idxOf_argmin_le [LinearOrder β] [DecidableEq κ] (f : α → β) (g : α → κ) (p : α → Bool)
    {l : List α} (nodup : (l.map g).Nodup) {best other : α}
    (taken : (l.filter p).argmin f = some best) (there : other ∈ l.filter p)
    (tie : f other ≤ f best) : (l.map g).idxOf (g best) ≤ (l.map g).idxOf (g other) := by
  induction l with
  | nil => simp at there
  | cons x l ih =>
    rw [List.map_cons, List.nodup_cons] at nodup
    obtain ⟨fresh, nodup⟩ := nodup
    have later {a : α} (member : a ∈ l.filter p) :
        ((x :: l).map g).idxOf (g a) = (l.map g).idxOf (g a) + 1 := by
      rw [List.map_cons, List.idxOf_cons_ne]
      rintro same
      exact fresh (same ▸ List.mem_map_of_mem (List.mem_of_mem_filter member))
    have front : ((x :: l).map g).idxOf (g x) = 0 := by simp
    cases keep : p x with
    | false =>
      rw [List.filter_cons_of_neg (by simp [keep])] at taken there
      rw [later (List.argmin_mem taken), later there]
      exact Nat.succ_le_succ (ih nodup taken there)
    | true =>
      rw [List.filter_cons_of_pos keep] at taken there
      rw [List.argmin_cons] at taken
      cases rest : (l.filter p).argmin f with
      | none =>
        rw [rest] at taken
        cases taken
        rw [front]
        exact Nat.zero_le _
      | some c =>
        rw [rest] at taken
        by_cases lower : f c < f x
        · simp only [if_pos lower, Option.some.injEq] at taken
          subst taken
          rcases List.mem_cons.mp there with rfl | inside
          · exact absurd tie (not_le.mpr lower)
          · rw [later (List.argmin_mem rest), later inside]
            exact Nat.succ_le_succ (ih nodup rest inside)
        · simp only [if_neg lower, Option.some.injEq] at taken
          subst taken
          rw [front]
          exact Nat.zero_le _

end Rotation
