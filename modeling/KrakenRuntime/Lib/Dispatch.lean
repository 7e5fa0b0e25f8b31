import Mathlib.Data.List.Basic
import Mathlib.Data.List.Infix

/- A chain of tests for the word that a text begins with, the first that succeeds decides.
   Where no word of the chain begins with another one, the order of the tests does not
   matter, and every text that begins with a word reaches the test for it. -/
namespace Dispatch
variable {α β : Type} [DecidableEq α]

/-- What stands behind the word goes with the choice. -/
def pick : List (List α × β) → List α → Option (β × List α)
  | [], _ => none
  | (word, b) :: rules, text =>
    if word <+: text then some (b, text.drop word.length) else pick rules text

def Apart (x y : List α × β) : Prop := ¬ x.1 <+: y.1 ∧ ¬ y.1 <+: x.1

instance : DecidableRel (Apart : List α × β → List α × β → Prop) :=
  fun _ _ => inferInstanceAs (Decidable (_ ∧ _))

def PrefixFree (rules : List (List α × β)) : Prop := rules.Pairwise Apart

instance : DecidablePred (PrefixFree : List (List α × β) → Prop) :=
  fun rules => inferInstanceAs (Decidable (rules.Pairwise Apart))

variable {rules : List (List α × β)} {text : List α}

theorem pick_sound {b : β} {rest : List α} (picked : pick rules text = some (b, rest)) :
    ∃ word, (word, b) ∈ rules ∧ text = word ++ rest := by
  induction rules with
  | nil => cases picked
  | cons rule rules ih =>
    rw [pick] at picked
    split at picked
    · rename_i begins
      obtain ⟨rest', rfl⟩ := begins
      simp only [Option.some.injEq, Prod.mk.injEq, List.drop_left] at picked
      obtain ⟨rfl, rfl⟩ := picked
      exact ⟨rule.1, List.mem_cons_self .., rfl⟩
    · obtain ⟨word, member, split⟩ := ih picked
      exact ⟨word, List.mem_cons_of_mem _ member, split⟩

theorem pick_word (free : PrefixFree rules) {word rest : List α} {b : β}
    (member : (word, b) ∈ rules) : pick rules (word ++ rest) = some (b, rest) := by
  induction rules with
  | nil => cases member
  | cons rule rules ih =>
    obtain ⟨apart, free⟩ := List.pairwise_cons.mp free
    rcases List.mem_cons.mp member with rfl | later
    · rw [pick, if_pos (List.prefix_append ..), List.drop_left]
    · have other : ¬ rule.1 <+: word ++ rest := by
        -- of two words that begin the same text, one begins with the other
        intro begins
        rcases List.prefix_or_prefix_of_prefix begins (List.prefix_append word rest) with short | long
        · exact (apart _ later).1 short
        · exact (apart _ later).2 long
      rw [pick, if_neg other, ih free later]

theorem pick_iff (free : PrefixFree rules) {b : β} {rest : List α} :
    pick rules text = some (b, rest) ↔ ∃ word, (word, b) ∈ rules ∧ text = word ++ rest := by
  constructor
  · exact pick_sound
  · rintro ⟨word, member, rfl⟩
    exact pick_word free member

theorem pick_perm {rules' : List (List α × β)} (free : PrefixFree rules) (perm : rules.Perm rules') :
    pick rules' text = pick rules text := by
  have free' : PrefixFree rules' := by
    refine (perm.pairwise_iff ?_).mp free
    intro x y apart
    exact ⟨apart.2, apart.1⟩
  apply Option.ext
  rintro ⟨b, rest⟩
  rw [pick_iff free', pick_iff free]
  constructor
  · rintro ⟨word, member, split⟩
    exact ⟨word, perm.mem_iff.mpr member, split⟩
  · rintro ⟨word, member, split⟩
    exact ⟨word, perm.mem_iff.mp member, split⟩

end Dispatch
