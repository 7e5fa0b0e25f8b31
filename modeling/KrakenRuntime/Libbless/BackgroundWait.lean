import KrakenRuntime.Libbless.LaunchPath
import Mathlib.Data.List.Basic

/- The BACKGROUND wait of priority_queue_gate (libbless.cpp), alone and against any values
   that other threads and commands let its loads see. The body of the loop sets its counter
   back to zero after 50 rounds and then asks whether it has passed 100, so the timeout of
   10 ms that its comment speaks of never comes. -/
namespace BackgroundWait
open TimeGate LaunchPath

/-- What the three loads of one test of the loop see; the last two only run if the first
    one lets them. -/
structure Seen where
  urgent : ℤ
  normal : ℤ
  background : ℤ

def Seen.front (v : Seen) : Front :=
  { queueLen := fun p =>
      match p with
      | .urgent => v.urgent
      | .normal => v.normal
      | .background => v.background }

/-- One test of the loop, and its body if the test finds someone to wait for. -/
def round (v : Seen) (c : Call) (waited : ℕ) (stuck : Bool) : Stage :=
  match (advance v.front .background (.urgentLen c waited stuck)).2 with
  | .normalLen c waited stuck =>
    let loaded := (advance v.front .background (.normalLen c waited stuck)).2
    (advance v.front .background loaded).2
  | stage => stage

def after (c : Call) (seen : ℕ → Seen) : ℕ → Stage
  | 0 => afterUrgent c .background
  | n + 1 =>
    match after c seen n with
    | .urgentLen c waited stuck => round (seen n) c waited stuck
    | stage => stage

def Seen.Free (v : Seen) : Prop := v.urgent ≤ 0 ∧ v.normal ≤ v.background

theorem left_not_inside (c c' : Call) (waited : ℕ) (stuck : Bool) :
    afterQueue c ≠ .urgentLen c' waited stuck := by
  cases c <;> simp [afterQueue]

theorem backgroundWait_goes_on (c : Call) {waited : ℕ} (small : waited ≤ 50) :
    ∃ waited' ≤ 50, backgroundWait c waited = .urgentLen c waited' true := by
  unfold backgroundWait
  by_cases spin : waited < 50
  · exact ⟨waited + 1, by omega, by simp [spin]; omega⟩
  · exact ⟨0, by omega, by simp [spin]⟩

theorem round_of_free {v : Seen} (free : v.Free) (c : Call) (waited : ℕ) (stuck : Bool) :
    round v c waited stuck = afterQueue c := by
  obtain ⟨urgent, normal⟩ := free
  have none : ¬ 0 < v.front.queueLen .urgent := by simpa [Seen.front] using urgent
  have few : ¬ v.front.queueLen .background < v.front.queueLen .normal := by
    simpa [Seen.front] using normal
  simp only [round, advance, if_neg none, if_neg few]

theorem round_of_held {v : Seen} (held : ¬ v.Free) {c : Call} {waited waited' : ℕ} {stuck : Bool}
    (on : backgroundWait c waited = .urgentLen c waited' true) :
    round v c waited stuck = .urgentLen c waited' true := by
  by_cases urgent : 0 < v.front.queueLen .urgent
  · simp only [round, advance, if_pos urgent, on]
  · have many : v.front.queueLen .background < v.front.queueLen .normal := by
      simp only [Seen.Free, not_and, not_le] at held
      exact held (by simpa [Seen.front] using urgent)
    simp only [round, advance, if_neg urgent, if_pos many, on]

theorem after_cases (c : Call) (seen : ℕ → Seen) (n : ℕ) :
    ((∀ i < n, ¬ (seen i).Free) ∧
        ∃ waited ≤ 50, ∃ stuck, after c seen n = .urgentLen c waited stuck) ∨
      ((∃ i < n, (seen i).Free) ∧ after c seen n = afterQueue c) := by
  induction n with
  | zero => exact .inl ⟨by omega, 0, by omega, false, by simp [after, afterUrgent]⟩
  | succ n ih =>
    rcases ih with ⟨held, waited, small, stuck, inside⟩ | ⟨⟨i, earlier, free⟩, left⟩
    · by_cases free : (seen n).Free
      · exact .inr ⟨⟨n, by omega, free⟩, by simp only [after, inside, round_of_free free]⟩
      · obtain ⟨waited', small', on⟩ := backgroundWait_goes_on c small
        refine .inl ⟨?_, waited', small', true, ?_⟩
        · intro i before
          rcases Nat.lt_succ_iff_lt_or_eq.mp before with before | rfl
          · exact held i before
          · exact free
        · simp only [after, inside, round_of_held free on]
    · refine .inr ⟨⟨i, by omega, free⟩, ?_⟩
      cases c <;> simp only [after, left, afterQueue]

/-- The wait is over after n tests if and only if one of them found nobody to wait for:
    the counter never ends it. -/
theorem background_wait_leaves_iff (c : Call) (seen : ℕ → Seen) (n : ℕ) :
    after c seen n = afterQueue c ↔ ∃ i < n, (seen i).Free := by
  rcases after_cases c seen n with ⟨held, waited, _, stuck, inside⟩ | ⟨found, left⟩
  · constructor
    · intro left
      exact absurd (left.symm.trans inside) (left_not_inside c c waited stuck)
    · intro ⟨i, before, free⟩
      exact absurd free (held i before)
  · exact iff_of_true left found

/-- One URGENT kernel that stays counted keeps a BACKGROUND launch waiting for ever, so no
    number of rounds bounds the wait. -/
theorem background_wait_unbounded :
    ¬ ∃ bound : ℕ, ∀ seen : ℕ → Seen, ∃ n ≤ bound, after .first seen n = afterQueue .first := by
  intro ⟨bound, all⟩
  obtain ⟨n, _, left⟩ := all fun _ => ⟨1, 0, 1⟩
  rcases after_cases .first (fun _ => ⟨1, 0, 1⟩) n with ⟨_, waited, _, stuck, inside⟩ | ⟨found, _⟩
  · exact left_not_inside _ _ _ _ (left.symm.trans inside)
  · obtain ⟨_, _, none, _⟩ := found
    exact absurd none (by decide)

end BackgroundWait
