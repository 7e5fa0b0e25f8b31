import Mathlib.Data.Nat.Notation
import Mathlib.Logic.Function.Basic

/- Work that is done once for all threads, behind a flag and a mutex: a thread tests the flag,
   and only if it is down takes the mutex and tests it again. A place says where a thread is with
   respect to one such piece of work; whatever else the threads do is no step here. -/
namespace Once
variable {ι : Type} [DecidableEq ι]

inductive Place where
  | away
  | test
  | lock
  | retest
  | body
  | store
  | unlock
  | passed
  deriving DecidableEq

/-- `begun` counts how often the work was taken up. -/
structure Cell (ι : Type) where
  done : Bool
  mutex : Option ι
  begun : ℕ
  places : ι → Place

def Cell.place (c : Cell ι) (i : ι) (p : Place) : Cell ι :=
  { c with places := Function.update c.places i p }

inductive Step : Cell ι → ι → Cell ι → Prop where
  | arrive {c i} (out : c.places i = .away ∨ c.places i = .passed) : Step c i (c.place i .test)
  | seen {c i} (here : c.places i = .test) (up : c.done = true) : Step c i (c.place i .passed)
  | unseen {c i} (here : c.places i = .test) (down : c.done = false) : Step c i (c.place i .lock)
  | locked {c i} (here : c.places i = .lock) (free : c.mutex = none) :
      Step c i ({ c with mutex := some i }.place i .retest)
  | beaten {c i} (here : c.places i = .retest) (up : c.done = true) : Step c i (c.place i .unlock)
  | begins {c i} (here : c.places i = .retest) (down : c.done = false) :
      Step c i ({ c with begun := c.begun + 1 }.place i .body)
  | ends {c i} (here : c.places i = .body) : Step c i (c.place i .store)
  | stored {c i} (here : c.places i = .store) : Step c i ({ c with done := true }.place i .unlock)
  | unlocked {c i} (here : c.places i = .unlock) :
      Step c i ({ c with mutex := none }.place i .passed)
  | leaves {c i} (here : c.places i = .passed) : Step c i (c.place i .away)

def Place.holds : Place → Bool
  | .retest | .body | .store | .unlock => true
  | _ => false

def Place.works : Place → Bool
  | .body | .store => true
  | _ => false

/-- The thread relies on the work being done. -/
def Place.relies : Place → Bool
  | .unlock | .passed => true
  | _ => false

structure Kept (c : Cell ι) : Prop where
  owner : ∀ i, (c.places i).holds = true ↔ c.mutex = some i
  undone : ∀ i, (c.places i).works = true → c.done = false
  known : ∀ i, (c.places i).relies = true → c.done = true
  one : c.begun ≤ 1
  unbegun : c.done = false → (∀ i, (c.places i).works = false) → c.begun = 0
  taken : ∀ i, (c.places i).works = true → c.begun = 1
  begun : c.done = true → c.begun = 1

section Kept
variable {c c' : Cell ι} {i j : ι} {p : Place}

omit [DecidableEq ι] in
theorem Place.holds_of_works (h : p.works = true) : p.holds = true := by
  cases p <;> trivial

omit [DecidableEq ι] in
theorem Kept.alone (kept : Kept c) (mine : (c.places i).holds = true)
    (theirs : (c.places j).holds = true) : j = i :=
  Option.some.inj (((kept.owner j).mp theirs).symm.trans ((kept.owner i).mp mine))

theorem place_all {P : ι → Place → Prop} (here : P i p) (there : ∀ j, j ≠ i → P j (c.places j))
    (j : ι) : P j ((c.place i p).places j) := by
  by_cases same : j = i
  · subst same
    simpa [Cell.place] using here
  · simpa [Cell.place, same] using there j same

theorem place_self : (c.place i p).places i = p := by simp [Cell.place]

theorem Kept.moves (kept : Kept c) (holds : p.holds = (c.places i).holds)
    (works : p.works = (c.places i).works) (known : p.relies = true → c.done = true) :
    Kept (c.place i p) where
  owner := place_all (P := fun j q => q.holds = true ↔ c.mutex = some j)
    (holds ▸ kept.owner i) fun j _ => kept.owner j
  undone := place_all (P := fun _ q => q.works = true → c.done = false)
    (works ▸ kept.undone i) fun j _ => kept.undone j
  known := place_all (P := fun _ q => q.relies = true → c.done = true) known fun j _ => kept.known j
  one := kept.one
  unbegun down idle := by
    apply kept.unbegun down
    intro j
    by_cases same : j = i
    · subst same
      rw [← works, ← place_self (c := c) (i := j) (p := p)]
      exact idle j
    · simpa [Cell.place, same] using idle j
  taken := place_all (P := fun _ q => q.works = true → c.begun = 1)
    (works ▸ kept.taken i) fun j _ => kept.taken j
  begun := kept.begun

omit [DecidableEq ι] in
theorem Kept.nobody_works (kept : Kept c) (mine : (c.places i).holds = true)
    (not_me : (c.places i).works = false) (j : ι) : (c.places j).works = false := by
  by_contra working
  have theirs := Place.holds_of_works (Bool.of_not_eq_false working)
  rw [kept.alone mine theirs] at working
  exact working not_me

omit [DecidableEq ι] in
theorem Kept.free_mutex (kept : Kept c) (free : c.mutex = none) (j : ι) :
    (c.places j).holds = false := by
  by_contra theirs
  have owned := (kept.owner j).mp (Bool.of_not_eq_false theirs)
  rw [free] at owned
  cases owned

theorem locked_kept (kept : Kept c) (here : c.places i = .lock) (free : c.mutex = none) :
    Kept ({ c with mutex := some i }.place i .retest) where
  owner := by
    refine place_all (P := fun j q => q.holds = true ↔ some i = some j) (iff_of_true rfl rfl) ?_
    intro j other
    have nobody := kept.free_mutex free j
    refine iff_of_false (by simp [nobody]) ?_
    intro mine
    exact other (Option.some.inj mine).symm
  undone := place_all (P := fun _ q => q.works = true → c.done = false) Bool.noConfusion
    fun j _ => kept.undone j
  known := place_all (P := fun _ q => q.relies = true → c.done = true) Bool.noConfusion
    fun j _ => kept.known j
  one := kept.one
  unbegun down idle := by
    apply kept.unbegun down
    intro j
    by_cases same : j = i
    · rw [same, here]
      rfl
    · simpa [Cell.place, same] using idle j
  taken := place_all (P := fun _ q => q.works = true → c.begun = 1) Bool.noConfusion
    fun j _ => kept.taken j
  begun := kept.begun

theorem begins_kept (kept : Kept c) (here : c.places i = .retest) (down : c.done = false) :
    Kept ({ c with begun := c.begun + 1 }.place i .body) := by
  have mine : (c.places i).holds = true := by rw [here]; rfl
  have idle := kept.nobody_works mine (by rw [here]; rfl)
  have first : c.begun + 1 = 1 := by rw [kept.unbegun down idle]
  constructor
  case owner =>
    exact place_all (P := fun j q => q.holds = true ↔ c.mutex = some j)
      (iff_of_true rfl ((kept.owner i).mp mine)) fun j _ => kept.owner j
  case undone => exact fun _ _ => down
  case known =>
    exact place_all (P := fun _ q => q.relies = true → c.done = true) Bool.noConfusion
      fun j _ => kept.known j
  case one => exact Nat.le_of_eq first
  case unbegun =>
    intro _ nobody
    have working := nobody i
    rw [place_self] at working
    cases working
  case taken => exact fun _ _ => first
  case begun =>
    intro up
    rw [Cell.place, down] at up
    cases up

theorem stored_kept (kept : Kept c) (here : c.places i = .store) :
    Kept ({ c with done := true }.place i .unlock) := by
  have mine : (c.places i).holds = true := by rw [here]; rfl
  have others : ∀ j, j ≠ i → (c.places j).works = false := by
    intro j other
    by_contra working
    exact other (kept.alone mine (Place.holds_of_works (Bool.of_not_eq_false working)))
  have nobody : ∀ j, (({ c with done := true }.place i .unlock).places j).works = false :=
    place_all (P := fun _ q => q.works = false) rfl others
  constructor
  case owner =>
    exact place_all (P := fun j q => q.holds = true ↔ c.mutex = some j)
      (iff_of_true rfl ((kept.owner i).mp mine)) fun j _ => kept.owner j
  case undone =>
    intro j working
    rw [nobody j] at working
    cases working
  case known => exact fun _ _ => rfl
  case one => exact kept.one
  case unbegun => exact fun down => Bool.noConfusion down
  case taken =>
    intro j working
    rw [nobody j] at working
    cases working
  case begun => exact fun _ => kept.taken i (by rw [here]; rfl)

theorem unlocked_kept (kept : Kept c) (here : c.places i = .unlock) :
    Kept ({ c with mutex := none }.place i .passed) := by
  have mine : (c.places i).holds = true := by rw [here]; rfl
  have up : c.done = true := kept.known i (by rw [here]; rfl)
  have idle := kept.nobody_works mine (by rw [here]; rfl)
  have nobody : ∀ j, (({ c with mutex := none }.place i .passed).places j).works = false :=
    place_all (P := fun _ q => q.works = false) rfl fun j _ => idle j
  constructor
  case owner =>
    refine place_all (P := fun j q => q.holds = true ↔ none = some j)
      (iff_of_false Bool.noConfusion (by simp)) ?_
    intro j other
    refine iff_of_false ?_ (by simp)
    intro theirs
    exact other (kept.alone mine theirs)
  case undone =>
    intro j working
    rw [nobody j] at working
    cases working
  case known => exact fun _ _ => up
  case one => exact kept.one
  case unbegun =>
    intro down
    rw [Cell.place, up] at down
    cases down
  case taken =>
    intro j working
    rw [nobody j] at working
    cases working
  case begun => exact kept.begun

theorem step_kept (kept : Kept c) (step : Step c i c') : Kept c' := by
  cases step with
  | arrive out =>
    rcases out with here | here
    all_goals
      apply kept.moves
      · rw [here]; rfl
      · rw [here]; rfl
      · exact Bool.noConfusion
  | seen here up => exact kept.moves (by rw [here]; rfl) (by rw [here]; rfl) fun _ => up
  | unseen here down => exact kept.moves (by rw [here]; rfl) (by rw [here]; rfl) Bool.noConfusion
  | beaten here up => exact kept.moves (by rw [here]; rfl) (by rw [here]; rfl) fun _ => up
  | ends here => exact kept.moves (by rw [here]; rfl) (by rw [here]; rfl) Bool.noConfusion
  | leaves here => exact kept.moves (by rw [here]; rfl) (by rw [here]; rfl) Bool.noConfusion
  | locked here free => exact locked_kept kept here free
  | begins here down => exact begins_kept kept here down
  | stored here => exact stored_kept kept here
  | unlocked here => exact unlocked_kept kept here

end Kept

def fresh : Cell ι := ⟨false, none, 0, fun _ => .away⟩

omit [DecidableEq ι] in
theorem fresh_kept : Kept (fresh : Cell ι) where
  owner _ := iff_of_false Bool.noConfusion (by simp [fresh])
  undone _ _ := rfl
  known _ relying := Bool.noConfusion relying
  one := Nat.zero_le 1
  unbegun _ _ := rfl
  taken _ working := Bool.noConfusion working
  begun up := Bool.noConfusion up

end Once
