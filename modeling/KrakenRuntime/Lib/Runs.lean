import Mathlib.Data.List.Basic

/- Finite runs of a labelled transition relation. Labels are whatever a step can be
   asked to do; nothing here knows what a state is. Partial functions give relations
   through `Fires`, so that a concrete run can be computed and then used as a run. -/
namespace Runs
variable {σ α : Type}

inductive Run (step : σ → α → σ → Prop) : σ → List α → σ → Prop where
  | nil (s : σ) : Run step s [] s
  | cons {s t u : σ} {a : α} {rest : List α}
      (first : step s a t) (tail : Run step t rest u) : Run step s (a :: rest) u

/-- The steps that also meet a condition on the state they leave and on their label. -/
def Guarded (ok : σ → α → Prop) (step : σ → α → σ → Prop) (s : σ) (a : α) (t : σ) : Prop :=
  ok s a ∧ step s a t

theorem run_guarded_labels_iff {ok : α → Prop} {step : σ → α → σ → Prop} {s t : σ}
    {labels : List α} (run : Run step s labels t) :
    Run (Guarded (fun _ => ok) step) s labels t ↔ ∀ a ∈ labels, ok a := by
  constructor
  · intro guarded
    clear run
    induction guarded with
    | nil => simp
    | cons head tail ih =>
      intro a member
      rcases List.mem_cons.mp member with rfl | later
      · exact head.1
      · exact ih a later
  · intro all
    induction run with
    | nil s => exact .nil s
    | cons head tail ih =>
      exact .cons ⟨all _ List.mem_cons_self, head⟩
        (ih fun a member => all a (List.mem_cons_of_mem _ member))

theorem run_single {step : σ → α → σ → Prop} {s t : σ} {a : α} (h : step s a t) :
    Run step s [a] t :=
  .cons h (.nil t)

theorem run_split {step : σ → α → σ → Prop} {s u : σ} {xs ys : List α}
    (run : Run step s (xs ++ ys) u) : ∃ t, Run step s xs t ∧ Run step t ys u := by
  induction xs generalizing s with
  | nil => exact ⟨s, .nil s, run⟩
  | cons a xs ih =>
    cases run with
    | cons head tail =>
      obtain ⟨t, before, after⟩ := ih tail
      exact ⟨t, .cons head before, after⟩

theorem run_append {step : σ → α → σ → Prop} {s t u : σ} {xs ys : List α}
    (before : Run step s xs t) (after : Run step t ys u) : Run step s (xs ++ ys) u := by
  induction before with
  | nil => exact after
  | cons head tail ih => exact .cons head (ih after)

/-- What every step keeps, every run keeps. -/
theorem run_invariant {step : σ → α → σ → Prop} (keep : σ → Prop)
    (preserved : ∀ s a t, keep s → step s a t → keep t)
    {s t : σ} {labels : List α} (run : Run step s labels t) (start : keep s) : keep t := by
  induction run with
  | nil => exact start
  | cons head tail ih => exact ih (preserved _ _ _ start head)

theorem run_invariant_of_labels {step : σ → α → σ → Prop} (allowed : α → Prop) (keep : σ → Prop)
    (preserved : ∀ s a t, allowed a → keep s → step s a t → keep t)
    {s t : σ} {labels : List α} (run : Run step s labels t)
    (all : ∀ a ∈ labels, allowed a) (start : keep s) : keep t := by
  induction run with
  | nil => exact start
  | cons head tail ih =>
    exact ih (fun a ha => all a (List.mem_cons_of_mem _ ha))
      (preserved _ _ _ (all _ (by simp)) start head)

theorem run_mono {step wider : σ → α → σ → Prop}
    (incl : ∀ s a t, step s a t → wider s a t)
    {s t : σ} {labels : List α} (run : Run step s labels t) : Run wider s labels t := by
  induction run with
  | nil s => exact .nil s
  | cons head tail ih => exact .cons (incl _ _ _ head) ih

theorem run_deterministic {step : σ → α → σ → Prop}
    (same : ∀ s a t u, step s a t → step s a u → t = u)
    {s t u : σ} {labels : List α} (first : Run step s labels t) (second : Run step s labels u) :
    t = u := by
  induction first with
  | nil => cases second; rfl
  | cons head tail ih =>
    cases second with
    | cons head' tail' =>
      have eq := same _ _ _ _ head head'
      subst eq
      exact ih tail'

/-- Where an invariant is kept by the steps that meet a condition, and these are the steps
    after which a property is seen to hold, a run meets the condition at every step exactly
    when the property holds in every state it goes through. -/
theorem run_guarded_shown_iff {step : σ → α → σ → Prop} {ok : σ → α → Prop}
    {steady keep shown : σ → Prop} (same : ∀ s a t u, step s a t → step s a u → t = u)
    (steady_step : ∀ s a t, steady s → step s a t → steady t)
    (keep_step : ∀ s a t, steady s → keep s → step s a t → ok s a → keep t)
    (shown_iff : ∀ s a t, steady s → keep s → step s a t → (ok s a ↔ shown t))
    {s t : σ} {labels : List α} (run : Run step s labels t) (steady_start : steady s)
    (start : keep s) (shown_start : shown s) :
    Run (Guarded ok step) s labels t ↔
      ∀ xs ys u, labels = xs ++ ys → Run step s xs u → shown u := by
  induction run with
  | nil s =>
    constructor
    · intro _ xs ys u split before
      obtain ⟨rfl, rfl⟩ := List.append_eq_nil_iff.mp split.symm
      cases before
      exact shown_start
    · intro _
      exact .nil s
  | @cons s m t a rest first tail ih =>
    have later := ih (steady_step s a m steady_start first)
    have seen_iff := shown_iff _ _ _ steady_start start first
    constructor
    · intro guarded xs ys u split before
      cases guarded with
      | cons first' tail' =>
        have eq := same _ _ _ _ first'.2 first
        subst eq
        have kept := keep_step _ _ _ steady_start start first first'.1
        cases before with
        | nil => exact shown_start
        | cons head before =>
          rw [List.cons_append, List.cons.injEq] at split
          obtain ⟨rfl, split⟩ := split
          have eq := same _ _ _ _ head first
          subst eq
          exact (later kept (seen_iff.mp first'.1)).mp tail' _ ys u split before
    · intro always
      have seen := always [a] rest m rfl (run_single first)
      have met := seen_iff.mpr seen
      have kept := keep_step _ _ _ steady_start start first met
      refine .cons ⟨met, first⟩ ((later kept seen).mpr ?_)
      intro xs ys u split before
      exact always (a :: xs) ys u (by rw [split, List.cons_append]) (.cons first before)

theorem run_guarded_iff {step : σ → α → σ → Prop} {ok : σ → α → Prop} {steady keep : σ → Prop}
    (same : ∀ s a t u, step s a t → step s a u → t = u)
    (steady_step : ∀ s a t, steady s → step s a t → steady t)
    (keep_iff : ∀ s a t, steady s → keep s → step s a t → (ok s a ↔ keep t))
    {s t : σ} {labels : List α} (run : Run step s labels t) (steady_start : steady s)
    (start : keep s) :
    Run (Guarded ok step) s labels t ↔
      ∀ xs ys u, labels = xs ++ ys → Run step s xs u → keep u :=
  run_guarded_shown_iff same steady_step
    (fun s a t steady kept step met => (keep_iff s a t steady kept step).mp met)
    keep_iff run steady_start start start

theorem run_guarded_answers_iff {step : σ → α → σ → Prop} {ok right : σ → α → Prop}
    {steady keep : σ → Prop} (same : ∀ s a t u, step s a t → step s a u → t = u)
    (steady_step : ∀ s a t, steady s → step s a t → steady t)
    (ok_iff : ∀ s a t, steady s → keep s → step s a t → (ok s a ↔ right s a ∧ keep t))
    {s t : σ} {labels : List α} (run : Run step s labels t) (steady_start : steady s)
    (start : keep s) :
    Run (Guarded ok step) s labels t ↔
      (∀ xs ys u, labels = xs ++ ys → Run step s xs u → keep u) ∧
      ∀ xs a ys u, labels = xs ++ a :: ys → Run step s xs u → right u a := by
  induction run with
  | nil s =>
    constructor
    · intro _
      refine ⟨?_, fun xs a ys u split => absurd split (by simp)⟩
      intro xs ys u split before
      obtain ⟨rfl, rfl⟩ := List.append_eq_nil_iff.mp split.symm
      cases before
      exact start
    · intro _
      exact .nil s
  | @cons s m t a rest first tail ih =>
    have later := ih (steady_step s a m steady_start first)
    have met_iff := ok_iff s a m steady_start start first
    constructor
    · intro guarded
      cases guarded with
      | cons first' tail' =>
        have eq := same _ _ _ _ first'.2 first
        subst eq
        obtain ⟨answered, kept⟩ := met_iff.mp first'.1
        obtain ⟨keeps, answers⟩ := (later kept).mp tail'
        constructor
        · intro xs ys u split before
          cases before with
          | nil => exact start
          | cons head before =>
            rw [List.cons_append, List.cons.injEq] at split
            obtain ⟨rfl, split⟩ := split
            have eq := same _ _ _ _ head first
            subst eq
            exact keeps _ ys u split before
        · intro xs b ys u split before
          cases before with
          | nil =>
            rw [List.nil_append, List.cons.injEq] at split
            rw [← split.1]
            exact answered
          | cons head before =>
            rw [List.cons_append, List.cons.injEq] at split
            obtain ⟨rfl, split⟩ := split
            have eq := same _ _ _ _ head first
            subst eq
            exact answers _ b ys u split before
    · rintro ⟨keeps, answers⟩
      have answered := answers [] a rest s rfl (.nil s)
      have kept := keeps [a] rest m rfl (run_single first)
      refine .cons ⟨met_iff.mpr ⟨answered, kept⟩, first⟩ ((later kept).mpr ⟨?_, ?_⟩)
      · intro xs ys u split before
        exact keeps (a :: xs) ys u (by rw [split, List.cons_append]) (.cons first before)
      · intro xs b ys u split before
        exact answers (a :: xs) b ys u (by rw [split, List.cons_append]) (.cons first before)

/-- A partial transition function as a relation. -/
def Fires (next : σ → α → Option σ) (s : σ) (a : α) (t : σ) : Prop := next s a = some t

theorem guarded_deterministic {ok : σ → α → Prop} {step : σ → α → σ → Prop}
    (same : ∀ s a t u, step s a t → step s a u → t = u) :
    ∀ s a t u, Guarded ok step s a t → Guarded ok step s a u → t = u := by
  intro s a t u first second
  exact same s a t u first.2 second.2

theorem fires_deterministic (next : σ → α → Option σ) :
    ∀ s a t u, Fires next s a t → Fires next s a u → t = u := by
  intro s a t u first second
  exact Option.some.inj (first.symm.trans second)

def exec (next : σ → α → Option σ) : σ → List α → Option σ
  | s, [] => some s
  | s, a :: rest => (next s a).bind fun t => exec next t rest

theorem run_of_exec {next : σ → α → Option σ} {s u : σ} {labels : List α}
    (h : exec next s labels = some u) : Run (Fires next) s labels u := by
  induction labels generalizing s with
  | nil =>
    simp only [exec, Option.some.injEq] at h
    subst u
    exact .nil s
  | cons a rest ih =>
    simp only [exec, Option.bind_eq_some_iff] at h
    obtain ⟨t, first, later⟩ := h
    exact .cons first (ih later)

theorem run_reaches {next : σ → α → Option σ} {s : σ} {labels : List α} (check : σ → Bool)
    (h : (exec next s labels).any check = true) :
    ∃ t, Run (Fires next) s labels t ∧ check t = true := by
  cases found : exec next s labels with
  | none => simp [found] at h
  | some t => exact ⟨t, run_of_exec found, by simpa [found] using h⟩

section Settling
variable {next : σ → α → Option σ} {a : α} {settled : σ → Prop}
  (rests : ∀ s, settled s → next s a = some s)
include rests

theorem settled_stays {s t : σ} {k : ℕ} (done : settled s)
    (run : Run (Fires next) s (List.replicate k a) t) : t = s := by
  induction k with
  | zero =>
    cases run
    rfl
  | succ k ih =>
    cases run with
    | cons head tail =>
      have eq := Option.some.inj (head.symm.trans (rests s done))
      subst eq
      exact ih tail

/-- Repeating one label settles in one state, however often it is repeated. -/
theorem settled_unique {s t u : σ} {j k : ℕ} (first : Run (Fires next) s (List.replicate j a) t)
    (second : Run (Fires next) s (List.replicate k a) u) (done : settled t) (done' : settled u) :
    t = u := by
  induction j generalizing s k with
  | zero =>
    cases first
    exact (settled_stays rests done second).symm
  | succ j ih =>
    cases k with
    | zero =>
      cases second
      exact settled_stays rests done' first
    | succ k =>
      cases first with
      | cons head tail =>
        cases second with
        | cons head' tail' =>
          have eq := fires_deterministic next _ _ _ _ head head'
          subst eq
          exact ih tail tail'

theorem refused_never_settles {ok : σ → α → Prop} {s w t : σ} {m k : ℕ}
    (path : Run (Fires next) s (List.replicate m a) w) (refused : ¬ ok w a)
    (unsettled : ¬ settled w) (run : Run (Guarded ok (Fires next)) s (List.replicate k a) t) :
    ¬ settled t := by
  induction m generalizing s k with
  | zero =>
    cases path
    cases k with
    | zero =>
      cases run
      exact unsettled
    | succ k =>
      cases run with
      | cons head tail => exact absurd head.1 refused
  | succ m ih =>
    cases k with
    | zero =>
      cases run
      intro done
      have stays := settled_stays rests done path
      subst stays
      exact unsettled done
    | succ k =>
      cases path with
      | cons head tail =>
        cases run with
        | cons head' tail' =>
          have eq := fires_deterministic next _ _ _ _ head head'.2
          subst eq
          exact ih tail tail'

end Settling

/-- A state that the run along these labels goes through looks so. -/
def Shows {β : Type} (look : σ → β) (step : σ → α → σ → Prop) (s : σ) (labels : List α)
    (b : β) : Prop :=
  ∃ xs ys u, labels = xs ++ ys ∧ Run step s xs u ∧ look u = b

theorem shows_start {β : Type} (look : σ → β) (step : σ → α → σ → Prop) (s : σ)
    (labels : List α) : Shows look step s labels (look s) :=
  ⟨[], labels, s, rfl, .nil s, rfl⟩

theorem shows_nil_iff {β : Type} {look : σ → β} {step : σ → α → σ → Prop} {s : σ} {b : β} :
    Shows look step s [] b ↔ b = look s := by
  constructor
  · rintro ⟨xs, ys, u, split, run, rfl⟩
    obtain ⟨rfl, rfl⟩ := List.append_eq_nil_iff.mp split.symm
    cases run
    rfl
  · rintro rfl
    exact shows_start look step s []

theorem shows_cons_iff {β : Type} {look : σ → β} {step : σ → α → σ → Prop}
    (same : ∀ s a t u, step s a t → step s a u → t = u) {s t : σ} {a : α} {rest : List α} {b : β}
    (first : step s a t) :
    Shows look step s (a :: rest) b ↔ b = look s ∨ Shows look step t rest b := by
  constructor
  · rintro ⟨xs, ys, u, split, run, rfl⟩
    cases run with
    | nil => exact .inl rfl
    | cons head tail =>
      rw [List.cons_append, List.cons.injEq] at split
      obtain ⟨rfl, split⟩ := split
      have eq := same _ _ _ _ head first
      subst eq
      exact .inr ⟨_, ys, u, split, tail, rfl⟩
  · rintro (rfl | ⟨xs, ys, u, rfl, run, rfl⟩)
    · exact shows_start look step s (a :: rest)
    · exact ⟨a :: xs, ys, u, rfl, .cons first run, rfl⟩

/-- Steps with a record of what happened so far, which never decides what can happen. -/
def Watched {β : Type} (observe : σ → α → β → β) (step : σ → α → σ → Prop)
    (x : σ × β) (a : α) (y : σ × β) : Prop :=
  step x.1 a y.1 ∧ y.2 = observe x.1 a x.2

theorem watched_deterministic {β : Type} {observe : σ → α → β → β} {step : σ → α → σ → Prop}
    (same : ∀ s a t u, step s a t → step s a u → t = u) :
    ∀ x a y z, Watched observe step x a y → Watched observe step x a z → y = z := by
  intro x a y z first second
  exact Prod.ext (same _ _ _ _ first.1 second.1) (first.2.trans second.2.symm)

theorem run_watched {β : Type} (observe : σ → α → β → β) {step : σ → α → σ → Prop}
    {s t : σ} {labels : List α} (run : Run step s labels t) (b : β) :
    ∃ b', Run (Watched observe step) (s, b) labels (t, b') := by
  induction run generalizing b with
  | nil s => exact ⟨b, .nil _⟩
  | cons first tail ih =>
    obtain ⟨b', later⟩ := ih (observe _ _ b)
    exact ⟨b', .cons ⟨first, rfl⟩ later⟩

def watching {β : Type} (observe : σ → α → β → β) (next : σ → α → Option σ) (x : σ × β) (a : α) :
    Option (σ × β) :=
  (next x.1 a).map fun t => (t, observe x.1 a x.2)

theorem watched_of_fires {β : Type} {observe : σ → α → β → β} {next : σ → α → Option σ}
    {x y : σ × β} {a : α} (h : Fires (watching observe next) x a y) :
    Watched observe (Fires next) x a y := by
  simp only [Fires, watching, Option.map_eq_some_iff] at h
  obtain ⟨t, moved, rfl⟩ := h
  exact ⟨moved, rfl⟩

theorem watched_run_reaches {β : Type} {observe : σ → α → β → β} {next : σ → α → Option σ}
    {x : σ × β} {labels : List α} (check : σ × β → Bool)
    (h : (exec (watching observe next) x labels).any check = true) :
    ∃ y, Run (Watched observe (Fires next)) x labels y ∧ check y = true := by
  obtain ⟨y, run, checked⟩ := run_reaches check h
  exact ⟨y, run_mono (fun _ _ _ => watched_of_fires) run, checked⟩

section Guarding
variable (ok : σ → α → Prop) [∀ s a, Decidable (ok s a)]

def guarding (next : σ → α → Option σ) (s : σ) (a : α) : Option σ :=
  if ok s a then next s a else none

theorem guarded_of_fires {next : σ → α → Option σ} {s t : σ} {a : α}
    (h : Fires (guarding ok next) s a t) : Guarded ok (Fires next) s a t := by
  simp only [Fires, guarding] at h
  split at h
  · rename_i met
    exact ⟨met, h⟩
  · cases h

theorem guarded_run_reaches {next : σ → α → Option σ} {s : σ} {labels : List α} (check : σ → Bool)
    (h : (exec (guarding ok next) s labels).any check = true) :
    ∃ t, Run (Guarded ok (Fires next)) s labels t ∧ check t = true := by
  obtain ⟨t, run, checked⟩ := run_reaches check h
  exact ⟨t, run_mono (fun _ _ _ => guarded_of_fires ok) run, checked⟩

theorem watched_guarded_run_reaches {β : Type} {observe : σ → α → β → β}
    {next : σ → α → Option σ} {x : σ × β} {labels : List α} (check : σ × β → Bool)
    (h : (exec (watching observe (guarding ok next)) x labels).any check = true) :
    ∃ y, Run (Watched observe (Guarded ok (Fires next))) x labels y ∧ check y = true := by
  obtain ⟨y, run, checked⟩ := watched_run_reaches check h
  refine ⟨y, run_mono ?_ run, checked⟩
  intro x a z step
  exact ⟨guarded_of_fires ok step.1, step.2⟩

end Guarding

end Runs
