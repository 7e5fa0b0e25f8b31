import KrakenRuntime.Gating.Processes

/- How a new killer policy reaches the tenants. The version is shared, the policy and the
   version it was loaded at belong to a process, and only the process that wins the round
   lock looks at the version (reload_killer_policy_if_needed). What stands in the policy
   files is in Hooks; here a policy is known by its version. -/
namespace Gate
open Runs
variable {n : ℕ}

/-- The version at which each running body began, and those of the finished bodies. -/
structure Bodies (n : ℕ) where
  begun : Fin n → Option ℕ := fun _ => none
  finished : List ℕ := []

def bodyAccess (w : World n) (p : Fin n) (b : Bodies n) : Bodies n :=
  match (w.procs p).pc with
  | .roundTriggerCas =>
    if w.shm.roundTriggerLock then b
    else { b with begun := Function.update b.begun p (some w.shm.killerPolicyVersion) }
  | .roundTriggerUnlock =>
    { begun := Function.update b.begun p none, finished := (b.begun p).toList ++ b.finished }
  | _ => b

def watchBodies (w : World n) : Event n → Bodies n → Bodies n
  | .step p _, b => bodyAccess w p b
  | _, b => b

def Process.atLeast (q : Process) (v : ℕ) : Prop := ∀ u ∈ q.policyVersion, v ≤ u

instance (q : Process) (v : ℕ) : Decidable (q.atLeast v) :=
  inferInstanceAs (Decidable (∀ u ∈ q.policyVersion, v ≤ u))

/-- Whoever takes the round lock finds every other live process with the current policy,
    and has it too if its own record keeps it from loading it. -/
def PC.findsCurrent (w : World n) (p : Fin n) : PC → Prop
  | .roundTriggerCas => w.shm.roundTriggerLock = false →
    (∀ q, q ≠ p → (w.procs q).status = .live → (w.procs q).atLeast w.shm.killerPolicyVersion) ∧
    ((w.procs p).loadedKillerVersion = w.shm.killerPolicyVersion →
      (w.procs p).atLeast w.shm.killerPolicyVersion)
  | _ => True

def Spread (w : World n) : Event n → Prop
  | .step p _ => (w.procs p).pc.findsCurrent w p
  | _ => True

instance (w : World n) (p : Fin n) (pc : PC) : Decidable (pc.findsCurrent w p) := by
  induction pc using PC.casesOn <;> dsimp only [PC.findsCurrent] <;> infer_instance

instance (w : World n) (e : Event n) : Decidable (Spread w e) := by
  induction e using Event.casesOn <;> dsimp only [Spread] <;> infer_instance

/-- Every live process classifies with a policy at least as new as each finished body. -/
def Reached (w : World n) (b : Bodies n) : Prop :=
  ∀ v ∈ b.finished, ∀ p, (w.procs p).status = .live → (w.procs p).atLeast v

def PC.reloaded : PC → Prop
  | .roundActive _ | .calcSlice _ _ _ | .rechargeRemain _ _ | .rechargeGate _ => True
  | .loadRoundId | .storeRoundId _ _ | .roundTriggerUnlock => True
  | _ => False

structure Unread (w : World n) : Prop where
  version : ∀ p, (w.procs p).loadedKillerVersion = 0
  reloading : ∀ p, (w.procs p).reloading = none
  outside : ∀ p, (w.procs p).initialized = false → (w.procs p).pc = .outside

structure Spreading (w : World n) (b : Bodies n) : Prop where
  reached : Reached w b
  finished_le : ∀ v ∈ b.finished, v ≤ w.shm.killerPolicyVersion
  begun_le : ∀ p, ∀ v ∈ b.begun p, v ≤ w.shm.killerPolicyVersion
  begun_born : ∀ p, ∀ v ∈ b.begun p,
    (w.procs p).status ≠ .unborn ∧ (w.procs p).initialized = true
  outside : ∀ p, (w.procs p).initialized = false → (w.procs p).pc = .outside
  others_loaded : ∀ p, ∀ v ∈ b.begun p, ∀ q, q ≠ p → (w.procs q).status = .live →
    (w.procs q).atLeast v
  self_due : ∀ p, ∀ v ∈ b.begun p, v ≤ (w.procs p).loadedKillerVersion → (w.procs p).atLeast v
  self_loaded : ∀ p, ∀ v ∈ b.begun p, (w.procs p).pc.reloaded → (w.procs p).atLeast v
  loaded_le : ∀ p, (w.procs p).loadedKillerVersion ≤ w.shm.killerPolicyVersion
  reloading_le : ∀ p, ∀ v ∈ (w.procs p).reloading, v ≤ w.shm.killerPolicyVersion

section Steps
variable {round : ℚ → ℚ} {w t : World n} {b : Bodies n} {p : Fin n} {us : ℕ}

theorem apply_version (m : Shm) (x : Write) :
    (x.apply m).killerPolicyVersion = m.killerPolicyVersion := by
  cases x <;> rfl

theorem tick_version : (w.tick round p us).shm.killerPolicyVersion = w.shm.killerPolicyVersion :=
  apply_version _ _

theorem atLeast_of_loaded {q : Process} {u v : ℕ} (loaded : q.policyVersion = some u)
    (new : v ≤ u) : q.atLeast v := by
  intro x found
  rw [loaded, Option.mem_some_iff] at found
  omega

theorem tick_atLeast {q : Fin n} {v : ℕ} (shown : v ≤ w.shm.killerPolicyVersion)
    (loaded : (w.procs q).atLeast v) : ((w.tick round p us).procs q).atLeast v := by
  by_cases same : q = p
  · subst same
    by_cases reloads : (w.procs q).pc = .reloadPolicy ∧ (w.procs q).reloading.isSome
    · exact atLeast_of_loaded (by simp [World.tick, reloads]) shown
    · intro u found
      simp only [World.tick, Function.update_self, if_neg reloads] at found
      exact loaded u found
  · rw [tick_proc_other _ _ _ same]
    exact loaded

theorem tick_loaded_le (spreading : Spreading w b) (q : Fin n) :
    ((w.tick round p us).procs q).loadedKillerVersion ≤ w.shm.killerPolicyVersion := by
  have loaded := spreading.loaded_le q
  by_cases same : q = p
  · subst same
    have found_le := spreading.reloading_le q
    simp only [World.tick, Function.update_self]
    split
    · cases found : (w.procs q).reloading with
      | none => exact loaded
      | some v => exact found_le v found
    · exact loaded
  · rw [tick_proc_other _ _ _ same]
    exact loaded

theorem tick_reloading_le (spreading : Spreading w b) (q : Fin n) :
    ∀ v ∈ ((w.tick round p us).procs q).reloading, v ≤ w.shm.killerPolicyVersion := by
  by_cases same : q = p
  · subst same
    simp [World.tick]
  · rw [tick_proc_other _ _ _ same]
    exact spreading.reloading_le q

theorem tick_initialized (q : Fin n) :
    ((w.tick round p us).procs q).initialized = (w.procs q).initialized := by
  by_cases same : q = p
  · subst same
    simp [World.tick]
  · rw [tick_proc_other _ _ _ same]

theorem tick_reloads (spreading : Spreading w b) {q : Fin n} {v : ℕ} (begun : v ∈ b.begun q)
    (reloads : (w.procs q).pc = .reloadPolicy) (read : ¬ (w.procs q).findsNewer w.shm) :
    ((w.tick round q us).procs q).atLeast v := by
  have shown := spreading.begun_le q v begun
  cases found : (w.procs q).reloading with
  | none =>
    have same : w.shm.killerPolicyVersion = (w.procs q).loadedKillerVersion := by
      by_contra newer
      exact read ⟨reloads, found, newer⟩
    exact tick_atLeast shown (spreading.self_due q v begun (by omega))
  | some u => exact atLeast_of_loaded (by simp [World.tick, reloads, found]) shown

theorem access_reloaded (m : Shm) (my : ℕ) (pc : PC)
    (after : (access round m my us pc).2.reloaded) : pc = .reloadPolicy ∨ pc.reloaded := by
  revert after
  cases pc <;> simp only [access, apply_ite Prod.snd, apply_ite PC.reloaded] <;> simp [PC.reloaded]

theorem tick_self_loaded (spreading : Spreading w b) (read : ¬ (w.procs p).findsNewer w.shm)
    {q : Fin n} {v : ℕ} (begun : v ∈ b.begun q)
    (reloaded : ((w.tick round p us).procs q).pc.reloaded) :
    ((w.tick round p us).procs q).atLeast v := by
  by_cases same : q = p
  · subst same
    have after : (access round w.shm (w.procs q).slot us (w.procs q).pc).2.reloaded := by
      simpa [World.tick] using reloaded
    rcases access_reloaded w.shm _ _ after with reloads | inside
    · exact tick_reloads spreading begun reloads read
    · exact tick_atLeast (spreading.begun_le q v begun) (spreading.self_loaded q v begun inside)
  · rw [tick_proc_other _ _ _ same] at reloaded ⊢
    exact spreading.self_loaded q v begun reloaded

theorem tick_self_due (spreading : Spreading w b) (read : ¬ (w.procs p).findsNewer w.shm)
    {q : Fin n} {v : ℕ} (begun : v ∈ b.begun q)
    (recorded : v ≤ ((w.tick round p us).procs q).loadedKillerVersion) :
    ((w.tick round p us).procs q).atLeast v := by
  by_cases same : q = p
  · subst same
    by_cases reloads : (w.procs q).pc = .reloadPolicy
    · exact tick_reloads spreading begun reloads read
    · simp only [World.tick, Function.update_self, if_neg reloads] at recorded
      exact tick_atLeast (spreading.begun_le q v begun) (spreading.self_due q v begun recorded)
  · rw [tick_proc_other _ _ _ same] at recorded ⊢
    exact spreading.self_due q v begun recorded

theorem tick_spreading (spreading : Spreading w b) (running : (w.procs p).pc ≠ .outside)
    (read : ¬ (w.procs p).findsNewer w.shm) : Spreading (w.tick round p us) b := by
  constructor
  case reached =>
    intro v finished q live
    rw [tick_status] at live
    exact tick_atLeast (spreading.finished_le v finished) (spreading.reached v finished q live)
  case finished_le =>
    rw [tick_version]
    exact spreading.finished_le
  case begun_le =>
    rw [tick_version]
    exact spreading.begun_le
  case begun_born =>
    intro q v begun
    rw [tick_status, tick_initialized]
    exact spreading.begun_born q v begun
  case outside =>
    intro q fresh
    rw [tick_initialized] at fresh
    have idle := spreading.outside q fresh
    by_cases same : q = p
    · subst same
      exact absurd idle running
    · rw [tick_proc_other _ _ _ same]
      exact idle
  case others_loaded =>
    intro r v begun q ne live
    rw [tick_status] at live
    exact tick_atLeast (spreading.begun_le r v begun)
      (spreading.others_loaded r v begun q ne live)
  case self_due => exact fun q v begun recorded => tick_self_due spreading read begun recorded
  case self_loaded =>
    exact fun q v begun reloaded => tick_self_loaded spreading read begun reloaded
  case loaded_le =>
    intro q
    rw [tick_version]
    exact tick_loaded_le spreading q
  case reloading_le =>
    intro q
    rw [tick_version]
    exact tick_reloading_le spreading q

theorem begin_spreading (spreading : Spreading w b) (born : (w.procs p).status ≠ .unborn)
    (here : (w.procs p).pc = .roundTriggerCas) (free : w.shm.roundTriggerLock = false)
    (current : (w.procs p).pc.findsCurrent w p) :
    Spreading (w.tick round p us)
      { b with begun := Function.update b.begun p (some w.shm.killerPolicyVersion) } := by
  have moved : Spreading (w.tick round p us) b :=
    tick_spreading spreading (by simp [here]) (by simp [Process.findsNewer, here])
  have inside : (w.procs p).initialized = true := by
    by_contra fresh
    have idle := spreading.outside p (by simpa using fresh)
    rw [here] at idle
    cases idle
  rw [here] at current
  obtain ⟨others, own⟩ := current free
  constructor
  case reached => exact moved.reached
  case finished_le => exact moved.finished_le
  case outside => exact moved.outside
  case loaded_le => exact moved.loaded_le
  case reloading_le => exact moved.reloading_le
  case begun_le =>
    intro q v begun
    by_cases same : q = p
    · subst same
      simp only [Function.update_self, Option.mem_some_iff] at begun
      rw [tick_version, begun]
    · simp only [Function.update_of_ne same] at begun
      exact moved.begun_le q v begun
  case begun_born =>
    intro q v begun
    by_cases same : q = p
    · subst same
      rw [tick_status, tick_initialized]
      exact ⟨born, inside⟩
    · simp only [Function.update_of_ne same] at begun
      exact moved.begun_born q v begun
  case others_loaded =>
    intro r v begun q ne live
    by_cases same : r = p
    · subst same
      simp only [Function.update_self, Option.mem_some_iff] at begun
      rw [← begun]
      rw [tick_status] at live
      rw [tick_proc_other _ _ _ ne]
      exact others q ne live
    · simp only [Function.update_of_ne same] at begun
      exact moved.others_loaded r v begun q ne live
  case self_due =>
    intro q v begun recorded
    by_cases same : q = p
    · subst same
      simp only [Function.update_self, Option.mem_some_iff] at begun
      have kept : ((w.tick round q us).procs q).loadedKillerVersion =
          (w.procs q).loadedKillerVersion := by simp [World.tick, here]
      rw [kept] at recorded
      have loaded := spreading.loaded_le q
      rw [← begun]
      exact tick_atLeast le_rfl (own (by omega))
    · simp only [Function.update_of_ne same] at begun
      exact moved.self_due q v begun recorded
  case self_loaded =>
    intro q v begun reloaded
    by_cases same : q = p
    · subst same
      simp [World.tick, here, access, free, PC.reloaded] at reloaded
    · simp only [Function.update_of_ne same] at begun
      exact moved.self_loaded q v begun reloaded

theorem finish_spreading (spreading : Spreading w b)
    (here : (w.procs p).pc = .roundTriggerUnlock) :
    Spreading (w.tick round p us)
      { begun := Function.update b.begun p none, finished := (b.begun p).toList ++ b.finished } := by
  have moved : Spreading (w.tick round p us) b :=
    tick_spreading spreading (by simp [here]) (by simp [Process.findsNewer, here])
  have remaining : ∀ q, ∀ v ∈ Function.update b.begun p none q, v ∈ b.begun q := by
    intro q v begun
    by_cases same : q = p
    · subst same
      simp at begun
    · simpa only [Function.update_of_ne same] using begun
  constructor
  case begun_le => exact fun q v begun => moved.begun_le q v (remaining q v begun)
  case begun_born => exact fun q v begun => moved.begun_born q v (remaining q v begun)
  case outside => exact moved.outside
  case others_loaded => exact fun r v begun => moved.others_loaded r v (remaining r v begun)
  case self_due => exact fun q v begun => moved.self_due q v (remaining q v begun)
  case self_loaded => exact fun q v begun => moved.self_loaded q v (remaining q v begun)
  case loaded_le => exact moved.loaded_le
  case reloading_le => exact moved.reloading_le
  case reached =>
    intro v finished q live
    rcases List.mem_append.mp finished with now | before
    · have begun := Option.mem_toList.mp now
      rw [tick_status] at live
      apply tick_atLeast (spreading.begun_le p v begun)
      by_cases same : q = p
      · subst same
        exact spreading.self_loaded q v begun (by rw [here]; trivial)
      · exact spreading.others_loaded p v begun q same live
    · exact moved.reached v before q live
  case finished_le =>
    intro v finished
    rcases List.mem_append.mp finished with now | before
    · exact moved.begun_le p v (Option.mem_toList.mp now)
    · exact moved.finished_le v before

theorem access_spreading (spreading : Spreading w b) (born : (w.procs p).status ≠ .unborn)
    (running : (w.procs p).pc ≠ .outside) (read : ¬ (w.procs p).findsNewer w.shm)
    (current : (w.procs p).pc.findsCurrent w p) :
    Spreading (w.tick round p us) (bodyAccess w p b) := by
  unfold bodyAccess
  split
  · rename_i here
    split
    · exact tick_spreading spreading running read
    · rename_i free
      exact begin_spreading spreading born here (by simpa using free) current
  · rename_i here
    exact finish_spreading spreading here
  · exact tick_spreading spreading running read

structure Replaces (w : World n) (b : Bodies n) (p : Fin n) (q : Process) : Prop where
  policy : (q.policyVersion = (w.procs p).policyVersion ∧
      (q.status = .live → (w.procs p).status = .live) ∧ (q.pc.reloaded → (w.procs p).pc.reloaded) ∧
      (q.loadedKillerVersion = (w.procs p).loadedKillerVersion ∨ b.begun p = none)) ∨
    q.atLeast w.shm.killerPolicyVersion
  born : ∀ v ∈ b.begun p, q.status ≠ .unborn ∧ q.initialized = true
  outside : q.initialized = false → q.pc = .outside
  loaded_le : q.loadedKillerVersion ≤ w.shm.killerPolicyVersion
  reloading_le : ∀ v ∈ q.reloading, v ≤ w.shm.killerPolicyVersion

theorem atLeast_mono {q : Process} {v u : ℕ} (le : v ≤ u) (loaded : q.atLeast u) : q.atLeast v :=
  fun x found => le.trans (loaded x found)

theorem atLeast_congr {q r : Process} {v : ℕ} (same : q.policyVersion = r.policyVersion)
    (loaded : r.atLeast v) : q.atLeast v := by
  intro u found
  rw [same] at found
  exact loaded u found

theorem setProc_spreading {q : Process} (spreading : Spreading w b) (replaces : Replaces w b p q) :
    Spreading (w.setProc p q) b := by
  constructor
  case finished_le => exact spreading.finished_le
  case begun_le => exact spreading.begun_le
  case reached =>
    intro v finished
    apply World.setProc_all (fun _ q => q.status = .live → q.atLeast v)
      (spreading.reached v finished)
    intro live
    rcases replaces.policy with ⟨kept, alive, _⟩ | current
    · exact atLeast_congr kept (spreading.reached v finished p (alive live))
    · exact atLeast_mono (spreading.finished_le v finished) current
  case begun_born =>
    exact World.setProc_all
      (fun r q => ∀ v ∈ b.begun r, q.status ≠ .unborn ∧ q.initialized = true)
      spreading.begun_born replaces.born
  case outside =>
    exact World.setProc_all (fun _ q => q.initialized = false → q.pc = .outside)
      spreading.outside replaces.outside
  case others_loaded =>
    intro u v begun
    apply World.setProc_all (fun r q => r ≠ u → q.status = .live → q.atLeast v)
      (spreading.others_loaded u v begun)
    intro ne live
    rcases replaces.policy with ⟨kept, alive, _⟩ | current
    · exact atLeast_congr kept (spreading.others_loaded u v begun p ne (alive live))
    · exact atLeast_mono (spreading.begun_le u v begun) current
  case self_due =>
    apply World.setProc_all
      (fun r q => ∀ v ∈ b.begun r, v ≤ q.loadedKillerVersion → q.atLeast v) spreading.self_due
    intro v begun recorded
    rcases replaces.policy with ⟨kept, _, _, record | none⟩ | current
    · rw [record] at recorded
      exact atLeast_congr kept (spreading.self_due p v begun recorded)
    · rw [none] at begun
      cases begun
    · exact atLeast_mono (spreading.begun_le p v begun) current
  case self_loaded =>
    apply World.setProc_all (fun r q => ∀ v ∈ b.begun r, q.pc.reloaded → q.atLeast v)
      spreading.self_loaded
    intro v begun reloaded
    rcases replaces.policy with ⟨kept, _, region, _⟩ | current
    · exact atLeast_congr kept (spreading.self_loaded p v begun (region reloaded))
    · exact atLeast_mono (spreading.begun_le p v begun) current
  case loaded_le =>
    exact World.setProc_all (fun _ q => q.loadedKillerVersion ≤ w.shm.killerPolicyVersion)
      spreading.loaded_le replaces.loaded_le
  case reloading_le =>
    exact World.setProc_all (fun _ q => ∀ v ∈ q.reloading, v ≤ w.shm.killerPolicyVersion)
      spreading.reloading_le replaces.reloading_le

theorem unborn_begun (spreading : Spreading w b) (unborn : (w.procs p).status = .unborn) :
    b.begun p = none := by
  cases begun : b.begun p with
  | none => rfl
  | some v => exact absurd unborn (spreading.begun_born p v begun).1

theorem fresh_begun (spreading : Spreading w b) (fresh : (w.procs p).initialized = false) :
    b.begun p = none := by
  cases begun : b.begun p with
  | none => rfl
  | some v =>
    have done := (spreading.begun_born p v begun).2
    rw [fresh] at done
    cases done

theorem step_spreading {e : Event n} (spreading : Spreading w b) (spread : Spread w e)
    (step : WorldStep round w e t) : Spreading t (watchBodies w e b) := by
  cases e with
  | register p slot =>
    simp only [Fires, World.next] at step
    split at step <;> cases step
    rename_i ready
    have marked : Spreading (w.setActive slot true) b := { spreading with }
    have nothing := unborn_begun spreading ready.1
    refine setProc_spreading marked ⟨.inr (by simp [Process.atLeast]), ?_, fun _ => rfl, ?_,
      by simp⟩
    · simp [watchBodies, nothing]
    · exact Nat.zero_le _
  | loadKillerPolicy p =>
    simp only [Fires, World.next] at step
    split at step <;> cases step
    rename_i ready
    refine setProc_spreading spreading ⟨.inr (atLeast_of_loaded rfl le_rfl),
      spreading.begun_born p, spreading.outside p, spreading.loaded_le p,
      spreading.reloading_le p⟩
  | recordVersion p =>
    simp only [Fires, World.next] at step
    split at step <;> cases step
    rename_i ready
    have nothing := fresh_begun spreading ready.2.1
    refine setProc_spreading spreading ⟨.inl ⟨rfl, id, id, .inr nothing⟩, ?_, by simp, le_rfl,
      spreading.reloading_le p⟩
    simp [watchBodies, nothing]
  | launch p =>
    simp only [Fires, World.next] at step
    split at step <;> cases step
    rename_i ready
    refine setProc_spreading spreading ⟨.inl ⟨rfl, id, fun inside => inside.elim, .inl rfl⟩,
      spreading.begun_born p, ?_, spreading.loaded_le p, spreading.reloading_le p⟩
    simp [ready.1.2]
  | step p us =>
    obtain ⟨ready, ⟨newer, rfl⟩ | ⟨read, rfl⟩⟩ := process_step_cases step
    · have unwatched : watchBodies w (.step p us) b = b := by
        simp [watchBodies, bodyAccess, newer.1]
      rw [unwatched]
      exact setProc_spreading spreading ⟨.inl ⟨rfl, id, id, .inl rfl⟩, spreading.begun_born p,
        spreading.outside p, spreading.loaded_le p, by simp⟩
    · exact access_spreading spreading (mapped_born ready.1) ready.2 read spread
  | fini p =>
    simp only [Fires, World.next] at step
    split at step <;> cases step
    have marked : Spreading (w.setActive (w.procs p).slot false) b := { spreading with }
    refine setProc_spreading marked ⟨.inl ⟨rfl, by simp, id, .inl rfl⟩, ?_,
      spreading.outside p, spreading.loaded_le p, spreading.reloading_le p⟩
    intro v begun
    exact ⟨by simp, (spreading.begun_born p v begun).2⟩
  | unmap p =>
    simp only [Fires, World.next] at step
    split at step <;> cases step
    refine setProc_spreading spreading ⟨.inl ⟨rfl, by simp, id, .inl rfl⟩, ?_,
      spreading.outside p, spreading.loaded_le p, spreading.reloading_le p⟩
    intro v begun
    exact ⟨by simp, (spreading.begun_born p v begun).2⟩
  | setMode mode idx =>
    cases step
    exact { spreading with }
  | setPolicy policy =>
    cases step
    exact { spreading with }
  | publishKillers =>
    cases step
    exact { spreading with
      finished_le := fun v finished => Nat.le_succ_of_le (spreading.finished_le v finished)
      begun_le := fun p v begun => Nat.le_succ_of_le (spreading.begun_le p v begun)
      loaded_le := fun p => Nat.le_succ_of_le (spreading.loaded_le p)
      reloading_le := fun p v found => Nat.le_succ_of_le (spreading.reloading_le p v found) }

end Steps

/-- In every run in which whoever wins the round lock finds the other live processes with
    the current policy, and has it or will load it itself, a policy that was published before
    a body began has reached every live process when the body has finished. -/
theorem policy_reaches_everyone {round : ℚ → ℚ} {w t : World n} {b : Bodies n}
    {events : List (Event n)} (unread : Unread w)
    (run : Run (Watched watchBodies (Guarded Spread (WorldStep round))) (w, {}) events (t, b)) :
    Reached t b := by
  have start : Spreading w {} := by
    refine ⟨by simp [Reached], by simp, by simp, by simp, unread.outside, by simp, by simp,
      by simp, ?_, by simp [unread.reloading]⟩
    intro p
    rw [unread.version p]
    exact Nat.zero_le _
  have spreading := run_invariant (fun x : World n × Bodies n => Spreading x.1 x.2)
    (by
      rintro x e y spreading ⟨⟨spread, step⟩, recorded⟩
      rw [recorded]
      exact step_spreading spreading spread step)
    run start
  exact spreading.reached

theorem emptyWorld_unread (n slots : ℕ) (remain : ℤ) : Unread (emptyWorld n slots remain) :=
  ⟨fun _ => rfl, fun _ => rfl, fun _ _ => rfl⟩

def oneRound : List (Event 2) :=
  [.launch 0, .launch 1] ++ accesses 0 4 ++ accesses 1 4 ++ accesses 0 26

theorem registered_current : ∃ t b,
    Run (Watched watchBodies (Guarded Spread (WorldStep id))) (emptyWorld 2 2 0, {})
      ([.publishKillers] ++ krakenInit 0 0 ++ krakenInit 1 1 ++ oneRound) (t, b) ∧
    b.finished = [1] ∧ Reached t b := by
  obtain ⟨⟨t, b⟩, run, reached⟩ := watched_guarded_run_reaches Spread
    (fun y : World 2 × Bodies 2 => decide (y.2.finished = [1]))
    (show (exec (watching watchBodies (guarding Spread (World.next id))) (emptyWorld 2 2 0, {})
      ([.publishKillers] ++ krakenInit 0 0 ++ krakenInit 1 1 ++ oneRound)).any _ = true by
        decide +kernel)
  exact ⟨t, b, run, of_decide_eq_true reached,
    policy_reaches_everyone (emptyWorld_unread 2 2 0) run⟩

/-- Published while both run: the one that loses the lock keeps the old policy. -/
def publishedLate : List (Event 2) :=
  krakenInit 0 0 ++ krakenInit 1 1 ++ [.publishKillers] ++ oneRound

/-- Published between the load of the policy and the record of the version: the process
    that runs the round alone keeps the old policy too. -/
def publishedInside : List (Event 1) :=
  [.register 0 0, .loadKillerPolicy 0, .publishKillers, .recordVersion 0, .launch 0] ++
    accesses 0 20

theorem not_reached {w : World n} {b : Bodies n} {p : Fin n} (finished : b.finished = [1])
    (live : (w.procs p).status = .live) (old : (w.procs p).policyVersion = some 0) :
    ¬ Reached w b := by
  intro everyone
  have current := everyone 1 (by rw [finished]; exact List.mem_singleton_self 1) p live 0 old
  omega

theorem loser_keeps_old_policy :
    (Empty (emptyWorld 2 2 0) ∧ ∃ t b,
      Run (Watched watchBodies (WorldStep id)) (emptyWorld 2 2 0, {}) publishedLate (t, b) ∧
      b.finished = [1] ∧ (t.procs 1).status = .live ∧ (t.procs 1).policyVersion = some 0 ∧
      ¬ Reached t b) ∧
    Empty (emptyWorld 1 1 0) ∧ ∃ t b,
      Run (Watched watchBodies (WorldStep id)) (emptyWorld 1 1 0, {}) publishedInside (t, b) ∧
      b.finished = [1] ∧ (t.procs 0).status = .live ∧ (t.procs 0).policyVersion = some 0 ∧
      ¬ Reached t b := by
  refine ⟨⟨emptyWorld_empty 2 2 0, ?_⟩, emptyWorld_empty 1 1 0, ?_⟩
  · obtain ⟨⟨t, b⟩, run, reached⟩ := watched_run_reaches
      (fun y : World 2 × Bodies 2 => decide (y.2.finished = [1] ∧ (y.1.procs 1).status = .live ∧
        (y.1.procs 1).policyVersion = some 0))
      (show (exec (watching watchBodies (World.next id)) (emptyWorld 2 2 0, {})
        publishedLate).any _ = true by decide +kernel)
    obtain ⟨finished, live, old⟩ := of_decide_eq_true reached
    exact ⟨t, b, run, finished, live, old, not_reached finished live old⟩
  · obtain ⟨⟨t, b⟩, run, reached⟩ := watched_run_reaches
      (fun y : World 1 × Bodies 1 => decide (y.2.finished = [1] ∧ (y.1.procs 0).status = .live ∧
        (y.1.procs 0).policyVersion = some 0))
      (show (exec (watching watchBodies (World.next id)) (emptyWorld 1 1 0, {})
        publishedInside).any _ = true by decide +kernel)
    obtain ⟨finished, live, old⟩ := of_decide_eq_true reached
    exact ⟨t, b, run, finished, live, old, not_reached finished live old⟩

end Gate
