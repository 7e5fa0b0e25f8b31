import KrakenRuntime.Libbless.MemoryLedger

/- The memory hooks of libbless as whole calls with everything that can go wrong in them
   (libbless.cpp): cudaMalloc, cudaMallocManaged and cudaFree, the quota check, and any answer
   of the driver. any_alloc is set before the quota check and the driver call, and an entry
   is taken off the ledger before the block is freed; neither is undone when the call fails.
   After any_alloc the route commands and reconf_sm are ignored. Contexts, the commands that
   any_alloc does not stop and the texts on stderr are left out. -/
namespace FailedCalls
open MemoryLedger

structure Process where
  memory : Memory := {}
  anyAlloc : Bool := false
  limited : Bool := true
  deriving DecidableEq

def cudaSuccess : ℕ := 0

def cudaErrorMemoryAllocation : ℕ := 2

/-- What the driver returns, and what the place for the pointer then holds, if the caller
    gave one. -/
structure Outcome where
  ret : ℕ
  stored : Option ℕ := none
  deriving DecidableEq

def allocate (s : Process) (n : ℕ) (real : Outcome) : Process × ℕ :=
  let s := { s with anyAlloc := true }
  if !checkQuota s.memory n then (s, cudaErrorMemoryAllocation)
  else
    match real.stored with
    | some ptr =>
      if real.ret = cudaSuccess ∧ ptr ≠ 0 then
        ({ s with memory := trackAlloc s.memory ptr n }, real.ret)
      else (s, real.ret)
    | none => (s, real.ret)

def cudaMalloc (s : Process) (n : ℕ) (real : Outcome) : Process × ℕ := allocate s n real

def cudaMallocManaged (s : Process) (n : ℕ) (real : Outcome) : Process × ℕ := allocate s n real

/-- Whichever context the block belongs to, the result is that of the real function. -/
def cudaFree (s : Process) (devPtr : ℕ) (real : Outcome) : Process × ℕ :=
  ({ s with memory := trackFree s.memory devPtr }, real.ret)

inductive Call where
  | cudaMalloc (n : ℕ)
  | cudaMallocManaged (n : ℕ)
  | cudaFree (devPtr : ℕ)

def Call.make : Call → Process → Outcome → Process × ℕ
  | .cudaMalloc n, s, real => FailedCalls.cudaMalloc s n real
  | .cudaMallocManaged n, s, real => FailedCalls.cudaMallocManaged s n real
  | .cudaFree devPtr, s, real => FailedCalls.cudaFree s devPtr real

/-- The commands limited, unlimited and set_route. -/
def setRoute (s : Process) (limited : Bool) : Process :=
  if !s.anyAlloc then { s with limited := limited } else s

def reconfAccepted (s : Process) : Bool := !s.anyAlloc

/-- Nothing that the calls keep account of has changed, and a later route or reconf_sm
    command does what it would have done. -/
structure Unaffected (s t : Process) : Prop where
  anyAlloc : t.anyAlloc = s.anyAlloc
  allocSizeMap : ∀ ptr, t.memory.allocSizeMap.get? ptr = s.memory.allocSizeMap.get? ptr
  memCurrentBytes : t.memory.memCurrentBytes = s.memory.memCurrentBytes
  memPeakBytes : t.memory.memPeakBytes = s.memory.memPeakBytes
  memTotalAllocBytes : t.memory.memTotalAllocBytes = s.memory.memTotalAllocBytes
  memAllocCount : t.memory.memAllocCount = s.memory.memAllocCount
  memFreeCount : t.memory.memFreeCount = s.memory.memFreeCount
  route : ∀ limited, (setRoute t limited).limited = (setRoute s limited).limited
  reconf : reconfAccepted t = reconfAccepted s

def Call.Harmless (s : Process) : Call → Prop
  | .cudaMalloc _ => s.anyAlloc = true
  | .cudaMallocManaged _ => s.anyAlloc = true
  | .cudaFree devPtr =>
    s.memory.memTrackingEnabled = false ∨ devPtr = 0 ∨ s.memory.allocSizeMap.get? devPtr = none

section Calls
variable {s : Process} {real : Outcome}

theorem allocate_failed {n : ℕ} (failed : (allocate s n real).2 ≠ cudaSuccess) :
    (allocate s n real).1 = { s with anyAlloc := true } := by
  unfold allocate at failed ⊢
  cases quota : checkQuota s.memory n with
  | false => simp [quota]
  | true =>
    cases stored : real.stored with
    | none => simp [quota]
    | some ptr =>
      simp only [quota, stored, Bool.not_true, Bool.false_eq_true, if_false] at failed ⊢
      split
      · rename_i served
        rw [if_pos served] at failed
        exact absurd served.1 failed
      · rfl

theorem marked_unaffected_iff : Unaffected s { s with anyAlloc := true } ↔ s.anyAlloc = true := by
  constructor
  · intro unaffected
    exact unaffected.anyAlloc.symm
  · intro before
    have same : { s with anyAlloc := true } = s := by
      rw [← before]
    rw [same]
    exact ⟨rfl, fun _ => rfl, rfl, rfl, rfl, rfl, rfl, fun _ => rfl, rfl⟩

theorem trackFree_entries (m : Memory) (devPtr ptr : ℕ) :
    (trackFree m devPtr).allocSizeMap.get? ptr =
      if m.memTrackingEnabled = true ∧ devPtr ≠ 0 ∧ ptr = devPtr then none
      else m.allocSizeMap.get? ptr := by
  unfold trackFree
  by_cases tracked : m.memTrackingEnabled = true ∧ devPtr ≠ 0
  · rw [if_pos tracked]
    by_cases some_bytes : 0 < (m.allocSizeMap.get? devPtr).getD 0
    · simp [some_bytes, Dict.get?_pop, tracked.1, tracked.2]
    · simp [some_bytes, Dict.get?_pop, tracked.1, tracked.2]
  · rw [if_neg tracked, if_neg]
    intro same
    exact tracked ⟨same.1, same.2.1⟩

theorem trackFree_unlisted {m : Memory} {devPtr : ℕ}
    (unlisted : m.memTrackingEnabled = false ∨ devPtr = 0 ∨ m.allocSizeMap.get? devPtr = none) :
    trackFree m devPtr = { m with allocSizeMap := (trackFree m devPtr).allocSizeMap } := by
  unfold trackFree
  by_cases tracked : m.memTrackingEnabled = true ∧ devPtr ≠ 0
  · have absent : m.allocSizeMap.get? devPtr = none := by
      rcases unlisted with off | null | absent
      · exact absurd tracked.1 (by simp [off])
      · exact absurd null tracked.2
      · exact absent
    simp [tracked, absent]
  · simp [tracked]

theorem freed_unaffected_iff (devPtr : ℕ) :
    Unaffected s { s with memory := trackFree s.memory devPtr } ↔
      (Call.cudaFree devPtr).Harmless s := by
  constructor
  · intro unaffected
    have entry := unaffected.allocSizeMap devPtr
    rw [trackFree_entries] at entry
    by_cases tracked : s.memory.memTrackingEnabled = true ∧ devPtr ≠ 0
    · rw [if_pos ⟨tracked.1, tracked.2, rfl⟩] at entry
      exact .inr (.inr entry.symm)
    · rcases not_and_or.mp tracked with off | null
      · exact .inl (by simpa using off)
      · exact .inr (.inl (not_not.mp null))
  · intro harmless
    have counters := trackFree_unlisted harmless
    have entries (ptr : ℕ) :
        (trackFree s.memory devPtr).allocSizeMap.get? ptr = s.memory.allocSizeMap.get? ptr := by
      rw [trackFree_entries]
      split
      · rename_i gone
        obtain ⟨on, nonnull, rfl⟩ := gone
        rcases harmless with off | null | absent
        · exact absurd on (by simp [off])
        · exact absurd null nonnull
        · exact absent.symm
      · rfl
    have route (limited : Bool) :
        (setRoute { s with memory := trackFree s.memory devPtr } limited).limited =
          (setRoute s limited).limited := by
      unfold setRoute
      split <;> rfl
    refine ⟨rfl, entries, ?_, ?_, ?_, ?_, ?_, route, rfl⟩
    all_goals
      rw [counters]

end Calls

/-- In any state a call that returns an error changes nothing if and only if it is an
    allocation with any_alloc set before it, or the release of what is not on the ledger. -/
theorem failed_call_unaffected_iff (s : Process) (c : Call) (real : Outcome)
    (failed : (c.make s real).2 ≠ cudaSuccess) :
    Unaffected s (c.make s real).1 ↔ c.Harmless s := by
  cases c with
  | cudaMalloc n =>
    rw [Call.make, cudaMalloc, allocate_failed failed]
    exact marked_unaffected_iff
  | cudaMallocManaged n =>
    rw [Call.make, cudaMallocManaged, allocate_failed failed]
    exact marked_unaffected_iff
  | cudaFree devPtr => exact freed_unaffected_iff devPtr

def allocated : Process := (cudaMalloc { memory := memQuota {} 1 } 8 ⟨cudaSuccess, some 1⟩).1

theorem failed_call_after_allocation :
    Unaffected allocated (cudaMalloc allocated 2000000 ⟨cudaSuccess, some 2⟩).1 := by
  have refused : ((Call.cudaMalloc 2000000).make allocated ⟨cudaSuccess, some 2⟩).2 ≠
      cudaSuccess := by decide
  exact (failed_call_unaffected_iff allocated (.cudaMalloc 2000000) _ refused).mpr rfl

/-- With a quota of nothing at all the first allocation is refused, and the route can no
    longer be set; and a free that the driver fails takes the block off the ledger. -/
theorem failed_calls_leave_marks :
    let fresh : Process := { memory := memQuota {} 0 }
    let refused := cudaMalloc fresh 8 ⟨cudaSuccess, some 1⟩
    let holding := (cudaMalloc {} 8 ⟨cudaSuccess, some 1⟩).1
    let unfreed := cudaFree holding 1 ⟨700, none⟩
    (refused.2 = cudaErrorMemoryAllocation ∧ ¬ Unaffected fresh refused.1 ∧
        (setRoute fresh false).limited = false ∧ (setRoute refused.1 false).limited = true) ∧
      unfreed.2 ≠ cudaSuccess ∧ ¬ Unaffected holding unfreed.1 ∧
        holding.memory.memCurrentBytes = 8 ∧ unfreed.1.memory.memCurrentBytes = 0 := by
  refine ⟨⟨by decide, ?_, by decide, by decide⟩, by decide, ?_, by decide, by decide⟩
  · intro unaffected
    exact absurd unaffected.anyAlloc (by decide)
  · intro unaffected
    exact absurd unaffected.memCurrentBytes (by decide)

end FailedCalls
