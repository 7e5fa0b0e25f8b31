import KrakenRuntime.Lib.Runs
import KrakenRuntime.Lib.Dict
import KrakenRuntime.Lib.Int64

/- The memory ledger of libbless (libbless.cpp): track_alloc, track_free and check_quota as
   cudaMalloc, cudaMallocManaged and cudaFree call them, and the mem_quota, mem_track and
   mem_reset commands, one operation after another. The counters are 64-bit words and wrap.
   The driver is known by the addresses it has handed out and not taken back; it may hand
   out a freed address again. Contexts and the texts on stderr are left out. -/
namespace MemoryLedger
open Int64Word Runs

structure Memory where
  memAllocCount : ℤ := 0
  memFreeCount : ℤ := 0
  memCurrentBytes : ℤ := 0
  memPeakBytes : ℤ := 0
  memTotalAllocBytes : ℤ := 0
  memQuotaBytes : ℤ := -1
  memTrackingEnabled : Bool := true
  allocSizeMap : Dict ℕ ℕ := Dict.empty
  deriving DecidableEq

def trackAlloc (m : Memory) (ptr size : ℕ) : Memory :=
  if m.memTrackingEnabled then
    { m with
      allocSizeMap := m.allocSizeMap.insert ptr size
      memAllocCount := int64 (m.memAllocCount + 1)
      memTotalAllocBytes := int64 (m.memTotalAllocBytes + size)
      memCurrentBytes := int64 (m.memCurrentBytes + size)
      memPeakBytes := max m.memPeakBytes (int64 (m.memCurrentBytes + size)) }
  else m

def trackFree (m : Memory) (ptr : ℕ) : Memory :=
  if m.memTrackingEnabled ∧ ptr ≠ 0 then
    let size := (m.allocSizeMap.get? ptr).getD 0
    let erased := { m with allocSizeMap := m.allocSizeMap.pop ptr }
    if 0 < size then
      { erased with
        memFreeCount := int64 (m.memFreeCount + 1)
        memCurrentBytes := int64 (m.memCurrentBytes - size) }
    else erased
  else m

def checkQuota (m : Memory) (size : ℕ) : Bool :=
  m.memQuotaBytes < 0 ∨ int64 (m.memCurrentBytes + int64 size) ≤ m.memQuotaBytes

def memTrack (m : Memory) (enabled : ℤ) : Memory := { m with memTrackingEnabled := enabled ≠ 0 }

def memReset (m : Memory) : Memory :=
  { m with
    memAllocCount := 0
    memFreeCount := 0
    memCurrentBytes := 0
    memPeakBytes := 0
    memTotalAllocBytes := 0
    allocSizeMap := Dict.empty }

def memQuota (m : Memory) (mb : ℤ) : Memory :=
  { m with memQuotaBytes := if mb < 0 then -1 else int64 (mb * 1024 * 1024) }

structure State where
  memory : Memory := {}
  handedOut : List ℕ := []
  deriving DecidableEq

def fresh : State := {}

/-- A request that passes the quota check and that the driver serves with the address `ptr`;
    nothing is tracked for a null address. -/
def allocate (s : State) (size ptr : ℕ) : Option State :=
  if checkQuota s.memory size ∧ size < 2 ^ 64 ∧ ptr ∉ s.handedOut then
    some (if ptr = 0 then s
      else { memory := trackAlloc s.memory ptr size, handedOut := ptr :: s.handedOut })
  else none

inductive Operation where
  | cudaMalloc (size ptr : ℕ)
  | cudaMallocManaged (size ptr : ℕ)
  | cudaFree (ptr : ℕ)
  | memTrack (enabled : ℤ)
  | memReset
  | memQuota (mb : ℤ)
  deriving DecidableEq

def next (s : State) : Operation → Option State
  | .cudaMalloc size ptr => allocate s size ptr
  | .cudaMallocManaged size ptr => allocate s size ptr
  | .cudaFree ptr =>
    if ptr = 0 ∨ ptr ∈ s.handedOut then
      some { memory := trackFree s.memory ptr, handedOut := s.handedOut.erase ptr }
    else none
  | .memTrack enabled => some { s with memory := memTrack s.memory enabled }
  | .memReset => some { s with memory := memReset s.memory }
  | .memQuota mb => some { s with memory := memQuota s.memory mb }

abbrev MemStep : State → Operation → State → Prop := Fires next

def recorded (m : Memory) : ℕ := m.allocSizeMap.total id

structure LedgerHolds (m : Memory) : Prop where
  current_eq : m.memCurrentBytes = recorded m
  current_nonneg : 0 ≤ m.memCurrentBytes
  current_le_peak : m.memCurrentBytes ≤ m.memPeakBytes
  peak_le_total : m.memPeakBytes ≤ m.memTotalAllocBytes

/-- What the types promise: sizes are size_t and the total is an int64_t. -/
structure Words (m : Memory) : Prop where
  size_lt : ∀ ptr size, m.allocSizeMap.get? ptr = some size → size < 2 ^ 64
  total_lt : m.memTotalAllocBytes < 2 ^ 63

def Unrecorded (m : Memory) (size ptr : ℕ) : Prop :=
  m.memTrackingEnabled = true → ptr ≠ 0 →
    (m.allocSizeMap.get? ptr).getD 0 = 0 ∧ m.memTotalAllocBytes + size < 2 ^ 63

def Clean (s : State) : Operation → Prop
  | .cudaMalloc size ptr => Unrecorded s.memory size ptr
  | .cudaMallocManaged size ptr => Unrecorded s.memory size ptr
  | _ => True

instance (m : Memory) (size ptr : ℕ) : Decidable (Unrecorded m size ptr) := by
  dsimp only [Unrecorded]
  infer_instance

instance (s : State) (o : Operation) : Decidable (Clean s o) := by
  induction o using Operation.casesOn <;> dsimp only [Clean] <;> infer_instance

theorem recorded_insert (m : Memory) (ptr size : ℕ) :
    (m.allocSizeMap.insert ptr size).total id + (m.allocSizeMap.get? ptr).getD 0 =
      recorded m + size := by
  have inserted := m.allocSizeMap.total_insert ptr size id
  simpa [recorded] using inserted

theorem recorded_pop (m : Memory) (ptr : ℕ) :
    (m.allocSizeMap.pop ptr).total id + (m.allocSizeMap.get? ptr).getD 0 = recorded m := by
  have removed := m.allocSizeMap.total_pop ptr id
  simpa [recorded] using removed

section Operations
variable {m : Memory}

theorem words_trackAlloc (words : Words m) {size : ℕ} (small : size < 2 ^ 64) (ptr : ℕ) :
    Words (trackAlloc m ptr size) := by
  unfold trackAlloc
  split
  · constructor
    · intro p n found
      rw [Dict.get?_insert] at found
      split at found
      · cases found
        exact small
      · exact words.size_lt p n found
    · exact int64_upper _
  · exact words

theorem words_trackFree (words : Words m) (ptr : ℕ) : Words (trackFree m ptr) := by
  have erased : ∀ p n, (m.allocSizeMap.pop ptr).get? p = some n → n < 2 ^ 64 := by
    intro p n found
    rw [Dict.get?_pop] at found
    split at found
    · cases found
    · exact words.size_lt p n found
  unfold trackFree
  split
  · dsimp only
    split
    · exact ⟨erased, words.total_lt⟩
    · exact ⟨erased, words.total_lt⟩
  · exact words

/-- A tracked allocation keeps the ledger exactly when nothing was on record at its address
    and the total does not overflow: the map adds the difference to the old entry, the
    counter the whole size. -/
theorem ledger_trackAlloc_iff (words : Words m) (ledger : LedgerHolds m) {size ptr : ℕ}
    (small : size < 2 ^ 64) (nonnull : ptr ≠ 0) :
    Unrecorded m size ptr ↔ LedgerHolds (trackAlloc m ptr size) := by
  obtain ⟨current_eq, current_nonneg, current_le_peak, peak_le_total⟩ := ledger
  have moved := recorded_insert m ptr size
  have total_lt := words.total_lt
  have old_lt : (m.allocSizeMap.get? ptr).getD 0 < 2 ^ 64 := by
    cases found : m.allocSizeMap.get? ptr with
    | none => simp
    | some old => exact words.size_lt ptr old found
  unfold trackAlloc
  split
  · rename_i tracking
    simp only [Unrecorded, tracking, nonnull, ne_eq, not_false_eq_true, forall_const]
    constructor
    · rintro ⟨absent, room⟩
      have current := int64_of_range (x := m.memCurrentBytes + size) (by omega) (by omega)
      have total := int64_of_range (x := m.memTotalAllocBytes + size) (by omega) room
      constructor <;> simp only [recorded, current, total] <;> omega
    · rintro ⟨current_eq', _, current_le_peak', peak_le_total'⟩
      simp only [recorded] at current_eq' current_le_peak' peak_le_total'
      unfold int64 at *
      omega
  · rename_i off
    have untracked : Unrecorded m size ptr := by
      intro tracking
      exact absurd tracking off
    exact iff_of_true untracked ⟨current_eq, current_nonneg, current_le_peak, peak_le_total⟩

theorem ledger_trackFree (words : Words m) (ledger : LedgerHolds m) (ptr : ℕ) :
    LedgerHolds (trackFree m ptr) := by
  obtain ⟨current_eq, current_nonneg, current_le_peak, peak_le_total⟩ := ledger
  have moved := recorded_pop m ptr
  have total_lt := words.total_lt
  unfold trackFree
  split
  · dsimp only
    split
    · have current := int64_of_range
        (x := m.memCurrentBytes - ((m.allocSizeMap.get? ptr).getD 0 : ℕ)) (by omega) (by omega)
      constructor <;> simp only [recorded, current] <;> omega
    · constructor <;> simp only [recorded] <;> omega
  · exact ⟨current_eq, current_nonneg, current_le_peak, peak_le_total⟩

theorem words_memReset : Words (memReset m) := ⟨by simp [memReset], by simp [memReset]⟩

theorem ledger_memReset : LedgerHolds (memReset m) :=
  ⟨by simp [memReset, recorded], by simp [memReset], by simp [memReset], by simp [memReset]⟩

end Operations

section Steps
variable {s t : State} {size ptr : ℕ}

theorem allocate_cases (h : allocate s size ptr = some t) :
    size < 2 ^ 64 ∧
      (ptr = 0 ∧ t.memory = s.memory ∨ ptr ≠ 0 ∧ t.memory = trackAlloc s.memory ptr size) := by
  unfold allocate at h
  split at h
  · rename_i served
    refine ⟨served.2.1, ?_⟩
    split at h
    · rename_i null
      cases h
      exact .inl ⟨null, rfl⟩
    · rename_i nonnull
      cases h
      exact .inr ⟨nonnull, rfl⟩
  · cases h

theorem words_allocate (words : Words s.memory) (h : allocate s size ptr = some t) :
    Words t.memory := by
  obtain ⟨small, ⟨_, same⟩ | ⟨_, tracked⟩⟩ := allocate_cases h
  · rw [same]
    exact words
  · rw [tracked]
    exact words_trackAlloc words small ptr

theorem ledger_allocate_iff (words : Words s.memory) (ledger : LedgerHolds s.memory)
    (h : allocate s size ptr = some t) :
    Unrecorded s.memory size ptr ↔ LedgerHolds t.memory := by
  obtain ⟨small, ⟨null, same⟩ | ⟨nonnull, tracked⟩⟩ := allocate_cases h
  · have untracked : Unrecorded s.memory size ptr := by
      intro _ nonnull
      exact absurd null nonnull
    rw [same]
    exact iff_of_true untracked ledger
  · rw [tracked]
    exact ledger_trackAlloc_iff words ledger small nonnull

end Steps

theorem words_step (s : State) (o : Operation) (t : State) (words : Words s.memory)
    (step : MemStep s o t) : Words t.memory := by
  cases o with
  | cudaMalloc size ptr => exact words_allocate words step
  | cudaMallocManaged size ptr => exact words_allocate words step
  | cudaFree ptr =>
    simp only [Fires, next] at step
    split at step
    · cases step
      exact words_trackFree words ptr
    · cases step
  | memTrack enabled =>
    cases step
    exact { words with }
  | memReset =>
    cases step
    exact words_memReset
  | memQuota mb =>
    cases step
    exact { words with }

theorem ledger_step_iff (s : State) (o : Operation) (t : State) (words : Words s.memory)
    (ledger : LedgerHolds s.memory) (step : MemStep s o t) : Clean s o ↔ LedgerHolds t.memory := by
  cases o with
  | cudaMalloc size ptr => exact ledger_allocate_iff words ledger step
  | cudaMallocManaged size ptr => exact ledger_allocate_iff words ledger step
  | cudaFree ptr =>
    simp only [Fires, next] at step
    split at step
    · cases step
      exact iff_of_true trivial (ledger_trackFree words ledger ptr)
    · cases step
  | memTrack enabled =>
    cases step
    exact iff_of_true trivial { ledger with }
  | memReset =>
    cases step
    exact iff_of_true trivial ledger_memReset
  | memQuota mb =>
    cases step
    exact iff_of_true trivial { ledger with }

theorem words_fresh : Words fresh.memory := ⟨by simp [fresh], by simp [fresh]⟩

theorem ledger_fresh : LedgerHolds fresh.memory :=
  ⟨by simp [fresh, recorded], by simp [fresh], by simp [fresh], by simp [fresh]⟩

/-- The ledger holds in every state of a run exactly when no tracked allocation of the run
    meets bytes on record at its address or an overflow of the total. -/
theorem memory_ledger_iff_clean {operations : List Operation} {t : State}
    (run : Run MemStep fresh operations t) :
    Run (Guarded Clean MemStep) fresh operations t ↔
      ∀ before after u, operations = before ++ after → Run MemStep fresh before u →
        LedgerHolds u.memory :=
  run_guarded_iff (fires_deterministic next) words_step ledger_step_iff run words_fresh
    ledger_fresh

theorem reused_address_balanced :
    ∃ t, Run MemStep fresh [.cudaMalloc 100 1, .cudaFree 1, .cudaMallocManaged 40 1] t ∧
      LedgerHolds t.memory ∧ t.memory.memCurrentBytes = 40 := by
  obtain ⟨t, guarded, checked⟩ := guarded_run_reaches Clean
    (fun t : State => decide (t.memory.memCurrentBytes = 40))
    (show (exec (guarding Clean next) fresh
      [.cudaMalloc 100 1, .cudaFree 1, .cudaMallocManaged 40 1]).any _ = true by decide +kernel)
  have run := run_mono (fun _ _ _ => And.right) guarded
  have always := (memory_ledger_iff_clean run).mp guarded
  exact ⟨t, run, always _ [] t (by simp) run, of_decide_eq_true checked⟩

/-- Freed while tracking is off, handed out again while it is on: the 100 bytes stay on the
    counter although their entry is overwritten. -/
theorem reused_address_counted_twice :
    ∃ t, Run MemStep fresh
        [.cudaMalloc 100 1, .memTrack 0, .cudaFree 1, .memTrack 1, .cudaMalloc 40 1] t ∧
      t.memory.memCurrentBytes = 140 ∧ recorded t.memory = 40 ∧ ¬ LedgerHolds t.memory := by
  obtain ⟨t, run, checked⟩ := run_reaches
    (fun t : State => decide (t.memory.memCurrentBytes = 140 ∧ recorded t.memory = 40))
    (show (exec next fresh
      [.cudaMalloc 100 1, .memTrack 0, .cudaFree 1, .memTrack 1, .cudaMalloc 40 1]).any _ = true by
        decide +kernel)
  obtain ⟨counted, stored⟩ := of_decide_eq_true checked
  refine ⟨t, run, counted, stored, ?_⟩
  intro ledger
  have balanced := ledger.current_eq
  rw [counted, stored] at balanced
  omega

end MemoryLedger
