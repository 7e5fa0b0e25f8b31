import KrakenRuntime.Lib.Threads
import KrakenRuntime.Libbless.MemoryLedger

/- The memory quota of libbless under several threads (libbless.cpp): cudaMalloc,
   cudaMallocManaged and cudaFree with check_quota, track_alloc and track_free, every atomic
   access, every locked update of alloc_size_map and every call of the driver one step. The
   driver's blocks are kept beside the variables of the process: a block is in the hands of
   the call that allocates it, held by the application, or given to a cudaFree. The driver
   may refuse an allocation, and it may refuse a free, whose bytes track_free has taken off
   by then; the application has such a block still, and may free it again. The flag
   any_alloc, contexts and the texts on stderr are left out; no step here reads them. -/
namespace MemoryQuota
open Int64Word Runs MemoryLedger

inductive Phase where
  | fresh
  | held
  | freeing
  -- after a cudaFree that the driver refused, and in another one after it
  | refused
  | freeingAgain
  deriving DecidableEq

structure Block where
  size : ℕ
  phase : Phase
  deriving DecidableEq

inductive PC where
  | outside
  -- check_quota and the allocation
  | loadQuota (size : ℕ)
  | loadCurrent (size : ℕ) (quota : ℤ)
  | driverAlloc (size : ℕ)
  -- track_alloc, and the return to the application
  | loadTracking (ptr size : ℕ)
  | insertEntry (ptr size : ℕ)
  | addAllocCount (ptr size : ℕ)
  | addTotal (ptr size : ℕ)
  | addCurrent (ptr size : ℕ)
  | loadPeak (ptr : ℕ) (current : ℤ)
  | exchangePeak (ptr : ℕ) (current peak : ℤ)
  | giveBack (ptr : ℕ)
  -- track_free and the release; the last number is what was taken off the counter
  | freeTracking (ptr : ℕ)
  | eraseEntry (ptr : ℕ)
  | addFreeCount (ptr size : ℕ)
  | subCurrent (ptr size : ℕ)
  | driverFree (ptr uncounted : ℕ)
  deriving DecidableEq

structure State (n : ℕ) where
  memory : Memory
  blocks : Dict ℕ Block
  threads : Fin n → PC
  deriving DecidableEq

def peakTest (ptr : ℕ) (current peak : ℤ) : PC :=
  if peak < current then .exchangePeak ptr current peak else .giveBack ptr

/-- One access: `answer` is what the driver says, none where it refuses; `spurious` is
    whether a weak compare-exchange fails for no reason. -/
def access (m : Memory) (blocks : Dict ℕ Block) (answer : Option ℕ) (spurious : Bool) :
    PC → Option (Memory × Dict ℕ Block × PC)
  | .outside => none
  | .loadQuota size =>
    some (m, blocks,
      if m.memQuotaBytes < 0 then .driverAlloc size else .loadCurrent size m.memQuotaBytes)
  | .loadCurrent size quota =>
    some (m, blocks,
      if int64 (m.memCurrentBytes + int64 size) ≤ quota then .driverAlloc size else .outside)
  | .driverAlloc size =>
    match answer with
    | none => some (m, blocks, .outside)
    | some ptr =>
      if ptr ≠ 0 ∧ blocks.get? ptr = none then
        some (m, blocks.insert ptr ⟨size, .fresh⟩, .loadTracking ptr size)
      else none
  | .loadTracking ptr size =>
    some (m, blocks, if m.memTrackingEnabled then .insertEntry ptr size else .giveBack ptr)
  | .insertEntry ptr size =>
    some ({ m with allocSizeMap := m.allocSizeMap.insert ptr size }, blocks,
      .addAllocCount ptr size)
  | .addAllocCount ptr size =>
    some ({ m with memAllocCount := int64 (m.memAllocCount + 1) }, blocks, .addTotal ptr size)
  | .addTotal ptr size =>
    some ({ m with memTotalAllocBytes := int64 (m.memTotalAllocBytes + size) }, blocks,
      .addCurrent ptr size)
  | .addCurrent ptr size =>
    some ({ m with memCurrentBytes := int64 (m.memCurrentBytes + size) }, blocks,
      .loadPeak ptr (int64 (m.memCurrentBytes + size)))
  | .loadPeak ptr current => some (m, blocks, peakTest ptr current m.memPeakBytes)
  | .exchangePeak ptr current peak =>
    if m.memPeakBytes = peak ∧ spurious = false then
      some ({ m with memPeakBytes := current }, blocks, .giveBack ptr)
    else some (m, blocks, peakTest ptr current m.memPeakBytes)
  | .giveBack ptr => some (m, blocks.modify ptr fun b => { b with phase := .held }, .outside)
  | .freeTracking ptr =>
    some (m, blocks,
      if m.memTrackingEnabled ∧ ptr ≠ 0 then .eraseEntry ptr else .driverFree ptr 0)
  | .eraseEntry ptr =>
    some ({ m with allocSizeMap := m.allocSizeMap.pop ptr }, blocks,
      if 0 < (m.allocSizeMap.get? ptr).getD 0 then
        .addFreeCount ptr ((m.allocSizeMap.get? ptr).getD 0)
      else .driverFree ptr 0)
  | .addFreeCount ptr size =>
    some ({ m with memFreeCount := int64 (m.memFreeCount + 1) }, blocks, .subCurrent ptr size)
  | .subCurrent ptr size =>
    some ({ m with memCurrentBytes := int64 (m.memCurrentBytes - size) }, blocks,
      .driverFree ptr size)
  | .driverFree ptr _ =>
    match answer with
    | none => some (m, blocks.modify ptr fun b => { b with phase := .refused }, .outside)
    | some _ => some (m, blocks.pop ptr, .outside)

inductive Action (n : ℕ) where
  | cudaMalloc (i : Fin n) (size : ℕ)
  | cudaMallocManaged (i : Fin n) (size : ℕ)
  | cudaFree (i : Fin n) (ptr : ℕ)
  | step (i : Fin n) (answer : Option ℕ) (spurious : Bool)
  deriving DecidableEq

variable {n : ℕ}

def request (s : State n) (i : Fin n) (size : ℕ) : Option (State n) :=
  if s.threads i = .outside ∧ size < 2 ^ 62 then
    some { s with threads := Function.update s.threads i (.loadQuota size) }
  else none

def Block.give (b : Block) : Block :=
  { b with phase := if b.phase = .held then .freeing else .freeingAgain }

def Block.ofApplication (b : Block) : Prop := b.phase = .held ∨ b.phase = .refused

instance (b : Block) : Decidable b.ofApplication := inferInstanceAs (Decidable (_ ∨ _))

def release (s : State n) (i : Fin n) (ptr : ℕ) : Option (State n) :=
  if s.threads i = .outside ∧ (ptr = 0 ∨ ∃ b ∈ s.blocks.get? ptr, b.ofApplication) then
    some { s with
      blocks := s.blocks.modify ptr Block.give
      threads := Function.update s.threads i (.freeTracking ptr) }
  else none

def next (s : State n) : Action n → Option (State n)
  | .cudaMalloc i size => request s i size
  | .cudaMallocManaged i size => request s i size
  | .cudaFree i ptr => release s i ptr
  | .step i answer spurious =>
    (access s.memory s.blocks answer spurious (s.threads i)).map fun r =>
      { memory := r.1, blocks := r.2.1, threads := Function.update s.threads i r.2.2 }

abbrev QuotaStep : State n → Action n → State n → Prop := Fires next

def start (n : ℕ) (quota : ℤ) : State n where
  memory := { memQuotaBytes := quota }
  blocks := Dict.empty
  threads := fun _ => .outside

def accesses (i : Fin n) (ptr k : ℕ) : List (Action n) :=
  List.replicate k (.step i (some ptr) false)

/- A thread that nobody interrupts does what the sequential ledger says. -/

section Uninterrupted
variable {s : State n} {i : Fin n} {ptr size : ℕ}

def State.amid (s : State n) (i : Fin n) (m : Memory) (pc : PC) : State n :=
  { s with memory := m, threads := Function.update s.threads i pc }

theorem solo_from {pc : PC} {u : State n} (here : s.threads i = pc)
    (run : ∃ k, Run QuotaStep (s.amid i s.memory pc) (accesses i ptr k) u) :
    ∃ k, Run QuotaStep s (accesses i ptr k) u := by
  have same : s.amid i s.memory pc = s := by rw [State.amid, ← here, Function.update_eq_self]
  rwa [same] at run

theorem solo_access {m m' : Memory} {pc pc' : PC} {u : State n}
    (moved : MemoryQuota.access m s.blocks (some ptr) false pc = some (m', s.blocks, pc'))
    (rest : ∃ k, Run QuotaStep (s.amid i m' pc') (accesses i ptr k) u) :
    ∃ k, Run QuotaStep (s.amid i m pc) (accesses i ptr k) u := by
  obtain ⟨k, run⟩ := rest
  have fires : QuotaStep (s.amid i m pc) (.step i (some ptr) false) (s.amid i m' pc') := by
    simp only [Fires, next, State.amid, Function.update_self, moved, Option.map_some,
      Function.update_idem]
  exact ⟨k + 1, .cons fires run⟩

theorem solo_done {m : Memory} {pc : PC} :
    ∃ k, Run QuotaStep (s.amid i m pc) (accesses i ptr k) (s.amid i m pc) := ⟨0, .nil _⟩

theorem solo_checkQuota (here : s.threads i = .loadQuota size) :
    ∃ k, Run QuotaStep s (accesses i 0 k)
      { s with
        threads := Function.update s.threads i
          (if checkQuota s.memory size then .driverAlloc size else .outside) } := by
  apply solo_from here
  apply solo_access rfl
  by_cases unlimited : s.memory.memQuotaBytes < 0
  · rw [if_pos unlimited, if_pos (by simp [checkQuota, unlimited])]
    exact solo_done
  · rw [if_neg unlimited]
    apply solo_access rfl
    have decides : checkQuota s.memory size = true ↔
        int64 (s.memory.memCurrentBytes + int64 size) ≤ s.memory.memQuotaBytes := by
      simp [checkQuota, unlimited]
    simp only [decides]
    exact solo_done

theorem solo_trackAlloc (here : s.threads i = .loadTracking ptr size)
    (tracking : s.memory.memTrackingEnabled = true) :
    ∃ k, Run QuotaStep s (accesses i ptr k)
      { s with
        memory := trackAlloc s.memory ptr size
        threads := Function.update s.threads i (.giveBack ptr) } := by
  apply solo_from here
  apply solo_access rfl
  rw [if_pos tracking, trackAlloc, if_pos tracking]
  -- the entry, the two counters of allocations, the counter of bytes, and a look at the peak
  apply solo_access rfl
  apply solo_access rfl
  apply solo_access rfl
  apply solo_access rfl
  apply solo_access rfl
  simp only [peakTest]
  by_cases higher : s.memory.memPeakBytes < int64 (s.memory.memCurrentBytes + size)
  · rw [if_pos higher, max_eq_right higher.le]
    refine solo_access ?_ solo_done
    exact if_pos ⟨rfl, rfl⟩
  · rw [if_neg higher, max_eq_left (not_lt.mp higher)]
    exact solo_done

theorem solo_trackFree (here : s.threads i = .freeTracking ptr) :
    ∃ k uncounted, Run QuotaStep s (accesses i ptr k)
      { s with
        memory := trackFree s.memory ptr
        threads := Function.update s.threads i (.driverFree ptr uncounted) } := by
  rw [exists_comm]
  by_cases tracked : s.memory.memTrackingEnabled = true ∧ ptr ≠ 0
  · by_cases some_bytes : 0 < (s.memory.allocSizeMap.get? ptr).getD 0
    · refine ⟨(s.memory.allocSizeMap.get? ptr).getD 0, solo_from here (solo_access rfl ?_)⟩
      rw [if_pos tracked, trackFree, if_pos tracked]
      simp only [if_pos some_bytes]
      apply solo_access rfl
      rw [if_pos some_bytes]
      apply solo_access rfl
      apply solo_access rfl
      exact solo_done
    · refine ⟨0, solo_from here (solo_access rfl ?_)⟩
      rw [if_pos tracked, trackFree, if_pos tracked]
      simp only [if_neg some_bytes]
      apply solo_access rfl
      rw [if_neg some_bytes]
      exact solo_done
  · refine ⟨0, solo_from here (solo_access rfl ?_)⟩
    rw [if_neg tracked, trackFree, if_neg tracked]
    exact solo_done

end Uninterrupted

def Block.heldSize (b : Block) : ℕ := if b.phase = .fresh then 0 else b.size

/-- The bytes that were returned to the application and are not yet freed. -/
def heldBytes (s : State n) : ℕ := s.blocks.total Block.heldSize

/-- What track_free has taken off the counter for a free that the driver refused. -/
def Block.uncounted (b : Block) : ℕ :=
  if b.phase = .refused ∨ b.phase = .freeingAgain then b.size else 0

def Block.counted (b : Block) : ℕ :=
  if b.phase = .refused ∨ b.phase = .freeingAgain then 0 else b.size

theorem counted_add_uncounted (b : Block) : b.counted + b.uncounted = b.size := by
  unfold Block.counted Block.uncounted
  split <;> simp

def inUse (s : State n) : ℕ := s.blocks.total Block.size

def PC.reserved : PC → ℕ
  | .driverAlloc size => size
  | _ => 0

def PC.pending : PC → ℕ
  | .loadTracking _ size | .insertEntry _ size | .addAllocCount _ size | .addTotal _ size => size
  | .addCurrent _ size => size
  | .driverFree _ uncounted => uncounted
  | _ => 0

/-- A thread that passes the check on the counter it loads finds no bytes of other threads
    between their check and the counter, or between the counter and their release, and none
    that a refused free has left behind. -/
def PC.checksAlone (s : State n) (i : Fin n) : PC → Prop
  | .loadCurrent size quota =>
    int64 (s.memory.memCurrentBytes + int64 size) ≤ quota →
      (∀ j, j ≠ i → (s.threads j).reserved = 0 ∧ (s.threads j).pending = 0) ∧
        s.blocks.total Block.uncounted = 0 ∧ s.memory.memCurrentBytes + size < 2 ^ 63
  | _ => True

def Alone (s : State n) : Action n → Prop
  | .step i _ _ => (s.threads i).checksAlone s i
  | _ => True

instance (s : State n) (i : Fin n) (pc : PC) : Decidable (pc.checksAlone s i) := by
  induction pc using PC.casesOn <;> dsimp only [PC.checksAlone] <;> infer_instance

instance (s : State n) (a : Action n) : Decidable (Alone s a) := by
  induction a using Action.casesOn <;> dsimp only [Alone] <;> infer_instance

def PC.hand : PC → ℕ
  | .loadTracking ptr _ | .insertEntry ptr _ | .addAllocCount ptr _ | .addTotal ptr _ => ptr
  | .addCurrent ptr _ | .loadPeak ptr _ | .exchangePeak ptr _ _ | .giveBack ptr => ptr
  | .freeTracking ptr | .eraseEntry ptr | .addFreeCount ptr _ | .subCurrent ptr _ => ptr
  | .driverFree ptr _ => ptr
  | _ => 0

def Given (entries : Dict ℕ ℕ) (blocks : Dict ℕ Block) (ptr : ℕ) : Prop :=
  ∃ size, blocks.get? ptr = some ⟨size, .freeing⟩ ∧ entries.get? ptr = some size ∨
    blocks.get? ptr = some ⟨size, .freeingAgain⟩ ∧ entries.get? ptr = none

def PC.backed (quota : ℤ) (entries : Dict ℕ ℕ) (blocks : Dict ℕ Block) : PC → Prop
  | .outside | .driverAlloc _ => True
  | .loadQuota size => size < 2 ^ 62
  | .loadCurrent size loaded => size < 2 ^ 62 ∧ loaded = quota
  | .loadTracking ptr size | .insertEntry ptr size =>
    ptr ≠ 0 ∧ blocks.get? ptr = some ⟨size, .fresh⟩
  | .addAllocCount ptr size | .addTotal ptr size | .addCurrent ptr size =>
    ptr ≠ 0 ∧ blocks.get? ptr = some ⟨size, .fresh⟩ ∧ entries.get? ptr = some size
  | .loadPeak ptr _ | .exchangePeak ptr _ _ | .giveBack ptr =>
    ptr ≠ 0 ∧ ∃ size, blocks.get? ptr = some ⟨size, .fresh⟩ ∧ entries.get? ptr = some size
  | .freeTracking ptr => ptr ≠ 0 → Given entries blocks ptr
  | .eraseEntry ptr => ptr ≠ 0 ∧ Given entries blocks ptr
  | .addFreeCount ptr size | .subCurrent ptr size =>
    ptr ≠ 0 ∧ blocks.get? ptr = some ⟨size, .freeing⟩ ∧ entries.get? ptr = none
  | .driverFree ptr uncounted =>
    (ptr = 0 → uncounted = 0) ∧ (ptr ≠ 0 → ∃ b, blocks.get? ptr = some b ∧
      (b.phase = .freeing ∨ b.phase = .freeingAgain) ∧ b.counted = uncounted ∧
      entries.get? ptr = none)

section Local
variable {quota : ℤ} {entries entries' : Dict ℕ ℕ} {blocks blocks' : Dict ℕ Block} {pc : PC}

theorem backed_frame
    (agree : pc.hand ≠ 0 → entries'.get? pc.hand = entries.get? pc.hand ∧
      blocks'.get? pc.hand = blocks.get? pc.hand)
    (backed : pc.backed quota entries blocks) : pc.backed quota entries' blocks' := by
  cases pc <;> simp only [PC.hand, PC.backed] at agree backed ⊢
  case loadQuota | loadCurrent => exact backed
  case freeTracking ptr =>
    intro nonnull
    rw [Given, (agree nonnull).1, (agree nonnull).2]
    exact backed nonnull
  case driverFree ptr uncounted =>
    refine ⟨backed.1, ?_⟩
    intro nonnull
    rw [(agree nonnull).1, (agree nonnull).2]
    exact backed.2 nonnull
  all_goals
    obtain ⟨nonnull, rest⟩ := backed
    obtain ⟨entry, block⟩ := agree nonnull
    simp only [Given, entry, block]
    exact ⟨nonnull, rest⟩

theorem given_block {ptr : ℕ} (given : Given entries blocks ptr) :
    ∃ b, blocks.get? ptr = some b ∧ ¬ b.ofApplication := by
  obtain ⟨size, ⟨block, _⟩ | ⟨block, _⟩⟩ := given
  · exact ⟨_, block, by simp [Block.ofApplication]⟩
  · exact ⟨_, block, by simp [Block.ofApplication]⟩

theorem backed_block (backed : pc.backed quota entries blocks) (nonnull : pc.hand ≠ 0) :
    ∃ b, blocks.get? pc.hand = some b ∧ ¬ b.ofApplication := by
  cases pc <;> simp only [PC.hand, PC.backed, ne_eq, not_true_eq_false] at nonnull backed ⊢
  case loadTracking | insertEntry => exact ⟨_, backed.2, by simp [Block.ofApplication]⟩
  case addAllocCount | addTotal | addCurrent =>
    exact ⟨_, backed.2.1, by simp [Block.ofApplication]⟩
  case loadPeak | exchangePeak | giveBack =>
    obtain ⟨_, size, block, _⟩ := backed
    exact ⟨_, block, by simp [Block.ofApplication]⟩
  case freeTracking => exact given_block (backed nonnull)
  case eraseEntry => exact given_block backed.2
  case addFreeCount | subCurrent => exact ⟨_, backed.2.1, by simp [Block.ofApplication]⟩
  case driverFree =>
    obtain ⟨b, block, phase, _⟩ := backed.2 nonnull
    exact ⟨b, block, by rcases phase with freeing | again <;> simp [Block.ofApplication, *]⟩

end Local

/-- The application's blocks are on record, except those whose free was refused. -/
def Recorded (entries : Dict ℕ ℕ) (blocks : Dict ℕ Block) : Prop :=
  ∀ ptr b, blocks.get? ptr = some b → (b.phase = .held → entries.get? ptr = some b.size) ∧
    (b.phase = .refused → entries.get? ptr = none)

structure Effect (quota : ℤ) (m : Memory) (blocks : Dict ℕ Block) (pc : PC) (m' : Memory)
    (blocks' : Dict ℕ Block) (pc' : PC) : Prop where
  quota_eq : m'.memQuotaBytes = m.memQuotaBytes
  tracking_eq : m'.memTrackingEnabled = m.memTrackingEnabled
  counter : m'.memCurrentBytes =
    int64 (m.memCurrentBytes + ((blocks'.total Block.counted : ℤ) - blocks.total Block.counted) -
      ((pc'.pending : ℤ) - pc.pending))
  backed : pc'.backed quota m'.allocSizeMap blocks'
  others : ∀ ptr, ptr ≠ pc.hand → ptr ≠ pc'.hand →
    m'.allocSizeMap.get? ptr = m.allocSizeMap.get? ptr ∧ blocks'.get? ptr = blocks.get? ptr
  new_hand : pc'.hand ≠ 0 → pc'.hand = pc.hand ∨ blocks.get? pc'.hand = none
  recorded : Recorded m'.allocSizeMap blocks'
  null : blocks'.get? 0 = none

section Access
variable {quota : ℤ} {m m' : Memory} {blocks blocks' : Dict ℕ Block} {pc pc' : PC}

theorem quiet_effect (word : int64 m.memCurrentBytes = m.memCurrentBytes)
    (recorded : Recorded m.allocSizeMap blocks) (null : blocks.get? 0 = none)
    (quota_eq : m'.memQuotaBytes = m.memQuotaBytes)
    (tracking_eq : m'.memTrackingEnabled = m.memTrackingEnabled)
    (current : m'.memCurrentBytes = m.memCurrentBytes) (entries : m'.allocSizeMap = m.allocSizeMap)
    (pending : pc'.pending = pc.pending) (hand : pc'.hand = pc.hand ∨ pc'.hand = 0)
    (backed : pc'.backed quota m.allocSizeMap blocks) :
    Effect quota m blocks pc m' blocks pc' := by
  refine ⟨quota_eq, tracking_eq, ?_, by rw [entries]; exact backed, ?_, ?_, ?_, null⟩
  · rw [current, pending]
    simp [word]
  · intro ptr _ _
    exact ⟨by rw [entries], rfl⟩
  · intro nonnull
    exact .inl (hand.resolve_right nonnull)
  · rw [entries]
    exact recorded

theorem driverAlloc_effect {size ptr : ℕ} (word : int64 m.memCurrentBytes = m.memCurrentBytes)
    (recorded : Recorded m.allocSizeMap blocks) (null : blocks.get? 0 = none) (nonnull : ptr ≠ 0)
    (absent : blocks.get? ptr = none) :
    Effect quota m blocks (.driverAlloc size) m (blocks.insert ptr ⟨size, .fresh⟩)
      (.loadTracking ptr size) := by
  have grown := blocks.total_insert ptr ⟨size, .fresh⟩ Block.counted
  simp only [absent, Option.map_none, Option.getD_none, add_zero] at grown
  have whole : (⟨size, .fresh⟩ : Block).counted = size := by simp [Block.counted]
  refine ⟨rfl, rfl, ?_, ⟨nonnull, by simp [Dict.get?_insert]⟩, ?_, fun _ => .inr absent, ?_, ?_⟩
  · rw [grown, whole]
    simp only [PC.pending]
    push_cast
    ring_nf
    exact word.symm
  · intro p _ other
    exact ⟨rfl, by simpa [Dict.get?_insert, PC.hand] using fun same => absurd same other⟩
  · intro p b present
    rw [Dict.get?_insert] at present
    split at present
    · cases present
      exact ⟨by simp, by simp⟩
    · exact recorded p b present
  · simpa [Dict.get?_insert, nonnull.symm] using null

theorem insertEntry_effect {ptr size : ℕ} (word : int64 m.memCurrentBytes = m.memCurrentBytes)
    (recorded : Recorded m.allocSizeMap blocks) (null : blocks.get? 0 = none)
    (backed : (PC.insertEntry ptr size).backed quota m.allocSizeMap blocks) :
    Effect quota m blocks (.insertEntry ptr size)
      { m with allocSizeMap := m.allocSizeMap.insert ptr size } blocks (.addAllocCount ptr size) := by
  obtain ⟨nonnull, block⟩ := backed
  refine ⟨rfl, rfl, ?_, ⟨nonnull, block, by simp [Dict.get?_insert]⟩, ?_, fun _ => .inl rfl, ?_, null⟩
  · simp [PC.pending, word]
  · intro p other _
    exact ⟨by simpa [Dict.get?_insert, PC.hand] using fun same => absurd same other, rfl⟩
  · intro p b present
    rw [Dict.get?_insert]
    split
    · rename_i same
      rw [same, block] at present
      cases present
      exact ⟨by simp, by simp⟩
    · exact recorded p b present

theorem addCurrent_effect {ptr size : ℕ} (recorded : Recorded m.allocSizeMap blocks)
    (null : blocks.get? 0 = none)
    (backed : (PC.addCurrent ptr size).backed quota m.allocSizeMap blocks) (current : ℤ) :
    Effect quota m blocks (.addCurrent ptr size)
      { m with memCurrentBytes := int64 (m.memCurrentBytes + size) } blocks
      (.loadPeak ptr current) := by
  refine ⟨rfl, rfl, ?_, ⟨backed.1, size, backed.2⟩, fun _ _ _ => ⟨rfl, rfl⟩, fun _ => .inl rfl,
    recorded, null⟩
  simp only [PC.pending]
  push_cast
  ring_nf

theorem giveBack_effect {ptr : ℕ} (word : int64 m.memCurrentBytes = m.memCurrentBytes)
    (recorded : Recorded m.allocSizeMap blocks) (null : blocks.get? 0 = none)
    (backed : (PC.giveBack ptr).backed quota m.allocSizeMap blocks) :
    Effect quota m blocks (.giveBack ptr) m
      (blocks.modify ptr fun b => { b with phase := .held }) .outside := by
  obtain ⟨nonnull, size, block, entry⟩ := backed
  have moved := blocks.total_modify (fun b => { b with phase := .held }) Block.counted block
  simp only [Block.counted, reduceCtorEq, or_self, if_false] at moved
  have same : (blocks.modify ptr fun b => { b with phase := .held }).total Block.counted =
      blocks.total Block.counted := Nat.add_right_cancel moved
  refine ⟨rfl, rfl, ?_, trivial, ?_, fun impossible => absurd rfl impossible, ?_, ?_⟩
  · rw [same]
    simp [PC.pending, word]
  · intro p other _
    exact ⟨rfl, Dict.get?_modify_ne _ _ other⟩
  · intro p b present
    rw [Dict.get?_modify] at present
    split at present
    · rename_i here
      rw [here, block] at present
      cases present
      rw [here]
      exact ⟨fun _ => entry, by simp⟩
    · exact recorded p b present
  · rw [Dict.get?_modify_ne _ _ nonnull.symm]
    exact null

theorem eraseEntry_effect {ptr : ℕ} (word : int64 m.memCurrentBytes = m.memCurrentBytes)
    (recorded : Recorded m.allocSizeMap blocks) (null : blocks.get? 0 = none)
    (backed : (PC.eraseEntry ptr).backed quota m.allocSizeMap blocks) :
    Effect quota m blocks (.eraseEntry ptr)
      { m with allocSizeMap := m.allocSizeMap.pop ptr } blocks
      (if 0 < (m.allocSizeMap.get? ptr).getD 0 then
        .addFreeCount ptr ((m.allocSizeMap.get? ptr).getD 0)
      else .driverFree ptr 0) := by
  obtain ⟨nonnull, size, given⟩ := backed
  have kept : Recorded (m.allocSizeMap.pop ptr) blocks := by
    intro p b present
    rw [Dict.get?_pop]
    split
    · rename_i here
      rw [here] at present
      rcases given with ⟨block, _⟩ | ⟨block, _⟩ <;> rw [block] at present <;> cases present
      · exact ⟨by simp, by simp⟩
      · exact ⟨by simp, by simp⟩
    · exact recorded p b present
  have gone : (m.allocSizeMap.pop ptr).get? ptr = none := by simp [Dict.get?_pop]
  have elsewhere : ∀ p, p ≠ ptr →
      (m.allocSizeMap.pop ptr).get? p = m.allocSizeMap.get? p := by
    intro p other
    simp [Dict.get?_pop, other]
  rcases given with ⟨block, entry⟩ | ⟨block, entry⟩
  · simp only [entry, Option.getD_some]
    split
    · exact ⟨rfl, rfl, by simp [PC.pending, word], ⟨nonnull, block, gone⟩,
        fun p other _ => ⟨elsewhere p other, rfl⟩, fun _ => .inl rfl, kept, null⟩
    · rename_i empty
      have zero : size = 0 := by omega
      subst zero
      exact ⟨rfl, rfl, by simp [PC.pending, word],
        ⟨fun _ => rfl, fun _ => ⟨_, block, .inl rfl, by simp [Block.counted], gone⟩⟩,
        fun p other _ => ⟨elsewhere p other, rfl⟩, fun _ => .inl rfl, kept, null⟩
  · simp only [entry, Option.getD_none, lt_irrefl, if_false]
    exact ⟨rfl, rfl, by simp [PC.pending, word],
      ⟨fun _ => rfl, fun _ => ⟨_, block, .inr rfl, by simp [Block.counted], gone⟩⟩,
      fun p other _ => ⟨elsewhere p other, rfl⟩, fun _ => .inl rfl, kept, null⟩

theorem subCurrent_effect {ptr size : ℕ} (recorded : Recorded m.allocSizeMap blocks)
    (null : blocks.get? 0 = none)
    (backed : (PC.subCurrent ptr size).backed quota m.allocSizeMap blocks) :
    Effect quota m blocks (.subCurrent ptr size)
      { m with memCurrentBytes := int64 (m.memCurrentBytes - size) } blocks
      (.driverFree ptr size) := by
  obtain ⟨nonnull, block, entry⟩ := backed
  refine ⟨rfl, rfl, ?_, ⟨fun isNull => absurd isNull nonnull,
    fun _ => ⟨_, block, .inl rfl, by simp [Block.counted], entry⟩⟩,
    fun _ _ _ => ⟨rfl, rfl⟩, fun _ => .inl rfl, recorded, null⟩
  simp only [PC.pending]
  push_cast
  ring_nf

theorem driverFree_counted {ptr uncounted : ℕ} (null : blocks.get? 0 = none)
    (backed : (PC.driverFree ptr uncounted).backed quota m.allocSizeMap blocks) :
    ((blocks.get? ptr).map Block.counted).getD 0 = uncounted := by
  by_cases isNull : ptr = 0
  · rw [isNull, null, backed.1 isNull]
    rfl
  · obtain ⟨b, block, _, counted, _⟩ := backed.2 isNull
    rw [block, ← counted]
    rfl

theorem driverFree_effect {ptr uncounted : ℕ} (word : int64 m.memCurrentBytes = m.memCurrentBytes)
    (recorded : Recorded m.allocSizeMap blocks) (null : blocks.get? 0 = none)
    (backed : (PC.driverFree ptr uncounted).backed quota m.allocSizeMap blocks) :
    Effect quota m blocks (.driverFree ptr uncounted) m (blocks.pop ptr) .outside := by
  have removed := blocks.total_pop ptr Block.counted
  rw [driverFree_counted null backed] at removed
  refine ⟨rfl, rfl, ?_, trivial, ?_, fun impossible => absurd rfl impossible, ?_, ?_⟩
  · rw [← removed]
    simp only [PC.pending]
    push_cast
    ring_nf
    exact word.symm
  · intro p other _
    exact ⟨rfl, by simpa [Dict.get?_pop, PC.hand] using fun same => absurd same other⟩
  · intro p b present
    rw [Dict.get?_pop] at present
    split at present
    · cases present
    · exact recorded p b present
  · rw [Dict.get?_pop]
    split
    · rfl
    · exact null

theorem refused_total (blocks : Dict ℕ Block) (ptr : ℕ) :
    (blocks.modify ptr fun b => { b with phase := .refused }).total Block.counted +
      ((blocks.get? ptr).map Block.counted).getD 0 = blocks.total Block.counted := by
  cases found : blocks.get? ptr with
  | none => rw [Dict.modify_of_absent _ _ found, Option.map_none, Option.getD_none, add_zero]
  | some b =>
    have moved := blocks.total_modify (fun b => { b with phase := .refused }) Block.counted found
    have nothing : ({ b with phase := .refused } : Block).counted = 0 := by simp [Block.counted]
    rw [nothing, add_zero] at moved
    exact moved

theorem refusedFree_effect {ptr uncounted : ℕ} (word : int64 m.memCurrentBytes = m.memCurrentBytes)
    (recorded : Recorded m.allocSizeMap blocks) (null : blocks.get? 0 = none)
    (backed : (PC.driverFree ptr uncounted).backed quota m.allocSizeMap blocks) :
    Effect quota m blocks (.driverFree ptr uncounted) m
      (blocks.modify ptr fun b => { b with phase := .refused }) .outside := by
  have removed := refused_total blocks ptr
  rw [driverFree_counted null backed] at removed
  refine ⟨rfl, rfl, ?_, trivial, ?_, fun impossible => absurd rfl impossible, ?_, ?_⟩
  · rw [← removed]
    simp only [PC.pending]
    push_cast
    ring_nf
    exact word.symm
  · intro p other _
    exact ⟨rfl, Dict.get?_modify_ne _ _ other⟩
  · intro p b present
    rw [Dict.get?_modify] at present
    split at present
    · rename_i here
      obtain ⟨b', found, rfl⟩ := Option.map_eq_some_iff.mp present
      have nonnull : ptr ≠ 0 := by
        rintro rfl
        rw [here, null] at found
        cases found
      obtain ⟨_, _, _, _, entry⟩ := backed.2 nonnull
      exact ⟨by simp, fun _ => by rw [here]; exact entry⟩
    · exact recorded p b present
  · rw [Dict.get?_modify, null]
    split <;> rfl

theorem access_effect {answer : Option ℕ} {spurious : Bool}
    (word : int64 m.memCurrentBytes = m.memCurrentBytes)
    (recorded : Recorded m.allocSizeMap blocks) (null : blocks.get? 0 = none)
    (quota_eq : m.memQuotaBytes = quota) (nonneg : 0 ≤ quota)
    (tracking : m.memTrackingEnabled = true) (backed : pc.backed quota m.allocSizeMap blocks)
    (step : MemoryQuota.access m blocks answer spurious pc = some (m', blocks', pc')) :
    Effect quota m blocks pc m' blocks' pc' := by
  have quiet : ∀ {k : Memory} {q : PC}, k.memQuotaBytes = m.memQuotaBytes →
      k.memTrackingEnabled = m.memTrackingEnabled → k.memCurrentBytes = m.memCurrentBytes →
      k.allocSizeMap = m.allocSizeMap → q.pending = pc.pending →
      (q.hand = pc.hand ∨ q.hand = 0) → q.backed quota m.allocSizeMap blocks →
      Effect quota m blocks pc k blocks q :=
    fun h₁ h₂ h₃ h₄ h₅ h₆ h₇ => quiet_effect word recorded null h₁ h₂ h₃ h₄ h₅ h₆ h₇
  cases pc <;> simp only [MemoryQuota.access] at step
  case outside => cases step
  case loadQuota size =>
    cases step
    rw [if_neg (by omega)]
    exact quiet rfl rfl rfl rfl rfl (.inl rfl) ⟨backed, quota_eq⟩
  case loadCurrent size loaded =>
    cases step
    split
    · exact quiet rfl rfl rfl rfl rfl (.inl rfl) trivial
    · exact quiet rfl rfl rfl rfl rfl (.inl rfl) trivial
  case driverAlloc size =>
    cases answer with
    | none =>
      cases step
      exact quiet rfl rfl rfl rfl rfl (.inl rfl) trivial
    | some ptr =>
      simp only at step
      split at step
      · rename_i served
        cases step
        exact driverAlloc_effect word recorded null served.1 served.2
      · cases step
  case loadTracking ptr size =>
    cases step
    rw [if_pos tracking]
    exact quiet rfl rfl rfl rfl rfl (.inl rfl) backed
  case insertEntry ptr size =>
    cases step
    exact insertEntry_effect word recorded null backed
  case addAllocCount | addTotal =>
    cases step
    exact quiet rfl rfl rfl rfl rfl (.inl rfl) backed
  case addCurrent ptr size =>
    cases step
    exact addCurrent_effect recorded null backed _
  case loadPeak ptr current =>
    cases step
    unfold peakTest
    split
    · exact quiet rfl rfl rfl rfl rfl (.inl rfl) backed
    · exact quiet rfl rfl rfl rfl rfl (.inl rfl) backed
  case exchangePeak ptr current peak =>
    split at step
    · cases step
      exact quiet rfl rfl rfl rfl rfl (.inl rfl) backed
    · cases step
      unfold peakTest
      split
      · exact quiet rfl rfl rfl rfl rfl (.inl rfl) backed
      · exact quiet rfl rfl rfl rfl rfl (.inl rfl) backed
  case giveBack ptr =>
    cases step
    exact giveBack_effect word recorded null backed
  case freeTracking ptr =>
    cases step
    split
    · rename_i tracked
      exact quiet rfl rfl rfl rfl rfl (.inl rfl) ⟨tracked.2, backed tracked.2⟩
    · rename_i untracked
      have isNull : ptr = 0 := by
        by_contra nonnull
        exact untracked ⟨tracking, nonnull⟩
      exact quiet rfl rfl rfl rfl rfl (.inl rfl) ⟨fun _ => rfl, fun nonnull => absurd isNull nonnull⟩
  case eraseEntry ptr =>
    cases step
    exact eraseEntry_effect word recorded null backed
  case addFreeCount ptr size =>
    cases step
    exact quiet rfl rfl rfl rfl rfl (.inl rfl) backed
  case subCurrent ptr size =>
    cases step
    exact subCurrent_effect recorded null backed
  case driverFree ptr uncounted =>
    cases answer with
    | none =>
      cases step
      exact refusedFree_effect word recorded null backed
    | some _ =>
      cases step
      exact driverFree_effect word recorded null backed

theorem access_reserves {answer : Option ℕ} {spurious : Bool} (limited : 0 ≤ m.memQuotaBytes)
    (step : MemoryQuota.access m blocks answer spurious pc = some (m', blocks', pc')) :
    (∃ size loaded, pc = .loadCurrent size loaded ∧
      int64 (m.memCurrentBytes + int64 size) ≤ loaded ∧ blocks' = blocks ∧
      pc' = .driverAlloc size) ∨
    blocks'.total Block.size + pc'.reserved ≤ blocks.total Block.size + pc.reserved := by
  cases pc <;> simp only [MemoryQuota.access] at step
  case outside => cases step
  case loadQuota size =>
    cases step
    right
    rw [if_neg (by omega)]
    simp [PC.reserved]
  case loadCurrent size loaded =>
    cases step
    split
    · rename_i passed
      exact .inl ⟨size, loaded, rfl, passed, rfl, rfl⟩
    · right
      simp [PC.reserved]
  case driverAlloc size =>
    right
    cases answer with
    | none =>
      cases step
      simp [PC.reserved]
    | some ptr =>
      simp only at step
      split at step
      · cases step
        have grown := blocks.total_insert ptr ⟨size, .fresh⟩ Block.size
        simp only [PC.reserved] at grown ⊢
        omega
      · cases step
  case giveBack ptr =>
    cases step
    right
    rw [blocks.total_modify_of_eq ptr (fun b => { b with phase := .held }) Block.size fun _ => rfl]
    simp [PC.reserved]
  case driverFree ptr uncounted =>
    right
    cases answer with
    | none =>
      cases step
      rw [blocks.total_modify_of_eq ptr (fun b => { b with phase := .refused }) Block.size
        fun _ => rfl]
      simp [PC.reserved]
    | some _ =>
      cases step
      simpa [PC.reserved] using blocks.total_pop_le ptr Block.size
  case exchangePeak ptr current peak =>
    right
    unfold peakTest at step
    split_ifs at step <;> cases step <;> simp [PC.reserved]
  case loadPeak ptr current =>
    cases step
    right
    unfold peakTest
    split <;> exact le_refl _
  case loadTracking | freeTracking | eraseEntry =>
    cases step
    right
    split <;> exact le_refl _
  all_goals
    cases step
    exact .inr (le_refl _)

end Access

structure Kept (quota : ℤ) (s : State n) : Prop where
  quota_eq : s.memory.memQuotaBytes = quota
  tracking : s.memory.memTrackingEnabled = true
  counter : s.memory.memCurrentBytes =
    int64 ((s.blocks.total Block.counted : ℤ) - (Threads.total PC.pending s.threads : ℕ))
  capped : ((inUse s + Threads.total PC.reserved s.threads : ℕ) : ℤ) ≤ quota
  backed : ∀ i, (s.threads i).backed quota s.memory.allocSizeMap s.blocks
  distinct : ∀ i j, (s.threads i).hand ≠ 0 → (s.threads i).hand = (s.threads j).hand → i = j
  recorded : Recorded s.memory.allocSizeMap s.blocks
  null : s.blocks.get? 0 = none

theorem start_kept {quota : ℤ} (nonneg : 0 ≤ quota) : Kept quota (start n quota) := by
  have none_pending : Threads.total PC.pending (start n quota).threads = 0 :=
    Threads.total_eq_zero fun _ => rfl
  have none_reserved : Threads.total PC.reserved (start n quota).threads = 0 :=
    Threads.total_eq_zero fun _ => rfl
  have none_used : inUse (start n quota) = 0 := Dict.total_empty _
  have none_counted : (start n quota).blocks.total Block.counted = 0 := Dict.total_empty _
  refine ⟨rfl, rfl, ?_, ?_, fun _ => trivial, ?_, by simp [Recorded, start], rfl⟩
  · rw [none_pending, none_counted, int64_of_range (by simp) (by simp)]
    rfl
  · rw [none_reserved, none_used]
    exact nonneg
  · intro i j nonnull
    exact absurd rfl nonnull

section Steps
variable {quota : ℤ} {s t : State n} {i : Fin n}

theorem checked_capped (kept : Kept quota s) (word : quota < 2 ^ 63) {size : ℕ} {loaded : ℤ}
    (here : s.threads i = .loadCurrent size loaded) (alone : (s.threads i).checksAlone s i)
    (passed : int64 (s.memory.memCurrentBytes + int64 size) ≤ loaded) :
    ((inUse s + size : ℕ) : ℤ) ≤ quota ∧ Threads.total PC.reserved s.threads = 0 := by
  have backed := kept.backed i
  rw [here] at alone backed
  obtain ⟨quiet, unrefused, room⟩ := alone passed
  have all_counted : inUse s = s.blocks.total Block.counted := by
    have parts := s.blocks.total_add Block.counted Block.uncounted
    rw [funext counted_add_uncounted, unrefused, add_zero] at parts
    exact parts
  have none_pending : Threads.total PC.pending s.threads = 0 := by
    apply Threads.total_eq_zero
    intro j
    by_cases same : j = i
    · rw [same, here]
      rfl
    · exact (quiet j same).2
  have none_reserved : Threads.total PC.reserved s.threads = 0 := by
    apply Threads.total_eq_zero
    intro j
    by_cases same : j = i
    · rw [same, here]
      rfl
    · exact (quiet j same).1
  refine ⟨?_, none_reserved⟩
  have counter := kept.counter
  have capped := kept.capped
  rw [none_pending, ← all_counted] at counter
  rw [none_reserved] at capped
  have bounded : (inUse s : ℤ) < 2 ^ 63 := lt_of_le_of_lt (by simpa using capped) word
  have current : s.memory.memCurrentBytes = inUse s := by
    rw [counter, Nat.cast_zero, sub_zero]
    exact int64_of_nonneg (Int.natCast_nonneg _) bounded
  have small : (size : ℤ) < 2 ^ 63 := by
    have below := backed.1
    clear counter passed
    omega
  have sum : int64 (s.memory.memCurrentBytes + int64 size) = (inUse s : ℤ) + size := by
    rw [int64_of_nonneg (Int.natCast_nonneg _) small, int64_of_nonneg _ room, current]
    rw [current]
    exact Int.add_nonneg (Int.natCast_nonneg _) (Int.natCast_nonneg _)
  rw [sum, backed.2] at passed
  push_cast
  exact passed

theorem advance_kept (kept : Kept quota s) (nonneg : 0 ≤ quota) (word : quota < 2 ^ 63)
    (alone : (s.threads i).checksAlone s i) {answer : Option ℕ} {spurious : Bool} {m : Memory}
    {blocks : Dict ℕ Block} {pc : PC}
    (step : MemoryQuota.access s.memory s.blocks answer spurious (s.threads i) =
      some (m, blocks, pc)) :
    Kept quota { memory := m, blocks := blocks, threads := Function.update s.threads i pc } := by
  have counter := kept.counter
  have stored : int64 s.memory.memCurrentBytes = s.memory.memCurrentBytes := by
    rw [counter]
    exact int64_int64 _
  have effect := access_effect stored kept.recorded kept.null kept.quota_eq nonneg kept.tracking
    (kept.backed i) step
  have pending := Threads.total_update PC.pending s.threads i pc
  have reserved := Threads.total_update PC.reserved s.threads i pc
  -- what another thread has in hand is neither what this one had nor what it has now
  have apart : ∀ j, j ≠ i → (s.threads j).hand ≠ 0 →
      (s.threads j).hand ≠ (s.threads i).hand ∧ (s.threads j).hand ≠ pc.hand := by
    intro j other nonnull
    have first : (s.threads j).hand ≠ (s.threads i).hand := fun same =>
      other (kept.distinct j i nonnull same)
    refine ⟨first, ?_⟩
    intro same
    rcases effect.new_hand (same ▸ nonnull) with old | new
    · exact first (same.trans old)
    · obtain ⟨b, present, _⟩ := backed_block (kept.backed j) nonnull
      rw [same, new] at present
      cases present
  constructor
  case quota_eq => exact effect.quota_eq.trans kept.quota_eq
  case tracking => exact effect.tracking_eq.trans kept.tracking
  case counter =>
    show m.memCurrentBytes = _
    rw [effect.counter, counter, add_sub_assoc, int64_add]
    congr 1
    show _ = (blocks.total Block.counted : ℤ) -
      (Threads.total PC.pending (Function.update s.threads i pc) : ℕ)
    omega
  case capped =>
    show ((blocks.total Block.size +
      Threads.total PC.reserved (Function.update s.threads i pc) : ℕ) : ℤ) ≤ quota
    have capped := kept.capped
    simp only [inUse] at capped
    rcases access_reserves (by rw [kept.quota_eq]; exact nonneg) step with
      ⟨size, loaded, here, passed, rfl, rfl⟩ | shrinks
    · obtain ⟨enough, empty⟩ := checked_capped kept word here alone passed
      rw [empty, here] at reserved
      simp only [PC.reserved, inUse] at reserved enough
      omega
    · omega
  case backed =>
    intro j
    by_cases same : j = i
    · subst same
      simp only [Function.update_self]
      exact effect.backed
    · simp only [Function.update_of_ne same]
      apply backed_frame _ (kept.backed j)
      intro nonnull
      obtain ⟨first, second⟩ := apart j same nonnull
      exact effect.others _ first second
  case distinct =>
    apply Threads.hands_apart_update kept.distinct
    intro j other nonnull same
    exact (apart j other (same ▸ nonnull)).2 same
  case recorded => exact effect.recorded
  case null => exact effect.null

theorem request_kept (kept : Kept quota s) {size : ℕ} (h : request s i size = some t) :
    Kept quota t := by
  unfold request at h
  split at h
  · rename_i ready
    obtain ⟨outside, small⟩ := ready
    cases h
    have pending := Threads.total_update PC.pending s.threads i (.loadQuota size)
    have reserved := Threads.total_update PC.reserved s.threads i (.loadQuota size)
    simp only [outside, PC.pending, PC.reserved, add_zero] at pending reserved
    refine ⟨kept.quota_eq, kept.tracking, ?_, ?_, ?_, ?_, kept.recorded, kept.null⟩
    · simp only [pending]
      exact kept.counter
    · simp only [reserved]
      exact kept.capped
    · intro j
      by_cases same : j = i
      · subst same
        simp only [Function.update_self]
        exact small
      · simp only [Function.update_of_ne same]
        exact kept.backed j
    · apply Threads.hands_apart_update kept.distinct
      intro j _ nonnull
      exact absurd rfl nonnull
  · cases h

theorem held_unowned (kept : Kept quota s) {ptr : ℕ} (nonnull : ptr ≠ 0)
    (held : ∃ b ∈ s.blocks.get? ptr, b.ofApplication) (j : Fin n) :
    (s.threads j).hand ≠ ptr := by
  rintro rfl
  obtain ⟨b, present, phase⟩ := backed_block (kept.backed j) nonnull
  obtain ⟨b', found, mine⟩ := held
  rw [present] at found
  cases found
  exact phase mine

theorem give_counted {b : Block} (mine : b.ofApplication) : b.give.counted = b.counted := by
  rcases mine with held | refused
  · simp [Block.give, Block.counted, held]
  · simp [Block.give, Block.counted, refused]

theorem give_total (blocks : Dict ℕ Block) {ptr : ℕ} (null : blocks.get? 0 = none)
    (giveUp : ptr = 0 ∨ ∃ b ∈ blocks.get? ptr, b.ofApplication) :
    (blocks.modify ptr Block.give).total Block.counted = blocks.total Block.counted := by
  rcases giveUp with rfl | ⟨b, found, mine⟩
  · rw [Dict.modify_of_absent _ _ null]
  · have moved := blocks.total_modify Block.give Block.counted found
    rw [give_counted mine] at moved
    exact Nat.add_right_cancel moved

theorem given_of_give {entries : Dict ℕ ℕ} {blocks : Dict ℕ Block} {ptr : ℕ} {b : Block}
    (recorded : Recorded entries blocks) (found : blocks.get? ptr = some b)
    (mine : b.ofApplication) : Given entries (blocks.modify ptr Block.give) ptr := by
  obtain ⟨size, phase⟩ := b
  obtain ⟨on_record, off_record⟩ := recorded ptr _ found
  refine ⟨size, ?_⟩
  rcases mine with rfl | rfl
  · exact .inl ⟨by simp [found, Block.give], on_record rfl⟩
  · exact .inr ⟨by simp [found, Block.give], off_record rfl⟩

theorem release_kept (kept : Kept quota s) {ptr : ℕ} (h : release s i ptr = some t) :
    Kept quota t := by
  unfold release at h
  split at h
  · rename_i ready
    obtain ⟨outside, giveUp⟩ := ready
    cases h
    have pending := Threads.total_update PC.pending s.threads i (.freeTracking ptr)
    have reserved := Threads.total_update PC.reserved s.threads i (.freeTracking ptr)
    simp only [outside, PC.pending, PC.reserved, add_zero] at pending reserved
    have same_bytes : (s.blocks.modify ptr Block.give).total Block.size =
        s.blocks.total Block.size := s.blocks.total_modify_of_eq ptr _ Block.size fun _ => rfl
    refine ⟨kept.quota_eq, kept.tracking, ?_, ?_, ?_, ?_, ?_, ?_⟩
    · simp only [give_total s.blocks kept.null giveUp, pending]
      exact kept.counter
    · simp only [inUse, same_bytes, reserved]
      exact kept.capped
    · intro j
      by_cases same : j = i
      · subst same
        simp only [Function.update_self]
        intro nonnull
        obtain ⟨b, found, mine⟩ := giveUp.resolve_left nonnull
        exact given_of_give kept.recorded found mine
      · simp only [Function.update_of_ne same]
        apply backed_frame _ (kept.backed j)
        intro nonnull
        refine ⟨rfl, Dict.get?_modify_ne _ _ ?_⟩
        by_cases isNull : ptr = 0
        · rw [isNull]
          exact nonnull
        · exact held_unowned kept isNull (giveUp.resolve_left isNull) j
    · apply Threads.hands_apart_update kept.distinct
      intro j _ nonnull
      exact held_unowned kept nonnull (giveUp.resolve_left nonnull) j
    · intro p b present
      rw [Dict.get?_modify] at present
      split at present
      · obtain ⟨b', _, rfl⟩ := Option.map_eq_some_iff.mp present
        unfold Block.give
        split <;> exact ⟨by simp, by simp⟩
      · exact kept.recorded p b present
    · rw [Dict.get?_modify]
      split
      · rw [kept.null]
        rfl
      · exact kept.null
  · cases h

theorem step_kept {a : Action n} (kept : Kept quota s) (nonneg : 0 ≤ quota) (word : quota < 2 ^ 63)
    (alone : Alone s a) (step : QuotaStep s a t) : Kept quota t := by
  cases a with
  | cudaMalloc i size => exact request_kept kept step
  | cudaMallocManaged i size => exact request_kept kept step
  | cudaFree i ptr => exact release_kept kept step
  | step i answer spurious =>
    simp only [Fires, next, Option.map_eq_some_iff] at step
    obtain ⟨⟨m, blocks, pc⟩, taken, rfl⟩ := step
    exact advance_kept kept nonneg word alone taken

end Steps

/-- In every run in which each check that passes is made while no other thread has bytes
    between the check and the counter, and no refused free has left any, what the application
    holds stays within the quota. -/
theorem quota_is_hard_cap {quota : ℤ} {t : State n} {labels : List (Action n)}
    (nonneg : 0 ≤ quota) (word : quota < 2 ^ 63)
    (run : Run (Guarded Alone QuotaStep) (start n quota) labels t) : (heldBytes t : ℤ) ≤ quota := by
  have kept : Kept quota t := by
    apply run_invariant (Kept quota) _ run (start_kept nonneg)
    rintro x a y kept ⟨alone, step⟩
    exact step_kept kept nonneg word alone step
  have within : heldBytes t ≤ inUse t := by
    apply t.blocks.total_mono
    intro b
    unfold Block.heldSize
    split <;> omega
  have capped := kept.capped
  omega

def oneAfterAnother : List (Action 2) :=
  .cudaMalloc 0 60 :: accesses 0 8 11 ++ .cudaMallocManaged 1 40 :: accesses 1 16 11 ++
    .cudaFree 0 8 :: accesses 0 0 5 ++ .cudaMalloc 1 60 :: accesses 1 8 10

theorem one_after_another_capped : ∃ t,
    Run (Guarded Alone QuotaStep) (start 2 100) oneAfterAnother t ∧
    heldBytes t = 100 ∧ (heldBytes t : ℤ) ≤ 100 := by
  obtain ⟨t, run, reached⟩ := guarded_run_reaches Alone
    (fun t : State 2 => decide (heldBytes t = 100))
    (show (exec (guarding Alone next) (start 2 100) oneAfterAnother).any _ = true by
      decide +kernel)
  exact ⟨t, run, of_decide_eq_true reached, quota_is_hard_cap (by decide) (by decide) run⟩

def checksCross : List (Action 2) :=
  .cudaMalloc 0 60 :: .cudaMallocManaged 1 60 :: accesses 0 8 2 ++ accesses 1 16 2 ++
    accesses 0 8 9 ++ accesses 1 16 9

/-- One thread; the driver refuses a free whose bytes are off the counter by then. -/
def refusedFree : List (Action 1) :=
  .cudaMalloc 0 60 :: accesses 0 8 11 ++ .cudaFree 0 8 :: accesses 0 8 4 ++
    .step 0 none false :: .cudaMalloc 0 60 :: accesses 0 16 10

theorem quota_overrun :
    (∃ t, Run QuotaStep (start 2 100) checksCross t ∧ heldBytes t = 120 ∧
      ¬ (heldBytes t : ℤ) ≤ 100) ∧
    ∃ t, Run QuotaStep (start 1 100) refusedFree t ∧ heldBytes t = 120 ∧
      ¬ (heldBytes t : ℤ) ≤ 100 := by
  constructor
  · obtain ⟨t, run, reached⟩ := run_reaches
      (fun t : State 2 => decide (heldBytes t = 120 ∧ ¬ (heldBytes t : ℤ) ≤ 100))
      (show (exec next (start 2 100) checksCross).any _ = true by decide +kernel)
    exact ⟨t, run, of_decide_eq_true reached⟩
  · obtain ⟨t, run, reached⟩ := run_reaches
      (fun t : State 1 => decide (heldBytes t = 120 ∧ ¬ (heldBytes t : ℤ) ≤ 100))
      (show (exec next (start 1 100) refusedFree).any _ = true by decide +kernel)
    exact ⟨t, run, of_decide_eq_true reached⟩

end MemoryQuota
