import KrakenRuntime.Lib.Runs
import KrakenRuntime.Lib.Dict
import KrakenRuntime.Lib.Int64

/- Virtual memory of a tenant (virtual_mem.cpp): vmem_check_alloc, vmem_track_alloc and
   vmem_track_free as the memory hooks of cuda_hooks.cpp call them, in an initialised process
   whose shared memory is mapped, on one thread. The counters are 64-bit words and wrap, the
   quota is a 32-bit number of megabytes that the controller may change at any time. The
   driver is known by its live allocations; it may refuse an allocation, and a free that the
   hook has taken off the books by then. How the real symbols are resolved, and the texts on
   stderr of the hooks, are left out. -/
namespace VirtualMem
open Int64Word Runs

def maxAllocEntries : ℕ := 4096

def int64Max : ℤ := 2 ^ 63 - 1

structure Entry where
  ptr : ℕ
  size : ℤ
  deriving DecidableEq

structure State where
  /-- The first alloc_table_size entries; a null pointer marks a hole. -/
  allocTable : List Entry := []
  memUsedBytes : ℤ := 0
  tenantUsedBytes : ℤ
  virtualMemMb : ℤ
  live : Dict ℕ ℕ := Dict.empty
  deriving DecidableEq

def quotaBytes (s : State) : ℤ :=
  if 0 < s.virtualMemMb then s.virtualMemMb * 1024 * 1024 else int64Max

def vmemCheckAlloc (s : State) (bytes : ℕ) : Bool :=
  quotaBytes s = int64Max ∨ int64 (s.memUsedBytes + int64 bytes) ≤ quotaBytes s

def fillHole (e : Entry) : List Entry → Option (List Entry)
  | [] => none
  | d :: rest => if d.ptr = 0 then some (e :: rest) else (fillHole e rest).map (d :: ·)

def storeEntry (e : Entry) (table : List Entry) : List Entry :=
  match fillHole e table with
  | some filled => filled
  | none => if table.length < maxAllocEntries then table ++ [e] else table

def vmemTrackAlloc (s : State) (ptr bytes : ℕ) : State :=
  if ptr = 0 ∨ bytes = 0 then s
  else
    { s with
      allocTable := storeEntry ⟨ptr, int64 bytes⟩ s.allocTable
      memUsedBytes := int64 (s.memUsedBytes + int64 bytes)
      tenantUsedBytes := int64 (s.tenantUsedBytes + int64 bytes) }

/-- The first entry of the pointer, with a hole in its place. -/
def clearEntry (ptr : ℕ) : List Entry → Option (ℤ × List Entry)
  | [] => none
  | d :: rest =>
    if d.ptr = ptr then some (d.size, ⟨0, 0⟩ :: rest)
    else (clearEntry ptr rest).map fun found => (found.1, d :: found.2)

def vmemTrackFree (s : State) (ptr : ℕ) : State :=
  if ptr = 0 then s
  else
    match clearEntry ptr s.allocTable with
    | none => s
    | some (sz, table) =>
      { s with
        allocTable := table
        memUsedBytes := int64 (s.memUsedBytes - sz)
        tenantUsedBytes := int64 (s.tenantUsedBytes - sz) }

/-- The hook of an allocating call: refused, failed in the driver, or served with an address. -/
def allocHook (s : State) (bytes : ℕ) (served : Option ℕ) : State :=
  if vmemCheckAlloc s bytes then
    match served with
    | none => s
    | some ptr => vmemTrackAlloc { s with live := s.live.insert ptr bytes } ptr bytes
  else s

/-- The hook of a freeing call, which takes the pointer off whatever the driver will say. -/
def freeHook (s : State) (ptr : ℕ) (freed : Bool) : State :=
  { vmemTrackFree s ptr with live := if freed then s.live.pop ptr else s.live }

inductive Operation where
  | cuMemAlloc (bytes : ℕ) (served : Option ℕ)
  | cudaMalloc (bytes : ℕ) (served : Option ℕ)
  | cuMemFree (ptr : ℕ) (freed : Bool)
  | cudaFree (ptr : ℕ) (freed : Bool)
  | setVirtualMem (mb : ℤ)
  deriving DecidableEq

/-- What the driver may answer: an address that is not null and not in use. -/
def Fresh (s : State) (served : Option ℕ) : Prop :=
  ∀ ptr ∈ served, ptr ≠ 0 ∧ s.live.get? ptr = none

instance (s : State) (served : Option ℕ) : Decidable (Fresh s served) := by
  dsimp only [Fresh]
  infer_instance

def allocCall (s : State) (bytes : ℕ) (served : Option ℕ) : Option State :=
  if bytes ≠ 0 ∧ bytes < 2 ^ 64 ∧ Fresh s served then some (allocHook s bytes served) else none

def freeCall (s : State) (ptr : ℕ) (freed : Bool) : Option State :=
  if (s.live.get? ptr).isSome then some (freeHook s ptr freed) else none

def next (s : State) : Operation → Option State
  | .cuMemAlloc bytes served => allocCall s bytes served
  | .cudaMalloc bytes served => allocCall s bytes served
  | .cuMemFree ptr freed => freeCall s ptr freed
  | .cudaFree ptr freed => freeCall s ptr freed
  | .setVirtualMem mb => if mb < 2 ^ 31 then some { s with virtualMemMb := mb } else none

abbrev VmemStep : State → Operation → State → Prop := Fires next

def liveBytes (s : State) : ℕ := s.live.total id

def initial (mb tenantUsed : ℤ) : State := { tenantUsedBytes := tenantUsed, virtualMemMb := mb }

structure Exact (tenantStart : ℤ) (s : State) : Prop where
  used_eq : s.memUsedBytes = liveBytes s
  tenant_eq : s.tenantUsedBytes = int64 (tenantStart + liveBytes s)

def OverQuota (s : State) (bytes : ℕ) : Prop :=
  0 < s.virtualMemMb ∧ s.virtualMemMb * 1024 * 1024 < liveBytes s + bytes

def Decided (s : State) : Operation → Prop
  | .cuMemAlloc bytes _ | .cudaMalloc bytes _ => vmemCheckAlloc s bytes = false ↔ OverQuota s bytes
  | _ => True

/-- A sum with the live bytes that int64_t holds, or under a quota one that wraps all the way
    round to more than the quota. -/
def InRange (s : State) (bytes : ℕ) (served : Option ℕ) : Prop :=
  if 0 < s.virtualMemMb then
    liveBytes s + bytes < 2 ^ 63 ∨
      2 ^ 64 + s.virtualMemMb * 1024 * 1024 < ((liveBytes s + bytes : ℕ) : ℤ)
  else served ≠ none → liveBytes s + bytes < 2 ^ 63

def Stored (s : State) (ptr : ℕ) : Prop := ∃ e ∈ s.allocTable, e.ptr = ptr

/-- The driver frees what has an entry and nothing else. -/
def Accounted (s : State) : Operation → Prop
  | .cuMemAlloc bytes served => InRange s bytes served
  | .cudaMalloc bytes served => InRange s bytes served
  | .cuMemFree ptr freed => Stored s ptr ↔ freed = true
  | .cudaFree ptr freed => Stored s ptr ↔ freed = true
  | .setVirtualMem _ => True

instance (s : State) (bytes : ℕ) (served : Option ℕ) : Decidable (InRange s bytes served) := by
  dsimp only [InRange]
  infer_instance

instance (s : State) (ptr : ℕ) : Decidable (Stored s ptr) := by
  dsimp only [Stored]
  infer_instance

instance (s : State) (o : Operation) : Decidable (Accounted s o) := by
  induction o using Operation.casesOn <;> dsimp only [Accounted] <;> infer_instance

/- The table: no address twice, and filling or clearing an entry touches nothing else. -/

def Distinct (table : List Entry) : Prop := table.Pairwise fun d e => d.ptr ≠ 0 → d.ptr ≠ e.ptr

theorem fillHole_mem {e : Entry} {table filled : List Entry} (h : fillHole e table = some filled) :
    ∀ d ∈ filled, d = e ∨ d ∈ table := by
  induction table generalizing filled with
  | nil => cases h
  | cons d rest ih =>
    simp only [fillHole] at h
    split at h
    · cases h
      intro c member
      rcases List.mem_cons.mp member with here | later
      · exact .inl here
      · exact .inr (List.mem_cons_of_mem _ later)
    · obtain ⟨tail, filledTail, rfl⟩ := Option.map_eq_some_iff.mp h
      intro c member
      rcases List.mem_cons.mp member with here | later
      · exact .inr (here ▸ List.mem_cons_self)
      · rcases ih filledTail c later with new | old
        · exact .inl new
        · exact .inr (List.mem_cons_of_mem _ old)

theorem fillHole_distinct {e : Entry} {table filled : List Entry} (distinct : Distinct table)
    (absent : ∀ d ∈ table, d.ptr ≠ e.ptr) (h : fillHole e table = some filled) :
    Distinct filled := by
  induction table generalizing filled with
  | nil => cases h
  | cons d rest ih =>
    obtain ⟨head, tail⟩ := List.pairwise_cons.mp distinct
    have absentTail : ∀ c ∈ rest, c.ptr ≠ e.ptr := by
      intro c member
      exact absent c (List.mem_cons_of_mem _ member)
    simp only [fillHole] at h
    split at h
    · cases h
      refine List.pairwise_cons.mpr ⟨?_, tail⟩
      intro c member _ same
      exact absentTail c member same.symm
    · obtain ⟨filledTail, filledEq, rfl⟩ := Option.map_eq_some_iff.mp h
      refine List.pairwise_cons.mpr ⟨?_, ih tail absentTail filledEq⟩
      intro c member nonnull
      rcases fillHole_mem filledEq c member with rfl | old
      · exact absent d List.mem_cons_self
      · exact head c old nonnull

theorem storeEntry_mem {e : Entry} {table : List Entry} :
    ∀ d ∈ storeEntry e table, d = e ∨ d ∈ table := by
  intro d member
  unfold storeEntry at member
  split at member
  · rename_i filled hole
    exact fillHole_mem hole d member
  · split at member
    · rcases List.mem_append.mp member with old | new
      · exact .inr old
      · exact .inl (List.mem_singleton.mp new)
    · exact .inr member

theorem storeEntry_distinct {e : Entry} {table : List Entry} (distinct : Distinct table)
    (absent : ∀ d ∈ table, d.ptr ≠ e.ptr) : Distinct (storeEntry e table) := by
  unfold storeEntry
  split
  · rename_i filled hole
    exact fillHole_distinct distinct absent hole
  · split
    · refine List.pairwise_append.mpr ⟨distinct, List.pairwise_singleton _ _, ?_⟩
      intro d member c new _
      rw [List.mem_singleton.mp new]
      exact absent d member
    · exact distinct

theorem clearEntry_none {ptr : ℕ} {table : List Entry} (h : clearEntry ptr table = none) :
    ∀ d ∈ table, d.ptr ≠ ptr := by
  induction table with
  | nil => simp
  | cons d rest ih =>
    simp only [clearEntry] at h
    split at h
    · cases h
    · rename_i other
      intro c member
      rcases List.mem_cons.mp member with rfl | later
      · exact other
      · exact ih (Option.map_eq_none_iff.mp h) c later

theorem clearEntry_some {ptr : ℕ} {table left : List Entry} {sz : ℤ}
    (h : clearEntry ptr table = some (sz, left)) :
    (∃ e ∈ table, e.ptr = ptr ∧ e.size = sz) ∧ ∀ d ∈ left, d.ptr = 0 ∨ d ∈ table := by
  induction table generalizing left with
  | nil => cases h
  | cons d rest ih =>
    simp only [clearEntry] at h
    split at h
    · rename_i here
      cases h
      refine ⟨⟨d, List.mem_cons_self, here, rfl⟩, ?_⟩
      intro c member
      rcases List.mem_cons.mp member with rfl | later
      · exact .inl rfl
      · exact .inr (List.mem_cons_of_mem _ later)
    · obtain ⟨⟨sz', tail⟩, found, eq⟩ := Option.map_eq_some_iff.mp h
      cases eq
      obtain ⟨⟨e, member, at_ptr, size_eq⟩, kept⟩ := ih found
      refine ⟨⟨e, List.mem_cons_of_mem _ member, at_ptr, size_eq⟩, ?_⟩
      intro c inLeft
      rcases List.mem_cons.mp inLeft with rfl | later
      · exact .inr List.mem_cons_self
      · rcases kept c later with hole | old
        · exact .inl hole
        · exact .inr (List.mem_cons_of_mem _ old)

theorem clearEntry_distinct {ptr : ℕ} {table left : List Entry} {sz : ℤ} (nonnull : ptr ≠ 0)
    (distinct : Distinct table) (h : clearEntry ptr table = some (sz, left)) :
    Distinct left ∧ ∀ d ∈ left, d.ptr ≠ ptr := by
  induction table generalizing left with
  | nil => cases h
  | cons d rest ih =>
    obtain ⟨head, tail⟩ := List.pairwise_cons.mp distinct
    simp only [clearEntry] at h
    split at h
    · rename_i here
      cases h
      constructor
      · exact List.pairwise_cons.mpr ⟨fun c _ hole => absurd rfl hole, tail⟩
      · intro c member
        rcases List.mem_cons.mp member with rfl | later
        · exact nonnull.symm
        · rw [← here]
          exact (head c later (here ▸ nonnull)).symm
    · rename_i other
      obtain ⟨⟨sz', left'⟩, found, eq⟩ := Option.map_eq_some_iff.mp h
      cases eq
      obtain ⟨distinct', gone⟩ := ih tail found
      constructor
      · refine List.pairwise_cons.mpr ⟨?_, distinct'⟩
        intro c member isPtr
        rcases (clearEntry_some found).2 c member with hole | old
        · rw [hole]
          exact isPtr
        · exact head c old isPtr
      · intro c member
        rcases List.mem_cons.mp member with rfl | later
        · exact other
        · exact gone c later

/-- What holds whatever the counters say: an entry is that of a live allocation. -/
structure Tabled (s : State) : Prop where
  distinct : Distinct s.allocTable
  entry_live : ∀ e ∈ s.allocTable, e.ptr ≠ 0 →
    ∃ n, s.live.get? e.ptr = some n ∧ e.size = int64 n
  live_size : ∀ ptr n, s.live.get? ptr = some n → ptr ≠ 0 ∧ n ≠ 0
  used_lt : s.memUsedBytes < 2 ^ 63
  quota_lt : s.virtualMemMb < 2 ^ 31

/-- Under a quota, exact counters decide every request whose sum is in range, and no other. -/
theorem decided_iff {tenantStart : ℤ} {s : State} {bytes : ℕ} (tabled : Tabled s)
    (exactly : Exact tenantStart s) (word : bytes < 2 ^ 64) (limited : 0 < s.virtualMemMb) :
    (vmemCheckAlloc s bytes = false ↔ OverQuota s bytes) ↔ InRange s bytes none := by
  have quota_lt := tabled.quota_lt
  have used_lt := tabled.used_lt
  have used_eq := exactly.used_eq
  have sum : int64 (s.memUsedBytes + int64 bytes) = int64 (liveBytes s + bytes) := by
    rw [used_eq, add_comm, int64_add, add_comm]
  have passes_iff : vmemCheckAlloc s bytes = true ↔
      int64 (liveBytes s + bytes) ≤ s.virtualMemMb * 1024 * 1024 := by
    have quota : s.virtualMemMb * 1024 * 1024 ≠ int64Max := by
      unfold int64Max
      omega
    simp [vmemCheckAlloc, sum, quotaBytes, limited, quota]
  have range_iff : InRange s bytes none ↔ liveBytes s + bytes < 2 ^ 63 ∨
      2 ^ 64 + s.virtualMemMb * 1024 * 1024 < ((liveBytes s + bytes : ℕ) : ℤ) := by
    rw [InRange, if_pos limited]
  rw [← Bool.not_eq_true, passes_iff, range_iff, OverQuota, and_iff_right limited]
  clear passes_iff range_iff sum
  unfold int64
  omega

theorem decided_unlimited {s : State} {bytes : ℕ} (unlimited : ¬ 0 < s.virtualMemMb) :
    vmemCheckAlloc s bytes = false ↔ OverQuota s bytes := by
  simp [vmemCheckAlloc, quotaBytes, OverQuota, unlimited]

theorem liveBytes_insert {s t : State} {ptr bytes : ℕ} (absent : s.live.get? ptr = none)
    (inserted : t.live = s.live.insert ptr bytes) : liveBytes t = liveBytes s + bytes := by
  have sum := s.live.total_insert ptr bytes id
  simpa [absent, liveBytes, inserted] using sum

theorem liveBytes_pop {s t : State} {ptr n : ℕ} (present : s.live.get? ptr = some n)
    (removed : t.live = s.live.pop ptr) : liveBytes t + n = liveBytes s := by
  have sum := s.live.total_pop ptr id
  simpa [present, liveBytes, removed] using sum

theorem allocCall_cases {s t : State} {bytes : ℕ} {served : Option ℕ}
    (h : allocCall s bytes served = some t) :
    bytes ≠ 0 ∧ bytes < 2 ^ 64 ∧
      ((vmemCheckAlloc s bytes = false ∨ served = none) ∧ t = s ∨
        vmemCheckAlloc s bytes = true ∧ ∃ ptr, served = some ptr ∧ ptr ≠ 0 ∧
          s.live.get? ptr = none ∧
          t = { s with
            live := s.live.insert ptr bytes
            allocTable := storeEntry ⟨ptr, int64 bytes⟩ s.allocTable
            memUsedBytes := int64 (s.memUsedBytes + int64 bytes)
            tenantUsedBytes := int64 (s.tenantUsedBytes + int64 bytes) }) := by
  unfold allocCall at h
  split at h
  · rename_i legal
    obtain ⟨nonzero, word, answer⟩ := legal
    refine ⟨nonzero, word, ?_⟩
    have result := (Option.some.inj h).symm
    unfold allocHook at result
    split at result
    · rename_i passed
      cases served with
      | none => exact .inl ⟨.inr rfl, result⟩
      | some ptr =>
        obtain ⟨nonnull, absent⟩ := answer ptr rfl
        simp only [vmemTrackAlloc, nonnull, nonzero, or_self, ↓reduceIte] at result
        exact .inr ⟨passed, ptr, rfl, nonnull, absent, result⟩
    · rename_i refused
      exact .inl ⟨.inl (Bool.eq_false_iff.mpr refused), result⟩
  · cases h

theorem freeCall_cases {s t : State} {ptr : ℕ} {freed : Bool} (tabled : Tabled s)
    (h : freeCall s ptr freed = some t) :
    ∃ n, s.live.get? ptr = some n ∧ ptr ≠ 0 ∧ n ≠ 0 ∧
      (¬ Stored s ptr ∧ t = { s with live := if freed then s.live.pop ptr else s.live } ∨
        Stored s ptr ∧ ∃ left, clearEntry ptr s.allocTable = some (int64 n, left) ∧
          t = { s with
            live := if freed then s.live.pop ptr else s.live
            allocTable := left
            memUsedBytes := int64 (s.memUsedBytes - int64 n)
            tenantUsedBytes := int64 (s.tenantUsedBytes - int64 n) }) := by
  unfold freeCall at h
  split at h
  · rename_i isLive
    obtain ⟨n, present⟩ := Option.isSome_iff_exists.mp isLive
    obtain ⟨nonnull, nonzero⟩ := tabled.live_size ptr n present
    refine ⟨n, present, nonnull, nonzero, ?_⟩
    have result := (Option.some.inj h).symm
    simp only [freeHook, vmemTrackFree, nonnull, ↓reduceIte] at result
    cases found : clearEntry ptr s.allocTable with
    | none =>
      simp only [found] at result
      refine .inl ⟨?_, result⟩
      rintro ⟨e, member, at_ptr⟩
      exact clearEntry_none found e member at_ptr
    | some pair =>
      obtain ⟨sz, left⟩ := pair
      simp only [found] at result
      obtain ⟨e, member, at_ptr, size_eq⟩ := (clearEntry_some found).1
      obtain ⟨m, there, stored_size⟩ := tabled.entry_live e member (at_ptr ▸ nonnull)
      rw [at_ptr, present] at there
      cases there
      rw [← size_eq, stored_size] at result
      refine .inr ⟨⟨e, member, at_ptr⟩, left, ?_, result⟩
      rw [← stored_size, size_eq]
  · cases h

theorem tabled_allocCall {s t : State} {bytes : ℕ} {served : Option ℕ} (tabled : Tabled s)
    (h : allocCall s bytes served = some t) : Tabled t := by
  obtain ⟨nonzero, _, ⟨_, rfl⟩ | ⟨_, ptr, _, nonnull, absent, rfl⟩⟩ := allocCall_cases h
  · exact tabled
  have elsewhere : ∀ d ∈ s.allocTable, d.ptr ≠ ptr := by
    intro d member same
    obtain ⟨n, present, _⟩ := tabled.entry_live d member (same ▸ nonnull)
    rw [same, absent] at present
    cases present
  constructor
  · exact storeEntry_distinct tabled.distinct elsewhere
  · intro e member isPtr
    rcases storeEntry_mem e member with rfl | old
    · exact ⟨bytes, by simp [Dict.get?_insert], rfl⟩
    · obtain ⟨n, present, size_eq⟩ := tabled.entry_live e old isPtr
      refine ⟨n, ?_, size_eq⟩
      simpa [Dict.get?_insert, elsewhere e old] using present
  · intro p n present
    rw [Dict.get?_insert] at present
    split at present
    · rename_i same
      cases present
      exact ⟨same ▸ nonnull, nonzero⟩
    · exact tabled.live_size p n present
  · exact int64_upper _
  · exact tabled.quota_lt

theorem tabled_freeCall {s t : State} {ptr : ℕ} {freed : Bool} (tabled : Tabled s)
    (h : freeCall s ptr freed = some t) : Tabled t := by
  have lives : ∀ p n, (if freed then s.live.pop ptr else s.live).get? p = some n →
      p ≠ 0 ∧ n ≠ 0 := by
    intro p n present
    split at present
    · rw [Dict.get?_pop] at present
      split at present
      · cases present
      · exact tabled.live_size p n present
    · exact tabled.live_size p n present
  have stays : ∀ e ∈ s.allocTable, e.ptr ≠ 0 → e.ptr ≠ ptr →
      ∃ n, (if freed then s.live.pop ptr else s.live).get? e.ptr = some n ∧ e.size = int64 n := by
    intro e member isPtr other
    obtain ⟨n, present, size_eq⟩ := tabled.entry_live e member isPtr
    refine ⟨n, ?_, size_eq⟩
    split
    · simpa [Dict.get?_pop, other] using present
    · exact present
  obtain ⟨n, _, nonnull, _, ⟨missing, rfl⟩ | ⟨_, left, found, rfl⟩⟩ := freeCall_cases tabled h
  · refine ⟨tabled.distinct, ?_, lives, tabled.used_lt, tabled.quota_lt⟩
    intro e member isPtr
    exact stays e member isPtr fun same => missing ⟨e, member, same⟩
  · obtain ⟨distinct, gone⟩ := clearEntry_distinct nonnull tabled.distinct found
    refine ⟨distinct, ?_, lives, int64_upper _, tabled.quota_lt⟩
    intro e member isPtr
    rcases (clearEntry_some found).2 e member with hole | old
    · exact absurd hole isPtr
    · exact stays e old isPtr (gone e member)

theorem served_exact_iff {tenantStart : ℤ} {s t : State} {ptr bytes : ℕ} (after : Tabled t)
    (exactly : Exact tenantStart s) (absent : s.live.get? ptr = none)
    (result : t = { s with
      live := s.live.insert ptr bytes
      allocTable := storeEntry ⟨ptr, int64 bytes⟩ s.allocTable
      memUsedBytes := int64 (s.memUsedBytes + int64 bytes)
      tenantUsedBytes := int64 (s.tenantUsedBytes + int64 bytes) }) :
    liveBytes s + bytes < 2 ^ 63 ↔ Exact tenantStart t := by
  have grown : liveBytes t = liveBytes s + bytes := liveBytes_insert absent (by rw [result])
  have used : t.memUsedBytes = int64 (liveBytes s + int64 bytes) := by
    rw [result, ← exactly.used_eq]
  have tenant : t.tenantUsedBytes = int64 (tenantStart + liveBytes s + int64 bytes) := by
    rw [← int64_add, ← exactly.tenant_eq, result]
  constructor
  · intro small
    have word := int64_of_range (x := (bytes : ℤ)) (by omega) (by omega)
    constructor
    · rw [used, word, int64_of_range (by omega) (by omega), grown]
      push_cast
      rfl
    · rw [tenant, word, grown]
      push_cast
      rw [add_assoc]
  · intro exactly'
    have upper := after.used_lt
    rw [exactly'.used_eq, grown] at upper
    omega

theorem exact_allocCall_iff {tenantStart : ℤ} {s t : State} {bytes : ℕ} {served : Option ℕ}
    (tabled : Tabled s) (exactly : Exact tenantStart s) (h : allocCall s bytes served = some t) :
    InRange s bytes served ↔
      (vmemCheckAlloc s bytes = false ↔ OverQuota s bytes) ∧ Exact tenantStart t := by
  have after := tabled_allocCall tabled h
  obtain ⟨_, word, outcome⟩ := allocCall_cases h
  by_cases limited : 0 < s.virtualMemMb
  · have decided := decided_iff tabled exactly word limited
    have range : InRange s bytes served ↔ InRange s bytes none := by
      simp only [InRange, if_pos limited]
    rw [range, ← decided, iff_self_and]
    intro decides
    rcases outcome with ⟨_, rfl⟩ | ⟨passed, ptr, rfl, _, absent, result⟩
    · exact exactly
    · -- what passes is within the quota, so far below the end of the word
      have within : ¬ OverQuota s bytes := by
        rw [← decides, passed]
        simp
      have quota_lt := tabled.quota_lt
      have used_lt := tabled.used_lt
      refine (served_exact_iff after exactly absent result).mp ?_
      simp only [OverQuota, limited, true_and, not_lt] at within
      omega
  · have decides : vmemCheckAlloc s bytes = false ↔ OverQuota s bytes :=
      decided_unlimited limited
    rw [and_iff_right decides]
    simp only [InRange, if_neg limited]
    rcases outcome with ⟨unserved, rfl⟩ | ⟨_, ptr, rfl, _, absent, result⟩
    · apply iff_of_true _ exactly
      intro isServed
      rcases unserved with refused | unserved
      · exact absurd (decides.mp refused).1 limited
      · exact absurd unserved isServed
    · rw [← served_exact_iff after exactly absent result]
      simp

theorem exact_freeCall_iff {tenantStart : ℤ} {s t : State} {ptr : ℕ} {freed : Bool}
    (tabled : Tabled s) (exactly : Exact tenantStart s) (h : freeCall s ptr freed = some t) :
    (Stored s ptr ↔ freed = true) ↔ Exact tenantStart t := by
  have used_lt := tabled.used_lt
  rw [exactly.used_eq] at used_lt
  obtain ⟨n, present, _, nonzero, ⟨missing, result⟩ | ⟨stored, left, _, result⟩⟩ :=
    freeCall_cases tabled h
  · -- the counters stay, so the driver must have kept the block
    have used : t.memUsedBytes = s.memUsedBytes := by rw [result]
    cases freed with
    | false =>
      have same : liveBytes t = liveBytes s := by rw [result]; rfl
      apply iff_of_true (iff_of_false missing (by simp))
      exact ⟨by rw [used, same, exactly.used_eq], by rw [result]; exact exactly.tenant_eq⟩
    | true =>
      have shrunk : liveBytes t + n = liveBytes s := liveBytes_pop present (by rw [result]; rfl)
      apply iff_of_false
      · intro accounted
        exact missing (accounted.mpr rfl)
      · intro exactly'
        rw [exactly'.used_eq, exactly.used_eq] at used
        omega
  · have bound : n ≤ liveBytes s := by
      have removed := s.live.total_pop ptr id
      rw [present] at removed
      simp only [Option.map_some, Option.getD_some, id_eq] at removed
      unfold liveBytes
      omega
    have word := int64_of_range (x := (n : ℤ)) (by omega) (by omega)
    have used : t.memUsedBytes = (liveBytes s : ℤ) - n := by
      have stored_as : t.memUsedBytes = int64 (liveBytes s - int64 n) := by
        rw [result, ← exactly.used_eq]
      rw [stored_as, word, int64_of_range (by omega) (by omega)]
    cases freed with
    | false =>
      have same : liveBytes t = liveBytes s := by rw [result]; rfl
      apply iff_of_false
      · intro accounted
        exact absurd (accounted.mp stored) (by simp)
      · intro exactly'
        have counted := exactly'.used_eq
        rw [used, same] at counted
        omega
    | true =>
      have shrunk : liveBytes t + n = liveBytes s := liveBytes_pop present (by rw [result]; rfl)
      have tenant : t.tenantUsedBytes = int64 (tenantStart + liveBytes s + -int64 n) := by
        rw [← int64_add, ← exactly.tenant_eq, ← sub_eq_add_neg, result]
      apply iff_of_true (iff_of_true stored rfl)
      constructor
      · rw [used]
        omega
      · rw [tenant, word, ← shrunk]
        push_cast
        ring_nf

theorem tabled_step (s : State) (o : Operation) (t : State) (tabled : Tabled s)
    (step : VmemStep s o t) : Tabled t := by
  cases o with
  | cuMemAlloc bytes served => exact tabled_allocCall tabled step
  | cudaMalloc bytes served => exact tabled_allocCall tabled step
  | cuMemFree ptr freed => exact tabled_freeCall tabled step
  | cudaFree ptr freed => exact tabled_freeCall tabled step
  | setVirtualMem mb =>
    simp only [Fires, next] at step
    split at step
    · rename_i small
      cases step
      exact { tabled with quota_lt := small }
    · cases step

theorem exact_step_iff {tenantStart : ℤ} (s : State) (o : Operation) (t : State)
    (tabled : Tabled s) (exactly : Exact tenantStart s) (step : VmemStep s o t) :
    Accounted s o ↔ Decided s o ∧ Exact tenantStart t := by
  cases o with
  | cuMemAlloc bytes served => exact exact_allocCall_iff tabled exactly step
  | cudaMalloc bytes served => exact exact_allocCall_iff tabled exactly step
  | cuMemFree ptr freed => exact (exact_freeCall_iff tabled exactly step).trans (true_and _).symm.to_iff
  | cudaFree ptr freed => exact (exact_freeCall_iff tabled exactly step).trans (true_and _).symm.to_iff
  | setVirtualMem mb =>
    simp only [Fires, next] at step
    split at step
    · cases step
      exact iff_of_true trivial ⟨trivial, exactly.used_eq, exactly.tenant_eq⟩
    · cases step

theorem initial_tabled {mb tenantUsed : ℤ} (int32 : mb < 2 ^ 31) : Tabled (initial mb tenantUsed) :=
  ⟨List.Pairwise.nil, by simp [initial], by simp [initial], by simp [initial], int32⟩

theorem initial_exact {mb tenantUsed : ℤ}
    (word : int64 tenantUsed = tenantUsed) : Exact tenantUsed (initial mb tenantUsed) := by
  constructor
  · simp [initial, liveBytes]
  · simp [initial, liveBytes, word]

/-- The accounting is exact in every state of a run, and every allocation is refused exactly
    where it would exceed the quota, exactly when each request is in range and the driver
    frees what is in the table. -/
theorem accounting_exact_iff {mb tenantUsed : ℤ} (int32 : mb < 2 ^ 31)
    (word : int64 tenantUsed = tenantUsed) {operations : List Operation} {t : State}
    (run : Run VmemStep (initial mb tenantUsed) operations t) :
    Run (Guarded Accounted VmemStep) (initial mb tenantUsed) operations t ↔
      (∀ before after u, operations = before ++ after →
        Run VmemStep (initial mb tenantUsed) before u → Exact tenantUsed u) ∧
      ∀ before o after u, operations = before ++ o :: after →
        Run VmemStep (initial mb tenantUsed) before u → Decided u o :=
  run_guarded_answers_iff (fires_deterministic next) tabled_step exact_step_iff run
    (initial_tabled int32) (initial_exact word)

def reusedSlot : List Operation :=
  [.cudaMalloc 1000 (some 8), .cuMemAlloc 2000 (some 16), .cuMemFree 8 true,
    .cudaMalloc 500 (some 24), .cudaMalloc 1048576 (some 32)]

theorem reused_slot_exact :
    ∃ t, Run VmemStep (initial 1 5) reusedSlot t ∧ Exact 5 t ∧ liveBytes t = 2500 := by
  obtain ⟨t, guarded, checked⟩ := guarded_run_reaches Accounted
    (fun t : State => decide (liveBytes t = 2500))
    (show (exec (guarding Accounted next) (initial 1 5) reusedSlot).any _ = true by decide +kernel)
  have run := run_mono (fun _ _ _ => And.right) guarded
  have always := (accounting_exact_iff (by decide) (by decide) run).mp guarded
  exact ⟨t, run, always.1 _ [] t (by simp) run, of_decide_eq_true checked⟩

/- The table-full boundary: one-byte allocations at the addresses 1, 2, 3, ... -/

def ascending (n : ℕ) : List Operation := (List.range n).map fun i => .cudaMalloc 1 (some (i + 1))

structure Filled (n : ℕ) (s : State) : Prop where
  table_eq : s.allocTable.map Entry.ptr = (List.range (min n maxAllocEntries)).map (· + 1)
  live_iff : ∀ ptr, s.live.get? ptr = if 1 ≤ ptr ∧ ptr ≤ n then some 1 else none
  bytes_eq : liveBytes s = n
  unlimited : s.virtualMemMb = 0
  tabled : Tabled s
  exactly : Exact 0 s

theorem fillHole_full {table : List Entry} (full : ∀ d ∈ table, d.ptr ≠ 0) (e : Entry) :
    fillHole e table = none := by
  induction table with
  | nil => rfl
  | cons d rest ih =>
    have here := full d List.mem_cons_self
    have later := ih fun c member => full c (List.mem_cons_of_mem _ member)
    simp [fillHole, here, later]

theorem filled_table {n : ℕ} {s : State} (filled : Filled n s) :
    s.allocTable.length = min n maxAllocEntries ∧
      ∀ d ∈ s.allocTable, 1 ≤ d.ptr ∧ d.ptr ≤ maxAllocEntries := by
  have table_eq := filled.table_eq
  constructor
  · have lengths := congrArg List.length table_eq
    simpa using lengths
  · intro d member
    have inMap := List.mem_map_of_mem (f := Entry.ptr) member
    rw [table_eq] at inMap
    obtain ⟨i, inRange, eq⟩ := List.mem_map.mp inMap
    have small := List.mem_range.mp inRange
    omega

theorem filled_storeEntry {n : ℕ} {s : State} (filled : Filled n s) (size : ℤ) :
    (storeEntry ⟨n + 1, size⟩ s.allocTable).map Entry.ptr =
      (List.range (min (n + 1) maxAllocEntries)).map (· + 1) := by
  obtain ⟨length_eq, ptrs⟩ := filled_table filled
  have noHole := fillHole_full (fun d member => Nat.ne_of_gt (ptrs d member).1) ⟨n + 1, size⟩
  simp only [storeEntry, noHole, length_eq]
  split
  · rename_i room
    have here : min n maxAllocEntries = n := by omega
    have more : min (n + 1) maxAllocEntries = n + 1 := by omega
    rw [List.map_append, filled.table_eq, here, more, List.range_succ]
    simp
  · rename_i full
    have same : min (n + 1) maxAllocEntries = min n maxAllocEntries := by omega
    rw [filled.table_eq, same]

theorem filled_next {n : ℕ} {s : State} (small : n + 1 < 2 ^ 63) (filled : Filled n s) :
    ∃ t, VmemStep s (.cudaMalloc 1 (some (n + 1))) t ∧ Filled (n + 1) t := by
  have passed : vmemCheckAlloc s 1 = true := by
    simp [vmemCheckAlloc, quotaBytes, filled.unlimited]
  have absent : s.live.get? (n + 1) = none := by simp [filled.live_iff]
  have answer : Fresh s (some (n + 1)) := by
    intro ptr member
    cases member
    exact ⟨by omega, absent⟩
  have step : VmemStep s (.cudaMalloc 1 (some (n + 1))) (allocHook s 1 (some (n + 1))) := by
    simp [Fires, next, allocCall, answer]
  have inRange : InRange s 1 (some (n + 1)) := by
    simp only [InRange, filled.unlimited, lt_irrefl, if_false]
    intro _
    rw [filled.bytes_eq]
    exact small
  have tabled := tabled_step _ _ _ filled.tabled step
  have exactly := ((exact_step_iff _ _ _ filled.tabled filled.exactly step).mp inRange).2
  refine ⟨_, step, ?_⟩
  have result : allocHook s 1 (some (n + 1)) =
      { s with
        live := s.live.insert (n + 1) 1
        allocTable := storeEntry ⟨n + 1, int64 (1 : ℕ)⟩ s.allocTable
        memUsedBytes := int64 (s.memUsedBytes + int64 (1 : ℕ))
        tenantUsedBytes := int64 (s.tenantUsedBytes + int64 (1 : ℕ)) } := by
    simp [allocHook, passed, vmemTrackAlloc]
  rw [result] at tabled exactly ⊢
  refine ⟨filled_storeEntry filled _, ?_, ?_, filled.unlimited, tabled, exactly⟩
  · intro ptr
    rw [Dict.get?_insert, filled.live_iff]
    split_ifs <;> first | rfl | omega
  · rw [liveBytes_insert absent rfl, filled.bytes_eq]

theorem ascending_fills (n : ℕ) (small : n < 2 ^ 63) :
    ∃ s, Run VmemStep (initial 0 0) (ascending n) s ∧ Filled n s := by
  induction n with
  | zero =>
    refine ⟨initial 0 0, .nil _, ?_⟩
    refine ⟨by simp [initial], ?_, by simp [initial, liveBytes], rfl,
      initial_tabled (by decide), initial_exact (by decide)⟩
    intro ptr
    rw [if_neg (by omega)]
    simp [initial]
  | succ n ih =>
    obtain ⟨s, run, filled⟩ := ih (by omega)
    obtain ⟨t, step, more⟩ := filled_next small filled
    refine ⟨t, ?_, more⟩
    have extended := run_append run (run_single step)
    simpa [ascending, List.range_succ] using extended

/-- 4097 allocations alive at once, then the last one freed: its byte stays counted. -/
theorem table_overflows :
    ∃ t, Run VmemStep (initial 0 0) (ascending 4097 ++ [.cudaFree 4097 true]) t ∧
      t.memUsedBytes = 4097 ∧ liveBytes t = 4096 := by
  obtain ⟨s, run, filled⟩ := ascending_fills 4097 (by decide)
  have missing : ¬ Stored s 4097 := by
    rintro ⟨e, member, at_ptr⟩
    have upper := ((filled_table filled).2 e member).2
    rw [at_ptr, maxAllocEntries] at upper
    omega
  have present : s.live.get? 4097 = some 1 := by simp [filled.live_iff]
  have step : VmemStep s (.cudaFree 4097 true) (freeHook s 4097 true) := by
    simp [Fires, next, freeCall, present]
  obtain ⟨n, _, _, _, ⟨_, result⟩ | ⟨stored, _⟩⟩ := freeCall_cases filled.tabled step
  · refine ⟨_, run_append run (run_single step), ?_, ?_⟩
    · have used : (freeHook s 4097 true).memUsedBytes = s.memUsedBytes := by rw [result]
      rw [used, filled.exactly.used_eq, filled.bytes_eq]
      rfl
    · have shrunk : liveBytes (freeHook s 4097 true) + 1 = liveBytes s :=
        liveBytes_pop present (by rw [result]; rfl)
      rw [filled.bytes_eq] at shrunk
      omega
  · exact absurd stored missing

/-- The full table leaks a byte, a refused free loses its bytes, and under a quota of 1 MB a
    request of 2^63 bytes is let through to the driver. -/
theorem full_table_leaks :
    (∃ t, Run VmemStep (initial 0 0) (ascending 4097 ++ [.cudaFree 4097 true]) t ∧
      t.memUsedBytes = 4097 ∧ liveBytes t = 4096 ∧ ¬ Exact 0 t) ∧
    (∃ t, Run VmemStep (initial 0 0) [.cudaMalloc 60 (some 8), .cudaFree 8 false] t ∧
      t.memUsedBytes = 0 ∧ liveBytes t = 60 ∧ ¬ Exact 0 t) ∧
    vmemCheckAlloc (initial 1 0) (2 ^ 63) = true ∧ OverQuota (initial 1 0) (2 ^ 63) ∧
    ¬ Decided (initial 1 0) (.cudaMalloc (2 ^ 63) none) := by
  have apart : ∀ t : State, t.memUsedBytes ≠ liveBytes t → ¬ Exact 0 t :=
    fun t differ exactly => differ exactly.used_eq
  refine ⟨?_, ?_, ?_⟩
  · obtain ⟨t, run, used, live⟩ := table_overflows
    exact ⟨t, run, used, live, apart t (by rw [used, live]; decide)⟩
  · obtain ⟨t, run, reached⟩ := run_reaches
      (fun t : State => decide (t.memUsedBytes = 0 ∧ liveBytes t = 60))
      (show (exec next (initial 0 0) [.cudaMalloc 60 (some 8), .cudaFree 8 false]).any _ = true by
        decide +kernel)
    obtain ⟨used, live⟩ := of_decide_eq_true reached
    exact ⟨t, run, used, live, apart t (by rw [used, live]; decide)⟩
  · have passes : vmemCheckAlloc (initial 1 0) (2 ^ 63) = true := by decide +kernel
    have beyond : OverQuota (initial 1 0) (2 ^ 63) := by
      simp [OverQuota, initial, liveBytes]
    refine ⟨passes, beyond, ?_⟩
    intro decided
    have refused := decided.mpr beyond
    rw [passes] at refused
    cases refused

end VirtualMem
