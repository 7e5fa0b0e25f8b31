import KrakenRuntime.Lib.CText
import KrakenRuntime.Lib.Int64
import KrakenRuntime.Lib.Runs
import Mathlib.Data.List.GetD
import Mathlib.Logic.Function.Basic
import Mathlib.Logic.Relation

/- The registration of a process in the shared segment of its group (shm_client.cpp), with
   the copy of KRAKEN_TENANT in kraken_init and the exit in kraken_fini (cuda_hooks.cpp).
   krakenShmOpen is the call as a whole. tick is the same call one access at a time, so that
   the calls of several processes can be interleaved; a process that is left alone computes
   the call. A process without KRAKEN_TENANT never comes here. -/
namespace ShmClient
open CText Int32Word Runs

def nul : Char := Char.ofNat 0

/-- What kraken_shm.h fixes: SHM_MAGIC, MAX_TENANTS and the size of a slot's id, which holds
    at least an id of KrakenRuntime. -/
structure Layout where
  shmMagic : ℕ
  maxTenants : ℕ
  idSize : ℕ
  holds : 16 ≤ idSize

def twoSlots : Layout := ⟨0, 2, 16, Nat.le_refl 16⟩

/-- alloc[i] with the active flag of tenants[i]. -/
structure Slot where
  tenantId : ℕ → Char := fun _ => nul
  virtualSm : ℤ := 0
  virtualMemMb : ℤ := 0
  mpsPct : ℤ := 0
  active : Bool := false

structure Segment where
  magic : ℕ
  physicalSmTotal : ℤ
  virtualSmTotal : ℤ := 0
  virtualMemTotalMb : ℤ := 0
  slots : ℕ → Slot := fun _ => {}

/-- The environment of a process, and whether shm_open and mmap succeed for it. -/
structure Env where
  tenant : List Char
  virtualSm : Option (List Char) := none
  virtualMemMb : Option (List Char) := none
  mapped : Bool := true

/-- The id that kraken_init copies to g_kraken, whose buffer has 16 bytes and starts zero. -/
def Env.tenantId (e : Env) : List Char := e.tenant.take (16 - 1)

/-- The values of KRAKEN_VIRTUAL_SM and KRAKEN_VIRTUAL_MEM_MB, if both are there and positive. -/
def Env.grant (e : Env) : Option (ℤ × ℤ) :=
  match e.virtualSm, e.virtualMemMb with
  | some sm, some mem =>
    if 0 < int32 (atoi sm) ∧ 0 < int32 (atoi mem) then some (int32 (atoi sm), int32 (atoi mem)) else none
  | _, _ => none

/-- Byte `j` of a string in a buffer that is zero behind it. -/
def charAt (text : List Char) (j : ℕ) : Char := text.getD j nul

def Segment.onSlot (seg : Segment) (i : ℕ) (f : Slot → Slot) : Segment :=
  { seg with slots := Function.update seg.slots i (f (seg.slots i)) }

def Segment.addTotals (seg : Segment) (vsm vmem : ℤ) : Segment :=
  { seg with
    virtualSmTotal := int32 (seg.virtualSmTotal + vsm)
    virtualMemTotalMb := int32 (seg.virtualMemTotalMb + vmem) }

def Slot.putChar (slot : Slot) (j : ℕ) (c : Char) : Slot :=
  { slot with tenantId := Function.update slot.tenantId j c }

/-- The product is taken exactly; C leaves it undefined where it does not fit an int. -/
def mpsPct (vsm phys : ℤ) : ℤ := if 0 < phys then int32 ((vsm * 100).tdiv phys) else 100

section Call
variable (L : Layout) (e : Env)

/-- strcmp(buf + j, text) == 0 -/
def sameText (buf : ℕ → Char) (j : ℕ) : List Char → Bool
  | [] => decide (buf j = nul)
  | c :: rest => decide (buf j = c) && sameText buf (j + 1) rest

def Slot.free (slot : Slot) : Bool := !slot.active && decide (slot.tenantId 0 = nul)

def searchTenant (seg : Segment) (i : ℕ) : ℕ → Option ℕ
  | 0 => none
  | left + 1 =>
    if sameText (seg.slots i).tenantId 0 e.tenantId then some i else searchTenant seg (i + 1) left

def searchFree (seg : Segment) (i : ℕ) : ℕ → Option ℕ
  | 0 => none
  | left + 1 => if (seg.slots i).free then some i else searchFree seg (i + 1) left

def searchSlot (seg : Segment) : Option ℕ :=
  match searchTenant e seg 0 L.maxTenants with
  | some i => some i
  | none => searchFree seg 0 L.maxTenants

def strncpy (text : List Char) (buf : ℕ → Char) (j : ℕ) : ℕ → ℕ → Char
  | 0 => buf
  | left + 1 => strncpy text (Function.update buf j (charAt text j)) (j + 1) left

def recordId (seg : Segment) (i : ℕ) : Segment :=
  seg.onSlot i fun slot => { slot with tenantId := strncpy e.tenantId slot.tenantId 0 (L.idSize - 1) }

def fillSlot (seg : Segment) (i : ℕ) : Segment :=
  if (seg.slots i).virtualSm = 0 then
    match e.grant with
    | some (vsm, vmem) =>
      let filled := seg.onSlot i fun slot => { slot with
        virtualSm := vsm, virtualMemMb := vmem, mpsPct := mpsPct vsm seg.physicalSmTotal }
      filled.addTotals vsm vmem
    | none => seg
  else seg

def setActive (active : Bool) (seg : Segment) (i : ℕ) : Segment :=
  seg.onSlot i fun slot => { slot with active }

/-- The segment afterwards and g_kraken.tenant_idx, if the process is attached. -/
def krakenShmOpen (seg : Segment) : Segment × Option ℕ :=
  if e.mapped && decide (seg.magic = L.shmMagic) then
    match searchSlot L e seg with
    | some i => (setActive true (fillSlot e (recordId L e seg i) i) i, some i)
    | none => (seg, none)
  else (seg, none)

end Call

def krakenFini (seg : Segment) (i : ℕ) : Segment := setActive false seg i

def resourceIsOvercommit (seg : Segment) : Bool := decide (seg.virtualSmTotal > seg.physicalSmTotal)

/-- Where a process is in the call: the access that it makes next. From `copy` on
    g_kraken.tenant_idx is set. -/
inductive Stage where
  | map
  | readMagic
  | compare (i j : ℕ)
  | loadActive (i : ℕ)
  | readFirst (i : ℕ)
  | copy (i j : ℕ)
  | readSm (i : ℕ)
  | putSm (i : ℕ)
  | putMem (i : ℕ)
  | readPhysical (i : ℕ)
  | putMps (i : ℕ) (phys : ℤ)
  | addSm (i : ℕ)
  | addMem (i : ℕ)
  | publish (i : ℕ)
  | registered (i : ℕ)
  | refused
  deriving DecidableEq

section Machine
variable (L : Layout) (e : Env)

/-- One access of a process. The values that it writes are its own: vsm and vmem. -/
def tick (seg : Segment) : Stage → Option (Segment × Stage)
  | .map => some (seg, if e.mapped then .readMagic else .refused)
  | .readMagic => some (seg, if seg.magic = L.shmMagic then .compare 0 0 else .refused)
  | .compare i j =>
    if i < L.maxTenants then
      let c := (seg.slots i).tenantId j
      if c ≠ charAt e.tenantId j then some (seg, .compare (i + 1) 0)
      else if c = nul then some (seg, .copy i 0)
      else some (seg, .compare i (j + 1))
    else some (seg, .loadActive 0)
  | .loadActive i =>
    if i < L.maxTenants then
      some (seg, if (seg.slots i).active then .loadActive (i + 1) else .readFirst i)
    else some (seg, .refused)
  | .readFirst i =>
    some (seg, if (seg.slots i).tenantId 0 = nul then .copy i 0 else .loadActive (i + 1))
  | .copy i j =>
    if j < L.idSize - 1 then
      some (seg.onSlot i fun slot => slot.putChar j (charAt e.tenantId j), .copy i (j + 1))
    else some (seg, .readSm i)
  | .readSm i =>
    some (seg, if (seg.slots i).virtualSm = 0 ∧ e.grant.isSome then .putSm i else .publish i)
  | .putSm i => e.grant.map fun g => (seg.onSlot i fun slot => { slot with virtualSm := g.1 }, .putMem i)
  | .putMem i =>
    e.grant.map fun g => (seg.onSlot i fun slot => { slot with virtualMemMb := g.2 }, .readPhysical i)
  | .readPhysical i => some (seg, .putMps i seg.physicalSmTotal)
  | .putMps i phys =>
    e.grant.map fun g => (seg.onSlot i fun slot => { slot with mpsPct := mpsPct g.1 phys }, .addSm i)
  | .addSm i =>
    e.grant.map fun g => ({ seg with virtualSmTotal := int32 (seg.virtualSmTotal + g.1) }, .addMem i)
  | .addMem i =>
    e.grant.map fun g => ({ seg with virtualMemTotalMb := int32 (seg.virtualMemTotalMb + g.2) }, .publish i)
  | .publish i => some (setActive true seg i, .registered i)
  | .registered _ => none
  | .refused => none

end Machine

section System
variable {ι : Type} [DecidableEq ι]

structure System (ι : Type) where
  seg : Segment
  stage : ι → Stage

/-- The label says which process makes its next access. -/
def next (L : Layout) (env : ι → Env) (s : System ι) (p : ι) : Option (System ι) :=
  (tick L (env p) s.seg (s.stage p)).map fun (seg, stage) =>
    { seg, stage := Function.update s.stage p stage }

abbrev OpenStep (L : Layout) (env : ι → Env) : System ι → ι → System ι → Prop := Fires (next L env)

end System

section Segments
variable (seg : Segment) (i : ℕ) (f g : Slot → Slot)

@[simp] theorem onSlot_self : (seg.onSlot i f).slots i = f (seg.slots i) := by
  simp [Segment.onSlot]

theorem onSlot_other {k : ℕ} (other : k ≠ i) : (seg.onSlot i f).slots k = seg.slots k := by
  simp [Segment.onSlot, other]

theorem onSlot_onSlot : (seg.onSlot i f).onSlot i g = seg.onSlot i fun slot => g (f slot) := by
  simp [Segment.onSlot]

theorem onSlot_id : (seg.onSlot i fun slot => slot) = seg := by
  simp [Segment.onSlot]

end Segments

theorem charAt_ne_nul {text : List Char} (clean : nul ∉ text) {j : ℕ} :
    charAt text j ≠ nul ↔ j < text.length := by
  unfold charAt
  by_cases inside : j < text.length
  · simp only [inside, iff_true, List.getD_eq_getElem _ _ inside]
    intro zero
    exact clean (zero ▸ List.getElem_mem inside)
  · simp [inside]

section Alone
variable (L : Layout) {e : Env} (seg : Segment)

/-- What a process comes to while no other one makes an access. -/
abbrev Alone (L : Layout) (e : Env) : Segment × Stage → Segment × Stage → Prop :=
  Relation.ReflTransGen fun x y => tick L e x.1 x.2 = some y

theorem Alone.step {x y z : Segment × Stage} (first : tick L e x.1 x.2 = some y)
    (rest : Alone L e y z) : Alone L e x z :=
  .head first rest

theorem compare_alone (clean : nul ∉ e.tenantId) {i j : ℕ} {text : List Char}
    (inside : i < L.maxTenants) (at_byte : e.tenantId.drop j = text) :
    Alone L e (seg, .compare i j)
      (seg, if sameText (seg.slots i).tenantId j text then .copy i 0 else .compare (i + 1) 0) := by
  -- along the rest of the id, as strcmp reads it
  induction text generalizing j with
  | nil =>
    have ended : charAt e.tenantId j = nul := by
      have past := List.drop_eq_nil_iff.mp at_byte
      rw [charAt, List.getD_eq_default _ _ past]
    apply Alone.step L (y := (seg, _)) _ .refl
    by_cases same : (seg.slots i).tenantId j = nul <;> simp [tick, sameText, inside, ended, same]
  | cons c rest ih =>
    have here : e.tenantId[j]? = some c := by
      rw [← List.head?_drop, at_byte, List.head?_cons]
    have byte : charAt e.tenantId j = c := by
      rw [charAt, List.getD_eq_getElem?_getD, here, Option.getD_some]
    have not_nul : c ≠ nul := by
      rintro rfl
      exact clean (List.mem_of_getElem? here)
    by_cases same : (seg.slots i).tenantId j = c
    · have later : e.tenantId.drop (j + 1) = rest := by
        rw [← List.tail_drop, at_byte, List.tail_cons]
      have tail := ih later
      apply Alone.step L (y := (seg, .compare i (j + 1)))
      · simp [tick, inside, byte, same, not_nul]
      · simpa [sameText, same] using tail
    · apply Alone.step L (y := (seg, .compare (i + 1) 0)) _ _
      · simp [tick, inside, byte, same]
      · simpa [sameText, same] using Relation.ReflTransGen.refl

def afterSearch : Option ℕ → Stage → Stage
  | some i, _ => .copy i 0
  | none, otherwise => otherwise

theorem searchTenant_alone (clean : nul ∉ e.tenantId) {i left : ℕ}
    (all : i + left = L.maxTenants) :
    Alone L e (seg, .compare i 0) (seg, afterSearch (searchTenant e seg i left) (.loadActive 0)) := by
  induction left generalizing i with
  | zero =>
    apply Alone.step L (y := (seg, .loadActive 0)) _ .refl
    have outside : ¬ i < L.maxTenants := by omega
    simp [tick, outside]
  | succ left ih =>
    have compared := compare_alone L seg clean (i := i) (by omega) (List.drop_zero (l := e.tenantId))
    rw [searchTenant]
    split
    · rename_i same
      simpa [same, afterSearch] using compared
    · rename_i differs
      simp only [differs, Bool.false_eq_true, if_false] at compared
      exact compared.trans (ih (by omega))

theorem searchFree_alone {i left : ℕ} (all : i + left = L.maxTenants) :
    Alone L e (seg, .loadActive i) (seg, afterSearch (searchFree seg i left) .refused) := by
  induction left generalizing i with
  | zero =>
    apply Alone.step L (y := (seg, .refused)) _ .refl
    have outside : ¬ i < L.maxTenants := by omega
    simp [tick, outside]
  | succ left ih =>
    have inside : i < L.maxTenants := by omega
    have later := ih (i := i + 1) (by omega)
    rw [searchFree]
    cases active : (seg.slots i).active with
    | true =>
      apply Alone.step L (y := (seg, .loadActive (i + 1)))
      · simp [tick, inside, active]
      · simpa [Slot.free, active] using later
    | false =>
      apply Alone.step L (y := (seg, .readFirst i))
      · simp [tick, inside, active]
      by_cases named : (seg.slots i).tenantId 0 = nul
      · apply Alone.step L (y := (seg, .copy i 0)) (by simp [tick, named])
        simpa [Slot.free, active, named, afterSearch] using Relation.ReflTransGen.refl
      · apply Alone.step L (y := (seg, .loadActive (i + 1))) (by simp [tick, named])
        simpa [Slot.free, active, named] using later

theorem copy_alone {i j left : ℕ} (all : j + left = L.idSize - 1) :
    Alone L e (seg, .copy i j)
      (seg.onSlot i fun slot => { slot with tenantId := strncpy e.tenantId slot.tenantId j left },
        .readSm i) := by
  induction left generalizing seg j with
  | zero =>
    apply Alone.step L (y := (seg, .readSm i))
    · have past : ¬ j < L.idSize - 1 := by omega
      simp [tick, past]
    · simpa [strncpy, onSlot_id] using Relation.ReflTransGen.refl
  | succ left ih =>
    have inside : j < L.idSize - 1 := by omega
    apply Alone.step L
      (y := (seg.onSlot i fun slot => slot.putChar j (charAt e.tenantId j), .copy i (j + 1)))
    · simp [tick, inside]
    · have later := ih (seg.onSlot i fun slot => slot.putChar j (charAt e.tenantId j))
        (j := j + 1) (by omega)
      simpa [onSlot_onSlot, Slot.putChar, strncpy] using later

theorem fill_alone (i : ℕ) : Alone L e (seg, .readSm i) (fillSlot e seg i, .publish i) := by
  unfold fillSlot
  split
  · rename_i empty
    cases grant : e.grant with
    | none =>
      apply Alone.step L (y := (seg, .publish i)) (by simp [tick, grant])
      exact .refl
    | some g =>
      obtain ⟨vsm, vmem⟩ := g
      apply Alone.step L (y := (seg, .putSm i)) (by simp [tick, empty, grant])
      apply Alone.step L (y := (_, .putMem i)) (by simp only [tick, grant]; rfl)
      apply Alone.step L (y := (_, .readPhysical i)) (by simp only [tick, grant]; rfl)
      apply Alone.step L (y := (_, .putMps i seg.physicalSmTotal)) (by simp only [tick]; rfl)
      apply Alone.step L (y := (_, .addSm i)) (by simp only [tick, grant]; rfl)
      apply Alone.step L (y := (_, .addMem i)) (by simp only [tick, grant]; rfl)
      apply Alone.step L (y := (_, .publish i)) (by simp only [tick, grant]; rfl)
      simpa [onSlot_onSlot, Segment.onSlot, Segment.addTotals] using Relation.ReflTransGen.refl
  · rename_i filled
    apply Alone.step L (y := (seg, .publish i)) (by simp [tick, filled])
    exact .refl

def outcome : Option ℕ → Stage
  | some i => .registered i
  | none => .refused

theorem taken_alone (i : ℕ) : Alone L e (seg, .copy i 0)
    (setActive true (fillSlot e (recordId L e seg i) i) i, .registered i) := by
  have copied := copy_alone L seg (e := e) (i := i) (Nat.zero_add (L.idSize - 1))
  have filled := fill_alone L (e := e) (recordId L e seg i) i
  refine (copied.trans filled).trans ?_
  apply Alone.step L (y := (_, .registered i)) (by simp only [tick]; rfl)
  exact .refl

theorem searchSlot_alone (clean : nul ∉ e.tenantId) :
    Alone L e (seg, .compare 0 0) (seg, afterSearch (searchSlot L e seg) .refused) := by
  have by_id := searchTenant_alone L seg clean (Nat.zero_add L.maxTenants)
  have by_free := searchFree_alone L seg (e := e) (Nat.zero_add L.maxTenants)
  unfold searchSlot
  cases found : searchTenant e seg 0 L.maxTenants with
  | some i => simpa [found, afterSearch] using by_id
  | none =>
    rw [found] at by_id
    exact by_id.trans by_free

theorem krakenShmOpen_alone (clean : nul ∉ e.tenantId) :
    Alone L e (seg, .map) ((krakenShmOpen L e seg).1, outcome (krakenShmOpen L e seg).2) := by
  unfold krakenShmOpen
  cases mapped : e.mapped with
  | false =>
    apply Alone.step L (y := (seg, .refused)) (by simp [tick, mapped])
    exact .refl
  | true =>
    apply Alone.step L (y := (seg, .readMagic)) (by simp [tick, mapped])
    by_cases magic : seg.magic = L.shmMagic
    · apply Alone.step L (y := (seg, .compare 0 0)) (by simp [tick, magic])
      have searched := searchSlot_alone L seg clean
      simp only [magic, decide_true, Bool.and_self, if_true]
      cases found : searchSlot L e seg with
      | some i =>
        rw [found] at searched
        exact searched.trans (taken_alone L seg i)
      | none => simpa [found, afterSearch, outcome] using searched
    · apply Alone.step L (y := (seg, .refused)) (by simp [tick, magic])
      simpa [magic, outcome] using Relation.ReflTransGen.refl

end Alone

section Lift
variable {ι : Type} [DecidableEq ι] (L : Layout) (env : ι → Env)

theorem run_of_alone {p : ι} {x y : Segment × Stage} (alone : Alone L (env p) x y) :
    ∀ s : System ι, s.seg = x.1 → s.stage p = x.2 → ∃ k,
      Run (OpenStep L env) s (List.replicate k p) ⟨y.1, Function.update s.stage p y.2⟩ := by
  induction alone using Relation.ReflTransGen.head_induction_on with
  | refl =>
    intro s here stage
    refine ⟨0, ?_⟩
    have same : (⟨y.1, Function.update s.stage p y.2⟩ : System ι) = s := by
      rw [← here, ← stage, Function.update_eq_self]
    rw [same]
    exact .nil s
  | @head x m first _ ih =>
    intro s here stage
    have moved : OpenStep L env s p ⟨m.1, Function.update s.stage p m.2⟩ := by
      simp only [Fires, next, here, stage, first, Option.map_some]
    obtain ⟨k, later⟩ := ih ⟨m.1, Function.update s.stage p m.2⟩ rfl (Function.update_self ..)
    refine ⟨k + 1, .cons moved ?_⟩
    simpa using later

/-- A process whose accesses all come one after the other computes the call. -/
theorem krakenShmOpen_run (s : System ι) (p : ι) (clean : nul ∉ (env p).tenantId)
    (start : s.stage p = .map) : ∃ k, Run (OpenStep L env) s (List.replicate k p)
      ⟨(krakenShmOpen L (env p) s.seg).1,
        Function.update s.stage p (outcome (krakenShmOpen L (env p) s.seg).2)⟩ :=
  run_of_alone L env (krakenShmOpen_alone L s.seg clean) s rfl start

end Lift

end ShmClient
