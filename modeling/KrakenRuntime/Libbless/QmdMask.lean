import KrakenRuntime.Lib.Threads
import KrakenRuntime.Libbless.QmdMode
import Mathlib.Data.Finset.Card

/- The QMD mask of libbless between its writer and the launches (libbless.cpp):
   kraken_qmd_set_allowed stores three words one after the other, kraken_qmd_callback loads
   them one after the other, and there is no lock, so a launch may install words of several
   settings. The checks of the callback on the launch it was called for are left out: a
   launch that fails one of them is not touched. -/
namespace QmdMask
open Runs QmdMode

/- Which TPCs a setting opens. -/

section Placement
variable (allowed : ℕ)

theorem openTpc_extends (given : List ℕ) (t : ℕ) : given <+: openTpc allowed given t := by
  unfold openTpc
  split
  · exact List.prefix_append given [t]
  · exact List.prefix_rfl

theorem foldl_openTpc_extends (ts given : List ℕ) : given <+: ts.foldl (openTpc allowed) given := by
  induction ts generalizing given with
  | nil => exact List.prefix_rfl
  | cons t ts ih => exact (openTpc_extends allowed given t).trans (ih (openTpc allowed given t))

theorem mem_foldl_openTpc {allowed : ℕ} {ts given : List ℕ} {t : ℕ}
    (opened : t ∈ ts.foldl (openTpc allowed) given) : t ∈ given ∨ t ∈ ts := by
  induction ts generalizing given with
  | nil => exact .inl opened
  | cons u ts ih =>
    rcases ih opened with before | later
    · unfold openTpc at before
      split at before
      · rcases List.mem_append.mp before with old | new
        · exact .inl old
        · exact .inr (by simp [List.mem_singleton.mp new])
      · exact .inl before
    · exact .inr (List.mem_cons_of_mem u later)

theorem foldl_openTpc_few {allowed : ℕ} (ts : List ℕ) {given : List ℕ} (few : given.length ≤ allowed)
    (nodup : given.Nodup) :
    (ts.foldl (openTpc allowed) given).length ≤ allowed ∧
      (ts.foldl (openTpc allowed) given).Nodup := by
  induction ts generalizing given with
  | nil => exact ⟨few, nodup⟩
  | cons t ts ih =>
    rw [List.foldl_cons]
    unfold openTpc
    split
    · rename_i new
      apply ih
      · rw [List.length_append, List.length_singleton]
        omega
      · rw [List.nodup_append]
        refine ⟨nodup, List.nodup_singleton t, ?_⟩
        intro a old b here
        rw [List.mem_singleton.mp here]
        rintro rfl
        exact new.2 old
    · exact ih few nodup

theorem foldl_openTpc_full {allowed : ℕ} (ts given : List ℕ)
    (short : (ts.foldl (openTpc allowed) given).length < allowed) :
    ∀ t ∈ ts, t ∈ ts.foldl (openTpc allowed) given := by
  induction ts generalizing given with
  | nil => simp
  | cons u ts ih =>
    intro t member
    rw [List.foldl_cons] at short ⊢
    rcases List.mem_cons.mp member with rfl | later
    · -- it is open after its turn, and stays so
      have kept := foldl_openTpc_extends allowed ts (openTpc allowed given t)
      apply kept.subset
      have so_far := (openTpc_extends allowed given t).length_le
      have at_end := kept.length_le
      unfold openTpc
      by_cases old : t ∈ given
      · simp [old]
      · rw [if_pos ⟨by omega, old⟩]
        simp
    · exact ih (openTpc allowed given u) short t later

end Placement

section Settings
variable {spread : Bool} {n : ℕ}

theorem mem_openTpcs_lt (bounded : n ≤ qmdTpcTotal) {t : ℕ} (opened : t ∈ openTpcs spread n) :
    t < qmdTpcTotal := by
  unfold openTpcs at opened
  cases spread with
  | false =>
    have below := List.mem_range.mp opened
    omega
  | true =>
    simp only [if_true] at opened
    rcases mem_foldl_openTpc opened with apart | filled
    · rcases mem_foldl_openTpc apart with none | stride
      · simp at none
      · exact List.mem_range.mp (List.mem_of_mem_filter stride)
    · exact List.mem_range.mp filled

theorem zero_mem_openTpcs (positive : 1 ≤ n) : 0 ∈ openTpcs spread n := by
  unfold openTpcs
  cases spread with
  | false => exact List.mem_range.mpr positive
  | true =>
    simp only [if_true]
    apply (foldl_openTpc_extends n _ _).subset
    have first : (List.range qmdTpcTotal).filter (fun t => t % (qmdTpcTotal / n) = 0) =
        0 :: ((List.range' 1 93).filter fun t => t % (qmdTpcTotal / n) = 0) := by
      rw [List.range_eq_range', qmdTpcTotal, List.range'_succ, List.filter_cons_of_pos (by simp)]
    rw [first, List.foldl_cons]
    apply (foldl_openTpc_extends n _ _).subset
    have room : 0 < n := positive
    simp [openTpc, room]

theorem nodup_openTpcs (spread : Bool) (n : ℕ) : (openTpcs spread n).Nodup := by
  unfold openTpcs
  cases spread with
  | false => exact List.nodup_range
  | true =>
    simp only [if_true]
    obtain ⟨few, nodup⟩ := foldl_openTpc_few
      ((List.range qmdTpcTotal).filter fun t => t % (qmdTpcTotal / n) = 0)
      (Nat.zero_le n) List.nodup_nil
    exact (foldl_openTpc_few (List.range qmdTpcTotal) few nodup).2

theorem length_openTpcs (bounded : n ≤ qmdTpcTotal) :
    (openTpcs spread n).length = n := by
  unfold openTpcs
  cases spread with
  | false => exact List.length_range
  | true =>
    simp only [if_true]
    obtain ⟨few, nodup⟩ := foldl_openTpc_few
      ((List.range qmdTpcTotal).filter fun t => t % (qmdTpcTotal / n) = 0)
      (Nat.zero_le n) List.nodup_nil
    obtain ⟨most, _⟩ := foldl_openTpc_few (List.range qmdTpcTotal) few nodup
    by_contra short
    have all := foldl_openTpc_full _ _ (lt_of_le_of_ne most short)
    have many := List.nodup_range.length_le_of_subset all
    rw [List.length_range] at many
    exact short (le_antisymm most (bounded.trans many))

end Settings

theorem getLsbD_foldl_clear (ts : List ℕ) (m : BitVec 32) {b : ℕ} (bit : b < 32) :
    (ts.foldl (fun m t => m &&& ~~~(1#32 <<< (t % 32))) m).getLsbD b =
      (m.getLsbD b && decide (∀ t ∈ ts, t % 32 ≠ b)) := by
  induction ts generalizing m with
  | nil => simp
  | cons t ts ih =>
    have cleared : (m &&& ~~~(1#32 <<< (t % 32))).getLsbD b =
        (m.getLsbD b && decide (t % 32 ≠ b)) := by
      rw [← BitVec.twoPow_eq]
      simp [bit, eq_comm]
    rw [List.foldl_cons, ih, cleared]
    simp [Bool.and_assoc]

theorem getLsbD_maskWord (given : List ℕ) (w : ℕ) {b : ℕ} (bit : b < 32) :
    (maskWord given w).getLsbD b = decide (32 * w + b ∉ given) := by
  have there : (∀ t ∈ given.filter (fun t => t / 32 = w), t % 32 ≠ b) ↔ 32 * w + b ∉ given := by
    constructor
    · intro clear opened
      refine clear (32 * w + b) (List.mem_filter.mpr ⟨opened, ?_⟩) ?_
      · exact decide_eq_true (by omega)
      · omega
    · intro closed t member same
      obtain ⟨opened, here⟩ := List.mem_filter.mp member
      have word := of_decide_eq_true here
      have eq : 32 * w + b = t := by omega
      exact closed (eq ▸ opened)
  rw [maskWord, getLsbD_foldl_clear _ _ bit, decide_eq_decide.mpr there, BitVec.getLsbD_allOnes,
    decide_eq_true bit, Bool.true_and]

/- The writer and the launches. -/

def clampTpc (n : ℤ) : ℕ := (max 1 (min n qmdTpcTotal)).toNat

def word (e : Env) (n w : ℕ) : BitVec 32 := maskWord (openTpcs e.spread n) w

/-- The next store of the writer, with the clamped argument of the call and whether the
    caller is reconf_limited_ctx, which sets qmd_active afterwards. -/
inductive Writer where
  | ready
  | storeW0 (n : ℕ) (activates : Bool)
  | storeW1 (n : ℕ) (activates : Bool)
  | storeW2 (n : ℕ) (activates : Bool)
  | storeAllowed (n : ℕ) (activates : Bool)
  | storeActive
  deriving DecidableEq

/-- The next load of a callback, with the words it has put into the launch. -/
inductive Callback where
  | outside
  | loadW0
  | loadW1 (w0 : BitVec 32)
  | loadW2 (w0 w1 : BitVec 32)
  | installed (w0 w1 w2 : BitVec 32)
  deriving DecidableEq

structure State (k : ℕ) where
  qmd : QmdMode.State := {}
  writer : Writer := .ready
  callbacks : Fin k → Callback := fun _ => .outside
  deriving DecidableEq

inductive Action (k : ℕ) where
  | call (n : ℤ) (activates : Bool)
  | store
  | enter (i : Fin k)
  | load (i : Fin k)
  | leave (i : Fin k)
  deriving DecidableEq

variable {k : ℕ}

def store (e : Env) (s : State k) : Option (State k) :=
  match s.writer with
  | .ready => none
  | .storeW0 n activates =>
    some { s with qmd := { s.qmd with qmdMaskW0 := word e n 0 }, writer := .storeW1 n activates }
  | .storeW1 n activates =>
    some { s with qmd := { s.qmd with qmdMaskW1 := word e n 1 }, writer := .storeW2 n activates }
  | .storeW2 n activates =>
    some { s with
      qmd := { s.qmd with qmdMaskW2 := word e n 2 }
      writer := .storeAllowed n activates }
  | .storeAllowed n activates =>
    some { s with
      qmd := { s.qmd with qmdAllowedTpc := (openTpcs e.spread n).length }
      writer := if activates then .storeActive else .ready }
  | .storeActive => some { s with qmd := { s.qmd with qmdActive := true }, writer := .ready }

def load (q : QmdMode.State) : Callback → Option Callback
  | .loadW0 => some (.loadW1 q.qmdMaskW0)
  | .loadW1 w0 => some (.loadW2 w0 q.qmdMaskW1)
  | .loadW2 w0 w1 => some (.installed w0 w1 q.qmdMaskW2)
  | _ => none

def next (e : Env) (s : State k) : Action k → Option (State k)
  | .call n activates =>
    if s.writer = .ready then some { s with writer := .storeW0 (clampTpc n) activates } else none
  | .store => store e s
  | .enter i =>
    if s.callbacks i = .outside then
      some { s with
        callbacks := Function.update s.callbacks i
          (if s.qmd.qmdActive then .loadW0 else .outside) }
    else none
  | .load i =>
    (load s.qmd (s.callbacks i)).map fun c =>
      { s with callbacks := Function.update s.callbacks i c }
  | .leave i =>
    match s.callbacks i with
    | .installed .. => some { s with callbacks := Function.update s.callbacks i .outside }
    | _ => none

abbrev MaskStep (e : Env) : State k → Action k → State k → Prop := Fires (next e)

theorem uninterrupted_call (e : Env) (s : State k) (n : ℕ) (ready : s.writer = .ready) :
    Run (MaskStep e) s (.call n false :: List.replicate 4 .store)
      { s with qmd := krakenQmdSetAllowed e s.qmd n } := by
  have clamped : clampTpc n = max 1 (min n qmdTpcTotal) := by
    simp only [clampTpc]
    omega
  apply run_of_exec
  simp [List.replicate, exec, next, store, ready, clamped, krakenQmdSetAllowed, word]

def Writer.inProgress : Writer → List ℕ
  | .storeW0 n _ | .storeW1 n _ | .storeW2 n _ => [n]
  | _ => []

def Callback.loading : Callback → Bool
  | .loadW0 | .loadW1 _ | .loadW2 .. => true
  | _ => false

/-- The last setting that is stored whole, and for every callback the settings that were
    current at some moment of it. -/
structure Record (k : ℕ) where
  last : Option ℕ := none
  seen : Fin k → List ℕ := fun _ => []

def observe (s : State k) : Action k → Record k → Record k
  | .call n _, r =>
    { r with
      seen := fun i =>
        if (s.callbacks i).loading then clampTpc n :: r.seen i else r.seen i }
  | .store, r =>
    match s.writer with
    | .storeW2 n _ => { r with last := some n }
    | _ => r
  | .enter i, r =>
    { r with seen := Function.update r.seen i (r.last.toList ++ s.writer.inProgress) }
  | _, r => r

def Opens (w0 w1 w2 : BitVec 32) (t : ℕ) : Prop :=
  (if t / 32 = 0 then w0 else if t / 32 = 1 then w1 else w2).getLsbD (t % 32) = false

instance (w0 w1 w2 : BitVec 32) (t : ℕ) : Decidable (Opens w0 w1 w2 t) := by
  dsimp only [Opens]
  infer_instance

def opened (w0 w1 w2 : BitVec 32) : ℕ := ((Finset.range 96).filter (Opens w0 w1 w2)).card

/- Words of different settings put together. -/

section Mixed
variable {e : Env} {a b c : ℕ}

def deciding (a b c t : ℕ) : ℕ := if t / 32 = 0 then a else if t / 32 = 1 then b else c

theorem opens_mixed_iff {t : ℕ} (below : t < 96) :
    Opens (word e a 0) (word e b 1) (word e c 2) t ↔
      t ∈ openTpcs e.spread (deciding a b c t) := by
  have bit : t % 32 < 32 := Nat.mod_lt t (by decide)
  have place := Nat.div_add_mod t 32
  unfold Opens deciding
  by_cases first : t / 32 = 0
  · rw [first] at place
    simp only [if_pos first, word, getLsbD_maskWord _ _ bit, place, decide_eq_false_iff_not, not_not]
  · by_cases second : t / 32 = 1
    · rw [second] at place
      simp only [if_neg first, if_pos second, word, getLsbD_maskWord _ _ bit, place,
        decide_eq_false_iff_not, not_not]
    · have third : t / 32 = 2 := by omega
      rw [third] at place
      simp only [if_neg first, if_neg second, word, getLsbD_maskWord _ _ bit, place,
        decide_eq_false_iff_not, not_not]

/-- The counts that a call can be left with after clamping. -/
def Count (n : ℕ) : Prop := 1 ≤ n ∧ n ≤ qmdTpcTotal

theorem clampTpc_count (n : ℤ) : Count (clampTpc n) := by
  unfold Count clampTpc qmdTpcTotal
  omega

theorem deciding_mem {P : ℕ → Prop} (ha : P a) (hb : P b) (hc : P c) (t : ℕ) :
    P (deciding a b c t) := by
  unfold deciding
  split
  · exact ha
  · split
    · exact hb
    · exact hc

theorem mixed_opens_zero (positive : 1 ≤ a) : Opens (word e a 0) (word e b 1) (word e c 2) 0 :=
  (opens_mixed_iff (by decide)).mpr (zero_mem_openTpcs positive)

theorem mixed_closed (ha : Count a) (hb : Count b) (hc : Count c) {t : ℕ} (below : t < 96)
    (missing : qmdTpcTotal ≤ t) : ¬ Opens (word e a 0) (word e b 1) (word e c 2) t := by
  intro opens
  have bounded := deciding_mem (P := Count) ha hb hc t
  have inside := mem_openTpcs_lt bounded.2 ((opens_mixed_iff below).mp opens)
  omega

theorem opened_mixed_bounds (contiguous : e.spread = false) (bounded : a ≤ qmdTpcTotal) :
    min a (min b c) ≤ opened (word e a 0) (word e b 1) (word e c 2) ∧
      opened (word e a 0) (word e b 1) (word e c 2) ≤ max a (max b c) := by
  have opens_iff {t : ℕ} (below : t < 96) :
      Opens (word e a 0) (word e b 1) (word e c 2) t ↔ t < deciding a b c t := by
    rw [opens_mixed_iff below, contiguous, openTpcs]
    simp
  constructor
  · have sub : Finset.range (min a (min b c)) ⊆
        (Finset.range 96).filter (Opens (word e a 0) (word e b 1) (word e c 2)) := by
      intro t member
      have low := Finset.mem_range.mp member
      have below : t < 96 := by
        unfold qmdTpcTotal at bounded
        omega
      refine Finset.mem_filter.mpr ⟨Finset.mem_range.mpr below, (opens_iff below).mpr ?_⟩
      exact deciding_mem (P := fun n => t < n) (by omega) (by omega) (by omega) t
    simpa [opened] using Finset.card_le_card sub
  · have sub : (Finset.range 96).filter (Opens (word e a 0) (word e b 1) (word e c 2)) ⊆
        Finset.range (max a (max b c)) := by
      intro t member
      obtain ⟨below, opens⟩ := Finset.mem_filter.mp member
      have low := (opens_iff (Finset.mem_range.mp below)).mp opens
      have high : deciding a b c t ≤ max a (max b c) :=
        deciding_mem (P := fun n => n ≤ max a (max b c)) (by omega) (by omega) (by omega) t
      exact Finset.mem_range.mpr (lt_of_lt_of_le low high)
    simpa [opened] using Finset.card_le_card sub

/-- The words of one setting open as many TPCs as it allows. -/
theorem opened_setting (bounded : a ≤ qmdTpcTotal) :
    opened (word e a 0) (word e a 1) (word e a 2) = a := by
  have same : ∀ t, deciding a a a t = a := fun t => deciding_mem (P := (· = a)) rfl rfl rfl t
  have tpcs : (Finset.range 96).filter (Opens (word e a 0) (word e a 1) (word e a 2)) =
      (openTpcs e.spread a).toFinset := by
    ext t
    rw [Finset.mem_filter, List.mem_toFinset]
    constructor
    · rintro ⟨below, opens⟩
      rw [opens_mixed_iff (Finset.mem_range.mp below), same] at opens
      exact opens
    · intro opens
      have below := mem_openTpcs_lt bounded opens
      have inside : t < 96 := below.trans (by decide)
      refine ⟨Finset.mem_range.mpr inside, ?_⟩
      rw [opens_mixed_iff inside, same]
      exact opens
  rw [opened, tpcs, List.toFinset_card_of_nodup (nodup_openTpcs e.spread a),
    length_openTpcs bounded]

theorem setAllowed_opened (e : Env) (q : QmdMode.State) (n : ℕ) :
    opened (krakenQmdSetAllowed e q n).qmdMaskW0 (krakenQmdSetAllowed e q n).qmdMaskW1
      (krakenQmdSetAllowed e q n).qmdMaskW2 = (krakenQmdSetAllowed e q n).qmdAllowedTpc := by
  have bounded : max 1 (min n qmdTpcTotal) ≤ qmdTpcTotal := by
    unfold qmdTpcTotal
    omega
  exact (opened_setting bounded).trans (length_openTpcs bounded).symm

end Mixed

/- Every word that a callback has loaded is that of a setting it has seen. -/

def Writer.stored0 : Writer → Option ℕ
  | .storeW1 n _ | .storeW2 n _ => some n
  | _ => none

def Writer.stored1 : Writer → Option ℕ
  | .storeW2 n _ => some n
  | _ => none

def Writer.stored : Writer → Bool
  | .storeAllowed .. | .storeActive => true
  | _ => false

def current (s : State k) (r : Record k) : List ℕ := r.last.toList ++ s.writer.inProgress

def Callback.Loaded (e : Env) (seen : List ℕ) : Callback → Prop
  | .outside | .loadW0 => True
  | .loadW1 w0 => ∃ a ∈ seen, w0 = word e a 0
  | .loadW2 w0 w1 => (∃ a ∈ seen, w0 = word e a 0) ∧ ∃ b ∈ seen, w1 = word e b 1
  | .installed w0 w1 w2 =>
    (∃ a ∈ seen, w0 = word e a 0) ∧ (∃ b ∈ seen, w1 = word e b 1) ∧
      ∃ c ∈ seen, w2 = word e c 2

structure Kept (e : Env) (s : State k) (r : Record k) : Prop where
  active : s.qmd.qmdActive = true ∨ s.writer.stored = true → r.last.isSome = true
  counts : ∀ n ∈ current s r, Count n
  word0 : ∀ n ∈ s.writer.stored0.or r.last, s.qmd.qmdMaskW0 = word e n 0
  word1 : ∀ n ∈ s.writer.stored1.or r.last, s.qmd.qmdMaskW1 = word e n 1
  word2 : ∀ n ∈ r.last, s.qmd.qmdMaskW2 = word e n 2
  seenCounts : ∀ i, ∀ n ∈ r.seen i, Count n
  running : ∀ i, (s.callbacks i).loading = true →
    r.last.isSome = true ∧ ∀ n ∈ current s r, n ∈ r.seen i
  loaded : ∀ i, (s.callbacks i).Loaded e (r.seen i)

section Steps
variable {e : Env} {s t : State k} {r : Record k}

theorem kept_words (kept : Kept e s r) (called : r.last.isSome = true) :
    (∃ n ∈ current s r, s.qmd.qmdMaskW0 = word e n 0) ∧
      (∃ n ∈ current s r, s.qmd.qmdMaskW1 = word e n 1) ∧
      ∃ n ∈ current s r, s.qmd.qmdMaskW2 = word e n 2 := by
  obtain ⟨m, last⟩ := Option.isSome_iff_exists.mp called
  have whole : m ∈ current s r := by simp [current, last]
  refine ⟨?_, ?_, m, whole, kept.word2 m last⟩
  · cases stored : s.writer.stored0 with
    | none => exact ⟨m, whole, kept.word0 m (by simp [stored, last])⟩
    | some n =>
      refine ⟨n, ?_, kept.word0 n (by simp [stored])⟩
      cases place : s.writer <;> simp_all [Writer.stored0, current, Writer.inProgress]
  · cases stored : s.writer.stored1 with
    | none => exact ⟨m, whole, kept.word1 m (by simp [stored, last])⟩
    | some n =>
      refine ⟨n, ?_, kept.word1 n (by simp [stored])⟩
      cases place : s.writer <;> simp_all [Writer.stored1, current, Writer.inProgress]

theorem loaded_mono {c : Callback} {seen seen' : List ℕ} (more : ∀ n ∈ seen, n ∈ seen')
    (loaded : c.Loaded e seen) : c.Loaded e seen' := by
  have lift {w : BitVec 32} {j : ℕ} (here : ∃ n ∈ seen, w = word e n j) :
      ∃ n ∈ seen', w = word e n j := by
    obtain ⟨n, member, eq⟩ := here
    exact ⟨n, more n member, eq⟩
  cases c with
  | outside => trivial
  | loadW0 => trivial
  | loadW1 w0 => exact lift loaded
  | loadW2 w0 w1 => exact ⟨lift loaded.1, lift loaded.2⟩
  | installed w0 w1 w2 => exact ⟨lift loaded.1, lift loaded.2.1, lift loaded.2.2⟩

theorem kept_call (kept : Kept e s r) (n : ℤ) (activates : Bool) (ready : s.writer = .ready) :
    Kept e { s with writer := .storeW0 (clampTpc n) activates } (observe s (.call n activates) r) where
  active := by
    rintro (active | starting)
    · exact kept.active (.inl active)
    · cases starting
  counts := by
    intro m member
    simp only [current, observe, Writer.inProgress, List.mem_append, List.mem_singleton] at member
    rcases member with last | rfl
    · exact kept.counts m (by simp [current, last])
    · exact clampTpc_count n
  word0 := by
    have before := kept.word0
    rwa [ready] at before
  word1 := by
    have before := kept.word1
    rwa [ready] at before
  word2 := kept.word2
  seenCounts := by
    intro i m member
    simp only [observe] at member
    split at member
    · rcases List.mem_cons.mp member with rfl | old
      · exact clampTpc_count n
      · exact kept.seenCounts i m old
    · exact kept.seenCounts i m member
  running := by
    intro i loading
    obtain ⟨called, all⟩ := kept.running i loading
    refine ⟨called, ?_⟩
    intro m member
    simp only [observe, if_pos loading]
    simp only [current, observe, Writer.inProgress, List.mem_append, List.mem_singleton] at member
    rcases member with last | rfl
    · exact List.mem_cons_of_mem _ (all m (by simp [current, last]))
    · exact List.mem_cons_self
  loaded := by
    intro i
    apply loaded_mono _ (kept.loaded i)
    intro m member
    simp only [observe]
    split
    · exact List.mem_cons_of_mem _ member
    · exact member

theorem kept_moved (kept : Kept e s r) {q : QmdMode.State} {w : Writer}
    (same : w.inProgress = s.writer.inProgress)
    (active : q.qmdActive = true ∨ w.stored = true → r.last.isSome = true)
    (word0 : ∀ n ∈ w.stored0.or r.last, q.qmdMaskW0 = word e n 0)
    (word1 : ∀ n ∈ w.stored1.or r.last, q.qmdMaskW1 = word e n 1)
    (word2 : q.qmdMaskW2 = s.qmd.qmdMaskW2) :
    Kept e { s with qmd := q, writer := w } r := by
  have eq : current { s with qmd := q, writer := w } r = current s r := by
    simp only [current, same]
  refine { kept with
    active := active, counts := ?_, word0 := word0, word1 := word1, word2 := ?_, running := ?_ }
  · rw [eq]
    exact kept.counts
  · intro n last
    exact word2.trans (kept.word2 n last)
  · rw [eq]
    exact kept.running

theorem kept_published (kept : Kept e s r) {n : ℕ} {activates : Bool} (here : n ∈ current s r)
    (word0 : s.qmd.qmdMaskW0 = word e n 0) (word1 : s.qmd.qmdMaskW1 = word e n 1) :
    Kept e
      { s with
        qmd := { s.qmd with qmdMaskW2 := word e n 2 }
        writer := .storeAllowed n activates }
      { r with last := some n } := by
  have only : ∀ m ∈ current
      { s with
        qmd := { s.qmd with qmdMaskW2 := word e n 2 }
        writer := .storeAllowed n activates }
      { r with last := some n }, m = n := by
    simp [current, Writer.inProgress]
  refine { kept with
    active := fun _ => rfl, counts := ?_, word0 := ?_, word1 := ?_, word2 := ?_, running := ?_ }
  · intro m member
    rw [only m member]
    exact kept.counts n here
  · intro m last
    cases last
    exact word0
  · intro m last
    cases last
    exact word1
  · intro m last
    cases last
    rfl
  · intro i loading
    refine ⟨rfl, ?_⟩
    intro m member
    rw [only m member]
    exact (kept.running i loading).2 n here

theorem kept_store (kept : Kept e s r) (step : store e s = some t) :
    Kept e t (observe s .store r) := by
  unfold store at step
  have old_active (active : s.qmd.qmdActive = true ∨ false = true) : r.last.isSome = true := by
    rcases active with active | none
    · exact kept.active (.inl active)
    · cases none
  have word0 := kept.word0
  have word1 := kept.word1
  cases place : s.writer with
  | ready =>
    rw [place] at step
    cases step
  | storeW0 n activates =>
    rw [place] at step word1
    cases step
    simp only [observe, place]
    refine kept_moved kept (by rw [place]; rfl) old_active ?_ word1 rfl
    intro m new
    simp only [Writer.stored0, Option.some_or, Option.mem_def, Option.some.injEq] at new
    rw [new]
  | storeW1 n activates =>
    rw [place] at step word0
    cases step
    simp only [observe, place]
    refine kept_moved kept (by rw [place]; rfl) old_active word0 ?_ rfl
    intro m new
    simp only [Writer.stored1, Option.some_or, Option.mem_def, Option.some.injEq] at new
    rw [new]
  | storeW2 n activates =>
    rw [place] at step word0 word1
    cases step
    simp only [observe, place]
    exact kept_published kept (by simp [current, place, Writer.inProgress]) (word0 n rfl) (word1 n rfl)
  | storeAllowed n activates =>
    rw [place] at step word0 word1
    cases step
    simp only [observe, place]
    have called : r.last.isSome = true := kept.active (.inr (by rw [place]; rfl))
    cases activates with
    | false => exact kept_moved kept (by rw [place]; rfl) (fun _ => called) word0 word1 rfl
    | true => exact kept_moved kept (by rw [place]; rfl) (fun _ => called) word0 word1 rfl
  | storeActive =>
    rw [place] at step word0 word1
    cases step
    simp only [observe, place]
    have called : r.last.isSome = true := kept.active (.inr (by rw [place]; rfl))
    exact kept_moved kept (by rw [place]; rfl) (fun _ => called) word0 word1 rfl

theorem kept_callback (kept : Kept e s r) {i : Fin k} {c : Callback} {seen : List ℕ}
    (counts : ∀ n ∈ seen, Count n)
    (running : c.loading = true → r.last.isSome = true ∧ ∀ n ∈ current s r, n ∈ seen)
    (loaded : c.Loaded e seen) :
    Kept e { s with callbacks := Function.update s.callbacks i c }
      { r with seen := Function.update r.seen i seen } := by
  refine { kept with seenCounts := ?_, running := ?_, loaded := ?_ }
  · intro j
    by_cases same : j = i
    · subst same
      simpa using counts
    · simpa [same] using kept.seenCounts j
  · intro j
    by_cases same : j = i
    · subst same
      simpa [current] using running
    · simpa [same, current] using kept.running j
  · intro j
    by_cases same : j = i
    · subst same
      simpa using loaded
    · simpa [same] using kept.loaded j

theorem load_kept (kept : Kept e s r) {i : Fin k} {c : Callback}
    (step : load s.qmd (s.callbacks i) = some c) :
    Kept e { s with callbacks := Function.update s.callbacks i c } r := by
  have loading : (s.callbacks i).loading = true := by
    cases place : s.callbacks i <;> simp_all [load, Callback.loading]
  obtain ⟨called, all⟩ := kept.running i loading
  obtain ⟨⟨x, hx, w0⟩, ⟨y, hy, w1⟩, z, hz, w2⟩ := kept_words kept called
  have before := kept.loaded i
  have after : c.Loaded e (r.seen i) := by
    cases place : s.callbacks i with
    | outside => simp [place, load] at step
    | installed => simp [place, load] at step
    | loadW0 =>
      rw [place] at step
      cases step
      exact ⟨x, all x hx, w0⟩
    | loadW1 v0 =>
      rw [place] at step before
      cases step
      exact ⟨before, y, all y hy, w1⟩
    | loadW2 v0 v1 =>
      rw [place] at step before
      cases step
      exact ⟨before.1, before.2, z, all z hz, w2⟩
  have moved := kept_callback kept (i := i) (kept.seenCounts i) (fun _ => ⟨called, all⟩) after
  rwa [Function.update_eq_self] at moved

theorem step_kept {a : Action k} (kept : Kept e s r) (step : MaskStep e s a t) :
    Kept e t (observe s a r) := by
  cases a with
  | call n activates =>
    simp only [Fires, next] at step
    split at step
    · rename_i ready
      cases step
      exact kept_call kept n activates ready
    · cases step
  | store => exact kept_store kept step
  | enter i =>
    simp only [Fires, next] at step
    split at step
    · cases step
      refine kept_callback kept kept.counts ?_ ?_
      · intro loading
        refine ⟨?_, fun _ member => member⟩
        cases active : s.qmd.qmdActive with
        | true => exact kept.active (.inl active)
        | false => simp [active, Callback.loading] at loading
      · split <;> trivial
    · cases step
  | load i =>
    simp only [Fires, next, Option.map_eq_some_iff] at step
    obtain ⟨c, loads, rfl⟩ := step
    exact load_kept kept loads
  | leave i =>
    simp only [Fires, next] at step
    split at step
    · cases step
      have idle : Callback.outside.loading = true → r.last.isSome = true ∧
          ∀ n ∈ current s r, n ∈ r.seen i := by
        intro loading
        cases loading
      have moved := kept_callback kept (i := i) (c := .outside) (kept.seenCounts i) idle trivial
      rwa [Function.update_eq_self] at moved
    · cases step

theorem start_kept : Kept e ({} : State k) {} where
  active := by simp [Writer.stored]
  counts := by simp [current, Writer.inProgress]
  word0 := by simp [Writer.stored0]
  word1 := by simp [Writer.stored1]
  word2 := by simp
  seenCounts := by simp
  running := by simp [Callback.loading]
  loaded := fun _ => trivial

end Steps

/-- Whatever the writer and the callbacks do, the words that a callback has installed leave
    a TPC open, keep the two missing ones closed and, side by side, open no fewer and no more
    TPCs than the settings that were current during the callback. -/
theorem torn_masks_harmless (e : Env) {labels : List (Action k)} {y : State k × Record k}
    (run : Run (Watched observe (MaskStep e)) ({}, {}) labels y) (i : Fin k)
    {w0 w1 w2 : BitVec 32} (installed : y.1.callbacks i = .installed w0 w1 w2) :
    (∃ t < qmdTpcTotal, Opens w0 w1 w2 t) ∧ ¬ Opens w0 w1 w2 94 ∧ ¬ Opens w0 w1 w2 95 ∧
      (e.spread = false →
        (∃ n ∈ y.2.seen i, n ≤ opened w0 w1 w2) ∧ ∃ n ∈ y.2.seen i, opened w0 w1 w2 ≤ n) := by
  have kept : Kept e y.1 y.2 :=
    run_invariant (fun x => Kept e x.1 x.2)
      (fun _ _ _ before step => step.2 ▸ step_kept before step.1) run start_kept
  have loaded := kept.loaded i
  rw [installed] at loaded
  obtain ⟨⟨a, ha, rfl⟩, ⟨b, hb, rfl⟩, c, hc, rfl⟩ := loaded
  have counts := kept.seenCounts i
  have closed {t : ℕ} := @mixed_closed e a b c (counts a ha) (counts b hb) (counts c hc) t
  refine ⟨⟨0, by decide, mixed_opens_zero (counts a ha).1⟩, closed (by decide) (by decide),
    closed (by decide) (by decide), ?_⟩
  intro contiguous
  obtain ⟨lower, upper⟩ := opened_mixed_bounds (b := b) (c := c) contiguous (counts a ha).2
  constructor
  · have least : min a (min b c) ∈ y.2.seen i := by
      rcases min_choice a (min b c) with eq | eq
      · rwa [eq]
      · rw [eq]
        rcases min_choice b c with eq | eq <;> rwa [eq]
    exact ⟨_, least, lower⟩
  · have greatest : max a (max b c) ∈ y.2.seen i := by
      rcases max_choice a (max b c) with eq | eq
      · rwa [eq]
      · rw [eq]
        rcases max_choice b c with eq | eq <;> rwa [eq]
    exact ⟨_, greatest, upper⟩

/-- The mask is opened whole, and narrowed to one TPC between the loads of a launch. -/
def tornLaunch : List (Action 1) :=
  [.call 200 true, .store, .store, .store, .store, .store, .enter 0, .load 0, .call (-5) false,
    .store, .store, .load 0, .store, .load 0]

theorem torn_launch_harmless : ∃ y, Run (Watched observe (MaskStep {})) ({}, {}) tornLaunch y ∧
    ∃ w0 w1 w2, y.1.callbacks 0 = .installed w0 w1 w2 ∧
      (∃ n ∈ y.2.seen 0, n ≤ opened w0 w1 w2) ∧ ∃ n ∈ y.2.seen 0, opened w0 w1 w2 ≤ n := by
  obtain ⟨y, run, checked⟩ := watched_run_reaches
    (fun y : State 1 × Record 1 =>
      decide (y.1.callbacks 0 = .installed 0#32 (BitVec.allOnes 32) (BitVec.allOnes 32)))
    (show (exec (watching observe (next {})) ({}, {}) tornLaunch).any _ = true by decide +kernel)
  have installed := of_decide_eq_true checked
  exact ⟨y, run, _, _, _, installed, (torn_masks_harmless {} run 0 installed).2.2.2 rfl⟩

end QmdMask
