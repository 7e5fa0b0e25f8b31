import KrakenRuntime.Lib.Runs
import Mathlib.Data.List.Basic

/- Symbol lookups through the hook library (cuda_hooks.cpp): the hooked dlsym and the
   wrapper of cuGetProcAddress_v2, and chains of lookups in which a library calls what it
   has looked up before. Two places test the name of the symbol; only the wrapper knows the
   _ptsz variants of the launch functions. A symbol is the list of its characters before
   the NUL. The version, flag and status arguments only go through to the driver, and the
   wrapper is called with a place for its result. -/
namespace SymbolLookup
open Runs

inductive Handle where
  | rtldNext
  | rtldDefault
  | library (n : ℕ)
  deriving DecidableEq

inductive Pointer where
  | null
  | cuLaunchKernel
  | cuLaunchKernelEx
  | cuGetProcAddressV2
  | driver (symbol : List Char)
  deriving DecidableEq

/-- real_dlsym, and the driver function behind a pointer that it returned for
    cuGetProcAddress_v2: its result is CUDA_SUCCESS or not, and the pointer it stores. -/
structure Real where
  dlsym : Option (Handle → List Char → Pointer)
  cuGetProcAddress : List Char → Bool × Pointer

/-- The driver's lookups succeed, and give its own function for the symbol. -/
structure Real.Succeeds (r : Real) : Prop where
  dlsym : r.dlsym = some fun _ symbol => .driver symbol
  cuGetProcAddress : ∀ symbol, r.cuGetProcAddress symbol = (true, .driver symbol)

def dlsym (r : Real) (handle : Handle) (symbol : List Char) : Pointer :=
  match r.dlsym with
  | none => .null
  | some realDlsym =>
    if handle ≠ .rtldNext ∧ handle ≠ .rtldDefault then
      if symbol = "cuLaunchKernel".toList then .cuLaunchKernel
      else if symbol = "cuLaunchKernelEx".toList then .cuLaunchKernelEx
      else if symbol = "cuGetProcAddress_v2".toList ∨ symbol = "cuGetProcAddress".toList then
        .cuGetProcAddressV2
      else realDlsym handle symbol
    else realDlsym handle symbol

/-- A name of n characters, or its _ptsz variant: strncmp on the first n characters, and
    then the rest. -/
def named (name : List Char) (n : ℕ) (symbol : List Char) : Prop :=
  symbol.take n = name.take n ∧ (symbol.drop n = [] ∨ symbol.drop n = "_ptsz".toList)

instance (name : List Char) (n : ℕ) (symbol : List Char) : Decidable (named name n symbol) := by
  dsimp only [named]
  infer_instance

def replace (symbol : List Char) (pfn : Pointer) : Pointer :=
  if named "cuLaunchKernel".toList 14 symbol then .cuLaunchKernel
  else if named "cuLaunchKernelEx".toList 16 symbol then .cuLaunchKernelEx
  else if symbol = "cuGetProcAddress".toList ∨ symbol = "cuGetProcAddress_v2".toList then
    .cuGetProcAddressV2
  else pfn

/-- LAZY_RESOLVE finds the real function through real_dlsym, or through dlsym itself. -/
def lazyResolve (r : Real) (symbol : List Char) : Pointer :=
  match r.dlsym with
  | some realDlsym => realDlsym .rtldNext symbol
  | none => dlsym r .rtldNext symbol

def cuGetProcAddressV2 (r : Real) (symbol : List Char) : Bool × Pointer :=
  if lazyResolve r "cuGetProcAddress_v2".toList = .null then (false, .null)
  else
    let (success, pfn) := r.cuGetProcAddress symbol
    if success then (true, replace symbol pfn) else (false, pfn)

/-- One lookup: dlsym in an open library, or a call of what an earlier lookup obtained. -/
inductive Link where
  | dlsym (library : ℕ) (symbol : List Char)
  | call (via : ℕ) (symbol : List Char)
  deriving DecidableEq

def Link.symbol : Link → List Char
  | .dlsym _ symbol => symbol
  | .call _ symbol => symbol

def callEntry (r : Real) (entry : Pointer) (symbol : List Char) : Option Pointer :=
  match entry with
  | .cuGetProcAddressV2 => some (cuGetProcAddressV2 r symbol).2
  | .driver name =>
    if name = "cuGetProcAddress".toList ∨ name = "cuGetProcAddress_v2".toList then
      some (r.cuGetProcAddress symbol).2
    else none
  | _ => none

def next (r : Real) (s : List (Link × Pointer)) (link : Link) : Option (List (Link × Pointer)) :=
  match link with
  | .dlsym library symbol => some (s ++ [(link, dlsym r (.library library) symbol)])
  | .call via symbol =>
    (s[via]?).bind fun entry =>
      (callEntry r entry.2 symbol).map fun pfn => s ++ [(link, pfn)]

def Redirected (symbol : List Char) (p : Pointer) : Prop :=
  (symbol = "cuLaunchKernel".toList ∨ symbol = "cuLaunchKernel_ptsz".toList →
      p = .cuLaunchKernel) ∧
    (symbol = "cuLaunchKernelEx".toList ∨ symbol = "cuLaunchKernelEx_ptsz".toList →
      p = .cuLaunchKernelEx) ∧
    (symbol = "cuGetProcAddress".toList ∨ symbol = "cuGetProcAddress_v2".toList →
      p = .cuGetProcAddressV2)

instance (symbol : List Char) (p : Pointer) : Decidable (Redirected symbol p) := by
  dsimp only [Redirected]
  infer_instance

def PerThread (symbol : List Char) : Prop :=
  symbol = "cuLaunchKernel_ptsz".toList ∨ symbol = "cuLaunchKernelEx_ptsz".toList

instance (symbol : List Char) : Decidable (PerThread symbol) := by
  dsimp only [PerThread]
  infer_instance

theorem named_iff {name : List Char} {n : ℕ} (length : name.length = n) (symbol : List Char) :
    named name n symbol ↔ symbol = name ∨ symbol = name ++ "_ptsz".toList := by
  subst length
  unfold named
  rw [List.take_length]
  constructor
  · rintro ⟨taken, rest | rest⟩
    · left
      rw [← List.take_append_drop name.length symbol, taken, rest, List.append_nil]
    · right
      rw [← List.take_append_drop name.length symbol, taken, rest]
  · rintro (rfl | rfl)
    · simp
    · simp

theorem replace_eq (symbol : List Char) (pfn : Pointer) :
    replace symbol pfn =
      if symbol = "cuLaunchKernel".toList ∨ symbol = "cuLaunchKernel_ptsz".toList then
        .cuLaunchKernel
      else if symbol = "cuLaunchKernelEx".toList ∨ symbol = "cuLaunchKernelEx_ptsz".toList then
        .cuLaunchKernelEx
      else if symbol = "cuGetProcAddress".toList ∨ symbol = "cuGetProcAddress_v2".toList then
        .cuGetProcAddressV2
      else pfn := by
  have kernel : named "cuLaunchKernel".toList 14 symbol ↔
      symbol = "cuLaunchKernel".toList ∨ symbol = "cuLaunchKernel_ptsz".toList :=
    named_iff (by decide) symbol
  have kernelEx : named "cuLaunchKernelEx".toList 16 symbol ↔
      symbol = "cuLaunchKernelEx".toList ∨ symbol = "cuLaunchKernelEx_ptsz".toList :=
    named_iff (by decide) symbol
  simp only [replace, kernel, kernelEx]

theorem replace_redirects (symbol : List Char) (pfn : Pointer) :
    Redirected symbol (replace symbol pfn) := by
  rw [replace_eq]
  refine ⟨?_, ?_, ?_⟩
  · rintro (rfl | rfl) <;> rfl
  · rintro (rfl | rfl) <;> rfl
  · rintro (rfl | rfl) <;> rfl

section Lookups
variable {r : Real} (succeeds : r.Succeeds)
include succeeds

theorem dlsym_library (n : ℕ) (symbol : List Char) :
    dlsym r (.library n) symbol =
      if PerThread symbol then .driver symbol else replace symbol (.driver symbol) := by
  have real : (Handle.library n ≠ .rtldNext ∧ Handle.library n ≠ .rtldDefault) := by simp
  simp only [dlsym, succeeds.dlsym, if_pos real]
  by_cases perThread : PerThread symbol
  · rw [if_pos perThread]
    rcases perThread with rfl | rfl <;> rfl
  · simp only [if_neg perThread, replace_eq]
    simp only [PerThread, not_or] at perThread
    simp only [perThread.1, perThread.2, false_or, or_comm]

theorem cuGetProcAddressV2_eq (symbol : List Char) :
    cuGetProcAddressV2 r symbol = (true, replace symbol (.driver symbol)) := by
  simp [cuGetProcAddressV2, lazyResolve, succeeds.dlsym, succeeds.cuGetProcAddress]

theorem dlsym_redirected_iff (n : ℕ) (symbol : List Char) :
    Redirected symbol (dlsym r (.library n) symbol) ↔ ¬ PerThread symbol := by
  rw [dlsym_library succeeds]
  by_cases perThread : PerThread symbol
  · rw [if_pos perThread]
    simp only [perThread, not_true_eq_false, iff_false]
    rcases perThread with rfl | rfl <;> decide
  · rw [if_neg perThread]
    exact iff_of_true (replace_redirects symbol _) perThread

end Lookups

def answer (r : Real) : Link → Pointer
  | .dlsym library symbol => dlsym r (.library library) symbol
  | .call _ symbol => (cuGetProcAddressV2 r symbol).2

/-- No driver entry of cuGetProcAddress is at hand. -/
def Enclosed (s : List (Link × Pointer)) : Prop :=
  ∀ entry ∈ s, entry.2 ≠ .driver "cuGetProcAddress".toList ∧
    entry.2 ≠ .driver "cuGetProcAddress_v2".toList

theorem next_answers {r : Real} {s t : List (Link × Pointer)} {link : Link} (enclosed : Enclosed s)
    (step : Fires (next r) s link t) : t = s ++ [(link, answer r link)] := by
  cases link with
  | dlsym library symbol => exact (Option.some.inj step).symm
  | call via symbol =>
    simp only [Fires, next, Option.bind_eq_some_iff, Option.map_eq_some_iff] at step
    obtain ⟨entry, found, pfn, called, rfl⟩ := step
    obtain ⟨first, second⟩ := enclosed entry (List.mem_of_getElem? found)
    cases pointer : entry.2 with
    | cuGetProcAddressV2 =>
      simp only [callEntry, pointer, Option.some.injEq] at called
      rw [← called, answer]
    | driver name =>
      rw [pointer] at first second
      have no_entry :
          ¬ (name = "cuGetProcAddress".toList ∨ name = "cuGetProcAddress_v2".toList) := by
        rintro (rfl | rfl)
        · exact first rfl
        · exact second rfl
      rw [pointer, callEntry, if_neg no_entry] at called
      cases called
    | _ =>
      rw [pointer] at called
      cases called

section Chains
variable {r : Real} (succeeds : r.Succeeds)
include succeeds

theorem answer_enclosed (link : Link) :
    answer r link ≠ .driver "cuGetProcAddress".toList ∧
      answer r link ≠ .driver "cuGetProcAddress_v2".toList := by
  have wrapped (symbol : List Char) :
      replace symbol (.driver symbol) ≠ .driver "cuGetProcAddress".toList ∧
        replace symbol (.driver symbol) ≠ .driver "cuGetProcAddress_v2".toList := by
    rw [replace_eq]
    split_ifs with kernel kernelEx entry
    · simp
    · simp
    · simp
    · simpa only [ne_eq, Pointer.driver.injEq, not_or] using entry
  cases link with
  | call via symbol =>
    rw [answer, cuGetProcAddressV2_eq succeeds]
    exact wrapped symbol
  | dlsym library symbol =>
    rw [answer, dlsym_library succeeds]
    by_cases perThread : PerThread symbol
    · rw [if_pos perThread]
      rcases perThread with rfl | rfl <;> decide
    · rw [if_neg perThread]
      exact wrapped symbol

theorem chain_answers {s t : List (Link × Pointer)} {links : List Link} (enclosed : Enclosed s)
    (run : Run (Fires (next r)) s links t) :
    t = s ++ links.map fun link => (link, answer r link) := by
  induction run with
  | nil s => simp
  | @cons s m t link rest first tail ih =>
    have moved := next_answers enclosed first
    subst moved
    have enclosed' : Enclosed (s ++ [(link, answer r link)]) := by
      intro entry member
      rcases List.mem_append.mp member with earlier | new
      · exact enclosed entry earlier
      · rw [List.mem_singleton.mp new]
        exact answer_enclosed succeeds link
    rw [ih enclosed', List.map_cons, List.append_assoc, List.singleton_append]

/-- Every lookup of a chain obtains the right pointer if and only if the chain asks dlsym
    for no _ptsz variant of a launch function; these are the symbols on which dlsym and the
    wrapper differ. -/
theorem lookups_redirected_iff {links : List Link} {t : List (Link × Pointer)}
    (run : Run (Fires (next r)) [] links t) :
    ((∀ entry ∈ t, Redirected entry.1.symbol entry.2) ↔
        ∀ library symbol, Link.dlsym library symbol ∈ links → ¬ PerThread symbol) ∧
      ∀ library symbol,
        dlsym r (.library library) symbol = (cuGetProcAddressV2 r symbol).2 ↔
          ¬ PerThread symbol := by
  have chain := chain_answers succeeds (s := []) (by simp [Enclosed]) run
  rw [List.nil_append] at chain
  subst chain
  constructor
  · constructor
    · intro redirected library symbol asked
      have pointer := redirected _ (List.mem_map_of_mem asked)
      exact (dlsym_redirected_iff succeeds library symbol).mp pointer
    · intro plain entry member
      obtain ⟨link, asked, rfl⟩ := List.mem_map.mp member
      cases link with
      | dlsym library symbol =>
        exact (dlsym_redirected_iff succeeds library symbol).mpr (plain library symbol asked)
      | call via symbol =>
        simp only [answer, cuGetProcAddressV2_eq succeeds, Link.symbol]
        exact replace_redirects symbol _
  · intro library symbol
    rw [dlsym_library succeeds, cuGetProcAddressV2_eq succeeds]
    by_cases perThread : PerThread symbol
    · simp only [perThread, if_true, not_true_eq_false, iff_false]
      rcases perThread with rfl | rfl <;> decide
    · simp only [perThread, if_false, not_false_eq_true]

end Chains

def driver : Real := ⟨some fun _ symbol => .driver symbol, fun symbol => (true, .driver symbol)⟩

theorem lookups_redirected_through_wrapper :
    ∃ t, Run (Fires (next driver)) []
        [.dlsym 0 "cuGetProcAddress_v2".toList, .call 0 "cuGetProcAddress".toList,
          .call 1 "cuLaunchKernelEx_ptsz".toList] t ∧
      ∀ entry ∈ t, Redirected entry.1.symbol entry.2 := by
  obtain ⟨t, run, _⟩ : ∃ t, Run (Fires (next driver)) []
      [.dlsym 0 "cuGetProcAddress_v2".toList, .call 0 "cuGetProcAddress".toList,
        .call 1 "cuLaunchKernelEx_ptsz".toList] t ∧ t.length == 3 :=
    run_reaches (fun t : List (Link × Pointer) => t.length == 3) (by decide +kernel)
  refine ⟨t, run, (lookups_redirected_iff ⟨rfl, fun _ => rfl⟩ run).1.mpr ?_⟩
  intro library symbol asked
  simp only [List.mem_cons, Link.dlsym.injEq, List.not_mem_nil, or_false, reduceCtorEq] at asked
  obtain ⟨_, rfl⟩ := asked
  decide

/-- The per-thread variant of a launch function, looked up in the driver library, is the
    driver's own. -/
theorem lookup_hands_out_driver_launch :
    ∃ t, Run (Fires (next driver)) [] [.dlsym 0 "cuLaunchKernel_ptsz".toList] t ∧
      (Link.dlsym 0 "cuLaunchKernel_ptsz".toList, .driver "cuLaunchKernel_ptsz".toList) ∈ t ∧
      ¬ ∀ entry ∈ t, Redirected entry.1.symbol entry.2 := by
  refine ⟨_, run_single (show Fires (next driver) [] _ _ from rfl), by decide, ?_⟩
  decide

end SymbolLookup
