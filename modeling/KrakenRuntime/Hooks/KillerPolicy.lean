import KrakenRuntime.Lib.CText
import Mathlib.Logic.Function.Basic

/- The killer policy of the hook library (cuda_hooks.cpp, kraken_runtime.h): the three
   parsers of the policy file, load_killer_policy, the default patterns of kraken_init, and
   the classification of a launch. The arrays of KillerPolicy are functions on all indices
   of which only the first 512 are used, and a name is the text before its NUL. The fields
   that only the profiler reads, the messages on stderr, and the driver call that names the
   function of a launch are left out. -/
namespace Hooks
open CText

def maxKillerKernels : ℕ := 512

def maxKernelNameLen : ℕ := 256

structure KillerPolicy where
  count : ℕ := 0
  indices : ℕ → ℤ := fun _ => 0
  names : ℕ → List Char := fun _ => []
  kernelsPerIter : ℤ := 0
  loaded : Bool := false

/-- The part of g_kraken that classification reads. -/
structure Kraken where
  policy : KillerPolicy := {}
  kernelsPerIter : ℤ := 0
  kernelIdx : ℤ := 0

def store {α : Type} (old : ℕ → α) (xs : List α) (i : ℕ) : α := (xs[i]?).getD (old i)

def readInts : ℕ → List Char → List ℤ
  | 0, _ => []
  | room + 1, p =>
    if p = [] ∨ p.head? = some ']' then []
    else
      let q := p.dropWhile fun c => !isdigit c && c ≠ ']'
      if q.head? = some ']' then [] else atoi q :: readInts room (q.dropWhile isdigit)

def parseIntArray (json key : List Char) (out : ℕ → ℤ) (count max : ℕ) : (ℕ → ℤ) × ℕ :=
  match (strstr key json).bind (strchr '[') with
  | none => (out, count)
  | some p => (store out (readInts max p.tail), (readInts max p.tail).length)

def readName (p : List Char) : List Char :=
  (p.takeWhile fun c => c ≠ '"').take (maxKernelNameLen - 1)

/-- The loop of parse_string_array. A name that does not fit is left where it was cut. -/
def readNames : ℕ → List Char → List (List Char)
  | 0, _ => []
  | room + 1, p =>
    if p = [] ∨ p.head? = some ']' then []
    else
      match p.dropWhile fun c => c ≠ '"' && c ≠ ']' with
      | '"' :: q =>
        let rest := q.drop (readName q).length
        readName q :: readNames room (if rest.head? = some '"' then rest.tail else rest)
      | _ => []

def parseStringArray (json key : List Char) (out : ℕ → List Char) (count max : ℕ) :
    (ℕ → List Char) × ℕ :=
  match (strstr key json).bind (strchr '[') with
  | none => (out, count)
  | some p => (store out (readNames max p.tail), (readNames max p.tail).length)

def parseIntField (json key : List Char) : ℤ :=
  match (strstr key json).bind (strchr ':') with
  | none => 0
  | some p => atoi (p.tail.dropWhile isspace)

/-- The argument is what the file holds, if it can be opened. -/
def loadKillerPolicy (file : Option (List Char)) (g : Kraken) : Kraken :=
  match file with
  | none => g
  | some content =>
    let buf := cstr content
    let (indices, count) := parseIntArray buf "\"killer_indices\"".toList g.policy.indices
      g.policy.count maxKillerKernels
    let (names, _) := parseStringArray buf "\"killer_names\"".toList g.policy.names 0
      maxKillerKernels
    let kernelsPerIter := parseIntField buf "\"kernels_per_iter\"".toList
    { g with
      kernelsPerIter := kernelsPerIter
      policy :=
        { count := count
          indices := indices
          names := names
          kernelsPerIter := kernelsPerIter
          loaded := true } }

def defaults : List (List Char) :=
  ["sgemm".toList, "dgemm".toList, "hgemm".toList, "gemm".toList, "fprop".toList, "xmma".toList,
    "cutlass".toList, "fmha".toList, "matmul".toList]

def addPattern (p : KillerPolicy) (pattern : List Char × ℕ) : KillerPolicy :=
  { p with
    names := Function.update p.names pattern.2 (pattern.1.take (maxKernelNameLen - 1))
    count := p.count + 1 }

def addPatterns (patterns : List (List Char)) (p : KillerPolicy) : KillerPolicy :=
  (patterns.take maxKillerKernels).zipIdx.foldl addPattern p

/-- What kraken_init does about the policy, by whether KRAKEN_KILLER_POLICY names a file. -/
def setUpPolicy (policyPath : Option (Option (List Char))) (g : Kraken) : Kraken :=
  match policyPath with
  | some file => loadKillerPolicy file g
  | none => { g with policy := addPatterns defaults g.policy }

def isKillerByName (p : KillerPolicy) (name : Option (List Char)) : Bool :=
  match name with
  | none => false
  | some s => (List.range p.count).any fun i => (strstr (p.names i) s).isSome

def isKillerByIndex (p : KillerPolicy) (idx : ℤ) : Bool :=
  let iterIdx := if 0 < p.kernelsPerIter then idx.tmod p.kernelsPerIter else idx
  (List.range p.count).any fun i => p.indices i = iterIdx

def isKiller (g : Kraken) (name : Option (List Char)) : Bool :=
  (name.isSome && isKillerByName g.policy name) || isKillerByIndex g.policy g.kernelIdx

end Hooks
