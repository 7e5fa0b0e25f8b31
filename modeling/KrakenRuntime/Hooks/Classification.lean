import KrakenRuntime.Hooks.KillerPolicy
import KrakenRuntime.Lib.Json
import Mathlib.Data.Int.Cast.Lemmas

/- What a policy file says and how launches are classified after it was loaded. The count
   of KillerPolicy is the length of the index list alone, so the name side looks at that
   many slots: too few of them when there are more names, and empty ones, which every name
   contains, when there are fewer. The default patterns leave nine index slots at zero. -/
namespace Hooks
open CText Json

/-- A policy file. The names are given by how they are spelled and by what that means, and
    nothing is asked of the text outside the three members. -/
structure PolicyText where
  text : List Char
  clean : Char.ofNat 0 ∉ text
  killerIndices : Member text "killer_indices".toList
  killerNames : Member text "killer_names".toList
  kernelsPerIter : Member text "kernels_per_iter".toList
  indices : List ℕ
  indexItems : List Char
  indexArray : killerIndices.value = '[' :: (indexItems ++ [']'])
  indicesSpelled : Items Numeral indices indexItems
  spellings : List (List Char)
  nameItems : List Char
  nameArray : killerNames.value = '[' :: (nameItems ++ [']'])
  namesSpelled : Items (fun spelling t => t = quoted spelling) spellings nameItems
  names : List (List Char)
  namesRead : List.Forall₂ Spells spellings names
  iterLength : ℕ
  iterSpelled : Numeral iterLength kernelsPerIter.value
  iterStops : Stops isdigit kernelsPerIter.after
  fewIndices : indices.length ≤ maxKillerKernels
  fewNames : names.length ≤ maxKillerKernels
  unquoted : ∀ name ∈ names, '"' ∉ name
  intIndices : ∀ i ∈ indices, i < 2 ^ 31
  intIterLength : iterLength < 2 ^ 31

/-- The quoted member names first stand where the members are, and every name fits its slot
    as it is spelled. -/
structure PolicyText.Legible (d : PolicyText) : Prop where
  indicesFirst : d.killerIndices.First
  namesFirst : d.killerNames.First
  iterFirst : d.kernelsPerIter.First
  short : ∀ spelling ∈ d.spellings, spelling.length < maxKernelNameLen

section Readers
variable {g rest t : List Char} {room : ℕ}

theorem gap_skipped (gap : Gap g) : ∀ c ∈ g, isdigit c = false ∧ c ≠ '"' ∧ c ≠ ']' := by
  intro c member
  rcases gap c member with rfl | rfl | rfl | rfl | rfl <;> decide

theorem delimited_stops (delimited : Delimited rest) : Stops isdigit rest := by
  intro c here
  rcases delimited c here with rfl | rfl | rfl | rfl | rfl | rfl <;> decide

theorem gap_goes_on {c : Char} (gap : Gap g) (inside : c ≠ ']') :
    ¬ (g ++ c :: rest = [] ∨ (g ++ c :: rest).head? = some ']') := by
  rintro (ended | closed)
  · simp at ended
  · cases g with
    | nil => exact inside (by simpa using closed)
    | cons d g => exact (gap_skipped gap d (List.mem_cons_self ..)).2.2 (by simpa using closed)

theorem gap_dropWhile {p : Char → Bool} {c : Char} (gap : Gap g)
    (passes : ∀ d, isdigit d = false → d ≠ '"' → d ≠ ']' → p d = true) (stop : p c = false) :
    (g ++ c :: rest).dropWhile p = c :: rest := by
  apply dropWhile_run
  · intro d member
    obtain ⟨digit, quote, bracket⟩ := gap_skipped gap d member
    exact passes d digit quote bracket
  · rintro d ⟨⟩
    exact stop

theorem skips_to_int (d : Char) (digit : isdigit d = false) (_ : d ≠ '"') (bracket : d ≠ ']') :
    (!isdigit d && decide (d ≠ ']')) = true := by
  simp [digit, bracket]

theorem skips_to_name (d : Char) (_ : isdigit d = false) (quote : d ≠ '"') (bracket : d ≠ ']') :
    (decide (d ≠ '"') && decide (d ≠ ']')) = true := by
  simp [quote, bracket]

theorem readInts_close (gap : Gap g) : readInts room (g ++ ']' :: rest) = [] := by
  cases room with
  | zero => rfl
  | succ room =>
    simp only [readInts, gap_dropWhile gap skips_to_int (c := ']') (by decide)]
    split <;> rfl

theorem readInts_element {i : ℕ} (gap : Gap g) (numeral : Numeral i t)
    (delimited : Delimited rest) :
    readInts (room + 1) (g ++ (t ++ rest)) = (i : ℤ) :: readInts room rest := by
  obtain ⟨nonempty, digits, value⟩ := numeral
  have stops := delimited_stops delimited
  obtain ⟨c, t', rfl⟩ := List.exists_cons_of_ne_nil nonempty
  have digit := digits c (List.mem_cons_self ..)
  have inside : c ≠ ']' := by
    rintro rfl
    exact absurd digit (by decide)
  have skipped : (g ++ (c :: t' ++ rest)).dropWhile (fun c => !isdigit c && c ≠ ']') =
      c :: t' ++ rest := gap_dropWhile gap skips_to_int (by simp [digit])
  have goes_on : ¬ (g ++ (c :: t' ++ rest) = [] ∨ (g ++ (c :: t' ++ rest)).head? = some ']') :=
    gap_goes_on gap inside
  simp only [readInts, if_neg goes_on, skipped]
  rw [if_neg (by simpa using inside), atoi_digits nonempty digits stops,
    dropWhile_run digits stops, value]

theorem readNames_close (gap : Gap g) : readNames room (g ++ ']' :: rest) = [] := by
  cases room with
  | zero => rfl
  | succ room =>
    simp only [readNames, gap_dropWhile gap skips_to_name (c := ']') (by decide)]
    split <;> rfl

theorem readName_quoted {name : List Char} (unquoted : '"' ∉ name) :
    readName (name ++ '"' :: rest) = name.take (maxKernelNameLen - 1) := by
  rw [readName, takeWhile_ne unquoted]

theorem readNames_quoted {name : List Char} (gap : Gap g) (unquoted : '"' ∉ name) :
    readNames (room + 1) (g ++ (quoted name ++ rest)) =
      name.take (maxKernelNameLen - 1) :: readNames room
        (if name.length < maxKernelNameLen then rest
          else name.drop (maxKernelNameLen - 1) ++ '"' :: rest) := by
  have shape : quoted name ++ rest = '"' :: (name ++ '"' :: rest) := by simp [quoted]
  rw [shape]
  simp only [readNames, if_neg (gap_goes_on gap (show '"' ≠ ']' by decide)),
    gap_dropWhile gap skips_to_name (c := '"') (by decide), readName_quoted unquoted]
  congr 2
  by_cases short : name.length < maxKernelNameLen
  · have whole : (name.take (maxKernelNameLen - 1)).length = name.length := by
      rw [List.length_take]
      omega
    rw [if_pos short, whole, List.drop_left]
    simp
  · have cut : (name.take (maxKernelNameLen - 1)).length = maxKernelNameLen - 1 := by
      rw [List.length_take]
      omega
    have left : maxKernelNameLen - 1 < name.length := by
      have size : maxKernelNameLen = 256 := rfl
      omega
    have inside : name[maxKernelNameLen - 1] ≠ '"' := by
      intro quote
      exact unquoted (quote ▸ List.getElem_mem left)
    rw [if_neg short, cut, List.drop_append_of_le_length left.le, List.drop_eq_getElem_cons left,
      if_neg]
    simpa only [List.cons_append, List.head?_cons, Option.some.injEq] using inside

theorem readNames_element {name : List Char} (gap : Gap g) (unquoted : '"' ∉ name)
    (short : name.length < maxKernelNameLen) :
    readNames (room + 1) (g ++ (quoted name ++ rest)) = name :: readNames room rest := by
  rw [readNames_quoted gap unquoted, if_pos short, List.take_of_length_le (by omega)]

end Readers

theorem ints_reader :
    Reader Numeral (fun _ => True) readInts (fun i : ℕ => (i : ℤ)) where
  close gap := readInts_close gap
  element gap _ numeral delimited := readInts_element gap numeral delimited

theorem names_reader :
    Reader (fun spelling t => t = quoted spelling)
      (fun spelling => '"' ∉ spelling ∧ spelling.length < maxKernelNameLen) readNames id where
  close gap := readNames_close gap
  element := by
    rintro room g name t rest gap ⟨unquoted, short⟩ rfl _
    exact readNames_element gap unquoted short

theorem blanks_isspace {w : List Char} (blanks : Blanks w) : ∀ c ∈ w, isspace c = true := by
  intro c member
  rcases blanks c member with rfl | rfl | rfl | rfl <;> decide

theorem parseIntField_at {json key s t rest : List Char} {i : ℕ}
    (place : (strstr key json).bind (strchr ':') = some (':' :: (s ++ (t ++ rest))))
    (blanks : Blanks s) (numeral : Numeral i t) (stops : Stops isdigit rest) :
    parseIntField json key = i := by
  obtain ⟨nonempty, digits, value⟩ := numeral
  have number : Stops isspace (t ++ rest) := by
    obtain ⟨c, t', rfl⟩ := List.exists_cons_of_ne_nil nonempty
    rintro d ⟨⟩
    exact isdigit_not_isspace (digits c (List.mem_cons_self ..))
  simp only [parseIntField, place, List.tail_cons]
  rw [dropWhile_run (blanks_isspace blanks) number, atoi_digits nonempty digits stops, value]

section Slots
variable {α : Type} {xs : List α} {count : ℕ} {unused : α} {P : α → Prop}

/-- A search over the first slots of an array looks at what was stored there, and at unused
    slots where less was stored. -/
theorem exists_slot : (∃ i < count, P (store (fun _ => unused) xs i)) ↔
    (xs.length < count ∧ P unused) ∨ ∃ x ∈ xs.take count, P x := by
  constructor
  · rintro ⟨i, below, holds⟩
    simp only [store] at holds
    by_cases stored : i < xs.length
    · right
      rw [List.getElem?_eq_getElem stored, Option.getD_some] at holds
      exact ⟨xs[i], List.mem_take_iff_getElem.mpr ⟨i, by omega, rfl⟩, holds⟩
    · left
      rw [List.getElem?_eq_none (by omega), Option.getD_none] at holds
      exact ⟨by omega, holds⟩
  · rintro (⟨short, holds⟩ | ⟨x, member, holds⟩)
    · refine ⟨xs.length, short, ?_⟩
      simpa [store] using holds
    · obtain ⟨i, below, rfl⟩ := List.mem_take_iff_getElem.mp member
      refine ⟨i, by omega, ?_⟩
      rw [store, List.getElem?_eq_getElem (by omega), Option.getD_some]
      exact holds

theorem store_push (old : ℕ → α) (xs : List α) (x : α) :
    store old (xs ++ [x]) = Function.update (store old xs) xs.length x := by
  funext i
  by_cases new : i = xs.length
  · subst new
    simp [store]
  · rw [Function.update_of_ne new]
    by_cases stored : i < xs.length
    · simp [store, List.getElem?_append_left stored]
    · simp only [store]
      rw [List.getElem?_eq_none (by simp; omega), List.getElem?_eq_none (by omega)]

end Slots

section Loading
variable {d : PolicyText}

theorem spellings_length (d : PolicyText) : d.spellings.length = d.names.length :=
  d.namesRead.length_eq

theorem parseIntArray_indices (legible : d.Legible) (out : ℕ → ℤ) (count : ℕ) :
    parseIntArray d.text "\"killer_indices\"".toList out count maxKillerKernels =
      (store out (d.indices.map fun i : ℕ => (i : ℤ)), d.indices.length) := by
  have place := member_bracket legible.indicesFirst (by decide) d.indexArray
  have read := items_read ints_reader (by simp [readInts]) d.indicesSpelled maxKillerKernels
    d.killerIndices.after (by simp)
  rw [List.take_of_length_le d.fewIndices] at read
  have key : "\"killer_indices\"".toList = quoted "killer_indices".toList := by decide
  simp only [parseIntArray, key, place, List.tail_cons, read, List.length_map]

theorem parseStringArray_names (legible : d.Legible) (out : ℕ → List Char) (count : ℕ) :
    (parseStringArray d.text "\"killer_names\"".toList out count maxKillerKernels).1 =
      store out d.spellings := by
  have place := member_bracket legible.namesFirst (by decide) d.nameArray
  have read := items_read names_reader (by simp [readNames]) d.namesSpelled maxKillerKernels
    d.killerNames.after
    (fun spelling member =>
      ⟨spells_all_no_quote d.namesRead d.unquoted spelling member, legible.short spelling member⟩)
  rw [List.take_of_length_le ((spellings_length d).trans_le d.fewNames)] at read
  have key : "\"killer_names\"".toList = quoted "killer_names".toList := by decide
  simp only [parseStringArray, key, place, List.tail_cons, read, List.map_id]

theorem parseIntField_iter (legible : d.Legible) :
    parseIntField d.text "\"kernels_per_iter\"".toList = d.iterLength := by
  have place := member_colon legible.iterFirst (by decide)
  have key : "\"kernels_per_iter\"".toList = quoted "kernels_per_iter".toList := by decide
  rw [key]
  exact parseIntField_at place d.kernelsPerIter.blanksAfter d.iterSpelled d.iterStops

theorem loadKillerPolicy_policy (legible : d.Legible) :
    (loadKillerPolicy (some d.text) {}).policy =
      { count := d.indices.length
        indices := store (fun _ => 0) (d.indices.map fun i : ℕ => (i : ℤ))
        names := store (fun _ => []) d.spellings
        kernelsPerIter := d.iterLength
        loaded := true } := by
  simp only [loadKillerPolicy, cstr_eq d.clean, parseIntArray_indices legible,
    parseStringArray_names legible, parseIntField_iter legible]

end Loading

theorem addPattern_loop (patterns : List (List Char)) (p : KillerPolicy) :
    patterns.zipIdx.foldl addPattern p =
      { p with
        count := p.count + patterns.length
        names := store p.names (patterns.map fun pattern => pattern.take (maxKernelNameLen - 1)) } := by
  induction patterns using List.reverseRecOn with
  | nil => rfl
  | append_singleton patterns pattern ih =>
    rw [List.zipIdx_append, List.foldl_append, ih]
    simp only [List.zipIdx_singleton, List.foldl_cons, List.foldl_nil, addPattern, List.map_append,
      List.map_cons, List.map_nil, store_push, List.length_map, List.length_append,
      List.length_cons, List.length_nil, Nat.zero_add, Nat.add_assoc]

theorem setUpPolicy_defaults :
    (setUpPolicy none {}).policy = { count := 9, names := store (fun _ => []) defaults } := by
  simp only [setUpPolicy, addPatterns]
  rw [show defaults.take maxKillerKernels = defaults by decide, addPattern_loop]
  simp only [show defaults.map (fun pattern => pattern.take (maxKernelNameLen - 1)) = defaults by
    decide]
  rfl

def Hits (patterns : List (List Char)) (s : List Char) : Prop := ∃ t ∈ patterns, t <:+: s

instance (patterns : List (List Char)) (s : List Char) : Decidable (Hits patterns s) :=
  inferInstanceAs (Decidable (∃ t ∈ patterns, _))

theorem isKillerByName_iff (p : KillerPolicy) (s : List Char) :
    isKillerByName p (some s) = true ↔ ∃ i < p.count, p.names i <:+: s := by
  simp only [isKillerByName, List.any_eq_true, List.mem_range, strstr_isSome]

theorem isKillerByIndex_iff (p : KillerPolicy) (idx : ℤ) :
    isKillerByIndex p idx = true ↔ ∃ i < p.count,
      p.indices i = if 0 < p.kernelsPerIter then idx.tmod p.kernelsPerIter else idx := by
  simp only [isKillerByIndex, List.any_eq_true, List.mem_range, decide_eq_true_eq]

theorem isKiller_iff (g : Kraken) (s : List Char) :
    isKiller g (some s) = true ↔
      isKillerByName g.policy (some s) = true ∨ isKillerByIndex g.policy g.kernelIdx = true := by
  simp [isKiller]

inductive Setup where
  | document (d : PolicyText)
  | defaults

namespace Setup

def indices : Setup → List ℕ
  | document d => d.indices
  | defaults => []

def names : Setup → List (List Char)
  | document d => d.names
  | defaults => Hooks.defaults

def iterLength : Setup → ℕ
  | document d => d.iterLength
  | defaults => 0

/-- g_kraken after the policy was set up, at the launch with this running index. -/
def kraken (setup : Setup) (n : ℕ) : Kraken :=
  match setup with
  | document d => { setUpPolicy (some (some d.text)) {} with kernelIdx := n }
  | defaults => { setUpPolicy none {} with kernelIdx := n }

def Indexed (setup : Setup) (n : ℕ) : Prop :=
  (0 < setup.iterLength ∧ n % setup.iterLength ∈ setup.indices) ∨
    (setup.iterLength = 0 ∧ n ∈ setup.indices)

def Killer (setup : Setup) (s : List Char) (n : ℕ) : Prop :=
  Hits setup.names s ∨ setup.Indexed n

def Legible : Setup → Prop
  | document d => d.Legible
  | defaults => True

def Followed (setup : Setup) (s : List Char) (n : ℕ) : Prop :=
  match setup with
  | document d =>
    setup.Indexed n ∨
      (d.names.length < d.indices.length ∧ Hits d.names s) ∨
      (d.indices.length ≤ d.names.length ∧
        (Hits d.names s ↔ Hits (d.spellings.take d.indices.length) s))
  | defaults => Hits Hooks.defaults s ∨ n ≠ 0

end Setup

theorem exists_cast (indices : List ℕ) (m : ℕ) :
    (∃ i ∈ indices.map fun i : ℕ => (i : ℤ), i = (m : ℤ)) ↔ m ∈ indices := by
  simp

theorem document_index {d : PolicyText} (legible : d.Legible) (n : ℕ) :
    isKillerByIndex (loadKillerPolicy (some d.text) {}).policy n = true ↔
      (Setup.document d).Indexed n := by
  rw [isKillerByIndex_iff, loadKillerPolicy_policy legible]
  simp only
  rw [exists_slot (P := fun i => i = if 0 < (d.iterLength : ℤ) then (n : ℤ).tmod d.iterLength else n)]
  simp only [List.length_map, lt_irrefl, false_and, false_or, Setup.Indexed, Setup.iterLength,
    Setup.indices]
  rw [List.take_of_length_le (by simp)]
  by_cases looping : 0 < d.iterLength
  · have positive : d.iterLength ≠ 0 := by omega
    rw [if_pos (by omega), ← Int.ofNat_tmod, exists_cast]
    simp [looping, positive]
  · have zero : d.iterLength = 0 := by omega
    rw [if_neg (by omega), exists_cast]
    simp [zero]

theorem document_name {d : PolicyText} (legible : d.Legible) (s : List Char) :
    isKillerByName (loadKillerPolicy (some d.text) {}).policy (some s) = true ↔
      d.names.length < d.indices.length ∨ Hits (d.spellings.take d.indices.length) s := by
  rw [isKillerByName_iff, loadKillerPolicy_policy legible]
  simp only
  rw [exists_slot (P := fun t => t <:+: s), spellings_length]
  simp [Hits]

theorem defaults_name (s : List Char) :
    isKillerByName (setUpPolicy none {}).policy (some s) = true ↔ Hits defaults s := by
  rw [isKillerByName_iff, setUpPolicy_defaults]
  simp only
  rw [exists_slot (P := fun t => t <:+: s), show defaults.take 9 = defaults by decide]
  simp [Hits, defaults]

theorem defaults_index (n : ℕ) :
    isKillerByIndex (setUpPolicy none {}).policy n = true ↔ n = 0 := by
  rw [isKillerByIndex_iff, setUpPolicy_defaults]
  simp only
  constructor
  · rintro ⟨_, _, zero⟩
    simp at zero
    omega
  · rintro rfl
    exact ⟨0, by decide, rfl⟩

/-- A launch is classified as the policy says exactly if an index names it, or the names
    that have a slot decide about it as all of them do. -/
theorem killer_follows_policy (setup : Setup) (legible : setup.Legible) (s : List Char) (n : ℕ) :
    (isKiller (setup.kraken n) (some s) = true ↔ setup.Killer s n) ↔ setup.Followed s n := by
  rw [isKiller_iff]
  cases setup with
  | document d =>
    simp only [Setup.kraken, setUpPolicy, document_name legible, document_index legible,
      Setup.Killer, Setup.Followed, Setup.names]
    by_cases indexed : (Setup.document d).Indexed n
    · simp [indexed]
    · by_cases more : d.names.length < d.indices.length
      · simp [indexed, more, not_le.mpr more]
      · simp only [indexed, more, or_false, false_or, false_and, not_lt.mp more, true_and]
        exact iff_comm
  | defaults =>
    simp only [Setup.kraken, defaults_name, defaults_index, Setup.Killer, Setup.Followed,
      Setup.names]
    have unindexed : ¬ Setup.defaults.Indexed n := by simp [Setup.Indexed, Setup.indices]
    by_cases hit : Hits defaults s <;> simp [hit, unindexed]

section Written
variable (indexItems nameItems iter : List Char)

def written : List Char :=
  '\x7b' :: (quoted "killer_indices".toList ++ ':' :: ' ' :: '[' :: (indexItems ++ ']' :: ',' :: ' ' ::
    (quoted "killer_names".toList ++ ':' :: ' ' :: '[' :: (nameItems ++ ']' :: ',' :: ' ' ::
      (quoted "kernels_per_iter".toList ++ ':' :: ' ' :: (iter ++ ['\x7d']))))))

def writtenIndices : Member (written indexItems nameItems iter) "killer_indices".toList where
  before := ['\x7b']
  spaceBefore := []
  spaceAfter := [' ']
  value := '[' :: (indexItems ++ [']'])
  after := ',' :: ' ' :: (quoted "killer_names".toList ++ ':' :: ' ' :: '[' :: (nameItems ++
    ']' :: ',' :: ' ' :: (quoted "kernels_per_iter".toList ++ ':' :: ' ' :: (iter ++ ['\x7d']))))
  blanksBefore := by decide
  blanksAfter := by decide
  split_ := by simp only [written, List.append_assoc, List.cons_append, List.nil_append]

def writtenNames : Member (written indexItems nameItems iter) "killer_names".toList where
  before := '\x7b' :: (quoted "killer_indices".toList ++ ':' :: ' ' :: '[' :: (indexItems ++
    [']', ',', ' ']))
  spaceBefore := []
  spaceAfter := [' ']
  value := '[' :: (nameItems ++ [']'])
  after := ',' :: ' ' :: (quoted "kernels_per_iter".toList ++ ':' :: ' ' :: (iter ++ ['\x7d']))
  blanksBefore := by decide
  blanksAfter := by decide
  split_ := by simp only [written, List.append_assoc, List.cons_append, List.nil_append]

def writtenIter : Member (written indexItems nameItems iter) "kernels_per_iter".toList where
  before := '\x7b' :: (quoted "killer_indices".toList ++ ':' :: ' ' :: '[' :: (indexItems ++
    ']' :: ',' :: ' ' :: (quoted "killer_names".toList ++ ':' :: ' ' :: '[' :: (nameItems ++
      [']', ',', ' ']))))
  spaceBefore := []
  spaceAfter := [' ']
  value := iter
  after := ['\x7d']
  blanksBefore := by decide
  blanksAfter := by decide
  split_ := by simp only [written, List.append_assoc, List.cons_append, List.nil_append]

end Written

def gemmByName : PolicyText where
  text := written [] (quoted "gemm".toList) ['0']
  clean := by decide
  killerIndices := writtenIndices _ _ _
  killerNames := writtenNames _ _ _
  kernelsPerIter := writtenIter _ _ _
  indices := []
  indexItems := []
  indexArray := rfl
  indicesSpelled := .empty (by decide)
  spellings := ["gemm".toList]
  nameItems := quoted "gemm".toList
  nameArray := rfl
  namesSpelled := .some (elements_one rfl)
  names := ["gemm".toList]
  namesRead := .cons (spells_verbatim (by decide)) .nil
  iterLength := 0
  iterSpelled := ⟨by decide, List.all_eq_true.mp (by decide), by decide⟩
  iterStops := by rintro c ⟨⟩; decide
  fewIndices := by decide
  fewNames := by decide
  unquoted := by decide
  intIndices := by decide
  intIterLength := by decide

/-- A kernel whose name contains the only pattern of the policy is not taken for a killer. -/
theorem pattern_without_index_ignored :
    ¬ (isKiller ((Setup.document gemmByName).kraken 7) (some "sgemm_nt".toList) = true ↔
      (Setup.document gemmByName).Killer "sgemm_nt".toList 7) := by
  have missed : isKiller ((Setup.document gemmByName).kraken 7) (some "sgemm_nt".toList) = false := by
    decide +kernel
  have named : Hits gemmByName.names "sgemm_nt".toList := by decide +kernel
  rw [missed]
  intro followed
  exact absurd (followed.mpr (.inl named)) (by decide)

def gemmAndConv : PolicyText where
  text := written ['3'] (quoted "gemm".toList ++ ',' :: quoted "conv".toList) ['4']
  clean := by decide
  killerIndices := writtenIndices _ _ _
  killerNames := writtenNames _ _ _
  kernelsPerIter := writtenIter _ _ _
  indices := [3]
  indexItems := ['3']
  indexArray := rfl
  indicesSpelled := .some (elements_one ⟨by decide, List.all_eq_true.mp (by decide), by decide⟩)
  spellings := ["gemm".toList, "conv".toList]
  nameItems := quoted "gemm".toList ++ ',' :: quoted "conv".toList
  nameArray := rfl
  namesSpelled := .some (elements_cons rfl (elements_one rfl))
  names := ["gemm".toList, "conv".toList]
  namesRead := .cons (spells_verbatim (by decide)) (.cons (spells_verbatim (by decide)) .nil)
  iterLength := 4
  iterSpelled := ⟨by decide, List.all_eq_true.mp (by decide), by decide⟩
  iterStops := by rintro c ⟨⟩; decide
  fewIndices := by decide
  fewNames := by decide
  unquoted := by decide
  intIndices := by decide
  intIterLength := by decide

theorem gemmAndConv_legible : gemmAndConv.Legible where
  indicesFirst := first_of_scan (by decide +kernel)
  namesFirst := first_of_scan (by decide +kernel)
  iterFirst := first_of_scan (by decide +kernel)
  short := by decide

/-- The first of the two names has a slot and is found, the second one has none. -/
theorem first_name_found_second_missed :
    (isKiller ((Setup.document gemmAndConv).kraken 6) (some "sgemm_nt".toList) = true ↔
      (Setup.document gemmAndConv).Killer "sgemm_nt".toList 6) ∧
    ¬ (isKiller ((Setup.document gemmAndConv).kraken 6) (some "conv2d".toList) = true ↔
      (Setup.document gemmAndConv).Killer "conv2d".toList 6) := by
  have unindexed : ¬ (Setup.document gemmAndConv).Indexed 6 := by
    rintro (⟨_, member⟩ | ⟨zero, _⟩)
    · exact absurd member (by decide)
    · exact absurd zero (by decide)
  constructor
  · apply (killer_follows_policy (.document gemmAndConv) gemmAndConv_legible _ _).mpr
    right
    right
    refine ⟨by decide, ?_⟩
    decide +kernel
  · rw [killer_follows_policy (.document gemmAndConv) gemmAndConv_legible]
    rintro (indexed | ⟨more, _⟩ | ⟨_, same⟩)
    · exact unindexed indexed
    · exact absurd more (by decide)
    · revert same
      decide +kernel

end Hooks
