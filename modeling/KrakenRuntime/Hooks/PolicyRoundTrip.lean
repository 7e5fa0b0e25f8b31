import KrakenRuntime.Hooks.Classification

/- Policy files that are written as one JSON object and read back by load_killer_policy. The
   parsers look for the quoted name of a field and do not see whether it stands as the name
   of a member, and parse_string_array goes on inside a name that it had to cut. So what is
   read back depends on the names and on the order of the fields. -/
namespace Hooks.PolicyRoundTrip
open CText Json

inductive Field where
  | killerIndices
  | killerNames
  | kernelsPerIter
  deriving DecidableEq

def Field.key : Field → List Char
  | killerIndices => "killer_indices".toList
  | killerNames => "killer_names".toList
  | kernelsPerIter => "kernels_per_iter".toList

def valueText (indexItems nameItems iterText : List Char) : Field → List Char
  | .killerIndices => '[' :: (indexItems ++ [']'])
  | .killerNames => '[' :: (nameItems ++ [']'])
  | .kernelsPerIter => iterText

/-- A policy and how it is written. The names stand between their quotes as they are. -/
structure Document where
  order : List Field
  each : order.Perm [.killerIndices, .killerNames, .kernelsPerIter]
  indices : List ℕ
  names : List (List Char)
  iterLength : ℕ
  intIndices : ∀ i ∈ indices, i < 2 ^ 31
  plain : ∀ name ∈ names, ∀ c ∈ name, c ≠ '"' ∧ c ≠ '\\' ∧ c ≠ Char.ofNat 0
  positive : 0 < iterLength
  intIterLength : iterLength < 2 ^ 31
  indexItems : List Char
  indicesSpelled : Items Integer indices indexItems
  nameItems : List Char
  namesSpelled : Items (fun name t => t = quoted name) names nameItems
  iterText : List Char
  iterSpelled : Integer iterLength iterText
  text : List Char
  spelled : Object Field.key (valueText indexItems nameItems iterText) order text

def Document.value (d : Document) : Field → List Char :=
  valueText d.indexItems d.nameItems d.iterText

/-- What loading should leave: as much of the two lists as there are slots, each name as far
    as a slot holds it, and the slots behind them as they were. -/
def Document.loaded (d : Document) (g : Kraken) : Kraken :=
  { g with
    kernelsPerIter := d.iterLength
    policy :=
      { count := (d.indices.take maxKillerKernels).length
        indices := store g.policy.indices
          ((d.indices.take maxKillerKernels).map fun i : ℕ => (i : ℤ))
        names := store g.policy.names
          ((d.names.take maxKillerKernels).map fun name => name.take (maxKernelNameLen - 1))
        kernelsPerIter := d.iterLength
        loaded := true } }

def Document.RoundTrips (d : Document) : Prop :=
  ∀ g : Kraken, loadKillerPolicy (some d.text) g = d.loaded g

/-- A name that does not fit its slot is the last one and has a bracket that closes the
    array behind the cut, or there is no slot after it. -/
def Fits (room : ℕ) (names : List (List Char)) : Prop :=
  ∀ i name, i + 1 < room → names[i]? = some name →
    name.length < maxKernelNameLen ∨
      (i + 1 = names.length ∧ ']' ∈ name.drop (maxKernelNameLen - 1))

/-- Names that are spelled like a field that stands after them do no harm: from there the
    next bracket, or the next colon, is still the one of that field. -/
structure Legible (order : List Field) (names : List (List Char)) : Prop where
  fits : Fits maxKillerKernels names
  indices : Field.killerIndices ∈ later .killerNames order →
    ∀ name ∈ later (Field.key .killerIndices) names, '[' ∉ name
  iter : Field.kernelsPerIter ∈ later .killerNames order →
    Field.key .kernelsPerIter ∈ names →
      (later .killerNames order).head? = some .kernelsPerIter ∧
      ∀ name ∈ later (Field.key .kernelsPerIter) names, ':' ∉ name

theorem key_word (f : Field) : Word f.key := by
  cases f <;> decide

theorem key_injective : Function.Injective Field.key := by
  intro f g same
  revert same
  cases f <;> cases g <;> decide

section Reading
variable {room : ℕ} {g t u rest : List Char} {names : List (List Char)}

theorem readInts_stop (room : ℕ) (u rest : List Char) :
    readInts room (u ++ ']' :: rest) = readInts room (u ++ [']']) := by
  induction room generalizing u with
  | zero => rfl
  | succ room ih =>
    have head : ∀ v : List Char, (v ++ ']' :: rest).head? = (v ++ [']']).head? := by
      intro v
      cases v <;> rfl
    have skipped : ∀ after, (u ++ ']' :: after).dropWhile (fun c => !isdigit c && c ≠ ']') =
        u.dropWhile (fun c => !isdigit c && c ≠ ']') ++ ']' :: after := by
      intro after
      exact dropWhile_stop (by decide)
    have number : ∀ v after : List Char, atoi (v ++ ']' :: after) = atoi v := by
      intro v after
      exact atoi_stop v after (by decide) (by decide) (by decide) (by decide)
    have digits : ∀ v after : List Char,
        (v ++ ']' :: after).dropWhile isdigit = v.dropWhile isdigit ++ ']' :: after := by
      intro v after
      exact dropWhile_stop (by decide)
    simp only [readInts, skipped, number, digits, head, ih]
    simp

theorem integers_reader : Reader Integer (fun _ => True) readInts (fun i : ℕ => (i : ℤ)) where
  close gap := readInts_close gap
  element gap _ integer delimited := readInts_element gap integer.toNumeral delimited

theorem dropWhile_to_mark {c : Char} (clear : ']' ∉ u) (unquoted : '"' ∉ u) (mark : c = '"' ∨ c = ']') :
    (u ++ c :: rest).dropWhile (fun c => c ≠ '"' && c ≠ ']') = c :: rest := by
  apply dropWhile_run
  · intro d member
    simp only [Bool.and_eq_true, decide_eq_true_eq]
    constructor
    · rintro rfl
      exact unquoted member
    · rintro rfl
      exact clear member
  · rintro d ⟨⟩
    rcases mark with rfl | rfl <;> decide

theorem readNames_bracket (closed : ']' ∈ u) (unquoted : '"' ∉ u) :
    readNames room (u ++ rest) = [] := by
  obtain ⟨v, w, rfl, clear⟩ := List.eq_append_cons_of_mem closed
  simp only [List.mem_append, List.mem_cons, not_or] at unquoted
  rw [List.append_assoc, List.cons_append]
  cases room with
  | zero => rfl
  | succ room =>
    simp only [readNames, dropWhile_to_mark clear unquoted.1 (.inr rfl)]
    split <;> rfl

theorem readNames_quote (room : ℕ) (rest : List Char) (clear : ']' ∉ u) (unquoted : '"' ∉ u) :
    ∃ more, readNames (room + 1) (u ++ '"' :: rest) = readName rest :: more := by
  have goes_on : ¬ (u ++ '"' :: rest = [] ∨ (u ++ '"' :: rest).head? = some ']') := by
    rintro (ended | closed)
    · simp at ended
    · cases u with
      | nil => exact absurd closed (by simp)
      | cons c u =>
        simp only [List.cons_append, List.head?_cons, Option.some.injEq] at closed
        exact clear (by simp [closed])
  simp only [readNames, if_neg goes_on, dropWhile_to_mark clear unquoted (.inl rfl)]
  exact ⟨_, rfl⟩

theorem fits_tail {name : List Char} (fits : Fits (room + 1) (name :: names)) : Fits room names := by
  intro i other below here
  rcases fits (i + 1) other (by omega) (by simpa using here) with short | ⟨last, closed⟩
  · exact .inl short
  · exact .inr ⟨by simpa using last, closed⟩

theorem fits_cons {name : List Char}
    (head : name.length < maxKernelNameLen ∨
      (names = [] ∧ ']' ∈ name.drop (maxKernelNameLen - 1)))
    (tail : Fits room names) : Fits (room + 1) (name :: names) := by
  intro i other below here
  cases i with
  | zero =>
    rw [List.getElem?_cons_zero, Option.some.injEq] at here
    subst here
    rcases head with short | ⟨rfl, closed⟩
    · exact .inl short
    · exact .inr ⟨rfl, closed⟩
  | succ i =>
    rcases tail i other (by omega) (by simpa using here) with short | ⟨last, closed⟩
    · exact .inl short
    · exact .inr ⟨by simpa using last, closed⟩

theorem fits_short {name other : List Char} (fits : Fits (room + 2) (name :: other :: names)) :
    name.length < maxKernelNameLen := by
  rcases fits 0 name (by omega) rfl with short | ⟨last, _⟩
  · exact short
  · simp at last

theorem readNames_elements (elements : Elements (fun name t => t = quoted name) names t)
    (gap : Gap g) (fits : Fits room names) (unquoted : ∀ name ∈ names, '"' ∉ name) :
    readNames room (g ++ (t ++ ']' :: rest)) =
      (names.take room).map fun name => name.take (maxKernelNameLen - 1) := by
  induction elements generalizing room g with
  | @last a b t name before element after =>
    subst element
    have clean := unquoted name (List.mem_cons_self ..)
    cases room with
    | zero => rfl
    | succ room =>
      have regroup : g ++ (a ++ (quoted name ++ b) ++ ']' :: rest) =
          (g ++ a) ++ (quoted name ++ (b ++ ']' :: rest)) := by simp only [List.append_assoc]
      rw [regroup, readNames_quoted (gap_append gap (blanks_gap before)) clean]
      have ends : readNames room (if name.length < maxKernelNameLen then b ++ ']' :: rest
          else name.drop (maxKernelNameLen - 1) ++ '"' :: (b ++ ']' :: rest)) = [] := by
        by_cases short : name.length < maxKernelNameLen
        · rw [if_pos short, readNames_close (blanks_gap after)]
        · rw [if_neg short]
          cases room with
          | zero => rfl
          | succ room =>
            rcases fits 0 name (by omega) rfl with fit | ⟨_, closed⟩
            · exact absurd fit short
            · exact readNames_bracket closed fun member => clean (List.mem_of_mem_drop member)
      rw [ends]
      simp
  | @next a b t others name names before element after elements ih =>
    subst element
    have clean := unquoted name (List.mem_cons_self ..)
    cases room with
    | zero => rfl
    | succ room =>
      have regroup : g ++ (a ++ (quoted name ++ (b ++ ',' :: others)) ++ ']' :: rest) =
          (g ++ a) ++ (quoted name ++ ((b ++ [',']) ++ (others ++ ']' :: rest))) := by
        simp only [List.append_assoc, List.cons_append, List.nil_append]
      have comma : Gap (b ++ [',']) := gap_append (blanks_gap after) (by simp [Gap])
      have read := @ih room _ comma (fits_tail fits)
        (fun other member => unquoted other (List.mem_cons_of_mem _ member))
      rw [regroup, readNames_quoted (gap_append gap (blanks_gap before)) clean]
      cases room with
      | zero => simp [readNames]
      | succ room =>
        have short : name.length < maxKernelNameLen := by
          obtain ⟨other, names, rfl⟩ := List.exists_cons_of_ne_nil
            (show names ≠ [] by rintro rfl; cases elements)
          exact fits_short fits
        rw [if_pos short, read]
        simp

theorem readNames_items (items : Items (fun name t => t = quoted name) names t)
    (fits : Fits room names) (unquoted : ∀ name ∈ names, '"' ∉ name) (rest : List Char) :
    readNames room (t ++ ']' :: rest) =
      (names.take room).map fun name => name.take (maxKernelNameLen - 1) := by
  cases items with
  | empty blanks =>
    rw [readNames_close (blanks_gap blanks)]
    simp
  | some elements => exact readNames_elements (g := []) elements (by simp [Gap]) fits unquoted

theorem joined_opens (space name : List Char) (names : List (List Char)) :
    ∃ w, joined space quoted (name :: names) = '"' :: w := by
  cases names with
  | nil => exact ⟨_, rfl⟩
  | cons other names => exact ⟨_, rfl⟩

/-- The first of several names fits, if the one after it is read back with and without a
    blank between the two: the name that a cut leaves in its place is the text between them. -/
theorem short_of_read (room : ℕ) {name other : List Char} {names : List (List Char)} (unquoted : '"' ∉ name)
    (read : ∀ space ∈ [[], [' ']], ∃ g rest tail, Gap g ∧
      readNames (room + 2) (g ++ (joined space quoted (name :: other :: names) ++ rest)) =
        name.take (maxKernelNameLen - 1) :: other.take (maxKernelNameLen - 1) :: tail) :
    name.length < maxKernelNameLen := by
  by_contra long
  have clean : '"' ∉ name.drop (maxKernelNameLen - 1) :=
    fun member => unquoted (List.mem_of_mem_drop member)
  have misread : ∀ space ∈ [[], [' ']], other.take (maxKernelNameLen - 1) = ',' :: space := by
    intro space blank
    obtain ⟨g, rest, tail, gap, same⟩ := read space blank
    obtain ⟨w, opens⟩ := joined_opens space other names
    have regroup : joined space quoted (name :: other :: names) ++ rest =
        quoted name ++ ((',' :: space) ++ '"' :: (w ++ rest)) := by simp [joined, opens]
    rw [regroup, readNames_quoted gap unquoted, if_neg long, List.cons.injEq] at same
    by_cases closed : ']' ∈ name.drop (maxKernelNameLen - 1)
    · rw [readNames_bracket closed clean] at same
      cases same.2
    · obtain ⟨more, between⟩ := readNames_quote room
        ((',' :: space) ++ '"' :: (w ++ rest)) closed clean
      have plain : '"' ∉ ',' :: space := by
        revert blank
        simp only [List.mem_cons, List.not_mem_nil, or_false]
        rintro (rfl | rfl) <;> decide
      rw [between, readName_quoted plain] at same
      rw [← (List.cons.inj same.2).1]
      revert blank
      simp only [List.mem_cons, List.not_mem_nil, or_false]
      rintro (rfl | rfl) <;> decide
  have once := misread [] (by decide)
  rw [misread [' '] (by decide)] at once
  exact absurd once (by decide)

theorem closed_of_read {name : List Char} (unquoted : '"' ∉ name) (gap : Gap g)
    (read : readNames (room + 2) (g ++ (quoted name ++ rest)) =
      [name.take (maxKernelNameLen - 1)]) :
    name.length < maxKernelNameLen ∨ ']' ∈ name.drop (maxKernelNameLen - 1) := by
  by_cases short : name.length < maxKernelNameLen
  · exact .inl short
  · right
    by_contra open_
    obtain ⟨more, between⟩ := readNames_quote room rest open_
      (fun member => unquoted (List.mem_of_mem_drop member))
    rw [readNames_quoted gap unquoted, if_neg short, between] at read
    simp at read

theorem fits_of_read (unquoted : ∀ name ∈ names, '"' ∉ name)
    (read : ∀ space ∈ [[], [' ']], ∃ g rest, Gap g ∧
      readNames room (g ++ (joined space quoted names ++ ']' :: rest)) =
        (names.take room).map fun name => name.take (maxKernelNameLen - 1)) :
    Fits room names := by
  induction names generalizing room with
  | nil =>
    intro i name below here
    simp at here
  | cons name names ih =>
    have clean := unquoted name (List.mem_cons_self ..)
    match room with
    | 0 => exact fun i _ below _ => absurd below (by omega)
    | 1 => exact fun i _ below _ => absurd below (by omega)
    | room + 2 =>
      cases names with
      | nil =>
        obtain ⟨g, rest, gap, same⟩ := read [] (by decide)
        apply fits_cons
        · rcases closed_of_read clean gap same with short | closed
          · exact .inl short
          · exact .inr ⟨rfl, closed⟩
        · intro i other below here
          simp at here
      | cons other names =>
        have short : name.length < maxKernelNameLen := by
          apply short_of_read room clean
          intro space blank
          obtain ⟨g, rest, gap, same⟩ := read space blank
          exact ⟨g, _, _, gap, same⟩
        apply fits_cons (.inl short)
        apply ih (fun name member => unquoted name (List.mem_cons_of_mem _ member))
        intro space blank
        obtain ⟨g, rest, gap, same⟩ := read space blank
        have spaced : Gap (',' :: space) := by
          revert blank
          simp only [List.mem_cons, List.not_mem_nil, or_false]
          rintro (rfl | rfl) <;> simp [Gap]
        have regroup : joined space quoted (name :: other :: names) ++ ']' :: rest =
            quoted name ++ ((',' :: space) ++ (joined space quoted (other :: names) ++ ']' :: rest)) := by
          simp [joined]
        rw [regroup, readNames_quoted gap clean, if_pos short] at same
        exact ⟨_, rest, spaced, (List.cons.inj same).2⟩

end Reading

theorem strchr_gap {c : Char} (mark : c ∈ [':', '[']) {a rest : List Char} (gap : Gap a) :
    strchr c (a ++ rest) = strchr c rest := by
  apply strchr_clear
  intro member
  revert mark
  rcases gap c member with rfl | rfl | rfl | rfl | rfl <;> decide

theorem store_injective {xs ys : List (List Char)}
    (same : ∀ out : ℕ → List Char, store out xs = store out ys) : xs = ys := by
  apply List.ext_getElem?
  intro i
  have slot : ∀ x, (xs[i]?).getD x = (ys[i]?).getD x := fun x => congrFun (same fun _ => x) i
  cases left : xs[i]? with
  | none =>
    cases right : ys[i]? with
    | none => rfl
    | some y =>
      have kept := slot ('x' :: y)
      simp [left, right] at kept
  | some x =>
    cases right : ys[i]? with
    | none =>
      have kept := slot ('x' :: x)
      simp [left, right] at kept
    | some y => simpa [left, right] using slot x

namespace Document
variable (d : Document)

theorem nodup : d.order.Nodup := by
  rw [d.each.nodup_iff]
  decide

theorem mem_order (f : Field) : f ∈ d.order := by
  rw [d.each.mem_iff]
  cases f <;> decide

theorem unquoted : ∀ name ∈ d.names, '"' ∉ name := by
  intro name member quote
  exact (d.plain name member _ quote).1 rfl

theorem value_clear {c : Char} (mark : c = '"' ∨ c = Char.ofNat 0) {f : Field}
    (other : f ≠ .killerNames) : c ∉ d.value f := by
  have numeral : ∀ {i t}, Integer i t → c ∉ t := by
    intro i t integer member
    have digit := integer.digits c member
    rcases mark with rfl | rfl <;> exact absurd digit (by decide)
  cases f with
  | killerIndices =>
    have items := items_clear (c := c) d.indicesSpelled (by rcases mark with rfl | rfl <;> decide)
      (by rcases mark with rfl | rfl <;> decide) (fun _ _ _ spelled => numeral spelled)
    rcases mark with rfl | rfl <;> simp [value, valueText, items]
  | killerNames => exact absurd rfl other
  | kernelsPerIter => exact numeral d.iterSpelled

theorem value_passed {f : Field} {k : List Char} (word : Word k)
    (absent : f = .killerNames → k ∉ d.names) (rest : List Char) :
    strstr (quoted k) (d.value f ++ rest) = strstr (quoted k) rest := by
  by_cases other : f = .killerNames
  · subst other
    have regroup : d.value .killerNames ++ rest = ['['] ++ (d.nameItems ++ ']' :: rest) := by
      simp [value, valueText]
    rw [regroup, strstr_clear (by decide),
      strings_passed d.namesSpelled word d.unquoted (absent rfl)]
  · exact strstr_clear (d.value_clear (.inl rfl) other)

theorem names_once : .killerNames ∉ later .killerNames d.order := by
  obtain ⟨before, _, split_⟩ := later_split (d.mem_order .killerNames)
  have distinct := d.nodup
  rw [split_, List.nodup_append] at distinct
  exact (List.nodup_cons.mp distinct.2.1).1

theorem before_names {f g : Field} {before : List Field}
    (split_ : d.order = before ++ .killerNames :: later .killerNames d.order)
    (behind : f ∈ later .killerNames d.order) (member : g ∈ before) : g ≠ f := by
  rintro rfl
  have distinct := d.nodup
  rw [split_, List.nodup_append] at distinct
  exact distinct.2.2 g member g (List.mem_cons_of_mem _ behind) rfl

theorem find_member {f : Field} (clear : f ∈ later .killerNames d.order → f.key ∉ d.names) :
    ∃ m r b after, Entry Field.key d.value f m ∧ Remaining (Entry Field.key d.value) after r ∧
      strstr (quoted f.key) d.text = some (m ++ (r ++ '\x7d' :: b)) := by
  obtain ⟨before, after, split_, absent⟩ := List.eq_append_cons_of_mem (d.mem_order f)
  have hidden : ∀ g ∈ before, g = .killerNames → f.key ∉ d.names := by
    rintro g member rfl
    obtain ⟨front, back, rfl, first⟩ := List.eq_append_cons_of_mem member
    apply clear
    rw [split_, List.append_assoc, List.cons_append, later_append first]
    simp
  have object := d.spelled
  rw [split_] at object
  obtain ⟨m, r, b, entry, remaining, arrives⟩ := object_reach (key_word f) object
    (fun g member => ⟨key_word g _ (by decide), fun same => absent (key_injective same ▸ member)⟩)
    (fun g member rest => d.value_passed (key_word f) (hidden g member) rest)
  exact ⟨m, r, b, after, entry, remaining, arrives.trans (entry_found entry _)⟩

theorem find_in_names {f : Field} (behind : f ∈ later .killerNames d.order) :
    ∃ r b, Remaining (Entry Field.key d.value) (later .killerNames d.order) r ∧
      strstr (quoted f.key) d.text =
        strstr (quoted f.key) (d.nameItems ++ ']' :: (r ++ '\x7d' :: b)) := by
  obtain ⟨before, absent, split_⟩ := later_split (d.mem_order .killerNames)
  have object := d.spelled
  rw [split_] at object
  obtain ⟨m, r, b, entry, remaining, arrives⟩ := object_reach (key_word f) object
    (fun g member => ⟨key_word g _ (by decide),
      fun same => d.before_names split_ behind member (key_injective same)⟩)
    (fun g member rest => d.value_passed (key_word f) (fun same => absurd (same ▸ member) absent) rest)
  have other : Field.key .killerNames ≠ f.key := by
    intro same
    exact d.names_once (key_injective same ▸ behind)
  have regroup : valueText d.indexItems d.nameItems d.iterText .killerNames ++ (r ++ '\x7d' :: b) =
      ['['] ++ (d.nameItems ++ ']' :: (r ++ '\x7d' :: b)) := by simp [valueText]
  refine ⟨r, b, remaining, ?_⟩
  rw [arrives, entry_value (key_word f) (key_word _ _ (by decide)) other entry, regroup,
    strstr_clear (by decide)]

theorem find_names :
    ∃ rest, (strstr (quoted (Field.key .killerNames)) d.text).bind (strchr '[') =
      some ('[' :: (d.nameItems ++ ']' :: rest)) := by
  obtain ⟨m, r, b, _, entry, _, found⟩ := d.find_member (fun behind => absurd behind d.names_once)
  refine ⟨r ++ '\x7d' :: b, ?_⟩
  rw [found, Option.bind_some, entry_bracket entry (key_word _) rfl]
  simp

theorem bracket_behind_names (behind : .killerIndices ∈ later .killerNames d.order)
    {r : List Char} (remaining : Remaining (Entry Field.key d.value) (later .killerNames d.order) r)
    (b : List Char) :
    ∃ rest, strchr '[' (r ++ b) = some ('[' :: (d.indexItems ++ ']' :: rest)) := by
  obtain ⟨before, after, split_, absent⟩ := List.eq_append_cons_of_mem behind
  have once := d.names_once
  rw [split_] at remaining once
  obtain ⟨w, u, blanks, entries, rfl⟩ := remaining_others (by simp) remaining
  have skip : ∀ g ∈ before, ∀ m b rest, Entry Field.key d.value g m → Blanks b →
      strchr '[' (m ++ (b ++ ',' :: rest)) = strchr '[' rest := by
    intro g member m b rest entry blanks
    have only : g = .kernelsPerIter := by
      cases g with
      | killerIndices => exact absurd member absent
      | killerNames => exact absurd (List.mem_append_left _ member) once
      | kernelsPerIter => rfl
    subst only
    have digits : '[' ∉ d.value .kernelsPerIter := by
      intro bracket
      exact absurd (d.iterSpelled.digits _ bracket) (by decide)
    have clear := entry_clear entry (c := '[') (by decide) (by decide) (by decide) digits
    have regroup : b ++ ',' :: rest = (b ++ [',']) ++ rest := by simp
    rw [strchr_clear clear, regroup,
      strchr_gap (by decide) (gap_append (blanks_gap blanks) (by simp [Gap]))]
  have gap : ∀ {a rest}, Blanks a → strchr '[' (a ++ rest) = strchr '[' rest :=
    fun blanks => strchr_gap (by decide) (blanks_gap blanks)
  obtain ⟨m, r, entry, _, found⟩ := elements_reach gap entries skip
  have regroup : w ++ ',' :: u ++ b = (w ++ [',']) ++ (u ++ b) := by simp
  refine ⟨r ++ b, ?_⟩
  rw [regroup, strchr_gap (by decide) (gap_append (blanks_gap blanks) (by simp [Gap])), found,
    entry_bracket entry (key_word _) rfl]
  simp

theorem find_indices (legible : Legible d.order d.names) :
    ∃ rest, (strstr (quoted (Field.key .killerIndices)) d.text).bind (strchr '[') =
      some ('[' :: (d.indexItems ++ ']' :: rest)) := by
  by_cases hidden : .killerIndices ∈ later .killerNames d.order ∧
      Field.key .killerIndices ∈ d.names
  · obtain ⟨r, b, remaining, arrives⟩ := d.find_in_names hidden.1
    rw [arrives, mark_after_array d.namesSpelled (key_word _) d.unquoted (by decide) hidden.2
      (legible.indices hidden.1)]
    exact d.bracket_behind_names hidden.1 remaining _
  · obtain ⟨m, r, b, _, entry, _, found⟩ := d.find_member (fun behind present => hidden ⟨behind, present⟩)
    refine ⟨r ++ '\x7d' :: b, ?_⟩
    rw [found, Option.bind_some, entry_bracket entry (key_word _) rfl]
    simp

theorem remaining_stops {xs : List Field} {r : List Char}
    (remaining : Remaining (Entry Field.key d.value) xs r) (b : List Char) :
    Stops isdigit (r ++ '\x7d' :: b) := by
  have blank_stops : ∀ {w : List Char} {c : Char} {rest}, Blanks w → isdigit c = false →
      Stops isdigit (w ++ c :: rest) := by
    intro w c rest blanks stop
    cases w with
    | nil =>
      rintro e ⟨⟩
      exact stop
    | cons e w =>
      rintro e ⟨⟩
      rcases blanks e (List.mem_cons_self ..) with rfl | rfl | rfl | rfl <;> decide
  cases remaining with
  | close blanks => exact blank_stops blanks (by decide)
  | more blanks others =>
    rw [List.append_assoc]
    exact blank_stops blanks (by decide)

theorem colon_behind_names {f : Field} {after : List Field} {r : List Char}
    (remaining : Remaining (Entry Field.key d.value) (f :: after) r) (b : List Char) :
    ∃ s r', Blanks s ∧ Remaining (Entry Field.key d.value) after r' ∧
      strchr ':' (r ++ b) = some (':' :: (s ++ (d.value f ++ (r' ++ b)))) := by
  obtain ⟨w, u, blanks, entries, rfl⟩ := remaining_others (by simp) remaining
  obtain ⟨a, m, r', before, entry, left, rfl⟩ := elements_split entries
  obtain ⟨s, spaces, found⟩ := entry_colon entry (key_word f) (r' ++ b)
  have regroup : w ++ ',' :: (a ++ (m ++ r')) ++ b = ((w ++ [',']) ++ a) ++ (m ++ (r' ++ b)) := by simp
  have gap : Gap ((w ++ [',']) ++ a) :=
    gap_append (gap_append (blanks_gap blanks) (by simp [Gap])) (blanks_gap before)
  exact ⟨s, r', spaces, left, by rw [regroup, strchr_gap (by decide) gap, found]⟩

theorem find_iter (legible : Legible d.order d.names) :
    ∃ s rest, Blanks s ∧ Stops isdigit rest ∧
      (strstr (quoted (Field.key .kernelsPerIter)) d.text).bind (strchr ':') =
        some (':' :: (s ++ (d.iterText ++ rest))) := by
  by_cases hidden : .kernelsPerIter ∈ later .killerNames d.order ∧
      Field.key .kernelsPerIter ∈ d.names
  · obtain ⟨r, b, remaining, arrives⟩ := d.find_in_names hidden.1
    obtain ⟨next, clear⟩ := legible.iter hidden.1 hidden.2
    obtain ⟨after, shape⟩ := List.head?_eq_some_iff.mp next
    rw [shape] at remaining
    obtain ⟨s, r', blanks, left, found⟩ := d.colon_behind_names remaining ('\x7d' :: b)
    refine ⟨s, _, blanks, d.remaining_stops left b, ?_⟩
    rw [arrives, mark_after_array d.namesSpelled (key_word _) d.unquoted (by decide) hidden.2 clear]
    exact found
  · obtain ⟨m, r, b, after, entry, remaining, found⟩ :=
      d.find_member (fun behind present => hidden ⟨behind, present⟩)
    obtain ⟨s, blanks, colon⟩ := entry_colon entry (key_word _) (r ++ '\x7d' :: b)
    refine ⟨s, _, blanks, d.remaining_stops remaining b, ?_⟩
    rw [found, Option.bind_some]
    exact colon

theorem text_clean : cstr d.text = d.text := by
  apply cstr_eq
  have names : Char.ofNat 0 ∉ d.nameItems := by
    apply items_clear d.namesSpelled (by decide) (by decide)
    rintro name member m rfl inside
    have outside : Char.ofNat 0 ∉ name := fun here => (d.plain name member _ here).2.2 rfl
    simp only [quoted, List.mem_cons, List.mem_append, List.not_mem_nil, or_false] at inside
    rcases inside with quote | inside | quote
    · exact absurd quote (by decide)
    · exact outside inside
    · exact absurd quote (by decide)
  have value : ∀ f, Char.ofNat 0 ∉ d.value f := by
    intro f
    by_cases other : f = .killerNames
    · subst other
      simp only [value, valueText, List.mem_cons, List.mem_append, List.not_mem_nil, or_false, not_or]
      exact ⟨by decide, names, by decide⟩
    · exact d.value_clear (.inr rfl) other
  have entry : ∀ f m, Entry Field.key d.value f m → Char.ofNat 0 ∉ m := by
    intro f m entry
    refine entry_clear entry (by decide) (by decide) ?_ (value f)
    cases f <;> decide
  exact object_clear d.spelled (by decide) (by decide) (by decide) (by decide)
    (fun f _ m => entry f m)

theorem load_eq (g : Kraken) :
    loadKillerPolicy (some d.text) g =
      { g with
        kernelsPerIter := parseIntField d.text (quoted (Field.key .kernelsPerIter))
        policy :=
          { count := (parseIntArray d.text (quoted (Field.key .killerIndices)) g.policy.indices
              g.policy.count maxKillerKernels).2
            indices := (parseIntArray d.text (quoted (Field.key .killerIndices)) g.policy.indices
              g.policy.count maxKillerKernels).1
            names := (parseStringArray d.text (quoted (Field.key .killerNames)) g.policy.names 0
              maxKillerKernels).1
            kernelsPerIter := parseIntField d.text (quoted (Field.key .kernelsPerIter))
            loaded := true } } := by
  have indices : "\"killer_indices\"".toList = quoted (Field.key .killerIndices) := by decide
  have names : "\"killer_names\"".toList = quoted (Field.key .killerNames) := by decide
  have iter : "\"kernels_per_iter\"".toList = quoted (Field.key .kernelsPerIter) := by decide
  simp only [loadKillerPolicy, d.text_clean, indices, names, iter]

theorem round_trips (legible : Legible d.order d.names) : d.RoundTrips := by
  intro g
  obtain ⟨after_indices, indices⟩ := d.find_indices legible
  obtain ⟨after_names, names⟩ := d.find_names
  obtain ⟨s, rest, blanks, stops, iter⟩ := d.find_iter legible
  have ints := items_read integers_reader (by simp [readInts]) d.indicesSpelled maxKillerKernels
    after_indices (by simp)
  have strings := readNames_items d.namesSpelled legible.fits d.unquoted after_names
  have number := parseIntField_at iter blanks d.iterSpelled.toNumeral stops
  rw [d.load_eq]
  simp only [parseIntArray, parseStringArray, indices, names, List.tail_cons, ints, strings, number,
    loaded, List.length_map]

/-- Another document with the same names and order of fields, without white space but for
    what stands after the commas between the names. -/
def written (space : List Char) (blanks : Blanks space) (zeros : ℕ) (twice : Bool) : Document where
  order := d.order
  each := d.each
  indices := List.replicate zeros 0
  names := d.names
  iterLength := bif twice then 2 else 1
  intIndices := by
    intro i member
    rw [List.eq_of_mem_replicate member]
    decide
  plain := d.plain
  positive := by cases twice <;> decide
  intIterLength := by cases twice <;> decide
  indexItems := joined [] (fun _ => ['0']) (List.replicate zeros 0)
  indicesSpelled := by
    apply items_joined (by decide)
    intro i member
    rw [List.eq_of_mem_replicate member]
    exact ⟨⟨by decide, List.all_eq_true.mp (by decide), by decide⟩, by decide⟩
  nameItems := joined space quoted d.names
  namesSpelled := items_joined blanks fun _ _ => rfl
  iterText := bif twice then ['2'] else ['1']
  iterSpelled := by
    cases twice <;> exact ⟨⟨by decide, List.all_eq_true.mp (by decide), by decide⟩, by decide⟩
  text := compact Field.key (valueText (joined [] (fun _ => ['0']) (List.replicate zeros 0))
    (joined space quoted d.names) (bif twice then ['2'] else ['1'])) d.order
  spelled := compact_object (List.ne_nil_of_mem (d.mem_order .killerNames))

section Necessary
variable {d}

theorem names_read (trips : d.RoundTrips) {p : List Char}
    (place : (strstr (quoted (Field.key .killerNames)) d.text).bind (strchr '[') = some ('[' :: p)) :
    readNames maxKillerKernels p =
      (d.names.take maxKillerKernels).map fun name => name.take (maxKernelNameLen - 1) := by
  apply store_injective
  intro out
  have same := congrArg (fun g => g.policy.names) (trips { policy := { names := out } })
  simpa only [d.load_eq, parseStringArray, place, List.tail_cons, loaded] using same

theorem count_read (trips : d.RoundTrips) {p : List Char}
    (place : (strstr (quoted (Field.key .killerIndices)) d.text).bind (strchr '[') = some ('[' :: p)) :
    (readInts maxKillerKernels p).length = (d.indices.take maxKillerKernels).length := by
  have same := congrArg (fun g => g.policy.count) (trips {})
  simpa only [d.load_eq, parseIntArray, place, List.tail_cons, loaded] using same

theorem iter_read (trips : d.RoundTrips) {p : List Char}
    (place : (strstr (quoted (Field.key .kernelsPerIter)) d.text).bind (strchr ':') = some (':' :: p)) :
    atoi (p.dropWhile isspace) = d.iterLength := by
  have same := congrArg (fun g => g.kernelsPerIter) (trips {})
  simpa only [d.load_eq, parseIntField, place, List.tail_cons, loaded] using same

/-- A mark in a name behind one that is spelled like a field is taken for the mark of that
    field, whatever the field says. -/
theorem misled {f : Field} (behind : f ∈ later .killerNames d.order) {c : Char}
    (mark : c ∈ [':', '[']) {name : List Char} (member : name ∈ later f.key d.names)
    (inside : c ∈ name) :
    ∃ v, ∀ e : Document, e.order = d.order → e.nameItems = d.nameItems → ∃ rest,
      (strstr (quoted f.key) e.text).bind (strchr c) = some (c :: (v ++ ']' :: rest)) := by
  obtain ⟨v, found⟩ := mark_in_array d.namesSpelled (key_word f) d.unquoted mark
    (mem_of_mem_later member) member inside
  refine ⟨v, fun e order items => ?_⟩
  obtain ⟨r, b, _, arrives⟩ := e.find_in_names (order ▸ behind)
  exact ⟨r ++ '\x7d' :: b, by rw [arrives, items, found]⟩

variable (all : ∀ e : Document, e.order = d.order → e.names = d.names → e.RoundTrips)
include all

theorem fits_of_round_trips : Fits maxKillerKernels d.names := by
  apply fits_of_read d.unquoted
  intro space blank
  have blanks : Blanks space := by
    revert blank
    simp only [List.mem_cons, List.not_mem_nil, or_false]
    rintro (rfl | rfl) <;> decide
  obtain ⟨rest, place⟩ := (d.written space blanks 0 false).find_names
  exact ⟨[], rest, by simp [Gap], names_read (all (d.written space blanks 0 false) rfl rfl) place⟩

theorem indices_of_round_trips (behind : .killerIndices ∈ later .killerNames d.order) :
    ∀ name ∈ later (Field.key .killerIndices) d.names, '[' ∉ name := by
  intro name member bracket
  have blanks : Blanks [] := by decide
  obtain ⟨v, places⟩ := misled (d := d.written [] blanks 0 false) behind (by decide) member bracket
  obtain ⟨_, none_place⟩ := places (d.written [] blanks 0 false) rfl rfl
  obtain ⟨_, one_place⟩ := places (d.written [] blanks 1 false) rfl rfl
  have none_read := count_read (all (d.written [] blanks 0 false) rfl rfl) none_place
  have one_read := count_read (all (d.written [] blanks 1 false) rfl rfl) one_place
  rw [readInts_stop] at none_read one_read
  rw [none_read] at one_read
  simp [written, maxKillerKernels] at one_read

theorem iter_of_round_trips (behind : .kernelsPerIter ∈ later .killerNames d.order)
    (present : Field.key .kernelsPerIter ∈ d.names) :
    (later .killerNames d.order).head? = some .kernelsPerIter ∧
      ∀ name ∈ later (Field.key .kernelsPerIter) d.names, ':' ∉ name := by
  have blanks : Blanks [] := by decide
  have clear : ∀ name ∈ later (Field.key .kernelsPerIter) d.names, ':' ∉ name := by
    intro name member colon
    have number : ∀ v rest : List Char, atoi ((v ++ ']' :: rest).dropWhile isspace) =
        atoi (v.dropWhile isspace) := by
      intro v rest
      rw [dropWhile_stop (by decide)]
      exact atoi_stop _ rest (by decide) (by decide) (by decide) (by decide)
    obtain ⟨v, places⟩ := misled (d := d.written [] blanks 0 false) behind (by decide) member colon
    obtain ⟨_, once_place⟩ := places (d.written [] blanks 0 false) rfl rfl
    obtain ⟨_, twice_place⟩ := places (d.written [] blanks 0 true) rfl rfl
    have once_read := iter_read (all (d.written [] blanks 0 false) rfl rfl) once_place
    have twice_read := iter_read (all (d.written [] blanks 0 true) rfl rfl) twice_place
    rw [number] at once_read twice_read
    rw [once_read] at twice_read
    simp [written] at twice_read
  refine ⟨?_, clear⟩
  -- the colon of the indices would be found, and a bracket is no number
  obtain ⟨f, after, split_⟩ := List.exists_cons_of_ne_nil (List.ne_nil_of_mem behind)
  have once := d.names_once
  rw [split_] at behind once ⊢
  cases f with
  | kernelsPerIter => rfl
  | killerNames => exact absurd (List.mem_cons_self ..) once
  | killerIndices =>
    have trips := all d rfl rfl
    obtain ⟨r, b, remaining, arrives⟩ := d.find_in_names (split_ ▸ behind)
    rw [split_] at remaining
    obtain ⟨s, r', spaces, _, found⟩ := d.colon_behind_names remaining ('\x7d' :: b)
    have place := mark_after_array d.namesSpelled (key_word _) d.unquoted (c := ':') (by decide)
      present clear (r ++ '\x7d' :: b)
    rw [found, ← arrives] at place
    have read := iter_read trips place
    have bracket : atoi ((s ++ (d.value .killerIndices ++ (r' ++ '\x7d' :: b))).dropWhile isspace) = 0 := by
      rw [dropWhile_run (blanks_isspace spaces) (by rintro c ⟨⟩; decide)]
      exact atoi_stop [] _ (by decide) (by decide) (by decide) (by decide)
    rw [bracket] at read
    have positive := d.positive
    omega

end Necessary

end Document

/-- The documents with these names and this order of the fields are all read back, whatever
    indices and iteration length they hold and wherever white space stands in them, exactly
    if the names are legible in that order. -/
theorem policies_round_trip_iff (d : Document) :
    (∀ e : Document, e.order = d.order → e.names = d.names → e.RoundTrips) ↔
      Legible d.order d.names := by
  constructor
  · intro all
    exact ⟨Document.fits_of_round_trips all, Document.indices_of_round_trips all,
      Document.iter_of_round_trips all⟩
  · intro legible e order names
    apply e.round_trips
    rw [order, names]
    exact legible

def cutName : Document where
  order := [.killerIndices, .killerNames, .kernelsPerIter]
  each := .refl _
  indices := [5]
  names := [List.replicate 256 'a', ['b']]
  iterLength := 6
  intIndices := by decide
  plain := by
    intro name member c inside
    simp only [List.mem_cons, List.not_mem_nil, or_false] at member
    rcases member with rfl | rfl
    · rw [List.eq_of_mem_replicate inside]
      decide
    · rw [List.mem_singleton.mp inside]
      decide
  positive := by decide
  intIterLength := by decide
  indexItems := ['5']
  indicesSpelled :=
    .some (elements_one ⟨⟨by decide, List.all_eq_true.mp (by decide), by decide⟩, by decide⟩)
  nameItems := joined [] quoted [List.replicate 256 'a', ['b']]
  namesSpelled := items_joined (by decide) fun _ _ => rfl
  iterText := ['6']
  iterSpelled := ⟨⟨by decide, List.all_eq_true.mp (by decide), by decide⟩, by decide⟩
  text := compact Field.key (valueText ['5'] (joined [] quoted [List.replicate 256 'a', ['b']])
    ['6']) [.killerIndices, .killerNames, .kernelsPerIter]
  spelled := compact_object (List.cons_ne_nil _ _)

/-- The comma between the two names is read as the second name. -/
theorem cut_name_shifts_names : ¬ cutName.RoundTrips := by
  intro trips
  have comma : (loadKillerPolicy (some cutName.text) {}).policy.names 1 = [','] := by decide +kernel
  have second : (cutName.loaded {}).policy.names 1 = ['b'] := by decide +kernel
  rw [trips, second] at comma
  exact absurd comma (by decide)

end Hooks.PolicyRoundTrip
