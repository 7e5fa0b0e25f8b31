import KrakenRuntime.Hooks.Classification
import KrakenRuntime.Lib.CMemory

/- The parsers of the policy file with their memory (cuda_hooks.cpp): every read goes through
   a pointer into the text and every write to an entry of an array, so that a step outside
   of either is a fault. They return what the parsers of KillerPolicy say, on any text at
   all. Indices are unbounded: the counters stay below max and the pointers inside the text. -/
namespace Hooks.ParserSafety
open CText CMemory

/-- The two searches that each parser starts with, and the step over the mark. -/
def locate (n : ℕ) (json key : CString) (mark : Char) : Except Fault (Option ℕ) := do
  match ← CMemory.strstr json key n 0 with
  | none => return none
  | some p =>
    match ← CMemory.strchr json mark n p with
    | none => return none
    | some p => return some (p + 1)

structure Scan (α : Type) where
  p : ℕ
  count : ℤ
  out : ℕ → α

abbrev Turn (α : Type) := Flow (Scan α) (Scan α)

section Arrays
variable {α : Type}

/-- The loops of parse_int_array and parse_string_array run under the same condition. -/
def arrayRound (json : CString) (max : ℤ) (body : Scan α → Except Fault (Turn α)) (x : Scan α) :
    Except Fault (Turn α) := do
  let c ← json.deref x.p
  if c ≠ nul ∧ c ≠ ']' ∧ x.count < max then body x else return .exit x

/-- The result is the array and the count. The number of rounds is for each loop. -/
def parseArray (body : Scan α → Except Fault (Turn α)) (n : ℕ) (json key : CString) (out : ℕ → α)
    (count max : ℤ) : Except Fault ((ℕ → α) × ℤ) := do
  match ← locate n json key '[' with
  | none => return (out, count)
  | some p =>
    let x ← loop (arrayRound json max body) n ⟨p, 0, out⟩
    return (x.out, x.count)

end Arrays

def intBody (json : CString) (n : ℕ) (max : ℤ) (x : Scan ℤ) : Except Fault (Turn ℤ) := do
  let p ← skipWhile json (fun c => !isdigit c && c ≠ ']') n x.p
  if (← json.deref p) = ']' then return .exit { x with p := p }
  else
    let value ← CMemory.atoi json n p
    let out ← assign x.out max x.count value
    let p ← skipWhile json isdigit n p
    return .again ⟨p, x.count + 1, out⟩

def parseIntArray (n : ℕ) (json key : CString) (out : ℕ → ℤ) (count max : ℤ) :
    Except Fault ((ℕ → ℤ) × ℤ) :=
  parseArray (intBody json n max) n json key out count max

def assignChar (out : ℕ → ℕ → Char) (max k i : ℤ) (c : Char) : Except Fault (ℕ → ℕ → Char) := do
  let name ← assign (out k.toNat) maxKernelNameLen i c
  assign out max k name

structure NameCopy where
  p : ℕ
  i : ℤ
  out : ℕ → ℕ → Char

def copyRound (json : CString) (max count : ℤ) (y : NameCopy) :
    Except Fault (Flow NameCopy NameCopy) := do
  let c ← json.deref y.p
  if c ≠ nul ∧ c ≠ '"' ∧ y.i < (maxKernelNameLen : ℤ) - 1 then
    let out ← assignChar y.out max count y.i c
    return .again ⟨y.p + 1, y.i + 1, out⟩
  else return .exit y

def nameBody (json : CString) (n : ℕ) (max : ℤ) (x : Scan (ℕ → Char)) :
    Except Fault (Turn (ℕ → Char)) := do
  let p ← skipWhile json (fun c => c ≠ '"' && c ≠ ']') n x.p
  if (← json.deref p) ≠ '"' then return .exit { x with p := p }
  else
    let y ← loop (copyRound json max x.count) n ⟨p + 1, 0, x.out⟩
    let out ← assignChar y.out max x.count y.i nul
    let c ← json.deref y.p
    return .again ⟨if c = '"' then y.p + 1 else y.p, x.count + 1, out⟩

def parseStringArray (n : ℕ) (json key : CString) (out : ℕ → ℕ → Char) (count max : ℤ) :
    Except Fault ((ℕ → ℕ → Char) × ℤ) :=
  parseArray (nameBody json n max) n json key out count max

def parseIntField (n : ℕ) (json key : CString) : Except Fault ℤ := do
  match ← locate n json key ':' with
  | none => return 0
  | some p =>
    let p ← skipWhile json isspace n p
    CMemory.atoi json n p

theorem inside_iff {json : CString} {p : ℕ} {rest : List Char} (points : Points json p rest) :
    rest.headD nul ≠ nul ∧ rest.headD nul ≠ ']' ↔ ¬ (rest = [] ∨ rest.head? = some ']') := by
  cases rest with
  | nil => simp
  | cons c rest => simp [points.head_ne]

theorem assign_push {α : Type} (out : ℕ → α) (xs : List α) (x : α) {max : ℕ}
    (room : xs.length < max) :
    assign (store out xs) max xs.length x = .ok (store out (xs ++ [x])) := by
  rw [assign, if_pos ⟨by omega, by omega⟩, store_push, Int.toNat_natCast]

theorem digits_shrink {c : Char} {r : List Char}
    (open_ : ((c :: r).dropWhile fun c => !isdigit c && c ≠ ']').head? ≠ some ']') :
    (((c :: r).dropWhile fun c => !isdigit c && c ≠ ']').dropWhile isdigit).length <
      (c :: r).length := by
  have short := List.length_dropWhile_le (fun c => !isdigit c && c ≠ ']') (c :: r)
  have stopped := List.head?_dropWhile_not (fun c => !isdigit c && c ≠ ']') (c :: r)
  cases left : (c :: r).dropWhile fun c => !isdigit c && c ≠ ']' with
  | nil => simp
  | cons d q =>
    rw [left] at open_ stopped short
    have digit : isdigit d = true := by
      simp only [List.head?_cons, Bool.and_eq_false_iff, Bool.not_eq_false', decide_eq_false_iff_not,
        not_not] at stopped
      rcases stopped with digit | rfl
      · exact digit
      · exact absurd rfl open_
    have shorter := List.length_dropWhile_le isdigit q
    rw [List.dropWhile_cons_of_pos digit]
    simp only [List.length_cons] at short ⊢
    omega

def slots (out : ℕ → ℕ → Char) (names : List (List Char)) (k : ℕ) : ℕ → Char :=
  match names[k]? with
  | some name => store (out k) (name ++ [nul])
  | none => out k

theorem slots_push (out : ℕ → ℕ → Char) (names : List (List Char)) (name : List Char) :
    slots out (names ++ [name]) =
      Function.update (slots out names) names.length (store (out names.length) (name ++ [nul])) := by
  funext k
  by_cases new : k = names.length
  · subst new
    simp [slots]
  · rw [Function.update_of_ne new]
    by_cases stored : k < names.length
    · simp [slots, List.getElem?_append_left stored]
    · simp only [slots]
      rw [List.getElem?_eq_none (by simp; omega), List.getElem?_eq_none (by omega)]

theorem slots_next (out : ℕ → ℕ → Char) (names : List (List Char)) :
    slots out names names.length = out names.length := by
  simp [slots]

theorem assignChar_push (out : ℕ → ℕ → Char) (done : List Char) (c : Char) {k max : ℕ}
    (slot : k < max) (room : done.length < maxKernelNameLen) :
    assignChar (Function.update out k (store (out k) done)) max k done.length c =
      .ok (Function.update out k (store (out k) (done ++ [c]))) := by
  rw [assignChar, Int.toNat_natCast, Function.update_self, assign_push _ _ _ room, ok_bind, assign,
    if_pos ⟨by omega, by omega⟩, Int.toNat_natCast, Function.update_idem]

theorem readName_of_ends {done r : List Char} (unquoted : '"' ∉ done)
    (fits : done.length ≤ maxKernelNameLen - 1)
    (ends : r = [] ∨ r.head? = some '"' ∨ done.length = maxKernelNameLen - 1) :
    readName (done ++ r) = done := by
  have run : ∀ c ∈ done, decide (c ≠ '"') = true := by
    intro c member
    apply decide_eq_true
    rintro rfl
    exact unquoted member
  rw [readName, List.takeWhile_append_of_pos run]
  rcases ends with rfl | quote | full
  · rw [List.takeWhile_nil, List.append_nil, List.take_of_length_le fits]
  · obtain ⟨r, rfl⟩ := List.head?_eq_some_iff.mp quote
    rw [List.takeWhile_cons_of_neg (by simp), List.append_nil, List.take_of_length_le fits]
  · rw [List.take_left' full]

theorem readName_lt (p : List Char) : (readName p).length < maxKernelNameLen :=
  Nat.lt_of_le_of_lt (List.length_take_le ..) (by decide)

theorem readName_subset (p : List Char) : readName p ⊆ p :=
  fun _ member => (List.takeWhile_sublist _).subset (List.mem_of_mem_take member)

theorem quote_points {json : CString} {p : ℕ} {rest : List Char} (points : Points json p rest) :
    Points json (if rest.headD nul = '"' then p + 1 else p)
      (if rest.head? = some '"' then rest.tail else rest) := by
  by_cases quote : rest.head? = some '"'
  · obtain ⟨r, rfl⟩ := List.head?_eq_some_iff.mp quote
    exact points.next
  · rw [if_neg quote, if_neg fun same => quote ((headD_eq_iff (by decide)).mp same)]
    exact points

theorem readNames_names {room : ℕ} {p name : List Char} (member : name ∈ readNames room p) :
    ∃ q, q <:+ p ∧ name = readName q := by
  induction room generalizing p with
  | zero => cases member
  | succ room ih =>
    rw [readNames] at member
    split at member
    · cases member
    · split at member
      · rename_i q place
        have behind : q <:+ p := (List.suffix_cons ..).trans (place ▸ List.dropWhile_suffix ..)
        rcases List.mem_cons.mp member with rfl | later
        · exact ⟨q, behind, rfl⟩
        · obtain ⟨t, inside, rfl⟩ := ih later
          refine ⟨t, inside.trans (.trans ?_ behind), rfl⟩
          split
          · exact (List.tail_suffix _).trans (List.drop_suffix ..)
          · exact List.drop_suffix ..
      · cases member

theorem readNames_lt {room : ℕ} {p name : List Char} (member : name ∈ readNames room p) :
    name.length < maxKernelNameLen := by
  obtain ⟨q, _, rfl⟩ := readNames_names member
  exact readName_lt q

theorem readNames_clean {room : ℕ} {p name : List Char} (clean : nul ∉ p)
    (member : name ∈ readNames room p) : nul ∉ name := by
  obtain ⟨q, inside, rfl⟩ := readNames_names member
  exact fun found => clean (inside.subset (readName_subset q found))

def slotText (row : ℕ → Char) : List Char := cstr ((List.range maxKernelNameLen).map row)

theorem slotText_store (row : ℕ → Char) {name : List Char} (clean : nul ∉ name)
    (fits : name.length < maxKernelNameLen) : slotText (store row (name ++ [nul])) = name := by
  have room : (name ++ [nul]).length ≤ maxKernelNameLen := by simpa
  obtain ⟨more, size⟩ := Nat.exists_eq_add_of_le room
  have written : (List.range (name ++ [nul]).length).map (store row (name ++ [nul])) =
      name ++ [nul] := by
    apply List.ext_getElem
    · simp
    · intro i _ stored
      simp [store, List.getElem?_eq_getElem stored]
  rw [slotText, size, List.range_add, List.map_append, written, List.append_assoc]
  exact takeWhile_ne clean

theorem slotText_slots (out : ℕ → ℕ → Char) {names : List (List Char)}
    (good : ∀ name ∈ names, nul ∉ name ∧ name.length < maxKernelNameLen) :
    store (slotText ∘ out) names = slotText ∘ slots out names := by
  funext k
  by_cases stored : k < names.length
  · obtain ⟨clean, fits⟩ := good names[k] (List.getElem_mem stored)
    simp [store, slots, List.getElem?_eq_getElem stored, slotText_store _ clean fits]
  · simp [store, slots, List.getElem?_eq_none (Nat.le_of_not_lt stored)]

theorem slots_terminated (out : ℕ → ℕ → Char) {names : List (List Char)}
    (fits : ∀ name ∈ names, name.length < maxKernelNameLen) {k : ℕ} (stored : k < names.length) :
    ∃ i < maxKernelNameLen,
      slots out names k i = nul ∧ ∀ j, i < j → slots out names k j = out k j := by
  refine ⟨names[k].length, fits _ (List.getElem_mem stored), ?_, ?_⟩
  · simp [slots, List.getElem?_eq_getElem stored, store]
  · intro j behind
    simp only [slots, List.getElem?_eq_getElem stored, store]
    rw [List.getElem?_eq_none (by simp; omega), Option.getD_none]

section Loops
variable {json : CString} {n : ℕ} (enough : json.chars.length < n)
include enough

theorem locate_points (key : CString) {mark : Char} (visible : mark ≠ nul) :
    ((CText.strstr key.chars json.chars).bind (CText.strchr mark) = none ∧
        locate n json key mark = .ok none) ∨
      ∃ x p, (CText.strstr key.chars json.chars).bind (CText.strchr mark) = some x ∧
        locate n json key mark = .ok (some p) ∧ Points json p x.tail := by
  obtain ⟨q, searched, found⟩ := strstr_points (points_start json) enough key
  rw [locate, searched, ok_bind]
  cases place : CText.strstr key.chars json.chars with
  | none =>
    rw [place] at found
    cases found
    exact .inl ⟨rfl, rfl⟩
  | some rest =>
    rw [place] at found
    cases found with
    | some here =>
      obtain ⟨q, searched, found⟩ := strchr_points here enough visible
      simp only [searched, ok_bind, Option.bind_some]
      cases place : CText.strchr mark rest with
      | none =>
        rw [place] at found
        cases found
        exact .inl ⟨rfl, rfl⟩
      | some x =>
        obtain ⟨y, rfl⟩ := strchr_shape place
        rw [place] at found
        cases found with
        | some there => exact .inr ⟨_, _, rfl, rfl, there.next⟩

section Arrays
variable {α β : Type}

/-- What the parsers of arrays rely on in the body of their loop. It reads one element, and
    `read` says which are there, and writes it, and `written` is the array with these. -/
structure Body (json : CString) (max : ℕ) (body : Scan α → Except Fault (Turn α))
    (read : ℕ → List Char → List β) (written : List β → ℕ → α) : Prop where
  full (rest : List Char) : read 0 rest = []
  closed {room : ℕ} {rest : List Char} (ends : rest = [] ∨ rest.head? = some ']') :
    read room rest = []
  step {x : Scan α} {done : List β} {rest : List Char} (room : ℕ) (here : Points json x.p rest)
    (inside : ¬ (rest = [] ∨ rest.head? = some ']')) (count : x.count = done.length)
    (stored : x.out = written done) (slot : done.length < max) :
    (∃ y, body x = .ok (.exit y) ∧ read (room + 1) rest = [] ∧ y.count = x.count ∧ y.out = x.out) ∨
      ∃ q e r, body x = .ok (.again ⟨q, x.count + 1, written (done ++ [e])⟩) ∧
        read (room + 1) rest = e :: read room r ∧ Points json q r ∧ r.length < rest.length

def ReadSoFar (json : CString) (max : ℕ) (read : ℕ → List Char → List β) (written : List β → ℕ → α)
    (rest : List Char) (x : Scan α) : Prop :=
  ∃ done r, Points json x.p r ∧ x.count = done.length ∧ x.out = written done ∧
    done.length ≤ max ∧ read max rest = done ++ read (max - done.length) r

variable {max : ℕ} {body : Scan α → Except Fault (Turn α)} {read : ℕ → List Char → List β}
  {written : List β → ℕ → α} (reads : Body json max body read written)
include reads

omit enough in
theorem arrayRound_step {rest : List Char} (x : Scan α)
    (good : ReadSoFar json max read written rest x) :
    (∃ y, arrayRound json max body x = .ok (.exit y) ∧
        y.out = written (read max rest) ∧ y.count = (read max rest).length ∧
        (read max rest).length ≤ max) ∨
      ∃ y, arrayRound json max body x = .ok (.again y) ∧ ReadSoFar json max read written rest y ∧
        json.chars.length - y.p < json.chars.length - x.p := by
  obtain ⟨done, r, here, count, stored, fits, total⟩ := good
  rw [arrayRound, here.deref_eq, ok_bind]
  by_cases goes_on : r.headD nul ≠ nul ∧ r.headD nul ≠ ']' ∧ x.count < max
  · rw [if_pos goes_on]
    obtain ⟨room, left⟩ : ∃ room, max - done.length = room + 1 := ⟨max - done.length - 1, by omega⟩
    have inside := (inside_iff here).mp ⟨goes_on.1, goes_on.2.1⟩
    rcases reads.step room here inside count stored (by omega) with
      ⟨y, exits, none_left, same_count, same_out⟩ | ⟨q, e, r', goes_on, one_more, there, shorter⟩
    · left
      rw [left, none_left, List.append_nil] at total
      rw [total]
      exact ⟨y, exits, same_out.trans stored, same_count.trans count, fits⟩
    · right
      have before := here.length_eq
      have after := there.length_eq
      refine ⟨_, goes_on, ⟨done ++ [e], r', there, ?_, rfl, ?_, ?_⟩, by simp only; omega⟩
      · simp [count]
      · rw [List.length_append, List.length_singleton]
        omega
      · have left' : max - (done ++ [e]).length = room := by
          rw [List.length_append, List.length_singleton]
          omega
        rw [total, left, one_more, left', List.append_assoc, List.singleton_append]
  · rw [if_neg goes_on]
    have no_more : read (max - done.length) r = [] := by
      by_cases ends : r = [] ∨ r.head? = some ']'
      · exact reads.closed ends
      · have open_ := (inside_iff here).mpr ends
        have full : max - done.length = 0 := by
          by_contra left
          exact goes_on ⟨open_.1, open_.2, by omega⟩
        rw [full, reads.full]
    rw [no_more, List.append_nil] at total
    rw [total]
    exact .inl ⟨x, rfl, stored, count, fits⟩

theorem parseArray_total (key : CString) (count : ℕ) :
    ((CText.strstr key.chars json.chars).bind (CText.strchr '[') = none ∧
        parseArray body n json key (written []) count max = .ok (written [], (count : ℤ))) ∨
      ∃ x, (CText.strstr key.chars json.chars).bind (CText.strchr '[') = some x ∧ nul ∉ x.tail ∧
        (read max x.tail).length ≤ max ∧ parseArray body n json key (written []) count max =
          .ok (written (read max x.tail), ((read max x.tail).length : ℤ)) := by
  rcases locate_points enough key (show '[' ≠ nul by decide) with
    ⟨place, searched⟩ | ⟨x, p, place, searched, here⟩
  · left
    rw [parseArray, searched, ok_bind]
    exact ⟨place, rfl⟩
  · right
    have start : ReadSoFar json max read written x.tail ⟨p, 0, written []⟩ :=
      ⟨[], x.tail, here, rfl, rfl, Nat.zero_le _, rfl⟩
    obtain ⟨y, ends, stored, counted, fits⟩ := loop_total (ReadSoFar json max read written x.tail)
      (fun y => json.chars.length - y.p) (arrayRound_step reads) start (n := n) (by simp only; omega)
    refine ⟨x, place, here.clean, fits, ?_⟩
    simp only [parseArray, searched, ends, ok_bind, stored, counted]
    rfl

end Arrays

theorem intBody_reads (out : ℕ → ℤ) (max : ℕ) :
    Body json max (intBody json n max) readInts (store out) where
  full rest := rfl
  closed {room rest} ends := by
    cases room with
    | zero => rfl
    | succ room => rw [readInts, if_pos ends]
  step {x done rest} room here inside count stored slot := by
    obtain ⟨q, skipped, there⟩ := skipWhile_points here enough fun c => !isdigit c && c ≠ ']'
    rw [intBody, skipped, ok_bind, there.deref_eq, ok_bind, readInts, if_neg inside]
    by_cases closed : (rest.dropWhile fun c => !isdigit c && c ≠ ']').head? = some ']'
    · left
      rw [if_pos ((headD_eq_iff (by decide)).mpr closed)]
      exact ⟨_, rfl, if_pos closed, rfl, rfl⟩
    · right
      obtain ⟨q', skipped', there'⟩ := skipWhile_points there enough isdigit
      have set := assign_push out done (CText.atoi (rest.dropWhile fun c => !isdigit c && c ≠ ']')) slot
      rw [if_neg fun same => closed ((headD_eq_iff (by decide)).mp same), atoi_points there enough,
        ok_bind, stored, count, set, ok_bind, skipped', ok_bind]
      obtain ⟨c, r, rfl⟩ := List.exists_cons_of_ne_nil (fun ended => inside (.inl ended))
      exact ⟨q', _, _, rfl, if_neg closed, there', digits_shrink closed⟩

theorem parseIntArray_eq (key : CString) (out : ℕ → ℤ) (count max : ℕ) :
    parseIntArray n json key out count max =
      .ok ((Hooks.parseIntArray json.chars key.chars out count max).1,
        ((Hooks.parseIntArray json.chars key.chars out count max).2 : ℤ)) := by
  rw [Hooks.parseIntArray]
  rcases parseArray_total enough (intBody_reads enough out max) key count with
    ⟨place, parsed⟩ | ⟨x, place, _, _, parsed⟩
  · rw [place]
    exact parsed
  · rw [place]
    exact parsed

def Copied (json : CString) (out : ℕ → ℕ → Char) (k : ℕ) (rest : List Char) (y : NameCopy) : Prop :=
  ∃ done r, Points json y.p r ∧ rest = done ++ r ∧ '"' ∉ done ∧ y.i = done.length ∧
    done.length ≤ maxKernelNameLen - 1 ∧ y.out = Function.update out k (store (out k) done)

omit enough in
theorem copyRound_step {out : ℕ → ℕ → Char} {k max : ℕ} {rest : List Char} (slot : k < max)
    (y : NameCopy) (good : Copied json out k rest y) :
    (∃ z, copyRound json max k y = .ok (.exit z) ∧
        Points json z.p (rest.drop (readName rest).length) ∧ z.i = (readName rest).length ∧
        z.out = Function.update out k (store (out k) (readName rest))) ∨
      ∃ z, copyRound json max k y = .ok (.again z) ∧ Copied json out k rest z ∧
        json.chars.length - z.p < json.chars.length - y.p := by
  obtain ⟨done, r, here, rfl, unquoted, i_eq, fits, stored⟩ := good
  have size : maxKernelNameLen = 256 := rfl
  rw [copyRound, here.deref_eq, ok_bind]
  by_cases goes_on : r.headD nul ≠ nul ∧ r.headD nul ≠ '"' ∧ y.i < (maxKernelNameLen : ℤ) - 1
  · right
    cases r with
    | nil => exact absurd rfl goes_on.1
    | cons c r =>
      rw [List.headD_cons] at goes_on ⊢
      have inside := here.lt
      rw [if_pos goes_on, stored, i_eq, assignChar_push out done c slot (by omega), ok_bind]
      refine ⟨_, rfl, ⟨done ++ [c], r, here.next, by simp, ?_, by simp, ?_, rfl⟩, by simp only; omega⟩
      · simp only [List.mem_append, List.mem_singleton, not_or]
        exact ⟨unquoted, Ne.symm goes_on.2.1⟩
      · rw [List.length_append, List.length_singleton]
        omega
  · left
    have ends : r = [] ∨ r.head? = some '"' ∨ done.length = maxKernelNameLen - 1 := by
      cases r with
      | nil => exact .inl rfl
      | cons c r =>
        right
        by_cases quote : c = '"'
        · exact .inl (by rw [quote]; rfl)
        · right
          by_contra short
          exact goes_on ⟨here.head_ne, quote, by omega⟩
    rw [if_neg goes_on, readName_of_ends unquoted fits ends, List.drop_left]
    exact ⟨y, rfl, here, i_eq, stored⟩

theorem copy_points (out : ℕ → ℕ → Char) {k max p : ℕ} {rest : List Char} (slot : k < max)
    (points : Points json p rest) :
    ∃ z, loop (copyRound json max k) n ⟨p, 0, out⟩ = .ok z ∧
      Points json z.p (rest.drop (readName rest).length) ∧ z.i = (readName rest).length ∧
      z.out = Function.update out k (store (out k) (readName rest)) := by
  have empty : store (out k) [] = out k := rfl
  have start : Copied json out k rest ⟨p, 0, out⟩ :=
    ⟨[], rest, points, rfl, by simp, rfl, Nat.zero_le _, by rw [empty, Function.update_eq_self]⟩
  exact loop_total (Copied json out k rest) (fun y => json.chars.length - y.p) (copyRound_step slot)
    start (by simp only; omega)

theorem nameBody_reads (out : ℕ → ℕ → Char) (max : ℕ) :
    Body json max (nameBody json n max) readNames (slots out) where
  full rest := rfl
  closed {room rest} ends := by
    cases room with
    | zero => rfl
    | succ room => rw [readNames, if_pos ends]
  step {x done rest} room here inside count stored slot := by
    obtain ⟨q, skipped, there⟩ := skipWhile_points here enough fun c => c ≠ '"' && c ≠ ']'
    have short := List.length_dropWhile_le (fun c => c ≠ '"' && c ≠ ']') rest
    rw [nameBody, skipped, ok_bind, there.deref_eq, ok_bind, readNames, if_neg inside]
    cases left : rest.dropWhile fun c => c ≠ '"' && c ≠ ']' with
    | nil => exact .inl ⟨_, rfl, rfl, rfl, rfl⟩
    | cons d t =>
      rw [left] at there short
      rw [List.headD_cons]
      by_cases quote : d = '"'
      · subst quote
        right
        obtain ⟨z, copied, behind, ended, filled⟩ :=
          copy_points enough (slots out done) slot there.next
        have terminated := assignChar_push (slots out done) (readName t) nul slot (readName_lt t)
        rw [slots_next, ← slots_push] at terminated
        rw [if_neg (by simp), stored, count, copied, ok_bind, filled, ended, slots_next, terminated,
          ok_bind, behind.deref_eq, ok_bind]
        refine ⟨_, _, _, rfl, rfl, quote_points behind, ?_⟩
        rw [List.length_cons] at short
        have rest_length := List.length_drop (i := (readName t).length) (l := t)
        split
        · rw [List.length_tail]
          omega
        · omega
      · left
        rw [if_pos quote]
        refine ⟨_, rfl, ?_, rfl, rfl⟩
        split
        · rename_i same
          exact absurd (List.cons.inj same).1 quote
        · rfl

theorem parseStringArray_eq (key : CString) (out : ℕ → ℕ → Char) (count max : ℕ) :
    ∃ out', parseStringArray n json key out count max =
        .ok (out', ((Hooks.parseStringArray json.chars key.chars (slotText ∘ out) count max).2 : ℤ)) ∧
      (Hooks.parseStringArray json.chars key.chars (slotText ∘ out) count max).1 = slotText ∘ out' := by
  rw [Hooks.parseStringArray]
  rcases parseArray_total enough (nameBody_reads enough out max) key count with
    ⟨place, parsed⟩ | ⟨x, place, clean, _, parsed⟩
  · rw [place]
    exact ⟨out, parsed, rfl⟩
  · rw [place]
    refine ⟨_, parsed, slotText_slots out ?_⟩
    intro name member
    exact ⟨readNames_clean clean member, readNames_lt member⟩

theorem parseIntField_eq (key : CString) :
    parseIntField n json key = .ok (Hooks.parseIntField json.chars key.chars) := by
  rw [parseIntField, Hooks.parseIntField]
  rcases locate_points enough key (show ':' ≠ nul by decide) with
    ⟨place, searched⟩ | ⟨x, p, place, searched, here⟩
  · rw [searched, ok_bind, place]
    rfl
  · obtain ⟨q, skipped, there⟩ := skipWhile_points here enough isspace
    rw [searched, ok_bind, place]
    simp only [skipped, ok_bind, atoi_points there enough]

theorem parseIntArray_safe (key : CString) (ints : ℕ → ℤ) {count max : ℕ} (range : count ≤ max) :
    ∃ (ints' : ℕ → ℤ) (count' : ℕ), parseIntArray n json key ints count max = .ok (ints', count') ∧
      count' ≤ max ∧ ∀ i, count' ≤ i → ints' i = ints i := by
  rcases parseArray_total enough (intBody_reads enough ints max) key count with
    ⟨_, parsed⟩ | ⟨x, _, _, fits, parsed⟩
  · exact ⟨_, _, parsed, range, fun i _ => rfl⟩
  · refine ⟨_, _, parsed, fits, ?_⟩
    intro i behind
    rw [store, List.getElem?_eq_none behind, Option.getD_none]

theorem parseStringArray_safe (key : CString) (names : ℕ → ℕ → Char) {count max : ℕ}
    (range : count ≤ max) :
    ∃ (names' : ℕ → ℕ → Char) (count' : ℕ),
      parseStringArray n json key names count max = .ok (names', count') ∧ count' ≤ max ∧
      (∀ k, count' ≤ k → names' k = names k) ∧
      ((CText.strstr key.chars json.chars).bind (CText.strchr '[') = none ∧ names' = names ∨
        ∀ k < count', ∃ i < maxKernelNameLen,
          names' k i = nul ∧ ∀ j, i < j → names' k j = names k j) := by
  rcases parseArray_total enough (nameBody_reads enough names max) key count with
    ⟨place, parsed⟩ | ⟨x, _, _, fits, parsed⟩
  · exact ⟨_, _, parsed, range, fun k _ => rfl, .inl ⟨place, rfl⟩⟩
  · refine ⟨_, _, parsed, fits, ?_, .inr ?_⟩
    · intro k behind
      rw [slots, List.getElem?_eq_none behind]
    · intro k stored
      exact slots_terminated names (fun name member => readNames_lt member) stored

end Loops

/-- The parsers of the policy file return on any text without a fault: no loop needs more rounds
    than the text has characters and a NUL. What they wrote are the first entries, `count'` of
    them, and of a name's slot the part up to its NUL. Without the array nothing is written. -/
theorem parsers_safe (json key : CString) (ints : ℕ → ℤ) (names : ℕ → ℕ → Char) {count max : ℤ}
    (range : 0 ≤ count ∧ count ≤ max) {n : ℕ} (enough : json.chars.length < n) :
    (∃ ints' count', parseIntArray n json key ints count max = .ok (ints', count') ∧
        (0 ≤ count' ∧ count' ≤ max) ∧ ∀ i : ℕ, count' ≤ i → ints' i = ints i) ∧
      (∃ names' count', parseStringArray n json key names count max = .ok (names', count') ∧
        (0 ≤ count' ∧ count' ≤ max) ∧ (∀ k : ℕ, count' ≤ k → names' k = names k) ∧
        ((CText.strstr key.chars json.chars).bind (CText.strchr '[') = none ∧ names' = names ∨
          ∀ k : ℕ, k < count' → ∃ i < maxKernelNameLen,
            names' k i = nul ∧ ∀ j, i < j → names' k j = names k j)) ∧
      ∃ value, parseIntField n json key = .ok value := by
  obtain ⟨count, rfl⟩ := Int.eq_ofNat_of_zero_le range.1
  obtain ⟨max, rfl⟩ := Int.eq_ofNat_of_zero_le (Int.le_trans range.1 range.2)
  have within : count ≤ max := by omega
  obtain ⟨ints', stored, parsed, fits, behind⟩ := parseIntArray_safe enough key ints within
  obtain ⟨names', filled, parsed', fits', behind', rows⟩ :=
    parseStringArray_safe enough key names within
  refine ⟨⟨ints', stored, parsed, by omega, fun i out => behind i (by omega)⟩,
    ⟨names', filled, parsed', by omega, fun k out => behind' k (by omega), ?_⟩,
    _, parseIntField_eq enough key⟩
  refine rows.imp_right ?_
  intro rows k inside
  exact rows k (by omega)

theorem parsers_safe_cut :
    ∃ names' count', parseStringArray 9 ⟨['k', '[', '"', 'g', 'e', 'm', 'm'], by decide⟩
        ⟨['k'], by decide⟩ (fun _ _ => 'x') 3 64 = .ok (names', count') ∧
      0 ≤ count' ∧ count' ≤ 64 := by
  obtain ⟨_, ⟨names', count', parsed, range, _⟩, _⟩ :=
    parsers_safe ⟨['k', '[', '"', 'g', 'e', 'm', 'm'], by decide⟩ ⟨['k'], by decide⟩ (fun _ => 0)
      (fun _ _ => 'x') (show (0 : ℤ) ≤ 3 ∧ (3 : ℤ) ≤ 64 by decide) (n := 9) (by decide)
  exact ⟨names', count', parsed, range⟩

end Hooks.ParserSafety
