import KrakenRuntime.Lib.CText
import Mathlib.Data.List.Forall2

/- How JSON text spells the values that small hand-written readers look for: white space,
   non-negative integers, strings with their escapes, arrays, and one member of an object.
   Characters are bytes, so an escape of a code point spells the bytes of its UTF-8 form.
   Only the value a reader looks for is spelled out: the text around a member is any text. -/
namespace Json
open CText

def Blanks (w : List Char) : Prop := ∀ c ∈ w, c = ' ' ∨ c = '\t' ∨ c = '\n' ∨ c = '\r'

instance (w : List Char) : Decidable (Blanks w) := List.decidableBAll _ w

theorem blanks_clear {w : List Char} {c : Char} (blanks : Blanks w)
    (other : ¬ (c = ' ' ∨ c = '\t' ∨ c = '\n' ∨ c = '\r')) : c ∉ w :=
  fun member => other (blanks c member)

def quoted (t : List Char) : List Char := '"' :: (t ++ ['"'])

structure Numeral (i : ℕ) (t : List Char) : Prop where
  nonempty : t ≠ []
  digits : ∀ c ∈ t, isdigit c = true
  value : decimal t = i

/-- An integer as JSON writes it, without leading zeros. -/
structure Integer (i : ℕ) (t : List Char) : Prop extends Numeral i t where
  leading : t.head? = some '0' → t = ['0']

def escape : Char → Option Char
  | '"' => some '"'
  | '\\' => some '\\'
  | '/' => some '/'
  | 'b' => some (Char.ofNat 8)
  | 'f' => some (Char.ofNat 12)
  | 'n' => some '\n'
  | 'r' => some '\r'
  | 't' => some '\t'
  | _ => none

def hexDigit (c : Char) : Option ℕ :=
  if isdigit c then some (c.toNat - 48)
  else if 65 ≤ c.toNat ∧ c.toNat ≤ 70 then some (c.toNat - 55)
  else if 97 ≤ c.toNat ∧ c.toNat ≤ 102 then some (c.toNat - 87)
  else none

def codeUnit : List Char → Option ℕ
  | [a, b, c, d] => do
    return (((← hexDigit a) * 16 + (← hexDigit b)) * 16 + (← hexDigit c)) * 16 + (← hexDigit d)
  | _ => none

def utf8 (u : ℕ) : List Char :=
  if u < 0x80 then [Char.ofNat u]
  else if u < 0x800 then [Char.ofNat (0xC0 + u / 64), Char.ofNat (0x80 + u % 64)]
  else if u < 0x10000 then
    [Char.ofNat (0xE0 + u / 4096), Char.ofNat (0x80 + u / 64 % 64), Char.ofNat (0x80 + u % 64)]
  else
    [Char.ofNat (0xF0 + u / 262144), Char.ofNat (0x80 + u / 4096 % 64),
      Char.ofNat (0x80 + u / 64 % 64), Char.ofNat (0x80 + u % 64)]

def Verbatim (c : Char) : Prop := c ≠ '"' ∧ c ≠ '\\' ∧ 32 ≤ c.toNat

instance : DecidablePred Verbatim := fun _ => inferInstanceAs (Decidable (_ ∧ _))

/-- What stands between the quotes of a string literal, and the string that it spells. -/
inductive Spells : List Char → List Char → Prop where
  | nil : Spells [] []
  | verbatim {c : Char} {t x : List Char} (plain : Verbatim c) (tail : Spells t x) :
      Spells (c :: t) (c :: x)
  | short {e c : Char} {t x : List Char} (known : escape e = some c) (tail : Spells t x) :
      Spells ('\\' :: e :: t) (c :: x)
  | unicode {hex t x : List Char} {u : ℕ} (unit : codeUnit hex = some u)
      (whole : u < 0xD800 ∨ 0xE000 ≤ u) (tail : Spells t x) :
      Spells ('\\' :: 'u' :: (hex ++ t)) (utf8 u ++ x)
  | pair {hex hex' t x : List Char} {u v : ℕ} (unit : codeUnit hex = some u)
      (unit' : codeUnit hex' = some v) (high : 0xD800 ≤ u ∧ u < 0xDC00)
      (low : 0xDC00 ≤ v ∧ v < 0xE000) (tail : Spells t x) :
      Spells ('\\' :: 'u' :: (hex ++ '\\' :: 'u' :: (hex' ++ t)))
        (utf8 (0x10000 + (u - 0xD800) * 0x400 + (v - 0xDC00)) ++ x)

theorem spells_verbatim {t : List Char} (plain : (t.all fun c => decide (Verbatim c)) = true) :
    Spells t t := by
  induction t with
  | nil => exact .nil
  | cons c t ih =>
    simp only [List.all_cons, Bool.and_eq_true, decide_eq_true_eq] at plain
    exact .verbatim plain.1 (ih plain.2)

theorem codeUnit_no_quote {hex : List Char} {u : ℕ} (unit : codeUnit hex = some u) :
    '"' ∉ hex := by
  intro member
  have no_digit : hexDigit '"' = none := by decide
  simp only [codeUnit] at unit
  split at unit
  · simp only [List.mem_cons, List.not_mem_nil, or_false] at member
    rcases member with rfl | rfl | rfl | rfl <;> simp_all
  · cases unit

theorem spells_no_quote {t x : List Char} (spells : Spells t x) (clean : '"' ∉ x) : '"' ∉ t := by
  induction spells with
  | nil => exact clean
  | verbatim plain tail ih =>
    simp only [List.mem_cons, not_or] at clean ⊢
    exact ⟨clean.1, ih clean.2⟩
  | @short e c t x known tail ih =>
    simp only [List.mem_cons, not_or] at clean ⊢
    refine ⟨by decide, ?_, ih clean.2⟩
    rintro rfl
    simp only [escape, Option.some.injEq] at known
    exact clean.1 known
  | unicode unit whole tail ih =>
    simp only [List.mem_append, List.mem_cons, not_or] at clean ⊢
    exact ⟨by decide, by decide, codeUnit_no_quote unit, ih clean.2⟩
  | pair unit unit' high low tail ih =>
    simp only [List.mem_append, List.mem_cons, not_or] at clean ⊢
    exact ⟨by decide, by decide, codeUnit_no_quote unit, by decide, by decide,
      codeUnit_no_quote unit', ih clean.2⟩

theorem spells_all_no_quote {ts xs : List (List Char)} (spells : List.Forall₂ Spells ts xs)
    (clean : ∀ x ∈ xs, '"' ∉ x) : ∀ t ∈ ts, '"' ∉ t := by
  induction spells with
  | nil => simp
  | cons head tail ih =>
    intro t member
    rcases List.mem_cons.mp member with rfl | later
    · exact spells_no_quote head (clean _ (List.mem_cons_self ..))
    · exact ih (fun x here => clean x (List.mem_cons_of_mem _ here)) t later

section Arrays
variable {α β : Type}

inductive Elements (spell : α → List Char → Prop) : List α → List Char → Prop where
  | last {a b t : List Char} {x : α} (before : Blanks a) (element : spell x t) (after : Blanks b) :
      Elements spell [x] (a ++ (t ++ b))
  | next {a b t rest : List Char} {x : α} {xs : List α} (before : Blanks a) (element : spell x t)
      (after : Blanks b) (others : Elements spell xs rest) :
      Elements spell (x :: xs) (a ++ (t ++ (b ++ ',' :: rest)))

inductive Items (spell : α → List Char → Prop) : List α → List Char → Prop where
  | empty {w : List Char} (blanks : Blanks w) : Items spell [] w
  | some {xs : List α} {t : List Char} (elements : Elements spell xs t) : Items spell xs t

theorem elements_one {spell : α → List Char → Prop} {x : α} {t : List Char}
    (element : spell x t) : Elements spell [x] t := by
  have only := Elements.last (a := []) (b := []) (by simp [Blanks]) element (by simp [Blanks])
  simpa using only

theorem elements_cons {spell : α → List Char → Prop} {x : α} {xs : List α} {t rest : List Char}
    (element : spell x t) (others : Elements spell xs rest) :
    Elements spell (x :: xs) (t ++ ',' :: rest) := by
  have more := Elements.next (a := []) (b := []) (by simp [Blanks]) element (by simp [Blanks]) others
  simpa using more

/-- What a reader finds between two elements. -/
def Gap (g : List Char) : Prop := ∀ c ∈ g, c = ' ' ∨ c = '\t' ∨ c = '\n' ∨ c = '\r' ∨ c = ','

/-- The character after an element. -/
def Delimited (rest : List Char) : Prop :=
  ∀ c ∈ rest.head?, c = ' ' ∨ c = '\t' ∨ c = '\n' ∨ c = '\r' ∨ c = ',' ∨ c = ']'

theorem blanks_gap {w : List Char} (blanks : Blanks w) : Gap w := by
  intro c member
  rcases blanks c member with h | h | h | h <;> simp [h]

theorem gap_append {g h : List Char} (first : Gap g) (second : Gap h) : Gap (g ++ h) := by
  intro c member
  rcases List.mem_append.mp member with left | right
  · exact first c left
  · exact second c right

theorem delimited_gap {g rest : List Char} {c : Char} (gap : Gap g) (stop : c = ',' ∨ c = ']') :
    Delimited (g ++ c :: rest) := by
  cases g with
  | nil =>
    rintro d ⟨⟩
    rcases stop with rfl | rfl <;> simp
  | cons d g =>
    rintro e ⟨⟩
    rcases gap d (List.mem_cons_self ..) with h | h | h | h | h <;> simp [h]

/-- A loop that reads at most so many elements, each one with what stands before it. -/
structure Reader (spell : α → List Char → Prop) (ok : α → Prop)
    (read : ℕ → List Char → List β) (value : α → β) : Prop where
  close : ∀ {room g rest}, Gap g → read room (g ++ ']' :: rest) = []
  element : ∀ {room g x t rest}, Gap g → ok x → spell x t → Delimited rest →
    read (room + 1) (g ++ (t ++ rest)) = value x :: read room rest

section Reading
variable {spell : α → List Char → Prop} {ok : α → Prop} {read : ℕ → List Char → List β}
  {value : α → β} {xs : List α} {t : List Char}

theorem elements_read (reader : Reader spell ok read value) (full : ∀ p, read 0 p = [])
    (elements : Elements spell xs t) {room : ℕ} {g rest : List Char} (gap : Gap g)
    (all : ∀ x ∈ xs, ok x) : read room (g ++ (t ++ ']' :: rest)) = (xs.take room).map value := by
  induction elements generalizing room g with
  | @last a b t x before element after =>
    cases room with
    | zero => simp [full]
    | succ room =>
      have regroup : g ++ (a ++ (t ++ b) ++ ']' :: rest) = (g ++ a) ++ (t ++ (b ++ ']' :: rest)) := by
        simp only [List.append_assoc]
      rw [regroup, reader.element (gap_append gap (blanks_gap before)) (all x (by simp)) element
        (delimited_gap (blanks_gap after) (.inr rfl)), reader.close (blanks_gap after)]
      simp
  | @next a b t others x xs before element after _ ih =>
    cases room with
    | zero => simp [full]
    | succ room =>
      have regroup : g ++ (a ++ (t ++ (b ++ ',' :: others)) ++ ']' :: rest) =
          (g ++ a) ++ (t ++ (b ++ ',' :: (others ++ ']' :: rest))) := by
        simp only [List.append_assoc, List.cons_append]
      have comma : b ++ ',' :: (others ++ ']' :: rest) = (b ++ [',']) ++ (others ++ ']' :: rest) := by
        simp
      rw [regroup, reader.element (gap_append gap (blanks_gap before)) (all x (by simp)) element
        (delimited_gap (blanks_gap after) (.inl rfl)), comma,
        ih (gap_append (blanks_gap after) (by simp [Gap])) (fun y member => all y (by simp [member]))]
      simp

theorem items_read (reader : Reader spell ok read value) (full : ∀ p, read 0 p = [])
    (items : Items spell xs t) (room : ℕ) (rest : List Char) (all : ∀ x ∈ xs, ok x) :
    read room (t ++ ']' :: rest) = (xs.take room).map value := by
  cases items with
  | empty blanks =>
    rw [reader.close (blanks_gap blanks)]
    simp
  | some elements => exact elements_read (g := []) reader full elements (by simp [Gap]) all

end Reading

end Arrays

section Walking
variable {α β : Type} {spell : α → List Char → Prop} {xs : List α} {t : List Char}

inductive Remaining (spell : α → List Char → Prop) : List α → List Char → Prop where
  | close {b : List Char} (blanks : Blanks b) : Remaining spell [] b
  | more {b t : List Char} {xs : List α} (blanks : Blanks b) (others : Elements spell xs t) :
      Remaining spell xs (b ++ ',' :: t)

theorem elements_split {x : α} (elements : Elements spell (x :: xs) t) :
    ∃ a m r, Blanks a ∧ spell x m ∧ Remaining spell xs r ∧ t = a ++ (m ++ r) := by
  cases elements with
  | last before element after => exact ⟨_, _, _, before, element, .close after, rfl⟩
  | next before element after others => exact ⟨_, _, _, before, element, .more after others, rfl⟩

theorem remaining_others (some_left : xs ≠ []) (remaining : Remaining spell xs t) :
    ∃ b u, Blanks b ∧ Elements spell xs u ∧ t = b ++ ',' :: u := by
  cases remaining with
  | close blanks => exact absurd rfl some_left
  | more blanks others => exact ⟨_, _, blanks, others, rfl⟩

section Find
variable {find : List Char → β} (gap : ∀ {a rest}, Blanks a → find (a ++ rest) = find rest)
include gap

theorem elements_reach {before after : List α} {x : α}
    (elements : Elements spell (before ++ x :: after) t)
    (skip : ∀ y ∈ before, ∀ m b rest, spell y m → Blanks b →
      find (m ++ (b ++ ',' :: rest)) = find rest) :
    ∃ m r, spell x m ∧ Remaining spell after r ∧
      ∀ tail, find (t ++ tail) = find (m ++ (r ++ tail)) := by
  induction before generalizing t with
  | nil =>
    obtain ⟨a, m, r, blanks, element, remaining, rfl⟩ := elements_split elements
    refine ⟨m, r, element, remaining, fun tail => ?_⟩
    rw [List.append_assoc, List.append_assoc, gap blanks]
  | cons y before ih =>
    obtain ⟨a, m, r, blanks, element, remaining, rfl⟩ := elements_split elements
    obtain ⟨b, u, after_blanks, others, rfl⟩ := remaining_others (by simp) remaining
    obtain ⟨m', r', found, left, arrives⟩ := ih others
      (fun z member => skip z (List.mem_cons_of_mem _ member))
    refine ⟨m', r', found, left, fun tail => ?_⟩
    have regroup : a ++ (m ++ (b ++ ',' :: u)) ++ tail = a ++ (m ++ (b ++ ',' :: (u ++ tail))) := by
      simp only [List.append_assoc, List.cons_append]
    rw [regroup, gap blanks, skip y (List.mem_cons_self ..) m b _ element after_blanks, arrives]

theorem elements_pass {stop : Char} (elements : Elements spell xs t)
    (skip : ∀ y ∈ xs, ∀ m b c rest, spell y m → Blanks b → c = ',' ∨ c = stop →
      find (m ++ (b ++ c :: rest)) = find rest) (rest : List Char) :
    find (t ++ stop :: rest) = find rest := by
  rcases List.eq_nil_or_concat xs with rfl | ⟨before, x, rfl⟩
  · cases elements
  · rw [List.concat_eq_append] at elements skip
    obtain ⟨m, r, element, remaining, arrives⟩ := elements_reach gap elements
      (fun y member m b rest spelled blanks =>
        skip y (List.mem_append_left _ member) m b ',' rest spelled blanks (.inl rfl))
    rw [arrives]
    cases remaining with
    | close blanks => exact skip x (by simp) m _ stop rest element blanks (.inr rfl)
    | more blanks others => cases others

end Find

theorem elements_mem {c : Char} {P : α → Prop} (elements : Elements spell xs t)
    (blank : ¬ (c = ' ' ∨ c = '\t' ∨ c = '\n' ∨ c = '\r')) (comma : c ≠ ',')
    (each : ∀ x ∈ xs, ∀ m, spell x m → (c ∈ m ↔ P x)) : c ∈ t ↔ ∃ x ∈ xs, P x := by
  have clear : ∀ {w : List Char}, Blanks w → c ∉ w := fun blanks => blanks_clear blanks blank
  induction elements with
  | last before element after =>
    simp [clear before, clear after, each _ (List.mem_cons_self ..) _ element]
  | next before element after others ih =>
    have rest := ih (fun x member => each x (List.mem_cons_of_mem _ member))
    simp [clear before, clear after, comma, each _ (List.mem_cons_self ..) _ element, rest]

theorem items_clear {c : Char} (items : Items spell xs t)
    (blank : ¬ (c = ' ' ∨ c = '\t' ∨ c = '\n' ∨ c = '\r')) (comma : c ≠ ',')
    (each : ∀ x ∈ xs, ∀ m, spell x m → c ∉ m) : c ∉ t := by
  cases items with
  | empty blanks => exact blanks_clear blanks blank
  | some elements =>
    rw [elements_mem (P := fun _ => False) elements blank comma
      (fun x member m spelled => by simp [each x member m spelled])]
    simp

theorem remaining_mem {c : Char} {P : α → Prop} (remaining : Remaining spell xs t)
    (blank : ¬ (c = ' ' ∨ c = '\t' ∨ c = '\n' ∨ c = '\r')) (comma : c ≠ ',')
    (each : ∀ x ∈ xs, ∀ m, spell x m → (c ∈ m ↔ P x)) : c ∈ t ↔ ∃ x ∈ xs, P x := by
  have clear : ∀ {w : List Char}, Blanks w → c ∉ w := fun blanks => blanks_clear blanks blank
  cases remaining with
  | close blanks => simp [clear blanks]
  | more blanks others => simp [clear blanks, comma, elements_mem others blank comma each]

theorem elements_blanks {space : List Char} (blanks : Blanks space)
    (elements : Elements spell xs t) : Elements spell xs (space ++ t) := by
  have blanks_append : ∀ {a}, Blanks a → Blanks (space ++ a) := by
    intro a before c member
    exact (List.mem_append.mp member).elim (blanks c) (before c)
  cases elements with
  | last before element after =>
    rw [← List.append_assoc]
    exact .last (blanks_append before) element after
  | next before element after others =>
    rw [← List.append_assoc]
    exact .next (blanks_append before) element after others

def joined (space : List Char) (w : α → List Char) : List α → List Char
  | [] => []
  | [x] => w x
  | x :: y :: ys => w x ++ ',' :: (space ++ joined space w (y :: ys))

theorem elements_joined {space : List Char} (blanks : Blanks space) {w : α → List Char}
    (nonempty : xs ≠ []) (each : ∀ x ∈ xs, spell x (w x)) :
    Elements spell xs (joined space w xs) := by
  induction xs with
  | nil => exact absurd rfl nonempty
  | cons x xs ih =>
    have element := each x (List.mem_cons_self ..)
    cases xs with
    | nil => exact elements_one element
    | cons y ys =>
      have others := ih (by simp) (fun z member => each z (List.mem_cons_of_mem _ member))
      exact elements_cons element (elements_blanks blanks others)

theorem items_joined {space : List Char} (blanks : Blanks space) {w : α → List Char}
    (each : ∀ x ∈ xs, spell x (w x)) : Items spell xs (joined space w xs) := by
  cases xs with
  | nil => exact .empty (by simp [Blanks, joined])
  | cons x xs => exact .some (elements_joined blanks (by simp) each)

end Walking

def later {α : Type} [DecidableEq α] (x : α) (xs : List α) : List α :=
  (xs.dropWhile fun y => y ≠ x).tail

section Later
variable {α : Type} [DecidableEq α] {x : α} {xs before after : List α}

theorem later_append (absent : x ∉ before) : later x (before ++ x :: after) = after := by
  have passed : ∀ y ∈ before, decide (y ≠ x) = true := by
    intro y member
    apply decide_eq_true
    rintro rfl
    exact absent member
  rw [later, List.dropWhile_append_of_pos passed, List.dropWhile_cons_of_neg (by simp),
    List.tail_cons]

theorem later_split (present : x ∈ xs) : ∃ before, x ∉ before ∧ xs = before ++ x :: later x xs := by
  obtain ⟨before, after, rfl, absent⟩ := List.eq_append_cons_of_mem present
  exact ⟨before, absent, by rw [later_append absent]⟩

theorem mem_of_mem_later {y : α} (member : y ∈ later x xs) : x ∈ xs := by
  by_contra absent
  have passed : xs.dropWhile (fun y => y ≠ x) = [] := by
    apply List.dropWhile_eq_nil_iff.mpr
    intro z here
    apply decide_eq_true
    rintro rfl
    exact absent here
  rw [later, passed] at member
  cases member

end Later

/-- A member name that stands out among the marks of the text. -/
def Word (key : List Char) : Prop := ∀ c ∈ ['"', ',', ':', '[', ']'], c ∉ key

instance (key : List Char) : Decidable (Word key) := List.decidableBAll _ _

section Strings
variable {key s u rest : List Char}

theorem strstr_here : strstr (quoted key) (quoted key ++ rest) = some (quoted key ++ rest) := by
  simp [quoted, strstr]

theorem strstr_clear (clear : '"' ∉ u) :
    strstr (quoted key) (u ++ rest) = strstr (quoted key) rest := by
  induction u with
  | nil => rfl
  | cons c u ih =>
    simp only [List.mem_cons, not_or] at clear
    rw [List.cons_append, strstr, if_neg, ih clear.2]
    rintro ⟨after, here⟩
    exact clear.1 (List.cons.inj here).1

theorem quote_ends {x y : List Char} (plain : '"' ∉ s) (unquoted : '"' ∉ key)
    (same : key ++ '"' :: x = s ++ '"' :: y) : s = key := by
  have whole := congrArg (List.takeWhile fun c => c ≠ '"') same
  rw [takeWhile_ne unquoted, takeWhile_ne plain] at whole
  exact whole.symm

theorem strstr_past {c : Char} (word : Word key) (plain : '"' ∉ s) (other : s ≠ key)
    (clear : '"' ∉ u) (mark : c ∈ u) (foreign : c ∉ key) :
    strstr (quoted key) (quoted s ++ (u ++ rest)) = strstr (quoted key) rest := by
  have unquoted : '"' ∉ key := word _ (by decide)
  have opening : ¬ quoted key <+: '"' :: (s ++ '"' :: (u ++ rest)) := by
    rintro ⟨after, here⟩
    simp only [quoted, List.cons_append, List.append_assoc, List.nil_append, List.cons.injEq,
      true_and] at here
    exact other (quote_ends plain unquoted here)
  have closing : ¬ quoted key <+: '"' :: (u ++ rest) := by
    intro here
    have inner : key ++ ['"'] <+: u ++ rest := by simpa [quoted] using here
    rcases List.prefix_or_prefix_of_prefix inner (List.prefix_append u rest) with short | long
    · exact clear (short.subset (by simp))
    · rcases List.mem_append.mp (long.subset mark) with inside | quote
      · exact foreign inside
      · rw [List.mem_singleton.mp quote] at mark
        exact clear mark
  have shape : quoted s ++ (u ++ rest) = '"' :: (s ++ '"' :: (u ++ rest)) := by simp [quoted]
  rw [shape, strstr, if_neg opening, strstr_clear plain, strstr, if_neg closing, strstr_clear clear]

theorem strstr_blanks (blanks : Blanks u) :
    strstr (quoted key) (u ++ rest) = strstr (quoted key) rest :=
  strstr_clear (blanks_clear blanks (by decide))

theorem string_passed {c : Char} (word : Word key) (plain : '"' ∉ s) (other : s ≠ key)
    (blanks : Blanks u) (stop : c = ',' ∨ c = ']') :
    strstr (quoted key) (quoted s ++ (u ++ c :: rest)) = strstr (quoted key) rest := by
  have clear : '"' ∉ u ++ [c] := by
    rcases stop with rfl | rfl <;> simp [blanks_clear blanks (c := '"') (by decide)]
  have foreign : c ∉ key := by
    rcases stop with rfl | rfl <;> exact word _ (by decide)
  have regroup : quoted s ++ (u ++ c :: rest) = quoted s ++ ((u ++ [c]) ++ rest) := by simp
  rw [regroup, strstr_past word plain other clear (by simp) foreign]

theorem mark_clear {c : Char} (word : Word key) (mark : c ∈ [':', '[']) : c ∉ quoted key := by
  have sign : c = ':' ∨ c = '[' := by simpa using mark
  have foreign : c ∉ key := by
    rcases sign with rfl | rfl <;> exact word _ (by decide)
  rcases sign with rfl | rfl <;> simp [quoted, foreign]

end Strings

section StringArrays
variable {key t : List Char} {xs : List (List Char)}
  (items : Items (fun s t => t = quoted s) xs t) (word : Word key) (plain : ∀ x ∈ xs, '"' ∉ x)
include items word plain

theorem strings_passed (absent : key ∉ xs) (rest : List Char) :
    strstr (quoted key) (t ++ ']' :: rest) = strstr (quoted key) rest := by
  cases items with
  | empty blanks =>
    rw [strstr_blanks blanks]
    exact strstr_clear (u := [']']) (by decide)
  | some elements =>
    apply elements_pass strstr_blanks elements
    rintro y member m b c rest rfl blanks stop
    exact string_passed word (plain y member) (fun same => absent (same ▸ member)) blanks stop

theorem string_found (present : key ∈ xs) :
    ∃ u, (∀ rest, strstr (quoted key) (t ++ ']' :: rest) = some (quoted key ++ (u ++ ']' :: rest))) ∧
      ∀ c ∈ [':', '['], c ∈ u ↔ ∃ x ∈ later key xs, c ∈ x := by
  cases items with
  | empty blanks => cases present
  | some elements =>
    obtain ⟨before, absent, shape⟩ := later_split present
    rw [shape] at elements
    have skip : ∀ y ∈ before, ∀ m b rest, m = quoted y → Blanks b →
        strstr (quoted key) (m ++ (b ++ ',' :: rest)) = strstr (quoted key) rest := by
      rintro y member m b rest rfl blanks
      have here : y ∈ xs := by
        rw [shape]
        exact List.mem_append_left _ member
      exact string_passed word (plain y here) (fun same => absent (same ▸ member)) blanks (.inl rfl)
    obtain ⟨m, u, rfl, remaining, arrives⟩ := elements_reach strstr_blanks elements skip
    refine ⟨u, fun rest => by rw [arrives, strstr_here], fun c mark => ?_⟩
    have sign : c = ':' ∨ c = '[' := by simpa using mark
    apply remaining_mem remaining (by rcases sign with rfl | rfl <;> decide)
      (by rcases sign with rfl | rfl <;> decide)
    rintro x member m rfl
    rcases sign with rfl | rfl <;> simp [quoted]

section Mark
variable {c : Char} (mark : c ∈ [':', '['])
include mark

theorem mark_after_array (present : key ∈ xs) (clear : ∀ x ∈ later key xs, c ∉ x)
    (rest : List Char) :
    (strstr (quoted key) (t ++ ']' :: rest)).bind (strchr c) = strchr c rest := by
  obtain ⟨u, found, marks⟩ := string_found items word plain present
  have absent : c ∉ u := by
    rw [marks c mark]
    rintro ⟨x, member, inside⟩
    exact clear x member inside
  have bracket : c ∉ [']'] := by
    rintro inside
    rw [List.mem_singleton.mp inside] at mark
    exact absurd mark (by decide)
  have regroup : quoted key ++ (u ++ ']' :: rest) = (quoted key ++ (u ++ [']'])) ++ rest := by simp
  rw [found, Option.bind_some, regroup]
  apply strchr_clear
  simp only [List.mem_append, not_or]
  exact ⟨mark_clear word mark, absent, bracket⟩

theorem mark_in_array (present : key ∈ xs) {x : List Char} (member : x ∈ later key xs)
    (inside : c ∈ x) :
    ∃ v, ∀ rest, (strstr (quoted key) (t ++ ']' :: rest)).bind (strchr c) =
      some (c :: (v ++ ']' :: rest)) := by
  obtain ⟨u, found, marks⟩ := string_found items word plain present
  obtain ⟨w, v, rfl, absent⟩ := List.eq_append_cons_of_mem ((marks c mark).mpr ⟨x, member, inside⟩)
  refine ⟨v, fun rest => ?_⟩
  have regroup : quoted key ++ (w ++ c :: v ++ ']' :: rest) =
      (quoted key ++ w) ++ c :: (v ++ ']' :: rest) := by simp
  rw [found, Option.bind_some, regroup]
  apply strchr_first
  simp only [List.mem_append, not_or]
  exact ⟨mark_clear word mark, absent⟩

end Mark

end StringArrays

section Objects
variable {α : Type} {key value : α → List Char}

inductive Entry (key value : α → List Char) (f : α) : List Char → Prop where
  | mk {s u : List Char} (before : Blanks s) (after : Blanks u) :
      Entry key value f (quoted (key f) ++ (s ++ ':' :: (u ++ value f)))

inductive Object (key value : α → List Char) (fields : List α) : List Char → Prop where
  | mk {a t b : List Char} (before : Blanks a) (entries : Elements (Entry key value) fields t)
      (after : Blanks b) : Object key value fields (a ++ '\x7b' :: (t ++ '\x7d' :: b))

def compact (key value : α → List Char) (fields : List α) : List Char :=
  '\x7b' :: (joined [] (fun f => quoted (key f) ++ ':' :: value f) fields ++ ['\x7d'])

theorem compact_object {fields : List α} (nonempty : fields ≠ []) :
    Object key value fields (compact key value fields) := by
  have blanks : Blanks [] := by decide
  have entry : ∀ f ∈ fields, Entry key value f (quoted (key f) ++ ':' :: value f) :=
    fun f _ => .mk (s := []) (u := []) blanks blanks
  exact .mk (a := []) (b := []) blanks (elements_joined blanks nonempty entry) blanks

theorem entry_value {f : α} {k m : List Char} (word : Word k) (plain : '"' ∉ key f)
    (other : key f ≠ k) (entry : Entry key value f m) (rest : List Char) :
    strstr (quoted k) (m ++ rest) = strstr (quoted k) (value f ++ rest) := by
  cases entry with
  | @mk s u before after =>
    have clear : '"' ∉ s ++ ':' :: u := by
      simp [blanks_clear before (c := '"') (by decide), blanks_clear after (c := '"') (by decide)]
    have regroup : quoted (key f) ++ (s ++ ':' :: (u ++ value f)) ++ rest =
        quoted (key f) ++ ((s ++ ':' :: u) ++ (value f ++ rest)) := by simp
    rw [regroup, strstr_past word plain other clear (c := ':') (by simp) (word _ (by decide))]

theorem object_reach {f : α} {before after : List α} {k text : List Char} (word : Word k)
    (object : Object key value (before ++ f :: after) text)
    (plain : ∀ g ∈ before, '"' ∉ key g ∧ key g ≠ k)
    (skip : ∀ g ∈ before, ∀ rest, strstr (quoted k) (value g ++ rest) = strstr (quoted k) rest) :
    ∃ m r b, Entry key value f m ∧ Remaining (Entry key value) after r ∧
      strstr (quoted k) text = strstr (quoted k) (m ++ (r ++ '\x7d' :: b)) := by
  cases object with
  | @mk a t b blanks entries _ =>
    have passed : ∀ g ∈ before, ∀ m b rest, Entry key value g m → Blanks b →
        strstr (quoted k) (m ++ (b ++ ',' :: rest)) = strstr (quoted k) rest := by
      intro g member m b rest entry blanks
      rw [entry_value word (plain g member).1 (plain g member).2 entry, skip g member,
        strstr_blanks blanks]
      exact strstr_clear (u := [',']) (by decide)
    obtain ⟨m, r, entry, remaining, arrives⟩ := elements_reach strstr_blanks entries passed
    refine ⟨m, r, b, entry, remaining, ?_⟩
    rw [strstr_blanks blanks, ← arrives]
    exact strstr_clear (u := ['\x7b']) (by decide)

theorem object_clear {c : Char} {fields : List α} {text : List Char}
    (object : Object key value fields text) (blank : ¬ (c = ' ' ∨ c = '\t' ∨ c = '\n' ∨ c = '\r'))
    (comma : c ≠ ',') (opening : c ≠ '\x7b') (closing : c ≠ '\x7d')
    (each : ∀ f ∈ fields, ∀ m, Entry key value f m → c ∉ m) : c ∉ text := by
  cases object with
  | mk before entries after =>
    have inner := items_clear (.some entries) blank comma each
    simp only [List.mem_append, List.mem_cons, not_or]
    exact ⟨blanks_clear before blank, opening, inner, closing, blanks_clear after blank⟩

section Mark
variable {f : α} {m rest : List Char} (entry : Entry key value f m)
include entry

theorem entry_colon (word : Word (key f)) (rest : List Char) :
    ∃ s, Blanks s ∧ strchr ':' (m ++ rest) = some (':' :: (s ++ (value f ++ rest))) := by
  cases entry with
  | @mk s u before after =>
    have regroup : quoted (key f) ++ (s ++ ':' :: (u ++ value f)) ++ rest =
        (quoted (key f) ++ s) ++ ':' :: (u ++ (value f ++ rest)) := by simp
    refine ⟨u, after, ?_⟩
    rw [regroup]
    apply strchr_first
    simp only [List.mem_append, not_or]
    exact ⟨mark_clear word (by decide), blanks_clear before (by decide)⟩

theorem entry_bracket (word : Word (key f)) {x : List Char} (array : value f = '[' :: x) :
    strchr '[' (m ++ rest) = some ('[' :: (x ++ rest)) := by
  cases entry with
  | @mk s u before after =>
    have regroup : quoted (key f) ++ (s ++ ':' :: (u ++ value f)) ++ rest =
        (quoted (key f) ++ (s ++ ':' :: u)) ++ '[' :: (x ++ rest) := by simp [array]
    rw [regroup]
    apply strchr_first
    simp only [List.mem_append, List.mem_cons, not_or]
    exact ⟨mark_clear word (by decide), blanks_clear before (by decide), by decide,
      blanks_clear after (by decide)⟩

theorem entry_clear {c : Char} (blank : ¬ (c = ' ' ∨ c = '\t' ∨ c = '\n' ∨ c = '\r'))
    (colon : c ≠ ':') (name : c ∉ quoted (key f)) (clear : c ∉ value f) : c ∉ m := by
  cases entry with
  | mk before after =>
    simp only [List.mem_append, List.mem_cons, not_or]
    exact ⟨name, blanks_clear before blank, colon, blanks_clear after blank, clear⟩

theorem entry_found (rest : List Char) :
    strstr (quoted (key f)) (m ++ rest) = some (m ++ rest) := by
  cases entry with
  | mk before after =>
    rw [List.append_assoc]
    exact strstr_here

end Mark

end Objects

/-- A place in a text where a member with this name stands. -/
structure Member (text key : List Char) where
  before : List Char
  spaceBefore : List Char
  spaceAfter : List Char
  value : List Char
  after : List Char
  blanksBefore : Blanks spaceBefore
  blanksAfter : Blanks spaceAfter
  split_ : text = before ++
    (quoted key ++ (spaceBefore ++ ':' :: (spaceAfter ++ (value ++ after))))

/-- No string before the member is spelled like its name. -/
def Member.First {text key : List Char} (m : Member text key) : Prop :=
  ∀ before' after', text = before' ++ (quoted key ++ after') → m.before.length ≤ before'.length

theorem first_of_scan {text key : List Char} {m : Member text key}
    (scan : ∀ j < m.before.length, ¬ quoted key <+: text.drop j) : m.First := by
  intro before' after' found
  by_contra early
  apply scan before'.length (by omega)
  rw [found, List.drop_left]
  exact List.prefix_append _ _

section Lookup
variable {text key : List Char}

theorem member_colon {m : Member text key} (first : m.First) (clear : ':' ∉ quoted key) :
    (strstr (quoted key) text).bind (strchr ':') =
      some (':' :: (m.spaceAfter ++ (m.value ++ m.after))) := by
  rw [strstr_first m.split_ first, Option.bind_some, ← List.append_assoc]
  apply strchr_first
  simp only [List.mem_append, not_or]
  exact ⟨clear, blanks_clear m.blanksBefore (by decide)⟩

theorem member_bracket {m : Member text key} (first : m.First) (clear : '[' ∉ quoted key)
    {t : List Char} (array : m.value = '[' :: (t ++ [']'])) :
    (strstr (quoted key) text).bind (strchr '[') = some ('[' :: (t ++ ']' :: m.after)) := by
  have regroup : quoted key ++ (m.spaceBefore ++ ':' :: (m.spaceAfter ++ (m.value ++ m.after))) =
      (quoted key ++ (m.spaceBefore ++ ':' :: m.spaceAfter)) ++ '[' :: (t ++ ']' :: m.after) := by
    rw [array]
    simp
  rw [strstr_first m.split_ first, Option.bind_some, regroup]
  apply strchr_first
  simp only [List.mem_append, List.mem_cons, not_or]
  exact ⟨clear, blanks_clear m.blanksBefore (by decide), by decide,
    blanks_clear m.blanksAfter (by decide)⟩

end Lookup

end Json
