import Mathlib.Data.List.Infix
import Mathlib.Data.List.TakeWhile

/- Text as the C library sees it, in the C locale. A string is the list of its characters
   before the terminating NUL, and a pointer into it is the list from there on. C leaves
   atoi undefined where the number does not fit an int; here it is the number itself. -/
namespace CText

def cstr (buf : List Char) : List Char := buf.takeWhile fun c => c ≠ Char.ofNat 0

def isspace (c : Char) : Bool := c = ' ' || (9 ≤ c.toNat && c.toNat ≤ 13)

def isdigit (c : Char) : Bool := 48 ≤ c.toNat && c.toNat ≤ 57

def strstr (needle : List Char) : List Char → Option (List Char)
  | [] => if needle = [] then some [] else none
  | c :: rest => if needle <+: c :: rest then some (c :: rest) else strstr needle rest

def strchr (c : Char) : List Char → Option (List Char)
  | [] => none
  | d :: rest => if d = c then some (d :: rest) else strchr c rest

def decimal (digits : List Char) : ℕ := digits.foldl (fun value c => 10 * value + (c.toNat - 48)) 0

def atoi (p : List Char) : ℤ :=
  match p.dropWhile isspace with
  | '-' :: q => -(decimal (q.takeWhile isdigit) : ℤ)
  | '+' :: q => decimal (q.takeWhile isdigit)
  | q => decimal (q.takeWhile isdigit)

theorem cstr_eq {buf : List Char} (clean : Char.ofNat 0 ∉ buf) : cstr buf = buf := by
  apply List.takeWhile_eq_self_iff.mpr
  intro c member
  apply decide_eq_true
  rintro rfl
  exact clean member

section Search
variable {needle text : List Char}

theorem strstr_isSome : (strstr needle text).isSome = true ↔ needle <:+: text := by
  induction text with
  | nil =>
    simp only [strstr, List.infix_nil]
    split <;> simp_all
  | cons c rest ih =>
    simp only [strstr, List.infix_cons_iff]
    split
    · rename_i here
      simp [here]
    · rename_i elsewhere
      simp [elsewhere, ih]

theorem strstr_first {before after : List Char} (split_ : text = before ++ (needle ++ after))
    (first : ∀ before' after', text = before' ++ (needle ++ after') →
      before.length ≤ before'.length) :
    strstr needle text = some (needle ++ after) := by
  induction before generalizing text with
  | nil =>
    subst split_
    simp only [List.nil_append]
    cases whole : needle ++ after with
    | nil => simp_all [strstr]
    | cons c rest =>
      rw [strstr, if_pos]
      rw [← whole]
      exact List.prefix_append needle after
  | cons c before ih =>
    subst split_
    rw [List.cons_append, strstr, if_neg]
    · apply ih rfl
      intro before' after' found
      have later := first (c :: before') after' (by rw [List.cons_append, List.cons_append, found])
      simpa using later
    · rintro ⟨after', here⟩
      have none_left := first [] after' (by rw [List.nil_append, here, List.cons_append])
      simp at none_left

theorem strchr_clear {c : Char} {before after : List Char} (clear : c ∉ before) :
    strchr c (before ++ after) = strchr c after := by
  induction before with
  | nil => rfl
  | cons d before ih =>
    simp only [List.mem_cons, not_or] at clear
    rw [List.cons_append, strchr, if_neg (Ne.symm clear.1)]
    exact ih clear.2

theorem strchr_shape {c : Char} {x : List Char} (found : strchr c text = some x) :
    ∃ y, x = c :: y := by
  induction text with
  | nil => simp [strchr] at found
  | cons d rest ih =>
    rw [strchr] at found
    split at found
    · rename_i same
      exact ⟨rest, by rw [← Option.some.inj found, same]⟩
    · exact ih found

theorem strchr_first {c : Char} {before after : List Char} (clear : c ∉ before) :
    strchr c (before ++ c :: after) = some (c :: after) := by
  rw [strchr_clear clear, strchr, if_pos rfl]

end Search

theorem isdigit_not_isspace {c : Char} (digit : isdigit c = true) : isspace c = false := by
  simp only [isdigit, Bool.and_eq_true, decide_eq_true_eq] at digit
  have no_blank : c ≠ ' ' := by
    rintro rfl
    exact absurd digit.1 (by decide)
  simp only [isspace, no_blank, decide_false, Bool.false_or, Bool.and_eq_false_iff,
    decide_eq_false_iff_not]
  omega

/-- A loop over characters with `p` does not go into the rest. -/
def Stops (p : Char → Bool) (rest : List Char) : Prop := ∀ c ∈ rest.head?, p c = false

section Loops
variable {p : Char → Bool} {run rest : List Char}

theorem dropWhile_run (all : ∀ c ∈ run, p c = true) (stops : Stops p rest) :
    (run ++ rest).dropWhile p = rest := by
  rw [List.dropWhile_append_of_pos all]
  cases rest with
  | nil => rfl
  | cons c rest => rw [List.dropWhile_cons_of_neg (by simp [stops c rfl])]

theorem takeWhile_run (all : ∀ c ∈ run, p c = true) (stops : Stops p rest) :
    (run ++ rest).takeWhile p = run := by
  rw [List.takeWhile_append_of_pos all]
  cases rest with
  | nil => simp
  | cons c rest => simp [stops c rfl]

theorem takeWhile_ne {c : Char} (clear : c ∉ run) :
    (run ++ c :: rest).takeWhile (fun d => d ≠ c) = run := by
  apply takeWhile_run
  · intro d member
    apply decide_eq_true
    rintro rfl
    exact clear member
  · rintro d ⟨⟩
    simp

theorem dropWhile_stop {c : Char} (stop : p c = false) :
    (run ++ c :: rest).dropWhile p = run.dropWhile p ++ c :: rest := by
  induction run with
  | nil => simp [stop]
  | cons d run ih => by_cases passed : p d = true <;> simp [passed, ih]

theorem takeWhile_stop {c : Char} (stop : p c = false) :
    (run ++ c :: rest).takeWhile p = run.takeWhile p := by
  induction run with
  | nil => simp [stop]
  | cons d run ih => by_cases passed : p d = true <;> simp [passed, ih]

end Loops

theorem atoi_digits {digits rest : List Char} (some_digit : digits ≠ [])
    (all : ∀ c ∈ digits, isdigit c = true) (stops : Stops isdigit rest) :
    atoi (digits ++ rest) = decimal digits := by
  have taken := takeWhile_run all stops
  cases digits with
  | nil => exact absurd rfl some_digit
  | cons c digits =>
    have digit := all c (List.mem_cons_self ..)
    have no_sign : c ≠ '-' ∧ c ≠ '+' := by
      constructor <;> rintro rfl <;> exact absurd digit (by decide)
    rw [List.cons_append] at taken ⊢
    rw [atoi, List.dropWhile_cons_of_neg (by simp [isdigit_not_isspace digit])]
    split
    · rename_i sign
      exact absurd (List.cons.inj sign).1 no_sign.1
    · rename_i sign
      exact absurd (List.cons.inj sign).1 no_sign.2
    · rw [taken]

theorem atoi_stop {c : Char} (run rest : List Char) (space : isspace c = false)
    (digit : isdigit c = false) (minus : c ≠ '-') (plus : c ≠ '+') :
    atoi (run ++ c :: rest) = atoi run := by
  simp only [atoi, dropWhile_stop space]
  cases run.dropWhile isspace with
  | nil => simp [minus, plus, digit]
  | cons d q =>
    by_cases negative : d = '-'
    · subst negative
      simp [takeWhile_stop digit]
    · by_cases positive : d = '+'
      · subst positive
        simp [takeWhile_stop digit]
      · have unsigned : (d :: q ++ c :: rest).takeWhile isdigit = (d :: q).takeWhile isdigit :=
          takeWhile_stop digit
        rw [List.cons_append] at unsigned
        simp [negative, positive, unsigned]

end CText
