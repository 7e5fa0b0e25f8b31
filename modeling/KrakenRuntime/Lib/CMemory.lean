import KrakenRuntime.Lib.CText
import Mathlib.Data.Option.Basic

/- Strings in memory. A string is its characters and the NUL after them, a pointer into it is
   an offset, and reading behind the NUL is a fault, as is a write outside an array. A loop
   is given a number of rounds, and needing more of them is a fault too, so that a program
   which returns a value has ended and has stayed inside its memory. The functions of the C
   library are here with every read they make. -/
namespace CMemory

def nul : Char := Char.ofNat 0

structure CString where
  chars : List Char
  clean : nul ∉ chars

inductive Fault where
  | read
  | write
  | rounds
  deriving DecidableEq

def CString.deref (s : CString) (p : ℕ) : Except Fault Char :=
  if p ≤ s.chars.length then .ok (s.chars.getD p nul) else .error .read

def assign {α : Type} (out : ℕ → α) (size i : ℤ) (x : α) : Except Fault (ℕ → α) :=
  if 0 ≤ i ∧ i < size then .ok (Function.update out i.toNat x) else .error .write

inductive Flow (ρ σ : Type) where
  | exit (result : ρ)
  | again (state : σ)

section Loops
variable {ρ σ : Type}

def loop (round : σ → Except Fault (Flow ρ σ)) : ℕ → σ → Except Fault ρ
  | 0, _ => .error .rounds
  | n + 1, s =>
    match round s with
    | .error fault => .error fault
    | .ok (.exit result) => .ok result
    | .ok (.again t) => loop round n t

theorem loop_total {round : σ → Except Fault (Flow ρ σ)} {post : ρ → Prop} (good : σ → Prop)
    (measure : σ → ℕ)
    (step : ∀ s, good s → (∃ r, round s = .ok (.exit r) ∧ post r) ∨
      ∃ t, round s = .ok (.again t) ∧ good t ∧ measure t < measure s)
    {n : ℕ} {s : σ} (start : good s) (enough : measure s < n) :
    ∃ r, loop round n s = .ok r ∧ post r := by
  induction n generalizing s with
  | zero => omega
  | succ n ih =>
    rcases step s start with ⟨r, exits, holds⟩ | ⟨t, goes_on, good_t, smaller⟩
    · exact ⟨r, by rw [loop, exits], holds⟩
    · obtain ⟨r, ends, holds⟩ := ih good_t (by omega)
      exact ⟨r, by rw [loop, goes_on]; exact ends, holds⟩

end Loops

theorem return_eq {α : Type} (x : α) : (return x : Except Fault α) = .ok x := rfl

theorem ok_bind {α β : Type} (x : α) (f : α → Except Fault β) : (Except.ok x >>= f) = f x := rfl

/-- A pointer into the string, with what stands from there on. -/
structure Points (s : CString) (p : ℕ) (rest : List Char) : Prop where
  bound : p ≤ s.chars.length
  drop_eq : s.chars.drop p = rest

section Pointers
variable {s : CString} {p : ℕ} {c : Char} {rest : List Char}

theorem points_start (s : CString) : Points s 0 s.chars := ⟨Nat.zero_le _, rfl⟩

theorem Points.length_eq (points : Points s p rest) : p + rest.length = s.chars.length := by
  have bound := points.bound
  rw [← points.drop_eq, List.length_drop]
  omega

theorem Points.clean (points : Points s p rest) : nul ∉ rest := by
  intro member
  rw [← points.drop_eq] at member
  exact s.clean (List.mem_of_mem_drop member)

theorem Points.head_ne (points : Points s p (c :: rest)) : c ≠ nul := by
  rintro rfl
  exact points.clean (List.mem_cons_self ..)

theorem Points.lt (points : Points s p (c :: rest)) : p < s.chars.length := by
  have length := points.length_eq
  rw [List.length_cons] at length
  omega

theorem Points.next (points : Points s p (c :: rest)) : Points s (p + 1) rest := by
  refine ⟨points.lt, ?_⟩
  rw [← List.drop_drop, points.drop_eq, List.drop_one, List.tail_cons]

theorem Points.deref_eq (points : Points s p rest) : s.deref p = .ok (rest.headD nul) := by
  rw [CString.deref, if_pos points.bound, ← points.drop_eq, List.getD_eq_getElem?_getD,
    List.headD_eq_head?_getD, List.head?_drop]

omit s p in
theorem headD_eq_iff (visible : c ≠ nul) : rest.headD nul = c ↔ rest.head? = some c := by
  cases rest with
  | nil => simp [visible.symm]
  | cons d rest => simp

end Pointers

/-- `while (*p && go(*p)) p++` -/
def skipWhile (s : CString) (go : Char → Bool) : ℕ → ℕ → Except Fault ℕ :=
  loop fun p => do
    let c ← s.deref p
    if c ≠ nul ∧ go c then return .again (p + 1) else return .exit p

def strchr (s : CString) (c : Char) : ℕ → ℕ → Except Fault (Option ℕ) :=
  loop fun p => do
    let d ← s.deref p
    if d = c then return .exit (some p)
    else if d = nul then return .exit none
    else return .again (p + 1)

/-- The comparison inside strstr: it stops at the first difference. -/
def startsWith (s : CString) : List Char → ℕ → Except Fault Bool
  | [], _ => return true
  | k :: key, p => do
    let c ← s.deref p
    if c = k then startsWith s key (p + 1) else return false

def strstr (s key : CString) : ℕ → ℕ → Except Fault (Option ℕ) :=
  loop fun p => do
    if ← startsWith s key.chars p then return .exit (some p)
    else
      let c ← s.deref p
      if c = nul then return .exit none else return .again (p + 1)

def digits (s : CString) : ℕ → ℕ × ℕ → Except Fault ℕ :=
  loop fun (p, value) => do
    let c ← s.deref p
    if CText.isdigit c then return .again (p + 1, 10 * value + (c.toNat - 48))
    else return .exit value

def atoi (s : CString) (n p : ℕ) : Except Fault ℤ := do
  let p ← skipWhile s CText.isspace n p
  let c ← s.deref p
  let value ← digits s n (if c = '-' ∨ c = '+' then p + 1 else p, 0)
  return if c = '-' then -(value : ℤ) else value

section Scans
variable {s : CString} {n p : ℕ} {rest : List Char} (points : Points s p rest)
  (enough : s.chars.length < n)
include points enough

/-- A loop with one pointer, which goes from character to character. It finds what `find` says
    of the text from there on, if each character that is passed does not matter to `find`. -/
theorem scan_total {ρ γ : Type} {round : ℕ → Except Fault (Flow ρ ℕ)} (post : ρ → γ → Prop)
    (find : List Char → γ)
    (ends : ∀ q, Points s q [] → ∃ r, round q = .ok (.exit r) ∧ post r (find []))
    (step : ∀ q c t, Points s q (c :: t) → (∃ r, round q = .ok (.exit r) ∧ post r (find (c :: t))) ∨
      round q = .ok (.again (q + 1)) ∧ find t = find (c :: t)) :
    ∃ r, loop round n p = .ok r ∧ post r (find rest) := by
  apply loop_total (fun q => ∃ t, Points s q t ∧ find t = find rest) (fun q => s.chars.length - q) _
    ⟨rest, points, rfl⟩ (by omega)
  rintro q ⟨t, here, same⟩
  rw [← same]
  cases t with
  | nil => exact .inl (ends q here)
  | cons c t =>
    rcases step q c t here with exits | ⟨goes_on, passed⟩
    · exact .inl exits
    · have inside := here.lt
      exact .inr ⟨q + 1, goes_on, ⟨t, here.next, passed⟩, by omega⟩

theorem skipWhile_points (go : Char → Bool) :
    ∃ q, skipWhile s go n p = .ok q ∧ Points s q (rest.dropWhile go) := by
  apply scan_total points enough (Points s) (List.dropWhile go)
  · intro q here
    rw [here.deref_eq, ok_bind]
    exact ⟨q, rfl, here⟩
  · intro q c t here
    rw [here.deref_eq, ok_bind, List.headD_cons]
    by_cases passed : go c = true
    · right
      rw [if_pos ⟨here.head_ne, passed⟩, List.dropWhile_cons_of_pos passed]
      exact ⟨rfl, rfl⟩
    · left
      rw [if_neg fun both => passed both.2, List.dropWhile_cons_of_neg passed]
      exact ⟨q, rfl, here⟩

theorem strchr_points {c : Char} (visible : c ≠ nul) :
    ∃ q, strchr s c n p = .ok q ∧ Option.Rel (Points s) q (CText.strchr c rest) := by
  apply scan_total points enough (Option.Rel (Points s)) (CText.strchr c)
  · intro q here
    rw [here.deref_eq, ok_bind, List.headD_nil, if_neg visible.symm]
    exact ⟨none, rfl, .none⟩
  · intro q d t here
    rw [here.deref_eq, ok_bind, List.headD_cons, CText.strchr]
    by_cases found : d = c
    · left
      rw [if_pos found, if_pos found]
      exact ⟨some q, rfl, .some here⟩
    · right
      rw [if_neg found, if_neg here.head_ne, if_neg found]
      exact ⟨rfl, rfl⟩

omit enough in
/-- The comparison does not go on behind the NUL, since no key contains one. -/
theorem startsWith_points {key : List Char} (clean : nul ∉ key) :
    startsWith s key p = .ok (decide (key <+: rest)) := by
  induction key generalizing p rest with
  | nil => simp [startsWith, return_eq]
  | cons k key ih =>
    simp only [List.mem_cons, not_or] at clean
    rw [startsWith, points.deref_eq, ok_bind]
    cases rest with
    | nil =>
      rw [List.headD_nil, if_neg clean.1]
      simp [return_eq]
    | cons c rest =>
      rw [List.headD_cons]
      by_cases same : c = k
      · rw [if_pos same, ih points.next clean.2]
        simp [List.cons_prefix_cons, same]
      · rw [if_neg same]
        simp [List.cons_prefix_cons, Ne.symm same, return_eq]

theorem strstr_points (key : CString) :
    ∃ q, strstr s key n p = .ok q ∧ Option.Rel (Points s) q (CText.strstr key.chars rest) := by
  apply scan_total points enough (Option.Rel (Points s)) (CText.strstr key.chars)
  · intro q here
    rw [startsWith_points here key.clean, ok_bind, here.deref_eq, ok_bind, CText.strstr]
    by_cases empty : key.chars = []
    · rw [if_pos empty]
      exact ⟨some q, by simp [empty, return_eq], .some here⟩
    · rw [if_neg empty]
      exact ⟨none, by simp [empty, return_eq], .none⟩
  · intro q c t here
    rw [startsWith_points here key.clean, ok_bind, here.deref_eq, ok_bind, CText.strstr]
    by_cases found : key.chars <+: c :: t
    · left
      rw [if_pos found]
      exact ⟨some q, by simp [found, return_eq], .some here⟩
    · right
      rw [if_neg found]
      exact ⟨by simp [found, here.head_ne, return_eq], rfl⟩

theorem digits_points : digits s n (p, 0) = .ok (CText.decimal (rest.takeWhile CText.isdigit)) := by
  have total : ∃ v, digits s n (p, 0) = .ok v ∧ v = CText.decimal (rest.takeWhile CText.isdigit) := by
    -- what is still to be read adds to the value so far what all digits add to zero
    apply loop_total
      (fun x => ∃ r, Points s x.1 r ∧
        (r.takeWhile CText.isdigit).foldl (fun value c => 10 * value + (c.toNat - 48)) x.2 =
          CText.decimal (rest.takeWhile CText.isdigit))
      (fun x => s.chars.length - x.1) _ ⟨rest, points, rfl⟩ (by omega)
    rintro ⟨q, value⟩ ⟨r, here, same⟩
    simp only at here same ⊢
    rw [here.deref_eq, ok_bind]
    cases r with
    | nil =>
      left
      exact ⟨value, by simp [nul, CText.isdigit, return_eq], same⟩
    | cons c r =>
      have inside := here.lt
      by_cases digit : CText.isdigit c = true
      · right
        refine ⟨(q + 1, 10 * value + (c.toNat - 48)), by simp [digit, return_eq],
          ⟨r, here.next, ?_⟩, by simp only; omega⟩
        rwa [List.takeWhile_cons_of_pos digit, List.foldl_cons] at same
      · left
        refine ⟨value, by simp [digit, return_eq], ?_⟩
        rwa [List.takeWhile_cons_of_neg digit, List.foldl_nil] at same
  obtain ⟨v, ends, rfl⟩ := total
  exact ends

theorem atoi_points : atoi s n p = .ok (CText.atoi rest) := by
  obtain ⟨q, skipped, here⟩ := skipWhile_points points enough CText.isspace
  rw [atoi, skipped, ok_bind, here.deref_eq, ok_bind, CText.atoi]
  cases number : rest.dropWhile CText.isspace with
  | nil =>
    rw [number] at here
    rw [List.headD_nil, if_neg (by decide), digits_points here enough, ok_bind]
    rfl
  | cons c r =>
    rw [number] at here
    rw [List.headD_cons]
    by_cases minus : c = '-'
    · subst minus
      rw [if_pos (.inl rfl), digits_points here.next enough, ok_bind]
      rfl
    · by_cases plus : c = '+'
      · subst plus
        rw [if_pos (.inr rfl), digits_points here.next enough, ok_bind]
        rfl
      · rw [if_neg (by simp [minus, plus]), digits_points here enough, ok_bind, if_neg minus]
        simp [minus, plus, return_eq]

end Scans

end CMemory
