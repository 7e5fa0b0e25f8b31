import Mathlib.Algebra.Order.Ring.Nat
import Mathlib.Data.List.Basic

/- A stream socket as its reader sees it: the bytes arrive in chunks cut anywhere, a receive
   returns some of the first chunk, and nothing only at the end of the stream. What a reader
   that asks again until it has enough gets depends on the bytes alone. Words of four bytes
   are sent with the most significant byte first. -/
namespace Wire
variable {β : Type}

structure Stream (β : Type) where
  chunks : List (List β)
  nonempty : ∀ chunk ∈ chunks, chunk ≠ []

namespace Stream

def bytes (s : Stream β) : List β := s.chunks.flatten

/-- At most `k` elements, none only if there are no more; `k` is positive. -/
def recv (s : Stream β) (k : ℕ) : List β × Stream β :=
  match s with
  | ⟨[], _⟩ => ([], ⟨[], nofun⟩)
  | ⟨chunk :: rest, nonempty⟩ =>
    if small : chunk.length ≤ k then
      (chunk, ⟨rest, fun c inside => nonempty c (List.mem_cons_of_mem _ inside)⟩)
    else
      (chunk.take k,
        { chunks := chunk.drop k :: rest
          nonempty := by
            intro c inside
            rcases List.mem_cons.mp inside with rfl | later
            · intro empty
              have none_left := congrArg List.length empty
              simp only [List.length_drop, List.length_nil] at none_left
              omega
            · exact nonempty c (List.mem_cons_of_mem _ later) })

theorem recv_bytes (s : Stream β) (k : ℕ) : (s.recv k).1 ++ (s.recv k).2.bytes = s.bytes := by
  obtain ⟨chunks, nonempty⟩ := s
  cases chunks with
  | nil => rfl
  | cons chunk rest =>
    simp only [recv, bytes]
    split
    · rfl
    · simp only [List.flatten_cons]
      rw [← List.append_assoc, List.take_append_drop]

theorem recv_length (s : Stream β) (k : ℕ) : (s.recv k).1.length ≤ k := by
  obtain ⟨chunks, nonempty⟩ := s
  cases chunks with
  | nil => exact Nat.zero_le k
  | cons chunk rest =>
    simp only [recv]
    split
    · assumption
    · exact List.length_take_le k chunk

theorem recv_end {s : Stream β} {k : ℕ} (positive : 0 < k) (nothing : (s.recv k).1 = []) :
    s.bytes = [] := by
  obtain ⟨chunks, nonempty⟩ := s
  cases chunks with
  | nil => rfl
  | cons chunk rest =>
    have some_bytes := nonempty chunk (by simp)
    have long := List.length_pos_of_ne_nil some_bytes
    simp only [recv] at nothing
    split at nothing
    · exact absurd nothing some_bytes
    · have short := congrArg List.length nothing
      simp only [List.length_take, List.length_nil] at short
      omega

/-- The loop of recv_exact: receive what is missing until `n` elements are there. -/
def recvLoop (n : ℕ) (buf : List β) (s : Stream β) : Option (List β) × Stream β :=
  if buf.length < n then
    match s.recv (n - buf.length) with
    | ([], s') => (none, s')
    | (b :: chunk, s') => recvLoop n (buf ++ b :: chunk) s'
  else (some buf, s)
termination_by n - buf.length
decreasing_by
  simp only [List.length_append, List.length_cons]
  omega

def recvExact (n : ℕ) (s : Stream β) : Option (List β) × Stream β := recvLoop n [] s

theorem front_of_append {xs ys wanted after : List β} (whole : xs ++ ys = wanted ++ after)
    (short : xs.length ≤ wanted.length) : ∃ more, wanted = xs ++ more ∧ ys = more ++ after := by
  rcases List.append_eq_append_iff.mp whole with ⟨more, split, rest⟩ | ⟨more, split, rest⟩
  · exact ⟨more, split, rest⟩
  · have none_left : more = [] := by
      apply List.eq_nil_of_length_eq_zero
      rw [split, List.length_append] at short
      omega
    subst none_left
    exact ⟨[], by simpa using split.symm, by simpa using rest.symm⟩

theorem recvLoop_enough {n : ℕ} (buf : List β) (s : Stream β) {wanted after : List β}
    (bytes_eq : s.bytes = wanted ++ after) (size : buf.length + wanted.length = n) :
    ∃ rest : Stream β, recvLoop n buf s = (some (buf ++ wanted), rest) ∧ rest.bytes = after := by
  induction buf, s using recvLoop.induct n generalizing wanted with
  | case1 buf s more rest received =>
    have ended := recv_end (by omega) (by rw [received] : (s.recv (n - buf.length)).1 = [])
    rw [ended] at bytes_eq
    obtain ⟨rfl, _⟩ := List.append_eq_nil_iff.mp bytes_eq.symm
    rw [List.length_nil] at size
    omega
  | case2 buf s more b chunk rest received ih =>
    have whole := recv_bytes s (n - buf.length)
    have short := recv_length s (n - buf.length)
    simp only [received] at whole short
    obtain ⟨missing, rfl, later⟩ := front_of_append (whole.trans bytes_eq) (by omega)
    obtain ⟨last, read, remains⟩ := ih later (by
      simp only [List.length_append] at size ⊢
      omega)
    refine ⟨last, ?_, remains⟩
    rw [recvLoop, if_pos more, received]
    simp only
    rw [read, List.append_assoc]
  | case3 buf s done =>
    have empty : wanted = [] := by
      apply List.eq_nil_of_length_eq_zero
      omega
    subst empty
    rw [recvLoop, if_neg done]
    exact ⟨s, by simp, bytes_eq⟩

theorem recvLoop_short {n : ℕ} (buf : List β) (s : Stream β) (few : buf.length + s.bytes.length < n) :
    ∃ rest : Stream β, recvLoop n buf s = (none, rest) := by
  induction buf, s using recvLoop.induct n with
  | case1 buf s more rest received =>
    rw [recvLoop, if_pos more, received]
    exact ⟨rest, rfl⟩
  | case2 buf s more b chunk rest received ih =>
    have whole := congrArg List.length (recv_bytes s (n - buf.length))
    simp only [received, List.length_append] at whole
    rw [recvLoop, if_pos more, received]
    apply ih
    rw [List.length_append]
    omega
  | case3 buf s done => omega

theorem recvExact_enough {s : Stream β} {wanted after : List β}
    (bytes_eq : s.bytes = wanted ++ after) :
    ∃ rest : Stream β, recvExact wanted.length s = (some wanted, rest) ∧ rest.bytes = after :=
  recvLoop_enough [] s bytes_eq (Nat.zero_add _)

theorem recvExact_short {n : ℕ} {s : Stream β} (few : s.bytes.length < n) :
    ∃ rest : Stream β, recvExact n s = (none, rest) :=
  recvLoop_short [] s (by simpa using few)

theorem recvExact_some {n : ℕ} {s rest : Stream β} {buf : List β}
    (read : recvExact n s = (some buf, rest)) : buf.length = n ∧ s.bytes = buf ++ rest.bytes := by
  by_cases enough : n ≤ s.bytes.length
  · have split : s.bytes = s.bytes.take n ++ s.bytes.drop n := (List.take_append_drop n _).symm
    obtain ⟨rest', read', remains⟩ := recvExact_enough split
    have size : (s.bytes.take n).length = n := by
      rw [List.length_take]
      omega
    rw [size, read] at read'
    cases read'
    exact ⟨size, by rw [remains]; exact split⟩
  · obtain ⟨rest', failed⟩ := recvExact_short (by omega : s.bytes.length < n)
    rw [read] at failed
    cases failed

/-- Receive one at a time up to and including the first element that ends the line. -/
def recvLine (last : β → Bool) (line : List β) (s : Stream β) : Option (List β) × Stream β :=
  if line.getLast?.any last then (some line, s)
  else
    match _received : s.recv 1 with
    | ([], s') => (none, s')
    | (c :: more, s') => recvLine last (line ++ c :: more) s'
termination_by s.bytes.length
decreasing_by
  have whole := congrArg List.length (recv_bytes s 1)
  simp only [_received, List.length_append, List.length_cons] at whole
  omega

theorem recv_one {s : Stream β} {c : β} {after : List β} (bytes_eq : s.bytes = c :: after) :
    ∃ rest : Stream β, s.recv 1 = ([c], rest) ∧ rest.bytes = after := by
  have whole := recv_bytes s 1
  have short := recv_length s 1
  cases got : (s.recv 1).1 with
  | nil =>
    have ended := recv_end Nat.zero_lt_one got
    rw [ended] at bytes_eq
    cases bytes_eq
  | cons first more =>
    have single : more = [] := by
      apply List.eq_nil_of_length_eq_zero
      simpa [got] using short
    subst single
    rw [bytes_eq, got] at whole
    obtain ⟨rfl, remains⟩ := List.cons.inj whole
    exact ⟨(s.recv 1).2, by rw [← got], remains⟩

theorem recvLine_ended {last : β → Bool} {line : List β} {stop : β} (s : Stream β)
    (stops : last stop = true) :
    recvLine last (line ++ [stop]) s = (some (line ++ [stop]), s) := by
  rw [recvLine, if_pos (by simpa using stops)]

theorem recvLine_next {last : β → Bool} {line : List β} {c : β} {s rest : Stream β}
    (unended : line.getLast?.any last = false) (received : s.recv 1 = ([c], rest)) :
    recvLine last line s = recvLine last (line ++ [c]) rest := by
  rw [recvLine, if_neg (by simp [unended])]
  split
  · rename_i nothing
    rw [received] at nothing
    cases nothing
  · rename_i something
    rw [received] at something
    cases something
    rfl

theorem recvLine_line (last : β → Bool) {stop : β} (stops : last stop = true) (line : List β)
    (s : Stream β) {text after : List β} (unended : line.getLast?.any last = false)
    (inside : ∀ c ∈ text, last c = false) (bytes_eq : s.bytes = text ++ stop :: after) :
    ∃ rest : Stream β, recvLine last line s = (some (line ++ text ++ [stop]), rest) ∧
      rest.bytes = after := by
  induction text generalizing line s with
  | nil =>
    obtain ⟨rest, received, remains⟩ := recv_one bytes_eq
    refine ⟨rest, ?_, remains⟩
    rw [recvLine_next unended received, recvLine_ended rest stops, List.append_nil]
  | cons c text ih =>
    obtain ⟨rest, received, remains⟩ := recv_one bytes_eq
    have goes_on : (line ++ [c]).getLast?.any last = false := by
      simpa using inside c (by simp)
    obtain ⟨final, read, left⟩ := ih (line ++ [c]) rest goes_on
      (fun d later => inside d (List.mem_cons_of_mem _ later)) remains
    refine ⟨final, ?_, left⟩
    rw [recvLine_next unended received, read]
    simp

end Stream

/-- `struct.pack(">I", n)`. -/
def packWord (n : ℕ) : List UInt8 :=
  [UInt8.ofNat (n / 2 ^ 24), UInt8.ofNat (n / 2 ^ 16), UInt8.ofNat (n / 2 ^ 8), UInt8.ofNat n]

/-- `struct.unpack(">I", bytes)`. -/
def unpackWord (bytes : List UInt8) : ℕ := bytes.foldl (fun n b => n * 2 ^ 8 + b.toNat) 0

theorem packWord_length (n : ℕ) : (packWord n).length = 4 := rfl

theorem unpack_pack {n : ℕ} (word : n < 2 ^ 32) : unpackWord (packWord n) = n := by
  simp only [unpackWord, packWord, List.foldl_cons, List.foldl_nil, UInt8.toNat_ofNat']
  omega

end Wire
