import Mathlib.Data.List.Basic

/- Python's str.split() on ASCII text: the words between stretches of white space. -/
namespace PyText

def isspace (c : Char) : Bool :=
  c = ' ' || (9 ≤ c.toNat && c.toNat ≤ 13) || (28 ≤ c.toNat && c.toNat ≤ 31)

def close (w : List Char) (ws : List (List Char)) : List (List Char) := if w = [] then ws else w :: ws

def splitOff : List Char → List Char × List (List Char)
  | [] => ([], [])
  | c :: cs =>
    if isspace c then ([], close (splitOff cs).1 (splitOff cs).2)
    else (c :: (splitOff cs).1, (splitOff cs).2)

def split (t : List Char) : List (List Char) := close (splitOff t).1 (splitOff t).2

def Ends (t : List Char) : Prop := ∀ c, t.head? = some c → isspace c = true

theorem splitOff_word {word : List Char} (solid : ∀ c ∈ word, isspace c = false) (rest : List Char) :
    splitOff (word ++ rest) = (word ++ (splitOff rest).1, (splitOff rest).2) := by
  induction word with
  | nil => rfl
  | cons c word ih =>
    have first := solid c List.mem_cons_self
    have later := ih fun d member => solid d (List.mem_cons_of_mem c member)
    simp [splitOff, first, later]

theorem splitOff_ends {rest : List Char} (ends : Ends rest) : splitOff rest = ([], split rest) := by
  cases rest with
  | nil => rfl
  | cons c cs =>
    have blank : isspace c = true := ends c rfl
    simp [splitOff, split, blank, close]

theorem split_blank {c : Char} (blank : isspace c = true) (rest : List Char) :
    split (c :: rest) = split rest := by
  simp [split, splitOff, blank, close]

theorem split_word {word : List Char} (nonempty : word ≠ [])
    (solid : ∀ c ∈ word, isspace c = false) {rest : List Char} (ends : Ends rest) :
    split (word ++ rest) = word :: split rest := by
  rw [split, splitOff_word solid, splitOff_ends ends, List.append_nil]
  simp [close, nonempty]

end PyText
