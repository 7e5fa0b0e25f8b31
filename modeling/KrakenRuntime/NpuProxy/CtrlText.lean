import KrakenRuntime.Lib.PyText
import KrakenRuntime.Libbless.ControlText
import KrakenRuntime.NpuProxy.GateCore

/- The texts that the control socket of a tenant understands (npu_proxy.py, _ctrl_loop, and cmd of
   gate_core.py for a tenant that is registered), and that they are those of libbless: the feeder
   sends the same datagrams to both. The text is ASCII. What int and float make of a text that is
   no plain numeral is left open. -/
namespace CtrlText
open Decimal PyText GateCore ControlServer

/-- Python's int and float; `none` is the ValueError. -/
structure PyNumbers where
  int : List Char → Option ℤ
  float : List Char → Option ℚ
  int_numeral : ∀ i, IsLong i → int (shown i) = some i
  float_numeral : ∀ i, -2 ^ 53 ≤ i → i ≤ 2 ^ 53 → float (shown i) = some (i : ℚ)

/-- What a datagram comes to: a command, an exception that is logged, or nothing. -/
inductive Reading where
  | command (k : Cmd)
  | bad
  | ignored

/-- A command whose argument is missing or does not convert raises. -/
def converted {α : Type} (convert : List Char → Option α) (k : α → Cmd) (arg : Option (List Char)) :
    Reading :=
  match arg.bind convert with
  | some v => .command (k v)
  | none => .bad

def cmdText (py : PyNumbers) (cmd : List Char) (arg : Option (List Char)) : Reading :=
  if cmd = "time_mode".toList then converted py.int .timeMode arg
  else if cmd = "time_credit".toList then converted py.int .timeCredit arg
  else if cmd = "time_add".toList then converted py.float .timeAdd arg
  else if cmd = "time_stats".toList then .command .timeStats
  else .ignored

/-- One round of _ctrl_loop, up to the call of core.cmd. -/
def ctrlRead (py : PyNumbers) (data : List Char) : Reading :=
  match split (data.take 256) with
  | [] => .ignored
  | cmd :: parts => cmdText py cmd parts.head?

inductive Shared where
  | timeMode
  | timeCredit
  | timeAdd
  | timeStats
  deriving DecidableEq

def Shared.word : Shared → Word
  | .timeMode => .timeMode
  | .timeCredit => .timeCredit
  | .timeAdd => .timeAdd
  | .timeStats => .timeStats

def Shared.cmd (w : Shared) (i : ℤ) : Cmd :=
  match w with
  | .timeMode => .timeMode i
  | .timeCredit => .timeCredit i
  | .timeAdd => .timeAdd i
  | .timeStats => .timeStats

/-- The numbers that the feeder sends: those that libbless can hold, and for an addition those
    that a float holds exactly. -/
def Shared.Takes (w : Shared) (i : ℤ) : Prop :=
  w.word.Takes i ∧ (w = .timeAdd → -2 ^ 53 ≤ i ∧ i ≤ 2 ^ 53)

theorem isspace_of_isdigit {c : Char} (digit : CText.isdigit c = true) : isspace c = false := by
  rw [CText.isdigit, Bool.and_eq_true, decide_eq_true_eq, decide_eq_true_eq] at digit
  obtain ⟨low, high⟩ := digit
  have no_blank : c ≠ ' ' := by
    rintro rfl
    exact absurd low (by decide)
  simp only [isspace, Bool.or_eq_false_iff, Bool.and_eq_false_iff, decide_eq_false_iff_not]
  exact ⟨⟨no_blank, .inr (by omega)⟩, .inr (by omega)⟩

theorem shown_solid {i : ℤ} {c : Char} (member : c ∈ shown i) : isspace c = false := by
  rcases shown_mem member with rfl | digit
  · decide
  · exact isspace_of_isdigit digit

theorem shown_ne_nil (i : ℤ) : shown i ≠ [] := by
  rw [shown]
  split
  · exact List.cons_ne_nil _ _
  · exact shownNat_ne_nil _

theorem ends_take {tail : List Char} (ends : Ends tail) (k : ℕ) : Ends (tail.take k) := by
  intro c first
  apply ends
  cases tail with
  | nil => simp at first
  | cons d tail =>
    cases k with
    | zero => simp at first
    | succ k => simpa using first

theorem ends_stops {tail : List Char} (ends : Ends tail) : CText.Stops CText.isdigit tail := by
  intro c first
  by_contra digit
  have solid := isspace_of_isdigit (Bool.of_not_eq_false digit)
  rw [ends c first] at solid
  cases solid

def Shared.name : Shared → List Char
  | .timeMode => "time_mode".toList
  | .timeCredit => "time_credit".toList
  | .timeAdd => "time_add".toList
  | .timeStats => "time_stats".toList

theorem name_solid (w : Shared) : w.name ≠ [] ∧ ∀ c ∈ w.name, isspace c = false := by
  have solid : (w.name.all fun c => !isspace c) = true := by cases w <;> decide
  constructor
  · cases w <;> decide
  · intro c member
    simpa using List.all_eq_true.mp solid c member

theorem spelled_number {w : Shared} (number : w ≠ .timeStats) (i : ℤ) :
    spelled w.word i = w.name ++ ' ' :: shown i := by
  have text : w.word.text.toList = w.name ++ [' '] := by
    cases w with
    | timeStats => exact absurd rfl number
    | timeMode | timeCredit | timeAdd => decide
  have after : behind w.word i = shown i := by
    cases w with
    | timeStats => exact absurd rfl number
    | timeMode | timeCredit | timeAdd => simp [behind, Shared.word, Word.argument]
  rw [spelled_eq, text, after, List.append_assoc, List.singleton_append]

theorem split_number (w : Shared) (i : ℤ) {rest : List Char} (ends : Ends rest) :
    split (w.name ++ ' ' :: (shown i ++ rest)) = w.name :: shown i :: split rest := by
  have blank : Ends (' ' :: (shown i ++ rest)) := by
    rintro c ⟨⟩
    decide
  rw [split_word (name_solid w).1 (name_solid w).2 blank, split_blank (by decide),
    split_word (shown_ne_nil i) (fun c => shown_solid) ends]

theorem converted_some {α : Type} {convert : List Char → Option α} {t : List Char} {v : α}
    (works : convert t = some v) (k : α → Cmd) : converted convert k (some t) = .command (k v) := by
  rw [converted, Option.bind_some, works]

theorem cmdText_mode (py : PyNumbers) (arg : Option (List Char)) :
    cmdText py Shared.timeMode.name arg = converted py.int .timeMode arg :=
  if_pos rfl

theorem cmdText_credit (py : PyNumbers) (arg : Option (List Char)) :
    cmdText py Shared.timeCredit.name arg = converted py.int .timeCredit arg := by
  have other : "time_credit".toList ≠ "time_mode".toList := by decide
  exact (if_neg other).trans (if_pos rfl)

theorem cmdText_add (py : PyNumbers) (arg : Option (List Char)) :
    cmdText py Shared.timeAdd.name arg = converted py.float .timeAdd arg := by
  have other : "time_add".toList ≠ "time_mode".toList := by decide
  have third : "time_add".toList ≠ "time_credit".toList := by decide
  exact (if_neg other).trans ((if_neg third).trans (if_pos rfl))

theorem cmdText_number (py : PyNumbers) {w : Shared} (number : w ≠ .timeStats) {i : ℤ}
    (takes : w.Takes i) : cmdText py w.name (some (shown i)) = .command (w.cmd i) := by
  have long := takes.1.long
  cases w with
  | timeStats => exact absurd rfl number
  | timeMode => exact (cmdText_mode py _).trans (converted_some (py.int_numeral i long) _)
  | timeCredit => exact (cmdText_credit py _).trans (converted_some (py.int_numeral i long) _)
  | timeAdd =>
    obtain ⟨low, high⟩ := takes.2 rfl
    exact (cmdText_add py _).trans (converted_some (py.float_numeral i low high) _)

theorem take_append {text tail : List Char} (short : text.length ≤ 256) :
    (text ++ tail).take 256 = text ++ tail.take (256 - text.length) := by
  rw [List.take_append, List.take_of_length_le short]

theorem spelled_short {w : Word} {i : ℤ} (takes : w.Takes i) : (spelled w i).length ≤ 256 := by
  have word := text_length w
  have number := behind_length takes
  rw [spelled_eq, List.length_append]
  omega

theorem ctrlRead_spelled (py : PyNumbers) {w : Shared} {i : ℤ} (takes : w.Takes i)
    {tail : List Char} (ends : Ends tail) :
    ctrlRead py (spelled w.word i ++ tail) = .command (w.cmd i) := by
  have cut := ends_take ends (256 - (spelled w.word i).length)
  rw [ctrlRead, take_append (spelled_short takes.1)]
  by_cases number : w = .timeStats
  · subst number
    have words : spelled Shared.timeStats.word i = Shared.timeStats.name := rfl
    rw [words] at cut ⊢
    rw [split_word (name_solid .timeStats).1 (name_solid .timeStats).2 cut]
    rfl
  · rw [spelled_number number] at cut ⊢
    rw [List.append_assoc, List.cons_append, split_number w i cut]
    exact cmdText_number py number takes

/-- The two gates read every command that they share as the feeder meant it, and so alike,
    whatever follows it in the datagram behind a blank. -/
theorem gates_read_alike (num : Numbers) (py : PyNumbers) {w : Shared} {i : ℤ} (takes : w.Takes i)
    {tail : List Char} (ends : Ends tail) :
    read num chain (received (spelled w.word i ++ tail)) = some (w.word, i) ∧
      ctrlRead py (spelled w.word i ++ tail) = .command (w.cmd i) := by
  refine ⟨?_, ctrlRead_spelled py takes ends⟩
  rw [received_spelled takes.1]
  exact read_spelled num (List.Perm.refl _) takes.1 (.inr (stops_cut (ends_stops ends) _))

def numerals : PyNumbers where
  int t := if t = shown (CText.atoi t) then some (CText.atoi t) else none
  float t := if t = shown (CText.atoi t) then some (CText.atoi t : ℚ) else none
  int_numeral i _ := by
    have back : CText.atoi (shown i ++ []) = i := atoi_shown i nofun
    rw [List.append_nil] at back
    simp [back]
  float_numeral i _ _ := by
    have back : CText.atoi (shown i ++ []) = i := atoi_shown i nofun
    rw [List.append_nil] at back
    simp [back]

theorem gates_read_alike_tick :
    read glibc chain (received (spelled .timeAdd (-700) ++ ['\n'])) = some (.timeAdd, -700) ∧
      ctrlRead numerals (spelled .timeAdd (-700) ++ ['\n']) = .command (.timeAdd (-700 : ℤ)) :=
  have takes : Shared.timeAdd.Takes (-700) :=
    ⟨⟨by decide, by decide⟩, fun _ => ⟨by decide, by decide⟩⟩
  gates_read_alike glibc numerals takes (by rintro c ⟨⟩; decide)

end CtrlText
