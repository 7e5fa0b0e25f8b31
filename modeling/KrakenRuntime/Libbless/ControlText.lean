import KrakenRuntime.Lib.CText
import KrakenRuntime.Lib.Decimal
import KrakenRuntime.Lib.Dispatch
import KrakenRuntime.Lib.Int64

/- The texts that the control server of libbless understands (libbless.cpp,
   start_control_server). A datagram is read into a buffer of 128 bytes, and a chain of
   strncmp tests looks for the word it begins with; a number behind the word is read with
   atoi or atoll. What these return for a number that does not fit is left open, as C does. -/
namespace ControlServer
open CText Decimal Dispatch

inductive Word where
  | limited | unlimited | setRoute | pause | resume | boostOn | boostOff
  | setSquad | setShare | squadReset
  | creditSet | creditOff
  | timeMode | timeCredit | timeUnlimited | timeSlice | timeAdd | timeStats
  | peerIdle | wcStats | gateStats | ctxStats
  | memStats | memQuota | memTrack | memReset
  | prioritySet | urgentRequest | urgentLimit | urgentStats | urgentClear | queueStats
  | syscallOn | syscallOff | syscallStats | smStats
  | qmdPct | qmdStats | reconfSm | setLimitPct
  | quit
  deriving DecidableEq

def Word.text : Word → String
  | .limited => "limited"
  | .unlimited => "unlimited"
  | .setRoute => "set_route "
  | .pause => "pause"
  | .resume => "resume"
  | .boostOn => "boost_on"
  | .boostOff => "boost_off"
  | .setSquad => "set_squad "
  | .setShare => "set_share "
  | .squadReset => "squad_reset"
  | .creditSet => "credit_set "
  | .creditOff => "credit_off"
  | .timeMode => "time_mode "
  | .timeCredit => "time_credit "
  | .timeUnlimited => "time_unlimited"
  | .timeSlice => "time_slice "
  | .timeAdd => "time_add "
  | .timeStats => "time_stats"
  | .peerIdle => "peer_idle"
  | .wcStats => "wc_stats"
  | .gateStats => "gate_stats"
  | .ctxStats => "ctx_stats"
  | .memStats => "mem_stats"
  | .memQuota => "mem_quota "
  | .memTrack => "mem_track "
  | .memReset => "mem_reset"
  | .prioritySet => "priority_set "
  | .urgentRequest => "urgent_request"
  | .urgentLimit => "urgent_limit "
  | .urgentStats => "urgent_stats"
  | .urgentClear => "urgent_clear"
  | .queueStats => "queue_stats"
  | .syscallOn => "syscall_on"
  | .syscallOff => "syscall_off"
  | .syscallStats => "syscall_stats"
  | .smStats => "sm_stats"
  | .qmdPct => "qmd_pct "
  | .qmdStats => "qmd_stats"
  | .reconfSm => "reconf_sm "
  | .setLimitPct => "set_limit_pct "
  | .quit => "quit"

def chain : List Word :=
  [.limited, .unlimited, .setRoute, .pause, .resume, .boostOn, .boostOff, .setSquad, .setShare,
    .squadReset, .creditSet, .creditOff, .timeMode, .timeCredit, .timeUnlimited, .timeSlice,
    .timeAdd, .timeStats, .peerIdle, .wcStats, .gateStats, .ctxStats, .memStats, .memQuota,
    .memTrack, .memReset, .prioritySet, .urgentRequest, .urgentLimit, .urgentStats, .urgentClear,
    .queueStats, .syscallOn, .syscallOff, .syscallStats, .smStats, .qmdPct, .qmdStats, .reconfSm,
    .setLimitPct, .quit]

inductive Argument where
  | nothing
  | int
  | long
  deriving DecidableEq

def Word.argument : Word → Argument
  | .setRoute | .setSquad | .setShare | .creditSet | .timeMode | .peerIdle | .memTrack
  | .prioritySet | .qmdPct | .reconfSm | .setLimitPct => .int
  | .timeCredit | .timeSlice | .timeAdd | .memQuota | .urgentLimit => .long
  | _ => .nothing

def IsInt (i : ℤ) : Prop := -2 ^ 31 ≤ i ∧ i < 2 ^ 31

def IsLong (i : ℤ) : Prop := -2 ^ 63 ≤ i ∧ i < 2 ^ 63

/-- atoi and atoll. A number that fits is returned, for another one any value can be. -/
structure Numbers where
  atoi : List Char → ℤ
  atoll : List Char → ℤ
  atoi_int : ∀ t, IsInt (atoi t)
  atoi_eq : ∀ t, IsInt (CText.atoi t) → atoi t = CText.atoi t
  atoll_long : ∀ t, IsLong (atoll t)
  atoll_eq : ∀ t, IsLong (CText.atoi t) → atoll t = CText.atoi t

/-- strtol and strtoll stop at the ends of a long. -/
def saturated (i : ℤ) : ℤ := max (-2 ^ 63) (min i (2 ^ 63 - 1))

/-- The functions as glibc has them: atoi keeps the low half of what strtol returns. -/
def glibc : Numbers where
  atoi t := Int32Word.int32 (saturated (CText.atoi t))
  atoll t := saturated (CText.atoi t)
  atoi_int t := by
    unfold IsInt Int32Word.int32
    omega
  atoi_eq t fits := by
    unfold IsInt at fits
    unfold Int32Word.int32 saturated
    omega
  atoll_long t := by
    unfold IsLong saturated
    omega
  atoll_eq t fits := by
    unfold IsLong at fits
    unfold saturated
    omega

/-- The string in the buffer after a datagram was received. -/
def received (datagram : List Char) : List Char := cstr (datagram.take 127)

def rules (words : List Word) : List (List Char × Word) := words.map fun w => (w.text.toList, w)

def value (num : Numbers) (w : Word) (rest : List Char) : ℤ :=
  match w.argument with
  | .nothing => 0
  | .int => num.atoi rest
  | .long => num.atoll rest

def read (num : Numbers) (words : List Word) (buf : List Char) : Option (Word × ℤ) :=
  (pick (rules words) buf).map fun x => (x.1, value num x.1 x.2)

/-- The texts of the controller: the word, and the number behind a blank. -/
def spelled (w : Word) (i : ℤ) : List Char :=
  match w.argument with
  | .nothing => w.text.toList
  | _ => if w = .peerIdle then w.text.toList ++ ' ' :: shown i else w.text.toList ++ shown i

/-- Where no number is read, only the number 0 can be meant. -/
def Word.Takes (w : Word) (i : ℤ) : Prop :=
  match w.argument with
  | .nothing => i = 0
  | .int => IsInt i
  | .long => IsLong i

theorem chain_all (w : Word) : w ∈ chain := by
  cases w <;> decide

theorem chain_prefixFree : PrefixFree (rules chain) := by
  decide +kernel

theorem text_length (w : Word) : w.text.toList.length ≤ 14 := by
  cases w <;> decide

theorem text_clean (w : Word) : Char.ofNat 0 ∉ w.text.toList := by
  cases w <;> decide

theorem stops_cut {p : Char → Bool} {tail : List Char} (stops : Stops p tail) (k : ℕ) :
    Stops p (cstr (tail.take k)) := by
  intro c first
  apply stops
  cases tail with
  | nil => simp [cstr] at first
  | cons d tail =>
    cases k with
    | zero => simp [cstr] at first
    | succ k =>
      rw [List.take_succ_cons, cstr, List.takeWhile_cons] at first
      split at first
      · exact first
      · simp at first

theorem received_append {text : List Char} (clean : Char.ofNat 0 ∉ text) (short : text.length ≤ 127)
    (tail : List Char) :
    received (text ++ tail) = text ++ cstr (tail.take (127 - text.length)) := by
  rw [received, List.take_append, List.take_of_length_le short, cstr, cstr,
    List.takeWhile_append_of_pos]
  intro c member
  apply decide_eq_true
  rintro rfl
  exact clean member

def behind (w : Word) (i : ℤ) : List Char :=
  match w.argument with
  | .nothing => []
  | _ => if w = .peerIdle then ' ' :: shown i else shown i

theorem spelled_eq (w : Word) (i : ℤ) : spelled w i = w.text.toList ++ behind w i := by
  rw [spelled, behind]
  split
  · rw [List.append_nil]
  · split <;> rfl

theorem Word.Takes.long {w : Word} {i : ℤ} (takes : w.Takes i) : IsLong i := by
  rw [Word.Takes] at takes
  split at takes
  · subst takes
    exact ⟨by decide, by decide⟩
  · exact ⟨by have := takes.1; omega, by have := takes.2; omega⟩
  · exact takes

theorem behind_length {w : Word} {i : ℤ} (takes : w.Takes i) : (behind w i).length ≤ 21 := by
  have digits := shown_length takes.long.1 takes.long.2
  rw [behind]
  split
  · simp
  · split
    · rw [List.length_cons]
      omega
    · omega

theorem shown_clean (i : ℤ) : Char.ofNat 0 ∉ shown i := by
  intro member
  rcases shown_mem member with minus | digit
  · exact absurd minus (by decide)
  · exact absurd digit (by decide)

theorem behind_clean (w : Word) (i : ℤ) : Char.ofNat 0 ∉ behind w i := by
  rw [behind]
  split
  · exact List.not_mem_nil
  · split
    · simp only [List.mem_cons, not_or]
      exact ⟨by decide, shown_clean i⟩
    · exact shown_clean i

theorem atoi_behind {w : Word} (number : w.argument ≠ .nothing) (i : ℤ) {rest : List Char}
    (stops : Stops isdigit rest) : CText.atoi (behind w i ++ rest) = i := by
  have direct := atoi_shown i stops
  rw [behind]
  split
  · rename_i none
    exact absurd none number
  · split
    · rw [List.cons_append, CText.atoi, List.dropWhile_cons_of_pos (by decide)]
      exact direct
    · exact direct

theorem value_behind (num : Numbers) {w : Word} {i : ℤ} (takes : w.Takes i) {rest : List Char}
    (ends : w.argument = .nothing ∨ Stops isdigit rest) : value num w (behind w i ++ rest) = i := by
  rw [value]
  rw [Word.Takes] at takes
  cases kind : w.argument with
  | nothing =>
    rw [kind] at takes
    exact takes.symm
  | int =>
    rw [kind] at takes ends
    have number := atoi_behind (by rw [kind]; decide) i (ends.resolve_left (by decide))
    have read := num.atoi_eq (behind w i ++ rest)
    rw [number] at read
    exact read takes
  | long =>
    rw [kind] at takes ends
    have number := atoi_behind (by rw [kind]; decide) i (ends.resolve_left (by decide))
    have read := num.atoll_eq (behind w i ++ rest)
    rw [number] at read
    exact read takes

theorem read_text (num : Numbers) {order : List Word} (perm : chain.Perm order) (w : Word)
    (rest : List Char) : read num order (w.text.toList ++ rest) = some (w, value num w rest) := by
  have member : (w.text.toList, w) ∈ rules chain := List.mem_map.mpr ⟨w, chain_all w, rfl⟩
  have same : (rules chain).Perm (rules order) := perm.map _
  rw [read, pick_perm chain_prefixFree same, pick_word chain_prefixFree member]
  rfl

theorem received_spelled {w : Word} {i : ℤ} (takes : w.Takes i) (tail : List Char) :
    received (spelled w i ++ tail) =
      spelled w i ++ cstr (tail.take (127 - (spelled w i).length)) := by
  apply received_append
  · rw [spelled_eq, List.mem_append, not_or]
    exact ⟨text_clean w, behind_clean w i⟩
  · have word := text_length w
    have number := behind_length takes
    rw [spelled_eq, List.length_append]
    omega

theorem read_spelled (num : Numbers) {order : List Word} (perm : chain.Perm order) {w : Word}
    {i : ℤ} (takes : w.Takes i) {rest : List Char}
    (ends : w.argument = .nothing ∨ Stops isdigit rest) :
    read num order (spelled w i ++ rest) = some (w, i) := by
  rw [spelled_eq, List.append_assoc, read_text num perm, value_behind num takes ends]

/-- A command is understood as it was meant, whatever order the tests have and whatever follows
    it in the datagram, as far as that is not one more digit of its number. -/
theorem command_understood (num : Numbers) {order : List Word} (perm : chain.Perm order) {w : Word}
    {i : ℤ} (takes : w.Takes i) {tail : List Char}
    (ends : w.argument = .nothing ∨ Stops isdigit tail) :
    read num order (received (spelled w i ++ tail)) = some (w, i) := by
  rw [received_spelled takes]
  exact read_spelled num perm takes (ends.imp_right fun stops => stops_cut stops _)

theorem command_understood_tick :
    read glibc chain (received (spelled .timeAdd (-700) ++ ['\n'])) = some (.timeAdd, -700) :=
  have takes : Word.timeAdd.Takes (-700) := ⟨by decide, by decide⟩
  command_understood glibc (List.Perm.refl _) takes (.inr (by rintro c ⟨⟩; decide))

end ControlServer
