import KrakenRuntime.NpuProxy.Framing

/- The bytes that come back: how _sched_loop and _reply_err of npu_proxy.py write replies, and how
   the receiver thread of client.py reads them off one connection. An error is a frame of length 0
   without a body, which the client counts like any other reply. -/
namespace Framing
open Wire

def replyFrame : Option (List UInt8) → List UInt8
  | some out => packWord out.length ++ out
  | none => packWord 0

def replyBody (reply : Option (List UInt8)) : List UInt8 := reply.getD []

def readReplies (s : Stream UInt8) : List (List UInt8) :=
  match _header : Stream.recvExact 4 s with
  | (none, _) => []
  | (some hdr, s') =>
    -- `if n and recv_exact(s, n) is None`: with n = 0 nothing is received
    if unpackWord hdr = 0 then [] :: readReplies s'
    else
      match _body : Stream.recvExact (unpackWord hdr) s' with
      | (none, _) => []
      | (some body, s'') => body :: readReplies s''
termination_by s.bytes.length
decreasing_by
  · obtain ⟨four, first⟩ := Stream.recvExact_some _header
    have whole := congrArg List.length first
    rw [List.length_append] at whole
    omega
  · obtain ⟨four, first⟩ := Stream.recvExact_some _header
    obtain ⟨_, second⟩ := Stream.recvExact_some _body
    have whole := congrArg List.length first
    have rest := congrArg List.length second
    rw [List.length_append] at whole rest
    omega

/-- Where the connection may break: inside a header, or inside a body. -/
inductive Torn : List UInt8 → Prop where
  | header {bytes : List UInt8} (short : bytes.length < 4) : Torn bytes
  | body {n : ℕ} {bytes : List UInt8} (word : n < 2 ^ 32) (short : bytes.length < n) :
      Torn (packWord n ++ bytes)

section Replies
variable {s rest : Stream UInt8}

theorem readReplies_closed (ended : Stream.recvExact 4 s = (none, rest)) : readReplies s = [] := by
  rw [readReplies]
  split
  · rfl
  · rename_i found
    rw [ended] at found
    cases found

theorem readReplies_error (header : Stream.recvExact 4 s = (some (packWord 0), rest)) :
    readReplies s = [] :: readReplies rest := by
  rw [readReplies]
  split
  · rename_i missing
    rw [header] at missing
    cases missing
  · rename_i found
    rw [header] at found
    cases found
    rw [unpack_pack (by decide), if_pos rfl]

theorem readReplies_header {n : ℕ} (word : n < 2 ^ 32) (positive : n ≠ 0)
    (header : Stream.recvExact 4 s = (some (packWord n), rest)) :
    readReplies s =
      match Stream.recvExact n rest with
      | (none, _) => []
      | (some body, s') => body :: readReplies s' := by
  rw [readReplies]
  split
  · rename_i missing
    rw [header] at missing
    cases missing
  · rename_i found
    rw [header] at found
    cases found
    rw [unpack_pack word, if_neg positive]
    split
    · rename_i missing
      rw [missing]
    · rename_i present
      rw [present]

theorem readReplies_frame {reply : Option (List UInt8)} {after : List UInt8}
    (word : (replyBody reply).length < 2 ^ 32) (bytes_eq : s.bytes = replyFrame reply ++ after) :
    ∃ rest : Stream UInt8, readReplies s = replyBody reply :: readReplies rest ∧
      rest.bytes = after := by
  have empty : replyFrame reply = packWord 0 → replyBody reply = [] →
      ∃ rest : Stream UInt8, readReplies s = replyBody reply :: readReplies rest ∧
        rest.bytes = after := by
    intro frame_eq body_eq
    rw [frame_eq] at bytes_eq
    obtain ⟨rest, header, remains⟩ := header_read bytes_eq
    exact ⟨rest, by rw [readReplies_error header, body_eq], remains⟩
  cases reply with
  | none => exact empty rfl rfl
  | some out =>
    by_cases none_out : out = []
    · subst none_out
      exact empty rfl rfl
    · rw [replyFrame, List.append_assoc] at bytes_eq
      obtain ⟨mid, header, remains⟩ := header_read bytes_eq
      obtain ⟨rest, read, left⟩ := Stream.recvExact_enough remains
      have positive : out.length ≠ 0 := by
        rw [ne_eq, List.length_eq_zero_iff]
        exact none_out
      have fits : out.length < 2 ^ 32 := word
      refine ⟨rest, ?_, left⟩
      rw [readReplies_header fits positive header, read]
      rfl

theorem readReplies_torn (torn : Torn s.bytes) : readReplies s = [] := by
  generalize bytes_eq : s.bytes = bytes at torn
  cases torn with
  | header short =>
    obtain ⟨rest, ended⟩ := Stream.recvExact_short (bytes_eq ▸ short)
    exact readReplies_closed ended
  | body word short =>
    obtain ⟨rest, header, remains⟩ := header_read bytes_eq
    obtain ⟨last, ended⟩ := Stream.recvExact_short (remains ▸ short)
    rw [readReplies_header word (by omega) header, ended]

end Replies

/-- However the bytes are cut and wherever the connection breaks, the client counts the replies
    that were sent whole, in their order, the errors among them, and no others. -/
theorem replies_read_back {replies : List (Option (List UInt8))}
    (words : ∀ reply ∈ replies, (replyBody reply).length < 2 ^ 32) {tail : List UInt8}
    (torn : Torn tail) {s : Stream UInt8} (bytes_eq : s.bytes = replies.flatMap replyFrame ++ tail) :
    readReplies s = replies.map replyBody := by
  induction replies generalizing s with
  | nil =>
    apply readReplies_torn
    rw [bytes_eq]
    exact torn
  | cons reply replies ih =>
    rw [List.flatMap_cons, List.append_assoc] at bytes_eq
    obtain ⟨rest, read, remains⟩ := readReplies_frame (words reply (by simp)) bytes_eq
    rw [read, ih (fun r later => words r (List.mem_cons_of_mem _ later)) remains, List.map_cons]

def brokenReplies : Stream UInt8 where
  chunks := [[0, 0], [0, 3, 7], [8, 9, 0], [0, 0, 0, 0, 0, 0, 9, 1, 2]]
  nonempty := by simp

theorem broken_replies_read :
    brokenReplies.bytes = [some [7, 8, 9], none].flatMap replyFrame ++ (packWord 9 ++ [1, 2]) ∧
      readReplies brokenReplies = [[7, 8, 9], []] := by
  have bytes_eq : brokenReplies.bytes =
      [some [7, 8, 9], none].flatMap replyFrame ++ (packWord 9 ++ [1, 2]) := by decide
  have words : ∀ reply ∈ [some [7, 8, 9], none], (replyBody reply).length < 2 ^ 32 := by
    simp [replyBody]
  exact ⟨bytes_eq, replies_read_back words (.body (by decide) (by decide)) bytes_eq⟩

end Framing
