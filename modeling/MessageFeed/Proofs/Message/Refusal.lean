import MessageFeed.Proofs.Message.Grammar
import MessageFeed.Proofs.Token.Pieces

/-!
# Lines that are refused

A byte that is neither blank nor a comma is in some token of its line, since tokens leave out
nothing but blank bytes and commas (`exists_mem_text_of_mem`). The other way around, a token begins
with a byte that is not blank, and not with a comma, which would be on the top level there
(`exists_not_silent_of_mem_scan`). So a line is refused if and only if it is silent: all it holds is
commas and blank bytes.
-/

set_option autoImplicit false

namespace MessageFeed

namespace Bytes

/-- The bytes that say nothing in a line: the comma and the six blank bytes. -/
def silent : Bytes :=
  ofString ", \t\r\n\x0c\x0b"

/-- A byte that says nothing is a comma or blank. -/
theorem mem_silent_iff (b : UInt8) : b ∈ silent ↔ b = comma ∨ isBlank b = true := by
  have hsilent : silent = [44, 32, 9, 13, 10, 12, 11] := by decide
  rw [hsilent]
  simp only [List.mem_cons, List.not_mem_nil, isBlank]
  grind

/-- A byte that says something is neither. -/
theorem not_mem_silent_iff (b : UInt8) : b ∉ silent ↔ b ≠ comma ∧ isBlank b = false := by
  rw [mem_silent_iff, not_or, Bool.not_eq_true]

end Bytes

namespace Token

open Bytes

/-- A byte that says something is in a token of its line. -/
theorem exists_mem_text_of_mem (line : Bytes) (b : UInt8) (hb : b ∈ line) (h : b ∉ silent) :
    ∃ t ∈ scan line, b ∈ t.text := by
  rw [not_mem_silent_iff] at h
  obtain ⟨i, hi⟩ := List.mem_iff_getElem?.mp hb
  rcases (accounts_scan line).covered i b hi with ⟨t, ht, hcovers⟩ | hblank | htop
  · obtain ⟨-, before, after, hline, hoffset⟩ := (accounts_scan line).stands t ht
    unfold Covers at hcovers
    rw [hline, List.append_assoc, List.getElem?_append_right (by omega),
      List.getElem?_append_left (by omega)] at hi
    exact ⟨t, ht, List.mem_of_getElem? hi⟩
  · rw [h.2] at hblank
    cases hblank
  · have hcomma := htop.1
    rw [hi] at hcomma
    exact absurd (Option.some.inj hcomma) h.1

/-- A line with a token has a byte that says something. -/
theorem exists_not_silent_of_mem_scan (line : Bytes) (t : Token) (ht : t ∈ scan line) :
    ∃ b ∈ line, b ∉ silent := by
  have htoken : IsToken Int32.size t.text := (areTokens_scan line).1 t.text (List.mem_map_of_mem ht)
  obtain ⟨-, before, after, hline, -⟩ := (accounts_scan line).stands t ht
  obtain ⟨b, more, htext⟩ := List.exists_cons_of_ne_nil htoken.ne_nil
  refine ⟨b, ?_, ?_⟩
  · rw [hline, htext]
    simp
  · rw [not_mem_silent_iff]
    constructor
    · rintro rfl
      exact htoken.no_top_comma [] more htext (closes_of_net_eq_zero _ [] rfl)
    · apply htoken.head_not_blank
      rw [htext, List.head?_cons]

end Token

namespace Message

open Bytes

/-- A line has no arguments if and only if it is silent. -/
theorem arguments_eq_nil_iff (line : Bytes) : arguments line = [] ↔ ∀ b ∈ line, b ∈ silent := by
  rw [arguments_eq_map_fold, List.map_eq_nil_iff]
  constructor
  · intro hnone b hb
    by_contra h
    obtain ⟨t, ht, -⟩ := Token.exists_mem_text_of_mem line b hb h
    rw [hnone] at ht
    cases ht
  · intro hsilent
    rw [List.eq_nil_iff_forall_not_mem]
    intro t ht
    obtain ⟨b, hb, h⟩ := Token.exists_not_silent_of_mem_scan line t ht
    exact h (hsilent b hb)

/-- A line is refused if and only if it has no arguments. -/
theorem ofLine_eq_error_iff (line : Bytes) (error : LineError) :
    ofLine line = .error error ↔ arguments line = [] := by
  cases error
  rw [ofLine]
  cases arguments line <;> simp

/-- A line is a message if and only if it has any. -/
theorem exists_ofLine_eq_ok_iff (line : Bytes) :
    (∃ message, ofLine line = .ok message) ↔ arguments line ≠ [] := by
  rw [ofLine]
  cases arguments line <;> simp

/-- No message has an empty command. -/
theorem command_ne_nil (line : Bytes) (message : Message) (h : ofLine line = .ok message) :
    message.command ≠ [] := by
  have harguments := ((ofLine_eq_ok_iff line message).mp h).1
  have hcommand : message.command ∈ arguments line := by
    rw [harguments]
    exact List.mem_cons_self
  exact ((areTokens_arguments line).1 message.command hcommand).ne_nil

/-- **Silent lines are refused, and no others.** A line is refused if and only if each byte of it is
a comma or one of the six blank bytes, and the fault is always the same. Every other line, whatever
its braces, is a message, and its command is not empty. -/
theorem refused_iff_silent :
    (∀ line fault, (ofLine line).mapError LineError.fault = .error fault ↔
      (∀ b ∈ line, b ∈ silent) ∧
        fault = .illegalArgument (.ofString "Parser: line has no command token")) ∧
    ∀ line, (∃ message, ofLine line = .ok message ∧ message.command ≠ []) ↔
      ∃ b ∈ line, b ∉ silent := by
  constructor
  · intro line fault
    rw [← arguments_eq_nil_iff]
    cases h : ofLine line with
    | error error =>
      have hnone := (ofLine_eq_error_iff line error).mp h
      simp only [Except.mapError, Except.error.injEq, hnone, true_and]
      cases error
      exact eq_comm
    | ok message =>
      have hsome := (exists_ofLine_eq_ok_iff line).mp ⟨message, h⟩
      simp [Except.mapError, hsome]
  · intro line
    have hsilent : (∃ b ∈ line, b ∉ silent) ↔ arguments line ≠ [] := by
      rw [ne_eq, arguments_eq_nil_iff]
      simp only [not_forall, exists_prop]
    rw [hsilent, ← exists_ofLine_eq_ok_iff]
    constructor
    · rintro ⟨message, h, -⟩
      exact ⟨message, h⟩
    · rintro ⟨message, h⟩
      exact ⟨message, h, command_ne_nil line message h⟩

/-- Behind a brace that closes nothing no comma is on the top level, and a zero byte is content. -/
example : (ofLine [32, 44, 125, 44, 0, 10]).toOption.map Message.command = some [125, 44, 0] := by
  decide

end Message

end MessageFeed
