import MessageFeed.Proofs.Client.Lines
import MessageFeed.Proofs.Message.Report

/-!
# The output tells the normal texts

What a session prints are the two lines of each report, one report after another (`cut_output`),
since no text that is printed has a newline of its own. So every other line of an output, without
its label, is the normal text of a message, and no input can bring about an output that reads
otherwise. On the other hand a report says nothing but what its normal text says
(`flatMap_report_messagesOf`). So two outputs are the same if and only if the normal texts are
(`output_tells_cleaned`).
-/

set_option autoImplicit false

namespace MessageFeed.Client

open Bytes

/-- The first item of a list, the third, and so on. -/
def everyOther {α : Type} : List α → List α
  | [] => []
  | [a] => [a]
  | a :: _ :: more => a :: everyOther more

/-! ## Messages of an input -/

/-- The messages of an input are messages of lines. -/
theorem exists_of_mem_messagesOf (input : Bytes) (message : Message)
    (h : message ∈ messagesOf input) : ∃ line, Message.ofLine line = .ok message := by
  obtain ⟨line, -, hline⟩ := List.mem_filterMap.mp h
  refine ⟨line, ?_⟩
  cases hread : Message.ofLine line with
  | ok found =>
    rw [hread] at hline
    rw [Option.some.inj hline]
  | error e =>
    rw [hread] at hline
    cases hline

/-! ## Every other line -/

/-- Behind the first item, every other one begins with the third. -/
theorem everyOther_cons {α : Type} (a : α) (items : List α) :
    everyOther (a :: items) = a :: everyOther items.tail := by
  cases items <;> rfl

/-- Of pairs put one behind the other, every other item is the first of its pair. -/
theorem everyOther_flatMap {α β : Type} (f g : α → β) (items : List α) :
    everyOther (items.flatMap fun a => [f a, g a]) = items.map f := by
  induction items with
  | nil => rfl
  | cons a items ih =>
    show f a :: everyOther (items.flatMap fun a => [f a, g a]) = _
    rw [ih, List.map_cons]

/-- From the second item on it is the second of its pair. -/
theorem everyOther_tail_flatMap {α β : Type} (f g : α → β) (items : List α) :
    everyOther (items.flatMap fun a => [f a, g a]).tail = items.map g := by
  induction items with
  | nil => rfl
  | cons a items ih =>
    show everyOther (g a :: items.flatMap fun a => [f a, g a]) = _
    rw [everyOther_cons, ih, List.map_cons]

/-! ## The lines of an output -/

/-- The first lines of some reports tell the normal texts. -/
theorem everyOther_flatMap_reportLines (messages : List Message) :
    everyOther (messages.flatMap Message.reportLines) = messages.map Message.cleanedLine :=
  everyOther_flatMap Message.cleanedLine Message.kindLine messages

/-- The second lines tell the kinds. -/
theorem everyOther_tail_flatMap_reportLines (messages : List Message) :
    everyOther (messages.flatMap Message.reportLines).tail = messages.map Message.kindLine :=
  everyOther_tail_flatMap Message.cleanedLine Message.kindLine messages

/-- The first lines of some reports, without their labels, are the normal texts. -/
theorem map_drop_everyOther_flatMap_reportLines (messages : List Message) :
    (everyOther (messages.flatMap Message.reportLines)).map
        (fun line => line.drop (ofString "cleaned: ").length) =
      messages.map Message.cleaned := by
  rw [everyOther_flatMap_reportLines, List.map_map]
  apply List.map_congr_left
  intro message _
  exact List.drop_left

/-- An output is cut into the lines of its reports, and nothing is left. -/
theorem cut_output (input : List Bytes) :
    Frames.cut (run input).transcript.output =
      ⟨(messagesOf input.flatten).flatMap Message.reportLines, []⟩ := by
  have hclean : Frames.IsClean ⟨(messagesOf input.flatten).flatMap Message.reportLines, []⟩ := by
    refine ⟨?_, List.not_mem_nil⟩
    intro text htext
    obtain ⟨message, hmessage, hmem⟩ := List.mem_flatMap.mp htext
    obtain ⟨line, hline⟩ := exists_of_mem_messagesOf _ message hmessage
    exact Message.newline_not_mem_of_mem_reportLines line message hline text hmem
  have hstream : Frames.assemble ⟨(messagesOf input.flatten).flatMap Message.reportLines, []⟩ =
      (run input).transcript.output := by
    rw [output_run, Frames.assemble, List.append_nil, List.flatMap_assoc]
    apply List.flatMap_congr
    intro message _
    exact message.report_eq_flatMap_reportLines.symm
  rw [← hstream, Frames.cut_assemble _ hclean]

/-- What is printed about some messages is what would be printed about their normal texts. -/
theorem flatMap_report_messagesOf (input : Bytes) :
    (messagesOf input).flatMap Message.report =
      ((messagesOf input).map Message.cleaned).flatMap
        fun text => (Reading.ofLine 1 text).output := by
  rw [List.flatMap_map]
  apply List.flatMap_congr
  intro message hmessage
  obtain ⟨line, hline⟩ := exists_of_mem_messagesOf input message hmessage
  rw [Reading.output, Reading.ofLine, Message.ofLine_cleaned line message hline]
  rfl

/-- **The output tells the normal texts.** However an input arrives, its output consists of two
complete lines for each message. Of any two such lines the first begins with `cleaned: ` and the
second with eight spaces and `kind=`, and the first lines without that label are the normal texts of
the messages, in order. So two inputs have the same output if and only if their messages have the
same normal texts. -/
theorem output_tells_cleaned :
    (∀ input : List Bytes, ∃ lines,
      Frames.cut (run input).transcript.output = ⟨lines, []⟩ ∧
      lines.length = 2 * (messagesOf input.flatten).length ∧
      (∀ line ∈ everyOther lines, ofString "cleaned: " <+: line) ∧
      (∀ line ∈ everyOther lines.tail, ofString "        kind=" <+: line) ∧
      (everyOther lines).map (fun line => line.drop (ofString "cleaned: ").length) =
        (messagesOf input.flatten).map Message.cleaned) ∧
    ∀ input other : List Bytes,
      (run input).transcript.output = (run other).transcript.output ↔
        (messagesOf input.flatten).map Message.cleaned =
          (messagesOf other.flatten).map Message.cleaned := by
  constructor
  · intro input
    refine ⟨_, cut_output input, ?_, ?_, ?_, map_drop_everyOther_flatMap_reportLines _⟩
    · simp [Message.reportLines, List.length_flatMap, Nat.mul_comm]
    · intro line hline
      rw [everyOther_flatMap_reportLines] at hline
      obtain ⟨message, -, rfl⟩ := List.mem_map.mp hline
      exact List.prefix_append _ _
    · intro line hline
      rw [everyOther_tail_flatMap_reportLines] at hline
      obtain ⟨message, -, rfl⟩ := List.mem_map.mp hline
      simp only [Message.kindLine, List.append_assoc]
      exact List.prefix_append _ _
  · intro input other
    constructor
    · intro hsame
      have hcut := cut_output input
      rw [hsame, cut_output other, Frames.mk.injEq] at hcut
      rw [← map_drop_everyOther_flatMap_reportLines, ← hcut.1,
        map_drop_everyOther_flatMap_reportLines]
    · intro hsame
      rw [output_run, output_run, flatMap_report_messagesOf, flatMap_report_messagesOf, hsame]

end MessageFeed.Client
