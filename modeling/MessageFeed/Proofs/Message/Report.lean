import MessageFeed.Message.Report
import MessageFeed.Proofs.Message.Grammar

/-!
# Reports have two lines

Nothing that is printed about a message is escaped, so its report could be broken, or made to look
like another, by a newline inside one of its texts. There is none: normal text has no newline, and
command and parameters are parts of it (`newline_not_mem_of_mem_reportLines`). Nor does a report say
more than the normal text: the normal text, read again, is the same message (`ofLine_cleaned`).
-/

set_option autoImplicit false

namespace MessageFeed.Message

open Bytes

/-- The first line of a report. -/
def cleanedLine (message : Message) : Bytes :=
  ofString "cleaned: " ++ message.cleaned

/-- The second line of a report. -/
def kindLine (message : Message) : Bytes :=
  ofString "        kind=" ++ message.kind.name ++ ofString " cmd=" ++ message.command ++
    reportParams message.params

/-- The lines of a report. -/
def reportLines (message : Message) : List Bytes :=
  [message.cleanedLine, message.kindLine]

/-- A report is its two lines, each ended by a newline. -/
theorem report_eq_flatMap_reportLines (message : Message) :
    message.report = message.reportLines.flatMap fun line => line ++ [newline] := by
  simp [report, reportLines, cleanedLine, kindLine]

/-! ## No newline in a report -/

/-- A text of normal bytes has no newline. -/
theorem newline_not_mem_of_isNormal (text : Bytes) (h : ∀ b ∈ text, IsNormal b) :
    newline ∉ text := by
  intro hmem
  exact (h newline hmem).not_newline rfl

/-- No name of a kind has a newline. -/
theorem newline_not_mem_name (kind : Kind) : newline ∉ kind.name := by
  cases kind <;> decide

/-- The list of the parameters has no newline if none of them has. -/
theorem newline_not_mem_reportParams (params : List Bytes)
    (h : ∀ param ∈ params, newline ∉ param) : newline ∉ reportParams params := by
  have hbrackets : ∀ param ∈ params, newline ∉ ofString "[" ++ param ++ ofString "]" := by
    intro param hparam
    simp only [List.mem_append, not_or]
    exact ⟨⟨by decide, h param hparam⟩, by decide⟩
  cases params with
  | nil => exact List.not_mem_nil
  | cons param more =>
    show newline ∉ ofString " params=" ++
      (param :: more).flatMap fun param => ofString "[" ++ param ++ ofString "]"
    rw [List.mem_append, not_or]
    refine ⟨by decide, ?_⟩
    intro hmem
    obtain ⟨other, hother, hnewline⟩ := List.mem_flatMap.mp hmem
    exact hbrackets other hother hnewline

/-- The lines of a report have no newline in them. -/
theorem newline_not_mem_of_mem_reportLines (line : Bytes) (message : Message)
    (h : ofLine line = .ok message) : ∀ text ∈ message.reportLines, newline ∉ text := by
  obtain ⟨harguments, -, hcleaned, -⟩ := (ofLine_eq_ok_iff line message).mp h
  have hparts : ∀ text ∈ message.command :: message.params, newline ∉ text := by
    intro text htext
    apply newline_not_mem_of_isNormal
    rw [← harguments] at htext
    exact isNormal_of_mem_arguments line text htext
  rw [List.forall_mem_cons] at hparts
  have hfirst : newline ∉ message.cleanedLine := by
    rw [cleanedLine, hcleaned, List.mem_append, not_or]
    exact ⟨by decide, newline_not_mem_of_isNormal _ (isNormal_of_mem_fold line)⟩
  have hsecond : newline ∉ message.kindLine := by
    simp only [kindLine, List.mem_append, not_or]
    exact ⟨⟨⟨⟨by decide, newline_not_mem_name message.kind⟩, by decide⟩, hparts.1⟩,
      newline_not_mem_reportParams message.params hparts.2⟩
  rw [reportLines, List.forall_mem_cons, List.forall_mem_singleton]
  exact ⟨hfirst, hsecond⟩

/-! ## The normal text says it all -/

/-- The normal text of a message is the same message but for its raw text. -/
theorem ofLine_cleaned (line : Bytes) (message : Message) (h : ofLine line = .ok message) :
    ofLine message.cleaned = .ok { message with raw := message.cleaned } := by
  obtain ⟨harguments, hkind, hcleaned, -⟩ := (ofLine_eq_ok_iff line message).mp h
  have hsame : arguments (fold line) = arguments line := by
    rw [arguments, arguments, normalize_eq_fold, normalize_eq_fold, fold_fold]
  rw [ofLine_eq_ok_iff]
  refine ⟨?_, hkind, ?_, rfl⟩
  · rw [hcleaned, hsame, harguments]
  · rw [hcleaned, fold_fold]

end MessageFeed.Message
