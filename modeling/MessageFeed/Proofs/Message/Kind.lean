import MessageFeed.Proofs.Message.Grammar

/-!
# Kinds agree with their names

Every keyword is the name of its kind in small letters (`fst_of_mem_keywords`), and every kind is
found by its name in small letters (`ofCommand_map_lower_name`), so a command and the name of its
kind decide each other (`ofCommand_eq_iff`). The command of a whole line is the first token of the
line, folded, and texts that are equal in small letters are equal in capitals. So the raw token
decides the kind too (`kinds_agree_with_names`).
-/

set_option autoImplicit false

namespace MessageFeed

namespace Bytes

/-- A byte has the capital that its small letter has. -/
theorem upper_lower (b : UInt8) : upper (lower b) = upper b := by
  simp only [upper, lower]
  grind

/-- A byte has the small letter that its capital has. -/
theorem lower_upper (b : UInt8) : lower (upper b) = lower b := by
  simp only [upper, lower]
  grind

/-- Texts are the same in small letters if and only if they are the same in capitals. -/
theorem map_lower_eq_iff (a b : Bytes) : a.map lower = b.map lower ↔ a.map upper = b.map upper := by
  constructor
  · intro h
    have hupper := congrArg (List.map upper) h
    simpa only [List.map_map, Function.comp_def, upper_lower] using hupper
  · intro h
    have hlower := congrArg (List.map lower) h
    simpa only [List.map_map, Function.comp_def, lower_upper] using hlower

end Bytes

namespace Message

open Bytes

/-- A text without its line breaks and with capitals for small letters. -/
def capitalized (text : Bytes) : Bytes :=
  (text.filter fun b => !isLineBreak b).map upper

namespace Kind

/-- The kinds that have a keyword. -/
def known : List Kind :=
  keywords.map Prod.snd

/-! ## Keywords and names -/

/-- The known kinds are all but `unknown`. -/
theorem mem_known_iff (kind : Kind) : kind ∈ known ↔ kind ≠ unknown := by
  cases kind <;> decide

/-- A keyword is the name of its kind in small letters. -/
theorem fst_of_mem_keywords : ∀ entry ∈ keywords, entry.1 = entry.2.name.map lower := by
  decide

/-- A kind is announced by its own name in small letters. -/
theorem ofCommand_map_lower_name (kind : Kind) : ofCommand (kind.name.map lower) = kind := by
  cases kind <;> decide

/-- Names are written in capitals. -/
theorem map_upper_name (kind : Kind) : kind.name.map upper = kind.name := by
  cases kind <;> decide

/-- No two kinds share a name. -/
theorem name_injective : Function.Injective name := by
  intro kind other h
  rw [← ofCommand_map_lower_name kind, h, ofCommand_map_lower_name]

/-- A command announces a known kind if and only if it is the name of the kind in small letters. -/
theorem ofCommand_eq_iff (command : Bytes) (kind : Kind) (h : kind ≠ unknown) :
    ofCommand command = kind ↔ command = kind.name.map lower := by
  constructor
  · intro hkind
    unfold ofCommand at hkind
    cases hlookup : keywords.lookup command with
    | none =>
      rw [hlookup, Option.getD_none] at hkind
      exact absurd hkind.symm h
    | some found =>
      rw [hlookup, Option.getD_some] at hkind
      subst hkind
      obtain ⟨front, back, hsplit, -⟩ := List.lookup_eq_some_iff.mp hlookup
      apply fst_of_mem_keywords (command, found)
      simp [hsplit]
  · rintro rfl
    exact ofCommand_map_lower_name kind

/-- A command is unknown if and only if it is no name of a known kind in small letters. -/
theorem ofCommand_eq_unknown_iff (command : Bytes) :
    ofCommand command = unknown ↔ ∀ kind, kind ≠ unknown → command ≠ kind.name.map lower := by
  constructor
  · intro hcommand kind hkind hname
    apply hkind
    rw [← (ofCommand_eq_iff command kind hkind).mpr hname, hcommand]
  · intro hnone
    by_contra hknown
    exact hnone _ hknown ((ofCommand_eq_iff command _ hknown).mp rfl)

end Kind

/-! ## The kind of a line -/

/-- A text that folds to the keyword of a kind is, in capitals, the name of the kind. -/
theorem fold_eq_iff_capitalized_eq (text : Bytes) (kind : Kind) :
    fold text = kind.name.map lower ↔ capitalized text = kind.name := by
  rw [fold, map_lower_eq_iff, kind.map_upper_name, capitalized]

/-- A line that is a message has a first token, and the command is that token, folded. -/
theorem exists_scan_eq_cons (line : Bytes) (message : Message) (h : ofLine line = .ok message) :
    ∃ first more, Token.scan line = first :: more ∧ message.command = fold first.text := by
  have harguments := ((ofLine_eq_ok_iff line message).mp h).1
  rw [arguments_eq_map_fold] at harguments
  obtain ⟨first, more, hscan, hfirst, -⟩ := List.map_eq_cons_iff.mp harguments
  exact ⟨first, more, hscan, hfirst.symm⟩

/-- A message is of a known kind if and only if its command is the name of the kind in small
letters. -/
theorem kind_eq_iff (line : Bytes) (message : Message) (h : ofLine line = .ok message)
    (kind : Kind) (hkind : kind ≠ .unknown) :
    message.kind = kind ↔ message.command = kind.name.map lower := by
  rw [((ofLine_eq_ok_iff line message).mp h).2.1]
  exact Kind.ofCommand_eq_iff message.command kind hkind

/-- **Kinds agree with their names.** A command announces a known kind if and only if it is the name
of the kind in small letters, and the unknown kind if it is no such name. There are twenty-four
known kinds, and no two kinds have one name. A message is of a known kind if and only if the first
token of its line as it came is the name of the kind, but for line breaks and case. So the name of a
known kind, when it is printed, is the command in capitals. -/
theorem kinds_agree_with_names :
    (∀ (command : Bytes) (kind : Kind), kind ≠ .unknown →
      (Kind.ofCommand command = kind ↔ command = kind.name.map lower)) ∧
    (∀ command, Kind.ofCommand command = .unknown ↔
      ∀ kind : Kind, kind ≠ .unknown → command ≠ kind.name.map lower) ∧
    (∀ kind : Kind, kind ∈ Kind.known ↔ kind ≠ .unknown) ∧ Kind.known.Nodup ∧
    Kind.known.length = 24 ∧ Function.Injective Kind.name ∧
    ∀ line message, ofLine line = .ok message →
      (∃ first more, Token.scan line = first :: more ∧
        ∀ kind, kind ≠ .unknown → (message.kind = kind ↔ capitalized first.text = kind.name)) ∧
      (message.kind.name ≠ Kind.unknown.name →
        message.kind.name = message.command.map upper) := by
  refine ⟨Kind.ofCommand_eq_iff, Kind.ofCommand_eq_unknown_iff, Kind.mem_known_iff, by decide,
    by decide, Kind.name_injective, ?_⟩
  intro line message hline
  constructor
  · obtain ⟨first, more, hscan, hcommand⟩ := exists_scan_eq_cons line message hline
    refine ⟨first, more, hscan, ?_⟩
    intro kind hkind
    rw [kind_eq_iff line message hline kind hkind, hcommand]
    exact fold_eq_iff_capitalized_eq first.text kind
  · intro hname
    have hknown : message.kind ≠ .unknown := by
      intro hunknown
      apply hname
      rw [hunknown]
    have hcommand := (kind_eq_iff line message hline _ hknown).mp rfl
    rw [hcommand, List.map_map, Function.comp_def]
    simp only [upper_lower, Kind.map_upper_name]

/-- The line ` cOn\rOk,{X`, whose first token is no keyword as it stands. -/
theorem kinds_agree_with_names_broken_conOk :
    ∃ message, ofLine (ofString " cOn\rOk,\x7bX") = .ok message ∧ Kind.conOk ≠ .unknown ∧
      (Kind.ofCommand message.command = .conOk ↔ message.command = Kind.conOk.name.map lower) ∧
      (message.kind = .conOk ↔ capitalized (ofString "cOn\rOk") = Kind.conOk.name) ∧
      message.kind.name ≠ Kind.unknown.name ∧
      message.kind.name = message.command.map upper := by
  have hline : ofLine (ofString " cOn\rOk,\x7bX") = .ok
      { kind := .conOk
        command := ofString "conok"
        params := [ofString "\x7bx"]
        cleaned := ofString " conok,\x7bx"
        raw := ofString " cOn\rOk,\x7bX" } := rfl
  have hknown : Kind.conOk ≠ .unknown := by decide
  have hname : Kind.conOk.name ≠ Kind.unknown.name := by decide
  obtain ⟨⟨first, more, hscan, hkind⟩, hprinted⟩ :=
    kinds_agree_with_names.2.2.2.2.2.2 _ _ hline
  obtain ⟨rfl, -⟩ := List.cons.inj hscan
  exact ⟨_, hline, hknown, kinds_agree_with_names.1 _ _ hknown, hkind _ hknown, hname,
    hprinted hname⟩

end Message

end MessageFeed
