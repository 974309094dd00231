import MessageFeed.Proofs.Message.Arguments
import MessageFeed.Proofs.Token.Word

/-!
# The grammar of messages

The arguments of a message are normal texts that can be told apart, and they can be any such texts.
Folding a line in which normal texts are laid out leaves the texts alone and makes padding out of
padding (`exists_laidOut_fold`), so the folded line is a layout of the same texts, and the scan
finds them there. A disguise folds to the same text as the line that it disguises, so it is the
same message.

The scan counts in words. So the texts of a message can be told apart by exact counting if the line
is told right, which it is or is not whatever its disguise (`tellsTop_fold_iff`). If it is not, they
need not be (`ofLine_wrapped`).
-/

set_option autoImplicit false

namespace MessageFeed.Message

open Bytes
open Token (LaidOut AreTokens TellsTop)

/-- Normal texts that are laid out in a line are laid out in the folded line, at other offsets. -/
theorem exists_laidOut_fold (period start start' : Nat) (tokens : List Token) (line : Bytes)
    (h : LaidOut period start tokens line)
    (hnormal : ∀ token ∈ tokens, ∀ b ∈ token.text, IsNormal b) :
    ∃ folded, LaidOut period start' folded (fold line) ∧
      folded.map Token.text = tokens.map Token.text := by
  obtain ⟨folded, hfolded, htexts⟩ := exists_laidOut_map_fold period start start' tokens line h
  have hsame : (tokens.map fun token => fold token.text) = tokens.map Token.text :=
    List.map_congr_left fun token htoken => fold_of_isNormal token.text (hnormal token htoken)
  exact ⟨folded, hfolded, htexts.trans hsame⟩

/-- The arguments of a line are the texts laid out in its folded text. -/
theorem arguments_eq_iff (line : Bytes) (texts : List Bytes) :
    arguments line = texts ↔
      ∃ tokens, LaidOut Int32.size 0 tokens (fold line) ∧ tokens.map Token.text = texts := by
  rw [arguments, normalize_eq_fold]
  constructor
  · rintro rfl
    exact ⟨_, Token.laidOut_scan _, rfl⟩
  · rintro ⟨tokens, htokens, rfl⟩
    rw [(Token.scan_eq_iff_laidOut _ _).mpr htokens]

/-- The arguments of a line are the tokens of the line itself, folded. -/
theorem arguments_eq_map_fold (line : Bytes) :
    arguments line = (Token.scan line).map fun token => fold token.text :=
  (arguments_eq_iff line _).mpr (exists_laidOut_map_fold _ 0 0 _ line (Token.laidOut_scan line))

/-- The arguments of a line can be told apart by words. -/
theorem areTokens_arguments (line : Bytes) : AreTokens Int32.size (arguments line) :=
  Token.areTokens_scan (normalize line)

/-- The arguments of a line that is told right can be told apart by exact counting. -/
theorem areTokens_zero_arguments (line : Bytes) (h : TellsTop line) :
    AreTokens 0 (arguments line) := by
  have hfold := (tellsTop_fold_iff line).mpr h
  rw [arguments, normalize_eq_fold]
  exact Token.areTokens_of_laidOut 0 _ _ ((Token.laidOut_zero_scan_iff _).mpr hfold)

/-- Tokens have their bytes from the text in which they are laid out. -/
theorem mem_of_mem_laidOut (period start : Nat) (tokens : List Token) (line : Bytes)
    (h : LaidOut period start tokens line) :
    ∀ text ∈ tokens.map Token.text, ∀ b ∈ text, b ∈ line := by
  induction h with
  | padding => simp
  | @last start left text right _ _ _ =>
    intro t ht b hb
    rw [List.map_singleton, List.mem_singleton] at ht
    subst ht
    simp [hb]
  | @skip start tokens pad rest _ _ ih =>
    intro t ht b hb
    have := ih t ht b hb
    simp [this]
  | @next start tokens left text right rest _ _ _ _ _ ih =>
    intro t ht b hb
    rcases List.mem_cons.mp ht with rfl | ht
    · simp [hb]
    · have := ih t ht b hb
      simp [this]

/-- The arguments of a line are normal texts. -/
theorem isNormal_of_mem_arguments (line text : Bytes) (h : text ∈ arguments line) (b : UInt8)
    (hb : b ∈ text) : IsNormal b := by
  obtain ⟨tokens, htokens, htexts⟩ := (arguments_eq_iff line _).mp rfl
  rw [← htexts] at h
  exact isNormal_of_mem_fold line b (mem_of_mem_laidOut _ 0 tokens _ htokens text h b hb)

/-- A line is read as a message if and only if it has arguments, the first of which is the
command. -/
theorem ofLine_eq_ok_iff (line : Bytes) (message : Message) :
    ofLine line = .ok message ↔
      arguments line = message.command :: message.params ∧
        message.kind = .ofCommand message.command ∧ message.cleaned = fold line ∧
        message.raw = line := by
  obtain ⟨kind, command, params, cleaned, raw⟩ := message
  rw [ofLine, normalize_eq_fold]
  cases arguments line with
  | nil => simp
  | cons first more =>
    simp only [Except.ok.injEq, Message.mk.injEq, List.cons.injEq]
    grind

/-- A disguise has the arguments of the line that it disguises. -/
theorem arguments_eq_of_disguised (plain line : Bytes) (h : Disguised plain line) :
    arguments line = arguments plain := by
  rw [arguments, arguments, normalize_eq_fold, normalize_eq_fold, fold_eq_of_disguised plain line h]

/-- **The grammar of messages.** The command and the parameters of a message are normal texts, and
they can be told apart if no comma of the line is told wrong.

On the other hand, take any normal texts, at least one, that can be told apart and in which no comma
is told wrong. They can be laid out, as the join shows, and wherever they are laid out in a line, a
disguise of that line is the message with the first of them as its command and the others as its
parameters. And a disguise of any line is the same message as the line but for its raw text, or is
refused like it. -/
theorem ofLine_grammar :
    (∀ line message, ofLine line = .ok message →
      (TellsTop line → AreTokens 0 (message.command :: message.params)) ∧
      AreTokens Int32.size (message.command :: message.params) ∧
        ∀ text ∈ message.command :: message.params, ∀ b ∈ text, IsNormal b) ∧
    (∀ command params, AreTokens 0 (command :: params) →
      (∀ text ∈ command :: params, TellsTop text) →
      (∀ text ∈ command :: params, ∀ b ∈ text, IsNormal b) →
      (∃ tokens, LaidOut 0 0 tokens (Token.join (command :: params)) ∧
        tokens.map Token.text = command :: params) ∧
      ∀ tokens plain line, tokens.map Token.text = command :: params → LaidOut 0 0 tokens plain →
        Disguised plain line →
        ofLine line = .ok
          { kind := .ofCommand command, command, params, cleaned := fold plain, raw := line }) ∧
    ∀ plain line, Disguised plain line →
      (ofLine line).map (fun message => { message with raw := plain }) = ofLine plain := by
  refine ⟨?_, ?_, ?_⟩
  · intro line message hline
    have harguments := ((ofLine_eq_ok_iff line message).mp hline).1
    rw [← harguments]
    exact ⟨areTokens_zero_arguments line, areTokens_arguments line,
      fun text htext => isNormal_of_mem_arguments line text htext⟩
  · intro command params hapart htells hnormal
    refine ⟨Token.exists_laidOut_join 0 _ hapart, ?_⟩
    intro tokens plain line htexts hlaid hdisguised
    rw [← htexts] at htells hnormal
    have hword := (Token.tellsTop_of_laidOut 0 tokens plain hlaid fun token htoken =>
      htells _ (List.mem_map_of_mem htoken)).1
    obtain ⟨folded, hfolded, hsame⟩ := exists_laidOut_fold _ 0 0 tokens plain hword
      fun token htoken => hnormal _ (List.mem_map_of_mem htoken)
    have hplain : arguments plain = command :: params :=
      (arguments_eq_iff plain _).mpr ⟨folded, hfolded, hsame.trans htexts⟩
    rw [ofLine_eq_ok_iff]
    exact ⟨(arguments_eq_of_disguised plain line hdisguised).trans hplain, rfl,
      (fold_eq_of_disguised plain line hdisguised).symm, rfl⟩
  · intro plain line hdisguised
    rw [ofLine, ofLine, arguments_eq_of_disguised plain line hdisguised, normalize_eq_fold,
      normalize_eq_fold, fold_eq_of_disguised plain line hdisguised]
    cases arguments plain <;> rfl

/-- The line `U,\r {1\n,2`, a disguise of `u, {1,2`: a break stands between its tokens and another
one inside the last, which leaves a brace open and so keeps the comma behind it. -/
theorem ofLine_grammar_disguised_update :
    AreTokens 0 [[117], [123, 49, 44, 50]] ∧
      (∀ text ∈ [[117], [123, 49, 44, 50]], TellsTop text) ∧
      LaidOut 0 0 [⟨0, [117]⟩, ⟨3, [123, 49, 44, 50]⟩] [117, 44, 32, 123, 49, 44, 50] ∧
      Disguised [117, 44, 32, 123, 49, 44, 50] [85, 44, 13, 32, 123, 49, 10, 44, 50] ∧
      ofLine [85, 44, 13, 32, 123, 49, 10, 44, 50] = .ok
        { kind := .update
          command := [117]
          params := [[123, 49, 44, 50]]
          cleaned := [117, 44, 32, 123, 49, 44, 50]
          raw := [85, 44, 13, 32, 123, 49, 10, 44, 50] } := by
  have htells : ∀ text : Bytes, text.length ≤ 7 → TellsTop text := fun text hlength =>
    Token.tellsTop_of_length_le text (by omega)
  have hlaid : LaidOut 0 0 [⟨0, [117]⟩, ⟨3, [123, 49, 44, 50]⟩] [117, 44, 32, 123, 49, 44, 50] :=
    (Token.laidOut_zero_scan_iff [117, 44, 32, 123, 49, 44, 50]).mpr (htells _ (by decide))
  have hapart : AreTokens 0 [[117], [123, 49, 44, 50]] := Token.areTokens_of_laidOut 0 _ _ hlaid
  have htexts : ∀ text ∈ [[117], [123, 49, 44, 50]], TellsTop text := by
    intro text htext
    have hlength : ∀ text ∈ ([[117], [123, 49, 44, 50]] : List Bytes), text.length ≤ 7 := by decide
    exact htells text (hlength text htext)
  have hnormal : ∀ text ∈ [[117], [123, 49, 44, 50]], ∀ b ∈ text, IsNormal b := by
    have hfold : ∀ text ∈ [[117], [123, 49, 44, 50]], fold text = text := by decide
    intro text htext b hb
    exact isNormal_of_mem_fold text b (by rwa [hfold text htext])
  have hdisguised :
      Disguised [117, 44, 32, 123, 49, 44, 50] [85, 44, 13, 32, 123, 49, 10, 44, 50] :=
    .keep rfl (.keep rfl (.breakLine rfl (.keep rfl (.keep rfl (.keep rfl (.breakLine rfl
      (.keep rfl (.keep rfl .nil))))))))
  exact ⟨hapart, htexts, hlaid, hdisguised, (ofLine_grammar.2.1 [117] [[123, 49, 44, 50]] hapart
    htexts hnormal).2 _ _ _ rfl hlaid hdisguised⟩

/-- Behind 2³² opening braces a comma is told wrong. The line is a message all the same, with a
command that leaves all of them open, so its command and its parameter cannot be told apart. -/
theorem ofLine_wrapped :
    ∃ message, ofLine Token.wrapped = .ok message ∧
      ¬ AreTokens 0 (message.command :: message.params) := by
  have hfold : fold Token.wrapped = Token.wrapped := by
    apply fold_of_isNormal
    intro b hb
    have hx : fold (comma :: ofString "x") = comma :: ofString "x" := by decide
    rcases List.mem_append.mp hb with hmem | hmem
    · rw [List.eq_of_mem_replicate hmem]
      exact isNormal_of_mem_fold [openBrace] openBrace (by decide)
    · rw [← hx] at hmem
      exact isNormal_of_mem_fold _ b hmem
  have harguments : arguments Token.wrapped =
      [List.replicate Int32.size openBrace, ofString "x"] := by
    rw [arguments, normalize_eq_fold, hfold, Token.scan_wrapped]
    rfl
  refine ⟨⟨.ofCommand (List.replicate Int32.size openBrace), List.replicate Int32.size openBrace,
    [ofString "x"], fold Token.wrapped, Token.wrapped⟩, ?_, Token.not_areTokens_opened⟩
  exact (ofLine_eq_ok_iff _ _).mpr ⟨harguments, rfl, rfl, rfl⟩

end MessageFeed.Message
