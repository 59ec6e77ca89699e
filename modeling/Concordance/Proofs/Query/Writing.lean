import Concordance.Proofs.Query.Cutting

/-! Texts that are put together from tokens, and the symbols that they are cut into. -/
namespace Concordance.Query

/-- However what stands before ended, the text is cut into tokens with these symbols. -/
def Spells (text : List Char) (symbols : List Symbol) : Prop :=
  ∀ previous, Cuts previous text symbols

/-- No token goes on with the next character. -/
def IsBreak (rest : List Char) : Prop := ∀ c ∈ rest.head?, c = ' ' ∨ c = ')' ∨ c = ','

theorem IsBreak.of_forall {keeps : Char → Prop} {rest : List Char} (breaks : IsBreak rest)
    (each : keeps ' ' ∧ keeps ')' ∧ keeps ',') : ∀ c ∈ rest.head?, keeps c := by
  intro c member
  rcases breaks c member with rfl | rfl | rfl
  · exact each.1
  · exact each.2.1
  · exact each.2.2

theorem isBreak_nil : IsBreak [] := by simp [IsBreak]

theorem isBreak_space (rest : List Char) : IsBreak (' ' :: rest) := by simp [IsBreak]

theorem isBreak_comma (rest : List Char) : IsBreak (',' :: rest) := by simp [IsBreak]

theorem isBreak_close (rest : List Char) : IsBreak (')' :: rest) := by simp [IsBreak]

/-- Before a break, the text is cut into these symbols, and no blank is before it. -/
structure Writes (text : List Char) (spelt : List Symbol) : Prop where
  starts : ∃ c more, text = c :: more ∧ Text.isAsciiBlank c = false
  cut : ∀ {rest symbols}, IsBreak rest → Spells rest symbols →
    Spells (text ++ rest) (spelt ++ symbols)

theorem spells_close {rest : List Char} {symbols : List Symbol} (later : Spells rest symbols) :
    Spells (')' :: rest) (.sign .closeRound :: symbols) :=
  fun _ => cuts_sign rfl (by decide) (later _)

theorem spells_open {rest : List Char} {symbols : List Symbol} (later : Spells rest symbols) :
    Spells ('(' :: rest) (.sign .openRound :: symbols) :=
  fun _ => cuts_sign rfl (by decide) (later _)

theorem spells_comma {rest : List Char} {symbols : List Symbol} (later : Spells rest symbols) :
    Spells (',' :: rest) (.sign .comma :: symbols) :=
  fun _ => cuts_sign rfl (by decide) (later _)

namespace Writes

variable {first second : List Char} {spelt others : List Symbol}

/-- A text at the end of a query is cut before the end. -/
theorem spells (writes : Writes first spelt) : Spells first (spelt ++ [.sign .endOfQuery]) := by
  have cut := writes.cut isBreak_nil fun _ => .done
  rwa [List.append_nil] at cut

theorem spells_space (writes : Writes second others) {rest : List Char} {symbols : List Symbol}
    (breaks : IsBreak rest) (later : Spells rest symbols) :
    Spells (' ' :: (second ++ rest)) (others ++ symbols) := by
  obtain ⟨c, more, cons, plain⟩ := writes.starts
  refine fun previous => cuts_blank ?_ (writes.cut breaks later previous)
  simpa [cons] using plain

/-- Two texts with a blank between them write the symbols of both. -/
theorem space (head : Writes first spelt) (tail : Writes second others) :
    Writes (first ++ ' ' :: second) (spelt ++ others) where
  starts := by
    obtain ⟨c, more, rfl, plain⟩ := head.starts
    exact ⟨c, _, rfl, plain⟩
  cut breaks later := by
    rw [List.append_assoc, List.append_assoc, List.cons_append]
    exact head.cut (isBreak_space _) (tail.spells_space breaks later)

/-- Two texts with a comma between them write the symbols of both around that of the comma. -/
theorem comma (head : Writes first spelt) (tail : Writes second others) :
    Writes (first ++ ',' :: ' ' :: second) (spelt ++ .sign .comma :: others) where
  starts := by
    obtain ⟨c, more, rfl, plain⟩ := head.starts
    exact ⟨c, _, rfl, plain⟩
  cut breaks later := by
    rw [List.append_assoc, List.append_assoc, List.cons_append, List.cons_append, List.cons_append]
    exact head.cut (isBreak_comma _) (spells_comma (tail.spells_space breaks later))

/-- What is in round brackets. -/
theorem spells_round (inner : Writes first spelt) {rest : List Char} {symbols : List Symbol}
    (later : Spells rest symbols) : Spells ('(' :: (first ++ ')' :: rest))
      (.sign .openRound :: (spelt ++ .sign .closeRound :: symbols)) :=
  spells_open (inner.cut (isBreak_close _) (spells_close later))

/-- A text in round brackets writes its symbols in brackets. -/
theorem round (inner : Writes first spelt) :
    Writes ('(' :: (first ++ [')'])) (.sign .openRound :: (spelt ++ [.sign .closeRound])) where
  starts := ⟨_, _, rfl, rfl⟩
  cut breaks later := by
    simpa using inner.spells_round later

/-- A bare word writes its symbol. -/
theorem word {text : List Char} (bare : isBareWord text = true) :
    Writes text [.word (String.ofList text)] where
  starts := by
    cases text with
    | nil => simp [isBareWord] at bare
    | cons c more =>
        simp only [isBareWord, Bool.and_eq_true] at bare
        exact ⟨c, more, rfl, (isWordStart_cases bare.1).1⟩
  cut breaks later _ := cuts_word bare (breaks.of_forall (by decide)) (later _)

/-- A word with something in brackets that follow it at once. -/
theorem call {text : List Char} (bare : isBareWord text = true) (inner : Writes first spelt) :
    Writes (text ++ '(' :: (first ++ [')']))
      (.word (String.ofList text) :: .sign .openRound :: (spelt ++ [.sign .closeRound])) where
  starts := by
    obtain ⟨c, more, cons, plain⟩ := (word bare).starts
    exact ⟨c, _, by rw [cons]; rfl, plain⟩
  cut breaks later _ := by
    simp only [List.append_assoc, List.cons_append, List.nil_append]
    exact cuts_word bare (by simp; decide) (inner.spells_round later _)

/-- A quoted text writes one string. -/
theorem literal (text : List Char) :
    Writes (quoteWith apostrophe text) [.literal (quoteWith apostrophe text)] where
  starts := ⟨_, _, rfl, by decide⟩
  cut breaks later _ := cuts_literal text (breaks.of_forall (by decide)) (later _)

/-- A text in backquotes writes one quoted identifier. -/
theorem quoted (text : List Char) :
    Writes (quoteWith backquote text) [.quoted (quoteWith backquote text)] where
  starts := ⟨_, _, rfl, by decide⟩
  cut breaks later _ := cuts_quoted text (breaks.of_forall (by decide)) (later _)

/-- A comparison of one sign does not go on at a break. -/
theorem measure_comparison {c : Char} {kind : TokenKind}
    (sign : (c, kind) ∈ [('=', TokenKind.equals), ('<', .less), ('>', .greater)])
    {rest : List Char} (breaks : IsBreak rest) (previous : Option TokenKind) :
    measure previous c rest = (kind, 1) := by
  have apart : ∀ d ∈ rest.head?, d ≠ '=' ∧ d ≠ '>' := breaks.of_forall (by decide)
  simp only [List.mem_cons, Prod.mk.injEq, List.not_mem_nil, or_false] at sign
  obtain ⟨rfl, rfl⟩ | ⟨rfl, rfl⟩ | ⟨rfl, rfl⟩ := sign
  all_goals
    cases rest with
    | nil => rfl
    | cons d rest =>
        obtain ⟨noEquals, noGreater⟩ := apart d rfl
        simp [measure, Text.isAsciiBlank, apostrophe, backquote, isWordStart, signKind?,
          measureOperator, noEquals, noGreater]

/-- A comparison writes its sign. -/
theorem comparison (comparison : Comparison) :
    Writes comparison.symbol.toList [.sign comparison.kind] where
  starts := by cases comparison <;> exact ⟨_, _, rfl, by decide⟩
  cut breaks later previous := by
    cases comparison with
    | equal => exact cuts_sign (measure_comparison (by decide) breaks _) (by decide) (later _)
    | less => exact cuts_sign (measure_comparison (by decide) breaks _) (by decide) (later _)
    | greater => exact cuts_sign (measure_comparison (by decide) breaks _) (by decide) (later _)
    | notEqual => exact cuts_signs ['='] rfl (by decide) (later _)
    | lessOrEqual => exact cuts_signs ['='] rfl (by decide) (later _)
    | greaterOrEqual => exact cuts_signs ['='] rfl (by decide) (later _)

/-- A number that is written with digits alone, or with digits on both sides of a point. -/
theorem number {lexeme : List Char} (digit : ∀ c ∈ lexeme.head?, c.isDigit = true)
    (filled : lexeme ≠ [])
    (length : ∀ {rest}, IsBreak rest → numberLength (lexeme ++ rest) = lexeme.length) :
    Writes lexeme [.number lexeme] where
  starts := by
    obtain ⟨c, more, rfl⟩ := List.exists_cons_of_ne_nil filled
    exact ⟨c, more, rfl, not_isAsciiBlank (digit c rfl) (by decide)⟩
  cut breaks later _ := cuts_number digit filled (length breaks) (later _)

/-- Digits alone are a number. -/
theorem digits {lexeme : List Char} (digits : ∀ c ∈ lexeme, c.isDigit = true)
    (filled : lexeme ≠ []) : Writes lexeme [.number lexeme] := by
  refine number (fun c member => digits c (List.mem_of_mem_head? member)) filled fun breaks => ?_
  refine numberLength_digits digits (breaks.of_forall (by decide)) ?_
  rintro after rfl
  exact absurd (breaks '.' rfl) (by decide)

/-- Digits on both sides of a point are a number. -/
theorem point {whole fraction : List Char} (digits : ∀ c ∈ whole, c.isDigit = true)
    (some : whole ≠ []) (places : ∀ c ∈ fraction, c.isDigit = true) (filled : fraction ≠ []) :
    Writes (whole ++ '.' :: fraction) [.number (whole ++ '.' :: fraction)] := by
  obtain ⟨c, more, rfl⟩ := List.exists_cons_of_ne_nil some
  refine number (fun d member => ?_) (by simp) fun breaks => ?_
  · cases member
    exact digits c List.mem_cons_self
  · exact numberLength_point digits places filled (breaks.of_forall (by decide))

/-- A minus sign is one before a digit. -/
theorem minus {c : Char} {more : List Char} (digit : c.isDigit = true)
    (writes : Writes (c :: more) spelt) : Writes ('-' :: c :: more) (.sign .minus :: spelt) where
  starts := ⟨_, _, rfl, by decide⟩
  cut {rest symbols} breaks later _ := by
    have apart : c ≠ '-' := by
      rintro rfl
      exact absurd digit (by decide)
    refine cuts_sign ?_ (by decide) (writes.cut breaks later _)
    simp [measure, Text.isAsciiBlank, apostrophe, backquote, isWordStart, signKind?,
      measureOperator, apart]

end Writes

end Concordance.Query
