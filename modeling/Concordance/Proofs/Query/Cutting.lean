import Concordance.Proofs.Query.Tokens
import Concordance.Query.Printer

/-! How a text that was put together is cut into tokens. -/
namespace Concordance.Query

theorem symbol_start (kind : TokenKind) (start : Nat) (lexeme : List Char) :
    Token.symbol ⟨kind, start, lexeme⟩ = Token.symbol ⟨kind, 0, lexeme⟩ := by
  cases kind <;> rfl

/-- After a token of some kind a text is cut into tokens with these symbols. -/
inductive Cuts : Option TokenKind → List Char → List Symbol → Prop where
  | done {previous : Option TokenKind} : Cuts previous [] [.sign .endOfQuery]
  | skip {previous : Option TokenKind} {kind : TokenKind} {c : Char} {more rest : List Char}
      {symbols : List Symbol} (measured : measure previous c (more ++ rest) = (kind, more.length + 1))
      (blank : kind.isSignificant = false) (later : Cuts previous rest symbols) :
      Cuts previous (c :: (more ++ rest)) symbols
  | take {previous : Option TokenKind} {kind : TokenKind} {c : Char} {more rest : List Char}
      {symbols : List Symbol} (measured : measure previous c (more ++ rest) = (kind, more.length + 1))
      (significant : kind.isSignificant = true) (valid : kind.isFinal = false)
      (later : Cuts (some kind) rest symbols) :
      Cuts previous (c :: (more ++ rest)) (Token.symbol ⟨kind, 0, c :: more⟩ :: symbols)

namespace Lexer

/-- A first token whose characters are known. -/
theorem next_of_measure {previous : Option TokenKind} {kind : TokenKind} {c : Char}
    {more rest : List Char} {offset : Nat}
    (measured : measure previous c (more ++ rest) = (kind, more.length + 1)) :
    next ⟨0, c :: (more ++ rest), offset, previous⟩ =
      (⟨kind, offset, c :: more⟩, ⟨0, rest, Token.stop ⟨kind, offset, c :: more⟩,
        if kind.isSignificant then some kind else previous⟩) := by
  simp [next, scan, measured, limitKind]

/-- A text that is cut into symbols gives these to the lexer. -/
theorem symbolsOf_tokensFrom {previous : Option TokenKind} {text : List Char}
    {symbols : List Symbol} (cut : Cuts previous text symbols) {fuel offset : Nat}
    (enough : text.length < fuel) :
    symbolsOf (tokensFrom fuel ⟨0, text, offset, previous⟩) = symbols := by
  induction cut generalizing fuel offset with
  | done =>
      cases fuel with
      | zero => omega
      | succ fuel => rfl
  | @skip _ kind _ _ _ _ measured blank later ih =>
      cases fuel with
      | zero => omega
      | succ fuel =>
          simp only [List.length_cons, List.length_append] at enough
          have plain : kind.isFinal = false := by
            cases kind <;> simp_all [TokenKind.isFinal, TokenKind.isSignificant]
          rw [tokensFrom_succ, next_of_measure measured]
          simpa [plain, symbolsOf, blank] using ih (by omega)
  | @take _ kind _ _ _ _ measured significant valid later ih =>
      cases fuel with
      | zero => omega
      | succ fuel =>
          simp only [List.length_cons, List.length_append] at enough
          rw [tokensFrom_succ, next_of_measure measured]
          simpa [valid, symbolsOf, significant, symbol_start kind offset] using ih (by omega)

end Lexer

/-- The symbols of a text that is cut from its beginning are read off it. -/
theorem significant_of_cuts {text : List Char} {symbols : List Symbol}
    (cut : Cuts none text symbols) : (Lexer.significant text 0).map Token.symbol = symbols :=
  Lexer.symbolsOf_tokensFrom cut (Nat.lt_succ_self _)

theorem takeWhile_stop {α : Type} {keeps : α → Bool} {rest : List α}
    (ends : ∀ c ∈ rest.head?, keeps c = false) : rest.takeWhile keeps = [] := by
  cases rest with
  | nil => rfl
  | cons c rest => simp [ends c rfl]

/-- A run of characters ends where another one follows. -/
theorem takeWhile_append_stop {α : Type} {keeps : α → Bool} {run rest : List α}
    (all : ∀ c ∈ run, keeps c = true) (ends : ∀ c ∈ rest.head?, keeps c = false) :
    (run ++ rest).takeWhile keeps = run := by
  rw [List.takeWhile_append_of_pos all, takeWhile_stop ends, List.append_nil]

variable {previous : Option TokenKind} {rest : List Char} {symbols : List Symbol}

/-- A sign is a token that is told by its kind alone. -/
def IsSignKind (kind : TokenKind) : Prop :=
  kind.isSignificant = true ∧ kind.isFinal = false ∧
    kind ∉ [.bareWord, .number, .stringLiteral, .quotedIdentifier]

instance (kind : TokenKind) : Decidable (IsSignKind kind) :=
  inferInstanceAs (Decidable (_ ∧ _ ∧ _))

/-- A sign of several characters is cut off as one token. -/
theorem cuts_signs {c : Char} (more : List Char) {kind : TokenKind}
    (measured : measure previous c (more ++ rest) = (kind, more.length + 1))
    (plain : IsSignKind kind) (later : Cuts (some kind) rest symbols) :
    Cuts previous (c :: (more ++ rest)) (.sign kind :: symbols) := by
  have cut := Cuts.take measured plain.1 plain.2.1 later
  rwa [(Token.symbol_eq_sign plain.2.2).2 rfl] at cut

/-- A sign of one character is cut off as a token. -/
theorem cuts_sign {c : Char} {kind : TokenKind} (measured : measure previous c rest = (kind, 1))
    (plain : IsSignKind kind) (later : Cuts (some kind) rest symbols) :
    Cuts previous (c :: rest) (.sign kind :: symbols) := cuts_signs [] measured plain later

/-- A blank is cut off before a character that is none. -/
theorem cuts_blank (ends : ∀ c ∈ rest.head?, Text.isAsciiBlank c = false)
    (later : Cuts previous rest symbols) : Cuts previous (' ' :: rest) symbols := by
  have measured : measure previous ' ' ([] ++ rest) = (.blank, ([] : List Char).length + 1) := by
    simp [measure, takeWhile_stop ends, Text.isAsciiBlank]
  exact Cuts.skip measured rfl later

/-- What no blank is tells a character from blanks. -/
theorem not_isAsciiBlank {keeps : Char → Bool} {c : Char} (holds : keeps c = true)
    (apart : [' ', '\t', '\n', '\x0c', '\r'].all (fun blank => !keeps blank) = true) :
    Text.isAsciiBlank c = false := by
  cases blank : Text.isAsciiBlank c with
  | false => rfl
  | true =>
      have member : c ∈ [' ', '\t', '\n', '\x0c', '\r'] := by
        simpa [Text.isAsciiBlank, or_assoc] using blank
      have other := List.all_eq_true.1 apart c member
      simp [holds] at other

theorem isDigit_iff {c : Char} : c.isDigit = true ↔ 48 ≤ c.toNat ∧ c.toNat ≤ 57 := by
  simp [Char.isDigit, UInt32.le_iff_toNat_le]

theorem isUpper_iff {c : Char} : c.isUpper = true ↔ 65 ≤ c.toNat ∧ c.toNat ≤ 90 := by
  have upper : c.isUpper = decide (c.val ≥ 65 ∧ c.val ≤ 90) := rfl
  simp [upper, UInt32.le_iff_toNat_le]

theorem isLower_iff {c : Char} : c.isLower = true ↔ 97 ≤ c.toNat ∧ c.toNat ≤ 122 := by
  have lower : c.isLower = (decide (c.val ≥ 97) && decide (c.val ≤ 122)) := rfl
  simp [lower, UInt32.le_iff_toNat_le]

theorem isWordStart_iff {c : Char} : isWordStart c = true ↔ (65 ≤ c.toNat ∧ c.toNat ≤ 90) ∨
    (97 ≤ c.toNat ∧ c.toNat ≤ 122) ∨ c.toNat = 95 ∨ 128 ≤ c.toNat := by
  have alpha : c.isAlpha = (c.isUpper || c.isLower) := rfl
  have under : c = '_' ↔ c.toNat = 95 := by
    constructor
    · rintro rfl
      rfl
    · exact fun same => Char.toNat_inj.1 same
  simp [isWordStart, alpha, isUpper_iff, isLower_iff, under, or_assoc]

theorem isWordStart_cases {c : Char} (starts : isWordStart c = true) :
    Text.isAsciiBlank c = false ∧ c.isDigit = false ∧ c ≠ apostrophe ∧ c ≠ backquote := by
  refine ⟨not_isAsciiBlank starts (by decide), ?_, ?_, ?_⟩
  · rw [isWordStart_iff] at starts
    rw [Bool.eq_false_iff, Ne, isDigit_iff]
    omega
  · rintro rfl
    exact absurd starts (by decide)
  · rintro rfl
    exact absurd starts (by decide)

/-- A bare word is cut off as one token where no character of a word follows. -/
theorem cuts_word {text : List Char} (bare : isBareWord text = true)
    (ends : ∀ c ∈ rest.head?, isWordChar c = false) (later : Cuts (some .bareWord) rest symbols) :
    Cuts previous (text ++ rest) (.word (String.ofList text) :: symbols) := by
  cases text with
  | nil => simp [isBareWord] at bare
  | cons c more =>
      simp only [isBareWord, Bool.and_eq_true, List.all_eq_true] at bare
      obtain ⟨starts, goes⟩ := bare
      obtain ⟨noBlank, noDigit, noQuote, noName⟩ := isWordStart_cases starts
      have measured : measure previous c (more ++ rest) = (.bareWord, more.length + 1) := by
        simp [measure, noBlank, noDigit, noQuote, noName, starts, takeWhile_append_stop goes ends,
          Nat.add_comm]
      exact Cuts.take measured rfl rfl later

/-- A number is cut off where its characters are counted so. -/
theorem cuts_number {text : List Char} (digit : ∀ c ∈ text.head?, c.isDigit = true)
    (filled : text ≠ []) (length : numberLength (text ++ rest) = text.length)
    (later : Cuts (some .number) rest symbols) :
    Cuts previous (text ++ rest) (.number text :: symbols) := by
  obtain ⟨c, more, rfl⟩ := List.exists_cons_of_ne_nil filled
  have first : c.isDigit = true := digit c rfl
  have measured : measure previous c (more ++ rest) = (.number, more.length + 1) := by
    simpa [measure, not_isAsciiBlank first (by decide), first] using length
  exact Cuts.take measured rfl rfl later

/-- Digits are a number of their own before anything but a digit, or a point and a digit. -/
theorem numberLength_digits {text : List Char} (digits : ∀ c ∈ text, c.isDigit = true)
    (ends : ∀ c ∈ rest.head?, c.isDigit = false)
    (noFraction : ∀ after, rest = '.' :: after → ∀ c ∈ after.head?, c.isDigit = false) :
    numberLength (text ++ rest) = text.length := by
  simp only [numberLength, takeWhile_append_stop digits ends, List.drop_left]
  split
  next after =>
    simp [takeWhile_stop (noFraction after rfl)]
  next => rfl

/-- Digits on both sides of a point are one number before anything but a digit. -/
theorem numberLength_point {whole fraction : List Char} (digits : ∀ c ∈ whole, c.isDigit = true)
    (places : ∀ c ∈ fraction, c.isDigit = true) (filled : fraction ≠ [])
    (ends : ∀ c ∈ rest.head?, c.isDigit = false) :
    numberLength ((whole ++ '.' :: fraction) ++ rest) = (whole ++ '.' :: fraction).length := by
  have stops : ∀ c ∈ ('.' :: (fraction ++ rest)).head?, c.isDigit = false := by simp
  rw [List.append_assoc, List.cons_append]
  simp only [numberLength, takeWhile_append_stop digits stops, List.drop_left,
    takeWhile_append_stop places ends]
  rw [if_neg (by simpa using filled)]
  simp
  omega

/-- The characters between quotation marks. -/
def escapedText (mark : Char) (text : List Char) : List Char :=
  text.flatMap fun c => if c = '\\' then ['\\', '\\'] else if c = mark then [c, c] else [c]

theorem quoteWith_eq (mark : Char) (text : List Char) :
    quoteWith mark text = mark :: (escapedText mark text ++ [mark]) := rfl

variable {mark : Char}

/-- A character that is neither the mark nor a backslash stands for itself. -/
theorem quotationLength_cons {c : Char} (slash : c ≠ '\\') (quote : c ≠ mark) (text : List Char) :
    quotationLength mark (c :: text) = (quotationLength mark text).map (· + 1) := by
  cases text <;> simp [quotationLength, slash, quote]

theorem unescape_cons {c : Char} (slash : c ≠ '\\') (quote : c ≠ mark) (text : List Char) :
    unescape mark (c :: text) = c :: unescape mark text := by
  cases text <;> simp [unescape, slash, quote]

/-- The mark that closes a quotation is the one that was written last. -/
theorem quotationLength_escaped (plain : mark ≠ '\\') (text : List Char)
    (ends : ∀ c ∈ rest.head?, c ≠ mark) :
    quotationLength mark (escapedText mark text ++ mark :: rest) =
      some ((escapedText mark text).length + 1) := by
  induction text with
  | nil => cases rest <;> simp_all [escapedText, quotationLength]
  | cons c text ih =>
      simp only [escapedText, List.flatMap_cons] at ih ⊢
      by_cases slash : c = '\\'
      · subst slash
        simp [quotationLength, ih]
      · by_cases quote : c = mark
        · subst quote
          simp [slash, quotationLength, ih]
        · simp [slash, quote, quotationLength_cons slash quote, ih]

/-- What has been escaped is found again. -/
theorem unescape_escaped (plain : mark ≠ '\\') (text : List Char) :
    unescape mark (escapedText mark text) = text := by
  induction text with
  | nil => rfl
  | cons c text ih =>
      simp only [escapedText, List.flatMap_cons] at ih ⊢
      by_cases slash : c = '\\'
      · subst slash
        simp [unescape, ih]
      · by_cases quote : c = mark
        · subst quote
          simp [slash, unescape, ih]
        · simp [slash, quote, unescape_cons slash quote, ih]

/-- What has been quoted is found again. -/
theorem unquote_quoteWith (plain : mark ≠ '\\') (text : List Char) :
    unquote (quoteWith mark text) = text := by
  rw [quoteWith_eq]
  obtain ⟨d, more, cons⟩ := List.exists_cons_of_ne_nil
    (List.append_ne_nil_of_right_ne_nil (escapedText mark text) (List.cons_ne_nil mark []))
  rw [cons, unquote, ← cons]
  simp [unescape_escaped plain]

/-- A quotation is measured up to its closing mark. -/
theorem measureQuoted_escaped (kind : TokenKind) (plain : mark ≠ '\\') (text : List Char)
    (ends : ∀ c ∈ rest.head?, c ≠ mark) :
    measureQuoted kind mark ((escapedText mark text ++ [mark]) ++ rest) =
      (kind, (escapedText mark text ++ [mark]).length + 1) := by
  simp [measureQuoted, quotationLength_escaped plain text ends]

/-- A string is cut off as one token. -/
theorem cuts_literal (text : List Char) (ends : ∀ c ∈ rest.head?, c ≠ apostrophe)
    (later : Cuts (some .stringLiteral) rest symbols) :
    Cuts previous (quoteWith apostrophe text ++ rest)
      (.literal (quoteWith apostrophe text) :: symbols) := by
  have measured : measure previous apostrophe ((escapedText apostrophe text ++ [apostrophe]) ++ rest) =
      (.stringLiteral, (escapedText apostrophe text ++ [apostrophe]).length + 1) :=
    measureQuoted_escaped .stringLiteral (by decide) text ends
  exact Cuts.take measured rfl rfl later

/-- A quoted identifier is cut off as one token. -/
theorem cuts_quoted (text : List Char) (ends : ∀ c ∈ rest.head?, c ≠ backquote)
    (later : Cuts (some .quotedIdentifier) rest symbols) :
    Cuts previous (quoteWith backquote text ++ rest)
      (.quoted (quoteWith backquote text) :: symbols) := by
  have measured : measure previous backquote ((escapedText backquote text ++ [backquote]) ++ rest) =
      (.quotedIdentifier, (escapedText backquote text ++ [backquote]).length + 1) :=
    measureQuoted_escaped .quotedIdentifier (by decide) text ends
  exact Cuts.take measured rfl rfl later

/-- A dot after a name is one before another name. -/
theorem cuts_dot {kind : TokenKind} (operand : kind.isOperand = true)
    (follows : followsDot rest = true) (later : Cuts (some .dot) rest symbols) :
    Cuts (some kind) ('.' :: rest) (.sign .dot :: symbols) := by
  refine cuts_sign ?_ (by decide) later
  simp [measure, Text.isAsciiBlank, isWordStart, apostrophe, backquote, follows, operand]

end Concordance.Query
