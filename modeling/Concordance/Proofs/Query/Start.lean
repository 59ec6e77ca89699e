import Concordance.Proofs.Query.Acceptance
import Mathlib.Data.List.TakeWhile

namespace Concordance.Query

/-- What a text begins with, told by the kind of its first token. -/
def Begins (kind : TokenKind) (text : List Char) : Prop :=
  match kind with
  | .blank => ∃ c ∈ text.head?, Text.isAsciiBlank c = true
  | .stringLiteral => [apostrophe] <+: text
  | .openRound => ['('] <+: text
  | .comment => ['-', '-'] <+: text ∨ ['/', '*'] <+: text
  | _ => True

theorem begins_measureQuoted {kind : TokenKind} {mark : Char} {rest text : List Char}
    (begins : Begins kind text) : Begins (measureQuoted kind mark rest).1 text := by
  unfold measureQuoted
  split
  next => exact begins
  next => exact True.intro

theorem begins_signKind {c : Char} {rest : List Char} {kind : TokenKind}
    (found : signKind? c = some kind) : Begins kind (c :: rest) := by
  unfold signKind? at found
  split at found <;> cases found <;> simp [Begins]

theorem begins_measureOperator (c : Char) (rest : List Char) :
    Begins ((measureOperator c rest).getD (.invalid, 1)).1 (c :: rest) := by
  unfold measureOperator
  split <;> try exact True.intro
  · simp [Begins]
  · split
    · simp [Begins]
    · exact True.intro

/-- The kind of a token tells which characters it can begin with. -/
theorem begins_measure (previous : Option TokenKind) (c : Char) (rest : List Char) :
    Begins (measure previous c rest).1 (c :: rest) := by
  unfold measure
  split_ifs with blank digit literal identifier word dot
  · simp [Begins, blank]
  · exact True.intro
  · rw [literal]
    apply begins_measureQuoted
    simp [Begins]
  · exact begins_measureQuoted True.intro
  · exact True.intro
  · exact True.intro
  · exact True.intro
  · split
    next kind found => exact begins_signKind found
    next => exact begins_measureOperator c rest

namespace Lexer

/-- The next token begins with characters of its kind. -/
theorem begins_scan (lexer : Lexer) : Begins lexer.scan.kind lexer.rest := by
  unfold scan
  split
  next => exact True.intro
  next c rest cons =>
    rw [cons]
    exact begins_measure lexer.previous c rest

/-- The limit on the bytes makes tokens invalid and leaves the others as they are. -/
theorem kind_scan {lexer : Lexer} {kind : TokenKind} (same : lexer.next.1.kind = kind)
    (valid : kind ≠ .invalid) : lexer.scan.kind = kind := by
  have limited : limitKind lexer.limit lexer.scan = kind := same
  unfold limitKind at limited
  split at limited
  next => exact absurd limited.symm valid
  next => exact limited

/-- A comment up to the end of the line is all of a text without blanks. -/
theorem rest_next_of_dashes {lexer : Lexer} (dashes : ['-', '-'] <+: lexer.rest)
    (unbroken : ∀ c ∈ lexer.rest, Text.isBlank c = false) : lexer.next.2.rest = [] := by
  obtain ⟨more, cons⟩ := dashes
  have line : ('-' :: more).takeWhile (· != '\n') = '-' :: more := by
    rw [List.takeWhile_eq_self_iff]
    intro c member
    rw [bne_iff_ne]
    rintro rfl
    have blank := unbroken '\n' (by rw [← cons]; exact List.mem_cons_of_mem _ member)
    exact absurd blank (by decide)
  have measured : measure lexer.previous '-' ('-' :: more) =
      (.comment, 1 + (('-' :: more).takeWhile (· != '\n')).length) := rfl
  rw [line] at measured
  have taken : lexer.scan.lexeme = '-' :: '-' :: more := by
    unfold scan
    rw [← cons]
    show ('-' :: '-' :: more).take (measure lexer.previous '-' ('-' :: more)).2 = _
    rw [measured]
    apply List.take_of_length_le
    simp only [List.length_cons]
    omega
  show lexer.rest.drop lexer.scan.lexeme.length = []
  rw [taken, ← cons]
  exact List.drop_length

/-- Behind such a comment there is nothing that could start a query. -/
theorem symbolsOf_of_dashes {lexer : Lexer} (dashes : ['-', '-'] <+: lexer.rest)
    (unbroken : ∀ c ∈ lexer.rest, Text.isBlank c = false)
    (comment : lexer.next.1.kind = .comment) (fuel : Nat) :
    ∃ last, symbolsOf (lexer.next.1 :: tokensFrom (fuel + 1) lexer.next.2) = [last] ∧
      last.isFinal = true := by
  have final := isFinal_next (rest_next_of_dashes dashes unbroken)
  have shown := isSignificant_of_isFinal final
  have hidden : lexer.next.1.kind.isSignificant = false := by
    rw [comment]
    rfl
  refine ⟨lexer.next.2.next.1.symbol, ?_, (isFinal_symbol _).trans final⟩
  rw [tokensFrom_succ, if_pos final]
  simp only [symbolsOf, List.filter_cons, hidden, shown, Bool.false_eq_true, if_false, if_true,
    List.filter_nil, List.map_cons, List.map_nil]

end Lexer

/-- The first symbol of a query that asks for something. -/
def Symbol.startsQuery (symbol : Symbol) : Prop :=
  QueryPhrase.startsWords symbol ∨ symbol = .word "HAVING"

/-- A query that asks for something has a first symbol that starts a query. -/
theorem QueryPhrase.exists_cons_of_asks {phrase : QueryPhrase} (asks : phrase.Asks) :
    ∃ first more, phrase.spelling = first :: more ∧ first.startsQuery := by
  obtain ⟨words, having, limit, semicolon⟩ := phrase
  cases words with
  | some words =>
      obtain ⟨first, more, spelt, starts⟩ := exists_cons_of_words words
      rw [QueryPhrase.spelling, spellWords, spelt, List.cons_append]
      exact ⟨first, _, rfl, .inl starts⟩
  | none =>
      cases having with
      | some having => exact ⟨.word "HAVING", _, rfl, .inr rfl⟩
      | none => simp [QueryPhrase.Asks] at asks

theorem Symbol.startsQuery.isFinal {symbol : Symbol} (starts : symbol.startsQuery) :
    symbol.isFinal = false := by
  unfold Symbol.startsQuery QueryPhrase.startsWords at starts
  split at starts
  next => rfl
  next =>
    rcases starts with (rfl | rfl) | rfl
    · rfl
    · rfl
    · rfl

/-- A text that begins with such a symbol has its first character or its keyword at the front. -/
theorem begins_of_startsQuery {lexer : Lexer} (starts : lexer.next.1.symbol.startsQuery) :
    [apostrophe] <+: lexer.rest ∨ ['('] <+: lexer.rest ∨ "NOT".toList <+: lexer.rest ∨
      "HAVING".toList <+: lexer.rest := by
  have begins := lexer.begins_scan
  have word {text : String} (same : lexer.next.1.symbol = .word text) :
      text.toList <+: lexer.rest := by
    obtain ⟨-, rfl⟩ := Token.symbol_eq_word.mp same
    exact ⟨_, (congrArg (· ++ _) String.toList_ofList).trans lexer.scan_lexeme⟩
  cases symbol : lexer.next.1.symbol with
  | literal lexeme =>
      have kind := Lexer.kind_scan (Token.symbol_eq_literal.mp symbol).1 (by decide)
      rw [kind] at begins
      exact .inl begins
  | sign kind =>
      have opens : kind = .openRound := by
        rw [symbol] at starts
        simpa [Symbol.startsQuery, QueryPhrase.startsWords] using starts
      have kind := Lexer.kind_scan ((Token.kind_of_symbol symbol).trans opens) (by decide)
      rw [kind] at begins
      exact .inr (.inl begins)
  | word text =>
      have keyword : text = "NOT" ∨ text = "HAVING" := by
        rw [symbol] at starts
        simpa [Symbol.startsQuery, QueryPhrase.startsWords] using starts
      rcases keyword with rfl | rfl
      · exact .inr (.inr (.inl (word symbol)))
      · exact .inr (.inr (.inr (word symbol)))
  | number lexeme =>
      rw [symbol] at starts
      simp [Symbol.startsQuery, QueryPhrase.startsWords] at starts
  | quoted lexeme =>
      rw [symbol] at starts
      simp [Symbol.startsQuery, QueryPhrase.startsWords] at starts

/-- A query without blanks begins with its first word, with a bracket, with a keyword or with a
comment. -/
theorem begins_of_parse {text : List Char} {sizeLimit depthLimit : Nat} {query : Query}
    (parsed : parse (String.ofList text) sizeLimit depthLimit = .parsed query)
    (unbroken : ∀ c ∈ text, Text.isBlank c = false) :
    ([apostrophe] <+: text ∨ ['('] <+: text ∨ "NOT".toList <+: text ∨
      "HAVING".toList <+: text) ∨ ['/', '*'] <+: text := by
  obtain ⟨phrase, asks, -, spelt, -⟩ := parse_eq_parsed.mp parsed
  obtain ⟨first, more, begun, starts⟩ := QueryPhrase.exists_cons_of_asks asks
  rw [begun, String.toList_ofList] at spelt
  let lexer := Lexer.ofText text sizeLimit
  have whole : Lexer.symbolsOf (Lexer.tokensFrom (text.length + 1) lexer) = first :: more := spelt
  rw [Lexer.tokensFrom_succ] at whole
  by_cases significant : lexer.next.1.kind.isSignificant = true
  · have same : lexer.next.1.symbol = first := by
      split at whole <;>
        simp only [Lexer.symbolsOf, List.filter_cons, significant, if_true, List.map_cons] at whole <;>
        exact (List.cons.inj whole).1
    exact .inl (begins_of_startsQuery (same ▸ starts))
  · have plain : lexer.next.1.kind.isFinal ≠ true := mt isSignificant_of_isFinal significant
    rw [if_neg plain] at whole
    have begins := lexer.begins_scan
    have valid : lexer.next.1.kind ≠ .invalid := fun same => significant (by rw [same]; rfl)
    rw [Lexer.kind_scan rfl valid] at begins
    cases kind : lexer.next.1.kind <;> rw [kind] at significant begins <;>
      try exact absurd rfl significant
    case blank =>
      obtain ⟨c, head, blank⟩ := begins
      have clear := unbroken c (List.mem_of_mem_head? head)
      rw [Text.isBlank_of_isAsciiBlank c blank] at clear
      cases clear
    case comment =>
      rcases begins with dashes | star
      · obtain ⟨fuel, long⟩ : ∃ fuel, text.length = fuel + 1 := by
          obtain ⟨tail, cons⟩ := dashes
          have same : text = '-' :: '-' :: tail := cons.symm
          exact ⟨tail.length + 1, by rw [same]; rfl⟩
        obtain ⟨last, only, final⟩ := Lexer.symbolsOf_of_dashes dashes unbroken kind fuel
        rw [long, only] at whole
        rw [(List.cons.inj whole).1, starts.isFinal] at final
        cases final
      · exact .inr star

end Concordance.Query
