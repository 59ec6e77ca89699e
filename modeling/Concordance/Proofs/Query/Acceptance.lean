import Concordance.Proofs.Query.Parser
import Concordance.Proofs.Query.Rules
import Concordance.Proofs.Query.Tokens

namespace Concordance.Query.Parser

variable {state rest : State}

/-- What is read as a count is spelt as one. -/
theorem phrase_of_unsigned {result : Nat} (read : unsigned state = .ok result rest) :
    ∃ phrase : LimitPhrase, phrase.count = result ∧ Reads state [.number phrase.lexeme] rest := by
  replace read := read_of_peek read
  split at read
  next fits =>
    obtain ⟨kind, whole, small⟩ := fits
    obtain ⟨rfl, reads⟩ := reads_of_step (ahead_ne_nil (by simp [kind])) read
    rw [Token.symbol_eq_number.2 ⟨kind, rfl⟩] at reads
    exact ⟨⟨state.next.lexeme, whole, small⟩, rfl, reads⟩
  next => exact (not_ok_of_failWanting read).elim

/-- The spelling of a count is read as the count. -/
theorem takes_unsigned {phrase : LimitPhrase} {after : List Symbol}
    (spelt : state.symbols = .number phrase.lexeme :: after) :
    Takes unsigned state phrase.count after := by
  obtain ⟨kind, same⟩ := Token.symbol_eq_number.1 (symbol_next_of_cons spelt)
  refine takes_of_peek ?_
  rw [if_pos ⟨kind, same ▸ phrase.whole, same ▸ phrase.fits⟩, same]
  exact takes_step _ spelt

/-- Whether words begin is told by the symbol of the next token. -/
theorem startsWords_iff {token : Token} :
    startsWords token = true ↔ QueryPhrase.startsWords token.symbol := by
  cases kind : token.kind <;>
    simp [startsWords, Token.symbol, QueryPhrase.startsWords, kind]

/-- What is read as the words of a query is spelt as words, or nothing is read. -/
theorem phrase_of_leadingWords {fuel limit : Nat} {result : Option (Formula String)}
    (read : leadingWords fuel limit state = .ok result rest) :
    ∃ words : Option (FormulaPhrase (List Char)), words.map (·.meaning wordMeaning) = result ∧
      Reads state (QueryPhrase.spellWords words) rest ∧
      ∀ phrase ∈ words, Allows limit phrase.nesting := by
  replace read := read_of_peek read
  split at read
  next =>
    obtain ⟨_, _, whole, read⟩ := ok_of_bind read
    cases read
    obtain ⟨phrase, rfl, reads, nested⟩ := phrase_of_rule phrase_of_word (.chain .or)
      (.inr (Nat.zero_le limit)) whole
    exact ⟨some phrase, rfl, reads, by simpa using nested⟩
  next =>
    obtain ⟨_, _, noted, read⟩ := ok_of_bind read
    cases read
    exact ⟨none, rfl, reads_of_wanted noted, by simp⟩

/-- What is read as the conditions of a query is spelt as conditions, or nothing is read. -/
theorem phrase_of_conditions {fuel limit : Nat} {result : Option (Formula Condition)}
    (read : conditions fuel limit state = .ok result rest) :
    ∃ having : Option (FormulaPhrase ConditionPhrase),
      having.map (·.meaning ConditionPhrase.meaning) = result ∧
      Reads state (QueryPhrase.spellHaving having) rest ∧
      ∀ phrase ∈ having, Allows limit phrase.nesting := by
  obtain ⟨found, _, key, read⟩ := ok_of_bind read
  have keyed := reads_of_keyword key
  cases found with
  | true =>
      obtain ⟨_, _, whole, read⟩ := ok_of_bind read
      cases read
      obtain ⟨phrase, rfl, reads, nested⟩ := phrase_of_rule phrase_of_condition (.chain .or)
        (.inr (Nat.zero_le limit)) whole
      exact ⟨some phrase, rfl, keyed.cons reads, by simpa using nested⟩
  | false =>
      cases read
      exact ⟨none, rfl, keyed, by simp⟩

/-- What is read as the limit of a query is spelt as a limit, or nothing is read. -/
theorem phrase_of_limitCount {result : Option Nat} (read : limitCount state = .ok result rest) :
    ∃ count : Option LimitPhrase, count.map LimitPhrase.count = result ∧
      Reads state (QueryPhrase.spellLimit count) rest := by
  obtain ⟨found, _, key, read⟩ := ok_of_bind read
  have keyed := reads_of_keyword key
  cases found with
  | true =>
      obtain ⟨_, _, number, read⟩ := ok_of_bind read
      cases read
      obtain ⟨phrase, rfl, reads⟩ := phrase_of_unsigned number
      exact ⟨some phrase, rfl, keyed.cons reads⟩
  | false =>
      cases read
      exact ⟨none, rfl, keyed⟩

/-- The spelling of words is read as them, whatever parts of a query follow. -/
theorem takes_leadingWords {fuel limit : Nat} (words : Option (FormulaPhrase (List Char)))
    {having : Option (FormulaPhrase ConditionPhrase)} {count : Option LimitPhrase}
    {semicolon : Bool} (enough : 3 * (QueryPhrase.spellWords words).length ≤ fuel)
    (fits : ∀ phrase ∈ words, Allows limit phrase.nesting)
    (spelt : state.symbols = QueryPhrase.spellWords words ++ (QueryPhrase.spellHaving having ++
      (QueryPhrase.spellLimit count ++ QueryPhrase.spellEnd semicolon))) :
    Takes (leadingWords fuel limit) state (words.map (·.meaning wordMeaning))
      (QueryPhrase.spellHaving having ++
        (QueryPhrase.spellLimit count ++ QueryPhrase.spellEnd semicolon)) := by
  refine takes_of_peek ?_
  cases words with
  | none =>
      obtain ⟨first, more, cons, apart⟩ :=
        QueryPhrase.exists_cons_of_spellHaving having count semicolon
      rw [← symbol_next_of_cons (spelt.trans cons), ← startsWords_iff] at apart
      rw [if_neg apart]
      exact (takes_wanted _).bind fun noted => takes_pure (noted.trans spelt)
  | some phrase =>
      obtain ⟨first, more, cons, starts⟩ := QueryPhrase.exists_cons_of_words phrase
      have begun := spelt
      rw [QueryPhrase.spellWords, cons, List.cons_append] at begun
      rw [← symbol_next_of_cons begun, ← startsWords_iff] at starts
      rw [if_pos starts]
      have whole : Takes (rule word limit (.chain .or) fuel 0) state _ _ :=
        takes_rule isLeafCode_word
          (completes_of_phrase isLeafCode_word _ (fun _ => takes_word) phrase (Nat.le_refl _)) enough
          (by simpa using fits phrase rfl)
          (QueryPhrase.stops_spellHaving having count semicolon) spelt
      exact Takes.bind whole takes_pure

/-- The spelling of conditions is read as them, whatever parts of a query follow. -/
theorem takes_conditions {fuel limit : Nat} (having : Option (FormulaPhrase ConditionPhrase))
    {count : Option LimitPhrase} {semicolon : Bool}
    (enough : 3 * (QueryPhrase.spellHaving having).length ≤ fuel)
    (fits : ∀ phrase ∈ having, Allows limit phrase.nesting)
    (spelt : state.symbols = QueryPhrase.spellHaving having ++
      (QueryPhrase.spellLimit count ++ QueryPhrase.spellEnd semicolon)) :
    Takes (conditions fuel limit) state (having.map (·.meaning ConditionPhrase.meaning))
      (QueryPhrase.spellLimit count ++ QueryPhrase.spellEnd semicolon) := by
  cases having with
  | none =>
      have apart : state.symbols.head? ≠ some (.word "HAVING") := by
        obtain ⟨kind, others, ended, -⟩ := QueryPhrase.exists_cons_of_spellEnd semicolon
        cases count <;> simp [spelt, QueryPhrase.spellHaving, QueryPhrase.spellLimit, ended]
      exact (takes_no_keyword apart).bind fun same => takes_pure (same.trans spelt)
  | some phrase =>
      refine (takes_keyword spelt).bind fun {left} symbols => ?_
      simp only [QueryPhrase.spellHaving, List.length_cons] at enough
      have whole : Takes (rule (condition fuel) limit (.chain .or) fuel 0) left _ _ :=
        takes_rule isLeafCode_condition
          (completes_of_phrase isLeafCode_condition fuel takes_condition phrase (by omega))
          (by simp only [slack]; omega) (by simpa using fits phrase rfl)
          (QueryPhrase.stops_spellLimit count semicolon) symbols
      exact Takes.bind whole takes_pure

/-- The spelling of a limit is read as it, in front of the end. -/
theorem takes_limitCount {count : Option LimitPhrase} {semicolon : Bool}
    (spelt : state.symbols = QueryPhrase.spellLimit count ++ QueryPhrase.spellEnd semicolon) :
    Takes limitCount state (count.map LimitPhrase.count) (QueryPhrase.spellEnd semicolon) := by
  cases count with
  | none =>
      obtain ⟨kind, others, ended, -⟩ := QueryPhrase.exists_cons_of_spellEnd semicolon
      have apart : state.symbols.head? ≠ some (.word "LIMIT") := by
        simp [spelt, QueryPhrase.spellLimit, ended]
      exact (takes_no_keyword apart).bind fun same => takes_pure (same.trans spelt)
  | some phrase =>
      refine (takes_keyword spelt).bind fun symbols => ?_
      exact (takes_unsigned symbols).bind takes_pure

/-- The end of a query is read with a semicolon and without. -/
theorem takes_ending {semicolon : Bool} (spelt : state.symbols = QueryPhrase.spellEnd semicolon) :
    Takes ending state () [] := by
  refine takes_of_peek ?_
  cases semicolon with
  | true =>
      rw [if_pos (Token.kind_of_symbol (symbol_next_of_cons spelt))]
      refine (takes_advance spelt).bind fun symbols => ?_
      exact (takes_expect symbols (Token.kind_of_symbol (symbol_next_of_cons symbols))).bind
        takes_pure
  | false =>
      have kind := Token.kind_of_symbol (symbol_next_of_cons spelt)
      rw [if_neg (by simp [kind])]
      refine (takes_wanted _).bind fun symbols => ?_
      rw [spelt] at symbols
      exact (takes_expect symbols (Token.kind_of_symbol (symbol_next_of_cons symbols))).bind
        takes_pure

/-- No formula of the query is nested deeper than the limit. -/
def Fits (limit : Nat) (phrase : QueryPhrase) : Prop :=
  (∀ words ∈ phrase.words, Allows limit words.nesting) ∧
    ∀ conditions ∈ phrase.having, Allows limit conditions.nesting

/-- Every spelling of a query that asks for something is read. -/
theorem takes_query {fuel limit : Nat} {phrase : QueryPhrase} (asks : phrase.Asks)
    (enough : 3 * phrase.spelling.length ≤ fuel) (fits : Fits limit phrase)
    (spelt : state.symbols = phrase.spelling) :
    Takes (query fuel limit) state phrase.meaning [] := by
  obtain ⟨words, having, count, semicolon⟩ := phrase
  simp only [QueryPhrase.spelling, List.length_append] at enough
  refine (takes_leadingWords words (by omega) fits.1 spelt).bind fun symbols => ?_
  refine (takes_conditions having (by omega) fits.2 symbols).bind fun symbols => ?_
  have asked : ¬((words.map (·.meaning wordMeaning)).isNone ∧
      (having.map (·.meaning ConditionPhrase.meaning)).isNone) := by
    rintro ⟨noWords, noConditions⟩
    simp_all [QueryPhrase.Asks]
  rw [if_neg asked]
  refine (takes_limitCount symbols).bind fun symbols => ?_
  exact (takes_ending symbols).bind takes_pure

/-- What was read left the end of the query ahead. -/
theorem isEnded_of_reads {spelt : List Symbol} (reads : Reads state spelt rest)
    (continues : Continues spelt) (ended : IsEnded state.symbols) : IsEnded rest.symbols := by
  rw [reads] at ended
  exact ended.of_continues continues

/-- The end of a query is taken where it is ahead, and then nothing is left. -/
theorem symbols_of_end {token : Token} (ended : IsEnded state.symbols)
    (read : expect .endOfQuery state = .ok token rest) :
    state.symbols = [.sign .endOfQuery] := by
  have there : state.ahead ≠ [] := by
    intro nothing
    rw [State.symbols, nothing] at ended
    cases ended
  obtain ⟨kind, reads⟩ := reads_of_expect (fun _ => there) read
  rw [(Token.symbol_eq_sign (by simp)).2 kind] at reads
  rw [reads] at ended
  have ended : IsEnded (.sign .endOfQuery :: rest.symbols) := ended
  have nothing : rest.symbols = [] := ended.eq_nil rfl
  rw [reads, nothing]
  rfl

/-- What is read as the end is spelt as the end. -/
theorem symbols_of_ending (ended : IsEnded state.symbols) (read : ending state = .ok () rest) :
    ∃ semicolon, state.symbols = QueryPhrase.spellEnd semicolon := by
  replace read := read_of_peek read
  split at read
  next closes =>
    obtain ⟨_, _, passed, read⟩ := ok_of_bind read
    obtain ⟨_, _, taken, -⟩ := ok_of_bind read
    have closed := reads_of_advance (ahead_ne_nil (by simp [closes])) passed
    rw [(Token.symbol_eq_sign (by simp)).2 closes] at closed
    have left := symbols_of_end (isEnded_of_reads closed (by simp [TokenKind.isFinal]) ended) taken
    exact ⟨true, by rw [closed, left]; rfl⟩
  next =>
    obtain ⟨_, _, noted, read⟩ := ok_of_bind read
    obtain ⟨_, _, taken, -⟩ := ok_of_bind read
    have same := reads_of_wanted noted
    have left := symbols_of_end (isEnded_of_reads same continues_nil ended) taken
    exact ⟨false, by rw [same, left]; rfl⟩

/-- What is read as a query is the spelling of a phrase that means it. -/
theorem phrase_of_query {fuel limit : Nat} {result : Query} (ended : IsEnded state.symbols)
    (read : query fuel limit state = .ok result rest) : ∃ phrase : QueryPhrase,
      phrase.Asks ∧ Fits limit phrase ∧ state.symbols = phrase.spelling ∧
        phrase.meaning = result := by
  obtain ⟨_, _, first, read⟩ := ok_of_bind read
  obtain ⟨_, _, second, read⟩ := ok_of_bind read
  obtain ⟨words, rfl, worded, shallow⟩ := phrase_of_leadingWords first
  obtain ⟨having, rfl, conditioned, flat⟩ := phrase_of_conditions second
  split at read
  next => cases read
  next asked =>
    obtain ⟨_, _, third, read⟩ := ok_of_bind read
    obtain ⟨_, _, last, read⟩ := ok_of_bind read
    cases read
    obtain ⟨count, rfl, limited⟩ := phrase_of_limitCount third
    have later := isEnded_of_reads worded (continues_words words) ended
    have latest := isEnded_of_reads conditioned (continues_having having) later
    obtain ⟨semicolon, closed⟩ :=
      symbols_of_ending (isEnded_of_reads limited (continues_limit count) latest) last
    refine ⟨⟨words, having, count, semicolon⟩, ?_, ⟨shallow, flat⟩, ?_, rfl⟩
    · cases words <;> cases having <;> simp_all [QueryPhrase.Asks]
    · rw [worded, conditioned, limited, closed]
      rfl

variable {tokens : List Token} {limit : Nat}

/-- The first token is the end where no other symbol is ahead. -/
theorem kind_tokenAt (ended : IsEnded (tokens.map Token.symbol)) :
    (tokenAt tokens 0).kind = .endOfQuery ↔ tokens.map Token.symbol = [.sign .endOfQuery] := by
  cases tokens with
  | nil => cases ended
  | cons token tokens =>
      have same : token.symbol = .sign .endOfQuery ↔ token.kind = .endOfQuery :=
        Token.symbol_eq_sign (by simp)
      change token.kind = .endOfQuery ↔ token.symbol :: tokens.map Token.symbol = _
      rw [List.map_cons] at ended
      constructor
      · intro kind
        rw [same.2 kind] at ended ⊢
        rw [IsEnded.eq_nil rfl ended]
      · intro whole
        exact same.1 (List.cons.inj whole).1

/-- Only a text without significant tokens is empty. -/
theorem run_eq_empty (ended : IsEnded (tokens.map Token.symbol)) :
    run tokens limit = .empty ↔ tokens.map Token.symbol = [.sign .endOfQuery] := by
  rw [← kind_tokenAt ended]
  unfold run
  split
  next nothing => simp [nothing]
  next more =>
    split <;> simp [more]

/-- What is read of tokens is what their derivation means. -/
theorem run_eq_parsed {query : Query} (ended : IsEnded (tokens.map Token.symbol)) :
    run tokens limit = .parsed query ↔ ∃ phrase : QueryPhrase,
      phrase.Asks ∧ Fits limit phrase ∧ tokens.map Token.symbol = phrase.spelling ∧
        phrase.meaning = query := by
  unfold run
  constructor
  · intro parsed
    split at parsed
    next => cases parsed
    next =>
      split at parsed
      next read =>
        cases parsed
        have begun : IsEnded (State.symbols ⟨tokens, 0, 0, []⟩) := ended
        exact phrase_of_query begun read
      next => cases parsed
  · rintro ⟨phrase, asks, fits, spelt, rfl⟩
    have more : (tokenAt tokens 0).kind ≠ .endOfQuery := by
      rw [Ne, kind_tokenAt ended, spelt]
      intro nothing
      -- Only the query that asks for nothing is spelt by its end alone.
      have bare : phrase = ⟨none, none, none, false⟩ := QueryPhrase.spelling_injective nothing
      subst bare
      simp [QueryPhrase.Asks] at asks
    rw [if_neg more]
    have enough : 3 * phrase.spelling.length ≤ fuelFor tokens := by
      simp only [fuelFor, ← spelt, List.length_map]
      omega
    have begun : State.symbols ⟨tokens, 0, 0, []⟩ = phrase.spelling := spelt
    obtain ⟨rest, read, -⟩ := takes_query asks enough fits begun
    rw [read]

end Parser

/-- No derivation spells an invalid token. -/
theorem QueryPhrase.invalid_not_mem (phrase : QueryPhrase) : .sign .invalid ∉ phrase.spelling := by
  have apart : ∀ {spelt : List Symbol}, Continues spelt → .sign .invalid ∉ spelt := by
    intro spelt continues member
    cases continues _ member
  have ends : .sign .invalid ∉ spellEnd phrase.semicolon := by
    cases phrase.semicolon <;> simp [spellEnd]
  simp [spelling, apart (continues_words _), apart (continues_having _), apart (continues_limit _),
    ends]

/-- A text is read as a query where its tokens up to the first final one have a derivation. -/
theorem parse_eq_parsed {text : String} {sizeLimit depthLimit : Nat} {query : Query} :
    parse text sizeLimit depthLimit = .parsed query ↔ ∃ phrase : QueryPhrase,
      phrase.Asks ∧ Parser.Fits depthLimit phrase ∧
        (Lexer.significant text.toList sizeLimit).map Token.symbol = phrase.spelling ∧
        phrase.meaning = query :=
  Parser.run_eq_parsed (Lexer.isEnded_significant _ _)

/-- A text is read as a query where its tokens up to the end have a derivation and none of them is
invalid. -/
theorem parse_eq_parsed_iff {text : String} {query : Query} :
    parse text 0 0 = .parsed query ↔ .sign .invalid ∉ symbolsOfText text ∧
      ∃ phrase : QueryPhrase, phrase.Asks ∧ phrase.spelling = symbolsOfText text ∧
        phrase.meaning = query := by
  rw [parse_eq_parsed]
  obtain same | ⟨early, late⟩ := significant_cases text
  · rw [same]
    constructor
    · rintro ⟨phrase, asks, -, spelt, means⟩
      exact ⟨spelt ▸ phrase.invalid_not_mem, phrase, asks, spelt.symm, means⟩
    · rintro ⟨-, phrase, asks, spelt, means⟩
      exact ⟨phrase, asks, ⟨fun _ _ => .inl rfl, fun _ _ => .inl rfl⟩, spelt.symm, means⟩
  · constructor
    · rintro ⟨phrase, -, -, spelt, -⟩
      exact absurd (spelt ▸ early) phrase.invalid_not_mem
    · rintro ⟨valid, -⟩
      exact absurd late valid

/-- A text is empty where its only token is the end. -/
theorem parse_eq_empty_iff {text : String} :
    parse text 0 0 = .empty ↔ symbolsOfText text = [.sign .endOfQuery] := by
  refine (Parser.run_eq_empty (Lexer.isEnded_significant _ _)).trans ?_
  obtain same | ⟨early, late⟩ := significant_cases text
  · rw [same]
  · constructor
    · intro nothing
      simp [nothing] at early
    · intro nothing
      simp [nothing] at late

/-- The parser accepts exactly its grammar, of the queries that ask for words or for conditions. -/
theorem parse_iff_derives (text : String) :
    (∀ query, parse text 0 0 = .parsed query ↔ .sign .invalid ∉ symbolsOfText text ∧
      ∃ phrase : QueryPhrase, phrase.Asks ∧ phrase.spelling = symbolsOfText text ∧
        phrase.meaning = query) ∧
    (parse text 0 0 = .empty ↔ symbolsOfText text = [.sign .endOfQuery]) ∧
    ((∃ fault, parse text 0 0 = .refused fault) ↔ symbolsOfText text ≠ [.sign .endOfQuery] ∧
      ¬(.sign .invalid ∉ symbolsOfText text ∧
        ∃ phrase : QueryPhrase, phrase.Asks ∧ phrase.spelling = symbolsOfText text)) ∧
    (∀ first second : QueryPhrase, first.spelling = symbolsOfText text →
      second.spelling = symbolsOfText text → first = second) ∧
    ∀ query, parse text 0 0 = .parsed query → query.IsGrouped := by
  refine ⟨fun query => parse_eq_parsed_iff, parse_eq_empty_iff, ?_, fun first second one other =>
    QueryPhrase.spelling_injective (one.trans other.symm), fun query => isGrouped_of_parse⟩
  constructor
  · rintro ⟨fault, refused⟩
    refine ⟨fun nothing => ?_, fun derives => ?_⟩
    · simp [parse_eq_empty_iff.2 nothing] at refused
    · obtain ⟨valid, phrase, asks, spelt⟩ := derives
      simp [parse_eq_parsed_iff.2 ⟨valid, phrase, asks, spelt, rfl⟩] at refused
  · rintro ⟨more, underived⟩
    cases outcome : parse text 0 0 with
    | empty => exact absurd (parse_eq_empty_iff.1 outcome) more
    | refused fault => exact ⟨fault, rfl⟩
    | parsed query =>
        obtain ⟨valid, phrase, asks, spelt, -⟩ := parse_eq_parsed_iff.1 outcome
        exact absurd ⟨valid, phrase, asks, spelt⟩ underived

/-- A limit alone has a derivation and is refused, as it asks for nothing. -/
theorem limit_alone_refused : ¬∀ (text : String) (query : Query), parse text 0 0 = .parsed query ↔
    .sign .invalid ∉ symbolsOfText text ∧ ∃ phrase : QueryPhrase,
      phrase.spelling = symbolsOfText text ∧ phrase.meaning = query := by
  intro all
  have derived := (all "LIMIT 5" ⟨none, none, some 5⟩).2
    ⟨by decide +kernel, ⟨none, none, some ⟨['5'], by decide, by decide⟩, false⟩, by decide +kernel,
      rfl⟩
  have refused : parse "LIMIT 5" 0 0 ≠ .parsed ⟨none, none, some 5⟩ := by decide +kernel
  exact refused derived

end Concordance.Query
