import Concordance.Proofs.Query.Acceptance
import Concordance.Proofs.Query.Nesting

namespace Concordance.Query

namespace Lexer

/-- The limit on the bytes of a text is kept from where the lexer stands. -/
def Fits (lexer : Lexer) : Prop :=
  lexer.limit = 0 ∨ lexer.offset + Utf8.width lexer.rest ≤ lexer.limit

/-- The lexer without a limit. -/
def unlimited (lexer : Lexer) : Lexer := { lexer with limit := 0 }

theorem scan_start (lexer : Lexer) : lexer.scan.start = lexer.offset := by
  unfold scan
  split <;> rfl

/-- What a token takes from the rest is behind the lexer afterwards. -/
theorem width_next (lexer : Lexer) :
    lexer.next.2.offset + Utf8.width lexer.next.2.rest =
      lexer.offset + Utf8.width lexer.rest := by
  have whole := congrArg Utf8.width (scan_lexeme lexer)
  rw [Utf8.width_append] at whole
  show lexer.scan.start + Utf8.width lexer.scan.lexeme +
    Utf8.width (lexer.rest.drop lexer.scan.lexeme.length) = _
  rw [scan_start]
  omega

theorem stop_scan_le (lexer : Lexer) :
    lexer.scan.stop ≤ lexer.offset + Utf8.width lexer.rest := by
  have after := width_next lexer
  have stop : lexer.next.2.offset = lexer.scan.stop := rfl
  omega

/-- Where the limit is kept it changes no token. -/
theorem next_unlimited {lexer : Lexer} (fits : lexer.Fits) :
    lexer.unlimited.next = (lexer.next.1, lexer.next.2.unlimited) := by
  have short := stop_scan_le lexer
  have kind : limitKind lexer.limit lexer.scan = lexer.scan.kind := by
    unfold limitKind
    rw [if_neg (by unfold Fits at fits; omega)]
  have free : limitKind 0 lexer.scan = lexer.scan.kind := by
    unfold limitKind
    rw [if_neg (by omega)]
  have same : lexer.unlimited.scan = lexer.scan := rfl
  have zero : lexer.unlimited.limit = 0 := rfl
  simp only [next, same, zero, kind, free]
  rfl

theorem Fits.next {lexer : Lexer} (fits : lexer.Fits) : lexer.next.2.Fits := by
  unfold Fits at fits ⊢
  rw [width_next]
  exact fits

/-- A text within the limit is cut as it is without one. -/
theorem tokensFrom_unlimited (fuel : Nat) {lexer : Lexer} (fits : lexer.Fits) :
    tokensFrom fuel lexer = tokensFrom fuel lexer.unlimited := by
  induction fuel generalizing lexer with
  | zero => rfl
  | succ fuel ih =>
      rw [tokensFrom_succ, tokensFrom_succ, next_unlimited fits, ih fits.next]

/-- Beyond the limit there is an invalid token, as the end does not stay the end. -/
theorem exists_invalid {fuel : Nat} {lexer : Lexer} (limited : lexer.limit ≠ 0)
    (long : lexer.limit < lexer.offset + Utf8.width lexer.rest)
    (enough : lexer.rest.length < fuel) :
    ∃ token ∈ tokensFrom fuel lexer, token.kind = .invalid := by
  induction fuel generalizing lexer with
  | zero => omega
  | succ fuel ih =>
      rw [tokensFrom_succ]
      by_cases final : lexer.next.1.kind.isFinal = true
      · rw [if_pos final]
        refine ⟨_, List.mem_singleton_self _, ?_⟩
        by_cases nothing : lexer.rest = []
        · have stop : lexer.scan.stop = lexer.offset + Utf8.width lexer.rest := by
            simp [scan, nothing, Token.stop, Token.width, Utf8.width_nil]
          exact if_pos ⟨limited, stop ▸ long⟩
        · exact kind_next nothing final
      · rw [if_neg final]
        have fewer := length_next_of_plain final
        have longer : lexer.limit < lexer.next.2.offset + Utf8.width lexer.next.2.rest := by
          rw [width_next]
          exact long
        have later : ∃ token ∈ tokensFrom fuel lexer.next.2, token.kind = .invalid :=
          ih limited longer (by omega)
        obtain ⟨token, member, kind⟩ := later
        exact ⟨token, List.mem_cons_of_mem _ member, kind⟩

/-- A text within the limit has the same tokens as without a limit. -/
theorem significant_of_fits {text : List Char} {limit : Nat}
    (fits : limit = 0 ∨ Utf8.width text ≤ limit) : significant text limit = significant text 0 := by
  have begun : (ofText text limit).Fits := by
    unfold Fits
    simpa [ofText] using fits
  unfold significant
  rw [tokensFrom_unlimited _ begun]
  rfl

/-- A text beyond the limit has an invalid token. -/
theorem mem_significant_invalid {text : List Char} {limit : Nat} (limited : limit ≠ 0)
    (long : limit < Utf8.width text) :
    .sign .invalid ∈ (significant text limit).map Token.symbol := by
  apply mem_symbolsOf_invalid.2
  apply exists_invalid limited _ (Nat.lt_succ_self _)
  simpa [ofText] using long

end Lexer

/-- A formula may be nested so deep when that many openings are allowed at every point. -/
theorem fits_iff {limit : Nat} {phrase : QueryPhrase} : Parser.Fits limit phrase ↔
    limit = 0 ∨ Scan.start.peak phrase.spelling ≤ limit := by
  rw [phrase.peak_spelling, Nat.max_le]
  obtain ⟨words, having, count, semicolon⟩ := phrase
  unfold Parser.Fits Parser.Allows
  cases words <;> cases having <;> simp [nestingOf]
  all_goals omega

variable {text : String} {sizeLimit depthLimit : Nat}

/-- A text within the limit of bytes is read as it is without one. -/
theorem parse_of_fits (fits : sizeLimit = 0 ∨ (Utf8.bytes text).length ≤ sizeLimit) :
    parse text sizeLimit depthLimit = parse text 0 depthLimit := by
  rw [Utf8.bytes, Utf8.length_encode] at fits
  unfold parse
  rw [Lexer.significant_of_fits fits]

/-- A text that is longer than allowed is refused, whatever stands at its end. -/
theorem refused_of_long (limited : sizeLimit ≠ 0) (long : sizeLimit < (Utf8.bytes text).length) :
    ∃ fault, parse text sizeLimit depthLimit = .refused fault := by
  rw [Utf8.bytes, Utf8.length_encode] at long
  have invalid := Lexer.mem_significant_invalid limited long
  cases outcome : parse text sizeLimit depthLimit with
  | refused fault => exact ⟨fault, rfl⟩
  | empty =>
      have nothing := (Parser.run_eq_empty (Lexer.isEnded_significant _ _)).mp outcome
      rw [nothing] at invalid
      simp at invalid
  | parsed query =>
      obtain ⟨phrase, -, -, spelt, -⟩ := parse_eq_parsed.mp outcome
      rw [spelt] at invalid
      exact absurd invalid phrase.invalid_not_mem

/-- Of the queries that are read without limits those are read within a limit on the depth of which
no more is open at any point. -/
theorem parse_eq_parsed_of_depth {query : Query} : parse text 0 depthLimit = .parsed query ↔
    parse text 0 0 = .parsed query ∧
      (depthLimit = 0 ∨ Scan.start.peak (symbolsOfText text) ≤ depthLimit) := by
  have whole (phrase : QueryPhrase)
      (spelt : (Lexer.significant text.toList 0).map Token.symbol = phrase.spelling) :
      symbolsOfText text = phrase.spelling := by
    obtain same | ⟨early, -⟩ := significant_cases text
    · exact same.symm.trans spelt
    · exact absurd (spelt ▸ early) phrase.invalid_not_mem
  rw [parse_eq_parsed, parse_eq_parsed]
  constructor
  · rintro ⟨phrase, asks, fits, spelt, means⟩
    rw [whole phrase spelt]
    exact ⟨⟨phrase, asks, fits_iff.mpr (.inl rfl), spelt, means⟩, fits_iff.mp fits⟩
  · rintro ⟨⟨phrase, asks, -, spelt, means⟩, shallow⟩
    rw [whole phrase spelt] at shallow
    exact ⟨phrase, asks, fits_iff.mpr shallow, spelt, means⟩

/-- A query that keeps both limits is read as without them. -/
theorem parse_eq_parsed_of_within {query : Query} (parsed : parse text 0 0 = .parsed query)
    (short : (Utf8.bytes text).length ≤ sizeLimit)
    (shallow : Scan.start.peak (symbolsOfText text) ≤ depthLimit) :
    parse text sizeLimit depthLimit = .parsed query := by
  rw [parse_of_fits (.inr short), parse_eq_parsed_of_depth]
  exact ⟨parsed, .inr shallow⟩

/-- The limits of the parser only refuse, and just what they say. A text is read as a query where it
is read as that query without limits, it has no more bytes than allowed, and at no point of it more
negations and groups are open than allowed. A longer text is always refused, and for any other text
the limit on its bytes changes nothing. -/
theorem parse_of_limits (text : String) (sizeLimit depthLimit : Nat) :
    (∀ query, parse text sizeLimit depthLimit = .parsed query ↔ parse text 0 0 = .parsed query ∧
      (sizeLimit = 0 ∨ (Utf8.bytes text).length ≤ sizeLimit) ∧
      (depthLimit = 0 ∨ ∀ before, before <+: symbolsOfText text →
        depth (Scan.start.run before).opened ≤ depthLimit)) ∧
      (sizeLimit ≠ 0 → sizeLimit < (Utf8.bytes text).length →
        ∃ fault, parse text sizeLimit depthLimit = .refused fault) ∧
      (sizeLimit = 0 ∨ (Utf8.bytes text).length ≤ sizeLimit →
        parse text sizeLimit depthLimit = parse text 0 depthLimit) := by
  refine ⟨fun query => ?_, refused_of_long, parse_of_fits⟩
  rw [← Scan.peak_le_iff]
  by_cases fits : sizeLimit = 0 ∨ (Utf8.bytes text).length ≤ sizeLimit
  · rw [parse_of_fits fits, parse_eq_parsed_of_depth]
    simp only [fits, true_and]
  · rw [not_or, Nat.not_le] at fits
    obtain ⟨fault, refused⟩ : ∃ fault, parse text sizeLimit depthLimit = .refused fault :=
      refused_of_long fits.1 fits.2
    rw [refused]
    constructor
    · rintro ⟨⟩
    · rintro ⟨-, within, -⟩
      omega

/-- The brackets of aggregates and of lists and the NOT of NOT IN do not count. -/
example : Scan.start.peak (symbolsOfText "HAVING NOT (NOT sum(x) NOT IN (1, 2))") = 3 := by
  decide +kernel

end Concordance.Query
