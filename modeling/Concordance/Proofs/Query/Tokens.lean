import Concordance.Proofs.Query.Ending
import Concordance.Query.Lexer

namespace Concordance.Query

theorem isFinal_symbol (token : Token) : token.symbol.isFinal = token.kind.isFinal := by
  cases kind : token.kind <;> simp [Token.symbol, kind, TokenKind.isFinal]

namespace Lexer

/-- What is significant among tokens, as the grammar sees it. -/
def symbolsOf (tokens : List Token) : List Symbol :=
  (tokens.filter (·.kind.isSignificant)).map Token.symbol

/-- A token is cut from the text. -/
theorem scan_lexeme (lexer : Lexer) :
    lexer.scan.lexeme ++ lexer.rest.drop lexer.scan.lexeme.length = lexer.rest := by
  unfold scan
  split
  next nothing => simp [nothing]
  next c rest cons =>
    rw [cons]
    exact List.prefix_iff_eq_append.mp (List.take_prefix _ (c :: rest))

/-- A token that is not final takes something of the text. -/
theorem length_next_of_plain {lexer : Lexer} (plain : ¬lexer.next.1.kind.isFinal = true) :
    lexer.next.2.rest.length < lexer.rest.length :=
  length_next fun nothing => plain (isFinal_next nothing)

theorem tokensFrom_succ (fuel : Nat) (lexer : Lexer) : tokensFrom (fuel + 1) lexer =
    if lexer.next.1.kind.isFinal then [lexer.next.1]
    else lexer.next.1 :: tokensFrom fuel lexer.next.2 :=
  rfl

theorem allFrom_succ (fuel : Nat) (lexer : Lexer) : allFrom (fuel + 1) lexer =
    if lexer.rest.isEmpty then [lexer.next.1] else lexer.next.1 :: allFrom fuel lexer.next.2 :=
  rfl

/-- The tokens of a text come to a final one and stop there. -/
theorem isEnded_tokensFrom {fuel : Nat} {lexer : Lexer} (enough : lexer.rest.length < fuel) :
    IsEnded (symbolsOf (tokensFrom fuel lexer)) := by
  induction fuel generalizing lexer with
  | zero => omega
  | succ fuel ih =>
      rw [tokensFrom_succ]
      by_cases final : lexer.next.1.kind.isFinal = true
      · rw [if_pos final]
        simp only [symbolsOf, List.filter_cons, isSignificant_of_isFinal final, if_true,
          List.filter_nil, List.map_cons, List.map_nil]
        exact .last ((isFinal_symbol _).trans final)
      · rw [if_neg final]
        have fewer := length_next_of_plain final
        have later : IsEnded (symbolsOf (tokensFrom fuel lexer.next.2)) := ih (by omega)
        simp only [symbolsOf, List.filter_cons] at later ⊢
        split
        · exact .cons (by rw [isFinal_symbol]; simpa using final) later
        · exact later

/-- The tokens that are read end in a final one. -/
theorem isEnded_significant (query : List Char) (limit : Nat) :
    IsEnded ((significant query limit).map Token.symbol) :=
  isEnded_tokensFrom (Nat.lt_succ_self _)

/-- Invalid symbols are those of invalid tokens. -/
theorem mem_symbolsOf_invalid {tokens : List Token} :
    .sign .invalid ∈ symbolsOf tokens ↔ ∃ token ∈ tokens, token.kind = .invalid := by
  simp only [symbolsOf, List.mem_map, List.mem_filter]
  constructor
  · rintro ⟨token, ⟨member, -⟩, same⟩
    exact ⟨token, member, Token.kind_of_symbol same⟩
  · rintro ⟨token, member, kind⟩
    exact ⟨token, ⟨member, by simp [kind, TokenKind.isSignificant]⟩, by simp [Token.symbol, kind]⟩

/-- Only the end of the text is read as the end. -/
theorem kind_next {lexer : Lexer} (more : lexer.rest ≠ [])
    (final : lexer.next.1.kind.isFinal = true) : lexer.next.1.kind = .invalid := by
  obtain ⟨c, rest, cons⟩ := List.exists_cons_of_ne_nil more
  have there := (measure_spec lexer.previous c rest).2
  simp only [next, scan, cons, limitKind] at final ⊢
  split at final
  next beyond => rw [if_pos beyond]
  next within =>
    rw [if_neg within]
    generalize (measure lexer.previous c rest).1 = kind at there final ⊢
    cases kind <;> simp_all [TokenKind.isFinal]

/-- Without a limit, reading on to the end differs only after an invalid token. -/
theorem tokensFrom_cases (fuel : Nat) {lexer : Lexer} (free : lexer.limit = 0) :
    tokensFrom fuel lexer = allFrom fuel lexer ∨
      (∃ token ∈ tokensFrom fuel lexer, token.kind = .invalid) ∧
        ∃ token ∈ allFrom fuel lexer, token.kind = .invalid := by
  induction fuel generalizing lexer with
  | zero => exact .inl rfl
  | succ fuel ih =>
      rw [tokensFrom_succ, allFrom_succ]
      by_cases nothing : lexer.rest = []
      · simp [nothing, isFinal_next nothing]
      · rw [if_neg (c := lexer.rest.isEmpty = true) (by simpa using nothing)]
        by_cases final : lexer.next.1.kind.isFinal = true
        · have invalid := kind_next nothing final
          rw [if_pos final]
          exact .inr ⟨⟨_, List.mem_singleton_self _, invalid⟩, ⟨_, List.mem_cons_self, invalid⟩⟩
        · rw [if_neg final]
          have onward : lexer.next.2.limit = 0 := free
          obtain same | ⟨⟨token, early, bad⟩, ⟨other, late, wrong⟩⟩ := ih onward
          · exact .inl (by rw [same])
          · exact .inr ⟨⟨token, List.mem_cons_of_mem _ early, bad⟩,
              ⟨other, List.mem_cons_of_mem _ late, wrong⟩⟩

end Lexer

/-- The significant tokens of a text to its end, as the grammar sees them. -/
def symbolsOfText (text : String) : List Symbol := Lexer.symbolsOf (Lexer.all text.toList 0)

/-- The tokens that are read are all of them, or both have an invalid one. -/
theorem significant_cases (text : String) :
    (Lexer.significant text.toList 0).map Token.symbol = symbolsOfText text ∨
      .sign .invalid ∈ (Lexer.significant text.toList 0).map Token.symbol ∧
        .sign .invalid ∈ symbolsOfText text := by
  have free : (Lexer.ofText text.toList 0).limit = 0 := rfl
  obtain same | ⟨early, late⟩ := Lexer.tokensFrom_cases (text.toList.length + 1) free
  · exact .inl (congrArg Lexer.symbolsOf same)
  · exact .inr ⟨Lexer.mem_symbolsOf_invalid.2 early, Lexer.mem_symbolsOf_invalid.2 late⟩

end Concordance.Query
