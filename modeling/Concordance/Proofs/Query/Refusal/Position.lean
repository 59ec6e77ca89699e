import Concordance.Proofs.Query.Refusal.Queries
import Concordance.Proofs.Query.Refusal.Respelling

namespace Concordance.Query

/-- Some query begins with tokens that look like these. -/
def BeginsQuery (tokens : List Token) : Prop :=
  ∃ text query, parse text 0 0 = .parsed query ∧
    tokens.map Token.face <+: (Lexer.significant text.toList 0).map Token.face

def Token.IsName (token : Token) : Prop := ∃ name : Identifier, token.symbol = name.symbol

/-- A name stands where another one would go on with a query. -/
def MissesName (tokens : List Token) (place : Fin tokens.length) : Prop :=
  tokens[place].IsName ∧ ∃ other : Token, other.IsName ∧ BeginsQuery (tokens.take place ++ [other])

/-- The tokens of a text that count, up to the first final one. -/
def tokensOf (text : String) : List Token := Lexer.significant text.toList 0

@[simp] theorem map_symbol_face (tokens : List Token) :
    (tokens.map Token.face).map Token.symbol = tokens.map Token.symbol := by
  simp [Function.comp_def, Token.symbol_face]

namespace BeginsQuery

variable {tokens others : List Token}

theorem of_append (begins : BeginsQuery (tokens ++ others)) : BeginsQuery tokens := by
  obtain ⟨text, query, parsed, same⟩ := begins
  rw [List.map_append] at same
  exact ⟨text, query, parsed, (List.prefix_append _ _).trans same⟩

/-- The symbols of a beginning go on to those of a query. -/
theorem exists_append (begins : BeginsQuery tokens) :
    ∃ more, tokens.map Token.symbol ++ more ∈ queryLanguage * finishLanguage := by
  obtain ⟨text, query, parsed, others, same⟩ := begins
  obtain ⟨phrase, asks, -, spelt, -⟩ := parse_eq_parsed.mp parsed
  have symbols := congrArg (List.map Token.symbol) same
  rw [List.map_append, map_symbol_face, map_symbol_face, spelt] at symbols
  exact ⟨_, mem_query_mul.mpr ⟨phrase, asks, symbols.symm⟩⟩

/-- What goes on to a query in symbols that can be written begins one. -/
theorem of_filling {text : String} (cut : tokensOf text = tokens ++ others)
    (left : others ≠ []) {tail : List Symbol}
    (member : tokens.map Token.symbol ++ tail ∈ queryLanguage) (filling : IsFilling tail)
    (named : ¬ Closed (tokens.map Token.symbol) → tail.head? = some (.word "a")) :
    ∃ more : List Token, more.map Token.symbol = tail ++ [.sign .endOfQuery] ∧
      BeginsQuery (tokens ++ more) := by
  obtain ⟨rest, spells, starts, follows⟩ := exists_filling filling
  have dotted : ∀ last ∈ tokens.getLast?, last.kind = .dot → followsDot rest = true := by
    intro last final dot
    refine follows (named fun closed => closed ?_)
    rw [List.getLast?_map, Option.mem_def.mp final]
    exact congrArg some ((Token.symbol_eq_sign (by decide)).mpr dot)
  obtain ⟨more, faces, symbols⟩ := Lexer.faces_significant
    (Lexer.respells_of_significant cut left) starts dotted spells
  obtain ⟨phrase, asks, spelt⟩ := mem_query_mul.mp (Language.append_mem_mul member rfl)
  have read := congrArg (List.map Token.symbol) faces
  rw [map_symbol_face, map_symbol_face, List.map_append, symbols, ← List.append_assoc] at read
  refine ⟨more, symbols, String.ofList (respelling tokens ++ rest), phrase.meaning,
    parse_eq_parsed.mpr ⟨phrase, asks, ⟨fun _ _ => .inl rfl, fun _ _ => .inl rfl⟩, ?_, rfl⟩, ?_⟩
  · rw [String.toList_ofList, spelt]
    exact read
  · rw [String.toList_ofList, faces]

end BeginsQuery

/-- What is blamed is one of the symbols. -/
theorem Blames.lt {symbols : List Symbol} {stuck reported : Nat}
    (blames : Blames symbols stuck reported) : reported < symbols.length := by
  cases blames with
  | @key before after first rest place cut =>
      rw [cut, List.length_append, List.length_append, length_nameSpelling]
      omega
  | @segment before after first rest place symbol cut =>
      simp only [cut, List.length_append, List.length_cons]
      omega

/-- The first name with a gap, among the symbols. -/
theorem getElem?_gap {first : Identifier} {rest : List Segment} {place : Nat}
    (gap : gapPlace first rest = some place) (after : List Symbol) : ∃ name : Segment,
      (nameSpelling first rest ++ after)[2 * place]? = some name.symbol ∧
        isDotted name.name = false := by
  obtain ⟨rfl, blank⟩ | ⟨before, name, later, rfl, rfl, -, blank⟩ := exists_gap gap
  · exact ⟨.named first, rfl, blank⟩
  · refine ⟨name, ?_, blank⟩
    rw [nameSpelling_append_cons, nameSpelling_append_dot, ← length_nameSpelling_dot first before,
      List.getElem?_append_right (Nat.le_refl _), Nat.sub_self]
    rfl

theorem Blames.exists_name {symbols : List Symbol} {stuck reported : Nat}
    (blames : Blames symbols stuck reported) : ∃ name : Segment,
      symbols[stuck]? = some name.symbol ∧ isDotted name.name = false := by
  obtain ⟨before, first, rest, place, after, cut, gap, at_gap⟩ :
      ∃ before first rest place after, symbols = before ++ (nameSpelling first rest ++ after) ∧
        gapPlace first rest = some place ∧ stuck = before.length + 2 * place := by
    cases blames with
    | key cut _ gap at_gap => exact ⟨_, _, _, _, _, cut, gap, at_gap⟩
    | segment cut _ gap at_gap => exact ⟨_, _, _, _, _, cut, gap, at_gap⟩
  obtain ⟨name, found, blank⟩ := getElem?_gap gap after
  refine ⟨name, ?_, blank⟩
  rw [cut, at_gap, List.getElem?_append_right (Nat.le_add_right _ _), Nat.add_sub_cancel_left,
    found]

/-- Digits have no gap. -/
theorem isDotted_digits {lexeme : List Char} (whole : lexeme.all Char.isDigit = true)
    (filled : lexeme ≠ []) : isDotted (String.ofList lexeme) = true := by
  have unmarked : ∀ c ∈ lexeme, (c == '.') = false := by
    intro c member
    rw [beq_eq_false_iff_ne]
    rintro rfl
    exact absurd (List.all_eq_true.mp whole '.' member) (by decide)
  simp [isDotted, Text.pieces_of_forall_not unmarked, filled]

/-- What is blamed on a token is blamed on a name that is a bare word or in quotes. -/
theorem isName_of_blames {text : String} {stuck : Fin (tokensOf text).length} {reported : Nat}
    (blames : Blames ((tokensOf text).map Token.symbol) stuck reported) :
    (tokensOf text)[stuck].IsName := by
  obtain ⟨name, found, blank⟩ := blames.exists_name
  rw [List.getElem?_map, List.getElem?_eq_getElem stuck.isLt] at found
  have symbol : (tokensOf text)[stuck].symbol = name.symbol := Option.some.inj found
  cases name with
  | named identifier => exact ⟨identifier, symbol⟩
  | index lexeme whole =>
      obtain ⟨kind, rfl⟩ := Token.symbol_eq_number.mp symbol
      have filled : (tokensOf text)[stuck].lexeme ≠ [] :=
        Lexer.lexeme_ne_nil (show (Lexer.ofText text.toList 0).limit = 0 from rfl)
          (List.getElem_mem stuck.isLt) (by rw [kind]; rfl)
      rw [Segment.name, isDotted_digits whole filled] at blank
      cases blank

/-- The symbol at fault ends the beginnings of queries, and so do names where none is missed. -/
theorem Halts.not_beginsQuery {tokens : List Token} {gap : Bool} {stuck reported : Nat}
    (halts : Halts queryLanguage finishLanguage (tokens.map Token.symbol) gap stuck reported)
    {token : Token} (alike : Alike [token.symbol] ((tokens.map Token.symbol).drop stuck))
    (same : gap = true → some token.symbol = ((tokens.map Token.symbol).drop stuck).head?) :
    ¬ BeginsQuery (tokens.take stuck ++ [token]) := by
  intro begins
  obtain ⟨more, member⟩ := begins.exists_append
  rw [List.map_append, List.append_assoc, List.map_take] at member
  exact halts.dead (token.symbol :: more) alike same member

/-- A refusal is about the first token with which the text begins no query any more. All tokens
before it begin one. Only for a name that is missed this is told by the key that it belongs to: by
its beginning, or by a dot in it that no name follows. -/
theorem position_of_refused {text : String} {fault : SyntaxFault}
    (refused : parse text 0 0 = .refused fault) :
    ∃ stuck reported : Fin (tokensOf text).length,
      fault.position = (tokensOf text)[reported].start ∧
      BeginsQuery ((tokensOf text).take stuck) ∧
      ¬ BeginsQuery ((tokensOf text).take (stuck + 1)) ∧
      (¬ MissesName (tokensOf text) stuck → reported = stuck) ∧
      (MissesName (tokensOf text) stuck →
        Blames ((tokensOf text).map Token.symbol) stuck reported) := by
  obtain ⟨gap, stuck, reported, position, halts⟩ :=
    Parser.halts_of_run (Lexer.isEnded_significant _ _) refused
  change Halts _ _ ((tokensOf text).map Token.symbol) gap stuck reported at halts
  have within : stuck < (tokensOf text).length := by simpa using halts.within
  have head : (((tokensOf text).map Token.symbol).drop stuck).head? =
      some (tokensOf text)[stuck].symbol := by
    rw [List.head?_drop, List.getElem?_map, List.getElem?_eq_getElem within]
    rfl
  obtain ⟨tail, member, filling, named⟩ := halts.viable
  rw [← List.map_take] at member named
  obtain ⟨more, symbols, begins⟩ := BeginsQuery.of_filling (List.take_append_drop stuck _).symm
    (by simpa using within) member filling fun unclosed => named (.inl unclosed)
  have dead : ¬ BeginsQuery ((tokensOf text).take (stuck + 1)) := by
    rw [List.take_succ_eq_append_getElem within]
    exact halts.not_beginsQuery (.inl head.symm) fun _ => head.symm
  have start {place : Nat} (inside : place < (tokensOf text).length) :
      (Parser.tokenAt (tokensOf text) place).start = (tokensOf text)[place].start := by
    simp [Parser.tokenAt, List.getElem?_eq_getElem inside]
  have blames := halts.blames
  cases gap with
  | true =>
      have inside : reported < (tokensOf text).length := by simpa using Blames.lt blames
      have misses : MissesName (tokensOf text) ⟨stuck, within⟩ := by
        refine ⟨isName_of_blames blames, ?_⟩
        have first : (more.map Token.symbol).head? = some (.word "a") := by
          rw [symbols, List.head?_append, named (.inr rfl)]
          rfl
        cases more with
        | nil => cases first
        | cons other more =>
            have longer : BeginsQuery (((tokensOf text).take stuck ++ [other]) ++ more) := by
              rwa [List.append_assoc]
            exact ⟨other, ⟨letter, Option.some.inj first⟩, longer.of_append⟩
      exact ⟨⟨stuck, within⟩, ⟨reported, inside⟩, position.trans (start inside), begins.of_append,
        dead, fun other => absurd misses other, fun _ => blames⟩
  | false =>
      obtain rfl : reported = stuck := blames
      refine ⟨⟨reported, within⟩, ⟨reported, within⟩, position.trans (start within),
        begins.of_append, dead, fun _ => rfl, fun misses => ?_⟩
      obtain ⟨⟨name, symbol⟩, other, ⟨identifier, same⟩, fits⟩ := misses
      refine absurd fits (halts.not_beginsQuery (.inr ⟨identifier, name, ?_, ?_⟩) fun never => ?_)
      · rw [same]
        rfl
      · rw [head]
        exact congrArg some symbol
      · cases never

/-- An empty name after a dot is told by the beginning of its key. -/
theorem position_of_refused_empty_name :
    parse "HAVING a.`` = 1" 0 0 =
      .refused (.unexpected 7 [.keyword "NOT", .token .openRound, .nonEmptyKey] false) ∧
    ∃ stuck reported : Fin (tokensOf "HAVING a.`` = 1").length,
      7 = (tokensOf "HAVING a.`` = 1")[reported].start ∧
      BeginsQuery ((tokensOf "HAVING a.`` = 1").take stuck) ∧
      ¬ BeginsQuery ((tokensOf "HAVING a.`` = 1").take (stuck + 1)) ∧
      (¬ MissesName (tokensOf "HAVING a.`` = 1") stuck → reported = stuck) ∧
      (MissesName (tokensOf "HAVING a.`` = 1") stuck →
        Blames ((tokensOf "HAVING a.`` = 1").map Token.symbol) stuck reported) := by
  have refused : parse "HAVING a.`` = 1" 0 0 =
      .refused (.unexpected 7 [.keyword "NOT", .token .openRound, .nonEmptyKey] false) := by
    decide +kernel
  exact ⟨refused, position_of_refused refused⟩

/-- The beginning of a key goes on with a query, though its name after the dot is empty. -/
theorem key_reported_at_its_beginning : ¬∀ (text : String) (fault : SyntaxFault),
    parse text 0 0 = .refused fault → ∃ place : Fin (tokensOf text).length,
      fault.position = (tokensOf text)[place].start ∧
      BeginsQuery ((tokensOf text).take place) ∧
      ¬ BeginsQuery ((tokensOf text).take (place + 1)) := by
  have refused : parse "HAVING a.`` = 1" 0 0 =
      .refused (.unexpected 7 [.keyword "NOT", .token .openRound, .nonEmptyKey] false) := by
    decide +kernel
  have key : ∀ place : Fin (tokensOf "HAVING a.`` = 1").length,
      7 = (tokensOf "HAVING a.`` = 1")[place].start →
        (tokensOf "HAVING a.`` = 1").take (place + 1) =
          [⟨.bareWord, 0, "HAVING".toList⟩, ⟨.bareWord, 7, ['a']⟩] := by decide +kernel
  have begins : BeginsQuery [⟨.bareWord, 0, "HAVING".toList⟩, ⟨.bareWord, 7, ['a']⟩] := by
    let condition : Condition :=
      ⟨⟨⟨"a", by decide⟩, none⟩, .compare .equal (.number (.ofText ['1']))⟩
    exact ⟨"HAVING a = 1", ⟨none, some (.leaf condition), none⟩, by decide +kernel,
      by decide +kernel⟩
  intro all
  obtain ⟨place, position, -, dead⟩ := all _ _ refused
  exact dead (key place position ▸ begins)

end Concordance.Query
