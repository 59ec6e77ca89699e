import Concordance.Proofs.Query.Descent

namespace Concordance.Query.Parser

variable {α β : Type} {state rest : State}

/-- What is read as a word is spelt as one. -/
theorem phrase_of_word {result : String} (read : word state = .ok result rest) :
    ∃ lexeme, wordMeaning lexeme = result ∧ Reads state (wordSpelling lexeme) rest := by
  obtain ⟨token, _, taken, read⟩ := ok_of_bind read
  cases read
  obtain ⟨kind, reads⟩ := reads_of_expect (by simp) taken
  rw [Token.symbol_eq_literal.2 ⟨kind, rfl⟩] at reads
  exact ⟨token.lexeme, rfl, reads⟩

/-- The spelling of a word is read as the word. -/
theorem takes_word {lexeme : List Char} {after : List Symbol}
    (spelt : state.symbols = wordSpelling lexeme ++ after) :
    Takes word state (wordMeaning lexeme) after := by
  obtain ⟨kind, rfl⟩ := Token.symbol_eq_literal.1 (symbol_next_of_cons spelt)
  exact (takes_expect spelt kind).bind takes_pure

/-- A bare word or a quoted identifier names a segment wherever it stands. -/
theorem segmentOf_identifier {token : Token} {identifier : Identifier} (isFirst : Bool)
    (same : token.symbol = identifier.symbol) :
    segmentOf isFirst token = some identifier.name := by
  cases identifier with
  | bare text free =>
      obtain ⟨kind, rfl⟩ := Token.symbol_eq_word.1 same
      simp [segmentOf, kind, free, Identifier.name]
  | quoted lexeme =>
      obtain ⟨kind, rfl⟩ := Token.symbol_eq_quoted.1 same
      simp [segmentOf, kind, Identifier.name]

theorem segmentOf_segment {token : Token} {segment : Segment}
    (same : token.symbol = segment.symbol) : segmentOf false token = some segment.name := by
  cases segment with
  | named identifier => exact segmentOf_identifier false same
  | index lexeme whole =>
      obtain ⟨kind, rfl⟩ := Token.symbol_eq_number.1 same
      simp only [segmentOf, kind, whole, Bool.not_false, Bool.and_true, if_true]
      rfl

/-- A token that names a segment is a bare word, a quoted identifier or, after a dot, digits. -/
theorem exists_segment {isFirst : Bool} {token : Token} {name : String}
    (found : segmentOf isFirst token = some name) :
    (∃ identifier : Identifier, identifier.name = name ∧ token.symbol = identifier.symbol) ∨
      (isFirst = false ∧ ∃ segment : Segment, segment.name = name ∧
        token.symbol = segment.symbol) := by
  unfold segmentOf at found
  split at found
  next kind =>
    split at found
    next => cases found
    next free =>
      cases found
      exact .inl ⟨.bare token.text free, rfl, Token.symbol_eq_word.2 ⟨kind, rfl⟩⟩
  next kind =>
    cases found
    exact .inl ⟨.quoted token.lexeme, rfl, Token.symbol_eq_quoted.2 ⟨kind, rfl⟩⟩
  next kind =>
    split at found
    next digits =>
      cases found
      simp only [Bool.and_eq_true, Bool.not_eq_true'] at digits
      exact .inr ⟨digits.1, .index token.lexeme digits.2, rfl,
        Token.symbol_eq_number.2 ⟨kind, rfl⟩⟩
    next => cases found
  next => cases found

theorem segment_of_ok {isFirst : Bool} {result : String}
    (read : segment isFirst state = .ok result rest) :
    segmentOf isFirst state.next = some result ∧ Reads state [state.next.symbol] rest := by
  replace read := read_of_peek read
  cases found : segmentOf isFirst state.next with
  | some name =>
      rw [found] at read
      have there : state.ahead ≠ [] :=
        ahead_ne_nil fun nothing => by simp [segmentOf, nothing] at found
      obtain ⟨rfl, reads⟩ := reads_of_step there read
      exact ⟨rfl, reads⟩
  | none =>
      rw [found] at read
      exact (not_ok_of_failWanting read).elim

/-- What is read as a segment is spelt as one. -/
theorem phrase_of_segment {result : String} (read : segment false state = .ok result rest) :
    ∃ segment : Segment, segment.name = result ∧ Reads state [segment.symbol] rest := by
  obtain ⟨found, reads⟩ := segment_of_ok read
  obtain ⟨identifier, named, same⟩ | ⟨-, segment, named, same⟩ := exists_segment found
  · rw [same] at reads
    exact ⟨.named identifier, named, reads⟩
  · rw [same] at reads
    exact ⟨segment, named, reads⟩

/-- What is read as an identifier is spelt as one. -/
theorem phrase_of_identifier {result : String} (read : segment true state = .ok result rest) :
    ∃ identifier : Identifier, identifier.name = result ∧ Reads state [identifier.symbol] rest := by
  obtain ⟨found, reads⟩ := segment_of_ok read
  obtain ⟨identifier, named, same⟩ | ⟨later, -⟩ := exists_segment found
  · rw [same] at reads
    exact ⟨identifier, named, reads⟩
  · cases later

/-- A token that names a segment is read as the segment. -/
theorem takes_segment {isFirst : Bool} {name : String} {symbol : Symbol} {after : List Symbol}
    (spelt : state.symbols = symbol :: after)
    (found : segmentOf isFirst state.next = some name) :
    Takes (segment isFirst) state name after := by
  refine takes_of_peek ?_
  rw [found]
  exact takes_step name spelt

/-- Items that each follow the same sign. -/
def separated (kind : TokenKind) (item : Rule α) : Nat → Rule (List α)
  | 0 => pure []
  | fuel + 1 => do
      if (← peek).kind = kind then
        advance
        let first ← item
        let rest ← separated kind item fuel
        return first :: rest
      else return []

theorem moreSegments_eq (fuel : Nat) : moreSegments fuel = separated .dot (segment false) fuel := by
  induction fuel with
  | zero => rfl
  | succ fuel ih => rw [moreSegments, separated, ih]

theorem moreValues_eq (fuel : Nat) : moreValues fuel = separated .comma value fuel := by
  induction fuel with
  | zero => rfl
  | succ fuel ih => rw [moreValues, separated, ih]

section

variable {kind : TokenKind} {item : Rule α} {spelling : β → List Symbol} {meaning : β → α}

/-- What is read as items after separators is spelt as such. -/
theorem phrases_of_separated
    (plain : kind ∉ [.bareWord, .number, .stringLiteral, .quotedIdentifier, .endOfQuery])
    (each : ∀ {state result rest}, item state = .ok result rest →
      ∃ phrase, meaning phrase = result ∧ Reads state (spelling phrase) rest)
    {fuel : Nat} {state rest : State} {results : List α}
    (read : separated kind item fuel state = .ok results rest) :
    ∃ phrases : List β, phrases.map meaning = results ∧
      Reads state (phrases.flatMap fun phrase => .sign kind :: spelling phrase) rest := by
  induction fuel generalizing state rest results with
  | zero =>
      cases read
      exact ⟨[], rfl, rfl⟩
  | succ fuel ih =>
      replace read := read_of_peek read
      split at read
      next follows =>
        obtain ⟨_, _, passed, read⟩ := ok_of_bind read
        obtain ⟨_, _, head, read⟩ := ok_of_bind read
        obtain ⟨_, _, tail, read⟩ := ok_of_bind read
        cases read
        obtain ⟨first, rfl, heads⟩ := each head
        obtain ⟨others, rfl, tails⟩ := ih tail
        have signs := reads_of_advance (ahead_ne_nil (by simp_all)) passed
        rw [(Token.symbol_eq_sign (by simp_all)).2 follows] at signs
        exact ⟨first :: others, rfl, signs.cons (heads.trans tails)⟩
      next =>
        cases read
        exact ⟨[], rfl, rfl⟩

/-- Items after separators are read one after another, up to where no separator follows. -/
theorem takes_separated
    (plain : kind ∉ [.bareWord, .number, .stringLiteral, .quotedIdentifier, .endOfQuery])
    (each : ∀ {phrase : β} {state : State} {after : List Symbol},
      state.symbols = spelling phrase ++ after → Takes item state (meaning phrase) after)
    {fuel : Nat} {state : State} {phrases : List β} {after : List Symbol}
    (enough : phrases.length ≤ fuel) (ends : after.head? ≠ some (.sign kind))
    (spelt : state.symbols =
      (phrases.flatMap fun phrase => .sign kind :: spelling phrase) ++ after) :
    Takes (separated kind item fuel) state (phrases.map meaning) after := by
  induction phrases generalizing state fuel with
  | nil =>
      cases fuel with
      | zero => exact takes_pure spelt
      | succ fuel =>
          refine takes_of_peek ?_
          rw [if_neg (mt (next_isSign plain).1 (by rwa [spelt]))]
          exact takes_pure spelt
  | cons phrase phrases ih =>
      cases fuel with
      | zero => simp at enough
      | succ fuel =>
          simp only [List.flatMap_cons, List.cons_append, List.append_assoc] at spelt
          refine takes_of_peek ?_
          rw [if_pos ((next_isSign plain).2 (by simp [spelt]))]
          refine (takes_advance spelt).bind fun symbols => ?_
          refine (each symbols).bind fun symbols => ?_
          exact (ih (by simpa using enough) symbols).bind takes_pure

theorem length_le_separated (separator : Symbol) (spelling : β → List Symbol) (phrases : List β) :
    phrases.length ≤ (phrases.flatMap fun phrase => separator :: spelling phrase).length := by
  induction phrases with
  | nil => exact Nat.le_refl 0
  | cons phrase phrases ih =>
      simp only [List.flatMap_cons, List.length_append, List.length_cons]
      omega

end

/-- What is read as a key is spelt as one. -/
theorem phrase_of_key {fuel : Nat} {result : Key} (read : key fuel state = .ok result rest) :
    ∃ phrase : KeyPhrase, phrase.key = result ∧ Reads state phrase.spelling rest := by
  obtain ⟨_, _, looked, read⟩ := ok_of_bind read
  cases looked
  obtain ⟨_, _, head, read⟩ := ok_of_bind read
  obtain ⟨_, _, tail, read⟩ := ok_of_bind read
  rw [moreSegments_eq] at tail
  obtain ⟨first, rfl, heads⟩ := phrase_of_identifier head
  obtain ⟨segments, rfl, tails⟩ := phrases_of_separated (by simp) phrase_of_segment tail
  cases joined : Key.ofSegments (first.name :: segments.map Segment.name) with
  | ok key =>
      rw [joined] at read
      cases read
      exact ⟨⟨first, segments, _, joined⟩, rfl, heads.cons tails⟩
  | error fault =>
      rw [joined] at read
      cases read

/-- The spelling of a key is read as the key where no dot follows. -/
theorem takes_key {fuel : Nat} {phrase : KeyPhrase} {after : List Symbol}
    (enough : phrase.spelling.length ≤ fuel) (ends : after.head? ≠ some (.sign .dot))
    (spelt : state.symbols = phrase.spelling ++ after) :
    Takes (key fuel) state phrase.key after := by
  obtain ⟨first, segments, key, joined⟩ := phrase
  have few : segments.length ≤ fuel := by
    have long := length_le_separated (.sign .dot) (fun segment => [segment.symbol]) segments
    simp only [KeyPhrase.spelling, List.length_cons] at enough
    omega
  have looked : Takes get state state state.symbols := ⟨state, rfl, rfl⟩
  refine looked.bind fun symbols => ?_
  rw [spelt] at symbols
  refine (takes_segment symbols (segmentOf_identifier true (symbol_next_of_cons symbols))).bind
    fun symbols => ?_
  rw [moreSegments_eq]
  have segment {phrase : Segment} {state : State} {after : List Symbol}
      (spelt : state.symbols = [phrase.symbol] ++ after) :
      Takes (segment false) state phrase.name after :=
    takes_segment spelt (segmentOf_segment (symbol_next_of_cons spelt))
  refine (takes_separated (by simp) segment few ends symbols).bind fun symbols => ?_
  rw [joined]
  exact takes_pure symbols

theorem name_of_ofName? {name : String} {aggregate : Aggregate}
    (found : Aggregate.ofName? name = some aggregate) : name = aggregate.name := by
  grind [Aggregate.ofName?, Aggregate.name]

/-- The token after the next one. -/
def State.second (state : State) : Token :=
  match state.ahead with
  | _ :: second :: _ => second
  | [only] => only
  | [] => endToken

theorem peekSecond_eq : peekSecond state = .ok state.second state := by
  obtain ⟨ahead, index, furthest, expected⟩ := state
  rcases ahead with _ | ⟨first, _ | ⟨second, more⟩⟩ <;> rfl

/-- The aggregate that a target starts with, where a bracket follows its name. -/
def State.aggregate (state : State) : Option Aggregate :=
  if state.next.kind = .bareWord ∧ state.second.kind = .openRound then
    Aggregate.ofName? state.next.text
  else none

/-- An aggregate that is found is the next symbol, and a bracket is the one after it. -/
theorem symbols_of_aggregate {aggregate : Aggregate} (found : state.aggregate = some aggregate) :
    ∃ after, state.symbols = .word aggregate.name :: .sign .openRound :: after := by
  obtain ⟨⟨word, opens⟩, named⟩ := Option.ite_none_right_eq_some.1 found
  obtain ⟨ahead, index, furthest, expected⟩ := state
  rcases ahead with _ | ⟨first, _ | ⟨second, more⟩⟩
  · simp [State.next, endToken] at word
  · simp_all [State.next, State.second]
  · simp only [State.next, State.second, List.headD_cons] at word opens named
    simp [State.symbols, Token.symbol_eq_word.2 ⟨word, rfl⟩,
      (Token.symbol_eq_sign (by simp)).2 opens, name_of_ofName? named]

theorem aggregate_of_symbols {aggregate : Aggregate} {after : List Symbol}
    (spelt : state.symbols = .word aggregate.name :: .sign .openRound :: after) :
    state.aggregate = some aggregate := by
  obtain ⟨ahead, index, furthest, expected⟩ := state
  rcases ahead with _ | ⟨first, _ | ⟨second, more⟩⟩ <;> simp [State.symbols] at spelt
  obtain ⟨name, opens, -⟩ := spelt
  obtain ⟨word, same⟩ := Token.symbol_eq_word.1 name
  simp [State.aggregate, State.next, State.second, word, same, Token.kind_of_symbol opens,
    Aggregate.ofName?_name]

/-- What the rule of targets does once it has looked at two tokens. -/
theorem target_eq (fuel : Nat) : target fuel state =
    (match state.aggregate with
    | some aggregate => (do
        advance
        advance
        let key ← key fuel
        let _ ← expect .closeRound
        return ⟨key, some aggregate⟩ : Rule Target)
    | none => (do return ⟨← key fuel, none⟩ : Rule Target)) state :=
  (bind_of_ok rfl).trans (bind_of_ok peekSecond_eq)

theorem reads_of_symbols {symbol : Symbol} {after : List Symbol}
    (spelt : state.symbols = symbol :: after) (read : advance state = .ok () rest) :
    Reads state [symbol] rest ∧ rest.symbols = after := by
  have there : state.ahead ≠ [] := fun nothing => by simp [State.symbols, nothing] at spelt
  have reads := reads_of_advance there read
  rw [symbol_next_of_cons spelt] at reads
  have both := spelt.symm.trans reads
  exact ⟨reads, (List.cons.inj both).2.symm⟩

/-- What is read as a target is spelt as one. -/
theorem phrase_of_target {fuel : Nat} {result : Target}
    (read : target fuel state = .ok result rest) :
    ∃ phrase : TargetPhrase, phrase.meaning = result ∧ Reads state phrase.spelling rest := by
  rw [target_eq] at read
  cases found : state.aggregate with
  | some aggregate =>
      rw [found] at read
      obtain ⟨after, spelt⟩ := symbols_of_aggregate found
      obtain ⟨_, _, first, read⟩ := ok_of_bind read
      obtain ⟨_, _, second, read⟩ := ok_of_bind read
      obtain ⟨_, _, inner, read⟩ := ok_of_bind read
      obtain ⟨token, _, closed, read⟩ := ok_of_bind read
      cases read
      obtain ⟨named, left⟩ := reads_of_symbols spelt first
      obtain ⟨opened, -⟩ := reads_of_symbols left second
      obtain ⟨phrase, rfl, reads⟩ := phrase_of_key inner
      obtain ⟨closes, closing⟩ := reads_of_expect (by simp) closed
      rw [(Token.symbol_eq_sign (by simp)).2 closes] at closing
      exact ⟨⟨some aggregate, phrase⟩, rfl, named.cons (opened.cons (reads.trans closing))⟩
  | none =>
      rw [found] at read
      obtain ⟨_, _, inner, read⟩ := ok_of_bind read
      cases read
      obtain ⟨phrase, rfl, reads⟩ := phrase_of_key inner
      exact ⟨⟨none, phrase⟩, rfl, reads⟩

/-- A target is read where no test of its own name can be meant: neither a dot nor a bracket
follows. -/
theorem takes_target {fuel : Nat} {phrase : TargetPhrase} {after : List Symbol}
    (enough : phrase.spelling.length ≤ fuel) (noDot : after.head? ≠ some (.sign .dot))
    (noBracket : after.head? ≠ some (.sign .openRound))
    (spelt : state.symbols = phrase.spelling ++ after) :
    Takes (target fuel) state phrase.meaning after := by
  obtain ⟨aggregate, key⟩ := phrase
  unfold Takes
  rw [target_eq]
  cases aggregate with
  | some aggregate =>
      simp only [TargetPhrase.spelling, List.cons_append, List.append_assoc] at spelt
      rw [aggregate_of_symbols spelt]
      simp only [TargetPhrase.spelling, List.length_cons, List.length_append] at enough
      refine (takes_advance spelt).bind fun symbols => ?_
      refine (takes_advance symbols).bind fun symbols => ?_
      refine (takes_key (by omega) (by simp) symbols).bind fun symbols => ?_
      exact (takes_expect symbols ((next_isSign (by simp)).2 (by simp [symbols]))).bind takes_pure
  | none =>
      have missing : state.aggregate = none := by
        cases found : state.aggregate with
        | none => rfl
        | some aggregate =>
            obtain ⟨others, named⟩ := symbols_of_aggregate found
            exact absurd (spelt.symm.trans named) (key.spelling_ne_aggregate noBracket _ _)
      rw [missing]
      exact (takes_key enough noDot spelt).bind takes_pure

theorem comparisonOf_eq_some {kind : TokenKind} {comparison : Comparison} :
    comparisonOf kind = some comparison ↔ kind = comparison.kind := by
  cases kind <;> cases comparison <;> simp [comparisonOf, Comparison.kind]

/-- The sign of a comparison is no token with a text of its own. -/
theorem kind_isSign (comparison : Comparison) : comparison.kind ∉
    [.bareWord, .number, .stringLiteral, .quotedIdentifier, .endOfQuery] := by
  cases comparison <;> decide

/-- What is read as a comparison is spelt as one. -/
theorem reads_of_comparison {result : Comparison} (read : comparison state = .ok result rest) :
    Reads state [.sign result.kind] rest := by
  replace read := read_of_peek read
  cases found : comparisonOf state.next.kind with
  | some value =>
      rw [found] at read
      rw [comparisonOf_eq_some] at found
      have plain := kind_isSign value
      obtain ⟨rfl, reads⟩ := reads_of_step (ahead_ne_nil (by simp_all)) read
      rwa [(Token.symbol_eq_sign (by simp_all)).2 found] at reads
  | none =>
      rw [found] at read
      exact (not_ok_of_failWanting read).elim

/-- The sign of a comparison is read as the comparison. -/
theorem takes_comparison {result : Comparison} {after : List Symbol}
    (spelt : state.symbols = .sign result.kind :: after) :
    Takes comparison state result after := by
  refine takes_of_peek ?_
  rw [comparisonOf_eq_some.2 (Token.kind_of_symbol (symbol_next_of_cons spelt))]
  exact takes_step _ spelt

/-- A token with a value of its own is the phrase of that value. -/
theorem phrase_of_valueOf {token : Token} {result : Value} (found : valueOf token = some result) :
    ∃ phrase : ValuePhrase, phrase.meaning = result ∧ phrase.spelling = [token.symbol] := by
  unfold valueOf at found
  split at found
  next kind =>
    cases found
    exact ⟨.number false token.lexeme, rfl, by rw [Token.symbol_eq_number.2 ⟨kind, rfl⟩]; rfl⟩
  next kind =>
    cases found
    exact ⟨.literal token.lexeme, rfl, by rw [Token.symbol_eq_literal.2 ⟨kind, rfl⟩]; rfl⟩
  next kind =>
    rw [Token.symbol_eq_word.2 ⟨kind, rfl⟩]
    split at found
    next same =>
      cases found
      exact ⟨.truth true, rfl, by rw [same]; rfl⟩
    next =>
      split at found
      next same =>
        cases found
        exact ⟨.truth false, rfl, by rw [same]; rfl⟩
      next =>
        split at found
        next same =>
          cases found
          exact ⟨.null, rfl, by rw [same]; rfl⟩
        next => cases found
  next => cases found

/-- What is read as a value is spelt as one. -/
theorem phrase_of_value {result : Value} (read : value state = .ok result rest) :
    ∃ phrase : ValuePhrase, phrase.meaning = result ∧ Reads state phrase.spelling rest := by
  replace read := read_of_peek read
  by_cases minus : state.next.kind = .minus
  · rw [if_pos minus] at read
    obtain ⟨_, _, passed, read⟩ := ok_of_bind read
    obtain ⟨token, _, taken, read⟩ := ok_of_bind read
    cases read
    have sign := reads_of_advance (ahead_ne_nil (by simp [minus])) passed
    obtain ⟨kind, reads⟩ := reads_of_expect (by simp) taken
    rw [(Token.symbol_eq_sign (by simp)).2 minus] at sign
    rw [Token.symbol_eq_number.2 ⟨kind, rfl⟩] at reads
    exact ⟨.number true token.lexeme, rfl, sign.cons reads⟩
  · rw [if_neg minus] at read
    cases found : valueOf state.next with
    | some value =>
        rw [found] at read
        obtain ⟨phrase, rfl, spelt⟩ := phrase_of_valueOf found
        have there : state.ahead ≠ [] :=
          ahead_ne_nil fun nothing => by simp [valueOf, nothing] at found
        obtain ⟨rfl, reads⟩ := reads_of_step there read
        exact ⟨phrase, rfl, spelt ▸ reads⟩
    | none =>
        rw [found] at read
        exact (not_ok_of_failWanting read).elim

/-- A value of one symbol is told by its token. -/
theorem takes_value_of_token {result : Value} {symbol : Symbol} {after : List Symbol}
    (spelt : state.symbols = symbol :: after) (plain : state.next.kind ≠ .minus)
    (found : valueOf state.next = some result) : Takes value state result after := by
  refine takes_of_peek ?_
  rw [if_neg plain, found]
  exact takes_step _ spelt

/-- The spelling of a value is read as the value. -/
theorem takes_value {phrase : ValuePhrase} {after : List Symbol}
    (spelt : state.symbols = phrase.spelling ++ after) : Takes value state phrase.meaning after := by
  cases phrase with
  | number negative lexeme =>
      cases negative with
      | true =>
          refine takes_of_peek ?_
          rw [if_pos (Token.kind_of_symbol (symbol_next_of_cons spelt))]
          refine (takes_advance spelt).bind fun symbols => ?_
          obtain ⟨kind, rfl⟩ := Token.symbol_eq_number.1 (symbol_next_of_cons symbols)
          exact (takes_expect symbols kind).bind takes_pure
      | false =>
          obtain ⟨kind, rfl⟩ := Token.symbol_eq_number.1 (symbol_next_of_cons spelt)
          exact takes_value_of_token spelt (by simp [kind]) (by simp [valueOf, kind, ValuePhrase.meaning])
  | literal lexeme =>
      obtain ⟨kind, rfl⟩ := Token.symbol_eq_literal.1 (symbol_next_of_cons spelt)
      exact takes_value_of_token spelt (by simp [kind]) (by simp [valueOf, kind, ValuePhrase.meaning])
  | truth value =>
      cases value <;>
        obtain ⟨kind, same⟩ := Token.symbol_eq_word.1 (symbol_next_of_cons spelt) <;>
        exact takes_value_of_token spelt (by simp [kind])
          (by simp [valueOf, kind, same, ValuePhrase.meaning])
  | null =>
      obtain ⟨kind, same⟩ := Token.symbol_eq_word.1 (symbol_next_of_cons spelt)
      exact takes_value_of_token spelt (by simp [kind])
        (by simp [valueOf, kind, same, ValuePhrase.meaning])

/-- What is read as a list of values is spelt as one. -/
theorem phrase_of_valueList {fuel : Nat} {results : List Value}
    (read : valueList fuel state = .ok results rest) :
    ∃ (first : ValuePhrase) (others : List ValuePhrase),
      first.meaning :: others.map ValuePhrase.meaning = results ∧
      Reads state (TestPhrase.listSpelling first others) rest := by
  obtain ⟨_, _, opened, read⟩ := ok_of_bind read
  obtain ⟨_, _, head, read⟩ := ok_of_bind read
  obtain ⟨_, _, tail, read⟩ := ok_of_bind read
  obtain ⟨_, _, noted, read⟩ := ok_of_bind read
  obtain ⟨_, _, closed, read⟩ := ok_of_bind read
  cases read
  rw [moreValues_eq] at tail
  obtain ⟨opens, opening⟩ := reads_of_expect (by simp) opened
  obtain ⟨closes, closing⟩ := reads_of_expect (by simp) closed
  rw [(Token.symbol_eq_sign (by simp)).2 opens] at opening
  rw [(Token.symbol_eq_sign (by simp)).2 closes] at closing
  obtain ⟨first, rfl, heads⟩ := phrase_of_value head
  obtain ⟨others, rfl, tails⟩ := phrases_of_separated (by simp) phrase_of_value tail
  exact ⟨first, others, rfl, opening.cons ((heads.trans tails).trans
    ((reads_of_wanted noted).of_nil closing))⟩

/-- The spelling of a list of values is read as the list. -/
theorem takes_valueList {fuel : Nat} {first : ValuePhrase} {others : List ValuePhrase}
    {after : List Symbol} (enough : (TestPhrase.listSpelling first others).length ≤ fuel)
    (spelt : state.symbols = TestPhrase.listSpelling first others ++ after) :
    Takes (valueList fuel) state (first.meaning :: others.map ValuePhrase.meaning) after := by
  have few : others.length ≤ fuel := by
    have long := length_le_separated (.sign .comma) ValuePhrase.spelling others
    simp only [TestPhrase.listSpelling, List.length_cons, List.length_append] at enough
    omega
  simp only [TestPhrase.listSpelling, List.cons_append, List.append_assoc] at spelt
  refine (takes_expect spelt (Token.kind_of_symbol (symbol_next_of_cons spelt))).bind
    fun symbols => ?_
  refine (takes_value symbols).bind fun symbols => ?_
  rw [moreValues_eq]
  refine (takes_separated (by simp) takes_value few (by simp) symbols).bind fun symbols => ?_
  refine (takes_wanted _).bind fun noted => ?_
  rw [symbols] at noted
  exact (takes_expect noted (Token.kind_of_symbol (symbol_next_of_cons noted))).bind takes_pure

/-- What is read as a condition is spelt as one. -/
theorem phrase_of_condition {fuel : Nat} {result : Condition}
    (read : condition fuel state = .ok result rest) :
    ∃ phrase : ConditionPhrase, phrase.meaning = result ∧ Reads state phrase.spelling rest := by
  obtain ⟨_, _, targeted, read⟩ := ok_of_bind read
  obtain ⟨target, rfl, targets⟩ := phrase_of_target targeted
  obtain ⟨isWithin, _, key, read⟩ := ok_of_bind read
  have keyed := reads_of_keyword key
  cases isWithin with
  | true =>
      obtain ⟨_, _, list, read⟩ := ok_of_bind read
      cases read
      obtain ⟨first, others, rfl, lists⟩ := phrase_of_valueList list
      exact ⟨⟨target, .within false first others⟩, rfl, targets.trans (keyed.cons lists)⟩
  | false =>
      obtain ⟨isNegated, _, word, read⟩ := ok_of_bind read
      have worded := reads_of_keyword word
      cases isNegated with
      | true =>
          obtain ⟨isWithin, _, key, read⟩ := ok_of_bind read
          have listed := reads_of_keyword key
          cases isWithin with
          | true =>
              obtain ⟨_, _, list, read⟩ := ok_of_bind read
              cases read
              obtain ⟨first, others, rfl, lists⟩ := phrase_of_valueList list
              exact ⟨⟨target, .within true first others⟩, rfl,
                targets.trans (keyed.of_nil (worded.cons (listed.cons lists)))⟩
          | false => cases read
      | false =>
          obtain ⟨comparison, _, compared, read⟩ := ok_of_bind read
          obtain ⟨_, _, valued, read⟩ := ok_of_bind read
          cases read
          obtain ⟨value, rfl, values⟩ := phrase_of_value valued
          exact ⟨⟨target, .compare comparison value⟩, rfl, targets.trans
            (keyed.of_nil (worded.of_nil ((reads_of_comparison compared).cons values)))⟩

/-- The spelling of a condition is read as the condition. -/
theorem takes_condition {fuel : Nat} {phrase : ConditionPhrase} {after : List Symbol}
    (enough : phrase.spelling.length ≤ fuel)
    (spelt : state.symbols = phrase.spelling ++ after) :
    Takes (condition fuel) state phrase.meaning after := by
  obtain ⟨target, test⟩ := phrase
  simp only [ConditionPhrase.spelling, List.length_append] at enough
  simp only [ConditionPhrase.spelling, List.append_assoc] at spelt
  obtain ⟨head, tail, cons, noBracket, noDot⟩ := test.exists_cons_of_spelling
  refine (takes_target (by omega) (by simp [cons, noDot]) (by simp [cons, noBracket]) spelt).bind
    fun symbols => ?_
  cases test with
  | compare comparison value =>
      refine (takes_no_keyword (by simp [symbols, TestPhrase.spelling])).bind fun same => ?_
      rw [symbols] at same
      refine (takes_no_keyword (by simp [same, TestPhrase.spelling])).bind fun noted => ?_
      rw [same] at noted
      refine (takes_comparison noted).bind fun symbols => ?_
      exact (takes_value symbols).bind takes_pure
  | within negated first others =>
      cases negated with
      | true =>
          simp only [TestPhrase.spelling, List.length_cons] at enough
          refine (takes_no_keyword (by simp [symbols, TestPhrase.spelling])).bind fun same => ?_
          rw [symbols] at same
          refine (takes_keyword same).bind fun symbols => ?_
          refine (takes_keyword symbols).bind fun symbols => ?_
          exact (takes_valueList (by omega) symbols).bind takes_pure
      | false =>
          refine (takes_keyword symbols).bind fun symbols => ?_
          simp only [TestPhrase.spelling, List.length_cons] at enough
          exact (takes_valueList (by omega) symbols).bind takes_pure

end Concordance.Query.Parser
