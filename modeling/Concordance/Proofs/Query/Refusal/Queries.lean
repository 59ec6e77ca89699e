import Concordance.Proofs.Query.Refusal.Conditions
import Concordance.Proofs.Query.Refusal.Formulas

namespace Concordance.Query

open Phrase QueryPhrase

def countLanguage : Language Symbol := spellings fun phrase : LimitPhrase => [.number phrase.lexeme]

def limitLanguage : Language Symbol := spellings spellLimit

def formulaLanguage : Language Symbol := language ConditionPhrase.spelling (.chain .or)

def havingLanguage : Language Symbol := spellings spellHaving

def wordsLanguage : Language Symbol := language wordSpelling (.chain .or)

def semicolonLanguage : Language Symbol := {[.sign .semicolon]} + 1

def finishLanguage : Language Symbol := {[.sign .endOfQuery]}

/-- What comes after the words of a query and its conditions. -/
def closingLanguage : Language Symbol := limitLanguage * semicolonLanguage

/-- What is read of a query before its end. -/
def queryLanguage : Language Symbol :=
  {[.word "HAVING"]} * (formulaLanguage * closingLanguage) +
    wordsLanguage * (havingLanguage * closingLanguage)

theorem limitLanguage_eq : limitLanguage = {[.word "LIMIT"]} * countLanguage + 1 := by
  refine Language.ext fun spelt => ⟨?_, ?_⟩
  · rintro ⟨_ | phrase, rfl⟩
    · exact .inr rfl
    · exact .inl (cons_mem_mul.mpr (mem_spellings phrase))
  · rintro (limited | rfl)
    · obtain ⟨_, ⟨phrase, rfl⟩, rfl⟩ := exists_cons_of_mem_mul limited
      exact ⟨some phrase, rfl⟩
    · exact ⟨none, rfl⟩

theorem havingLanguage_eq : havingLanguage = {[.word "HAVING"]} * formulaLanguage + 1 := by
  refine Language.ext fun spelt => ⟨?_, ?_⟩
  · rintro ⟨_ | phrase, rfl⟩
    · exact .inr rfl
    · exact .inl (cons_mem_mul.mpr (mem_spellings phrase))
  · rintro (conditioned | rfl)
    · obtain ⟨_, ⟨phrase, rfl⟩, rfl⟩ := exists_cons_of_mem_mul conditioned
      exact ⟨some phrase, rfl⟩
    · exact ⟨none, rfl⟩

theorem mem_semicolon_mul {whole : List Symbol} :
    whole ∈ semicolonLanguage * finishLanguage ↔ ∃ semicolon, spellEnd semicolon = whole := by
  constructor
  · intro member
    obtain ⟨_, rfl | rfl, _, rfl, rfl⟩ := Language.mem_mul.mp member
    · exact ⟨true, rfl⟩
    · exact ⟨false, rfl⟩
  · rintro ⟨_ | _, rfl⟩
    · exact Language.mem_mul.mpr ⟨[], .inr rfl, _, rfl, rfl⟩
    · exact Language.mem_mul.mpr ⟨_, .inl rfl, _, rfl, rfl⟩

/-- The closing of a query is a limit, if any, and the end. -/
theorem mem_closing_mul {whole : List Symbol} : whole ∈ closingLanguage * finishLanguage ↔
    ∃ limit semicolon, spellLimit limit ++ spellEnd semicolon = whole := by
  rw [closingLanguage, mul_assoc, Language.mem_mul]
  constructor
  · rintro ⟨_, ⟨limit, rfl⟩, _, ends, rfl⟩
    obtain ⟨semicolon, rfl⟩ := mem_semicolon_mul.mp ends
    exact ⟨limit, semicolon, rfl⟩
  · rintro ⟨limit, semicolon, rfl⟩
    exact ⟨_, mem_spellings limit, _, mem_semicolon_mul.mpr ⟨semicolon, rfl⟩, rfl⟩

/-- What follows the words of a query is conditions, if any, and the closing. -/
theorem mem_having_mul {whole : List Symbol} :
    whole ∈ havingLanguage * (closingLanguage * finishLanguage) ↔ ∃ having limit semicolon,
      spellHaving having ++ (spellLimit limit ++ spellEnd semicolon) = whole := by
  rw [Language.mem_mul]
  constructor
  · rintro ⟨_, ⟨having, rfl⟩, _, closes, rfl⟩
    obtain ⟨limit, semicolon, rfl⟩ := mem_closing_mul.mp closes
    exact ⟨having, limit, semicolon, rfl⟩
  · rintro ⟨having, limit, semicolon, rfl⟩
    exact ⟨_, mem_spellings having, _, mem_closing_mul.mpr ⟨limit, semicolon, rfl⟩, rfl⟩

/-- The words of the language are the queries that ask for something. -/
theorem mem_query_mul {whole : List Symbol} : whole ∈ queryLanguage * finishLanguage ↔
    ∃ phrase : QueryPhrase, phrase.Asks ∧ phrase.spelling = whole := by
  rw [queryLanguage, add_mul, mul_assoc, mul_assoc, mul_assoc, mul_assoc]
  constructor
  · rintro (conditioned | worded)
    · obtain ⟨_, inside, rfl⟩ := exists_cons_of_mem_mul conditioned
      obtain ⟨_, ⟨having, rfl⟩, _, closes, rfl⟩ := Language.mem_mul.mp inside
      obtain ⟨limit, semicolon, rfl⟩ := mem_closing_mul.mp closes
      exact ⟨⟨none, some having, limit, semicolon⟩, .inr rfl, rfl⟩
    · obtain ⟨_, ⟨words, rfl⟩, _, later, rfl⟩ := Language.mem_mul.mp worded
      obtain ⟨having, limit, semicolon, rfl⟩ := mem_having_mul.mp later
      exact ⟨⟨some words, having, limit, semicolon⟩, .inl rfl, rfl⟩
  · rintro ⟨⟨words, having, limit, semicolon⟩, asks, rfl⟩
    cases words with
    | some words =>
        exact .inr (Language.append_mem_mul (mem_spellings words)
          (mem_having_mul.mpr ⟨having, limit, semicolon, rfl⟩))
    | none =>
        cases having with
        | some having =>
            exact .inl (cons_mem_mul.mpr (Language.append_mem_mul (mem_spellings having)
              (mem_closing_mul.mpr ⟨limit, semicolon, rfl⟩)))
        | none => simp [Asks] at asks

theorem fillable_closing : Fillable closingLanguage :=
  ⟨[], ⟨[], ⟨none, rfl⟩, [], .inr rfl, rfl⟩, by decide⟩

theorem fillable_having : Fillable havingLanguage := ⟨[], ⟨none, rfl⟩, by decide⟩

/-- Some query is made of fillers. -/
theorem fillable_query : Fillable queryLanguage := by
  have word : Fillable (spellings wordSpelling) :=
    ⟨_, mem_spellings [apostrophe, 'a', apostrophe], by decide⟩
  obtain ⟨tail, member, filling⟩ := (fillable_language word (.chain .or)).mul
    (fillable_having.mul fillable_closing)
  exact ⟨tail, .inr member, filling⟩

theorem closed_test (phrase : TestPhrase) : Closed phrase.spelling := by
  have lists : ∀ first others, Closed (TestPhrase.listSpelling first others) := fun first others =>
    .cons (by simp) (((closed_value first).append (closed_more others)).append (by simp))
  rcases phrase with ⟨comparison, value⟩ | ⟨_ | _, first, others⟩
  · exact .cons (by cases comparison <;> decide) (closed_value value)
  · exact .cons (by simp) (lists first others)
  · exact .cons (by simp) (.cons (by simp) (lists first others))

theorem closed_condition (phrase : ConditionPhrase) : Closed phrase.spelling :=
  (closed_target phrase.target).append (closed_test phrase.test)

namespace Parser

variable {state : State} {following : Language Symbol}

/-- What stands after a keyword, or nothing. -/
theorem judges_optional {α : Type} {keyed : String} {rule : Rule α} {reading : Language Symbol}
    (kept : keyed ∈ reserved) (apart : ∀ whole ∈ following, whole.head? ≠ some (.word keyed))
    (ready : state.Ready)
    (inner : ∀ {rest : State}, rest.Ready → rest.symbols.length < state.symbols.length →
      Judges rule reading following rest) : Judges (do
        if ← keyword keyed then
          let result ← rule
          return some result
        else return none : Rule (Option α)) ({[.word keyed]} * reading + 1) following state := by
  obtain ⟨rest, run, passes⟩ | ⟨missing, rest, run, same, still, -, waiting⟩ :=
    keyword_cases keyed ready
  · refine .inl run passes (by simp) (fun whole follows => ?_)
      ((inner passes.ready passes.shorter).map _)
    rw [one_mul] at follows
    exact apart whole follows
  · have ended : Judges (pure none : Rule (Option α)) 1 following rest := judges_pure waiting
    exact .inr (fun identifier => identifier.symbol_ne_word kept) missing
      (Judges.skip run same still ended)

theorem judges_unsigned (ready : state.Ready) : Judges unsigned countLanguage following state := by
  refine judges_symbol ready ?_ ⟨_, ⟨⟨['1'], by decide, by decide⟩, rfl⟩, by decide⟩
    (fun next => ?_) (fun other => ⟨.unsignedInteger, congrFun (if_neg fun fits => other ?_) state⟩)
  · rintro _ ⟨phrase, rfl⟩
    exact ⟨_, rfl, fun identifier => by cases identifier <;> simp [Identifier.symbol]⟩
  · obtain ⟨phrase, same⟩ := next
    obtain ⟨kind, lexeme⟩ := Token.symbol_eq_number.mp (List.cons.inj same).1.symm
    refine ⟨_, ?_, congrFun (if_pos ⟨kind, lexeme ▸ phrase.whole, lexeme ▸ phrase.fits⟩) state⟩
    rw [isFinal_symbol, kind]
    rfl
  · obtain ⟨kind, whole, small⟩ := fits
    have symbol : state.next.symbol = .number state.next.lexeme :=
      Token.symbol_eq_number.mpr ⟨kind, rfl⟩
    exact ⟨⟨state.next.lexeme, whole, small⟩, congrArg (fun symbol => [symbol]) symbol.symm⟩

/-- What the rule of the limit does is told by its language. -/
theorem judges_limitCount (ready : state.Ready) :
    Judges limitCount limitLanguage (semicolonLanguage * finishLanguage) state := by
  rw [limitLanguage_eq]
  refine judges_optional (by decide) ?_ ready fun waiting _ => judges_unsigned waiting
  intro whole member
  obtain ⟨semicolon, rfl⟩ := mem_semicolon_mul.mp member
  cases semicolon <;> simp [spellEnd]

/-- Anything but the end is at fault where the query has to end. -/
theorem faults_finish {next : Token → Rule Unit} (ready : state.Ready)
    (goes : ∀ token rest, ∃ value left, next token rest = .ok value left) :
    Faults (expect .endOfQuery >>= next) 1 finishLanguage state := by
  intro refusal last failed
  by_cases ends : state.next.kind = .endOfQuery
  · have taken : expect .endOfQuery state = .ok state.next state.onward :=
      congrFun (if_pos ends) state
    obtain ⟨value, left, run⟩ := goes state.next state.onward
    cases ((bind_of_ok taken).trans run).symm.trans failed
  · have refused : expect .endOfQuery state = .error .unexpected _ := congrFun (if_neg ends) state
    cases (bind_of_error refused).symm.trans failed
    refine ⟨rfl, false, 0, 0, furthest_note ready.settled, .at_first fillable_one ready.ne_nil ?_⟩
    intro whole member alike
    rw [one_mul] at member
    have head := (alike.head?_iff fun identifier => identifier.symbol_ne_sign .endOfQuery).mp
      (congrArg List.head? (show whole = [.sign .endOfQuery] from member))
    rw [head?_symbols ready] at head
    exact ends (Token.kind_of_symbol (Option.some.inj head))

/-- Where the rule of the end halts is told by its language. -/
theorem faults_ending (ready : state.Ready) :
    Faults ending semicolonLanguage finishLanguage state := by
  have unfolded : ending state = (if state.next.kind = .semicolon then do
        advance
        let _ ← expect .endOfQuery
      else do
        wanted (.token .semicolon)
        let _ ← expect .endOfQuery : Rule Unit) state := rfl
  have either : semicolonLanguage = {[.sign .semicolon]} * 1 + 1 := by
    rw [mul_one]
    rfl
  rw [either]
  refine Faults.congr unfolded ?_
  by_cases closes : state.next.kind = .semicolon
  · have passes := passes_sign ready closes (by decide) rfl
    rw [if_pos closes]
    refine .inl advance_eq passes (by simp) (fun whole ended => ?_)
      (faults_finish passes.ready fun _ rest => ⟨(), rest, rfl⟩)
    rw [one_mul] at ended
    rw [show whole = [.sign .endOfQuery] from ended]
    simp
  · have looked : wanted (.token .semicolon) state =
        .ok () (state.note (.token .semicolon) state.index) := rfl
    rw [if_neg closes]
    exact .inr (fun identifier => identifier.symbol_ne_sign .semicolon)
      (mt (next_isSign (by simp)).mpr closes)
      (Faults.skip looked (symbols_note _ _ _) (index_note _ _)
        (faults_finish (ready_note ready) fun _ rest => ⟨(), rest, rfl⟩))

/-- What is left to read of a query with certain words and conditions. -/
def remainder (words : Option (Formula String)) (having : Option (Formula Condition)) :
    Rule Query :=
  if words.isNone ∧ having.isNone then fail
  else do
    let count ← limitCount
    ending
    return ⟨words, having, count⟩

theorem query_eq (fuel limit : Nat) : query fuel limit = (do
    let words ← leadingWords fuel limit
    let having ← conditions fuel limit
    remainder words having) := rfl

/-- Behind its words or its conditions a query goes on with a limit and its end. -/
theorem faults_remainder {words : Option (Formula String)} {having : Option (Formula Condition)}
    (asks : ¬(words.isNone ∧ having.isNone)) (ready : state.Ready) :
    Faults (remainder words having) closingLanguage finishLanguage state := by
  unfold remainder
  rw [if_neg asks]
  refine Faults.bind (judges_limitCount ready) ?_ ⟨[], .inr rfl, by decide⟩ ?_
  · rintro _ ⟨_ | phrase, rfl⟩ <;> simp [spellLimit, Closed]
  · intro count rest spelt run member passes refusal last failed
    obtain ended | ⟨_, _, -, failed⟩ := error_of_bind failed
    · exact faults_ending passes.ready refusal last ended
    · cases failed

theorem isAfter_closing :
    IsAfter (.chain .or) (closingLanguage * finishLanguage) := by
  intro whole member
  obtain ⟨limit, semicolon, rfl⟩ := mem_closing_mul.mp member
  exact stops_spellLimit limit semicolon

theorem isAfter_having :
    IsAfter (.chain .or) (havingLanguage * (closingLanguage * finishLanguage)) := by
  intro whole member
  obtain ⟨having, limit, semicolon, rfl⟩ := mem_having_mul.mp member
  exact stops_spellHaving having limit semicolon

/-- What the rule of formulas does is told by their language. -/
theorem judges_formula {fuel : Nat} (ready : state.Ready)
    (enough : 3 * state.symbols.length ≤ fuel) (after : IsAfter (.chain .or) following) :
    Judges (formula (condition fuel) 0 fuel 0) formulaLanguage following state :=
  judges_rule isLeafCode_condition closed_condition
    (fun waiting short => judges_condition waiting short) (.chain .or) after ready
    (show state.symbols.length ≤ fuel by omega) enough

/-- What the rule of words does is told by their language. -/
theorem judges_words {fuel : Nat} (ready : state.Ready)
    (enough : 3 * state.symbols.length ≤ fuel) (after : IsAfter (.chain .or) following) :
    Judges (formula word 0 fuel 0) wordsLanguage following state :=
  judges_rule isLeafCode_word (by simp [wordSpelling]) (fun waiting _ => judges_word waiting)
    (.chain .or) after ready (Nat.le_refl _) enough

/-- What the rule of conditions does is told by their language. -/
theorem judges_conditions {fuel : Nat} (ready : state.Ready)
    (enough : 3 * state.symbols.length ≤ fuel) :
    Judges (conditions fuel 0) havingLanguage (closingLanguage * finishLanguage) state := by
  rw [havingLanguage_eq]
  refine judges_optional (by decide) (fun whole member => ?_) ready fun waiting shorter =>
    judges_formula waiting (by omega) isAfter_closing
  obtain ⟨_ | limit, semicolon, rfl⟩ := mem_closing_mul.mp member
  · cases semicolon <;> simp [spellLimit, spellEnd]
  · simp [spellLimit]

/-- Words begin neither like conditions nor like a name. -/
theorem head?_words {whole : List Symbol} (member : whole ∈
      wordsLanguage * (havingLanguage * closingLanguage) * finishLanguage) :
    ∃ symbol, whole.head? = some symbol ∧ QueryPhrase.startsWords symbol ∧
      ∀ identifier : Identifier, identifier.symbol ≠ symbol := by
  rw [mul_assoc] at member
  obtain ⟨_, ⟨words, rfl⟩, others, -, rfl⟩ := Language.mem_mul.mp member
  obtain ⟨first, more, spelt, starts⟩ := exists_cons_of_words words
  refine ⟨first, congrArg (fun spelt => (spelt ++ others).head?) spelt, starts, ?_⟩
  rintro identifier rfl
  cases identifier with
  | bare text free =>
      have word : text = "NOT" := by simpa [Identifier.symbol, QueryPhrase.startsWords] using starts
      exact free (word ▸ by decide)
  | quoted lexeme => simp [Identifier.symbol, QueryPhrase.startsWords] at starts

/-- A query with words. -/
theorem faults_words {fuel : Nat} (ready : state.Ready)
    (enough : 3 * state.symbols.length ≤ fuel) : Faults (do
      let words ← formula word 0 fuel 0
      let having ← conditions fuel 0
      remainder (some words) having : Rule Query)
      (wordsLanguage * (havingLanguage * closingLanguage)) finishLanguage state := by
  have filled : Fillable (havingLanguage * closingLanguage) :=
    fillable_having.mul fillable_closing
  have after : IsAfter (.chain .or) (havingLanguage * closingLanguage * finishLanguage) := by
    rw [mul_assoc]
    exact isAfter_having
  refine Faults.bind (judges_words ready enough after) ?_ filled ?_
  · rintro _ ⟨phrase, rfl⟩
    exact phrase.closed_spelling (by simp [wordSpelling])
  · intro words rest spelt run member passes
    have length := passes.length
    refine Faults.bind (judges_conditions passes.ready (by omega)) ?_ fillable_closing ?_
    · rintro _ ⟨_ | phrase, rfl⟩
      · exact closed_nil
      · exact .cons (by simp) (phrase.closed_spelling closed_condition)
    · exact fun _ _ goes => faults_remainder (by simp) goes.ready

/-- A query without words. -/
theorem faults_having {fuel : Nat} (ready : state.Ready)
    (enough : 3 * state.symbols.length ≤ fuel)
    (noWords : ∀ symbol, state.symbols.head? = some symbol → ¬ QueryPhrase.startsWords symbol) :
    Faults (do
      let having ← conditions fuel 0
      remainder none having : Rule Query) queryLanguage finishLanguage state := by
  unfold conditions
  rw [bind_assoc]
  obtain ⟨rest, run, passes⟩ | ⟨missing, rest, run, same, still, furthest, waiting⟩ :=
    keyword_cases "HAVING" ready
  · have less := passes.shorter
    have begun : state.symbols.head? = some (.word "HAVING") := by
      rw [passes.reads]
      rfl
    have inner : Faults (do
        let conditions ← formula (condition fuel) 0 fuel 0
        remainder none (some conditions) : Rule Query) (formulaLanguage * closingLanguage)
          finishLanguage rest := by
      refine Faults.bind (judges_formula passes.ready (by omega) isAfter_closing) ?_
        fillable_closing fun _ _ goes => faults_remainder (by simp) goes.ready
      rintro _ ⟨phrase, rfl⟩
      exact phrase.closed_spelling closed_condition
    refine .inl run passes (by simp) (fun whole worded head => ?_) ?_
    · obtain ⟨symbol, first, starts, -⟩ := head?_words worded
      rw [head] at first
      exact noWords symbol (begun.trans first) starts
    · simpa only [if_true, bind_assoc, pure_bind] using inner
  · intro refusal last failed
    rw [bind_of_ok run] at failed
    cases failed
    refine ⟨rfl, false, 0, 0, furthest, .at_first ?_ ready.ne_nil fun whole member alike => ?_⟩
    · exact fillable_query
    · rw [queryLanguage, add_mul] at member
      obtain conditioned | worded := member
      · rw [mul_assoc] at conditioned
        obtain ⟨_, -, rfl⟩ := exists_cons_of_mem_mul conditioned
        refine missing ((alike.head?_iff fun identifier => ?_).mp rfl)
        exact identifier.symbol_ne_word (by decide)
      · obtain ⟨symbol, first, starts, plain⟩ := head?_words worded
        exact noWords symbol ((alike.head?_iff plain).mp first) starts

/-- The rule of queries halts where no query goes on. -/
theorem faults_query {fuel : Nat} (ready : state.Ready)
    (enough : 3 * state.symbols.length ≤ fuel) :
    Faults (query fuel 0) queryLanguage finishLanguage state := by
  have next := head?_symbols ready
  rw [query_eq]
  by_cases starts : startsWords state.next = true
  · have begun : leadingWords fuel 0 state = (do
        let words ← formula word 0 fuel 0
        return some words : Rule (Option (Formula String))) state := congrFun (if_pos starts) state
    refine Faults.start begun ?_
    simp only [bind_assoc, pure_bind]
    refine .inr (fun identifier => identifier.symbol_ne_word (by decide)) (fun head => ?_)
      (faults_words ready enough)
    rw [startsWords_iff, Option.some.inj (next.symm.trans head)] at starts
    simp [QueryPhrase.startsWords] at starts
  · have begun : leadingWords fuel 0 state =
        .ok none (state.note (.token .stringLiteral) state.index) :=
      congrFun (if_neg starts) state
    refine Faults.skip begun (symbols_note _ _ _) (index_note _ _) ?_
    refine faults_having (ready_note ready) (by rwa [symbols_note]) fun symbol head begins => ?_
    rw [symbols_note, next] at head
    exact starts (startsWords_iff.mpr (Option.some.inj head ▸ begins))

variable {tokens : List Token}

/-- Tokens that are refused halt at the symbol that the report is about. -/
theorem halts_of_run {fault : SyntaxFault} (ended : IsEnded (tokens.map Token.symbol))
    (refused : run tokens 0 = .refused fault) : ∃ gap stuck reported,
      fault.position = (tokenAt tokens reported).start ∧
        Halts queryLanguage finishLanguage (tokens.map Token.symbol) gap stuck reported := by
  have ready : State.Ready ⟨tokens, 0, 0, []⟩ := ⟨ended, Nat.le_refl 0⟩
  have enough : 3 * (State.symbols ⟨tokens, 0, 0, []⟩).length ≤ fuelFor tokens := by
    simp only [State.symbols, fuelFor, List.length_map]
    omega
  unfold run at refused
  split at refused
  next => cases refused
  next =>
    split at refused
    next => cases refused
    next refusal last failed =>
      obtain ⟨rfl, gap, stuck, reported, furthest, halts⟩ := faults_query ready enough _ _ failed
      cases refused
      have same : last.furthest = reported := furthest.trans (Nat.zero_add _)
      exact ⟨gap, stuck, reported, by rw [← same]; rfl, halts⟩

end Parser
end Concordance.Query
