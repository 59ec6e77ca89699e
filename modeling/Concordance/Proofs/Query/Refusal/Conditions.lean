import Concordance.Proofs.Query.Refusal.Keys

namespace Concordance.Query

def wordLanguage : Language Symbol := spellings wordSpelling

def numberLanguage : Language Symbol := spellings fun lexeme => [.number lexeme]

def valueLanguage : Language Symbol := spellings ValuePhrase.spelling

/-- The values of one symbol. -/
def plainLanguage : Language Symbol :=
  {spelt | ∃ phrase : ValuePhrase, phrase.spelling = spelt ∧ ∃ symbol, spelt = [symbol]}

theorem valueLanguage_eq :
    valueLanguage = {[.sign .minus]} * numberLanguage + plainLanguage := by
  refine Language.ext fun spelt => ⟨?_, ?_⟩
  · rintro ⟨phrase, rfl⟩
    rcases phrase with ⟨_ | _, lexeme⟩ | lexeme | ⟨_ | _⟩ | _
    · exact .inr ⟨.number false lexeme, rfl, _, rfl⟩
    · exact .inl (cons_mem_mul.mpr (mem_spellings lexeme))
    · exact .inr ⟨.literal lexeme, rfl, _, rfl⟩
    · exact .inr ⟨.truth false, rfl, _, rfl⟩
    · exact .inr ⟨.truth true, rfl, _, rfl⟩
    · exact .inr ⟨.null, rfl, _, rfl⟩
  · rintro (negative | ⟨phrase, rfl, -⟩)
    · obtain ⟨_, ⟨lexeme, rfl⟩, rfl⟩ := exists_cons_of_mem_mul negative
      exact ⟨.number true lexeme, rfl⟩
    · exact mem_spellings phrase

theorem closed_value (phrase : ValuePhrase) : Closed phrase.spelling := by
  rcases phrase with ⟨_ | _, lexeme⟩ | lexeme | ⟨_ | _⟩ | _ <;>
    simp [ValuePhrase.spelling, Closed]

/-- Some value is made of fillers. -/
theorem fillable_value : Fillable valueLanguage := ⟨_, ⟨.number false ['1'], rfl⟩, by decide⟩

/-- The values after the first one in a list. -/
def moreLanguage : Language Symbol :=
  spellings fun values : List ValuePhrase =>
    values.flatMap fun value => .sign .comma :: value.spelling

theorem moreLanguage_eq :
    moreLanguage = {[.sign .comma]} * (valueLanguage * moreLanguage) + 1 := by
  refine Language.ext fun spelt => ⟨?_, ?_⟩
  · rintro ⟨values, rfl⟩
    cases values with
    | nil => exact .inr rfl
    | cons value values =>
        exact .inl (cons_mem_mul.mpr (Language.append_mem_mul (mem_spellings value)
          (mem_spellings values)))
  · rintro (joined | rfl)
    · obtain ⟨_, inside, rfl⟩ := exists_cons_of_mem_mul joined
      obtain ⟨_, ⟨value, rfl⟩, _, ⟨values, rfl⟩, rfl⟩ := Language.mem_mul.mp inside
      exact ⟨value :: values, rfl⟩
    · exact ⟨[], rfl⟩

theorem closed_more (values : List ValuePhrase) :
    Closed (values.flatMap fun value => .sign .comma :: value.spelling) := by
  induction values with
  | nil => exact closed_nil
  | cons value values ih => exact (Closed.cons (by simp) (closed_value value)).append ih

def listLanguage : Language Symbol :=
  {[.sign .openRound]} * (valueLanguage * (moreLanguage * {[.sign .closeRound]}))

theorem mem_listLanguage {spelt : List Symbol} :
    spelt ∈ listLanguage ↔ ∃ first others, TestPhrase.listSpelling first others = spelt := by
  constructor
  · intro member
    obtain ⟨_, inside, rfl⟩ := exists_cons_of_mem_mul member
    obtain ⟨_, ⟨first, rfl⟩, _, later, rfl⟩ := Language.mem_mul.mp inside
    obtain ⟨_, ⟨others, rfl⟩, _, rfl, rfl⟩ := Language.mem_mul.mp later
    exact ⟨first, others, by rw [TestPhrase.listSpelling, List.append_assoc]⟩
  · rintro ⟨first, others, rfl⟩
    rw [TestPhrase.listSpelling, List.append_assoc]
    exact cons_mem_mul.mpr (Language.append_mem_mul (mem_spellings first)
      (Language.append_mem_mul (mem_spellings others) rfl))

def comparisonLanguage : Language Symbol := spellings fun comparison : Comparison =>
  [.sign comparison.kind]

def withinLanguage : Language Symbol := {[.word "IN"]} * listLanguage

def testLanguage : Language Symbol := spellings TestPhrase.spelling

theorem testLanguage_eq : testLanguage =
    withinLanguage + ({[.word "NOT"]} * withinLanguage + comparisonLanguage * valueLanguage) := by
  refine Language.ext fun spelt => ⟨?_, ?_⟩
  · rintro ⟨⟨comparison, value⟩ | ⟨_ | _, first, others⟩, rfl⟩
    · exact .inr (.inr (Language.append_mem_mul (mem_spellings comparison) (mem_spellings value)))
    · exact .inl (cons_mem_mul.mpr (mem_listLanguage.mpr ⟨first, others, rfl⟩))
    · exact .inr (.inl (cons_mem_mul.mpr
        (cons_mem_mul.mpr (mem_listLanguage.mpr ⟨first, others, rfl⟩))))
  · rintro (within | without | compared)
    · obtain ⟨_, list, rfl⟩ := exists_cons_of_mem_mul within
      obtain ⟨first, others, rfl⟩ := mem_listLanguage.mp list
      exact ⟨.within false first others, rfl⟩
    · obtain ⟨_, inside, rfl⟩ := exists_cons_of_mem_mul without
      obtain ⟨_, list, rfl⟩ := exists_cons_of_mem_mul inside
      obtain ⟨first, others, rfl⟩ := mem_listLanguage.mp list
      exact ⟨.within true first others, rfl⟩
    · obtain ⟨_, ⟨comparison, rfl⟩, _, ⟨value, rfl⟩, rfl⟩ := Language.mem_mul.mp compared
      exact ⟨.compare comparison value, rfl⟩

theorem fillable_test : Fillable testLanguage :=
  ⟨_, ⟨.compare .equal (.number false ['1']), rfl⟩, by decide⟩

def conditionLanguage : Language Symbol := spellings ConditionPhrase.spelling

theorem conditionLanguage_eq : conditionLanguage = targetLanguage * testLanguage := by
  refine Language.ext fun spelt => ⟨?_, ?_⟩
  · rintro ⟨phrase, rfl⟩
    exact Language.append_mem_mul (mem_spellings phrase.target) (mem_spellings phrase.test)
  · intro member
    obtain ⟨_, ⟨target, rfl⟩, _, ⟨test, rfl⟩, rfl⟩ := Language.mem_mul.mp member
    exact ⟨⟨target, test⟩, rfl⟩

namespace Parser

variable {state : State} {following : Language Symbol}

/-- What the rule of words does is told by their language. -/
theorem judges_word (ready : state.Ready) : Judges word wordLanguage following state := by
  have expected : Judges (expect .stringLiteral) wordLanguage following state := by
    refine judges_expect ready rfl (fun token => ?_) ?_
      ⟨_, ⟨[apostrophe, 'a', apostrophe], rfl⟩, by decide⟩
    · constructor
      · rintro ⟨lexeme, same⟩
        exact (Token.symbol_eq_literal.mp (List.cons.inj same).1.symm).1
      · intro kind
        exact ⟨token.lexeme, by rw [Token.symbol_eq_literal.mpr ⟨kind, rfl⟩]; rfl⟩
    · rintro _ ⟨lexeme, rfl⟩
      exact ⟨_, rfl, fun identifier => by cases identifier <;> simp [Identifier.symbol]⟩
  exact expected.map _

/-- What the rule of numbers does is told by their language. -/
theorem judges_number (ready : state.Ready) :
    Judges (expect .number) numberLanguage following state := by
  refine judges_expect ready rfl (fun token => ?_) ?_ ⟨_, ⟨['1'], rfl⟩, by decide⟩
  · constructor
    · rintro ⟨lexeme, same⟩
      exact (Token.symbol_eq_number.mp (List.cons.inj same).1.symm).1
    · intro kind
      exact ⟨token.lexeme, by rw [Token.symbol_eq_number.mpr ⟨kind, rfl⟩]⟩
  · rintro _ ⟨lexeme, rfl⟩
    exact ⟨_, rfl, fun identifier => by cases identifier <;> simp [Identifier.symbol]⟩

/-- A token has a value where it is a value of one symbol. -/
theorem valueOf_isSome {token : Token} :
    (valueOf token).isSome = true ↔ [token.symbol] ∈ plainLanguage := by
  constructor
  · intro some
    obtain ⟨value, found⟩ := Option.isSome_iff_exists.mp some
    obtain ⟨phrase, -, spelt⟩ := phrase_of_valueOf found
    exact ⟨phrase, spelt, _, rfl⟩
  · rintro ⟨phrase, spelt, -⟩
    rcases phrase with ⟨_ | _, lexeme⟩ | lexeme | ⟨_ | _⟩ | _ <;>
      simp [ValuePhrase.spelling] at spelt
    · obtain ⟨kind, -⟩ := Token.symbol_eq_number.mp spelt.symm
      simp [valueOf, kind]
    · obtain ⟨kind, -⟩ := Token.symbol_eq_literal.mp spelt.symm
      simp [valueOf, kind]
    · obtain ⟨kind, text⟩ := Token.symbol_eq_word.mp spelt.symm
      simp [valueOf, kind, text]
    · obtain ⟨kind, text⟩ := Token.symbol_eq_word.mp spelt.symm
      simp [valueOf, kind, text]
    · obtain ⟨kind, text⟩ := Token.symbol_eq_word.mp spelt.symm
      simp [valueOf, kind, text]

/-- No value of one symbol is a name. -/
theorem exists_singleton_of_plain {spelt : List Symbol} (member : spelt ∈ plainLanguage) :
    ∃ symbol, spelt = [symbol] ∧ ∀ identifier : Identifier, identifier.symbol ≠ symbol := by
  obtain ⟨phrase, rfl, symbol, alone⟩ := member
  refine ⟨symbol, alone, fun identifier => ?_⟩
  rcases phrase with ⟨_ | _, lexeme⟩ | lexeme | ⟨_ | _⟩ | _ <;> cases alone
  · cases identifier <;> simp [Identifier.symbol]
  · cases identifier <;> simp [Identifier.symbol]
  · exact identifier.symbol_ne_word (by decide)
  · exact identifier.symbol_ne_word (by decide)
  · exact identifier.symbol_ne_word (by decide)

/-- No value of one symbol is a sign. -/
theorem head?_plain {whole : List Symbol} (member : whole ∈ plainLanguage * following)
    (kind : TokenKind) : whole.head? ≠ some (.sign kind) := by
  obtain ⟨_, ⟨phrase, rfl, symbol, alone⟩, _, -, rfl⟩ := Language.mem_mul.mp member
  rcases phrase with ⟨_ | _, lexeme⟩ | lexeme | ⟨_ | _⟩ | _ <;>
    simp [ValuePhrase.spelling] at alone ⊢

theorem value_of_minus (minus : state.next.kind = .minus) : value state = (do
    advance
    let number ← expect .number
    return .number (Number.ofText number.lexeme).negate : Rule Value) state :=
  congrFun (if_pos minus) state

/-- Without a minus sign a value is one symbol, and any other symbol is where it fails. -/
theorem value_of_plain (plain : state.next.kind ≠ .minus) :
    (∃ result, valueOf state.next = some result ∧ value state = .ok result state.onward) ∨
    valueOf state.next = none ∧
      value state = .error .unexpected (state.note .value state.index) := by
  have peeked : peek state = .ok state.next state := rfl
  unfold value
  rw [bind_of_ok peeked, if_neg plain]
  cases valueOf state.next with
  | some result => exact .inl ⟨result, rfl, rfl⟩
  | none => exact .inr ⟨rfl, rfl⟩

/-- What the rule of values does is told by their language. -/
theorem judges_value (ready : state.Ready) : Judges value valueLanguage following state := by
  rw [valueLanguage_eq]
  by_cases minus : state.next.kind = .minus
  · have passes := passes_sign ready minus (by decide) rfl
    exact .congr (value_of_minus minus) (.inl advance_eq passes (by simp)
      (fun _ plain => head?_plain plain .minus) ((judges_number passes.ready).map _))
  · have judged : Judges value plainLanguage following state := by
      refine judges_symbol ready (fun _ => exists_singleton_of_plain)
        ⟨_, ⟨.number false ['1'], rfl, _, rfl⟩, by decide⟩ (fun next => ?_) (fun other => ?_)
      · obtain ⟨result, -, run⟩ | ⟨missing, -⟩ := value_of_plain minus
        · refine ⟨result, ?_, run⟩
          obtain ⟨phrase, spelt, -⟩ := next
          have continues := continues_value phrase
          rw [spelt] at continues
          exact (continues_cons.mp continues).1
        · simpa [missing] using valueOf_isSome.mpr next
      · obtain ⟨result, found, -⟩ | ⟨-, run⟩ := value_of_plain minus
        · exact absurd (valueOf_isSome.mp (by rw [found]; rfl)) other
        · exact ⟨.value, run⟩
    exact .inr (fun identifier => identifier.symbol_ne_sign .minus)
      (mt (next_isSign (by simp)).mpr minus) judged

/-- Values that each follow a comma are read up to where none does. -/
theorem judges_moreValues {fuel : Nat} (ready : state.Ready)
    (noComma : ∀ whole ∈ following, whole.head? ≠ some (.sign .comma))
    (enough : state.symbols.length ≤ fuel) :
    Judges (moreValues fuel) moreLanguage following state := by
  induction fuel generalizing state with
  | zero => exact absurd (List.length_eq_zero_iff.mp (Nat.le_zero.mp enough)) ready.ne_nil
  | succ fuel ih =>
      have unfolded : moreValues (fuel + 1) state = (if state.next.kind = .comma then do
            advance
            let first ← value
            let rest ← moreValues fuel
            return first :: rest
          else return [] : Rule (List Value)) state := rfl
      refine Judges.congr unfolded ?_
      by_cases comma : state.next.kind = .comma
      · have passes := passes_sign ready comma (by decide) rfl
        have less := passes.shorter
        rw [if_pos comma]
        have inner : Judges (do
            let first ← value
            let rest ← moreValues fuel
            return first :: rest : Rule (List Value)) (valueLanguage * moreLanguage) following
              state.onward := by
          refine Judges.bind (judges_value passes.ready) ?_ ⟨[], ⟨[], rfl⟩, by decide⟩ ?_
          · rintro _ ⟨phrase, rfl⟩
            exact closed_value phrase
          · intro first rest spelt run member goes
            have shorter := goes.length
            exact (ih goes.ready (by omega)).map _
        rw [moreLanguage_eq]
        refine .inl advance_eq passes (by simp) (fun whole follows => ?_) inner
        rw [one_mul] at follows
        exact noComma whole follows
      · have ended : Judges (pure [] : Rule (List Value)) 1 following state := judges_pure ready
        rw [if_neg comma, moreLanguage_eq]
        exact .inr (fun identifier => identifier.symbol_ne_sign .comma)
          (mt (next_isSign (by simp)).mpr comma) ended

/-- What the rule of lists does is told by their language. -/
theorem judges_valueList {fuel : Nat} (ready : state.Ready)
    (enough : state.symbols.length ≤ fuel) :
    Judges (valueList fuel) listLanguage following state := by
  have closing {rest : State} (waiting : rest.Ready) (results : List Value) : Judges (do
      wanted (.token .comma)
      let _ ← expect .closeRound
      return results : Rule (List Value)) {[.sign .closeRound]} following rest :=
    Judges.skip rfl (symbols_note _ _ _) (index_note _ _)
      ((judges_sign (by decide) (ready_note waiting)).map _)
  have noComma : ∀ whole ∈ ({[.sign .closeRound]} : Language Symbol) * following,
      whole.head? ≠ some (.sign .comma) := by
    intro whole member
    obtain ⟨rest, -, rfl⟩ := exists_cons_of_mem_mul member
    simp
  refine Judges.bind (judges_sign (by decide) ready) ?_ ?_ ?_
  · rintro _ rfl
    decide
  · exact fillable_value.mul ⟨_, ⟨_, ⟨[], rfl⟩, _, rfl, rfl⟩, by decide⟩
  · intro token rest spelt run member passes
    have length := passes.length
    refine Judges.bind (judges_value passes.ready) ?_ ⟨_, ⟨_, ⟨[], rfl⟩, _, rfl, rfl⟩, by decide⟩ ?_
    · rintro _ ⟨phrase, rfl⟩
      exact closed_value phrase
    · intro first left spelt run member goes
      have shorter := goes.length
      refine Judges.bind (judges_moreValues goes.ready noComma (by omega)) ?_ ⟨_, rfl, by decide⟩ ?_
      · rintro _ ⟨values, rfl⟩
        exact closed_more values
      · exact fun _ _ last => closing last.ready _

/-- A comparison is one symbol, and any other symbol is where it fails. -/
theorem comparison_cases (state : State) :
    (∃ sign, comparisonOf state.next.kind = some sign ∧ comparison state = .ok sign state.onward) ∨
    comparisonOf state.next.kind = none ∧
      comparison state = .error .unexpected (state.note .comparison state.index) := by
  have peeked : peek state = .ok state.next state := rfl
  unfold comparison
  rw [bind_of_ok peeked]
  cases comparisonOf state.next.kind with
  | some sign => exact .inl ⟨sign, rfl, rfl⟩
  | none => exact .inr ⟨rfl, rfl⟩

/-- What the rule of comparisons does is told by their language. -/
theorem judges_comparison (ready : state.Ready) :
    Judges comparison comparisonLanguage following state := by
  refine judges_symbol ready ?_ ⟨_, ⟨.equal, rfl⟩, by decide⟩ (fun next => ?_) (fun other => ?_)
  · rintro _ ⟨sign, rfl⟩
    exact ⟨_, rfl, fun identifier => identifier.symbol_ne_sign _⟩
  · obtain ⟨sign, same⟩ := next
    have kind := Token.kind_of_symbol (List.cons.inj same).1.symm
    obtain ⟨found, -, run⟩ | ⟨missing, -⟩ := comparison_cases state
    · refine ⟨found, ?_, run⟩
      rw [isFinal_symbol, kind]
      cases sign <;> rfl
    · rw [comparisonOf_eq_some.mpr kind] at missing
      cases missing
  · obtain ⟨sign, found, -⟩ | ⟨-, run⟩ := comparison_cases state
    · have kind := comparisonOf_eq_some.mp found
      have plain := kind_isSign sign
      refine absurd ⟨sign, ?_⟩ other
      rw [(Token.symbol_eq_sign (by simp_all)).mpr kind]
    · exact ⟨.comparison, run⟩

/-- What a condition goes on with after its target. -/
def test (fuel : Nat) (target : Target) : Rule Condition := do
  if ← keyword "IN" then
    return ⟨target, .within false (← valueList fuel)⟩
  else if ← keyword "NOT" then
    if ← keyword "IN" then return ⟨target, .within true (← valueList fuel)⟩ else fail
  else
    let comparison ← comparison
    return ⟨target, .compare comparison (← value)⟩

theorem condition_eq (fuel : Nat) : condition fuel = target fuel >>= test fuel := rfl

/-- IN and the list of values after it. -/
theorem judges_within {fuel : Nat} {make : List Value → Condition} (ready : state.Ready)
    (enough : state.symbols.length ≤ fuel) : Judges (do
      if ← keyword "IN" then return make (← valueList fuel) else fail : Rule Condition)
        withinLanguage following state := by
  obtain ⟨rest, run, passes⟩ | ⟨apart, rest, run, same, still, furthest, waiting⟩ :=
    keyword_cases "IN" ready
  · have length := passes.length
    exact .then run passes (by simp) ((judges_valueList passes.ready (by omega)).map make)
  · refine .at_first ready (bind_of_ok run) furthest ?_ fun whole member alike => apart ?_
    · exact ⟨_, cons_mem_mul.mpr (mem_listLanguage.mpr ⟨.number false ['1'], [], rfl⟩), by decide⟩
    · rw [withinLanguage, mul_assoc] at member
      obtain ⟨_, -, rfl⟩ := exists_cons_of_mem_mul member
      exact (alike.head?_iff fun identifier => identifier.symbol_ne_word (by decide)).mp rfl

/-- A comparison begins with a sign. -/
theorem head?_compared {whole : List Symbol}
    (member : whole ∈ comparisonLanguage * valueLanguage * following) (word : String) :
    whole.head? ≠ some (.word word) := by
  rw [mul_assoc] at member
  obtain ⟨_, ⟨comparison, rfl⟩, _, -, rfl⟩ := Language.mem_mul.mp member
  simp

/-- Only one kind of test begins with IN. -/
theorem head?_others {whole : List Symbol} (member : whole ∈
      ({[.word "NOT"]} * withinLanguage + comparisonLanguage * valueLanguage) * following) :
    whole.head? ≠ some (.word "IN") := by
  rw [add_mul] at member
  obtain without | compared := member
  · rw [mul_assoc] at without
    obtain ⟨_, -, rfl⟩ := exists_cons_of_mem_mul without
    simp
  · exact head?_compared compared "IN"

/-- What the rule of tests does is told by their language. -/
theorem judges_test {fuel : Nat} (target : Target) (ready : state.Ready)
    (enough : state.symbols.length ≤ fuel) :
    Judges (test fuel target) testLanguage following state := by
  rw [testLanguage_eq]
  obtain ⟨rest, run, passes⟩ | ⟨noIn, rest, run, same, still, -, waiting⟩ :=
    keyword_cases "IN" ready
  · have less := passes.shorter
    exact .inl run passes (by simp) (fun _ => head?_others)
      ((judges_valueList passes.ready (by omega)).map _)
  · refine .inr (fun identifier => identifier.symbol_ne_word (by decide)) noIn
      (Judges.skip run same still ?_)
    obtain ⟨inner, ran, passes⟩ | ⟨noNot, inner, ran, kept, stays, -, patient⟩ :=
      keyword_cases "NOT" waiting
    · have less := passes.shorter
      rw [same] at less
      exact .inl ran passes (by simp) (fun _ compared => head?_compared compared "NOT")
        (judges_within passes.ready (by omega))
    · have compared : Judges (do
          let comparison ← comparison
          return ⟨target, .compare comparison (← value)⟩ : Rule Condition)
          (comparisonLanguage * valueLanguage) following inner := by
        refine Judges.bind (judges_comparison patient) ?_ fillable_value ?_
        · rintro _ ⟨comparison, rfl⟩
          simpa using fun same => by cases comparison <;> cases same
        · exact fun _ _ goes => (judges_value goes.ready).map _
      exact .inr (fun identifier => identifier.symbol_ne_word (by decide)) noNot
        (Judges.skip ran kept stays compared)

/-- What the rule of conditions does is told by their language. -/
theorem judges_condition {fuel : Nat} (ready : state.Ready)
    (enough : state.symbols.length ≤ fuel) :
    Judges (condition fuel) conditionLanguage following state := by
  have apart : ∀ whole ∈ testLanguage * following,
      whole.head? ≠ some (.sign .openRound) ∧ whole.head? ≠ some (.sign .dot) := by
    intro whole member
    obtain ⟨_, ⟨phrase, rfl⟩, others, -, rfl⟩ := Language.mem_mul.mp member
    obtain ⟨first, rest, cons, noBracket, noDot⟩ := phrase.exists_cons_of_spelling
    simp [cons, noBracket, noDot]
  rw [condition_eq, conditionLanguage_eq]
  refine Judges.bind (judges_target (fun whole member => (apart whole member).2)
    (fun whole member => (apart whole member).1) ready enough) ?_ fillable_test ?_
  · rintro _ ⟨phrase, rfl⟩
    exact closed_target phrase
  · intro target rest spelt run member passes
    have length := passes.length
    exact judges_test target passes.ready (by omega)

end Parser
end Concordance.Query
