import Concordance.Proofs.Action
import Concordance.Query.Parser

namespace Concordance.Query

namespace Formula

variable {α : Type}

mutual

/-- Every group of the formula has two parts at least. -/
def IsGrouped : Formula α → Prop
  | leaf _ => True
  | negation inner => inner.IsGrouped
  | conjunction parts => 2 ≤ parts.length ∧ AreGrouped parts
  | disjunction parts => 2 ≤ parts.length ∧ AreGrouped parts

def AreGrouped : List (Formula α) → Prop
  | [] => True
  | part :: rest => part.IsGrouped ∧ AreGrouped rest

end

mutual

/-- No group of the formula is empty. -/
def IsFilled : Formula α → Prop
  | leaf _ => True
  | negation inner => inner.IsFilled
  | conjunction parts => parts ≠ [] ∧ AreFilled parts
  | disjunction parts => parts ≠ [] ∧ AreFilled parts

def AreFilled : List (Formula α) → Prop
  | [] => True
  | part :: rest => part.IsFilled ∧ AreFilled rest

end

mutual

/-- A grouped formula has no empty groups. -/
theorem isFilled_of_isGrouped : ∀ formula : Formula α, formula.IsGrouped → formula.IsFilled
  | leaf _, _ => True.intro
  | negation inner, grouped => isFilled_of_isGrouped inner grouped
  | conjunction parts, grouped =>
      ⟨List.ne_nil_of_length_pos (Nat.lt_of_lt_of_le Nat.two_pos grouped.1),
        areFilled_of_areGrouped parts grouped.2⟩
  | disjunction parts, grouped =>
      ⟨List.ne_nil_of_length_pos (Nat.lt_of_lt_of_le Nat.two_pos grouped.1),
        areFilled_of_areGrouped parts grouped.2⟩

theorem areFilled_of_areGrouped : ∀ parts : List (Formula α), AreGrouped parts → AreFilled parts
  | [], _ => True.intro
  | first :: rest, grouped =>
      ⟨isFilled_of_isGrouped first grouped.1, areFilled_of_areGrouped rest grouped.2⟩

end

theorem isGrouped_conjunction {parts : List (Formula α)} (long : 2 ≤ parts.length)
    (all : AreGrouped parts) : (conjunction parts).IsGrouped := ⟨long, all⟩

theorem isGrouped_disjunction {parts : List (Formula α)} (long : 2 ≤ parts.length)
    (all : AreGrouped parts) : (disjunction parts).IsGrouped := ⟨long, all⟩

/-- Grouping the parts of a group makes a grouped formula. -/
theorem isGrouped_group {make : List (Formula α) → Formula α}
    (makes : ∀ parts, 2 ≤ parts.length → AreGrouped parts → (make parts).IsGrouped)
    {first : Formula α} {rest : List (Formula α)} (head : first.IsGrouped)
    (tail : AreGrouped rest) : (group make (first :: rest)).IsGrouped := by
  cases rest with
  | nil => exact head
  | cons second others =>
      refine makes (first :: second :: others) ?_ ⟨head, tail⟩
      simp

end Formula

/-- The words and the conditions of the query are grouped. -/
def IsGrouped (query : Query) : Prop :=
  (∀ words, query.words = some words → words.IsGrouped) ∧
    ∀ conditions, query.having = some conditions → conditions.IsGrouped

namespace Parser

open Formula

variable {α : Type}

/-- The operands of a chain are grouped where each is. -/
theorem areGrouped_of_operands {word : String} {operand : Rule (Formula α)}
    (each : ∀ {state result rest}, operand state = .ok result rest → result.IsGrouped)
    {fuel : Nat} {state rest : State} {results : List (Formula α)}
    (whole : operands word operand fuel state = .ok results rest) : AreGrouped results := by
  induction fuel generalizing state rest results with
  | zero =>
      cases whole
      exact True.intro
  | succ fuel ih =>
      obtain ⟨found, state, -, whole⟩ := ok_of_bind whole
      cases found with
      | false =>
          cases whole
          exact True.intro
      | true =>
          obtain ⟨first, _, head, whole⟩ := ok_of_bind whole
          obtain ⟨others, _, tail, whole⟩ := ok_of_bind whole
          cases whole
          exact ⟨each head, ih tail⟩

/-- Whatever the rules of formulas read is grouped. -/
theorem isGrouped_of_rules {operand : Rule α} {limit : Nat} (fuel : Nat) :
    (∀ {depth state result rest},
      formula operand limit fuel depth state = .ok result rest → result.IsGrouped) ∧
    (∀ {depth state result rest},
      conjunct operand limit fuel depth state = .ok result rest → result.IsGrouped) ∧
    ∀ {depth state result rest},
      negated operand limit fuel depth state = .ok result rest → result.IsGrouped := by
  induction fuel with
  | zero =>
      refine ⟨?_, ?_, ?_⟩
      all_goals
        intro depth state result rest whole
        cases whole
  | succ fuel ih =>
      obtain ⟨formulas, conjuncts, negations⟩ := ih
      refine ⟨?_, ?_, ?_⟩
      · intro depth state result rest whole
        obtain ⟨first, _, head, whole⟩ := ok_of_bind whole
        obtain ⟨others, _, tail, whole⟩ := ok_of_bind whole
        cases whole
        exact isGrouped_group (fun _ => isGrouped_disjunction) (conjuncts head)
          (areGrouped_of_operands conjuncts tail)
      · intro depth state result rest whole
        obtain ⟨first, _, head, whole⟩ := ok_of_bind whole
        obtain ⟨others, _, tail, whole⟩ := ok_of_bind whole
        cases whole
        exact isGrouped_group (fun _ => isGrouped_conjunction) (negations head)
          (areGrouped_of_operands negations tail)
      · intro depth state result rest whole
        obtain ⟨isNegated, _, -, whole⟩ := ok_of_bind whole
        cases isNegated with
        | true =>
            obtain ⟨_, _, -, whole⟩ := ok_of_bind whole
            obtain ⟨inner, _, read, whole⟩ := ok_of_bind whole
            cases whole
            have grouped : inner.IsGrouped := negations read
            exact grouped
        | false =>
            obtain ⟨token, _, -, whole⟩ := ok_of_bind whole
            by_cases opens : token.kind = .openRound
            · rw [if_pos opens] at whole
              obtain ⟨_, _, -, whole⟩ := ok_of_bind whole
              obtain ⟨_, _, -, whole⟩ := ok_of_bind whole
              obtain ⟨inner, _, read, whole⟩ := ok_of_bind whole
              obtain ⟨_, _, -, whole⟩ := ok_of_bind whole
              cases whole
              exact formulas read
            · rw [if_neg opens] at whole
              obtain ⟨_, _, -, whole⟩ := ok_of_bind whole
              obtain ⟨leaf, _, -, whole⟩ := ok_of_bind whole
              cases whole
              exact True.intro

/-- The words that are read are grouped. -/
theorem isGrouped_of_leadingWords {fuel limit : Nat} {state rest : State}
    {result : Option (Formula String)}
    (whole : leadingWords fuel limit state = .ok result rest) :
    ∀ words, result = some words → words.IsGrouped := by
  obtain ⟨token, _, -, whole⟩ := ok_of_bind whole
  by_cases starts : startsWords token = true
  · rw [if_pos starts] at whole
    obtain ⟨words, _, read, whole⟩ := ok_of_bind whole
    cases whole
    rintro _ ⟨⟩
    exact (isGrouped_of_rules fuel).1 read
  · rw [if_neg starts] at whole
    obtain ⟨_, _, -, whole⟩ := ok_of_bind whole
    cases whole
    rintro _ ⟨⟩

/-- The conditions that are read are grouped. -/
theorem isGrouped_of_conditions {fuel limit : Nat} {state rest : State}
    {result : Option (Formula Condition)}
    (whole : conditions fuel limit state = .ok result rest) :
    ∀ conditions, result = some conditions → conditions.IsGrouped := by
  obtain ⟨found, _, -, whole⟩ := ok_of_bind whole
  cases found with
  | true =>
      obtain ⟨conditions, _, read, whole⟩ := ok_of_bind whole
      cases whole
      rintro _ ⟨⟩
      exact (isGrouped_of_rules fuel).1 read
  | false =>
      cases whole
      rintro _ ⟨⟩

/-- The words and conditions of a query that is read are grouped. -/
theorem isGrouped_of_query {fuel limit : Nat} {state rest : State} {result : Query}
    (whole : query fuel limit state = .ok result rest) : result.IsGrouped := by
  obtain ⟨words, _, first, whole⟩ := ok_of_bind whole
  obtain ⟨having, _, second, whole⟩ := ok_of_bind whole
  by_cases bare : words.isNone ∧ having.isNone
  · rw [if_pos bare] at whole
    cases whole
  · rw [if_neg bare] at whole
    obtain ⟨count, _, -, whole⟩ := ok_of_bind whole
    obtain ⟨_, _, -, whole⟩ := ok_of_bind whole
    cases whole
    exact ⟨isGrouped_of_leadingWords first, isGrouped_of_conditions second⟩

end Parser

/-- Every query that is read is grouped. -/
theorem isGrouped_of_parse {text : String} {sizeLimit depthLimit : Nat} {query : Query}
    (parsed : parse text sizeLimit depthLimit = .parsed query) : query.IsGrouped := by
  unfold parse Parser.run at parsed
  split at parsed
  next => cases parsed
  next =>
    split at parsed
    next read =>
      cases parsed
      exact Parser.isGrouped_of_query read
    next => cases parsed

end Concordance.Query
