import Concordance.Proofs.Query.Reading

namespace Concordance.Query

namespace Phrase

variable {α β : Type} {leafSpelling : α → List Symbol} {leafMeaning : α → β}

theorem exists_cons_of_parts {level : Level} (phrase : Phrase α level) (leafMeaning : α → β) :
    ∃ first rest, phrase.parts leafMeaning = first :: rest := by
  cases phrase <;> exact ⟨_, _, rfl⟩

/-- A chain means the group of its parts. -/
theorem meaning_eq_group {joint : Joint} (phrase : Phrase α (.chain joint)) :
    phrase.meaning leafMeaning = Formula.group joint.node (phrase.parts leafMeaning) := by
  cases phrase with
  | last part => rfl
  | joined first rest =>
      obtain ⟨head, tail, cons⟩ := rest.exists_cons_of_parts leafMeaning
      simp [meaning, parts, cons, Formula.group]

end Phrase

namespace Parser

/-- So many levels of nesting may be open at once. -/
def Allows (limit depth : Nat) : Prop := limit = 0 ∨ depth ≤ limit

/-- A limit that allows a depth allows every smaller one. -/
theorem Allows.mono {limit depth inner : Nat} (allowed : Allows limit depth) (less : inner ≤ depth) :
    Allows limit inner := allowed.imp_right (Nat.le_trans less)

theorem allows_max {limit depth first second : Nat} : Allows limit (depth + max first second) ↔
    Allows limit (depth + first) ∧ Allows limit (depth + second) := by
  unfold Allows
  omega

variable {α β : Type} {state rest : State}

/-- A level may be entered where the limit allows one more. -/
theorem isAllowed_enter_iff {limit depth : Nat} :
    (Nesting.mk depth limit).enter.isAllowed = true ↔ Allows limit (depth + 1) := by
  rw [Nesting.isAllowed, Bool.or_eq_true, beq_iff_eq, decide_eq_true_iff]
  rfl

/-- Entering a level succeeds only where the limit allows it. -/
theorem allows_of_enter {limit depth : Nat} (read : enter limit depth state = .ok () rest) :
    Allows limit (depth + 1) ∧ rest = state := by
  unfold enter at read
  split at read
  next allowed =>
    cases read
    exact ⟨isAllowed_enter_iff.mp allowed, rfl⟩
  next => cases read

/-- Where the limit allows it, entering a level takes no symbols. -/
theorem takes_enter {limit depth : Nat} (allowed : Allows limit (depth + 1)) :
    Takes (enter limit depth) state () state.symbols := by
  unfold enter
  rw [if_pos (isAllowed_enter_iff.mpr allowed)]
  exact takes_pure rfl

section

variable (operand : Rule α) (limit : Nat)

/-- The rule that reads the phrases of a level. -/
def rule : Level → Nat → Nat → Rule (Formula α)
  | .chain .or => formula operand limit
  | .chain .and => conjunct operand limit
  | .negated => negated operand limit

/-- A first part and the operands after it. -/
def listing (joint : Joint) (part : Rule α) (fuel : Nat) : Rule (List α) := do
  let first ← part
  let rest ← operands joint.word part fuel
  return first :: rest

end

theorem rule_zero {operand : Rule α} {limit depth : Nat} {level : Level} :
    rule operand limit level 0 depth = fail := by
  cases level with
  | chain joint => cases joint <;> rfl
  | negated => rfl

theorem rule_chain {operand : Rule α} {limit fuel depth : Nat} {joint : Joint} :
    rule operand limit (.chain joint) (fuel + 1) depth = (do
      let parts ← listing joint (rule operand limit joint.below fuel depth) fuel
      return Formula.group joint.node parts) := by
  cases joint <;> simp only [rule, formula, conjunct, listing, bind_assoc, pure_bind] <;> rfl

variable {limit : Nat} {operand : Rule α} {leafSpelling : β → List Symbol} {leafMeaning : β → α}

section

variable {joint : Joint} {part : Rule (Formula α)} {depth : Nat}

/-- Operands that are read make a longer chain of a first part. -/
theorem phrase_of_operands
    (each : ∀ {state result rest}, part state = .ok result rest →
      ∃ phrase : Phrase β joint.below, phrase.meaning leafMeaning = result ∧
        Reads state (phrase.spelling leafSpelling) rest ∧ Allows limit (depth + phrase.nesting))
    {fuel : Nat} {state rest : State} {results : List (Formula α)} (first : Phrase β joint.below)
    (allowed : Allows limit (depth + first.nesting))
    (read : operands joint.word part fuel state = .ok results rest) :
    ∃ (phrase : Phrase β (.chain joint)) (tail : List Symbol),
      phrase.parts leafMeaning = first.meaning leafMeaning :: results ∧
      phrase.spelling leafSpelling = first.spelling leafSpelling ++ tail ∧ Reads state tail rest ∧
      Allows limit (depth + phrase.nesting) := by
  induction fuel generalizing state rest results first with
  | zero =>
      cases read
      exact ⟨.last first, [], rfl, (List.append_nil _).symm, rfl, allowed⟩
  | succ fuel ih =>
      obtain ⟨found, middle, key, read⟩ := ok_of_bind read
      have keyed := reads_of_keyword key
      cases found with
      | false =>
          cases read
          exact ⟨.last first, [], rfl, (List.append_nil _).symm, keyed, allowed⟩
      | true =>
          obtain ⟨_, _, head, read⟩ := ok_of_bind read
          obtain ⟨_, _, others, read⟩ := ok_of_bind read
          cases read
          obtain ⟨second, rfl, heads, fits⟩ := each head
          obtain ⟨phrase, tail, parts, spelt, tails, nested⟩ := ih second fits others
          refine ⟨.joined first phrase, _, ?_, rfl, keyed.cons ?_, ?_⟩
          · rw [Phrase.parts, parts]
          · rw [spelt]
            exact heads.trans tails
          · exact allows_max.2 ⟨allowed, nested⟩

end

/-- What a rule reads is a phrase of its level. -/
theorem phrase_of_rule
    (leaves : ∀ {state result rest}, operand state = .ok result rest →
      ∃ leaf, leafMeaning leaf = result ∧ Reads state (leafSpelling leaf) rest)
    {fuel depth : Nat} (level : Level) {state rest : State} {result : Formula α}
    (allowed : Allows limit depth)
    (read : rule operand limit level fuel depth state = .ok result rest) :
    ∃ phrase : Phrase β level, phrase.meaning leafMeaning = result ∧
      Reads state (phrase.spelling leafSpelling) rest ∧ Allows limit (depth + phrase.nesting) := by
  induction fuel generalizing depth level state rest result with
  | zero =>
      rw [rule_zero] at read
      cases read
  | succ fuel ih =>
      cases level with
      | chain joint =>
          rw [rule_chain] at read
          obtain ⟨_, _, list, read⟩ := ok_of_bind read
          obtain ⟨_, _, head, list⟩ := ok_of_bind list
          obtain ⟨_, _, tail, list⟩ := ok_of_bind list
          cases list
          cases read
          obtain ⟨first, rfl, heads, fits⟩ := ih _ allowed head
          obtain ⟨phrase, tail, parts, spelt, tails, nested⟩ :=
            phrase_of_operands (ih _ allowed) first fits tail
          refine ⟨phrase, ?_, ?_, nested⟩
          · rw [phrase.meaning_eq_group, parts]
          · rw [spelt]
            exact heads.trans tails
      | negated =>
          obtain ⟨isNegated, _, key, read⟩ := ok_of_bind read
          have keyed := reads_of_keyword key
          cases isNegated with
          | true =>
              obtain ⟨_, _, entered, read⟩ := ok_of_bind read
              obtain ⟨inner, _, below, read⟩ := ok_of_bind read
              cases read
              obtain ⟨deeper, rfl⟩ := allows_of_enter entered
              obtain ⟨phrase, rfl, reads, nested⟩ := ih .negated deeper below
              exact ⟨.not phrase, rfl, keyed.cons reads,
                nested.mono (by simp [Phrase.nesting]; omega)⟩
          | false =>
              replace read := read_of_peek read
              split at read
              next opens =>
                obtain ⟨_, _, passed, read⟩ := ok_of_bind read
                obtain ⟨_, _, entered, read⟩ := ok_of_bind read
                obtain ⟨inner, _, below, read⟩ := ok_of_bind read
                obtain ⟨token, _, closed, read⟩ := ok_of_bind read
                cases read
                obtain ⟨deeper, rfl⟩ := allows_of_enter entered
                obtain ⟨phrase, rfl, reads, nested⟩ := ih (.chain .or) deeper below
                obtain ⟨closes, closing⟩ := reads_of_expect (by simp) closed
                have opening := reads_of_advance (ahead_ne_nil (by simp [opens])) passed
                rw [(Token.symbol_eq_sign (by simp)).2 opens] at opening
                rw [(Token.symbol_eq_sign (by simp)).2 closes] at closing
                exact ⟨.group phrase, rfl, keyed.of_nil (opening.cons (reads.trans closing)),
                  nested.mono (by simp [Phrase.nesting]; omega)⟩
              next opens =>
                obtain ⟨_, _, noted, read⟩ := ok_of_bind read
                obtain ⟨value, _, below, read⟩ := ok_of_bind read
                cases read
                obtain ⟨leaf, rfl, reads⟩ := leaves below
                exact ⟨.leaf leaf, rfl, keyed.of_nil ((reads_of_wanted noted).of_nil reads), allowed⟩

/-- What a level needs less than three units of fuel for each symbol. -/
def slack : Level → Nat
  | .chain .or => 0
  | .chain .and => 1
  | .negated => 2

/-- Each level below a chain has one more unit of fuel to spare. -/
theorem slack_below (joint : Joint) : slack joint.below = slack (.chain joint) + 1 := by
  cases joint <;> rfl

section

variable (operand : Rule α) (limit : Nat) (leafSpelling : β → List Symbol) (leafMeaning : β → α)

/-- The rules read the phrase wherever it is ahead. Of a chain, they list the parts. -/
def Completes : {level : Level} → Phrase β level → Prop
  | .chain joint, phrase => ∀ ⦃fuel count depth : Nat⦄ ⦃state : State⦄ ⦃after : List Symbol⦄,
      3 * (phrase.spelling leafSpelling).length ≤ fuel + slack joint.below →
      (phrase.spelling leafSpelling).length ≤ count + 1 →
      Allows limit (depth + phrase.nesting) → Stops (Level.chain joint).joints after →
      state.symbols = phrase.spelling leafSpelling ++ after →
      Takes (listing joint (rule operand limit joint.below fuel depth) count) state
        (phrase.parts leafMeaning) after
  | .negated, phrase => ∀ ⦃fuel depth : Nat⦄ ⦃state : State⦄ ⦃after : List Symbol⦄,
      3 * (phrase.spelling leafSpelling).length ≤ fuel + slack .negated →
      Allows limit (depth + phrase.nesting) →
      state.symbols = phrase.spelling leafSpelling ++ after →
      Takes (rule operand limit .negated fuel depth) state (phrase.meaning leafMeaning) after

end

/-- A phrase that is listed or read is read by the rule of its level. -/
theorem takes_rule (code : IsLeafCode leafSpelling) {level : Level} {phrase : Phrase β level}
    (complete : Completes operand limit leafSpelling leafMeaning phrase) {fuel depth : Nat}
    {state : State} {after : List Symbol}
    (enough : 3 * (phrase.spelling leafSpelling).length ≤ fuel + slack level)
    (allowed : Allows limit (depth + phrase.nesting)) (ends : Stops level.joints after)
    (spelt : state.symbols = phrase.spelling leafSpelling ++ after) :
    Takes (rule operand limit level fuel depth) state (phrase.meaning leafMeaning) after := by
  cases level with
  | negated => exact complete enough allowed spelt
  | chain joint =>
      obtain ⟨first, rest, cons, -⟩ := phrase.exists_cons_of_spelling code
      have long : 1 ≤ (phrase.spelling leafSpelling).length := by simp [cons]
      have small := slack_below joint
      cases fuel with
      | zero => cases joint <;> simp only [slack] at enough small <;> omega
      | succ fuel =>
          rw [rule_chain, phrase.meaning_eq_group]
          have listed := @complete fuel fuel depth state after (by omega)
            (by cases joint <;> simp only [slack] at enough <;> omega) allowed ends spelt
          exact listed.bind takes_pure

/-- A chain of one part is listed where no joint follows. -/
theorem takes_listing_last {joint : Joint} {part : Rule α} {count : Nat} {first : α}
    {after : List Symbol} (ends : after.head? ≠ some (.word joint.word))
    (head : Takes part state first after) :
    Takes (listing joint part count) state [first] after := by
  refine head.bind fun {left} symbols => ?_
  have none : Takes (operands joint.word part count) left [] after := by
    cases count with
    | zero => exact takes_pure symbols
    | succ count =>
        subst symbols
        exact (takes_no_keyword ends).bind takes_pure
  exact none.bind takes_pure

/-- A longer chain is listed by its first part, the joint, and the list of the others. -/
theorem takes_listing_joined {joint : Joint} {part : Rule α} {count : Nat} {first : α}
    {others : List α} {middle after : List Symbol}
    (head : Takes part state first (.word joint.word :: middle))
    (tail : ∀ {left : State}, left.symbols = middle →
      Takes (listing joint part count) left others after) :
    Takes (listing joint part (count + 1)) state (first :: others) after := by
  refine head.bind fun {left} symbols => ?_
  have more : Takes (operands joint.word part (count + 1)) left others after :=
    (takes_keyword symbols).bind tail
  exact Takes.bind more takes_pure

/-- Formulas complete their phrases, by induction on the fuel and the level. -/
theorem completes_of_phrase (code : IsLeafCode leafSpelling) (bound : Nat)
    (leaves : ∀ {leaf : β} {state : State} {after : List Symbol},
      (leafSpelling leaf).length ≤ bound → state.symbols = leafSpelling leaf ++ after →
        Takes operand state (leafMeaning leaf) after)
    {level : Level} (phrase : Phrase β level)
    (short : (phrase.spelling leafSpelling).length ≤ bound) :
    Completes operand limit leafSpelling leafMeaning phrase := by
  induction phrase with
  | last part ih =>
      intro fuel count depth state after enough many allowed ends spelt
      exact takes_listing_last ends.head?_ne
        (takes_rule code (ih short) enough allowed ends.below spelt)
  | @joined joint first others head tail =>
      intro fuel count depth state after enough many allowed ends spelt
      obtain ⟨symbol, rest, cons, -⟩ := first.exists_cons_of_spelling code
      have long : 1 ≤ (first.spelling leafSpelling).length := by simp [cons]
      simp only [Phrase.spelling, List.length_append, List.length_cons] at short enough many
      simp only [Phrase.spelling, List.append_assoc, List.cons_append] at spelt
      simp only [Phrase.nesting, allows_max] at allowed
      cases count with
      | zero => omega
      | succ count =>
          exact takes_listing_joined
            (takes_rule code (head (by omega)) (by omega) allowed.1 (stops_joint joint _) spelt)
            (tail (by omega) (by omega) (by omega) allowed.2 ends)
  | not inner ih =>
      intro fuel depth state after enough allowed spelt
      simp only [Phrase.spelling, List.length_cons] at short enough
      cases fuel with
      | zero => simp only [slack] at enough; omega
      | succ fuel =>
          refine (takes_keyword spelt).bind fun symbols => ?_
          have deeper : Allows limit (depth + 1 + inner.nesting) :=
            allowed.mono (by simp only [Phrase.nesting]; omega)
          refine (takes_enter (deeper.mono (by omega))).bind fun entered => ?_
          exact (ih (by omega) (by omega) deeper (entered.trans symbols)).bind takes_pure
  | group inner ih =>
      intro fuel depth state after enough allowed spelt
      simp only [Phrase.spelling, List.length_cons, List.length_append] at short enough
      cases fuel with
      | zero => simp only [slack] at enough; omega
      | succ fuel =>
          simp only [Phrase.spelling, List.cons_append, List.append_assoc] at spelt
          refine (takes_no_keyword (by simp [spelt])).bind fun symbols => ?_
          rw [spelt] at symbols
          refine takes_of_peek ?_
          rw [if_pos ((next_isSign (by simp)).2 (by simp [symbols]))]
          refine (takes_advance symbols).bind fun symbols => ?_
          have deeper : Allows limit (depth + 1 + inner.nesting) :=
            allowed.mono (by simp only [Phrase.nesting]; omega)
          refine (takes_enter (deeper.mono (by omega))).bind fun entered => ?_
          refine (takes_rule code (ih (by omega))
            (by simp only [slack, List.length_nil] at enough ⊢; omega) deeper
            (stops_sign _ .closeRound after) (entered.trans symbols)).bind fun symbols => ?_
          have closes := (next_isSign (by simp)).2 (congrArg List.head? symbols)
          exact (takes_expect symbols closes).bind takes_pure
  | leaf leaf =>
      intro fuel depth state after enough allowed spelt
      obtain ⟨symbol, rest, cons, noNot, noGroup⟩ := code.starts leaf
      simp only [Phrase.spelling] at enough spelt
      cases fuel with
      | zero => simp only [slack, cons, List.length_cons] at enough; omega
      | succ fuel =>
          refine (takes_no_keyword (by simp [spelt, cons, noNot])).bind fun symbols => ?_
          refine takes_of_peek ?_
          rw [if_neg (mt (next_isSign (by simp)).1 (by simp [symbols, spelt, cons, noGroup]))]
          refine (takes_wanted _).bind fun noted => ?_
          exact (leaves short (noted.trans (symbols.trans spelt))).bind takes_pure

end Parser
end Concordance.Query
