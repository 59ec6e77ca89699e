import Concordance.Proofs.Query.Refusal.Judging

namespace Concordance.Query

theorem Joint.word_mem_reserved (joint : Joint) : joint.word ∈ reserved := by
  cases joint <;> decide

namespace Phrase

variable {α : Type} {leafSpelling : α → List Symbol}

/-- What the phrases of a level are spelt by. -/
def language (leafSpelling : α → List Symbol) (level : Level) : Language Symbol :=
  spellings fun phrase : Phrase α level => phrase.spelling leafSpelling

/-- What may come after the first part of a chain. -/
def tails (leafSpelling : α → List Symbol) (joint : Joint) : Language Symbol :=
  {[.word joint.word]} * language leafSpelling (.chain joint) + 1

/-- A chain is a part of the level below and any number of further parts. -/
theorem language_chain (joint : Joint) : language leafSpelling (.chain joint) =
    language leafSpelling joint.below * tails leafSpelling joint := by
  refine Language.ext fun spelt => ⟨?_, fun member => ?_⟩
  · rintro ⟨phrase, rfl⟩
    cases phrase with
    | last part =>
        exact Language.mem_mul.mpr ⟨_, mem_spellings part, [], .inr rfl, List.append_nil _⟩
    | joined first rest =>
        exact Language.append_mem_mul (mem_spellings first)
          (.inl (cons_mem_mul.mpr (mem_spellings rest)))
  · obtain ⟨_, ⟨first, rfl⟩, _, joined | rfl, rfl⟩ := Language.mem_mul.mp member
    · obtain ⟨_, ⟨rest, rfl⟩, rfl⟩ := exists_cons_of_mem_mul joined
      exact ⟨.joined first rest, rfl⟩
    · exact ⟨.last first, (List.append_nil _).symm⟩

/-- What is in round brackets. -/
def groups (leafSpelling : α → List Symbol) : Language Symbol :=
  {[.sign .openRound]} * (language leafSpelling (.chain .or) * {[.sign .closeRound]})

/-- A negated part is a negation, a group or a leaf. -/
theorem language_negated : language leafSpelling .negated =
    {[.word "NOT"]} * language leafSpelling .negated +
      (groups leafSpelling + spellings leafSpelling) := by
  refine Language.ext fun spelt => ⟨?_, fun member => ?_⟩
  · rintro ⟨phrase, rfl⟩
    cases phrase with
    | not inner => exact .inl (cons_mem_mul.mpr (mem_spellings inner))
    | group inner =>
        exact .inr (.inl (cons_mem_mul.mpr (Language.append_mem_mul (mem_spellings inner) rfl)))
    | leaf leaf => exact .inr (.inr (mem_spellings leaf))
  · obtain negated | grouped | ⟨leaf, rfl⟩ := member
    · obtain ⟨_, ⟨inner, rfl⟩, rfl⟩ := exists_cons_of_mem_mul negated
      exact ⟨.not inner, rfl⟩
    · obtain ⟨_, inside, rfl⟩ := exists_cons_of_mem_mul grouped
      obtain ⟨_, ⟨inner, rfl⟩, _, rfl, rfl⟩ := Language.mem_mul.mp inside
      exact ⟨.group inner, rfl⟩
    · exact ⟨.leaf leaf, rfl⟩

/-- Phrases are closed where leaves are. -/
theorem closed_spelling (leaves : ∀ leaf, Closed (leafSpelling leaf)) {level : Level}
    (phrase : Phrase α level) : Closed (phrase.spelling leafSpelling) := by
  induction phrase with
  | last part ih => exact ih
  | joined first rest head tail => exact head.append (.cons (by simp) tail)
  | not inner ih => exact .cons (by simp) ih
  | group inner ih => exact .cons (by simp) (ih.append (by simp))
  | leaf leaf => exact leaves leaf

/-- Some phrase is made of fillers where some leaf is. -/
theorem fillable_language (filled : Fillable (spellings leafSpelling)) (level : Level) :
    Fillable (language leafSpelling level) := by
  obtain ⟨_, ⟨leaf, rfl⟩, filling⟩ := filled
  have negated : Phrase α .negated := .leaf leaf
  cases level with
  | negated => exact ⟨_, ⟨.leaf leaf, rfl⟩, filling⟩
  | chain joint =>
      cases joint with
      | and => exact ⟨_, ⟨.last (.leaf leaf), rfl⟩, filling⟩
      | or => exact ⟨_, ⟨.last (.last (.leaf leaf)), rfl⟩, filling⟩

theorem fillable_tails (joint : Joint) : Fillable (tails leafSpelling joint) :=
  ⟨[], .inr rfl, by decide⟩

/-- A phrase has a symbol. -/
theorem length_pos_of_mem (code : IsLeafCode leafSpelling) {level : Level} {spelt : List Symbol}
    (member : spelt ∈ language leafSpelling level) : 0 < spelt.length := by
  obtain ⟨phrase, rfl⟩ := member
  obtain ⟨first, rest, cons, -⟩ := phrase.exists_cons_of_spelling code
  exact List.length_pos_of_ne_nil fun nothing => by simp [cons] at nothing

end Phrase

namespace Parser

open Phrase

variable {α β : Type} {operand : Rule α} {leafSpelling : β → List Symbol}

/-- What a formula is followed by goes on with none of its chains. -/
def IsAfter (level : Level) (following : Language Symbol) : Prop :=
  ∀ whole ∈ following, Stops level.joints whole

theorem IsAfter.tails {joint : Joint} {following : Language Symbol}
    (after : IsAfter (.chain joint) following) :
    IsAfter joint.below (tails leafSpelling joint * following) := by
  intro whole member
  obtain ⟨_, joined | rfl, others, follows, rfl⟩ := Language.mem_mul.mp member
  · obtain ⟨_, -, rfl⟩ := exists_cons_of_mem_mul joined
    exact stops_joint joint _
  · exact (after _ follows).below

/-- After a closing bracket no chain goes on. -/
theorem isAfter_close (level : Level) (following : Language Symbol) :
    IsAfter level ({[.sign .closeRound]} * following) := by
  intro whole member
  obtain ⟨others, -, rfl⟩ := exists_cons_of_mem_mul member
  exact stops_sign level _ _

section

variable {joint : Joint} {part : Rule (Formula α)} {bound : Nat} {following : Language Symbol}

/-- A chain is judged by its first part and by the operands after it. -/
theorem judges_listing {count : Nat} (code : IsLeafCode leafSpelling)
    (closed : ∀ leaf, Closed (leafSpelling leaf))
    (each : ∀ {later : Language Symbol} {state : State}, state.Ready →
      state.symbols.length ≤ bound → IsAfter joint.below later →
        Judges part (language leafSpelling joint.below) later state)
    (after : IsAfter (.chain joint) following) {state : State} (ready : state.Ready)
    (short : state.symbols.length ≤ bound)
    (others : ∀ {rest : State}, rest.Ready → rest.symbols.length < state.symbols.length →
      Judges (operands joint.word part count) (tails leafSpelling joint) following rest) :
    Judges (listing joint part count) (language leafSpelling (.chain joint)) following state := by
  rw [language_chain]
  refine Judges.bind (each ready short after.tails) ?_ (fillable_tails joint) ?_
  · rintro _ ⟨phrase, rfl⟩
    exact phrase.closed_spelling closed
  · intro first rest spelt run member passes
    have long := length_pos_of_mem code member
    have length := passes.length
    exact (others passes.ready (by omega)).map (first :: ·)

/-- What the rule of further parts does is told by their language where that of one part is. -/
theorem judges_operands {count : Nat} (code : IsLeafCode leafSpelling)
    (closed : ∀ leaf, Closed (leafSpelling leaf))
    (each : ∀ {later : Language Symbol} {state : State}, state.Ready →
      state.symbols.length ≤ bound → IsAfter joint.below later →
        Judges part (language leafSpelling joint.below) later state)
    (after : IsAfter (.chain joint) following) {state : State} (ready : state.Ready)
    (short : state.symbols.length ≤ bound) (many : state.symbols.length ≤ count) :
    Judges (operands joint.word part count) (tails leafSpelling joint) following state := by
  induction count generalizing state with
  | zero => exact absurd (List.length_eq_zero_iff.mp (Nat.le_zero.mp many)) ready.ne_nil
  | succ count ih =>
      obtain ⟨rest, run, passes⟩ | ⟨apart, rest, run, same, still, -, waiting⟩ :=
        keyword_cases joint.word ready
      · have less := passes.shorter
        have listed := judges_listing code closed each after passes.ready (by omega)
          fun ready shorter => ih ready (by omega) (by omega)
        refine Judges.inl run passes (by simp) (fun whole follows => ?_) ?_
        · rw [one_mul] at follows
          exact (after whole follows).head?_ne
        · exact listed
      · have ended : Judges (pure [] : Rule (List (Formula α))) 1 following rest :=
          judges_pure waiting
        refine .inr (fun identifier => identifier.symbol_ne_word joint.word_mem_reserved) apart
          (Judges.skip run same still ?_)
        exact ended

end

/-- What the rule of negations, groups and leaves does. -/
theorem rule_negated {limit fuel depth : Nat} : rule operand limit .negated (fuel + 1) depth = (do
    if ← keyword "NOT" then
      enter limit depth
      let inner ← rule operand limit .negated fuel (depth + 1)
      return .negation inner
    else if (← peek).kind = .openRound then
      advance
      enter limit depth
      let inner ← rule operand limit (.chain .or) fuel (depth + 1)
      let _ ← expect .closeRound
      return inner
    else
      wanted (.token .openRound)
      return .leaf (← operand)) := by
  simp only [rule, negated]

section

variable {bound : Nat} {following : Language Symbol} {state : State} {fuel depth : Nat}

/-- A leaf begins neither like a negation nor like a group. -/
theorem starts_of_leaf (code : IsLeafCode leafSpelling) {whole : List Symbol}
    (member : whole ∈ spellings leafSpelling * following) :
    whole.head? ≠ some (.word "NOT") ∧ whole.head? ≠ some (.sign .openRound) := by
  obtain ⟨_, ⟨leaf, rfl⟩, _, -, rfl⟩ := Language.mem_mul.mp member
  obtain ⟨first, rest, cons, noNot, noGroup⟩ := code.starts leaf
  simp [cons, noNot, noGroup]

/-- Neither a group nor a leaf begins like a negation. -/
theorem not_negation_of_mem (code : IsLeafCode leafSpelling) {whole : List Symbol}
    (member : whole ∈ (groups leafSpelling + spellings leafSpelling) * following) :
    whole.head? ≠ some (.word "NOT") := by
  rw [add_mul] at member
  obtain grouped | leafed := member
  · rw [groups, mul_assoc] at grouped
    obtain ⟨_, -, rfl⟩ := exists_cons_of_mem_mul grouped
    simp
  · exact (starts_of_leaf code leafed).1

/-- One level of negations and groups, where the levels inside them are judged. -/
theorem judges_negated (code : IsLeafCode leafSpelling)
    (closed : ∀ leaf, Closed (leafSpelling leaf))
    (leaves : ∀ {later : Language Symbol} {state : State}, state.Ready →
      state.symbols.length ≤ bound → Judges operand (spellings leafSpelling) later state)
    (inside : ∀ (level : Level) {later : Language Symbol} {rest : State}, IsAfter level later →
      rest.Ready → rest.symbols.length < state.symbols.length →
        Judges (rule operand 0 level fuel (depth + 1)) (language leafSpelling level) later rest)
    (ready : state.Ready) (short : state.symbols.length ≤ bound) :
    Judges (rule operand 0 .negated (fuel + 1) depth) (language leafSpelling .negated) following
      state := by
  have noJoint {later : Language Symbol} : IsAfter .negated later :=
    fun _ _ joint member => absurd member List.not_mem_nil
  have entered (state : State) : enter 0 depth state = .ok () state := rfl
  rw [rule_negated, language_negated]
  obtain ⟨rest, run, passes⟩ | ⟨noNot, rest, run, same, still, furthest, waiting⟩ :=
    keyword_cases "NOT" ready
  · have inner := @inside .negated following rest noJoint passes.ready passes.shorter
    exact Judges.inl run passes (by simp) (fun _ => not_negation_of_mem code)
      (Judges.skip (entered rest) rfl rfl (inner.map Formula.negation))
  · refine .inr (fun identifier => identifier.symbol_ne_word (by decide)) noNot
      (Judges.skip run same still ?_)
    have peeked : peek rest = .ok rest.next rest := rfl
    refine Judges.skip peeked rfl rfl ?_
    by_cases opens : rest.next.kind = .openRound
    · have passes := passes_sign waiting opens (by decide) rfl
      have less := passes.shorter
      rw [same] at less
      rw [if_pos opens]
      refine .inl advance_eq passes (by simp)
        (fun _ leafed => (starts_of_leaf code leafed).2) (Judges.skip (entered _) rfl rfl ?_)
      refine Judges.bind (inside (.chain .or) (isAfter_close _ _) passes.ready less) ?_
        ⟨_, rfl, by decide⟩ fun _ _ passes => (judges_sign (by decide) passes.ready).map _
      rintro _ ⟨phrase, rfl⟩
      exact phrase.closed_spelling closed
    · have apart : rest.symbols.head? ≠ some (.sign .openRound) :=
        mt (next_isSign (by simp)).mpr opens
      rw [if_neg opens]
      refine .inr (fun identifier => identifier.symbol_ne_sign _) apart
        (Judges.skip rfl (symbols_note _ _ _) (index_note _ _) ?_)
      exact (leaves (ready_note waiting) (by rw [symbols_note, same]; exact short)).map _

end

/-- The rule of every level is judged by its phrases, with fuel for all of the symbols. -/
theorem judges_rule (code : IsLeafCode leafSpelling) (closed : ∀ leaf, Closed (leafSpelling leaf))
    {bound : Nat}
    (leaves : ∀ {later : Language Symbol} {state : State}, state.Ready →
      state.symbols.length ≤ bound → Judges operand (spellings leafSpelling) later state)
    {fuel depth : Nat} (level : Level) {following : Language Symbol}
    (after : IsAfter level following) {state : State} (ready : state.Ready)
    (short : state.symbols.length ≤ bound)
    (enough : 3 * state.symbols.length ≤ fuel + slack level) :
    Judges (rule operand 0 level fuel depth) (language leafSpelling level) following state := by
  have some := List.length_pos_of_ne_nil ready.ne_nil
  induction fuel generalizing level depth following state with
  | zero =>
      cases level with
      | negated => simp only [slack] at enough; omega
      | chain joint => cases joint <;> simp only [slack] at enough <;> omega
  | succ fuel ih =>
      cases level with
      | chain joint =>
          have small := slack_below joint
          have long : 3 * state.symbols.length ≤ fuel + slack joint.below := by omega
          have each {later : Language Symbol} {other : State} (waiting : other.Ready)
              (shorter : other.symbols.length ≤ state.symbols.length)
              (stops : IsAfter joint.below later) :
              Judges (rule operand 0 joint.below fuel depth) (language leafSpelling joint.below)
                later other :=
            ih joint.below stops waiting (by omega) (by omega)
              (List.length_pos_of_ne_nil waiting.ne_nil)
          rw [rule_chain]
          refine (judges_listing code closed each after ready (Nat.le_refl _) ?_).map _
          intro rest waiting shorter
          exact judges_operands code closed each after waiting (by omega)
            (by cases joint <;> simp only [slack] at enough <;> omega)
      | negated =>
          refine judges_negated code closed leaves ?_ ready short
          intro level later rest stops waiting shorter
          refine ih level stops waiting (by omega) ?_ (List.length_pos_of_ne_nil waiting.ne_nil)
          simp only [slack] at enough
          omega

end Parser
end Concordance.Query
