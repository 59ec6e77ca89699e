import Concordance.Proofs.Query.Grammar

/-! How deep a query is nested, told by reading its symbols from left to right. -/
namespace Concordance.Query

/-- What can be open at a point of a query: the operand of a negation, a group, or the round brackets
of an aggregate or of a list of values. -/
inductive Opening where
  | negation
  | group
  | list
deriving DecidableEq, Repr

/-- The number of negations and groups that are open. -/
def depth (opened : List Opening) : Nat := opened.countP (· ≠ .list)

/-- What has been read of a query: what is open, the innermost first, and whether an operand may
begin next. -/
structure Scan where
  opened : List Opening
  atOperand : Bool
deriving DecidableEq, Repr

namespace Scan

def start : Scan := ⟨[], true⟩

/-- What stays open where an operand has ended: the negations of it are over. -/
def settled (opened : List Opening) : List Opening := opened.dropWhile (· = .negation)

/-- A negation or a group begins where an operand may begin. Elsewhere NOT belongs to an IN, and a
round bracket to an aggregate or to a list. An operand has ended where a joint or a closing bracket
follows it. -/
def step (scan : Scan) : Symbol → Scan
  | .word text =>
      if text = "NOT" ∧ scan.atOperand then ⟨.negation :: scan.opened, true⟩
      else if text ∈ ["AND", "OR", "HAVING"] then ⟨settled scan.opened, true⟩
      else ⟨scan.opened, false⟩
  | .sign .openRound =>
      if scan.atOperand then ⟨.group :: scan.opened, true⟩ else ⟨.list :: scan.opened, false⟩
  | .sign .closeRound => ⟨(settled scan.opened).tail, false⟩
  | _ => ⟨scan.opened, false⟩

def run (scan : Scan) (symbols : List Symbol) : Scan := symbols.foldl step scan

/-- The greatest depth on the way through symbols. -/
def peak (scan : Scan) : List Symbol → Nat
  | [] => depth scan.opened
  | symbol :: rest => max (depth scan.opened) (peak (scan.step symbol) rest)

/-- The peak bounds the depth at every point. -/
theorem peak_le_iff {scan : Scan} {symbols : List Symbol} {bound : Nat} :
    scan.peak symbols ≤ bound ↔
      ∀ before, before <+: symbols → depth (scan.run before).opened ≤ bound := by
  induction symbols generalizing scan with
  | nil =>
      rw [peak]
      exact ⟨fun small before start => List.prefix_nil.mp start ▸ small,
        fun all => all [] List.nil_prefix⟩
  | cons symbol rest ih =>
      rw [peak, Nat.max_le, ih]
      constructor
      · intro ⟨here, later⟩ before start
        cases before with
        | nil => exact here
        | cons first more =>
            obtain ⟨rfl, follows⟩ := List.cons_prefix_cons.mp start
            exact later more follows
      · intro all
        exact ⟨all [] List.nil_prefix, fun before start =>
          all (symbol :: before) (List.cons_prefix_cons.mpr ⟨rfl, start⟩)⟩

/-- The peak is never below the depth it starts from. -/
theorem depth_le_peak (scan : Scan) (symbols : List Symbol) :
    depth scan.opened ≤ scan.peak symbols := by
  cases symbols with
  | nil => exact Nat.le_refl _
  | cons symbol rest => exact Nat.le_max_left _ _

/-- A scan goes through one sequence after another. -/
theorem run_append (scan : Scan) (first second : List Symbol) :
    scan.run (first ++ second) = (scan.run first).run second := List.foldl_append

/-- The peak over two sequences is the greater of their peaks. -/
theorem peak_append (scan : Scan) (first second : List Symbol) :
    scan.peak (first ++ second) = max (scan.peak first) ((scan.run first).peak second) := by
  induction first generalizing scan with
  | nil =>
      have begun := depth_le_peak scan second
      show scan.peak second = max (depth scan.opened) (scan.peak second)
      omega
  | cons symbol rest ih =>
      show max _ ((scan.step symbol).peak (rest ++ second)) = max (max _ _) _
      rw [ih, Nat.max_assoc]
      rfl

/-- Symbols lead from one scan to another and open nothing that counts on the way. -/
structure Passes (first : Scan) (symbols : List Symbol) (last : Scan) : Prop where
  run : first.run symbols = last
  peak : first.peak symbols = depth first.opened

theorem Passes.nil (scan : Scan) : Passes scan [] scan := ⟨rfl, rfl⟩

theorem Passes.cons {first last : Scan} {symbol : Symbol} {rest : List Symbol}
    (level : depth (first.step symbol).opened = depth first.opened)
    (passes : Passes (first.step symbol) rest last) : Passes first (symbol :: rest) last where
  run := passes.run
  peak := by rw [Scan.peak, passes.peak, level, Nat.max_self]

/-- Passing two sequences one after another is passing both. -/
theorem Passes.append {first middle last : Scan} {symbols rest : List Symbol}
    (left : Passes first symbols middle) (level : depth middle.opened = depth first.opened)
    (right : Passes middle rest last) : Passes first (symbols ++ rest) last where
  run := by rw [run_append, left.run, right.run]
  peak := by rw [peak_append, left.run, left.peak, right.peak, level, Nat.max_self]

/-- A symbol that neither opens nor closes anything. -/
def isPlain : Symbol → Bool
  | .word text => text ∉ ["NOT", "AND", "OR", "HAVING"]
  | .sign kind => kind ≠ .openRound ∧ kind ≠ .closeRound
  | _ => true

theorem step_of_isPlain {symbol : Symbol} (plain : isPlain symbol = true) (scan : Scan) :
    scan.step symbol = ⟨scan.opened, false⟩ := by
  unfold step
  split <;> simp_all [isPlain]

/-- Plain symbols leave open what is open. -/
theorem passes_of_isPlain {symbols : List Symbol}
    (plain : ∀ symbol ∈ symbols, isPlain symbol = true) (opened : List Opening) :
    Passes ⟨opened, false⟩ symbols ⟨opened, false⟩ := by
  induction symbols with
  | nil => exact .nil _
  | cons symbol rest ih =>
      rw [List.forall_mem_cons] at plain
      have step := step_of_isPlain plain.1 ⟨opened, false⟩
      apply Passes.cons
      · rw [step]
      · rw [step]
        exact ih plain.2

theorem passes_cons_of_isPlain {symbol : Symbol} {rest : List Symbol}
    (plain : ∀ other ∈ symbol :: rest, isPlain other = true) (scan : Scan) :
    Passes scan (symbol :: rest) ⟨scan.opened, false⟩ := by
  rw [List.forall_mem_cons] at plain
  have step := step_of_isPlain plain.1 scan
  exact .cons (by rw [step]) (step ▸ passes_of_isPlain plain.2 scan.opened)

/-- The brackets of an aggregate or of a list do not count. -/
theorem passes_brackets {inner : List Symbol} (plain : ∀ symbol ∈ inner, isPlain symbol = true)
    (opened : List Opening) :
    Passes ⟨opened, false⟩ (.sign .openRound :: (inner ++ [.sign .closeRound]))
      ⟨opened, false⟩ := by
  have inside := passes_of_isPlain plain (.list :: opened)
  have closing : Passes ⟨.list :: opened, false⟩ [.sign .closeRound] ⟨opened, false⟩ :=
    .cons rfl (.nil _)
  exact .cons rfl (inside.append rfl closing)

end Scan

open Scan

theorem isPlain_of_free {text : String} (free : text ∉ reserved) :
    isPlain (.word text) = true := by
  simp only [reserved, List.mem_cons, List.not_mem_nil, or_false, not_or] at free
  simp [isPlain, free]

theorem Identifier.isPlain_symbol (identifier : Identifier) :
    isPlain identifier.symbol = true := by
  cases identifier with
  | bare text free => exact isPlain_of_free free
  | quoted lexeme => rfl

theorem Segment.isPlain_symbol (segment : Segment) : isPlain segment.symbol = true := by
  cases segment with
  | named identifier => exact identifier.isPlain_symbol
  | index lexeme whole => rfl

/-- The symbols of a key open and close nothing. -/
theorem KeyPhrase.isPlain_spelling (phrase : KeyPhrase) :
    ∀ symbol ∈ phrase.spelling, isPlain symbol = true := by
  unfold KeyPhrase.spelling
  simp only [List.forall_mem_cons, List.mem_flatMap]
  refine ⟨phrase.first.isPlain_symbol, ?_⟩
  rintro symbol ⟨segment, -, member⟩
  simp only [List.mem_cons, List.not_mem_nil, or_false] at member
  rcases member with rfl | rfl
  · rfl
  · exact segment.isPlain_symbol

/-- The symbols of a value open and close nothing. -/
theorem ValuePhrase.isPlain_spelling (phrase : ValuePhrase) :
    ∀ symbol ∈ phrase.spelling, isPlain symbol = true := by
  unfold ValuePhrase.spelling
  split <;> simp [isPlain]

/-- The spelling of a leaf is passed, and no operand may begin after it. -/
def Settles (spelling : List Symbol) : Prop :=
  ∀ opened, Passes ⟨opened, true⟩ spelling ⟨opened, false⟩

/-- A word leaves what is open as it was. -/
theorem settles_word (lexeme : List Char) : Settles (wordSpelling lexeme) :=
  fun _ => .cons rfl (.nil _)

/-- A target leaves what is open as it was. -/
theorem passes_target (phrase : TargetPhrase) (opened : List Opening) :
    Passes ⟨opened, true⟩ phrase.spelling ⟨opened, false⟩ := by
  obtain ⟨aggregate, key⟩ := phrase
  cases aggregate with
  | none => exact passes_cons_of_isPlain key.isPlain_spelling _
  | some aggregate =>
      have name : isPlain (.word aggregate.name) = true := by
        cases aggregate <;> decide
      have step := step_of_isPlain name ⟨opened, true⟩
      exact .cons (by rw [step]) (step ▸ passes_brackets key.isPlain_spelling opened)

/-- A test leaves what is open as it was. -/
theorem passes_test (phrase : TestPhrase) (opened : List Opening) :
    Passes ⟨opened, false⟩ phrase.spelling ⟨opened, false⟩ := by
  have values (first : ValuePhrase) (rest : List ValuePhrase) :
      ∀ symbol ∈ first.spelling ++ rest.flatMap fun value => .sign .comma :: value.spelling,
        isPlain symbol = true := by
    rw [List.forall_mem_append]
    refine ⟨first.isPlain_spelling, ?_⟩
    simp only [List.mem_flatMap]
    rintro symbol ⟨value, -, member⟩
    rcases List.mem_cons.mp member with rfl | member
    · rfl
    · exact value.isPlain_spelling symbol member
  cases phrase with
  | compare comparison value =>
      have sign : isPlain (.sign comparison.kind) = true := by
        cases comparison <;> rfl
      exact passes_cons_of_isPlain
        (List.forall_mem_cons.mpr ⟨sign, value.isPlain_spelling⟩) ⟨opened, false⟩
  | within negated first rest =>
      have list := passes_brackets (values first rest) opened
      cases negated with
      | true => exact .cons rfl (.cons rfl list)
      | false => exact .cons rfl list

/-- A condition leaves what is open as it was. -/
theorem settles_condition (phrase : ConditionPhrase) : Settles phrase.spelling :=
  fun opened => (passes_target phrase.target opened).append rfl (passes_test phrase.test opened)

section Phrases

variable {α : Type} {leafSpelling : α → List Symbol}

theorem depth_replicate_append (count : Nat) (opened : List Opening) :
    depth (List.replicate count .negation ++ opened) = count + depth opened := by
  simp [depth, List.countP_append, List.countP_replicate]

/-- A chain begins where no negation is waiting for its operand. -/
def IsOpen : Level → List Opening → Prop
  | .chain _, opened => opened.head? ≠ some .negation
  | .negated, _ => True

/-- An operand that is complete closes the negations before it. -/
theorem settled_replicate_append {opened : List Opening} (free : opened.head? ≠ some .negation)
    (count : Nat) : settled (List.replicate count .negation ++ opened) = opened := by
  induction count with
  | zero =>
      cases opened with
      | nil => rfl
      | cons first rest =>
          have different : first ≠ .negation := by simpa using free
          simp [settled, different]
  | succ count ih => simpa [settled, List.replicate_succ] using ih

/-- Through the spelling of a phrase the depth grows by its nesting. Behind it only negations are left
open that end where the phrase ends. -/
theorem Phrase.peak_spelling (leaves : ∀ leaf, Settles (leafSpelling leaf)) {level : Level}
    (phrase : Phrase α level) : ∀ opened, IsOpen level opened →
      Scan.peak ⟨opened, true⟩ (phrase.spelling leafSpelling) = depth opened + phrase.nesting ∧
        ∃ count ≤ phrase.nesting, Scan.run ⟨opened, true⟩ (phrase.spelling leafSpelling) =
          ⟨List.replicate count .negation ++ opened, false⟩ := by
  induction phrase with
  | @last joint part ih =>
      intro opened free
      exact ih opened (by cases joint with | or => exact free | and => exact True.intro)
  | @joined joint first rest ihFirst ihRest =>
      intro opened free
      have begins : IsOpen joint.below opened := by
        cases joint with | or => exact free | and => exact True.intro
      obtain ⟨firstPeak, firstCount, firstFew, firstRun⟩ := ihFirst opened begins
      obtain ⟨restPeak, restCount, restFew, restRun⟩ := ihRest opened free
      have joined : Scan.step ⟨List.replicate firstCount .negation ++ opened, false⟩
          (.word joint.word) = ⟨opened, true⟩ := by
        have settle := settled_replicate_append free firstCount
        cases joint <;> simp [Scan.step, Joint.word, settle]
      have through := depth_replicate_append firstCount opened
      rw [Phrase.spelling, Phrase.nesting]
      refine ⟨?_, restCount, by omega, ?_⟩
      · rw [peak_append, firstRun, firstPeak, Scan.peak, joined, restPeak]
        simp only [through]
        omega
      · rw [run_append, firstRun]
        show Scan.run (Scan.step _ _) _ = _
        rw [joined, restRun]
  | not inner ih =>
      intro opened _
      obtain ⟨peak, count, few, run⟩ := ih (.negation :: opened) True.intro
      have deeper : depth (.negation :: opened) = depth opened + 1 := by simp [depth]
      have opens : Scan.step ⟨opened, true⟩ (.word "NOT") = ⟨.negation :: opened, true⟩ := rfl
      rw [Phrase.spelling, Phrase.nesting]
      refine ⟨?_, count + 1, by omega, ?_⟩
      · rw [Scan.peak, opens, peak, deeper]
        show max (depth opened) _ = _
        omega
      · show Scan.run (Scan.step _ _) _ = _
        rw [opens, run, List.replicate_succ', List.append_assoc]
        rfl
  | group inner ih =>
      intro opened _
      obtain ⟨peak, count, few, run⟩ := ih (.group :: opened) (by simp [IsOpen])
      have deeper : depth (.group :: opened) = depth opened + 1 := by simp [depth]
      have opens : Scan.step ⟨opened, true⟩ (.sign .openRound) = ⟨.group :: opened, true⟩ := rfl
      have closes : Scan.step ⟨List.replicate count .negation ++ .group :: opened, false⟩
          (.sign .closeRound) = ⟨opened, false⟩ := by
        rw [Scan.step, settled_replicate_append (by simp)]
        rfl
      have through := depth_replicate_append count (.group :: opened)
      rw [Phrase.spelling, Phrase.nesting]
      refine ⟨?_, 0, Nat.zero_le _, ?_⟩
      · rw [Scan.peak, opens, peak_append, run, peak, Scan.peak, closes]
        simp only [Scan.peak, through, deeper]
        omega
      · show Scan.run (Scan.step _ _) _ = _
        rw [opens, run_append, run]
        exact closes
  | leaf leaf =>
      intro opened _
      have passes := leaves leaf opened
      exact ⟨passes.peak, 0, Nat.le_refl 0, passes.run⟩

end Phrases

/-- The nesting of a part of a query, none when the part is missing. -/
def nestingOf {α : Type} : Option (FormulaPhrase α) → Nat
  | none => 0
  | some phrase => phrase.nesting

theorem isPlain_ending (limit : Option LimitPhrase) (semicolon : Bool) :
    ∀ symbol ∈ QueryPhrase.spellLimit limit ++ QueryPhrase.spellEnd semicolon,
      isPlain symbol = true := by
  cases limit <;> cases semicolon <;> simp [QueryPhrase.spellLimit, QueryPhrase.spellEnd, isPlain]

/-- A limit and the end go no deeper. -/
theorem peak_ending (limit : Option LimitPhrase) (semicolon : Bool) (scan : Scan) :
    scan.peak (QueryPhrase.spellLimit limit ++ QueryPhrase.spellEnd semicolon) =
      depth scan.opened := by
  have plain := isPlain_ending limit semicolon
  obtain ⟨symbol, rest, filled⟩ : ∃ symbol rest,
      QueryPhrase.spellLimit limit ++ QueryPhrase.spellEnd semicolon = symbol :: rest := by
    apply List.exists_cons_of_ne_nil
    cases semicolon <;> simp [QueryPhrase.spellEnd]
  rw [filled] at plain ⊢
  exact (passes_cons_of_isPlain plain scan).peak

/-- Behind the words of a query only negations are open, and HAVING ends them. -/
theorem peak_having (having : Option (FormulaPhrase ConditionPhrase)) (limit : Option LimitPhrase)
    (semicolon : Bool) (count : Nat) (atOperand : Bool) :
    Scan.peak ⟨List.replicate count .negation, atOperand⟩ (QueryPhrase.spellHaving having ++
      (QueryPhrase.spellLimit limit ++ QueryPhrase.spellEnd semicolon)) =
        max count (nestingOf having) := by
  have level : depth (List.replicate count .negation) = count := by
    simpa [depth] using depth_replicate_append count []
  cases having with
  | none =>
      have ending := peak_ending limit semicolon ⟨List.replicate count .negation, atOperand⟩
      exact (ending.trans level).trans (Nat.max_zero count).symm
  | some phrase =>
      obtain ⟨peak, left, few, run⟩ := Phrase.peak_spelling settles_condition phrase [] (by simp [IsOpen])
      have begins : Scan.step ⟨List.replicate count .negation, atOperand⟩ (.word "HAVING") =
          ⟨[], true⟩ := by
        have nothing : ([] : List Opening).head? ≠ some .negation := by simp
        have settle := settled_replicate_append nothing count
        rw [List.append_nil] at settle
        simp [Scan.step, settle]
      have nothing : depth [] = 0 := rfl
      have after := depth_replicate_append left []
      rw [QueryPhrase.spellHaving, List.cons_append, Scan.peak, begins, peak_append, peak, run,
        peak_ending]
      simp only [level, after, nothing, nestingOf]
      omega

/-- On the spelling of a query no more is open at once than its formulas are nested. -/
theorem QueryPhrase.peak_spelling (phrase : QueryPhrase) :
    Scan.start.peak phrase.spelling = max (nestingOf phrase.words) (nestingOf phrase.having) := by
  obtain ⟨words, having, limit, semicolon⟩ := phrase
  rw [QueryPhrase.spelling]
  cases words with
  | none => exact peak_having having limit semicolon 0 true
  | some phrase =>
      obtain ⟨peak, left, few, run⟩ := Phrase.peak_spelling settles_word phrase [] (by simp [IsOpen])
      have nothing : depth [] = 0 := rfl
      rw [QueryPhrase.spellWords, peak_append, Scan.start, peak, run, List.append_nil, peak_having]
      simp only [nothing, nestingOf]
      omega

end Concordance.Query
