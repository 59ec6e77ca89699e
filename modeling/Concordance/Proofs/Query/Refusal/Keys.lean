import Concordance.Proofs.Query.Refusal.Judging
import Concordance.Proofs.Text.Split

namespace Concordance

namespace Key

/-- Names make a key where none of them has a gap. -/
theorem exists_ofSegments_iff {names : List String} (some : names ≠ []) :
    (∃ key, ofSegments names = .ok key) ↔ ∀ name ∈ names, isDotted name = true := by
  have whole : isDotted (String.ofList (Text.join ['.'] (names.map String.toList))) = true ↔
      ∀ name ∈ names, isDotted name = true := by
    have filled : names.map String.toList ≠ [] := by simpa using some
    have joined : Text.pieces (· == '.') (Text.join ['.'] (names.map String.toList)) =
        (names.map String.toList).flatMap (Text.pieces (· == '.')) := Text.pieces_join rfl filled
    simp only [isDotted, String.toList_ofList, joined]
    simp
  rw [ofSegments, parse, ofName?, ← whole]
  constructor
  · rintro ⟨key, made⟩
    by_contra gap
    rw [dif_neg gap] at made
    cases made
  · intro dotted
    rw [dif_pos dotted]
    exact ⟨_, rfl⟩

end Key

namespace Query

theorem nameSpelling_append (first : Identifier) (before after : List Segment) :
    nameSpelling first (before ++ after) = nameSpelling first before ++ laterSpelling after := by
  simp [nameSpelling, laterSpelling]

theorem length_laterSpelling (rest : List Segment) :
    (laterSpelling rest).length = 2 * rest.length := by
  induction rest with
  | nil => rfl
  | cons segment rest ih =>
      simp only [laterSpelling, List.flatMap_cons, List.length_append, List.length_cons,
        List.length_nil] at ih ⊢
      omega

theorem length_nameSpelling (first : Identifier) (rest : List Segment) :
    (nameSpelling first rest).length = 2 * rest.length + 1 :=
  congrArg Nat.succ (length_laterSpelling rest)

/-- A dot after names. -/
theorem length_nameSpelling_dot (first : Identifier) (rest : List Segment) :
    (nameSpelling first rest ++ [Symbol.sign .dot]).length = 2 * (rest.length + 1) := by
  rw [List.length_append, length_nameSpelling]
  rfl

theorem nameSpelling_append_dot (first : Identifier) (before : List Segment) (later : List Symbol) :
    nameSpelling first before ++ .sign .dot :: later =
      (nameSpelling first before ++ [.sign .dot]) ++ later := by
  rw [List.append_assoc]
  rfl

theorem nameSpelling_append_cons (first : Identifier) (before : List Segment) (name : Segment)
    (others : List Segment) (after : List Symbol) :
    nameSpelling first (before ++ name :: others) ++ after =
      nameSpelling first before ++
        .sign .dot :: name.symbol :: (laterSpelling others ++ after) := by
  rw [nameSpelling_append, List.append_assoc]
  rfl

theorem Segment.symbol_ne_sign (segment : Segment) (kind : TokenKind) :
    segment.symbol ≠ .sign kind := by
  cases segment with
  | named identifier => exact identifier.symbol_ne_sign kind
  | index lexeme whole => simp [symbol]

theorem closed_nameSpelling (first : Identifier) (rest : List Segment) :
    Closed (nameSpelling first rest) := by
  refine .cons (first.symbol_ne_sign _) ?_
  induction rest with
  | nil => exact closed_nil
  | cons segment rest ih =>
      have name : Closed [.sign .dot, segment.symbol] := by
        simpa [Closed] using segment.symbol_ne_sign .dot
      exact name.append ih

/-- Names that are followed by a dot and a name are not all the names of a key. -/
theorem exists_of_laterSpelling {names others : List Segment} {rest after : List Symbol}
    (ends : after.head? ≠ some (.sign .dot))
    (same : laterSpelling names ++ rest = laterSpelling others ++ after) :
    ∃ more, others = names ++ more ∧ rest = laterSpelling more ++ after := by
  induction names generalizing others with
  | nil => exact ⟨others, rfl, same⟩
  | cons name names ih =>
      cases others with
      | nil =>
          have follows : after.head? = some (.sign .dot) := (congrArg List.head? same).symm
          exact absurd follows ends
      | cons other others =>
          simp only [laterSpelling, List.flatMap_cons, List.cons_append, List.nil_append,
            List.cons.injEq, true_and] at same
          obtain ⟨more, rfl, left⟩ := ih same.2
          rw [Segment.symbol_injective same.1]
          exact ⟨more, rfl, left⟩

/-- A name has no gap where none of its segments has. -/
theorem gapPlace_eq_none_iff {first : Identifier} {rest : List Segment} :
    gapPlace first rest = none ↔
      ∀ name ∈ first.name :: rest.map Segment.name, isDotted name = true := by
  simp [gapPlace, List.findIdx?_eq_none_iff]

/-- What keys are spelt by. -/
def keyLanguage : Language Symbol := spellings KeyPhrase.spelling

/-- A name without a gap is a key. -/
theorem nameSpelling_mem {first : Identifier} {rest : List Segment}
    (gapless : gapPlace first rest = none) : nameSpelling first rest ∈ keyLanguage := by
  obtain ⟨key, joined⟩ := (Key.exists_ofSegments_iff (List.cons_ne_nil _ _)).mpr
    (gapPlace_eq_none_iff.mp gapless)
  exact ⟨⟨first, rest, key, joined⟩, rfl⟩

theorem KeyPhrase.gapPlace_eq_none (phrase : KeyPhrase) :
    gapPlace phrase.first phrase.rest = none :=
  gapPlace_eq_none_iff.mpr
    ((Key.exists_ofSegments_iff (List.cons_ne_nil _ _)).mp ⟨_, phrase.joined⟩)

/-- The first name with a gap is the first of all, or follows names without gaps. -/
theorem exists_gap {first : Identifier} {rest : List Segment} {place : Nat}
    (gap : gapPlace first rest = some place) : place = 0 ∧ isDotted first.name = false ∨
      ∃ before name after, rest = before ++ name :: after ∧ place = before.length + 1 ∧
        gapPlace first before = none ∧ isDotted name.name = false := by
  simp only [gapPlace, List.findIdx?_cons] at gap ⊢
  by_cases dotted : isDotted first.name = true
  · right
    simp only [dotted, Bool.not_true, Bool.false_eq_true, if_false, Option.map_eq_some_iff] at gap ⊢
    obtain ⟨index, found, rfl⟩ := gap
    obtain ⟨inside, blank, earlier⟩ := List.findIdx?_eq_some_iff_getElem.mp found
    rw [List.length_map] at inside
    refine ⟨rest.take index, rest[index], rest.drop (index + 1), ?_, ?_, ?_, ?_⟩
    · rw [List.getElem_cons_drop, List.take_append_drop]
    · rw [List.length_take, Nat.min_eq_left (Nat.le_of_lt inside)]
    · simp only [Option.map_eq_none_iff, List.findIdx?_eq_none_iff, List.mem_map]
      rintro _ ⟨segment, member, rfl⟩
      obtain ⟨place, lower, rfl⟩ := List.mem_iff_getElem.mp member
      rw [List.length_take] at lower
      have before := earlier place (by omega)
      simpa using before
    · simpa using blank
  · rw [Bool.not_eq_true] at dotted
    rw [dotted] at gap
    cases gap
    exact .inl ⟨rfl, dotted⟩

/-- Names that make no key have a first one with a gap. -/
theorem exists_gapPlace {first : Identifier} {rest : List Segment} {fault : Fault}
    (failed : Key.ofSegments (first.name :: rest.map Segment.name) = .error fault) :
    ∃ place, gapPlace first rest = some place := by
  cases gap : gapPlace first rest with
  | some place => exact ⟨place, rfl⟩
  | none =>
      obtain ⟨key, joined⟩ := (Key.exists_ofSegments_iff (List.cons_ne_nil _ _)).mpr
        (gapPlace_eq_none_iff.mp gap)
      cases failed.symm.trans joined

/-- The name that completes a key. -/
def letter : Identifier := .bare "a" (by decide)

theorem isDotted_letter : isDotted letter.name = true := by decide

/-- Some key is made of fillers. -/
theorem fillable_key : Fillable keyLanguage :=
  ⟨nameSpelling letter [], nameSpelling_mem (by decide), by decide⟩

section

variable {following : Language Symbol} {first : Identifier} {symbols after : List Symbol}
  {reported : Nat}

/-- A first name with a gap begins no key. -/
theorem halts_first (blank : isDotted first.name = false)
    (blames : Blames (first.symbol :: after) 0 reported) :
    Halts keyLanguage following (first.symbol :: after) true 0 reported where
  within := Nat.succ_pos _
  viable := ⟨nameSpelling letter [], nameSpelling_mem (by decide), by decide, fun _ => rfl⟩
  dead more _ same member := by
    obtain ⟨_, ⟨phrase, rfl⟩, others, -, spelt⟩ := Language.mem_mul.mp member
    have head : phrase.first.symbol = first.symbol :=
      Option.some.inj ((congrArg List.head? spelt).trans (same rfl))
    have dotted := phrase.gapPlace_eq_none
    rw [Identifier.symbol_injective head] at dotted
    simp [gapPlace, List.findIdx?_cons, blank] at dotted
  blames := blames

/-- Behind names and a dot a key goes on with a name. -/
theorem exists_name_of_mem (ends : ∀ whole ∈ following, whole.head? ≠ some (.sign .dot))
    {before : List Segment} {more : List Symbol}
    (member : nameSpelling first before ++ .sign .dot :: more ∈ keyLanguage * following) :
    ∃ (name : Segment) (others : List Segment) (rest : List Symbol),
      more = name.symbol :: rest ∧ gapPlace first (before ++ name :: others) = none := by
  obtain ⟨_, ⟨phrase, rfl⟩, others, follows, same⟩ := Language.mem_mul.mp member
  obtain ⟨named, later⟩ := List.cons.inj same
  obtain ⟨names, whole, left⟩ := exists_of_laterSpelling (ends _ follows) later.symm
  have dotted := phrase.gapPlace_eq_none
  rw [Identifier.symbol_injective named, whole] at dotted
  cases names with
  | nil =>
      have follow : others.head? = some (.sign .dot) := (congrArg List.head? left).symm
      exact absurd follow (ends _ follows)
  | cons name names => exact ⟨name, names, _, (List.cons.inj left).2, dotted⟩

/-- Behind names without gaps and a dot, a name completes a key. -/
theorem gapPlace_append_letter {before : List Segment} (gapless : gapPlace first before = none) :
    gapPlace first (before ++ [.named letter]) = none := by
  rw [gapPlace_eq_none_iff] at gapless ⊢
  intro name member
  rw [List.map_append, ← List.cons_append] at member
  obtain early | last := List.mem_append.mp member
  · exact gapless name early
  · rw [List.mem_singleton.mp last]
    exact isDotted_letter

/-- Behind a dot a key goes on with its names only. -/
theorem halts_later (ends : ∀ whole ∈ following, whole.head? ≠ some (.sign .dot))
    {before : List Segment} {symbol : Symbol} {gap : Bool} (gapless : gapPlace first before = none)
    (apart : ∀ (name : Segment) (others : List Segment) (rest : List Symbol),
      gapPlace first (before ++ name :: others) = none →
        Alike (name.symbol :: rest) (symbol :: after) → ¬ (gap = true → name.symbol = symbol))
    (blames : if gap = true then
        Blames (nameSpelling first before ++ .sign .dot :: symbol :: after)
          (2 * (before.length + 1)) reported
      else reported = 2 * (before.length + 1)) :
    Halts keyLanguage following (nameSpelling first before ++ .sign .dot :: symbol :: after) gap
      (2 * (before.length + 1)) reported := by
  have long := length_nameSpelling_dot first before
  have taken : (nameSpelling first before ++ .sign .dot :: symbol :: after).take
      (2 * (before.length + 1)) = nameSpelling first before ++ [.sign .dot] := by
    rw [nameSpelling_append_dot, List.take_left' long]
  have dropped : (nameSpelling first before ++ .sign .dot :: symbol :: after).drop
      (2 * (before.length + 1)) = symbol :: after := by
    rw [nameSpelling_append_dot, List.drop_left' long]
  refine ⟨?_, ?_, fun more alike same member => ?_, blames⟩
  · rw [nameSpelling_append_dot, List.length_append, long, List.length_cons]
    omega
  · refine ⟨[letter.symbol], ?_, by decide, fun _ => rfl⟩
    have spelt := nameSpelling_mem (gapPlace_append_letter gapless)
    rw [nameSpelling_append] at spelt
    rw [taken, List.append_assoc]
    exact spelt
  · rw [taken, List.append_assoc] at member
    rw [dropped] at alike same
    obtain ⟨name, others, rest, rfl, dotted⟩ := exists_name_of_mem ends member
    exact apart name others rest dotted alike fun blank => Option.some.inj (same blank)

/-- The first name with a gap begins no key behind those before it. -/
theorem halts_gap (ends : ∀ whole ∈ following, whole.head? ≠ some (.sign .dot))
    {rest : List Segment} {place : Nat} (gap : gapPlace first rest = some place)
    (blames : Blames (nameSpelling first rest ++ after) (2 * place) reported) :
    Halts keyLanguage following (nameSpelling first rest ++ after) true (2 * place) reported := by
  obtain ⟨rfl, blank⟩ | ⟨before, name, others, rfl, rfl, gapless, blank⟩ := exists_gap gap
  · exact halts_first blank blames
  · rw [nameSpelling_append_cons] at blames ⊢
    refine halts_later ends gapless (fun other more rest dotted _ same => ?_) blames
    have filled := gapPlace_eq_none_iff.mp dotted other.name (by simp)
    rw [Segment.symbol_injective (same rfl), blank] at filled
    cases filled

/-- What stands behind a dot and is no name goes on with no key. -/
theorem halts_noName (ends : ∀ whole ∈ following, whole.head? ≠ some (.sign .dot))
    {before : List Segment} {symbol : Symbol} (gapless : gapPlace first before = none)
    (noName : ∀ name : Segment, name.symbol ≠ symbol) :
    Halts keyLanguage following (nameSpelling first before ++ .sign .dot :: symbol :: after) false
      (2 * (before.length + 1)) (2 * (before.length + 1)) := by
  refine halts_later ends gapless (fun name _ rest _ alike _ => ?_) rfl
  obtain same | ⟨_, other, -, there⟩ := alike
  · exact noName name (Option.some.inj same)
  · exact noName (.named other) (Option.some.inj there).symm

end

namespace Parser

variable {state : State}

/-- A name is taken, or the rule stops at what is none. -/
theorem segment_cases (isFirst : Bool) (ready : state.Ready) :
    (∃ name, segmentOf isFirst state.next = some name ∧
      segment isFirst state = .ok name state.onward ∧
      Passes state [state.next.symbol] state.onward) ∨
    segmentOf isFirst state.next = none ∧
      segment isFirst state = .error .unexpected (state.note .identifier state.index) := by
  have peeked : peek state = .ok state.next state := rfl
  unfold segment
  rw [bind_of_ok peeked]
  cases found : segmentOf isFirst state.next with
  | some name =>
      have plain : state.next.symbol.isFinal = false := by
        rw [isFinal_symbol]
        cases kind : state.next.kind <;> first | rfl | simp [segmentOf, kind] at found
      exact .inl ⟨name, rfl, step_eq name, passes_onward ready rfl plain⟩
  | none => exact .inr ⟨rfl, rfl⟩

/-- A token that names a segment has the symbol of one. -/
theorem exists_name {token : Token} {name : String} (found : segmentOf false token = some name) :
    ∃ segment : Segment, segment.name = name ∧ token.symbol = segment.symbol := by
  obtain ⟨identifier, named, same⟩ | ⟨-, named⟩ := exists_segment found
  · exact ⟨.named identifier, named, same⟩
  · exact named

/-- The later names of a key are read up to where no dot is, or up to a dot without a name. -/
theorem moreSegments_cases {fuel : Nat} (ready : state.Ready)
    (enough : state.symbols.length ≤ fuel) : ∃ segments : List Segment,
      (∃ rest, moreSegments fuel state = .ok (segments.map Segment.name) rest ∧
        Passes state (laterSpelling segments) rest ∧ rest.furthest = state.furthest ∧
        rest.symbols.head? ≠ some (.sign .dot)) ∨
      ∃ last symbol after, moreSegments fuel state = .error .unexpected last ∧
        state.symbols = laterSpelling segments ++ .sign .dot :: symbol :: after ∧
        (∀ name : Segment, name.symbol ≠ symbol) ∧
        last.furthest = state.index + (laterSpelling segments).length + 1 := by
  induction fuel generalizing state with
  | zero => exact absurd (List.length_eq_zero_iff.mp (Nat.le_zero.mp enough)) ready.ne_nil
  | succ fuel ih =>
      have unfolded : moreSegments (fuel + 1) state =
          (if state.next.kind = .dot then do
            advance
            let first ← segment false
            let rest ← moreSegments fuel
            return first :: rest
          else return [] : Rule (List String)) state := rfl
      rw [unfolded]
      by_cases dot : state.next.kind = .dot
      · have passed := passes_sign ready dot (by decide) rfl
        rw [if_pos dot, bind_of_ok advance_eq]
        obtain ⟨name, found, run, passes⟩ | ⟨missing, run⟩ := segment_cases false passed.ready
        · obtain ⟨segment, rfl, spelt⟩ := exists_name found
          rw [spelt] at passes
          have onward := passed.trans passes
          have length := onward.length
          rw [bind_of_ok run]
          obtain ⟨segments,
              ⟨rest, ran, goes, same, ends⟩ | ⟨last, symbol, after, ran, cut, others⟩⟩ :=
            ih passes.ready (by simp at length; omega)
          · exact ⟨segment :: segments,
              .inl ⟨rest, bind_of_ok ran, onward.trans goes, same, ends⟩⟩
          · obtain ⟨noName, halted⟩ := others
            refine ⟨segment :: segments,
              .inr ⟨last, symbol, after, bind_of_error ran, ?_, noName, ?_⟩⟩
            · rw [onward.reads, cut]
              rfl
            · rw [halted, onward.index, laterSpelling, laterSpelling, List.flatMap_cons,
                List.length_append]
              simp only [List.length_append, List.length_cons, List.length_nil]
              omega
        · refine ⟨[], .inr ⟨_, state.onward.next.symbol, state.onward.symbols.tail,
            bind_of_error run, ?_, ?_, ?_⟩⟩
          · rw [passed.reads, symbols_eq_cons passed.ready]
            rfl
          · intro name same
            rw [segmentOf_segment same.symm] at missing
            cases missing
          · rw [furthest_note passed.ready.settled, passed.index]
            rfl
      · exact ⟨[], .inl ⟨state, congrFun (if_neg dot) state, .refl ready, rfl,
          mt (next_isSign (by simp)).mpr dot⟩⟩

/-- What is made of the names of a key that begins at an index. -/
def joinNames (start : Nat) (names : List String) : Rule Key :=
  match Key.ofSegments names with
  | .ok key => return key
  | .error _ => do
      modify (State.note .nonEmptyKey start)
      fail

section

variable {following : Language Symbol} {rule : Rule Key} {first : Identifier}
  {segments : List Segment}

/-- Names that are read to the end make a key, or the first one with a gap is told by the beginning
of the key. -/
theorem judges_joined (ends : ∀ whole ∈ following, whole.head? ≠ some (.sign .dot))
    (ready : state.Ready) {rest : State} (passes : Passes state (nameSpelling first segments) rest)
    (still : rest.furthest = state.furthest) (noDot : rest.symbols.head? ≠ some (.sign .dot))
    (run : rule state =
      joinNames state.index (first.name :: segments.map Segment.name) rest) :
    Judges rule keyLanguage following state := by
  unfold joinNames at run
  cases joined : Key.ofSegments (first.name :: segments.map Segment.name) with
  | ok key =>
      rw [joined] at run
      let own : KeyPhrase := ⟨first, segments, key, joined⟩
      refine .of_ok run (mem_spellings own) passes fun more alike member => ?_
      obtain ⟨_, ⟨phrase, rfl⟩, others, follows, same⟩ := Language.mem_mul.mp member
      have same : phrase.spelling ++ others = own.spelling ++ more := same
      have stops : more.head? ≠ some (.sign .dot) :=
        mt (alike.head?_iff fun identifier => identifier.symbol_ne_sign .dot).mp noDot
      obtain ⟨-, rfl⟩ := KeyPhrase.eq_of_spelling (ends _ follows) stops same
      exact follows
  | error fault =>
      rw [joined] at run
      obtain ⟨place, gap⟩ := exists_gapPlace joined
      have cut : state.symbols = [] ++ (nameSpelling first segments ++ rest.symbols) :=
        passes.reads
      have blames := Blames.key cut closed_nil gap rfl noDot
      rw [List.length_nil, Nat.zero_add, passes.reads] at blames
      refine .of_error run ?_ (passes.reads ▸ halts_gap ends gap blames)
      refine (furthest_note ?_).trans (Nat.add_zero _).symm
      rw [still]
      exact ready.settled

/-- A dot without a name behind it ends the reading of a key, and is what is told even where a name
before it has a gap. -/
theorem judges_unnamed (ends : ∀ whole ∈ following, whole.head? ≠ some (.sign .dot))
    {last : State} {symbol : Symbol} {after : List Symbol}
    (cut : state.symbols = nameSpelling first segments ++ .sign .dot :: symbol :: after)
    (noName : ∀ name : Segment, name.symbol ≠ symbol) (run : rule state = .error .unexpected last)
    (furthest : last.furthest = state.index + 2 * (segments.length + 1)) :
    Judges rule keyLanguage following state := by
  cases gap : gapPlace first segments with
  | none => exact .of_error run furthest (cut ▸ halts_noName ends gap noName)
  | some place =>
      have whole : state.symbols =
          [] ++ (nameSpelling first segments ++ .sign .dot :: symbol :: after) := cut
      have blames := Blames.segment whole closed_nil gap rfl noName
      rw [length_nameSpelling, List.length_nil, Nat.zero_add, Nat.zero_add, cut] at blames
      exact .of_error run furthest (cut ▸ halts_gap ends gap blames)

end

/-- Names that have no gap are read as a key, and others are found wanting when they are read. -/
theorem judges_key {fuel : Nat} {following : Language Symbol}
    (ends : ∀ whole ∈ following, whole.head? ≠ some (.sign .dot)) (ready : state.Ready)
    (enough : state.symbols.length ≤ fuel) : Judges (key fuel) keyLanguage following state := by
  have unfolded : key fuel state = (segment true >>= fun first => moreSegments fuel >>= fun rest =>
      joinNames state.index (first :: rest)) state := rfl
  obtain ⟨name, found, run, passes⟩ | ⟨missing, run⟩ := segment_cases true ready
  · obtain ⟨first, rfl, spelt⟩ | ⟨later, -⟩ := exists_segment found
    · rw [bind_of_ok run] at unfolded
      rw [spelt] at passes
      have short : state.onward.symbols.length ≤ fuel := (Nat.le_of_lt passes.shorter).trans enough
      obtain ⟨segments,
          ⟨rest, ran, goes, still, noDot⟩ | ⟨last, symbol, after, ran, cut, noName, furthest⟩⟩ :=
        moreSegments_cases passes.ready short
      · rw [bind_of_ok ran] at unfolded
        exact judges_joined ends ready (passes.trans goes) still noDot unfolded
      · have whole : state.symbols =
            nameSpelling first segments ++ .sign .dot :: symbol :: after := by
          rw [passes.reads, cut]
          rfl
        refine judges_unnamed ends whole noName (unfolded.trans (bind_of_error ran)) ?_
        rw [furthest, passes.index, length_laterSpelling, List.length_singleton]
        omega
    · cases later
  · refine .at_first ready (unfolded.trans (bind_of_error run)) (furthest_note ready.settled)
      fillable_key fun whole member alike => ?_
    obtain ⟨_, ⟨phrase, rfl⟩, others, -, rfl⟩ := Language.mem_mul.mp member
    have named : ∃ identifier : Identifier, state.next.symbol = identifier.symbol := by
      rw [Alike, head?_symbols ready] at alike
      obtain same | ⟨_, other, -, there⟩ := alike
      · exact ⟨phrase.first, (Option.some.inj same).symm⟩
      · exact ⟨other, Option.some.inj there⟩
    obtain ⟨identifier, symbol⟩ := named
    rw [segmentOf_identifier true symbol] at missing
    cases missing

end Parser

/-- The name of an aggregate is a name like others. -/
def Aggregate.identifier (aggregate : Aggregate) : Identifier :=
  .bare aggregate.name (by cases aggregate <;> decide)

theorem Aggregate.gapPlace_eq_none (aggregate : Aggregate) :
    gapPlace aggregate.identifier [] = none := by
  cases aggregate <;> decide

/-- A key before a bracket is one name. -/
theorem KeyPhrase.spelling_of_bracket {phrase : KeyPhrase} {symbol : Symbol}
    {more others : List Symbol}
    (same : phrase.spelling ++ more = symbol :: .sign .openRound :: others) :
    phrase.spelling = [symbol] ∧ more = .sign .openRound :: others := by
  obtain ⟨first, names, key, joined⟩ := phrase
  cases names with
  | nil =>
      obtain ⟨rfl, bracket⟩ := List.cons.inj same
      exact ⟨rfl, bracket⟩
  | cons segment names => cases (List.cons.inj (List.cons.inj same).2).1

/-- The keys that begin with a certain name, without that name. -/
def laterLanguage (first : Identifier) : Language Symbol :=
  {spelt | ∃ rest, gapPlace first rest = none ∧ laterSpelling rest = spelt}

/-- A key in round brackets. -/
def argumentLanguage : Language Symbol :=
  {[.sign .openRound]} * (keyLanguage * {[.sign .closeRound]})

def targetLanguage : Language Symbol := spellings TargetPhrase.spelling

theorem mem_target_of_key {spelt : List Symbol} (member : spelt ∈ keyLanguage) :
    spelt ∈ targetLanguage := by
  obtain ⟨phrase, rfl⟩ := member
  exact ⟨⟨none, phrase⟩, rfl⟩

/-- A target is a key, or an aggregate with a key in brackets. -/
theorem mem_targetLanguage {spelt : List Symbol} : spelt ∈ targetLanguage ↔ spelt ∈ keyLanguage ∨
    ∃ aggregate : Aggregate, ∃ argument ∈ argumentLanguage,
      spelt = .word aggregate.name :: argument := by
  constructor
  · rintro ⟨⟨_ | aggregate, phrase⟩, rfl⟩
    · exact .inl (mem_spellings phrase)
    · exact .inr ⟨aggregate, _,
        cons_mem_mul.mpr (Language.append_mem_mul (mem_spellings phrase) rfl), rfl⟩
  · rintro (⟨phrase, rfl⟩ | ⟨aggregate, argument, member, rfl⟩)
    · exact ⟨⟨none, phrase⟩, rfl⟩
    · obtain ⟨_, inside, rfl⟩ := exists_cons_of_mem_mul member
      obtain ⟨_, ⟨phrase, rfl⟩, _, rfl, rfl⟩ := Language.mem_mul.mp inside
      exact ⟨⟨some aggregate, phrase⟩, rfl⟩

/-- A target is a key, or an aggregate of one. -/
theorem mem_target_mul {following : Language Symbol} {whole : List Symbol}
    (member : whole ∈ targetLanguage * following) : whole ∈ keyLanguage * following ∨
      ∃ (aggregate : Aggregate) (more : List Symbol),
        whole = .word aggregate.name :: .sign .openRound :: more := by
  obtain ⟨target, inside, others, follows, rfl⟩ := Language.mem_mul.mp member
  obtain keyed | ⟨aggregate, argument, present, rfl⟩ := mem_targetLanguage.mp inside
  · exact .inl (Language.append_mem_mul keyed follows)
  · obtain ⟨rest, -, rfl⟩ := exists_cons_of_mem_mul present
    exact .inr ⟨aggregate, rest ++ others, rfl⟩

theorem closed_target (phrase : TargetPhrase) : Closed phrase.spelling := by
  obtain ⟨aggregate | aggregate, first, rest, key, joined⟩ := phrase
  · exact closed_nameSpelling first rest
  · exact .cons (by simp) (.cons (by simp) ((closed_nameSpelling first rest).append (by simp)))

theorem Alike.opens {more ahead : List Symbol} (alike : Alike more ahead)
    (opens : more.head? = some (.sign .openRound)) : ∃ after, ahead = .sign .openRound :: after :=
  List.head?_eq_some_iff.mp
    ((alike.head?_iff fun identifier => identifier.symbol_ne_sign .openRound).mp opens)

/-- Where no aggregate is ahead, what begins no key begins no target. -/
theorem Halts.of_key {following : Language Symbol} {symbols : List Symbol} {gap : Bool}
    {stuck reported : Nat} (halts : Halts keyLanguage (following + 1) symbols gap stuck reported)
    (apart : ∀ (aggregate : Aggregate) (more : List Symbol),
      symbols ≠ .word aggregate.name :: .sign .openRound :: more) :
    Halts targetLanguage following symbols gap stuck reported where
  within := halts.within
  viable := by
    obtain ⟨tail, member, filler⟩ := halts.viable
    exact ⟨tail, mem_target_of_key member, filler⟩
  dead more alike same whole := by
    obtain keyed | ⟨aggregate, others, cons⟩ := mem_target_mul whole
    · obtain ⟨spelt, inside, others, follows, cut⟩ := Language.mem_mul.mp keyed
      exact halts.dead more alike same (cut ▸ Language.append_mem_mul inside (.inl follows))
    · cases stuck with
      | zero =>
          -- The name of the aggregate alone would be a key.
          have head : [Symbol.word aggregate.name].head? = more.head? :=
            (congrArg List.head? cons).symm
          have key : [.word aggregate.name] ++ [] ∈ keyLanguage * (following + 1) :=
            Language.append_mem_mul (nameSpelling_mem aggregate.gapPlace_eq_none) (.inr rfl)
          refine halts.dead [.word aggregate.name] ?_ (fun blank => head.trans (same blank)) key
          rwa [Alike, head]
      | succ stuck =>
          obtain ⟨symbol, rest, rfl⟩ :=
            List.exists_cons_of_length_pos (Nat.zero_lt_of_lt halts.within)
          obtain ⟨rfl, later⟩ := List.cons.inj cons
          have begins := alike.append (rest.take stuck)
          rw [List.drop_succ_cons, List.take_append_drop] at begins
          obtain ⟨after, rfl⟩ := begins.opens (congrArg List.head? later)
          exact apart aggregate after rfl
  blames := halts.blames

namespace Parser

variable {state : State}

/-- A key in brackets. -/
theorem judges_argument {fuel : Nat} {following : Language Symbol} (ready : state.Ready)
    (opens : state.next.symbol = .sign .openRound) (enough : state.symbols.length ≤ fuel)
    (aggregate : Aggregate) : Judges (do
      advance
      let key ← key fuel
      let _ ← expect .closeRound
      return ⟨key, some aggregate⟩ : Rule Target) argumentLanguage following state := by
  have opened := passes_onward ready opens rfl
  have closing : ∀ whole ∈ ({[.sign .closeRound]} : Language Symbol) * following,
      whole.head? ≠ some (.sign .dot) := by
    intro whole member
    obtain ⟨rest, -, rfl⟩ := exists_cons_of_mem_mul member
    simp
  have short : state.onward.symbols.length ≤ fuel := (Nat.le_of_lt opened.shorter).trans enough
  refine Judges.then advance_eq opened (by simp)
    (Judges.bind (judges_key closing opened.ready short) ?_ ⟨_, rfl, by decide⟩ ?_)
  · rintro _ ⟨phrase, rfl⟩
    exact closed_nameSpelling phrase.first phrase.rest
  · exact fun _ _ passes => (judges_sign (by decide) passes.ready).map _

/-- Two symbols tell that an aggregate is meant. -/
theorem judges_aggregate {fuel : Nat} {following : Language Symbol} {aggregate : Aggregate}
    (noBracket : ∀ whole ∈ following, whole.head? ≠ some (.sign .openRound))
    (ready : state.Ready) (enough : state.symbols.length ≤ fuel)
    (found : state.aggregate = some aggregate) :
    Judges (do
      advance
      advance
      let key ← key fuel
      let _ ← expect .closeRound
      return ⟨key, some aggregate⟩ : Rule Target) targetLanguage following state := by
  obtain ⟨after, spelt⟩ := symbols_of_aggregate found
  have named := passes_onward ready (symbol_next_of_cons spelt) rfl
  have left : state.onward.symbols = .sign .openRound :: after :=
    (List.cons.inj (named.reads.symm.trans spelt)).2
  have short : state.onward.symbols.length ≤ fuel := (Nat.le_of_lt named.shorter).trans enough
  have rest : Judges _ (laterLanguage aggregate.identifier + argumentLanguage) following
      state.onward :=
    (judges_argument named.ready (symbol_next_of_cons left) short aggregate).mono (fun _ => .inr) ?_
  · refine .cons advance_eq named (by simp) (fun others member => ?_) (fun more whole => ?_) rest
    · obtain ⟨names, gapless, rfl⟩ | argument := member
      · exact mem_target_of_key (nameSpelling_mem gapless)
      · exact mem_targetLanguage.mpr (.inr ⟨aggregate, _, argument, rfl⟩)
    · obtain ⟨target, inside, others, follows, same⟩ := Language.mem_mul.mp whole
      obtain ⟨phrase, rfl⟩ | ⟨another, argument, present, rfl⟩ := mem_targetLanguage.mp inside
      · obtain ⟨first, rfl⟩ := List.cons.inj same
        have named : phrase.first = aggregate.identifier := Identifier.symbol_injective first
        have gapless := phrase.gapPlace_eq_none
        rw [named] at gapless
        exact Language.append_mem_mul (.inl ⟨phrase.rest, gapless, rfl⟩) follows
      · obtain ⟨-, rfl⟩ := List.cons.inj same
        exact Language.append_mem_mul (.inr present) follows
  · intro more alike whole
    rw [List.nil_append, add_mul] at whole
    refine whole.resolve_left fun keyed => ?_
    obtain ⟨_, ⟨rest, -, rfl⟩, others, follows, rfl⟩ := Language.mem_mul.mp keyed
    have opens := (alike.head?_iff fun identifier => identifier.symbol_ne_sign .openRound).mpr
      (congrArg List.head? left)
    cases rest with
    | nil => exact noBracket _ follows opens
    | cons name names => cases Option.some.inj opens

/-- What is no aggregate is read as a key. -/
theorem judges_plain {fuel : Nat} {following : Language Symbol}
    (ends : ∀ whole ∈ following, whole.head? ≠ some (.sign .dot))
    (ready : state.Ready) (enough : state.symbols.length ≤ fuel)
    (missing : state.aggregate = none) :
    Judges (key fuel) targetLanguage following state := by
  have apart (aggregate : Aggregate) (more : List Symbol) :
      state.symbols ≠ .word aggregate.name :: .sign .openRound :: more := by
    intro spelt
    rw [aggregate_of_symbols spelt] at missing
    cases missing
  have loose : ∀ whole ∈ following + 1, whole.head? ≠ some (.sign .dot) := by
    rintro whole (member | rfl)
    · exact ends whole member
    · simp
  have judged := judges_key loose ready enough
  refine ⟨fun refusal last failed => ?_, fun run => ?_⟩
  · obtain ⟨rfl, gap, stuck, reported, furthest, halts⟩ := judged.faults _ _ failed
    exact ⟨rfl, gap, stuck, reported, furthest, halts.of_key apart⟩
  · obtain ⟨_, ⟨own, rfl⟩, passes, leads⟩ := judged.reads run
    refine ⟨_, mem_target_of_key (mem_spellings own), passes, fun more alike whole => ?_⟩
    obtain keyed | ⟨aggregate, others, cons⟩ := mem_target_mul whole
    · obtain ⟨_, ⟨phrase, rfl⟩, others, follows, same⟩ := Language.mem_mul.mp keyed
      obtain follows | rfl := leads more alike
        (same ▸ Language.append_mem_mul (mem_spellings phrase) (.inl follows))
      · exact follows
      · obtain ⟨-, rfl⟩ := KeyPhrase.eq_of_spelling (ends _ follows) (by simp) same
        exact follows
    · obtain ⟨alone, rfl⟩ := KeyPhrase.spelling_of_bracket cons
      obtain ⟨after, left⟩ := alike.opens rfl
      have spelt := passes.reads
      rw [alone, left] at spelt
      exact absurd spelt (apart aggregate after)

/-- What the rule of targets does is told by their language where neither a dot nor a bracket
follows. -/
theorem judges_target {fuel : Nat} {following : Language Symbol}
    (ends : ∀ whole ∈ following, whole.head? ≠ some (.sign .dot))
    (noBracket : ∀ whole ∈ following, whole.head? ≠ some (.sign .openRound))
    (ready : state.Ready) (enough : state.symbols.length ≤ fuel) :
    Judges (target fuel) targetLanguage following state := by
  refine Judges.congr (target_eq fuel) ?_
  cases found : state.aggregate with
  | some aggregate => exact judges_aggregate noBracket ready enough found
  | none => exact (judges_plain ends ready enough found).map _

end Parser

end Query
end Concordance
