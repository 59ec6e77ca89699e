import Concordance.Proofs.Query.Acceptance
import Mathlib.Computability.Language

/-! What a rule does with any symbols ahead. -/
namespace Concordance.Query

/-- The later names of a key, each with the dot before it. -/
def laterSpelling (rest : List Segment) : List Symbol :=
  rest.flatMap fun segment => [.sign .dot, segment.symbol]

/-- Names with dots between them, whether or not they make a key. -/
def nameSpelling (first : Identifier) (rest : List Segment) : List Symbol :=
  first.symbol :: laterSpelling rest

/-- The place of the first name that has an empty piece between its dots. -/
def gapPlace (first : Identifier) (rest : List Segment) : Option Nat :=
  (first.name :: rest.map Segment.name).findIdx? fun name => !isDotted name

/-- No name has to follow. -/
def Closed (spelt : List Symbol) : Prop := spelt.getLast? ≠ some (.sign .dot)

instance (spelt : List Symbol) : Decidable (Closed spelt) := inferInstanceAs (Decidable (_ ≠ _))

@[simp] theorem closed_nil : Closed [] := by simp [Closed]

@[simp] theorem closed_singleton {symbol : Symbol} : Closed [symbol] ↔ symbol ≠ .sign .dot := by
  simp [Closed]

/-- A sequence is closed where both of its parts are. -/
theorem Closed.append {first second : List Symbol} (head : Closed first) (tail : Closed second) :
    Closed (first ++ second) := by
  unfold Closed at head tail ⊢
  rw [List.getLast?_append]
  cases last : second.getLast? with
  | none => exact head
  | some symbol => rwa [last] at tail

theorem Closed.cons {symbol : Symbol} {spelt : List Symbol} (plain : symbol ≠ .sign .dot)
    (tail : Closed spelt) : Closed (symbol :: spelt) :=
  Closed.append (closed_singleton.mpr plain) tail

/-- Which symbol is blamed for a name with a gap, as the rest of the key is read first: the
beginning of the key where all its names can be read, and else what stands after a dot instead of a
name. -/
inductive Blames (symbols : List Symbol) (stuck : Nat) : Nat → Prop where
  | key {before after : List Symbol} {first : Identifier} {rest : List Segment} {place : Nat}
      (cut : symbols = before ++ (nameSpelling first rest ++ after)) (begins : Closed before)
      (gap : gapPlace first rest = some place) (at_gap : stuck = before.length + 2 * place)
      (ends : after.head? ≠ some (.sign .dot)) : Blames symbols stuck before.length
  | segment {before after : List Symbol} {first : Identifier} {rest : List Segment} {place : Nat}
      {symbol : Symbol}
      (cut : symbols = before ++ (nameSpelling first rest ++ .sign .dot :: symbol :: after))
      (begins : Closed before) (gap : gapPlace first rest = some place)
      (at_gap : stuck = before.length + 2 * place)
      (noName : ∀ name : Segment, name.symbol ≠ symbol) :
      Blames symbols stuck (before.length + (nameSpelling first rest).length + 1)

/-- More symbols before the others change nothing, unless a name has to follow them. -/
theorem Blames.after {symbols : List Symbol} {stuck reported : Nat} {spelt : List Symbol}
    (closed : Closed spelt) (blames : Blames symbols stuck reported) :
    Blames (spelt ++ symbols) (spelt.length + stuck) (spelt.length + reported) := by
  cases blames with
  | @key before after first rest place cut begins gap at_gap ends =>
      have whole : spelt ++ symbols = (spelt ++ before) ++ (nameSpelling first rest ++ after) := by
        rw [cut, List.append_assoc]
      have place_eq : spelt.length + stuck = (spelt ++ before).length + 2 * place := by
        rw [at_gap, List.length_append, Nat.add_assoc]
      have blamed := Blames.key whole (closed.append begins) gap place_eq ends
      rwa [List.length_append] at blamed
  | @segment before after first rest place symbol cut begins gap at_gap noName =>
      have whole : spelt ++ symbols = (spelt ++ before) ++
          (nameSpelling first rest ++ .sign .dot :: symbol :: after) := by
        rw [cut, List.append_assoc]
      have place_eq : spelt.length + stuck = (spelt ++ before).length + 2 * place := by
        rw [at_gap, List.length_append, Nat.add_assoc]
      have blamed := Blames.segment whole (closed.append begins) gap place_eq noName
      simpa only [List.length_append, Nat.add_assoc] using blamed

/-- Two lists of symbols begin alike: with the same symbol, or both with a name. -/
def Alike (first second : List Symbol) : Prop := first.head? = second.head? ∨
  ∃ one other : Identifier, first.head? = some one.symbol ∧ second.head? = some other.symbol

namespace Alike

variable {first second : List Symbol}

/-- What is no name is told from everything else. -/
theorem head?_iff (alike : Alike first second) {symbol : Symbol}
    (plain : ∀ identifier : Identifier, identifier.symbol ≠ symbol) :
    first.head? = some symbol ↔ second.head? = some symbol := by
  obtain same | ⟨one, other, here, there⟩ := alike
  · rw [same]
  · simp [here, there, plain]

theorem append (spelt : List Symbol) (alike : Alike first second) :
    Alike (spelt ++ first) (spelt ++ second) := by
  cases spelt with
  | nil => exact alike
  | cons symbol spelt => exact .inl rfl

end Alike

theorem Identifier.symbol_ne_word (identifier : Identifier) {word : String}
    (kept : word ∈ reserved) : identifier.symbol ≠ .word word := by
  cases identifier with
  | bare text free =>
      rintro ⟨⟩
      exact free kept
  | quoted lexeme => simp [symbol]

/-- Behind what was read of words of a language, words of another one are left, whatever begins like
the symbols ahead. -/
def Leads (whole left : Language Symbol) (spelt ahead : List Symbol) : Prop :=
  ∀ more, Alike more ahead → spelt ++ more ∈ whole → more ∈ left

/-- The symbols that complete what has a completion. -/
def fillers : List Symbol :=
  [.literal [apostrophe, 'a', apostrophe], .word "a", .word "IN", .number ['1'], .sign .equals,
    .sign .openRound, .sign .closeRound]

def IsFilling (tail : List Symbol) : Prop := ∀ symbol ∈ tail, symbol ∈ fillers

instance (tail : List Symbol) : Decidable (IsFilling tail) :=
  inferInstanceAs (Decidable (∀ symbol ∈ tail, symbol ∈ fillers))

theorem IsFilling.append {first second : List Symbol} (head : IsFilling first)
    (tail : IsFilling second) : IsFilling (first ++ second) :=
  List.forall_mem_append.mpr ⟨head, tail⟩

/-- The language of what the phrases of a kind are spelt by. -/
def spellings {α : Type} (spelling : α → List Symbol) : Language Symbol :=
  {spelt | ∃ phrase, spelling phrase = spelt}

theorem mem_spellings {α : Type} {spelling : α → List Symbol} (phrase : α) :
    spelling phrase ∈ spellings spelling := ⟨phrase, rfl⟩

theorem cons_mem_mul {symbol : Symbol} {rest : List Symbol} {later : Language Symbol} :
    symbol :: rest ∈ ({[symbol]} : Language Symbol) * later ↔ rest ∈ later := by
  constructor
  · intro member
    obtain ⟨_, rfl, others, inside, same⟩ := Language.mem_mul.mp member
    cases same
    exact inside
  · intro member
    exact Language.mem_mul.mpr ⟨[symbol], rfl, rest, member, rfl⟩

theorem exists_cons_of_mem_mul {symbol : Symbol} {whole : List Symbol} {later : Language Symbol}
    (member : whole ∈ ({[symbol]} : Language Symbol) * later) :
    ∃ rest ∈ later, whole = symbol :: rest := by
  obtain ⟨_, rfl, rest, inside, rfl⟩ := Language.mem_mul.mp member
  exact ⟨rest, inside, rfl⟩

/-- The first symbol tells the words that begin with it from all others. -/
theorem mem_of_cons_mem {symbol : Symbol} {more : List Symbol}
    {later other following : Language Symbol}
    (apart : ∀ whole ∈ other * following, whole.head? ≠ some symbol)
    (member : symbol :: more ∈ ({[symbol]} * later + other) * following) :
    more ∈ later * following := by
  rw [add_mul, mul_assoc] at member
  obtain member | others := member
  · exact cons_mem_mul.mp member
  · exact absurd rfl (apart _ others)

/-- Where a certain symbol is not ahead, and is no name, no words that begin with it are left. -/
theorem leads_of_head?_ne {symbol : Symbol} {ahead : List Symbol}
    {later other following : Language Symbol}
    (plain : ∀ identifier : Identifier, identifier.symbol ≠ symbol)
    (apart : ahead.head? ≠ some symbol) :
    Leads (({[symbol]} * later + other) * following) (other * following) [] ahead := by
  intro more alike member
  rw [List.nil_append, add_mul, mul_assoc] at member
  refine member.resolve_left fun begins => apart ?_
  obtain ⟨rest, -, rfl⟩ := exists_cons_of_mem_mul begins
  exact (alike.head?_iff plain).mp rfl

/-- Some word of the language is made of fillers. -/
def Fillable (language : Language Symbol) : Prop := ∃ tail ∈ language, IsFilling tail

theorem fillable_one : Fillable 1 := ⟨[], Language.nil_mem_one, by decide⟩

/-- Some word of a product is made of fillers where words of both factors are. -/
theorem Fillable.mul {first second : Language Symbol} (head : Fillable first)
    (tail : Fillable second) : Fillable (first * second) := by
  obtain ⟨one, member, filling⟩ := head
  obtain ⟨other, present, filled⟩ := tail
  exact ⟨one ++ other, Language.append_mem_mul member present, filling.append filled⟩

/-- Symbols that begin no word of a language with what may come after it, told by the first symbol
with which they begin none. That symbol is a name with a gap where a name fits, or it is blamed
itself, and then no name fits in its place if it is one. -/
structure Halts (reading following : Language Symbol) (symbols : List Symbol) (gap : Bool)
    (stuck reported : Nat) : Prop where
  within : stuck < symbols.length
  viable : ∃ tail, symbols.take stuck ++ tail ∈ reading ∧ IsFilling tail ∧
    (¬ Closed (symbols.take stuck) ∨ gap = true → tail.head? = some (.word "a"))
  dead : ∀ more, Alike more (symbols.drop stuck) →
    (gap = true → more.head? = (symbols.drop stuck).head?) →
      symbols.take stuck ++ more ∉ reading * following
  blames : if gap = true then Blames symbols stuck reported else reported = stuck

namespace Halts

variable {reading later following : Language Symbol} {symbols spelt : List Symbol} {gap : Bool}
  {stuck reported : Nat}

/-- The symbol at fault is at fault for what begins with the same reading. -/
theorem head (halts : Halts reading (later * following) symbols gap stuck reported)
    (filled : Fillable later) : Halts (reading * later) following symbols gap stuck reported where
  within := halts.within
  viable := by
    obtain ⟨tail, member, filling, named⟩ := halts.viable
    obtain ⟨more, present, filler⟩ := filled
    refine ⟨tail ++ more, ?_, filling.append filler, fun needed => ?_⟩
    · rw [← List.append_assoc]
      exact Language.append_mem_mul member present
    · rw [List.head?_append, named needed, Option.some_or]
  dead more alike same := by
    rw [mul_assoc]
    exact halts.dead more alike same
  blames := halts.blames

/-- The symbol at fault is at fault behind what was read, where nothing else can have been. -/
theorem tail (halts : Halts later following symbols gap stuck reported) (closed : Closed spelt)
    (less : ∀ others ∈ later, spelt ++ others ∈ reading)
    (leads : Leads (reading * following) (later * following) spelt symbols) :
    Halts reading following (spelt ++ symbols) gap (spelt.length + stuck)
      (spelt.length + reported) where
  within := by
    rw [List.length_append]
    exact Nat.add_lt_add_left halts.within _
  viable := by
    obtain ⟨tail, present, filling, named⟩ := halts.viable
    rw [List.take_length_add_append]
    refine ⟨tail, ?_, filling, fun needed => named (needed.imp_left fun unclosed => ?_)⟩
    · rw [List.append_assoc]
      exact less _ present
    · exact fun shut => unclosed (closed.append shut)
  dead more alike same member := by
    rw [List.drop_length_add_append] at alike same
    rw [List.take_length_add_append, List.append_assoc] at member
    refine halts.dead more alike same (leads _ ?_ member)
    have begins := alike.append (symbols.take stuck)
    rwa [List.take_append_drop] at begins
  blames := by
    have blames := halts.blames
    cases gap with
    | true => exact blames.after closed
    | false => exact congrArg (spelt.length + ·) blames

/-- Where what is ahead tells that the smaller language is meant, its fault is that of the larger
one. -/
theorem mono {smaller larger : Language Symbol}
    (halts : Halts smaller following symbols gap stuck reported)
    (less : ∀ spelt ∈ smaller, spelt ∈ larger)
    (leads : Leads (larger * following) (smaller * following) [] symbols) :
    Halts larger following symbols gap stuck reported := by
  -- Nothing was read, so this is the case of an empty reading.
  have behind := halts.tail closed_nil less leads
  rwa [List.nil_append, List.length_nil, Nat.zero_add, Nat.zero_add] at behind

/-- The first symbol is at fault where nothing begins like it. -/
theorem at_first (filled : Fillable reading) (there : symbols ≠ [])
    (apart : ∀ whole ∈ reading * following, ¬ Alike whole symbols) :
    Halts reading following symbols false 0 0 where
  within := List.length_pos_of_ne_nil there
  viable := by
    obtain ⟨tail, member, filling⟩ := filled
    exact ⟨tail, member, filling, fun needed => by simp at needed⟩
  dead more alike _ member := apart more member alike
  blames := rfl

end Halts

namespace Parser

/-- The end of the query is ahead, and nothing behind the next token was looked for. -/
structure State.Ready (state : State) : Prop where
  ended : IsEnded state.symbols
  settled : state.furthest ≤ state.index

theorem State.Ready.ne_nil {state : State} (ready : state.Ready) : state.symbols ≠ [] := by
  intro nothing
  have ended := ready.ended
  rw [nothing] at ended
  cases ended

/-- Between two states the symbols of a phrase were read, and no others were looked at in vain. -/
structure Passes (state : State) (spelt : List Symbol) (rest : State) : Prop where
  reads : state.symbols = spelt ++ rest.symbols
  index : rest.index = state.index + spelt.length
  ready : rest.Ready

namespace Passes

variable {state middle rest : State} {first second : List Symbol}

theorem refl (ready : state.Ready) : Passes state [] state := ⟨rfl, rfl, ready⟩

theorem trans (head : Passes state first middle) (tail : Passes middle second rest) :
    Passes state (first ++ second) rest where
  reads := by rw [head.reads, tail.reads, List.append_assoc]
  index := by rw [tail.index, head.index, List.length_append, Nat.add_assoc]
  ready := tail.ready

/-- What is read is no longer ahead. -/
theorem length (passes : Passes state first rest) :
    state.symbols.length = first.length + rest.symbols.length := by
  rw [passes.reads, List.length_append]

theorem shorter {symbol : Symbol} (passes : Passes state [symbol] rest) :
    rest.symbols.length < state.symbols.length := by
  rw [passes.length, List.length_singleton]
  omega

end Passes

/-- Where a rule does not come to an end, it halts at the symbol at fault. -/
def Faults {α : Type} (rule : Rule α) (reading following : Language Symbol) (state : State) :
    Prop :=
  ∀ refusal last, rule state = .error refusal last → refusal = .unexpected ∧
    ∃ gap stuck reported, last.furthest = state.index + reported ∧
      Halts reading following state.symbols gap stuck reported

/-- What a rule does with the symbols ahead, told by the languages of what it reads and of what may
come after it. -/
structure Judges {α : Type} (rule : Rule α) (reading following : Language Symbol)
    (state : State) : Prop where
  faults : Faults rule reading following state
  reads : ∀ {result rest}, rule state = .ok result rest → ∃ spelt ∈ reading,
    Passes state spelt rest ∧ Leads (reading * following) following spelt rest.symbols

section

variable {α β : Type} {rule first : Rule α} {next : α → Rule β}
  {reading later following smaller larger : Language Symbol} {state left : State}

theorem Faults.congr {other : Rule α} (same : rule state = other state)
    (faults : Faults other reading following state) : Faults rule reading following state :=
  fun _ _ failed => faults _ _ (same.symm.trans failed)

/-- Rules that do the same at a state are told alike there. -/
theorem Judges.congr {other : Rule α} (same : rule state = other state)
    (judged : Judges other reading following state) : Judges rule reading following state :=
  ⟨judged.faults.congr same, fun run => judged.reads (same.symm.trans run)⟩

theorem Judges.of_ok {result : α} {rest : State} {spelt : List Symbol}
    (run : rule state = .ok result rest) (member : spelt ∈ reading)
    (passes : Passes state spelt rest)
    (leads : Leads (reading * following) following spelt rest.symbols) :
    Judges rule reading following state where
  faults _ _ failed := by cases run.symm.trans failed
  reads ran := by
    cases run.symm.trans ran
    exact ⟨spelt, member, passes, leads⟩

theorem Judges.of_error {last : State} {gap : Bool} {stuck reported : Nat}
    (run : rule state = .error .unexpected last) (furthest : last.furthest = state.index + reported)
    (halts : Halts reading following state.symbols gap stuck reported) :
    Judges rule reading following state where
  faults _ _ failed := by
    cases run.symm.trans failed
    exact ⟨rfl, _, _, _, furthest, halts⟩
  reads ran := by cases run.symm.trans ran

/-- What a sequence does is told by what its first rule does. -/
theorem Faults.start {other : Rule α} (same : first state = other state)
    (faults : Faults (other >>= next) reading following state) :
    Faults (first >>= next) reading following state := by
  refine faults.congr ?_
  change EStateM.bind first next state = EStateM.bind other next state
  rw [EStateM.bind, EStateM.bind, same]

/-- Looking for something where the rule stands changes nothing else. -/
theorem Faults.skip {value : α} (run : first state = .ok value left)
    (same : left.symbols = state.symbols) (still : left.index = state.index)
    (tail : Faults (next value) reading following left) :
    Faults (first >>= next) reading following state := by
  intro refusal last failed
  rw [bind_of_ok run] at failed
  obtain ⟨rfl, gap, stuck, reported, furthest, halts⟩ := tail _ _ failed
  exact ⟨rfl, gap, stuck, reported, still ▸ furthest, same ▸ halts⟩

theorem Judges.skip {value : α} (run : first state = .ok value left)
    (same : left.symbols = state.symbols) (still : left.index = state.index)
    (tail : Judges (next value) reading following left) :
    Judges (first >>= next) reading following state where
  faults := Faults.skip run same still tail.faults
  reads ran := by
    rw [bind_of_ok run] at ran
    obtain ⟨spelt, member, passes, leads⟩ := tail.reads ran
    exact ⟨spelt, member, ⟨same ▸ passes.reads, still ▸ passes.index, passes.ready⟩, leads⟩

section

variable {result : α} {rest : State} {spelt : List Symbol}

/-- A rule goes on with what another one has left. -/
theorem Faults.onward (run : first state = .ok result rest) (passes : Passes state spelt rest)
    (closed : Closed spelt) (less : ∀ others ∈ later, spelt ++ others ∈ reading)
    (leads : Leads (reading * following) (later * following) spelt rest.symbols)
    (tail : Faults (next result) later following rest) :
    Faults (first >>= next) reading following state := by
  intro refusal last failed
  rw [bind_of_ok run] at failed
  obtain ⟨rfl, gap, stuck, reported, furthest, halts⟩ := tail _ _ failed
  refine ⟨rfl, gap, _, _, ?_, passes.reads ▸ halts.tail closed less leads⟩
  rw [furthest, passes.index, Nat.add_assoc]

/-- What a rule does whose first part succeeds is told by what the rest does. -/
theorem Judges.onward (run : first state = .ok result rest) (passes : Passes state spelt rest)
    (closed : Closed spelt) (less : ∀ others ∈ later, spelt ++ others ∈ reading)
    (leads : Leads (reading * following) (later * following) spelt rest.symbols)
    (tail : Judges (next result) later following rest) :
    Judges (first >>= next) reading following state where
  faults := Faults.onward run passes closed less leads tail.faults
  reads ran := by
    rw [bind_of_ok run] at ran
    obtain ⟨others, member, goes, ends⟩ := tail.reads ran
    refine ⟨spelt ++ others, less _ member, passes.trans goes, fun more alike whole => ?_⟩
    rw [List.append_assoc] at whole
    exact ends more alike (leads _ (goes.reads ▸ alike.append others) whole)

end

/-- A sequence of rules comes to no end at the fault of one of them. -/
theorem Faults.bind (head : Judges first reading (later * following) state)
    (closed : ∀ spelt ∈ reading, Closed spelt) (filled : Fillable later)
    (tail : ∀ {result rest spelt}, first state = .ok result rest → spelt ∈ reading →
      Passes state spelt rest → Faults (next result) later following rest) :
    Faults (first >>= next) (reading * later) following state := by
  intro refusal last failed
  obtain failed | ⟨result, rest, run, -⟩ := error_of_bind failed
  · obtain ⟨rfl, gap, stuck, reported, furthest, halts⟩ := head.faults _ _ failed
    exact ⟨rfl, gap, stuck, reported, furthest, halts.head filled⟩
  · obtain ⟨spelt, member, passes, leads⟩ := head.reads run
    rw [← mul_assoc] at leads
    exact Faults.onward run passes (closed _ member)
      (fun others => Language.append_mem_mul member) leads (tail run member passes) _ _ failed

/-- Rules one after another read one language after another. -/
theorem Judges.bind (head : Judges first reading (later * following) state)
    (closed : ∀ spelt ∈ reading, Closed spelt) (filled : Fillable later)
    (tail : ∀ {result rest spelt}, first state = .ok result rest → spelt ∈ reading →
      Passes state spelt rest → Judges (next result) later following rest) :
    Judges (first >>= next) (reading * later) following state where
  faults := Faults.bind head closed filled fun run member passes => (tail run member passes).faults
  reads ran := by
    obtain ⟨result, rest, run, _⟩ := ok_of_bind ran
    obtain ⟨spelt, member, passes, leads⟩ := head.reads run
    rw [← mul_assoc] at leads
    exact (Judges.onward run passes (closed _ member) (fun others => Language.append_mem_mul member)
      leads (tail run member passes)).reads ran

/-- Where a rule halts by a smaller language it halts by a larger one that leads no further. -/
theorem Faults.mono (faults : Faults rule smaller following state)
    (less : ∀ spelt ∈ smaller, spelt ∈ larger)
    (leads : Leads (larger * following) (smaller * following) [] state.symbols) :
    Faults rule larger following state := by
  intro refusal last failed
  obtain ⟨same, gap, stuck, reported, furthest, halts⟩ := faults _ _ failed
  exact ⟨same, gap, stuck, reported, furthest, halts.mono less leads⟩

/-- What is told by a smaller language is told by a larger one that leads no further. -/
theorem Judges.mono (judged : Judges rule smaller following state)
    (less : ∀ spelt ∈ smaller, spelt ∈ larger)
    (leads : Leads (larger * following) (smaller * following) [] state.symbols) :
    Judges rule larger following state where
  faults := judged.faults.mono less leads
  reads run := by
    obtain ⟨spelt, member, passes, ends⟩ := judged.reads run
    refine ⟨spelt, less _ member, passes, fun more alike whole => ?_⟩
    exact ends more alike (leads _ (passes.reads ▸ alike.append spelt) whole)

/-- A rule that reads nothing is told by the language of the empty word. -/
theorem judges_pure {value : α} (ready : state.Ready) :
    Judges (pure value : Rule α) 1 following state :=
  .of_ok rfl Language.nil_mem_one (.refl ready) fun more _ whole => by rwa [one_mul] at whole

/-- What is made of a result is of no matter. -/
theorem Judges.map (judged : Judges rule reading following state) (make : α → β) :
    Judges (do return make (← rule)) reading following state where
  faults _ _ failed := by
    obtain failed | ⟨_, _, -, failed⟩ := error_of_bind failed
    · exact judged.faults _ _ failed
    · cases failed
  reads ran := by
    obtain ⟨_, _, run, ran⟩ := ok_of_bind ran
    cases ran
    exact judged.reads run

section

variable {symbol : Symbol} {result : α} {rest : State} {other : Language Symbol}

/-- A rule that goes on after a certain symbol. -/
theorem Faults.cons (run : first state = .ok result rest) (passes : Passes state [symbol] rest)
    (plain : symbol ≠ .sign .dot) (less : ∀ others ∈ later, symbol :: others ∈ reading)
    (choice : ∀ more, symbol :: more ∈ reading * following → more ∈ later * following)
    (tail : Faults (next result) later following rest) :
    Faults (first >>= next) reading following state :=
  .onward run passes (closed_singleton.mpr plain) less (fun more _ => choice more) tail

theorem Judges.cons (run : first state = .ok result rest) (passes : Passes state [symbol] rest)
    (plain : symbol ≠ .sign .dot) (less : ∀ others ∈ later, symbol :: others ∈ reading)
    (choice : ∀ more, symbol :: more ∈ reading * following → more ∈ later * following)
    (tail : Judges (next result) later following rest) :
    Judges (first >>= next) reading following state :=
  .onward run passes (closed_singleton.mpr plain) less (fun more _ => choice more) tail

/-- Of two readings the one that begins with a certain symbol is meant where that is read. -/
theorem Faults.inl (run : first state = .ok result rest) (passes : Passes state [symbol] rest)
    (plain : symbol ≠ .sign .dot) (apart : ∀ whole ∈ other * following, whole.head? ≠ some symbol)
    (tail : Faults (next result) later following rest) :
    Faults (first >>= next) ({[symbol]} * later + other) following state :=
  .cons run passes plain (fun _ member => .inl (cons_mem_mul.mpr member))
    (fun _ => mem_of_cons_mem apart) tail

/-- A rule that takes the first alternative is told by both where the second starts otherwise. -/
theorem Judges.inl (run : first state = .ok result rest) (passes : Passes state [symbol] rest)
    (plain : symbol ≠ .sign .dot) (apart : ∀ whole ∈ other * following, whole.head? ≠ some symbol)
    (tail : Judges (next result) later following rest) :
    Judges (first >>= next) ({[symbol]} * later + other) following state :=
  .cons run passes plain (fun _ member => .inl (cons_mem_mul.mpr member))
    (fun _ => mem_of_cons_mem apart) tail

/-- Where that symbol is not ahead, the other reading is meant. -/
theorem Faults.inr (plain : ∀ identifier : Identifier, identifier.symbol ≠ symbol)
    (apart : state.symbols.head? ≠ some symbol) (faults : Faults rule other following state) :
    Faults rule ({[symbol]} * later + other) following state :=
  faults.mono (fun _ => .inr) (leads_of_head?_ne plain apart)

theorem Judges.inr (plain : ∀ identifier : Identifier, identifier.symbol ≠ symbol)
    (apart : state.symbols.head? ≠ some symbol) (judged : Judges rule other following state) :
    Judges rule ({[symbol]} * later + other) following state :=
  judged.mono (fun _ => .inr) (leads_of_head?_ne plain apart)

/-- A rule that reads a certain symbol before anything else. -/
theorem Judges.then (run : first state = .ok result rest) (passes : Passes state [symbol] rest)
    (plain : symbol ≠ .sign .dot) (tail : Judges (next result) later following rest) :
    Judges (first >>= next) ({[symbol]} * later) following state := by
  refine .cons run passes plain (fun _ => cons_mem_mul.mpr) (fun more whole => ?_) tail
  rw [mul_assoc] at whole
  exact cons_mem_mul.mp whole

end

/-- The first symbol is at fault where the rule stops at it. -/
theorem Judges.at_first {last : State} (ready : state.Ready)
    (run : rule state = .error .unexpected last) (furthest : last.furthest = state.index)
    (filled : Fillable reading)
    (apart : ∀ whole ∈ reading * following, ¬ Alike whole state.symbols) :
    Judges rule reading following state :=
  .of_error run (furthest.trans (Nat.add_zero _).symm) (.at_first filled ready.ne_nil apart)

end

section

variable {state : State}

@[simp] theorem index_note (item : Expectation) (index : Nat) :
    (state.note item index).index = state.index := by
  unfold State.note
  split
  · rfl
  · split <;> rfl

theorem ended_note {item : Expectation} {index : Nat} (ended : IsEnded state.symbols) :
    IsEnded (state.note item index).symbols := by rwa [symbols_note]

/-- What is looked for no further back than before is what the report is about. -/
theorem furthest_note {item : Expectation} {index : Nat} (settled : state.furthest ≤ index) :
    (state.note item index).furthest = index := by
  unfold State.note
  split
  next => rfl
  next behind =>
    have same : state.furthest = index := by omega
    split
    next => exact same
    next => exact same

/-- Looking for something moves the report to where the rule stands. -/
theorem ready_note {item : Expectation} (ready : state.Ready) :
    (state.note item state.index).Ready where
  ended := ended_note ready.ended
  settled := by rw [furthest_note ready.settled, index_note]

/-- The next token is the first of the symbols. -/
theorem symbols_eq_cons (ready : state.Ready) :
    state.symbols = state.next.symbol :: state.symbols.tail := by
  rw [symbol_next]
  obtain ⟨symbol, rest, cons⟩ := List.exists_cons_of_ne_nil ready.ne_nil
  rw [cons]
  rfl

/-- The next symbol is the first one ahead. -/
theorem head?_symbols (ready : state.Ready) : state.symbols.head? = some state.next.symbol := by
  rw [symbols_eq_cons ready]
  rfl

/-- The state after the next token. -/
def State.onward (state : State) : State :=
  { state with ahead := state.ahead.tail, index := state.index + 1 }

theorem advance_eq : advance state = .ok () state.onward := rfl

/-- A token is taken for a value. -/
theorem step_eq {α : Type} (value : α) :
    (do advance; return value : Rule α) state = .ok value state.onward := rfl

/-- A token that does not end the query is passed. -/
theorem passes_onward {symbol : Symbol} (ready : state.Ready) (next : state.next.symbol = symbol)
    (plain : symbol.isFinal = false) : Passes state [symbol] state.onward := by
  subst next
  have cons := symbols_eq_cons ready
  have left : state.onward.symbols = state.symbols.tail := List.map_tail
  refine ⟨by rw [left]; exact cons, rfl, ?_, Nat.le_succ_of_le ready.settled⟩
  rw [left]
  have ended := ready.ended
  rw [cons] at ended
  exact ended.of_cons plain

theorem passes_sign {kind : TokenKind} (ready : state.Ready) (next : state.next.kind = kind)
    (sign : kind ∉ [.bareWord, .number, .stringLiteral, .quotedIdentifier])
    (plain : kind.isFinal = false) : Passes state [.sign kind] state.onward :=
  passes_onward ready ((Token.symbol_eq_sign sign).mpr next) plain

/-- Whether a keyword is next. If it is not, the report is about what is next. -/
theorem keyword_cases (word : String) (ready : state.Ready) :
    (∃ rest, keyword word state = .ok true rest ∧ Passes state [.word word] rest) ∨
      state.symbols.head? ≠ some (.word word) ∧
        ∃ rest, keyword word state = .ok false rest ∧ rest.symbols = state.symbols ∧
          rest.index = state.index ∧ rest.furthest = state.index ∧ rest.Ready := by
  by_cases same : state.next.kind = .bareWord ∧ state.next.text = word
  · have passes := passes_onward ready (Token.symbol_eq_word.mpr same) rfl
    exact .inl ⟨state.onward, congrFun (if_pos same) state, passes⟩
  · exact .inr ⟨mt next_isWord.mpr same, state.note (.keyword word) state.index,
      congrFun (if_neg same) state, symbols_note _ _ _, index_note _ _,
      furthest_note ready.settled, ready_note ready⟩

/-- A rule that takes one symbol, or stops at it. -/
theorem judges_symbol {α : Type} {rule : Rule α} {reading following : Language Symbol}
    (ready : state.Ready) (single : ∀ spelt ∈ reading, ∃ symbol, spelt = [symbol] ∧
      ∀ identifier : Identifier, identifier.symbol ≠ symbol)
    (filled : Fillable reading)
    (takes : [state.next.symbol] ∈ reading → ∃ result, state.next.symbol.isFinal = false ∧
      rule state = (do advance; return result : Rule α) state)
    (stops : [state.next.symbol] ∉ reading →
      ∃ item, rule state = .error .unexpected (state.note item state.index)) :
    Judges rule reading following state := by
  by_cases next : [state.next.symbol] ∈ reading
  · obtain ⟨result, plain, run⟩ := takes next
    refine .of_ok (run.trans (step_eq result)) next (passes_onward ready rfl plain)
      fun more _ whole => ?_
    obtain ⟨spelt, member, others, follows, same⟩ := Language.mem_mul.mp whole
    obtain ⟨symbol, rfl, -⟩ := single spelt member
    cases same
    exact follows
  · obtain ⟨item, run⟩ := stops next
    refine .at_first ready run (furthest_note ready.settled) filled
      fun whole present alike => next ?_
    obtain ⟨spelt, member, others, -, rfl⟩ := Language.mem_mul.mp present
    obtain ⟨symbol, rfl, plain⟩ := single spelt member
    have head := (alike.head?_iff plain).mp rfl
    rw [head?_symbols ready] at head
    cases head
    exact member

/-- A token of a kind is expected. -/
theorem judges_expect {kind : TokenKind} {reading following : Language Symbol}
    (ready : state.Ready) (plain : kind.isFinal = false)
    (kinds : ∀ token : Token, [token.symbol] ∈ reading ↔ token.kind = kind)
    (single : ∀ spelt ∈ reading, ∃ symbol, spelt = [symbol] ∧
      ∀ identifier : Identifier, identifier.symbol ≠ symbol)
    (filled : Fillable reading) :
    Judges (expect kind) reading following state := by
  refine judges_symbol ready single filled (fun next => ?_) fun other => ?_
  · have same := (kinds state.next).mp next
    exact ⟨state.next, by rw [isFinal_symbol, same, plain], congrFun (if_pos same) state⟩
  · exact ⟨_, congrFun (if_neg (mt (kinds state.next).mpr other)) state⟩

/-- A sign that completes something is expected. -/
theorem judges_sign {kind : TokenKind} (sign : .sign kind ∈ fillers)
    {following : Language Symbol} (ready : state.Ready) :
    Judges (expect kind) {[.sign kind]} following state := by
  have plain : kind ∉ [.bareWord, .number, .stringLiteral, .quotedIdentifier] ∧
      kind.isFinal = false := by
    simp only [fillers, List.mem_cons, Symbol.sign.injEq, reduceCtorEq, false_or,
      List.not_mem_nil, or_false] at sign
    rcases sign with rfl | rfl | rfl <;> decide
  refine judges_expect ready plain.2 (fun token => ?_)
    (fun _ same => ⟨_, same, fun identifier => identifier.symbol_ne_sign kind⟩)
    ⟨_, rfl, by simpa [IsFilling] using sign⟩
  rw [← Token.symbol_eq_sign plain.1]
  exact ⟨fun same => (List.cons.inj same).1, fun same => congrArg (fun symbol => [symbol]) same⟩

end

end Parser
end Concordance.Query
