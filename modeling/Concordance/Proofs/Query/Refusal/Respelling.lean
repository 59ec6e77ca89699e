import Concordance.Proofs.Query.Printing
import Concordance.Proofs.Query.Refusal.Judging
import Mathlib.Data.List.TakeWhile

/-! Tokens of a text that are written down anew. -/
namespace Concordance.Query

/-- Of a text only so many characters matter, if a blank follows them. -/
def EndsAtBlank {α : Type} (read : List Char → α) (text : List Char) (length : Nat) : Prop :=
  ∃ lexeme after, text = lexeme ++ after ∧ lexeme.length = length ∧
    ∀ others, read (lexeme ++ ' ' :: others) = read text

/-- A run of characters that a blank is not among ends at a blank. -/
theorem endsAtBlank_takeWhile (keeps : Char → Bool) (blank : keeps ' ' = false) (text : List Char) :
    EndsAtBlank (List.takeWhile keeps) text (text.takeWhile keeps).length :=
  ⟨text.takeWhile keeps, text.dropWhile keeps, List.takeWhile_append_dropWhile.symm, rfl,
    fun _ => takeWhile_append_stop (fun _ => List.mem_takeWhile_imp) (by simpa using blank)⟩

/-- A number is digits alone, or has digits on both sides of a point. -/
theorem numberLength_cases (text : List Char) :
    numberLength text = (text.takeWhile Char.isDigit).length ∨
      ∃ rest, text.dropWhile Char.isDigit = '.' :: rest ∧ rest.takeWhile Char.isDigit ≠ [] ∧
        numberLength text =
          (text.takeWhile Char.isDigit ++ '.' :: rest.takeWhile Char.isDigit).length := by
  have left : text.drop (text.takeWhile Char.isDigit).length = text.dropWhile Char.isDigit :=
    (congrArg (List.drop _) List.takeWhile_append_dropWhile.symm).trans List.drop_left
  rw [numberLength, left]
  split
  next rest point =>
    by_cases none : (rest.takeWhile Char.isDigit).length = 0
    · exact .inl (if_pos none)
    · refine .inr ⟨rest, point, mt List.length_eq_zero_iff.mpr none, (if_neg none).trans ?_⟩
      rw [List.length_append, List.length_cons]
      omega
  next => exact .inl rfl

theorem endsAtBlank_numberLength (text : List Char) :
    EndsAtBlank numberLength text (numberLength text) := by
  have digits {run : List Char} : ∀ c ∈ run.takeWhile Char.isDigit, c.isDigit = true :=
    fun _ => List.mem_takeWhile_imp
  have blank (others : List Char) : ∀ c ∈ (' ' :: others).head?, c.isDigit = false := by simp
  have split : text.takeWhile Char.isDigit ++ text.dropWhile Char.isDigit = text :=
    List.takeWhile_append_dropWhile
  obtain whole | ⟨rest, point, filled, length⟩ := numberLength_cases text
  · rw [EndsAtBlank, whole]
    exact ⟨_, _, split.symm, rfl, fun others => numberLength_digits digits (blank others) (by simp)⟩
  · rw [EndsAtBlank, length]
    refine ⟨_, rest.dropWhile Char.isDigit, ?_, rfl, fun others =>
      numberLength_point digits digits filled (blank others)⟩
    rw [List.append_assoc, List.cons_append, List.takeWhile_append_dropWhile, ← point, split]

/-- A quotation that is closed ends at its mark. -/
theorem endsAtBlank_quotationLength {mark : Char} (plain : mark ≠ ' ') {text : List Char}
    {length : Nat} (found : quotationLength mark text = some length) :
    EndsAtBlank (quotationLength mark) text length := by
  fun_induction quotationLength mark text generalizing length with
  | case1 => cases found
  | case2 c closes =>
      obtain ⟨slash, rfl⟩ := closes
      cases found
      exact ⟨[c], [], rfl, rfl, fun others => by simp [quotationLength, slash, plain.symm]⟩
  | case3 => cases found
  | case4 d rest ih =>
      obtain ⟨count, inside, rfl⟩ := Option.map_eq_some_iff.mp found
      obtain ⟨inner, after, rfl, rfl, goes⟩ := ih inside
      exact ⟨_ :: d :: inner, after, rfl, rfl, fun others => by simp [quotationLength, goes]⟩
  | case5 rest slash ih =>
      obtain ⟨count, inside, rfl⟩ := Option.map_eq_some_iff.mp found
      obtain ⟨inner, after, rfl, rfl, goes⟩ := ih inside
      exact ⟨mark :: mark :: inner, after, rfl, rfl, fun others => by
        simp [quotationLength, slash, goes]⟩
  | case6 d rest other slash =>
      cases found
      exact ⟨[mark], d :: rest, rfl, rfl, fun others => by
        simp [quotationLength, slash, other, plain.symm]⟩
  | case7 c d rest slash quote ih =>
      obtain ⟨count, inside, rfl⟩ := Option.map_eq_some_iff.mp found
      obtain ⟨inner, after, cut, rfl, goes⟩ := ih inside
      refine ⟨c :: inner, after, by rw [cut, List.cons_append], rfl, fun others => ?_⟩
      rw [List.cons_append, quotationLength_cons slash quote, quotationLength_cons slash quote,
        goes]

variable {previous : Option TokenKind} {kind : TokenKind} {c : Char} {rest : List Char}
  {length : Nat}

/-- A quotation ends at its mark, whatever follows. -/
theorem endsAtBlank_measureQuoted {valid : TokenKind} {mark : Char} (plain : mark ≠ ' ')
    (measured : measureQuoted valid mark rest = (kind, length + 1)) (sound : kind ≠ .invalid) :
    EndsAtBlank (measureQuoted valid mark) rest length := by
  unfold measureQuoted at measured
  split at measured
  next count found =>
    cases measured
    obtain ⟨inner, after, cut, long, goes⟩ := endsAtBlank_quotationLength plain found
    refine ⟨inner, after, cut, long, fun others => ?_⟩
    rw [measureQuoted, goes, measureQuoted, found]
  next =>
    cases measured
    exact absurd rfl sound

/-- An operator ends before a blank. -/
theorem endsAtBlank_measureOperator (measured : measureOperator c rest = some (kind, length + 1))
    (significant : kind.isSignificant = true) (sound : kind ≠ .invalid) :
    EndsAtBlank (measureOperator c) rest length := by
  unfold EndsAtBlank
  rw [measured]
  unfold measureOperator at measured
  split at measured
  case h_10 =>
    cases measured
    cases significant
  case h_12 =>
    split at measured <;> cases measured
    · cases significant
    · exact absurd rfl sound
  all_goals
    cases measured
  all_goals first
    | exact ⟨[], _, rfl, rfl, fun _ => rfl⟩
    | exact ⟨[_], _, rfl, rfl, fun _ => rfl⟩

/-- What is measured of a text that begins with no word, number, quotation or dot. -/
def measureSign (c : Char) (rest : List Char) : TokenKind × Nat :=
  ((signKind? c).map fun kind => (kind, 1)).getD ((measureOperator c rest).getD (.invalid, 1))

theorem endsAtBlank_measureSign (measured : measureSign c rest = (kind, length + 1))
    (significant : kind.isSignificant = true) (sound : kind ≠ .invalid) :
    EndsAtBlank (measureSign c) rest length := by
  unfold measureSign at measured
  cases found : signKind? c with
  | some sign =>
      rw [found] at measured
      obtain rfl : 0 = length := Nat.succ.inj (Prod.mk.inj measured).2
      exact ⟨[], rest, rfl, rfl, fun others => by rw [measureSign, measureSign, found]; rfl⟩
  | none =>
      rw [found] at measured
      cases operator : measureOperator c rest with
      | none =>
          rw [operator] at measured
          exact absurd (Prod.mk.inj measured).1.symm sound
      | some pair =>
          rw [operator] at measured
          obtain rfl : pair = (kind, length + 1) := measured
          obtain ⟨more, after, cut, long, goes⟩ :=
            endsAtBlank_measureOperator operator significant sound
          exact ⟨more, after, cut, long, fun others => by
            rw [measureSign, measureSign, found, goes]⟩

/-- What stands before a token does not matter to it, nor what stands behind it and a blank. Dots
are another matter. -/
theorem measure_blank (measured : measure previous c rest = (kind, length + 1))
    (significant : kind.isSignificant = true) (valid : kind.isFinal = false) (noDot : kind ≠ .dot) :
    Text.isAsciiBlank c = false ∧ ∃ more after, rest = more ++ after ∧ more.length = length ∧
      ∀ other others, measure other c (more ++ ' ' :: others) = (kind, length + 1) := by
  have sound : kind ≠ .invalid := by
    rintro rfl
    cases valid
  -- Only dots are measured by what stands before them.
  have done {read : List Char → TokenKind × Nat}
      (same : ∀ other text, measure other c text = read text)
      (ends : EndsAtBlank read rest length) : ∃ more after, rest = more ++ after ∧
        more.length = length ∧
          ∀ other others, measure other c (more ++ ' ' :: others) = (kind, length + 1) := by
    obtain ⟨more, after, cut, long, goes⟩ := ends
    exact ⟨more, after, cut, long, fun other others => by
      rw [same, goes, ← same previous, measured]⟩
  by_cases blank : Text.isAsciiBlank c = true
  · rw [measure, if_pos blank] at measured
    obtain ⟨rfl, -⟩ := Prod.mk.inj measured
    cases significant
  refine ⟨by simpa using blank, ?_⟩
  by_cases digit : c.isDigit = true
  · have same (other : Option TokenKind) (text : List Char) :
        measure other c text = (.number, numberLength (c :: text)) := by
      rw [measure, if_neg blank, if_pos digit]
    refine done same ?_
    obtain ⟨lexeme, after, cut, long, goes⟩ := endsAtBlank_numberLength (c :: rest)
    rw [(Prod.mk.inj ((same _ _).symm.trans measured)).2] at long
    obtain ⟨d, more, rfl⟩ := List.exists_cons_of_length_eq_add_one long
    obtain ⟨rfl, split⟩ := List.cons.inj cut
    exact ⟨more, after, split, Nat.succ.inj long, fun others => congrArg _ (goes others)⟩
  by_cases literal : c = apostrophe
  · have same (other : Option TokenKind) (text : List Char) :
        measure other c text = measureQuoted .stringLiteral c text := by
      rw [measure, if_neg blank, if_neg digit, if_pos literal]
    exact done same (endsAtBlank_measureQuoted (literal ▸ by decide)
      ((same _ _).symm.trans measured) sound)
  by_cases identifier : c = backquote
  · have same (other : Option TokenKind) (text : List Char) :
        measure other c text = measureQuoted .quotedIdentifier c text := by
      rw [measure, if_neg blank, if_neg digit, if_neg literal, if_pos identifier]
    exact done same (endsAtBlank_measureQuoted (identifier ▸ by decide)
      ((same _ _).symm.trans measured) sound)
  by_cases word : isWordStart c = true
  · have same (other : Option TokenKind) (text : List Char) :
        measure other c text = (.bareWord, 1 + (text.takeWhile isWordChar).length) := by
      rw [measure, if_neg blank, if_neg digit, if_neg literal, if_neg identifier, if_pos word]
    refine done same ?_
    obtain ⟨more, after, cut, long, goes⟩ := endsAtBlank_takeWhile isWordChar rfl rest
    have counted := (Prod.mk.inj ((same _ _).symm.trans measured)).2
    exact ⟨more, after, cut, by omega, fun others =>
      congrArg (fun run : List Char => (TokenKind.bareWord, 1 + run.length)) (goes others)⟩
  by_cases dot : c = '.'
  · rw [measure, if_neg blank, if_neg digit, if_neg literal, if_neg identifier, if_neg word,
      if_pos dot] at measured
    obtain ⟨same, -⟩ := Prod.mk.inj measured
    split at same
    · exact absurd same.symm noDot
    · exact absurd same.symm sound
  · have same (other : Option TokenKind) (text : List Char) :
        measure other c text = measureSign c text := by
      rw [measure, if_neg blank, if_neg digit, if_neg literal, if_neg identifier, if_neg word,
        if_neg dot, measureSign]
      cases signKind? c <;> rfl
    exact done same (endsAtBlank_measureSign ((same _ _).symm.trans measured) significant sound)

/-- A dot is one between a name and the beginning of another one. -/
theorem measure_of_followsDot (operand : kind.isOperand = true) (follows : followsDot rest = true) :
    measure (some kind) '.' rest = (.dot, 1) := by
  simp [measure, Text.isAsciiBlank, isWordStart, apostrophe, backquote, follows, operand]

/-- No other token is taken for a dot. -/
theorem measure_dot (measured : (measure previous c rest).1 = .dot) :
    c = '.' ∧ followsDot rest = true ∧ ∃ kind, previous = some kind ∧ kind.isOperand = true := by
  have quoted {valid : TokenKind} {mark : Char} (plain : valid ≠ .dot) :
      (measureQuoted valid mark rest).1 ≠ .dot := by
    unfold measureQuoted
    split <;> simp [plain]
  have signed : ∀ kind, signKind? c = some kind → kind ≠ .dot := by
    unfold signKind?
    grind
  have operator : ((measureOperator c rest).getD (.invalid, 1)).1 ≠ .dot := by
    unfold measureOperator
    grind
  unfold measure at measured
  split_ifs at measured with blank digit literal identifier word dot
  · exact absurd measured (quoted (by decide))
  · exact absurd measured (quoted (by decide))
  · rename_i follows
    rw [Bool.and_eq_true, Option.any_eq_true] at follows
    exact ⟨dot, follows.1, follows.2⟩
  · split at measured
    next kind found => exact absurd measured (signed kind found)
    next => exact absurd measured operator

/-- A name that may follow a dot is a token that counts. -/
theorem isSignificant_of_followsDot (follows : followsDot (c :: rest) = true) :
    (measure previous c rest).1.isSignificant = true := by
  have quoted {valid : TokenKind} {mark : Char} (plain : valid.isSignificant = true) :
      (measureQuoted valid mark rest).1.isSignificant = true := by
    unfold measureQuoted
    split
    · exact plain
    · rfl
  have starts : c.isDigit = true ∨ isWordStart c = true ∨ c = backquote := by
    simp only [followsDot, Char.isAlphanum, Bool.or_eq_true, beq_iff_eq] at follows
    simp only [isWordStart, Bool.or_eq_true, beq_iff_eq]
    tauto
  have plain : Text.isAsciiBlank c = false :=
    @not_isAsciiBlank (fun first => followsDot [first]) c follows (by decide)
  unfold measure
  split_ifs with blank digit literal identifier word dot
  · simp [plain] at blank
  · rfl
  · exact quoted rfl
  · exact quoted rfl
  · rfl
  · rfl
  · rfl
  · grind

/-- What a token looks like, wherever it stands. -/
def Token.face (token : Token) : Token := { token with start := 0 }

/-- The face of a token has its symbol. -/
theorem Token.symbol_face (token : Token) : token.face.symbol = token.symbol :=
  (symbol_start token.kind token.start token.lexeme).symm

/-- A token that is cut off before a blank wherever it stands. -/
structure Stands (token : Token) : Prop where
  significant : token.kind.isSignificant = true
  valid : token.kind.isFinal = false
  noDot : token.kind ≠ .dot
  cut : ∃ c more, token.lexeme = c :: more ∧ Text.isAsciiBlank c = false ∧
    ∀ previous others, measure previous c (more ++ ' ' :: others) = (token.kind, more.length + 1)

/-- Behind a token of some kind, tokens that are read again where they are written down anew. -/
inductive Respells : Option TokenKind → List Token → Prop where
  | nil {previous : Option TokenKind} : Respells previous []
  | cons {previous : Option TokenKind} {token : Token} {later : List Token} (stands : Stands token)
      (goes : Respells (some token.kind) later) : Respells previous (token :: later)
  | dot {kind : TokenKind} {token : Token} {later : List Token} (operand : kind.isOperand = true)
      (sign : token.kind = .dot) (lexeme : token.lexeme = ['.'])
      (named : ∀ next ∈ later.head?, followsDot next.lexeme = true)
      (goes : Respells (some .dot) later) : Respells (some kind) (token :: later)

/-- The lexemes of tokens, with a blank behind each but the dots. -/
def respelling (tokens : List Token) : List Char :=
  tokens.flatMap fun token => if token.kind = .dot then token.lexeme else token.lexeme ++ [' ']

theorem Respells.head? {tokens : List Token} (respells : Respells previous tokens)
    (starts : ∀ c ∈ rest.head?, Text.isAsciiBlank c = false) :
    ∀ c ∈ (respelling tokens ++ rest).head?, Text.isAsciiBlank c = false := by
  cases respells with
  | nil => exact starts
  | cons stands goes =>
      obtain ⟨c, more, lexeme, plain, -⟩ := stands.cut
      simpa [respelling, stands.noDot, lexeme] using plain
  | dot operand sign lexeme named goes => simp [respelling, sign, lexeme, Text.isAsciiBlank]

theorem followsDot_append {first : List Char} (follows : followsDot first = true)
    (second : List Char) : followsDot (first ++ second) = true := by
  cases first with
  | nil => cases follows
  | cons c first => exact follows

namespace Lexer

/-- The tokens that count, from where a lexer stands. -/
def significantFrom (fuel : Nat) (lexer : Lexer) : List Token :=
  (tokensFrom fuel lexer).filter (·.kind.isSignificant)

section

variable {fuel : Nat} {lexer : Lexer}

theorem significantFrom_final (final : lexer.next.1.kind.isFinal = true) :
    significantFrom (fuel + 1) lexer = [lexer.next.1] := by
  simp [significantFrom, tokensFrom_succ, final, isSignificant_of_isFinal final]

theorem significantFrom_cons (valid : lexer.next.1.kind.isFinal = false)
    (significant : lexer.next.1.kind.isSignificant = true) :
    significantFrom (fuel + 1) lexer = lexer.next.1 :: significantFrom fuel lexer.next.2 := by
  simp [significantFrom, tokensFrom_succ, valid, significant]

theorem significantFrom_skip (blank : lexer.next.1.kind.isSignificant = false) :
    significantFrom (fuel + 1) lexer = significantFrom fuel lexer.next.2 := by
  have valid : lexer.next.1.kind.isFinal = false := by
    rw [Bool.eq_false_iff]
    intro final
    rw [isSignificant_of_isFinal final] at blank
    cases blank
  simp [significantFrom, tokensFrom_succ, valid, blank]

end

section

variable {more : List Char} {offset fuel : Nat}

theorem significantFrom_of_measure
    (measured : measure previous c (more ++ rest) = (kind, more.length + 1))
    (significant : kind.isSignificant = true) (valid : kind.isFinal = false) :
    significantFrom (fuel + 1) ⟨0, c :: (more ++ rest), offset, previous⟩ =
      ⟨kind, offset, c :: more⟩ ::
        significantFrom fuel ⟨0, rest, Token.stop ⟨kind, offset, c :: more⟩, some kind⟩ := by
  have read : next ⟨0, c :: (more ++ rest), offset, previous⟩ = _ := next_of_measure measured
  rw [if_pos significant] at read
  rw [significantFrom_cons (by rw [read, valid]) (by rw [read, significant]), read]

theorem significantFrom_blank (starts : ∀ c ∈ rest.head?, Text.isAsciiBlank c = false) :
    significantFrom (fuel + 1) ⟨0, ' ' :: rest, offset, previous⟩ =
      significantFrom fuel ⟨0, rest, Token.stop ⟨.blank, offset, [' ']⟩, previous⟩ := by
  have measured : measure previous ' ' ([] ++ rest) = (.blank, ([] : List Char).length + 1) := by
    simp [measure, takeWhile_stop starts, Text.isAsciiBlank]
  have read : next ⟨0, ' ' :: rest, offset, previous⟩ = _ := next_of_measure measured
  rw [significantFrom_skip (by rw [read]; rfl), read]
  rfl

/-- Tokens that are written down anew are read again, before anything that can be read by itself. -/
theorem faces_of_respells {tokens : List Token} {symbols : List Symbol}
    (respells : Respells previous tokens) (starts : ∀ c ∈ rest.head?, Text.isAsciiBlank c = false)
    (named : ∀ last ∈ tokens.getLast?, last.kind = .dot → followsDot rest = true)
    (spells : Spells rest symbols) (enough : (respelling tokens ++ rest).length < fuel) :
    ∃ others, (significantFrom fuel ⟨0, respelling tokens ++ rest, offset, previous⟩).map
        Token.face = (tokens ++ others).map Token.face ∧ others.map Token.symbol = symbols := by
  induction respells generalizing fuel offset with
  | @nil previous => exact ⟨_, rfl, symbolsOf_tokensFrom (spells previous) enough⟩
  | @cons previous token later stands goes ih =>
      obtain ⟨c, more, lexeme, -, cut⟩ := stands.cut
      have text : respelling (token :: later) ++ rest =
          c :: (more ++ ' ' :: (respelling later ++ rest)) := by
        simp [respelling, stands.noDot, lexeme]
      have same : Token.face ⟨token.kind, offset, c :: more⟩ = token.face := by
        rw [Token.face, Token.face, lexeme]
      rw [text] at enough ⊢
      simp only [List.length_cons, List.length_append] at enough
      obtain ⟨less, rfl⟩ : ∃ less, fuel = less + 1 + 1 := ⟨fuel - 2, by omega⟩
      have named : ∀ last ∈ later.getLast?, last.kind = .dot → followsDot rest = true :=
        fun last member => named last (by rw [List.getLast?_cons, Option.mem_def.mp member]; rfl)
      rw [significantFrom_of_measure (cut previous _) stands.significant stands.valid,
        significantFrom_blank (goes.head? starts), List.map_cons, same]
      exact (ih named (by rw [List.length_append]; omega)).imp fun others read =>
        ⟨congrArg (List.cons token.face) read.1, read.2⟩
  | @dot kind token later operand sign lexeme follows goes ih =>
      have text : respelling (token :: later) ++ rest =
          '.' :: ([] ++ (respelling later ++ rest)) := by
        simp [respelling, sign, lexeme]
      have same : Token.face ⟨.dot, offset, ['.']⟩ = token.face := by
        rw [Token.face, Token.face, lexeme, sign]
      have next : followsDot (respelling later ++ rest) = true := by
        cases later with
        | nil => exact named token rfl sign
        | cons name later =>
            rw [respelling, List.flatMap_cons, List.append_assoc]
            split
            · exact followsDot_append (follows name rfl) _
            · rw [List.append_assoc]
              exact followsDot_append (follows name rfl) _
      rw [text] at enough ⊢
      simp only [List.length_cons, List.length_append] at enough
      obtain ⟨less, rfl⟩ : ∃ less, fuel = less + 1 := ⟨fuel - 1, by omega⟩
      have named : ∀ last ∈ later.getLast?, last.kind = .dot → followsDot rest = true :=
        fun last member => named last (by rw [List.getLast?_cons, Option.mem_def.mp member]; rfl)
      rw [significantFrom_of_measure (measure_of_followsDot operand next) rfl rfl, List.map_cons,
        same]
      exact (ih named (by rw [List.length_append]; omega)).imp fun others read =>
        ⟨congrArg (List.cons token.face) read.1, read.2⟩

end

section

variable {fuel : Nat} {lexer : Lexer}

/-- The next token of a text without a limit. -/
theorem next_of_cons (free : lexer.limit = 0) (cons : lexer.rest = c :: rest) : lexer.next.1 =
    ⟨(measure lexer.previous c rest).1, lexer.offset,
      (c :: rest).take (measure lexer.previous c rest).2⟩ := by
  simp [next, scan, limitKind, free, cons]

theorem lexeme_ne_nil (free : lexer.limit = 0) {token : Token}
    (member : token ∈ significantFrom fuel lexer) (valid : token.kind.isFinal = false) :
    token.lexeme ≠ [] := by
  induction fuel generalizing lexer with
  | zero => cases member
  | succ fuel ih =>
      have onward : lexer.next.2.limit = 0 := free
      cases final : lexer.next.1.kind.isFinal with
      | true =>
          rw [significantFrom_final final, List.mem_singleton] at member
          simp [← member, valid] at final
      | false =>
          cases significant : lexer.next.1.kind.isSignificant with
          | false => exact ih onward (significantFrom_skip significant ▸ member)
          | true =>
              rw [significantFrom_cons final significant] at member
              obtain rfl | later := List.mem_cons.mp member
              · obtain ⟨c, rest, cons⟩ := List.exists_cons_of_ne_nil
                  fun nothing : lexer.rest = [] => by simp [isFinal_next nothing] at final
                rw [next_of_cons free cons,
                  ← Nat.sub_add_cancel (measure_spec lexer.previous c rest).1]
                exact List.cons_ne_nil _ _
              · exact ih onward later

/-- A token that counts, and is no dot, stands before a blank as well. -/
theorem stands_next (free : lexer.limit = 0) (cons : lexer.rest = c :: rest)
    (significant : lexer.next.1.kind.isSignificant = true)
    (valid : lexer.next.1.kind.isFinal = false) (noDot : lexer.next.1.kind ≠ .dot) :
    Stands lexer.next.1 := by
  refine ⟨significant, valid, noDot, ?_⟩
  have some := (measure_spec lexer.previous c rest).1
  rw [next_of_cons free cons] at significant valid noDot ⊢
  have measured : measure lexer.previous c rest =
      ((measure lexer.previous c rest).1, (measure lexer.previous c rest).2 - 1 + 1) := by
    rw [Nat.sub_add_cancel some]
  obtain ⟨plain, more, after, rfl, long, goes⟩ := measure_blank measured significant valid noDot
  refine ⟨c, more, ?_, plain, fun other others => by rw [goes, long]⟩
  rw [← Nat.sub_add_cancel some, List.take_succ_cons, ← long, List.take_left]

/-- Behind a dot the next token counts, and begins a name. -/
theorem followsDot_head? (free : lexer.limit = 0) (follows : followsDot lexer.rest = true) :
    ∀ token ∈ (significantFrom fuel lexer).head?, followsDot token.lexeme = true := by
  obtain ⟨c, rest, cons⟩ := List.exists_cons_of_ne_nil fun nothing : lexer.rest = [] => by
    rw [nothing] at follows
    cases follows
  rw [cons] at follows
  have read := next_of_cons free cons
  have significant : lexer.next.1.kind.isSignificant = true := by
    rw [read]
    exact isSignificant_of_followsDot follows
  have begins : followsDot lexer.next.1.lexeme = true := by
    rw [read, ← Nat.sub_add_cancel (measure_spec lexer.previous c rest).1]
    exact follows
  cases fuel with
  | zero => exact fun _ member => by cases member
  | succ fuel =>
      have head : (significantFrom (fuel + 1) lexer).head? = some lexer.next.1 := by
        cases final : lexer.next.1.kind.isFinal with
        | true => rw [significantFrom_final final]; rfl
        | false => rw [significantFrom_cons final significant]; rfl
      intro token member
      rw [head] at member
      cases member
      exact begins

/-- A dot can be written down anew, as a name follows it. -/
theorem respells_dot {tokens others : List Token} (free : lexer.limit = 0)
    (cons : lexer.rest = c :: rest) (dot : lexer.next.1.kind = .dot)
    (later : significantFrom fuel lexer.next.2 = tokens ++ others)
    (goes : Respells (some lexer.next.1.kind) tokens) :
    Respells lexer.previous (lexer.next.1 :: tokens) := by
  have read := next_of_cons free cons
  have sign := dot
  rw [read] at sign
  obtain ⟨rfl, follows, kind, before, operand⟩ := measure_dot sign
  rw [before, measure_of_followsDot operand follows] at read
  have left : lexer.next.2.rest = rest := by
    rw [show lexer.next.2.rest = lexer.rest.drop lexer.next.1.lexeme.length from rfl, read, cons]
    rfl
  rw [before]
  refine .dot operand dot (by rw [read]; rfl) (fun next member => ?_) (dot ▸ goes)
  have head : next ∈ (significantFrom fuel lexer.next.2).head? := by
    rw [later, List.head?_append, Option.mem_def.mp member]
    rfl
  exact followsDot_head? (show lexer.next.2.limit = 0 from free) (left ▸ follows) next head

/-- The tokens of a text can be written down anew, up to any but the last. -/
theorem respells_of_significantFrom {tokens others : List Token} (free : lexer.limit = 0)
    (cut : significantFrom fuel lexer = tokens ++ others) (more : others ≠ []) :
    Respells lexer.previous tokens := by
  induction fuel generalizing tokens lexer with
  | zero => exact absurd (List.append_eq_nil_iff.mp cut.symm).2 more
  | succ fuel ih =>
      cases tokens with
      | nil => exact .nil
      | cons token tokens =>
          cases final : lexer.next.1.kind.isFinal with
          | true =>
              rw [significantFrom_final final] at cut
              exact absurd (List.append_eq_nil_iff.mp (List.cons.inj cut).2.symm).2 more
          | false =>
              obtain ⟨c, rest, cons⟩ := List.exists_cons_of_ne_nil fun nothing : lexer.rest = [] =>
                by simp [isFinal_next nothing] at final
              have onward : lexer.next.2.limit = 0 := free
              cases significant : lexer.next.1.kind.isSignificant with
              | false =>
                  have blank : ¬ lexer.next.1.kind.isSignificant = true := by simp [significant]
                  have same : lexer.next.2.previous = lexer.previous := if_neg blank
                  rw [significantFrom_skip significant] at cut
                  exact same ▸ ih onward cut
              | true =>
                  have same : lexer.next.2.previous = some lexer.next.1.kind := if_pos significant
                  rw [significantFrom_cons final significant] at cut
                  obtain ⟨rfl, later⟩ := List.cons.inj cut
                  have goes := ih onward later
                  rw [same] at goes
                  by_cases dot : lexer.next.1.kind = .dot
                  · exact respells_dot free cons dot later goes
                  · exact .cons (stands_next free cons significant final dot) goes

end

/-- The significant tokens of a text can be written down anew, but for the last. -/
theorem respells_of_significant {text : List Char} {tokens others : List Token}
    (cut : significant text 0 = tokens ++ others) (more : others ≠ []) : Respells none tokens :=
  respells_of_significantFrom (show (ofText text 0).limit = 0 from rfl) cut more

/-- The tokens of a text that begins with tokens that are written down anew. -/
theorem faces_significant {tokens : List Token} {symbols : List Symbol}
    (respells : Respells none tokens) (starts : ∀ c ∈ rest.head?, Text.isAsciiBlank c = false)
    (named : ∀ last ∈ tokens.getLast?, last.kind = .dot → followsDot rest = true)
    (spells : Spells rest symbols) : ∃ others,
      (significant (respelling tokens ++ rest) 0).map Token.face =
        (tokens ++ others).map Token.face ∧ others.map Token.symbol = symbols :=
  faces_of_respells respells starts named spells (Nat.lt_succ_self _)

end Lexer

/-- Every filler can be written, and the name among them can follow a dot. -/
theorem exists_filler {symbol : Symbol} (filler : symbol ∈ fillers) :
    ∃ text, Writes text [symbol] ∧ (symbol = .word "a" → followsDot text = true) := by
  simp only [fillers, List.mem_cons, List.not_mem_nil, or_false] at filler
  obtain rfl | rfl | rfl | rfl | rfl | rfl | rfl := filler
  · exact ⟨_, .literal ['a'], by simp⟩
  · exact ⟨_, .keyword "a" (by decide), fun _ => by decide⟩
  · exact ⟨_, .keyword "IN" (by decide), by simp⟩
  · exact ⟨['1'], .digits (List.forall_mem_singleton.mpr rfl) (by simp), by simp⟩
  · exact ⟨_, .comparison .equal, by simp⟩
  · exact ⟨['('], ⟨⟨_, _, rfl, rfl⟩, fun _ later => spells_open later⟩, by simp⟩
  · exact ⟨[')'], ⟨⟨_, _, rfl, rfl⟩, fun _ later => spells_close later⟩, by simp⟩

/-- What fills up a query can be written. -/
theorem exists_filling {tail : List Symbol} (filling : IsFilling tail) : ∃ text,
    Spells text (tail ++ [.sign .endOfQuery]) ∧ (∀ c ∈ text.head?, Text.isAsciiBlank c = false) ∧
      (tail.head? = some (.word "a") → followsDot text = true) := by
  induction tail with
  | nil => exact ⟨[], fun _ => .done, by simp, by simp⟩
  | cons symbol tail ih =>
      obtain ⟨filler, later⟩ := List.forall_mem_cons.mp filling
      obtain ⟨rest, spells, starts, -⟩ := ih later
      obtain ⟨text, writes, named⟩ := exists_filler filler
      obtain ⟨c, more, cons, plain⟩ := writes.starts
      refine ⟨text ++ ' ' :: rest, writes.cut (isBreak_space rest) fun previous =>
        cuts_blank starts (spells previous), by simpa [cons] using plain, fun head => ?_⟩
      exact followsDot_append (named (Option.some.inj head)) _

end Concordance.Query
