import Concordance.Proofs.Query.Lettering
import Concordance.Proofs.Query.Limits
import Mathlib.Data.Nat.Find

/-! The tokens of a query partition it. -/
namespace Concordance

namespace Utf8

/-- The bytes show where characters begin. -/
theorem isBoundary_encode {text : List Char} {place : Nat} (boundary : IsBoundary text place) :
    isBoundary (encode text) place = true := by
  obtain ⟨before, after, rfl, rfl⟩ := boundary
  cases after with
  | nil => simp [isBoundary, length_encode]
  | cons c after =>
      obtain ⟨first, more, bytes, lead, -⟩ := (charForm_encodeChar c).exists_cons
      have split : encode (c :: after) = String.utf8EncodeChar c ++ encode after := rfl
      have here : (encode (before ++ c :: after))[width before]? = some first := by
        rw [encode_append, ← length_encode before, List.getElem?_append_right (Nat.le_refl _),
          Nat.sub_self, split, bytes]
        rfl
      simp [isBoundary, here, lead]

/-- A part of a text is found between the places where it begins and ends. -/
theorem slice?_encode (before text after : List Char) :
    slice? (encode (before ++ text ++ after)) (width before) (width (before ++ text)) =
      some (String.ofList text) := by
  have starts : isBoundary (encode (before ++ text ++ after)) (width before) = true :=
    isBoundary_encode ⟨before, text ++ after, List.append_assoc .., rfl⟩
  have stops : isBoundary (encode (before ++ text ++ after)) (width (before ++ text)) = true :=
    isBoundary_encode ⟨before ++ text, after, rfl, rfl⟩
  have order : width before ≤ width (before ++ text) := by
    rw [width_append]
    exact Nat.le_add_right ..
  have piece : (encode (before ++ text ++ after)).extract (width before) (width (before ++ text)) =
      encode text := by
    rw [List.extract_eq_take_drop, width_append, Nat.add_sub_cancel_left, encode_append,
      encode_append, List.append_assoc, ← length_encode before, List.drop_left,
      ← length_encode text, List.take_left]
  rw [slice?, starts, stops, decide_eq_true order, piece]
  exact decode?_eq_some.mpr (congrArg encode String.toList_ofList)

theorem length_le_width (text : List Char) : text.length ≤ width text := by
  induction text with
  | nil => exact Nat.le_refl _
  | cons c rest ih =>
      have wide := c.utf8Size_pos
      rw [List.length_cons, width_cons]
      omega

end Utf8

namespace Query

open Utf8 (width)

/-- The places of a token in the bytes of its query. -/
def Token.span (token : Token) : Span := ⟨token.kind, token.start, token.stop⟩

theorem Scanner.allFrom_succ (fuel : Nat) (scanner : Scanner) :
    allFrom (fuel + 1) scanner =
      if scanner.input.length ≤ scanner.position then [scanner.next.1]
      else scanner.next.1 :: allFrom fuel scanner.next.2 :=
  rfl

theorem Lettered.exists_cons {c : Char} {text letters : List Char}
    (lettered : Lettered (c :: text) letters) : ∃ d more, letters = d :: more := by
  cases lettered with
  | narrow => exact ⟨_, _, rfl⟩
  | wide => exact ⟨_, _, rfl⟩

namespace Lexer

/-- The scanner that stands in the bytes of a query where a lexer stands in its characters. -/
def scanner (lexer : Lexer) (before : List Char) : Scanner :=
  ⟨lexer.limit, Utf8.encode (before ++ lexer.rest), lexer.offset, lexer.previous⟩

variable {lexer : Lexer} {before : List Char}

/-- A scanner scans in bytes what the lexer scans in characters. -/
theorem scan_scanner (stands : lexer.offset = width before) :
    (lexer.scanner before).scan = lexer.scan.span := by
  obtain ⟨limit, rest, offset, previous⟩ := lexer
  obtain rfl : offset = width before := stands
  have ahead : (Utf8.encode (before ++ rest)).drop (width before) = Utf8.encode rest := by
    rw [Utf8.encode_append, ← Utf8.length_encode before, List.drop_left]
  have lettered := lettered_encode rest
  simp only [Scanner.scan, scanner, scan, ahead]
  cases rest with
  | nil => rfl
  | cons c rest =>
      obtain ⟨d, more, letters⟩ := lettered.exists_cons
      rw [letters] at lettered ⊢
      simp only [lettered.measure_eq]
      rfl

/-- A scanner and a lexer read the same token, and stand at the same place after it. -/
theorem next_scanner (stands : lexer.offset = width before) :
    (lexer.scanner before).next =
      (lexer.next.1.span, lexer.next.2.scanner (before ++ lexer.next.1.lexeme)) := by
  have whole : before ++ lexer.rest =
      before ++ lexer.scan.lexeme ++ lexer.rest.drop lexer.scan.lexeme.length := by
    rw [List.append_assoc, scan_lexeme]
  simp only [Scanner.next, scan_scanner stands]
  simp only [scanner, whole]
  rfl

/-- The offset of the next token is the number of bytes before it. -/
theorem offset_next (stands : lexer.offset = width before) :
    lexer.next.2.offset = width (before ++ lexer.next.1.lexeme) := by
  have stop : lexer.next.2.offset = lexer.scan.stop := rfl
  rw [stop, Token.stop, scan_start, stands, Utf8.width_append]
  rfl

/-- A scanner is at its end where the lexer is. -/
theorem ended_scanner (stands : lexer.offset = width before) :
    (lexer.scanner before).input.length ≤ (lexer.scanner before).position ↔ lexer.rest = [] := by
  have short := Utf8.length_le_width lexer.rest
  simp only [scanner, stands, Utf8.length_encode, Utf8.width_append]
  constructor
  · intro ended
    exact List.eq_nil_of_length_eq_zero (by omega)
  · intro nothing
    rw [nothing]
    exact Nat.le_refl _

/-- A scanner gives the tokens of the lexer as places in the bytes. -/
theorem allFrom_scanner {fuel steps : Nat} (stands : lexer.offset = width before)
    (enough : lexer.rest.length < fuel) (many : lexer.rest.length < steps) :
    Scanner.allFrom fuel (lexer.scanner before) = (allFrom steps lexer).map Token.span := by
  induction steps generalizing fuel lexer before with
  | zero => omega
  | succ steps ih =>
      cases fuel with
      | zero => omega
      | succ fuel =>
          rw [Scanner.allFrom_succ, allFrom_succ, next_scanner stands]
          by_cases nothing : lexer.rest = []
          · rw [if_pos ((ended_scanner stands).mpr nothing), if_pos (List.isEmpty_iff.mpr nothing)]
            rfl
          · have fewer := length_next nothing
            rw [if_neg (mt (ended_scanner stands).mp nothing), if_neg (mt List.isEmpty_iff.mp nothing),
              List.map_cons]
            exact congrArg _ (ih (offset_next stands) (by omega) (by omega))

/-- The lexer after some tokens of a query. -/
def after (query : List Char) (limit : Nat) : Nat → Lexer
  | 0 => ofText query limit
  | calls + 1 => (after query limit calls).next.2

/-- The characters of the tokens before a call. -/
def passed (query : List Char) (limit : Nat) : Nat → List Char
  | 0 => []
  | calls + 1 => passed query limit calls ++ (after query limit calls).next.1.lexeme

variable (query : List Char) (limit calls : Nat)

/-- What has been passed and what is left are the query. -/
theorem passed_append : passed query limit calls ++ (after query limit calls).rest = query := by
  induction calls with
  | zero => rfl
  | succ calls ih =>
      have cut := scan_lexeme (after query limit calls)
      conv => rhs; rw [← ih, ← cut]
      exact List.append_assoc ..

/-- The offset is the number of bytes that have been passed. -/
theorem offset_after : (after query limit calls).offset = width (passed query limit calls) := by
  induction calls with
  | zero => rfl
  | succ calls ih => exact offset_next ih

/-- Every token takes a character, up to the end. -/
theorem length_after : (after query limit calls).rest.length ≤ query.length - calls := by
  induction calls with
  | zero => exact Nat.le_refl _
  | succ calls ih =>
      by_cases more : (after query limit calls).rest = []
      · simp [after, next, more]
      · have fewer := length_next more
        simp only [after]
        omega

/-- The first token of a text is as long after any token. -/
theorem measure_length (previous other : Option TokenKind) (c : Char) (rest : List Char) :
    (measure previous c rest).2 = (measure other c rest).2 := by
  unfold measure
  split_ifs <;> rfl

theorem offset_le_stop (lexer : Lexer) : lexer.offset ≤ lexer.scan.stop := by
  rw [← scan_start]
  exact Nat.le_add_right ..

/-- A lexer with a limit goes the way of one without, and knows as much of the tokens before it until
it is beyond the limit. -/
structure Follows (limited free : Lexer) : Prop where
  unlimited : free.limit = 0
  rest : limited.rest = free.rest
  offset : limited.offset = free.offset
  previous : limited.previous = free.previous ∨
    limited.limit ≠ 0 ∧ limited.limit < limited.offset

namespace Follows

variable {limited free : Lexer} (follows : Follows limited free)

include follows

theorem lexeme_scan : limited.scan.lexeme = free.scan.lexeme := by
  unfold scan
  rw [follows.rest]
  cases free.rest with
  | nil => rfl
  | cons c rest => exact congrArg ((c :: rest).take ·) (measure_length _ _ c rest)

theorem stop_scan : limited.scan.stop = free.scan.stop := by
  unfold Token.stop Token.width
  rw [scan_start, scan_start, follows.offset, follows.lexeme_scan]

/-- The limit takes the kind of the tokens beyond it, and leaves the others theirs. -/
theorem kind_next : limited.next.1.kind =
    if limited.limit ≠ 0 ∧ limited.limit < limited.scan.stop then .invalid
    else free.next.1.kind := by
  have plain : free.next.1.kind = free.scan.kind := by
    simp [next, limitKind, follows.unlimited]
  have kind : limited.next.1.kind =
      if limited.limit ≠ 0 ∧ limited.limit < limited.scan.stop then .invalid
      else limited.scan.kind := rfl
  rw [kind, plain]
  rcases follows.previous with same | ⟨bounded, beyond⟩
  · have kinds : limited.scan.kind = free.scan.kind := by
      unfold scan
      rw [follows.rest, same]
      cases free.rest <;> rfl
    rw [kinds]
  · have later : limited.offset ≤ limited.scan.stop := limited.offset_le_stop
    rw [if_pos ⟨bounded, Nat.lt_of_lt_of_le beyond later⟩,
      if_pos ⟨bounded, Nat.lt_of_lt_of_le beyond later⟩]

theorem next : Follows limited.next.2 free.next.2 where
  unlimited := follows.unlimited
  rest := by
    show limited.rest.drop limited.scan.lexeme.length = free.rest.drop free.scan.lexeme.length
    rw [follows.rest, follows.lexeme_scan]
  offset := follows.stop_scan
  previous := by
    by_cases beyond : limited.limit ≠ 0 ∧ limited.limit < limited.scan.stop
    · exact .inr beyond
    rcases follows.previous with same | ⟨bounded, past⟩
    · have kinds := follows.kind_next
      rw [if_neg beyond] at kinds
      left
      show (if limited.next.1.kind.isSignificant then some limited.next.1.kind
        else limited.previous) = if free.next.1.kind.isSignificant then some free.next.1.kind
        else free.previous
      rw [kinds, same]
    · exact absurd ⟨bounded, Nat.lt_of_lt_of_le past limited.offset_le_stop⟩ beyond

end Follows

theorem limit_after (query : List Char) (limit calls : Nat) :
    (after query limit calls).limit = limit := by
  induction calls with
  | zero => rfl
  | succ calls ih => exact ih

/-- Reading with a limit follows reading without one. -/
theorem follows_after (query : List Char) (limit calls : Nat) :
    Follows (after query limit calls) (after query 0 calls) := by
  induction calls with
  | zero => exact ⟨rfl, rfl, rfl, .inl rfl⟩
  | succ calls ih => exact ih.next

/-- A token before the end has a width. -/
theorem width_pos {lexer : Lexer} (more : lexer.rest ≠ []) : 0 < width lexer.next.1.lexeme := by
  obtain ⟨c, rest, cons⟩ := List.exists_cons_of_ne_nil more
  have long := (measure_spec lexer.previous c rest).1
  obtain ⟨count, some⟩ := Nat.exists_eq_succ_of_ne_zero (Nat.ne_of_gt long)
  have wide := c.utf8Size_pos
  simp only [next, scan, cons, some, List.take_succ_cons, Utf8.width_cons]
  omega

/-- From where nothing is left on, every token is the end. -/
theorem rest_after {query : List Char} {limit count calls : Nat}
    (ended : (after query limit count).rest = []) (late : count ≤ calls) :
    (after query limit calls).rest = [] := by
  induction calls, late using Nat.le_induction with
  | base => exact ended
  | succ calls _ ih =>
      show (after query limit calls).rest.drop _ = []
      rw [ih, List.drop_nil]

end Lexer

namespace Scanner

/-- The scanner after some calls. -/
def after (query : String) (limit : Nat) : Nat → Scanner
  | 0 => ofText query limit
  | calls + 1 => (after query limit calls).next.2

/-- What a call answers. -/
def token (query : String) (limit calls : Nat) : Span := (after query limit calls).next.1

/-- After any calls the scanner stands where the lexer does. -/
theorem after_eq (query : String) (limit calls : Nat) : after query limit calls =
    (Lexer.after query.toList limit calls).scanner (Lexer.passed query.toList limit calls) := by
  induction calls with
  | zero => rfl
  | succ calls ih =>
      rw [after, ih, Lexer.next_scanner (Lexer.offset_after ..)]
      rfl

/-- The token of a call is that of the lexer as a place in the bytes. -/
theorem token_eq (query : String) (limit calls : Nat) :
    token query limit calls = (Lexer.after query.toList limit calls).next.1.span := by
  rw [token, after_eq, Lexer.next_scanner (Lexer.offset_after ..)]

variable (query : String) (limit calls : Nat)

/-- The tokens that are read from the bytes of a query are those that are read from its characters. -/
theorem all_eq : all query limit = (Lexer.all query.toList limit).map Token.span := by
  have short := Utf8.length_le_width query.toList
  rw [← Utf8.length_encode] at short
  have stands : (Lexer.ofText query.toList limit).offset = width [] := rfl
  exact Lexer.allFrom_scanner stands (Nat.lt_succ_of_le short) (Nat.lt_succ_self _)

/-- A token starts behind what has been passed. -/
theorem start_token :
    (token query limit calls).start = width (Lexer.passed query.toList limit calls) := by
  rw [token_eq, ← Lexer.offset_after]
  exact Lexer.scan_start _

/-- A token stops where the next one starts. -/
theorem stop_token :
    (token query limit calls).stop = width (Lexer.passed query.toList limit (calls + 1)) := by
  rw [token_eq, ← Lexer.offset_after]
  rfl

/-- The text of a token is what the lexer read. -/
theorem text?_token : (token query limit calls).text? query =
    some (String.ofList (Lexer.after query.toList limit calls).next.1.lexeme) := by
  have piece := Utf8.slice?_encode (Lexer.passed query.toList limit calls)
    (Lexer.after query.toList limit calls).next.1.lexeme
    (Lexer.after query.toList limit (calls + 1)).rest
  rw [← Lexer.passed, Lexer.passed_append] at piece
  rw [Span.text?, start_token, stop_token]
  exact piece

/-- The texts of the first tokens are what was read. -/
theorem join_texts : String.join ((List.range calls).map fun call =>
    (token query limit call).text query) =
      String.ofList (Lexer.passed query.toList limit calls) := by
  induction calls with
  | zero => rfl
  | succ calls ih =>
      rw [List.range_succ, List.map_append, String.join_append, ih, Lexer.passed,
        String.ofList_append]
      simp [Span.text, text?_token]

end Scanner

/-- Tokens that cut a query into a number of parts, and are empty ones at its end from then on. A
limit on the bytes of the query leaves no kind but the invalid one beyond it. -/
structure IsPartition (query : String) (limit : Nat) (token : Nat → Span) (count : Nat) : Prop where
  start_zero : (token 0).start = 0
  adjacent : ∀ call, (token (call + 1)).start = (token call).stop
  filled : ∀ call < count, (token call).start < (token call).stop
  count_le : count ≤ (Utf8.bytes query).length
  ended : ∀ call, count ≤ call → token call =
    ⟨Scanner.limitKind limit ⟨.endOfQuery, (Utf8.bytes query).length, (Utf8.bytes query).length⟩,
      (Utf8.bytes query).length, (Utf8.bytes query).length⟩
  boundaries : ∀ call, Utf8.isBoundary (Utf8.bytes query) (token call).start = true ∧
    Utf8.isBoundary (Utf8.bytes query) (token call).stop = true
  texts : ∀ call, ∃ text, (token call).text? query = some text ∧
    Utf8.bytes text = (Utf8.bytes query).extract (token call).start (token call).stop
  joined : String.join ((List.range count).map fun call => (token call).text query) = query

/-- The tokens up to where a lexer has nothing left partition the query. -/
theorem isPartition_of_ended {query : String} {limit count : Nat}
    (ended : (Lexer.after query.toList limit count).rest = [])
    (before : ∀ call < count, (Lexer.after query.toList limit call).rest ≠ []) :
    IsPartition query limit (Scanner.token query limit) count := by
  have whole (call : Nat) := Lexer.passed_append query.toList limit call
  have boundary (call : Nat) : Utf8.isBoundary (Utf8.bytes query)
      (width (Lexer.passed query.toList limit call)) = true :=
    Utf8.isBoundary_encode ⟨_, _, (whole call).symm, rfl⟩
  have passed {call : Nat} (late : count ≤ call) :
      Lexer.passed query.toList limit call = query.toList := by
    have all := whole call
    rwa [Lexer.rest_after ended late, List.append_nil] at all
  constructor
  case start_zero => exact Scanner.start_token query limit 0
  case adjacent =>
    intro call
    rw [Scanner.start_token, Scanner.stop_token]
  case filled =>
    intro call early
    rw [Scanner.start_token, Scanner.stop_token, Lexer.passed, Utf8.width_append]
    exact Nat.lt_add_of_pos_right (Lexer.width_pos (before call early))
  case count_le =>
    by_contra! long
    have early := before (Utf8.bytes query).length long
    refine early (List.eq_nil_of_length_eq_zero ?_)
    have short := Lexer.length_after query.toList limit (Utf8.bytes query).length
    have chars : query.toList.length ≤ (Utf8.bytes query).length := by
      rw [Utf8.bytes, Utf8.length_encode]
      exact Utf8.length_le_width _
    omega
  case ended =>
    intro call late
    have offset := Lexer.offset_after query.toList limit call
    rw [passed late, ← Utf8.length_encode] at offset
    have nothing : (Lexer.after query.toList limit call).scan =
        ⟨.endOfQuery, (Utf8.bytes query).length, []⟩ := by
      rw [Lexer.scan, Lexer.rest_after ended late, offset]
      rfl
    rw [Scanner.token_eq]
    simp only [Lexer.next, Token.span, nothing, Lexer.limit_after]
    rfl
  case boundaries =>
    intro call
    rw [Scanner.start_token, Scanner.stop_token]
    exact ⟨boundary call, boundary (call + 1)⟩
  case texts =>
    intro call
    have text := Scanner.text?_token query limit call
    refine ⟨_, text, ?_⟩
    rw [Span.text?, Utf8.slice?] at text
    split at text
    next => exact Utf8.decode?_eq_some.mp text
    next => cases text
  case joined => rw [Scanner.join_texts, passed (Nat.le_refl _), String.ofList_toList]

/-- The tokens of a query partition it, whatever the limit, and the limit moves none of them: it takes
their kind from those that stop beyond it and leaves theirs to the others. -/
theorem tokens_partition (query : String) (limit : Nat) :
    (∃ count, IsPartition query limit (Scanner.token query limit) count) ∧
      ∀ call, (Scanner.token query limit call).start = (Scanner.token query 0 call).start ∧
        (Scanner.token query limit call).stop = (Scanner.token query 0 call).stop ∧
        (Scanner.token query limit call).kind =
          if limit ≠ 0 ∧ limit < (Scanner.token query limit call).stop then .invalid
          else (Scanner.token query 0 call).kind := by
  constructor
  · have reached : ∃ count, (Lexer.after query.toList limit count).rest = [] := by
      refine ⟨query.toList.length, List.eq_nil_of_length_eq_zero ?_⟩
      have none := Lexer.length_after query.toList limit query.toList.length
      omega
    exact ⟨Nat.find reached,
      isPartition_of_ended (Nat.find_spec reached) fun call early => Nat.find_min reached early⟩
  · intro call
    have follows := Lexer.follows_after query.toList limit call
    have kind := follows.kind_next
    rw [Lexer.limit_after] at kind
    simp only [Scanner.token_eq]
    refine ⟨?_, follows.stop_scan, kind⟩
    show (Lexer.after query.toList limit call).scan.start = (Lexer.after query.toList 0 call).scan.start
    rw [Lexer.scan_start, Lexer.scan_start, follows.offset]

end Query
end Concordance
