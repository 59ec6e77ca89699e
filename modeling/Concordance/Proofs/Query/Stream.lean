import Concordance.Proofs.Query.Tokens
import Concordance.Query.TokenStream

namespace Concordance.Query

/-- Tokens up to the first final one. -/
def cutAfterFinal : List Token → List Token
  | [] => []
  | token :: rest => if token.kind.isFinal then [token] else token :: cutAfterFinal rest

theorem Lexer.cutAfterFinal_allFrom (fuel : Nat) (lexer : Lexer) :
    cutAfterFinal (allFrom fuel lexer) = tokensFrom fuel lexer := by
  induction fuel generalizing lexer with
  | zero => rfl
  | succ fuel ih =>
      rw [allFrom_succ, tokensFrom_succ]
      by_cases nothing : lexer.rest = []
      · simp [nothing, isFinal_next nothing, cutAfterFinal]
      · rw [if_neg (c := lexer.rest.isEmpty = true) (by simpa using nothing), cutAfterFinal, ih]

/-- The tokens that are read end in a final one. -/
theorem Lexer.exists_final_tokensFrom {fuel : Nat} {lexer : Lexer}
    (enough : lexer.rest.length < fuel) :
    ∃ before final, tokensFrom fuel lexer = before ++ [final] ∧ final.kind.isFinal = true := by
  induction fuel generalizing lexer with
  | zero => omega
  | succ fuel ih =>
      rw [tokensFrom_succ]
      by_cases final : lexer.next.1.kind.isFinal = true
      · exact ⟨[], _, if_pos final, final⟩
      · have fewer : lexer.next.2.rest.length < fuel :=
          Nat.lt_of_lt_of_le (length_next_of_plain final) (Nat.le_of_lt_succ enough)
        obtain ⟨before, last, same, ends⟩ := ih fewer
        exact ⟨lexer.next.1 :: before, last, by rw [if_neg final, same, List.cons_append], ends⟩

namespace TokenStream

/-- The significant tokens of a text up to its first final one. -/
def tokensOfText (query : List Char) (limit : Nat) : List Token :=
  (cutAfterFinal (Lexer.all query limit)).filter (·.kind.isSignificant)

/-- The stream gives the tokens that the parser reads. -/
theorem tokensOfText_eq (query : List Char) (limit : Nat) :
    tokensOfText query limit = Lexer.significant query limit := by
  rw [tokensOfText, Lexer.all, Lexer.cutAfterFinal_allFrom, Lexer.significant]

/-- The last token of a text is final. -/
theorem getLast?_tokensOfText (query : List Char) (limit : Nat) :
    (tokensOfText query limit).getLast?.any (·.kind.isFinal) = true := by
  obtain ⟨before, final, same, ends⟩ :=
    Lexer.exists_final_tokensFrom (Nat.lt_succ_self (Lexer.ofText query limit).rest.length)
  have last : (tokensOfText query limit).getLast? = some final := by
    rw [tokensOfText_eq, Lexer.significant]
    show ((Lexer.tokensFrom ((Lexer.ofText query limit).rest.length + 1) _).filter _).getLast? = _
    rw [same, List.filter_append, List.filter_cons, if_pos (isSignificant_of_isFinal ends)]
    exact List.getLast?_concat
  rw [last, Option.any_some, ends]

variable {tokens : List Token} {stream : TokenStream}

/-- The tokens are those that have been loaded, and those that the lexer comes to before the first
final one. -/
def Reads (stream : TokenStream) (tokens : List Token) : Prop :=
  if stream.final?.isSome then stream.loaded = tokens
  else ∃ fuel, stream.lexer.rest.length < fuel ∧
    stream.loaded ++ (Lexer.tokensFrom fuel stream.lexer).filter (·.kind.isSignificant) = tokens

/-- What has been read is the start of all tokens. -/
theorem Reads.loaded_prefix (reads : stream.Reads tokens) : stream.loaded <+: tokens := by
  unfold Reads at reads
  split at reads
  next => exact reads ▸ List.prefix_rfl
  next =>
    obtain ⟨fuel, -, same⟩ := reads
    exact ⟨_, same⟩

/-- A stream that has not been asked has read nothing. -/
theorem reads_ofText (query : List Char) (limit : Nat) :
    (ofText query limit).Reads (tokensOfText query limit) := by
  rw [Reads, if_neg (by simp [final?, ofText]), tokensOfText_eq]
  exact ⟨query.length + 1, Nat.lt_succ_self _, rfl⟩

theorem loaded_advance (stream : TokenStream) : stream.advance.loaded =
    stream.loaded ++ [stream.lexer.next.1].filter (·.kind.isSignificant) := by
  by_cases significant : stream.lexer.next.1.kind.isSignificant = true
  · simp [advance, significant]
  · simp [advance, significant]

theorem length_advance (stream : TokenStream) :
    stream.advance.loaded.length ≤ stream.loaded.length + 1 := by
  rw [loaded_advance, List.length_append]
  exact Nat.add_le_add_left (List.length_filter_le _ [_]) _

/-- A token that is not final leaves the stream unfinished. -/
theorem final?_advance (unfinished : stream.final? = none)
    (plain : stream.lexer.next.1.kind.isFinal ≠ true) : stream.advance.final? = none := by
  by_cases significant : stream.lexer.next.1.kind.isSignificant = true
  · simp [final?, loaded_advance, significant, plain]
  · simpa [final?, loaded_advance, significant] using unfinished

/-- One more token from the lexer is one of the tokens. -/
theorem Reads.advance (reads : stream.Reads tokens) (unfinished : stream.final? = none) :
    stream.advance.Reads tokens := by
  rw [Reads, if_neg (by simp [unfinished])] at reads
  obtain ⟨fuel, enough, same⟩ := reads
  obtain ⟨fuel, rfl⟩ : ∃ more, fuel = more + 1 := ⟨fuel - 1, by omega⟩
  rw [Lexer.tokensFrom_succ] at same
  by_cases final : stream.lexer.next.1.kind.isFinal = true
  · rw [if_pos final, ← loaded_advance] at same
    rwa [Reads, if_pos (isSome_final?_advance final)]
  · have fewer : stream.lexer.next.2.rest.length < fuel :=
      Nat.lt_of_lt_of_le (Lexer.length_next_of_plain final) (Nat.le_of_lt_succ enough)
    rw [if_neg final, ← List.singleton_append, List.filter_append, ← List.append_assoc,
      ← loaded_advance] at same
    rw [Reads, if_neg (by simp [final?_advance unfinished final])]
    exact ⟨fuel, fewer, same⟩

/-- A token that has been read is returned as it was read. -/
theorem get_loaded {index : Nat} {token : Token} (found : stream.loaded[index]? = some token) :
    stream.get index = (token, stream) := by
  rw [get, found]

/-- Beyond the final token the answer is the final token. -/
theorem get_final {index : Nat} {final : Token} (missing : stream.loaded[index]? = none)
    (ended : stream.final? = some final) : stream.get index = (final, stream) := by
  rw [get, missing]
  simp only
  split
  next other found =>
    rw [ended] at found
    cases found
    rfl
  next unfinished => rw [ended] at unfinished; cases unfinished

/-- A token that has not been read yet is looked for one token on. -/
theorem get_advance {index : Nat} (missing : stream.loaded[index]? = none)
    (unfinished : stream.final? = none) : stream.get index = stream.advance.get index := by
  rw [get, missing]
  simp only
  split
  next final ended => rw [unfinished] at ended; cases ended
  next => rfl

/-- The answer to a question for an index, and what has been loaded after it. -/
structure Answers (tokens : List Token) (index : Nat) (stream : TokenStream) : Prop where
  token : tokens[min index (tokens.length - 1)]? = some (stream.get index).1
  reads : (stream.get index).2.Reads tokens
  length : (stream.get index).2.loaded.length =
    Max.max stream.loaded.length (min (index + 1) tokens.length)

/-- The token at an index is found, and the stream reads no further than to it. -/
theorem Reads.get (reads : stream.Reads tokens) (index : Nat) : Answers tokens index stream := by
  induction stream using get.induct index with
  | case1 stream token found =>
      have start := reads.loaded_prefix
      obtain ⟨within, same⟩ := List.getElem?_eq_some_iff.mp found
      have long := start.length_le
      have here : min index (tokens.length - 1) = index := by omega
      refine ⟨?_, ?_, ?_⟩
      · rw [get_loaded found, here]
        rw [List.prefix_iff_getElem?.mp start index within, same]
      · rwa [get_loaded found]
      · rw [get_loaded found]
        show stream.loaded.length = _
        omega
  | case2 stream missing final ended =>
      have beyond := List.getElem?_eq_none_iff.mp missing
      have whole : stream.loaded = tokens := by
        rwa [Reads, if_pos (by simp [ended])] at reads
      obtain ⟨last, -⟩ := Option.filter_eq_some_iff.mp ended
      rw [whole] at beyond last
      have here : min index (tokens.length - 1) = tokens.length - 1 := by omega
      refine ⟨?_, ?_, ?_⟩
      · rw [get_final missing ended, here, ← List.getLast?_eq_getElem?]
        exact last
      · rwa [get_final missing ended]
      · rw [get_final missing ended, whole]
        omega
  | case3 stream missing unfinished ih =>
      have beyond := List.getElem?_eq_none_iff.mp missing
      have onward := reads.advance unfinished
      have answers := ih onward
      have more := length_advance stream
      have fits := onward.loaded_prefix.length_le
      have before := reads.loaded_prefix.length_le
      have same := get_advance missing unfinished
      refine ⟨same ▸ answers.token, same ▸ answers.reads, ?_⟩
      have length := answers.length
      rw [same]
      omega

/-- There is a token to answer with. -/
theorem Reads.length_pos (reads : stream.Reads tokens) : 0 < tokens.length := by
  have first := (reads.get 0).token
  obtain ⟨within, -⟩ := List.getElem?_eq_some_iff.mp first
  omega

/-- What may be asked of a stream. -/
inductive Question where
  | get (index : Nat)
  | max

def Question.answer : Question → TokenStream → Token × TokenStream
  | get index, stream => stream.get index
  | max, stream => stream.max

/-- The stream of a text after questions. -/
def after (query : List Char) (limit : Nat) (questions : List Question) : TokenStream :=
  questions.foldl (fun stream question => (question.answer stream).2) (ofText query limit)

/-- The largest of an index and the one of a question. -/
def Question.farthest (index : Nat) : Question → Nat
  | get other => Max.max index other
  | max => index

/-- The largest index that was asked for, the first one if none was. -/
def farthest (questions : List Question) : Nat := questions.foldl Question.farthest 0

/-- The stream has read as far as to an index, or nothing yet. -/
structure HasRead (tokens : List Token) (index : Nat) (stream : TokenStream) : Prop where
  reads : stream.Reads tokens
  length : stream.loaded = [] ∧ index = 0 ∨ stream.loaded.length = min (index + 1) tokens.length

namespace HasRead

variable {index : Nat}

theorem get (read : HasRead tokens index stream) (other : Nat) :
    HasRead tokens (Max.max index other) (stream.get other).2 := by
  have answers := read.reads.get other
  refine ⟨answers.reads, .inr ?_⟩
  have length := answers.length
  rcases read.length with ⟨nothing, rfl⟩ | before
  · rw [nothing, List.length_nil] at length
    omega
  · omega

/-- The last token that was read is the one at the largest index. -/
theorem max (read : HasRead tokens index stream) :
    tokens[min index (tokens.length - 1)]? = some stream.max.1 ∧
      HasRead tokens index stream.max.2 := by
  have filled := read.reads.length_pos
  rw [TokenStream.max]
  split
  next token last =>
    have length : stream.loaded.length = min (index + 1) tokens.length := by
      refine read.length.resolve_left fun both => ?_
      rw [both.1] at last
      cases last
    refine ⟨?_, read⟩
    obtain ⟨within, same⟩ := List.getElem?_eq_some_iff.mp (List.getLast?_eq_getElem? ▸ last)
    have here : min index (tokens.length - 1) = stream.loaded.length - 1 := by omega
    rw [here, List.prefix_iff_getElem?.mp read.reads.loaded_prefix _ within, same]
  next nothing =>
    have blank := List.getLast?_eq_none_iff.mp nothing
    have first : index = 0 := by
      rcases read.length with ⟨-, zero⟩ | length
      · exact zero
      · rw [blank, List.length_nil] at length
        omega
    subst first
    exact ⟨(read.reads.get 0).token, read.get 0⟩

/-- A question reads on at most as far as it asks. -/
theorem answer (read : HasRead tokens index stream) (question : Question) :
    HasRead tokens (question.farthest index) (question.answer stream).2 := by
  cases question with
  | get other => exact read.get other
  | max => exact read.max.2

/-- After questions the stream has read as far as to the largest index. -/
theorem after (query : List Char) (limit : Nat) (questions : List Question) :
    HasRead (tokensOfText query limit) (farthest questions)
      (after query limit questions) := by
  have all : ∀ (questions : List Question) {tokens : List Token} {index : Nat}
      {stream : TokenStream}, HasRead tokens index stream →
      HasRead tokens (questions.foldl Question.farthest index)
        (questions.foldl (fun stream question => (question.answer stream).2) stream) := by
    intro questions
    induction questions with
    | nil => exact id
    | cons question rest ih => exact fun read => ih (read.answer question)
  exact all questions ⟨reads_ofText query limit, .inl ⟨rfl, rfl⟩⟩

end HasRead

/-- The tokens of a text end in a final one. Whatever was asked before, an index is answered with
the token there, the final one when the index is beyond it, and the last token that was read is the
one at the largest index so far. -/
theorem answers_after (query : List Char) (limit : Nat) (questions : List Question) :
    let tokens := tokensOfText query limit
    let stream := after query limit questions
    tokens.getLast?.any (·.kind.isFinal) = true ∧
    (∀ index, tokens[min index (tokens.length - 1)]? = some (stream.get index).1) ∧
      tokens[min (farthest questions) (tokens.length - 1)]? = some stream.max.1 := by
  have read := HasRead.after query limit questions
  exact ⟨getLast?_tokensOfText query limit, fun index => (read.reads.get index).token, read.max.1⟩

end TokenStream
end Concordance.Query
