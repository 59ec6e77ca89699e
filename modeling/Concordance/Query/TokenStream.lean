import Concordance.Query.Lexer

/-! The tokens of a query that its grammar speaks of, by number. -/
namespace Concordance.Query

structure TokenStream where
  lexer : Lexer
  loaded : List Token
deriving DecidableEq, Repr

namespace TokenStream

def ofText (query : List Char) (limit : Nat) : TokenStream := ⟨Lexer.ofText query limit, []⟩

/-- The stream with one more token read from the lexer. -/
def advance (stream : TokenStream) : TokenStream :=
  let (token, lexer) := stream.lexer.next
  ⟨lexer, if token.kind.isSignificant then stream.loaded ++ [token] else stream.loaded⟩

/-- The final token, once it has been read. -/
def final? (stream : TokenStream) : Option Token :=
  stream.loaded.getLast?.filter (·.kind.isFinal)

/-- What there is to read before a final token: characters, and the end of the text. -/
def ahead (stream : TokenStream) : Nat :=
  stream.lexer.rest.length + if stream.final?.isSome then 0 else 1

theorem isSome_final?_advance {stream : TokenStream}
    (final : stream.lexer.next.1.kind.isFinal = true) : stream.advance.final?.isSome = true := by
  simp [final?, advance, isSignificant_of_isFinal final, final]

/-- Every token that is read takes characters or is the end of the text. -/
theorem ahead_advance {stream : TokenStream} (unfinished : stream.final? = none) :
    stream.advance.ahead < stream.ahead := by
  simp only [ahead, unfinished, Option.isSome_none, Bool.false_eq_true, if_false]
  by_cases nothing : stream.lexer.rest = []
  · have rest : stream.advance.lexer.rest = [] := by simp [advance, Lexer.next, nothing]
    rw [isSome_final?_advance (Lexer.isFinal_next nothing), rest, nothing]
    simp
  · have fewer : stream.advance.lexer.rest.length < stream.lexer.rest.length :=
      Lexer.length_next nothing
    split <;> omega

/-- The token at an index and, beyond the final token, the final one. -/
def get (stream : TokenStream) (index : Nat) : Token × TokenStream :=
  match stream.loaded[index]? with
  | some token => (token, stream)
  | none =>
      match _ended : stream.final? with
      | some final => (final, stream)
      | none => stream.advance.get index
termination_by stream.ahead
decreasing_by exact ahead_advance _ended

/-- The last token that was asked for. -/
def max (stream : TokenStream) : Token × TokenStream :=
  match stream.loaded.getLast? with
  | some token => (token, stream)
  | none => stream.get 0

end TokenStream
end Concordance.Query
