import Concordance.Proofs.Action
import Concordance.Proofs.Query.Unambiguous

/-! What the rules of the parser take from the symbols ahead, in both directions. -/
namespace Concordance.Query

namespace Parser

def State.symbols (state : State) : List Symbol := state.ahead.map Token.symbol

@[simp] theorem symbols_note (state : State) (item : Expectation) (index : Nat) :
    (state.note item index).symbols = state.symbols := by
  unfold State.note
  split
  · rfl
  · split <;> rfl

/-- Between two states the symbols of a phrase were read. -/
def Reads (state : State) (spelt : List Symbol) (rest : State) : Prop :=
  state.symbols = spelt ++ rest.symbols

namespace Reads

variable {state middle rest : State} {first second : List Symbol}

/-- What is read in two steps is read in one. -/
theorem trans (head : Reads state first middle) (tail : Reads middle second rest) :
    Reads state (first ++ second) rest := by
  rw [Reads, head, tail, List.append_assoc]

theorem cons {symbol : Symbol} (head : Reads state [symbol] middle)
    (tail : Reads middle second rest) : Reads state (symbol :: second) rest :=
  head.trans tail

theorem of_nil (head : Reads state [] middle) (tail : Reads middle second rest) :
    Reads state second rest :=
  head.trans tail

end Reads

/-- The rule gives a result and leaves certain symbols. -/
def Takes {α : Type} (rule : Rule α) (state : State) (result : α) (after : List Symbol) : Prop :=
  ∃ rest, rule state = .ok result rest ∧ rest.symbols = after

variable {α β : Type} {state rest : State}

/-- Two rules one after another take the symbols of both. -/
theorem Takes.bind {first : Rule α} {next : α → Rule β} {value : α} {result : β}
    {middle after : List Symbol} (head : Takes first state value middle)
    (tail : ∀ {left : State}, left.symbols = middle → Takes (next value) left result after) :
    Takes (first >>= next) state result after := by
  obtain ⟨left, read, symbols⟩ := head
  obtain ⟨rest, ended, remain⟩ := tail symbols
  exact ⟨rest, (bind_of_ok read).trans ended, remain⟩

theorem takes_pure {value : α} {after : List Symbol} (symbols : state.symbols = after) :
    Takes (pure value) state value after :=
  ⟨state, rfl, symbols⟩

theorem takes_wanted (item : Expectation) : Takes (wanted item) state () state.symbols :=
  ⟨_, rfl, symbols_note state item state.index⟩

theorem reads_of_wanted {item : Expectation} (read : wanted item state = .ok () rest) :
    Reads state [] rest := by
  cases read
  exact (symbols_note state item state.index).symm

/-- The token that a rule looks at. -/
def State.next (state : State) : Token := state.ahead.headD endToken

theorem symbol_next : state.next.symbol = state.symbols.headD (.sign .endOfQuery) := by
  unfold State.next State.symbols
  cases state.ahead <;> rfl

theorem symbol_next_of_cons {symbol : Symbol} {after : List Symbol}
    (spelt : state.symbols = symbol :: after) : state.next.symbol = symbol := by
  rw [symbol_next, spelt]
  rfl

/-- A word is next where the symbols begin with it. -/
theorem next_isWord {word : String} : (state.next.kind = .bareWord ∧ state.next.text = word) ↔
    state.symbols.head? = some (.word word) := by
  rw [← Token.symbol_eq_word, symbol_next]
  cases state.symbols <;> simp

/-- A sign is next where the symbols begin with it. -/
theorem next_isSign {kind : TokenKind}
    (plain : kind ∉ [.bareWord, .number, .stringLiteral, .quotedIdentifier, .endOfQuery]) :
    state.next.kind = kind ↔ state.symbols.head? = some (.sign kind) := by
  rw [← Token.symbol_eq_sign (by simp_all), symbol_next]
  cases state.symbols with
  | nil =>
      have apart : kind ≠ .endOfQuery := by simp_all
      simp [apart.symm]
  | cons symbol after => simp

/-- Looking at the next token changes nothing. -/
theorem read_of_peek {next : Token → Rule β} {result : β}
    (read : (peek >>= next) state = .ok result rest) : next state.next state = .ok result rest :=
  read

theorem takes_of_peek {next : Token → Rule β} {result : β} {after : List Symbol}
    (tail : Takes (next state.next) state result after) :
    Takes (peek >>= next) state result after := tail

/-- Advancing takes one symbol. -/
theorem takes_advance {symbol : Symbol} {after : List Symbol}
    (spelt : state.symbols = symbol :: after) : Takes advance state () after := by
  refine ⟨_, rfl, ?_⟩
  rw [State.symbols, List.map_tail, ← State.symbols, spelt]
  rfl

/-- A token that is not the end of the query is one of those ahead. -/
theorem ahead_ne_nil (there : state.next.kind ≠ .endOfQuery) : state.ahead ≠ [] := by
  intro nothing
  rw [State.next, nothing] at there
  exact there rfl

/-- Advancing reads the next symbol. -/
theorem reads_of_advance (there : state.ahead ≠ []) (read : advance state = .ok () rest) :
    Reads state [state.next.symbol] rest := by
  cases read
  obtain ⟨token, ahead, cons⟩ := List.exists_cons_of_ne_nil there
  simp [Reads, State.symbols, State.next, cons]

/-- Taking the next token, for a value that is known. -/
theorem reads_of_step {value result : α} (there : state.ahead ≠ [])
    (read : (do advance; return value : Rule α) state = .ok result rest) :
    result = value ∧ Reads state [state.next.symbol] rest := by
  obtain ⟨_, _, passed, read⟩ := ok_of_bind read
  cases read
  exact ⟨rfl, reads_of_advance there passed⟩

theorem takes_step (value : α) {symbol : Symbol} {after : List Symbol}
    (spelt : state.symbols = symbol :: after) :
    Takes (do advance; return value : Rule α) state value after :=
  Takes.bind (takes_advance spelt) takes_pure

/-- A rule that wants something else never succeeds. -/
theorem not_ok_of_failWanting {item : Expectation} {result : α}
    (read : failWanting item state = .ok result rest) : False := by
  cases read

/-- A kind that is expected is taken where it stands ahead. -/
theorem takes_expect {kind : TokenKind} {symbol : Symbol} {after : List Symbol}
    (spelt : state.symbols = symbol :: after) (same : state.next.kind = kind) :
    Takes (expect kind) state state.next after := by
  refine takes_of_peek ?_
  rw [if_pos same]
  exact takes_step _ spelt

/-- The end of the query is only taken where it is ahead. -/
theorem reads_of_expect {kind : TokenKind} {token : Token}
    (there : kind = .endOfQuery → state.ahead ≠ [])
    (read : expect kind state = .ok token rest) :
    token.kind = kind ∧ Reads state [token.symbol] rest := by
  replace read := read_of_peek read
  by_cases same : state.next.kind = kind
  · rw [if_pos same] at read
    have ahead : state.ahead ≠ [] := by
      by_cases ends : kind = .endOfQuery
      · exact there ends
      · exact ahead_ne_nil (same ▸ ends)
    obtain ⟨rfl, reads⟩ := reads_of_step ahead read
    exact ⟨same, reads⟩
  · rw [if_neg same] at read
    exact (not_ok_of_failWanting read).elim

/-- A keyword is taken where it stands ahead. -/
theorem takes_keyword {word : String} {after : List Symbol}
    (spelt : state.symbols = .word word :: after) : Takes (keyword word) state true after := by
  refine takes_of_peek ?_
  rw [if_pos (next_isWord.2 (by rw [spelt]; rfl))]
  exact takes_step _ spelt

/-- Where a keyword does not stand ahead nothing is taken. -/
theorem takes_no_keyword {word : String} (apart : state.symbols.head? ≠ some (.word word)) :
    Takes (keyword word) state false state.symbols := by
  refine takes_of_peek ?_
  rw [if_neg (mt next_isWord.1 apart)]
  exact Takes.bind (takes_wanted _) takes_pure

/-- A keyword is read where it was found, and nothing otherwise. -/
theorem reads_of_keyword {word : String} {found : Bool}
    (read : keyword word state = .ok found rest) :
    Reads state (if found then [.word word] else []) rest := by
  replace read := read_of_peek read
  by_cases same : state.next.kind = .bareWord ∧ state.next.text = word
  · rw [if_pos same] at read
    obtain ⟨rfl, reads⟩ := reads_of_step (ahead_ne_nil (by simp [same.1])) read
    rwa [Token.symbol_eq_word.2 same] at reads
  · rw [if_neg same] at read
    obtain ⟨_, _, wanted, read⟩ := ok_of_bind read
    cases read
    exact reads_of_wanted wanted

end Parser
end Concordance.Query
