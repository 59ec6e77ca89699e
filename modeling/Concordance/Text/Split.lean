/-! Cutting a text at every occurrence of a mark, and joining the pieces again. -/
namespace Concordance.Text

/-- The pieces between marks. There is always one more piece than there are marks. -/
def pieces {α : Type} (isMark : α → Bool) : List α → List (List α)
  | [] => [[]]
  | c :: rest =>
      if isMark c then [] :: pieces isMark rest
      else match pieces isMark rest with
        | [] => [[c]]
        | piece :: more => (c :: piece) :: more

theorem pieces_ne_nil {α : Type} (isMark : α → Bool) (text : List α) :
    pieces isMark text ≠ [] := by
  cases text with
  | nil => simp [pieces]
  | cons c rest =>
      simp only [pieces]
      split
      · simp
      · split <;> simp

/-- The pieces one after another with a mark between neighbours. -/
def join {α : Type} (mark : List α) : List (List α) → List α
  | [] => []
  | [piece] => piece
  | piece :: next :: more => piece ++ mark ++ join mark (next :: more)

theorem join_cons {α : Type} (mark : List α) (piece : List α) {more : List (List α)}
    (more_ne : more ≠ []) : join mark (piece :: more) = piece ++ mark ++ join mark more := by
  cases more with
  | nil => exact absurd rfl more_ne
  | cons next rest => rfl

/-- Joining undoes cutting. -/
theorem join_pieces {α : Type} [DecidableEq α] (mark : α) (text : List α) :
    join [mark] (pieces (· == mark) text) = text := by
  induction text with
  | nil => rfl
  | cons c rest ih =>
      simp only [pieces]
      split
      next same =>
        rw [join_cons _ _ (pieces_ne_nil _ _), ih]
        simp_all
      next =>
        split
        next none => exact absurd none (pieces_ne_nil _ _)
        next piece more found =>
          rw [found] at ih
          cases more with
          | nil => simp_all [join]
          | cons next others => simpa [join] using ih

end Concordance.Text
