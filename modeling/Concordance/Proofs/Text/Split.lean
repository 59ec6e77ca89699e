import Concordance.Text.Split

namespace Concordance.Text

variable {α : Type} {isMark : α → Bool}

/-- A text without marks is one piece. -/
theorem pieces_of_forall_not {text : List α} (unmarked : ∀ c ∈ text, isMark c = false) :
    pieces isMark text = [text] := by
  induction text with
  | nil => rfl
  | cons c rest ih =>
      have first := unmarked c List.mem_cons_self
      have others := ih fun other member => unmarked other (List.mem_cons_of_mem _ member)
      simp only [pieces, first, Bool.false_eq_true, if_false, others]

/-- At a mark the pieces of both sides come one after another. -/
theorem pieces_append_mark {mark : α} (marks : isMark mark = true) (before after : List α) :
    pieces isMark (before ++ mark :: after) = pieces isMark before ++ pieces isMark after := by
  induction before with
  | nil => simp [pieces, marks]
  | cons c rest ih =>
      rw [List.cons_append]
      simp only [pieces, ih]
      by_cases first : isMark c = true
      · rw [if_pos first, if_pos first]
        rfl
      · rw [if_neg first, if_neg first]
        obtain ⟨piece, more, found⟩ := List.exists_cons_of_ne_nil (pieces_ne_nil isMark rest)
        rw [found]
        rfl

/-- Parts with marks between them have the pieces of all parts. -/
theorem pieces_join {mark : α} (marks : isMark mark = true) {parts : List (List α)}
    (filled : parts ≠ []) : pieces isMark (join [mark] parts) = parts.flatMap (pieces isMark) := by
  induction parts with
  | nil => exact absurd rfl filled
  | cons part rest ih =>
      cases rest with
      | nil => simp [join]
      | cons next more =>
          rw [join_cons _ _ (List.cons_ne_nil next more), List.append_assoc, List.singleton_append,
            pieces_append_mark marks, ih (List.cons_ne_nil next more)]
          rfl

/-- What is no mark joins the last piece. -/
theorem pieces_concat {c : α} (unmarked : isMark c = false) (text : List α) :
    ∃ before last, pieces isMark text = before ++ [last] ∧
      pieces isMark (text ++ [c]) = before ++ [last ++ [c]] := by
  induction text with
  | nil => exact ⟨[], [], rfl, by simp [pieces, unmarked]⟩
  | cons d rest ih =>
      obtain ⟨before, last, found, joined⟩ := ih
      rw [List.cons_append]
      simp only [pieces, found, joined]
      by_cases first : isMark d = true
      · rw [if_pos first, if_pos first]
        exact ⟨[] :: before, last, rfl, rfl⟩
      · rw [if_neg first, if_neg first]
        cases before with
        | nil => exact ⟨[], d :: last, rfl, rfl⟩
        | cons piece more => exact ⟨(d :: piece) :: more, last, rfl, rfl⟩

/-- Where two marks are the same for all that a text holds, it has the same pieces. -/
theorem pieces_congr {other : α → Bool} {text : List α}
    (same : ∀ c ∈ text, isMark c = other c) : pieces isMark text = pieces other text := by
  induction text with
  | nil => rfl
  | cons c rest ih =>
      have first := same c List.mem_cons_self
      have later := ih fun d member => same d (List.mem_cons_of_mem _ member)
      simp only [pieces, first, later]

/-- A part of a text between two marks, or between a mark and an end of the text. -/
def IsPiece (isMark : α → Bool) (text : List α) (start : Nat) (piece : List α) : Prop :=
  ∃ before after, text = before ++ piece ++ after ∧ before.length = start ∧
    (before = [] ∨ ∃ front mark, before = front ++ [mark] ∧ isMark mark = true) ∧
    (after = [] ∨ ∃ mark rest, after = mark :: rest ∧ isMark mark = true) ∧
    ∀ c ∈ piece, isMark c = false

/-- The number of elements that pieces take, each with the mark that follows it. -/
def span : List (List α) → Nat
  | [] => 0
  | piece :: rest => piece.length + 1 + span rest

/-- The pieces of a text, each counted with a mark behind it, are one longer than the text. -/
theorem span_pieces (text : List α) : span (pieces isMark text) = text.length + 1 := by
  induction text with
  | nil => rfl
  | cons c rest ih =>
      simp only [pieces]
      by_cases first : isMark c = true
      · rw [if_pos first]
        show 0 + 1 + span (pieces isMark rest) = _
        rw [ih, List.length_cons]
        omega
      · obtain ⟨piece, more, found⟩ := List.exists_cons_of_ne_nil (pieces_ne_nil isMark rest)
        rw [found] at ih
        rw [if_neg first, found]
        change piece.length + 1 + span more = _ at ih
        show (piece.length + 1) + 1 + span more = _
        rw [List.length_cons]
        omega

/-- A piece stands after those before it and the marks that end them. -/
theorem isPiece_of_pieces {text piece : List α} {before after : List (List α)}
    (split : pieces isMark text = before ++ piece :: after) :
    IsPiece isMark text (span before) piece := by
  induction text generalizing before piece after with
  | nil =>
      obtain ⟨rfl, rfl, rfl⟩ : before = [] ∧ piece = [] ∧ after = [] := by
        cases before with
        | nil =>
            cases split
            exact ⟨rfl, rfl, rfl⟩
        | cons other more =>
            cases more <;> cases split
      exact ⟨[], [], rfl, rfl, .inl rfl, .inl rfl, fun _ member => nomatch member⟩
  | cons c rest ih =>
      simp only [pieces] at split
      by_cases first : isMark c = true
      · rw [if_pos first] at split
        cases before with
        | nil =>
            cases split
            exact ⟨[], c :: rest, rfl, rfl, .inl rfl, .inr ⟨c, rest, rfl, first⟩,
              fun _ member => nomatch member⟩
        | cons other more =>
            obtain ⟨rfl, found⟩ := List.cons.inj split
            obtain ⟨front, back, rfl, size, start, stop, unmarked⟩ := ih found
            refine ⟨c :: front, back, rfl, ?_, .inr ?_, stop, unmarked⟩
            · rw [List.length_cons, size]
              exact Nat.add_comm _ _
            · rcases start with rfl | ⟨lead, mark, rfl, marks⟩
              · exact ⟨[], c, rfl, first⟩
              · exact ⟨c :: lead, mark, rfl, marks⟩
      · have unmarkedFirst : isMark c = false := Bool.eq_false_iff.mpr first
        obtain ⟨head, more, found⟩ := List.exists_cons_of_ne_nil (pieces_ne_nil isMark rest)
        rw [if_neg first, found] at split
        cases before with
        | nil =>
            cases split
            have start : pieces isMark rest = [] ++ head :: after := found
            obtain ⟨front, back, joined, size, -, stop, unmarked⟩ := ih start
            obtain rfl : front = [] := List.eq_nil_of_length_eq_zero size
            refine ⟨[], back, by rw [joined]; rfl, rfl, .inl rfl, stop, ?_⟩
            exact List.forall_mem_cons.mpr ⟨unmarkedFirst, unmarked⟩
        | cons other others =>
            obtain ⟨rfl, tail⟩ := List.cons.inj split
            have later : pieces isMark rest = (head :: others) ++ piece :: after :=
              found.trans (congrArg (head :: ·) tail)
            obtain ⟨front, back, rfl, size, start, stop, unmarked⟩ := ih later
            refine ⟨c :: front, back, rfl, ?_, .inr ?_, stop, unmarked⟩
            · rw [List.length_cons, size]
              show head.length + 1 + span others + 1 = (head.length + 1) + 1 + span others
              omega
            · rcases start with rfl | ⟨lead, mark, rfl, marks⟩
              · exact absurd size (Nat.ne_of_lt (Nat.lt_add_right _ (Nat.succ_pos _)))
              · exact ⟨c :: lead, mark, rfl, marks⟩

/-- Every part between two marks is a piece. -/
theorem pieces_of_isPiece {text piece : List α} {start : Nat}
    (part : IsPiece isMark text start piece) :
    ∃ before after, pieces isMark text = before ++ piece :: after ∧ span before = start := by
  obtain ⟨front, back, rfl, rfl, begins, ends, unmarked⟩ := part
  have alone : pieces isMark piece = [piece] := pieces_of_forall_not unmarked
  obtain ⟨after, right⟩ : ∃ after, pieces isMark (piece ++ back) = piece :: after := by
    rcases ends with rfl | ⟨mark, rest, rfl, marks⟩
    · exact ⟨[], by rw [List.append_nil, alone]⟩
    · exact ⟨_, by rw [pieces_append_mark marks, alone]; rfl⟩
  rcases begins with rfl | ⟨lead, mark, rfl, marks⟩
  · exact ⟨[], after, by rw [List.nil_append, right]; rfl, rfl⟩
  · refine ⟨pieces isMark lead, after, ?_, ?_⟩
    · rw [List.append_assoc, List.append_assoc, List.singleton_append, pieces_append_mark marks,
        right]
    · rw [span_pieces, List.length_append, List.length_singleton]

end Concordance.Text
