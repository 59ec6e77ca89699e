import Concordance.Extract.Word
import Concordance.Proofs.Text.Decoding
import Concordance.Proofs.Text.Split
import Mathlib.Data.List.TakeWhile

namespace Concordance.Extract

open Text (pieces span IsPiece)

theorem trimStart_eq (bytes : Bytes) : bytes = bytes.takeWhile isTrimmable ++ trimStart bytes :=
  List.takeWhile_append_dropWhile.symm

/-- What is trimmed at the end of bytes. -/
theorem trimEnd_eq (bytes : Bytes) :
    ∃ trail, bytes = trimEnd bytes ++ trail ∧ ∀ byte ∈ trail, isTrimmable byte = true := by
  refine ⟨(bytes.reverse.takeWhile isTrimmable).reverse, ?_, fun byte member => ?_⟩
  · rw [trimEnd, ← List.reverse_append, List.takeWhile_append_dropWhile, List.reverse_reverse]
  · exact List.mem_takeWhile_imp (List.mem_reverse.mp member)

/-- Blanks in front are trimmed. -/
theorem trimStart_append {lead rest : Bytes} (blank : ∀ byte ∈ lead, isTrimmable byte = true) :
    trimStart (lead ++ rest) = trimStart rest :=
  List.dropWhile_append_of_pos blank

theorem indent_append {lead rest : Bytes} (blank : ∀ byte ∈ lead, isTrimmable byte = true) :
    indent (lead ++ rest) = lead.length + indent rest := by
  rw [indent, List.takeWhile_append_of_pos blank, List.length_append, indent]

/-- Blanks at the end are trimmed. -/
theorem trimEnd_append {rest trail : Bytes} (blank : ∀ byte ∈ trail, isTrimmable byte = true) :
    trimEnd (rest ++ trail) = trimEnd rest := by
  rw [trimEnd, List.reverse_append, List.dropWhile_append_of_pos, trimEnd]
  exact fun byte member => blank byte (List.mem_reverse.mp member)

/-- Blanks that stand before a token are none of its word. -/
theorem wordOf?_append_left {lead : Bytes} (blank : ∀ byte ∈ lead, isTrimmable byte = true)
    (offset : Nat) (token : Bytes) :
    wordOf? offset (lead ++ token) = wordOf? (offset + lead.length) token := by
  rw [wordOf?, wordOf?, trimStart_append blank, indent_append blank, Nat.add_assoc]

theorem trimStart_eq_nil {bytes : Bytes} :
    trimStart bytes = [] ↔ ∀ byte ∈ bytes, isTrimmable byte = true :=
  List.dropWhile_eq_nil_iff

/-- Nothing but blanks is no word. -/
theorem wordOf?_of_blank {token : Bytes} (blank : ∀ byte ∈ token, isTrimmable byte = true)
    (offset : Nat) : wordOf? offset token = none := by
  rw [wordOf?, trimStart_eq_nil.mpr blank]
  rfl

/-- The first byte that is no blank is where a token begins, whatever follows. -/
theorem trimStart_append_right {token : Bytes} (filled : trimStart token ≠ []) (trail : Bytes) :
    trimStart (token ++ trail) = trimStart token ++ trail ∧
      indent (token ++ trail) = indent token := by
  have found : ¬(token.dropWhile isTrimmable).isEmpty = true := by
    rw [List.isEmpty_iff]
    exact filled
  constructor
  · rw [trimStart, List.dropWhile_append, if_neg found, trimStart]
  · have short : ¬(token.takeWhile isTrimmable).length = token.length := by
      intro whole
      have sizes := congrArg List.length (trimStart_eq token)
      rw [List.length_append, whole] at sizes
      exact filled (List.eq_nil_of_length_eq_zero (by omega))
    rw [indent, List.takeWhile_append, if_neg short, indent]

/-- Blanks that stand after a token are none of its word. -/
theorem wordOf?_append_right {trail : Bytes} (blank : ∀ byte ∈ trail, isTrimmable byte = true)
    (offset : Nat) (token : Bytes) : wordOf? offset (token ++ trail) = wordOf? offset token := by
  by_cases empty : trimStart token = []
  · have all := trimStart_eq_nil.mp empty
    rw [wordOf?_of_blank all, wordOf?_of_blank fun byte member =>
      (List.mem_append.mp member).elim (all byte) (blank byte)]
  · obtain ⟨start, position⟩ := trimStart_append_right empty trail
    rw [wordOf?, wordOf?, start, position, trimEnd_append blank]

section Tokens

variable {separators : Bytes} {isMark : UInt8 → Bool}

/-- The words of tokens are those of the first ones and those of the others. -/
theorem wordsFrom_append (offset : Nat) (before after : List Bytes) :
    wordsFrom offset (before ++ after) =
      wordsFrom offset before ++ wordsFrom (offset + span before) after := by
  induction before generalizing offset with
  | nil => rfl
  | cons token rest ih =>
      have total : offset + span (token :: rest) = offset + token.length + 1 + span rest := by
        show offset + (token.length + 1 + span rest) = _
        omega
      rw [List.cons_append, wordsFrom, wordsFrom, ih, total, List.append_assoc]

/-- A blank before a text only moves its words. -/
theorem wordsFrom_pieces_cons {byte : UInt8} (blank : isTrimmable byte = true) (offset : Nat)
    (rest : Bytes) :
    wordsFrom offset (pieces isMark (byte :: rest)) =
      wordsFrom (offset + 1) (pieces isMark rest) := by
  simp only [pieces]
  by_cases mark : isMark byte = true
  · rw [if_pos mark]
    rfl
  · obtain ⟨piece, more, found⟩ := List.exists_cons_of_ne_nil (Text.pieces_ne_nil isMark rest)
    have lead : ∀ other ∈ [byte], isTrimmable other = true := List.forall_mem_singleton.mpr blank
    have moved : wordOf? offset (byte :: piece) = wordOf? (offset + 1) piece :=
      wordOf?_append_left lead offset piece
    have next : offset + (byte :: piece).length + 1 = offset + 1 + piece.length + 1 := by
      rw [List.length_cons]
      omega
    rw [if_neg mark, found]
    simp only [wordsFrom]
    rw [moved, next]

theorem wordsFrom_pieces_append_left {lead : Bytes}
    (blank : ∀ byte ∈ lead, isTrimmable byte = true) (offset : Nat) (rest : Bytes) :
    wordsFrom offset (pieces isMark (lead ++ rest)) =
      wordsFrom (offset + lead.length) (pieces isMark rest) := by
  induction lead generalizing offset with
  | nil => rfl
  | cons byte more ih =>
      obtain ⟨first, others⟩ := List.forall_mem_cons.mp blank
      rw [List.cons_append, wordsFrom_pieces_cons first, ih others, List.length_cons,
        Nat.add_assoc, Nat.add_comm 1]

/-- A blank after a text changes none of its words, be it a mark or not. -/
theorem wordsFrom_pieces_concat {byte : UInt8} (blank : isTrimmable byte = true) (offset : Nat)
    (text : Bytes) :
    wordsFrom offset (pieces isMark (text ++ [byte])) = wordsFrom offset (pieces isMark text) := by
  by_cases mark : isMark byte = true
  · have ended : wordsFrom (offset + span (pieces isMark text)) (pieces isMark []) = [] := rfl
    rw [Text.pieces_append_mark mark, wordsFrom_append, ended, List.append_nil]
  · obtain ⟨before, last, found, joined⟩ :=
      Text.pieces_concat (Bool.eq_false_iff.mpr mark) text
    have same := wordOf?_append_right (List.forall_mem_singleton.mpr blank)
      (offset + span before) last
    rw [joined, found, wordsFrom_append, wordsFrom_append]
    simp only [wordsFrom]
    rw [same]

theorem wordsFrom_pieces_append_right {trail : Bytes}
    (blank : ∀ byte ∈ trail, isTrimmable byte = true) (offset : Nat) (text : Bytes) :
    wordsFrom offset (pieces isMark (text ++ trail)) = wordsFrom offset (pieces isMark text) := by
  induction trail generalizing text with
  | nil => rw [List.append_nil]
  | cons byte more ih =>
      obtain ⟨first, others⟩ := List.forall_mem_cons.mp blank
      rw [List.append_cons, ih others, wordsFrom_pieces_concat first]

/-- A line has the words of its raw bytes, and a blank line has none. -/
theorem splitLine_of_raw (separators : Bytes) (position : Nat) (raw : Bytes) :
    (linesFrom position [raw]).flatMap (splitLine separators) =
      wordsFrom position (pieces separators.contains raw) := by
  have lead : ∀ byte ∈ raw.takeWhile isTrimmable, isTrimmable byte = true :=
    fun byte => List.mem_takeWhile_imp
  have start : wordsFrom position (pieces separators.contains _) = _ :=
    wordsFrom_pieces_append_left lead position (trimStart raw)
  rw [← trimStart_eq] at start
  rw [start]
  simp only [linesFrom]
  by_cases empty : trimStart raw = []
  · rw [empty]
    rfl
  · have filled : ¬(trimStart raw).isEmpty = true := by rwa [List.isEmpty_iff]
    obtain ⟨trail, ended, blank⟩ := trimEnd_eq (trimStart raw)
    have stop : wordsFrom _ (pieces separators.contains _) = _ :=
      wordsFrom_pieces_append_right blank (position + indent raw) (trimEnd (trimStart raw))
    rw [← ended] at stop
    rw [if_neg filled, List.flatMap_singleton, splitLine, ← stop]
    rfl

theorem linesFrom_cons (position : Nat) (raw : Bytes) (rest : List Bytes) :
    linesFrom position (raw :: rest) =
      linesFrom position [raw] ++ linesFrom (position + raw.length) rest := by
  simp only [linesFrom]
  split <;> rfl

/-- Bytes without a newline are one line. -/
theorem cutLines_of_not_mem {bytes : Bytes} (whole : 0x0a ∉ bytes) (filled : bytes ≠ []) :
    cutLines bytes = [bytes] := by
  induction bytes with
  | nil => exact absurd rfl filled
  | cons byte rest ih =>
      rw [List.mem_cons, not_or] at whole
      rw [cutLines, if_neg (Ne.symm whole.1)]
      cases rest with
      | nil => rfl
      | cons next more => rw [ih whole.2 (List.cons_ne_nil _ _)]

/-- The first line ends with the first newline. -/
theorem cutLines_append {body : Bytes} (whole : 0x0a ∉ body) (rest : Bytes) :
    cutLines (body ++ 0x0a :: rest) = (body ++ [0x0a]) :: cutLines rest := by
  induction body with
  | nil => rfl
  | cons byte more ih =>
      rw [List.mem_cons, not_or] at whole
      rw [List.cons_append, cutLines, if_neg (Ne.symm whole.1), ih whole.2]
      rfl

/-- The bytes that part words: the newline and the separators. -/
def partsWords (separators : Bytes) (byte : UInt8) : Bool :=
  byte == 0x0a || separators.contains byte

theorem partsWords_eq {body : Bytes} (whole : 0x0a ∉ body) :
    pieces (partsWords separators) body = pieces separators.contains body := by
  refine Text.pieces_congr fun byte member => ?_
  have other : (byte == 0x0a) = false := beq_false_of_ne fun same => whole (same ▸ member)
  rw [partsWords, other, Bool.false_or]

/-- Lines have the words of the content that they were cut from. -/
theorem words_of_lines (separators : Bytes) (position : Nat) (content : Bytes) :
    (linesFrom position (cutLines content)).flatMap (splitLine separators) =
      wordsFrom position (pieces (partsWords separators) content) := by
  by_cases more : 0x0a ∈ content
  · obtain ⟨body, rest, split, whole⟩ := List.eq_append_cons_of_mem more
    have shorter : rest.length < content.length := by
      rw [split, List.length_append, List.length_cons]
      omega
    have newline : isTrimmable 0x0a = true := by decide
    have mark : partsWords separators 0x0a = true := rfl
    have after := words_of_lines separators (position + (body ++ [0x0a]).length) rest
    rw [split, cutLines_append whole, linesFrom_cons, List.flatMap_append, after,
      splitLine_of_raw, wordsFrom_pieces_concat newline, Text.pieces_append_mark mark,
      wordsFrom_append, Text.span_pieces, partsWords_eq whole, List.length_append,
      List.length_singleton]
  · rw [partsWords_eq more, ← splitLine_of_raw]
    cases content with
    | nil => rfl
    | cons byte rest => rw [cutLines_of_not_mem more (List.cons_ne_nil _ _)]
termination_by content.length

/-- The words of a content are those of the pieces between newlines and separators. -/
theorem wordsOf_eq (separators content : Bytes) :
    wordsOf separators content = wordsFrom 0 (pieces (partsWords separators) content) :=
  words_of_lines separators 0 content

end Tokens

namespace LineReader

/-- The lines that a reader gives one after another until it has none left. -/
inductive Gives : LineReader → List Line → Prop where
  | ended {reader : LineReader} (none : reader.next.1 = none) : Gives reader []
  | line {reader : LineReader} {line : Line} {lines : List Line}
      (read : reader.next.1 = some line) (more : Gives reader.next.2 lines) :
      Gives reader (line :: lines)

/-- A reader gives one list of lines. -/
theorem Gives.unique {reader : LineReader} {first second : List Line} (one : reader.Gives first)
    (other : reader.Gives second) : first = second := by
  induction one generalizing second with
  | ended none =>
      cases other with
      | ended => rfl
      | line read _ =>
          rw [none] at read
          cases read
  | line read _ ih =>
      cases other with
      | ended none =>
          rw [none] at read
          cases read
      | line again more =>
          rw [read] at again
          cases again
          rw [ih more]

/-- A reader goes past a blank line. -/
theorem next_of_blank {raw : Bytes} (blank : (trimStart raw).isEmpty = true) (content : Bytes)
    (rest : List Bytes) (position offset : Nat) :
    next ⟨content, raw :: rest, position, offset⟩ =
      next ⟨content, rest, position + raw.length, offset⟩ := by
  simp only [next, seek, blank, if_true]

/-- A line that is not blank is read without the trimmable bytes at its ends. -/
theorem next_of_filled {raw : Bytes} (filled : ¬(trimStart raw).isEmpty = true) (content : Bytes)
    (rest : List Bytes) (position offset : Nat) :
    next ⟨content, raw :: rest, position, offset⟩ =
      (some ⟨position + indent raw, trimEnd (trimStart raw)⟩,
        ⟨content, rest, position + raw.length, position + indent raw⟩) := by
  simp only [next, seek, filled, Bool.false_eq_true, if_false]
  rfl

/-- Where two readers go on alike, they give the same lines. -/
theorem Gives.of_next_eq {reader other : LineReader} {lines : List Line}
    (gives : other.Gives lines) (same : reader.next = other.next) : reader.Gives lines := by
  cases gives with
  | ended none => exact .ended (same ▸ none)
  | line read more => exact .line (same ▸ read) (same ▸ more)

/-- A reader gives the lines that are pending. -/
theorem gives_linesFrom (content : Bytes) (pending : List Bytes) (position offset : Nat) :
    Gives ⟨content, pending, position, offset⟩ (linesFrom position pending) := by
  induction pending generalizing position offset with
  | nil => exact .ended rfl
  | cons raw rest ih =>
      simp only [linesFrom]
      by_cases blank : (trimStart raw).isEmpty = true
      · rw [if_pos blank]
        exact (ih _ offset).of_next_eq (next_of_blank blank ..)
      · have step := next_of_filled blank content rest position offset
        rw [if_neg blank]
        refine .line (congrArg Prod.fst step) ?_
        rw [step]
        exact ih ..

/-- A reader that starts again gives all lines of its content. -/
theorem gives_reset_iff (reader : LineReader) (lines : List Line) :
    reader.reset.Gives lines ↔ lines = linesOf reader.content := by
  have all : reader.reset.Gives (linesOf reader.content) := gives_linesFrom ..
  exact ⟨fun gives => gives.unique all, fun same => same ▸ all⟩

end LineReader

/-- Bytes that neither begin nor end with a blank. -/
def IsStripped (bytes : Bytes) : Prop :=
  (∃ first rest, bytes = first :: rest ∧ isTrimmable first = false) ∧
    ∃ front last, bytes = front ++ [last] ∧ isTrimmable last = false

/-- The word of what stands between two marks: all of it but the blanks at both ends. -/
def IsWordOf (start : Nat) (token : Bytes) (word : Word) : Prop :=
  ∃ lead trail, token = lead ++ Utf8.bytes word.text ++ trail ∧
    (∀ byte ∈ lead ++ trail, isTrimmable byte = true) ∧ IsStripped (Utf8.bytes word.text) ∧
    word.offset = start + lead.length

/-- What is left after blanks at the start begins with a byte that is none. -/
theorem exists_cons_of_trimStart {bytes : Bytes} (filled : trimStart bytes ≠ []) :
    ∃ first rest, trimStart bytes = first :: rest ∧ isTrimmable first = false := by
  induction bytes with
  | nil => exact absurd rfl filled
  | cons byte rest ih =>
      by_cases blank : isTrimmable byte = true
      · have skipped : trimStart (byte :: rest) = trimStart rest :=
          List.dropWhile_cons_of_pos blank
        rw [skipped] at filled ⊢
        exact ih filled
      · exact ⟨byte, rest, List.dropWhile_cons_of_neg blank, Bool.eq_false_iff.mpr blank⟩

/-- What is left of a token that is not blank is stripped. -/
theorem isStripped_trim {token : Bytes} (filled : trimStart token ≠ []) :
    IsStripped (trimEnd (trimStart token)) := by
  obtain ⟨first, rest, begins, lead⟩ := exists_cons_of_trimStart filled
  obtain ⟨trail, whole, blank⟩ := trimEnd_eq (trimStart token)
  have kept : trimStart (trimStart token).reverse ≠ [] := by
    rw [ne_eq, trimStart_eq_nil]
    intro all
    have tail := all first (by rw [begins]; exact List.mem_reverse.mpr List.mem_cons_self)
    rw [lead] at tail
    cases tail
  obtain ⟨last, front, ends, stop⟩ := exists_cons_of_trimStart kept
  have split : trimEnd (trimStart token) = front.reverse ++ [last] := by
    rw [← List.reverse_cons, ← ends]
    rfl
  refine ⟨?_, front.reverse, last, split, stop⟩
  have nonempty : trimEnd (trimStart token) ≠ [] := by
    rw [split]
    exact List.concat_ne_nil _ _
  obtain ⟨head, more, found⟩ := List.exists_cons_of_ne_nil nonempty
  rw [found, begins] at whole
  obtain ⟨rfl, -⟩ := List.cons.inj whole
  exact ⟨first, more, found, lead⟩

theorem IsStripped.trimStart_eq_self {bytes : Bytes} (stripped : IsStripped bytes) :
    trimStart bytes = bytes ∧ indent bytes = 0 := by
  obtain ⟨⟨first, rest, rfl, lead⟩, -⟩ := stripped
  have kept : ¬isTrimmable first = true := Bool.eq_false_iff.mp lead
  exact ⟨List.dropWhile_cons_of_neg kept, by rw [indent, List.takeWhile_cons_of_neg kept]; rfl⟩

theorem IsStripped.trimEnd_eq_self {bytes : Bytes} (stripped : IsStripped bytes) :
    trimEnd bytes = bytes := by
  obtain ⟨-, front, last, rfl, stop⟩ := stripped
  have kept : ¬isTrimmable last = true := Bool.eq_false_iff.mp stop
  rw [trimEnd, List.reverse_append, List.reverse_singleton, List.singleton_append,
    List.dropWhile_cons_of_neg kept, List.reverse_cons, List.reverse_reverse]

theorem IsStripped.ne_nil {bytes : Bytes} (stripped : IsStripped bytes) : bytes ≠ [] := by
  obtain ⟨⟨first, rest, rfl, -⟩, -⟩ := stripped
  exact List.cons_ne_nil first rest

/-- A token is a word where it is one by the description. -/
theorem wordOf?_eq_some {start : Nat} {token : Bytes} {word : Word} :
    wordOf? start token = some word ↔ IsWordOf start token word := by
  constructor
  · intro found
    by_cases empty : trimStart token = []
    · rw [wordOf?_of_blank (trimStart_eq_nil.mp empty)] at found
      cases found
    · have stripped := isStripped_trim empty
      rw [wordOf?] at found
      simp only [List.isEmpty_iff, stripped.ne_nil, if_false] at found
      obtain ⟨text, read, rfl⟩ := Option.map_eq_some_iff.mp found
      have spelled := Utf8.decode?_eq_some.mp read
      obtain ⟨trail, whole, blank⟩ := trimEnd_eq (trimStart token)
      refine ⟨token.takeWhile isTrimmable, trail, ?_, ?_, spelled ▸ stripped, rfl⟩
      · rw [spelled, List.append_assoc, ← whole]
        exact trimStart_eq token
      · exact fun byte member => (List.mem_append.mp member).elim List.mem_takeWhile_imp
          (blank byte)
  · rintro ⟨lead, trail, rfl, blank, stripped, offset⟩
    have before : ∀ byte ∈ lead, isTrimmable byte = true :=
      fun byte member => blank byte (List.mem_append_left _ member)
    have after : ∀ byte ∈ trail, isTrimmable byte = true :=
      fun byte member => blank byte (List.mem_append_right _ member)
    obtain ⟨start, position⟩ := stripped.trimStart_eq_self
    rw [List.append_assoc, wordOf?_append_left before, wordOf?_append_right after, wordOf?]
    simp only [start, position, stripped.trimEnd_eq_self, List.isEmpty_iff, stripped.ne_nil,
      if_false, Utf8.decode?_eq_some.mpr rfl, Option.map_some, Nat.add_zero]
    rw [← offset]

/-- The words of tokens are those of each token, which starts after the ones before it. -/
theorem mem_wordsFrom {offset : Nat} {tokens : List Bytes} {word : Word} :
    word ∈ wordsFrom offset tokens ↔ ∃ before token after, tokens = before ++ token :: after ∧
      IsWordOf (offset + span before) token word := by
  induction tokens generalizing offset with
  | nil => simp [wordsFrom]
  | cons token rest ih =>
      rw [wordsFrom, List.mem_append, Option.mem_toList, wordOf?_eq_some, ih]
      constructor
      · rintro (here | ⟨before, other, after, rfl, later⟩)
        · exact ⟨[], token, rest, rfl, here⟩
        · refine ⟨token :: before, other, after, rfl, ?_⟩
          rwa [show offset + span (token :: before) = offset + token.length + 1 + span before by
            show offset + (token.length + 1 + span before) = _
            omega]
      · rintro ⟨before, other, after, split, found⟩
        cases before with
        | nil =>
            obtain ⟨rfl, -⟩ := List.cons.inj split
            exact .inl found
        | cons first more =>
            obtain ⟨rfl, rfl⟩ := List.cons.inj split
            refine .inr ⟨more, other, after, rfl, ?_⟩
            rwa [show offset + token.length + 1 + span more = offset + span (token :: more) by
              show _ = offset + (token.length + 1 + span more)
              omega]

/-- The words of a content are those of its pieces. -/
theorem mem_wordsOf {separators content : Bytes} {word : Word} :
    word ∈ wordsOf separators content ↔
      ∃ start piece, IsPiece (partsWords separators) content start piece ∧
        IsWordOf start piece word := by
  rw [wordsOf_eq, mem_wordsFrom]
  constructor
  · rintro ⟨before, piece, after, split, found⟩
    rw [Nat.zero_add] at found
    exact ⟨_, piece, Text.isPiece_of_pieces split, found⟩
  · rintro ⟨start, piece, part, found⟩
    obtain ⟨before, after, split, rfl⟩ := Text.pieces_of_isPiece part
    exact ⟨before, piece, after, split, (Nat.zero_add _).symm ▸ found⟩

/-- A word lies inside its token. -/
theorem IsWordOf.bounds {start : Nat} {token : Bytes} {word : Word}
    (found : IsWordOf start token word) : start ≤ word.offset ∧
      word.offset + (Utf8.bytes word.text).length ≤ start + token.length := by
  obtain ⟨lead, trail, rfl, -, -, offset⟩ := found
  rw [List.length_append, List.length_append, offset]
  omega

/-- The content has the bytes of a word where the word stands. -/
theorem extract_of_mem_wordsOf {separators content : Bytes} {word : Word}
    (member : word ∈ wordsOf separators content) :
    content.extract word.offset (word.offset + (Utf8.bytes word.text).length) =
      Utf8.bytes word.text ∧
      word.offset + (Utf8.bytes word.text).length ≤ content.length ∧
      0 < (Utf8.bytes word.text).length := by
  obtain ⟨start, piece, ⟨before, after, rfl, rfl, -⟩, lead, trail, rfl, -, stripped, offset⟩ :=
    mem_wordsOf.mp member
  refine ⟨?_, ?_, List.length_pos_of_ne_nil stripped.ne_nil⟩
  · have split : before ++ (lead ++ Utf8.bytes word.text ++ trail) ++ after =
        (before ++ lead) ++ (Utf8.bytes word.text ++ (trail ++ after)) := by
      simp only [List.append_assoc]
    rw [List.extract_eq_take_drop, Nat.add_sub_cancel_left, split, offset, ← List.length_append,
      List.drop_left, List.take_left]
  · simp only [List.length_append]
    omega

/-- A word ends before the next one begins. -/
theorem pairwise_wordsFrom (offset : Nat) (tokens : List Bytes) :
    (wordsFrom offset tokens).Pairwise fun first second =>
      first.offset + (Utf8.bytes first.text).length < second.offset := by
  induction tokens generalizing offset with
  | nil => exact .nil
  | cons token rest ih =>
      rw [wordsFrom, List.pairwise_append]
      refine ⟨?_, ih _, ?_⟩
      · cases wordOf? offset token with
        | none => exact .nil
        | some word => exact List.pairwise_singleton _ word
      · intro first here second later
        have inside := (wordOf?_eq_some.mp (Option.mem_toList.mp here)).bounds
        obtain ⟨before, other, after, -, found⟩ := mem_wordsFrom.mp later
        have beyond := found.bounds
        omega

/-- The words of a content stand one after another and do not touch. -/
theorem pairwise_wordsOf (separators content : Bytes) :
    (wordsOf separators content).Pairwise fun first second =>
      first.offset + (Utf8.bytes first.text).length < second.offset := by
  rw [wordsOf_eq]
  exact pairwise_wordsFrom ..

end Concordance.Extract
