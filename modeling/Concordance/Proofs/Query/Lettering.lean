import Concordance.Proofs.Query.Cutting
import Concordance.Proofs.Text.Boundary
import Concordance.Query.Scanner

/-! Bytes and characters are cut alike. -/
namespace Concordance.Query

open Utf8 (width)

/-- The letters of a text byte by byte: a character below 128 is a letter of its own, and any other has
as many letters from 128 on as it takes bytes. -/
inductive Lettered : List Char → List Char → Prop where
  | nil : Lettered [] []
  | narrow {c : Char} {text letters : List Char} (small : c.toNat < 128) (size : c.utf8Size = 1)
      (later : Lettered text letters) : Lettered (c :: text) (c :: letters)
  | wide {c first : Char} {more text letters : List Char} (large : 128 ≤ c.toNat)
      (high : ∀ d ∈ first :: more, 128 ≤ d.toNat) (size : c.utf8Size = more.length + 1)
      (later : Lettered text letters) : Lettered (c :: text) (first :: (more ++ letters))

theorem toNat_letterOf (byte : UInt8) : (letterOf byte).toNat = byte.toNat := by
  have small := byte.toNat_lt
  exact Utf8.toNat_ofNat (.inl (by omega))

/-- A character below 128 has one byte, its own number. -/
theorem encodeChar_of_narrow {c : Char} (small : c.toNat < 128) :
    String.utf8EncodeChar c = [UInt8.ofNat c.toNat] := by
  have value : c.val.toNat = c.toNat := rfl
  rw [String.utf8EncodeChar, value, if_pos (by omega)]

/-- All bytes of a character from 128 on are from 128 on. -/
theorem toNat_of_mem_encodeChar {c : Char} (large : 128 ≤ c.toNat) {byte : UInt8}
    (member : byte ∈ String.utf8EncodeChar c) : 128 ≤ byte.toNat := by
  have value : c.val.toNat = c.toNat := rfl
  simp only [String.utf8EncodeChar, value] at member
  split_ifs at member
  · omega
  all_goals
    simp only [List.mem_cons, List.not_mem_nil, or_false] at member
    rcases member with rfl | rfl | rfl | rfl <;> rw [UInt8.toNat_ofNat'] <;> omega

/-- The bytes of a text are its letters. -/
theorem lettered_encode (text : List Char) : Lettered text ((Utf8.encode text).map letterOf) := by
  induction text with
  | nil => exact .nil
  | cons c rest ih =>
      have split : Utf8.encode (c :: rest) = String.utf8EncodeChar c ++ Utf8.encode rest := rfl
      have length := String.length_utf8EncodeChar c
      rw [split, List.map_append]
      rcases Nat.lt_or_ge c.toNat 128 with small | large
      · have self : letterOf (UInt8.ofNat c.toNat) = c := by
          unfold letterOf
          rw [UInt8.toNat_ofNat_of_lt' (Nat.lt_trans small (by decide)), Char.ofNat_toNat]
        rw [encodeChar_of_narrow small] at length ⊢
        rw [List.map_singleton, self]
        exact .narrow small length.symm ih
      · obtain ⟨first, more, bytes, -, -⟩ := (Utf8.charForm_encodeChar c).exists_cons
        have high : ∀ byte ∈ String.utf8EncodeChar c, 128 ≤ byte.toNat :=
          fun byte member => toNat_of_mem_encodeChar large member
        rw [bytes] at length high ⊢
        refine .wide large ?_ (by rw [List.length_map]; exact length.symm) ih
        intro d member
        rw [← List.map_cons] at member
        obtain ⟨byte, among, rfl⟩ := List.mem_map.mp member
        rw [toNat_letterOf]
        exact high byte among

namespace Lettered

variable {text letters : List Char} (lettered : Lettered text letters)

include lettered

/-- A text has as many letters as bytes. -/
theorem length_eq : letters.length = width text := by
  induction lettered with
  | nil => rfl
  | narrow _ size _ ih => rw [List.length_cons, ih, Utf8.width_cons, size, Nat.add_comm]
  | wide _ _ size _ ih =>
      rw [List.length_cons, List.length_append, ih, Utf8.width_cons, size]
      omega

/-- A run of letters ends where the run of characters does, where characters from 128 on are all in it
or all out of it. -/
theorem cut {keeps : Char → Bool} {held : Bool}
    (uniform : ∀ c, 128 ≤ c.toNat → keeps c = held) :
    Lettered (text.takeWhile keeps) (letters.takeWhile keeps) ∧
      Lettered (text.dropWhile keeps) (letters.dropWhile keeps) := by
  induction lettered with
  | nil => exact ⟨.nil, .nil⟩
  | @narrow c _ _ small size later ih =>
      rw [List.takeWhile_cons, List.takeWhile_cons, List.dropWhile_cons, List.dropWhile_cons]
      cases keeps c with
      | true => exact ⟨.narrow small size ih.1, ih.2⟩
      | false => exact ⟨.nil, .narrow small size later⟩
  | @wide c first more _ letters large high size later ih =>
      have all : ∀ d ∈ first :: more, keeps d = held := fun d member => uniform d (high d member)
      have head := all first List.mem_cons_self
      rw [List.takeWhile_cons, List.dropWhile_cons, uniform c large]
      cases held with
      | true =>
          rw [← List.cons_append, List.takeWhile_append_of_pos all, List.dropWhile_append_of_pos all]
          exact ⟨.wide large high size ih.1, ih.2⟩
      | false =>
          rw [List.takeWhile_cons, List.dropWhile_cons, head]
          exact ⟨.nil, .wide large high size later⟩

end Lettered

/-- A letter of a wide character is none of the characters below 128. -/
theorem ne_of_wide {c d : Char} (large : 128 ≤ d.toNat) (small : c.toNat < 128) : d ≠ c := by
  rintro rfl
  omega

/-- The letters of a text begin as the text does, or with a letter of a wide character. -/
theorem Lettered.head?_ne {text letters : List Char} (lettered : Lettered text letters) {c : Char}
    (small : c.toNat < 128) (other : ∀ d ∈ text.head?, d ≠ c) : ∀ d ∈ letters.head?, d ≠ c := by
  cases lettered with
  | nil => exact other
  | narrow => exact other
  | wide _ high =>
      intro d head
      obtain rfl := Option.some.inj head
      exact ne_of_wide (high _ List.mem_cons_self) small

/-- The number of bytes of the characters at the start of a text. -/
def bytesIn (text : List Char) (count : Nat) : Nat := width (text.take count)

theorem bytesIn_takeWhile (keeps : Char → Bool) (text : List Char) :
    bytesIn text (text.takeWhile keeps).length = width (text.takeWhile keeps) := by
  rw [bytesIn, ← List.prefix_iff_eq_take.mp (List.takeWhile_prefix keeps)]

/-- The bytes before a place are those of what stands before it. -/
theorem bytesIn_append (before text : List Char) (count : Nat) :
    bytesIn (before ++ text) (count + before.length) = bytesIn text count + width before := by
  rw [bytesIn, Nat.add_comm, List.take_length_add_append, Utf8.width_append, Nat.add_comm]
  rfl

theorem bytesIn_cons (c : Char) (text : List Char) (count : Nat) :
    bytesIn (c :: text) (count + 1) = bytesIn text count + c.utf8Size := bytesIn_append [c] text count

theorem bytesIn_one {c : Char} (size : c.utf8Size = 1) (text : List Char) :
    bytesIn (c :: text) 1 = 1 := by
  rw [bytesIn_cons, size]
  rfl

/-- A count that goes on behind some characters. -/
theorem map_bytesIn (before text : List Char) {moved : Nat → Nat}
    (moves : ∀ count, moved count = count + width before) (counted : Option Nat) :
    (counted.map (bytesIn text)).map moved =
      (counted.map (· + before.length)).map (bytesIn (before ++ text)) := by
  rw [Option.map_map, Option.map_map]
  congr 1
  funext count
  simp only [Function.comp_apply, moves, bytesIn_append]

section Counts

variable {mark : Char} {text letters : List Char}

/-- Letters of wide characters are passed over in a quotation. -/
theorem quotationLength_append_wide (plain : mark.toNat < 128) {first : List Char}
    (high : ∀ d ∈ first, 128 ≤ d.toNat) (letters : List Char) :
    quotationLength mark (first ++ letters) =
      (quotationLength mark letters).map (· + first.length) := by
  induction first with
  | nil => simp
  | cons d more ih =>
      have large := high d List.mem_cons_self
      have slash : d ≠ '\\' := ne_of_wide large (by decide)
      rw [List.cons_append, quotationLength_cons slash (ne_of_wide large plain),
        ih fun e member => high e (List.mem_cons_of_mem d member), Option.map_map]
      congr 1

/-- A mark that is not doubled closes a quotation. -/
theorem quotationLength_mark (slash : mark ≠ '\\') (ends : ∀ c ∈ letters.head?, c ≠ mark) :
    quotationLength mark (mark :: letters) = some 1 := by
  cases letters with
  | nil => simp [quotationLength, slash]
  | cons d more => simp [quotationLength, slash, ends d rfl]

/-- A quotation closes at the same place in the letters of a text. -/
theorem Lettered.quotationLength_eq (plain : mark.toNat < 128) (lettered : Lettered text letters) :
    quotationLength mark letters = (quotationLength mark text).map (bytesIn text) := by
  fun_induction quotationLength mark text generalizing letters with
  | case1 =>
      cases lettered
      rfl
  | case2 c closing =>
      obtain ⟨slash, rfl⟩ := closing
      cases lettered with
      | narrow small size later =>
          cases later
          rw [quotationLength_mark slash (by simp), Option.map_some, bytesIn_one size]
      | wide large => omega
  | case3 c other =>
      cases lettered with
      | narrow _ _ later =>
          cases later
          simp [quotationLength, other]
      | wide _ high _ later =>
          cases later
          rw [← List.cons_append, quotationLength_append_wide plain high]
          rfl
  | case4 d rest ih =>
      cases lettered with
      | wide large => exact absurd large (by decide)
      | narrow _ one later =>
          -- The byte after a backslash may be the first one of a wide character.
          cases later with
          | narrow _ size later =>
              simp only [quotationLength, if_true, ih later]
              exact map_bytesIn ['\\', d] rest (fun count => by simp [width, one, size]) _
          | @wide _ _ more _ _ _ high size later =>
              have others := fun e member => high e (List.mem_cons_of_mem _ member)
              simp only [quotationLength, if_true, quotationLength_append_wide plain others,
                ih later, Option.map_map (· + 2)]
              refine map_bytesIn ['\\', d] rest (fun count => ?_) _
              simp [width, one, size]
              omega
  | case5 rest slash ih =>
      cases lettered with
      | wide large => omega
      | narrow _ size later =>
          cases later with
          | wide large => omega
          | narrow _ _ later =>
              simp only [quotationLength, slash, if_true, if_false, ih later]
              exact map_bytesIn [mark, mark] rest (fun count => by simp [width, size]) _
  | case6 d rest other slash =>
      cases lettered with
      | wide large => omega
      | narrow _ size later =>
          have ends : ∀ e ∈ (d :: rest).head?, e ≠ mark := by simpa using other
          rw [quotationLength_mark slash (later.head?_ne plain ends), Option.map_some,
            bytesIn_one size]
  | case7 c d rest slash quote ih =>
      cases lettered with
      | narrow _ size later =>
          rw [quotationLength_cons slash quote, ih later]
          exact map_bytesIn [c] (d :: rest) (fun count => by simp [width, size]) _
      | wide _ high size later =>
          rw [← List.cons_append, quotationLength_append_wide plain high, ih later]
          exact map_bytesIn [c] (d :: rest) (fun count => by simp [width, size]) _

/-- What is no star is passed over in a comment. -/
theorem blockLength_cons {c : Char} (star : c ≠ '*') (text : List Char) :
    blockLength (c :: text) = (blockLength text).map (· + 1) := by
  cases text <;> simp [blockLength, star]

/-- Letters from 128 on are passed over in a comment. -/
theorem blockLength_append_wide {first : List Char} (high : ∀ d ∈ first, 128 ≤ d.toNat)
    (letters : List Char) :
    blockLength (first ++ letters) = (blockLength letters).map (· + first.length) := by
  induction first with
  | nil => simp
  | cons d more ih =>
      have star : d ≠ '*' := ne_of_wide (high d List.mem_cons_self) (by decide)
      rw [List.cons_append, blockLength_cons star,
        ih fun e member => high e (List.mem_cons_of_mem d member), Option.map_map]
      congr 1

/-- A star that no slash follows is passed over as well. -/
theorem blockLength_star (ends : ∀ c ∈ letters.head?, c ≠ '/') :
    blockLength ('*' :: letters) = (blockLength letters).map (· + 1) := by
  cases letters with
  | nil => rfl
  | cons d more => simp [blockLength, ends d rfl]

/-- A comment ends at the same place in the letters of a text. -/
theorem Lettered.blockLength_eq (lettered : Lettered text letters) :
    blockLength letters = (blockLength text).map (bytesIn text) := by
  induction lettered with
  | nil => rfl
  | @narrow c rest letters small size later ih =>
      have goesOn : blockLength (c :: letters) = (blockLength letters).map (· + 1) →
          blockLength (c :: rest) = (blockLength rest).map (· + 1) →
          blockLength (c :: letters) = (blockLength (c :: rest)).map (bytesIn (c :: rest)) := by
        intro left right
        rw [left, right, ih]
        exact map_bytesIn [c] rest (fun count => by simp [width, size]) _
      by_cases star : c = '*'
      · subst star
        by_cases slash : ∀ d ∈ rest.head?, d ≠ '/'
        · exact goesOn (blockLength_star (later.head?_ne (by decide) slash)) (blockLength_star slash)
        · obtain ⟨d, head, rfl⟩ : ∃ d ∈ rest.head?, d = '/' := by simpa using slash
          obtain ⟨more, rfl⟩ := List.head?_eq_some_iff.mp head
          cases later with
          | wide large => exact absurd large (by decide)
          | narrow _ one _ => simp [blockLength, bytesIn, width, size, one]
      · exact goesOn (blockLength_cons star letters) (blockLength_cons star rest)
  | @wide c _ _ rest _ large high size later ih =>
      have star : c ≠ '*' := ne_of_wide large (by decide)
      rw [← List.cons_append, blockLength_append_wide high, blockLength_cons star, ih]
      exact map_bytesIn [c] rest (fun count => by simp [width, size]) _

theorem isAlphanum_of_wide {c : Char} (large : 128 ≤ c.toNat) : c.isAlphanum = false := by
  have alphanum : c.isAlphanum = (c.isUpper || c.isLower || c.isDigit) := rfl
  rw [alphanum, ← Bool.not_eq_true, Bool.or_eq_true, Bool.or_eq_true, isUpper_iff, isLower_iff,
    isDigit_iff]
  omega

theorem isDigit_of_wide {c : Char} (large : 128 ≤ c.toNat) : c.isDigit = false := by
  rw [← Bool.not_eq_true, isDigit_iff]
  omega

theorem isAsciiBlank_of_wide {c : Char} (large : 128 ≤ c.toNat) : Text.isAsciiBlank c = false := by
  have word : isWordChar c = true := by simp [isWordChar, large]
  exact not_isAsciiBlank word (by decide)

/-- Whether a dot may stand before is told by the letters. -/
theorem Lettered.followsDot_eq (lettered : Lettered text letters) :
    followsDot letters = followsDot text := by
  have wide {c : Char} (large : 128 ≤ c.toNat) (rest : List Char) : followsDot (c :: rest) = false := by
    have under : c ≠ '_' := ne_of_wide large (by decide)
    have quote : c ≠ backquote := ne_of_wide large (by decide)
    simp [followsDot, isAlphanum_of_wide large, under, quote]
  cases lettered with
  | nil => rfl
  | narrow => rfl
  | wide large high => rw [wide large, wide (high _ List.mem_cons_self)]

/-- What is left of a text behind the run that it begins with. -/
theorem drop_takeWhile (keeps : Char → Bool) (text : List Char) :
    text.drop (text.takeWhile keeps).length = text.dropWhile keeps := by
  induction text with
  | nil => rfl
  | cons c rest ih =>
      rw [List.takeWhile_cons, List.dropWhile_cons]
      cases keeps c with
      | true => exact ih
      | false => rfl

/-- Digits are bytes. -/
theorem Lettered.length_digits (lettered : Lettered text letters) :
    (letters.takeWhile Char.isDigit).length = (text.takeWhile Char.isDigit).length := by
  induction lettered with
  | nil => rfl
  | @narrow c _ _ _ _ _ ih =>
      rw [List.takeWhile_cons, List.takeWhile_cons]
      cases c.isDigit with
      | true => exact congrArg (· + 1) ih
      | false => rfl
  | wide large high =>
      rw [List.takeWhile_cons, List.takeWhile_cons, isDigit_of_wide large,
        isDigit_of_wide (high _ List.mem_cons_self)]
      rfl

/-- A number has the same length in the letters of a text. -/
theorem Lettered.numberLength_eq (lettered : Lettered text letters) :
    numberLength letters = numberLength text := by
  have tail := (lettered.cut fun c => isDigit_of_wide).2
  simp only [numberLength, drop_takeWhile]
  rw [lettered.length_digits]
  generalize text.dropWhile Char.isDigit = rest, letters.dropWhile Char.isDigit = more at tail
  cases tail with
  | nil => rfl
  | @narrow c rest more _ _ later =>
      by_cases point : c = '.'
      · subst point
        simp only [later.length_digits]
      · simp [point]
  | @wide c first more rest letters large high =>
      have point : c ≠ '.' := ne_of_wide large (by decide)
      have other : first ≠ '.' := ne_of_wide (high first List.mem_cons_self) (by decide)
      simp [point, other]

/-- Digits have one byte each. -/
theorem width_digits (text : List Char) :
    width (text.takeWhile Char.isDigit) = (text.takeWhile Char.isDigit).length := by
  have digits := (lettered_encode text).cut fun c => isDigit_of_wide
  rw [← digits.1.length_eq, (lettered_encode text).length_digits]

/-- A number has as many bytes as characters. -/
theorem bytesIn_numberLength (text : List Char) :
    bytesIn text (numberLength text) = numberLength text := by
  have whole : bytesIn text (text.takeWhile Char.isDigit).length =
      (text.takeWhile Char.isDigit).length := by
    rw [bytesIn_takeWhile, width_digits]
  simp only [numberLength, drop_takeWhile]
  split
  next rest point =>
    split
    next => exact whole
    next =>
      have split := List.takeWhile_append_dropWhile (p := Char.isDigit) (l := text)
      rw [point] at split
      have one : '.'.utf8Size = 1 := by decide
      conv => lhs; arg 1; rw [← split]
      rw [Nat.add_assoc, Nat.add_comm, Nat.add_comm 1, bytesIn_append, bytesIn_cons,
        bytesIn_takeWhile, width_digits, width_digits, one]
  next => exact whole

/-- A quoted token is measured in bytes as it is in characters. -/
theorem Lettered.measureQuoted_eq (plain : mark.toNat < 128) (size : mark.utf8Size = 1)
    (kind : TokenKind) (lettered : Lettered text letters) :
    measureQuoted kind mark letters = ((measureQuoted kind mark text).1,
      bytesIn (mark :: text) (measureQuoted kind mark text).2) := by
  unfold measureQuoted
  rw [lettered.quotationLength_eq plain]
  cases quotationLength mark text with
  | some count => simp only [Option.map_some, bytesIn_cons, size]
  | none =>
      simp only [Option.map_none, bytesIn_cons, size]
      rw [lettered.length_eq, bytesIn, List.take_length]

/-- A sign that no operator has in its second place ends an operator. -/
theorem measureOperator_of_plain {c d : Char} (plain : d ∉ ['=', '>', '|', '-', '*'])
    (rest : List Char) : measureOperator c (d :: rest) = measureOperator c [] := by
  simp only [List.mem_cons, not_or] at plain
  unfold measureOperator
  split <;> simp_all

/-- But for comments, an operator is told by its first two signs and has no more than these. -/
theorem measureOperator_of_head {c d : Char} (comment : ¬(c = '-' ∧ d = '-'))
    (block : ¬(c = '/' ∧ d = '*')) (rest more : List Char) :
    measureOperator c (d :: rest) = measureOperator c (d :: more) ∧
      ((measureOperator c (d :: rest)).getD (.invalid, 1)).2 ∈ [1, 2] := by
  constructor <;> unfold measureOperator <;> split <;> simp_all

theorem measureOperator_nil (c : Char) : ((measureOperator c []).getD (.invalid, 1)).2 = 1 := by
  unfold measureOperator
  split <;> simp_all

/-- An operator is measured in bytes as it is in characters. -/
theorem Lettered.measureOperator_eq {c : Char} (size : c.utf8Size = 1)
    (lettered : Lettered text letters) :
    (measureOperator c letters).getD (.invalid, 1) =
      (((measureOperator c text).getD (.invalid, 1)).1,
        bytesIn (c :: text) ((measureOperator c text).getD (.invalid, 1)).2) := by
  have single := bytesIn_one size
  cases lettered with
  | nil => exact Prod.ext rfl (by rw [measureOperator_nil, single])
  | @narrow d text letters small one later =>
      by_cases comment : c = '-' ∧ d = '-'
      · obtain ⟨rfl, rfl⟩ := comment
        have run := (Lettered.narrow small one later).cut fun c large =>
          bne_iff_ne.mpr (ne_of_wide (c := '\n') large (by decide))
        simp only [measureOperator, Option.getD_some]
        rw [run.1.length_eq, Nat.add_comm, Nat.add_comm 1, bytesIn_cons, bytesIn_takeWhile, size]
      by_cases block : c = '/' ∧ d = '*'
      · obtain ⟨rfl, rfl⟩ := block
        simp only [measureOperator, later.blockLength_eq]
        cases blockLength text with
        | some count => simp [bytesIn_cons, size, one]
        | none =>
            simp only [Option.map_none, Option.getD_some]
            rw [(Lettered.narrow small one later).length_eq, bytesIn_cons, bytesIn, List.take_length,
              size]
      · obtain ⟨same, short⟩ := measureOperator_of_head comment block text letters
        have double : bytesIn (c :: d :: text) 2 = 2 := by rw [bytesIn_cons, bytesIn_one one, size]
        rw [← same]
        refine Prod.ext rfl ?_
        rcases List.mem_pair.mp short with first | second
        · exact first.trans ((congrArg _ first).trans (single _)).symm
        · exact second.trans ((congrArg _ second).trans double).symm
  | @wide d first more text letters large high =>
      have plain {e : Char} (large : 128 ≤ e.toNat) : e ∉ ['=', '>', '|', '-', '*'] := by
        intro member
        simp only [List.mem_cons, List.not_mem_nil, or_false] at member
        rcases member with rfl | rfl | rfl | rfl | rfl <;> exact absurd large (by decide)
      rw [measureOperator_of_plain (plain large),
        measureOperator_of_plain (plain (high first List.mem_cons_self)), measureOperator_nil, single]
      exact congrArg (Prod.mk _) (measureOperator_nil c)

end Counts

/-- The first token of a text is measured in bytes as it is in characters. -/
theorem Lettered.measure_eq (previous : Option TokenKind) {c d : Char} {text letters : List Char}
    (lettered : Lettered (c :: text) (d :: letters)) :
    measure previous d letters = ((measure previous c text).1,
      bytesIn (c :: text) (measure previous c text).2) := by
  -- A run goes on behind its first letter as it does behind the first character.
  have run {keeps : Char → Bool} {held : Bool} (uniform : ∀ e, 128 ≤ e.toNat → keeps e = held)
      {rest : List Char} (later : Lettered text rest) :
      bytesIn (c :: text) (1 + (text.takeWhile keeps).length) =
        (rest.takeWhile keeps).length + c.utf8Size := by
    rw [Nat.add_comm, bytesIn_cons, bytesIn_takeWhile, (later.cut uniform).1.length_eq]
  have inWord (e : Char) (large : 128 ≤ e.toNat) : isWordChar e = true := by
    simp [isWordChar, large]
  cases lettered with
  | narrow small size later =>
      have single := bytesIn_one size text
      unfold measure
      rw [later.followsDot_eq]
      split_ifs with blank digit quote name word dot follows
      · refine Prod.ext rfl ?_
        rw [run (fun e => isAsciiBlank_of_wide) later, size, Nat.add_comm]
      · refine Prod.ext rfl ?_
        rw [bytesIn_numberLength, (Lettered.narrow small size later).numberLength_eq]
      · exact later.measureQuoted_eq small size _
      · exact later.measureQuoted_eq small size _
      · refine Prod.ext rfl ?_
        rw [run inWord later, size, Nat.add_comm]
      · rw [single]
      · rw [single]
      · cases signKind? c with
        | some kind => rw [single]
        | none => exact later.measureOperator_eq size
  | @wide _ first more _ letters large high size later =>
      have word {e : Char} (large : 128 ≤ e.toNat) (rest : List Char) :
          measure previous e rest = (.bareWord, 1 + (rest.takeWhile isWordChar).length) := by
        have starts : isWordStart e = true := isWordStart_iff.mpr (.inr (.inr (.inr large)))
        obtain ⟨blank, digit, quote, name⟩ := isWordStart_cases starts
        simp [measure, blank, digit, quote, name, starts]
      have others : ∀ e ∈ more, isWordChar e = true :=
        fun e member => inWord e (high e (List.mem_cons_of_mem d member))
      rw [word large, word (high d List.mem_cons_self), List.takeWhile_append_of_pos others,
        run inWord later, size, List.length_append]
      exact Prod.ext rfl (by omega)

end Concordance.Query
