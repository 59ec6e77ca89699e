import Concordance.Proofs.IdSet.Word

namespace Concordance.IdSet

/-- A number that a set up to a greatest one can hold. -/
def inRange (greatest id : Nat) : Bool := id ≠ 0 && id ≤ greatest

theorem inRange_of_not {greatest id : Nat} (within : ¬(id = 0 ∨ greatest < id)) :
    inRange greatest id = true := by
  rw [not_or, Nat.not_lt] at within
  simp [inRange, within.1, within.2]

theorem inRange_eq_false {greatest id : Nat} (outside : id = 0 ∨ greatest < id) :
    inRange greatest id = false := by
  rcases outside with rfl | large
  · rfl
  · simp [inRange, Nat.not_le.mpr large]

/-- The bit of a number among words. -/
def bitAmong (words : List UInt64) (id : Nat) : Bool := bitIn (words.getD (id / 64) 0) (id % 64)

/-- Beyond the words no bit is set. -/
theorem bitAmong_beyond {words : List UInt64} {id : Nat} (beyond : 64 * words.length ≤ id) :
    bitAmong words id = false := by
  have none : words[id / 64]? = none := List.getElem?_eq_none (by omega)
  rw [bitAmong, List.getD_eq_getElem?_getD, none]
  exact bitIn_zero _

/-- A word that is changed changes its own bits. -/
theorem bitAmong_modify {words : List UInt64} {place id : Nat} (change : UInt64 → UInt64)
    (within : id < 64 * words.length) :
    bitAmong (words.modify place change) id =
      if id / 64 = place then bitIn (change (words.getD place 0)) (id % 64)
      else bitAmong words id := by
  have inside : id / 64 < words.length := by omega
  unfold bitAmong
  rw [List.getD_eq_getElem?_getD, List.getElem?_modify]
  split
  next same =>
    subst same
    simp [inside]
  next other => simp [Ne.symm other]

theorem bitAmong_map {words : List UInt64} {id : Nat} (change : UInt64 → UInt64)
    (within : id < 64 * words.length) :
    bitAmong (words.map change) id = bitIn (change (words.getD (id / 64) 0)) (id % 64) := by
  have inside : id / 64 < words.length := by omega
  simp [bitAmong, inside]

/-- Joining words of two lists of one length joins the bits of each number. -/
theorem bitAmong_joinWords {join : UInt64 → UInt64 → UInt64} {bits : Bool → Bool → Bool}
    (each : ∀ first second place,
      bitIn (join first second) place = bits (bitIn first place) (bitIn second place))
    {firsts seconds : List UInt64} (even : firsts.length = seconds.length) (id : Nat)
    (within : id < 64 * firsts.length) :
    bitAmong (joinWords join firsts seconds) id = bits (bitAmong firsts id) (bitAmong seconds id) := by
  have word : ∀ (firsts seconds : List UInt64) (place : Nat), firsts.length = seconds.length →
      place < firsts.length → (joinWords join firsts seconds).getD place 0 =
        join (firsts.getD place 0) (seconds.getD place 0) := by
    intro firsts
    induction firsts with
    | nil => exact fun _ _ _ less => absurd less (Nat.not_lt_zero _)
    | cons first firsts ih =>
        intro seconds place even less
        cases seconds with
        | nil => cases even
        | cons second seconds =>
            cases place with
            | zero => rfl
            | succ place =>
                exact ih seconds place (Nat.succ.inj even) (Nat.lt_of_succ_lt_succ less)
  unfold bitAmong
  rw [word firsts seconds _ even (by omega), each]

/-- As long as the bits can be counted, the last word is that of the greatest number. -/
theorem wordCount_eq {greatest : Nat} (counted : greatest + 1 < UInt64.size) :
    wordCount greatest = greatest / 64 + 1 := by
  rw [wordCount, Nat.mod_eq_of_lt counted]
  omega

/-- A number in range has a word for its bit. -/
theorem lt_of_inRange {greatest id : Nat} (counted : greatest + 1 < UInt64.size)
    (within : inRange greatest id = true) : id < 64 * wordCount greatest := by
  simp only [inRange, Bool.and_eq_true, decide_eq_true_eq] at within
  rw [wordCount_eq counted]
  omega

/-- Masking the ends leaves the bits in range and no others. -/
theorem bitAmong_maskEnds {greatest : Nat} {words : List UInt64}
    (counted : greatest + 1 < UInt64.size) (sized : words.length = wordCount greatest) (id : Nat) :
    bitAmong (maskEnds greatest words) id = (inRange greatest id && bitAmong words id) := by
  by_cases within : id < 64 * words.length
  · have first : bitAmong (words.modify 0 (· &&& ~~~1)) id =
        (decide (id ≠ 0) && bitAmong words id) := by
      rw [bitAmong_modify _ within]
      split
      next zeroth =>
        rw [bitIn_and, bitIn_not 1 (Nat.mod_lt _ (by decide)), bitIn_one, bitAmong, zeroth,
          Bool.and_comm]
        congr 1
        rw [Bool.eq_iff_iff]
        simp
        omega
      next later =>
        have positive : id ≠ 0 := by omega
        simp [positive]
    simp only [maskEnds]
    split
    next some =>
      rw [bitAmong_modify _ (by rwa [List.length_modify])]
      have last : (words.modify 0 (· &&& ~~~1)).length - 1 = greatest / 64 := by
        rw [List.length_modify, sized, wordCount_eq counted, Nat.add_sub_cancel]
      rw [last]
      split
      next here =>
        rw [bitIn_and, bitIn_below some]
        have before : bitIn ((words.modify 0 (· &&& ~~~1)).getD (greatest / 64) 0) (id % 64) =
            (decide (id ≠ 0) && bitAmong words id) := by
          rw [← first, bitAmong, here]
        rw [before, inRange, Bool.and_right_comm]
        congr 2
        rw [Bool.eq_iff_iff]
        simp
        omega
      next elsewhere =>
        rw [first, inRange]
        have below : id ≤ greatest := by
          rw [sized, wordCount_eq counted] at within
          omega
        simp [below]
    next all =>
      rw [first, inRange]
      have below : id ≤ greatest := by
        rw [sized, wordCount_eq counted] at within
        omega
      simp [below]
  · rw [Nat.not_lt] at within
    rw [bitAmong_beyond within, bitAmong_beyond (by rwa [length_maskEnds]), Bool.and_false]

/-- The bit of a number in a set. -/
def bit (set : IdSet) (id : Nat) : Bool := bitAmong set.words id

/-- A number is in a set where it is in range and its bit is set. -/
theorem contains_eq (set : IdSet) (id : Nat) :
    set.contains id = (inRange set.greatest id && set.bit id) := by
  unfold contains
  split
  next outside => rw [inRange_eq_false outside, Bool.false_and]
  next within => rw [inRange_of_not within, Bool.true_and, meets_bitOf, bit, bitAmong]

theorem bit_empty (greatest id : Nat) : (empty greatest).bit id = false := by
  simp [bit, bitAmong, empty, List.getD_eq_getElem?_getD, List.getElem?_replicate]
  split <;> simp [bitIn_zero]

/-- Nothing is in the empty set. -/
theorem contains_empty (greatest id : Nat) : (empty greatest).contains id = false := by
  rw [contains_eq, bit_empty, Bool.and_false]

theorem greatest_insert (set : IdSet) (id : Nat) : (set.insert id).greatest = set.greatest := by
  unfold insert
  split <;> rfl

/-- Inserting a number sets its bit, if it is in range, and no other. -/
theorem bit_insert {set : IdSet} (counted : set.greatest + 1 < UInt64.size) (id other : Nat) :
    (set.insert id).bit other =
      (set.bit other || (inRange set.greatest other && decide (other = id))) := by
  unfold insert
  split
  next outside =>
    have apart : (inRange set.greatest other && decide (other = id)) = false := by
      by_cases same : other = id
      · rw [same, inRange_eq_false outside, Bool.false_and]
      · rw [decide_eq_false same, Bool.and_false]
    rw [apart, Bool.or_false]
  next inside =>
    have numbered := inRange_of_not inside
    by_cases within : other < 64 * set.words.length
    · have joined : ∀ word : UInt64, bitIn (word ||| bitOf id) (other % 64) =
          (bitIn word (other % 64) || decide (other % 64 = id % 64)) := fun word => by
        rw [bitIn_or, bitIn_bitOf (Nat.mod_lt _ (by decide))]
      change bitAmong (set.words.modify (id / 64) (· ||| bitOf id)) other = _
      rw [bitAmong_modify _ within]
      split
      next here =>
        rw [joined, bit, bitAmong, here]
        congr 1
        by_cases same : other = id
        · rw [same, numbered]
          simp
        · have apart : other % 64 ≠ id % 64 := by omega
          simp [same, apart]
      next elsewhere =>
        have apart : other ≠ id := fun same => elsewhere (by rw [same])
        simp [bit, apart]
    · have apart : inRange set.greatest other = false := by
        rw [Bool.eq_false_iff]
        intro other
        exact within (set.sized ▸ lt_of_inRange counted other)
      rw [Nat.not_lt] at within
      rw [apart, Bool.false_and, Bool.or_false, bit, bit, bitAmong_beyond within,
        bitAmong_beyond (by rwa [List.length_modify])]

/-- A number in range joins a set, and nothing else does. -/
theorem contains_insert {set : IdSet} (counted : set.greatest + 1 < UInt64.size)
    (id other : Nat) : (set.insert id).contains other =
      (set.contains other || (inRange set.greatest other && decide (other = id))) := by
  rw [contains_eq, contains_eq, greatest_insert, bit_insert counted]
  cases inRange set.greatest other <;> simp

theorem greatest_ofIds (greatest : Nat) (ids : List Nat) :
    (ofIds greatest ids).greatest = greatest := by
  have all : ∀ (ids : List Nat) (set : IdSet), (ids.foldl insert set).greatest = set.greatest := by
    intro ids
    induction ids with
    | nil => exact fun _ => rfl
    | cons id rest ih => exact fun set => (ih _).trans (greatest_insert set id)
  exact all ids (empty greatest)

/-- A set of numbers holds those of them that are in range. -/
theorem contains_ofIds {greatest : Nat} (counted : greatest + 1 < UInt64.size) (ids : List Nat)
    (id : Nat) : (ofIds greatest ids).contains id = (inRange greatest id && decide (id ∈ ids)) := by
  have all : ∀ (ids : List Nat) (set : IdSet), set.greatest + 1 < UInt64.size →
      (ids.foldl insert set).contains id =
        (set.contains id || (inRange set.greatest id && decide (id ∈ ids))) := by
    intro ids
    induction ids with
    | nil => simp
    | cons first rest ih =>
        intro set counted
        rw [List.foldl_cons, ih _ (by rwa [greatest_insert]), contains_insert counted,
          greatest_insert, Bool.or_assoc, ← Bool.and_or_distrib_left]
        simp [Bool.decide_or]
  rw [ofIds, all ids (empty greatest) counted, contains_empty, Bool.false_or]
  rfl

/-- As long as the bits can be counted, the word of every number in range is there. -/
theorem lacksWord_eq_false {set : IdSet} (counted : set.greatest + 1 < UInt64.size) (id : Nat) :
    set.lacksWord id = false := by
  rw [Bool.eq_false_iff]
  intro lacks
  simp only [lacksWord, set.sized, wordCount_eq counted, Bool.and_eq_true,
    decide_eq_true_eq] at lacks
  omega

/-- As long as the bits can be counted, the word for a number is found. -/
theorem insert?_eq_some {set : IdSet} (counted : set.greatest + 1 < UInt64.size) (id : Nat) :
    set.insert? id = some (set.insert id) := by
  rw [insert?, lacksWord_eq_false counted, if_neg Bool.false_ne_true]

/-- As long as the bits can be counted, a set of numbers can be made. -/
theorem ofIds?_eq_some {greatest : Nat} (counted : greatest + 1 < UInt64.size) (ids : List Nat) :
    ofIds? greatest ids = some (ofIds greatest ids) := by
  have all : ∀ (ids : List Nat) (set : IdSet), set.greatest + 1 < UInt64.size →
      ids.foldlM insert? set = some (ids.foldl insert set) := by
    intro ids
    induction ids with
    | nil => exact fun _ _ => rfl
    | cons id rest ih =>
        intro set counted
        rw [List.foldlM_cons, insert?_eq_some counted]
        exact ih _ (by rwa [greatest_insert])
  exact all ids (empty greatest) counted

/-- Sets up to one number have as many words. -/
theorem length_words {first second : IdSet} (same : first.greatest = second.greatest) :
    first.words.length = second.words.length := by
  rw [first.sized, second.sized, same]

/-- No bit is set beyond the words. -/
theorem bit_beyond (set : IdSet) {id : Nat} (beyond : 64 * wordCount set.greatest ≤ id) :
    set.bit id = false :=
  bitAmong_beyond (set.sized ▸ beyond)

/-- The bits of an intersection are set in both sets. -/
theorem bit_inter {first second : IdSet} (same : first.greatest = second.greatest) (id : Nat) :
    (first.inter second).bit id = (first.bit id && second.bit id) := by
  by_cases within : id < 64 * first.words.length
  · exact bitAmong_joinWords bitIn_and (length_words same) id within
  · rw [first.sized, Nat.not_lt] at within
    rw [(first.inter second).bit_beyond within, first.bit_beyond within, Bool.false_and]

/-- The bits of a union are set in one of the sets. -/
theorem bit_union {first second : IdSet} (same : first.greatest = second.greatest) (id : Nat) :
    (first.union second).bit id = (first.bit id || second.bit id) := by
  by_cases within : id < 64 * first.words.length
  · exact bitAmong_joinWords bitIn_or (length_words same) id within
  · rw [first.sized, Nat.not_lt] at within
    rw [(first.union second).bit_beyond within, first.bit_beyond within,
      second.bit_beyond (same ▸ within), Bool.or_false]

/-- The bits of a complement are those in range that are not set. -/
theorem bit_complement {set : IdSet} (counted : set.greatest + 1 < UInt64.size) (id : Nat) :
    set.complement.bit id = (inRange set.greatest id && !set.bit id) := by
  change bitAmong (maskEnds set.greatest (set.words.map (~~~ ·))) id = _
  rw [bitAmong_maskEnds counted (by rw [List.length_map, set.sized])]
  cases within : inRange set.greatest id with
  | false => rfl
  | true =>
      rw [bitAmong_map _ (set.sized ▸ lt_of_inRange counted within),
        bitIn_not _ (Nat.mod_lt _ (by decide))]
      rfl

/-- An intersection contains what both sets contain. -/
theorem contains_inter {first second : IdSet} (same : first.greatest = second.greatest)
    (id : Nat) : (first.inter second).contains id = (first.contains id && second.contains id) := by
  have kept : (first.inter second).greatest = first.greatest := rfl
  rw [contains_eq, contains_eq, contains_eq, bit_inter same, kept, ← same]
  cases inRange first.greatest id <;> simp

/-- A union contains what one of the sets contains. -/
theorem contains_union {first second : IdSet} (same : first.greatest = second.greatest)
    (id : Nat) : (first.union second).contains id = (first.contains id || second.contains id) := by
  have kept : (first.union second).greatest = first.greatest := rfl
  rw [contains_eq, contains_eq, contains_eq, bit_union same, kept, ← same, Bool.and_or_distrib_left]

/-- What is in range is in a set or in its complement. -/
theorem contains_complement {set : IdSet} (counted : set.greatest + 1 < UInt64.size) (id : Nat) :
    set.complement.contains id = (inRange set.greatest id && !set.contains id) := by
  have kept : set.complement.greatest = set.greatest := rfl
  rw [contains_eq, contains_eq, bit_complement counted, kept]
  cases inRange set.greatest id <;> simp

/-- No bit is set of a number that is out of range. -/
def IsClean (set : IdSet) : Prop := ∀ id, set.bit id = true → inRange set.greatest id = true

/-- In a clean set the bits that are set are those of its members. -/
theorem IsClean.bit_eq {set : IdSet} (clean : set.IsClean) (id : Nat) :
    set.bit id = set.contains id := by
  rw [contains_eq]
  cases there : set.bit id with
  | false => exact (Bool.and_false _).symm
  | true => rw [clean id there, Bool.and_self]

theorem isClean_empty (greatest : Nat) : (empty greatest).IsClean := by
  intro id there
  rw [bit_empty] at there
  cases there

/-- Inserting a number keeps a set clean. -/
theorem IsClean.insert {set : IdSet} (counted : set.greatest + 1 < UInt64.size)
    (clean : set.IsClean) (id : Nat) : (set.insert id).IsClean := by
  intro other there
  rw [bit_insert counted, Bool.or_eq_true, Bool.and_eq_true] at there
  rw [greatest_insert]
  exact there.elim (clean other) And.left

/-- A set of numbers is clean. -/
theorem isClean_ofIds {greatest : Nat} (counted : greatest + 1 < UInt64.size) (ids : List Nat) :
    (ofIds greatest ids).IsClean := by
  have all : ∀ (ids : List Nat) (set : IdSet), set.greatest + 1 < UInt64.size → set.IsClean →
      (ids.foldl IdSet.insert set).IsClean := by
    intro ids
    induction ids with
    | nil => exact fun _ _ clean => clean
    | cons id rest ih =>
        exact fun set counted clean =>
          ih _ (by rwa [greatest_insert]) (clean.insert counted id)
  exact all ids (empty greatest) counted (isClean_empty greatest)

/-- The intersection of a clean set with another one is clean. -/
theorem IsClean.inter {first second : IdSet} (same : first.greatest = second.greatest)
    (clean : first.IsClean) : (first.inter second).IsClean := by
  intro id there
  rw [bit_inter same, Bool.and_eq_true] at there
  exact clean id there.1

/-- The union of clean sets is clean. -/
theorem IsClean.union {first second : IdSet} (same : first.greatest = second.greatest)
    (clean : first.IsClean) (also : second.IsClean) : (first.union second).IsClean := by
  intro id there
  rw [bit_union same, Bool.or_eq_true] at there
  exact there.elim (clean id) fun late => same ▸ also id late

/-- A complement is clean, whatever it is taken of. -/
theorem isClean_complement {set : IdSet} (counted : set.greatest + 1 < UInt64.size) :
    set.complement.IsClean := by
  intro id there
  rw [bit_complement counted, Bool.and_eq_true] at there
  exact there.1

/-- The bits of words are listed from the lowest on. -/
theorem flatMap_bitsIn (words : List UInt64) (place : Nat) :
    (words.zipIdx place).flatMap (fun (word, place) => (bitsIn word).map (64 * place + ·)) =
      (List.range' (64 * place) (64 * words.length)).filter fun id =>
        bitAmong words (id - 64 * place) := by
  induction words generalizing place with
  | nil => rfl
  | cons word words ih =>
      have next : 64 * (place + 1) = 64 * place + 64 := by omega
      have split : List.range' (64 * place) (64 * (word :: words).length) =
          List.range' (64 * place) 64 ++ List.range' (64 * (place + 1)) (64 * words.length) := by
        rw [next, List.length_cons, Nat.mul_succ, Nat.add_comm, ← List.range'_append_1]
      rw [List.zipIdx_cons, List.flatMap_cons, ih, split, List.filter_append]
      congr 1
      · rw [List.range'_eq_map_range, List.filter_map]
        change (bitsIn word).map (64 * place + ·) = _
        rw [bitsIn_eq]
        congr 1
        apply List.filter_congr
        intro bit low
        rw [List.mem_range] at low
        rw [Function.comp_apply, Nat.add_sub_cancel_left, bitAmong, Nat.div_eq_of_lt low,
          Nat.mod_eq_of_lt low]
        rfl
      · apply List.filter_congr
        intro id member
        obtain ⟨above, -⟩ := List.mem_range'_1.mp member
        obtain ⟨more, rfl⟩ := Nat.exists_eq_add_of_le above
        have apart : 64 * (place + 1) + more - 64 * place = more + 64 := by omega
        rw [Nat.add_sub_cancel_left, apart, bitAmong, bitAmong, Nat.add_div_right _ (by decide),
          Nat.add_mod_right]
        rfl

/-- A clean set lists its numbers, and no others, in ascending order. -/
theorem IsClean.toList_eq {set : IdSet} (counted : set.greatest + 1 < UInt64.size)
    (clean : set.IsClean) :
    set.toList = (List.range' 1 set.greatest).filter set.contains := by
  have beyond : ∀ id, inRange set.greatest id = false → set.bit id = false := by
    intro id outside
    rw [Bool.eq_false_iff]
    intro there
    rw [clean id there] at outside
    cases outside
  obtain ⟨more, long⟩ : ∃ more, 64 * set.words.length = set.greatest + more + 1 := by
    refine ⟨64 * set.words.length - 1 - set.greatest, ?_⟩
    rw [set.sized, wordCount_eq counted]
    omega
  have shape : List.range' (64 * 0) (64 * set.words.length) =
      0 :: (List.range' 1 set.greatest ++ List.range' (1 + set.greatest) more) := by
    rw [List.range'_append_1, long, List.range'_succ]
  rw [toList, flatMap_bitsIn, shape, List.filter_cons_of_neg, List.filter_append]
  · have none : (List.range' (1 + set.greatest) more).filter
        (fun id => bitAmong set.words (id - 64 * 0)) = [] := by
      apply List.filter_eq_nil_iff.mpr
      intro id member
      obtain ⟨above, -⟩ := List.mem_range'_1.mp member
      rw [Nat.mul_zero, Nat.sub_zero, Bool.not_eq_true]
      exact beyond id (inRange_eq_false (.inr (by omega)))
    rw [none, List.append_nil]
    apply List.filter_congr
    intro id member
    obtain ⟨above, below⟩ := List.mem_range'_1.mp member
    rw [contains_eq, inRange_of_not (by omega), Bool.true_and]
    rfl
  · rw [Nat.mul_zero, Nat.sub_zero, Bool.not_eq_true]
    exact beyond 0 rfl

/-- All numbers in range are in a full set. -/
theorem bit_full {greatest : Nat} (counted : greatest + 1 < UInt64.size) (id : Nat) :
    (full greatest).bit id = inRange greatest id := by
  have sized : ((empty greatest).words.map fun _ => ~~~(0 : UInt64)).length = wordCount greatest := by
    rw [List.length_map, (empty greatest).sized, empty]
  change bitAmong (maskEnds greatest ((empty greatest).words.map fun _ => ~~~0)) id = _
  rw [bitAmong_maskEnds counted sized]
  cases within : inRange greatest id with
  | false => rfl
  | true =>
      have inside := lt_of_inRange counted within
      rw [← sized, List.length_map] at inside
      rw [bitAmong_map _ inside, bitIn_not 0 (Nat.mod_lt _ (by decide)), bitIn_zero]
      rfl

/-- A bit of a word is that of its number. -/
theorem bit_word {set : IdSet} {place low : Nat} (inside : place < set.words.length)
    (less : low < 64) : set.bit (64 * place + low) = bitIn set.words[place] low := by
  have word : (64 * place + low) / 64 = place := by omega
  have bit : (64 * place + low) % 64 = low := by omega
  rw [IdSet.bit, bitAmong, word, bit, List.getD_eq_getElem?_getD,
    List.getElem?_eq_getElem inside, Option.getD_some]

/-- Sets up to one number with the same bits are the same set. -/
theorem eq_of_bit {first second : IdSet} (same : first.greatest = second.greatest)
    (bits : ∀ id, first.bit id = second.bit id) : first = second := by
  have words : first.words = second.words := by
    apply List.ext_getElem (length_words same)
    intro place here there
    apply eq_of_bitIn
    intro low less
    rw [← bit_word here less, ← bit_word there less, bits]
  cases first
  cases second
  rw [IdSet.mk.injEq]
  exact ⟨same, words⟩

/-- A set is empty when no bit is set. -/
theorem isEmpty_iff (set : IdSet) : set.isEmpty = true ↔ ∀ id, set.bit id = false := by
  rw [isEmpty, List.all_eq_true]
  constructor
  · intro blank id
    rcases Nat.lt_or_ge (id / 64) set.words.length with inside | beyond
    · have zero := eq_of_beq (blank _ (List.getElem_mem inside))
      rw [bit, bitAmong, List.getD_eq_getElem?_getD, List.getElem?_eq_getElem inside,
        Option.getD_some, zero, bitIn_zero]
    · exact bitAmong_beyond (by omega)
  · intro clear word member
    obtain ⟨place, inside, rfl⟩ := List.getElem_of_mem member
    rw [beq_iff_eq]
    apply eq_of_bitIn
    intro low less
    rw [bitIn_zero, ← bit_word inside less, clear]

/-- The numbers of a set are counted word by word. -/
theorem size_eq_length (set : IdSet) : set.size = set.toList.length := by
  have all : ∀ (words : List UInt64) (place count : Nat),
      words.foldl (fun count word => count + onesIn word) count =
        count + ((words.zipIdx place).flatMap fun (word, place) =>
          (bitsIn word).map (64 * place + ·)).length := by
    intro words
    induction words with
    | nil => exact fun _ _ => rfl
    | cons word words ih =>
        intro place count
        rw [List.foldl_cons, ih (place + 1), List.zipIdx_cons, List.flatMap_cons,
          List.length_append, List.length_map, length_bitsIn, Nat.add_assoc]
  rw [size, all set.words 0, Nat.zero_add]
  rfl

end Concordance.IdSet
