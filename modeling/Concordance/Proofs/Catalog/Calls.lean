import Concordance.Proofs.Catalog.Operation
import Mathlib.Data.List.Induction

/-! What a catalog is asked to do, call by call, and how often it changes on the way. -/
namespace Concordance

/-- What a reader adds to a document, or takes back. -/
inductive Remark where
  | comment (user : String) (text : Comment)
  | uncomment (user : String)
  | rate (user : String) (score : Number)

namespace Remark

def apply (document : Document) : Remark → Document
  | .comment user text => document.comment user text
  | .uncomment user => document.uncomment user
  | .rate user score => document.rate user score

variable (document : Document) (remark : Remark)

theorem id_apply : (apply document remark).id = document.id := by
  cases remark <;> rfl

theorem facts_apply : (apply document remark).facts = document.facts := by
  cases remark <;> rfl

end Remark

namespace Catalog

/-- What a catalog is asked to do. A disk without a snapshot that can be read changes nothing. -/
inductive Call where
  | allocate
  | addDocument (id : DocId) (path : Path) (facts : DocumentFacts) (metadata : Metadata)
  | annotate (id : DocId) (remark : Remark)
  | removeDocument (id : DocId)
  | addPlace (word : String) (id : DocId) (offset : UInt64)
  | tidy (word : String)
  | tidyAll
  | clear
  | mean
  | log (usage : UsageLog)
  | reload (disk : Disk)

/-- Replaces what readers have added to a document, if there is one. -/
def annotated (now : Catalog) (id : DocId) (remark : Remark) : Catalog :=
  match now.document? id with
  | some document => now.annotate (remark.apply document)
  | none => now

/-- How often going back to the file raises the generation. -/
def changesOfReload (now : Catalog) (disk : Disk) : Nat :=
  match reload disk now with
  | .ok .. => 1
  | .error .. => 0

/-- How often tidying a word raises the generation. -/
def changesOfTidy (now : Catalog) (word : String) : Nat :=
  match now.posting? word with
  | none => 0
  | some posting => if posting.documents.all now.isLive then 0 else 1

/-- How often tidying words one after another raises the generation. -/
def changesOfTidying (now : Catalog) : List String → Nat
  | [] => 0
  | word :: rest => now.changesOfTidy word + (now.tidy word).2.changesOfTidying rest

namespace Call

/-- What a call leaves. -/
def apply (now : Catalog) : Call → Catalog
  | allocate => now.allocate.2
  | addDocument id path facts metadata => now.addDocument (.new id path facts metadata)
  | annotate id remark => now.annotated id remark
  | removeDocument id => now.removeDocument id
  | addPlace word id offset => now.addPlace word id offset
  | tidy word => (now.tidy word).2
  | tidyAll => now.tidyAll.2
  | clear => now.clear
  | mean => now.keepMean
  | log usage => { now with usage := usage }
  | reload disk => stateAfter (Catalog.reload disk) now

/-- How often a call raises the generation. -/
def changes (now : Catalog) : Call → Nat
  | addDocument .. | addPlace .. | clear => 1
  | removeDocument id => if now.isLive id then 1 else 0
  | tidy word => now.changesOfTidy word
  | tidyAll => now.changesOfTidying now.terms.keys
  | reload disk => now.changesOfReload disk
  | allocate | annotate .. | mean | log _ => 0

end Call

/-- What calls leave, one after another. -/
def after (now : Catalog) (calls : List Call) : Catalog := calls.foldl Call.apply now

/-- How often calls raise the generation. -/
def changesOf (now : Catalog) : List Call → Nat
  | [] => 0
  | call :: rest => call.changes now + (call.apply now).changesOf rest

theorem after_cons (now : Catalog) (call : Call) (rest : List Call) :
    now.after (call :: rest) = (call.apply now).after rest := rfl

/-- Calls before others leave what the others start from. -/
theorem after_append (now : Catalog) (calls more : List Call) :
    now.after (calls ++ more) = (now.after calls).after more :=
  List.foldl_append

/-- The changes of calls before others are counted first, and those of the others from where they
leave off. -/
theorem changesOf_append (now : Catalog) (calls more : List Call) :
    now.changesOf (calls ++ more) = now.changesOf calls + (now.after calls).changesOf more := by
  induction calls generalizing now with
  | nil => exact (Nat.zero_add _).symm
  | cons call rest ih =>
      rw [List.cons_append, changesOf, changesOf, ih, Nat.add_assoc, after_cons]

/-- Every call is an operation, or it fails and leaves the catalog as it is. -/
theorem Call.exists_run (now : Catalog) (call : Call) :
    ∃ notices, Run now notices (call.apply now) := by
  cases call with
  | allocate => exact ⟨_, .single (.allocate now)⟩
  | addDocument => exact ⟨_, .single (.addDocument now ..)⟩
  | annotate id remark =>
      show ∃ notices, Run now notices (now.annotated id remark)
      unfold annotated
      split
      next document found =>
        cases remark with
        | comment => exact ⟨_, .single (.comment found ..)⟩
        | uncomment => exact ⟨_, .single (.uncomment found _)⟩
        | rate => exact ⟨_, .single (.rate found ..)⟩
      next => exact ⟨_, .start⟩
  | removeDocument id => exact ⟨_, .single (.removeDocument now id)⟩
  | addPlace => exact ⟨_, .single (.addPlace now ..)⟩
  | tidy word => exact ⟨_, .single (.tidy now word)⟩
  | tidyAll => exact ⟨_, .single (.tidyAll now)⟩
  | clear => exact ⟨_, .single (.clear now)⟩
  | mean => exact ⟨_, .single (.keepMean now)⟩
  | log usage => exact ⟨_, .single (.log now usage)⟩
  | reload disk =>
      show ∃ notices, Run now notices (stateAfter (Catalog.reload disk) now)
      obtain ⟨snapshot, -, loaded⟩ | ⟨fault, failed⟩ := reload_cases disk now
      · rw [stateAfter_of_ok loaded]
        exact ⟨_, .single (.reload loaded)⟩
      · rw [stateAfter_of_error failed]
        exact ⟨_, .start⟩

/-- Calls are a run of operations, with notices of their own. -/
theorem exists_run_after (now : Catalog) (calls : List Call) :
    ∃ notices, Run now notices (now.after calls) := by
  induction calls generalizing now with
  | nil => exact ⟨[], .start⟩
  | cons call rest ih =>
      obtain ⟨notices, first⟩ := call.exists_run now
      obtain ⟨more, last⟩ := ih (call.apply now)
      exact ⟨notices ++ more, first.trans last⟩

section Counting

/-- Tidying a word raises the generation where it drops something, and else changes nothing. -/
theorem tidy_cases (now : Catalog) (word : String) :
    now.changesOfTidy word = 1 ∧ (now.tidy word).2.generation = now.generation + 1 ∨
      now.changesOfTidy word = 0 ∧ (now.tidy word).2 = now := by
  unfold changesOfTidy tidy
  cases now.posting? word with
  | none => exact .inr ⟨rfl, rfl⟩
  | some posting =>
      by_cases alive : posting.documents.all now.isLive = true
      · exact .inr ⟨if_pos alive, by simp only [if_pos alive]⟩
      · refine .inl ⟨if_neg alive, ?_⟩
        simp only [if_neg alive]
        split <;> rfl

/-- Tidying a word raises the generation by the number of changes that are counted for it. -/
theorem generation_tidy (now : Catalog) (word : String) :
    (now.tidy word).2.generation = now.generation + .ofNat (now.changesOfTidy word) := by
  rcases now.tidy_cases word with ⟨counted, raised⟩ | ⟨none, same⟩
  · rw [counted, raised]
    rfl
  · rw [none, same]
    exact (UInt64.add_zero _).symm

/-- Tidying words raises the generation by the changes that are counted for them. -/
theorem generation_tidyWords (now : Catalog) (words : List String) :
    (now.tidyWords words).2.generation = now.generation + .ofNat (now.changesOfTidying words) := by
  induction words generalizing now with
  | nil => exact (UInt64.add_zero _).symm
  | cons word rest ih =>
      show ((now.tidy word).2.tidyWords rest).2.generation = _
      rw [ih, generation_tidy, changesOfTidying, UInt64.ofNat_add, UInt64.add_assoc]

/-- Where nothing is tidied the catalog stays as it is. -/
theorem tidyWords_of_changes_eq_zero (now : Catalog) (words : List String)
    (none : now.changesOfTidying words = 0) : (now.tidyWords words).2 = now := by
  induction words generalizing now with
  | nil => rfl
  | cons word rest ih =>
      obtain ⟨first, others⟩ := Nat.add_eq_zero_iff.mp none
      rcases now.tidy_cases word with ⟨counted, -⟩ | ⟨-, same⟩
      · rw [counted] at first
        cases first
      · rw [same] at others
        show ((now.tidy word).2.tidyWords rest).2 = now
        rw [same]
        exact ih now others

/-- What readers add to a document is not counted. -/
theorem generation_annotated (now : Catalog) (id : DocId) (remark : Remark) :
    (now.annotated id remark).generation = now.generation := by
  unfold annotated
  split <;> rfl

/-- Removing a document is counted where there is one. -/
theorem generation_removeDocument (now : Catalog) (id : DocId) :
    (now.removeDocument id).generation =
      now.generation + .ofNat (if now.isLive id then 1 else 0) := by
  unfold removeDocument
  split
  next => rfl
  next => exact (UInt64.add_zero _).symm

theorem generation_addPlace (now : Catalog) (word : String) (id : DocId) (offset : UInt64) :
    (now.addPlace word id offset).generation = now.generation + 1 := by
  unfold addPlace
  split <;> rfl

/-- Going back to the file is counted where the file can be read. -/
theorem generation_reload (now : Catalog) (disk : Disk) :
    (stateAfter (reload disk) now).generation =
      now.generation + .ofNat (now.changesOfReload disk) := by
  unfold changesOfReload
  obtain ⟨snapshot, -, loaded⟩ | ⟨fault, failed⟩ := reload_cases disk now
  · rw [stateAfter_of_ok loaded, loaded]
    rfl
  · rw [stateAfter_of_error failed, failed]
    exact (UInt64.add_zero _).symm

/-- The generation counts the changes of a call. -/
theorem Call.generation_apply (now : Catalog) (call : Call) :
    (call.apply now).generation = now.generation + .ofNat (call.changes now) := by
  have none : now.generation = now.generation + .ofNat 0 := (UInt64.add_zero _).symm
  cases call with
  | allocate => exact none
  | addDocument => rfl
  | annotate id remark => exact (generation_annotated now id remark).trans none
  | removeDocument id => exact generation_removeDocument now id
  | addPlace word id offset => exact generation_addPlace now word id offset
  | tidy word => exact generation_tidy now word
  | tidyAll => exact generation_tidyWords now _
  | clear => rfl
  | mean => exact none
  | log => exact none
  | reload disk => exact generation_reload now disk

/-- Calls raise the generation by the number of changes that are counted for them. -/
theorem generation_after (now : Catalog) (calls : List Call) :
    (now.after calls).generation = now.generation + .ofNat (now.changesOf calls) := by
  induction calls generalizing now with
  | nil => exact (UInt64.add_zero _).symm
  | cons call rest ih =>
      rw [after_cons, ih, Call.generation_apply, changesOf, UInt64.ofNat_add, UInt64.add_assoc]

/-- A generation that has not come round is the number of all changes. -/
theorem toNat_generation_after {now : Catalog} {calls : List Call}
    (counted : now.generation.toNat + now.changesOf calls < UInt64.size) :
    (now.after calls).generation.toNat = now.generation.toNat + now.changesOf calls := by
  have small : now.changesOf calls < UInt64.size := by omega
  rw [generation_after, UInt64.toNat_add, UInt64.toNat_ofNat_of_lt' small]
  exact Nat.mod_eq_of_lt counted

/-- A call that changes nothing that is counted leaves the catalog as it is, or it takes a number, adds
to a document, keeps the mean or replaces the log. -/
theorem Call.cases_of_changes_eq_zero {now : Catalog} {call : Call} (none : call.changes now = 0) :
    call.apply now = now ∨ call = .allocate ∨ (∃ id remark, call = .annotate id remark) ∨
      call = .mean ∨ ∃ usage, call = .log usage := by
  cases call with
  | allocate => exact .inr (.inl rfl)
  | addDocument => cases none
  | annotate id remark => exact .inr (.inr (.inl ⟨id, remark, rfl⟩))
  | removeDocument id =>
      have gone : ¬now.isLive id = true := fun live => by
        rw [show changes now (.removeDocument id) = 1 from if_pos live] at none
        cases none
      exact .inl (if_neg gone)
  | addPlace => cases none
  | tidy word =>
      rcases now.tidy_cases word with ⟨counted, -⟩ | ⟨-, same⟩
      · exact absurd (counted.symm.trans none) Nat.one_ne_zero
      · exact .inl same
  | tidyAll => exact .inl (tidyWords_of_changes_eq_zero now _ none)
  | clear => cases none
  | mean => exact .inr (.inr (.inr (.inl rfl)))
  | log usage => exact .inr (.inr (.inr (.inr ⟨usage, rfl⟩)))
  | reload disk =>
      left
      change now.changesOfReload disk = 0 at none
      unfold changesOfReload at none
      obtain ⟨snapshot, -, loaded⟩ | ⟨fault, failed⟩ := reload_cases disk now
      · rw [loaded] at none
        cases none
      · exact stateAfter_of_error failed

end Counting

section Mean

/-- A mean that is kept was computed at most so many changes ago, and after none it is the mean of
now. -/
def KnowsMeanWithin (now : Catalog) (limit : Nat) : Prop :=
  ∀ generation mean, now.keptMean = some (generation, mean) →
    ∃ since ≤ limit, now.generation = generation + .ofNat since ∧
      (since = 0 → mean = now.computeMean)

variable {now : Catalog} {limit : Nat}

/-- A generation is that of a mean only when nothing has changed since, as long as the changes can be
counted. -/
theorem KnowsMeanWithin.meanWordCount_eq (known : now.KnowsMeanWithin limit)
    (countable : limit < UInt64.size) : now.meanWordCount = now.computeMean := by
  unfold meanWordCount
  cases kept : now.keptMean with
  | none => rfl
  | some entry =>
      obtain ⟨generation, mean⟩ := entry
      obtain ⟨since, few, later, good⟩ := known generation mean kept
      show (if generation = now.generation then mean else now.computeMean) = _
      by_cases current : generation = now.generation
      · rw [if_pos current]
        apply good
        have counted := congrArg UInt64.toNat (current.trans later)
        have size : UInt64.size = 2 ^ 64 := rfl
        have small := generation.toNat_lt_size
        rw [UInt64.toNat_add, UInt64.toNat_ofNat_of_lt' (by omega)] at counted
        omega
      · rw [if_neg current]

/-- A catalog to begin with remembers no mean that is stale. -/
theorem knowsMeanWithin_of_isFirst {first : Catalog} (begun : IsFirst first) :
    first.KnowsMeanWithin 0 := by
  intro generation mean kept
  rcases begun with ⟨directory, usage, rfl⟩ | ⟨disk, directory, loaded⟩
  · cases kept
  · obtain ⟨snapshot, -, rfl⟩ := install_of_load loaded
    cases kept

theorem keptMean_removeDocument (now : Catalog) (id : DocId) :
    (now.removeDocument id).keptMean = now.keptMean := by
  unfold removeDocument
  split <;> rfl

/-- The kept mean is replaced only by a call for the mean. -/
theorem Call.keptMean_apply (now : Catalog) {call : Call} (other : call ≠ .mean) :
    (call.apply now).keptMean = now.keptMean := by
  cases call with
  | allocate => rfl
  | addDocument => rfl
  | annotate id remark =>
      show (now.annotated id remark).keptMean = now.keptMean
      unfold annotated
      split <;> rfl
  | removeDocument id => exact keptMean_removeDocument now id
  | addPlace word id offset => exact keptMean_addPlace now word id offset
  | tidy word => exact keptMean_tidy now word
  | tidyAll => exact keptMean_tidyWords now _
  | clear => rfl
  | mean => exact absurd rfl other
  | log => rfl
  | reload disk =>
      show (stateAfter (Catalog.reload disk) now).keptMean = now.keptMean
      obtain ⟨snapshot, -, loaded⟩ | ⟨fault, failed⟩ := reload_cases disk now
      · rw [stateAfter_of_ok loaded]
        rfl
      · rw [stateAfter_of_error failed]

/-- A call that changes nothing that is counted leaves the mean as it is. -/
theorem Call.computeMean_apply (filed : now.InPlace) {call : Call}
    (none : call.changes now = 0) : (call.apply now).computeMean = now.computeMean := by
  rcases cases_of_changes_eq_zero none with same | rfl | ⟨id, remark, rfl⟩ | rfl | ⟨usage, rfl⟩
  · rw [same]
  · rfl
  · show (now.annotated id remark).computeMean = now.computeMean
    unfold annotated
    split
    next document found =>
      refine computeMean_annotate ?_ (remark.facts_apply document)
      rwa [remark.id_apply, filed id document found]
    next => rfl
  · rfl
  · rfl

/-- A call that does not ask for the mean makes the remembered one older by the changes it brings.
-/
theorem Call.knowsMeanWithin_apply (known : now.KnowsMeanWithin limit) (filed : now.InPlace)
    {call : Call} (other : call ≠ .mean) :
    (call.apply now).KnowsMeanWithin (limit + call.changes now) := by
  intro generation mean kept
  rw [call.keptMean_apply now other] at kept
  obtain ⟨since, few, later, good⟩ := known generation mean kept
  refine ⟨since + call.changes now, by omega, ?_, fun unchanged => ?_⟩
  · rw [call.generation_apply, later, UInt64.ofNat_add, UInt64.add_assoc]
  · obtain ⟨recent, none⟩ := Nat.add_eq_zero_iff.mp unchanged
    rw [call.computeMean_apply filed none]
    exact good recent

/-- A mean that was just asked for is that of now. -/
theorem knowsMeanWithin_keepMean (good : now.meanWordCount = now.computeMean) :
    now.keepMean.KnowsMeanWithin 0 := by
  intro generation mean kept
  cases kept
  exact ⟨0, Nat.le_refl 0, (UInt64.add_zero _).symm, fun _ => good⟩

/-- Documents stay filed under their own numbers, whatever is called. -/
theorem inPlace_after (filed : now.InPlace) (calls : List Call) : (now.after calls).InPlace := by
  obtain ⟨notices, run⟩ := exists_run_after now calls
  exact inPlace_of_run run filed

/-- Between two calls for the mean the changes of a run can be counted. -/
def IsCountable (now : Catalog) (calls : List Call) : Prop :=
  ∀ before between after, calls = before ++ between ++ after → .mean ∉ between →
    (now.after before).changesOf between < UInt64.size

/-- Calls whose changes all together fit into the counter can be counted. -/
theorem isCountable_of_lt {calls : List Call} (few : now.changesOf calls < UInt64.size) :
    now.IsCountable calls := by
  rintro before between after rfl -
  rw [changesOf_append, changesOf_append] at few
  omega

/-- After any calls a mean that is kept was computed no longer ago than the mean was asked for. -/
theorem exists_knowsMeanWithin (known : now.KnowsMeanWithin 0) (filed : now.InPlace)
    {calls : List Call} (countable : now.IsCountable calls) :
    ∃ before between, calls = before ++ between ∧ .mean ∉ between ∧
      (now.after calls).KnowsMeanWithin ((now.after before).changesOf between) := by
  induction calls using List.reverseRecOn with
  | nil => exact ⟨[], [], rfl, List.not_mem_nil, known⟩
  | append_singleton calls call ih =>
      obtain ⟨before, between, rfl, unasked, within⟩ := ih fun before between after split =>
        countable before between (after ++ [call]) (by rw [split, List.append_assoc _ after])
      rw [after_append]
      by_cases asked : call = .mean
      · have few := countable before between [call] rfl unasked
        rw [asked]
        exact ⟨before ++ between ++ [.mean], [], (List.append_nil _).symm, List.not_mem_nil,
          knowsMeanWithin_keepMean (within.meanWordCount_eq few)⟩
      · refine ⟨before, between ++ [call], List.append_assoc .., ?_, ?_⟩
        · rw [List.mem_append, List.mem_singleton]
          exact fun member => member.elim unasked fun same => asked same.symm
        · rw [changesOf_append, ← after_append now before between]
          exact call.knowsMeanWithin_apply within (inPlace_after filed _) asked

/-- The mean that is asked for after calls is that of the documents there. -/
theorem meanWordCount_after (known : now.KnowsMeanWithin 0) (filed : now.InPlace)
    {calls : List Call} (countable : now.IsCountable calls) :
    (now.after calls).meanWordCount = (now.after calls).computeMean := by
  obtain ⟨before, between, split, unasked, within⟩ :=
    exists_knowsMeanWithin known filed countable
  refine within.meanWordCount_eq (countable before between [] ?_ unasked)
  rw [List.append_nil, split]

/-- Whatever a catalog was asked to do before, for its mean among other things, the mean that it
returns is that of the documents it has, as long as the changes between two calls for the mean can be
counted: what would be computed now, the mean of the word counts of the live documents. -/
theorem meanWordCount_of_calls {first : Catalog} (begun : IsFirst first) {calls : List Call}
    (countable : first.IsCountable calls) :
    (first.after calls).meanWordCount = (first.after calls).computeMean ∧
      (first.after calls).meanWordCount = meanOf (first.after calls).wordCounts := by
  have computed : (first.after calls).meanWordCount = (first.after calls).computeMean :=
    meanWordCount_after (knowsMeanWithin_of_isFirst begun)
      (inPlace_of_consistent (consistent_of_isFirst begun)) countable
  exact ⟨computed, computed.trans (computeMean_eq _)⟩

/-- The mean is asked for, the document is replaced by a longer one, and the mean is asked for
again. -/
theorem meanWordCount_of_calls_replaced :
    let first := Catalog.empty ⟨"/"⟩ .empty
    let facts := (note.document 1).facts
    let calls : List Call := [.allocate, .addDocument 1 notePath facts .empty, .mean,
      .addDocument 1 notePath { facts with wordCount := 7 } .empty]
    IsFirst first ∧ first.IsCountable calls ∧ (first.after calls).keptMean.isSome = true ∧
      (first.after calls).wordCounts = [7] ∧
      (first.after calls).meanWordCount = (first.after calls).computeMean ∧
      (first.after calls).meanWordCount = meanOf [7] := by
  intro first facts calls
  have begun : IsFirst first := .inl ⟨_, _, rfl⟩
  have countable : first.IsCountable calls := isCountable_of_lt (by decide +kernel)
  have counts : (first.after calls).wordCounts = [7] := by decide +kernel
  obtain ⟨computed, mean⟩ := meanWordCount_of_calls begun countable
  exact ⟨begun, countable, rfl, counts, computed, counts ▸ mean⟩

end Mean

end Catalog
end Concordance
