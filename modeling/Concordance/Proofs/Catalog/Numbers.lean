import Concordance.Proofs.Gist

namespace Concordance

/-- As long as the counter has not come round, its next number is none of those near before it. -/
theorem succ_ne_of_near (greatest id : DocId) (near : (greatest - id).toNat + 1 < UInt64.size) :
    greatest + 1 ≠ id := by
  rintro rfl
  have last : greatest - (greatest + 1) = 0 - 1 := by grind
  rw [last] at near
  exact absurd near (by decide)

/-- A number falls behind the counter by one when the counter goes up. -/
theorem toNat_succ_sub (greatest id : DocId) (near : (greatest - id).toNat + 1 < UInt64.size) :
    (greatest + 1 - id).toNat = (greatest - id).toNat + 1 := by
  have swap : greatest + 1 - id = greatest - id + 1 := by grind
  rw [swap]
  exact toNat_succ near

namespace Catalog

/-- Different numbers that are among the last so many that were taken. -/
structure Issued (catalog : Catalog) (taken : Nat) (ids : List DocId) : Prop where
  distinct : ids.Nodup
  recent : ∀ id ∈ ids, (catalog.greatestId - id).toNat < taken

variable {catalog : Catalog} {taken : Nat} {ids : List DocId}

theorem issued_nil (catalog : Catalog) (taken : Nat) : catalog.Issued taken [] where
  distinct := .nil
  recent _ member := absurd member List.not_mem_nil

/-- Some of the numbers that have been issued have been issued. -/
theorem Issued.sublist {others : List DocId} (issued : catalog.Issued taken ids)
    (fewer : others.Sublist ids) : catalog.Issued taken others where
  distinct := issued.distinct.sublist fewer
  recent id member := issued.recent id (fewer.subset member)

/-- In which order issued numbers are listed does not matter. -/
theorem Issued.perm {others : List DocId} (issued : catalog.Issued taken ids)
    (perm : ids.Perm others) : catalog.Issued taken others where
  distinct := perm.nodup_iff.mp issued.distinct
  recent id member := issued.recent id (perm.mem_iff.mpr member)

/-- Which numbers have been taken depends on nothing but the counter. -/
theorem Issued.of_nextId {other : Catalog} (issued : catalog.Issued taken ids)
    (same : other.nextId = catalog.nextId) : other.Issued taken ids where
  distinct := issued.distinct
  recent id member := by
    unfold greatestId
    rw [same]
    exact issued.recent id member

theorem nextId_eq (catalog : Catalog) : catalog.nextId = catalog.greatestId + 1 :=
  (UInt64.sub_add_cancel ..).symm

/-- Registering a file raises the greatest number by one. -/
theorem greatestId_register (catalog : Catalog) (item : Indexable) :
    (catalog.register item).2.greatestId = catalog.greatestId + 1 := by
  unfold greatestId
  rw [nextId_register, UInt64.add_sub_cancel, UInt64.sub_add_cancel]

/-- The next number is none of those that have been taken. -/
theorem Issued.nextId_not_mem (issued : catalog.Issued taken ids)
    (room : taken + 1 ≤ UInt64.size) : catalog.nextId ∉ ids := by
  intro member
  have near := issued.recent _ member
  rw [nextId_eq] at near
  exact succ_ne_of_near catalog.greatestId _ (by omega) rfl

/-- The number of a registered file joins those that have been issued. -/
theorem Issued.register (issued : catalog.Issued taken ids) (item : Indexable)
    (room : taken + 1 ≤ UInt64.size) :
    (catalog.register item).2.Issued (taken + 1) (catalog.nextId :: ids) where
  distinct := List.nodup_cons.mpr ⟨issued.nextId_not_mem room, issued.distinct⟩
  recent := by
    rw [greatestId_register]
    intro id member
    rcases List.mem_cons.mp member with rfl | old
    · rw [nextId_eq, UInt64.sub_self]
      exact Nat.succ_pos taken
    · have near := issued.recent id old
      rw [toNat_succ_sub _ _ (by omega)]
      omega

/-- Registering files takes one number for each of them. -/
theorem Issued.registerAll (issued : catalog.Issued taken ids) (items : List Indexable)
    (room : taken + items.length ≤ UInt64.size) :
    (catalog.registerAll items).2.Issued (taken + items.length)
      ((catalog.registerAll items).1.map Prod.snd ++ ids) := by
  induction items generalizing catalog taken ids with
  | nil => exact issued
  | cons item rest ih =>
      rw [List.length_cons] at room ⊢
      have more := ih (issued.register item (by omega)) (by omega)
      rw [Nat.add_right_comm taken 1, Nat.add_assoc] at more
      rw [registerAll_cons]
      exact more.perm List.perm_middle

/-- Where all live numbers have been taken, those of registered files come beside them. -/
theorem Issued.perm_keys_registerAll (issued : catalog.Issued taken catalog.documents.keys)
    (items : List Indexable) (room : taken + items.length ≤ UInt64.size) :
    (catalog.registerAll items).2.documents.keys.Perm
      ((catalog.registerAll items).1.map Prod.snd ++ catalog.documents.keys) := by
  induction items generalizing catalog taken with
  | nil => exact .refl _
  | cons item rest ih =>
      rw [List.length_cons] at room
      have fresh : catalog.documents.get? catalog.nextId = none := by
        rw [← OrderedMap.contains_eq_false, ← Bool.not_eq_true, OrderedMap.contains_iff]
        exact issued.nextId_not_mem (by omega)
      have added := perm_keys_register fresh item
      have whole := ih ((issued.register item (by omega)).perm added.symm) (by omega)
      rw [registerAll_cons]
      exact (whole.trans (added.append_left _)).trans List.perm_middle

/-- The documents of numbers that have been taken stay when files are registered. -/
theorem Issued.document?_registerAll (issued : catalog.Issued taken ids) (items : List Indexable)
    (room : taken + items.length ≤ UInt64.size) {id : DocId} (member : id ∈ ids) :
    (catalog.registerAll items).2.document? id = catalog.document? id := by
  induction items generalizing catalog taken ids with
  | nil => rfl
  | cons item rest ih =>
      rw [List.length_cons] at room
      have other : id ≠ catalog.nextId := fun same =>
        issued.nextId_not_mem (by omega) (same ▸ member)
      rw [registerAll_cons, ih (issued.register item (by omega)) (by omega)
        (List.mem_cons_of_mem _ member), document?_register, if_neg other]

/-- Every registered file has the document that is filed under its number. -/
theorem document?_registerAll_of_mem {items : List Indexable} (room : items.length ≤ UInt64.size)
    {entry : Path × DocId} (member : entry ∈ (catalog.registerAll items).1) :
    ∃ item ∈ items, entry.1 = item.path ∧
      (catalog.registerAll items).2.document? entry.2 = some (item.document entry.2) := by
  induction items generalizing catalog with
  | nil => cases member
  | cons item rest ih =>
      rw [List.length_cons] at room
      rw [registerAll_cons] at member ⊢
      rcases List.mem_cons.mp member with rfl | later
      · have first := (catalog.issued_nil 0).register item (by omega)
        refine ⟨item, List.mem_cons_self, rfl, ?_⟩
        rw [first.document?_registerAll rest (by omega) List.mem_cons_self, document?_register,
          if_pos rfl]
      · obtain ⟨other, held, document⟩ := ih (by omega) later
        exact ⟨other, List.mem_cons_of_mem _ held, document⟩

end Catalog
end Concordance
