import Concordance.Proofs.Path
import Concordance.Proofs.Watch.Tick

/-! Where the files of a watched path lie. -/
namespace Concordance

namespace Path

/-- Names lead from a path to another, or they are the same. -/
def IsBelow (root file : Path) : Prop :=
  ∃ names : List Bytes, file.parts = root.parts ++ names.map .name

/-- A path lies below itself. -/
theorem isBelow_self (root : Path) : root.IsBelow root := ⟨[], (List.append_nil _).symm⟩

/-- What lies below what does not depend on how the paths are spelt. -/
theorem isBelow_congr {root other file same : Path} (roots : root.parts = other.parts)
    (files : file.parts = same.parts) : root.IsBelow file ↔ other.IsBelow same := by
  unfold IsBelow
  rw [roots, files]

end Path

variable {extensions : ExtensionSettings} {settings : Settings} {disk : Disk} {root file : Path}

/-- Whatever is collected for a path lies below it. -/
theorem isBelow_of_mem_collectFiles {files : List Path} (named : disk.Named)
    (collected : collectFiles extensions disk root = .ok files) (member : file ∈ files) :
    root.IsBelow file := by
  cases looked : disk.look root with
  | error fault =>
      unfold collectFiles collectListed at collected
      rw [looked] at collected
      cases collected
  | ok entry =>
      by_cases directory : entry = .directory
      · obtain ⟨location, resolved⟩ := Disk.resolve_of_look looked
        rw [directory] at resolved
        rw [collectFiles, collectListed_of_resolve named (fun _ entries => List.Perm.refl entries)
          resolved extensions, Except.ok.injEq] at collected
        rw [← collected, (Path.perm_sort _).mem_iff, Gathering.mem_filesBelow] at member
        obtain ⟨names, entry, holds, rfl, -⟩ := member
        exact ⟨names, root.parts_descend (named.of_holds holds)⟩
      · rw [collectFiles_of_look looked directory, Except.ok.injEq] at collected
        rw [← collected, List.mem_singleton] at member
        exact member ▸ root.isBelow_self

/-- Whatever a sync finds lies below the path that is watched. -/
theorem isBelow_of_mem_eligible (named : disk.Named)
    (member : file ∈ (eligible settings disk root).toList) : root.IsBelow file := by
  have listed := OrderedSet.mem_of_mem_ofList member
  by_cases there : disk.holds root = true
  · obtain ⟨files, collected⟩ : ∃ files, collectFiles settings.extensions disk root = .ok files :=
      collectFiles_of_holds there
    rw [if_pos there, collected] at listed
    exact isBelow_of_mem_collectFiles named collected listed
  · rw [if_neg there] at listed
    cases listed

end Concordance
