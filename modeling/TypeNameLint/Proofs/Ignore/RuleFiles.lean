import TypeNameLint.Ignore.Scope
import TypeNameLint.Proofs.FileStore.Content

/-!
# RuleFiles — which files decide what is visible

What a scope says about a path depends on where repositories are and on what the ignore files hold.
No ignore file has an extension, so rewriting or removing files that have one leaves everything else
as visible as it was. This file defines:

* `IsRuleFile`: the places of ignore files;
* `Scope.inStore`: the same scope in another store.

The main results are `visibleFiles_inStore` and `droppedAbove_inStore`.
-/

namespace TypeNameLint
namespace Ignore

/-- The places that a scope reads rules from. -/
inductive IsRuleFile : Names → Prop
  | own (directory : Names) : IsRuleFile (directory ++ [".ignore"])
  | git (directory : Names) : IsRuleFile (directory ++ [".gitignore"])
  | exclude (directory : Names) : IsRuleFile (Scope.excludeFile directory)

/-- No ignore file has an extension. -/
theorem IsRuleFile.nameExtension? {names : Names} (h : IsRuleFile names) :
    ∃ above last, names = above ++ [last] ∧ Path.nameExtension? last = none := by
  cases h with
  | own directory => exact ⟨directory, ".ignore", rfl, by decide⟩
  | git directory => exact ⟨directory, ".gitignore", rfl, by decide⟩
  | exclude directory =>
    have hsplit : Scope.excludeFile directory =
        Scope.repository directory ++ ["info"] ++ ["exclude"] := by
      simp [Scope.excludeFile]
    exact ⟨_, "exclude", hsplit, by decide⟩

namespace Scope

/-- The same scope in another store. -/
def inStore (scope : Scope) (after : FileStore) : Scope := { scope with store := after }

variable {scope : Scope} {after : FileStore}

section Unchanged

variable (hrules : ∀ names, IsRuleFile names → after.file? names = scope.store.file? names)
  (htops : ∀ directory, (after.entry? (repository directory)).isSome =
    (scope.store.entry? (repository directory)).isSome)

include hrules

theorem rulesOf_inStore {names : Names} (h : IsRuleFile names) :
    (scope.inStore after).rulesOf names = scope.rulesOf names := by
  simp [rulesOf, inStore, hrules names h]

theorem droppedIn_inStore (directory : Names) :
    (scope.inStore after).droppedIn directory = scope.droppedIn directory := by
  have hown := rulesOf_inStore hrules (.own directory)
  have hgit := rulesOf_inStore hrules (.git directory)
  have hexclude := rulesOf_inStore hrules (.exclude directory)
  simp only [droppedIn, droppedOf, hown, hgit, hexclude]
  rfl

theorem droppedAbove_inStore : (scope.inStore after).droppedAbove = scope.droppedAbove := by
  have hdropped : (scope.inStore after).droppedIn = scope.droppedIn :=
    funext (droppedIn_inStore hrules)
  rw [droppedAbove, hdropped]
  rfl

include htops

theorem layer_inStore : (scope.inStore after).layer = scope.layer := by
  funext directory
  have hown := rulesOf_inStore hrules (.own directory)
  have hgit := rulesOf_inStore hrules (.git directory)
  have hexclude := rulesOf_inStore hrules (.exclude directory)
  -- Whether a directory is the top of a repository depends on what is there, not on contents.
  have htop : (scope.inStore after).isTop directory = scope.isTop directory := by
    simp only [isTop, inStore, htops directory]
  simp only [layer, hown, hgit, hexclude, htop]
  rfl

theorem isReached_inStore : (scope.inStore after).isReached = scope.isReached := by
  funext below
  have hverdict : ∀ isDirectory names,
      (scope.inStore after).verdict isDirectory names = scope.verdict isDirectory names := by
    intro isDirectory names
    simp only [verdict, layers, layer_inStore hrules htops]
  have hvisible : ∀ isDirectory names,
      (scope.inStore after).isVisible isDirectory names = scope.isVisible isDirectory names := by
    intro isDirectory names
    simp only [isVisible, hverdict]
  simp only [isReached, hvisible]
  rfl

/-- Of the files below the root, those that are still there are as visible as they were. -/
theorem visibleFiles_inStore {kept : Names → Bool}
    (hbelow : after.below scope.root = (scope.store.below scope.root).filter kept) :
    (scope.inStore after).visibleFiles = scope.visibleFiles.filter kept := by
  have hbelow' : (scope.inStore after).store.below (scope.inStore after).root =
      (scope.store.below scope.root).filter kept := hbelow
  rw [visibleFiles, visibleFiles, hbelow', isReached_inStore hrules htops,
    List.filter_filter, List.filter_filter]
  refine List.filter_congr fun below _ => ?_
  rw [Bool.and_comm]

end Unchanged

end Scope
end Ignore
end TypeNameLint
