import TypeNameLint.Ban.Table
import TypeNameLint.Proofs.Data.OrderedMap

/-!
# Collecting — bans under names that differ in blanks only

A table has one place for all bans of a squeezed name. It is the place of the first of them, and
the last of them is what the table says. This file defines:

* `squeezeKeys`: entries under squeezed names;
* `BanTable.IsLast`: what the last ban of a squeezed name says;
* `BanTable.Collects`: a table of the last bans in the order of the first ones.

There is one such table, `eq_build_iff_collects`. The main result is
`build_keeps_places_and_last_bans`.
-/

namespace TypeNameLint

/-! ## Squeezed names -/

section Keys

variable {α : Type} {entries : List (String × α)}

/-- The entries under squeezed names. -/
def squeezeKeys (entries : List (String × α)) : List (String × α) :=
  entries.map fun entry => (Text.squeeze entry.1, entry.2)

theorem squeezeKeys_append (entries more : List (String × α)) :
    squeezeKeys (entries ++ more) = squeezeKeys entries ++ squeezeKeys more :=
  List.map_append

theorem squeezeKeys_eq_self (h : ∀ entry ∈ entries, Text.squeeze entry.1 = entry.1) :
    squeezeKeys entries = entries := by
  refine (List.map_congr_left fun entry hentry => ?_).trans (List.map_id _)
  rw [h entry hentry]
  rfl

theorem squeezeKeys_squeezeKeys (entries : List (String × α)) :
    squeezeKeys (squeezeKeys entries) = squeezeKeys entries := by
  refine squeezeKeys_eq_self fun entry hentry => ?_
  rcases List.mem_map.1 hentry with ⟨written, -, rfl⟩
  exact Text.squeeze_squeeze written.1

end Keys

namespace BanTable

variable {bans : List (String × BanSpec)} {table other : BanTable}
variable {name key : String} {spec : BanSpec}

/-! ## Bans of one name -/

/-- The squeezed names of the bans, each as often as it is banned. -/
def names (bans : List (String × BanSpec)) : List String :=
  (squeezeKeys bans).map Prod.fst

/-- The last ban of a squeezed name, with whatever blanks it is written. -/
def IsLast (bans : List (String × BanSpec)) (name : String) (spec : BanSpec) : Prop :=
  ∃ before written after, bans = before ++ (written, spec) :: after ∧
    Text.squeeze written = name ∧ ∀ later ∈ after, Text.squeeze later.1 ≠ name

/-- A table of the last bans of all squeezed names, in the order of the first ones. -/
structure Collects (bans : List (String × BanSpec)) (table : BanTable) : Prop where
  mem_iff : ∀ name spec, (name, spec) ∈ table.toList ↔ IsLast bans name spec
  ordered : table.toList.Pairwise fun ban later =>
    (names bans).idxOf ban.1 < (names bans).idxOf later.1

/-- A name that has a last ban is squeezed. -/
theorem IsLast.squeeze_eq (h : IsLast bans name spec) : Text.squeeze name = name := by
  rcases h with ⟨before, written, after, -, rfl, -⟩
  exact Text.squeeze_squeeze written

/-! ## The one table -/

theorem eq_of_toList_eq (h : table.toList = other.toList) : table = other := by
  rcases table with ⟨⟨entries⟩⟩
  rcases other with ⟨⟨others⟩⟩
  exact congrArg (fun entries => BanTable.mk ⟨entries⟩) h

namespace Collects

theorem squeeze_of_mem (h : Collects bans table) :
    ∀ ban ∈ table.toList, Text.squeeze ban.1 = ban.1 := by
  intro ban hban
  exact ((h.mem_iff ban.1 ban.2).1 hban).squeeze_eq

theorem nodup (h : Collects bans table) : (table.toList.map Prod.fst).Nodup := by
  rw [List.Nodup, List.pairwise_map]
  refine h.ordered.imp fun {ban later} hlt heq => ?_
  rw [heq] at hlt
  exact Nat.lt_irrefl _ hlt

/-- The last bans and the order of the first ones leave no choice. -/
theorem eq (h : Collects bans table) (hother : Collects bans other) : table = other := by
  refine eq_of_toList_eq ?_
  have hperm : table.toList.Perm other.toList := by
    rw [List.perm_ext_iff_of_nodup h.nodup.of_map hother.nodup.of_map]
    intro ban
    exact (h.mem_iff ban.1 ban.2).trans (hother.mem_iff ban.1 ban.2).symm
  refine List.Perm.eq_of_pairwise ?_ h.ordered hother.ordered hperm
  intro ban later _ _ hlt hgt
  exact absurd hgt (Nat.lt_asymm hlt)

end Collects

/-! ## What is built -/

theorem get?_build (bans : List (String × BanSpec)) (key : String) :
    (build bans).get? key = (OrderedMap.ofList (squeezeKeys bans)).get? key :=
  rfl

theorem toList_build (bans : List (String × BanSpec)) :
    (build bans).toList = (OrderedMap.ofList (squeezeKeys bans)).toList :=
  rfl

/-- The look-up finds the last ban of a squeezed name. -/
theorem get?_build_eq_some_iff : (build bans).get? key = some spec ↔ IsLast bans key spec := by
  rw [get?_build, OrderedMap.get?_ofList_eq_some_iff]
  constructor
  · rintro ⟨before, after, hsplit, hafter⟩
    rcases List.map_eq_append_iff.1 hsplit with ⟨before, rest, rfl, -, hrest⟩
    rcases List.map_eq_cons_iff.1 hrest with ⟨⟨written, said⟩, after, rfl, hban, rfl⟩
    cases hban
    exact ⟨before, written, after, rfl, rfl,
      fun later hlater => hafter _ (List.mem_map_of_mem hlater)⟩
  · rintro ⟨before, written, after, rfl, rfl, hafter⟩
    refine ⟨squeezeKeys before, squeezeKeys after, by simp [squeezeKeys], ?_⟩
    intro later hlater
    rcases List.mem_map.1 hlater with ⟨ban, hban, rfl⟩
    exact hafter ban hban

theorem collects_build (bans : List (String × BanSpec)) : Collects bans (build bans) where
  mem_iff name spec := by
    rw [← get?_build_eq_some_iff]
    exact (OrderedMap.lookup_eq_some_iff_mem (OrderedMap.nodup_keys_ofList _)).symm
  ordered := by
    have hkeys := OrderedMap.pairwise_idxOf_keys_ofList (squeezeKeys bans)
    rw [OrderedMap.keys, List.pairwise_map] at hkeys
    exact hkeys

theorem eq_build_iff_collects : table = build bans ↔ Collects bans table := by
  constructor
  · rintro rfl
    exact collects_build bans
  · intro h
    exact h.eq (collects_build bans)

/-- Bans of squeezed names that differ are collected as they are. -/
theorem toList_build_of_squeezed (hnodup : (bans.map Prod.fst).Nodup)
    (hsqueezed : ∀ ban ∈ bans, Text.squeeze ban.1 = ban.1) : (build bans).toList = bans := by
  rw [toList_build, squeezeKeys_eq_self hsqueezed]
  exact OrderedMap.toList_ofList hnodup

/-- A table has names without blanks, each of them once, with the last of its bans at the place of
the first. So further bans only add names or replace what was said, nothing is changed by squeezing
the names before, and the bans of a table give this table again. -/
theorem build_keeps_places_and_last_bans (bans : List (String × BanSpec)) :
    (∀ ban ∈ (build bans).toList, ∀ c ∈ ban.1.toList, Text.isBlank c = false) ∧
    ((build bans).toList.map Prod.fst).Nodup ∧
    (∀ table, table = build bans ↔ Collects bans table) ∧
    (∀ key spec, (build bans).get? key = some spec ↔ IsLast bans key spec) ∧
    (∀ more key, (build (bans ++ more)).get? key =
      ((build more).get? key).or ((build bans).get? key)) ∧
    build (squeezeKeys bans) = build bans ∧
    build (build bans).toList = build bans := by
  have hcollects := collects_build bans
  refine ⟨?_, hcollects.nodup, fun _ => eq_build_iff_collects, fun _ _ => get?_build_eq_some_iff,
    ?_, ?_, ?_⟩
  · intro ban hban
    exact Text.squeeze_eq_self_iff.1 (hcollects.squeeze_of_mem ban hban)
  · intro more key
    rw [get?_build, squeezeKeys_append, OrderedMap.get?_ofList_append, ← get?_build, ← get?_build]
  · refine eq_of_toList_eq ?_
    rw [toList_build, squeezeKeys_squeezeKeys, ← toList_build]
  · exact eq_of_toList_eq (toList_build_of_squeezed hcollects.nodup hcollects.squeeze_of_mem)

/-- Two names, the first one banned twice with different blanks. -/
def sampleBans : List (String × BanSpec) :=
  [("Foo", .message "first"), ("Map < K >", .bare), ("F\u3000oo", .message "second")]

/-- The later ban of `Foo` stands at the place of the first, and bans that come after it replace it
again. -/
theorem build_sampleBans :
    (∀ ban ∈ (build sampleBans).toList, ∀ c ∈ ban.1.toList, Text.isBlank c = false) ∧
      build sampleBans = ⟨⟨[("Foo", .message "second"), ("Map<K>", .bare)]⟩⟩ ∧
      Collects sampleBans ⟨⟨[("Foo", .message "second"), ("Map<K>", .bare)]⟩⟩ ∧
      IsLast sampleBans "Foo" (.message "second") ∧
      (build (sampleBans ++ [("Foo ", .bare)])).get? "Foo" = some .bare ∧
      (build (sampleBans ++ [("Foo ", .bare)])).get? "Map<K>" = some .bare := by
  rcases build_keeps_places_and_last_bans sampleBans with ⟨hplain, -, honly, hlast, hmore, -, -⟩
  have hbuilt : build sampleBans = ⟨⟨[("Foo", .message "second"), ("Map<K>", .bare)]⟩⟩ := rfl
  refine ⟨hplain, hbuilt, (honly _).1 hbuilt.symm, (hlast _ _).1 (by rw [hbuilt]; rfl), ?_, ?_⟩
  · rw [hmore, hbuilt]
    rfl
  · rw [hmore, hbuilt]
    rfl

end BanTable
end TypeNameLint
