import TypeNameLint.Proofs.Ban.Merging

/-!
# Collisions — configured names that differ in blanks only

Several configured names can have one squeezed form. The last of them is written over what is set
for the name so far, the built-in setting included; alone it would have been laid over the built-in
setting. This file defines:

* `BanOptions.settingsFor`: the settings configured for a squeezed name, in document order;
* `BanOptions.settle`: what becomes of them;
* `BanOptions.lastOnly`: the options without the entries that a later one replaces;
* `BanOptions.DropsBuiltin`: the names at which the two ways differ.

The main result is `get?_ofOptions_lastOnly`.
-/

namespace TypeNameLint
namespace BanOptions

variable {options : BanOptions} {key : String} {entries : List (String × Option BanSetting)}
variable {base : Option (Option BanSetting)} {settings : BanSettings} {seen : List String}

/-! ## The settings for one name -/

/-- The settings of the entries whose name has the squeezed form `key`, in order. -/
def settingsFor (entries : List (String × Option BanSetting)) (key : String) :
    List (Option BanSetting) :=
  (entries.filter fun entry => Text.squeeze entry.1 = key).map Prod.snd

/-- What becomes of the settings for a name: the first is laid over what is set already, and the
last of those that follow replaces it. -/
def settle (base : Option (Option BanSetting)) :
    List (Option BanSetting) → Option (Option BanSetting)
  | [] => base
  | first :: later => some (later.getLast?.getD (layOver base first))

theorem settingsFor_cons_of_eq {entry : String × Option BanSetting}
    (h : Text.squeeze entry.1 = key) :
    settingsFor (entry :: entries) key = entry.2 :: settingsFor entries key := by
  simp [settingsFor, h]

theorem settingsFor_cons_of_ne {entry : String × Option BanSetting}
    (h : Text.squeeze entry.1 ≠ key) :
    settingsFor (entry :: entries) key = settingsFor entries key := by
  simp [settingsFor, h]

/-! ## One setting after the other -/

/-- Once a name is seen, each further setting for it replaces the one before. -/
theorem get?_foldl_addSetting_of_mem (h : key ∈ seen) :
    (entries.foldl addSetting (seen, settings)).2.get? key =
      (settingsFor entries key).getLast?.or (settings.get? key) := by
  induction entries generalizing seen settings with
  | nil => rfl
  | cons entry entries ih =>
    rw [List.foldl_cons, addSetting]
    by_cases hkey : Text.squeeze entry.1 = key
    · have hseen : seen.contains (Text.squeeze entry.1) = true := by simpa [hkey] using h
      simp only [hseen, if_true]
      rw [ih h, OrderedMap.get?_insert, if_pos hkey.symm, settingsFor_cons_of_eq hkey,
        List.getLast?_cons]
      cases (settingsFor entries key).getLast? with
      | none => rfl
      | some last => rfl
    · have hother : key ≠ Text.squeeze entry.1 := fun heq => hkey heq.symm
      rw [settingsFor_cons_of_ne hkey]
      split
      · rw [ih h, OrderedMap.get?_insert, if_neg hother]
      · rw [ih (List.mem_cons_of_mem _ h), OrderedMap.get?_insert, if_neg hother]

/-- A name that is not seen yet is settled by the settings for it, and by nothing else. -/
theorem get?_foldl_addSetting (h : key ∉ seen) :
    (entries.foldl addSetting (seen, settings)).2.get? key =
      settle (settings.get? key) (settingsFor entries key) := by
  induction entries generalizing seen settings with
  | nil => rfl
  | cons entry entries ih =>
    rw [List.foldl_cons, addSetting]
    by_cases hkey : Text.squeeze entry.1 = key
    · have hunseen : seen.contains (Text.squeeze entry.1) = false := by simpa [hkey] using h
      simp only [hunseen, Bool.false_eq_true, if_false]
      -- From here on the name is seen, so the rest of the settings replace this one.
      rw [get?_foldl_addSetting_of_mem (by rw [hkey]; exact List.mem_cons_self),
        OrderedMap.get?_insert, if_pos hkey.symm, settingsFor_cons_of_eq hkey, settle, hkey]
      cases (settingsFor entries key).getLast? with
      | none => rfl
      | some last => rfl
    · have hother : key ≠ Text.squeeze entry.1 := fun heq => hkey heq.symm
      rw [settingsFor_cons_of_ne hkey]
      split
      · rw [ih h, OrderedMap.get?_insert, if_neg hother]
      · have hnext : key ∉ Text.squeeze entry.1 :: seen := by simp [hother, h]
        rw [ih hnext, OrderedMap.get?_insert, if_neg hother]

/-- What the merged settings say about a name is told from its own settings. -/
theorem get?_merged (options : BanOptions) (key : String) :
    options.merged.get? key =
      settle (options.builtin? key) (settingsFor options.types.toList key) := by
  rw [merged, get?_foldl_addSetting List.not_mem_nil, get?_base]

/-! ## The last entry of each name -/

/-- The entries without those whose name comes again later, up to blanks. -/
def lastEntries : List (String × Option BanSetting) → List (String × Option BanSetting)
  | [] => []
  | entry :: entries =>
    if entries.any fun later => Text.squeeze later.1 = Text.squeeze entry.1 then
      lastEntries entries
    else entry :: lastEntries entries

/-- The options that keep, for each squeezed name, only the last configured entry. -/
def lastOnly (options : BanOptions) : BanOptions :=
  ⟨⟨lastEntries options.types.toList⟩, options.extendDefaults⟩

theorem settingsFor_eq_nil_iff :
    settingsFor entries key = [] ↔ ∀ entry ∈ entries, Text.squeeze entry.1 ≠ key := by
  simp [settingsFor, List.filter_eq_nil_iff]

/-- Of the settings for a name the last one is kept. -/
theorem settingsFor_lastEntries (entries : List (String × Option BanSetting)) (key : String) :
    settingsFor (lastEntries entries) key = (settingsFor entries key).getLast?.toList := by
  induction entries with
  | nil => rfl
  | cons entry entries ih =>
    rw [lastEntries]
    by_cases hkey : Text.squeeze entry.1 = key
    · rw [settingsFor_cons_of_eq hkey, List.getLast?_cons]
      split
      · rename_i hagain
        -- A later entry of the same name takes the place of this one.
        have hlater : settingsFor entries key ≠ [] := by
          intro hnil
          rcases List.any_eq_true.1 hagain with ⟨later, hmem, hsame⟩
          exact settingsFor_eq_nil_iff.1 hnil later hmem ((of_decide_eq_true hsame).trans hkey)
        rw [ih, List.getLast?_eq_some_getLast hlater]
        rfl
      · rename_i hlast
        have hnil : settingsFor entries key = [] := by
          refine settingsFor_eq_nil_iff.2 fun later hmem hsame => hlast ?_
          exact List.any_eq_true.2 ⟨later, hmem, decide_eq_true (hsame.trans hkey.symm)⟩
        rw [settingsFor_cons_of_eq hkey, ih, hnil]
        rfl
    · rw [settingsFor_cons_of_ne hkey]
      split
      · exact ih
      · rw [settingsFor_cons_of_ne hkey, ih]

theorem get?_merged_lastOnly (options : BanOptions) (key : String) :
    options.lastOnly.merged.get? key =
      settle (options.builtin? key) (settingsFor options.types.toList key).getLast?.toList := by
  rw [get?_merged, lastOnly, settingsFor_lastEntries]
  rfl

/-! ## Where the earlier entries matter -/

/-- A record leaves a field open that the record below it sets. -/
def LeavesOpen (old new : BanRecord) : Prop :=
  (new.message = none ∧ old.message.getD "" ≠ "") ∨ (new.fixWith = none ∧ old.fixWith ≠ none)

/-- A name with a built-in record that counts, configured more than once, and in the end with a
record that leaves a field of the built-in one open. -/
structure DropsBuiltin (options : BanOptions) (key : String) (old new : BanRecord) : Prop where
  builtin : options.builtin? key = some (some (.record old))
  repeated : 1 < (settingsFor options.types.toList key).length
  last : (settingsFor options.types.toList key).getLast? = some (some (.record new))
  leavesOpen : LeavesOpen old new

/-- A record alone bans as the merged record does, unless it leaves a field open. -/
theorem specOf?_record_eq_merge_iff {old new : BanRecord} :
    specOf? (some (.record new)) = specOf? (some (.record (old.merge new))) ↔
      ¬ LeavesOpen old new := by
  have hmessage : new.message.getD "" = (new.message <|> old.message).getD "" ↔
      ¬ (new.message = none ∧ old.message.getD "" ≠ "") := by
    cases new.message with
    | none => simp [@eq_comm String ""]
    | some text => simp
  have hfix : new.fixWith = (new.fixWith <|> old.fixWith) ↔
      ¬ (new.fixWith = none ∧ old.fixWith ≠ none) := by
    cases new.fixWith with
    | none => simpa using @eq_comm _ none old.fixWith
    | some fix => simp
  rw [specOf?, specOf?, Option.some.injEq, BanSpec.record.injEq, BanRecord.merge, hmessage, hfix,
    LeavesOpen, not_or]

/-- A name that is configured once at most is not affected by entries that come again. -/
theorem get?_ofOptions_of_not_repeated
    (h : ¬ 1 < (settingsFor options.types.toList key).length) :
    (BanTable.ofOptions options).get? key = (BanTable.ofOptions options.lastOnly).get? key := by
  have hkept : (settingsFor options.types.toList key).getLast?.toList =
      settingsFor options.types.toList key := by
    match hsettings : settingsFor options.types.toList key with
    | [] => rfl
    | [setting] => rfl
    | first :: second :: later => simp [hsettings] at h
  rw [get?_ofOptions_eq_bind, get?_ofOptions_eq_bind, get?_merged, get?_merged_lastOnly, hkept]

/-- Of several settings for a name the last one counts: on its own here, laid over the built-in
setting if it is the only one. -/
theorem get?_ofOptions_of_repeated {last : Option BanSetting}
    (h : 1 < (settingsFor options.types.toList key).length)
    (hlast : (settingsFor options.types.toList key).getLast? = some last) :
    (BanTable.ofOptions options).get? key = specOf? last ∧
      (BanTable.ofOptions options.lastOnly).get? key =
        specOf? (layOver (options.builtin? key) last) := by
  have hsettled : settle (options.builtin? key) (settingsFor options.types.toList key) =
      some last := by
    match hsettings : settingsFor options.types.toList key with
    | [] => simp [hsettings] at h
    | [setting] => simp [hsettings] at h
    | first :: second :: later =>
      rw [hsettings, List.getLast?_cons_cons] at hlast
      rw [settle, hlast]
      rfl
  rw [get?_ofOptions_eq_bind, get?_ofOptions_eq_bind, get?_merged, get?_merged_lastOnly, hsettled,
    hlast]
  exact ⟨rfl, rfl⟩

/-- The earlier entries of a name make a difference only where a built-in record is dropped. -/
theorem get?_ofOptions_eq_iff_of_repeated
    (h : 1 < (settingsFor options.types.toList key).length) :
    (BanTable.ofOptions options).get? key = (BanTable.ofOptions options.lastOnly).get? key ↔
      ∀ old new, ¬ options.DropsBuiltin key old new := by
  obtain ⟨last, hlast⟩ : ∃ last, (settingsFor options.types.toList key).getLast? = some last := by
    cases hsettings : settingsFor options.types.toList key with
    | nil => simp [hsettings] at h
    | cons first later => exact ⟨_, List.getLast?_cons⟩
  rcases get?_ofOptions_of_repeated h hlast with ⟨hall, honly⟩
  rw [hall, honly]
  by_cases hrecords : ∃ old new,
      options.builtin? key = some (some (.record old)) ∧ last = some (.record new)
  · rcases hrecords with ⟨old, new, hbuiltin, rfl⟩
    rw [hbuiltin, layOver, specOf?_record_eq_merge_iff]
    constructor
    · intro hopen old' new' hdrops
      have hold : old' = old := by simpa [hbuiltin, eq_comm] using hdrops.builtin
      have hnew : new' = new := by simpa [hlast, eq_comm] using hdrops.last
      exact hopen (hold ▸ hnew ▸ hdrops.leavesOpen)
    · intro hdrops hopen
      exact hdrops old new ⟨hbuiltin, h, hlast, hopen⟩
  · simp only [not_exists] at hrecords
    rw [layOver_of_not_records hrecords]
    constructor
    · intro _ old new hdrops
      exact hrecords old new ⟨hdrops.builtin, Option.some.inj (hlast.symm.trans hdrops.last)⟩
    · intro _
      rfl

/-- For every name the table is the one of the options that keep only the last entry of each
squeezed name, except where a built-in record is dropped: there the last configured record stands
alone, although it would be laid over the built-in one if the earlier entries were not written.
Without the built-in settings nothing is dropped. -/
theorem get?_ofOptions_lastOnly (options : BanOptions) :
    (∀ key, (BanTable.ofOptions options).get? key = (BanTable.ofOptions options.lastOnly).get? key ↔
      ∀ old new, ¬ options.DropsBuiltin key old new) ∧
    (options.extendDefaults = false → ∀ key old new, ¬ options.DropsBuiltin key old new) ∧
    (∀ key old new, options.DropsBuiltin key old new →
      (BanTable.ofOptions options).get? key = some (.record (new.message.getD "") new.fixWith) ∧
      (BanTable.ofOptions options.lastOnly).get? key =
        some (.record ((new.message.or old.message).getD "") (new.fixWith.or old.fixWith))) := by
  refine ⟨?_, ?_, ?_⟩
  · intro key
    by_cases hrepeated : 1 < (settingsFor options.types.toList key).length
    · exact get?_ofOptions_eq_iff_of_repeated hrepeated
    · have hsame := get?_ofOptions_of_not_repeated hrepeated
      exact ⟨fun _ old new hdrops => hrepeated hdrops.repeated, fun _ => hsame⟩
  · intro hextend key old new hdrops
    have hnone : options.builtin? key = none := by simp [builtin?, hextend]
    cases hnone.symm.trans hdrops.builtin
  · intro key old new hdrops
    rcases get?_ofOptions_of_repeated hdrops.repeated hdrops.last with ⟨hall, honly⟩
    rw [hdrops.builtin] at honly
    exact ⟨hall, by simpa [layOver, specOf?, BanRecord.merge] using honly⟩

/-- Two names configured twice: a built-in one, in the end as a record without a replacement, and a
new one, in the end as not banned. -/
def collidingOptions : BanOptions where
  types := ⟨[(" String", none), ("Foo", some (.message "first")),
    ("String", some (.record ⟨some "Name it", none⟩)), ("F oo", some (.flag false))]⟩
  extendDefaults := true

/-- The built-in replacement of `String` is dropped, and `Foo` is as its last entry says. -/
theorem get?_ofOptions_collidingOptions :
    collidingOptions.DropsBuiltin "String" ⟨some "Use string instead", some "string"⟩
        ⟨some "Name it", none⟩ ∧
      (BanTable.ofOptions collidingOptions).get? "String" = some (.record "Name it" none) ∧
      (BanTable.ofOptions collidingOptions.lastOnly).get? "String" =
        some (.record "Name it" (some "string")) ∧
      (∀ old new, ¬ collidingOptions.DropsBuiltin "Foo" old new) ∧
      (BanTable.ofOptions collidingOptions).get? "Foo" =
        (BanTable.ofOptions collidingOptions.lastOnly).get? "Foo" := by
  rcases get?_ofOptions_lastOnly collidingOptions with ⟨hiff, -, hvalues⟩
  have hdrops : collidingOptions.DropsBuiltin "String"
      ⟨some "Use string instead", some "string"⟩ ⟨some "Name it", none⟩ :=
    ⟨rfl, by decide, rfl, Or.inr ⟨rfl, by decide⟩⟩
  have hkept : ∀ old new, ¬ collidingOptions.DropsBuiltin "Foo" old new := by
    intro old new hdrops
    have hnone : collidingOptions.builtin? "Foo" = none := rfl
    cases hnone.symm.trans hdrops.builtin
  rcases hvalues "String" _ _ hdrops with ⟨hall, honly⟩
  exact ⟨hdrops, hall, honly, hkept, (hiff "Foo").2 hkept⟩

/-- An entry that is written over still takes the built-in replacement away. -/
theorem get?_ofOptions_depends_on_replaced :
    collidingOptions.lastOnly.types.toList =
        [("String", some (.record ⟨some "Name it", none⟩)), ("F oo", some (.flag false))] ∧
      (BanTable.ofOptions collidingOptions).get? "String" = some (.record "Name it" none) ∧
      (BanTable.ofOptions collidingOptions.lastOnly).get? "String" =
        some (.record "Name it" (some "string")) ∧
      (BanTable.ofOptions collidingOptions).get? "String" ≠
        (BanTable.ofOptions collidingOptions.lastOnly).get? "String" := by
  have hall : (BanTable.ofOptions collidingOptions).get? "String" =
      some (.record "Name it" none) := rfl
  have honly : (BanTable.ofOptions collidingOptions.lastOnly).get? "String" =
      some (.record "Name it" (some "string")) := rfl
  refine ⟨rfl, hall, honly, ?_⟩
  rw [hall, honly]
  decide

end BanOptions
end TypeNameLint
