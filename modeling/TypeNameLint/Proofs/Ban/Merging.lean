import TypeNameLint.Proofs.Ban.Collecting

/-!
# Merging — configured settings over the built-in ones

A table is made in three steps: settings are laid over the built-in ones under squeezed names, names
that are not banned are dropped, and the rest is collected under squeezed names once more. Here the
ban of every name is told from the two settings for it, whatever the other names are. This file
defines:

* `Stands`: the ban that a setting stands for;
* `Decides`: the ban of a name by its built-in and its configured setting;
* `BanOptions.builtin?`, `BanOptions.builtinNames`: the built-in settings that count;
* `BanOptions.layAll`: settings laid one after the other over a map.

The main result is `ofOptions_decides`.
-/

namespace TypeNameLint

/-! ## The ban of a name -/

/-- The ban that a setting stands for, where `none` in front is a name without a value. -/
inductive Stands : Option BanSetting → Option BanSpec → Prop
  | null : Stands none (some .bare)
  | banned : Stands (some (.flag true)) (some .bare)
  | unbanned : Stands (some (.flag false)) none
  | message (text : String) : Stands (some (.message text)) (some (.message text))
  | record (message fixWith : Option String) :
      Stands (some (.record ⟨message, fixWith⟩)) (some (.record (message.getD "") fixWith))

/-- What is decided about a name with a built-in and a configured setting, if there are any. The
configured one replaces the other, except that a record keeps the fields that the record over it
leaves open. -/
inductive Decides : Option (Option BanSetting) → Option (Option BanSetting) → Option BanSpec → Prop
  | unset : Decides none none none
  | builtin {setting : Option BanSetting} {ban : Option BanSpec} (stands : Stands setting ban) :
      Decides (some setting) none ban
  | configured {builtin : Option (Option BanSetting)} {setting : Option BanSetting}
      {ban : Option BanSpec} (stands : Stands setting ban)
      (apart : ∀ old new, ¬ (builtin = some (some (.record old)) ∧ setting = some (.record new))) :
      Decides builtin (some setting) ban
  | records {old new : BanRecord} {message fixWith : Option String}
      (message_eq : message = if new.message.isSome then new.message else old.message)
      (fixWith_eq : fixWith = if new.fixWith.isSome then new.fixWith else old.fixWith) :
      Decides (some (some (.record old))) (some (some (.record new)))
        (some (.record (message.getD "") fixWith))

theorem stands_specOf? (setting : Option BanSetting) : Stands setting (specOf? setting) := by
  cases setting with
  | none => exact Stands.null
  | some setting =>
    cases setting with
    | flag banned =>
      cases banned with
      | false => exact Stands.unbanned
      | true => exact Stands.banned
    | message text => exact Stands.message text
    | record fields => exact Stands.record fields.message fields.fixWith

namespace BanOptions

variable {options : BanOptions} {settings : BanSettings} {key : String}
variable {uppers entries : List (String × Option BanSetting)}

/-- Only records are merged; anything else replaces what is there. -/
theorem layOver_of_not_records {base : Option (Option BanSetting)} {setting : Option BanSetting}
    (h : ∀ old new, ¬ (base = some (some (.record old)) ∧ setting = some (.record new))) :
    layOver base setting = setting := by
  unfold layOver
  split
  · exact absurd ⟨rfl, rfl⟩ (h _ _)
  · rfl

/-- What comes of a setting laid over another one is what is decided about the two. -/
theorem decides_layOver (builtin : Option (Option BanSetting)) (setting : Option BanSetting) :
    Decides builtin (some setting) (specOf? (layOver builtin setting)) := by
  by_cases hrecords : ∃ old new, builtin = some (some (.record old)) ∧ setting = some (.record new)
  · rcases hrecords with ⟨old, new, rfl, rfl⟩
    have hfield : ∀ upper base : Option String,
        (upper <|> base) = if upper.isSome then upper else base := by
      intro upper base
      cases upper <;> rfl
    exact Decides.records (hfield new.message old.message) (hfield new.fixWith old.fixWith)
  · simp only [not_exists] at hrecords
    rw [layOver_of_not_records hrecords]
    exact Decides.configured (stands_specOf? setting) hrecords

/-! ## Settings laid over a map -/

/-- The map with settings laid over it one after the other. -/
def layAll (settings : BanSettings) (uppers : List (String × Option BanSetting)) : BanSettings :=
  uppers.foldl (fun m upper => m.insert upper.1 (layOver (m.get? upper.1) upper.2)) settings

/-- As long as no squeezed name comes twice, every setting is laid over those before it. -/
theorem foldl_addSetting (seen : List String) (settings : BanSettings)
    (hnodup : (seen ++ entries.map fun entry => Text.squeeze entry.1).Nodup) :
    (entries.foldl addSetting (seen, settings)).2 =
      layAll settings (entries.map fun entry => (Text.squeeze entry.1, entry.2)) := by
  induction entries generalizing seen settings with
  | nil => rfl
  | cons entry entries ih =>
    have hunseen : seen.contains (Text.squeeze entry.1) = false := by
      rw [← Bool.not_eq_true, List.contains_iff_mem]
      intro hmem
      exact (List.nodup_append.1 hnodup).2.2 _ hmem _ (by simp) rfl
    have hnext : ((Text.squeeze entry.1 :: seen) ++
        entries.map fun entry => Text.squeeze entry.1).Nodup := by
      refine (List.perm_middle.nodup_iff).1 ?_
      simpa using hnodup
    rw [List.foldl_cons, addSetting]
    simp only [hunseen, Bool.false_eq_true, if_false]
    exact ih _ _ hnext

/-- A name is looked up in what was there before and in the one setting laid over it. -/
theorem get?_layAll (settings : BanSettings) (hnodup : (uppers.map Prod.fst).Nodup) (key : String) :
    (layAll settings uppers).get? key =
      match uppers.lookup key with
      | none => settings.get? key
      | some upper => some (layOver (settings.get? key) upper) := by
  induction uppers generalizing settings with
  | nil => rfl
  | cons upper uppers ih =>
    rcases upper with ⟨name, setting⟩
    rcases List.nodup_cons.1 hnodup with ⟨hfresh, hrest⟩
    rw [layAll, List.foldl_cons, ← layAll, ih _ hrest, OrderedMap.get?_insert]
    by_cases hkey : key = name
    · subst hkey
      have hnone : uppers.lookup key = none := OrderedMap.lookup_eq_none_iff_not_mem.2 hfresh
      simp [hnone]
    · have hne : (key == name) = false := by simpa using hkey
      simp [List.lookup_cons, hkey, hne]

/-- Names keep their places, and new ones come behind them in order. -/
theorem keys_layAll (hkeys : settings.keys.Nodup) (hnodup : (uppers.map Prod.fst).Nodup) :
    (layAll settings uppers).keys =
      settings.keys ++ (uppers.map Prod.fst).filter fun name => name ∉ settings.keys := by
  induction uppers generalizing settings with
  | nil => simp [layAll]
  | cons upper uppers ih =>
    rcases List.nodup_cons.1 hnodup with ⟨hfresh, hrest⟩
    have hnext := OrderedMap.nodup_keys_insert hkeys upper.1
      (layOver (settings.get? upper.1) upper.2)
    rw [layAll, List.foldl_cons, ← layAll, ih hnext hrest]
    by_cases hmem : upper.1 ∈ settings.keys
    · rw [OrderedMap.keys_insert_of_mem hkeys hmem]
      simp [hmem]
    · rw [OrderedMap.keys_insert_of_not_mem hmem]
      -- The new name does not come again, so it makes no difference to the names behind it.
      have hothers : (uppers.map Prod.fst).filter (fun name => name ∉ settings.keys ++ [upper.1]) =
          (uppers.map Prod.fst).filter fun name => name ∉ settings.keys := by
        refine List.filter_congr fun name hname => ?_
        have hne : name ≠ upper.1 := fun heq => hfresh (heq ▸ hname)
        simp [hne]
      rw [hothers]
      simp [hmem]

/-! ## The settings in effect -/

/-- The built-in setting of a name, if the built-in ones count. -/
def builtin? (options : BanOptions) (key : String) : Option (Option BanSetting) :=
  if options.extendDefaults then builtinSettings.get? key else none

/-- The names with a built-in setting that counts, in order. -/
def builtinNames (options : BanOptions) : List String :=
  if options.extendDefaults then builtinSettings.keys else []

theorem squeeze_of_mem_builtinSettings :
    ∀ entry ∈ builtinSettings.toList, Text.squeeze entry.1 = entry.1 := by
  decide +kernel

theorem nodup_keys_builtinSettings : builtinSettings.keys.Nodup := by
  decide +kernel

/-- The built-in names differ and have no blanks, so they stay as they are. -/
theorem base_eq (options : BanOptions) :
    options.base = if options.extendDefaults then builtinSettings else .empty := by
  have hsame : (builtinSettings.toList.map fun entry => (Text.squeeze entry.1, entry.2)) =
      builtinSettings.toList :=
    squeezeKeys_eq_self squeeze_of_mem_builtinSettings
  have hlist : (OrderedMap.ofList builtinSettings.toList).toList = builtinSettings.toList :=
    OrderedMap.toList_ofList nodup_keys_builtinSettings
  rw [base, hsame]
  split
  · exact congrArg OrderedMap.mk hlist
  · rfl

theorem get?_base (options : BanOptions) (key : String) :
    options.base.get? key = options.builtin? key := by
  rw [base_eq, builtin?]
  split <;> rfl

theorem keys_base (options : BanOptions) : options.base.keys = options.builtinNames := by
  rw [base_eq, builtinNames]
  split <;> rfl

theorem nodup_builtinNames (options : BanOptions) : options.builtinNames.Nodup := by
  rw [builtinNames]
  split
  · exact nodup_keys_builtinSettings
  · exact List.nodup_nil

theorem squeeze_of_mem_builtinNames (options : BanOptions) :
    ∀ name ∈ options.builtinNames, Text.squeeze name = name := by
  intro name hname
  rw [builtinNames] at hname
  split at hname
  · rcases List.mem_map.1 hname with ⟨entry, hentry, rfl⟩
    exact squeeze_of_mem_builtinSettings entry hentry
  · cases hname

/-! ## Names of the merged settings -/

/-- What holds of the built-in settings and is kept by settings under squeezed names holds of the
merged settings. -/
theorem merged_induction {motive : BanSettings → Prop} (base : motive options.base)
    (insert : ∀ settings name setting, motive settings →
      motive (settings.insert (Text.squeeze name) setting)) : motive options.merged := by
  have hfold : ∀ (entries : List (String × Option BanSetting)) (state : List String × BanSettings),
      motive state.2 → motive (entries.foldl addSetting state).2 := by
    intro entries
    induction entries with
    | nil =>
      intro state hstate
      exact hstate
    | cons entry entries ih =>
      intro state hstate
      refine ih _ ?_
      rw [addSetting]
      split
      · exact insert _ _ _ hstate
      · exact insert _ _ _ hstate
  exact hfold options.types.toList ([], options.base) base

theorem nodup_keys_merged (options : BanOptions) : options.merged.keys.Nodup := by
  refine merged_induction (motive := fun settings => settings.keys.Nodup) ?_ ?_
  · rw [keys_base]
    exact nodup_builtinNames options
  · intro settings name setting hnodup
    exact OrderedMap.nodup_keys_insert hnodup _ setting

theorem squeeze_of_mem_keys_merged (options : BanOptions) :
    ∀ name ∈ options.merged.keys, Text.squeeze name = name := by
  refine merged_induction
    (motive := fun settings => ∀ name ∈ settings.keys, Text.squeeze name = name) ?_ ?_
  · rw [keys_base]
    exact squeeze_of_mem_builtinNames options
  · intro settings written setting hsqueezed name hname
    rcases OrderedMap.mem_keys_insert.1 hname with rfl | hname
    · exact Text.squeeze_squeeze written
    · exact hsqueezed name hname

end BanOptions

/-! ## The table -/

namespace BanTable

variable {settings : BanSettings}

/-- The bans of a list of settings, without the names that are not banned. -/
def bansOf (entries : List (String × Option BanSetting)) : List (String × BanSpec) :=
  entries.filterMap fun entry => (specOf? entry.2).map fun spec => (entry.1, spec)

theorem map_fst_bansOf_sublist (entries : List (String × Option BanSetting)) :
    ((bansOf entries).map Prod.fst).Sublist (entries.map Prod.fst) := by
  induction entries with
  | nil => exact List.Sublist.refl []
  | cons entry entries ih =>
    cases hspec : specOf? entry.2 with
    | none => simpa [bansOf, hspec] using ih.cons entry.1
    | some spec => simpa [bansOf, hspec] using ih.cons_cons entry.1

theorem lookup_bansOf {entries : List (String × Option BanSetting)}
    (hnodup : (entries.map Prod.fst).Nodup) (key : String) :
    (bansOf entries).lookup key = (entries.lookup key).bind specOf? := by
  induction entries with
  | nil => rfl
  | cons entry entries ih =>
    rcases entry with ⟨name, setting⟩
    rcases List.nodup_cons.1 hnodup with ⟨hfresh, hrest⟩
    have htail := ih hrest
    by_cases hkey : key = name
    · -- A name that is dropped here does not come again.
      subst hkey
      have hnone : entries.lookup key = none := OrderedMap.lookup_eq_none_iff_not_mem.2 hfresh
      rw [hnone] at htail
      cases hspec : specOf? setting with
      | none => simpa [bansOf, hspec] using htail
      | some spec => simp [bansOf, hspec]
    · have hne : (key == name) = false := by simpa using hkey
      cases hspec : specOf? setting with
      | none => simpa [bansOf, hspec, List.lookup_cons, hne] using htail
      | some spec => simpa [bansOf, hspec, List.lookup_cons, hne] using htail

/-- Collecting bans under squeezed names that differ changes nothing. -/
theorem toList_ofSettings (hnodup : settings.keys.Nodup)
    (hsqueezed : ∀ name ∈ settings.keys, Text.squeeze name = name) :
    (ofSettings settings).toList = bansOf settings.toList := by
  have hsublist := map_fst_bansOf_sublist settings.toList
  refine toList_build_of_squeezed (hnodup.sublist hsublist) fun ban hban => ?_
  exact hsqueezed ban.1 (hsublist.subset (List.mem_map_of_mem hban))

theorem get?_ofSettings (hnodup : settings.keys.Nodup)
    (hsqueezed : ∀ name ∈ settings.keys, Text.squeeze name = name) (key : String) :
    (ofSettings settings).get? key = (settings.get? key).bind specOf? := by
  have hentries := toList_ofSettings hnodup hsqueezed
  calc
    (ofSettings settings).get? key = (ofSettings settings).toList.lookup key := rfl
    _ = (bansOf settings.toList).lookup key := by rw [hentries]
    _ = (settings.get? key).bind specOf? := lookup_bansOf hnodup key

/-- The bans come in the order of the names of the settings. -/
theorem toList_ofSettings_eq_filterMap (hnodup : settings.keys.Nodup)
    (hsqueezed : ∀ name ∈ settings.keys, Text.squeeze name = name) :
    (ofSettings settings).toList =
      settings.keys.filterMap fun name =>
        ((ofSettings settings).get? name).map fun spec => (name, spec) := by
  rw [toList_ofSettings hnodup hsqueezed, bansOf, OrderedMap.keys, List.filterMap_map]
  refine List.filterMap_congr fun entry hentry => ?_
  have hfound : settings.get? entry.1 = some entry.2 :=
    OrderedMap.lookup_eq_some_of_mem hnodup hentry
  simp [get?_ofSettings hnodup hsqueezed, hfound]

end BanTable

/-! ## The table of options -/

namespace BanOptions

variable {options : BanOptions} {key : String}

/-- The table holds what the merged settings stand for. -/
theorem get?_ofOptions_eq_bind (options : BanOptions) (key : String) :
    (BanTable.ofOptions options).get? key = (options.merged.get? key).bind specOf? :=
  BanTable.get?_ofSettings (nodup_keys_merged options) (squeeze_of_mem_keys_merged options) key

/-- A name with a blank in it is never banned, as all names of the table are squeezed. -/
theorem get?_ofOptions_of_blank (hblank : ∃ c ∈ key.toList, Text.isBlank c = true) :
    (BanTable.ofOptions options).get? key = none := by
  have habsent : key ∉ options.merged.keys := by
    intro hmem
    rcases hblank with ⟨c, hc, hblank⟩
    have hplain := Text.squeeze_eq_self_iff.1 (squeeze_of_mem_keys_merged options key hmem) c hc
    rw [hblank] at hplain
    cases hplain
  have hnone : options.merged.get? key = none :=
    OrderedMap.lookup_eq_none_iff_not_mem.2 habsent
  rw [get?_ofOptions_eq_bind, hnone]
  rfl

/-- The configured settings under squeezed names, in document order. -/
def configured (options : BanOptions) : List (String × Option BanSetting) :=
  options.types.toList.map fun entry => (Text.squeeze entry.1, entry.2)

theorem map_fst_configured (options : BanOptions) :
    options.configured.map Prod.fst = options.types.keys.map Text.squeeze := by
  rw [configured, OrderedMap.keys, List.map_map, List.map_map]
  rfl

section Distinct

variable (hdistinct : (options.types.keys.map Text.squeeze).Nodup)
include hdistinct

theorem nodup_configured : (options.configured.map Prod.fst).Nodup := by
  rw [map_fst_configured]
  exact hdistinct

/-- The configured settings are laid over the built-in ones, each under its squeezed name. -/
theorem merged_eq_layAll : options.merged = layAll options.base options.configured := by
  refine foldl_addSetting [] options.base ?_
  have hnames : (options.types.toList.map fun entry => Text.squeeze entry.1) =
      options.types.keys.map Text.squeeze := by
    rw [OrderedMap.keys, List.map_map]
    rfl
  rw [List.nil_append, hnames]
  exact hdistinct

theorem keys_merged :
    options.merged.keys = options.builtinNames ++
      (options.types.keys.map Text.squeeze).filter fun name => name ∉ options.builtinNames := by
  have hbase : options.base.keys.Nodup := by
    rw [keys_base]
    exact nodup_builtinNames options
  rw [merged_eq_layAll hdistinct, keys_layAll hbase (nodup_configured hdistinct), keys_base,
    map_fst_configured]

/-- The ban of a name comes from its built-in setting and the one laid over it. -/
theorem get?_ofOptions (key : String) :
    (BanTable.ofOptions options).get? key =
      match options.configured.lookup key with
      | none => (options.builtin? key).bind specOf?
      | some setting => specOf? (layOver (options.builtin? key) setting) := by
  rw [get?_ofOptions_eq_bind, merged_eq_layAll hdistinct, get?_layAll _ (nodup_configured hdistinct),
    get?_base]
  cases options.configured.lookup key with
  | none => rfl
  | some setting => rfl

/-- What a table says about a name with a configured setting. -/
theorem decides_of_mem {entry : String × Option BanSetting} (hentry : entry ∈ options.types.toList)
    (hkey : Text.squeeze entry.1 = key) :
    Decides (options.builtin? key) (some entry.2) ((BanTable.ofOptions options).get? key) := by
  have hmem : (key, entry.2) ∈ options.configured := by
    rw [configured, List.mem_map]
    exact ⟨entry, hentry, by rw [hkey]⟩
  have hfound : options.configured.lookup key = some entry.2 :=
    OrderedMap.lookup_eq_some_of_mem (nodup_configured hdistinct) hmem
  rw [get?_ofOptions hdistinct, hfound]
  exact decides_layOver (options.builtin? key) entry.2

/-- What a table says about a name that is not configured. -/
theorem decides_of_forall_ne (hkey : ∀ entry ∈ options.types.toList, Text.squeeze entry.1 ≠ key) :
    Decides (options.builtin? key) none ((BanTable.ofOptions options).get? key) := by
  have hnone : options.configured.lookup key = none := by
    refine OrderedMap.lookup_eq_none_iff_not_mem.2 ?_
    rw [configured, List.map_map, List.mem_map]
    rintro ⟨entry, hentry, heq⟩
    exact hkey entry hentry heq
  rw [get?_ofOptions hdistinct, hnone]
  cases options.builtin? key with
  | none => exact Decides.unset
  | some setting => exact Decides.builtin (stands_specOf? setting)

end Distinct

/-- The table of options whose names differ by more than blanks: every name without blanks is banned
as its built-in and its configured setting decide, and the banned names are listed once each, the
built-in ones in their order before the others in document order. -/
theorem ofOptions_decides (options : BanOptions)
    (hdistinct : (options.types.keys.map Text.squeeze).Nodup) :
    (∀ key, (∃ c ∈ key.toList, Text.isBlank c = true) →
      (BanTable.ofOptions options).get? key = none) ∧
    (∀ key, (∀ c ∈ key.toList, Text.isBlank c = false) →
      (∀ entry ∈ options.types.toList, Text.squeeze entry.1 = key →
        Decides (options.builtin? key) (some entry.2) ((BanTable.ofOptions options).get? key)) ∧
      ((∀ entry ∈ options.types.toList, Text.squeeze entry.1 ≠ key) →
        Decides (options.builtin? key) none ((BanTable.ofOptions options).get? key))) ∧
    ((BanTable.ofOptions options).toList.map Prod.fst).Nodup ∧
    (BanTable.ofOptions options).toList =
      (options.builtinNames ++ (options.types.keys.map Text.squeeze).filter
        fun name => name ∉ options.builtinNames).filterMap
          fun name => ((BanTable.ofOptions options).get? name).map fun spec => (name, spec) := by
  have hkeys := nodup_keys_merged options
  have hsqueezed := squeeze_of_mem_keys_merged options
  refine ⟨?_, ?_, ?_, ?_⟩
  · intro key hblank
    exact get?_ofOptions_of_blank hblank
  · intro key _
    refine ⟨?_, ?_⟩
    · intro entry hentry hkey
      exact decides_of_mem hdistinct hentry hkey
    · intro hkey
      exact decides_of_forall_ne hdistinct hkey
  · rw [BanTable.ofOptions, BanTable.toList_ofSettings hkeys hsqueezed]
    exact hkeys.sublist (BanTable.map_fst_bansOf_sublist _)
  · have hlist := BanTable.toList_ofSettings_eq_filterMap hkeys hsqueezed
    rw [keys_merged hdistinct] at hlist
    exact hlist

/-- A record over a built-in record, a built-in name that is not banned, and a new name. -/
def sampleOptions : BanOptions where
  types := ⟨[(" Str ing", some (.record ⟨none, some ""⟩)), ("Number", some (.flag false)),
    ("Buffer", none)]⟩
  extendDefaults := true

/-- The built-in message stays, the empty replacement counts, and the places are kept. -/
theorem ofOptions_sampleOptions :
    (sampleOptions.types.keys.map Text.squeeze).Nodup ∧
      Decides (sampleOptions.builtin? "String") (some (some (.record ⟨none, some ""⟩)))
        ((BanTable.ofOptions sampleOptions).get? "String") ∧
      (BanTable.ofOptions sampleOptions).get? "String" =
        some (.record "Use string instead" (some "")) ∧
      (BanTable.ofOptions sampleOptions).get? "Str ing" = none ∧
      (BanTable.ofOptions sampleOptions).toList.map Prod.fst =
        ["String", "Boolean", "Symbol", "Function", "Object", "\x7b\x7d", "Buffer"] := by
  have hdistinct : (sampleOptions.types.keys.map Text.squeeze).Nodup := by decide +kernel
  have hplain : ("String".toList.all fun c => !Text.isBlank c) = true := by decide +kernel
  have hspaced : ("Str ing".toList.any Text.isBlank) = true := by decide +kernel
  rcases ofOptions_decides sampleOptions hdistinct with ⟨hblank, hdecides, -, -⟩
  have hconfigured := (hdecides "String" (by simpa using hplain)).1 _ List.mem_cons_self
    (by decide +kernel)
  refine ⟨hdistinct, hconfigured, ?_, hblank "Str ing" (List.any_eq_true.1 hspaced), ?_⟩
  · decide +kernel
  · decide +kernel

end BanOptions
end TypeNameLint
