import TypeNameLint.Proofs.Config.Sections

/-!
# Shapes — how the options of the rule can be written

The options are read from structured data. Here the shapes that are accepted are told as a grammar,
and reading comes to a result exactly for what the grammar has, and to that result. This file
defines:

* `SpellsText`, `SpellsField`, `SpellsRecord`, `SpellsSetting`: values of type names;
* `SpellsTypes`, `SpellsExtension`, `SpellsOptions`: the options.

The main results are `BanOptions.ofConfigured_eq_ok_iff` and `Config.banRule_spelled`.
-/

namespace TypeNameLint

/-! ## The grammar -/

/-- A text, or a date that stands for its text. -/
inductive SpellsText : Value → String → Prop
  | text (s : String) : SpellsText (.text s) s
  | date (moment : String) : SpellsText (.date moment) moment

/-- A field of a record, which can have several names: it is left open, or one entry gives it. -/
inductive SpellsField (names : List String) (entries : List (String × Value)) :
    Option String → Prop
  | absent (absent : ∀ entry ∈ entries, entry.1 ∉ names) : SpellsField names entries none
  | present {key : String} {value : Value} {s : String} (mem : (key, value) ∈ entries)
      (named : key ∈ names) (alone : ∀ entry ∈ entries, entry.1 ∈ names → entry.1 = key)
      (spells_text : SpellsText value s) : SpellsField names entries (some s)

/-- A record: a table of its fields, or a list of at most two texts, the message first. -/
inductive SpellsRecord : Value → BanRecord → Prop
  | table {entries : List (String × Value)} {message fixWith : Option String}
      (known : ∀ entry ∈ entries, entry.1 ∈ ["message", "fixWith", "fix_with"])
      (spells_message : SpellsField ["message"] entries message)
      (spells_fixWith : SpellsField ["fixWith", "fix_with"] entries fixWith) :
      SpellsRecord (.table entries) ⟨message, fixWith⟩
  | list {items : List Value} {texts : List String} (short : texts.length ≤ 2)
      (spells_texts : List.Forall₂ SpellsText items texts) :
      SpellsRecord (.list items) ⟨texts[0]?, texts[1]?⟩

/-- The value of a type name. -/
inductive SpellsSetting : Value → BanSetting → Prop
  | flag (banned : Bool) : SpellsSetting (.boolean banned) (.flag banned)
  | message {value : Value} {s : String} (spells_text : SpellsText value s) :
      SpellsSetting value (.message s)
  | record {value : Value} {fields : BanRecord} (spells_fields : SpellsRecord value fields) :
      SpellsSetting value (.record fields)

/-- A type name with its value. -/
def SpellsEntry (entry : String × Value) (setting : String × Option BanSetting) : Prop :=
  setting.1 = entry.1 ∧ ∃ spelled, setting.2 = some spelled ∧ SpellsSetting entry.2 spelled

/-- The type names with their values, in the order of the document. -/
inductive SpellsTypes (entries : List (String × Value)) :
    List (String × Option BanSetting) → Prop
  | absent (absent : "types" ∉ entries.map Prod.fst) : SpellsTypes entries []
  | present {named : List (String × Value)} {settings : List (String × Option BanSetting)}
      (mem : ("types", .table named) ∈ entries)
      (spells_settings : List.Forall₂ SpellsEntry named settings) : SpellsTypes entries settings

/-- Whether the built-in names count, as they do unless something else is said. -/
inductive SpellsExtension (entries : List (String × Value)) : Bool → Prop
  | absent (absent : "extend_defaults" ∉ entries.map Prod.fst) : SpellsExtension entries true
  | present {b : Bool} (mem : ("extend_defaults", .boolean b) ∈ entries) : SpellsExtension entries b

/-- The options of the rule. -/
structure SpellsOptions (entries : List (String × Value)) (options : BanOptions) : Prop where
  known : ∀ entry ∈ entries, entry.1 ∈ ["types", "extend_defaults"]
  types : SpellsTypes entries options.types.toList
  extension : SpellsExtension entries options.extendDefaults

variable {value : Value} {entries : List (String × Value)} {names : List String}

/-! ## Records -/

namespace BanRecord

/-- A value is read as a text exactly if it spells one. -/
theorem textOrNull?_eq_some_iff (htoml : value.IsToml) {field : Option String} :
    textOrNull? value.withDatesAsText = some field ↔ ∃ s, SpellsText value s ∧ field = some s := by
  constructor
  · intro h
    cases htoml with
    | text s => exact ⟨s, .text s, (Option.some.inj h).symm⟩
    | date moment => exact ⟨moment, .date moment, (Option.some.inj h).symm⟩
    | boolean | integer | float => cases h
    | list => simp [textOrNull?] at h
    | table => simp [textOrNull?] at h
  · rintro ⟨s, hspells, rfl⟩
    cases hspells with
    | text => rfl
    | date => rfl

theorem spellsField_iff (hnodup : (entries.map Prod.fst).Nodup) {field : Option String} :
    SpellsField names entries field ↔
      ((entries.filter fun entry => names.contains entry.1) = [] ∧ field = none) ∨
        ∃ entry s, (entries.filter fun entry => names.contains entry.1) = [entry] ∧
          SpellsText entry.2 s ∧ field = some s := by
  simp only [OrderedMap.filter_key_eq_singleton_iff hnodup, List.filter_eq_nil_iff,
    List.contains_iff_mem]
  constructor
  · intro h
    cases h with
    | absent habsent => exact Or.inl ⟨habsent, rfl⟩
    | present hmem hnamed halone htext =>
      exact Or.inr ⟨_, _, ⟨hmem, hnamed, halone⟩, htext, rfl⟩
  · rintro (⟨habsent, rfl⟩ | ⟨⟨key, value⟩, s, ⟨hmem, hnamed, halone⟩, htext, rfl⟩)
    · exact .absent habsent
    · exact .present hmem hnamed halone htext

theorem single?_eq_some_iff (htoml : (Value.table entries).IsToml) {field : Option String} :
    single? names (entries.map Value.entryWithDatesAsText) = some field ↔
      SpellsField names entries field := by
  cases htoml with
  | table hnodup hvalues =>
    have hfilter : ((entries.map Value.entryWithDatesAsText).filter fun entry =>
        names.contains entry.1) =
          (entries.filter fun entry => names.contains entry.1).map Value.entryWithDatesAsText := by
      rw [List.filter_map]
      rfl
    rw [spellsField_iff hnodup, single?, hfilter]
    -- Two entries of one field are too many.
    cases hnamed : entries.filter fun entry => names.contains entry.1 with
    | nil => simp [eq_comm]
    | cons entry others =>
      cases others with
      | cons second others => simp
      | nil =>
        have hmem : entry ∈ entries := List.mem_of_mem_filter (hnamed ▸ List.mem_cons_self)
        simpa [Value.entryWithDatesAsText] using textOrNull?_eq_some_iff (hvalues entry hmem)

theorem spellsRecord_list_iff {items : List Value} {record : BanRecord} :
    SpellsRecord (.list items) record ↔
      ∃ texts : List String, texts.length ≤ 2 ∧ List.Forall₂ SpellsText items texts ∧
        record = ⟨texts[0]?, texts[1]?⟩ := by
  constructor
  · intro h
    cases h with
    | list hshort htexts => exact ⟨_, hshort, htexts, rfl⟩
  · rintro ⟨texts, hshort, htexts, rfl⟩
    exact .list hshort htexts

/-- A list is read item by item, and it must not have more items than a record has fields. -/
theorem ofValue?_list_eq_some_iff {items : List Value} (htoml : ∀ item ∈ items, item.IsToml)
    {record : BanRecord} :
    ofValue? (Value.list items).withDatesAsText = some record ↔
      SpellsRecord (.list items) record := by
  rw [spellsRecord_list_iff, Value.withDatesAsText_list]
  -- A list is read by its length, so there is a case for each length that the reader tells apart.
  match items, htoml with
  | [], _ => simp [ofValue?, eq_comm]
  | [message], htoml =>
    have hmessage := @textOrNull?_eq_some_iff message (htoml message (by simp))
    simp only [List.map_cons, List.map_nil, ofValue?, Option.map_eq_some_iff, hmessage,
      List.forall₂_cons_left_iff, List.forall₂_nil_left_iff]
    constructor
    · rintro ⟨_, ⟨s, hs, rfl⟩, rfl⟩
      exact ⟨[s], by simp, ⟨s, [], hs, rfl, rfl⟩, rfl⟩
    · rintro ⟨_, -, ⟨s, _, hs, rfl, rfl⟩, rfl⟩
      exact ⟨some s, ⟨s, hs, rfl⟩, rfl⟩
  | [message, fixWith], htoml =>
    have hmessage := @textOrNull?_eq_some_iff message (htoml message (by simp))
    have hfixWith := @textOrNull?_eq_some_iff fixWith (htoml fixWith (by simp))
    simp only [List.map_cons, List.map_nil, ofValue?, Option.bind_eq_bind, Option.bind_eq_some_iff,
      hmessage, hfixWith, List.forall₂_cons_left_iff, List.forall₂_nil_left_iff]
    constructor
    · rintro ⟨_, ⟨s, hs, rfl⟩, _, ⟨t, ht, rfl⟩, hrecord⟩
      obtain rfl := Option.some.inj hrecord
      exact ⟨[s, t], by simp, ⟨s, [t], hs, ⟨t, [], ht, rfl, rfl⟩, rfl⟩, rfl⟩
    · rintro ⟨_, -, ⟨s, _, hs, ⟨t, _, ht, rfl, rfl⟩, rfl⟩, rfl⟩
      exact ⟨some s, ⟨s, hs, rfl⟩, some t, ⟨t, ht, rfl⟩, rfl⟩
  | _ :: _ :: _ :: _, _ =>
    constructor
    · intro h
      simp [ofValue?] at h
    · rintro ⟨texts, hshort, htexts, -⟩
      have hlength := htexts.length_eq
      simp only [List.length_cons] at hlength
      omega

theorem ofValue?_table_eq_some_iff (htoml : (Value.table entries).IsToml) {record : BanRecord} :
    ofValue? (Value.table entries).withDatesAsText = some record ↔
      SpellsRecord (.table entries) record := by
  have hknown : ((entries.map Value.entryWithDatesAsText).all fun entry =>
      ("message" :: fixNames).contains entry.1) = true ↔
        ∀ entry ∈ entries, entry.1 ∈ ["message", "fixWith", "fix_with"] := by
    simp only [List.all_map, List.all_eq_true, Function.comp, List.contains_iff_mem]
    rfl
  rw [Value.withDatesAsText_table, ofValue?]
  split
  · rename_i hall
    simp only [Option.bind_eq_bind, Option.bind_eq_some_iff, single?_eq_some_iff htoml]
    constructor
    · rintro ⟨message, hmessage, fixWith, hfixWith, hrecord⟩
      obtain rfl := Option.some.inj hrecord
      exact .table (hknown.1 hall) hmessage hfixWith
    · intro h
      cases h with
      | table _ hmessage hfixWith => exact ⟨_, hmessage, _, hfixWith, rfl⟩
  · rename_i hall
    constructor
    · intro h
      cases h
    · intro h
      cases h with
      | table known _ _ => exact absurd (hknown.2 known) hall

/-- A value is read as a record exactly if it spells one. -/
theorem ofValue?_eq_some_iff (htoml : value.IsToml) {record : BanRecord} :
    ofValue? value.withDatesAsText = some record ↔ SpellsRecord value record := by
  cases htoml with
  | list hitems => exact ofValue?_list_eq_some_iff hitems
  | table hnodup hvalues => exact ofValue?_table_eq_some_iff (.table hnodup hvalues)
  | boolean | integer | float | text | date =>
    constructor
    · intro h
      cases h
    · intro h
      cases h

end BanRecord

/-! ## Settings -/

namespace BanSetting

/-- A value is read as a setting exactly if it spells one. -/
theorem ofValue?_eq_some_iff (htoml : value.IsToml) {setting : BanSetting} :
    ofValue? value.withDatesAsText = some setting ↔ SpellsSetting value setting := by
  have hrecord := fun fields => @BanRecord.ofValue?_eq_some_iff _ htoml fields
  constructor
  · intro h
    cases htoml with
    | boolean b =>
      obtain rfl : BanSetting.flag b = setting := Option.some.inj h
      exact .flag b
    | text s =>
      obtain rfl : BanSetting.message s = setting := Option.some.inj h
      exact .message (.text s)
    | date moment =>
      obtain rfl : BanSetting.message moment = setting := Option.some.inj h
      exact .message (.date moment)
    | integer | float => cases h
    -- What is neither a flag nor a text can still be a record.
    | list hitems =>
      rw [Value.withDatesAsText_list] at h hrecord
      rcases Option.map_eq_some_iff.1 h with ⟨fields, hfields, rfl⟩
      exact .record ((hrecord fields).1 hfields)
    | table hnodup hvalues =>
      rw [Value.withDatesAsText_table] at h hrecord
      rcases Option.map_eq_some_iff.1 h with ⟨fields, hfields, rfl⟩
      exact .record ((hrecord fields).1 hfields)
  · intro h
    cases h with
    | flag banned => rfl
    | message htext =>
      cases htext with
      | text => rfl
      | date => rfl
    | record hfields =>
      have hread := (hrecord _).2 hfields
      cases hfields with
      | table =>
        rw [Value.withDatesAsText_table] at hread ⊢
        exact Option.map_eq_some_iff.2 ⟨_, hread, rfl⟩
      | list =>
        rw [Value.withDatesAsText_list] at hread ⊢
        exact Option.map_eq_some_iff.2 ⟨_, hread, rfl⟩

theorem ofValue_eq_ok_iff (htoml : value.IsToml) {setting : Option BanSetting} :
    ofValue value.withDatesAsText = .ok setting ↔
      ∃ spelled, setting = some spelled ∧ SpellsSetting value spelled := by
  have hread : ofValue value.withDatesAsText = .ok setting ↔
      ∃ spelled, ofValue? value.withDatesAsText = some spelled ∧ setting = some spelled := by
    unfold ofValue
    split
    -- A missing value would be accepted, but no document spells one.
    · rename_i hnull
      exact absurd hnull (Value.withDatesAsText_ne_null htoml)
    · cases ofValue? value.withDatesAsText <;> simp [misread, eq_comm]
  rw [hread]
  simp only [ofValue?_eq_some_iff htoml, and_comm]

end BanSetting

/-! ## Type names -/

/-- Settings are read entry by entry and inserted under their keys. -/
theorem banSettingsOfEntries_eq_ok_iff {settings result : BanSettings} :
    banSettingsOfEntries settings entries = .ok result ↔
      ∃ added : List (String × Option BanSetting),
        List.Forall₂ (fun entry setting => setting.1 = entry.1 ∧
          BanSetting.ofValue entry.2 = .ok setting.2) entries added ∧
        result = added.foldl (fun m setting => m.insert setting.1 setting.2) settings := by
  -- Each entry adds to the settings that are read so far, so the induction is for all of these.
  induction entries generalizing settings with
  | nil => simp [banSettingsOfEntries, eq_comm]
  | cons entry entries ih =>
    rcases entry with ⟨key, value⟩
    rw [banSettingsOfEntries]
    cases hvalue : BanSetting.ofValue value with
    | error fault =>
      simp [List.forall₂_cons_left_iff, hvalue]
    | ok setting =>
      simp only [ih, List.forall₂_cons_left_iff, hvalue]
      constructor
      · rintro ⟨added, hadded, rfl⟩
        exact ⟨(key, setting) :: added, ⟨_, added, ⟨rfl, rfl⟩, hadded, rfl⟩, rfl⟩
      · rintro ⟨_, ⟨⟨_, _⟩, added, ⟨rfl, hsetting⟩, hadded, rfl⟩, rfl⟩
        obtain rfl := Except.ok.inj hsetting
        exact ⟨added, hadded, rfl⟩

theorem spellsEntry_iff {entry : String × Value} {setting : String × Option BanSetting}
    (htoml : entry.2.IsToml) :
    SpellsEntry entry setting ↔
      setting.1 = entry.1 ∧ BanSetting.ofValue entry.2.withDatesAsText = .ok setting.2 := by
  rw [SpellsEntry, BanSetting.ofValue_eq_ok_iff htoml]

theorem map_fst_of_spells {named : List (String × Value)}
    {settings : List (String × Option BanSetting)} (h : List.Forall₂ SpellsEntry named settings) :
    settings.map Prod.fst = named.map Prod.fst := by
  induction h with
  | nil => rfl
  | cons hentry _ ih => rw [List.map_cons, List.map_cons, hentry.1, ih]

/-- The settings of a table are those that its entries spell, in their order. -/
theorem readBanSettings_table_eq_ok_iff {named : List (String × Value)} {settings : BanSettings}
    (htoml : (Value.table named).IsToml) :
    readBanSettings (Value.table named).withDatesAsText = .ok settings ↔
      List.Forall₂ SpellsEntry named settings.toList := by
  cases htoml with
  | table hnodup hvalues =>
    have hspells : ∀ added : List (String × Option BanSetting),
        List.Forall₂ (fun entry setting => setting.1 = entry.1 ∧
          BanSetting.ofValue entry.2 = .ok setting.2) (named.map Value.entryWithDatesAsText) added ↔
        List.Forall₂ SpellsEntry named added := by
      intro added
      rw [List.forall₂_map_left_iff]
      refine forall₂_congr_left fun entry hentry setting => ?_
      exact (spellsEntry_iff (hvalues entry hentry)).symm
    -- The keys of the table are different, so no entry takes the place of another one.
    have hinserted : ∀ added : List (String × Option BanSetting),
        List.Forall₂ SpellsEntry named added → (OrderedMap.ofList added).toList = added := by
      intro added hadded
      refine OrderedMap.toList_ofList ?_
      rw [map_fst_of_spells hadded]
      exact hnodup
    rw [Value.withDatesAsText_table, readBanSettings, banSettingsOfEntries_eq_ok_iff]
    simp only [hspells]
    constructor
    · rintro ⟨added, hadded, rfl⟩
      rw [← OrderedMap.ofList, hinserted added hadded]
      exact hadded
    · intro h
      refine ⟨settings.toList, h, ?_⟩
      exact (congrArg OrderedMap.mk (hinserted settings.toList h)).symm

/-! ## Options -/

theorem spellsTypes_iff (htoml : (Value.table entries).IsToml) {types : BanSettings} :
    FieldValues.getD (entries.map Value.entryWithDatesAsText) "types" readBanSettings .empty =
        .ok types ↔ SpellsTypes entries types.toList := by
  cases htoml with
  | table hnodup hvalues =>
    rw [Value.getD_withDatesAsText_eq_ok_iff hnodup]
    constructor
    · rintro (⟨habsent, rfl⟩ | ⟨value, hmem, hread⟩)
      · exact .absent habsent
      · have hvalue : value.IsToml := hvalues _ hmem
        cases hvalue with
        | table hkeys hinner =>
          exact .present hmem ((readBanSettings_table_eq_ok_iff (.table hkeys hinner)).1 hread)
        | list => simp [readBanSettings, misread] at hread
        | boolean | integer | float | text | date => cases hread
    · intro h
      rcases types with ⟨settings⟩
      cases h with
      | absent habsent => exact Or.inl ⟨habsent, rfl⟩
      | present hmem hsettings =>
        exact Or.inr ⟨_, hmem, (readBanSettings_table_eq_ok_iff (hvalues _ hmem)).2 hsettings⟩

theorem spellsExtension_iff (htoml : (Value.table entries).IsToml) {extension : Bool} :
    FieldValues.getD (entries.map Value.entryWithDatesAsText) "extend_defaults" readBoolean true =
        .ok extension ↔ SpellsExtension entries extension := by
  cases htoml with
  | table hnodup hvalues =>
    rw [Value.getD_withDatesAsText_eq_ok_iff hnodup]
    constructor
    · rintro (⟨habsent, rfl⟩ | ⟨value, hmem, hread⟩)
      · exact .absent habsent
      · have hvalue : value.IsToml := hvalues _ hmem
        cases hvalue with
        | boolean b =>
          obtain rfl := Except.ok.inj hread
          exact .present hmem
        | table => simp [readBoolean, misread] at hread
        | list => simp [readBoolean, misread] at hread
        | integer | float | text | date => cases hread
    · intro h
      cases h with
      | absent habsent => exact Or.inl ⟨habsent, rfl⟩
      | present hmem => exact Or.inr ⟨_, hmem, rfl⟩

namespace BanOptions

theorem isComplete_shape (entries : List (String × Value)) : shape.IsComplete entries := by
  intro field hfield hneed
  rcases List.mem_pair.1 hfield with rfl | rfl
  · cases hneed
  · cases hneed

theorem mem_of_takes {entry : String × Value} (h : shape.Takes entry) :
    entry.1 ∈ ["types", "extend_defaults"] := by
  rcases h with ⟨field, hfield, -⟩
  have hname : field.name = entry.1 := by simpa using List.find?_some hfield
  rw [← hname]
  exact List.mem_map_of_mem (List.mem_of_find?_eq_some hfield)

/-- The options are read from a table exactly if it spells them. -/
theorem ofConfigured_eq_ok_iff (htoml : (Value.table entries).IsToml) {options : BanOptions} :
    ofConfigured entries = .ok options ↔ SpellsOptions entries options := by
  have hnodup : ((entries.map Value.entryWithDatesAsText).map Prod.fst).Nodup := by
    rw [Value.map_fst_entryWithDatesAsText]
    cases htoml with
    | table hnodup _ => exact hnodup
  have hfields := @RecordShape.read_table_eq_ok_iff shape _ rfl hnodup (isComplete_shape _)
  rw [ofConfigured, Value.withDatesAsText_table, ofValue]
  simp only [bind_eq_ok_iff, hfields]
  constructor
  · rintro ⟨_, ⟨rfl, htakes⟩, types, htypes, extension, hextension, hoptions⟩
    obtain rfl := Except.ok.inj hoptions
    refine ⟨?_, (spellsTypes_iff htoml).1 htypes, (spellsExtension_iff htoml).1 hextension⟩
    intro entry hentry
    exact @mem_of_takes (Value.entryWithDatesAsText entry) (htakes _ (List.mem_map_of_mem hentry))
  · rintro ⟨hknown, htypes, hextension⟩
    rw [← spellsTypes_iff htoml] at htypes
    rw [← spellsExtension_iff htoml] at hextension
    refine ⟨_, ⟨rfl, ?_⟩, _, htypes, _, hextension, rfl⟩
    rintro ⟨key, value⟩ hmem
    rcases List.mem_map.1 hmem with ⟨entry, hentry, heq⟩
    obtain rfl : entry.1 = key := congrArg Prod.fst heq
    rcases List.mem_pair.1 (hknown entry hentry) with hkey | hkey
    · rw [hkey] at hmem ⊢
      exact RecordShape.takes_of_getD hnodup rfl htypes hmem
    · rw [hkey] at hmem ⊢
      exact RecordShape.takes_of_getD hnodup rfl hextension hmem

/-- Whatever is not spelled as options is refused as a whole. -/
theorem exists_error_iff (htoml : (Value.table entries).IsToml) :
    (∃ fault, ofConfigured entries = .error fault) ↔
      ¬ ∃ options, SpellsOptions entries options := by
  simp only [← ofConfigured_eq_ok_iff htoml]
  cases ofConfigured entries <;> simp

/-- Every type name occurs once, in the order of the document. -/
theorem keys_of_spells (htoml : (Value.table entries).IsToml) {options : BanOptions}
    (h : SpellsOptions entries options) :
    options.types.keys.Nodup ∧ ∀ named, ("types", .table named) ∈ entries →
      options.types.keys = named.map Prod.fst := by
  cases htoml with
  | table hnodup hvalues =>
    rcases options with ⟨⟨settings⟩, extension⟩
    have htypes : SpellsTypes entries settings := h.types
    cases htypes with
    | absent habsent =>
      exact ⟨List.nodup_nil, fun named hnamed => absurd (List.mem_map_of_mem hnamed) habsent⟩
    | @present named _ hmem hsettings =>
      have hkeys : settings.map Prod.fst = named.map Prod.fst := map_fst_of_spells hsettings
      refine ⟨?_, fun other hother => ?_⟩
      · have htable : (Value.table named).IsToml := hvalues _ hmem
        cases htable with
        | table hnodup' _ => exact (congrArg List.Nodup hkeys).mpr hnodup'
      · have hfirst := OrderedMap.lookup_eq_some_of_mem hnodup hmem
        rw [OrderedMap.lookup_eq_some_of_mem hnodup hother] at hfirst
        obtain rfl : other = named := Value.table.inj (Option.some.inj hfirst)
        exact hkeys

end BanOptions

/-! ## The rule in a configuration -/

/-- The options of a rule in a configuration are those that its section spells, and a section that
spells none is refused, whatever else it holds. This is told for all structured data that a document
can hold, and a configuration file leaves nothing else to the rule. -/
theorem Config.banRule_spelled (config : Config) (settings : RuleSettings)
    (hrule : config.rule? BanRule.name = some settings) :
    (∀ text, Config.parse text = .ok config → (Value.table settings.options).IsToml) ∧
      ((Value.table settings.options).IsToml →
        (∀ options, config.banOptions = .ok options ↔ SpellsOptions settings.options options) ∧
        ((∃ fault, config.banOptions = .error fault) ↔
          ¬ ∃ options, SpellsOptions settings.options options) ∧
        (∀ options, config.banOptions = .ok options →
          options.types.keys.Nodup ∧ ∀ named, ("types", .table named) ∈ settings.options →
            options.types.keys = named.map Prod.fst) ∧
        (∀ rule, config.banRule = .ok rule ↔ ∃ options, SpellsOptions settings.options options ∧
          rule = ⟨.ofOptions options, settings.severity.getD .error⟩) ∧
        ((∃ fault, config.banRule = .error fault) ↔
          ¬ ∃ options, SpellsOptions settings.options options)) := by
  refine ⟨fun text hparse => isToml_options_of_parse hparse hrule, fun htoml => ?_⟩
  have hoptions : config.banOptions = BanOptions.ofConfigured settings.options := by
    rw [Config.banOptions, hrule]
  have hseverity : config.severity? BanRule.name = settings.severity := by
    rw [Config.severity?, hrule, Option.bind_some]
  have hok := fun options => @BanOptions.ofConfigured_eq_ok_iff _ htoml options
  rw [Config.banRule, hoptions, hseverity]
  refine ⟨hok, BanOptions.exists_error_iff htoml, ?_, ?_, ?_⟩
  · intro options h
    exact BanOptions.keys_of_spells htoml ((hok options).1 h)
  · intro rule
    simp only [← hok, map_eq_ok_iff]
    exact exists_congr fun options => and_congr_right fun _ => eq_comm
  · rw [← BanOptions.exists_error_iff htoml]
    cases BanOptions.ofConfigured settings.options with
    | error fault => simp [Except.map]
    | ok options => simp [Except.map]

/-- Type names with values of all shapes. -/
def variedText : String :=
  "[rules.ban-types]\nextend_defaults = false\n\n[rules.ban-types.types]\n" ++
    "Any = true\nOk = false\nOld = 1979-05-27\n" ++
      "Foo = \x7b fix_with = \"Bar\", message = \"Use Bar\" \x7d\nBaz = [\"Too vague\"]\n"

def variedTypes : List (String × Value) :=
  [("Any", .boolean true), ("Ok", .boolean false), ("Old", .date "1979-05-27"),
    ("Foo", .table [("fix_with", .text "Bar"), ("message", .text "Use Bar")]),
    ("Baz", .list [.text "Too vague"])]

def variedSettings : RuleSettings :=
  ⟨none, none, [("extend_defaults", .boolean false), ("types", .table variedTypes)]⟩

def varied : Config := ⟨.default, [("ban-types", variedSettings)]⟩

def variedOptions : BanOptions where
  types := ⟨[("Any", some (.flag true)), ("Ok", some (.flag false)),
    ("Old", some (.message "1979-05-27")), ("Foo", some (.record ⟨some "Use Bar", some "Bar"⟩)),
    ("Baz", some (.record ⟨some "Too vague", none⟩))]⟩
  extendDefaults := false

theorem spellsOptions_variedSettings : SpellsOptions variedSettings.options variedOptions where
  known := by decide
  extension := @SpellsExtension.present _ false (by simp [variedSettings])
  types := by
    have hmessage : SpellsField ["message"]
        [("fix_with", .text "Bar"), ("message", .text "Use Bar")] (some "Use Bar") :=
      @SpellsField.present _ _ "message" _ _ (by simp) (by decide) (by simp) (.text "Use Bar")
    have hfixWith : SpellsField ["fixWith", "fix_with"]
        [("fix_with", .text "Bar"), ("message", .text "Use Bar")] (some "Bar") :=
      @SpellsField.present _ _ "fix_with" _ _ (by simp) (by decide) (by simp) (.text "Bar")
    have hlist : SpellsRecord (.list [.text "Too vague"]) ⟨some "Too vague", none⟩ :=
      @SpellsRecord.list _ ["Too vague"] (by decide) (.cons (.text "Too vague") .nil)
    have hsettings : List.Forall₂ SpellsEntry variedTypes variedOptions.types.toList :=
      .cons ⟨rfl, _, rfl, .flag true⟩ (.cons ⟨rfl, _, rfl, .flag false⟩
        (.cons ⟨rfl, _, rfl, .message (.date "1979-05-27")⟩
          (.cons ⟨rfl, _, rfl, .record (.table (by simp) hmessage hfixWith)⟩
            (.cons ⟨rfl, _, rfl, .record hlist⟩ .nil))))
    exact .present (by simp [variedSettings]) hsettings

/-- Every value stands for its setting: a date for its text, and a list for a record. -/
theorem banRule_variedSettings :
    varied.rule? BanRule.name = some variedSettings ∧ Config.parse variedText = .ok varied ∧
      (Value.table variedSettings.options).IsToml ∧
      varied.banRule = .ok ⟨.ofOptions variedOptions, .error⟩ ∧
      variedOptions.types.keys = ["Any", "Ok", "Old", "Foo", "Baz"] := by
  have hrule : varied.rule? BanRule.name = some variedSettings := rfl
  have hparse : Config.parse variedText = .ok varied := by decide +kernel
  rcases Config.banRule_spelled varied variedSettings hrule with ⟨hread, hspelled⟩
  have htoml : (Value.table variedSettings.options).IsToml := hread variedText hparse
  rcases hspelled htoml with ⟨hoptions, -, hkeys, hbanRule, -⟩
  have hvaried := (hoptions variedOptions).2 spellsOptions_variedSettings
  have hnames := (hkeys _ hvaried).2 variedTypes (by simp [variedSettings])
  refine ⟨hrule, hparse, htoml, ?_, hnames⟩
  exact (hbanRule _).2 ⟨variedOptions, spellsOptions_variedSettings, rfl⟩

end TypeNameLint
