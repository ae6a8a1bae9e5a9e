import TypeNameLint.Config
import TypeNameLint.Proofs.Data.Lists
import TypeNameLint.Proofs.Toml.Keys

/-!
# Sections — what a configuration leaves to a rule

The section of a rule is a table of the document without the entries that are read for all rules. So
the options that are left are structured data as a document spells it. The main results are
`RuleSettings.options_of_foldlM` and `Config.isToml_options_of_parse`.
-/

namespace TypeNameLint

variable {value : Value} {entries : List (String × Value)}

/-! ## Settings of a rule -/

namespace RuleSettings

variable {settings : RuleSettings}

theorem options_of_addEntry {before after : RuleSettings} {entry : String × Value}
    (h : before.addEntry entry = .ok after) :
    after.options =
      before.options ++ [entry].filter fun entry => entry.1 ≠ "enabled" ∧ entry.1 ≠ "severity" := by
  unfold addEntry at h
  split at h
  · rename_i henabled
    rcases map_eq_ok_iff.1 h with ⟨enabled, -, rfl⟩
    simp [henabled]
  · split at h
    · rename_i hseverity
      rcases map_eq_ok_iff.1 h with ⟨severity, -, rfl⟩
      simp [hseverity]
    · rename_i henabled hseverity
      obtain rfl := Except.ok.inj h
      simp [henabled, hseverity]

/-- All entries but those that every rule has are options, in their order. -/
theorem options_of_foldlM {before after : RuleSettings}
    (h : entries.foldlM addEntry before = .ok after) :
    after.options = before.options ++
      entries.filter fun entry => entry.1 ≠ "enabled" ∧ entry.1 ≠ "severity" := by
  induction entries generalizing before with
  | nil =>
    obtain rfl : before = after := Except.ok.inj h
    simp
  | cons entry entries ih =>
    rw [List.foldlM_cons, bind_eq_ok_iff] at h
    rcases h with ⟨middle, hmiddle, hrest⟩
    rw [ih hrest, options_of_addEntry hmiddle, List.append_assoc, ← List.filter_append,
      List.singleton_append]

theorem isToml_options_of_ofValue (htoml : value.IsToml) (h : ofValue value = .ok settings) :
    (Value.table settings.options).IsToml := by
  have htable : value.withDateAsTable.IsToml := Value.isToml_withDateAsTable htoml
  unfold ofValue at h
  split at h
  · rename_i entries hentries
    rw [hentries, Value.isToml_table_iff] at htable
    rw [options_of_foldlM h, Value.isToml_table_iff]
    refine ⟨htable.1.sublist (List.filter_sublist.map Prod.fst), ?_⟩
    exact fun entry hentry => htable.2 entry (List.mem_of_mem_filter hentry)
  · cases h

end RuleSettings

/-! ## The configuration -/

namespace Config

theorem isToml_options_of_readRules {rules : List (String × RuleSettings)} (htoml : value.IsToml)
    (h : readRules value = .ok rules) :
    ∀ rule ∈ rules, (Value.table rule.2.options).IsToml := by
  have htable : value.withDateAsTable.IsToml := Value.isToml_withDateAsTable htoml
  unfold readRules at h
  split at h
  · rename_i entries hentries
    rw [hentries, Value.isToml_table_iff] at htable
    intro rule hrule
    rcases exists_of_mem_of_forall₂ (mapM_eq_ok_iff.1 h).flip _ hrule with ⟨entry, hentry, hread⟩
    rcases map_eq_ok_iff.1 hread with ⟨settings, hsettings, rfl⟩
    exact RuleSettings.isToml_options_of_ofValue (htable.2 entry hentry) hsettings
  · cases h

theorem isToml_options_of_ofEntries {config : Config} (htoml : ∀ entry ∈ entries, entry.2.IsToml)
    (h : ofEntries entries = .ok config) :
    ∀ rule ∈ config.rules, (Value.table rule.2.options).IsToml := by
  rw [ofEntries] at h
  simp only [bind_eq_ok_iff] at h
  rcases h with ⟨fields, hfields, discovery, -, rules, hrules, hsame⟩
  obtain rfl := Except.ok.inj hsame
  -- A document that says nothing about rules has no settings at all.
  rcases FieldValues.getD_eq_ok_iff.1 hrules with ⟨-, rfl⟩ | ⟨value, hvalue, hread⟩
  · simp
  · rcases List.lookup_eq_some_iff.1 hvalue with ⟨before, after, hplace, -⟩
    have hfield : ("rules", value) ∈ fields := by
      rw [hplace]
      simp
    exact isToml_options_of_readRules (htoml _ (RecordShape.mem_of_ofTable hfields hfield)) hread

theorem parse_eq_ok_iff {text : String} {config : Config} :
    parse text = .ok config ↔ ∃ entries, Toml.read? text = some entries ∧
      ofEntries entries = .ok config := by
  rw [parse]
  cases Toml.read? text with
  | none => simp
  | some entries => cases hconfig : ofEntries entries <;> simp [hconfig, Except.mapError]

/-- The options of a rule in a configuration file are structured data without repeated keys. -/
theorem isToml_options_of_parse {text name : String} {config : Config} {settings : RuleSettings}
    (h : parse text = .ok config) (hrule : config.rule? name = some settings) :
    (Value.table settings.options).IsToml := by
  rcases parse_eq_ok_iff.1 h with ⟨entries, hread, hconfig⟩
  have hvalues := (Value.isToml_table_iff.1 (Toml.isToml_of_read? hread)).2
  rcases List.lookup_eq_some_iff.1 hrule with ⟨before, after, hsplit, -⟩
  have hmem : (name, settings) ∈ config.rules := by
    rw [hsplit]
    simp
  exact isToml_options_of_ofEntries hvalues hconfig _ hmem

end Config
end TypeNameLint
