import TypeNameLint.Proofs.Analysis.Exclusion
import TypeNameLint.Proofs.CommandLine.Nearest
import TypeNameLint.Proofs.CommandLine.Severity
import TypeNameLint.Proofs.Path.Reported
import TypeNameLint.Proofs.Report.Quoting

/-!
# Reopening — a report with sources reads the files that were checked

A report with sources takes each reported path from the base of the run and reads what it leads to.
The base is a directory, the root or the parent of a root that is a file, so a reported path leads
to the file that it was made for, however root and path are spelled; and what is read there is the
text in which the violation was found. This file defines:

* `Analysis.LeadsBack`: violations that lead back to their sources;
* `CommandLine.Shows`: what is shown of such a violation.

The main result is `check_reopens`.
-/

namespace TypeNameLint

namespace FileStore

variable {store before after : FileStore} {cwd names : Names} {path other : Path}

theorem SameShape.leadsToFile (h : SameShape before after)
    (hfile : before.LeadsToFile cwd path names) : after.LeadsToFile cwd path names :=
  ⟨(h.resolve_eq cwd path).trans hfile.1, (h.isSome_file?_eq names).trans hfile.2⟩

theorem LeadsToFile.read_eq (h : store.LeadsToFile cwd path names)
    (hother : store.LeadsToFile cwd other names) : store.read cwd other = store.read cwd path := by
  rw [read, read, find, find, h.1, hother.1]

/-- What is reported for a file leads to it from the base, if that is a directory. -/
theorem WellFormed.leadsToFile_join_reportedFrom {base : Path} (hwf : store.WellFormed)
    (hbase : base.isAbsolute = true) (hpath : path.isAbsolute = true)
    (hdirectory : store.find cwd base = .ok .directory) (h : store.LeadsToFile cwd path names) :
    store.LeadsToFile cwd (base.join (base.reportedFrom path)) names := by
  by_cases hbelow : base.components <+: path.components
  · rcases hbelow with ⟨more, hmore⟩
    rcases Path.steps_reportedFrom hbase hpath hmore.symm with ⟨hrelative, hsteps⟩
    have hsplit : path.steps = base.steps ++ more :=
      Path.steps_of_components_eq_append hbase hpath hmore.symm
    have hjoined := Path.steps_join_of_relative (Path.text_ne_empty_of_isAbsolute hbase) hrelative
    rw [hsteps, ← hsplit] at hjoined
    -- The file and the base are not the same, since no file is a directory.
    have hne : more ≠ [] := by
      rintro rfl
      rcases find_eq_ok_iff.1 hdirectory with ⟨directory, hfound⟩
      have hleads := (resolve_iff_leadsThrough (Path.text_ne_empty_of_isAbsolute hbase)).1 hfound
      rw [if_pos hbase, ← List.append_nil base.steps, ← hsplit] at hleads
      refine @LeadsToFile.not_leadsThrough store cwd names directory path h ?_
      rwa [if_pos hpath]
    rcases Path.exists_concat_pieces_reportedFrom hbase hpath hmore.symm hne with
      ⟨front, last, hlast, hbusy⟩
    rcases Path.exists_pieces_join_of_relative (Path.text_ne_empty_of_isAbsolute hbase) hrelative
      with ⟨before, -, hpieces⟩
    rw [hlast, ← List.append_assoc] at hpieces
    exact hwf.leadsToFile_of_steps_eq hpath (Path.isAbsolute_join_of_isAbsolute hbase _) hjoined
      hpieces hbusy h
  · rwa [Path.reportedFrom_elsewhere hbelow, Path.join_of_isAbsolute hpath]

end FileStore

namespace Analysis

variable {analysis : Analysis} {store : FileStore} {sources : List Source} {source : Source}
variable {result : LintResult} {v : Violation}

/-! ## The base -/

/-- Reported paths start from a directory: the root, or the one with the root in it. -/
theorem find_base (hwf : store.WellFormed) (hroot : analysis.root.isAbsolute = true)
    (h : analysis.sources store = .ok sources) :
    (analysis.base store).isAbsolute = true ∧
      store.find [] (analysis.base store) = .ok .directory := by
  rcases exists_walks_of_sources h with ⟨paths, hwalks⟩
  cases hwalks with
  | @file names content hresolve hentry =>
    have hfile : store.LeadsToFile [] analysis.root names :=
      ⟨hresolve, by simp [FileStore.entry?_eq_file_iff.1 hentry]⟩
    rcases FileStore.exists_parent_of_leadsToFile hroot hfile with ⟨above, habove⟩
    have hbase : analysis.base store = above := by
      rw [base, if_pos (FileStore.isFile_eq_true_iff.2 ⟨names, hfile⟩), habove, Option.getD_some]
    -- The parent lacks the last step, which is the name of the file.
    rcases Path.steps_of_parent? hroot habove with ⟨habsolute, -, hsteps⟩
    rcases hwf.exists_name_of_leadsToFile hfile with
      ⟨directory, name, front, -, hfront, -, hleads⟩
    rw [hfront, List.dropLast_concat] at hsteps
    rw [if_pos hroot, ← hsteps] at hleads
    have hfound : store.resolve [] above = .ok directory ∧
        store.entry? directory = some .directory := by
      refine (FileStore.resolve_iff_leadsThrough (Path.text_ne_empty_of_isAbsolute habsolute)).2 ?_
      rwa [if_pos habsolute]
    rw [hbase]
    exact ⟨habsolute, FileStore.find_eq_ok_iff.2 ⟨directory, hfound⟩⟩
  | @directory names hresolve hentry =>
    rw [base_of_directory hresolve hentry]
    exact ⟨hroot, FileStore.find_eq_ok_iff.2 ⟨names, hresolve, hentry⟩⟩

theorem isAbsolute_of_mem_sources (hroot : analysis.root.isAbsolute = true)
    (h : analysis.sources store = .ok sources) (hsource : source ∈ sources) :
    source.path.isAbsolute = true := by
  rcases exists_walks_of_sources h with ⟨paths, hwalks⟩
  have hpath : source.path ∈ paths := (mem_of_mem_sources hwalks h hsource).1
  cases hwalks with
  | file =>
    rw [List.mem_singleton.1 hpath]
    exact hroot
  | directory =>
    rcases List.mem_map.1 hpath with ⟨below, -, hsame⟩
    rw [← hsame]
    exact Path.isAbsolute_descend hroot below

/-! ## The way back -/

/-- A violation that leads back to a source: the path reported for it, taken from the base, has the
components of the path of a checked source and leads to the same file; after the run the file holds
a text, and the violation is one of those found in it. -/
structure LeadsBack (analysis : Analysis) (store : FileStore) (v : Violation) (source : Source)
    (text : String) : Prop where
  checked : analysis.IsChecked store source
  shown : v.location.file = (analysis.base store).reportedFrom source.path
  components_eq :
    ((analysis.base store).join v.location.file).components = source.path.components
  leads : ∃ names, (analysis.run store).store.LeadsToFile [] source.path names ∧
    (analysis.run store).store.LeadsToFile [] ((analysis.base store).join v.location.file) names
  reads : (analysis.run store).store.read [] ((analysis.base store).join v.location.file) = .ok text
  found : ∃ violations, analysis.lint v.location.file source.language text = some violations ∧
    v ∈ violations

/-- Every reported violation leads back to a source. -/
theorem exists_leadsBack_of_run (hwf : store.WellFormed) (hroot : analysis.root.isAbsolute = true)
    (hrules : ∀ rule ∈ analysis.rules, rule.StaysInFile)
    (h : (analysis.run store).result = .ok result) (hv : v ∈ result.violations) :
    ∃ source text, analysis.LeadsBack store v source text := by
  rcases (mem_violations_of_run_iff hwf h).1 hv with
    ⟨source, hchecked, text, hread, violations, hlint, hfound⟩
  rcases hchecked with ⟨sources, hsources, hsource, draft, hdraft⟩
  have hshown : v.location.file = (analysis.base store).reportedFrom source.path :=
    file_of_mem_lint_of_stays hrules hlint hfound
  rcases find_base hwf hroot hsources with ⟨hbase, hdirectory⟩
  have hpath : source.path.isAbsolute = true := isAbsolute_of_mem_sources hroot hsources hsource
  have hshape := sameShape_run hwf h
  rcases leads_of_mem_sources hwf hsources hsource with ⟨names, hleads⟩
  have hback : store.LeadsToFile [] ((analysis.base store).join v.location.file) names := by
    rw [hshown]
    exact hwf.leadsToFile_join_reportedFrom hbase hpath hdirectory hleads
  refine ⟨source, text, {
    checked := ⟨sources, hsources, hsource, draft, hdraft⟩
    shown := hshown
    components_eq := by rw [hshown, Path.components_join_reportedFrom hbase hpath]
    leads := ⟨names, hshape.leadsToFile hleads, hshape.leadsToFile hback⟩
    reads := ((hshape.leadsToFile hleads).read_eq (hshape.leadsToFile hback)).trans hread
    found := ⟨violations, ?_, hfound⟩ }⟩
  rwa [hshown]

end Analysis

namespace CommandLine

/-! ## Reports with sources -/

open Analysis (Source LeadsBack)

variable {parsers : Parsers} {env : Environment} {store : FileStore} {named : Option Path}
variable {path : Path} {exclude : List String} {fixes : Bool} {config : Config} {rule : BanRule}
variable {analysis : Analysis} {result : LintResult} {source : Source} {v : Violation}
variable {text : String}

/-- What is shown of a violation that leads back to a source: its diagnostic, over the text that is
read at the reported path, taken from the base. The line on which the violation starts is quoted
from that text. -/
structure Shows (analysis : Analysis) (store : FileStore) (v : Violation) (source : Source)
    (text piece : String) : Prop extends LeadsBack analysis store v source text where
  rendered : piece = v.diagnostic.render v.location.file.text (some text) ++ "\n"
  quotes : ∀ line, Text.line? text.toList v.location.line = some line →
    (Snippet.shownLine line).toList <:+: piece.toList

/-- What the rule of a check finds in a text starts in the row that its line tells. -/
theorem Checks.line_eq (h : Checks parsers env store named path exclude fixes config rule analysis
    result) (hleads : LeadsBack analysis store v source text) :
    v.location.line = (Text.positionAt text.toList v.location.offset).row + 1 := by
  rcases hleads.found with ⟨violations, hlint, hv⟩
  rcases h.rules_eq with ⟨hrules, hconfig⟩
  rw [Analysis.lint_of_banRule hrules (hconfig ▸ h.configured), Option.map_eq_some_iff] at hlint
  rcases hlint with ⟨tree, -, rfl⟩
  split at hv
  · rcases BanRule.mem_check_iff.1 hv with ⟨place, -, hplace⟩
    rw [BanRule.location_of_atPlace hplace]
    rfl
  · cases hv

theorem Checks.shows_of_leadsBack (h : Checks parsers env store named path exclude fixes config rule
    analysis result) (hleads : LeadsBack analysis store v source text) :
    Shows analysis store v source text
      (v.diagnostic.render v.location.file.text (some text) ++ "\n") where
  toLeadsBack := hleads
  rendered := rfl
  quotes := by
    intro line hline
    rw [h.line_eq hleads] at hline
    rw [String.toList_append]
    exact (v.diagnostic.shownLine_infix_render v.location.file.text hline).trans
      (List.prefix_append _ _).isInfix

/-- The snippet of a violation is what is shown of it, if its text is the content that is known. -/
theorem Checks.exists_shows (hwf : store.WellFormed) (h : Checks parsers env store named path
    exclude fixes config rule analysis result) (hv : v ∈ result.violations) :
    ∃ source text, Shows analysis store v source text
      (snippet (fun file => ((analysis.run store).store.read []
        ((analysis.base store).join file)).toOption) v) := by
  have hroot : analysis.root.isAbsolute = true := by
    rcases Analysis.ofRequest_eq_ok_iff.1 h.settled with ⟨excludes, -, hanalysis⟩
    rw [hanalysis]
    exact Path.isAbsolute_join_of_isAbsolute (isAbsolute_cwdPath env) _
  have hrules : ∀ other ∈ analysis.rules, other.StaysInFile := by
    rw [h.rules_eq.1]
    exact List.forall_mem_singleton.2 rule.staysInFile_toRule
  rcases Analysis.exists_leadsBack_of_run hwf hroot hrules h.ran hv with ⟨source, text, hleads⟩
  have hread : ((analysis.run store).store.read []
      ((analysis.base store).join v.location.file)).toOption = some text :=
    congrArg Except.toOption hleads.reads
  refine ⟨source, text, ?_⟩
  rw [snippet, hread]
  exact h.shows_of_leadsBack hleads

/-- A report with sources opens the file of each violation and shows the violation over it, and ends
with the counts. -/
theorem Checks.exists_shown (hwf : store.WellFormed) (h : Checks parsers env store named path
    exclude fixes config rule analysis result) :
    ∃ shown : List String,
      List.Forall₂ (fun v piece => ∃ source text, Shows analysis store v source text piece)
        result.violations shown ∧
      (check parsers env store named path .pretty exclude fixes).output =
        String.join shown ++ summary result := by
  let contentOf : Path → Option String := fun file =>
    ((analysis.run store).store.read [] ((analysis.base store).join file)).toOption
  have hbase : analysis.base (analysis.run store).store = analysis.base store :=
    Analysis.base_of_sameShape (Analysis.sameShape_run hwf h.ran)
  refine ⟨result.violations.map (snippet contentOf), List.forall₂_map_right_iff.2 ?_, ?_⟩
  · exact List.forall₂_same.2 fun v hv => h.exists_shows hwf hv
  · rw [h.check_eq, printed_of_ne_json (by decide), reported, hbase, report]

/-- A reported path identifies its file. Below the base it is relative and has the components that
come behind those of the base, elsewhere it is the path itself; joined to the base it has the
components of the path, so paths with other components are reported otherwise. A check that reports
with sources prints one piece for each violation, in order, and then the counts: for each violation
the file at its path from the base is opened, which is that of a checked source in which it was
found, and the diagnostic is rendered over the text that is read there. -/
theorem check_reopens :
    (∀ base p : Path, base.isAbsolute = true → p.isAbsolute = true →
      (base.join (base.reportedFrom p)).components = p.components ∧
      (∀ more, p.components = base.components ++ more →
        (base.reportedFrom p).isAbsolute = false ∧ (base.reportedFrom p).components = more) ∧
      (¬ base.components <+: p.components → base.reportedFrom p = p)) ∧
    (∀ base p q : Path, base.isAbsolute = true → p.isAbsolute = true → q.isAbsolute = true →
      base.reportedFrom p = base.reportedFrom q → p.components = q.components) ∧
    ∀ (parsers : Parsers) (env : Environment) (store : FileStore) (named : Option Path)
      (path : Path) (exclude : List String) (fixes : Bool) (config : Config) (rule : BanRule)
      (analysis : Analysis) (result : LintResult), store.WellFormed →
      Checks parsers env store named path exclude fixes config rule analysis result →
        ∃ shown : List String,
          List.Forall₂ (fun v piece => ∃ source text, Shows analysis store v source text piece)
            result.violations shown ∧
          (check parsers env store named path .pretty exclude fixes).output =
            String.join shown ++ summary result := by
  refine ⟨?_, ?_, ?_⟩
  · intro base p hbase hp
    refine ⟨Path.components_join_reportedFrom hbase hp, ?_, Path.reportedFrom_elsewhere⟩
    intro more hmore
    exact ⟨(Path.steps_reportedFrom hbase hp hmore).1,
      Path.components_reportedFrom (Path.text_ne_empty_of_isAbsolute hbase) hmore⟩
  · intro base p q hbase hp hq
    exact Path.components_eq_of_reportedFrom_eq hbase hp hq
  · intro parsers env store named path exclude fixes config rule analysis result hwf hchecks
    exact hchecks.exists_shown hwf

/-- Repeated slashes, current directories and a slash at the end change no reported path; a path
elsewhere is reported as it is; and a check of a single file reads it again from its parent, and
quotes its line. -/
theorem check_reopens_configuredStore :
    (⟨"/w/./p/"⟩ : Path).isAbsolute = true ∧ (⟨"/w//p/src/./a.ts"⟩ : Path).isAbsolute = true ∧
    (⟨"/q//a.ts"⟩ : Path).isAbsolute = true ∧ (⟨"/w//p/a.ts"⟩ : Path).isAbsolute = true ∧
    (⟨"/w/p/./a.ts/"⟩ : Path).isAbsolute = true ∧
    ((⟨"/w/./p/"⟩ : Path).join (Path.reportedFrom ⟨"/w/./p/"⟩ ⟨"/w//p/src/./a.ts"⟩)).components =
      (⟨"/w//p/src/./a.ts"⟩ : Path).components ∧
    (⟨"/w//p/src/./a.ts"⟩ : Path).components =
      (⟨"/w/./p/"⟩ : Path).components ++ [.name "src", .name "a.ts"] ∧
    (Path.reportedFrom ⟨"/w/./p/"⟩ ⟨"/w//p/src/./a.ts"⟩).components =
      [.name "src", .name "a.ts"] ∧
    ¬ (⟨"/w/./p/"⟩ : Path).components <+: (⟨"/q//a.ts"⟩ : Path).components ∧
    Path.reportedFrom ⟨"/w/./p/"⟩ ⟨"/q//a.ts"⟩ = ⟨"/q//a.ts"⟩ ∧
    Path.reportedFrom ⟨"/w/./p/"⟩ ⟨"/w//p/a.ts"⟩ = Path.reportedFrom ⟨"/w/./p/"⟩ ⟨"/w/p/./a.ts/"⟩ ∧
    (⟨"/w//p/a.ts"⟩ : Path).components = (⟨"/w/p/./a.ts/"⟩ : Path).components ∧
    configuredStore.WellFormed ∧
    Checks configuredParsers surroundings configuredStore (some ⟨"typeban.toml"⟩) ⟨"a.ts"⟩ [] false
      configured configuredRule configuredAnalysis ⟨[configuredBan], 1, 0⟩ ∧
    configuredStore.read [] ⟨"/w/a.ts"⟩ = .ok "x: String" ∧
    ∃ shown : String,
      (∃ source, Shows configuredAnalysis configuredStore configuredBan source "x: String" shown) ∧
      "x: String".toList <:+: shown.toList ∧
      (check configuredParsers surroundings configuredStore (some ⟨"typeban.toml"⟩) ⟨"a.ts"⟩ .pretty
        [] false).output = shown ++ summary ⟨[configuredBan], 1, 0⟩ := by
  rcases check_reopens with ⟨hback, hinjective, hcheck⟩
  have hbase : (⟨"/w/./p/"⟩ : Path).isAbsolute = true := by decide
  have hbelow : (⟨"/w//p/src/./a.ts"⟩ : Path).components =
      (⟨"/w/./p/"⟩ : Path).components ++ [.name "src", .name "a.ts"] := by decide
  have helsewhere : ¬ (⟨"/w/./p/"⟩ : Path).components <+: (⟨"/q//a.ts"⟩ : Path).components := by
    decide
  have hsame : Path.reportedFrom ⟨"/w/./p/"⟩ ⟨"/w//p/a.ts"⟩ =
      Path.reportedFrom ⟨"/w/./p/"⟩ ⟨"/w/p/./a.ts/"⟩ := by decide
  have hwf : configuredStore.WellFormed := by decide
  have hread : configuredStore.read [] ⟨"/w/a.ts"⟩ = .ok "x: String" := rfl
  rcases hback ⟨"/w/./p/"⟩ ⟨"/w//p/src/./a.ts"⟩ hbase rfl with ⟨hjoined, hleft, -⟩
  have hshown : ∃ shown : String,
      (∃ source, Shows configuredAnalysis configuredStore configuredBan source "x: String" shown) ∧
      "x: String".toList <:+: shown.toList ∧
      (check configuredParsers surroundings configuredStore (some ⟨"typeban.toml"⟩) ⟨"a.ts"⟩ .pretty
        [] false).output = shown ++ summary ⟨[configuredBan], 1, 0⟩ := by
    rcases hcheck _ _ _ _ _ _ _ _ _ _ _ hwf checks_configuredStore with ⟨pieces, hpieces, houtput⟩
    rcases List.forall₂_cons_left_iff.1 hpieces with
      ⟨shown, rest, ⟨source, text, hshows⟩, hrest, rfl⟩
    obtain rfl := List.forall₂_nil_left_iff.1 hrest
    have hfile : (configuredAnalysis.base configuredStore).join configuredBan.location.file =
        ⟨"/w/a.ts"⟩ := by
      rw [Analysis.base_of_file hread rfl]
      rfl
    have hreads := hshows.reads
    rw [hfile, Analysis.store_run_of_no_fixes rfl, hread] at hreads
    obtain rfl : "x: String" = text := Except.ok.inj hreads
    refine ⟨shown, ⟨source, hshows⟩, hshows.quotes "x: String".toList rfl, ?_⟩
    rw [houtput, String.join_cons, String.join_nil, String.append_empty]
  exact ⟨hbase, rfl, rfl, rfl, rfl, hjoined, hbelow, (hleft _ hbelow).2, helsewhere,
    (hback ⟨"/w/./p/"⟩ ⟨"/q//a.ts"⟩ hbase rfl).2.2 helsewhere, hsame,
    hinjective ⟨"/w/./p/"⟩ ⟨"/w//p/a.ts"⟩ ⟨"/w/p/./a.ts/"⟩ hbase rfl rfl hsame, hwf,
    checks_configuredStore, hread, hshown⟩

end CommandLine
end TypeNameLint
