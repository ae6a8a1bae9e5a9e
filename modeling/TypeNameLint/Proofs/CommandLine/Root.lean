import TypeNameLint.Proofs.Analysis.Exclusion
import TypeNameLint.Proofs.CommandLine.Nearest
import TypeNameLint.Proofs.CommandLine.Severity

/-!
# Root — where a check without a path looks for sources

A check that is given no path looks below the current directory, whatever root is configured: it is
the run of the configuration with that root in place of its own. Only where the two roots are the
same is it the run of the configuration. This file defines:

* `Analysis.StaysUnder`: runs that count, report and rewrite what lies under a directory;
* `NamesNoPath`: command lines that name no path to check;
* `outcomeOf`, `configuredRequest`: what a check makes of a request, and the request that leaves the
  root to the configuration.

The main results are `staysUnder_of_run` and `check_without_path`.
-/

namespace TypeNameLint

/-- The configuration with another root. -/
def Config.withRoot (config : Config) (root : Path) : Config :=
  { config with discovery := { config.discovery with root } }

namespace Analysis

variable {analysis : Analysis} {store : FileStore} {sources : List Source} {source : Source}
variable {base root : Path} {result : LintResult} {directory : Names}

/-! ## What a run keeps to -/

/-- The files that a run counts are different files under a directory. It reports on them alone,
and changes no others. -/
def StaysUnder (analysis : Analysis) (store : FileStore) (directory : Names) (result : LintResult) :
    Prop :=
  ∃ checked : List Source,
    (∀ source ∈ checked, ∃ below, store.LeadsToFile [] source.path (directory ++ below)) ∧
    (checked.Pairwise fun a b => store.resolve [] a.path ≠ store.resolve [] b.path) ∧
    result.filesChecked = checked.length ∧
    (∀ v ∈ result.violations, ∃ source ∈ checked,
      v.location.file = (analysis.base store).reportedFrom source.path) ∧
    ∀ names, (analysis.run store).store.file? names ≠ store.file? names →
      ∃ source ∈ checked, store.resolve [] source.path = .ok names

/-- A run stays under what its root leads to. -/
theorem staysUnder_of_run (hwf : store.WellFormed)
    (hrules : ∀ rule ∈ analysis.rules, rule.StaysInFile)
    (hroot : store.resolve [] analysis.root = .ok directory)
    (hrun : (analysis.run store).result = .ok result) :
    analysis.StaysUnder store directory result := by
  rcases exists_sources_of_run hrun with ⟨sources, hsources⟩
  rcases exists_drafts_of_run hwf hsources hrun with ⟨ds, hds, rfl, houtcome⟩
  refine ⟨analysis.checked (analysis.base store) store sources, ?_,
    (apart_sources hwf hsources).places.sublist List.filter_sublist, filesChecked_of_drafts hds,
    ?_, ?_⟩
  · intro source hsource
    exact exists_below_of_mem_sources hwf hroot hsources (mem_checked_iff.1 hsource).1
  · intro v hv
    rcases mem_violations_sorted.1 hv with ⟨draft, hdraft, hv⟩
    rcases (mem_drafts_iff hds).1 hdraft with ⟨source, hsource, hfound⟩
    exact ⟨source, mem_checked_iff.2 ⟨hsource, draft, hfound⟩,
      file_of_mem_violations hrules hfound v hv⟩
  · intro names hchanged
    by_contra hnone
    refine hchanged (houtcome.frame.elsewhere names ?_)
    rintro ⟨source, hsource, hplace, hdraft⟩
    exact hnone ⟨source, mem_checked_iff.2 ⟨hsource, hdraft⟩, hplace⟩

/-- The run under a configuration with another root. -/
def withConfiguredRoot (analysis : Analysis) (root : Path) : Analysis :=
  { analysis with config := analysis.config.withRoot root }

theorem visitAll_withConfiguredRoot :
    (analysis.withConfiguredRoot root).visitAll base result store sources =
      analysis.visitAll base result store sources := by
  induction sources generalizing result store with
  | nil => rfl
  | cons source sources ih =>
    have hvisit : (analysis.withConfiguredRoot root).visit base store source =
        analysis.visit base store source := rfl
    simp only [visitAll, hvisit, ih]
    rfl

/-- The root is settled before a run, which does not ask for the configured one. -/
theorem run_withConfiguredRoot (analysis : Analysis) (store : FileStore) (root : Path) :
    (analysis.withConfiguredRoot root).run store = analysis.run store := by
  have hsources : (analysis.withConfiguredRoot root).sources store = analysis.sources store := rfl
  have hbase : (analysis.withConfiguredRoot root).base store = analysis.base store := rfl
  simp only [run, hsources, hbase, visitAll_withConfiguredRoot]

end Analysis

namespace CommandLine

variable {parsers : Parsers} {env : Environment} {store : FileStore} {named : Option Path}
variable {path : Path} {exclude : List String} {fixes : Bool} {config : Config} {rule : BanRule}
variable {analysis : Analysis} {result : LintResult} {format : Format} {arguments : List String}
variable {given : List Item}

/-! ## Command lines without a path -/

/-- A command line for a check that names no path: no word stands among the arguments of the
command. -/
def NamesNoPath (arguments : List String) : Prop :=
  ∃ outer rest given,
    leadingItems Invocation.outerShapes none arguments = some (outer, some ("check", rest)) ∧
      items Invocation.checkShapes none false rest = some given ∧ wordsOf given = []

theorem onlyPath?_of_check?
    (h : Invocation.check? given = some (.check path format exclude fixes)) :
    Invocation.onlyPath? given = some path := by
  simp only [Invocation.check?, Option.bind_eq_bind, Option.bind_eq_some_iff] at h
  rcases h with ⟨found, hfound, formatted, -, hrest⟩
  rw [hfound]
  split at hrest
  all_goals
    simp only [Option.bind_eq_some_iff] at hrest
    rcases hrest with ⟨_, -, _, -, hcommand⟩
    cases hcommand
    rfl

/-- Without a path the current directory is checked. -/
theorem path_of_namesNoPath (hnone : NamesNoPath arguments)
    (hparse : Invocation.parse arguments =
      some (.command (.check path format exclude fixes) named)) : path = ⟨"."⟩ := by
  rcases hnone with ⟨outer, rest, given, hleading, hitems, hwords⟩
  simp only [Invocation.parse, hleading, Option.bind_eq_bind, Option.bind_some] at hparse
  -- A request for help or the version is no check.
  split at hparse
  · cases hparse
  split at hparse
  · cases hparse
  simp only [Option.bind_eq_some_iff, Invocation.ofName?, Invocation.ofCommand, hitems,
    Option.bind_eq_bind, Option.bind_some] at hparse
  rcases hparse with ⟨outerConfig, -, hcommand⟩
  split at hcommand
  · cases hcommand
  simp only [Option.bind_eq_some_iff] at hcommand
  rcases hcommand with ⟨config, -, command, hcheck, hinvocation⟩
  cases hinvocation
  have hpath := onlyPath?_of_check? hcheck
  rw [Invocation.onlyPath?, hwords] at hpath
  exact (Option.some.inj hpath).symm

/-! ## Checks and runs of a configuration -/

/-- What a check makes of a configuration and of the request for its rule. -/
def outcomeOf (env : Environment) (store : FileStore) (format : Format) (config : Config)
    (request : BanRule → Request) : Outcome :=
  match config.banRule with
  | .error _ => .failed store .rules
  | .ok rule =>
    match Analysis.ofRequest env.cwdPath (request rule) with
    | .error _ => .failed store .patterns
    | .ok analysis =>
      let outcome := analysis.run store
      match outcome.result with
      | .error _ => .failed outcome.store .analysis
      | .ok result => printed analysis format result outcome.store

/-- The request that leaves the root to the configuration. -/
def configuredRequest (parsers : Parsers) (config : Config) (exclude : List String) (fixes : Bool)
    (rule : BanRule) : Request :=
  { requestOf parsers config rule ⟨"."⟩ exclude fixes with root := none }

/-- What is made of a configuration whose own root counts. -/
def configuredOutcome (parsers : Parsers) (env : Environment) (store : FileStore) (format : Format)
    (exclude : List String) (fixes : Bool) (config : Config) : Outcome :=
  outcomeOf env store format config (configuredRequest parsers config exclude fixes)

/-- Requests that settle to the same run have the same outcome. -/
theorem outcomeOf_congr {request other : BanRule → Request}
    (h : ∀ rule, Analysis.ofRequest env.cwdPath (request rule) =
      Analysis.ofRequest env.cwdPath (other rule)) :
    outcomeOf env store format config request = outcomeOf env store format config other := by
  simp only [outcomeOf, h]

theorem check_of_load
    (h : (ConfigSource.resolve store env path named).load store env = .ok config) :
    check parsers env store named path format exclude fixes =
      outcomeOf env store format config
        fun rule => requestOf parsers config rule path exclude fixes := by
  rw [check, h]
  rfl

/-- Where the roots are the same it does not matter which of them is asked for. -/
theorem ofRequest_configuredRequest
    (h : env.cwdPath.join config.discovery.root = env.cwdPath.join path) :
    Analysis.ofRequest env.cwdPath (configuredRequest parsers config exclude fixes rule) =
      Analysis.ofRequest env.cwdPath (requestOf parsers config rule path exclude fixes) := by
  simp only [Analysis.ofRequest, configuredRequest, requestOf, Option.getD_none, Option.getD_some,
    h]

theorem ofRequest_withRoot :
    Analysis.ofRequest env.cwdPath
        (configuredRequest parsers (config.withRoot path) exclude fixes rule) =
      (Analysis.ofRequest env.cwdPath (requestOf parsers config rule path exclude fixes)).map
        fun analysis => analysis.withConfiguredRoot path := by
  have hroot : env.cwdPath.join (config.withRoot path).discovery.root = env.cwdPath.join path := rfl
  rw [ofRequest_configuredRequest hroot, Analysis.ofRequest, Analysis.ofRequest]
  cases hexclude : ((exclude ++ config.discovery.exclude).mapM Exclude.parse).mapError
      AnalysisFault.pattern with
  | error fault =>
    simp only [requestOf, Config.withRoot, hexclude]
    rfl
  | ok patterns =>
    simp only [requestOf, Config.withRoot, hexclude]
    rfl

/-- The path of a check takes the place of the configured root. -/
theorem outcomeOf_requestOf :
    (outcomeOf env store format config
        fun rule => requestOf parsers config rule path exclude fixes) =
      configuredOutcome parsers env store format exclude fixes (config.withRoot path) := by
  have hrule : (config.withRoot path).banRule = config.banRule := rfl
  rw [configuredOutcome, outcomeOf, outcomeOf, hrule]
  cases config.banRule with
  | error fault => rfl
  | ok rule =>
    simp only [ofRequest_withRoot]
    cases Analysis.ofRequest env.cwdPath (requestOf parsers config rule path exclude fixes) with
    | error fault => rfl
    | ok analysis =>
      simp only [Except.map, Analysis.run_withConfiguredRoot]
      rfl

/-! ## The root of a check -/

/-- A check that is given no path starts from the current directory. -/
theorem resolve_root_of_settled (hcwd : ∀ name ∈ env.cwd, IsName name)
    (hsettled : Analysis.ofRequest env.cwdPath
      (requestOf parsers config rule ⟨"."⟩ exclude fixes) = .ok analysis)
    (hrun : (analysis.run store).result = .ok result) :
    store.resolve [] analysis.root = .ok env.cwd := by
  have hroot : analysis.root = env.cwdPath.join ⟨"."⟩ := by
    rcases Analysis.ofRequest_eq_ok_iff.1 hsettled with ⟨excludes, -, hanalysis⟩
    rw [hanalysis]
    simp only [requestOf, Option.getD_some]
  rcases Analysis.exists_sources_of_run hrun with ⟨sources, hsources⟩
  rcases Analysis.exists_resolve_root hsources with ⟨names, hresolve⟩
  -- The current directory behind the path takes no step, so the steps are those to the directory.
  have hleads := hroot ▸ hresolve
  rw [FileStore.resolve_join_current_iff (isAbsolute_cwdPath env), steps_cwdPath hcwd] at hleads
  rw [hresolve, hleads.eq_foldl, FileStore.foldl_move_names, List.nil_append]

/-- A check that names no path is the run of the configuration with the current directory as its
root, whatever root it has, and is that of the configuration itself if this is its root. What it
counts, reports and rewrites lies under the current directory. -/
theorem check_without_path (parsers : Parsers) (env : Environment) (store : FileStore)
    (arguments : List String) (path : Path) (format : Format) (exclude : List String)
    (fixes : Bool) (named : Option Path) (hwf : store.WellFormed)
    (hcwd : ∀ name ∈ env.cwd, IsName name) (hnone : NamesNoPath arguments)
    (hparse : Invocation.parse arguments =
      some (.command (.check path format exclude fixes) named)) :
    (∀ file, (ConfigSource.resolve store env ⟨"."⟩ named).load store env = .error file →
      run parsers env store arguments = .failed store (.config file)) ∧
    (∀ config, (ConfigSource.resolve store env ⟨"."⟩ named).load store env = .ok config →
      run parsers env store arguments =
        configuredOutcome parsers env store format exclude fixes (config.withRoot ⟨"."⟩) ∧
      (env.cwdPath.join config.discovery.root = env.cwdPath.join ⟨"."⟩ →
        run parsers env store arguments =
          configuredOutcome parsers env store format exclude fixes config)) ∧
    ∀ config rule analysis result,
      Checks parsers env store named ⟨"."⟩ exclude fixes config rule analysis result →
        run parsers env store arguments =
          printed analysis format result (analysis.run store).store ∧
        analysis.StaysUnder store env.cwd result := by
  obtain rfl : path = ⟨"."⟩ := path_of_namesNoPath hnone hparse
  have hrun : run parsers env store arguments =
      check parsers env store named ⟨"."⟩ format exclude fixes := by
    rw [run, hparse]
  refine ⟨?_, ?_, ?_⟩
  · intro file hload
    rw [hrun, check, hload]
  · intro config hload
    rw [hrun, check_of_load hload]
    exact ⟨outcomeOf_requestOf, fun hroot => outcomeOf_congr fun rule =>
      (ofRequest_configuredRequest hroot).symm⟩
  · intro config rule analysis result hchecks
    have hroot := resolve_root_of_settled hcwd hchecks.settled hchecks.ran
    refine ⟨hrun.trans (hchecks.check_eq format), ?_⟩
    refine Analysis.staysUnder_of_run hwf ?_ hroot hchecks.ran
    intro other hother
    rw [hchecks.rules_eq.1, List.mem_singleton] at hother
    rw [hother]
    exact BanRule.staysInFile_toRule rule

/-! ## A project with sources in a directory -/

def rootedText : String :=
  "[analyzer]\nroot = \"src\"\nexclude = []\n"

/-- A source beside the configured root, in which there are none. -/
def rootedStore : FileStore :=
  ⟨[(["w", "a.ts"], .text "x: String"), (["w", "typeban.toml"], .text rootedText)],
    [["w", "src"]], []⟩

def rooted : Config := ⟨⟨⟨"src"⟩, [], true⟩, []⟩

def rootedAnalysis : Analysis where
  root := ⟨"/w/."⟩
  rules := [configuredRule.toRule]
  languages := configuredParsers.languages
  exclude := []
  config := rooted
  failsWithoutTree := false
  fixes := false

theorem load_rootedStore :
    (ConfigSource.resolve rootedStore surroundings ⟨"."⟩ none).load rootedStore surroundings =
      .ok rooted := by
  have hsource : ConfigSource.resolve rootedStore surroundings ⟨"."⟩ none =
      .project ⟨"/w/typeban.toml"⟩ := rfl
  have hread : rootedStore.read surroundings.cwd ⟨"/w/typeban.toml"⟩ = .ok rootedText := rfl
  have hparse : Config.parse rootedText = .ok rooted := by decide +kernel
  simp only [hsource, ConfigSource.load, ConfigSource.path?, hread, hparse]
  rfl

theorem resolve_rootedStore : rootedStore.resolve [] ⟨"/w/."⟩ = .ok ["w"] :=
  rfl

/-- From the current directory the source beside the configured root is found. -/
theorem sources_rootedStore :
    rootedAnalysis.sources rootedStore = .ok [⟨⟨"/w/./a.ts"⟩, Analysis.sampleLanguage⟩] := by
  have hvisible : (rootedAnalysis.scope rootedStore ["w"]).visibleFiles =
      [["a.ts"], ["typeban.toml"]] := rfl
  have hwalks : rootedAnalysis.Walks rootedStore [⟨"/w/./a.ts"⟩, ⟨"/w/./typeban.toml"⟩] :=
    Analysis.Walks.of_visibleFiles rfl resolve_rootedStore rfl rfl hvisible
  have hsource : rootedAnalysis.source? ⟨"/w/./a.ts"⟩ =
      some ⟨⟨"/w/./a.ts"⟩, Analysis.sampleLanguage⟩ := by
    have hextension : Path.extension? ⟨"/w/./a.ts"⟩ = some "ts" := rfl
    rw [Analysis.source?, Analysis.languageFor?, hextension]
    rfl
  have hother : rootedAnalysis.source? ⟨"/w/./typeban.toml"⟩ = none := by
    have hextension : Path.extension? ⟨"/w/./typeban.toml"⟩ = some "toml" := rfl
    rw [Analysis.source?, Analysis.languageFor?, hextension]
    rfl
  refine Analysis.sources_of_pairwise hwalks ?_ (List.pairwise_singleton _ _)
  rw [List.filterMap_cons_some hsource, List.filterMap_cons_none hother, List.filterMap_nil]

theorem run_rootedStore :
    (rootedAnalysis.run rootedStore).result = .ok ⟨[configuredBan], 1, 0⟩ := by
  have hread : rootedStore.read [] ⟨"/w/./a.ts"⟩ = .ok "x: String" := rfl
  have hbase : rootedAnalysis.base rootedStore = ⟨"/w/."⟩ :=
    Analysis.base_of_directory resolve_rootedStore rfl
  have hshown : Path.reportedFrom ⟨"/w/."⟩ ⟨"/w/./a.ts"⟩ = ⟨"a.ts"⟩ := rfl
  refine run_of_source sources_rootedStore rfl hread ?_
  rw [hbase, hshown]
  exact lint_configuredRule rfl rfl rfl

theorem checks_rootedStore :
    Checks configuredParsers surroundings rootedStore none ⟨"."⟩ [] false rooted configuredRule
      rootedAnalysis ⟨[configuredBan], 1, 0⟩ where
  loaded := load_rootedStore
  configured := rfl
  settled := by
    have hroot : surroundings.cwdPath.join ⟨"."⟩ = ⟨"/w/."⟩ := rfl
    refine Analysis.ofRequest_eq_ok_iff.2 ⟨[], List.Forall₂.nil, ?_⟩
    simp only [requestOf, Option.getD_some, hroot]
    rfl
  ran := run_rootedStore

/-- Below the configured root nothing is found. -/
theorem status_configuredOutcome_rootedStore :
    (configuredOutcome configuredParsers surroundings rootedStore .text [] false rooted).status =
      0 := by
  have hrule : rooted.banRule = .ok configuredRule := rfl
  let analysis : Analysis := { rootedAnalysis with root := ⟨"/w/src"⟩ }
  have hsettled : Analysis.ofRequest surroundings.cwdPath
      (configuredRequest configuredParsers rooted [] false configuredRule) = .ok analysis := by
    have hroot : surroundings.cwdPath.join rooted.discovery.root = ⟨"/w/src"⟩ := rfl
    refine Analysis.ofRequest_eq_ok_iff.2 ⟨[], List.Forall₂.nil, ?_⟩
    simp only [configuredRequest, requestOf, Option.getD_none, hroot]
    rfl
  have hsources : analysis.sources rootedStore = .ok [] := by
    have hresolve : rootedStore.resolve [] ⟨"/w/src"⟩ = .ok ["w", "src"] := rfl
    have hvisible : (analysis.scope rootedStore ["w", "src"]).visibleFiles = [] := rfl
    have hwalks : analysis.Walks rootedStore [] :=
      Analysis.Walks.of_visibleFiles rfl hresolve rfl rfl hvisible
    exact Analysis.sources_of_pairwise hwalks rfl .nil
  have hrun : (analysis.run rootedStore).result = .ok .empty := by
    have hsorted : Analysis.sorted .empty = .empty := Analysis.sorted_of_pairwise .nil
    rw [Analysis.run_of_sources hsources]
    exact congrArg Except.ok hsorted
  simp only [configuredOutcome, outcomeOf, hrule, hsettled, hrun]
  rfl

theorem namesNoPath_check : NamesNoPath ["check"] :=
  ⟨[], [], [], by decide, by decide, rfl⟩

theorem parse_check : Invocation.parse ["check"] =
    some (.command (.check ⟨"."⟩ .text [] false) none) := by
  decide

/-- A check without a path, of a project that configures another root. -/
theorem check_rootedStore :
    rootedStore.WellFormed ∧ (∀ name ∈ surroundings.cwd, IsName name) ∧ NamesNoPath ["check"] ∧
      Invocation.parse ["check"] = some (.command (.check ⟨"."⟩ .text [] false) none) ∧
      run configuredParsers surroundings rootedStore ["check"] =
        configuredOutcome configuredParsers surroundings rootedStore .text [] false
          (rooted.withRoot ⟨"."⟩) ∧
      rootedAnalysis.StaysUnder rootedStore ["w"] ⟨[configuredBan], 1, 0⟩ := by
  have hwf : rootedStore.WellFormed := by decide
  have hcwd : ∀ name ∈ surroundings.cwd, IsName name := by decide
  rcases check_without_path configuredParsers surroundings rootedStore ["check"] ⟨"."⟩ .text []
    false none hwf hcwd namesNoPath_check parse_check with ⟨-, hrun, hstays⟩
  exact ⟨hwf, hcwd, namesNoPath_check, parse_check, (hrun rooted load_rootedStore).1,
    (hstays rooted configuredRule rootedAnalysis _ checks_rootedStore).2⟩

/-- The check fails for a source that does not lie below the configured root, and that the run of
the configuration does not find. -/
theorem check_beside_root :
    (ConfigSource.resolve rootedStore surroundings ⟨"."⟩ none).load rootedStore surroundings =
        .ok rooted ∧
      rooted.discovery.root = ⟨"src"⟩ ∧ NamesNoPath ["check"] ∧
      (run configuredParsers surroundings rootedStore ["check"]).status = 1 ∧
      (configuredOutcome configuredParsers surroundings rootedStore .text [] false rooted).status =
        0 ∧
      (∃ source, rootedAnalysis.IsChecked rootedStore source ∧
        rootedStore.LeadsToFile [] source.path ["w", "a.ts"]) ∧
      ¬ ["w", "src"] <+: ["w", "a.ts"] := by
  have hcheck : run configuredParsers surroundings rootedStore ["check"] =
      check configuredParsers surroundings rootedStore none ⟨"."⟩ .text [] false := by
    rw [run, parse_check]
  refine ⟨load_rootedStore, rfl, namesNoPath_check, ?_, status_configuredOutcome_rootedStore, ?_,
    by decide⟩
  · rw [hcheck, checks_rootedStore.check_eq, printed_of_ne_json (by decide),
      status_reported_eq_one_iff]
    exact ⟨configuredBan, List.mem_singleton_self _, rfl⟩
  · have hwf : rootedStore.WellFormed := by decide
    rcases (Analysis.mem_violations_of_run_iff hwf run_rootedStore).1
      (List.mem_singleton_self configuredBan) with ⟨source, hchecked, -⟩
    refine ⟨source, hchecked, ?_⟩
    rcases hchecked with ⟨sources, hsources, hsource, -⟩
    obtain rfl : sources = _ := Except.ok.inj (hsources.symm.trans sources_rootedStore)
    rw [List.mem_singleton.1 hsource]
    exact ⟨rfl, rfl⟩

end CommandLine
end TypeNameLint
