import TypeNameLint.Proofs.Analysis.Discovery

/-!
# Requests — what a run is settled from

A run takes over what it is asked for. Only its root, which is made absolute, and its patterns,
which are read, are settled. The main result is `ofRequest_eq_ok_iff`.
-/

namespace TypeNameLint
namespace Analysis

variable {request : Request} {cwd : Path} {analysis : Analysis}

/-- The patterns of a request, in the order in which they are tested. -/
def patterns (request : Request) : List String :=
  request.exclude ++ request.config.discovery.exclude

theorem ofRequest_eq_ok_iff :
    ofRequest cwd request = .ok analysis ↔
      ∃ excludes, List.Forall₂ (fun pattern exclude => Exclude.parse pattern = .ok exclude)
          (patterns request) excludes ∧
        analysis = ⟨cwd.join (request.root.getD request.config.discovery.root), request.rules,
          request.languages, excludes, request.config, request.failsWithoutTree, request.fixes⟩ := by
  rw [ofRequest, ← patterns]
  cases hpatterns : (patterns request).mapM Exclude.parse with
  | error fault =>
    constructor
    · intro h
      cases h
    · rintro ⟨excludes, hexcludes, -⟩
      rw [mapM_eq_ok_iff.2 hexcludes] at hpatterns
      cases hpatterns
  | ok excludes =>
    constructor
    · intro h
      cases h
      exact ⟨excludes, mapM_eq_ok_iff.1 hpatterns, rfl⟩
    · rintro ⟨others, hothers, rfl⟩
      rw [mapM_eq_ok_iff.2 hothers] at hpatterns
      cases hpatterns
      rfl

end Analysis
end TypeNameLint
