import TypeNameLint.Edit
import TypeNameLint.Proofs.Text.Offsets

/-!
# Selection — which replacements are applied

The selection passes over the ordered replacements once and remembers the end of the last one it
took. Here every replacement carries a tag that says whether it is taken, so that what is left out
can be described too. This file defines:

* `StablySorted`: lists in the order of their spans, in which equal spans keep their places;
* `tagged`, `taken`: the replacements with their tags, and those that are applied;
* `IsSelection`: the conditions on the tags.

The main results are `stablySorted_inOrder` and `isSelection_tagged`.
-/

namespace TypeNameLint
namespace Edit

/-! ## Order -/

/-- The end of a span, where offsets are not cut to machine words. -/
def stopOf (r : Replacement) : Nat := r.location.offset + r.location.length

/-- Spans are ordered by their starts, and spans of one start by their ends. -/
def SpanLE (r s : Replacement) : Prop :=
  r.location.offset < s.location.offset ∨
    (r.location.offset = s.location.offset ∧ stopOf r ≤ stopOf s)

/-- A list in the order of spans that comes from another one without moving equal spans past each
other. -/
structure StablySorted (given ordered : List Replacement) : Prop where
  perm : ordered.Perm given
  sorted : ordered.Pairwise SpanLE
  stable : ∀ offset stop,
    ordered.filter (fun r => r.location.offset = offset ∧ stopOf r = stop) =
      given.filter fun r => r.location.offset = offset ∧ stopOf r = stop

/-- The replacements whose ends are machine words, so that no end wraps around. -/
def FitsWord (r : Replacement) : Prop := stopOf r < Location.wordSize

theorem FitsWord.stop_eq {r : Replacement} (h : FitsWord r) : r.location.stop = stopOf r :=
  Nat.mod_eq_of_lt h

theorem precedes_iff {r s : Replacement} (hr : FitsWord r) (hs : FitsWord s) :
    precedes r s = true ↔ SpanLE r s := by
  simp [precedes, SpanLE, hr.stop_eq, hs.stop_eq]

theorem precedes_trans (r s t : Replacement) (hrs : precedes r s = true)
    (hst : precedes s t = true) : precedes r t = true := by
  simp only [precedes, Bool.or_eq_true, Bool.and_eq_true, decide_eq_true_eq] at hrs hst ⊢
  omega

theorem precedes_total (r s : Replacement) : (precedes r s || precedes s r) = true := by
  simp only [precedes, Bool.or_eq_true, Bool.and_eq_true, decide_eq_true_eq]
  omega

theorem inOrder_perm (rs : List Replacement) : (inOrder rs).Perm rs :=
  List.mergeSort_perm rs precedes

theorem pairwise_inOrder (rs : List Replacement) :
    (inOrder rs).Pairwise fun r s => precedes r s = true :=
  List.pairwise_mergeSort precedes_trans precedes_total rs

/-- Where only equal replacements precede each other, there is one order. -/
theorem inOrder_eq_of_perm {rs ordered : List Replacement} (hperm : ordered.Perm rs)
    (hordered : ordered.Pairwise fun r s => precedes r s = true)
    (hapart : ∀ r ∈ rs, ∀ s ∈ rs, precedes r s = true → precedes s r = true → r = s) :
    inOrder rs = ordered := by
  refine List.Perm.eq_of_pairwise ?_ (pairwise_inOrder rs) hordered
    ((inOrder_perm rs).trans hperm.symm)
  intro r s hr hs
  exact hapart r ((inOrder_perm rs).mem_iff.1 hr) s (hperm.mem_iff.1 hs)

/-- Replacements of one span stay in the order in which they were given. -/
theorem filter_span_inOrder (rs : List Replacement) (hwords : ∀ r ∈ rs, FitsWord r)
    (offset stop : Nat) :
    (inOrder rs).filter (fun r => r.location.offset = offset ∧ stopOf r = stop) =
      rs.filter fun r => r.location.offset = offset ∧ stopOf r = stop := by
  let p : Replacement → Bool := fun r => r.location.offset = offset ∧ stopOf r = stop
  -- Replacements of one span precede each other both ways, so sorting keeps them as a sublist.
  have hties : (rs.filter p).Pairwise fun r s => precedes r s = true := by
    refine List.pairwise_of_forall_mem_list fun r hr s hs => ?_
    simp only [p, List.mem_filter, decide_eq_true_eq] at hr hs
    rw [precedes_iff (hwords r hr.1) (hwords s hs.1)]
    exact Or.inr ⟨hr.2.1.trans hs.2.1.symm, Nat.le_of_eq (hr.2.2.trans hs.2.2.symm)⟩
  have hsublist : (rs.filter p).Sublist ((inOrder rs).filter p) := by
    have hsorted : (rs.filter p).Sublist (inOrder rs) :=
      List.sublist_mergeSort precedes_trans precedes_total hties List.filter_sublist
    have hfiltered := hsorted.filter p
    rwa [List.filter_filter, show (fun r => p r && p r) = p by funext r; simp] at hfiltered
  -- A sublist of the same length is the whole list.
  have hlength : ((inOrder rs).filter p).length = (rs.filter p).length :=
    ((inOrder_perm rs).filter p).length_eq
  exact (hsublist.eq_of_length hlength.symm).symm

theorem stablySorted_inOrder (rs : List Replacement) (hwords : ∀ r ∈ rs, FitsWord r) :
    StablySorted rs (inOrder rs) where
  perm := inOrder_perm rs
  sorted := by
    refine (pairwise_inOrder rs).imp_of_mem fun hr hs hrs => ?_
    have hr := hwords _ ((inOrder_perm rs).mem_iff.1 hr)
    have hs := hwords _ ((inOrder_perm rs).mem_iff.1 hs)
    exact (precedes_iff hr hs).1 hrs
  stable := filter_span_inOrder rs hwords

/-! ## Tags -/

/-- The replacements of an ordered list, each with a tag that says whether it is taken. -/
def tagged (source : List Char) : Option Nat → List Replacement → List (Replacement × Bool)
  | _, [] => []
  | lastEnd, r :: rest =>
    if overlaps lastEnd r || !fits source r then (r, false) :: tagged source lastEnd rest
    else (r, true) :: tagged source (some r.location.stop) rest

/-- The replacements that are tagged as taken. -/
def taken (tags : List (Replacement × Bool)) : List Replacement :=
  (tags.filter Prod.snd).map Prod.fst

/-- Whether the span of a replacement is that of a text in the source. -/
def LiesInside (source : List Char) (r : Replacement) : Prop :=
  Text.IsSpan source r.location.offset (stopOf r)

/-- Tags that select from an ordered list: what is taken lies inside the source, with a gap between
neighbours, and a replacement inside the source is left out exactly if it starts at or before the
end of the last one taken in front of it. -/
structure IsSelection (source : List Char) (ordered : List Replacement)
    (tags : List (Replacement × Bool)) : Prop where
  untagged : tags.map Prod.fst = ordered
  inside : ∀ r ∈ taken tags, LiesInside source r
  separated : (taken tags).Pairwise fun r s => stopOf r < s.location.offset
  left_out : ∀ before r tag after, tags = before ++ (r, tag) :: after → LiesInside source r →
    (tag = false ↔
      ∃ last, (taken before).getLast? = some last ∧ r.location.offset ≤ stopOf last)

@[simp] theorem taken_nil : taken [] = [] := rfl

@[simp] theorem taken_cons_true (r : Replacement) (tags : List (Replacement × Bool)) :
    taken ((r, true) :: tags) = r :: taken tags := rfl

@[simp] theorem taken_cons_false (r : Replacement) (tags : List (Replacement × Bool)) :
    taken ((r, false) :: tags) = taken tags := rfl

theorem taken_sublist (tags : List (Replacement × Bool)) :
    (taken tags).Sublist (tags.map Prod.fst) :=
  List.filter_sublist.map Prod.fst

theorem fits_iff {source : List Char} {r : Replacement} (h : FitsWord r) :
    fits source r = true ↔ LiesInside source r := by
  rw [fits, h.stop_eq, LiesInside, Text.isSpan_iff]

variable {source : List Char}

theorem map_fst_tagged (lastEnd : Option Nat) (rs : List Replacement) :
    (tagged source lastEnd rs).map Prod.fst = rs := by
  induction rs generalizing lastEnd with
  | nil => rfl
  | cons r rest ih =>
    rw [tagged]
    split <;> simp [ih]

/-- What is tagged as taken is what the program selects. -/
theorem taken_tagged (lastEnd : Option Nat) (rs : List Replacement) :
    taken (tagged source lastEnd rs) = select source lastEnd rs := by
  induction rs generalizing lastEnd with
  | nil => rfl
  | cons r rest ih =>
    rw [tagged, select]
    split <;> simp [ih]

/-! ## What is selected -/

theorem select_sublist (lastEnd : Option Nat) (rs : List Replacement) :
    (select source lastEnd rs).Sublist rs := by
  rw [← taken_tagged]
  simpa [map_fst_tagged] using taken_sublist (tagged source lastEnd rs)

theorem fits_of_mem_select {lastEnd : Option Nat} {rs : List Replacement} {r : Replacement}
    (h : r ∈ select source lastEnd rs) : fits source r = true := by
  induction rs generalizing lastEnd with
  | nil => simp [select] at h
  | cons s rest ih =>
    rw [select] at h
    split at h
    · exact ih h
    · rename_i htest
      rcases List.mem_cons.1 h with rfl | h
      · simp only [Bool.or_eq_true, Bool.not_eq_true', not_or, Bool.not_eq_false] at htest
        exact htest.2
      · exact ih h

/-- A span that fits the source does not end before it starts. -/
theorem offset_le_stop_of_fits {r : Replacement} (h : fits source r = true) :
    r.location.offset ≤ r.location.stop := by
  rcases Text.isSpan_iff.2 h with ⟨before, text, after, -, -, hstop⟩
  omega

/-- Everything selected starts after the end that the selection began with. The ends taken on the
way only grow, as a span that fits does not end before it starts. -/
theorem lt_offset_of_mem_select {lastEnd : Option Nat} {rs : List Replacement} {r : Replacement}
    (h : r ∈ select source lastEnd rs) : ∀ stop ∈ lastEnd, stop < r.location.offset := by
  induction rs generalizing lastEnd with
  | nil => simp [select] at h
  | cons s rest ih =>
    intro stop hstop
    -- The end can only have moved to that of a replacement that starts after it.
    obtain rfl : lastEnd = some stop := hstop
    rw [select] at h
    split at h
    · exact ih h stop rfl
    · rename_i htest
      have htaken : stop < s.location.offset ∧ fits source s = true := by
        simpa [overlaps] using htest
      rcases List.mem_cons.1 h with rfl | h
      · exact htaken.1
      · have hafter := ih h s.location.stop rfl
        have hspan := offset_le_stop_of_fits htaken.2
        omega

theorem select_pairwise (lastEnd : Option Nat) (rs : List Replacement) :
    (select source lastEnd rs).Pairwise fun r s => r.location.stop < s.location.offset := by
  induction rs generalizing lastEnd with
  | nil => exact List.Pairwise.nil
  | cons r rest ih =>
    rw [select]
    split
    · exact ih lastEnd
    · refine List.Pairwise.cons (fun s hs => ?_) (ih _)
      exact lt_offset_of_mem_select hs r.location.stop rfl

/-- Nothing is selected only if nothing fits: the first replacement that fits is always taken. -/
theorem select_none_eq_nil_iff {rs : List Replacement} :
    select source none rs = [] ↔ ∀ r ∈ rs, fits source r = false := by
  induction rs with
  | nil => simp [select]
  | cons r rest ih =>
    have hfree : overlaps none r = false := rfl
    rw [select]
    cases hfits : fits source r with
    | false => simp [hfree, hfits, ih]
    | true => simp [hfree, hfits]

/-! ## What is left out -/

/-- The end of the last of some replacements, or the end that was given before them. -/
def lastStop (lastEnd : Option Nat) (rs : List Replacement) : Option Nat :=
  (rs.getLast?.map fun r => r.location.stop) <|> lastEnd

theorem lastStop_cons (lastEnd : Option Nat) (r : Replacement) (rs : List Replacement) :
    lastStop lastEnd (r :: rs) = lastStop (some r.location.stop) rs := by
  cases hlast : rs.getLast? with
  | none =>
    obtain rfl := List.getLast?_eq_none_iff.1 hlast
    rfl
  | some last => simp [lastStop, List.getLast?_cons, hlast]

/-- The tag of a replacement that fits depends only on the last end in front of it. The induction
moves that end along with the list, so it starts from any end. -/
theorem tag_eq_false_iff {lastEnd : Option Nat} {rs : List Replacement}
    {before after : List (Replacement × Bool)} {r : Replacement} {tag : Bool}
    (h : tagged source lastEnd rs = before ++ (r, tag) :: after) (hfits : fits source r = true) :
    tag = false ↔ overlaps (lastStop lastEnd (taken before)) r = true := by
  induction rs generalizing lastEnd before with
  | nil => simp [tagged] at h
  | cons s rest ih =>
    rw [tagged] at h
    cases before with
    -- The replacement is the first one: its tag is the outcome of the test.
    | nil =>
      have hlast : lastStop lastEnd (taken []) = lastEnd := by simp [lastStop]
      rw [hlast]
      split at h
      · rename_i htest
        simp only [List.nil_append, List.cons.injEq, Prod.mk.injEq] at h
        rcases h with ⟨⟨rfl, rfl⟩, -⟩
        simpa [hfits] using htest
      · rename_i htest
        simp only [List.nil_append, List.cons.injEq, Prod.mk.injEq] at h
        rcases h with ⟨⟨rfl, rfl⟩, -⟩
        simpa [hfits] using htest
    | cons first before =>
      split at h
      -- A replacement left out in front leaves the end where it is; one that is taken moves it.
      · simp only [List.cons_append, List.cons.injEq] at h
        rcases h with ⟨rfl, hrest⟩
        rw [taken_cons_false]
        exact ih hrest
      · simp only [List.cons_append, List.cons.injEq] at h
        rcases h with ⟨rfl, hrest⟩
        rw [taken_cons_true, lastStop_cons]
        exact ih hrest

theorem isSelection_tagged (rs : List Replacement) (hwords : ∀ r ∈ rs, FitsWord r) :
    IsSelection source rs (tagged source none rs) where
  untagged := map_fst_tagged none rs
  inside := by
    intro r hr
    rw [taken_tagged] at hr
    exact (fits_iff (hwords r ((select_sublist none rs).subset hr))).1 (fits_of_mem_select hr)
  separated := by
    rw [taken_tagged]
    refine (select_pairwise none rs).imp_of_mem fun hr _ hlt => ?_
    rwa [← (hwords _ ((select_sublist none rs).subset hr)).stop_eq]
  left_out := by
    intro before r tag after htags hinside
    -- The ends in front are not wrapped, so the test compares true ends.
    have hwordsBefore : ∀ s ∈ taken before, FitsWord s := by
      intro s hs
      have hsource : s ∈ (tagged source none rs).map Prod.fst := by
        rw [htags, List.map_append]
        exact List.mem_append_left _ ((taken_sublist before).subset hs)
      rw [map_fst_tagged] at hsource
      exact hwords s hsource
    have hword : FitsWord r := by
      have hsource : r ∈ (tagged source none rs).map Prod.fst := by simp [htags]
      rw [map_fst_tagged] at hsource
      exact hwords r hsource
    rw [tag_eq_false_iff htags ((fits_iff hword).2 hinside)]
    cases hlast : (taken before).getLast? with
    | none => simp [lastStop, hlast, overlaps]
    | some last =>
      have hstop := (hwordsBefore last (List.mem_of_getLast? hlast)).stop_eq
      simp [lastStop, hlast, overlaps, hstop]

end Edit
end TypeNameLint
