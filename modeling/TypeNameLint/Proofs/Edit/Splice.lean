import TypeNameLint.Proofs.Edit.Selection

/-!
# Splice — the text that replacements leave

The new text is put together from left to right, from slices of the source and the new texts. Here
it is compared with two other accounts of the same text. This file defines:

* `Rewrites`: two texts that agree outside the spans of some replacements;
* `splice?`, `spliceAll?`: one replacement written over its span, and all of them, the last first;
* `assemble?`: the text put together with every slice checked.

A batch of replacements is taken apart by `apply_eq_spliceAll?`.
-/

namespace TypeNameLint
namespace Edit

open Text

/-! ## Three accounts of the new text -/

/-- Two texts from byte `cursor` on that agree outside the spans of some replacements: between the
spans stands the same text in both, and a span of the first is the new text in the second. -/
inductive Rewrites : Nat → List Replacement → List Char → List Char → Prop
  | rest (cursor : Nat) (text : List Char) : Rewrites cursor [] text text
  | step {cursor : Nat} {r : Replacement} {rs : List Replacement} {gap old text new : List Char}
      (gap_length : cursor + byteLength gap = r.location.offset)
      (old_length : r.location.offset + byteLength old = stopOf r)
      (more : Rewrites (stopOf r) rs text new) :
      Rewrites cursor (r :: rs) (gap ++ old ++ text) (gap ++ r.newText.toList ++ new)

/-- The text with one replacement written over its span, unless the span is not that of a text. -/
def splice? (r : Replacement) (text : List Char) : Option (List Char) := do
  let (before, rest) ← splitAtByte? r.location.offset text
  let (_, after) ← splitAtByte? r.location.length rest
  return before ++ r.newText.toList ++ after

/-- The text with all replacements written over their spans one at a time, from the last one to the
first, so that no span moves before its turn. -/
def spliceAll? (rs : List Replacement) (text : List Char) : Option (List Char) :=
  rs.foldr (fun r text? => text?.bind (splice? r)) (some text)

/-- The text that is put together from byte `cursor` on, if all slices on the way can be cut. -/
def assemble? (source : List Char) : Nat → List Replacement → Option (List Char)
  | cursor, [] => slice? source cursor (byteLength source)
  | cursor, r :: rest => do
    let gap ← slice? source cursor r.location.offset
    let tail ← assemble? source r.location.stop rest
    return gap ++ r.newText.toList ++ tail

/-- Where all slices can be cut, the checks change nothing. -/
theorem assemble_of_assemble? {source new : List Char} {cursor : Nat} {rs : List Replacement}
    (h : assemble? source cursor rs = some new) : assemble source cursor rs = new := by
  induction rs generalizing cursor new with
  | nil =>
    rw [assemble?] at h
    rw [assemble, h]
    rfl
  | cons r rest ih =>
    simp only [assemble?, Option.bind_eq_bind, Option.bind_eq_some_iff] at h
    rcases h with ⟨gap, hgap, tail, htail, hnew⟩
    rw [assemble, hgap, ih htail]
    exact Option.some.inj hnew

/-! ## Their agreement -/

theorem byteLength_eq_zero_iff {cs : List Char} : byteLength cs = 0 ↔ cs = [] := by
  cases cs with
  | nil => simp
  | cons c cs =>
    have hc : 0 < c.utf8Size := c.utf8Size_pos
    simp only [byteLength_cons, reduceCtorEq, iff_false]
    omega

/-- Of two beginnings of a text the longer one continues the shorter one. -/
theorem exists_gap {before text other rest : List Char} (h : before ++ text = other ++ rest)
    (hle : byteLength before ≤ byteLength other) :
    ∃ gap, other = before ++ gap ∧ text = gap ++ rest := by
  rcases List.append_eq_append_iff.1 h with ⟨gap, hother, htext⟩ | ⟨back, hbefore, hrest⟩
  · exact ⟨gap, hother, htext⟩
  · have hback : back = [] := by
      rw [hbefore, byteLength_append] at hle
      exact byteLength_eq_zero_iff.1 (by omega)
    subst hback
    exact ⟨[], by simpa using hbefore.symm, by simpa using hrest.symm⟩

/-- Separated spans inside the source can all be cut, and what is put together agrees with the
source outside of them. The induction is on the spans still to come, and what it carries is that the
cursor stands just after a text `before` which the source begins with. -/
theorem exists_rewrites_assemble? {source before text : List Char} {rs : List Replacement}
    (hsource : source = before ++ text) (hinside : ∀ r ∈ rs, LiesInside source r)
    (hwords : ∀ r ∈ rs, FitsWord r)
    (hstart : ∀ r ∈ rs, byteLength before ≤ r.location.offset)
    (hseparated : rs.Pairwise fun r s => stopOf r < s.location.offset) :
    ∃ new, Rewrites (byteLength before) rs text new ∧
      assemble? source (byteLength before) rs = some new := by
  induction rs generalizing before text with
  | nil =>
    refine ⟨text, Rewrites.rest _ _, ?_⟩
    have hslice := slice?_append before text []
    rwa [List.append_nil, ← byteLength_append, ← hsource] at hslice
  | cons r rest ih =>
    rcases hinside r List.mem_cons_self with ⟨front, old, after, hfront, hoffset, hstop⟩
    -- The span starts at or behind the cursor, so a gap leads from there to the span.
    obtain ⟨gap, rfl, htext⟩ : ∃ gap, front = before ++ gap ∧ text = gap ++ (old ++ after) := by
      refine exists_gap ?_ ?_
      · rw [← hsource, hfront, List.append_assoc]
      · rw [hoffset]
        exact hstart r List.mem_cons_self
    have hcursor : byteLength (before ++ gap ++ old) = stopOf r := by
      rw [byteLength_append, hoffset, hstop]
    -- Behind the span the cursor stands in front of all later ones.
    have hlater : ∀ s ∈ rest, byteLength (before ++ gap ++ old) ≤ s.location.offset := by
      intro s hs
      rw [hcursor]
      exact Nat.le_of_lt (List.rel_of_pairwise_cons hseparated hs)
    obtain ⟨new, hrewrites, hassemble⟩ := ih hfront
      (fun s hs => hinside s (List.mem_cons_of_mem _ hs))
      (fun s hs => hwords s (List.mem_cons_of_mem _ hs)) hlater hseparated.of_cons
    rw [hcursor] at hrewrites hassemble
    rw [byteLength_append] at hoffset
    refine ⟨gap ++ r.newText.toList ++ new, ?_, ?_⟩
    · rw [htext, ← List.append_assoc]
      exact Rewrites.step hoffset hstop hrewrites
    · have hgap : slice? source (byteLength before) r.location.offset = some gap := by
        have hslice := slice?_append before gap (old ++ after)
        rwa [← List.append_assoc, ← hfront, hoffset] at hslice
      have hword := (hwords r List.mem_cons_self).stop_eq
      simp [assemble?, hgap, hword, hassemble]

/-- Splicing from the last replacement to the first gives the text that agrees outside the spans:
when a span has its turn, the text up to its end is still that of the source. -/
theorem spliceAll?_of_rewrites {cursor : Nat} {rs : List Replacement} {text new : List Char}
    (h : Rewrites cursor rs text new) (before : List Char) (hbefore : byteLength before = cursor) :
    spliceAll? rs (before ++ text) = some (before ++ new) := by
  induction h generalizing before with
  | rest cursor text => rfl
  | @step cursor r rs gap old text new hgap hold _ ih =>
    -- All later spans are spliced first, behind the text up to the end of this one.
    have hlater := ih (before ++ gap ++ old) (by
      rw [byteLength_append, byteLength_append, hbefore, hgap, hold])
    have hfirst : splitAtByte? r.location.offset (before ++ gap ++ old ++ new) =
        some (before ++ gap, old ++ new) := by
      rw [List.append_assoc _ old, ← hgap, ← hbefore, ← byteLength_append]
      exact splitAtByte?_append _ _
    have hsecond : splitAtByte? r.location.length (old ++ new) = some (old, new) := by
      have hlength : r.location.length = byteLength old := by
        rw [stopOf] at hold
        omega
      rw [hlength]
      exact splitAtByte?_append _ _
    have htext : before ++ (gap ++ old ++ text) = before ++ gap ++ old ++ text := by simp
    have hsplice : splice? r (before ++ gap ++ old ++ new) =
        some (before ++ gap ++ r.newText.toList ++ new) := by
      simp only [splice?, hfirst, hsecond, Option.bind_eq_bind, Option.bind_some]
      rfl
    rw [htext, spliceAll?, List.foldr_cons, ← spliceAll?, hlater, Option.bind_some, hsplice]
    simp

/-! ## A batch of replacements -/

theorem apply_of_select_eq_nil {source : String} {rs : List Replacement}
    (h : select source.toList none (inOrder rs) = []) :
    apply source rs = ⟨source, 0, rs.length⟩ := by
  have hslice := slice?_append [] source.toList []
  simp only [List.nil_append, List.append_nil, byteLength_nil, Nat.zero_add] at hslice
  simp [apply, h, assemble, hslice]

/-- If nothing is applied, the source stays as it is. -/
theorem output_of_applied_eq_zero {source : String} {rs : List Replacement}
    (h : (apply source rs).applied = 0) : (apply source rs).output = source := by
  have hnil : select source.toList none (inOrder rs) = [] := List.eq_nil_of_length_eq_zero h
  rw [apply_of_select_eq_nil hnil]

theorem applied_add_skipped (source : String) (rs : List Replacement) :
    (apply source rs).applied + (apply source rs).skipped = rs.length := by
  have hle := (select_sublist none (inOrder rs) : (select source.toList none _).Sublist _).length_le
  have hlength : (inOrder rs).length = rs.length := (inOrder_perm rs).length_eq
  simp only [apply]
  omega

/-- Something is applied as soon as one of the replacements fits. -/
theorem applied_eq_zero_iff {source : String} {rs : List Replacement} :
    (apply source rs).applied = 0 ↔ ∀ r ∈ rs, fits source.toList r = false := by
  have hcount : (apply source rs).applied = 0 ↔ select source.toList none (inOrder rs) = [] := by
    simp [apply]
  rw [hcount, select_none_eq_nil_iff]
  simp only [(inOrder_perm rs).mem_iff]

/-- The output agrees with the source outside the spans of what is selected, and every slice of the
source that it is put together from can be cut. -/
theorem rewrites_output (source : String) (rs : List Replacement)
    (hwords : ∀ r ∈ rs, FitsWord r) :
    Rewrites 0 (select source.toList none (inOrder rs)) source.toList
        (apply source rs).output.toList ∧
      assemble? source.toList 0 (select source.toList none (inOrder rs)) =
        some (apply source rs).output.toList := by
  have hordered : ∀ r ∈ inOrder rs, FitsWord r := fun r hr =>
    hwords r ((inOrder_perm rs).mem_iff.1 hr)
  have hselection : IsSelection source.toList (inOrder rs) (tagged _ none (inOrder rs)) :=
    isSelection_tagged (inOrder rs) hordered
  have htaken := @taken_tagged source.toList none (inOrder rs)
  have hsource : source.toList = [] ++ source.toList := rfl
  obtain ⟨new, hrewrites, hassemble⟩ := exists_rewrites_assemble? hsource
    (htaken ▸ hselection.inside) (fun r hr => hordered r ((select_sublist none _).subset hr))
    (fun r _ => Nat.zero_le _) (htaken ▸ hselection.separated)
  have houtput : (apply source rs).output.toList = new := by
    rw [apply, String.toList_ofList]
    exact assemble_of_assemble? hassemble
  rw [houtput]
  exact ⟨hrewrites, hassemble⟩

/-- A batch of replacements, taken apart. The tags of the ordered replacements say which of them
are applied; the output is the source with these spliced in from the last one to the first, and
agrees with it outside their spans; every slice on the way can be cut. -/
theorem apply_eq_spliceAll? (source : String) (rs : List Replacement)
    (hwords : ∀ r ∈ rs, r.location.offset + r.location.length < Location.wordSize) :
    StablySorted rs (inOrder rs) ∧
      ∃ tags, IsSelection source.toList (inOrder rs) tags ∧
        (taken tags).Sublist (inOrder rs) ∧
        spliceAll? (taken tags) source.toList = some (apply source rs).output.toList ∧
        Rewrites 0 (taken tags) source.toList (apply source rs).output.toList ∧
        assemble? source.toList 0 (taken tags) = some (apply source rs).output.toList ∧
        (apply source rs).applied = (taken tags).length ∧
        (apply source rs).applied + (apply source rs).skipped = rs.length ∧
        ((apply source rs).applied = 0 ↔ ∀ r ∈ rs, ¬ LiesInside source.toList r) ∧
        ((apply source rs).applied = 0 → (apply source rs).output = source) := by
  have hordered : ∀ r ∈ inOrder rs, FitsWord r := fun r hr =>
    hwords r ((inOrder_perm rs).mem_iff.1 hr)
  rcases rewrites_output source rs hwords with ⟨hrewrites, hassemble⟩
  have hnone : (∀ r ∈ rs, fits source.toList r = false) ↔
      ∀ r ∈ rs, ¬ LiesInside source.toList r := by
    refine forall₂_congr fun r hr => ?_
    rw [← fits_iff (hwords r hr), Bool.not_eq_true]
  refine ⟨stablySorted_inOrder rs hwords, tagged source.toList none (inOrder rs),
    isSelection_tagged _ hordered, ?_⟩
  rw [taken_tagged]
  refine ⟨select_sublist none _, ?_, hrewrites, hassemble, rfl, applied_add_skipped source rs,
    applied_eq_zero_iff.trans hnone, output_of_applied_eq_zero⟩
  exact spliceAll?_of_rewrites hrewrites [] rfl

def overwriting (offset length : Nat) (newText : String) : Replacement :=
  ⟨⟨⟨"a.ts"⟩, 1, offset + 1, offset, length⟩, newText⟩

/-- A span inside another one, and one that ends inside a character. -/
def sampleBatch : List Replacement :=
  [overwriting 13 6 "string", overwriting 9 11 "Bar", overwriting 22 1 "x"]

/-- The outer span is taken, the inner one overlaps it, and the last one does not fit. -/
theorem apply_sampleBatch :
    (∀ r ∈ sampleBatch, r.location.offset + r.location.length < Location.wordSize) ∧
      ∃ tags, IsSelection "type A = Foo<String>;é".toList (inOrder sampleBatch) tags ∧
        spliceAll? (taken tags) "type A = Foo<String>;é".toList = some "type A = Bar;é".toList := by
  have hwords : ∀ r ∈ sampleBatch, r.location.offset + r.location.length < Location.wordSize := by
    decide
  have horder : inOrder sampleBatch =
      [overwriting 9 11 "Bar", overwriting 13 6 "string", overwriting 22 1 "x"] :=
    inOrder_eq_of_perm (by decide) (by decide) (by decide)
  have houtput : (apply "type A = Foo<String>;é" sampleBatch).output = "type A = Bar;é" := by
    rw [apply, horder]
    decide
  obtain ⟨-, tags, hselection, -, hsplice, -⟩ :=
    apply_eq_spliceAll? "type A = Foo<String>;é" sampleBatch hwords
  rw [houtput] at hsplice
  exact ⟨hwords, tags, hselection, hsplice⟩

end Edit
end TypeNameLint
