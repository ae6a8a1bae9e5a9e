import TypeNameLint.Proofs.Directive.Marker
import TypeNameLint.Proofs.Text.Trimming

/-!
# Comments — the comment that is read in a line

In a line the first mark that opens a comment counts, whether or not it stands in a string, and
the comment ends with the line or at the first mark that closes it. This file defines:

* `OpensNone`, `IsLead`: texts in which no comment opens, and those that a comment can follow;
* `StartsComment`: a comment at the start of a text, with its body and what follows it;

and proves that these are the comments that are read (`commentText?_eq_some_iff`), and that blanks
at the end of a line make no difference (`parse?_append_of_allBlank`).
-/

namespace TypeNameLint
namespace Directive

variable {line code text body after blanks cs : List Char} {c : Char}

/-! ## Marks that open a comment -/

/-- A text in which neither `//` nor `/*` occurs. -/
def OpensNone (cs : List Char) : Prop :=
  ¬ ['/', '/'] <:+: cs ∧ ¬ ['/', '*'] <:+: cs

/-- A text that a comment can follow: no comment opens in it, and it does not end with a slash,
with which one would open earlier. -/
structure IsLead (code : List Char) : Prop where
  opensNone : OpensNone code
  no_slash : code.getLast? ≠ some '/'

/-- A character opens a comment together with the first one of the text behind it. -/
def OpensAt (c : Char) (cs : List Char) : Prop :=
  c = '/' ∧ (cs.head? = some '/' ∨ cs.head? = some '*')

theorem pair_prefix_cons_iff {a b : Char} : [a, b] <+: c :: cs ↔ c = a ∧ cs.head? = some b := by
  rw [List.cons_prefix_cons, List.singleton_prefix_iff_head?_eq_some, eq_comm]

theorem not_opensAt_of_forall_ne (hline : ∀ rest, c = '/' → cs = '/' :: rest → False)
    (hblock : ∀ rest, c = '/' → cs = '*' :: rest → False) : ¬ OpensAt c cs := by
  rintro ⟨hc, hhead | hhead⟩
  · rcases List.head?_eq_some_iff.1 hhead with ⟨rest, hcs⟩
    exact hline rest hc hcs
  · rcases List.head?_eq_some_iff.1 hhead with ⟨rest, hcs⟩
    exact hblock rest hc hcs

theorem opensNone_cons_iff : OpensNone (c :: cs) ↔ ¬ OpensAt c cs ∧ OpensNone cs := by
  rw [OpensNone, OpensNone, OpensAt, List.infix_cons_iff, List.infix_cons_iff,
    pair_prefix_cons_iff, pair_prefix_cons_iff]
  grind

theorem opensNone_append_cons_iff {xs ys : List Char} (hslash : c ≠ '/') (hstar : c ≠ '*') :
    OpensNone (xs ++ c :: ys) ↔ OpensNone xs ∧ OpensNone ys := by
  rw [OpensNone, OpensNone, OpensNone, Text.pair_infix_append_cons_iff hslash hslash,
    Text.pair_infix_append_cons_iff hslash hstar]
  grind

theorem isLead_nil : IsLead [] := by
  refine ⟨⟨?_, ?_⟩, ?_⟩ <;> simp

theorem IsLead.of_suffix (h : IsLead code) (hsuffix : cs <:+ code) : IsLead cs := by
  refine ⟨⟨fun hmem => h.opensNone.1 (hmem.trans hsuffix.isInfix),
    fun hmem => h.opensNone.2 (hmem.trans hsuffix.isInfix)⟩, ?_⟩
  intro hlast
  rcases hsuffix with ⟨front, rfl⟩
  exact h.no_slash (by simp [hlast])

/-- No comment opens in a lead, whatever follows it. -/
theorem IsLead.not_opensAt (h : IsLead (c :: code)) : ¬ OpensAt c (code ++ text) := by
  rintro ⟨rfl, hhead⟩
  cases code with
  | nil => exact h.no_slash rfl
  | cons d code =>
    have hcode : (d :: code ++ text).head? = (d :: code).head? := rfl
    rw [hcode] at hhead
    exact (opensNone_cons_iff.1 h.opensNone).1 ⟨rfl, hhead⟩

/-- With a slash in the text behind it, a lead cannot be extended by a slash. -/
theorem IsLead.cons (h : IsLead code) (htext : text.head? = some '/')
    (hopens : ¬ OpensAt c (code ++ text)) : IsLead (c :: code) := by
  cases code with
  | nil =>
    have hc : c ≠ '/' := fun hc => hopens ⟨hc, Or.inl htext⟩
    refine ⟨opensNone_cons_iff.2 ⟨fun hopensAt => hc hopensAt.1, h.opensNone⟩, ?_⟩
    simpa using hc
  | cons d code =>
    refine ⟨opensNone_cons_iff.2 ⟨fun hopensAt => hopens hopensAt, h.opensNone⟩, ?_⟩
    rw [List.getLast?_cons_cons]
    exact h.no_slash

/-! ## Comments -/

/-- A comment at the start of a text, with its body and what stands behind it: a line comment goes
on to the end of the text, and so does a block comment that is not closed. -/
inductive StartsComment : List Char → List Char → List Char → Prop
  | line (body : List Char) : StartsComment ('/' :: '/' :: body) body []
  | block {body : List Char} (after : List Char) (noEnd : ¬ ['*', '/'] <:+: body) :
      StartsComment ('/' :: '*' :: (body ++ '*' :: '/' :: after)) body after
  | openBlock {body : List Char} (noEnd : ¬ ['*', '/'] <:+: body) :
      StartsComment ('/' :: '*' :: body) body []

theorem StartsComment.head?_eq (h : StartsComment text body after) : text.head? = some '/' := by
  cases h <;> rfl

theorem blockBody_append (noEnd : ¬ ['*', '/'] <:+: body) (after : List Char) :
    blockBody (body ++ '*' :: '/' :: after) = body := by
  have hfirst : ¬ ['*', '/'] <:+: body ++ ['*', '/'].dropLast := by
    rw [Text.pair_infix_append_of_not_mem_right (by decide)]
    exact noEnd
  have hsplit : Text.splitOnce? ['*', '/'] (body ++ ['*', '/'] ++ after) = some (body, after) :=
    Text.splitOnce?_append hfirst
  have hbody : body ++ '*' :: '/' :: after = body ++ ['*', '/'] ++ after := by simp
  rw [blockBody, hbody, hsplit]
  rfl

theorem blockBody_eq_self (noEnd : ¬ ['*', '/'] <:+: body) : blockBody body = body := by
  rw [blockBody, Text.splitOnce?_eq_none_iff.2 noEnd]
  rfl

theorem exists_startsComment_block (cs : List Char) :
    ∃ after, StartsComment ('/' :: '*' :: cs) (blockBody cs) after := by
  cases hsplit : Text.splitOnce? ['*', '/'] cs with
  | none =>
    have noEnd := Text.splitOnce?_eq_none_iff.1 hsplit
    rw [blockBody_eq_self noEnd]
    exact ⟨[], .openBlock noEnd⟩
  | some parts =>
    rcases parts with ⟨body, after⟩
    have noEnd : ¬ ['*', '/'] <:+: body := fun hmem =>
      Text.not_infix_of_splitOnce? (List.cons_ne_nil _ _) hsplit
        (hmem.trans (List.prefix_append _ _).isInfix)
    have hcs : cs = body ++ '*' :: '/' :: after := by
      simpa using Text.eq_append_of_splitOnce? hsplit
    rw [hcs, blockBody_append noEnd]
    exact ⟨after, .block after noEnd⟩

/-! ## The comment of a line -/

theorem commentText?_cons (h : ¬ OpensAt c cs) : commentText? (c :: cs) = commentText? cs := by
  rw [commentText?]
  · rintro rest rfl rfl
    exact h ⟨rfl, Or.inl rfl⟩
  · rintro rest rfl rfl
    exact h ⟨rfl, Or.inr rfl⟩

theorem commentText?_append_of_isLead (h : IsLead code) :
    commentText? (code ++ text) = commentText? text := by
  induction code with
  | nil => rfl
  | cons c code ih =>
    rw [List.cons_append, commentText?_cons h.not_opensAt]
    exact ih (h.of_suffix (List.suffix_cons c code))

theorem StartsComment.commentText?_eq (h : StartsComment text body after) :
    commentText? text = some body := by
  cases h with
  | line => rfl
  | block after noEnd => rw [commentText?, blockBody_append noEnd]
  | openBlock noEnd => rw [commentText?, blockBody_eq_self noEnd]

theorem commentText?_eq_none_iff : commentText? line = none ↔ OpensNone line := by
  fun_induction commentText? line with
  | case1 rest =>
    refine iff_of_false (Option.some_ne_none _) ?_
    exact fun h => h.1 (List.prefix_append ['/', '/'] rest).isInfix
  | case2 rest =>
    refine iff_of_false (Option.some_ne_none _) ?_
    exact fun h => h.2 (List.prefix_append ['/', '*'] rest).isInfix
  | case3 c rest hline hblock ih =>
    rw [ih, opensNone_cons_iff, and_iff_right (not_opensAt_of_forall_ne hline hblock)]
  | case4 => exact iff_of_true rfl isLead_nil.opensNone

instance (cs : List Char) : Decidable (OpensNone cs) :=
  decidable_of_iff (commentText? cs = none) commentText?_eq_none_iff

instance (cs : List Char) : Decidable (IsLead cs) :=
  decidable_of_iff (OpensNone cs ∧ cs.getLast? ≠ some '/')
    ⟨fun h => ⟨h.1, h.2⟩, fun h => ⟨h.opensNone, h.no_slash⟩⟩

/-- The comment of a line is the one that opens first. -/
theorem commentText?_eq_some_iff :
    commentText? line = some body ↔
      ∃ code text after, line = code ++ text ∧ IsLead code ∧ StartsComment text body after := by
  constructor
  · intro h
    -- What is passed over on the way to the mark is a lead.
    fun_induction commentText? line with
    | case1 rest =>
      cases h
      exact ⟨[], _, [], rfl, isLead_nil, .line body⟩
    | case2 rest =>
      cases h
      rcases exists_startsComment_block rest with ⟨after, hstarts⟩
      exact ⟨[], _, after, rfl, isLead_nil, hstarts⟩
    | case3 c rest hline hblock ih =>
      rcases ih h with ⟨code, text, after, rfl, hlead, hstarts⟩
      have hopens := not_opensAt_of_forall_ne hline hblock
      exact ⟨c :: code, text, after, rfl, hlead.cons hstarts.head?_eq hopens, hstarts⟩
    | case4 => cases h
  · rintro ⟨code, text, after, rfl, hlead, hstarts⟩
    rw [commentText?_append_of_isLead hlead]
    exact hstarts.commentText?_eq

theorem parse?_of_startsComment (hlead : IsLead code) (hstarts : StartsComment text body after) :
    parse? (code ++ text) = ofComment? body := by
  rw [parse?, commentText?_append_of_isLead hlead, hstarts.commentText?_eq]
  rfl

/-! ## Blanks at the end -/

theorem reason?_append_of_allBlank (h : Text.AllBlank blanks) :
    reason? (cs ++ blanks) = reason? cs := by
  rw [reason?, reason?, Text.trim_append_of_allBlank h]

theorem ofComment?_append_of_allBlank (h : Text.AllBlank blanks) :
    ofComment? (cs ++ blanks) = ofComment? cs := by
  have hclose : ')' ∉ blanks := Text.not_mem_of_allBlank h (by decide)
  simp only [ofComment?, Option.bind_eq_bind, Option.bind_map, Function.comp_def,
    Text.stripStart?_trimStart_append h (by decide : marker ≠ []) (by decide),
    Text.stripStart?_trimStart_append h (by decide : "allow".toList ≠ []) (by decide),
    Text.stripStart?_trimStart_append h (by decide : ['('] ≠ []) (by decide),
    Text.splitOnce?_singleton_append hclose, reason?_append_of_allBlank h]

theorem StartsComment.append_of_allBlank (hstarts : StartsComment text body after)
    (h : Text.AllBlank blanks) :
    ∃ blanks' after', Text.AllBlank blanks' ∧
      StartsComment (text ++ blanks) (body ++ blanks') after' := by
  cases hstarts with
  | line => exact ⟨blanks, [], h, .line _⟩
  | block after noEnd =>
    refine ⟨[], after ++ blanks, rfl, ?_⟩
    simpa using StartsComment.block (after ++ blanks) noEnd
  | openBlock noEnd =>
    have hslash : '/' ∉ blanks := Text.not_mem_of_allBlank h (by decide)
    exact ⟨blanks, [], h,
      .openBlock fun hmem => noEnd ((Text.pair_infix_append_of_not_mem_right hslash).1 hmem)⟩

/-- Blanks at the end of a line make no difference. -/
theorem parse?_append_of_allBlank (h : Text.AllBlank blanks) :
    parse? (line ++ blanks) = parse? line := by
  cases hcomment : commentText? line with
  | none =>
    have hslash : '/' ∉ blanks := Text.not_mem_of_allBlank h (by decide)
    have hstar : '*' ∉ blanks := Text.not_mem_of_allBlank h (by decide)
    have hnone : OpensNone (line ++ blanks) := by
      rw [OpensNone, Text.pair_infix_append_of_not_mem_right hslash,
        Text.pair_infix_append_of_not_mem_right hstar]
      exact commentText?_eq_none_iff.1 hcomment
    rw [parse?, parse?, hcomment, commentText?_eq_none_iff.2 hnone]
  | some body =>
    rcases commentText?_eq_some_iff.1 hcomment with ⟨code, text, after, rfl, hlead, hstarts⟩
    rcases hstarts.append_of_allBlank h with ⟨blanks', after', hblanks', hstarts'⟩
    rw [List.append_assoc, parse?_of_startsComment hlead hstarts,
      parse?_of_startsComment hlead hstarts', ofComment?_append_of_allBlank hblanks']

end Directive
end TypeNameLint
