import TypeNameLint.Glob

/-!
# Reading — the tokens of a pattern, and the paths that they match

Plain characters are read as themselves. Two stars are read only where they fill the space between
slashes, so a pattern that is read tells what stands before and after them. This file defines:

* `Glob.IsPlain`: texts whose characters all stand for themselves;
* `Glob.around`: texts with stars around them;

and describes what is matched by each kind of token as a way to split the path. The main results are
`scan_plain`, `of_scan_stars`, `isMatch_of_plain` and `isMatch_around`.
-/

namespace TypeNameLint
namespace Glob

variable {cs rest more text : List Char} {tokens found : List Token} {position skip : Nat}
variable {previous : Option Char} {front back : Bool} {pattern path : String} {glob : Glob}

/-! ## Plain texts -/

/-- A text whose characters all stand for themselves in a pattern. -/
def IsPlain (cs : List Char) : Prop :=
  ∀ c ∈ cs, c ∉ ['*', '?', '[']

theorem isPlain_iff : IsPlain cs ↔ cs.any (fun c => ['*', '?', '['].contains c) = false := by
  simp [IsPlain]

@[simp] theorem isPlain_nil : IsPlain [] := by
  simp [IsPlain]

theorem isPlain_append : IsPlain (cs ++ rest) ↔ IsPlain cs ∧ IsPlain rest := by
  simp only [IsPlain, List.forall_mem_append]

theorem isPlain_cons {c : Char} :
    IsPlain (c :: cs) ↔ (c ≠ '*' ∧ c ≠ '?' ∧ c ≠ '[') ∧ IsPlain cs := by
  simp [IsPlain]

/-! ## Reading -/

/-- Plain characters are read as themselves, and nothing else is changed for what follows. -/
theorem scan_plain (h : IsPlain cs) :
    scan tokens position 0 previous (cs ++ rest) =
      scan ((cs.map Token.char).reverse ++ tokens) (position + cs.length) 0
        (cs.getLast?.or previous) rest := by
  induction cs generalizing tokens position previous with
  | nil => simp
  | cons c cs ih =>
    rcases isPlain_cons.1 h with ⟨⟨hstar, hany, hopen⟩, hplain⟩
    have hnext : scan tokens position 0 previous (c :: (cs ++ rest)) =
        scan (.char c :: tokens) (position + 1) 0 (some c) (cs ++ rest) := by
      simp only [scan, if_neg hany, if_neg hopen, if_neg hstar]
    have hlast : (c :: cs).getLast?.or previous = cs.getLast?.or (some c) := by
      rw [List.getLast?_cons]
      cases cs.getLast? <;> rfl
    rw [List.cons_append, hnext, ih hplain, hlast]
    simp [Nat.add_comm, Nat.add_left_comm]

theorem scan_of_parse (h : parse pattern = .ok glob) :
    scan [] 0 0 none pattern.toList = .ok glob.tokens := by
  rw [parse] at h
  cases hscan : scan [] 0 0 none pattern.toList with
  | error fault =>
    rw [hscan] at h
    cases h
  | ok tokens =>
    rw [hscan] at h
    cases h
    rfl

theorem prefix_addDirectories (tokens : List Token) :
    tokens.reverse <+: (addDirectories tokens).reverse := by
  rw [addDirectories]
  split
  · exact List.prefix_rfl
  · simp

/-- What is read first stays the start of what is read in the end. -/
theorem scan_prefix (h : scan tokens position skip previous cs = .ok found) :
    tokens.reverse <+: found := by
  have hcons : ∀ (token : Token) (tokens : List Token),
      tokens.reverse <+: (token :: tokens).reverse := by simp
  induction cs generalizing tokens position skip previous with
  | nil =>
    cases h
    exact List.prefix_rfl
  | cons c rest ih =>
    unfold scan at h
    split at h
    · exact ih h
    · dsimp only at h
      repeat' split at h
      all_goals first
        | exact (hcons _ tokens).trans (ih h)
        | exact (prefix_addDirectories tokens).trans (ih h)
        | cases h

theorem parse_of_plain (h : IsPlain pattern.toList) :
    parse pattern = .ok ⟨pattern.toList.map Token.char⟩ := by
  have hscan := @scan_plain _ [] [] 0 none h
  rw [List.append_nil] at hscan
  simp [parse, hscan, scan, Except.map]

/-- Two stars are read only between slashes, or at an end of the pattern. -/
theorem of_scan_stars
    (h : scan tokens position 0 previous ('*' :: '*' :: rest) = .ok found) :
    (∀ c, previous = some c → c = '/') ∧
      (rest = [] ∨ ∃ more, rest = '/' :: more ∧ ∃ tokens' position',
        scan tokens' position' 0 (some '/') more = .ok found) := by
  have hslash : previous.all (· = '/') = true → ∀ c, previous = some c → c = '/' := by
    rintro hall c rfl
    simpa using hall
  cases rest with
  | nil =>
    simp only [scan, Char.reduceEq, if_false, if_true] at h
    split at h
    · rename_i hprevious
      exact ⟨hslash hprevious, Or.inl rfl⟩
    · cases h
  | cons c more =>
    -- Only a slash may follow; it belongs to the stars, and the rest is read on its own.
    by_cases hc : c = '/'
    · subst hc
      simp only [scan, Char.reduceEq, if_false, if_true] at h
      split at h
      · rename_i hprevious
        exact ⟨hslash hprevious, Or.inr ⟨more, rfl, _, _, h⟩⟩
      · cases h
    · by_cases hstar : c = '*'
      · subst hstar
        simp [scan] at h
      · simp [scan, hc, hstar] at h
        split at h <;> cases h

/-- So what is plain in front of two stars is empty or ends with a slash. -/
theorem of_scan_plain_stars (hplain : IsPlain cs)
    (h : scan tokens position 0 previous (cs ++ '*' :: '*' :: rest) = .ok found) :
    (cs = [] ∨ ∃ front, cs = front ++ ['/']) ∧
      (rest = [] ∨ ∃ more, rest = '/' :: more ∧ ∃ tokens' position',
        scan tokens' position' 0 (some '/') more = .ok found) := by
  rw [scan_plain hplain] at h
  rcases of_scan_stars h with ⟨hslash, hrest⟩
  refine ⟨?_, hrest⟩
  rcases List.eq_nil_or_concat cs with hnil | ⟨front, last, hconcat⟩
  · exact Or.inl hnil
  · rw [List.concat_eq_append] at hconcat
    have hlast : last = '/' := hslash last (by simp [hconcat])
    exact Or.inr ⟨front, by rw [hconcat, hlast]⟩

/-- A text below any directory, and with all that is below it, where that is asked for. -/
def around (front back : Bool) (text : List Char) : List Char :=
  (if front then ['*', '*', '/'] else []) ++ text ++ (if back then ['/', '*', '*'] else [])

theorem scan_start_stars (cs : List Char) :
    scan [] 0 0 none ('*' :: '*' :: '/' :: cs) = scan [.directories] 3 0 (some '/') cs := by
  simp [scan, addDirectories]

theorem scan_end_stars (tokens : List Token) :
    scan tokens position 0 previous ['/', '*', '*'] =
      .ok (tokens.reverse ++ [.char '/', .directories]) := by
  simp [scan, addDirectories]

theorem parse_around (hplain : IsPlain text)
    (hpattern : pattern.toList = around front back text) :
    parse pattern = .ok ⟨(if front then [.directories] else []) ++ text.map Token.char ++
      (if back then [.char '/', .directories] else [])⟩ := by
  have hback : ∀ tokens position previous,
      scan tokens position 0 previous (text ++ if back then ['/', '*', '*'] else []) =
        .ok (tokens.reverse ++ text.map Token.char ++
          if back then [.char '/', .directories] else []) := by
    intro tokens position previous
    rw [scan_plain hplain]
    cases back with
    | false => simp [scan]
    | true => simp [scan_end_stars]
  rw [parse, hpattern, around, List.append_assoc]
  cases front with
  | false => simp [hback, Except.map]
  | true => simp [scan_start_stars, hback, Except.map]

theorem scan_star (hplain : IsPlain text) :
    scan tokens position 0 previous ('*' :: text) =
      scan (.text :: tokens) (position + 1) 0 (some '*') text := by
  cases text with
  | nil => simp [scan]
  | cons c cs =>
    have hc : c ≠ '*' := (isPlain_cons.1 hplain).1.1
    simp only [scan, Char.reduceEq, if_false, if_true]
    split <;> simp_all

/-! ## Matching -/

/-- Plain characters match just themselves at the start of a path. -/
theorem matchesChars_chars_iff :
    matchesChars (text.map Token.char ++ tokens) cs = true ↔
      ∃ rest, cs = text ++ rest ∧ matchesChars tokens rest = true := by
  induction text generalizing cs with
  | nil => simp
  | cons c text ih =>
    cases cs with
    | nil => simp [matchesChars]
    | cons d cs =>
      have hstep : matchesChars ((c :: text).map Token.char ++ tokens) (d :: cs) =
          (decide (d = c) && matchesChars (text.map Token.char ++ tokens) cs) := rfl
      rw [hstep, Bool.and_eq_true, decide_eq_true_eq, ih]
      constructor
      · rintro ⟨rfl, rest, rfl, hrest⟩
        exact ⟨rest, rfl, hrest⟩
      · rintro ⟨rest, hcs, hrest⟩
        cases hcs
        exact ⟨rfl, rest, rfl, hrest⟩

theorem matchesChars_plain_iff : matchesChars (text.map Token.char) cs = true ↔ cs = text := by
  have hchars := @matchesChars_chars_iff cs text []
  rw [List.append_nil] at hchars
  rw [hchars]
  simp [matchesChars]

theorem mem_ends_iff : rest ∈ ends cs ↔ rest <:+ cs := by
  induction cs with
  | nil => simp [ends]
  | cons c cs ih => simp [ends, ih, List.suffix_cons_iff]

/-- A star matches any start of a path. -/
theorem matchesChars_text_iff :
    matchesChars (.text :: tokens) cs = true ↔
      ∃ rest, rest <:+ cs ∧ matchesChars tokens rest = true := by
  simp [matchesChars, mem_ends_iff]

theorem mem_afterSlashes_iff :
    rest ∈ afterSlashes cs ↔ rest = [] ∨ ∃ before, cs = before ++ '/' :: rest := by
  induction cs with
  | nil => simp [afterSlashes]
  | cons c cs ih =>
    -- A slash behind which the rest stands is the first character or one of the others.
    have hsplit : (∃ before, c :: cs = before ++ '/' :: rest) ↔
        (c = '/' ∧ cs = rest) ∨ ∃ before, cs = before ++ '/' :: rest := by
      constructor
      · rintro ⟨before, hbefore⟩
        cases before with
        | nil => exact Or.inl (by simpa using hbefore)
        | cons d before => exact Or.inr ⟨before, by simpa using (List.cons.inj hbefore).2⟩
      · rintro (⟨rfl, rfl⟩ | ⟨before, rfl⟩)
        · exact ⟨[], rfl⟩
        · exact ⟨c :: before, rfl⟩
    rw [hsplit, afterSlashes]
    split
    · rename_i hc
      simp [ih, hc, or_left_comm, eq_comm]
    · rename_i hc
      simp [ih, hc]

/-- Two stars match directories: what is left starts the path, follows a slash, or is empty. -/
theorem matchesChars_directories_iff :
    matchesChars (.directories :: tokens) cs = true ↔
      ∃ rest, (rest = cs ∨ rest = [] ∨ ∃ before, cs = before ++ '/' :: rest) ∧
        matchesChars tokens rest = true := by
  simp only [matchesChars, List.any_eq_true, List.mem_cons, mem_afterSlashes_iff]

/-! ## Patterns of some kinds -/

/-- A plain pattern matches the path that it spells and no other one. -/
theorem isMatch_of_plain (h : IsPlain pattern.toList) (hparse : parse pattern = .ok glob) :
    glob.isMatch path = true ↔ path = pattern := by
  rw [parse_of_plain h] at hparse
  cases hparse
  rw [isMatch, matchesChars_plain_iff, String.toList_inj]

/-- Stars around a text match directories in front of it, and all that is below it. -/
theorem isMatch_around (hplain : IsPlain text) (hne : text ≠ [])
    (hpattern : pattern.toList = around front back text) (hparse : parse pattern = .ok glob) :
    glob.isMatch path = true ↔ ∃ before after, path.toList = before ++ text ++ after ∧
      (if front then before = [] ∨ ∃ above, before = above ++ ['/'] else before = []) ∧
      (if back then ∃ below, after = '/' :: below else after = []) := by
  rw [parse_around hplain hpattern] at hparse
  cases hparse
  have hend : ∀ after, matchesChars (if back then [.char '/', .directories] else []) after = true ↔
      if back then ∃ below, after = '/' :: below else after = [] := by
    intro after
    cases back with
    | false => simp [matchesChars]
    | true =>
      have hslash := @matchesChars_chars_iff after ['/'] [.directories]
      have hall : ∀ cs, matchesChars [.directories] cs = true := fun cs =>
        matchesChars_directories_iff.2 ⟨[], Or.inr (Or.inl rfl), rfl⟩
      simpa [hall] using hslash
  rw [isMatch, List.append_assoc]
  cases front with
  | false =>
    rw [if_neg Bool.false_ne_true, List.nil_append, matchesChars_chars_iff]
    constructor
    · rintro ⟨after, hpath, hafter⟩
      exact ⟨[], after, by simpa using hpath, rfl, (hend after).1 hafter⟩
    · rintro ⟨_, after, hpath, rfl, hafter⟩
      exact ⟨after, by simpa using hpath, (hend after).2 hafter⟩
  | true =>
    rw [if_pos rfl, List.singleton_append, matchesChars_directories_iff]
    simp only [matchesChars_chars_iff]
    constructor
    · rintro ⟨_, hstart, after, rfl, hafter⟩
      rcases hstart with hpath | hnil | ⟨above, hpath⟩
      · exact ⟨[], after, by simp [hpath], Or.inl rfl, (hend after).1 hafter⟩
      · exact absurd (List.append_eq_nil_iff.1 hnil).1 hne
      · exact ⟨above ++ ['/'], after, by simp [hpath], Or.inr ⟨above, rfl⟩, (hend after).1 hafter⟩
    · rintro ⟨_, after, hpath, rfl | ⟨above, rfl⟩, hafter⟩
      · exact ⟨_, Or.inl rfl, after, by simpa using hpath, (hend after).2 hafter⟩
      · exact ⟨text ++ after, Or.inr (Or.inr ⟨above, by simp [hpath]⟩), after, rfl,
          (hend after).2 hafter⟩

/-- A star behind directories matches all of a path but its end. -/
theorem isMatch_ending (hplain : IsPlain text)
    (hpattern : pattern.toList = '*' :: '*' :: '/' :: '*' :: text)
    (hparse : parse pattern = .ok glob) : glob.isMatch path = true ↔ text <:+ path.toList := by
  have hscan := @scan_plain text [] [.text, .directories] 4 (some '*') hplain
  rw [List.append_nil] at hscan
  rw [parse, hpattern, scan_start_stars, scan_star hplain, hscan] at hparse
  have hglob : glob = ⟨.directories :: .text :: text.map Token.char⟩ := by
    simpa [scan, Except.map, eq_comm] using hparse
  rw [hglob, isMatch, matchesChars_directories_iff]
  simp only [matchesChars_text_iff, matchesChars_plain_iff, exists_eq_right]
  constructor
  · rintro ⟨rest, rfl | rfl | ⟨above, hpath⟩, hend⟩
    · exact hend
    · exact hend.trans List.nil_suffix
    · rw [hpath]
      exact (hend.trans (List.suffix_cons '/' rest)).trans (List.suffix_append above _)
  · intro hend
    exact ⟨path.toList, Or.inl rfl, hend⟩

/-- What starts with a plain character matches only what starts with the same one. -/
theorem head?_of_isMatch {c : Char} (hplain : IsPlain [c]) (hpattern : pattern.toList = c :: rest)
    (hparse : parse pattern = .ok glob) (hmatch : glob.isMatch path = true) :
    path.toList.head? = some c := by
  have hscan := scan_of_parse hparse
  rw [hpattern, ← List.singleton_append, scan_plain hplain] at hscan
  rcases scan_prefix hscan with ⟨more, htokens⟩
  rw [List.append_nil, List.reverse_reverse] at htokens
  rw [isMatch, ← htokens] at hmatch
  rcases matchesChars_chars_iff.1 hmatch with ⟨rest, hpath, -⟩
  simp [hpath]

end Glob
end TypeNameLint
