import TypeNameLint.Proofs.Json.Scalars
import Mathlib.Data.List.TakeWhile

/-!
# RoundTrip — a value is read as it was written

What is written of a value tells where the value ends: a list or a table ends at its bracket, and a
number at the comma or the line feed behind it. So the reader takes exactly the text of one value,
whatever follows. Its steps are bounded by the length of that text. This file defines:

* `Value.Fits`: the values that text can carry, with a bound on their nesting.

The main results are `value_print` and `read?_write`.
-/

namespace TypeNameLint

/-- The values that the reader gives back: integers have 64 bits, no number is a floating-point one,
and lists and tables are nested in at most as many levels as the bound says. -/
inductive Value.Fits : Nat → Value → Prop
  | null (depth : Nat) : Fits depth .null
  | boolean (depth : Nat) (b : Bool) : Fits depth (.boolean b)
  | integer (depth : Nat) {n : Int} (fits : Json.FitsInteger n) : Fits depth (.integer n)
  | text (depth : Nat) (s : String) : Fits depth (.text s)
  | list {depth : Nat} {items : List Value} (inner : ∀ item ∈ items, Fits depth item) :
      Fits (depth + 1) (.list items)
  | table {depth : Nat} {entries : List (String × Value)}
      (inner : ∀ entry ∈ entries, Fits depth entry.2) : Fits (depth + 1) (.table entries)

namespace Json

variable {fuel depth level : Nat} {rest : List Char}

/-! ## White space -/

theorem skipSpace_newline (level : Nat) (cs : List Char) :
    skipSpace (newline level ++ cs) = skipSpace cs := by
  have hspaces : ∀ n, skipSpace (List.replicate n ' ' ++ cs) = skipSpace cs := by
    intro n
    induction n with
    | zero => rfl
    | succ n ih => exact ih
  exact hspaces (2 * level)

theorem skipSpace_idem (cs : List Char) : skipSpace (skipSpace cs) = skipSpace cs := by
  induction cs with
  | nil => rfl
  | cons c cs ih =>
    cases hc : isSpace c with
    | true => simpa [skipSpace, hc] using ih
    | false => simp [skipSpace, hc]

theorem skipSpace_cons {c : Char} (hc : isSpace c = false) (cs : List Char) :
    skipSpace (c :: cs) = c :: cs :=
  List.dropWhile_cons_of_neg (by simp [hc])

/-- A value may have white space in front. -/
theorem value_skipSpace (fuel depth : Nat) (cs : List Char) :
    value fuel depth (skipSpace cs) = value fuel depth cs := by
  cases fuel with
  | zero => rfl
  | succ fuel => rw [value, value, skipSpace_idem]

theorem value_newline (level : Nat) (cs : List Char) :
    value fuel depth (newline level ++ cs) = value fuel depth cs := by
  rw [← value_skipSpace, skipSpace_newline, value_skipSpace]

theorem value_space (cs : List Char) : value fuel depth (' ' :: cs) = value fuel depth cs := by
  have hskip : skipSpace (' ' :: cs) = skipSpace cs := rfl
  rw [← value_skipSpace, hskip, value_skipSpace]

theorem items_newline (level : Nat) (cs : List Char) :
    items fuel depth (newline level ++ cs) = items fuel depth cs := by
  cases fuel with
  | zero => rfl
  | succ fuel => rw [items, items, value_newline]

theorem members_newline (level : Nat) (cs : List Char) :
    members fuel depth (newline level ++ cs) = members fuel depth cs := by
  cases fuel with
  | zero => rfl
  | succ fuel => rw [members, members, skipSpace_newline]

/-! ## Where values start and end -/

/-- An integer starts with a digit or a sign. -/
theorem exists_integer_eq_cons (n : Int) :
    ∃ c cs, integer n = c :: cs ∧ (c.isDigit = true ∨ c = '-') := by
  cases n with
  | ofNat n =>
    rcases List.exists_cons_of_ne_nil (@Nat.toDigits_ne_nil n 10) with ⟨c, cs, hdigits⟩
    exact ⟨c, cs, hdigits, Or.inl (@isDigit_of_mem_toDigits n c (by simp [hdigits]))⟩
  | negSucc n => exact ⟨'-', _, rfl, Or.inr rfl⟩

theorem ne_of_digit_or_sign {c d : Char} (hc : c.isDigit = true ∨ c = '-')
    (hd : d.isDigit = false ∧ d ≠ '-') : c ≠ d := by
  rintro rfl
  rcases hc with hdigit | hsign
  · rw [hd.1] at hdigit
    cases hdigit
  · exact hd.2 hsign

theorem isSpace_of_digit_or_sign {c : Char} (hc : c.isDigit = true ∨ c = '-') :
    isSpace c = false := by
  have hne := fun d => @ne_of_digit_or_sign c d hc
  simp [isSpace, hne ' ' (by decide), hne '\n' (by decide), hne '\t' (by decide),
    hne '\r' (by decide)]

/-- No value starts with white space or with the bracket that ends a list. -/
theorem exists_print_eq_cons {v : Value} (h : v.Fits depth) (level : Nat) :
    ∃ c cs, print level v = c :: cs ∧ isSpace c = false ∧ c ≠ ']' := by
  cases h with
  | null => exact ⟨_, _, rfl, rfl, by decide⟩
  | boolean depth b => cases b <;> exact ⟨_, _, rfl, rfl, by decide⟩
  | @integer _ n =>
    rcases exists_integer_eq_cons n with ⟨c, cs, hprint, hc⟩
    exact ⟨c, cs, hprint, isSpace_of_digit_or_sign hc, ne_of_digit_or_sign hc (by decide)⟩
  | text => exact ⟨_, _, rfl, rfl, by decide⟩
  | @list _ items => cases items <;> exact ⟨_, _, rfl, rfl, by decide⟩
  | @table _ entries => cases entries <;> exact ⟨_, _, rfl, rfl, by decide⟩

theorem endsNumber_cons {c : Char} (hc : c.isDigit = false ∧ c ≠ '.' ∧ c ≠ 'e' ∧ c ≠ 'E')
    (cs : List Char) : EndsNumber (c :: cs) := by
  rintro _ ⟨⟩
  exact hc

/-- Behind an item comes a comma or a line feed. -/
theorem endsNumber_printItems (level : Nat) (items : List Value) (rest : List Char) :
    EndsNumber (printItems level items ++ rest) := by
  cases items <;> exact endsNumber_cons (by decide) _

theorem endsNumber_printEntries (level : Nat) (entries : List (String × Value))
    (rest : List Char) : EndsNumber (printEntries level entries ++ rest) := by
  rcases entries with _ | ⟨⟨key, first⟩, entries⟩ <;> exact endsNumber_cons (by decide) _

/-! ## Values -/

theorem value_of_number {cs : List Char} {number : NumberText} {v : Value}
    (hstart : ∃ c tail, cs = c :: tail ∧ (c.isDigit = true ∨ c = '-'))
    (hsplit : NumberText.split? cs = some (number, rest)) (hvalue : number.value? = some v) :
    value (fuel + 1) depth cs = some (v, rest) := by
  rcases hstart with ⟨c, tail, rfl, hc⟩
  have hother : ∀ {d : Char} {more : List Char}, d.isDigit = false ∧ d ≠ '-' →
      c :: tail = d :: more → False := by
    intro d more hd heq
    exact ne_of_digit_or_sign hc hd (List.cons.inj heq).1
  rw [value, skipSpace_cons (isSpace_of_digit_or_sign hc)]
  split
  -- All other values start with a letter, a quote or a bracket.
  iterate 6
    rename_i heq
    exact (hother (by decide) heq).elim
  simp [hsplit, hvalue]

/-- Behind its bracket a list is empty or goes on with items. -/
theorem value_list {cs tail : List Char} {c : Char} {vs : List Value}
    (hskip : skipSpace cs = c :: tail) (hc : c ≠ ']')
    (hitems : items fuel depth (c :: tail) = some (vs, rest)) :
    value (fuel + 1) (depth + 1) ('[' :: cs) = some (.list vs, rest) := by
  rw [value, skipSpace_cons (by decide)]
  simp only [hskip]
  split
  · rename_i heq
    exact absurd (List.cons.inj heq).1 hc
  · simp [hitems]

theorem value_table {cs tail : List Char} {c : Char} {entries : List (String × Value)}
    (hskip : skipSpace cs = c :: tail) (hc : c ≠ '\x7d')
    (hmembers : members fuel depth (c :: tail) = some (entries, rest)) :
    value (fuel + 1) (depth + 1) ('\x7b' :: cs) = some (.table entries, rest) := by
  rw [value, skipSpace_cons (by decide)]
  simp only [hskip]
  split
  · rename_i heq
    exact absurd (List.cons.inj heq).1 hc
  · simp [hmembers]

mutual

theorem value_print (fuel : Nat) {v : Value} {depth level : Nat} {rest : List Char}
    (hfits : v.Fits depth) (hfuel : (print level v).length ≤ fuel) (hrest : EndsNumber rest) :
    value fuel depth (print level v ++ rest) = some (v, rest) := by
  match fuel with
  | 0 =>
    rcases exists_print_eq_cons hfits level with ⟨c, cs, hprint, -, -⟩
    rw [hprint] at hfuel
    cases hfuel
  | fuel + 1 =>
    cases hfits with
    | null => rfl
    | boolean depth b => cases b <;> rfl
    | @integer _ n hn =>
      rcases exists_integer_eq_cons n with ⟨c, cs, hprint, hc⟩
      rcases split?_integer hn hrest with ⟨number, hsplit, hvalue⟩
      exact value_of_number ⟨c, cs ++ rest, by rw [print, hprint]; rfl, hc⟩ hsplit hvalue
    | text depth s =>
      have htext : print level (.text s) ++ rest =
          '"' :: (s.toList.flatMap escape ++ '"' :: rest) := by
        simp [print, string]
      rw [htext, value, skipSpace_cons (by decide)]
      simp [stringBody_flatMap_escape]
    | @list depth items inner =>
      cases items with
      | nil => rfl
      | cons first items =>
        have hlist : print level (.list (first :: items)) ++ rest =
            '[' :: (newline (level + 1) ++ (print (level + 1) first ++
              printItems level items ++ rest)) := by
          simp [print]
        have hlength : 1 + (print (level + 1) first).length + (printItems level items).length ≤
            fuel := by
          simp only [print, newline, List.length_append, List.length_cons] at hfuel
          omega
        rcases exists_print_eq_cons (inner first (by simp)) (level + 1) with
          ⟨c, cs, hprint, hspace, hc⟩
        have hitems := items_print fuel inner hlength rest
        rw [hprint] at hitems
        rw [hlist, hprint]
        refine value_list ?_ hc hitems
        rw [skipSpace_newline]
        exact skipSpace_cons hspace _
    | @table depth entries inner =>
      cases entries with
      | nil => rfl
      | cons entry entries =>
        rcases entry with ⟨key, first⟩
        have htable : print level (.table ((key, first) :: entries)) ++ rest =
            '\x7b' :: (newline (level + 1) ++ (string key ++ ':' :: ' ' ::
              print (level + 1) first ++ printEntries level entries ++ rest)) := by
          simp [print]
        have hlength : 1 + (print (level + 1) first).length + (printEntries level entries).length ≤
            fuel := by
          simp only [print, newline, List.length_append, List.length_cons] at hfuel
          omega
        have hmembers := members_print fuel inner hlength rest
        rw [htable]
        refine value_table ?_ (by decide) hmembers
        rw [skipSpace_newline]
        exact skipSpace_cons (by decide) _

/-- The items of a list are read up to its bracket. -/
theorem items_print (fuel : Nat) {first : Value} {items : List Value} {depth level : Nat}
    (hfits : ∀ item ∈ first :: items, item.Fits depth)
    (hfuel : 1 + (print (level + 1) first).length + (printItems level items).length ≤ fuel)
    (rest : List Char) :
    Json.items fuel depth (print (level + 1) first ++ printItems level items ++ rest) =
      some (first :: items, rest) := by
  match fuel with
  | 0 => omega
  | fuel + 1 =>
    have hfirst : value fuel depth (print (level + 1) first ++ (printItems level items ++ rest)) =
        some (first, printItems level items ++ rest) :=
      value_print fuel (hfits first (by simp)) (by omega) (endsNumber_printItems level items rest)
    rw [List.append_assoc, Json.items, hfirst]
    cases items with
    | nil =>
      have hend : skipSpace (printItems level [] ++ rest) = ']' :: rest := by
        rw [printItems, List.append_assoc, skipSpace_newline]
        rfl
      simp [hend]
    | cons next items =>
      have hcomma : printItems level (next :: items) ++ rest =
          ',' :: (newline (level + 1) ++ (print (level + 1) next ++
            printItems level items ++ rest)) := by
        simp [printItems]
      have hlength : 1 + (print (level + 1) next).length + (printItems level items).length ≤
          fuel := by
        simp only [printItems, newline, List.length_append, List.length_cons] at hfuel
        omega
      have hnext := items_print fuel
        (fun item hitem => hfits item (List.mem_cons_of_mem first hitem)) hlength rest
      simp only [hcomma, skipSpace_cons (show isSpace ',' = false by decide), items_newline, hnext]
      rfl

/-- The entries of a table are read up to its bracket. -/
theorem members_print (fuel : Nat) {key : String} {first : Value}
    {entries : List (String × Value)} {depth level : Nat}
    (hfits : ∀ entry ∈ (key, first) :: entries, entry.2.Fits depth)
    (hfuel : 1 + (print (level + 1) first).length + (printEntries level entries).length ≤ fuel)
    (rest : List Char) :
    members fuel depth (string key ++ ':' :: ' ' :: print (level + 1) first ++
        printEntries level entries ++ rest) = some ((key, first) :: entries, rest) := by
  match fuel with
  | 0 => omega
  | fuel + 1 =>
    have hkey : string key ++ ':' :: ' ' :: print (level + 1) first ++
        printEntries level entries ++ rest =
          '"' :: (key.toList.flatMap escape ++ '"' :: (':' :: (' ' :: (print (level + 1) first ++
            (printEntries level entries ++ rest))))) := by
      simp [string]
    have hfirst : value fuel depth
        (print (level + 1) first ++ (printEntries level entries ++ rest)) =
          some (first, printEntries level entries ++ rest) :=
      value_print fuel (hfits (key, first) (by simp)) (by omega)
        (endsNumber_printEntries level entries rest)
    rw [hkey, members, skipSpace_cons (by decide)]
    simp only [stringBody_flatMap_escape, skipSpace_cons (show isSpace ':' = false by decide),
      value_space, hfirst, String.ofList_toList]
    rcases entries with _ | ⟨⟨next, value⟩, entries⟩
    · have hend : skipSpace (printEntries level [] ++ rest) = '\x7d' :: rest := by
        rw [printEntries, List.append_assoc, skipSpace_newline]
        rfl
      simp [hend]
    · have hcomma : printEntries level ((next, value) :: entries) ++ rest =
          ',' :: (newline (level + 1) ++ (string next ++ ':' :: ' ' :: print (level + 1) value ++
            printEntries level entries ++ rest)) := by
        simp [printEntries]
      have hlength : 1 + (print (level + 1) value).length + (printEntries level entries).length ≤
          fuel := by
        simp only [printEntries, newline, List.length_append, List.length_cons] at hfuel
        omega
      have hnext := members_print fuel
        (fun entry hentry => hfits entry (List.mem_cons_of_mem _ hentry)) hlength rest
      simp only [hcomma, skipSpace_cons (show isSpace ',' = false by decide), members_newline,
        hnext]
      rfl

end

/-! ## Whole texts -/

theorem endsNumber_of_skipSpace {cs : List Char} (h : skipSpace cs = []) : EndsNumber cs := by
  intro c hc
  have hspace : isSpace c = true := List.dropWhile_eq_nil_iff.1 h c (List.mem_of_mem_head? hc)
  simp only [isSpace, Bool.or_eq_true, decide_eq_true_eq] at hspace
  rcases hspace with ((rfl | rfl) | rfl) | rfl <;> decide

/-- A value that fits is read as it was written, with white space behind it or without. -/
theorem read?_write {v : Value} (h : v.Fits maxDepth) {blank : String}
    (hblank : skipSpace blank.toList = []) : read? (write v ++ blank) = some v := by
  have htext : (write v ++ blank).toList = print 0 v ++ blank.toList := by simp [write]
  have hvalue : value (2 * (print 0 v ++ blank.toList).length + 2) maxDepth
      (print 0 v ++ blank.toList) = some (v, blank.toList) := by
    refine value_print _ h ?_ (endsNumber_of_skipSpace hblank)
    rw [List.length_append]
    omega
  simp only [read?, htext, hvalue, hblank]
  rfl

end Json
end TypeNameLint
