import TypeNameLint.Text.Bytes

/-!
# Offsets — cutting a text at byte offsets

A cut succeeds exactly at the offsets of characters and at the end, so every successful cut can be
read as a decomposition of the text. This file proves:

* `splitAtByte?_eq_some_iff`, `slice?_eq_some_iff`: a cut and the decomposition that it stands for;
* `IsSpan`: the spans at which a slice can be cut;
* `positionAt_append`: the row and column of an offset, from the text in front of it;
* `positionFrom_mono`: larger offsets are not before smaller ones, in rows and columns too;
* `bytes`, `row_positionFrom`: a row counts the line feeds among the bytes in front of an offset.
-/

namespace TypeNameLint
namespace Text

/-! ## Lengths -/

@[simp] theorem byteLength_nil : byteLength [] = 0 := rfl

@[simp] theorem byteLength_cons (c : Char) (cs : List Char) :
    byteLength (c :: cs) = c.utf8Size + byteLength cs := rfl

@[simp] theorem byteLength_append (xs ys : List Char) :
    byteLength (xs ++ ys) = byteLength xs + byteLength ys := by
  induction xs with
  | nil => simp
  | cons c xs ih =>
    simp only [List.cons_append, byteLength_cons, ih]
    omega

theorem length_le_byteLength (cs : List Char) : cs.length ≤ byteLength cs := by
  induction cs with
  | nil => exact Nat.le_refl 0
  | cons c cs ih =>
    have hsize := Char.utf8Size_pos c
    rw [List.length_cons, byteLength]
    omega

/-- The functions on offsets recurse on a positive number of bytes, and the bytes of the first
character are what they take off. -/
theorem exists_byteLength_cons (c : Char) (cs : List Char) :
    ∃ n, byteLength (c :: cs) = n + 1 ∧ c.utf8Size ≤ n + 1 ∧
      n + 1 - c.utf8Size = byteLength cs := by
  have hc : 0 < c.utf8Size := c.utf8Size_pos
  refine ⟨c.utf8Size + byteLength cs - 1, ?_, ?_, ?_⟩
  · simp only [byteLength_cons]
    omega
  · omega
  · omega

/-! ## Cuts -/

/-- A text can be cut after every one of its beginnings. -/
theorem splitAtByte?_append (before after : List Char) :
    splitAtByte? (byteLength before) (before ++ after) = some (before, after) := by
  induction before with
  | nil => simp [splitAtByte?]
  | cons c before ih =>
    -- The count is a successor, so the cut takes the first character off.
    rcases exists_byteLength_cons c before with ⟨n, hn, hle, hrest⟩
    rw [hn, List.cons_append, splitAtByte?, if_pos hle, hrest, ih]
    rfl

theorem eq_append_of_splitAtByte? {n : Nat} {cs before after : List Char}
    (h : splitAtByte? n cs = some (before, after)) :
    cs = before ++ after ∧ byteLength before = n := by
  induction n, cs using splitAtByte?.induct generalizing before after with
  | case1 cs =>
    simp only [splitAtByte?, Option.some.injEq, Prod.mk.injEq] at h
    rcases h with ⟨rfl, rfl⟩
    exact ⟨rfl, rfl⟩
  -- The text is used up before the count is.
  | case2 n => simp [splitAtByte?] at h
  | case3 n c cs hle ih =>
    rw [splitAtByte?, if_pos hle] at h
    rcases Option.map_eq_some_iff.1 h with ⟨⟨before', after'⟩, hsplit, heq⟩
    simp only [Prod.mk.injEq] at heq
    rcases heq with ⟨rfl, rfl⟩
    rcases ih hsplit with ⟨hcs, hlength⟩
    refine ⟨by simp [hcs], ?_⟩
    simp only [byteLength_cons, hlength]
    omega
  -- The count ends inside a character.
  | case4 n c cs hle => simp [splitAtByte?, hle] at h

/-- Cutting a text at `n` is writing it as two parts, the first one of `n` bytes. -/
theorem splitAtByte?_eq_some_iff {n : Nat} {cs before after : List Char} :
    splitAtByte? n cs = some (before, after) ↔ cs = before ++ after ∧ byteLength before = n := by
  constructor
  · exact eq_append_of_splitAtByte?
  · rintro ⟨rfl, rfl⟩
    exact splitAtByte?_append before after

/-- The part of a text after one text and before another one. -/
theorem slice?_append (before piece after : List Char) :
    slice? (before ++ piece ++ after) (byteLength before)
      (byteLength before + byteLength piece) = some piece := by
  have hcut : splitAtByte? (byteLength before) (before ++ piece ++ after) =
      some (before, piece ++ after) := by
    rw [List.append_assoc]
    exact splitAtByte?_append before (piece ++ after)
  rw [slice?, if_pos (Nat.le_add_right _ _), hcut]
  simp [splitAtByte?_append]

/-- A slice is the middle of a decomposition of the text into three parts. -/
theorem slice?_eq_some_iff {cs piece : List Char} {start stop : Nat} :
    slice? cs start stop = some piece ↔
      ∃ before after, cs = before ++ piece ++ after ∧ byteLength before = start ∧
        start + byteLength piece = stop := by
  constructor
  · intro h
    by_cases hle : start ≤ stop
    · simp only [slice?, if_pos hle, Option.bind_eq_bind] at h
      rcases Option.bind_eq_some_iff.1 h with ⟨⟨before, rest⟩, hrest, h⟩
      rcases Option.bind_eq_some_iff.1 h with ⟨⟨middle, after⟩, hafter, h⟩
      obtain rfl : middle = piece := by simpa using h
      rcases splitAtByte?_eq_some_iff.1 hrest with ⟨hcs, hstart⟩
      -- The second cut is taken from what the first one left.
      obtain ⟨rfl, hlength⟩ : rest = middle ++ after ∧ byteLength middle = stop - start :=
        splitAtByte?_eq_some_iff.1 hafter
      exact ⟨before, after, by simp [hcs], hstart, by omega⟩
    -- A span that ends before it starts is never cut.
    · simp [slice?, hle] at h
  · rintro ⟨before, after, rfl, rfl, rfl⟩
    exact slice?_append before piece after

/-- Whether a span is that of a text: it lies inside the source, and its ends fall between
characters. -/
def IsSpan (source : List Char) (start stop : Nat) : Prop :=
  ∃ before text after, source = before ++ text ++ after ∧
    byteLength before = start ∧ start + byteLength text = stop

theorem isSpan_iff {source : List Char} {start stop : Nat} :
    IsSpan source start stop ↔ (slice? source start stop).isSome := by
  rw [Option.isSome_iff_exists]
  constructor
  · rintro ⟨before, text, after, h⟩
    exact ⟨text, slice?_eq_some_iff.2 ⟨before, after, h⟩⟩
  · rintro ⟨text, h⟩
    rcases slice?_eq_some_iff.1 h with ⟨before, after, h⟩
    exact ⟨before, text, after, h⟩

instance (source : List Char) (start stop : Nat) : Decidable (IsSpan source start stop) :=
  decidable_of_iff _ isSpan_iff.symm

/-! ## Rows and columns -/

/-- The place just after a text that begins at `p`. -/
def Position.past (p : Position) (cs : List Char) : Position :=
  cs.foldl (fun q c => Position.after c q) p

/-- An offset behind a text is counted from the end of that text. -/
theorem positionFrom_byteLength_add (p : Position) (before : List Char) (n : Nat)
    (cs : List Char) :
    positionFrom p (byteLength before + n) (before ++ cs) = positionFrom (p.past before) n cs := by
  induction before generalizing p with
  | nil => simp [Position.past]
  | cons c before ih =>
    have hstep : p.past (c :: before) = (p.after c).past before := rfl
    have hc : 0 < c.utf8Size := c.utf8Size_pos
    rcases Nat.exists_eq_add_one.2 (Nat.add_pos_left hc (byteLength before + n)) with ⟨m, hm⟩
    have hle : c.utf8Size ≤ m + 1 := by omega
    have hrest : m + 1 - c.utf8Size = byteLength before + n := by omega
    rw [byteLength_cons, Nat.add_assoc, hm, List.cons_append, positionFrom, if_pos hle, hrest, ih,
      hstep]

theorem positionFrom_append (p : Position) (before after : List Char) :
    positionFrom p (byteLength before) (before ++ after) = p.past before := by
  rw [← Nat.add_zero (byteLength before), positionFrom_byteLength_add, positionFrom]

/-- On a line without a line feed the row stays, and the column grows by the bytes. -/
theorem positionFrom_of_not_mem {p : Position} {n : Nat} {line : List Char} (rest : List Char)
    (h : '\n' ∉ line) (hn : n ≤ byteLength line) :
    positionFrom p n (line ++ rest) = ⟨p.row, p.column + n⟩ := by
  induction line generalizing p n with
  | nil =>
    obtain rfl : n = 0 := Nat.le_zero.1 hn
    rw [positionFrom, Nat.add_zero]
  | cons c line ih =>
    simp only [List.mem_cons, not_or] at h
    have hafter : p.after c = ⟨p.row, p.column + c.utf8Size⟩ := by
      rw [Position.after, if_neg (Ne.symm h.1)]
    cases n with
    | zero => rw [positionFrom, Nat.add_zero]
    | succ n =>
      rw [List.cons_append, positionFrom]
      split
      · rename_i hle
        rw [byteLength_cons] at hn
        rw [ih h.2 (by omega), hafter]
        simp only [Position.mk.injEq, true_and]
        omega
      · rfl

theorem Position.past_append (p : Position) (xs ys : List Char) :
    p.past (xs ++ ys) = (p.past xs).past ys := by
  simp [past]

/-- Every line feed starts a row. -/
theorem Position.row_past (p : Position) (cs : List Char) :
    (p.past cs).row = p.row + cs.count '\n' := by
  induction cs generalizing p with
  | nil => simp [past]
  | cons c cs ih =>
    have hstep : p.past (c :: cs) = (Position.after c p).past cs := rfl
    rw [hstep, ih, List.count_cons]
    -- Only a line feed moves the row.
    by_cases hc : c = '\n'
    · simp only [after, hc, if_pos, BEq.rfl]
      omega
    · simp [after, hc]

/-- Without a line feed the row stays, and the column grows by the bytes. -/
theorem Position.past_of_not_mem {p : Position} {line : List Char} (h : '\n' ∉ line) :
    p.past line = ⟨p.row, p.column + byteLength line⟩ := by
  induction line generalizing p with
  | nil => simp [past]
  | cons c line ih =>
    simp only [List.mem_cons, not_or] at h
    have hc : c ≠ '\n' := fun hc => h.1 hc.symm
    have hstep : p.past (c :: line) = (Position.after c p).past line := rfl
    rw [hstep, ih h.2]
    simp only [after, if_neg hc, byteLength_cons, Nat.add_assoc]

/-- Just after a line feed, and at the start of a text, the column is zero. -/
theorem Position.column_past {lines : List Char}
    (h : lines = [] ∨ lines.getLast? = some '\n') :
    (past ⟨0, 0⟩ lines).column = 0 := by
  rcases h with rfl | h
  · rfl
  · rcases List.getLast?_eq_some_iff.1 h with ⟨front, rfl⟩
    simp [past, after]

/-- The place of an offset: the row counts the line feeds in front of it, and the column the bytes
since the last of these. -/
theorem positionAt_append {lines line : List Char} (after : List Char)
    (hlines : lines = [] ∨ lines.getLast? = some '\n') (hline : '\n' ∉ line) :
    positionAt (lines ++ line ++ after) (byteLength lines + byteLength line) =
      ⟨lines.count '\n', byteLength line⟩ := by
  have hrow := Position.row_past ⟨0, 0⟩ lines
  have hcolumn := Position.column_past hlines
  calc
    positionAt (lines ++ line ++ after) (byteLength lines + byteLength line)
        = Position.past ⟨0, 0⟩ (lines ++ line) := by
          rw [positionAt, ← byteLength_append, positionFrom_append]
    _ = (Position.past ⟨0, 0⟩ lines).past line := Position.past_append _ lines line
    _ = ⟨(Position.past ⟨0, 0⟩ lines).row, (Position.past ⟨0, 0⟩ lines).column + byteLength line⟩ :=
          Position.past_of_not_mem hline
    _ = ⟨lines.count '\n', byteLength line⟩ := by simp [hrow, hcolumn]

/-- Every text is a run of whole lines and the beginning of one more. -/
theorem exists_lines_append (cs : List Char) :
    ∃ lines line, cs = lines ++ line ∧ (lines = [] ∨ lines.getLast? = some '\n') ∧ '\n' ∉ line := by
  induction cs with
  | nil => exact ⟨[], [], rfl, Or.inl rfl, by simp⟩
  | cons c cs ih =>
    rcases ih with ⟨lines, line, rfl, hlines, hline⟩
    -- With whole lines behind it, the new character belongs to the first of them.
    by_cases hempty : lines = []
    · subst hempty
      by_cases hc : c = '\n'
      · exact ⟨[c], line, rfl, Or.inr (by simp [hc]), hline⟩
      · exact ⟨[], c :: line, rfl, Or.inl rfl, by simp [hline, Ne.symm hc]⟩
    · refine ⟨c :: lines, line, rfl, Or.inr ?_, hline⟩
      rcases hlines with rfl | hlast
      · exact absurd rfl hempty
      · rcases List.getLast?_eq_some_iff.1 hlast with ⟨front, rfl⟩
        simp [List.getLast?_cons]

/-! ## The order of rows and columns -/

/-- One place is another one, or comes before it in the order of rows and columns. -/
def Position.AtOrBefore (p q : Position) : Prop :=
  p.row < q.row ∨ (p.row = q.row ∧ p.column ≤ q.column)

theorem Position.AtOrBefore.trans {p q r : Position} (hpq : p.AtOrBefore q)
    (hqr : q.AtOrBefore r) : p.AtOrBefore r := by
  simp only [AtOrBefore] at *
  omega

theorem Position.atOrBefore_after (p : Position) (c : Char) : p.AtOrBefore (p.after c) := by
  rw [after]
  split
  · exact Or.inl (Nat.lt_succ_self p.row)
  · exact Or.inr ⟨rfl, Nat.le_add_right _ _⟩

theorem atOrBefore_positionFrom (p : Position) (n : Nat) (cs : List Char) :
    p.AtOrBefore (positionFrom p n cs) := by
  induction p, n, cs using positionFrom.induct with
  | case1 p cs =>
    rw [positionFrom]
    exact Or.inr ⟨rfl, Nat.le_refl _⟩
  | case2 p n => exact Or.inr ⟨rfl, Nat.le_add_right _ _⟩
  | case3 p n c cs hle ih =>
    rw [positionFrom, if_pos hle]
    exact (p.atOrBefore_after c).trans ih
  | case4 p n c cs hle =>
    rw [positionFrom, if_neg hle]
    exact Or.inr ⟨rfl, Nat.le_add_right _ _⟩

/-- Larger offsets are further on, whether or not they fall between characters. -/
theorem positionFrom_mono {p : Position} {m n : Nat} {cs : List Char} (h : m ≤ n) :
    (positionFrom p m cs).AtOrBefore (positionFrom p n cs) := by
  induction p, m, cs using positionFrom.induct generalizing n with
  | case1 p cs =>
    rw [positionFrom]
    exact atOrBefore_positionFrom p n cs
  | case2 p m =>
    rcases Nat.exists_eq_add_of_le' (Nat.le_trans (Nat.succ_pos m) h) with ⟨n, rfl⟩
    exact Or.inr ⟨rfl, Nat.add_le_add_left h _⟩
  | case3 p m c cs hle ih =>
    rcases Nat.exists_eq_add_of_le' (Nat.le_trans (Nat.succ_pos m) h) with ⟨n, rfl⟩
    rw [positionFrom, if_pos hle, positionFrom, if_pos (Nat.le_trans hle h)]
    exact ih (Nat.sub_le_sub_right h _)
  | case4 p m c cs hle =>
    rcases Nat.exists_eq_add_of_le' (Nat.le_trans (Nat.succ_pos m) h) with ⟨n, rfl⟩
    rw [positionFrom, if_neg hle, positionFrom]
    split
    -- The smaller offset lies inside the character, which is wider than a line feed.
    · have hc : c ≠ '\n' := by
        rintro rfl
        exact hle (Nat.succ_le_succ (Nat.zero_le m))
      have hafter : p.after c = ⟨p.row, p.column + c.utf8Size⟩ := by
        rw [Position.after, if_neg hc]
      have hinside : Position.AtOrBefore ⟨p.row, p.column + (m + 1)⟩ (p.after c) := by
        rw [hafter]
        exact Or.inr ⟨rfl, by dsimp only; omega⟩
      exact hinside.trans (atOrBefore_positionFrom (p.after c) _ cs)
    · exact Or.inr ⟨rfl, Nat.add_le_add_left h _⟩

/-! ## Bytes -/

/-- The bytes of a text in UTF-8. -/
def bytes (cs : List Char) : List UInt8 :=
  cs.flatMap String.utf8EncodeChar

@[simp] theorem bytes_cons (c : Char) (cs : List Char) :
    bytes (c :: cs) = String.utf8EncodeChar c ++ bytes cs := rfl

theorem length_bytes (cs : List Char) : (bytes cs).length = byteLength cs := by
  induction cs with
  | nil => rfl
  | cons c cs ih => simp [String.length_utf8EncodeChar, ih]

/-- The bytes of a character that is not ASCII are not ASCII. -/
theorem le_toNat_of_mem_utf8EncodeChar {c : Char} (h : 127 < c.val.toNat) :
    ∀ b ∈ String.utf8EncodeChar c, 128 ≤ b.toNat := by
  simp only [String.utf8EncodeChar, if_neg (Nat.not_le.2 h)]
  split
  · simp [UInt8.toNat_ofNat']
    omega
  · split
    · simp [UInt8.toNat_ofNat']
      omega
    · simp [UInt8.toNat_ofNat']
      omega

/-- The only byte of a line feed is one, and no other character has that byte. -/
theorem count_utf8EncodeChar (c : Char) :
    (String.utf8EncodeChar c).count 10 = if c = '\n' then 1 else 0 := by
  have hfeed : c = '\n' ↔ c.val.toNat = 10 := by
    rw [Char.ext_iff, ← UInt32.toNat_inj]
    rfl
  by_cases hascii : c.val.toNat ≤ 127
  · have hten : UInt8.ofNat c.val.toNat = 10 ↔ c.val.toNat = 10 := by
      rw [← UInt8.toNat_inj, UInt8.toNat_ofNat', Nat.mod_eq_of_lt (by omega)]
      rfl
    have hencode : String.utf8EncodeChar c = [UInt8.ofNat c.val.toNat] := if_pos hascii
    simp only [hencode, List.count_singleton, beq_iff_eq, hten, hfeed]
  · have hnone : (10 : UInt8) ∉ String.utf8EncodeChar c := by
      intro hmem
      exact absurd (le_toNat_of_mem_utf8EncodeChar (Nat.not_le.1 hascii) 10 hmem) (by decide)
    have hc : c ≠ '\n' := by
      intro hc
      rw [hfeed] at hc
      omega
    rw [List.count_eq_zero_of_not_mem hnone, if_neg hc]

theorem count_bytes (cs : List Char) : (bytes cs).count 10 = cs.count '\n' := by
  induction cs with
  | nil => rfl
  | cons c cs ih =>
    rw [bytes_cons, List.count_append, count_utf8EncodeChar, ih, List.count_cons, Nat.add_comm]
    simp

/-- The row of a place counts the line feeds among the bytes in front of it. -/
theorem row_positionFrom (p : Position) (n : Nat) (cs : List Char) :
    (positionFrom p n cs).row = p.row + ((bytes cs).take n).count 10 := by
  induction p, n, cs using positionFrom.induct with
  | case1 p cs => simp [positionFrom]
  | case2 p n => simp [positionFrom, bytes]
  | case3 p n c cs hle ih =>
    have hlength := String.length_utf8EncodeChar c
    have hrow : (p.after c).row = p.row + (String.utf8EncodeChar c).count 10 := by
      rw [count_utf8EncodeChar, Position.after]
      split <;> rfl
    have htake : (bytes (c :: cs)).take (n + 1) =
        String.utf8EncodeChar c ++ (bytes cs).take (n + 1 - c.utf8Size) := by
      rw [bytes_cons, List.take_append, hlength,
        List.take_of_length_le (Nat.le_trans (Nat.le_of_eq hlength) hle)]
    rw [positionFrom, if_pos hle, ih, hrow, htake, List.count_append, Nat.add_assoc]
  | case4 p n c cs hle =>
    have hlength := String.length_utf8EncodeChar c
    have hc : c ≠ '\n' := by
      rintro rfl
      exact hle (Nat.succ_le_succ (Nat.zero_le n))
    have hnone : ((String.utf8EncodeChar c).take (n + 1)).count 10 = 0 := by
      have hle := (List.take_sublist (n + 1) (String.utf8EncodeChar c)).count_le 10
      rw [count_utf8EncodeChar, if_neg hc] at hle
      omega
    rw [positionFrom, if_neg hle, bytes_cons, List.take_append_of_le_length (by omega), hnone]
    rfl

end Text
end TypeNameLint
