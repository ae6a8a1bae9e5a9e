import TypeNameLint.Toml.Document
import TypeNameLint.Proofs.Data.Steps
import TypeNameLint.Proofs.Data.Value

/-!
# Keys — a document gives every key once

A table grows by keys that it does not have yet, and what is below one of its keys is changed in
place. So no table of a document has a key twice, whatever headers and dotted keys it is put
together from, and a document has no way to spell a missing value. This file defines:

* `Toml.Nodes.IsToml`: tables with different keys, and with such tables below them;
* `Toml.ReadsToml`: what the readers of values give with some fuel.

The main result is `isToml_of_read?`.
-/

namespace TypeNameLint
namespace Toml

variable {nodes below : Nodes} {node : Node} {key : String} {entries : List (String × Value)}

/-! ## Finished tables -/

theorem entriesOf_eq_map (nodes : Nodes) :
    entriesOf nodes = nodes.map fun entry => (entry.1, entry.2.toValue) := by
  induction nodes with
  | nil => rfl
  | cons entry nodes ih => rw [entriesOf, ih, List.map_cons]

theorem elementsOf_eq_map (elements : List Nodes) :
    elementsOf elements = elements.map fun element => Value.table (entriesOf element) := by
  induction elements with
  | nil => rfl
  | cons element elements ih => rw [elementsOf, ih, List.map_cons]

namespace Nodes

/-- A table with different keys that stand for structured data. -/
structure IsToml (nodes : Nodes) : Prop where
  nodup_keys : (nodes.map Prod.fst).Nodup
  values_isToml : ∀ entry ∈ nodes, entry.2.toValue.IsToml

theorem isToml_entriesOf_iff : (Value.table (entriesOf nodes)).IsToml ↔ nodes.IsToml := by
  have hkeys : (entriesOf nodes).map Prod.fst = nodes.map Prod.fst := by
    rw [entriesOf_eq_map, List.map_map]
    rfl
  rw [Value.isToml_table_iff, hkeys, entriesOf_eq_map, List.forall_mem_map]
  exact ⟨fun h => ⟨h.1, h.2⟩, fun h => ⟨h.nodup_keys, h.values_isToml⟩⟩

theorem isToml_table_iff {origin : Origin} :
    (Node.table origin below).toValue.IsToml ↔ below.IsToml := by
  rw [Node.toValue, isToml_entriesOf_iff]

theorem isToml_tables_iff {elements : List Nodes} :
    (Node.tables elements).toValue.IsToml ↔ ∀ element ∈ elements, element.IsToml := by
  rw [Node.toValue, elementsOf_eq_map, Value.isToml_list_iff, List.forall_mem_map]
  simp only [isToml_entriesOf_iff]

theorem isToml_nil : IsToml [] :=
  ⟨List.nodup_nil, by simp⟩

/-! ## Changes of one key -/

theorem IsToml.of_lookup (h : nodes.IsToml) (hlookup : nodes.lookup key = some node) :
    node.toValue.IsToml := by
  rcases List.lookup_eq_some_iff.1 hlookup with ⟨before, after, rfl, -⟩
  exact h.values_isToml (key, node) (by simp)

/-- A new key comes behind the others. -/
theorem IsToml.concat (h : nodes.IsToml) (hfresh : nodes.lookup key = none)
    (hnode : node.toValue.IsToml) : IsToml (nodes ++ [(key, node)]) where
  nodup_keys := by
    rw [OrderedMap.lookup_eq_none_iff_not_mem] at hfresh
    rw [List.map_append, List.map_cons, List.map_nil, ← List.concat_eq_append]
    exact h.nodup_keys.concat hfresh
  values_isToml := List.forall_mem_append.2
    ⟨h.values_isToml, List.forall_mem_singleton.2 hnode⟩

theorem IsToml.replace (h : nodes.IsToml) (hnode : node.toValue.IsToml) :
    IsToml (nodes.replace key node) where
  nodup_keys := by
    have hkeys : (nodes.replace key node).map Prod.fst = nodes.map Prod.fst := by
      rw [Nodes.replace, List.map_map]
      refine List.map_congr_left fun entry _ => ?_
      rw [Function.comp_apply]
      split
      · rename_i hkey
        exact hkey.symm
      · rfl
    rw [hkeys]
    exact h.nodup_keys
  values_isToml := by
    rw [Nodes.replace, List.forall_mem_map]
    intro entry hentry
    split
    · exact hnode
    · exact h.values_isToml entry hentry

theorem IsToml.remove (h : nodes.IsToml) (key : String) : IsToml (nodes.remove key) where
  nodup_keys := h.nodup_keys.sublist (List.filter_sublist.map Prod.fst)
  values_isToml := fun entry hentry => h.values_isToml entry (List.mem_of_mem_filter hentry)

theorem lookup_remove (nodes : Nodes) (key : String) : (nodes.remove key).lookup key = none := by
  rw [OrderedMap.lookup_eq_none_iff_not_mem, remove]
  simp

/-! ## Changes below a path -/

/-- A change that keeps tables well-formed does so below every path. -/
theorem IsToml.updateAt {isDotted : Bool} {change : Origin → Nodes → Option Nodes}
    (hchange : ∀ origin before after, IsToml before → change origin before = some after →
      IsToml after) {path : List String} {origin : Origin} {before after : Nodes}
    (h : before.IsToml) (hupdate : Nodes.updateAt isDotted change path origin before = some after) :
    after.IsToml := by
  induction path generalizing origin before after with
  | nil => exact hchange origin before after h hupdate
  | cons key path ih =>
    rw [Nodes.updateAt] at hupdate
    cases hlookup : before.lookup key with
    -- What is missing on the way is made, as a table that is empty before the change.
    | none =>
      simp only [hlookup] at hupdate
      rcases Option.map_eq_some_iff.1 hupdate with ⟨below, hbelow, rfl⟩
      exact h.concat hlookup (isToml_table_iff.2 (ih isToml_nil hbelow))
    | some node =>
      have hnode : node.toValue.IsToml := h.of_lookup hlookup
      simp only [hlookup] at hupdate
      cases node with
      | value value => cases hupdate
      | tables elements =>
        rw [isToml_tables_iff] at hnode
        -- Only the last element of a list is changed.
        cases hlast : elements.reverse with
        | nil =>
          simp only [hlast] at hupdate
          cases hupdate
        | cons last others =>
          have helements : elements = others.reverse ++ [last] := by
            rw [← List.reverse_cons, ← hlast, List.reverse_reverse]
          rw [helements, List.forall_mem_append, List.forall_mem_singleton] at hnode
          simp only [hlast] at hupdate
          rcases Option.map_eq_some_iff.1 hupdate with ⟨changed, hchanged, rfl⟩
          refine h.replace (isToml_tables_iff.2 ?_)
          rw [List.reverse_cons, List.forall_mem_append, List.forall_mem_singleton]
          exact ⟨hnode.1, ih hnode.2 hchanged⟩
      | table origin below =>
        simp only at hupdate
        split at hupdate
        · cases hupdate
        · rcases Option.map_eq_some_iff.1 hupdate with ⟨changed, hchanged, rfl⟩
          exact h.replace (isToml_table_iff.2 (ih (isToml_table_iff.1 hnode) hchanged))

/-! ## Pairs and sections -/

theorem IsToml.assign {pair : Pair} {after : Nodes} (h : nodes.IsToml)
    (hpair : pair.value.IsToml) (hassign : nodes.assign pair = some after) : after.IsToml := by
  refine h.updateAt ?_ hassign
  intro origin before after hbefore hchange
  split at hchange
  · cases hchange
  · rename_i hadded
    rw [not_or, Bool.not_eq_true, Option.isSome_eq_false_iff, Option.isNone_iff_eq_none] at hadded
    obtain rfl := Option.some.inj hchange
    exact hbefore.concat hadded.2 hpair

theorem IsToml.assignAll {pairs : List Pair} {after : Nodes} (h : nodes.IsToml)
    (hpairs : ∀ pair ∈ pairs, pair.value.IsToml) (hassign : nodes.assignAll pairs = some after) :
    after.IsToml := by
  refine foldlM_preserves ?_ h hassign
  intro before pair hpair after hbefore hafter
  exact hbefore.assign (hpairs pair hpair) hafter

theorem isToml_of_ofPairs {pairs : List Pair} (hpairs : ∀ pair ∈ pairs, pair.value.IsToml)
    (h : ofPairs pairs = some nodes) : nodes.IsToml :=
  isToml_nil.assignAll hpairs h

theorem IsToml.defineTable {part : Section} {after : Nodes} (h : nodes.IsToml)
    (hpairs : ∀ pair ∈ part.pairs, pair.value.IsToml)
    (hdefine : nodes.defineTable part = some after) : after.IsToml := by
  unfold Nodes.defineTable at hdefine
  simp only at hdefine
  split at hdefine
  · rename_i hlookup
    rcases Option.map_eq_some_iff.1 hdefine with ⟨below, hbelow, rfl⟩
    exact h.concat hlookup (isToml_table_iff.2 (isToml_of_ofPairs hpairs hbelow))
  · rename_i hlookup
    rcases Option.map_eq_some_iff.1 hdefine with ⟨below, hbelow, rfl⟩
    have hnode := isToml_table_iff.1 (h.of_lookup hlookup)
    -- A table that was made on the way to others moves to the end with its own header.
    refine (h.remove _).concat (lookup_remove nodes _) (isToml_table_iff.2 ?_)
    exact hnode.assignAll hpairs hbelow
  · cases hdefine

theorem IsToml.addElement {part : Section} {after : Nodes} (h : nodes.IsToml)
    (hpairs : ∀ pair ∈ part.pairs, pair.value.IsToml)
    (hadd : nodes.addElement part = some after) : after.IsToml := by
  unfold Nodes.addElement at hadd
  simp only at hadd
  split at hadd
  · rename_i hlookup
    rcases Option.map_eq_some_iff.1 hadd with ⟨element, helement, rfl⟩
    refine h.concat hlookup (isToml_tables_iff.2 (List.forall_mem_singleton.2 ?_))
    exact isToml_of_ofPairs hpairs helement
  · rename_i hlookup
    rcases Option.map_eq_some_iff.1 hadd with ⟨element, helement, rfl⟩
    have hnode := isToml_tables_iff.1 (h.of_lookup hlookup)
    refine h.replace (isToml_tables_iff.2 (List.forall_mem_append.2 ⟨hnode, ?_⟩))
    exact List.forall_mem_singleton.2 (isToml_of_ofPairs hpairs helement)
  · cases hadd

theorem IsToml.addSection {part : Section} {after : Nodes} (h : nodes.IsToml)
    (hpairs : ∀ pair ∈ part.pairs, pair.value.IsToml)
    (hadd : nodes.addSection part = some after) : after.IsToml := by
  refine h.updateAt ?_ hadd
  intro origin before after hbefore hchange
  split at hchange
  · exact hbefore.addElement hpairs hchange
  · exact hbefore.defineTable hpairs hchange

end Nodes

/-! ## Values -/

theorem isToml_of_integer? {n : Int} {value : Value} (h : integer? n = some value) :
    value.IsToml := by
  rw [integer?] at h
  split at h
  · obtain rfl := Option.some.inj h
    exact .integer n
  · cases h

theorem isToml_of_float? {negative : Bool} {magnitude : Float} {value : Value}
    (h : float? negative magnitude = some value) : value.IsToml := by
  rw [float?] at h
  split at h
  · obtain rfl := Option.some.inj h
    exact .float _
  · split at h
    · cases h
    · obtain rfl := Option.some.inj h
      exact .float _

theorem isToml_of_unsigned? {negative : Bool} {cs rest : List Char} {value : Value}
    (h : unsigned? negative cs = some (value, rest)) : value.IsToml := by
  unfold unsigned? at h
  split at h
  · obtain rfl := congrArg Prod.fst (Option.some.inj h)
    exact .float _
  · obtain rfl := congrArg Prod.fst (Option.some.inj h)
    exact .float _
  · simp only [Option.bind_eq_bind, Option.bind_eq_some_iff] at h
    rcases h with ⟨whole, -, fraction, -, exponent, -, h⟩
    split at h
    · rcases Option.bind_eq_some_iff.1 h with ⟨n, hn, hsame⟩
      obtain rfl := congrArg Prod.fst (Option.some.inj hsame)
      exact isToml_of_integer? hn
    · rcases Option.bind_eq_some_iff.1 h with ⟨x, hx, hsame⟩
      obtain rfl := congrArg Prod.fst (Option.some.inj hsame)
      exact isToml_of_float? hx

theorem isToml_of_radixInteger? {base : Nat} {cs rest : List Char} {value : Value}
    (h : radixInteger? base cs = some (value, rest)) : value.IsToml := by
  unfold radixInteger? at h
  simp only [Option.bind_eq_bind, Option.bind_eq_some_iff] at h
  rcases h with ⟨digits, -, n, hn, hsame⟩
  obtain rfl := congrArg Prod.fst (Option.some.inj hsame)
  exact isToml_of_integer? hn

theorem isToml_of_number? {cs rest : List Char} {value : Value}
    (h : number? cs = some (value, rest)) : value.IsToml := by
  unfold number? at h
  split at h
  iterate 3 exact isToml_of_radixInteger? h
  iterate 3 exact isToml_of_unsigned? h

theorem isToml_of_scalar? {cs rest : List Char} {value : Value}
    (h : scalar? cs = some (value, rest)) : value.IsToml := by
  unfold scalar? at h
  split at h
  · obtain rfl := congrArg Prod.fst (Option.some.inj h)
    exact .boolean true
  · obtain rfl := congrArg Prod.fst (Option.some.inj h)
    exact .boolean false
  · rcases Option.map_eq_some_iff.1 h with ⟨read, -, hsame⟩
    obtain rfl := congrArg Prod.fst hsame
    exact .text _
  · rcases Option.map_eq_some_iff.1 h with ⟨read, -, hsame⟩
    obtain rfl := congrArg Prod.fst hsame
    exact .text _
  · split at h
    · rcases Option.map_eq_some_iff.1 h with ⟨read, -, hsame⟩
      obtain rfl := congrArg Prod.fst hsame
      exact .date _
    · exact isToml_of_number? h

theorem value_of_ofKeys? {keys : List String} {value : Value} {pair : Pair}
    (h : Pair.ofKeys? keys value = some pair) : pair.value = value := by
  rcases Option.map_eq_some_iff.1 h with ⟨key, -, rfl⟩
  rfl

/-- What the three readers of values give with some fuel. -/
structure ReadsToml (fuel : Nat) : Prop where
  value : ∀ {depth cs read rest}, Toml.value fuel depth cs = some (read, rest) → read.IsToml
  items : ∀ {depth cs read rest}, Toml.items fuel depth cs = some (read, rest) →
    ∀ item ∈ read, item.IsToml
  pairs : ∀ {depth cs read rest}, Toml.pairs fuel depth cs = some (read, rest) →
    ∀ pair ∈ read, pair.value.IsToml

namespace ReadsToml

variable {fuel depth : Nat} {cs rest : List Char}

theorem value_succ (ih : ReadsToml fuel) {read : Value}
    (h : Toml.value (fuel + 1) depth cs = some (read, rest)) : read.IsToml := by
  unfold Toml.value at h
  split at h
  · split at h
    · cases h
    · rcases Option.map_eq_some_iff.1 h with ⟨found, hitems, hsame⟩
      obtain rfl := congrArg Prod.fst hsame
      exact .list (ih.items hitems)
  · split at h
    · cases h
    · split at h
      -- An inline table is built from its pairs as the document is, so it has no key twice either.
      · simp only [Option.bind_eq_bind, Option.bind_some, Option.bind_eq_some_iff] at h
        rcases h with ⟨nodes, hnodes, hsame⟩
        obtain rfl := congrArg Prod.fst (Option.some.inj hsame)
        exact Nodes.isToml_entriesOf_iff.2 (Nodes.isToml_of_ofPairs (by simp) hnodes)
      · simp only [Option.bind_eq_bind, Option.bind_eq_some_iff] at h
        rcases h with ⟨⟨found, others⟩, hpairs, nodes, hnodes, hsame⟩
        obtain rfl := congrArg Prod.fst (Option.some.inj hsame)
        exact Nodes.isToml_entriesOf_iff.2 (Nodes.isToml_of_ofPairs (ih.pairs hpairs) hnodes)
  · exact isToml_of_scalar? h

theorem items_succ (ih : ReadsToml fuel) {read : List Value}
    (h : Toml.items (fuel + 1) depth cs = some (read, rest)) : ∀ item ∈ read, item.IsToml := by
  unfold Toml.items at h
  split at h
  · cases h
  · obtain rfl := congrArg Prod.fst (Option.some.inj h)
    simp
  · split at h
    · cases h
    · rename_i first others hfirst
      split at h
      · rcases Option.map_eq_some_iff.1 h with ⟨found, hitems, hsame⟩
        obtain rfl := congrArg Prod.fst hsame
        exact List.forall_mem_cons.2 ⟨ih.value hfirst, ih.items hitems⟩
      · obtain rfl := congrArg Prod.fst (Option.some.inj h)
        exact List.forall_mem_singleton.2 (ih.value hfirst)
      · cases h

theorem pairs_succ (ih : ReadsToml fuel) {read : List Pair}
    (h : Toml.pairs (fuel + 1) depth cs = some (read, rest)) :
    ∀ pair ∈ read, pair.value.IsToml := by
  unfold Toml.pairs at h
  split at h
  · split at h
    · cases h
    · rename_i first others hfirst
      split at h
      · cases h
      · rename_i pair hpair
        have hvalue : pair.value.IsToml := by
          rw [value_of_ofKeys? hpair]
          exact ih.value hfirst
        split at h
        · rcases Option.map_eq_some_iff.1 h with ⟨found, hpairs, hsame⟩
          obtain rfl := congrArg Prod.fst hsame
          exact List.forall_mem_cons.2 ⟨hvalue, ih.pairs hpairs⟩
        · obtain rfl := congrArg Prod.fst (Option.some.inj h)
          exact List.forall_mem_singleton.2 hvalue
        · cases h
  · cases h

end ReadsToml

/-- The readers call each other with less fuel. -/
theorem readsToml (fuel : Nat) : ReadsToml fuel := by
  induction fuel with
  | zero =>
    refine ⟨?_, ?_, ?_⟩
    iterate 3
      intro depth cs read rest h
      cases h
  | succ fuel ih => exact ⟨ih.value_succ, ih.items_succ, ih.pairs_succ⟩

/-! ## Documents -/

/-- What a line says if it is a pair. -/
def Statement.IsToml (statement : Statement) : Prop :=
  ∀ pair, statement = .pair pair → pair.value.IsToml

theorem isToml_of_statement? {cs rest : List Char} {statement : Statement}
    (h : statement? cs = some (statement, rest)) : statement.IsToml := by
  rintro pair rfl
  unfold statement? at h
  split at h
  · simp only [Option.bind_eq_bind, Option.bind_eq_some_iff] at h
    rcases h with ⟨_, -, _, -, _, -, _, -, _, -, hsame⟩
    cases hsame
  · simp only [Option.bind_eq_bind, Option.bind_eq_some_iff] at h
    rcases h with ⟨_, -, _, -, _, -, _, -, hsame⟩
    cases hsame
  · split at h
    · cases h
    · simp only [Option.bind_eq_bind, Option.bind_eq_some_iff] at h
      rcases h with ⟨_, -, _, -, ⟨value, _⟩, hvalue, other, hother, _, -, hsame⟩
      obtain rfl : other = pair := Statement.pair.inj (congrArg Prod.fst (Option.some.inj hsame))
      rw [value_of_ofKeys? hother]
      exact (readsToml _).value hvalue

theorem isToml_of_statements {fuel : Nat} {cs : List Char} {lines : List Statement}
    (h : statements fuel cs = some lines) : ∀ line ∈ lines, line.IsToml := by
  induction fuel generalizing cs lines with
  | zero =>
    cases cs with
    | nil =>
      obtain rfl := Option.some.inj h
      simp
    | cons c cs => cases h
  | succ fuel ih =>
    cases cs with
    | nil =>
      obtain rfl := Option.some.inj h
      simp
    | cons c cs =>
      unfold statements at h
      simp only [Option.bind_eq_bind, Option.bind_eq_some_iff] at h
      rcases h with ⟨⟨line, rest⟩, hline, others, hothers, hsame⟩
      obtain rfl := Option.some.inj hsame
      exact List.forall_mem_cons.2 ⟨isToml_of_statement? hline, ih hothers⟩

/-- Pairs go to the section that they stand in. -/
theorem isToml_foldr_addStatement {lines : List Statement} (h : ∀ line ∈ lines, line.IsToml) :
    (∀ pair ∈ (lines.foldr addStatement ([], [])).1, pair.value.IsToml) ∧
      ∀ part ∈ (lines.foldr addStatement ([], [])).2, ∀ pair ∈ part.pairs, pair.value.IsToml := by
  induction lines with
  | nil => simp
  | cons line lines ih =>
    rw [List.forall_mem_cons] at h
    rcases ih h.2 with ⟨hpairs, hsections⟩
    rw [List.foldr_cons]
    cases line with
    | nothing => exact ⟨hpairs, hsections⟩
    | pair pair => exact ⟨List.forall_mem_cons.2 ⟨h.1 pair rfl, hpairs⟩, hsections⟩
    | header header =>
      exact ⟨by simp [addStatement], List.forall_mem_cons.2 ⟨hpairs, hsections⟩⟩

/-- No table of a document has a key twice, and no value is missing. -/
theorem isToml_of_read? {text : String} (h : read? text = some entries) :
    (Value.table entries).IsToml := by
  unfold read? at h
  simp only [Option.bind_eq_bind, Option.bind_eq_some_iff] at h
  rcases h with ⟨lines, hlines, root, hroot, nodes, hnodes, hsame⟩
  obtain rfl := Option.some.inj hsame
  rcases isToml_foldr_addStatement (isToml_of_statements hlines) with ⟨hpairs, hsections⟩
  refine Nodes.isToml_entriesOf_iff.2 (foldlM_preserves ?_ (Nodes.isToml_of_ofPairs hpairs hroot)
    hnodes)
  intro before part hpart after hbefore hafter
  exact hbefore.addSection (hsections part hpart) hafter

end Toml
end TypeNameLint
