import TypeNameLint.Data.OrderedMap
import Mathlib.Data.List.Induction
import Mathlib.Data.List.Nodup

/-!
# OrderedMap — what insertions leave in place

An insertion writes to the entry of its key, or adds one behind all others. So the order of a map
is told by the first insertions of its keys. The main results are:

* `toList_insert_of_mem`, `toList_insert_of_not_mem`: the two outcomes of an insertion;
* `get?_insert`: only the inserted key is looked up differently;
* `toList_ofList`: entries with different keys are kept as they are;
* `pairwise_idxOf_keys_ofList`, `get?_ofList`: in general the first entry of a key says where it
  stands, and the last one what it is looked up as.
-/

namespace TypeNameLint
namespace OrderedMap

variable {α : Type} {m : OrderedMap α} {entries : List (String × α)} {key : String} {value : α}

/-! ## Entries -/

theorem lookup_eq_some_of_mem (hnodup : (entries.map Prod.fst).Nodup) :
    (key, value) ∈ entries → entries.lookup key = some value := by
  intro hmem
  induction entries with
  | nil => cases hmem
  | cons entry entries ih =>
    rcases entry with ⟨other, old⟩
    rcases List.nodup_cons.1 hnodup with ⟨hfresh, hrest⟩
    rcases List.mem_cons.1 hmem with heq | hmem
    · cases heq
      simp
    · -- The key comes later, so it is not the first one.
      have hlater : key ∈ entries.map Prod.fst := List.mem_map_of_mem hmem
      have hne : (key == other) = false := by
        rw [beq_eq_false_iff_ne]
        rintro rfl
        exact hfresh hlater
      rw [List.lookup_cons, hne]
      exact ih hrest hmem

theorem lookup_eq_some_iff_mem (hnodup : (entries.map Prod.fst).Nodup) :
    entries.lookup key = some value ↔ (key, value) ∈ entries := by
  constructor
  · intro h
    rcases List.lookup_eq_some_iff.1 h with ⟨before, after, rfl, -⟩
    simp
  · exact lookup_eq_some_of_mem hnodup

theorem lookup_eq_none_iff_not_mem :
    entries.lookup key = none ↔ key ∉ entries.map Prod.fst := by
  rw [List.lookup_eq_none_iff]
  simp only [List.mem_map, not_exists, not_and, bne_iff_ne]
  exact ⟨fun h entry hentry heq => h entry hentry heq.symm,
    fun h entry hentry heq => h entry hentry heq.symm⟩

/-- Among entries with different keys one alone has its key in a set of keys. -/
theorem filter_key_eq_singleton_iff {p : String → Bool} (hnodup : (entries.map Prod.fst).Nodup)
    {entry : String × α} :
    (entries.filter fun other => p other.1) = [entry] ↔
      entry ∈ entries ∧ p entry.1 = true ∧
        ∀ other ∈ entries, p other.1 = true → other.1 = entry.1 := by
  constructor
  · intro h
    have hmem : ∀ other, other ∈ entries ∧ p other.1 = true ↔ other = entry := by
      intro other
      have hother : other ∈ entries.filter (fun other => p other.1) ↔ other = entry := by
        rw [h, List.mem_singleton]
      rwa [List.mem_filter] at hother
    refine ⟨((hmem entry).2 rfl).1, ((hmem entry).2 rfl).2, fun other hother hp => ?_⟩
    rw [(hmem other).1 ⟨hother, hp⟩]
  · rintro ⟨hmem, hp, halone⟩
    rcases List.append_of_mem hmem with ⟨before, after, rfl⟩
    have hnone : ∀ other ∈ before ++ after, ¬ p other.1 = true := by
      intro other hother hp
      rw [List.map_append, List.map_cons, List.nodup_middle, ← List.map_append] at hnodup
      have hsame : other.1 = entry.1 := halone other (by grind) hp
      exact (List.nodup_cons.1 hnodup).1 (hsame ▸ List.mem_map_of_mem hother)
    rw [List.forall_mem_append] at hnone
    rw [List.filter_append, List.filter_cons, if_pos hp, List.filter_eq_nil_iff.2 hnone.1,
      List.filter_eq_nil_iff.2 hnone.2, List.nil_append]

theorem insertEntry_of_not_mem :
    key ∉ entries.map Prod.fst → insertEntry key value entries = entries ++ [(key, value)] := by
  intro hfresh
  induction entries with
  | nil => rfl
  | cons entry entries ih =>
    have hne : entry.1 ≠ key := fun heq => hfresh (by simp [heq])
    have hrest : key ∉ entries.map Prod.fst := fun hmem => hfresh (List.mem_cons_of_mem _ hmem)
    rw [insertEntry, if_neg hne, ih hrest, List.cons_append]

/-- With different keys, there is only one entry that an insertion can write to. -/
theorem insertEntry_of_mem (hnodup : (entries.map Prod.fst).Nodup) :
    key ∈ entries.map Prod.fst → insertEntry key value entries =
      entries.map fun entry => if entry.1 = key then (key, value) else entry := by
  intro hmem
  induction entries with
  | nil => cases hmem
  | cons entry entries ih =>
    rcases List.nodup_cons.1 hnodup with ⟨hfresh, hrest⟩
    by_cases heq : entry.1 = key
    · have hothers : ∀ other ∈ entries, other.1 ≠ key := by
        intro other hother hsame
        refine hfresh ?_
        rw [heq, ← hsame]
        exact List.mem_map_of_mem hother
      have hkept : (entries.map fun entry => if entry.1 = key then (key, value) else entry) =
          entries := by
        rw [List.map_congr_left fun other hother => if_neg (hothers other hother), List.map_id']
      rw [insertEntry, if_pos heq, List.map_cons, if_pos heq, hkept]
    · have hlater : key ∈ entries.map Prod.fst :=
        (List.mem_cons.1 hmem).resolve_left fun hsame => heq hsame.symm
      rw [insertEntry, if_neg heq, List.map_cons, if_neg heq, ih hrest hlater]

theorem lookup_insertEntry (key other : String) (value : α) (entries : List (String × α)) :
    (insertEntry key value entries).lookup other =
      if other = key then some value else entries.lookup other := by
  induction entries with
  | nil =>
    by_cases h : other = key
    · simp [insertEntry, h]
    · have hne : (other == key) = false := by simpa using h
      simp [insertEntry, List.lookup_cons, h, hne]
  | cons entry entries ih =>
    rcases entry with ⟨first, old⟩
    by_cases h : other = first
    · -- The look-up ends at the first entry, which may be the one that is written to.
      subst h
      by_cases hfirst : other = key
      · simp [insertEntry, hfirst]
      · simp [insertEntry, hfirst]
    · have hne : (other == first) = false := by simpa using h
      by_cases hfirst : first = key
      · subst hfirst
        simp [insertEntry, List.lookup_cons, hne, h]
      · simpa [insertEntry, hfirst, List.lookup_cons, hne] using ih

/-! ## Maps -/

theorem toList_insert_of_not_mem (h : key ∉ m.keys) (value : α) :
    (m.insert key value).toList = m.toList ++ [(key, value)] :=
  insertEntry_of_not_mem h

theorem toList_insert_of_mem (hnodup : m.keys.Nodup) (h : key ∈ m.keys) (value : α) :
    (m.insert key value).toList =
      m.toList.map fun entry => if entry.1 = key then (key, value) else entry :=
  insertEntry_of_mem hnodup h

theorem get?_insert (m : OrderedMap α) (key other : String) (value : α) :
    (m.insert key value).get? other = if other = key then some value else m.get? other :=
  lookup_insertEntry key other value m.toList

theorem mem_keys_insert {other : String} :
    other ∈ (m.insert key value).keys ↔ other = key ∨ other ∈ m.keys := by
  have habsent : other ∉ (m.insert key value).keys ↔ (m.insert key value).get? other = none :=
    lookup_eq_none_iff_not_mem.symm
  have hbefore : other ∉ m.keys ↔ m.get? other = none := lookup_eq_none_iff_not_mem.symm
  rw [← not_iff_not, habsent, get?_insert, not_or, hbefore]
  by_cases heq : other = key
  · simp [heq]
  · simp [heq]

theorem keys_insert_of_mem (hnodup : m.keys.Nodup) (h : key ∈ m.keys) (value : α) :
    (m.insert key value).keys = m.keys := by
  rw [keys, toList_insert_of_mem hnodup h, List.map_map]
  refine List.map_congr_left fun entry _ => ?_
  by_cases heq : entry.1 = key
  · simp [heq]
  · simp [heq]

theorem keys_insert_of_not_mem (h : key ∉ m.keys) (value : α) :
    (m.insert key value).keys = m.keys ++ [key] := by
  rw [keys, toList_insert_of_not_mem h, List.map_append]
  rfl

/-- No key is there twice, however often it is inserted. -/
theorem nodup_keys_insert (hnodup : m.keys.Nodup) (key : String) (value : α) :
    (m.insert key value).keys.Nodup := by
  by_cases h : key ∈ m.keys
  · rw [keys_insert_of_mem hnodup h]
    exact hnodup
  · rw [keys_insert_of_not_mem h, ← List.concat_eq_append]
    exact List.Nodup.concat h hnodup

/-! ## Maps of entries -/

theorem ofList_concat (entries : List (String × α)) (entry : String × α) :
    ofList (entries ++ [entry]) = (ofList entries).insert entry.1 entry.2 :=
  List.foldl_concat _ _ _ _

/-- A map of entries with different keys has just these entries, in their order. -/
theorem toList_ofList (h : (entries.map Prod.fst).Nodup) : (ofList entries).toList = entries := by
  induction entries using List.reverseRecOn with
  | nil => rfl
  | append_singleton entries entry ih =>
    rw [List.map_append, List.nodup_append] at h
    rcases h with ⟨hbefore, -, hapart⟩
    have hfresh : entry.1 ∉ (ofList entries).keys := by
      rw [keys, ih hbefore]
      intro hmem
      exact hapart entry.1 hmem entry.1 (by simp) rfl
    rw [ofList_concat, toList_insert_of_not_mem hfresh, ih hbefore]

theorem nodup_keys_ofList (entries : List (String × α)) : (ofList entries).keys.Nodup := by
  induction entries using List.reverseRecOn with
  | nil => exact List.nodup_nil
  | append_singleton entries entry ih =>
    rw [ofList_concat]
    exact nodup_keys_insert ih entry.1 entry.2

theorem mem_keys_ofList : key ∈ (ofList entries).keys ↔ key ∈ entries.map Prod.fst := by
  induction entries using List.reverseRecOn with
  | nil => exact Iff.rfl
  | append_singleton entries entry ih =>
    rw [ofList_concat, mem_keys_insert, ih, List.map_append, List.mem_append, or_comm]
    simp

/-- The keys stand in the order of their first entries. -/
theorem pairwise_idxOf_keys_ofList (entries : List (String × α)) :
    (ofList entries).keys.Pairwise fun key later =>
      (entries.map Prod.fst).idxOf key < (entries.map Prod.fst).idxOf later := by
  induction entries using List.reverseRecOn with
  | nil => exact List.Pairwise.nil
  | append_singleton entries entry ih =>
    -- A further entry is no first one of the keys that are there already.
    have hkept : (ofList entries).keys.Pairwise fun key later =>
        ((entries ++ [entry]).map Prod.fst).idxOf key <
          ((entries ++ [entry]).map Prod.fst).idxOf later := by
      refine ih.imp_of_mem fun {key later} hkey hlater hlt => ?_
      rwa [List.map_append, List.idxOf_append_of_mem (mem_keys_ofList.1 hkey),
        List.idxOf_append_of_mem (mem_keys_ofList.1 hlater)]
    rw [ofList_concat]
    by_cases hmem : entry.1 ∈ (ofList entries).keys
    · rw [keys_insert_of_mem (nodup_keys_ofList entries) hmem]
      exact hkept
    · rw [keys_insert_of_not_mem hmem, List.pairwise_append]
      refine ⟨hkept, List.pairwise_singleton _ _, ?_⟩
      intro key hkey later hlater
      rw [List.mem_singleton] at hlater
      subst hlater
      rw [mem_keys_ofList] at hkey hmem
      rw [List.map_append, List.idxOf_append_of_mem hkey, List.idxOf_append_of_notMem hmem]
      exact Nat.lt_add_right _ (List.idxOf_lt_length_iff.2 hkey)

/-- A key is looked up from the last entry on. -/
theorem get?_ofList (entries : List (String × α)) (key : String) :
    (ofList entries).get? key = entries.reverse.lookup key := by
  induction entries using List.reverseRecOn with
  | nil => rfl
  | append_singleton entries entry ih =>
    rw [ofList_concat, get?_insert, ih, List.reverse_concat, List.lookup_cons]
    by_cases heq : key = entry.1
    · simp [heq]
    · have hne : (key == entry.1) = false := by simpa using heq
      rw [if_neg heq, hne]

theorem get?_ofList_append (entries more : List (String × α)) (key : String) :
    (ofList (entries ++ more)).get? key =
      ((ofList more).get? key).or ((ofList entries).get? key) := by
  rw [get?_ofList, get?_ofList, get?_ofList, List.reverse_append, List.lookup_append]

theorem get?_ofList_eq_some_iff :
    (ofList entries).get? key = some value ↔
      ∃ before after, entries = before ++ (key, value) :: after ∧ ∀ later ∈ after, later.1 ≠ key := by
  rw [get?_ofList, List.lookup_eq_some_iff]
  constructor
  · rintro ⟨after, before, hsplit, hafter⟩
    refine ⟨before.reverse, after.reverse, ?_, ?_⟩
    · rw [← List.reverse_inj, hsplit]
      simp
    · intro later hlater heq
      have hne := hafter later (List.mem_reverse.1 hlater)
      simp [heq] at hne
  · rintro ⟨before, after, rfl, hafter⟩
    refine ⟨after.reverse, before.reverse, by simp, ?_⟩
    intro later hlater
    rw [bne_iff_ne]
    exact (hafter later (List.mem_reverse.1 hlater)).symm

end OrderedMap
end TypeNameLint
