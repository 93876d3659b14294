/-!
# Sets of names

A set that remembers the order in which its names came. A name that comes again keeps its place.

* `NameSet.mem_insertAll`: a set holds what it held before and what was inserted.
* `NameSet.prefix_insertAll`: inserting only adds at the end.
* `NameSet.names_insertAll`: of the old names and the new ones, each stays where it comes first.
* `NameSet.insertAll_names_of_prefix`: a set is made again from its own names.
-/

namespace LinkageAudit

/-- Names in order of first insertion, each once. -/
structure NameSet where
  names : List String
  nodup : names.Nodup := by simp
  deriving DecidableEq, Repr

namespace NameSet

/-- The set without names. -/
def empty : NameSet := ⟨[], List.nodup_nil⟩

/-- Membership. -/
def contains (s : NameSet) (name : String) : Bool := s.names.contains name

/-- Adds a name at the end, unless it is there. -/
def insert (s : NameSet) (name : String) : NameSet :=
  if h : name ∈ s.names then s
  else ⟨s.names ++ [name], by
    refine List.nodup_append.2 ⟨s.nodup, by simp, ?_⟩
    intro a ha b hb
    rw [List.mem_singleton] at hb
    rintro rfl
    exact h (hb ▸ ha)⟩

/-- Adds names one after the other. -/
def insertAll (s : NameSet) (names : List String) : NameSet := names.foldl insert s

@[simp] theorem contains_iff {s : NameSet} {name : String} :
    s.contains name = true ↔ name ∈ s.names := by
  simp [contains]

@[simp] theorem contains_eq_false_iff {s : NameSet} {name : String} :
    s.contains name = false ↔ name ∉ s.names := by
  rw [← contains_iff, Bool.not_eq_true]

theorem mem_insert {s : NameSet} {name other : String} :
    other ∈ (s.insert name).names ↔ other ∈ s.names ∨ other = name := by
  unfold insert
  split
  · next h => exact ⟨.inl, fun hm => hm.elim id fun e => e ▸ h⟩
  · simp

theorem mem_insertAll {s : NameSet} {names : List String} {other : String} :
    other ∈ (s.insertAll names).names ↔ other ∈ s.names ∨ other ∈ names := by
  unfold insertAll
  induction names generalizing s with
  | nil => simp
  | cons n ns ih => rw [List.foldl_cons, ih, mem_insert, List.mem_cons, or_assoc]

@[simp] theorem contains_insertAll (s : NameSet) (names : List String) (name : String) :
    (s.insertAll names).contains name = (s.contains name || names.contains name) := by
  rw [Bool.eq_iff_iff, contains_iff, mem_insertAll, Bool.or_eq_true, contains_iff,
    List.contains_iff_mem]

theorem insertAll_append (s : NameSet) (names names' : List String) :
    s.insertAll (names ++ names') = (s.insertAll names).insertAll names' :=
  List.foldl_append

theorem prefix_insert (s : NameSet) (name : String) : s.names <+: (s.insert name).names := by
  unfold insert
  split
  · exact List.prefix_refl _
  · exact List.prefix_append _ _

theorem prefix_insertAll (s : NameSet) (names : List String) :
    s.names <+: (s.insertAll names).names := by
  unfold insertAll
  induction names generalizing s with
  | nil => exact List.prefix_refl _
  | cons n ns ih => exact (prefix_insert s n).trans (ih _)

theorem eq_of_names {s t : NameSet} (h : s.names = t.names) : s = t := by
  cases s
  cases t
  cases h
  rfl

theorem insert_of_mem {s : NameSet} {name : String} (h : name ∈ s.names) : s.insert name = s :=
  dif_pos h

theorem names_insert_of_notMem {s : NameSet} {name : String} (h : name ∉ s.names) :
    (s.insert name).names = s.names ++ [name] := by
  rw [insert, dif_neg h]

/-- Inserting what is there changes nothing. -/
theorem insertAll_of_subset {s : NameSet} {names : List String} (h : ∀ n ∈ names, n ∈ s.names) :
    s.insertAll names = s := by
  unfold insertAll
  induction names with
  | nil => rfl
  | cons n ns ih =>
    obtain ⟨hn, hns⟩ := List.forall_mem_cons.1 h
    rw [List.foldl_cons, insert_of_mem hn]
    exact ih hns

/-- Names that are all different have no repeats to erase. -/
theorem eraseDups_of_nodup {names : List String} (h : names.Nodup) : names.eraseDups = names := by
  induction names with
  | nil => rfl
  | cons n ns ih =>
    obtain ⟨hn, hns⟩ := List.nodup_cons.1 h
    have hkept : ns.filter (fun m => !m == n) = ns := by
      rw [List.filter_eq_self]
      intro m hm
      have hne : m ≠ n := fun e => hn (e ▸ hm)
      simp [hne]
    rw [List.eraseDups_cons, hkept, ih hns]

/-- The names of a grown set: what was there and what came, each at its first place. -/
theorem names_insertAll (s : NameSet) (names : List String) :
    (s.insertAll names).names = (s.names ++ names).eraseDups := by
  unfold insertAll
  induction names generalizing s with
  | nil =>
    rw [List.append_nil, eraseDups_of_nodup s.nodup]
    rfl
  | cons n ns ih =>
    rw [List.foldl_cons, ih]
    by_cases hn : n ∈ s.names
    · rw [insert_of_mem hn]
      simp [List.eraseDups_append, List.removeAll, hn]
    · rw [names_insert_of_notMem hn, List.append_assoc]
      rfl

/-- New names that are all different come behind the old ones as they are. -/
theorem names_insertAll_of_nodup {s : NameSet} {names : List String}
    (h : (s.names ++ names).Nodup) : (s.insertAll names).names = s.names ++ names := by
  rw [names_insertAll, eraseDups_of_nodup h]

/-- A set that begins with the names of another is made from that one by inserting its own names,
those at the beginning included. -/
theorem insertAll_names_of_prefix {s t : NameSet} (h : s.names <+: t.names) :
    s.insertAll t.names = t := by
  obtain ⟨rest, hrest⟩ := h
  apply eq_of_names
  rw [← hrest, insertAll_append, insertAll_of_subset fun _ hn => hn]
  refine names_insertAll_of_nodup ?_
  rw [hrest]
  exact t.nodup

end NameSet

end LinkageAudit
