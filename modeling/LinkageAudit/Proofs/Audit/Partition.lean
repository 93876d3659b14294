import LinkageAudit.Proofs.Audit.Violations

/-!
# Symbols by role

Sorting a file's symbols by role neither loses nor adds nor reorders any. Each symbol is with its
role, as often as the symbol table repeats it and nowhere else, so everything that is counted or
listed by role is about the symbols of the file and no others.

* `Inventory.mem_withRole_census`, `Inventory.count_withRole_census`: which symbols have a role, and
  how often.
* `Role.slot`, `Role.pushAll`: five lists, one for each role, that grow symbol by symbol;
  `Role.pushAll_eq_map_sort` says that they are the sorted symbols.
* `Inventory.flatMap_withRole_perm`: all roles together are the symbols, in another order.
* `Inventory.census_partition`: the partition, its counts and its listings.
-/

namespace LinkageAudit

/-! ## One list for each role -/

namespace Role

/-- The place of a role in report order. -/
def slot : Role → Nat
  | privateExport => 0
  | publicExport => 1
  | genericExport => 2
  | siblingImport => 3
  | systemImport => 4

theorem getElem?_all_slot (r : Role) : all[r.slot]? = some r := by
  cases r <;> rfl

theorem slot_getElem_all : ∀ i (h : i < all.length), all[i].slot = i := by decide

theorem slot_injective {r r' : Role} (h : r.slot = r'.slot) : r = r' :=
  Option.some.inj (by rw [← getElem?_all_slot, ← getElem?_all_slot, h])

/-- Puts a symbol behind those in the list of a role. -/
def push (lists : List (List Symbol)) (r : Role) (s : Symbol) : List (List Symbol) :=
  lists.modify r.slot (· ++ [s])

/-- Puts symbols, one after the other, into the lists of their roles. -/
def pushAll (role : Symbol → Role) (lists : List (List Symbol)) (symbols : List Symbol) :
    List (List Symbol) :=
  symbols.foldl (fun lists s => push lists (role s) s) lists

theorem length_pushAll (role : Symbol → Role) (lists : List (List Symbol))
    (symbols : List Symbol) : (pushAll role lists symbols).length = lists.length := by
  unfold pushAll
  induction symbols generalizing lists with
  | nil => rfl
  | cons s ss ih => rw [List.foldl_cons, ih, push, List.length_modify]

/-- One symbol makes one list longer. -/
theorem getElem?_push (lists : List (List Symbol)) (r r' : Role) (s : Symbol) :
    (push lists r s)[r'.slot]? =
      lists[r'.slot]?.map fun l => if r = r' then l ++ [s] else l := by
  rw [push, List.getElem?_modify]
  by_cases h : r = r'
  · simp [h]
  · have hslot : r.slot ≠ r'.slot := fun he => h (slot_injective he)
    simp [h, hslot]

/-- Each list has the symbols of its role behind those that it had, in order. -/
theorem getElem?_pushAll (role : Symbol → Role) (lists : List (List Symbol))
    (symbols : List Symbol) (r : Role) : (pushAll role lists symbols)[r.slot]? =
      lists[r.slot]?.map (· ++ symbols.filter (role · = r)) := by
  unfold pushAll
  induction symbols generalizing lists with
  | nil => simp
  | cons s ss ih =>
    rw [List.foldl_cons, ih, getElem?_push, Option.map_map]
    refine congrArg (Option.map · _) (funext fun l => ?_)
    by_cases h : role s = r <;> simp [h]

/-- Five lists that start out empty and take in the symbols from the front are the symbols by
role. -/
theorem pushAll_eq_map_sort (role : Symbol → Role) (symbols : List Symbol) :
    pushAll role [[], [], [], [], []] symbols = all.map (ByRole.sort role symbols).get := by
  have hlength : (pushAll role [[], [], [], [], []] symbols).length = all.length :=
    length_pushAll role _ symbols
  refine List.ext_getElem (by rw [hlength, List.length_map]) fun i hi _ => ?_
  have hall : i < all.length := hlength ▸ hi
  have hslot := slot_getElem_all i hall
  have hempty : ([[], [], [], [], []] : List (List Symbol))[all[i].slot]? = some [] := by
    cases all[i] <;> rfl
  have hlist := getElem?_pushAll role [[], [], [], [], []] symbols all[i]
  rw [hempty, hslot, List.getElem?_eq_getElem hi, Option.map_some, List.nil_append] at hlist
  rw [Option.some.inj hlist, List.getElem_map, ByRole.get_sort]

end Role

/-! ## Buckets -/

namespace Inventory

variable (inventory : Inventory) (naming : Naming)

theorem mem_withRole_census {r : Role} {s : Symbol} :
    s ∈ (inventory.census naming).withRole r ↔
      s ∈ inventory.symbols ∧ naming.roleOf inventory.publicPrefix s = r := by
  rw [withRole_census, List.mem_filter, decide_eq_true_eq]

/-- A symbol is with its role as often as in the file, and nowhere else. -/
theorem count_withRole_census (r : Role) (s : Symbol) :
    ((inventory.census naming).withRole r).count s =
      if naming.roleOf inventory.publicPrefix s = r then inventory.symbols.count s else 0 := by
  rw [withRole_census]
  split
  · next h => exact List.count_filter (decide_eq_true h)
  · next h =>
    rw [List.count_eq_zero]
    exact fun hs => h (of_decide_eq_true (List.mem_filter.1 hs).2)

/-- All roles together have the symbols of the file, in another order. -/
theorem flatMap_withRole_perm :
    (Role.all.flatMap (inventory.census naming).withRole).Perm inventory.symbols := by
  have hperm := flatMap_filter_perm (f := fun s => some (naming.roleOf inventory.publicPrefix s))
    (fun _ s => s) Role.nodup_all (fun _ r _ => r.mem_all) inventory.symbols
  simpa [← withRole_census] using hperm

end Inventory

/-- A symbol as a listing has it. -/
def Symbol.item (s : Symbol) : Listing.Item := ⟨s.name, s.kind⟩

namespace Census

theorem get_counts (c : Census) (r : Role) : c.counts.get r = (c.withRole r).length :=
  RoleCounts.get_ofFunction _ r

/-- All symbols are as many as those with the one role or another. -/
theorem total_eq_add_counts (c : Census) :
    c.total = c.counts.privateExport + c.counts.publicExport + c.counts.genericExport +
      c.counts.siblingImport + c.counts.systemImport := by
  simp only [total, Role.all, List.flatMap_cons, List.flatMap_nil, List.length_append,
    List.length_nil, Nat.add_zero, Nat.add_assoc]
  rfl

/-- There is one listing for each role, in report order, and it has the symbols with that role. -/
theorem forall₂_listings (c : Census) :
    List.Forall₂ (fun r (l : Listing) => l.role = r ∧ l.items = (c.withRole r).map Symbol.item)
      Role.all c.listings := by
  rw [listings, List.forall₂_map_right_iff, List.forall₂_same]
  exact fun r _ => ⟨rfl, rfl⟩

end Census

namespace Inventory

/-- Sorting a file's symbols by role splits them up without loss: each role has its symbols, in
symbol table order, and what is counted and listed is these. -/
theorem census_partition (inventory : Inventory) (naming : Naming) :
    let census := inventory.census naming
    let role := naming.roleOf inventory.publicPrefix
    (∀ r, census.withRole r = inventory.symbols.filter (role · = r)) ∧
    -- One pass from the front gives the same, with a list for each role that only grows.
    Role.pushAll role [[], [], [], [], []] inventory.symbols = Role.all.map census.withRole ∧
    -- Together the roles have all symbols, each in one place and as often as it is repeated.
    (Role.all.flatMap census.withRole).Perm inventory.symbols ∧
    (∀ s ∈ inventory.symbols, ∃! r, s ∈ census.withRole r) ∧
    (∀ r s, (census.withRole r).count s =
      if role s = r then inventory.symbols.count s else 0) ∧
    -- So the number of all is that of the symbols, and the sum of those of the roles.
    census.total = inventory.symbols.length ∧
    census.total = census.counts.privateExport + census.counts.publicExport +
      census.counts.genericExport + census.counts.siblingImport + census.counts.systemImport ∧
    (∀ r, census.counts.get r = (census.withRole r).length) ∧
    -- There are five listings, and each has names and kinds of the symbols with its role.
    census.listings.length = 5 ∧
    List.Forall₂ (fun r (l : Listing) => l.role = r ∧ l.items = (census.withRole r).map Symbol.item)
      Role.all census.listings ∧
    -- The file itself is kept as it is.
    census.inventory = inventory := by
  intro census role
  refine ⟨withRole_census inventory naming, Role.pushAll_eq_map_sort role inventory.symbols,
    inventory.flatMap_withRole_perm naming, fun s hs => ⟨role s, ?_, fun r hr => ?_⟩,
    inventory.count_withRole_census naming, ?_, census.total_eq_add_counts, census.get_counts, rfl,
    census.forall₂_listings, rfl⟩
  · exact (inventory.mem_withRole_census naming).2 ⟨hs, rfl⟩
  · exact ((inventory.mem_withRole_census naming).1 hr).2.symm
  · exact (inventory.flatMap_withRole_perm naming).length_eq

end Inventory

end LinkageAudit
