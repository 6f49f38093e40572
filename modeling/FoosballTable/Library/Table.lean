import Mathlib.Algebra.GroupWithZero.Nat
import Mathlib.Data.List.Nodup

/-!
# Tables of records with distinct keys

A table is a list of records in which a field of theirs, the key, finds them. `put` stores a record
over the one with its key, and `remove` takes the record with a key out. While the keys are distinct
a `lookup` finds every record, and a sum over the table changes by what the one record changes
(`sum_put`, `sum_remove`): that is how counters beside a table are accounted for.
-/

namespace FoosballTable.Library.Table

variable {α κ β : Type*} [DecidableEq κ] (key : α → κ)

/-- The record with a key. -/
def lookup (wanted : κ) (table : List α) : Option α :=
  table.find? fun entry => key entry = wanted

/-- A record is stored over the one with its key. -/
def put (entry : α) (table : List α) : List α :=
  table.map fun old => if key old = key entry then entry else old

/-- The record with a key is taken out. -/
def remove (unwanted : κ) (table : List α) : List α :=
  table.filter fun entry => key entry ≠ unwanted

variable {key} {table : List α} {entry old : α} {wanted : κ}

/-- What is found is in the table and has the key. -/
theorem lookup_some (h : lookup key wanted table = some entry) :
    entry ∈ table ∧ key entry = wanted :=
  ⟨List.mem_of_find?_eq_some h, by simpa using List.find?_some h⟩

/-- Nothing is found where no record has the key. -/
theorem lookup_eq_none : lookup key wanted table = none ↔ ∀ entry ∈ table, key entry ≠ wanted := by
  simp [lookup]

omit [DecidableEq κ] in
/-- Distinct keys have one record each. -/
theorem eq_of_key (hkeys : (table.map key).Nodup) (hentry : entry ∈ table) (hold : old ∈ table)
    (hkey : key old = key entry) : old = entry :=
  List.inj_on_of_nodup_map hkeys hold hentry hkey

/-- Every record is found. -/
theorem lookup_of_mem (hkeys : (table.map key).Nodup) (hentry : entry ∈ table) :
    lookup key (key entry) table = some entry := by
  cases hfound : lookup key (key entry) table with
  | none => exact absurd rfl (lookup_eq_none.mp hfound entry hentry)
  | some found =>
      obtain ⟨hmem, hkey⟩ := lookup_some hfound
      rw [eq_of_key hkeys hentry hmem hkey]

/-- A field that the new record shares with the old one stays the same in the whole table. -/
theorem map_put {field : α → β} (hfield : ∀ old ∈ table, key old = key entry →
    field entry = field old) : (put key entry table).map field = table.map field := by
  rw [put, List.map_map]
  refine List.map_congr_left ?_
  intro old hold
  show field (if key old = key entry then entry else old) = field old
  split
  case isTrue hkey => exact hfield old hold hkey
  case isFalse => rfl

/-- The keys stay the same. -/
theorem keys_put : (put key entry table).map key = table.map key :=
  map_put fun _ _ hkey => hkey.symm

/-- The records afterwards are the new one and those with other keys. -/
theorem mem_put (hold : old ∈ table) (hkey : key old = key entry) {other : α} :
    other ∈ put key entry table ↔ other = entry ∨ other ∈ table ∧ key other ≠ key entry := by
  rw [put, List.mem_map]
  constructor
  · intro h
    obtain ⟨first, hfirst, rfl⟩ := h
    by_cases hsame : key first = key entry
    · exact Or.inl (if_pos hsame)
    · rw [if_neg hsame]
      exact Or.inr ⟨hfirst, hsame⟩
  · intro h
    rcases h with rfl | ⟨hother, hne⟩
    · exact ⟨old, hold, if_pos hkey⟩
    · exact ⟨other, hother, if_neg hne⟩

/-- A record is stored over the first one. -/
theorem put_cons_self (hkey : key old = key entry) (h : ∀ other ∈ table, key other ≠ key entry) :
    put key entry (old :: table) = entry :: table := by
  rw [put, List.map_cons, if_pos hkey]
  refine congrArg (entry :: ·) ?_
  rw [List.map_congr_left fun other hother => if_neg (h other hother)]
  exact List.map_id' table

theorem mem_remove {other : α} :
    other ∈ remove key wanted table ↔ other ∈ table ∧ key other ≠ wanted := by
  simp [remove]

/-- Fields that are distinct stay so. -/
theorem nodup_map_remove {field : α → β} (h : (table.map field).Nodup) :
    ((remove key wanted table).map field).Nodup :=
  h.sublist (List.filter_sublist.map field)

/-- A record that is stored before it is taken out leaves nothing behind. -/
theorem remove_put :
    remove key (key entry) (put key entry table) = remove key (key entry) table := by
  induction table with
  | nil => rfl
  | cons first table ih =>
      simp only [remove, put] at ih ⊢
      by_cases hfirst : key first = key entry
      · simpa [hfirst] using ih
      · simpa [hfirst] using ih

/-- A table in which no record has the key stays as it is. -/
theorem remove_of_not_mem (h : ∀ entry ∈ table, key entry ≠ wanted) :
    remove key wanted table = table :=
  List.filter_eq_self.mpr fun entry hentry => decide_eq_true (h entry hentry)

/-- A table is a record of it and the table without it. -/
theorem perm_remove (hkeys : (table.map key).Nodup) (hentry : entry ∈ table) :
    table.Perm (entry :: remove key (key entry) table) := by
  induction table with
  | nil => cases hentry
  | cons first table ih =>
      obtain ⟨hfirst, hrest⟩ := List.nodup_cons.mp hkeys
      rcases List.mem_cons.mp hentry with rfl | hlater
      · have hothers : ∀ other ∈ table, key other ≠ key entry :=
          fun other hother hsame => hfirst (hsame ▸ List.mem_map_of_mem hother)
        have hhead : remove key (key entry) (entry :: table) = remove key (key entry) table := by
          simp [remove]
        rw [hhead, remove_of_not_mem hothers]
      · have hne : key first ≠ key entry :=
          fun hsame => hfirst (hsame ▸ List.mem_map_of_mem hlater)
        have hhead : remove key (key entry) (first :: table) =
            first :: remove key (key entry) table := by
          simp [remove, hne]
        rw [hhead]
        exact ((ih hrest hlater).cons first).trans (List.Perm.swap entry first _)

/-- A sum loses the part of the record that is taken out. -/
theorem sum_remove (cost : α → Nat) (hkeys : (table.map key).Nodup) (hentry : entry ∈ table) :
    ((remove key (key entry) table).map cost).sum + cost entry = (table.map cost).sum := by
  rw [((perm_remove hkeys hentry).map cost).sum_nat, List.map_cons, List.sum_cons]
  exact Nat.add_comm _ _

/-- A count loses the record that is taken out, if it was counted. -/
theorem countP_remove (counted : α → Bool) (hkeys : (table.map key).Nodup)
    (hentry : entry ∈ table) :
    (remove key (key entry) table).countP counted + (if counted entry then 1 else 0) =
      table.countP counted := by
  rw [(perm_remove hkeys hentry).countP_eq, List.countP_cons]

/-- A sum changes by what the record that is stored changes. -/
theorem sum_put (cost : α → Nat) (hkeys : (table.map key).Nodup) (hold : old ∈ table)
    (hkey : key old = key entry) :
    ((put key entry table).map cost).sum + cost old = (table.map cost).sum + cost entry := by
  have hnew : entry ∈ put key entry table := (mem_put hold hkey).mpr (Or.inl rfl)
  have hkeysPut : ((put key entry table).map key).Nodup := by
    rw [keys_put]
    exact hkeys
  have hafter := sum_remove cost hkeysPut hnew
  have hbefore := sum_remove cost hkeys hold
  rw [remove_put] at hafter
  rw [hkey] at hbefore
  omega

/-- Taking out a record makes the table shorter by one. -/
theorem length_remove (hkeys : (table.map key).Nodup) (hentry : entry ∈ table) :
    (remove key (key entry) table).length + 1 = table.length := by
  have hsum := sum_remove (fun _ => 1) hkeys hentry
  simpa using hsum

theorem length_put : (put key entry table).length = table.length :=
  List.length_map _

end FoosballTable.Library.Table
