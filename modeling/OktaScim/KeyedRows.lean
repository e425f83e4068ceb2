import Mathlib.Data.List.Nodup

/-!
Tables as lists of rows with a key column: lookup, change and removal of the
row with a given key, and what these leave of lookups and of the uniqueness of
a column. Rows, keys and columns are arbitrary types.
-/
namespace OktaScim.KeyedRows

variable {α κ β : Type} [DecidableEq κ] (key : α → κ)

def findRow (k : κ) (rows : List α) : Option α := rows.find? (fun r => key r = k)

def modifyRow (k : κ) (f : α → α) (rows : List α) : List α :=
  rows.map (fun r => if key r = k then f r else r)

def eraseRow (k : κ) (rows : List α) : List α := rows.filter (fun r => key r ≠ k)

variable {key}

theorem mem_of_findRow {k : κ} {rows : List α} {r : α} (h : findRow key k rows = some r) :
    r ∈ rows := List.mem_of_find?_eq_some h

theorem key_of_findRow {k : κ} {rows : List α} {r : α} (h : findRow key k rows = some r) :
    key r = k := by
  simpa using List.find?_some h

theorem findRow_eq_none_iff {k : κ} {rows : List α} :
    findRow key k rows = none ↔ ∀ r ∈ rows, key r ≠ k := by
  simp [findRow]

theorem findRow_isSome_iff {k : κ} {rows : List α} :
    (findRow key k rows).isSome = true ↔ ∃ r ∈ rows, key r = k := by
  simp [findRow]

/-- Where the key column is unique, a lookup finds the row with the key. -/
theorem findRow_eq_some_iff {k : κ} {rows : List α} {r : α} (hn : (rows.map key).Nodup) :
    findRow key k rows = some r ↔ r ∈ rows ∧ key r = k := by
  constructor
  · exact fun h => ⟨mem_of_findRow h, key_of_findRow h⟩
  · intro hrow
    obtain ⟨hr, hk⟩ := hrow
    obtain ⟨x, hx⟩ := Option.isSome_iff_exists.mp (findRow_isSome_iff.mpr ⟨r, hr, hk⟩)
    have heq : key x = key r := (key_of_findRow hx).trans hk.symm
    rw [hx, List.inj_on_of_nodup_map hn (mem_of_findRow hx) hr heq]

@[simp] theorem findRow_nil (k : κ) : findRow key k ([] : List α) = none := rfl

theorem findRow_cons (k : κ) (r : α) (rows : List α) :
    findRow key k (r :: rows) = if key r = k then some r else findRow key k rows := by
  by_cases h : key r = k <;> simp [findRow, h]

theorem findRow_append_singleton (k : κ) (rows : List α) (r : α) :
    findRow key k (rows ++ [r]) = (findRow key k rows).or (if key r = k then some r else none) := by
  by_cases h : key r = k <;> simp [findRow, List.find?_append, h]

/-- Changing a row without changing keys changes the lookup of that row only. -/
theorem findRow_modifyRow (k k' : κ) (f : α → α) (hf : ∀ r, key (f r) = key r) (rows : List α) :
    findRow key k' (modifyRow key k f rows) =
      if k' = k then (findRow key k' rows).map f else findRow key k' rows := by
  induction rows with
  | nil => simp [modifyRow]
  | cons r rows ih =>
    have hcons : modifyRow key k f (r :: rows) =
        (if key r = k then f r else r) :: modifyRow key k f rows := rfl
    rw [hcons, findRow_cons, findRow_cons, ih]
    by_cases hr : key r = k
    · by_cases hk : key r = k'
      · have heq : k' = k := hk.symm.trans hr
        simp [hr, hf, heq]
      · have hne : k ≠ k' := fun heq => hk (hr.trans heq)
        simp [hr, hf, hne, Ne.symm hne]
    · by_cases hk : key r = k'
      · have hne : k' ≠ k := fun heq => hr (hk.trans heq)
        simp [hk, hne]
      · simp [hr, hk]

theorem findRow_eraseRow (k k' : κ) (rows : List α) :
    findRow key k' (eraseRow key k rows) = if k' = k then none else findRow key k' rows := by
  induction rows with
  | nil => simp [eraseRow]
  | cons r rows ih =>
    by_cases hr : key r = k
    · have hcons : eraseRow key k (r :: rows) = eraseRow key k rows := by simp [eraseRow, hr]
      rw [hcons, ih, findRow_cons]
      by_cases hk : k' = k
      · simp [hk]
      · have hne : key r ≠ k' := fun heq => hk (heq.symm.trans hr)
        simp [hk, hne]
    · have hcons : eraseRow key k (r :: rows) = r :: eraseRow key k rows := by simp [eraseRow, hr]
      rw [hcons, findRow_cons, findRow_cons, ih]
      by_cases hk : key r = k'
      · have hne : k' ≠ k := fun heq => hr (hk.trans heq)
        simp [hk, hne]
      · simp [hk]

section Images

variable {g : α → α} (hg : ∀ r, key (g r) = key r)
include hg

/-- A lookup in rows that were changed without changing their keys. -/
theorem findRow_map (k : κ) (rows : List α) :
    findRow key k (rows.map g) = (findRow key k rows).map g := by
  have hkey : (fun r => decide (key r = k)) ∘ g = fun r => decide (key r = k) := by
    funext r
    rw [Function.comp_apply, hg]
  rw [findRow, List.find?_map, hkey]
  rfl

theorem modifyRow_map (k : κ) {f f' : α → α} (hf : ∀ r, f' (g r) = g (f r)) (rows : List α) :
    modifyRow key k f' (rows.map g) = (modifyRow key k f rows).map g := by
  simp only [modifyRow, List.map_map]
  apply List.map_congr_left
  intro r _
  by_cases hr : key r = k <;> simp [hr, hg, hf]

theorem eraseRow_map (k : κ) (rows : List α) :
    eraseRow key k (rows.map g) = (eraseRow key k rows).map g := by
  simp [eraseRow, List.filter_map, Function.comp_def, hg]

end Images

theorem mem_eraseRow {k : κ} {rows : List α} {r : α} :
    r ∈ eraseRow key k rows ↔ r ∈ rows ∧ key r ≠ k := by
  simp [eraseRow]

theorem map_key_modifyRow (k : κ) (f : α → α) (hf : ∀ r, key (f r) = key r) (rows : List α) :
    (modifyRow key k f rows).map key = rows.map key := by
  rw [modifyRow, List.map_map]
  apply List.map_congr_left
  intro r _
  simp only [Function.comp_apply]
  split
  · exact hf r
  · rfl

/-- No other row has a row's entry in a unique column. -/
theorem any_other_eq_false [DecidableEq β] (col : α → β) {rows : List α} {r : α}
    (hn : (rows.map col).Nodup) (hr : r ∈ rows) :
    rows.any (fun x => decide (key x ≠ key r ∧ col x = col r)) = false := by
  simp only [List.any_eq_false, decide_eq_true_eq, not_and]
  intro x hx hne hcol
  exact hne (congrArg key (List.inj_on_of_nodup_map hn hx hr hcol))

/-- A test of the other rows does not see a change of the row. -/
theorem any_other_modifyRow (k : κ) (f : α → α) (hf : ∀ r, key (f r) = key r) (p : α → Prop)
    [DecidablePred p] (rows : List α) :
    (modifyRow key k f rows).any (fun r => decide (key r ≠ k ∧ p r)) =
      rows.any (fun r => decide (key r ≠ k ∧ p r)) := by
  rw [modifyRow, List.any_map]
  congr 1
  funext r
  simp only [Function.comp_apply]
  by_cases hr : key r = k
  · simp [hr, hf]
  · simp [hr]

/-- A change that repeats another one, as far as `col` shows, has no effect. -/
theorem map_modifyRow_again (k : κ) (col : α → β) (f f' : α → α) (hf : ∀ r, key (f r) = key r)
    (hcol : ∀ r, col (f' (f r)) = col (f r)) (rows : List α) :
    (modifyRow key k f' (modifyRow key k f rows)).map col = (modifyRow key k f rows).map col := by
  simp only [modifyRow, List.map_map]
  apply List.map_congr_left
  intro r _
  by_cases hr : key r = k
  · simp [hr, hf, hcol]
  · simp [hr]

theorem nodup_map_eraseRow (g : α → β) (k : κ) {rows : List α} (hg : (rows.map g).Nodup) :
    ((eraseRow key k rows).map g).Nodup :=
  hg.sublist (List.Sublist.map g List.filter_sublist)

theorem nodup_map_append_singleton (g : α → β) {rows : List α} {r : α}
    (hg : (rows.map g).Nodup) (hfree : ∀ x ∈ rows, g x ≠ g r) :
    ((rows ++ [r]).map g).Nodup := by
  rw [List.map_append, List.map_singleton, List.nodup_append_comm, List.singleton_append,
    List.nodup_cons]
  exact ⟨fun hmem => by
    obtain ⟨x, hx, heq⟩ := List.mem_map.mp hmem
    exact hfree x hx heq, hg⟩

/-- A unique column stays unique when the changed row's new entry is unused. -/
theorem nodup_map_modifyRow (g : α → β) (k : κ) (f : α → α) {rows : List α}
    (hkeys : (rows.map key).Nodup) (hg : (rows.map g).Nodup)
    (hfree : ∀ r ∈ rows, ∀ x ∈ rows, key r ≠ k → key x = k → g r ≠ g (f x)) :
    ((modifyRow key k f rows).map g).Nodup := by
  have hboth := (List.pairwise_map.mp hkeys).and (List.pairwise_map.mp hg)
  rw [modifyRow, List.map_map]
  apply List.pairwise_map.mpr
  refine hboth.imp_of_mem ?_
  intro a b ha hb hab
  obtain ⟨hkey, hne⟩ := hab
  simp only [Function.comp_apply]
  by_cases hak : key a = k
  · have hbk : key b ≠ k := fun heq => hkey (hak.trans heq.symm)
    simpa [hak, hbk] using (hfree b hb a ha hbk hak).symm
  · by_cases hbk : key b = k
    · simpa [hak, hbk] using hfree a ha b hb hak hbk
    · simpa [hak, hbk] using hne

end OktaScim.KeyedRows
