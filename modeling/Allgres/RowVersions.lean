import Mathlib.Data.List.Nodup
import Allgres.ReadCommitted

/-! The rows that a statement writes. A statement leaves a new version of each row it changes and
of each row it adds; the versions take the place of the rows with their keys whatever else is
committed in between. -/

namespace ReadCommitted

variable {α κ : Type} [DecidableEq κ] (key : α → κ)

def rowAt (rows : List α) (k : κ) : Option α :=
  rows.find? (key · = k)

/-- The rows of a table with the versions in the place of those with their keys. -/
def overwrite (versions rows : List α) : List α :=
  (rows.map fun r => (rowAt key versions (key r)).getD r) ++
    versions.filter fun r => (rowAt key rows (key r)).isNone

/-- The versions that lead from one content of a table to another. -/
def rewritten [DecidableEq α] (old new : List α) : List α :=
  new.filter fun r => rowAt key old (key r) ≠ some r

variable {key} {rows versions old new : List α} {k : κ} {r : α}

theorem key_of_rowAt (h : rowAt key rows k = some r) : key r = k := by
  simpa using List.find?_some h

theorem mem_of_rowAt (h : rowAt key rows k = some r) : r ∈ rows :=
  List.mem_of_find?_eq_some h

theorem rowAt_eq_none : rowAt key rows k = none ↔ k ∉ rows.map key := by
  simp [rowAt]

theorem rowAt_of_mem (hn : (rows.map key).Nodup) (h : r ∈ rows) : rowAt key rows (key r) = some r := by
  cases hrow : rowAt key rows (key r) with
  | none => exact absurd (List.mem_map_of_mem h) (rowAt_eq_none.mp hrow)
  | some s =>
    have hkey : key s = key r := key_of_rowAt hrow
    exact congrArg some (List.inj_on_of_nodup_map hn (mem_of_rowAt hrow) h hkey)

theorem rowAt_append (xs ys : List α) (k : κ) : rowAt key (xs ++ ys) k = (rowAt key xs k).or (rowAt key ys k) :=
  List.find?_append

/-- A row that no version has the key of stays. -/
theorem key_overwritten (versions : List α) (r : α) : key ((rowAt key versions (key r)).getD r) = key r := by
  cases h : rowAt key versions (key r) with
  | none => rfl
  | some s => exact key_of_rowAt h

theorem rowAt_overwrite (versions rows : List α) (k : κ) :
    rowAt key (overwrite key versions rows) k = (rowAt key versions k).or (rowAt key rows k) := by
  have hkept : ∀ rows : List α, rowAt key (rows.map fun r => (rowAt key versions (key r)).getD r) k =
      (rowAt key rows k).map fun r => (rowAt key versions k).getD r := by
    intro rows
    induction rows with
    | nil => rfl
    | cons r rows ih =>
      unfold rowAt at ih ⊢
      by_cases hk : key r = k
      · have hnew : key ((rowAt key versions (key r)).getD r) = k := (key_overwritten versions r).trans hk
        unfold rowAt at hnew
        rw [List.map_cons, List.find?_cons_of_pos (by simpa using hnew), List.find?_cons_of_pos (by simpa using hk)]
        simp [hk]
      · have hnew : key ((rowAt key versions (key r)).getD r) ≠ k :=
          fun h => hk ((key_overwritten versions r).symm.trans h)
        unfold rowAt at hnew
        rw [List.map_cons, List.find?_cons_of_neg (by simpa using hnew), List.find?_cons_of_neg (by simpa using hk),
          ih]
  rw [overwrite, rowAt_append, hkept]
  cases hrow : rowAt key rows k with
  | some r =>
    cases hversion : rowAt key versions k with
    | none => rfl
    | some s => rfl
  | none =>
    have hadded : rowAt key (versions.filter fun r => (rowAt key rows (key r)).isNone) k = rowAt key versions k := by
      have hrow' : List.find? (fun r => decide (key r = k)) rows = none := hrow
      unfold rowAt
      rw [List.find?_filter]
      congr 1
      funext r
      by_cases hk : key r = k
      · simp [hk, hrow']
      · simp [hk]
    rw [hadded]
    simp

theorem keys_overwrite (versions rows : List α) :
    (overwrite key versions rows).map key =
      rows.map key ++ (versions.filter fun r => (rowAt key rows (key r)).isNone).map key := by
  rw [overwrite, List.map_append, List.map_map]
  congr 1
  exact List.map_congr_left fun r _ => key_overwritten versions r

theorem nodup_overwrite (hv : (versions.map key).Nodup) (hr : (rows.map key).Nodup) :
    ((overwrite key versions rows).map key).Nodup := by
  rw [keys_overwrite, List.nodup_append]
  refine ⟨hr, hv.sublist (List.filter_sublist.map key), fun a ha b hb heq => ?_⟩
  obtain ⟨r, hr, rfl⟩ := List.mem_map.mp hb
  have hnone : rowAt key rows (key r) = none := by simpa using (List.mem_filter.mp hr).2
  exact rowAt_eq_none.mp hnone (heq ▸ ha)

/-- The versions act on each key apart. -/
theorem local_overwrite (versions : List α) :
    Local (rowAt key) (fun k => k ∈ versions.map key) (overwrite key versions) := by
  refine ⟨fun k r => (rowAt key versions k).or r, rowAt_overwrite versions, fun k hk => ?_⟩
  have hnone : rowAt key versions k = none := rowAt_eq_none.mpr hk
  funext r
  simp [hnone]

/-- Two contents of a table with the same keys in the same order and the same rows at them. -/
theorem eq_of_rowAt {xs ys : List α} (hn : (xs.map key).Nodup) (hk : xs.map key = ys.map key)
    (h : ∀ k, rowAt key xs k = rowAt key ys k) : xs = ys := by
  induction xs generalizing ys with
  | nil =>
    have hnil : ys.map key = [] := hk.symm
    exact (List.map_eq_nil_iff.mp hnil).symm
  | cons x xs ih =>
    cases ys with
    | nil => cases hk
    | cons y ys =>
      obtain ⟨hxy, hkeys⟩ := List.cons.inj hk
      have hhead : x = y := by
        have hrow := h (key x)
        have hx : rowAt key (x :: xs) (key x) = some x := List.find?_cons_of_pos (by simp)
        have hy : rowAt key (y :: ys) (key x) = some y := List.find?_cons_of_pos (by simp [hxy])
        rw [hx, hy] at hrow
        exact Option.some.inj hrow
      subst hhead
      rw [List.map_cons, List.nodup_cons] at hn
      have htail : xs = ys := by
        refine ih hn.2 hkeys fun k => ?_
        by_cases hkx : key x = k
        · have hxs : rowAt key xs k = none := rowAt_eq_none.mpr (hkx ▸ hn.1)
          have hys : rowAt key ys k = none := rowAt_eq_none.mpr (hkx ▸ hkeys ▸ hn.1)
          rw [hxs, hys]
        · have hrow := h k
          unfold rowAt at hrow ⊢
          rwa [List.find?_cons_of_neg (by simpa using hkx), List.find?_cons_of_neg (by simpa using hkx)] at hrow
      rw [htail]

theorem nodup_rewritten [DecidableEq α] (hn : (new.map key).Nodup) : ((rewritten key old new).map key).Nodup :=
  hn.sublist (List.filter_sublist.map key)

/-- The versions of a statement that only adds rows lead to what it leaves. -/
theorem overwrite_rewritten [DecidableEq α] {added : List κ} (hn : (new.map key).Nodup)
    (hkeys : new.map key = old.map key ++ added) : overwrite key (rewritten key old new) old = new := by
  have hrow : ∀ k, rowAt key (overwrite key (rewritten key old new) old) k = rowAt key new k := by
    intro k
    rw [rowAt_overwrite]
    cases hnew : rowAt key new k with
    | none =>
      have hk : k ∉ new.map key := rowAt_eq_none.mp hnew
      have hold : k ∉ old.map key := fun h => hk (hkeys ▸ List.mem_append_left _ h)
      have hversion : k ∉ (rewritten key old new).map key := fun h => hk ((List.filter_sublist.map key).subset h)
      rw [rowAt_eq_none.mpr hold, rowAt_eq_none.mpr hversion]
      rfl
    | some r =>
      obtain rfl := key_of_rowAt hnew
      have hmem := mem_of_rowAt hnew
      by_cases hsame : rowAt key old (key r) = some r
      · have hversion : key r ∉ (rewritten key old new).map key := by
          intro h
          obtain ⟨s, hs, hsr⟩ := List.mem_map.mp h
          obtain ⟨hsm, hsv⟩ := List.mem_filter.mp hs
          obtain rfl := List.inj_on_of_nodup_map hn hsm hmem hsr
          exact of_decide_eq_true hsv hsame
        rw [rowAt_eq_none.mpr hversion, hsame]
        rfl
      · have hversion : r ∈ rewritten key old new := List.mem_filter.mpr ⟨hmem, decide_eq_true hsame⟩
        rw [rowAt_of_mem (nodup_rewritten hn) hversion]
        rfl
  have hnodup : (old.map key).Nodup := by
    rw [hkeys] at hn
    exact (List.nodup_append.mp hn).1
  refine eq_of_rowAt (nodup_overwrite (nodup_rewritten hn) hnodup) ?_ hrow
  rw [keys_overwrite, hkeys]
  congr 1
  have hfilter : (rewritten key old new).filter (fun r => (rowAt key old (key r)).isNone) =
      new.filter fun r => (rowAt key old (key r)).isNone := by
    unfold rewritten
    rw [List.filter_filter]
    refine List.filter_congr fun r _ => ?_
    cases rowAt key old (key r) <;> simp
  rw [hfilter]
  have hmap : (new.filter fun r => (rowAt key old (key r)).isNone).map key =
      (new.map key).filter fun k => (rowAt key old k).isNone := by
    rw [List.filter_map]
    rfl
  rw [hmap, hkeys, List.filter_append]
  have hgone : (old.map key).filter (fun k => (rowAt key old k).isNone) = [] := by
    refine List.filter_eq_nil_iff.mpr fun k hk hnone => ?_
    exact rowAt_eq_none.mp (Option.isNone_iff_eq_none.mp hnone) hk
  have hadded : added.filter (fun k => (rowAt key old k).isNone) = added := by
    refine List.filter_eq_self.mpr fun k hk => ?_
    rw [hkeys, List.nodup_append] at hn
    have hnone : rowAt key old k = none := rowAt_eq_none.mpr fun h => hn.2.2 k h k hk rfl
    rw [hnone]
    rfl
  rw [hgone, hadded, List.nil_append]

end ReadCommitted
