import Mathlib.Data.List.Basic
import Mathlib.Data.List.Sort

/-! Tables as lists of rows. `update` is an `UPDATE .. WHERE` and `sortBy` an
`ORDER BY` on a column. -/

namespace Rows

variable {α κ : Type} [DecidableEq κ]

/-- Apply a change to the rows of a predicate. -/
def update (p : α → Bool) (f : α → α) (rows : List α) : List α :=
  rows.map fun a => if p a then f a else a

def sortBy (key : α → Nat) (rows : List α) : List α :=
  rows.insertionSort fun a b => key a ≤ key b

def sortDesc (key : α → Nat) (rows : List α) : List α :=
  rows.insertionSort fun a b => key b ≤ key a

theorem mem_sortBy {key : α → Nat} {rows : List α} {a : α} :
    a ∈ sortBy key rows ↔ a ∈ rows :=
  List.mem_insertionSort _

theorem mem_sortDesc {key : α → Nat} {rows : List α} {a : α} :
    a ∈ sortDesc key rows ↔ a ∈ rows :=
  List.mem_insertionSort _

/-- The first row of a descending order has the greatest key. -/
theorem head_sortDesc {key : α → Nat} {rows : List α} {a : α}
    (h : (sortDesc key rows).head? = some a) : a ∈ rows ∧ ∀ b ∈ rows, key b ≤ key a := by
  have hsorted : (sortDesc key rows).Pairwise fun a b => key b ≤ key a :=
    List.pairwise_insertionSort _ rows
  obtain ⟨tail, ht⟩ : ∃ tail, sortDesc key rows = a :: tail := List.head?_eq_some_iff.mp h
  refine ⟨mem_sortDesc.mp (by rw [ht]; simp), fun b hb => ?_⟩
  have hb' : b ∈ sortDesc key rows := mem_sortDesc.mpr hb
  rw [ht] at hb' hsorted
  rcases List.mem_cons.mp hb' with rfl | hb'
  · exact Nat.le_refl _
  · exact (List.pairwise_cons.mp hsorted).1 b hb'

theorem mem_update {p : α → Bool} {f : α → α} {rows : List α} {b : α} :
    b ∈ update p f rows ↔ ∃ a ∈ rows, (if p a then f a else a) = b := by
  simp [update]

/-- An update that leaves a column alone leaves its list of values alone. -/
theorem map_update {β : Type} {p : α → Bool} {f : α → α} {g : α → β} (hg : ∀ a, g (f a) = g a)
    (rows : List α) : (update p f rows).map g = rows.map g := by
  simp only [update, List.map_map]
  apply List.map_congr_left
  intro a _
  by_cases hp : p a = true
  · simp [hp, hg]
  · simp [hp]

theorem update_of_forall_not {p : α → Bool} {f : α → α} {rows : List α}
    (h : ∀ a ∈ rows, p a = false) : update p f rows = rows := by
  conv_rhs => rw [← List.map_id rows]
  apply List.map_congr_left
  intro a ha
  simp [h a ha]

theorem update_update {p : α → Bool} {f g : α → α} (hf : ∀ a, p (f a) = p a) (rows : List α) :
    update p g (update p f rows) = update p (fun a => g (f a)) rows := by
  simp only [update, List.map_map]
  apply List.map_congr_left
  intro a _
  by_cases hp : p a = true
  · simp [hp, hf]
  · simp [hp]

omit [DecidableEq κ] in
/-- A row found by its key is the only one with that key. -/
theorem eq_of_key (key : α → κ) {rows : List α} (hn : (rows.map key).Nodup) {a b : α}
    (ha : a ∈ rows) (hb : b ∈ rows) (h : key a = key b) : a = b :=
  List.inj_on_of_nodup_map hn ha hb h

theorem find_key (key : α → κ) {rows : List α} (hn : (rows.map key).Nodup) {a : α}
    (ha : a ∈ rows) : rows.find? (fun b => key b = key a) = some a := by
  cases hf : rows.find? (fun b => key b = key a) with
  | none =>
    have := List.find?_eq_none.mp hf a ha
    simp at this
  | some b =>
    have hb := List.mem_of_find?_eq_some hf
    have hk := List.find?_some hf
    rw [eq_of_key key hn hb ha (by simpa using hk)]

omit [DecidableEq κ] in
theorem nodup_sortBy_filter {key : α → κ} {order : α → Nat} {p : α → Bool} {rows : List α}
    (hn : (rows.map key).Nodup) : ((sortBy order (rows.filter p)).map key).Nodup := by
  have hp : (sortBy order (rows.filter p)).Perm (rows.filter p) := List.perm_insertionSort _ _
  exact (hp.map key).nodup_iff.mpr (hn.sublist (List.filter_sublist.map key))

/-- A row is the only one with its key. -/
theorem filter_key (key : α → κ) {rows : List α} (hn : (rows.map key).Nodup) {a : α}
    (ha : a ∈ rows) : rows.filter (fun b => key b = key a) = [a] := by
  induction rows with
  | nil => cases ha
  | cons b rows ih =>
    rw [List.map_cons, List.nodup_cons] at hn
    rcases List.mem_cons.mp ha with rfl | ha
    · have hnone : rows.filter (fun b => key b = key a) = [] := by
        refine List.filter_eq_nil_iff.mpr fun b hb => ?_
        have hne : key b ≠ key a := fun h => hn.1 (h ▸ List.mem_map_of_mem hb)
        simpa using hne
      rw [List.filter_cons_of_pos (by simp), hnone]
    · have hne : key b ≠ key a := fun h => hn.1 (h ▸ List.mem_map_of_mem ha)
      rw [List.filter_cons_of_neg (by simpa using hne), ih hn.2 ha]

theorem find_update (key : α → κ) {f : α → α} (hf : ∀ a, key (f a) = key a) (j i : κ)
    (rows : List α) : (update (key · = j) f rows).find? (key · = i) =
      (rows.find? (key · = i)).map fun a => if i = j then f a else a := by
  induction rows with
  | nil => rfl
  | cons a rows ih =>
    simp only [update, List.map_cons, decide_eq_true_eq] at ih ⊢
    have hk : key (if key a = j then f a else a) = key a := by
      split_ifs <;> simp [hf]
    by_cases hi : key a = i
    · rw [List.find?_cons_of_pos (by simpa [hk] using hi), List.find?_cons_of_pos (by simpa using hi)]
      simp [hi]
    · rw [List.find?_cons_of_neg (by simpa [hk] using hi), List.find?_cons_of_neg (by simpa using hi),
        ih]

/-- A row that is written in the place of all rows with its key. -/
theorem find_replace (key : α → κ) (row : α) (rows : List α) (k : κ) :
    (update (key · = key row) (fun _ => row) rows).find? (key · = k) =
      if k = key row then (rows.find? (key · = k)).map fun _ => row else rows.find? (key · = k) := by
  induction rows with
  | nil => simp [update]
  | cons a rows ih =>
    simp only [update, List.map_cons, decide_eq_true_eq] at ih ⊢
    by_cases ha : key a = key row
    · by_cases hk : k = key row
      · simp [ha, hk]
      · have hne : ¬ key row = k := fun h => hk h.symm
        simp only [ha, if_true, List.find?_cons, hne, decide_false, ih, hk, if_false]
    · by_cases hk : key a = k
      · have hne : ¬ k = key row := fun h => ha (hk.trans h)
        simp [hk, hne]
      · simp only [ha, if_false, List.find?_cons, hk, decide_false, ih]

/-- A row found by its key is the only one an update under that key changes. -/
theorem update_split {key : α → κ} {pre post : List α} {a : α} {f : α → α}
    (hn : ((pre ++ a :: post).map key).Nodup) :
    update (key · = key a) f (pre ++ a :: post) = pre ++ f a :: post := by
  have hne : ∀ b ∈ pre ++ post, decide (key b = key a) = false := by
    intro b hb
    simp only [List.map_append, List.map_cons, List.nodup_append, List.nodup_cons,
      List.mem_map] at hn
    obtain ⟨_, ⟨hpost, _⟩, hdis⟩ := hn
    rcases List.mem_append.mp hb with hb | hb
    · have := hdis (key b) ⟨b, hb, rfl⟩ (key a) (by simp)
      simpa using this
    · have : key b ≠ key a := fun h => hpost ⟨b, hb, h⟩
      simpa using this
  have hpre := update_of_forall_not (f := f) fun b hb => hne b (List.mem_append_left _ hb)
  have hpost := update_of_forall_not (f := f) fun b hb => hne b (List.mem_append_right _ hb)
  simp only [update] at hpre hpost ⊢
  rw [List.map_append, List.map_cons, hpre, hpost]
  simp

theorem filter_update {p q : α → Bool} {f : α → α} (h : ∀ a, q (f a) = q a) (rows : List α) :
    (update p f rows).filter q = update p f (rows.filter q) := by
  simp only [update, List.filter_map]
  congr 1
  apply List.filter_congr
  intro a _
  by_cases hp : p a = true
  · simp [hp, h]
  · simp [hp]

section Grows

variable {β : Type} {ident : α → β} {id : β → Nat} {lo mid hi : Nat} {xs ys zs : List α}

/-- Rows are only added, under ids from `lo` up to `hi`; what identifies a row never changes. -/
def Grows (ident : α → β) (id : β → Nat) (lo hi : Nat) (xs ys : List α) : Prop :=
  ∃ added : List β, ys.map ident = xs.map ident ++ added ∧ (added.map id).Nodup ∧
    ∀ b ∈ added, lo ≤ id b ∧ id b < hi

omit [DecidableEq κ] in
theorem grows_of_map_eq (h : ys.map ident = xs.map ident) : Grows ident id lo hi xs ys :=
  ⟨[], by simpa using h, by simp, by simp⟩

theorem grows_append {a : α} (h : lo ≤ id (ident a) ∧ id (ident a) < hi) :
    Grows ident id lo hi xs (xs ++ [a]) :=
  ⟨[ident a], by simp, by simp, by simpa using h⟩

theorem Grows.trans (h : Grows ident id lo mid xs ys) (h' : Grows ident id mid hi ys zs)
    (hlo : lo ≤ mid) (hhi : mid ≤ hi) : Grows ident id lo hi xs zs := by
  obtain ⟨bs, hbs, hbn, hb⟩ := h
  obtain ⟨cs, hcs, hcn, hc⟩ := h'
  refine ⟨bs ++ cs, by rw [hcs, hbs, List.append_assoc], ?_, ?_⟩
  · rw [List.map_append, List.nodup_append]
    refine ⟨hbn, hcn, ?_⟩
    intro x hx y hy hxy
    obtain ⟨b, hbm, rfl⟩ := List.mem_map.mp hx
    obtain ⟨c, hcm, rfl⟩ := List.mem_map.mp hy
    have := (hb b hbm).2
    have := (hc c hcm).1
    omega
  · intro b hbm
    rcases List.mem_append.mp hbm with hbm | hbm
    · have := hb b hbm
      omega
    · have := hc b hbm
      omega

theorem Grows.kept (h : Grows ident id lo hi xs ys) {x : α} (hx : x ∈ xs) :
    ∃ y ∈ ys, ident y = ident x := by
  obtain ⟨bs, hbs, _⟩ := h
  have : ident x ∈ ys.map ident := by
    rw [hbs]
    exact List.mem_append_left _ (List.mem_map_of_mem hx)
  simpa using this

theorem Grows.old_or_new (h : Grows ident id lo hi xs ys) {y : α} (hy : y ∈ ys) :
    (∃ x ∈ xs, ident x = ident y) ∨ (lo ≤ id (ident y) ∧ id (ident y) < hi) := by
  obtain ⟨bs, hbs, _, hb⟩ := h
  have : ident y ∈ xs.map ident ++ bs := hbs ▸ List.mem_map_of_mem hy
  rcases List.mem_append.mp this with h | h
  · exact .inl (by simpa using h)
  · exact .inr (hb _ h)

theorem Grows.nodup (h : Grows ident id lo hi xs ys) (hn : (xs.map fun x => id (ident x)).Nodup)
    (hlt : ∀ x ∈ xs, id (ident x) < lo) : (ys.map fun y => id (ident y)).Nodup := by
  obtain ⟨bs, hbs, hbn, hb⟩ := h
  have hy : (ys.map fun y => id (ident y)) = (xs.map fun x => id (ident x)) ++ bs.map id := by
    have := congrArg (List.map id) hbs
    simpa [List.map_map, Function.comp_def] using this
  rw [hy, List.nodup_append]
  refine ⟨hn, hbn, ?_⟩
  intro a ha b hbm hab
  obtain ⟨x, hx, rfl⟩ := List.mem_map.mp ha
  obtain ⟨c, hc, rfl⟩ := List.mem_map.mp hbm
  have := hlt x hx
  have := (hb c hc).1
  omega

theorem Grows.lt (h : Grows ident id lo hi xs ys) (hlt : ∀ x ∈ xs, id (ident x) < lo)
    (hle : lo ≤ hi) : ∀ y ∈ ys, id (ident y) < hi := by
  intro y hy
  rcases h.old_or_new hy with ⟨x, hx, he⟩ | hb
  · rw [← he]
    exact (hlt x hx).trans_le hle
  · exact hb.2

end Grows

section Extends

variable {β : Type} {f : α → β} {P : β → Prop} {xs ys zs : List α}

/-- Rows are only added, each with `P`; what `f` shows of a row never changes. -/
def Extends (f : α → β) (P : β → Prop) (xs ys : List α) : Prop :=
  ∃ added : List β, ys.map f = xs.map f ++ added ∧ ∀ b ∈ added, P b

omit [DecidableEq κ] in
theorem extends_of_map_eq (h : ys.map f = xs.map f) : Extends f P xs ys :=
  ⟨[], by simpa using h, by simp⟩

theorem Extends.refl (f : α → β) (P : β → Prop) (xs : List α) : Extends f P xs xs :=
  extends_of_map_eq rfl

theorem extends_append {a : α} (h : P (f a)) : Extends f P xs (xs ++ [a]) :=
  ⟨[f a], by simp, by simpa using h⟩

theorem extends_update {p : α → Bool} {g : α → α} (hg : ∀ a, f (g a) = f a) :
    Extends f P xs (update p g xs) :=
  extends_of_map_eq (map_update hg xs)

theorem Extends.trans (h : Extends f P xs ys) (h' : Extends f P ys zs) : Extends f P xs zs := by
  obtain ⟨bs, hbs, hb⟩ := h
  obtain ⟨cs, hcs, hc⟩ := h'
  refine ⟨bs ++ cs, by rw [hcs, hbs, List.append_assoc], fun b hbm => ?_⟩
  rcases List.mem_append.mp hbm with hbm | hbm
  · exact hb b hbm
  · exact hc b hbm

theorem Extends.drop (h : Extends f P xs ys) : ∀ y ∈ ys.drop xs.length, P (f y) := by
  obtain ⟨bs, hbs, hb⟩ := h
  have hdrop : (ys.drop xs.length).map f = bs := by
    rw [List.map_drop, hbs, List.drop_left' (by simp)]
  intro y hy
  have hmem : f y ∈ bs := hdrop ▸ List.mem_map_of_mem hy
  exact hb (f y) hmem

end Extends

section Among

variable {α β : Type} {f : α → β} {P : β → Prop} {xs ys zs : List α}

/-- What `f` shows of a row was shown before, or is `P`. -/
def Among (f : α → β) (P : β → Prop) (xs ys : List α) : Prop :=
  ∀ y ∈ ys, f y ∈ xs.map f ∨ P (f y)

theorem among_of_map_eq (h : ys.map f = xs.map f) : Among f P xs ys :=
  fun _ hy => .inl (h ▸ List.mem_map_of_mem hy)

theorem Among.refl (f : α → β) (P : β → Prop) (xs : List α) : Among f P xs xs :=
  among_of_map_eq rfl

theorem Among.trans (h : Among f P xs ys) (h' : Among f P ys zs) : Among f P xs zs := by
  intro z hz
  rcases h' z hz with hold | hP
  · obtain ⟨y, hy, he⟩ := List.mem_map.mp hold
    exact he ▸ h y hy
  · exact .inr hP

theorem Among.mono {Q : β → Prop} (hPQ : ∀ b, P b → Q b) (h : Among f P xs ys) : Among f Q xs ys :=
  fun y hy => (h y hy).imp_right (hPQ _)

theorem among_append {a : α} (h : P (f a)) : Among f P xs (xs ++ [a]) := by
  intro y hy
  rcases List.mem_append.mp hy with hy | hy
  · exact .inl (List.mem_map_of_mem hy)
  · obtain rfl := List.mem_singleton.mp hy
    exact .inr h

theorem among_update {p : α → Bool} {g : α → α}
    (hg : ∀ a ∈ xs, p a = true → f (g a) = f a ∨ P (f (g a))) : Among f P xs (update p g xs) := by
  intro y hy
  obtain ⟨a, ha, rfl⟩ := mem_update.mp hy
  by_cases hp : p a = true
  · rw [if_pos hp]
    rcases hg a ha hp with he | hP
    · exact .inl (he ▸ List.mem_map_of_mem ha)
    · exact .inr hP
  · rw [if_neg hp]
    exact .inl (List.mem_map_of_mem ha)

end Among

end Rows
