import Mathlib.Data.List.Sort
import Mathlib.Data.List.Perm.Basic

/-! Answers of `ORDER BY … LIMIT k`: the order leaves ties open, so a query has
a set of answers and a row is kept in all of them or in some of them. -/

namespace Allgres

variable {α : Type*} {before : α → α → Prop} {xs ranked : List α} {x : α} {k : Nat}

/-- An answer of `ORDER BY`: ties stand in any order. -/
structure Ranked (before : α → α → Prop) (xs ranked : List α) : Prop where
  perm : ranked.Perm xs
  ordered : ranked.Pairwise before

theorem ranked_insertionSort (before : α → α → Prop) [DecidableRel before] [Std.Total before] [IsTrans α before]
    (xs : List α) : Ranked before xs (xs.insertionSort before) :=
  ⟨List.perm_insertionSort before xs, List.pairwise_insertionSort before xs⟩

theorem Ranked.before_of_mem (h : Ranked before xs ranked) {a b : α} (ha : a ∈ ranked.take k)
    (hb : b ∈ ranked.drop k) : before a b := by
  have hsplit : (ranked.take k ++ ranked.drop k).Pairwise before := by
    rw [List.take_append_drop]
    exact h.ordered
  exact (List.pairwise_append.mp hsplit).2.2 a ha b hb

theorem Ranked.append {p q ps qs : List α} (hp : Ranked before p ps) (hq : Ranked before q qs)
    (h : ∀ a ∈ p, ∀ b ∈ q, before a b) : Ranked before (p ++ q) (ps ++ qs) := by
  refine ⟨hp.perm.append hq.perm, List.pairwise_append.mpr ⟨hp.ordered, hq.ordered, ?_⟩⟩
  exact fun a ha b hb => h a (hp.perm.mem_iff.mp ha) b (hq.perm.mem_iff.mp hb)

theorem ranked_singleton (x : α) : Ranked before [x] [x] :=
  ⟨List.Perm.refl _, List.pairwise_singleton before x⟩

theorem map_fst_map {β : Type*} (f : α → β) (xs : List α) :
    (xs.map fun x => (x, f x)).map (·.1) = xs := by
  rw [List.map_map]
  exact List.map_id xs

/-- Rows sorted by a column that was added to them. -/
theorem Ranked.map_fst {β : Type*} {f : α → β} {ys zs : List (α × β)}
    {before : α × β → α × β → Prop} (h : Ranked before ys zs) (hadded : ∀ y ∈ ys, (y.1, f y.1) = y) :
    Ranked (fun a b => before (a, f a) (b, f b)) (ys.map (·.1)) (zs.map (·.1)) := by
  refine ⟨h.perm.map (·.1), ?_⟩
  rw [List.pairwise_map]
  refine h.ordered.imp_of_mem fun ha hb hab => ?_
  rwa [hadded _ (h.perm.mem_iff.mp ha), hadded _ (h.perm.mem_iff.mp hb)]

theorem mem_map_added {β : Type*} {f : α → β} {y : α × β} (h : y ∈ xs.map fun x => (x, f x)) :
    (y.1, f y.1) = y := by
  obtain ⟨x, -, rfl⟩ := List.mem_map.mp h
  rfl

section Kept

variable [DecidableRel before]

/-- The rows in front of `x` are among those that are no worse. -/
theorem Ranked.length_front_lt [Std.Refl before] {front rest : List α}
    (h : Ranked before xs (front ++ x :: rest)) :
    front.length < xs.countP fun a => decide (before a x) := by
  have hfront : ∀ a ∈ front, before a x := fun a ha =>
    (List.pairwise_append.mp h.ordered).2.2 a ha x List.mem_cons_self
  have hall : front.countP (fun a => decide (before a x)) = front.length :=
    List.countP_eq_length.mpr fun a ha => decide_eq_true (hfront a ha)
  have hself : decide (before x x) = true := decide_eq_true (Std.Refl.refl x)
  have hrest : 0 < (x :: rest).countP fun a => decide (before a x) :=
    List.countP_pos_iff.mpr ⟨x, List.mem_cons_self, hself⟩
  rw [← h.perm.countP_eq, List.countP_append, hall]
  omega

theorem Ranked.mem_take_of_few [Std.Refl before] (h : Ranked before xs ranked) (hx : x ∈ xs)
    (hfew : xs.countP (fun a => decide (before a x)) ≤ k) : x ∈ ranked.take k := by
  obtain ⟨front, rest, rfl⟩ := List.append_of_mem (h.perm.mem_iff.mpr hx)
  have hlt := h.length_front_lt
  have hk : k = front.length + (k - front.length - 1 + 1) := by omega
  rw [hk, List.take_length_add_append, List.take_succ_cons]
  exact List.mem_append_right _ List.mem_cons_self

variable [Std.Total before] [IsTrans α before]

/-- The answer that lists `x` behind every row that ties with it. -/
theorem exists_ranked_last (before : α → α → Prop) [DecidableRel before] [Std.Total before]
    [IsTrans α before] (hx : x ∈ xs) : ∃ front rest, Ranked before xs (front ++ x :: rest) ∧
    front.length + 1 = xs.countP fun a => decide (before a x) := by
  obtain ⟨l, r, rfl⟩ := List.append_of_mem hx
  let p : α → Bool := fun a => decide (before a x)
  have hself : p x = true := decide_eq_true (Std.Refl.refl x)
  have hbehind : ∀ b ∈ (l ++ r).filter (fun a => !p a), before x b := fun b hb => by
    have hb' : ¬ before b x := by simpa [p] using (List.mem_filter.mp hb).2
    exact (Std.Total.total x b).resolve_right hb'
  have hrest : Ranked before (x :: (l ++ r).filter fun a => !p a)
      (x :: ((l ++ r).filter fun a => !p a).insertionSort before) := by
    refine (ranked_singleton x).append (ranked_insertionSort before _) fun a ha b hb => ?_
    rw [List.mem_singleton.mp ha]
    exact hbehind b hb
  have hall := (ranked_insertionSort before ((l ++ r).filter p)).append hrest fun a ha b hb => by
    have ha' : before a x := of_decide_eq_true (List.mem_filter.mp ha).2
    rcases List.mem_cons.mp hb with rfl | hb
    · exact ha'
    · exact Trans.trans ha' (hbehind b hb)
  have hperm : ((l ++ r).filter p ++ x :: (l ++ r).filter fun a => !p a).Perm (l ++ x :: r) :=
    (List.perm_middle.trans ((List.filter_append_perm p (l ++ r)).cons x)).trans
      List.perm_middle.symm
  refine ⟨_, _, ⟨hall.perm.trans hperm, hall.ordered⟩, ?_⟩
  have hcount : (l ++ x :: r).countP p = (l ++ r).countP p + 1 := by
    rw [List.perm_middle.countP_eq, List.countP_cons_of_pos hself]
  rw [List.length_insertionSort, ← List.countP_eq_length_filter]
  exact hcount.symm

end Kept

section Distinct

variable [DecidableRel before] [Std.Refl before]
  (hdistinct : ∀ a ∈ xs, ∀ b ∈ xs, before a b → before b a → a = b) (hnodup : xs.Nodup)

include hdistinct

omit [DecidableRel before] [Std.Refl before] in
theorem Ranked.eq_of_distinct {ys zs : List α} (hys : Ranked before xs ys) (hzs : Ranked before xs zs) :
    ys = zs := by
  refine List.Perm.eq_of_pairwise (fun a b ha hb => ?_) hys.ordered hzs.ordered
    (hys.perm.trans hzs.perm.symm)
  exact hdistinct a (hys.perm.mem_iff.mp ha) b (hzs.perm.mem_iff.mp hb)

include hnodup

/-- Without ties the rows in front of `x` are those that are better. -/
theorem Ranked.length_front {front rest : List α} (h : Ranked before xs (front ++ x :: rest)) :
    front.length + 1 = xs.countP fun a => decide (before a x) := by
  have hsplit := List.pairwise_append.mp h.ordered
  have hfront : front.countP (fun a => decide (before a x)) = front.length :=
    List.countP_eq_length.mpr fun a ha => decide_eq_true (hsplit.2.2 a ha x List.mem_cons_self)
  have hx : x ∈ xs := h.perm.mem_iff.mp (List.mem_append_right _ List.mem_cons_self)
  have hrest : rest.countP (fun a => decide (before a x)) = 0 := by
    refine List.countP_eq_zero.mpr fun a ha hbefore => ?_
    have hbehind : before x a := (List.pairwise_cons.mp hsplit.2.1).1 a ha
    have ha' : a ∈ xs := h.perm.mem_iff.mp (List.mem_append_right _ (List.mem_cons_of_mem _ ha))
    have heq : x = a := hdistinct x hx a ha' hbehind (of_decide_eq_true hbefore)
    have hperm : (front ++ x :: rest).Nodup := h.perm.nodup_iff.mpr hnodup
    exact (List.nodup_cons.mp (List.nodup_append.mp hperm).2.1).1 (heq ▸ ha)
  have hself : decide (before x x) = true := decide_eq_true (Std.Refl.refl x)
  rw [← h.perm.countP_eq, List.countP_append, hfront, List.countP_cons_of_pos (p := fun a =>
    decide (before a x)) hself, hrest]

theorem Ranked.mem_take_iff (h : Ranked before xs ranked) (hx : x ∈ xs) :
    x ∈ ranked.take k ↔ xs.countP (fun a => decide (before a x)) ≤ k := by
  refine ⟨fun htake => ?_, h.mem_take_of_few hx⟩
  obtain ⟨front, rest, rfl⟩ := List.append_of_mem (h.perm.mem_iff.mpr hx)
  rw [← h.length_front hdistinct hnodup]
  by_contra hlong
  rw [List.take_append_of_le_length (by omega)] at htake
  have hperm : (front ++ x :: rest).Nodup := h.perm.nodup_iff.mpr hnodup
  exact (List.nodup_append.mp hperm).2.2 x (List.mem_of_mem_take htake) x List.mem_cons_self rfl

end Distinct

/-- `kept` are `k` of the rows that no other row goes before. -/
structure TopRows (before : α → α → Prop) (k : Nat) (xs kept : List α) : Prop where
  sublist : kept.Sublist xs
  length : kept.length = min k xs.length
  top : ∀ a ∈ kept, ∀ b ∈ xs, b ∉ kept → before a b

section Keyed

variable {κ : Type*} [DecidableEq κ] {key : α → κ}

/-- `DELETE … WHERE key IN (SELECT key … ORDER BY … OFFSET k)`. -/
def deleteBehind (key : α → κ) (k : Nat) (ranked xs : List α) : List α :=
  xs.filter fun x => ¬ (ranked.drop k).any fun y => key y = key x

theorem mem_deleteBehind {ys : List α} {y : α} :
    y ∈ deleteBehind key k ranked ys ↔ y ∈ ys ∧ ∀ z ∈ ranked.drop k, key z ≠ key y := by
  simp [deleteBehind]

omit [DecidableEq κ] in
theorem Ranked.mem_deleteBehind_iff (h : Ranked before xs ranked) (hkeys : (xs.map key).Nodup) :
    ∀ a ∈ ranked, (∀ z ∈ ranked.drop k, key z ≠ key a) ↔ a ∈ ranked.take k := by
  have hnodup : ((ranked.take k).map key ++ (ranked.drop k).map key).Nodup := by
    rw [← List.map_append, List.take_append_drop]
    exact (h.perm.map key).nodup_iff.mpr hkeys
  have hapart := (List.nodup_append.mp hnodup).2.2
  intro a ha
  constructor
  · intro hbehind
    rw [← List.take_append_drop k ranked] at ha
    exact (List.mem_append.mp ha).resolve_right fun hdrop => hbehind a hdrop rfl
  · intro htake z hz heq
    exact hapart _ (List.mem_map_of_mem htake) _ (List.mem_map_of_mem hz) heq.symm

/-- What is left of the rows are the first `k` of the answer. -/
theorem Ranked.deleteBehind_perm (h : Ranked before xs ranked) (hkeys : (xs.map key).Nodup) :
    (deleteBehind key k ranked xs).Perm (ranked.take k) := by
  have hleft : deleteBehind key k ranked ranked = ranked.take k := by
    have hiff := h.mem_deleteBehind_iff (k := k) hkeys
    have hall : ∀ a ∈ ranked.take k, ¬ (ranked.drop k).any (fun y => key y = key a) := fun a ha => by
      simpa using (hiff a (List.mem_of_mem_take ha)).mpr ha
    have hnone : ∀ a ∈ ranked.drop k, ¬ ¬ (ranked.drop k).any (fun y => key y = key a) :=
      fun a ha => by
        simpa using ⟨a, ha, rfl⟩
    unfold deleteBehind
    conv_lhs => rw [← List.take_append_drop k ranked]
    rw [List.filter_append, List.filter_eq_self.mpr (by simpa using hall),
      List.filter_eq_nil_iff.mpr (by simpa using hnone)]
    simp
  have hfilter : (deleteBehind key k ranked xs).Perm (deleteBehind key k ranked ranked) :=
    h.perm.symm.filter _
  rwa [hleft] at hfilter

theorem Ranked.topRows (h : Ranked before xs ranked) (hkeys : (xs.map key).Nodup) :
    TopRows before k xs (deleteBehind key k ranked xs) := by
  have hperm := h.deleteBehind_perm (k := k) hkeys
  refine ⟨List.filter_sublist, ?_, fun a ha b hb hgone => ?_⟩
  · rw [hperm.length_eq, List.length_take, h.perm.length_eq]
  · have hb' := h.perm.mem_iff.mpr hb
    rw [← List.take_append_drop k ranked] at hb'
    have hdrop := (List.mem_append.mp hb').resolve_left fun ht => hgone (hperm.mem_iff.mpr ht)
    exact h.before_of_mem (hperm.mem_iff.mp ha) hdrop

theorem deleteBehind_filter (p : α → Bool) :
    (deleteBehind key k ranked xs).filter p = deleteBehind key k ranked (xs.filter p) := by
  unfold deleteBehind
  exact List.filter_comm _ _ xs

/-- Rows whose keys the answer does not have stay. -/
theorem deleteBehind_eq_self (h : ∀ z ∈ ranked, ∀ x ∈ xs, key z ≠ key x) :
    deleteBehind key k ranked xs = xs := by
  refine List.filter_eq_self.mpr fun x hx => ?_
  simpa using fun z hz => h z (List.mem_of_mem_drop hz) x hx

end Keyed

end Allgres
