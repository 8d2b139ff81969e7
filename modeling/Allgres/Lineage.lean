import Mathlib.Logic.Relation
import Allgres.Rows

/-! Rows that name a parent row by its key, and the chains of rows they form. -/

namespace Lineage

variable {α κ : Type} {key : α → κ} {parent : α → Option κ} {rows : List α}

/-- A row, its parent, the parent of that, up to a row without one. -/
inductive Chain (key : α → κ) (parent : α → Option κ) (rows : List α) : α → List α → Prop
  | root {a : α} (ha : a ∈ rows) (hp : parent a = none) : Chain key parent rows a [a]
  | child {a b : α} {l : List α} (ha : a ∈ rows) (hp : parent a = some (key b))
      (hb : Chain key parent rows b l) : Chain key parent rows a (a :: l)

theorem Chain.mem {a : α} {l : List α} (h : Chain key parent rows a l) : a ∈ rows := by
  cases h with
  | root ha _ => exact ha
  | child ha _ _ => exact ha

theorem Chain.subset {a : α} {l : List α} (h : Chain key parent rows a l) : l ⊆ rows := by
  induction h with
  | root ha _ => simpa using ha
  | child ha _ _ ih => exact List.cons_subset.mpr ⟨ha, ih⟩

/-- Where keys are unique, a row has one chain. -/
theorem Chain.unique (hn : (rows.map key).Nodup) {a : α} {l m : List α}
    (hl : Chain key parent rows a l) (hm : Chain key parent rows a m) : l = m := by
  induction hl generalizing m with
  | root _ hp =>
    cases hm with
    | root _ _ => rfl
    | child _ hp' _ => rw [hp] at hp'; cases hp'
  | @child a b l _ hp hb ih =>
    cases hm with
    | root _ hp' => rw [hp] at hp'; cases hp'
    | @child _ b' m' _ hp' hb' =>
      have hk : key b = key b' := Option.some.inj (hp.symm.trans hp')
      have hbb : b = b' := Rows.eq_of_key key hn hb.mem hb'.mem hk
      subst hbb
      rw [ih hb']

/-- Rows that keep their keys and parents keep their chains. -/
theorem Chain.lift {rows' : List α} {R : α → α → Prop}
    (hR : ∀ a b, R a b → key b = key a ∧ parent b = parent a)
    (hrows : ∀ a ∈ rows, ∃ b ∈ rows', R a b) {a : α} {l : List α}
    (h : Chain key parent rows a l) {a' : α} (ha' : a' ∈ rows') (haa : R a a') :
    ∃ l', Chain key parent rows' a' l' ∧ List.Forall₂ R l l' := by
  induction h generalizing a' with
  | root _ hp =>
    exact ⟨[a'], .root ha' ((hR _ _ haa).2.trans hp), .cons haa .nil⟩
  | child _ hp hb ih =>
    obtain ⟨b', hb', hbb⟩ := hrows _ hb.mem
    obtain ⟨l', hl', hll⟩ := ih hb' hbb
    refine ⟨a' :: l', .child ha' ?_ hl', .cons haa hll⟩
    rw [(hR _ _ haa).2, hp, (hR _ _ hbb).1]

/-- The rows below a row. -/
abbrev Below (key : α → κ) (parent : α → Option κ) (rows : List α) : α → α → Prop :=
  Relation.ReflTransGen fun a b => b ∈ rows ∧ parent b = some (key a)

/-- Where no chain is longer than a bound, whoever goes down from child to child comes to an end. -/
theorem exists_below {P Q : α → Prop} {n : Nat}
    (hlen : ∀ a l, Chain key parent rows a l → l.length ≤ n)
    (hdown : ∀ a ∈ rows, P a → ¬ Q a → ∃ b ∈ rows, parent b = some (key a) ∧ P b)
    {a : α} {l : List α} (hc : Chain key parent rows a l) (ha : P a) :
    ∃ b ∈ rows, Below key parent rows a b ∧ P b ∧ Q b := by
  obtain ⟨m, hm⟩ : ∃ m, m + l.length = n := ⟨n - l.length, by have := hlen a l hc; omega⟩
  induction m generalizing a l with
  | zero =>
    by_contra hnone
    have hq : ¬ Q a := fun hq => hnone ⟨a, hc.mem, .refl, ha, hq⟩
    obtain ⟨b, hb, hp, -⟩ := hdown a hc.mem ha hq
    have hle := hlen b (b :: l) (.child hb hp hc)
    simp only [List.length_cons] at hle
    omega
  | succ m ih =>
    by_cases hq : Q a
    · exact ⟨a, hc.mem, .refl, ha, hq⟩
    · obtain ⟨b, hb, hp, hpb⟩ := hdown a hc.mem ha hq
      obtain ⟨d, hd, hbelow, hpd, hqd⟩ :=
        ih (.child hb hp hc) hpb (by simp only [List.length_cons]; omega)
      exact ⟨d, hd, .head ⟨hb, hp⟩ hbelow, hpd, hqd⟩

theorem forall₂_mem_right {R : α → α → Prop} {l m : List α} (h : List.Forall₂ R l m) :
    ∀ b ∈ m, ∃ a ∈ l, R a b := by
  induction h with
  | nil => simp
  | cons hab _ ih =>
    intro b hb
    rcases List.mem_cons.mp hb with rfl | hb
    · exact ⟨_, by simp, hab⟩
    · obtain ⟨a, ha, hR⟩ := ih b hb
      exact ⟨a, List.mem_cons_of_mem _ ha, hR⟩

end Lineage
