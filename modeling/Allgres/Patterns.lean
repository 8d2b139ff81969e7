import Mathlib.Computability.RegularExpressions

/-! Patterns as programs write them: character classes, bounded repetition and anchors over the regular
expressions of formal languages, and the words of a pattern that repeats nothing. -/

namespace Patterns

open RegularExpression Computability

variable {α : Type}

def oneOf (cs : List α) : RegularExpression α :=
  cs.foldr (fun c r => char c + r) 0

def literal (cs : List α) : RegularExpression α :=
  cs.foldr (fun c r => char c * r) 1

def anyOf (rs : List (RegularExpression α)) : RegularExpression α :=
  rs.foldr (· + ·) 0

/-- `r+`. -/
def oneOrMore (r : RegularExpression α) : RegularExpression α :=
  r * star r

/-- `r{m,n}`. -/
def between (r : RegularExpression α) (m n : Nat) : RegularExpression α :=
  r ^ m * (1 + r) ^ (n - m)

theorem mem_oneOf {cs : List α} {x : List α} : x ∈ (oneOf cs).matches' ↔ ∃ c ∈ cs, x = [c] := by
  induction cs with
  | nil => simp [oneOf, Language.notMem_zero]
  | cons c cs ih =>
    have hcons : (oneOf (c :: cs)).matches' = {[c]} + (oneOf cs).matches' := rfl
    have hhead : x ∈ ({[c]} : Language α) ↔ x = [c] := Iff.rfl
    rw [hcons, Language.mem_add, ih, hhead]
    simp

theorem mem_literal {cs : List α} {x : List α} : x ∈ (literal cs).matches' ↔ x = cs := by
  induction cs generalizing x with
  | nil => exact Language.mem_one x
  | cons c cs ih =>
    have hcons : (literal (c :: cs)).matches' = {[c]} * (literal cs).matches' := rfl
    rw [hcons, Language.mem_mul]
    constructor
    · rintro ⟨a, ha, b, hb, rfl⟩
      obtain rfl : a = [c] := ha
      rw [ih.mp hb]
      rfl
    · rintro rfl
      exact ⟨[c], rfl, cs, ih.mpr rfl, rfl⟩

theorem mem_anyOf {rs : List (RegularExpression α)} {x : List α} :
    x ∈ (anyOf rs).matches' ↔ ∃ r ∈ rs, x ∈ r.matches' := by
  induction rs with
  | nil => simp [anyOf, Language.notMem_zero]
  | cons r rs ih =>
    have hcons : (anyOf (r :: rs)).matches' = r.matches' + (anyOf rs).matches' := rfl
    rw [hcons, Language.mem_add, ih]
    simp

theorem mem_mul {p q : RegularExpression α} {x : List α} :
    x ∈ (p * q).matches' ↔ ∃ a ∈ p.matches', ∃ b ∈ q.matches', a ++ b = x :=
  Language.mem_mul

theorem mem_char {a : α} {x : List α} : x ∈ (char a).matches' ↔ x = [a] :=
  Iff.rfl

theorem mem_char_mul {c : α} {r : RegularExpression α} {x : List α} :
    x ∈ (char c * r).matches' ↔ ∃ y ∈ r.matches', x = c :: y := by
  rw [mem_mul]
  constructor
  · rintro ⟨_, rfl, y, hy, rfl⟩
    exact ⟨y, hy, rfl⟩
  · rintro ⟨y, hy, rfl⟩
    exact ⟨[c], rfl, y, hy, rfl⟩

theorem mem_pow_zero {r : RegularExpression α} {x : List α} : x ∈ (r ^ 0).matches' ↔ x = [] :=
  Language.mem_one x

theorem mem_pow_succ {r : RegularExpression α} {n : Nat} {x : List α} :
    x ∈ (r ^ (n + 1)).matches' ↔ ∃ a ∈ r.matches', ∃ b ∈ (r ^ n).matches', a ++ b = x := by
  rw [matches'_pow, matches'_pow, pow_succ', Language.mem_mul]

theorem mem_star_oneOf {cs : List α} {x : List α} : x ∈ (star (oneOf cs)).matches' ↔ ∀ c ∈ x, c ∈ cs := by
  rw [matches'_star, Language.mem_kstar]
  constructor
  · rintro ⟨L, rfl, hL⟩ c hc
    obtain ⟨y, hy, hcy⟩ := List.mem_flatten.mp hc
    obtain ⟨d, hd, rfl⟩ := mem_oneOf.mp (hL y hy)
    obtain rfl := List.mem_singleton.mp hcy
    exact hd
  · intro h
    refine ⟨x.map fun c => [c], ?_, ?_⟩
    · induction x with
      | nil => rfl
      | cons c x ih => simpa using ih fun d hd => h d (List.mem_cons_of_mem _ hd)
    · intro y hy
      obtain ⟨c, hc, rfl⟩ := List.mem_map.mp hy
      exact mem_oneOf.mpr ⟨c, h c hc, rfl⟩

theorem mem_oneOrMore_oneOf {cs : List α} {x : List α} :
    x ∈ (oneOrMore (oneOf cs)).matches' ↔ x ≠ [] ∧ ∀ c ∈ x, c ∈ cs := by
  unfold oneOrMore
  rw [mem_mul]
  constructor
  · rintro ⟨a, ha, b, hb, rfl⟩
    obtain ⟨c, hc, rfl⟩ := mem_oneOf.mp ha
    have hrest := mem_star_oneOf.mp hb
    refine ⟨by simp, ?_⟩
    intro d hd
    rcases List.mem_cons.mp hd with rfl | hd
    · exact hc
    · exact hrest d hd
  · rintro ⟨hne, hall⟩
    obtain ⟨c, y, rfl⟩ := List.exists_cons_of_ne_nil hne
    exact ⟨[c], mem_oneOf.mpr ⟨c, hall c List.mem_cons_self, rfl⟩, y,
      mem_star_oneOf.mpr fun d hd => hall d (List.mem_cons_of_mem _ hd), rfl⟩

theorem mem_pow_oneOf {cs : List α} {n : Nat} {x : List α} :
    x ∈ (oneOf cs ^ n).matches' ↔ x.length = n ∧ ∀ c ∈ x, c ∈ cs := by
  induction n generalizing x with
  | zero =>
    rw [mem_pow_zero]
    constructor
    · rintro rfl
      simp
    · rintro ⟨h, -⟩
      exact List.length_eq_zero_iff.mp h
  | succ n ih =>
    rw [mem_pow_succ]
    constructor
    · rintro ⟨a, ha, b, hb, rfl⟩
      obtain ⟨c, hc, rfl⟩ := mem_oneOf.mp ha
      obtain ⟨hlength, hall⟩ := ih.mp hb
      refine ⟨by simp [hlength], ?_⟩
      intro d hd
      rcases List.mem_cons.mp hd with rfl | hd
      · exact hc
      · exact hall d hd
    · rintro ⟨hlength, hall⟩
      cases x with
      | nil => simp at hlength
      | cons c x =>
        exact ⟨[c], mem_oneOf.mpr ⟨c, hall c List.mem_cons_self, rfl⟩, x,
          ih.mpr ⟨by simpa using hlength, fun d hd => hall d (List.mem_cons_of_mem _ hd)⟩, rfl⟩

theorem mem_pow_optional_oneOf {cs : List α} {n : Nat} {x : List α} :
    x ∈ ((1 + oneOf cs) ^ n).matches' ↔ x.length ≤ n ∧ ∀ c ∈ x, c ∈ cs := by
  induction n generalizing x with
  | zero =>
    rw [mem_pow_zero]
    constructor
    · rintro rfl
      simp
    · rintro ⟨h, -⟩
      exact List.length_eq_zero_iff.mp (Nat.le_zero.mp h)
  | succ n ih =>
    rw [mem_pow_succ]
    constructor
    · rintro ⟨a, ha, b, hb, rfl⟩
      obtain ⟨hlength, hall⟩ := ih.mp hb
      rcases (Language.mem_add _ _ _).mp ha with ha | ha
      · obtain rfl := (Language.mem_one a).mp ha
        exact ⟨by simpa using Nat.le_succ_of_le hlength, by simpa using hall⟩
      · obtain ⟨c, hc, rfl⟩ := mem_oneOf.mp ha
        refine ⟨by simpa using hlength, ?_⟩
        intro d hd
        rcases List.mem_cons.mp hd with rfl | hd
        · exact hc
        · exact hall d hd
    · rintro ⟨hlength, hall⟩
      cases x with
      | nil => exact ⟨[], (Language.mem_add _ _ _).mpr (.inl rfl), [], ih.mpr ⟨Nat.zero_le n, nofun⟩, rfl⟩
      | cons c x =>
        refine ⟨[c], (Language.mem_add _ _ _).mpr (.inr (mem_oneOf.mpr ⟨c, hall c List.mem_cons_self, rfl⟩)), x, ?_, rfl⟩
        exact ih.mpr ⟨by simpa using hlength, fun d hd => hall d (List.mem_cons_of_mem _ hd)⟩

theorem mem_between_oneOf {cs : List α} {m n : Nat} (h : m ≤ n) {x : List α} :
    x ∈ (between (oneOf cs) m n).matches' ↔ m ≤ x.length ∧ x.length ≤ n ∧ ∀ c ∈ x, c ∈ cs := by
  unfold between
  rw [mem_mul]
  constructor
  · rintro ⟨a, ha, b, hb, rfl⟩
    obtain ⟨hla, ha⟩ := mem_pow_oneOf.mp ha
    obtain ⟨hlb, hb⟩ := mem_pow_optional_oneOf.mp hb
    refine ⟨by simp [hla], by simp [hla]; omega, ?_⟩
    intro c hc
    rcases List.mem_append.mp hc with hc | hc
    · exact ha c hc
    · exact hb c hc
  · rintro ⟨hm, hn, hall⟩
    refine ⟨x.take m, mem_pow_oneOf.mpr ⟨by simp [hm], fun c hc => hall c (List.mem_of_mem_take hc)⟩, x.drop m,
      mem_pow_optional_oneOf.mpr ⟨by simp; omega, fun c hc => hall c (List.mem_of_mem_drop hc)⟩, ?_⟩
    exact List.take_append_drop m x

/-- The words of a pattern without `star`. -/
def words : RegularExpression α → List (List α)
  | .zero => []
  | .epsilon => [[]]
  | .char a => [[a]]
  | .plus p q => words p ++ words q
  | .comp p q => (words p).flatMap fun a => (words q).map (a ++ ·)
  | .star _ => []

def starFree : RegularExpression α → Bool
  | .plus p q | .comp p q => starFree p && starFree q
  | .star _ => false
  | _ => true

theorem mem_words {r : RegularExpression α} (h : starFree r = true) {x : List α} :
    x ∈ words r ↔ x ∈ r.matches' := by
  induction r generalizing x with
  | zero => exact iff_of_false List.not_mem_nil (Language.notMem_zero x)
  | epsilon => exact List.mem_singleton
  | char a => exact List.mem_singleton
  | plus p q ihp ihq =>
    simp only [starFree, Bool.and_eq_true] at h
    rw [words, List.mem_append, ihp h.1, ihq h.2]
    exact (Language.mem_add _ _ _).symm
  | comp p q ihp ihq =>
    simp only [starFree, Bool.and_eq_true] at h
    rw [words, comp_def, mem_mul, List.mem_flatMap]
    simp only [List.mem_map, ihp h.1, ihq h.2]
  | star p => cases h

theorem append_cons_inj {a b u v : List α} {sep : α} (ha : sep ∉ a) (hb : sep ∉ b)
    (h : a ++ sep :: u = b ++ sep :: v) : a = b ∧ u = v := by
  induction a generalizing b with
  | nil =>
    cases b with
    | nil => simpa using h
    | cons c b =>
      simp only [List.nil_append, List.cons_append, List.cons.injEq] at h
      exact absurd (h.1 ▸ List.mem_cons_self) hb
  | cons c a ih =>
    cases b with
    | nil =>
      simp only [List.nil_append, List.cons_append, List.cons.injEq] at h
      exact absurd (h.1 ▸ List.mem_cons_self) ha
    | cons d b =>
      simp only [List.cons_append, List.cons.injEq] at h
      obtain ⟨rfl, hrest⟩ := h
      obtain ⟨rfl, rfl⟩ := ih (fun hm => ha (List.mem_cons_of_mem _ hm)) (fun hm => hb (List.mem_cons_of_mem _ hm)) hrest
      exact ⟨rfl, rfl⟩

section Anchors

variable [DecidableEq α]

/-- `^r$`. -/
def matchesAll (r : RegularExpression α) (s : List α) : Bool :=
  r.rmatch s

/-- `^r`. -/
def matchesStart (r : RegularExpression α) (s : List α) : Bool :=
  s.inits.any r.rmatch

/-- `r$`. -/
def matchesEnd (r : RegularExpression α) (s : List α) : Bool :=
  s.tails.any r.rmatch

variable {r q : RegularExpression α} {s : List α}

theorem matchesAll_iff : matchesAll r s = true ↔ s ∈ r.matches' :=
  rmatch_iff_matches' r s

theorem matchesStart_iff : matchesStart r s = true ↔ ∃ t u, s = t ++ u ∧ t ∈ r.matches' := by
  unfold matchesStart
  simp only [List.any_eq_true, List.mem_inits, rmatch_iff_matches']
  constructor
  · rintro ⟨t, ⟨u, rfl⟩, ht⟩
    exact ⟨t, u, rfl, ht⟩
  · rintro ⟨t, u, rfl, ht⟩
    exact ⟨t, List.prefix_append t u, ht⟩

theorem matchesEnd_iff : matchesEnd r s = true ↔ ∃ t u, s = t ++ u ∧ u ∈ r.matches' := by
  unfold matchesEnd
  simp only [List.any_eq_true, List.mem_tails, rmatch_iff_matches']
  constructor
  · rintro ⟨u, ⟨t, rfl⟩, hu⟩
    exact ⟨t, u, rfl, hu⟩
  · rintro ⟨t, u, rfl, hu⟩
    exact ⟨u, List.suffix_append t u, hu⟩

/-- A pattern up to a separator that none of its words contains is about the text up to the separator. -/
theorem matchesStart_field {a u : List α} {sep : α} (hr : ∀ x ∈ r.matches', sep ∉ x) (ha : sep ∉ a) :
    matchesStart (r * (char sep * q)) (a ++ sep :: u) = true ↔ a ∈ r.matches' ∧ matchesStart q u = true := by
  rw [matchesStart_iff, matchesStart_iff]
  constructor
  · rintro ⟨t, v, heq, ht⟩
    obtain ⟨x, hx, y, hy, rfl⟩ := mem_mul.mp ht
    obtain ⟨_, rfl, z, hz, rfl⟩ := mem_mul.mp hy
    simp only [List.cons_append, List.nil_append, List.append_assoc] at heq
    obtain ⟨rfl, rfl⟩ := append_cons_inj ha (hr x hx) heq
    exact ⟨hx, z, v, rfl, hz⟩
  · rintro ⟨hx, z, v, rfl, hz⟩
    refine ⟨a ++ sep :: z, v, by simp, ?_⟩
    exact mem_mul.mpr ⟨a, hx, sep :: z, mem_mul.mpr ⟨[sep], rfl, z, hz, rfl⟩, rfl⟩

theorem matchesStart_char {c d : α} {h : List α} :
    matchesStart (char c * r) (d :: h) = true ↔ d = c ∧ matchesStart r h = true := by
  rw [matchesStart_iff, matchesStart_iff]
  simp only [mem_char_mul]
  constructor
  · rintro ⟨_, u, heq, t, ht, rfl⟩
    simp only [List.cons_append, List.cons.injEq] at heq
    exact ⟨heq.1, t, u, heq.2, ht⟩
  · rintro ⟨rfl, t, u, rfl, ht⟩
    exact ⟨d :: t, u, rfl, t, ht, rfl⟩

theorem matchesAll_char {c d : α} {h : List α} :
    matchesAll (char c * r) (d :: h) = true ↔ d = c ∧ matchesAll r h = true := by
  rw [matchesAll_iff, matchesAll_iff, mem_char_mul]
  constructor
  · rintro ⟨y, hy, heq⟩
    simp only [List.cons.injEq] at heq
    exact ⟨heq.1, heq.2 ▸ hy⟩
  · rintro ⟨rfl, hy⟩
    exact ⟨h, hy, rfl⟩

theorem matchesStart_one : matchesStart (1 : RegularExpression α) s = true :=
  matchesStart_iff.mpr ⟨[], s, rfl, rfl⟩

end Anchors

end Patterns
