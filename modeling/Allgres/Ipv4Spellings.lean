import Allgres.Ipv4Blocklists
import Allgres.Origin

/-! The spellings of an IPv4 address that `inet_aton` accepts, and which of them `is_blocked_host` knows. -/

namespace Allgres

open HostPatterns

/-- The value of digits of a base, at least one. -/
def digitsIn (base : Nat) (ds : List Char) : Option Nat :=
  if ds = [] then none
  else ds.foldlM (fun n c => (hexDigit c).bind fun d => if d < base then some (n * base + d) else none) 0

/-- One part of an address: hexadecimal behind `0x`, octal behind another leading zero, else decimal. -/
def atonPart (p : List Char) : Option Nat :=
  match p with
  | '0' :: x :: ds => if x = 'x' ∨ x = 'X' then digitsIn 16 ds else digitsIn 8 (x :: ds)
  | _ => digitsIn 10 p

/-- The parts fill the address from the left, the last one what is left of it. -/
def atonValue : List Nat → Option Nat
  | [a] => if a < 2 ^ 32 then some a else none
  | [a, b] => if a < 2 ^ 8 ∧ b < 2 ^ 24 then some (a * 2 ^ 24 + b) else none
  | [a, b, c] => if a < 2 ^ 8 ∧ b < 2 ^ 8 ∧ c < 2 ^ 16 then some (a * 2 ^ 24 + b * 2 ^ 16 + c) else none
  | [a, b, c, d] =>
    if a < 2 ^ 8 ∧ b < 2 ^ 8 ∧ c < 2 ^ 8 ∧ d < 2 ^ 8 then some (a * 2 ^ 24 + b * 2 ^ 16 + c * 2 ^ 8 + d) else none
  | _ => none

def Ipv4Addr.ofNat (n : Nat) : Ipv4Addr :=
  ⟨.ofNat (n / 2 ^ 24), .ofNat (n / 2 ^ 16), .ofNat (n / 2 ^ 8), .ofNat n⟩

/-- `inet_aton` on a text that is the address and nothing else. -/
def inetAton (t : String) : Option Ipv4Addr :=
  (((splitOn '.' t.toList).mapM atonPart).bind atonValue).map Ipv4Addr.ofNat

/-- An `https` URL with a host: user information, port and whatever follows the authority are optional. -/
def IsHttpsUrl (url host : String) : Prop :=
  ∃ scheme user port rest, url.toList = scheme ++ "://".toList ++ user ++ host.toList ++ port ++ rest ∧
    lower (String.ofList scheme) = "https" ∧
    (user = [] ∨ ∃ name, user = name ++ ['@'] ∧ name.all isAuthorityChar = true) ∧
    (port = [] ∨ ∃ ds, port = ':' :: ds ∧ ds.all Char.isDigit = true) ∧
    rest.head?.all (fun c => !isAuthorityChar c) = true

/-- No leading zero, zero itself apart. -/
def isPlainPart (p : List Char) : Bool :=
  p = ['0'] || p.head? ≠ some '0'

/-- The spellings that the patterns of `is_blocked_host` cover. -/
def CoveredSpelling (t : String) : Prop :=
  match splitOn '.' t.toList with
  | [_] => True
  | [a, b, c, d] => isOctalPart a = true ∨
      (isOctet a = true ∧ isOctet b = true ∧ isOctet c = true ∧ isOctet d = true ∧
        (a ∈ ["172".toList, "192".toList, "198".toList] → isPlainPart b = true) ∧
        (a = "192".toList → b = "0".toList → isPlainPart c = true))
  | a :: _ => isOctalPart a = true
  | [] => False

example : inetAton "0x7f.1" = some ⟨127, 0, 0, 1⟩ := by decide

theorem digitsIn_eq_some {base : Nat} {ds : List Char} {n : Nat} (h : digitsIn base ds = some n) :
    ds ≠ [] ∧ ∀ c ∈ ds, ∃ d, hexDigit c = some d ∧ d < base := by
  unfold digitsIn at h
  split at h
  · cases h
  · rename_i hne
    refine ⟨hne, ?_⟩
    generalize (0 : Nat) = acc at h
    clear hne
    induction ds generalizing acc with
    | nil => nofun
    | cons c ds ih =>
      rw [List.foldlM_cons] at h
      cases hc : hexDigit c with
      | none => simp [hc] at h
      | some d =>
        by_cases hd : d < base
        · intro e he
          rcases List.mem_cons.mp he with rfl | he
          · exact ⟨d, hc, hd⟩
          · exact ih (acc * base + d) (by simpa [hc, hd] using h) e he
        · simp [hc, hd] at h

theorem hexDigit_decimal {c : Char} {d : Nat} (h : hexDigit c = some d) (hd : d < 10) :
    c.isDigit = true ∧ c.toNat = 48 + d := by
  unfold hexDigit at h
  split at h
  · rename_i hc
    have hrange : 48 ≤ c.toNat ∧ c.toNat ≤ 57 := hc
    exact ⟨Char.isDigit_iff_toNat.mpr hrange, by simp at h; omega⟩
  · split at h
    · rename_i hc
      have hrange : 97 ≤ c.toNat ∧ c.toNat ≤ 102 := hc
      simp at h
      omega
    · split at h
      · rename_i hc
        have hrange : 65 ≤ c.toNat ∧ c.toNat ≤ 70 := hc
        simp at h
        omega
      · cases h

theorem hexDigit_octal {c : Char} {d : Nat} (h : hexDigit c = some d) (hd : d < 8) : '0' ≤ c ∧ c ≤ '7' := by
  have hc := (hexDigit_decimal h (by omega)).2
  have hrange : 48 ≤ c.toNat ∧ c.toNat ≤ 55 := by omega
  exact hrange

theorem isLowerHex_lower {c : Char} {d : Nat} (h : hexDigit c = some d) : isLowerHex c.toLower = true := by
  unfold hexDigit at h
  split at h
  · rename_i hc
    have hrange : 48 ≤ c.toNat ∧ c.toNat ≤ 57 := hc
    exact char_range (p := fun c => isLowerHex c.toLower = true) 48 10 (by decide) hrange.1 (by omega)
  · split at h
    · rename_i hc
      have hrange : 97 ≤ c.toNat ∧ c.toNat ≤ 102 := hc
      exact char_range (p := fun c => isLowerHex c.toLower = true) 97 6 (by decide) hrange.1 (by omega)
    · split at h
      · rename_i hc
        have hrange : 65 ≤ c.toNat ∧ c.toNat ≤ 70 := hc
        exact char_range (p := fun c => isLowerHex c.toLower = true) 65 6 (by decide) hrange.1 (by omega)
      · cases h

/-- Folding moves letters only, and onto letters. -/
theorem toLower_cases (c : Char) :
    c.toLower = c ∨ (65 ≤ c.toNat ∧ c.toNat ≤ 90 ∧ 97 ≤ c.toLower.toNat) := by
  by_cases hc : 65 ≤ c.toNat ∧ c.toNat ≤ 90
  · exact .inr ⟨hc.1, hc.2, char_range (p := fun c => 97 ≤ c.toLower.toNat) 65 26 (by decide) hc.1 (by omega)⟩
  · unfold Char.toLower
    split
    · rename_i h
      exact absurd h hc
    · exact .inl rfl

theorem toLower_below {p : Char → Prop} (hp : ∀ c, p c → c.toNat < 65) (c : Char) : p c.toLower ↔ p c := by
  rcases toLower_cases c with h | ⟨hup, -, hlow⟩
  · rw [h]
  · refine iff_of_false ?_ ?_
    · intro h
      have := hp _ h
      omega
    · intro h
      have := hp _ h
      omega

theorem toLower_dot (c : Char) : c.toLower = '.' ↔ c = '.' := by
  refine toLower_below (p := (· = '.')) ?_ c
  rintro _ rfl
  decide

theorem toLower_zero (c : Char) : c.toLower = '0' ↔ c = '0' := by
  refine toLower_below (p := (· = '0')) ?_ c
  rintro _ rfl
  decide

theorem toLower_isDigit (c : Char) : c.toLower.isDigit = c.isDigit := by
  rw [Bool.eq_iff_iff]
  refine toLower_below (p := (·.isDigit = true)) ?_ c
  intro d hd
  have hrange : 48 ≤ d.toNat ∧ d.toNat ≤ 57 := Char.isDigit_iff_toNat.mp hd
  omega

theorem splitOn_lower (s : List Char) :
    splitOn '.' (s.map Char.toLower) = (splitOn '.' s).map (List.map Char.toLower) := by
  induction s with
  | nil => rfl
  | cons c s ih =>
    obtain ⟨p, ps, hp⟩ := List.exists_cons_of_ne_nil (splitOn_ne_nil '.' s)
    rw [hp] at ih
    rw [List.map_cons, splitOn, splitOn, ih, hp]
    by_cases hc : c = '.'
    · simp [hc, (toLower_dot '.').mpr rfl]
    · have hne : c.toLower ≠ '.' := fun h => hc ((toLower_dot c).mp h)
      simp [hc, hne]

theorem isOctet_map_lower (p : List Char) : isOctet (p.map Char.toLower) = isOctet p := by
  simp only [isOctet, List.length_map, List.all_map, Function.comp_def, toLower_isDigit]

theorem isOctalPart_lower (p : List Char) : isOctalPart (p.map Char.toLower) = isOctalPart p := by
  have hoctal : ∀ c : Char, ('0' ≤ c.toLower ∧ c.toLower ≤ '7') ↔ ('0' ≤ c ∧ c ≤ '7') := by
    refine toLower_below (p := fun c => '0' ≤ c ∧ c ≤ '7') ?_
    intro c hc
    have hrange : 48 ≤ c.toNat ∧ c.toNat ≤ 55 := hc
    omega
  rw [Bool.eq_iff_iff, isOctalPart_iff, isOctalPart_iff]
  constructor
  · rintro ⟨ds, heq, hds⟩
    cases p with
    | nil => cases heq
    | cons c p =>
      simp only [List.map_cons, List.cons.injEq] at heq
      refine ⟨p, by rw [(toLower_zero c).mp heq.1], ?_⟩
      intro d hd
      exact (hoctal d).mp (hds _ (heq.2 ▸ List.mem_map_of_mem hd))
  · rintro ⟨ds, rfl, hds⟩
    refine ⟨ds.map Char.toLower, rfl, ?_⟩
    intro d hd
    obtain ⟨e, he, rfl⟩ := List.mem_map.mp hd
    exact (hoctal e).mpr (hds e he)

/-- The three spellings of a part. -/
theorem atonPart_cases {p : List Char} {n : Nat} (h : atonPart p = some n) :
    (∃ x ds, p = '0' :: x :: ds ∧ (x = 'x' ∨ x = 'X') ∧ digitsIn 16 ds = some n) ∨
      (∃ c ds, p = '0' :: c :: ds ∧ digitsIn 8 (c :: ds) = some n) ∨
      (isPlainPart p = true ∧ digitsIn 10 p = some n) := by
  unfold atonPart at h
  split at h
  · rename_i x ds
    by_cases hx : x = 'x' ∨ x = 'X'
    · rw [if_pos hx] at h
      exact .inl ⟨x, ds, rfl, hx, h⟩
    · rw [if_neg hx] at h
      exact .inr (.inl ⟨x, ds, rfl, h⟩)
  · rename_i hne
    refine .inr (.inr ⟨?_, h⟩)
    cases p with
    | nil => rfl
    | cons c t =>
      cases t with
      | nil =>
        by_cases hc : c = '0'
        · rw [hc]
          rfl
        · simp [isPlainPart, hc]
      | cons d t =>
        have hc : c ≠ '0' := by
          rintro rfl
          exact hne d t rfl
        simp [isPlainPart, hc]

theorem digitsIn_decimal {base n : Nat} (hbase : base ≤ 10) {ds : List Char} (h : digitsIn base ds = some n) :
    ds ≠ [] ∧ ∀ c ∈ ds, c.isDigit = true := by
  obtain ⟨hne, hall⟩ := digitsIn_eq_some h
  refine ⟨hne, ?_⟩
  intro c hc
  obtain ⟨d, hd, hlt⟩ := hall c hc
  exact (hexDigit_decimal hd (by omega)).1

theorem atonPart_head {p : List Char} {n : Nat} (h : atonPart p = some n) :
    ∃ c u, p = c :: u ∧ c.isDigit = true := by
  rcases atonPart_cases h with ⟨x, ds, rfl, -⟩ | ⟨c, ds, rfl, -⟩ | ⟨-, hdecimal⟩
  · exact ⟨'0', _, rfl, rfl⟩
  · exact ⟨'0', _, rfl, rfl⟩
  · obtain ⟨hne, hall⟩ := digitsIn_decimal (by omega) hdecimal
    obtain ⟨c, u, rfl⟩ := List.exists_cons_of_ne_nil hne
    exact ⟨c, u, rfl, hall c List.mem_cons_self⟩

/-- A single part is one number in every base. -/
theorem isOddIpv4_part {p : List Char} {n : Nat} (h : atonPart p = some n) :
    isOddIpv4 (p.map Char.toLower) = true := by
  rw [isOddIpv4_iff]
  rcases atonPart_cases h with ⟨x, ds, rfl, hx, hhex⟩ | ⟨c, ds, rfl, hoctal⟩ | ⟨-, hdecimal⟩
  · obtain ⟨hne, hall⟩ := digitsIn_eq_some hhex
    have hlower : x.toLower = 'x' := by
      rcases hx with rfl | rfl <;> decide
    refine .inr (.inl ⟨ds.map Char.toLower, by rw [List.map_cons, List.map_cons, hlower]; rfl, by simpa using hne, ?_⟩)
    rw [List.all_map, List.all_eq_true]
    intro c hc
    obtain ⟨d, hd, -⟩ := hall c hc
    exact isLowerHex_lower hd
  · refine .inl ?_
    simp only [List.all_map, Function.comp_def, toLower_isDigit, List.all_eq_true]
    intro e he
    rcases List.mem_cons.mp he with rfl | he
    · rfl
    · exact (digitsIn_decimal (by omega) hoctal).2 e he
  · refine .inl ?_
    simp only [List.all_map, Function.comp_def, toLower_isDigit, List.all_eq_true]
    exact (digitsIn_decimal (by omega) hdecimal).2

theorem lower_toList (t : String) : (lower t).toList = t.toList.map Char.toLower :=
  String.toList_ofList

theorem isLocalName_parts {t : List Char} (hall : ∀ p ∈ splitOn '.' t, ∃ n, atonPart p = some n) :
    Allgres.isLocalName (t.map Char.toLower) = false := by
  have hlabel : ∀ l ∈ localLabels, l.toList.head?.all (fun c => !c.isDigit) = true := by decide
  rw [Allgres.isLocalName, List.any_eq_false, splitOn_lower]
  intro l hl hlast
  rw [decide_eq_true_eq, List.getLast?_map, Option.map_eq_some_iff] at hlast
  obtain ⟨p, hp, heq⟩ := hlast
  obtain ⟨n, hn⟩ := hall p (List.mem_of_getLast? hp)
  obtain ⟨c, u, rfl, hc⟩ := atonPart_head hn
  have hhead := hlabel l hl
  rw [← heq] at hhead
  simp [toLower_isDigit, hc] at hhead

theorem dottedRule_lower (t : List Char) :
    (isDottedQuad (t.map Char.toLower) && isBlockedQuad (splitOn '.' (t.map Char.toLower))) =
      (isDottedQuad t && isBlockedQuad (splitOn '.' t)) := by
  have hshape : isDottedQuad (t.map Char.toLower) = isDottedQuad t := by
    simp only [isDottedQuad, splitOn_lower, List.length_map, List.all_map, Function.comp_def, isOctet_map_lower]
  rw [hshape]
  by_cases hq : isDottedQuad t = true
  · rw [isDottedQuad_lower hq]
  · simp only [hq, Bool.false_and]

/-- What the guard makes of a text whose parts are numbers. -/
theorem isBlockedHost_parts {t : String} (hall : ∀ p ∈ splitOn '.' t.toList, ∃ n, atonPart p = some n) :
    HostPatterns.isBlockedHost (some t) = (isOddIpv4 (t.toList.map Char.toLower) ||
      (isDottedQuad t.toList && isBlockedQuad (splitOn '.' t.toList))) := by
  have hhead : ∃ c u, t.toList.map Char.toLower = c :: u ∧ c.isDigit = true := by
    rcases splitOn_cases '.' t.toList with ⟨-, hs⟩ | ⟨a, v, ht, -, hs⟩
    · obtain ⟨n, hn⟩ := hall t.toList (by simp [hs])
      obtain ⟨c, u, heq, hc⟩ := atonPart_head hn
      exact ⟨c.toLower, u.map Char.toLower, by rw [heq]; rfl, by rwa [toLower_isDigit]⟩
    · obtain ⟨n, hn⟩ := hall a (by simp [hs])
      obtain ⟨c, u, rfl, hc⟩ := atonPart_head hn
      exact ⟨c.toLower, _, by rw [ht]; rfl, by rwa [toLower_isDigit]⟩
  obtain ⟨c, u, heq, hc⟩ := hhead
  rw [isBlockedHost_digit ((lower_toList t).trans heq) hc, ← heq, isLocalName_parts hall, dottedRule_lower,
    Bool.or_false]

theorem isBlockedHost_single {t : String} {p : List Char} (hs : splitOn '.' t.toList = [p]) {n : Nat}
    (hn : atonPart p = some n) : HostPatterns.isBlockedHost (some t) = true := by
  have ht : t.toList = p := by
    rcases splitOn_cases '.' t.toList with ⟨-, h⟩ | ⟨a, v, -, -, h⟩
    · exact List.singleton_injective (h.symm.trans hs)
    · have hnil := (List.cons.inj (h.symm.trans hs)).2
      exact absurd hnil (splitOn_ne_nil '.' v)
  rw [isBlockedHost_parts (by simpa [hs] using ⟨n, hn⟩), ht, isOddIpv4_part hn, Bool.true_or]

theorem isBlockedHost_several {t : String} {a b : List Char} {ps : List (List Char)}
    (hs : splitOn '.' t.toList = a :: b :: ps) (hall : ∀ p ∈ splitOn '.' t.toList, ∃ n, atonPart p = some n) :
    HostPatterns.isBlockedHost (some t) =
      (isOctalPart a || (isDottedQuad t.toList && isBlockedQuad (a :: b :: ps))) := by
  rcases splitOn_cases '.' t.toList with ⟨-, h⟩ | ⟨a', v, ht, ha, h⟩
  · have := (List.cons.inj (h.symm.trans hs)).2
    cases this
  · obtain rfl := (List.cons.inj (h.symm.trans hs)).1
    have hdot : '.' ∉ a'.map Char.toLower := by
      intro hm
      obtain ⟨c, hc, hcd⟩ := List.mem_map.mp hm
      exact ha ((toLower_dot c).mp hcd ▸ hc)
    have hlower : t.toList.map Char.toLower = a'.map Char.toLower ++ '.' :: v.map Char.toLower := by
      rw [ht, List.map_append, List.map_cons, (toLower_dot '.').mpr rfl]
    rw [isBlockedHost_parts hall, hlower, isOddIpv4_dot hdot, isOctalPart_lower, hs]

theorem digitsIn_one {base n : Nat} {c : Char} (h : digitsIn base [c] = some n) :
    hexDigit c = some n ∧ n < base := by
  rw [digitsIn, if_neg (List.cons_ne_nil c []), List.foldlM_cons] at h
  cases hc : hexDigit c with
  | none => simp [hc] at h
  | some d =>
    by_cases hd : d < base
    · obtain rfl : d = n := by simpa [hc, hd] using h
      exact ⟨rfl, hd⟩
    · simp [hc, hd] at h

theorem digitsIn_snoc {base n : Nat} {q : List Char} {c : Char} (hq : q ≠ [])
    (h : digitsIn base (q ++ [c]) = some n) :
    ∃ m d, digitsIn base q = some m ∧ hexDigit c = some d ∧ d < base ∧ n = m * base + d := by
  rw [digitsIn, if_neg (by simp), List.foldlM_append] at h
  rw [digitsIn, if_neg hq]
  cases hm : q.foldlM (fun n c => (hexDigit c).bind fun d => if d < base then some (n * base + d) else none) 0 with
  | none => simp [hm] at h
  | some m =>
    rw [hm] at h
    cases hc : hexDigit c with
    | none => simp [hc] at h
    | some d =>
      by_cases hd : d < base
      · exact ⟨m, d, rfl, rfl, hd, by simpa [hc, hd, eq_comm] using h⟩
      · simp [hc, hd] at h

theorem digitsIn_lt {base n : Nat} {ds : List Char} (h : digitsIn base ds = some n) : n < base ^ ds.length := by
  induction ds using List.reverseRecOn generalizing n with
  | nil => cases h
  | append_singleton q c ih =>
    by_cases hq : q = []
    · subst hq
      simpa using (digitsIn_one h).2
    · obtain ⟨m, d, hm, -, hd, rfl⟩ := digitsIn_snoc hq h
      have hlt := ih hm
      rw [List.length_append, List.length_singleton, pow_succ]
      calc m * base + d < m * base + base := by omega
        _ = (m + 1) * base := by rw [Nat.add_mul, Nat.one_mul]
        _ ≤ base ^ q.length * base := Nat.mul_le_mul_right base hlt

theorem digitChar_eq {c : Char} {d : Nat} (hc : hexDigit c = some d) (hd : d < 10) : d.digitChar = c := by
  have hcode := (hexDigit_decimal hc hd).2
  have hchar : d.digitChar = Char.ofNat (48 + d) := by
    have hall : ∀ k < 10, k.digitChar = Char.ofNat (48 + k) := by decide
    exact hall d hd
  rw [hchar, ← hcode, Char.ofNat_toNat]

/-- A decimal number without a leading zero is the canonical text of its value. -/
theorem digitsIn_plain {p : List Char} {n : Nat} (h : digitsIn 10 p = some n) (hp : isPlainPart p = true) :
    decimal n = p := by
  induction p using List.reverseRecOn generalizing n with
  | nil => cases h
  | append_singleton q c ih =>
    by_cases hq : q = []
    · subst hq
      obtain ⟨hc, hn⟩ := digitsIn_one h
      rw [decimal_eq, Nat.toDigits_of_lt_base hn, digitChar_eq hc hn]
      rfl
    · obtain ⟨m, d, hm, hc, hd, rfl⟩ := digitsIn_snoc hq h
      obtain ⟨e, u, rfl⟩ := List.exists_cons_of_ne_nil hq
      have he : e ≠ '0' := by
        rintro rfl
        simp [isPlainPart] at hp
      have hm' := ih hm (by simp [isPlainPart, he])
      have hpos : 0 < m := by
        by_contra hzero
        obtain rfl : m = 0 := by omega
        exact he (List.cons.inj (hm'.symm.trans (show decimal 0 = '0' :: [] by decide))).1
      rw [decimal_eq, Nat.mul_comm, ← Nat.toDigits_append_toDigits (by omega) hpos hd, ← decimal_eq, hm',
        Nat.toDigits_of_lt_base hd, digitChar_eq hc hd]

/-- Of three digits a leading zero leaves two octal ones. -/
theorem octet_value {p : List Char} {n : Nat} (ho : isOctet p = true) (h : atonPart p = some n) :
    (isPlainPart p = true ∧ p = decimal n) ∨ (isPlainPart p = false ∧ isOctalPart p = true ∧ n < 64) := by
  simp only [isOctet, Bool.and_eq_true, decide_eq_true_eq, List.all_eq_true] at ho
  rcases atonPart_cases h with ⟨x, ds, rfl, hx, -⟩ | ⟨c, ds, rfl, hoctal⟩ | ⟨hplain, hdecimal⟩
  · have hdigit := ho.2 x (by simp)
    rcases hx with rfl | rfl <;> exact absurd hdigit (by decide)
  · have hdigits : isOctalPart ('0' :: c :: ds) = true := by
      refine isOctalPart_iff.mpr ⟨c :: ds, rfl, ?_⟩
      intro e he
      obtain ⟨d, hd, hlt⟩ := (digitsIn_eq_some hoctal).2 e he
      exact hexDigit_octal hd hlt
    refine .inr ⟨by simp [isPlainPart], hdigits, ?_⟩
    have hlength : (c :: ds).length ≤ 2 := by
      have := ho.1.2
      simp only [List.length_cons] at this ⊢
      omega
    calc n < 8 ^ (c :: ds).length := digitsIn_lt hoctal
      _ ≤ 8 ^ 2 := Nat.pow_le_pow_right (by omega) hlength
      _ = 64 := rfl
  · exact .inl ⟨hplain, (digitsIn_plain hdecimal hplain).symm⟩

theorem octetIn_value {p : List Char} {n lo hi : Nat} (ho : isOctet p = true) (h : atonPart p = some n) :
    octetIn lo hi p = true ↔ isPlainPart p = true ∧ lo ≤ n ∧ n ≤ hi := by
  rcases octet_value ho h with ⟨hplain, hp⟩ | ⟨hplain, hoctal, -⟩
  · rw [hp, octetIn_decimal]
    exact (and_iff_right (hp ▸ hplain)).symm
  · refine iff_of_false ?_ (by simp [hplain])
    intro hin
    obtain ⟨k, -, hk⟩ := List.mem_map.mp (octetIn_iff.mp hin)
    have hk : decimal k = p := hk
    rw [← hk, isOctalPart_decimal] at hoctal
    rw [← hk, hoctal] at hplain
    exact absurd hplain (by decide)

theorem mapM_atonPart {ps : List (List Char)} {ns : List Nat} (h : ps.mapM atonPart = some ns) :
    List.Forall₂ (fun p n => atonPart p = some n) ps ns := by
  induction ps generalizing ns with
  | nil =>
    obtain rfl : [] = ns := by simpa using h
    exact .nil
  | cons p ps ih =>
    rw [List.mapM_cons] at h
    cases hp : atonPart p with
    | none => simp [hp] at h
    | some n =>
      cases hps : ps.mapM atonPart with
      | none => simp [hp, hps] at h
      | some ms =>
        obtain rfl : n :: ms = ns := by simpa [hp, hps] using h
        exact .cons hp (ih hps)

/-- Which quads the ranges miss: an octal part where the range looks for a decimal one. -/
theorem isBlockedQuad_values {a b c d : List Char} {k l m : Nat} (ha : isOctet a = true) (hb : isOctet b = true)
    (hc : isOctet c = true) (hak : atonPart a = some k) (hbl : atonPart b = some l) (hcm : atonPart c = some m)
    (hfirst : isOctalPart a = false) (hk : k < 256) (hrange : BlockedRange k l m) :
    isBlockedQuad [a, b, c, d] = true ↔
      (a ∈ ["172".toList, "192".toList, "198".toList] → isPlainPart b = true) ∧
        (a = "192".toList → b = "0".toList → isPlainPart c = true) := by
  obtain ⟨hplain, rfl⟩ : isPlainPart a = true ∧ a = decimal k := by
    rcases octet_value ha hak with h | ⟨-, h, -⟩
    · exact h
    · rw [h] at hfirst
      cases hfirst
  have hnonzero : k ≠ 0 := by
    intro hzero
    rw [(isOctalPart_decimal k).mpr hzero] at hfirst
    cases hfirst
  have hfield : ∀ n, decimal k = decimal n ↔ k = n := fun n => ⟨decimal_inj, congrArg decimal⟩
  have hlist : decimal k ∈ ["172".toList, "192".toList, "198".toList] ↔ k = 172 ∨ k = 192 ∨ k = 198 := by
    rw [← hfield 172, ← hfield 192, ← hfield 198]
    simp only [List.mem_cons, List.not_mem_nil, or_false]
    rfl
  have hsecond : b = "0".toList ↔ isPlainPart b = true ∧ l = 0 := by
    have hzero : b = "0".toList ↔ octetIn 0 0 b = true := octetIn_iff.trans List.mem_singleton |>.symm
    rw [hzero, octetIn_value hb hbl]
    simp
  have hoctal : isPlainPart b = true ∨ l < 64 := by
    rcases octet_value hb hbl with ⟨h, -⟩ | ⟨-, -, h⟩
    · exact .inl h
    · exact .inr h
  have h192 : decimal k = "192".toList ↔ k = 192 := hfield 192
  simp only [isBlockedQuad, Bool.or_eq_true, Bool.and_eq_true, octetIn_decimal, octetIn_value hb hbl,
    octetIn_value hc hcm, hlist, hsecond, h192]
  rcases hrange with rfl | rfl | rfl | ⟨rfl, rfl⟩ | ⟨rfl, hl⟩ | ⟨rfl, rfl⟩ | ⟨rfl, rfl, hm⟩ | ⟨rfl, hl⟩ | ⟨rfl, hl⟩ | hr
  · exact absurd rfl hnonzero
  · simp
  · simp
  · simpa using hoctal
  · simp [hl]
  · simp
  · rcases hm with rfl | rfl
    · simp
      exact .inl
    · simp
      exact .inl
  · rcases hl with rfl | rfl <;> simp
  · have hpb : isPlainPart b = true := by
      rcases hoctal with h | h
      · exact h
      · omega
    simp [hpb, hl]
  · have hfar : k ≠ 172 ∧ k ≠ 192 ∧ k ≠ 198 := by omega
    simp [hfar, hr, show k ≤ 259 by omega]

/-- The characters of a spelling. -/
def spellingChars : List Char :=
  "0123456789abcdefABCDEFxX.".toList

theorem hexDigit_mem {c : Char} {d : Nat} (h : hexDigit c = some d) : c ∈ spellingChars := by
  unfold hexDigit at h
  split at h
  · rename_i hc
    have hrange : 48 ≤ c.toNat ∧ c.toNat ≤ 57 := hc
    exact char_range (p := (· ∈ spellingChars)) 48 10 (by decide) hrange.1 (by omega)
  · split at h
    · rename_i hc
      have hrange : 97 ≤ c.toNat ∧ c.toNat ≤ 102 := hc
      exact char_range (p := (· ∈ spellingChars)) 97 6 (by decide) hrange.1 (by omega)
    · split at h
      · rename_i hc
        have hrange : 65 ≤ c.toNat ∧ c.toNat ≤ 70 := hc
        exact char_range (p := (· ∈ spellingChars)) 65 6 (by decide) hrange.1 (by omega)
      · cases h

theorem atonPart_mem {p : List Char} {n : Nat} (h : atonPart p = some n) : ∀ c ∈ p, c ∈ spellingChars := by
  have hdigits : ∀ {base n ds}, digitsIn base ds = some n → ∀ c ∈ ds, c ∈ spellingChars := by
    intro base n ds h c hc
    obtain ⟨d, hd, -⟩ := (digitsIn_eq_some h).2 c hc
    exact hexDigit_mem hd
  have hzero : '0' ∈ spellingChars := by decide
  intro c hc
  rcases atonPart_cases h with ⟨x, ds, rfl, hx, hhex⟩ | ⟨e, ds, rfl, hoctal⟩ | ⟨-, hdecimal⟩
  · rcases List.mem_cons.mp hc with rfl | hc
    · exact hzero
    · rcases List.mem_cons.mp hc with rfl | hc
      · rcases hx with rfl | rfl <;> decide
      · exact hdigits hhex c hc
  · rcases List.mem_cons.mp hc with rfl | hc
    · exact hzero
    · exact hdigits hoctal c hc
  · exact hdigits hdecimal c hc

theorem mem_of_parts {t : List Char} (hall : ∀ p ∈ splitOn '.' t, ∃ n, atonPart p = some n) :
    (∀ c ∈ t, c ∈ spellingChars) ∧ t.getLast? ≠ some '.' := by
  induction hn : t.length using Nat.strong_induction_on generalizing t with
  | _ n ih =>
    rcases splitOn_cases '.' t with ⟨hdot, hs⟩ | ⟨a, u, rfl, -, hs⟩
    · obtain ⟨k, hk⟩ := hall t (by simp [hs])
      exact ⟨atonPart_mem hk, fun h => hdot (List.mem_of_getLast? h)⟩
    · have hu := ih u.length (by simp at hn; omega) (t := u) (fun p hp => hall p (by simp [hs, hp])) rfl
      obtain ⟨k, hk⟩ := hall a (by simp [hs])
      refine ⟨?_, ?_⟩
      · intro c hc
        rcases List.mem_append.mp hc with hc | hc
        · exact atonPart_mem hk c hc
        · rcases List.mem_cons.mp hc with rfl | hc
          · decide
          · exact hu.1 c hc
      · cases u with
        | nil =>
          obtain ⟨l, hl⟩ := hall [] (by simp [hs, splitOn])
          cases hl
        | cons e u =>
          have hlast : (a ++ '.' :: e :: u).getLast? = (e :: u).getLast? := by
            rw [List.getLast?_append_cons, List.getLast?_cons_cons]
          rw [hlast]
          exact hu.2

theorem scheme_https {s : List Char} (h : lower (String.ofList s) = "https") :
    (∀ c ∈ s, isSchemeChar c = true) ∧ s.head?.any Char.isAlpha = true := by
  have hfold : s.map Char.toLower = "https".toList := by
    rw [← h, lower_toList, String.toList_ofList]
  have halpha : ∀ c ∈ s, c.isAlpha = true := by
    intro c hc
    have hmem : c.toLower ∈ "https".toList := hfold ▸ List.mem_map_of_mem hc
    rcases toLower_cases c with heq | ⟨hlo, hhi, -⟩
    · have hall : ∀ d ∈ "https".toList, d.isAlpha = true := forall_of_all (by decide)
      exact hall c (heq ▸ hmem)
    · exact char_range (p := (·.isAlpha = true)) 65 26 (by decide) hlo (by omega)
  constructor
  · intro c hc
    simp [isSchemeChar, Char.isAlphanum, halpha c hc]
  · cases s with
    | nil => cases hfold
    | cons c s => simpa using halpha c List.mem_cons_self

theorem ltrimChars_self {p : Char → Bool} {t : List Char} (h : ∀ c ∈ t, p c = false) : ltrimChars p t = t := by
  have hhead : t.head?.all (fun c => !p c) = true := by
    cases t with
    | nil => rfl
    | cons c t => simp [h c List.mem_cons_self]
  have hnone : ∀ c ∈ ([] : List Char), p c = true := nofun
  exact dropWhile_stop hnone hhead

theorem rtrimChars_self {p : Char → Bool} {t : List Char} (h : ∀ c ∈ t, p c = false) : rtrimChars p t = t := by
  have hrev : ltrimChars p t.reverse = t.reverse := ltrimChars_self fun c hc => h c (List.mem_reverse.mp hc)
  rw [rtrimChars, ← ltrimChars, hrev, List.reverse_reverse]

theorem authorityHost_spelling {t port : List Char} (ht : ∀ c ∈ t, c ∈ spellingChars)
    (hport : port = [] ∨ ∃ ds, port = ':' :: ds ∧ ds.all Char.isDigit = true) : authorityHost (t ++ port) = t := by
  have hcolon : ':' ∉ t := fun h => absurd (ht ':' h) (by decide)
  have hcount : t.count ':' = 0 := List.count_eq_zero.mpr hcolon
  unfold authorityHost
  split
  · rename_i rest heq
    exfalso
    cases t with
    | nil =>
      rcases hport with rfl | ⟨ds, rfl, -⟩
      · cases heq
      · exact absurd (List.cons.inj heq).1 (by decide)
    | cons c t =>
      have hc := ht c List.mem_cons_self
      rw [(List.cons.inj heq).1] at hc
      exact absurd hc (by decide)
  · rcases hport with rfl | ⟨ds, rfl, hds⟩
    · rw [List.append_nil, hcount, if_neg (by omega)]
    · have hnone : ds.count ':' = 0 := by
        refine List.count_eq_zero.mpr fun h => ?_
        exact absurd (List.all_eq_true.mp hds ':' h) (by decide)
      rw [List.count_append, List.count_cons_self, hcount, hnone, if_pos rfl]
      refine takeWhile_stop ?_ rfl
      intro c hc
      have hne : c ≠ ':' := by
        rintro rfl
        exact hcolon hc
      simpa using hne

theorem urlHost_https {t u host : String} (hu : IsHttpsUrl u t) (ht : ∀ c ∈ t.toList, c ∈ spellingChars)
    (hlast : t.toList.getLast? ≠ some '.') (h : urlHost (some u) = some host) : host = lower t := by
  obtain ⟨scheme, user, port, rest, heq, hscheme, huser, hport, hrest⟩ := hu
  obtain ⟨hchars, hhead⟩ := scheme_https hscheme
  have hsplit : splitScheme u.toList = some (scheme, (user ++ t.toList ++ port) ++ rest) := by
    refine splitScheme_eq_some.mpr ⟨?_, hchars, hhead⟩
    rw [heq]
    simp
  have hauthority : urlAuthority u = some (user ++ t.toList ++ port) := by
    rw [urlAuthority, hsplit, Option.map_some]
    refine congrArg some (takeWhile_stop ?_ hrest)
    intro c hc
    simp only [List.mem_append] at hc
    rcases hc with (hc | hc) | hc
    · rcases huser with rfl | ⟨name, rfl, hname⟩
      · cases hc
      · rcases List.mem_append.mp hc with hc | hc
        · exact List.all_eq_true.mp hname c hc
        · rw [List.mem_singleton.mp hc]
          decide
    · have hall : ∀ d ∈ spellingChars, isAuthorityChar d = true := forall_of_all (by decide)
      exact hall c (ht c hc)
    · rcases hport with rfl | ⟨ds, rfl, hds⟩
      · cases hc
      · have hall : ∀ d ∈ ':' :: "0123456789".toList, isAuthorityChar d = true := forall_of_all (by decide)
        rcases List.mem_cons.mp hc with rfl | hc
        · decide
        · exact hall c (List.mem_cons_of_mem _ (mem_digits.mpr (List.all_eq_true.mp hds c hc)))
  have hspace : ∀ c ∈ t.toList, (c == ' ') = false := by
    have hall : ∀ d ∈ spellingChars, (d == ' ') = false := forall_of_all (by decide)
    exact fun c hc => hall c (ht c hc)
  unfold urlHost at h
  simp only [Option.bind_eq_bind, Option.bind_some, hauthority] at h
  split at h
  · cases h
  · split at h
    · cases h
    · rename_i hplain
      simp only [not_or] at hplain
      have huser' : user = [] := by
        rcases huser with hnil | ⟨name, rfl, -⟩
        · exact hnil
        · exact absurd (by simp) hplain.2
      rw [huser', List.nil_append, authorityHost_spelling ht hport, ltrimChars_self hspace, rtrimChars_self hspace,
        dropFinalDot, if_neg hlast, String.ofList_toList] at h
      unfold nullIfEmpty at h
      simp only [Option.bind_some] at h
      split at h
      · cases h
      · exact (Option.some.inj h).symm

/-- A URL that passes has a host that is not blocked. -/
theorem urlHost_of_passed {u : String} (h : checkOutboundUrl (some u) false = none) :
    ∃ host, urlHost (some u) = some host ∧ Allgres.isBlockedHost (some host) = false := by
  unfold checkOutboundUrl at h
  dsimp only at h
  split_ifs at h
  split at h
  · cases h
  · split_ifs at h
    split at h
    · cases h
    · rename_i host hhost
      split_ifs at h with hblocked
      exact ⟨host, hhost, by simpa using hblocked⟩

theorem url_rejected {t u : String} (hall : ∀ p ∈ splitOn '.' t.toList, ∃ n, atonPart p = some n)
    (hb : HostPatterns.isBlockedHost (some t) = true) (hu : IsHttpsUrl u t) :
    checkOutboundUrl (some u) false ≠ none := by
  intro hpass
  obtain ⟨host, hhost, hfree⟩ := urlHost_of_passed hpass
  obtain ⟨hchars, hlast⟩ := mem_of_parts hall
  obtain rfl := urlHost_https hu hchars hlast hhost
  have hfold : Allgres.isBlockedHost (some (lower t)) = Allgres.isBlockedHost (some t) := by
    simp only [Allgres.isBlockedHost, orEmpty, Option.getD_some, lower_lower]
    rfl
  rw [isBlockedHost_eq, ← hfold, hfree] at hb
  cases hb

theorem parts_of_inetAton {t : String} {addr : Ipv4Addr} (h : inetAton t = some addr) :
    ∃ ns v, List.Forall₂ (fun p n => atonPart p = some n) (splitOn '.' t.toList) ns ∧ atonValue ns = some v ∧
      addr = .ofNat v := by
  unfold inetAton at h
  rw [Option.map_eq_some_iff] at h
  obtain ⟨v, hv, rfl⟩ := h
  rw [Option.bind_eq_some_iff] at hv
  obtain ⟨ns, hns, hv⟩ := hv
  exact ⟨ns, v, mapM_atonPart hns, hv, rfl⟩

theorem forall_parts {ps : List (List Char)} {ns : List Nat}
    (h : List.Forall₂ (fun p n => atonPart p = some n) ps ns) : ∀ p ∈ ps, ∃ n, atonPart p = some n := by
  induction h with
  | nil => nofun
  | cons hn _ ih =>
    intro p hp
    rcases List.mem_cons.mp hp with rfl | hp
    · exact ⟨_, hn⟩
    · exact ih p hp

/-- Four parts below 256 are the bytes of the address. -/
theorem bytes_ofNat {k l m n v : Nat} (hv : atonValue [k, l, m, n] = some v) :
    k < 256 ∧ (Ipv4Addr.ofNat v).a.toNat = k ∧ (Ipv4Addr.ofNat v).b.toNat = l ∧ (Ipv4Addr.ofNat v).c.toNat = m := by
  dsimp only [atonValue] at hv
  split_ifs at hv with h
  obtain ⟨hk, hl, hm, hn⟩ := h
  obtain rfl := Option.some.inj hv
  simp only [Ipv4Addr.ofNat, UInt8.toNat_ofNat', Nat.reducePow] at hk hl hm hn ⊢
  omega

theorem isBlockedHost_covered {t : String} {addr : Ipv4Addr} (h : inetAton t = some addr)
    (hb : isBlockedIpv4 addr = true) : HostPatterns.isBlockedHost (some t) = true ↔ CoveredSpelling t := by
  obtain ⟨ns, v, hparts, hv, rfl⟩ := parts_of_inetAton h
  have hall := forall_parts hparts
  have hquad : isDottedQuad t.toList = true ↔
      (splitOn '.' t.toList).length = 4 ∧ ∀ p ∈ splitOn '.' t.toList, isOctet p = true := by
    simp [isDottedQuad]
  unfold CoveredSpelling
  rcases hs : splitOn '.' t.toList with - | ⟨a, - | ⟨b, - | ⟨c, - | ⟨d, - | ⟨e, ps⟩⟩⟩⟩⟩
  · exact absurd hs (splitOn_ne_nil '.' t.toList)
  · obtain ⟨n, hn⟩ := hall a (by simp [hs])
    simp only [isBlockedHost_single hs hn]
  · have hshape : isDottedQuad t.toList = false := by
      simpa [hs] using hquad
    rw [isBlockedHost_several hs hall, hshape, Bool.false_and, Bool.or_false]
  · have hshape : isDottedQuad t.toList = false := by
      simpa [hs] using hquad
    rw [isBlockedHost_several hs hall, hshape, Bool.false_and, Bool.or_false]
  · rw [isBlockedHost_several hs hall, Bool.or_eq_true]
    cases hfirst : isOctalPart a with
    | true => simp [hfirst]
    | false =>
      rw [hs] at hparts hquad
      obtain _ | ⟨hak, hparts⟩ := hparts
      obtain _ | ⟨hbl, hparts⟩ := hparts
      obtain _ | ⟨hcm, hparts⟩ := hparts
      obtain _ | ⟨hdn, hparts⟩ := hparts
      obtain _ | _ := hparts
      obtain ⟨hk, hka, hlb, hmc⟩ := bytes_ofNat hv
      have hrange := (isBlockedIpv4_iff _).mp hb
      rw [hka, hlb, hmc] at hrange
      simp only [List.length_cons, List.length_nil, List.mem_cons, List.not_mem_nil, or_false, forall_eq_or_imp,
        forall_eq, true_and] at hquad
      simp only [hfirst, Bool.false_eq_true, false_or, Bool.and_eq_true, hquad, and_assoc]
      refine and_congr_right fun ha => and_congr_right fun hb => and_congr_right fun hc => and_congr_right fun hd => ?_
      exact isBlockedQuad_values ha hb hc hak hbl hcm hfirst hk hrange
  · have hshape : isDottedQuad t.toList = false := by
      simpa [hs] using hquad
    rw [isBlockedHost_several hs hall, hshape, Bool.false_and, Bool.or_false]

/-- Of the spellings of a blocked address the guard refuses the covered ones, host and URL. -/
theorem spelling_blocked_iff (t : String) (addr : Ipv4Addr) (h : inetAton t = some addr)
    (hb : isBlockedIpv4 addr = true) :
    (HostPatterns.isBlockedHost (some t) = true ∧ ∀ u, IsHttpsUrl u t → checkOutboundUrl (some u) false ≠ none) ↔
      CoveredSpelling t := by
  obtain ⟨ns, v, hparts, -⟩ := parts_of_inetAton h
  have hcovered := isBlockedHost_covered h hb
  constructor
  · rintro ⟨hhost, -⟩
    exact hcovered.mp hhost
  · intro hc
    have hhost := hcovered.mpr hc
    exact ⟨hhost, fun u => url_rejected (forall_parts hparts) hhost⟩

theorem octal_blocked : inetAton "0177.0.0.1" = some ⟨127, 0, 0, 1⟩ ∧
    (HostPatterns.isBlockedHost (some "0177.0.0.1") = true ∧
      ∀ u, IsHttpsUrl u "0177.0.0.1" → checkOutboundUrl (some u) false ≠ none) :=
  ⟨by decide, (spelling_blocked_iff "0177.0.0.1" ⟨127, 0, 0, 1⟩ (by decide) (by decide)).mpr (.inl (by decide))⟩

/-- The loopback address in two parts is reached. -/
theorem two_parts_allowed : inetAton "127.1" = some ⟨127, 0, 0, 1⟩ ∧ isBlockedIpv4 ⟨127, 0, 0, 1⟩ = true ∧
    HostPatterns.isBlockedHost (some "127.1") = false ∧ checkOutboundUrl (some "https://127.1/") false = none := by
  refine ⟨by decide, by decide, ?_, by decide⟩
  rw [isBlockedHost_eq]
  decide

end Allgres
