import Allgres.HostPatterns

/-! The blocklist of the resolver for IPv4 addresses, against the regular expressions that `is_blocked_host`
keeps for the text of an address. -/

namespace Allgres

open HostPatterns

structure Ipv4Addr where
  a : UInt8
  b : UInt8
  c : UInt8
  d : UInt8
deriving DecidableEq, Repr

namespace Ipv4Addr

/-- The canonical text, as `Display` writes it. -/
def text (v4 : Ipv4Addr) : String :=
  toString v4.a.toNat ++ "." ++ toString v4.b.toNat ++ "." ++ toString v4.c.toNat ++ "." ++ toString v4.d.toNat

end Ipv4Addr

def isBlockedIpv4 (v4 : Ipv4Addr) : Bool :=
  v4.a == 0 ||
    v4.a == 10 ||
    v4.a == 127 ||
    (v4.a == 169 && v4.b == 254) ||
    (v4.a == 172 && (16 ≤ v4.b && v4.b ≤ 31)) ||
    (v4.a == 192 && v4.b == 168) ||
    (v4.a == 192 && v4.b == 0 && (v4.c == 0 || v4.c == 2)) ||
    (v4.a == 198 && (v4.b == 18 || v4.b == 19)) ||
    (v4.a == 100 && (64 ≤ v4.b && v4.b ≤ 127)) ||
    v4.a ≥ 224

/-- The ranges of the blocklist on plain numbers. -/
def BlockedRange (a b c : Nat) : Prop :=
  a = 0 ∨ a = 10 ∨ a = 127 ∨ (a = 169 ∧ b = 254) ∨ (a = 172 ∧ 16 ≤ b ∧ b ≤ 31) ∨ (a = 192 ∧ b = 168) ∨
    (a = 192 ∧ b = 0 ∧ (c = 0 ∨ c = 2)) ∨ (a = 198 ∧ (b = 18 ∨ b = 19)) ∨ (a = 100 ∧ 64 ≤ b ∧ b ≤ 127) ∨ 224 ≤ a

theorem isBlockedIpv4_iff (v4 : Ipv4Addr) :
    isBlockedIpv4 v4 = true ↔ BlockedRange v4.a.toNat v4.b.toNat v4.c.toNat := by
  simp only [isBlockedIpv4, BlockedRange, Bool.or_eq_true, Bool.and_eq_true, beq_iff_eq, decide_eq_true_eq,
    ← UInt8.toNat_inj, ge_iff_le, UInt8.le_iff_toNat_le, UInt8.reduceToNat, or_assoc, and_assoc]

/-- The decimal digits of a number. -/
def decimal (n : Nat) : List Char :=
  (toString n).toList

theorem decimal_eq (n : Nat) : decimal n = Nat.toDigits 10 n :=
  Nat.toList_repr

theorem decimal_digits {n : Nat} : ∀ c ∈ decimal n, c.isDigit = true := by
  intro c hc
  rw [decimal_eq] at hc
  exact Nat.isDigit_of_mem_toDigits (by omega) (by omega) hc

theorem decimal_inj {m n : Nat} (h : decimal m = decimal n) : m = n := by
  rw [decimal_eq, decimal_eq] at h
  rw [← Nat.ofDigitChars_ten_toDigits (n := m), h, Nat.ofDigitChars_ten_toDigits]

theorem isOctet_decimal {n : Nat} (hn : n < 1000) : isOctet (decimal n) = true := by
  have hlength : (decimal n).length ≤ 3 := by
    rw [decimal_eq]
    exact (Nat.length_toDigits_le_iff (by omega) (by omega)).mpr hn
  have hpos : 1 ≤ (decimal n).length := by
    rw [decimal_eq]
    exact Nat.length_toDigits_pos
  simp only [isOctet, Bool.and_eq_true, decide_eq_true_eq, List.all_eq_true]
  exact ⟨⟨hpos, hlength⟩, fun c => decimal_digits c⟩

theorem octetIn_decimal {lo hi n : Nat} : octetIn lo hi (decimal n) = true ↔ lo ≤ n ∧ n ≤ hi := by
  rw [octetIn_iff, texts, List.mem_map]
  constructor
  · rintro ⟨m, hm, heq⟩
    obtain rfl := decimal_inj heq
    have hm := List.mem_range'_1.mp hm
    omega
  · intro h
    exact ⟨n, List.mem_range'_1.mpr (by omega), rfl⟩

/-- The first part of a quad is octal: a zero with octal digits behind it. -/
def isOctalPart (p : List Char) : Bool :=
  match p with
  | '0' :: ds => ds.all fun c => '0' ≤ c && c ≤ '7'
  | _ => false

theorem isOctalPart_iff {p : List Char} :
    isOctalPart p = true ↔ ∃ ds, p = '0' :: ds ∧ ∀ c ∈ ds, '0' ≤ c ∧ c ≤ '7' := by
  unfold isOctalPart
  split
  · simp
  · rename_i hne
    exact iff_of_false nofun fun ⟨ds, hd, _⟩ => hne ds hd

/-- The octal rule of `is_blocked_host` looks at the text in front of the first dot. -/
theorem octalTail_append {ds u : List Char} (hd : '.' ∉ ds) :
    octalTail (ds ++ '.' :: u) = true ↔ ∀ c ∈ ds, '0' ≤ c ∧ c ≤ '7' := by
  induction ds with
  | nil => simp [octalTail]
  | cons c ds ih =>
    simp only [List.mem_cons, not_or] at hd
    unfold octalTail at ih ⊢
    by_cases hc : '0' ≤ c ∧ c ≤ '7'
    · rw [List.cons_append, List.dropWhile_cons_of_pos (by simpa using hc), ih hd.2]
      simp [hc]
    · rw [List.cons_append, List.dropWhile_cons_of_neg (by simpa using hc)]
      simp [hc, Ne.symm hd.1]

/-- In front of a dot only the octal rule can apply. -/
theorem isOddIpv4_dot {p u : List Char} (hp : '.' ∉ p) : isOddIpv4 (p ++ '.' :: u) = isOctalPart p := by
  rw [Bool.eq_iff_iff, isOddIpv4_iff, isOctalPart_iff]
  constructor
  · rintro (hall | ⟨rest, hx, -, hall⟩ | ⟨rest, hzero, hoctal⟩)
    · have hdot := List.all_eq_true.mp hall '.' (by simp)
      exact absurd hdot (by decide)
    · have hmem : '.' ∈ '0' :: 'x' :: rest := by
        rw [← hx]
        simp
      have hdot := List.all_eq_true.mp hall '.' (by simpa using hmem)
      exact absurd hdot (by decide)
    · cases p with
      | nil => exact absurd (List.cons.inj hzero).1 (by decide)
      | cons e ds =>
        simp only [List.cons_append, List.cons.injEq] at hzero
        obtain ⟨rfl, rfl⟩ := hzero
        exact ⟨ds, rfl, (octalTail_append fun h => hp (List.mem_cons_of_mem _ h)).mp hoctal⟩
  · rintro ⟨ds, rfl, hoctal⟩
    exact .inr (.inr ⟨_, rfl, (octalTail_append fun h => hp (List.mem_cons_of_mem _ h)).mpr hoctal⟩)

/-- Of a text that starts with a digit the rules for IPv4 addresses and for names decide. -/
theorem isBlockedHost_digit {t : String} {e : Char} {u : List Char} (hl : (lower t).toList = e :: u)
    (he : e.isDigit = true) : HostPatterns.isBlockedHost (some t) = (isOddIpv4 (e :: u) ||
      Allgres.isLocalName (e :: u) || (isDottedQuad (e :: u) && isBlockedQuad (splitOn '.' (e :: u)))) := by
  have hcolon : e ≠ ':' := by
    rintro rfl
    exact absurd he (by decide)
  have hf : e ≠ 'f' := by
    rintro rfl
    exact absurd he (by decide)
  have hmapped : mappedIpv4 (e :: u) = none := by
    unfold mappedIpv4
    split
    · rename_i heq
      exact absurd (List.cons.inj heq).1 hcolon
    · rfl
  have hv6 : isBlockedIpv6 (e :: u) = false := by
    unfold isBlockedIpv6
    split <;> simp_all
  have hname : e :: u ∉ ["localhost.localdomain".toList, "ip6-localhost".toList, "ip6-loopback".toList] := by
    have hheads : ∀ n ∈ ["localhost.localdomain".toList, "ip6-localhost".toList, "ip6-loopback".toList],
        n.head?.all (fun c => !c.isDigit) = true := by decide
    intro hm
    simpa [he] using hheads _ hm
  rw [isBlockedHost_eq, Allgres.isBlockedHost, orEmpty, Option.getD_some, hl, if_neg (List.cons_ne_nil e u), hmapped]
  simp only [isBlockedLiteral, hv6, decide_eq_false hname, Bool.or_false]

def quad (a b c d : List Char) : List Char :=
  a ++ '.' :: (b ++ '.' :: (c ++ '.' :: d))

section Quads

variable {a b c d : List Char} (ha : isOctet a = true) (hb : isOctet b = true) (hc : isOctet c = true)
  (hd : isOctet d = true)

include ha hb hc hd

theorem isDottedQuad_quad : isDottedQuad (quad a b c d) = true :=
  isDottedQuad_iff.mpr ⟨a, b, c, d, rfl, ha, hb, hc, hd⟩

theorem isLocalName_quad : Allgres.isLocalName (quad a b c d) = false := by
  rw [Allgres.isLocalName, quad, splitOn_quad ha hb hc hd, List.any_eq_false]
  intro l hl
  have hnone : ∀ l ∈ localLabels, isOctet l.toList = false := by decide
  simp only [List.getLast?_cons_cons, List.getLast?_singleton, Option.some.injEq, decide_eq_true_eq]
  rintro rfl
  rw [hnone l hl] at hd
  cases hd

/-- What the rules of `is_blocked_host` make of four runs of one to three decimal digits. -/
theorem isBlockedHost_quad {t : String} (ht : t.toList = quad a b c d) :
    HostPatterns.isBlockedHost (some t) = (isOctalPart a || isBlockedQuad [a, b, c, d]) := by
  have hq := isDottedQuad_quad ha hb hc hd
  have hlower : (lower t).toList = quad a b c d := by
    rw [lower, String.toList_ofList, ht, isDottedQuad_lower hq]
  obtain ⟨e, u, heq, he⟩ := isDottedQuad_head hq
  have hodd : isOddIpv4 (quad a b c d) = isOctalPart a := isOddIpv4_dot (isOctet_dot ha)
  rw [isBlockedHost_digit (hlower.trans heq) he, ← heq, hodd, isLocalName_quad ha hb hc hd, hq, quad,
    splitOn_quad ha hb hc hd]
  simp only [Bool.or_false, Bool.true_and]

end Quads

theorem text_toList (v4 : Ipv4Addr) : v4.text.toList =
    quad (decimal v4.a.toNat) (decimal v4.b.toNat) (decimal v4.c.toNat) (decimal v4.d.toNat) := by
  simp [Ipv4Addr.text, quad, decimal]

/-- Only zero is written with a leading zero. -/
theorem decimal_zero {n : Nat} {ds : List Char} (h : decimal n = '0' :: ds) : n = 0 := by
  induction n using Nat.strong_induction_on generalizing ds with
  | _ n ih =>
    rw [decimal_eq] at h
    by_cases hn : n < 10
    · rw [Nat.toDigits_of_lt_base hn] at h
      exact decimal_inj (m := n) (n := 0) (by rw [decimal_eq, Nat.toDigits_of_lt_base hn, (List.cons.inj h).1]; rfl)
    · rw [Nat.toDigits_of_base_le (by omega) (by omega), ← decimal_eq] at h
      obtain ⟨e, es, hes⟩ := List.exists_cons_of_ne_nil (l := decimal (n / 10)) (by rw [decimal_eq]; exact Nat.toDigits_ne_nil)
      rw [hes, List.cons_append, List.cons.injEq] at h
      have hzero := ih (n / 10) (by omega) (hes.trans (by rw [h.1]))
      omega

theorem isOctalPart_decimal (n : Nat) : isOctalPart (decimal n) = true ↔ n = 0 := by
  constructor
  · intro h
    obtain ⟨ds, hds, -⟩ := isOctalPart_iff.mp h
    exact decimal_zero hds
  · rintro rfl
    decide

theorem isBlockedQuad_decimal (a b c d : Nat) (ha : a < 256) :
    isBlockedQuad [decimal a, decimal b, decimal c, decimal d] = true ↔ BlockedRange a b c := by
  have hself : ∀ k n : Nat, (k ≤ n ∧ n ≤ k) ↔ n = k := by
    intro k n
    omega
  have hbenchmark : (18 ≤ b ∧ b ≤ 19) ↔ (b = 18 ∨ b = 19) := by omega
  have hreserved : (224 ≤ a ∧ a ≤ 259) ↔ 224 ≤ a := by omega
  simp only [isBlockedQuad, Bool.or_eq_true, Bool.and_eq_true, octetIn_decimal, BlockedRange, hself, hbenchmark,
    hreserved, or_assoc, and_assoc]

theorem isOctet_byte (n : UInt8) : isOctet (decimal n.toNat) = true := by
  have hn := n.toNat_lt
  exact isOctet_decimal (by omega)

/-- The octal rule and the ranges on the canonical parts are the numeric blocklist. -/
theorem blocked_parts (v4 : Ipv4Addr) : (isOctalPart (decimal v4.a.toNat) || isBlockedQuad
    [decimal v4.a.toNat, decimal v4.b.toNat, decimal v4.c.toNat, decimal v4.d.toNat]) = isBlockedIpv4 v4 := by
  have hfirst : v4.a.toNat < 256 := v4.a.toNat_lt
  rw [Bool.eq_iff_iff, Bool.or_eq_true, isOctalPart_decimal, isBlockedQuad_decimal _ _ _ _ hfirst, isBlockedIpv4_iff]
  constructor
  · rintro (hzero | h)
    · exact .inl hzero
    · exact h
  · exact .inr

/-- The two IPv4 blocklists agree on the canonical text of every address. -/
theorem isBlockedHost_text (v4 : Ipv4Addr) : HostPatterns.isBlockedHost (some v4.text) = isBlockedIpv4 v4 := by
  rw [isBlockedHost_quad (isOctet_byte v4.a) (isOctet_byte v4.b) (isOctet_byte v4.c) (isOctet_byte v4.d)
    (text_toList v4)]
  exact blocked_parts v4

end Allgres
