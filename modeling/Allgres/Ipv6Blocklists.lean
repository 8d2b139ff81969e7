import Allgres.Ipv6Text

/-! The blocklist of the resolver for IPv6 addresses against `is_blocked_host` on their texts. -/

namespace Allgres

open HostPatterns

def highByte (g : UInt16) : UInt8 :=
  .ofNat (g.toNat / 256)

def lowByte (g : UInt16) : UInt8 :=
  .ofNat g.toNat

namespace Ipv6Addr

def toIpv4Mapped (v6 : Ipv6Addr) : Option Ipv4Addr :=
  match v6.segments with
  | [0, 0, 0, 0, 0, 0xffff, ab, cd] => some ⟨highByte ab, lowByte ab, highByte cd, lowByte cd⟩
  | _ => none

def isLoopback (v6 : Ipv6Addr) : Bool :=
  v6.segments = [0, 0, 0, 0, 0, 0, 0, 1]

def isUnspecified (v6 : Ipv6Addr) : Bool :=
  v6.segments = [0, 0, 0, 0, 0, 0, 0, 0]

/-- `segments()[0]`. -/
def first (v6 : Ipv6Addr) : UInt16 :=
  v6.segments.get ⟨0, by rw [v6.eight]; omega⟩

end Ipv6Addr

/-- `std::net::IpAddr`. -/
inductive NetAddr where
  | v4 (v4 : Ipv4Addr)
  | v6 (v6 : Ipv6Addr)

def isBlockedIp : NetAddr → Bool
  | .v4 v4 => isBlockedIpv4 v4
  | .v6 v6 =>
    match v6.toIpv4Mapped with
    | some v4 => isBlockedIpv4 v4
    | none =>
      if v6.isLoopback || v6.isUnspecified then true
      else v6.first &&& 0xfe00 == 0xfc00 || v6.first &&& 0xffc0 == 0xfe80

theorem toIpv4Mapped_iff {v6 : Ipv6Addr} {v4 : Ipv4Addr} : v6.toIpv4Mapped = some v4 ↔
    ∃ ab cd, v6.segments = [0, 0, 0, 0, 0, 0xffff, ab, cd] ∧
      v4 = ⟨highByte ab, lowByte ab, highByte cd, lowByte cd⟩ := by
  unfold Ipv6Addr.toIpv4Mapped
  split
  · rename_i ab cd heq
    rw [heq]
    simp [eq_comm]
  · rename_i hne
    exact iff_of_false nofun fun ⟨ab, cd, h, _⟩ => hne ab cd h

theorem first_eq {v6 : Ipv6Addr} {g : UInt16} {gs : List UInt16} (h : v6.segments = g :: gs) : v6.first = g := by
  simp [Ipv6Addr.first, h]

/-- A mask of the upper `n` bits of `k + n`. -/
theorem and_mask {x k n : Nat} (hx : x < 2 ^ (k + n)) : x &&& ((2 ^ n - 1) * 2 ^ k) = x / 2 ^ k * 2 ^ k := by
  apply Nat.eq_of_testBit_eq
  intro i
  rw [Nat.testBit_and, Nat.testBit_mul_two_pow, Nat.testBit_mul_two_pow, Nat.testBit_div_two_pow,
    Nat.testBit_two_pow_sub_one]
  by_cases hi : k ≤ i
  · rw [decide_eq_true hi, Bool.true_and, Bool.true_and, Nat.sub_add_cancel hi]
    by_cases hn : i - k < n
    · rw [decide_eq_true hn, Bool.and_true]
    · have hpow : 2 ^ (k + n) ≤ 2 ^ i := Nat.pow_le_pow_right (by omega) (by omega)
      rw [Nat.testBit_lt_two_pow (lt_of_lt_of_le hx hpow), Bool.false_and]
  · rw [decide_eq_false hi, Bool.false_and, Bool.false_and, Bool.and_false]

theorem uniqueLocal_mask (g : UInt16) : (g &&& 0xfe00 == 0xfc00) = true ↔ g.toNat / 512 = 126 := by
  have hmask : g.toNat &&& 0xfe00 = g.toNat / 512 * 512 := and_mask (k := 9) (n := 7) g.toNat_lt
  rw [beq_iff_eq, ← UInt16.toNat_inj, UInt16.toNat_and]
  show g.toNat &&& 0xfe00 = 0xfc00 ↔ _
  omega

theorem linkLocal_mask (g : UInt16) : (g &&& 0xffc0 == 0xfe80) = true ↔ g.toNat / 64 = 1018 := by
  have hmask : g.toNat &&& 0xffc0 = g.toNat / 64 * 64 := and_mask (k := 6) (n := 10) g.toNat_lt
  rw [beq_iff_eq, ← UInt16.toNat_inj, UInt16.toNat_and]
  show g.toNat &&& 0xffc0 = 0xfe80 ↔ _
  omega

/-- Unique local or link local, by the first group. -/
def LocalGroup (g : Nat) : Prop :=
  g / 512 = 126 ∨ g / 64 = 1018

theorem isBlockedIp_iff (v6 : Ipv6Addr) : isBlockedIp (.v6 v6) = true ↔
    (∃ v4, v6.toIpv4Mapped = some v4 ∧ isBlockedIpv4 v4 = true) ∨ v6.isLoopback = true ∨ v6.isUnspecified = true ∨
      LocalGroup v6.first.toNat := by
  unfold isBlockedIp LocalGroup
  rw [← uniqueLocal_mask, ← linkLocal_mask]
  cases hm : v6.toIpv4Mapped with
  | none => simp [hm, or_assoc]
  | some v4 =>
    obtain ⟨ab, cd, hs, -⟩ := toIpv4Mapped_iff.mp hm
    simp [hm, first_eq hs, Ipv6Addr.isLoopback, Ipv6Addr.isUnspecified, hs]

/-- The patterns of the local ranges on the text of a group. -/
def LocalText (m : List Char) : Prop :=
  (∃ a b c, m = ['f', a, b, c] ∧ (a = 'c' ∨ a = 'd') ∧ isLowerHex b = true ∧ isLowerHex c = true) ∨
    ∃ b c, m = ['f', 'e', b, c] ∧ b ∈ ['8', '9', 'a', 'b'] ∧ isLowerHex c = true

theorem localText_digits {w x y z : Nat} (hw : w < 16) (hx : x < 16) (hy : y < 16) (hz : z < 16) :
    LocalText [hexChar w, hexChar x, hexChar y, hexChar z] ↔
      (w = 15 ∧ (x = 12 ∨ x = 13)) ∨ (w = 15 ∧ x = 14 ∧ 8 ≤ y ∧ y ≤ 11) := by
  have hf : ∀ d < 16, hexChar d = 'f' ↔ d = 15 := by decide
  have he : ∀ d < 16, hexChar d = 'e' ↔ d = 14 := by decide
  have hcd : ∀ d < 16, (hexChar d = 'c' ∨ hexChar d = 'd') ↔ (d = 12 ∨ d = 13) := by decide
  have hmid : ∀ d < 16, hexChar d ∈ ['8', '9', 'a', 'b'] ↔ (8 ≤ d ∧ d ≤ 11) := by decide
  have hhex : ∀ d < 16, isLowerHex (hexChar d) = true := by decide
  rw [← hf w hw, ← hcd x hx, ← he x hx, ← hmid y hy]
  constructor
  · rintro (⟨a, b, c, heq, ha, -⟩ | ⟨b, c, heq, hb, -⟩)
    · simp only [List.cons.injEq, and_true] at heq
      obtain ⟨h1, rfl, -⟩ := heq
      exact .inl ⟨h1, ha⟩
    · simp only [List.cons.injEq, and_true] at heq
      obtain ⟨h1, h2, rfl, -⟩ := heq
      exact .inr ⟨h1, h2, hb⟩
  · rintro (⟨h1, h2⟩ | ⟨h1, h2, h3⟩)
    · exact .inl ⟨_, _, _, by rw [h1], h2, hhex y hy, hhex z hz⟩
    · exact .inr ⟨_, _, by rw [h1, h2], h3, hhex z hz⟩

theorem hexDigit_lower {c : Char} {d : Nat} (h : hexDigit c = some d) : c.toLower = hexChar d := by
  have hall : ∀ e ∈ Ipv6Parser.addressChars, (hexDigit e).all (fun k => e.toLower == hexChar k) = true := forall_of_all (by decide)
  have hc := hall c (Ipv6Parser.hexDigit_address h)
  simpa [h] using hc

theorem localText_group {ds : List Char} {g : Nat} (h : digitsIn 16 ds = some g) (hlength : ds.length ≤ 4) :
    LocalText (ds.map Char.toLower) ↔ LocalGroup g := by
  by_cases hshort : ds.length ≤ 3
  · have hsmall : g < 4096 := by
      calc g < 16 ^ ds.length := digitsIn_lt h
        _ ≤ 16 ^ 3 := Nat.pow_le_pow_right (by omega) hshort
        _ = 4096 := rfl
    refine iff_of_false ?_ (by unfold LocalGroup; omega)
    rintro (⟨a, b, c, heq, -⟩ | ⟨b, c, heq, -⟩)
    · have := congrArg List.length heq
      simp at this
      omega
    · have := congrArg List.length heq
      simp at this
      omega
  · obtain ⟨w, x, y, z, rfl⟩ : ∃ w x y z, ds = [w, x, y, z] := List.length_eq_four.mp (by omega)
    obtain ⟨k3, dz, h3, hz, hz16, rfl⟩ := digitsIn_snoc (q := [w, x, y]) (c := z) (by simp) h
    obtain ⟨k2, dy, h2, hy, hy16, rfl⟩ := digitsIn_snoc (q := [w, x]) (c := y) (by simp) h3
    obtain ⟨k1, dx, h1, hx, hx16, rfl⟩ := digitsIn_snoc (q := [w]) (c := x) (by simp) h2
    obtain ⟨hw, hw16⟩ := digitsIn_one h1
    simp only [List.map_cons, List.map_nil, hexDigit_lower hw, hexDigit_lower hx, hexDigit_lower hy, hexDigit_lower hz]
    rw [localText_digits hw16 hx16 hy16 hz16]
    unfold LocalGroup
    omega

section Texts

variable {t : String} {v6 : Ipv6Addr}

theorem lower_eq_iff {s w : List Char} (hw : ∀ c ∈ w, c.toNat < 65) : s.map Char.toLower = w ↔ s = w := by
  induction s generalizing w with
  | nil => simp
  | cons c s ih =>
    cases w with
    | nil => simp
    | cons d w =>
      have hc : c.toLower = d ↔ c = d := by
        refine toLower_below (p := (· = d)) ?_ c
        intro e he
        rw [he]
        exact hw d List.mem_cons_self
      rw [List.map_cons, List.cons.injEq, List.cons.injEq, hc, ih fun e he => hw e (List.mem_cons_of_mem _ he)]

theorem parse_some (h : Ipv6Addr.parse t = some v6) : Ipv6Parser.readIpv6Addr t.toList = some (v6, []) := by
  unfold Ipv6Addr.parse at h
  split at h
  · rename_i heq
    rw [← Option.some.inj h]
    exact heq
  · cases h

theorem parse_chars (h : Ipv6Addr.parse t = some v6) : ∀ c ∈ t.toList, c ∈ Ipv6Parser.addressChars := by
  obtain ⟨w, hw, hchars⟩ := Ipv6Parser.readIpv6Addr_chars (parse_some h)
  rw [List.append_nil] at hw
  rwa [hw]

theorem parse_first (h : Ipv6Addr.parse t = some v6) :
    (∃ u, t.toList = ':' :: ':' :: u ∧ v6.first = 0) ∨
      ∃ ds u g, t.toList = ds ++ ':' :: u ∧ digitsIn 16 ds = some g ∧ ds.length ≤ 4 ∧ v6.first.toNat = g := by
  rcases Ipv6Parser.readIpv6Addr_some (parse_some h) with ⟨u, hu, -, hs⟩ | ⟨ds, u, g, gs, hu, hds, hlt, hlength, hs⟩
  · have hle := Ipv6Parser.readGroups_length 7 0 u
    have hk : 8 - (Ipv6Parser.readGroups 7 0 u).1.length = 7 - (Ipv6Parser.readGroups 7 0 u).1.length + 1 := by omega
    rw [hk, List.replicate_succ] at hs
    exact .inl ⟨u, hu, first_eq hs⟩
  · refine .inr ⟨ds, u, g, hu, hds, hlength, ?_⟩
    rw [first_eq hs, UInt16.toNat_ofNat', Nat.mod_eq_of_lt hlt]

theorem isLocal_iff {m u : List Char} (hm : ':' ∉ m) :
    (isUniqueLocal (m ++ ':' :: u) || isLinkLocal (m ++ ':' :: u)) = true ↔ LocalText m := by
  have hfolded : ∀ {b : Char}, b ∈ "0123456789abcdef".toList → b ≠ ':' := by
    rintro b hb rfl
    exact absurd hb (by decide)
  rw [Bool.or_eq_true, isUniqueLocal_iff, isLinkLocal_iff]
  refine or_congr ?_ ?_
  · constructor
    · rintro ⟨a, b, c, v, heq, ha, hb, hc⟩
      have hfield : ':' ∉ ['f', a, b, c] := by
        have hb' := hfolded (mem_hexDigits.mpr hb)
        have hc' := hfolded (mem_hexDigits.mpr hc)
        rcases ha with rfl | rfl <;> simp [Ne.symm hb', Ne.symm hc']
      exact ⟨a, b, c, (Patterns.append_cons_inj hm hfield heq).1, ha, hb, hc⟩
    · rintro ⟨a, b, c, rfl, ha, hb, hc⟩
      exact ⟨a, b, c, u, rfl, ha, hb, hc⟩
  · constructor
    · rintro ⟨b, c, v, heq, hb, hc⟩
      have hfield : ':' ∉ ['f', 'e', b, c] := by
        have hc' := hfolded (mem_hexDigits.mpr hc)
        have hb' : b ≠ ':' := by
          rintro rfl
          exact absurd hb (by decide)
        simp [Ne.symm hb', Ne.symm hc']
      exact ⟨b, c, (Patterns.append_cons_inj hm hfield heq).1, hb, hc⟩
    · rintro ⟨b, c, rfl, hb, hc⟩
      exact ⟨b, c, u, rfl, hb, hc⟩

theorem toLower_colon (c : Char) : c.toLower = ':' ↔ c = ':' := by
  refine toLower_below (p := (· = ':')) ?_ c
  rintro _ rfl
  decide

theorem digits_colon {ds : List Char} {g : Nat} (h : digitsIn 16 ds = some g) : ':' ∉ ds.map Char.toLower := by
  intro hm
  obtain ⟨c, hc, hcolon⟩ := List.mem_map.mp hm
  obtain ⟨d, hd, -⟩ := (digitsIn_eq_some h).2 c hc
  rw [(toLower_colon c).mp hcolon] at hd
  cases hd

theorem unspecified_or_loopback_text : (t.toList.map Char.toLower) ∈ ["::".toList, "::1".toList] ↔ t ∈ ["::", "::1"] := by
  have hunspecified : ∀ c ∈ "::".toList, c.toNat < 65 := forall_of_all (by decide)
  have hloopback : ∀ c ∈ "::1".toList, c.toNat < 65 := forall_of_all (by decide)
  simp only [List.mem_cons, List.not_mem_nil, or_false, lower_eq_iff hunspecified, lower_eq_iff hloopback,
    String.toList_inj]

/-- The rules for IPv6 on an accepted text. -/
theorem isBlockedIpv6_parsed (h : Ipv6Addr.parse t = some v6) :
    isBlockedIpv6 (t.toList.map Char.toLower) = true ↔ t ∈ ["::", "::1"] ∨ LocalGroup v6.first.toNat := by
  rw [isBlockedIpv6_eq, Bool.or_assoc, Bool.or_eq_true, decide_eq_true_iff, unspecified_or_loopback_text]
  refine or_congr Iff.rfl ?_
  rcases parse_first h with ⟨u, hu, hfirst⟩ | ⟨ds, u, g, hu, hds, hlength, hfirst⟩
  · have hempty : ':' ∉ ([] : List Char) := List.not_mem_nil
    have hfold : t.toList.map Char.toLower = [] ++ ':' :: ':' :: u.map Char.toLower := by
      rw [hu, List.map_cons, List.map_cons, (toLower_colon ':').mpr rfl]
      rfl
    rw [hfold, isLocal_iff hempty, hfirst]
    refine iff_of_false ?_ (by unfold LocalGroup; decide)
    rintro (⟨a, b, c, heq, -⟩ | ⟨b, c, heq, -⟩) <;> cases heq
  · rw [hu, List.map_append, List.map_cons, (toLower_colon ':').mpr rfl, isLocal_iff (digits_colon hds), hfirst]
    exact localText_group hds hlength

/-- The characters of a folded address. -/
def foldedChars : List Char :=
  "0123456789abcdef:.".toList

theorem folded_chars (h : Ipv6Addr.parse t = some v6) : ∀ c ∈ t.toList.map Char.toLower, c ∈ foldedChars := by
  have hall : ∀ d ∈ Ipv6Parser.addressChars, d.toLower ∈ foldedChars := forall_of_all (by decide)
  intro c hc
  obtain ⟨d, hd, rfl⟩ := List.mem_map.mp hc
  exact hall d (parse_chars h d hd)

theorem colon_mem (h : Ipv6Addr.parse t = some v6) : ':' ∈ t.toList.map Char.toLower := by
  have hmem : ':' ∈ t.toList := by
    rcases parse_first h with ⟨u, hu, -⟩ | ⟨ds, u, g, hu, -⟩ <;> simp [hu]
  exact List.mem_map.mpr ⟨':', hmem, (toLower_colon ':').mpr rfl⟩

theorem octalTail_colon {ds u : List Char} (hd : '.' ∉ ds) : octalTail (ds ++ ':' :: u) = false := by
  induction ds with
  | nil => rfl
  | cons c ds ih =>
    simp only [List.mem_cons, not_or] at hd
    unfold octalTail at ih ⊢
    by_cases hc : '0' ≤ c ∧ c ≤ '7'
    · rw [List.cons_append, List.dropWhile_cons_of_pos (by simpa using hc), ih hd.2]
    · rw [List.cons_append, List.dropWhile_cons_of_neg (by simpa using hc)]
      simp [Ne.symm hd.1]

/-- No rule for IPv4 fires: there is a colon, and it comes before any dot. -/
theorem isOddIpv4_parsed (h : Ipv6Addr.parse t = some v6) : isOddIpv4 (t.toList.map Char.toLower) = false := by
  rw [← Bool.not_eq_true, isOddIpv4_iff]
  rintro (hall | ⟨rest, hx, -⟩ | ⟨rest, hzero, hoctal⟩)
  · exact absurd (List.all_eq_true.mp hall ':' (colon_mem h)) (by decide)
  · exact absurd (folded_chars h 'x' (by simp [hx])) (by decide)
  · rcases parse_first h with ⟨u, hu, -⟩ | ⟨ds, u, g, hu, hds, -⟩
    · rw [hu, List.map_cons, (toLower_colon ':').mpr rfl] at hzero
      exact absurd (List.cons.inj hzero).1 (by decide)
    · rw [hu, List.map_append, List.map_cons, (toLower_colon ':').mpr rfl] at hzero
      cases ds with
      | nil => cases hds
      | cons c ds =>
        rw [List.map_cons, List.cons_append] at hzero
        obtain ⟨-, rfl⟩ := List.cons.inj hzero
        rw [octalTail_colon] at hoctal
        · cases hoctal
        · intro hm
          obtain ⟨e, he, hdot⟩ := List.mem_map.mp hm
          obtain ⟨d, hd, -⟩ := (digitsIn_eq_some hds).2 e (List.mem_cons_of_mem _ he)
          rw [(toLower_dot e).mp hdot] at hd
          cases hd

theorem isDottedQuad_colon {q : List Char} (hq : isDottedQuad q = true) : ':' ∉ q := by
  have hoctet : ∀ {p : List Char}, isOctet p = true → ':' ∉ p := by
    intro p hp hm
    simp only [isOctet, Bool.and_eq_true, List.all_eq_true] at hp
    exact absurd (hp.2 ':' hm) (by decide)
  obtain ⟨a, b, c, d, rfl, ha, hb, hc, hd⟩ := isDottedQuad_iff.mp hq
  simp [hoctet ha, hoctet hb, hoctet hc, hoctet hd]

/-- Only the rules for IPv6 can fire on an accepted text without a dotted quad behind its colons. -/
theorem isBlockedHost_parsed (h : Ipv6Addr.parse t = some v6)
    (hm : mappedIpv4 (t.toList.map Char.toLower) = none) :
    HostPatterns.isBlockedHost (some t) = isBlockedIpv6 (t.toList.map Char.toLower) := by
  have hcolon := colon_mem h
  have hchars := folded_chars h
  have hname : t.toList.map Char.toLower ∉
      ["localhost.localdomain".toList, "ip6-localhost".toList, "ip6-loopback".toList] := by
    have hl : ∀ n ∈ ["localhost.localdomain".toList, "ip6-localhost".toList, "ip6-loopback".toList], 'l' ∈ n := by
      decide
    intro hn
    exact absurd (hchars 'l' (hl _ hn)) (by decide)
  have hlocal : Allgres.isLocalName (t.toList.map Char.toLower) = false := by
    have hdots : ∀ l ∈ localLabels, '.' ∉ l.toList := by decide
    have hletter : ∀ l ∈ localLabels, (l.toList.any fun c => c ∉ foldedChars) = true := by decide
    rw [Allgres.isLocalName, List.any_eq_false]
    intro l hl hlast
    obtain ⟨c, hc, hfolded⟩ := List.any_eq_true.mp (hletter l hl)
    have hout := of_decide_eq_true hfolded
    rcases (splitOn_getLast (hdots l hl) _).mp (of_decide_eq_true hlast) with heq | ⟨a, heq⟩
    · exact hout (hchars c (heq ▸ hc))
    · exact hout (hchars c (by rw [heq]; simp [hc]))
  have hquad : isDottedQuad (t.toList.map Char.toLower) = false := by
    rw [← Bool.not_eq_true]
    exact fun hq => isDottedQuad_colon hq hcolon
  rw [isBlockedHost_eq, Allgres.isBlockedHost, orEmpty, Option.getD_some, lower_toList,
    if_neg (List.ne_nil_of_mem hcolon), hm]
  simp only [isBlockedLiteral, isOddIpv4_parsed h, hlocal, hquad, decide_eq_false hname, Bool.false_or, Bool.false_and,
    Bool.or_false]

theorem mappedIpv4_text {h q : List Char} (hm : mappedIpv4 h = some q) :
    isDottedQuad q = true ∧ (h = "::ffff:".toList ++ q ∨ h = "::".toList ++ q) := by
  refine ⟨mappedIpv4_some hm, ?_⟩
  rw [← mappedQuad_eq] at hm
  unfold mappedQuad at hm
  split_ifs at hm with hlong hshort
  · obtain ⟨p, rfl, -⟩ := matchesAll_quad.mp hlong
    obtain rfl := Option.some.inj hm
    exact .inl rfl
  · obtain ⟨p, rfl, -⟩ := matchesAll_quad.mp hshort
    obtain rfl := Option.some.inj hm
    exact .inr rfl

theorem quad_below {q : List Char} (hq : isDottedQuad q = true) : ∀ c ∈ q, c.toNat < 65 := by
  have hoctet : ∀ {p : List Char}, isOctet p = true → ∀ c ∈ p, c.toNat < 65 := by
    intro p hp c hc
    simp only [isOctet, Bool.and_eq_true, List.all_eq_true] at hp
    have hrange : 48 ≤ c.toNat ∧ c.toNat ≤ 57 := Char.isDigit_iff_toNat.mp (hp.2 c hc)
    omega
  obtain ⟨a, b, c, d, rfl, ha, hb, hc, hd⟩ := isDottedQuad_iff.mp hq
  intro e he
  simp only [List.mem_append, List.mem_cons] at he
  rcases he with he | rfl | he | rfl | he | rfl | he
  · exact hoctet ha e he
  · decide
  · exact hoctet hb e he
  · decide
  · exact hoctet hc e he
  · decide
  · exact hoctet hd e he

/-- An address that starts with `::` is what is read behind it. -/
theorem parse_colons {u : List Char} (h : Ipv6Addr.parse t = some v6) (ht : t.toList = ':' :: ':' :: u) :
    (Ipv6Parser.readGroups 7 0 u).2.2 = [] ∧
      v6.segments = List.replicate (8 - (Ipv6Parser.readGroups 7 0 u).1.length) 0 ++ (Ipv6Parser.readGroups 7 0 u).1 := by
  rcases Ipv6Parser.readIpv6Addr_some (parse_some h) with ⟨v, hv, hrest, hs⟩ | ⟨ds, v, g, gs, hv, hds, -⟩
  · rw [ht] at hv
    simp only [List.cons.injEq, true_and] at hv
    subst hv
    exact ⟨hrest.symm, hs⟩
  · rw [ht] at hv
    cases ds with
    | nil => cases hds
    | cons c ds =>
      obtain ⟨d, hd, -⟩ := (digitsIn_eq_some hds).2 c List.mem_cons_self
      rw [← (List.cons.inj hv).1] at hd
      cases hd

theorem parse_compatible {q : List Char} (h : Ipv6Addr.parse t = some v6) (hq : isDottedQuad q = true)
    (ht : t.toList = ':' :: ':' :: q) : ∃ v4 : Ipv4Addr, q = v4.text.toList ∧
      v6.segments = [0, 0, 0, 0, 0, 0, Ipv6Parser.fromBeBytes v4.a v4.b, Ipv6Parser.fromBeBytes v4.c v4.d] := by
  obtain ⟨hrest, hs⟩ := parse_colons h ht
  obtain ⟨c, u, rfl, -⟩ := isDottedQuad_head hq
  obtain ⟨v4, htext, hgroups⟩ := Ipv6Parser.readGroups_quad (i := 0) hq (fun inner => Ipv6Parser.readSeparator_zero) nofun hrest
  rw [hgroups] at hs
  exact ⟨v4, htext, hs⟩

theorem toLower_f {c : Char} (hc : c.toLower = 'f') : c = 'f' ∨ c = 'F' := by
  rcases toLower_cases c with h | ⟨hlo, hhi, -⟩
  · exact .inl (h.symm.trans hc)
  · exact char_range (p := fun c => c.toLower = 'f' → c = 'f' ∨ c = 'F') 65 26 (by decide) hlo (by omega) hc

theorem parse_mapped {q : List Char} (h : Ipv6Addr.parse t = some v6) (hq : isDottedQuad q = true)
    (ht : t.toList.map Char.toLower = "::ffff:".toList ++ q) : ∃ v4 : Ipv4Addr, q = v4.text.toList ∧
      v6.segments = [0, 0, 0, 0, 0, 0xffff, Ipv6Parser.fromBeBytes v4.a v4.b, Ipv6Parser.fromBeBytes v4.c v4.d] := by
  obtain ⟨p, r, htext, hp, hr⟩ := List.map_eq_append_iff.mp ht
  obtain rfl := (lower_eq_iff (quad_below hq)).mp hr
  have hp : p.map Char.toLower = [':', ':', 'f', 'f', 'f', 'f', ':'] := hp
  obtain ⟨a, p, rfl, ha, hp⟩ := List.map_eq_cons_iff.mp hp
  obtain ⟨b, p, rfl, hb, hp⟩ := List.map_eq_cons_iff.mp hp
  obtain ⟨f1, p, rfl, h1, hp⟩ := List.map_eq_cons_iff.mp hp
  obtain ⟨f2, p, rfl, h2, hp⟩ := List.map_eq_cons_iff.mp hp
  obtain ⟨f3, p, rfl, h3, hp⟩ := List.map_eq_cons_iff.mp hp
  obtain ⟨f4, p, rfl, h4, hp⟩ := List.map_eq_cons_iff.mp hp
  obtain ⟨c, p, rfl, hc, hp⟩ := List.map_eq_cons_iff.mp hp
  obtain rfl := List.map_eq_nil_iff.mp hp
  obtain rfl := (toLower_colon a).mp ha
  obtain rfl := (toLower_colon b).mp hb
  obtain rfl := (toLower_colon c).mp hc
  have htext : t.toList = ':' :: ':' :: ([f1, f2, f3, f4] ++ ':' :: r) := htext
  obtain ⟨hrest, hs⟩ := parse_colons h htext
  have hnone : Ipv6Parser.readIpv4Addr ([f1, f2, f3, f4] ++ ':' :: r) = none := by
    rcases toLower_f h1 with rfl | rfl <;> rfl
  have hgroup : Ipv6Parser.readGroup ([f1, f2, f3, f4] ++ ':' :: r) = some (0xffff, ':' :: r) := by
    rcases toLower_f h1 with rfl | rfl <;> rcases toLower_f h2 with rfl | rfl <;>
      rcases toLower_f h3 with rfl | rfl <;> rcases toLower_f h4 with rfl | rfl <;> rfl
  have hgroups : Ipv6Parser.readGroups 7 0 ([f1, f2, f3, f4] ++ ':' :: r) =
      (0xffff :: (Ipv6Parser.readGroups 6 1 (':' :: r)).1, (Ipv6Parser.readGroups 6 1 (':' :: r)).2) := by
    rw [Ipv6Parser.readGroups, if_pos (by omega), Ipv6Parser.readSeparator_zero, Ipv6Parser.readSeparator_zero, hnone,
      hgroup]
    rfl
  rw [hgroups] at hrest hs
  have hquad : ∃ v4 : Ipv4Addr, r = v4.text.toList ∧ Ipv6Parser.readGroups 6 1 (':' :: r) =
      ([Ipv6Parser.fromBeBytes v4.a v4.b, Ipv6Parser.fromBeBytes v4.c v4.d], true, []) :=
    Ipv6Parser.readGroups_quad hq (fun inner => rfl) (List.cons_ne_nil ':' r) hrest
  obtain ⟨v4, hv4, hquad⟩ := hquad
  rw [hquad] at hs
  exact ⟨v4, hv4, hs⟩

theorem bytes_of_group (a b : UInt8) :
    highByte (Ipv6Parser.fromBeBytes a b) = a ∧ lowByte (Ipv6Parser.fromBeBytes a b) = b := by
  have ha := a.toNat_lt
  have hb := b.toNat_lt
  have hgroup : (Ipv6Parser.fromBeBytes a b).toNat = a.toNat * 256 + b.toNat := by
    rw [Ipv6Parser.fromBeBytes, UInt16.toNat_ofNat', Nat.mod_eq_of_lt (by omega)]
  constructor
  · rw [← UInt8.toNat_inj, highByte, hgroup, UInt8.toNat_ofNat']
    omega
  · rw [← UInt8.toNat_inj, lowByte, hgroup, UInt8.toNat_ofNat']
    omega

/-- On a mapped text both sides decide of the IPv4 address. -/
theorem agree_mapped {v4 : Ipv4Addr} (hs : v6.segments =
      [0, 0, 0, 0, 0, 0xffff, Ipv6Parser.fromBeBytes v4.a v4.b, Ipv6Parser.fromBeBytes v4.c v4.d]) :
    isBlockedIp (.v6 v6) = isBlockedIpv4 v4 := by
  have hm : v6.toIpv4Mapped = some v4 := by
    refine toIpv4Mapped_iff.mpr ⟨_, _, hs, ?_⟩
    rw [(bytes_of_group v4.a v4.b).1, (bytes_of_group v4.a v4.b).2, (bytes_of_group v4.c v4.d).1,
      (bytes_of_group v4.c v4.d).2]
  simp [isBlockedIp, hm]

theorem fromBeBytes_inj {a b c d : UInt8} : Ipv6Parser.fromBeBytes a b = Ipv6Parser.fromBeBytes c d ↔ a = c ∧ b = d := by
  constructor
  · intro h
    have hhigh := congrArg highByte h
    have hlow := congrArg lowByte h
    rw [(bytes_of_group a b).1, (bytes_of_group c d).1] at hhigh
    rw [(bytes_of_group a b).2, (bytes_of_group c d).2] at hlow
    exact ⟨hhigh, hlow⟩
  · rintro ⟨rfl, rfl⟩
    rfl

/-- Of the compatible addresses the resolver blocks `::` and `::1` alone. -/
theorem isBlockedIp_compatible {v4 : Ipv4Addr} (hs : v6.segments =
      [0, 0, 0, 0, 0, 0, Ipv6Parser.fromBeBytes v4.a v4.b, Ipv6Parser.fromBeBytes v4.c v4.d]) :
    isBlockedIp (.v6 v6) = true ↔ v4 = ⟨0, 0, 0, 0⟩ ∨ v4 = ⟨0, 0, 0, 1⟩ := by
  have hm : v6.toIpv4Mapped = none := by
    rw [Option.eq_none_iff_forall_ne_some]
    intro w hw
    obtain ⟨ab, cd, hm, -⟩ := toIpv4Mapped_iff.mp hw
    rw [hs] at hm
    simp at hm
  obtain ⟨a, b, c, d⟩ := v4
  have hzero : (0 : UInt16) = Ipv6Parser.fromBeBytes 0 0 := rfl
  have hone : (1 : UInt16) = Ipv6Parser.fromBeBytes 0 1 := rfl
  have hgroup : ¬ LocalGroup (UInt16.toNat 0) := by
    unfold LocalGroup
    decide
  have hloopback : v6.isLoopback = true ↔ (⟨a, b, c, d⟩ : Ipv4Addr) = ⟨0, 0, 0, 1⟩ := by
    rw [Ipv6Addr.isLoopback, hs, decide_eq_true_iff, Ipv4Addr.mk.injEq]
    simp only [List.cons.injEq, true_and, and_true, hone]
    rw [hzero, fromBeBytes_inj, fromBeBytes_inj, and_assoc]
  have hunspecified : v6.isUnspecified = true ↔ (⟨a, b, c, d⟩ : Ipv4Addr) = ⟨0, 0, 0, 0⟩ := by
    rw [Ipv6Addr.isUnspecified, hs, decide_eq_true_iff, Ipv4Addr.mk.injEq]
    simp only [List.cons.injEq, true_and, and_true]
    rw [hzero, fromBeBytes_inj, fromBeBytes_inj, and_assoc]
  rw [isBlockedIp_iff, hm, first_eq hs, hloopback, hunspecified]
  simp only [reduceCtorEq, false_and, exists_false, false_or, hgroup, or_false]
  exact or_comm

/-- The texts on which the two blocklists agree. -/
def ListsAgree (t : String) (v6 : Ipv6Addr) : Prop :=
  (∃ v4 : Ipv4Addr, lower t = "::ffff:" ++ v4.text) ∨
    (∃ v4 : Ipv4Addr, t = "::" ++ v4.text ∧ (isBlockedIpv4 v4 = true → v4 = ⟨0, 0, 0, 0⟩ ∨ v4 = ⟨0, 0, 0, 1⟩)) ∨
    t ∈ ["::", "::1"] ∨
    ((∀ v4 : Ipv4Addr, t ≠ "::" ++ v4.text) ∧ v6.isUnspecified = false ∧ v6.isLoopback = false ∧
      ∀ v4, v6.toIpv4Mapped = some v4 → isBlockedIpv4 v4 = false)

theorem isDottedQuad_text (v4 : Ipv4Addr) : isDottedQuad v4.text.toList = true := by
  rw [text_toList]
  exact isDottedQuad_quad (isOctet_byte v4.a) (isOctet_byte v4.b) (isOctet_byte v4.c) (isOctet_byte v4.d)

theorem text_inj {v w : Ipv4Addr} (h : v.text.toList = w.text.toList) : v = w := by
  have hparts := congrArg (splitOn '.') h
  rw [text_toList, text_toList, quad, quad,
    splitOn_quad (isOctet_byte v.a) (isOctet_byte v.b) (isOctet_byte v.c) (isOctet_byte v.d),
    splitOn_quad (isOctet_byte w.a) (isOctet_byte w.b) (isOctet_byte w.c) (isOctet_byte w.d)] at hparts
  simp only [List.cons.injEq, and_true] at hparts
  obtain ⟨ha, hb, hc, hd⟩ := hparts
  obtain ⟨a, b, c, d⟩ := v
  obtain ⟨a', b', c', d'⟩ := w
  rw [Ipv4Addr.mk.injEq]
  exact ⟨UInt8.toNat_inj.mp (decimal_inj ha), UInt8.toNat_inj.mp (decimal_inj hb),
    UInt8.toNat_inj.mp (decimal_inj hc), UInt8.toNat_inj.mp (decimal_inj hd)⟩

/-- With an IPv4 part the guard decides of that part. -/
theorem isBlockedHost_part {v4 : Ipv4Addr}
    (hm : mappedIpv4 (t.toList.map Char.toLower) = some v4.text.toList) :
    HostPatterns.isBlockedHost (some t) = isBlockedIpv4 v4 := by
  rw [isBlockedHost_mapped hm, String.ofList_toList,
    isBlockedHost_quad (isOctet_byte v4.a) (isOctet_byte v4.b) (isOctet_byte v4.c) (isOctet_byte v4.d)
      (text_toList v4)]
  exact blocked_parts v4

theorem compatible_below {q : List Char} (hq : isDottedQuad q = true) : ∀ c ∈ "::".toList ++ q, c.toNat < 65 := by
  have hall : ∀ d ∈ "::".toList, d.toNat < 65 := forall_of_all (by decide)
  intro c hc
  rcases List.mem_append.mp hc with hc | hc
  · exact hall c hc
  · exact quad_below hq c hc

theorem agree_compatible {v4 : Ipv4Addr} (ht : t.toList = "::".toList ++ v4.text.toList) :
    ListsAgree t v6 ↔ (isBlockedIpv4 v4 = true → v4 = ⟨0, 0, 0, 0⟩ ∨ v4 = ⟨0, 0, 0, 1⟩) := by
  have htext : t = "::" ++ v4.text := by
    rw [← String.toList_inj, ht, String.toList_append]
  have hquad := isDottedQuad_text v4
  constructor
  · rintro (⟨w, hw⟩ | ⟨w, hw, hblocked⟩ | hshort | ⟨hno, -⟩)
    · have hfolded := congrArg String.toList hw
      rw [lower_toList, ht, (lower_eq_iff (compatible_below hquad)).mpr rfl, String.toList_append] at hfolded
      have hparts := congrArg mappedIpv4 hfolded
      rw [(mappedIpv4_of_quad hquad).2, (mappedIpv4_of_quad (isDottedQuad_text w)).1] at hparts
      rw [Option.some.inj hparts] at hfolded
      have hlength := congrArg List.length hfolded
      simp at hlength
    · have heq := congrArg String.toList (htext.symm.trans hw)
      rw [String.toList_append, String.toList_append] at heq
      rw [text_inj (List.append_cancel_left heq)]
      exact hblocked
    · simp only [List.mem_cons, List.not_mem_nil, or_false] at hshort
      rcases hshort with rfl | rfl
      · have hnil : [] = v4.text.toList := List.append_cancel_left (show "::".toList ++ [] = _ from ht)
        rw [← hnil] at hquad
        exact absurd hquad (by decide)
      · have hone : ['1'] = v4.text.toList := List.append_cancel_left (show "::".toList ++ ['1'] = _ from ht)
        rw [← hone] at hquad
        exact absurd hquad (by decide)
    · exact absurd htext (hno v4)
  · intro hblocked
    exact .inr (.inl ⟨v4, htext, hblocked⟩)

/-- The rules for IPv6 and the resolver, on a text without an IPv4 part. -/
theorem agree_plain (h : Ipv6Addr.parse t = some v6) (hm : mappedIpv4 (t.toList.map Char.toLower) = none) :
    ListsAgree t v6 ↔ t ∈ ["::", "::1"] ∨ (v6.isUnspecified = false ∧ v6.isLoopback = false ∧
      ∀ v4, v6.toIpv4Mapped = some v4 → isBlockedIpv4 v4 = false) := by
  have hmapped : ∀ v4 : Ipv4Addr, lower t ≠ "::ffff:" ++ v4.text := by
    intro v4 heq
    rw [← lower_toList, heq, String.toList_append, (mappedIpv4_of_quad (isDottedQuad_text v4)).1] at hm
    cases hm
  have hcompatible : ∀ v4 : Ipv4Addr, t ≠ "::" ++ v4.text := by
    rintro v4 rfl
    have hquad := isDottedQuad_text v4
    rw [String.toList_append, (lower_eq_iff (compatible_below hquad)).mpr rfl, (mappedIpv4_of_quad hquad).2] at hm
    cases hm
  constructor
  · rintro (⟨v4, hv⟩ | ⟨v4, hv, -⟩ | hshort | ⟨-, hplain⟩)
    · exact absurd hv (hmapped v4)
    · exact absurd hv (hcompatible v4)
    · exact .inl hshort
    · exact .inr hplain
  · rintro (hshort | hplain)
    · exact .inr (.inr (.inl hshort))
    · exact .inr (.inr (.inr ⟨hcompatible, hplain⟩))

theorem short_blocked (h : Ipv6Addr.parse t = some v6) (ht : t ∈ ["::", "::1"]) :
    v6.isLoopback = true ∨ v6.isUnspecified = true := by
  simp only [List.mem_cons, List.not_mem_nil, or_false] at ht
  rcases ht with rfl | rfl
  · have hparse : (Ipv6Addr.parse "::").map (·.isUnspecified) = some true := by decide
    rw [h] at hparse
    exact .inr (Option.some.inj hparse)
  · have hparse : (Ipv6Addr.parse "::1").map (·.isLoopback) = some true := by decide
    rw [h] at hparse
    exact .inl (Option.some.inj hparse)

/-- The special addresses start with a zero group. -/
theorem plain_of_localGroup (hlocal : LocalGroup v6.first.toNat) :
    v6.isUnspecified = false ∧ v6.isLoopback = false ∧ v6.toIpv4Mapped = none := by
  have hgroup : ∀ {gs : List UInt16}, v6.segments ≠ 0 :: gs := by
    intro gs hs
    rw [first_eq hs] at hlocal
    unfold LocalGroup at hlocal
    exact absurd hlocal (by decide)
  refine ⟨decide_eq_false hgroup, decide_eq_false hgroup, ?_⟩
  rw [Option.eq_none_iff_forall_ne_some]
  intro v4 hv
  obtain ⟨ab, cd, hs, -⟩ := toIpv4Mapped_iff.mp hv
  exact hgroup hs

/-- With an IPv4 part the lists differ just on a compatible text of a blocked address. -/
theorem agree_part {q : List Char} (h : Ipv6Addr.parse t = some v6)
    (hm : mappedIpv4 (t.toList.map Char.toLower) = some q) :
    HostPatterns.isBlockedHost (some t) = isBlockedIp (.v6 v6) ↔ ListsAgree t v6 := by
  obtain ⟨hq, htext | htext⟩ := mappedIpv4_text hm
  · obtain ⟨v4, rfl, hs⟩ := parse_mapped h hq htext
    have hagree : ListsAgree t v6 := by
      refine .inl ⟨v4, ?_⟩
      rw [← String.toList_inj, lower_toList, htext, String.toList_append]
    exact iff_of_true ((isBlockedHost_part hm).trans (agree_mapped hs).symm) hagree
  · have ht := (lower_eq_iff (compatible_below hq)).mp htext
    obtain ⟨v4, rfl, hs⟩ := parse_compatible h hq ht
    rw [agree_compatible ht, isBlockedHost_part hm, Bool.eq_iff_iff, isBlockedIp_compatible hs]
    constructor
    · exact Iff.mp
    · intro hsmall
      refine ⟨hsmall, ?_⟩
      rintro (rfl | rfl) <;> decide

/-- Without one the guard knows the two short texts and the local groups, the resolver all of the address. -/
theorem agree_no_part (h : Ipv6Addr.parse t = some v6) (hm : mappedIpv4 (t.toList.map Char.toLower) = none) :
    HostPatterns.isBlockedHost (some t) = isBlockedIp (.v6 v6) ↔ ListsAgree t v6 := by
  rw [isBlockedHost_parsed h hm, Bool.eq_iff_iff, isBlockedIpv6_parsed h, isBlockedIp_iff, agree_plain h hm]
  by_cases hlocal : LocalGroup v6.first.toNat
  · obtain ⟨hunspecified, hloopback, hfree⟩ := plain_of_localGroup hlocal
    refine iff_of_true (iff_of_true (.inr hlocal) (.inr (.inr (.inr hlocal)))) (.inr ⟨hunspecified, hloopback, ?_⟩)
    intro v4 hv
    rw [hfree] at hv
    cases hv
  · simp only [hlocal, or_false]
    constructor
    · intro heq
      by_cases hs : t ∈ ["::", "::1"]
      · exact .inl hs
      · have hfree := mt heq.mpr hs
        simp only [not_or, Bool.not_eq_true, not_exists, not_and] at hfree
        exact .inr ⟨hfree.2.2, hfree.2.1, hfree.1⟩
    · rintro (hs | ⟨hunspecified, hloopback, hfree⟩)
      · exact iff_of_true hs (.inr (short_blocked h hs))
      · refine iff_of_false ?_ ?_
        · intro hs
          simpa [hunspecified, hloopback] using short_blocked h hs
        · simpa [hunspecified, hloopback] using hfree

/-- The two blocklists agree on an accepted text of an IPv6 address just if it is one of those. -/
theorem isBlockedHost_eq_isBlockedIp_iff (t : String) (v6 : Ipv6Addr) (h : Ipv6Addr.parse t = some v6) :
    HostPatterns.isBlockedHost (some t) = isBlockedIp (.v6 v6) ↔ ListsAgree t v6 := by
  cases hm : mappedIpv4 (t.toList.map Char.toLower) with
  | some q => exact agree_part h hm
  | none => exact agree_no_part h hm

end Texts

theorem mapped_text_agrees : HostPatterns.isBlockedHost (some "::FFFF:10.0.0.1") =
    isBlockedIp (.v6 ⟨[0, 0, 0, 0, 0, 0xffff, 0x0a00, 1], rfl⟩) :=
  (isBlockedHost_eq_isBlockedIp_iff "::FFFF:10.0.0.1" _ (by decide)).mpr (.inl ⟨⟨10, 0, 0, 1⟩, by decide⟩)

/-- The loopback address in full is blocked by the resolver alone. -/
theorem full_loopback_allowed :
    ¬ ∀ (t : String) (v6 : Ipv6Addr), Ipv6Addr.parse t = some v6 →
      HostPatterns.isBlockedHost (some t) = isBlockedIp (.v6 v6) := by
  intro h
  have hagree := h "0:0:0:0:0:0:0:1" ⟨[0, 0, 0, 0, 0, 0, 0, 1], rfl⟩ (by decide)
  rw [isBlockedHost_eq] at hagree
  exact absurd hagree (by decide)

end Allgres
