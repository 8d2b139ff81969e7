import Allgres.Url
import Allgres.Patterns
import Mathlib.Data.List.TakeWhile

/-! `is_blocked_host` with the regular expressions of its source, and its agreement with the scanner that the
URL guards run. -/

namespace Allgres

open Patterns

namespace HostPatterns

abbrev Pattern := RegularExpression Char

/-- `[0-9]`. -/
def digit : Pattern := oneOf "0123456789".toList

/-- `[0-9a-f]`. -/
def hexDigit : Pattern := oneOf "0123456789abcdef".toList

/-- `[0-7]`. -/
def octalDigit : Pattern := oneOf "01234567".toList

/-- `\.`. -/
def dot : Pattern := .char '.'

/-- `[0-9]{1,3}(\.[0-9]{1,3}){3}`. -/
def dottedQuad : Pattern :=
  between digit 1 3 * (dot * between digit 1 3) ^ 3

/-- The second group of `^::(ffff:)?([0-9]{1,3}(\.[0-9]{1,3}){3})$`. -/
def mappedQuad (h : List Char) : Option (List Char) :=
  if matchesAll (literal "::ffff:".toList * dottedQuad) h then some (h.drop 7)
  else if matchesAll (literal "::".toList * dottedQuad) h then some (h.drop 2)
  else none

/-- `^[0-9]+$`, `^0x[0-9a-f]+$` or `^0[0-7]*(\.|$)`. -/
def isOddSpelling (h : List Char) : Bool :=
  matchesAll (oneOrMore digit) h ||
    matchesAll (literal "0x".toList * oneOrMore hexDigit) h ||
    (matchesStart (.char '0' * (.star octalDigit * dot)) h || matchesAll (.char '0' * .star octalDigit) h)

/-- `(local|localhost|internal|intranet|corp|home|lan)`. -/
def localLabel : Pattern :=
  anyOf (localLabels.map fun l => literal l.toList)

/-- `(^|\.)(local|localhost|internal|intranet|corp|home|lan)$`. -/
def isLocalName (h : List Char) : Bool :=
  matchesAll localLabel h || matchesEnd (dot * localLabel) h

/-- `^f[cd][0-9a-f]{2}:`. -/
def isUniqueLocal (h : List Char) : Bool :=
  matchesStart (.char 'f' * (oneOf "cd".toList * (hexDigit ^ 2 * .char ':'))) h

/-- `^fe[89ab][0-9a-f]:`. -/
def isLinkLocal (h : List Char) : Bool :=
  matchesStart (literal "fe".toList * (oneOf "89ab".toList * (hexDigit * .char ':'))) h

/-- `r\.q`. -/
def label (r q : Pattern) : Pattern :=
  r * (dot * q)

/-- `(0|10|127)`. -/
def thisPrivateLoopback : Pattern :=
  anyOf (["0", "10", "127"].map fun l => literal l.toList)

/-- `(1[6-9]|2[0-9]|3[01])`. -/
def from16To31 : Pattern :=
  anyOf [.char '1' * oneOf "6789".toList, .char '2' * digit, .char '3' * oneOf "01".toList]

/-- `(6[4-9]|[7-9][0-9]|1[01][0-9]|12[0-7])`. -/
def from64To127 : Pattern :=
  anyOf [.char '6' * oneOf "456789".toList, oneOf "789".toList * digit,
    .char '1' * (oneOf "01".toList * digit), literal "12".toList * octalDigit]

/-- `(22[4-9]|2[3-5][0-9])`. -/
def from224 : Pattern :=
  anyOf [literal "22".toList * oneOf "456789".toList, .char '2' * (oneOf "345".toList * digit)]

/-- The ranges of the dotted quads. -/
def isBlockedRange (h : List Char) : Bool :=
  matchesStart (label thisPrivateLoopback 1) h ||
    matchesStart (label (literal "169".toList) (label (literal "254".toList) 1)) h ||
    matchesStart (label (literal "172".toList) (label from16To31 1)) h ||
    matchesStart (label (literal "192".toList) (label (literal "168".toList) 1)) h ||
    matchesStart (label (literal "192".toList) (label (literal "0".toList) (label (oneOf "02".toList) 1))) h ||
    matchesStart (label (literal "198".toList) (label (.char '1' * oneOf "89".toList) 1)) h ||
    matchesStart (label (literal "100".toList) (label from64To127 1)) h ||
    matchesStart (label from224 1) h ||
    h = "255.255.255.255".toList

/-- What `is_blocked_host` decides of a text that is no mapped address. -/
def isBlockedText (h : List Char) : Bool :=
  if isOddSpelling h then true
  else if h ∈ ["localhost".toList, "localhost.localdomain".toList, "ip6-localhost".toList,
    "ip6-loopback".toList] then true
  else if isLocalName h then true
  else if h ∈ ["::".toList, "::1".toList] then true
  else if isUniqueLocal h then true
  else if isLinkLocal h then true
  else if matchesAll dottedQuad h then isBlockedRange h
  else false

theorem mappedQuad_length {h v4 : List Char} (hv : mappedQuad h = some v4) : v4.length < h.length := by
  unfold mappedQuad at hv
  split at hv
  · rename_i hm
    obtain ⟨a, ha, b, -, rfl⟩ := mem_mul.mp (matchesAll_iff.mp hm)
    obtain rfl := mem_literal.mp ha
    obtain rfl := Option.some.inj hv
    simp only [List.length_drop, List.length_append, String.length_toList]
    have hliteral : 0 < "::ffff:".length := by decide
    omega
  · split at hv
    · rename_i hm
      obtain ⟨a, ha, b, -, rfl⟩ := mem_mul.mp (matchesAll_iff.mp hm)
      obtain rfl := mem_literal.mp ha
      obtain rfl := Option.some.inj hv
      simp only [List.length_drop, List.length_append, String.length_toList]
      have hliteral : 0 < "::".length := by decide
      omega
    · cases hv

/-- The text is `lower(coalesce(p_host, ''))` of the call, and the inner call folds its text again. -/
def isBlocked (host : List Char) : Bool :=
  let h := host.map Char.toLower
  if h = [] then true
  else match _hv : mappedQuad h with
    | some v4 => isBlocked v4
    | none => isBlockedText h
termination_by host.length
decreasing_by simpa [h] using mappedQuad_length _hv

def isBlockedHost (host : Option String) : Bool :=
  isBlocked (orEmpty host).toList

/-- What holds of the characters of a range of codes. -/
theorem char_range {p : Char → Prop} (lo n : Nat) (hall : ∀ k ∈ List.range' lo n, p (Char.ofNat k)) {c : Char}
    (hlo : lo ≤ c.toNat) (hhi : c.toNat < lo + n) : p c := by
  have hc := hall c.toNat (List.mem_range'_1.mpr ⟨hlo, hhi⟩)
  rwa [Char.ofNat_toNat] at hc

theorem forall_of_all {p : Char → Prop} [DecidablePred p] {cs : List Char} (h : cs.all (fun c => decide (p c)) = true) :
    ∀ c ∈ cs, p c := by
  simpa using h

theorem mem_digits {c : Char} : c ∈ "0123456789".toList ↔ c.isDigit = true := by
  constructor
  · intro h
    have hall : ∀ d ∈ "0123456789".toList, d.isDigit = true := forall_of_all (by decide)
    exact hall c h
  · intro h
    have hrange : 48 ≤ c.toNat ∧ c.toNat ≤ 57 := Char.isDigit_iff_toNat.mp h
    exact char_range (p := (· ∈ "0123456789".toList)) 48 10 (by decide) hrange.1 (by omega)

theorem mem_hexDigits {c : Char} : c ∈ "0123456789abcdef".toList ↔ isLowerHex c = true := by
  constructor
  · intro h
    have hall : ∀ d ∈ "0123456789abcdef".toList, isLowerHex d = true := forall_of_all (by decide)
    exact hall c h
  · intro h
    simp only [isLowerHex, Bool.or_eq_true, Bool.and_eq_true, decide_eq_true_eq] at h
    rcases h with h | h
    · exact List.mem_append_left "abcdef".toList (mem_digits.mpr h)
    · have hrange : 97 ≤ c.toNat ∧ c.toNat ≤ 102 := h
      exact char_range (p := (· ∈ "0123456789abcdef".toList)) 97 6 (by decide) hrange.1 (by omega)

theorem mem_octalDigits {c : Char} : c ∈ "01234567".toList ↔ ('0' ≤ c ∧ c ≤ '7') := by
  constructor
  · intro h
    have hall : ∀ d ∈ "01234567".toList, '0' ≤ d ∧ d ≤ '7' := forall_of_all (by decide)
    exact hall c h
  · intro h
    have hrange : 48 ≤ c.toNat ∧ c.toNat ≤ 55 := h
    exact char_range (p := (· ∈ "01234567".toList)) 48 8 (by decide) hrange.1 (by omega)

theorem mem_octet {x : List Char} : x ∈ (between digit 1 3).matches' ↔ isOctet x = true := by
  unfold digit
  rw [mem_between_oneOf (by omega)]
  simp only [isOctet, mem_digits, Bool.and_eq_true, decide_eq_true_eq, List.all_eq_true, and_assoc]

theorem splitOn_of_notMem {c : Char} {a : List Char} (h : c ∉ a) : splitOn c a = [a] := by
  induction a with
  | nil => rfl
  | cons d a ih =>
    simp only [List.mem_cons, not_or] at h
    obtain ⟨hd, ha⟩ := h
    rw [splitOn, ih ha]
    exact if_neg (Ne.symm hd)

theorem splitOn_append_cons {c : Char} {a u : List Char} (h : c ∉ a) :
    splitOn c (a ++ c :: u) = a :: splitOn c u := by
  have hne : ∀ s, splitOn c s ≠ [] := by
    intro s
    cases s with
    | nil => simp [splitOn]
    | cons d s =>
      rw [splitOn]
      split
      · simp
      · split <;> simp
  induction a with
  | nil =>
    obtain ⟨p, ps, hp⟩ := List.exists_cons_of_ne_nil (hne u)
    simp [splitOn, hp]
  | cons d a ih =>
    simp only [List.mem_cons, not_or] at h
    obtain ⟨hd, ha⟩ := h
    rw [List.cons_append, splitOn, ih ha]
    exact if_neg (Ne.symm hd)

/-- The first part of a text, and what the separator leaves of it. -/
theorem splitOn_cases (c : Char) (s : List Char) :
    (c ∉ s ∧ splitOn c s = [s]) ∨
      ∃ a u, s = a ++ c :: u ∧ c ∉ a ∧ splitOn c s = a :: splitOn c u := by
  by_cases h : c ∈ s
  · obtain ⟨a, u, rfl, ha⟩ := List.eq_append_cons_of_mem h
    exact .inr ⟨a, u, rfl, ha, splitOn_append_cons ha⟩
  · exact .inl ⟨h, splitOn_of_notMem h⟩

theorem splitOn_ne_nil (c : Char) (s : List Char) : splitOn c s ≠ [] := by
  rcases splitOn_cases c s with ⟨-, h⟩ | ⟨a, u, -, -, h⟩ <;> simp [h]

theorem isOctet_dot {x : List Char} (h : isOctet x = true) : '.' ∉ x := by
  intro hm
  simp only [isOctet, Bool.and_eq_true, List.all_eq_true] at h
  exact absurd (h.2 '.' hm) (by decide)

theorem isDottedQuad_iff {h : List Char} :
    isDottedQuad h = true ↔ ∃ a b c d, h = a ++ '.' :: (b ++ '.' :: (c ++ '.' :: d)) ∧
      isOctet a = true ∧ isOctet b = true ∧ isOctet c = true ∧ isOctet d = true := by
  constructor
  · intro hq
    simp only [isDottedQuad, Bool.and_eq_true, decide_eq_true_eq] at hq
    obtain ⟨hlength, hall⟩ := hq
    rcases splitOn_cases '.' h with ⟨-, h1⟩ | ⟨a, u, rfl, -, h1⟩
    · simp [h1] at hlength
    rcases splitOn_cases '.' u with ⟨-, h2⟩ | ⟨b, v, rfl, -, h2⟩
    · simp [h1, h2] at hlength
    rcases splitOn_cases '.' v with ⟨-, h3⟩ | ⟨c, w, rfl, -, h3⟩
    · simp [h1, h2, h3] at hlength
    rcases splitOn_cases '.' w with ⟨-, h4⟩ | ⟨d, x, rfl, -, h4⟩
    · rw [h1, h2, h3, h4] at hall
      simp only [List.all_cons, List.all_nil, Bool.and_eq_true, and_true] at hall
      exact ⟨a, b, c, w, rfl, hall⟩
    · simp [h1, h2, h3, h4, splitOn_ne_nil '.' x] at hlength
  · rintro ⟨a, b, c, d, rfl, ha, hb, hc, hd⟩
    rw [isDottedQuad, splitOn_append_cons (isOctet_dot ha), splitOn_append_cons (isOctet_dot hb),
      splitOn_append_cons (isOctet_dot hc), splitOn_of_notMem (isOctet_dot hd)]
    simp [ha, hb, hc, hd]

theorem splitOn_quad {a b c d : List Char} (ha : isOctet a = true) (hb : isOctet b = true)
    (hc : isOctet c = true) (hd : isOctet d = true) :
    splitOn '.' (a ++ '.' :: (b ++ '.' :: (c ++ '.' :: d))) = [a, b, c, d] := by
  rw [splitOn_append_cons (isOctet_dot ha), splitOn_append_cons (isOctet_dot hb),
    splitOn_append_cons (isOctet_dot hc), splitOn_of_notMem (isOctet_dot hd)]

theorem mem_dot_octet {x : List Char} :
    x ∈ (dot * between digit 1 3).matches' ↔ ∃ b, isOctet b = true ∧ x = '.' :: b := by
  rw [mem_mul]
  constructor
  · rintro ⟨_, rfl, b, hb, rfl⟩
    exact ⟨b, mem_octet.mp hb, rfl⟩
  · rintro ⟨b, hb, rfl⟩
    exact ⟨['.'], rfl, b, mem_octet.mpr hb, rfl⟩

theorem mem_dottedQuad {h : List Char} : h ∈ dottedQuad.matches' ↔ isDottedQuad h = true := by
  rw [isDottedQuad_iff, dottedQuad, mem_mul]
  simp only [mem_pow_succ, mem_pow_zero, mem_octet, mem_dot_octet]
  constructor
  · rintro ⟨a, ha, _, ⟨_, ⟨b, hb, rfl⟩, _, ⟨_, ⟨c, hc, rfl⟩, _, ⟨_, ⟨d, hd, rfl⟩, _, rfl, rfl⟩, rfl⟩, rfl⟩, rfl⟩
    exact ⟨a, b, c, d, by simp, ha, hb, hc, hd⟩
  · rintro ⟨a, b, c, d, rfl, ha, hb, hc, hd⟩
    exact ⟨a, ha, _, ⟨_, ⟨b, hb, rfl⟩, _, ⟨_, ⟨c, hc, rfl⟩, _, ⟨_, ⟨d, hd, rfl⟩, _, rfl, rfl⟩, rfl⟩, rfl⟩, by simp⟩

theorem matchesAll_quad {l h : List Char} :
    matchesAll (literal l * dottedQuad) h = true ↔ ∃ q, h = l ++ q ∧ isDottedQuad q = true := by
  rw [matchesAll_iff, mem_mul]
  constructor
  · rintro ⟨a, ha, q, hq, rfl⟩
    exact ⟨q, by rw [mem_literal.mp ha], mem_dottedQuad.mp hq⟩
  · rintro ⟨q, rfl, hq⟩
    exact ⟨l, mem_literal.mpr rfl, q, mem_dottedQuad.mpr hq, rfl⟩

theorem isDottedQuad_head {h : List Char} (hq : isDottedQuad h = true) : ∃ c t, h = c :: t ∧ c.isDigit = true := by
  obtain ⟨a, b, c, d, rfl, ha, -⟩ := isDottedQuad_iff.mp hq
  simp only [isOctet, Bool.and_eq_true, decide_eq_true_eq, List.all_eq_true] at ha
  cases a with
  | nil => simp at ha
  | cons e a => exact ⟨e, _, rfl, ha.2 e List.mem_cons_self⟩

theorem mappedIpv4_of_quad {q : List Char} (hq : isDottedQuad q = true) :
    mappedIpv4 ("::ffff:".toList ++ q) = some q ∧ mappedIpv4 ("::".toList ++ q) = some q := by
  obtain ⟨c, t, rfl, hc⟩ := isDottedQuad_head hq
  have hne : c ≠ 'f' := by
    rintro rfl
    exact absurd hc (by decide)
  constructor
  · simp [mappedIpv4, hq]
  · simp [mappedIpv4, hq, Ne.symm hne]

theorem mappedQuad_eq (h : List Char) : mappedQuad h = mappedIpv4 h := by
  unfold mappedQuad
  by_cases hlong : matchesAll (literal "::ffff:".toList * dottedQuad) h = true
  · obtain ⟨q, rfl, hq⟩ := matchesAll_quad.mp hlong
    rw [if_pos hlong]
    exact (mappedIpv4_of_quad hq).1.symm
  rw [if_neg hlong]
  by_cases hshort : matchesAll (literal "::".toList * dottedQuad) h = true
  · obtain ⟨q, rfl, hq⟩ := matchesAll_quad.mp hshort
    rw [if_pos hshort]
    exact (mappedIpv4_of_quad hq).2.symm
  · rw [if_neg hshort]
    unfold mappedIpv4
    split
    · rename_i rest
      by_cases hpre : "ffff:".toList.isPrefixOf rest = true
      · obtain ⟨q, rfl⟩ := List.isPrefixOf_iff_prefix.mp hpre
        have hnot : isDottedQuad q ≠ true := fun hq => hlong (matchesAll_quad.mpr ⟨q, rfl, hq⟩)
        simp [hnot]
      · have hnot : isDottedQuad rest ≠ true := fun hq => hshort (matchesAll_quad.mpr ⟨rest, rfl, hq⟩)
        simp only [hpre, Bool.false_eq_true, if_false, hnot]
    · rfl

theorem takeWhile_octal {h : List Char} :
    (matchesStart (.star octalDigit * dot) h || matchesAll (.star octalDigit) h) = true ↔
      (h.dropWhile fun c => '0' ≤ c && c ≤ '7').head?.all (· == '.') = true := by
  have hstar : ∀ x, x ∈ (RegularExpression.star octalDigit).matches' ↔ ∀ c ∈ x, '0' ≤ c ∧ c ≤ '7' := by
    intro x
    unfold octalDigit
    simp only [mem_star_oneOf, mem_octalDigits]
  rw [Bool.or_eq_true, matchesStart_iff, matchesAll_iff, hstar]
  constructor
  · rintro (⟨_, u, rfl, hmul⟩ | hall)
    · obtain ⟨t, ht, _, rfl, rfl⟩ := mem_mul.mp hmul
      rw [List.append_assoc, List.dropWhile_append_of_pos (by simpa using (hstar t).mp ht)]
      simp
    · have hnil : h.dropWhile (fun c => '0' ≤ c && c ≤ '7') = [] := by
        rw [List.dropWhile_eq_nil_iff]
        simpa using hall
      rw [hnil]
      rfl
  · intro hhead
    have hsplit := List.takeWhile_append_dropWhile (p := fun c : Char => '0' ≤ c && c ≤ '7') (l := h)
    have htake : ∀ c ∈ h.takeWhile (fun c => '0' ≤ c && c ≤ '7'), '0' ≤ c ∧ c ≤ '7' := by
      intro c hc
      simpa using List.mem_takeWhile_imp hc
    cases hdrop : h.dropWhile fun c => '0' ≤ c && c ≤ '7' with
    | nil =>
      rw [hdrop, List.append_nil] at hsplit
      rw [hsplit] at htake
      exact .inr htake
    | cons c u =>
      rw [hdrop] at hhead hsplit
      obtain rfl : c = '.' := by simpa using hhead
      refine .inl ⟨_, u, ?_, mem_mul.mpr ⟨_, (hstar _).mpr htake, ['.'], rfl, rfl⟩⟩
      simpa using hsplit.symm

/-- The digits behind a leading zero are octal up to a dot or the end. -/
def octalTail (t : List Char) : Bool :=
  (t.dropWhile fun c => '0' ≤ c && c ≤ '7').head?.all (· == '.')

theorem isOddIpv4_iff {h : List Char} :
    isOddIpv4 h = true ↔ h.all Char.isDigit = true ∨
      (∃ rest, h = '0' :: 'x' :: rest ∧ rest ≠ [] ∧ rest.all isLowerHex = true) ∨
      ∃ rest, h = '0' :: rest ∧ octalTail rest = true := by
  unfold isOddIpv4
  rw [Bool.or_eq_true, Bool.or_eq_true, or_assoc]
  refine or_congr Iff.rfl (or_congr ?_ ?_)
  · split
    · simp
    · rename_i hne
      exact iff_of_false nofun fun ⟨rest, hr, _⟩ => hne rest hr
  · split
    · simp [octalTail]
    · rename_i hne
      exact iff_of_false nofun fun ⟨rest, hr, _⟩ => hne rest hr

theorem isOddSpelling_eq {h : List Char} (hne : h ≠ []) : isOddSpelling h = isOddIpv4 h := by
  rw [Bool.eq_iff_iff, isOddIpv4_iff, isOddSpelling, Bool.or_eq_true, Bool.or_eq_true, or_assoc]
  refine or_congr ?_ (or_congr ?_ ?_)
  · rw [matchesAll_iff, digit, mem_oneOrMore_oneOf, List.all_eq_true]
    simp only [mem_digits]
    exact and_iff_right hne
  · rw [matchesAll_iff, mem_mul, hexDigit]
    simp only [mem_literal, mem_oneOrMore_oneOf, mem_hexDigits, List.all_eq_true]
    constructor
    · rintro ⟨_, rfl, rest, hrest, rfl⟩
      exact ⟨rest, rfl, hrest⟩
    · rintro ⟨rest, rfl, hrest⟩
      exact ⟨_, rfl, rest, hrest, rfl⟩
  · obtain ⟨c, t, rfl⟩ := List.exists_cons_of_ne_nil hne
    rw [Bool.or_eq_true, matchesStart_char, matchesAll_char, ← and_or_left, ← Bool.or_eq_true, takeWhile_octal]
    simp only [List.cons.injEq, octalTail]
    constructor
    · rintro ⟨rfl, ht⟩
      exact ⟨t, ⟨rfl, rfl⟩, ht⟩
    · rintro ⟨_, ⟨rfl, rfl⟩, ht⟩
      exact ⟨rfl, ht⟩

theorem splitOn_getLast {c : Char} {l : List Char} (hl : c ∉ l) (h : List Char) :
    (splitOn c h).getLast? = some l ↔ h = l ∨ ∃ a, h = a ++ c :: l := by
  induction hn : h.length using Nat.strong_induction_on generalizing h with
  | _ n ih =>
    rcases splitOn_cases c h with ⟨hc, hs⟩ | ⟨a, u, rfl, ha, hs⟩
    · rw [hs]
      simp only [List.getLast?_singleton, Option.some.injEq]
      constructor
      · exact .inl
      · rintro (rfl | ⟨a, rfl⟩)
        · rfl
        · simp at hc
    · have hu := ih u.length (by simp at hn; omega) u rfl
      obtain ⟨p, ps, hp⟩ := List.exists_cons_of_ne_nil (splitOn_ne_nil c u)
      rw [hs, hp, List.getLast?_cons_cons, ← hp, hu]
      constructor
      · rintro (rfl | ⟨b, rfl⟩)
        · exact .inr ⟨a, rfl⟩
        · exact .inr ⟨a ++ c :: b, by simp⟩
      · rintro (rfl | ⟨b, heq⟩)
        · simp at hl
        · rcases List.append_eq_append_iff.mp heq with ⟨d, rfl, hd⟩ | ⟨d, rfl, hd⟩
          · cases d with
            | nil => simp_all
            | cons e d =>
              simp only [List.cons_append, List.cons.injEq] at hd
              exact .inr ⟨d, hd.2⟩
          · cases d with
            | nil => simp_all
            | cons e d => simp_all

theorem isLocalName_eq (h : List Char) : isLocalName h = Allgres.isLocalName h := by
  have hdots : ∀ l ∈ localLabels, '.' ∉ l.toList := by decide
  rw [Bool.eq_iff_iff, isLocalName, Allgres.isLocalName, Bool.or_eq_true, matchesAll_iff, matchesEnd_iff,
    List.any_eq_true]
  have hlabel : ∀ x, x ∈ localLabel.matches' ↔ ∃ l ∈ localLabels, x = l.toList := by
    intro x
    rw [localLabel, mem_anyOf]
    simp only [List.mem_map, exists_exists_and_eq_and, mem_literal]
  simp only [dot, mem_char_mul, hlabel]
  constructor
  · rintro (⟨l, hl, rfl⟩ | ⟨t, _, rfl, _, ⟨l, hl, rfl⟩, rfl⟩)
    · exact ⟨l, hl, decide_eq_true ((splitOn_getLast (hdots l hl) _).mpr (.inl rfl))⟩
    · exact ⟨l, hl, decide_eq_true ((splitOn_getLast (hdots l hl) _).mpr (.inr ⟨t, rfl⟩))⟩
  · rintro ⟨l, hl, hlast⟩
    rcases (splitOn_getLast (hdots l hl) h).mp (of_decide_eq_true hlast) with rfl | ⟨t, rfl⟩
    · exact .inl ⟨l, hl, rfl⟩
    · exact .inr ⟨t, _, rfl, _, ⟨l, hl, rfl⟩, rfl⟩

/-- The decimal texts of a range. -/
def texts (lo hi : Nat) : List (List Char) :=
  (List.range' lo (hi + 1 - lo)).map fun n => (toString n).toList

theorem octetIn_iff {lo hi : Nat} {a : List Char} : octetIn lo hi a = true ↔ a ∈ texts lo hi := by
  simp [octetIn, texts]

theorem mem_texts {r : Pattern} {ts : List (List Char)} (hfree : starFree r = true)
    (hsub : ∀ x ∈ words r, x ∈ ts) (hsup : ∀ x ∈ ts, x ∈ words r) (a : List Char) : a ∈ r.matches' ↔ a ∈ ts := by
  rw [← mem_words hfree]
  exact ⟨hsub a, hsup a⟩

theorem isUniqueLocal_iff {h : List Char} :
    isUniqueLocal h = true ↔ ∃ a b c t, h = 'f' :: a :: b :: c :: ':' :: t ∧ (a = 'c' ∨ a = 'd') ∧
      isLowerHex b = true ∧ isLowerHex c = true := by
  rw [isUniqueLocal, matchesStart_iff]
  simp only [hexDigit, mem_mul, mem_oneOf, mem_pow_oneOf, mem_char, mem_hexDigits]
  constructor
  · rintro ⟨_, t, rfl, _, rfl, _, ⟨_, ⟨a, ha, rfl⟩, _, ⟨x, ⟨hlength, hx⟩, _, rfl, rfl⟩, rfl⟩, rfl⟩
    obtain ⟨b, c, rfl⟩ := List.length_eq_two.mp hlength
    exact ⟨a, b, c, t, rfl, by simpa using ha, hx b (by simp), hx c (by simp)⟩
  · rintro ⟨a, b, c, t, rfl, ha, hb, hc⟩
    exact ⟨_, t, rfl, _, rfl, _, ⟨_, ⟨a, by simpa using ha, rfl⟩, _, ⟨[b, c], ⟨rfl, by simp [hb, hc]⟩, _, rfl, rfl⟩,
      rfl⟩, rfl⟩

theorem isLinkLocal_iff {h : List Char} :
    isLinkLocal h = true ↔ ∃ b c t, h = 'f' :: 'e' :: b :: c :: ':' :: t ∧ b ∈ ['8', '9', 'a', 'b'] ∧
      isLowerHex c = true := by
  rw [isLinkLocal, matchesStart_iff]
  simp only [hexDigit, mem_mul, mem_oneOf, mem_literal, mem_char, mem_hexDigits]
  constructor
  · rintro ⟨_, t, rfl, _, rfl, _, ⟨_, ⟨b, hb, rfl⟩, _, ⟨_, ⟨c, hc, rfl⟩, _, rfl, rfl⟩, rfl⟩, rfl⟩
    exact ⟨b, c, t, rfl, hb, hc⟩
  · rintro ⟨b, c, t, rfl, hb, hc⟩
    exact ⟨_, t, rfl, _, rfl, _, ⟨_, ⟨b, hb, rfl⟩, _, ⟨_, ⟨c, hc, rfl⟩, _, rfl, rfl⟩, rfl⟩, rfl⟩

theorem isBlockedIpv6_eq (h : List Char) :
    isBlockedIpv6 h = (h ∈ ["::".toList, "::1".toList] || isUniqueLocal h || isLinkLocal h) := by
  rw [Bool.eq_iff_iff, Bool.or_eq_true, Bool.or_eq_true, isUniqueLocal_iff, isLinkLocal_iff, decide_eq_true_iff]
  unfold isBlockedIpv6
  split
  · simp
  · simp
  · rename_i b c t
    simp
  · rename_i a b c t hne
    have hae : a ≠ 'e' := fun hae => hne hae
    simp [hae, and_assoc]
  · rename_i hloop hunspecified hlink hunique
    refine iff_of_false nofun ?_
    rintro ((hm | ⟨a, b, c, t, rfl, -⟩) | ⟨b, c, t, rfl, -⟩)
    · rcases List.mem_pair.mp hm with rfl | rfl
      · exact hloop rfl
      · exact hunspecified rfl
    · exact hunique a b c t rfl
    · exact hlink b c t rfl

theorem mem_from64To127 (a : List Char) : a ∈ from64To127.matches' ↔ octetIn 64 127 a = true := by
  rw [octetIn_iff]
  exact mem_texts (by decide) (by decide) (by decide) a

theorem mem_from16To31 (a : List Char) : a ∈ from16To31.matches' ↔ octetIn 16 31 a = true := by
  rw [octetIn_iff]
  exact mem_texts (by decide) (by decide) (by decide) a

theorem mem_from224 (a : List Char) : a ∈ from224.matches' ↔ octetIn 224 259 a = true := by
  rw [octetIn_iff]
  exact mem_texts (by decide) (by decide) (by decide) a

theorem mem_number (n : Nat) (l : String) (hl : toString n = l) (a : List Char) :
    a ∈ (literal l.toList : Pattern).matches' ↔ octetIn n n a = true := by
  rw [mem_literal, octetIn_iff, texts, Nat.add_sub_cancel_left, ← hl]
  simp

theorem texts_dot {lo hi : Nat} : ∀ x ∈ texts lo hi, '.' ∉ x := by
  intro x hx hm
  obtain ⟨n, -, rfl⟩ := List.mem_map.mp hx
  have hm : '.' ∈ Nat.toDigits 10 n := Nat.toList_repr ▸ hm
  exact absurd (Nat.isDigit_of_mem_toDigits (by omega) (by omega) hm) (by decide)

theorem octetIn_dot {lo hi : Nat} {x : List Char} (hx : octetIn lo hi x = true) : '.' ∉ x :=
  texts_dot x (octetIn_iff.mp hx)

/-- One label in front of a dot. -/
theorem matchesStart_label {r q : Pattern} {p : List Char → Bool} (hr : ∀ x, x ∈ r.matches' ↔ p x = true)
    (hp : ∀ x, p x = true → '.' ∉ x) {a : List Char} (ha : '.' ∉ a) (u : List Char) :
    matchesStart (label r q) (a ++ '.' :: u) = (p a && matchesStart q u) := by
  rw [Bool.eq_iff_iff, Bool.and_eq_true, label, dot, matchesStart_field _ ha, hr]
  intro x hx
  exact hp x ((hr x).mp hx)

theorem matchesStart_octet {r q : Pattern} {lo hi : Nat} (hr : ∀ x, x ∈ r.matches' ↔ octetIn lo hi x = true)
    {a : List Char} (ha : '.' ∉ a) (u : List Char) :
    matchesStart (label r q) (a ++ '.' :: u) = (octetIn lo hi a && matchesStart q u) :=
  matchesStart_label hr (fun _ => octetIn_dot) ha u

theorem mem_thisPrivateLoopback (a : List Char) : a ∈ thisPrivateLoopback.matches' ↔
    (octetIn 0 0 a || octetIn 10 10 a || octetIn 127 127 a) = true := by
  simp only [Bool.or_eq_true, octetIn_iff, ← List.mem_append]
  exact mem_texts (by decide) (by decide) (by decide) a

theorem mem_zeroOrTwo (a : List Char) :
    a ∈ (oneOf "02".toList : Pattern).matches' ↔ (octetIn 0 0 a || octetIn 2 2 a) = true := by
  simp only [Bool.or_eq_true, octetIn_iff, ← List.mem_append]
  exact mem_texts (by decide) (by decide) (by decide) a

theorem mem_from18To19 (a : List Char) :
    a ∈ (RegularExpression.char '1' * oneOf "89".toList).matches' ↔ octetIn 18 19 a = true := by
  rw [octetIn_iff]
  exact mem_texts (by decide) (by decide) (by decide) a

theorem isBlockedRange_eq {a b c d : List Char} (ha : '.' ∉ a) (hb : '.' ∉ b) (hc : '.' ∉ c) :
    isBlockedRange (a ++ '.' :: (b ++ '.' :: (c ++ '.' :: d))) = isBlockedQuad [a, b, c, d] := by
  have hbroadcast : decide (a ++ '.' :: (b ++ '.' :: (c ++ '.' :: d)) = "255.255.255.255".toList) = true →
      octetIn 224 259 a = true := by
    intro h
    have heq : a ++ '.' :: (b ++ '.' :: (c ++ '.' :: d)) = "255".toList ++ '.' :: "255.255.255".toList :=
      of_decide_eq_true h
    rw [(append_cons_inj ha (by decide) heq).1]
    decide
  have hloopback : ∀ x, (octetIn 0 0 x || octetIn 10 10 x || octetIn 127 127 x) = true → '.' ∉ x := by
    intro x hx
    rcases (Bool.or_eq_true _ _).mp hx with hx | hx
    · rcases (Bool.or_eq_true _ _).mp hx with hx | hx <;> exact octetIn_dot hx
    · exact octetIn_dot hx
  have hassignment : ∀ x, (octetIn 0 0 x || octetIn 2 2 x) = true → '.' ∉ x := by
    intro x hx
    rcases (Bool.or_eq_true _ _).mp hx with hx | hx <;> exact octetIn_dot hx
  rw [isBlockedRange, matchesStart_label mem_thisPrivateLoopback hloopback ha,
    matchesStart_octet (mem_number 169 "169" rfl) ha, matchesStart_octet (mem_number 254 "254" rfl) hb,
    matchesStart_octet (mem_number 172 "172" rfl) ha, matchesStart_octet mem_from16To31 hb,
    matchesStart_octet (mem_number 192 "192" rfl) ha, matchesStart_octet (mem_number 168 "168" rfl) hb,
    matchesStart_octet (mem_number 192 "192" rfl) ha, matchesStart_octet (mem_number 0 "0" rfl) hb,
    matchesStart_label mem_zeroOrTwo hassignment hc,
    matchesStart_octet (mem_number 198 "198" rfl) ha, matchesStart_octet mem_from18To19 hb,
    matchesStart_octet (mem_number 100 "100" rfl) ha, matchesStart_octet mem_from64To127 hb,
    matchesStart_octet mem_from224 ha]
  simp only [matchesStart_one, Bool.and_true]
  cases h : decide (a ++ '.' :: (b ++ '.' :: (c ++ '.' :: d)) = "255.255.255.255".toList) with
  | false => simp only [Bool.or_false, isBlockedQuad, Bool.and_assoc]
  | true => simp only [isBlockedQuad, hbroadcast h, Bool.or_true]

theorem quadRule_eq (h : List Char) : (matchesAll dottedQuad h && isBlockedRange h) =
    (isDottedQuad h && isBlockedQuad (splitOn '.' h)) := by
  have hshape : matchesAll dottedQuad h = isDottedQuad h := by
    rw [Bool.eq_iff_iff, matchesAll_iff, mem_dottedQuad]
  rw [hshape]
  by_cases hq : isDottedQuad h = true
  · obtain ⟨a, b, c, d, rfl, ha, hb, hc, hd⟩ := isDottedQuad_iff.mp hq
    rw [splitOn_quad ha hb hc hd, isBlockedRange_eq (isOctet_dot ha) (isOctet_dot hb) (isOctet_dot hc)]
  · simp only [hq, Bool.false_and]

theorem isBlockedText_eq {h : List Char} (hne : h ≠ []) : isBlockedText h = isBlockedLiteral h := by
  have hlocalhost : decide (h = "localhost".toList) = true → Allgres.isLocalName h = true := by
    intro hl
    rw [of_decide_eq_true hl]
    decide
  have hnames : decide (h ∈ ["localhost".toList, "localhost.localdomain".toList, "ip6-localhost".toList,
      "ip6-loopback".toList]) = (decide (h = "localhost".toList) ||
        decide (h ∈ ["localhost.localdomain".toList, "ip6-localhost".toList, "ip6-loopback".toList])) := by
    rw [Bool.eq_iff_iff, Bool.or_eq_true, decide_eq_true_iff, decide_eq_true_iff, decide_eq_true_iff, List.mem_cons]
  unfold isBlockedText isBlockedLiteral
  simp only [Bool.if_true_left, Bool.if_false_right, Bool.decide_eq_true, quadRule_eq, isBlockedIpv6_eq,
    isOddSpelling_eq hne, isLocalName_eq, hnames]
  cases hl : decide (h = "localhost".toList) with
  | false => simp only [Bool.false_or, Bool.or_assoc, Bool.or_left_comm]
  | true => simp only [hlocalhost hl, Bool.true_or, Bool.or_true]

theorem toLower_digit {c : Char} (hc : c.isDigit = true) : c.toLower = c := by
  have hall : ∀ d ∈ "0123456789".toList, d.toLower = d := forall_of_all (by decide)
  exact hall c (mem_digits.mpr hc)

theorem isOctet_lower {x : List Char} (hx : isOctet x = true) : x.map Char.toLower = x := by
  simp only [isOctet, Bool.and_eq_true, List.all_eq_true] at hx
  calc x.map Char.toLower = x.map id := List.map_congr_left fun c hc => toLower_digit (hx.2 c hc)
    _ = x := List.map_id x

theorem isDottedQuad_lower {q : List Char} (hq : isDottedQuad q = true) : q.map Char.toLower = q := by
  obtain ⟨a, b, c, d, rfl, ha, hb, hc, hd⟩ := isDottedQuad_iff.mp hq
  have hdot : Char.toLower '.' = '.' := by decide
  simp only [List.map_append, List.map_cons, isOctet_lower ha, isOctet_lower hb, isOctet_lower hc, isOctet_lower hd,
    hdot]

theorem mappedIpv4_some {h v4 : List Char} (hv : mappedIpv4 h = some v4) : isDottedQuad v4 = true := by
  have hguard : ∀ w, (if isDottedQuad w = true then some w else none) = some v4 → isDottedQuad v4 = true := by
    intro w hw
    by_cases hq : isDottedQuad w = true
    · rw [if_pos hq] at hw
      exact Option.some.inj hw ▸ hq
    · rw [if_neg hq] at hw
      cases hw
  unfold mappedIpv4 at hv
  split at hv
  · exact hguard _ hv
  · cases hv

theorem mappedIpv4_quad {q : List Char} (hq : isDottedQuad q = true) : mappedIpv4 q = none := by
  obtain ⟨c, t, rfl, hc⟩ := isDottedQuad_head hq
  unfold mappedIpv4
  split
  · rename_i heq
    simp only [List.cons.injEq] at heq
    rw [heq.1] at hc
    exact absurd hc (by decide)
  · rfl

theorem isBlocked_unmapped {host : List Char} (hne : host.map Char.toLower ≠ [])
    (hnone : mappedIpv4 (host.map Char.toLower) = none) :
    isBlocked host = isBlockedLiteral (host.map Char.toLower) := by
  rw [isBlocked, if_neg hne]
  split
  · rename_i v4 hv
    rw [mappedQuad_eq, hnone] at hv
    cases hv
  · exact isBlockedText_eq hne

/-- A mapped address is judged by its IPv4 part. -/
theorem isBlockedHost_mapped {t : String} {v4 : List Char} (hv : mappedIpv4 (t.toList.map Char.toLower) = some v4) :
    isBlockedHost (some t) = isBlockedHost (some (String.ofList v4)) := by
  have hne : t.toList.map Char.toLower ≠ [] := by
    intro hnil
    rw [hnil] at hv
    cases hv
  simp only [isBlockedHost, orEmpty, Option.getD_some, String.toList_ofList]
  rw [isBlocked, if_neg hne]
  split
  · rename_i w hw
    rw [mappedQuad_eq, hv] at hw
    rw [← Option.some.inj hw]
  · rename_i hw
    rw [mappedQuad_eq, hv] at hw
    cases hw

/-- The regular expressions of `is_blocked_host` and the scanner of the URL guards decide alike. -/
theorem isBlockedHost_eq (host : Option String) : isBlockedHost host = Allgres.isBlockedHost host := by
  rw [isBlockedHost, Allgres.isBlockedHost, lower, String.toList_ofList]
  generalize (orEmpty host).toList = t
  by_cases hne : t.map Char.toLower = []
  · rw [isBlocked, if_pos hne, if_pos hne]
  · rw [if_neg hne]
    cases hv : mappedIpv4 (t.map Char.toLower) with
    | none => exact isBlocked_unmapped hne hv
    | some v4 =>
      have hq := mappedIpv4_some hv
      obtain ⟨c, u, hcu, -⟩ := isDottedQuad_head hq
      have hlower := isDottedQuad_lower hq
      have hinner : isBlocked v4 = isBlockedLiteral v4 := by
        rw [isBlocked_unmapped (by rw [hlower, hcu]; nofun) (by rw [hlower]; exact mappedIpv4_quad hq), hlower]
      have hchars : mappedIpv4 ((String.ofList t).toList.map Char.toLower) = some v4 := by
        rwa [String.toList_ofList]
      have hmapped := isBlockedHost_mapped hchars
      simpa [isBlockedHost, orEmpty, hinner] using hmapped

end HostPatterns

end Allgres
