import Allgres.Ipv4Spellings

/-! The standard library's parser of IPv6 addresses, and what an accepted text looks like. -/

namespace Allgres

open HostPatterns

structure Ipv6Addr where
  segments : List UInt16
  eight : segments.length = 8
deriving DecidableEq

namespace Ipv6Parser

/-- A reader takes characters from the front of the input, or fails and takes none. -/
abbrev Reader (α : Type) := List Char → Option (α × List Char)

/-- `to_digit`. -/
def toDigit (radix : Nat) (c : Char) : Option Nat :=
  (hexDigit c).filter (· < radix)

/-- A number of at most `maxDigits` digits that fits below `bound`. -/
def readNumber (radix maxDigits : Nat) (allowZeroPrefix : Bool) (bound : Nat) : Reader Nat := fun s =>
  let ds := s.takeWhile fun c => (toDigit radix c).isSome
  if maxDigits < ds.length then none
  else if !allowZeroPrefix && s.head? = some '0' && 1 < ds.length then none
  else match digitsIn radix ds with
    | some n => if n < bound then some (n, s.drop ds.length) else none
    | none => none

def readGivenChar (c : Char) : Reader Unit
  | e :: s => if e = c then some ((), s) else none
  | [] => none

/-- The separator stands in front of every item but the first. -/
def readSeparator {α : Type} (sep : Char) (index : Nat) (inner : Reader α) : Reader α := fun s =>
  if 0 < index then (readGivenChar sep s).bind fun r => inner r.2 else inner s

def readOctet : Reader Nat :=
  readNumber 10 3 false 256

def readIpv4Addr : Reader Ipv4Addr := fun s => do
  let a ← readSeparator '.' 0 readOctet s
  let b ← readSeparator '.' 1 readOctet a.2
  let c ← readSeparator '.' 2 readOctet b.2
  let d ← readSeparator '.' 3 readOctet c.2
  some (⟨.ofNat a.1, .ofNat b.1, .ofNat c.1, .ofNat d.1⟩, d.2)

def readGroup : Reader Nat :=
  readNumber 16 4 true 65536

/-- `u16::from_be_bytes`. -/
def fromBeBytes (high low : UInt8) : UInt16 :=
  .ofNat (high.toNat * 256 + low.toNat)

/-- What is read into `left` more groups from the `i`-th on: the groups, whether they end in an IPv4 address, and
the rest of the input. An IPv4 address needs two groups. -/
def readGroups : Nat → Nat → List Char → List UInt16 × Bool × List Char
  | 0, _, s => ([], false, s)
  | left + 1, i, s =>
    match if 0 < left then readSeparator ':' i readIpv4Addr s else none with
    | some (v4, rest) => ([fromBeBytes v4.a v4.b, fromBeBytes v4.c v4.d], true, rest)
    | none => match readSeparator ':' i readGroup s with
      | some (g, rest) =>
        let r := readGroups left (i + 1) rest
        (.ofNat g :: r.1, r.2)
      | none => ([], false, s)

theorem readGroups_length (left i : Nat) (s : List Char) : (readGroups left i s).1.length ≤ left := by
  induction left generalizing i s with
  | zero => simp [readGroups]
  | succ left ih =>
    unfold readGroups
    split
    · rename_i heq
      split at heq
      · simp only [List.length_cons, List.length_nil]
        omega
      · cases heq
    · split
      · simpa using ih (i + 1) _
      · simp

/-- The head and the tail of an address with zeros between them. -/
def concat (head tail : List UInt16) (h : head.length + tail.length ≤ 8) : Ipv6Addr where
  segments := head ++ List.replicate (8 - tail.length - head.length) 0 ++ tail
  eight := by
    simp only [List.length_append, List.length_replicate]
    omega

/-- With `::`, which stands for at least one group. -/
theorem groups_fit (s u : List Char) : (readGroups 8 0 s).1.length +
    (readGroups (8 - ((readGroups 8 0 s).1.length + 1)) 0 u).1.length ≤ 8 := by
  have hhead : (readGroups 8 0 s).1.length ≤ 8 := readGroups_length 8 0 s
  have htail := readGroups_length (8 - ((readGroups 8 0 s).1.length + 1)) 0 u
  omega

/-- Fewer than eight groups go on behind `::`, which stands for at least one. -/
def readIpv6Addr : Reader Ipv6Addr := fun s =>
  let head := readGroups 8 0 s
  if h : head.1.length = 8 then some (⟨head.1, h⟩, head.2.2)
  else if head.2.1 then none
  else match head.2.2 with
    | ':' :: ':' :: u =>
      let tail := readGroups (8 - (head.1.length + 1)) 0 u
      some (concat head.1 tail.1 (groups_fit s u), tail.2.2)
    | _ => none

theorem toDigit_iff {radix : Nat} {c : Char} :
    (toDigit radix c).isSome = true ↔ ∃ d, hexDigit c = some d ∧ d < radix := by
  cases h : hexDigit c with
  | none => simp [toDigit, h]
  | some d => simp [toDigit, h, Option.filter]

/-- A number is a full run of digits. -/
theorem readNumber_some {radix maxDigits bound n : Nat} {allow : Bool} {s rest : List Char}
    (h : readNumber radix maxDigits allow bound s = some (n, rest)) :
    ∃ ds, s = ds ++ rest ∧ digitsIn radix ds = some n ∧ n < bound ∧ ds.length ≤ maxDigits ∧
      (allow = false → isPlainPart ds = true) ∧ rest.head?.all (fun c => !(toDigit radix c).isSome) = true := by
  have hsplit := List.takeWhile_append_dropWhile (p := fun c => (toDigit radix c).isSome) (l := s)
  have hstop := head_dropWhile (fun c => (toDigit radix c).isSome) s
  unfold readNumber at h
  dsimp only at h
  generalize s.takeWhile (fun c => (toDigit radix c).isSome) = ds at h hsplit
  generalize s.dropWhile (fun c => (toDigit radix c).isSome) = tail at hsplit hstop
  subst hsplit
  split_ifs at h with hlong hzero
  cases hds : digitsIn radix ds with
  | none => simp [hds] at h
  | some m =>
    rw [hds] at h
    dsimp only at h
    split_ifs at h with hbound
    rw [List.drop_left] at h
    obtain ⟨rfl, rfl⟩ := by simpa using h
    refine ⟨ds, rfl, hds, hbound, by omega, ?_, hstop⟩
    rintro rfl
    cases ds with
    | nil => cases hds
    | cons c ds =>
      by_cases hc : c = '0'
      · subst hc
        have hnil : ds = [] := by simpa using hzero
        rw [hnil]
        rfl
      · simp [isPlainPart, hc]

section Separators

variable {α : Type} {sep : Char} {index : Nat} {inner : Reader α} {s : List Char} {r : α × List Char}

theorem readSeparator_zero : readSeparator sep 0 inner s = inner s :=
  if_neg (Nat.lt_irrefl 0)

theorem readSeparator_succ (h : readSeparator sep (index + 1) inner s = some r) :
    ∃ u, s = sep :: u ∧ inner u = some r := by
  rw [readSeparator, if_pos (Nat.succ_pos index)] at h
  cases s with
  | nil => cases h
  | cons e u =>
    by_cases he : e = sep
    · subst he
      exact ⟨u, rfl, by simpa [readGivenChar] using h⟩
    · simp [readGivenChar, he] at h

theorem readSeparator_some (h : readSeparator sep index inner s = some r) :
    ∃ w u, s = w ++ u ∧ (∀ c ∈ w, c = sep) ∧ inner u = some r := by
  cases index with
  | zero => exact ⟨[], s, rfl, nofun, readSeparator_zero.symm.trans h⟩
  | succ index =>
    obtain ⟨u, rfl, hu⟩ := readSeparator_succ h
    exact ⟨[sep], u, rfl, by simp, hu⟩

end Separators

theorem readOctet_some {s rest : List Char} {n : Nat} (h : readOctet s = some (n, rest)) :
    s = decimal n ++ rest ∧ n < 256 := by
  obtain ⟨ds, rfl, hds, hn, -, hplain, -⟩ := readNumber_some h
  exact ⟨by rw [digitsIn_plain hds (hplain rfl)], hn⟩

/-- What is read as an IPv4 address is its canonical text. -/
theorem readIpv4Addr_some {s rest : List Char} {v4 : Ipv4Addr} (h : readIpv4Addr s = some (v4, rest)) :
    s = v4.text.toList ++ rest := by
  unfold readIpv4Addr at h
  simp only [Option.bind_eq_bind, Option.bind_eq_some_iff] at h
  obtain ⟨⟨a, s1⟩, h1, ⟨b, s2⟩, h2, ⟨c, s3⟩, h3, ⟨d, s4⟩, h4, heq⟩ := h
  obtain ⟨rfl, rfl⟩ := by simpa using heq
  obtain ⟨rfl, ha⟩ := readOctet_some (readSeparator_zero.symm.trans h1)
  obtain ⟨u, rfl, hu⟩ := readSeparator_succ h2
  obtain ⟨rfl, hb⟩ := readOctet_some hu
  obtain ⟨v, rfl, hv⟩ := readSeparator_succ h3
  obtain ⟨rfl, hc⟩ := readOctet_some hv
  obtain ⟨w, rfl, hw⟩ := readSeparator_succ h4
  obtain ⟨rfl, hd⟩ := readOctet_some hw
  have hoctet : ∀ n < 256, (UInt8.ofNat n).toNat = n := by
    intro n hn
    rw [UInt8.toNat_ofNat', Nat.mod_eq_of_lt hn]
  rw [text_toList, quad, hoctet a ha, hoctet b hb, hoctet c hc, hoctet d hd]
  simp only [List.append_assoc, List.cons_append]

/-- The characters of an IPv6 address. -/
def addressChars : List Char :=
  "0123456789abcdefABCDEF:.".toList

theorem hexDigit_address {c : Char} {d : Nat} (h : hexDigit c = some d) : c ∈ addressChars := by
  have hmem := hexDigit_mem h
  have hall : ∀ e ∈ spellingChars, hexDigit e ≠ none → e ∈ addressChars := forall_of_all (by decide)
  exact hall c hmem (by rw [h]; nofun)

theorem hexDigit_lt {c : Char} {d : Nat} (h : hexDigit c = some d) : d < 16 := by
  have hall : ∀ e ∈ addressChars, (hexDigit e).all (· < 16) = true := forall_of_all (by decide)
  have hc := hall c (hexDigit_address h)
  simpa [h] using hc

theorem text_chars (v4 : Ipv4Addr) : ∀ c ∈ v4.text.toList, c ∈ addressChars := by
  have hdigits : ∀ n, ∀ c ∈ decimal n, c ∈ addressChars := by
    have hall : ∀ d ∈ "0123456789".toList, d ∈ addressChars := forall_of_all (by decide)
    intro n c hc
    exact hall c (mem_digits.mpr (decimal_digits c hc))
  intro c hc
  rw [text_toList] at hc
  simp only [quad, List.mem_append, List.mem_cons] at hc
  rcases hc with hc | rfl | hc | rfl | hc | rfl | hc
  · exact hdigits _ c hc
  · decide
  · exact hdigits _ c hc
  · decide
  · exact hdigits _ c hc
  · decide
  · exact hdigits _ c hc

theorem readGroup_some {s rest : List Char} {n : Nat} (h : readGroup s = some (n, rest)) :
    ∃ ds, s = ds ++ rest ∧ digitsIn 16 ds = some n ∧ n < 65536 ∧ ds.length ≤ 4 ∧
      rest.head?.all (fun c => (hexDigit c).isNone) = true := by
  obtain ⟨ds, rfl, hds, hn, hlength, -, hstop⟩ := readNumber_some h
  refine ⟨ds, rfl, hds, hn, hlength, ?_⟩
  cases rest with
  | nil => rfl
  | cons c rest =>
    cases hc : hexDigit c with
    | none => simp [hc]
    | some d =>
      have hdigit := toDigit_iff.mpr ⟨d, hc, hexDigit_lt hc⟩
      rw [List.head?_cons, Option.all_some, hdigit] at hstop
      cases hstop

/-- The groups are read from the front of the input. -/
theorem readGroups_chars (left i : Nat) (s : List Char) :
    ∃ w, s = w ++ (readGroups left i s).2.2 ∧ ∀ c ∈ w, c ∈ addressChars := by
  induction left generalizing i s with
  | zero => exact ⟨[], rfl, nofun⟩
  | succ left ih =>
    unfold readGroups
    split
    · rename_i v4 rest heq
      split at heq
      · obtain ⟨w, u, rfl, hw, hu⟩ := readSeparator_some heq
        obtain rfl := readIpv4Addr_some hu
        refine ⟨w ++ v4.text.toList, by simp, ?_⟩
        intro c hc
        rcases List.mem_append.mp hc with hc | hc
        · rw [hw c hc]
          decide
        · exact text_chars v4 c hc
      · cases heq
    · split
      · rename_i g rest heq
        obtain ⟨w, u, rfl, hw, hu⟩ := readSeparator_some heq
        obtain ⟨ds, rfl, hds, -⟩ := readGroup_some hu
        obtain ⟨v, hv, hchars⟩ := ih (i + 1) rest
        refine ⟨w ++ ds ++ v, ?_, ?_⟩
        · rw [List.append_assoc, List.append_assoc, ← hv]
        · intro c hc
          simp only [List.mem_append] at hc
          rcases hc with (hc | hc) | hc
          · rw [hw c hc]
            decide
          · obtain ⟨d, hd, -⟩ := (digitsIn_eq_some hds).2 c hc
            exact hexDigit_address hd
          · exact hchars c hc
      · exact ⟨[], rfl, nofun⟩

/-- Behind the first group nothing is read that does not start with the separator. -/
theorem readGroups_stop {left i : Nat} {s : List Char} (hs : s.head?.all (· != ':') = true) :
    readGroups left (i + 1) s = ([], false, s) := by
  have hnone : ∀ {α : Type} (inner : Reader α), readSeparator ':' (i + 1) inner s = none := by
    intro α inner
    cases hr : readSeparator ':' (i + 1) inner s with
    | none => rfl
    | some r =>
      obtain ⟨u, rfl, -⟩ := readSeparator_succ hr
      simp at hs
  cases left with
  | zero => rfl
  | succ left =>
    unfold readGroups
    rw [hnone, hnone]
    simp


theorem hexDigit_of_isDigit {c : Char} (hc : c.isDigit = true) : (hexDigit c).isSome = true := by
  have hall : ∀ d ∈ "0123456789".toList, (hexDigit d).isSome = true := forall_of_all (by decide)
  exact hall c (mem_digits.mpr hc)

/-- A dotted quad is read as an IPv4 address or not to its end. -/
theorem readGroups_quad {left i : Nat} {q s : List Char} (hq : isDottedQuad q = true)
    (hs : ∀ {α : Type} (inner : Reader α), readSeparator ':' i inner s = inner q) (hne : s ≠ [])
    (hrest : (readGroups (left + 2) i s).2.2 = []) :
    ∃ v4 : Ipv4Addr, q = v4.text.toList ∧
      readGroups (left + 2) i s = ([fromBeBytes v4.a v4.b, fromBeBytes v4.c v4.d], true, []) := by
  unfold readGroups at hrest ⊢
  rw [if_pos (Nat.succ_pos left), hs, hs] at *
  cases hv4 : readIpv4Addr q with
  | some r =>
    obtain ⟨v4, rest⟩ := r
    rw [hv4] at hrest
    obtain rfl : rest = [] := hrest
    exact ⟨v4, by simpa using readIpv4Addr_some hv4, rfl⟩
  | none =>
    exfalso
    rw [hv4] at hrest
    cases hg : readGroup q with
    | none =>
      rw [hg] at hrest
      exact hne hrest
    | some r =>
      obtain ⟨g, rest⟩ := r
      rw [hg] at hrest
      obtain ⟨ds, heq, hds, -, -, hstop⟩ := readGroup_some hg
      obtain ⟨a, b, c, d, rfl, ha, -⟩ := isDottedQuad_iff.mp hq
      simp only [isOctet, Bool.and_eq_true, List.all_eq_true] at ha
      have hdigits : ∀ e ∈ ds, (hexDigit e).isSome = true := by
        intro e he
        obtain ⟨k, hk, -⟩ := (digitsIn_eq_some hds).2 e he
        simp [hk]
      have htake := congrArg (List.takeWhile fun e => (hexDigit e).isSome) heq
      rw [takeWhile_stop (fun e he => hexDigit_of_isDigit (ha.2 e he)) rfl,
        takeWhile_stop hdigits (by simpa using hstop)] at htake
      subst htake
      obtain rfl := List.append_cancel_left heq
      have hstopped : readGroups (left + 1) (i + 1) ('.' :: (b ++ '.' :: (c ++ '.' :: d))) = ([], false, _) :=
        readGroups_stop rfl
      dsimp only at hrest
      rw [hstopped] at hrest
      cases hrest

end Ipv6Parser

/-- `Ipv6Addr::from_str`: the whole text is read. -/
def Ipv6Addr.parse (t : String) : Option Ipv6Addr :=
  match Ipv6Parser.readIpv6Addr t.toList with
  | some (v6, []) => some v6
  | _ => none

example : (Ipv6Addr.parse "fe80::1:0:10.2.3.4").map (·.segments) = some [0xfe80, 0, 0, 0, 1, 0, 0xa02, 0x304] := by
  decide

namespace Ipv6Parser

theorem readGroups_first (left : Nat) (s : List Char) :
    ((readGroups (left + 2) 0 s).1.length = 2 ∧ (readGroups (left + 2) 0 s).2.1 = true) ∨
      readGroups (left + 2) 0 s = ([], false, s) ∨
      ∃ ds g rest, s = ds ++ rest ∧ digitsIn 16 ds = some g ∧ g < 65536 ∧ ds.length ≤ 4 ∧
        readGroups (left + 2) 0 s =
          (.ofNat g :: (readGroups (left + 1) 1 rest).1, (readGroups (left + 1) 1 rest).2) := by
  rw [readGroups, if_pos (Nat.succ_pos left), readSeparator_zero, readSeparator_zero]
  cases readIpv4Addr s with
  | some r => exact .inl ⟨rfl, rfl⟩
  | none =>
    cases hg : readGroup s with
    | none => exact .inr (.inl rfl)
    | some r =>
      obtain ⟨g, rest⟩ := r
      obtain ⟨ds, rfl, hds, hlt, hlength, -⟩ := readGroup_some hg
      exact .inr (.inr ⟨ds, g, rest, rfl, hds, hlt, hlength, rfl⟩)

/-- An address starts with `::` or with a group in front of a colon. -/
theorem readIpv6Addr_some {s rest : List Char} {v6 : Ipv6Addr} (h : readIpv6Addr s = some (v6, rest)) :
    (∃ u, s = ':' :: ':' :: u ∧ rest = (readGroups 7 0 u).2.2 ∧
      v6.segments = List.replicate (8 - (readGroups 7 0 u).1.length) 0 ++ (readGroups 7 0 u).1) ∨
    ∃ ds u g gs, s = ds ++ ':' :: u ∧ digitsIn 16 ds = some g ∧ g < 65536 ∧ ds.length ≤ 4 ∧
      v6.segments = .ofNat g :: gs := by
  unfold readIpv6Addr at h
  dsimp only at h
  rcases readGroups_first 6 s with ⟨hlength, hv4⟩ | hnil | ⟨ds, g, t, rfl, hds, hlt, hlength, hcons⟩
  · have htwo : (readGroups 8 0 s).1.length = 2 := hlength
    rw [dif_neg (by rw [htwo]; omega), if_pos hv4] at h
    cases h
  · simp only [hnil] at h
    split at h
    · rename_i h8
      cases h8
    · split at h
      · rename_i hfalse
        cases hfalse
      · split at h
        · rename_i u
          obtain ⟨rfl, rfl⟩ := by simpa using h
          exact .inl ⟨u, rfl, rfl, rfl⟩
        · cases h
  · have hcolon : ∃ u, t = ':' :: u := by
      by_contra hno
      have hstop : readGroups 7 1 t = ([], false, t) := by
        refine readGroups_stop ?_
        cases t with
        | nil => rfl
        | cons c t => simpa using fun hc => hno ⟨t, by rw [hc]⟩
      simp only [hcons, hstop] at h
      split at h
      · rename_i h8
        cases h8
      · split at h
        · rename_i hfalse
          cases hfalse
        · split at h
          · exact hno ⟨_, rfl⟩
          · cases h
    obtain ⟨u, rfl⟩ := hcolon
    refine .inr ⟨ds, u, g, v6.segments.tail, rfl, hds, hlt, hlength, ?_⟩
    simp only [hcons] at h
    split at h
    · obtain rfl := (Prod.mk.inj (Option.some.inj h)).1
      rfl
    · split at h
      · cases h
      · split at h
        · obtain rfl := (Prod.mk.inj (Option.some.inj h)).1
          rfl
        · cases h

/-- All that is read are characters of addresses. -/
theorem readIpv6Addr_chars {s rest : List Char} {v6 : Ipv6Addr} (h : readIpv6Addr s = some (v6, rest)) :
    ∃ w, s = w ++ rest ∧ ∀ c ∈ w, c ∈ addressChars := by
  obtain ⟨w, hw, hchars⟩ := readGroups_chars 8 0 s
  unfold readIpv6Addr at h
  dsimp only at h
  split_ifs at h
  · obtain ⟨-, rfl⟩ := by simpa using h
    exact ⟨w, hw, hchars⟩
  · split at h
    · rename_i u hu
      obtain rfl := (Prod.mk.inj (Option.some.inj h)).2
      obtain ⟨v, hv, hvchars⟩ := readGroups_chars (8 - ((readGroups 8 0 s).1.length + 1)) 0 u
      refine ⟨w ++ ':' :: ':' :: v, ?_, ?_⟩
      · rw [List.append_assoc, List.cons_append, List.cons_append, ← hv, ← hu]
        exact hw
      · intro c hc
        simp only [List.mem_append, List.mem_cons] at hc
        rcases hc with hc | rfl | rfl | hc
        · exact hchars c hc
        · decide
        · decide
        · exact hvchars c hc
    · cases h

end Ipv6Parser

end Allgres
