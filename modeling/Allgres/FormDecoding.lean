import Allgres.ByteSlices
import Allgres.FormBodies
import Mathlib.Data.List.TakeWhile

/-! The parameters a client reads from the query of a URL, by the standard
decoding of forms. -/

namespace Allgres.Urlencoded

open Bytes

/-- The byte of an escape. -/
def escapedByte (a b : Char) : Option Byte :=
  match hexDigit a, hexDigit b with
  | some m, some n => some (UInt8.ofNat (16 * m + n))
  | _, _ => none

def decodeBytes : List Char → List Byte
  | [] => []
  | c :: s =>
    if c = '+' then 32 :: decodeBytes s
    else if c = '%' then match s with
      | [] => [37]
      | [a] => 37 :: decodeBytes [a]
      | a :: b :: t => match escapedByte a b with
        | some v => v :: decodeBytes t
        | none => 37 :: decodeBytes (a :: b :: t)
    else String.utf8EncodeChar c ++ decodeBytes s

def decode (s : List Char) : List Char :=
  lossy none (decodeBytes s)

/-- Name and value of a segment, which falls apart at its first `=`. -/
def readPair (segment : List Char) : List Char × List Char :=
  (decode (segment.takeWhile (· != '=')), decode ((segment.dropWhile (· != '=')).drop 1))

def parse (q : List Char) : List (List Char × List Char) :=
  ((splitChar '&' q).filter (· ≠ [])).map readPair

/-- The text in front of the fragment. -/
def unfragmented (url : List Char) : List Char :=
  url.takeWhile (· != '#')

/-- What stands behind the first `?` of a URL, without the fragment. -/
def query (url : List Char) : List Char :=
  ((unfragmented url).dropWhile (· != '?')).drop 1

/-- Whether an escape stands somewhere in the text. -/
def hasEscape : List Char → Bool
  | [] => false
  | c :: s => (c == '%' && match s with
      | a :: b :: _ => (escapedByte a b).isSome
      | _ => false) || hasEscape s

def plusToBlank (c : Char) : Char :=
  if c = '+' then ' ' else c

section Decoding

theorem hasEscape_of_not_mem {s : List Char} (h : '%' ∉ s) : hasEscape s = false := by
  induction s with
  | nil => rfl
  | cons c s ih =>
    obtain ⟨hc, hs⟩ := not_or.mp fun hm => h (List.mem_cons.mpr hm)
    simp [hasEscape, Ne.symm hc, ih hs]

theorem decodeBytes_cons {c : Char} (hp : c ≠ '+') (hc : c ≠ '%') (s : List Char) :
    decodeBytes (c :: s) = String.utf8EncodeChar c ++ decodeBytes s := by
  match s with
  | [] | [_] | _ :: _ :: _ => simp [decodeBytes, hp, hc]

theorem decodeBytes_plus (s : List Char) : decodeBytes ('+' :: s) = 32 :: decodeBytes s := by
  match s with
  | [] | [_] | _ :: _ :: _ => simp [decodeBytes]

theorem decodeBytes_escape {a b : Char} {v : Byte} (h : escapedByte a b = some v) (t : List Char) :
    decodeBytes ('%' :: a :: b :: t) = v :: decodeBytes t := by
  simp [decodeBytes, h]

theorem decodeBytes_percent {s : List Char}
    (h : ∀ a b t, s = a :: b :: t → escapedByte a b = none) : decodeBytes ('%' :: s) = 37 :: decodeBytes s := by
  match s, h with
  | [], _ => rfl
  | [a], _ => simp [decodeBytes]
  | a :: b :: t, h => rw [decodeBytes, if_neg (by decide), if_pos rfl, h a b t rfl]

/-- The cases of the decoder, one character at a time unless an escape stands there. -/
theorem decodeBytes_step (c : Char) (s : List Char) :
    (∃ a b t v, c = '%' ∧ s = a :: b :: t ∧ escapedByte a b = some v ∧ decodeBytes (c :: s) = v :: decodeBytes t) ∨
      ((c = '%' → ∀ a b t, s = a :: b :: t → escapedByte a b = none) ∧ hasEscape (c :: s) = hasEscape s ∧
        decodeBytes (c :: s) = String.utf8EncodeChar (plusToBlank c) ++ decodeBytes s) := by
  by_cases hp : c = '+'
  · right
    subst hp
    exact ⟨nofun, rfl, decodeBytes_plus s⟩
  by_cases hc : c = '%'
  · subst hc
    match s with
    | [] => exact .inr ⟨nofun, rfl, decodeBytes_percent nofun⟩
    | [a] => exact .inr ⟨nofun, rfl, decodeBytes_percent nofun⟩
    | a :: b :: t =>
      cases hab : escapedByte a b with
      | some v => exact .inl ⟨a, b, t, v, rfl, rfl, hab, decodeBytes_escape hab t⟩
      | none =>
        right
        have hnone : ∀ a' b' t', a :: b :: t = a' :: b' :: t' → escapedByte a' b' = none := by
          intro a' b' t' he
          obtain ⟨rfl, rfl, rfl⟩ : a = a' ∧ b = b' ∧ t = t' := by simpa using he
          exact hab
        exact ⟨fun _ => hnone, by simp [hasEscape, hab], decodeBytes_percent hnone⟩
  · right
    refine ⟨fun h => absurd h hc, by simp [hasEscape, hc], ?_⟩
    rw [decodeBytes_cons hp hc]
    simp [plusToBlank, hp]

theorem decodeBytes_of_not_hasEscape {s : List Char} (h : hasEscape s = false) :
    decodeBytes s = utf8 (s.map plusToBlank) := by
  induction s with
  | nil => rfl
  | cons c s ih =>
    rcases decodeBytes_step c s with ⟨a, b, t, v, rfl, rfl, hv, _⟩ | ⟨_, he, hd⟩
    · simp [hasEscape, hv] at h
    · rw [hd, ih (he ▸ h)]
      rfl

theorem decode_of_not_hasEscape {s : List Char} (h : hasEscape s = false) : decode s = s.map plusToBlank := by
  rw [decode, decodeBytes_of_not_hasEscape h]
  exact chars_utf8 _

end Decoding

section Length

/-- A sequence that goes on with a byte no character starts with. -/
def Continues (p : Partial) : Prop :=
  128 ≤ p.lo ∧ p.hi ≤ 191

theorem continues_of_lead {b : Byte} {p : Partial} (h : lead b = .start p) : Continues p := by
  simp only [lead] at h
  split_ifs at h <;> cases h <;> simp [Continues]

/-- A byte that does not go on with a sequence ends it, and stands for itself. -/
theorem lossy_broken {p : Partial} {b : Byte} (h : ¬ (p.lo ≤ b.toNat ∧ b.toNat ≤ p.hi)) (bs : List Byte) :
    lossy (some p) (b :: bs) = replacement :: lossy none (b :: bs) := by
  simp only [lossy, if_neg h]

theorem lossy_inside {p : Partial} {b : Byte} (h : p.lo ≤ b.toNat ∧ b.toNat ≤ p.hi) (bs : List Byte) :
    lossy (some p) (b :: bs) =
      if p.missing = 1 then Char.ofNat (p.code * 64 + (b.toNat - 128)) :: lossy none bs
      else lossy (some ⟨p.missing - 1, p.code * 64 + (b.toNat - 128), 128, 191⟩) bs := by
  simp only [lossy, if_pos h]

/-- A bound on the number of characters read from the bytes, in the middle of a sequence or not. -/
def Within (n : Nat) (bs : List Byte) : Prop :=
  (lossy none bs).length ≤ n ∧ ∀ p, Continues p → (lossy (some p) bs).length ≤ n + 1

theorem Within.mono {n m : Nat} {bs : List Byte} (h : Within n bs) (hnm : n ≤ m) : Within m bs :=
  ⟨h.1.trans hnm, fun p hp => (h.2 p hp).trans (by omega)⟩

theorem within_nil : Within 0 [] := by
  constructor
  · simp [lossy]
  · intro p _
    simp [lossy]

theorem Within.byte {n : Nat} {bs : List Byte} (h : Within n bs) (b : Byte) : Within (n + 1) (b :: bs) := by
  have hnone : (lossy none (b :: bs)).length ≤ n + 1 := by
    rw [lossy]
    cases hl : lead b with
    | char c => simpa using h.1
    | start p => exact h.2 p (continues_of_lead hl)
    | invalid => simpa using h.1
  refine ⟨hnone, fun p hp => ?_⟩
  by_cases hrange : p.lo ≤ b.toNat ∧ b.toNat ≤ p.hi
  · rw [lossy_inside hrange]
    split
    · simpa using h.1.trans (Nat.le_succ n)
    · exact (h.2 _ ⟨Nat.le_refl _, Nat.le_refl _⟩).trans (by omega)
  · rw [lossy_broken hrange]
    simpa using hnone

theorem Within.char {n : Nat} {bs : List Byte} (h : Within n bs) (c : Char) :
    Within (n + 1) (String.utf8EncodeChar c ++ bs) := by
  by_cases hc : Ascii c
  · rw [encode_ascii hc]
    exact h.byte (ofAscii c)
  · have hnone : (lossy none (String.utf8EncodeChar c ++ bs)).length ≤ n + 1 := by
      rw [lossy_encode]
      simpa using h.1
    refine ⟨hnone, fun p hp => ?_⟩
    obtain ⟨b, ds, he, hb, _⟩ := encode_wide hc
    have hhi := hp.2
    have hrange : ¬ (p.lo ≤ b.toNat ∧ b.toNat ≤ p.hi) := by omega
    rw [he, List.cons_append] at hnone ⊢
    rw [lossy_broken hrange]
    simpa using hnone

theorem within_decodeBytes (s : List Char) : Within s.length (decodeBytes s) := by
  induction hn : s.length using Nat.strongRecOn generalizing s with
  | _ n ih =>
    cases s with
    | nil => exact within_nil.mono (Nat.zero_le n)
    | cons c s =>
      simp only [List.length_cons] at hn
      rcases decodeBytes_step c s with ⟨a, b, t, v, _, rfl, _, hd⟩ | ⟨_, _, hd⟩
      · simp only [List.length_cons] at hn
        have ht := ih t.length (by omega) t rfl
        rw [hd]
        exact (ht.byte v).mono (by omega)
      · have hs := ih s.length (by omega) s rfl
        rw [hd, ← hn]
        exact hs.char (plusToBlank c)

/-- Decoding never makes a text longer, -/
theorem length_decode_le (s : List Char) : (decode s).length ≤ s.length :=
  (within_decodeBytes s).1

theorem within_of_hasEscape {s : List Char} (h : hasEscape s = true) :
    ∃ n, n < s.length ∧ Within n (decodeBytes s) := by
  induction s with
  | nil => simp [hasEscape] at h
  | cons c s ih =>
    rcases decodeBytes_step c s with ⟨a, b, t, v, _, rfl, _, hd⟩ | ⟨_, he, hd⟩
    · refine ⟨t.length + 1, by simp, ?_⟩
      rw [hd]
      exact (within_decodeBytes t).byte v
    · obtain ⟨n, hn, hw⟩ := ih (he ▸ h)
      refine ⟨n + 1, by simpa using hn, ?_⟩
      rw [hd]
      exact hw.char (plusToBlank c)

/-- and an escape makes it shorter. -/
theorem length_decode_lt {s : List Char} (h : hasEscape s = true) : (decode s).length < s.length := by
  obtain ⟨n, hn, hw⟩ := within_of_hasEscape h
  exact Nat.lt_of_le_of_lt hw.1 hn

theorem decode_eq_self_iff {s : List Char} : decode s = s ↔ '+' ∉ s ∧ hasEscape s = false := by
  constructor
  · intro h
    have he : hasEscape s = false := by
      by_contra hne
      have hlt := length_decode_lt (by simpa using hne)
      rw [h] at hlt
      exact Nat.lt_irrefl _ hlt
    refine ⟨fun hm => ?_, he⟩
    rw [← h, decode_of_not_hasEscape he] at hm
    obtain ⟨c, _, hc⟩ := List.mem_map.mp hm
    by_cases hp : c = '+' <;> simp [plusToBlank, hp] at hc
  · rintro ⟨hp, he⟩
    have hfix : ∀ c ∈ s, plusToBlank c = id c := by
      intro c hc
      have hne : c ≠ '+' := fun h => hp (h ▸ hc)
      simp [plusToBlank, hne]
    rw [decode_of_not_hasEscape he, List.map_congr_left hfix, List.map_id]

end Length

section Append

theorem escapedByte_of_not_hex {a b : Char} (h : hexDigit a = none ∨ hexDigit b = none) : escapedByte a b = none := by
  rcases h with h | h
  · simp [escapedByte, h]
  · cases ha : hexDigit a <;> simp [escapedByte, ha, h]

/-- No escape runs over a character that is not a hexadecimal digit. -/
theorem decodeBytes_append {c : Char} (hc : hexDigit c = none) (s t : List Char) :
    decodeBytes (s ++ c :: t) = decodeBytes s ++ decodeBytes (c :: t) := by
  induction hn : s.length using Nat.strongRecOn generalizing s with
  | _ n ih =>
    cases s with
    | nil => simp [decodeBytes]
    | cons d s =>
      simp only [List.length_cons] at hn
      have hs := ih s.length (by omega) s rfl
      rcases decodeBytes_step d s with ⟨a, b, u, v, rfl, rfl, hv, hd⟩ | ⟨hnone, _, hd⟩
      · simp only [List.length_cons] at hn
        have hu := ih u.length (by omega) u rfl
        rw [hd, List.cons_append, List.cons_append, List.cons_append, decodeBytes_escape hv, hu]
        rfl
      · rcases decodeBytes_step d (s ++ c :: t) with ⟨a, b, u, v, hp, hsplit, hv, _⟩ | ⟨_, _, hd'⟩
        · -- an escape that starts in front of the character ends there
          have hpair : escapedByte a b = none := by
            match s, hsplit with
            | [], hsplit => exact escapedByte_of_not_hex (.inl ((List.cons.inj hsplit).1 ▸ hc))
            | [x], hsplit =>
              have htail := (List.cons.inj hsplit).2
              exact escapedByte_of_not_hex (.inr ((List.cons.inj htail).1 ▸ hc))
            | x :: y :: z, hsplit =>
              obtain ⟨rfl, htail⟩ := List.cons.inj hsplit
              obtain ⟨rfl, _⟩ := List.cons.inj htail
              exact hnone hp _ _ z rfl
          rw [hpair] at hv
          exact absurd hv nofun
        · rw [List.cons_append, hd', hs, hd, List.append_assoc]

theorem lossy_append_ascii {b : Byte} (hb : b.toNat < 128) (ds : List Byte) :
    ∀ bs st, (∀ p, st = some p → Continues p) →
      lossy st (bs ++ b :: ds) = lossy st bs ++ lossy none (b :: ds) := by
  have hnothing : ∀ p, none = some p → Continues p := by
    intro p hp
    cases hp
  intro bs
  induction bs with
  | nil =>
    intro st hst
    cases st with
    | none => simp [lossy]
    | some p =>
      have hlo := (hst p rfl).1
      simp [lossy, show ¬ (p.lo ≤ b.toNat ∧ b.toNat ≤ p.hi) by omega]
  | cons d bs ih =>
    have hnone : lossy none (d :: bs ++ b :: ds) = lossy none (d :: bs) ++ lossy none (b :: ds) := by
      rw [List.cons_append, lossy, lossy]
      cases hl : lead d with
      | char c => simp [ih none hnothing]
      | start p =>
        refine ih (some p) fun q hq => ?_
        obtain rfl : p = q := Option.some.inj hq
        exact continues_of_lead hl
      | invalid => simp [ih none hnothing]
    intro st hst
    cases st with
    | none => exact hnone
    | some p =>
      by_cases hrange : p.lo ≤ d.toNat ∧ d.toNat ≤ p.hi
      · rw [List.cons_append, lossy_inside hrange, lossy_inside hrange]
        split
        · simp [ih none hnothing]
        · refine ih _ fun q hq => ?_
          obtain rfl := Option.some.inj hq
          exact ⟨Nat.le_refl _, Nat.le_refl _⟩
      · rw [List.cons_append, lossy_broken hrange, lossy_broken hrange, ← List.cons_append, hnone]
        rfl

/-- Decoding goes on anew at an ASCII character that is part of no escape. -/
theorem decode_append {c : Char} (hc : hexDigit c = none) (hasc : Ascii c) (hne : c ≠ '%') (hp : c ≠ '+')
    (s t : List Char) : decode (s ++ c :: t) = decode s ++ decode (c :: t) := by
  rw [decode, decodeBytes_append hc, decodeBytes_cons hp hne, encode_ascii hasc, List.singleton_append,
    lossy_append_ascii (by rwa [toNat_ofAscii hasc]) _ _ none nofun]
  rw [decode, decode, decodeBytes_cons hp hne, encode_ascii hasc]
  rfl

end Append

section Segments

theorem bne_of_not_mem {d : Char} {u : List Char} (h : d ∉ u) : ∀ c ∈ u, (c != d) = true := by
  intro c hc
  simp only [bne_iff_ne, ne_eq]
  exact fun he => h (he ▸ hc)

theorem splitChar_ne_nil (c : Char) (u : List Char) : splitChar c u ≠ [] := by
  cases u with
  | nil => simp [splitChar]
  | cons d u =>
    rw [splitChar]
    split_ifs
    · simp
    · cases splitChar c u <;> simp

theorem splitChar_join (c : Char) (u v : List Char) :
    splitChar c (u ++ c :: v) = splitChar c u ++ splitChar c v := by
  induction u with
  | nil => simp [splitChar]
  | cons d u ih =>
    by_cases hd : d = c
    · simp [splitChar, hd, ih]
    · rw [List.cons_append, splitChar, if_neg hd, ih, splitChar, if_neg hd]
      cases hu : splitChar c u with
      | nil => exact absurd hu (splitChar_ne_nil c u)
      | cons part parts => rfl

theorem parse_join (u v : List Char) : parse (u ++ '&' :: v) = parse u ++ parse v := by
  simp [parse, splitChar_join]

theorem parse_nil : parse [] = [] := by
  simp [parse, splitChar]

theorem parse_segment {u : List Char} (h : '&' ∉ u) (hne : u ≠ []) : parse u = [readPair u] := by
  simp [parse, splitChar_alone h, hne]

/-- Text behind a query only touches its last segment. -/
theorem exists_last_segment (q : List Char) : ∃ front segment, '&' ∉ segment ∧ (∀ c ∈ segment, c ∈ q) ∧
    ∀ t, parse (q ++ t) = front ++ parse (segment ++ t) := by
  induction hn : q.length using Nat.strongRecOn generalizing q with
  | _ n ih =>
    by_cases hq : '&' ∈ q
    · obtain ⟨u, v, rfl⟩ := List.append_of_mem hq
      have hlt : v.length < n := by
        rw [← hn, List.length_append, List.length_cons]
        omega
      obtain ⟨front, segment, hs, hsub, happ⟩ := ih v.length hlt v rfl
      refine ⟨parse u ++ front, segment, hs, fun c hc => by simp [hsub c hc], fun t => ?_⟩
      rw [List.append_assoc, List.cons_append, parse_join, happ, List.append_assoc]
    · exact ⟨[], q, hq, fun _ hc => hc, fun _ => rfl⟩

theorem readPair_named {name : List Char} (hn : '=' ∉ name) (value : List Char) :
    readPair (name ++ '=' :: value) = (decode name, decode value) := by
  have hname := bne_of_not_mem hn
  rw [readPair, List.takeWhile_append_of_pos hname, List.dropWhile_append_of_pos hname]
  simp

theorem readPair_unnamed {segment : List Char} (hn : '=' ∉ segment) : readPair segment = (decode segment, []) := by
  have hname := bne_of_not_mem hn
  rw [readPair, List.takeWhile_eq_self_iff.mpr hname, List.dropWhile_eq_nil_iff.mpr hname]
  rfl

end Segments

section Fragments

theorem unfragmented_append {u : List Char} (h : '#' ∉ u) (v : List Char) :
    unfragmented (u ++ v) = u ++ unfragmented v := by
  have hu := bne_of_not_mem h
  exact List.takeWhile_append_of_pos hu

theorem unfragmented_of_not_mem {u : List Char} (h : '#' ∉ u) : unfragmented u = u := by
  have := unfragmented_append h []
  simpa [unfragmented] using this

theorem unfragmented_cut {u : List Char} (h : '#' ∉ u) (v : List Char) : unfragmented (u ++ '#' :: v) = u := by
  rw [unfragmented_append h]
  simp [unfragmented]

theorem query_of_mark {u : List Char} (hq : '?' ∉ u) (hf : '#' ∉ u) (v : List Char) :
    query (u ++ '?' :: v) = unfragmented v := by
  have hu := bne_of_not_mem hq
  have hmark : unfragmented ('?' :: v) = '?' :: unfragmented v := by simp [unfragmented]
  rw [query, unfragmented_append hf, hmark, List.dropWhile_append_of_pos hu]
  simp

theorem query_of_no_mark {u : List Char} (hq : '?' ∉ u) (hf : '#' ∉ u) : query u = [] := by
  have hu := bne_of_not_mem hq
  rw [query, unfragmented_of_not_mem hf, List.dropWhile_eq_nil_iff.mpr hu]
  rfl

end Fragments

end Allgres.Urlencoded
