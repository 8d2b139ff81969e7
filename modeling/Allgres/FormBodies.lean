import Allgres.WebRequest
import Mathlib.Data.List.Nodup
import Std.Data.HashMap.Lemmas

/-! Form encoding and the two readers of it: `parse_form_body` decodes both sides of a pair,
`query_param` looks for its key in the text as it stands. -/

namespace Allgres

open Bytes (Byte)

/-- The inner `decode` of `parse_form_body`. -/
def formDecodeBytes : List Byte → List Byte
  | [] => []
  | b :: rest =>
    if b.toNat = 43 then 32 :: formDecodeBytes rest
    else if b.toNat = 37 then
      match rest with
      | x :: y :: tail => match hexPair x y with
        | some v => v :: formDecodeBytes tail
        | none => b :: formDecodeBytes (x :: y :: tail)
      | rest => b :: formDecodeBytes rest
    else b :: formDecodeBytes rest

def formDecode (s : String) : String :=
  Bytes.toStringLossy (formDecodeBytes (Bytes.ofString s))

/-- `body.split('&').filter_map(|pair| pair.split_once('='))`. -/
def formPairs (body : String) : List (String × String) :=
  (splitChar '&' body.toList).filterMap fun kv => splitOnce (String.ofList kv) '='

def parseFormBody (body : String) : Std.HashMap String String :=
  .ofList ((formPairs body).map fun kv => (formDecode kv.1, formDecode kv.2))

theorem queryParam_eq (query key : String) :
    queryParam query key = ((formPairs query).find? (·.1 = key)).map fun kv => percentDecode kv.2 :=
  rfl

section Decoders

theorem percentDecodeBytes_plain {b : Byte} (h : b.toNat ≠ 37) (rest : List Byte) :
    percentDecodeBytes (b :: rest) = (if b.toNat = 43 then 32 else b) :: percentDecodeBytes rest := by
  match rest with
  | [] | [_] | _ :: _ :: _ =>
    simp only [percentDecodeBytes, if_neg h]
    split_ifs <;> rfl

theorem percentDecodeBytes_percent {b : Byte} (h : b.toNat = 37) (rest : List Byte) :
    percentDecodeBytes (b :: rest) = match rest with
      | x :: y :: tail => match hexPair x y with
        | some v => v :: percentDecodeBytes tail
        | none => b :: percentDecodeBytes (x :: y :: tail)
      | rest => b :: percentDecodeBytes rest := by
  match rest with
  | [] | [_] =>
    rw [percentDecodeBytes, if_pos h]
    nofun
  | x :: y :: tail =>
    cases hxy : hexPair x y <;> simp [percentDecodeBytes, h, hxy]

theorem formDecodeBytes_eq : ∀ bs : List Byte, formDecodeBytes bs = percentDecodeBytes bs
  | [] => by rw [formDecodeBytes, percentDecodeBytes]
  | b :: rest => by
    have ih := formDecodeBytes_eq rest
    by_cases hp : b.toNat = 37
    · have hs : ¬b.toNat = 43 := by omega
      rw [percentDecodeBytes_percent hp]
      match rest with
      | [] | [_] =>
        rw [formDecodeBytes, if_neg hs, if_pos hp, ih]
        nofun
      | x :: y :: tail =>
        have htail := formDecodeBytes_eq tail
        rw [formDecodeBytes, if_neg hs, if_pos hp]
        dsimp only
        rw [ih, htail]
    · rw [percentDecodeBytes_plain hp, ← ih]
      match rest with
      | [] | [_] | _ :: _ :: _ =>
        simp only [formDecodeBytes, if_neg hp]
        split_ifs <;> rfl

/-- The two decoders agree on every text. -/
theorem percentDecode_eq_formDecode (s : String) : percentDecode s = formDecode s := by
  rw [percentDecode, formDecode, formDecodeBytes_eq]

end Decoders

/-- The bytes that an encoder may keep as they are. -/
def unreserved (b : Byte) : Bool :=
  let n := b.toNat
  decide (48 ≤ n ∧ n ≤ 57) || decide (65 ≤ n ∧ n ≤ 90) || decide (97 ≤ n ∧ n ≤ 122) ||
    n == 42 || n == 45 || n == 46 || n == 95 || n == 126

/-- A text that some form encoder writes for the bytes. -/
inductive Encodes : List Byte → List Char → Prop where
  | nil : Encodes [] []
  | keep {b bs cs} : unreserved b = true → Encodes bs cs → Encodes (b :: bs) (Char.ofNat b.toNat :: cs)
  | escape {b bs cs h l} : hexDigit h = some (b.toNat / 16) → hexDigit l = some (b.toNat % 16) →
      Encodes bs cs → Encodes (b :: bs) ('%' :: h :: l :: cs)
  | space {bs cs} : Encodes bs cs → Encodes (32 :: bs) ('+' :: cs)

/-- A pair with the texts an encoder wrote for it. -/
structure FormField where
  key : String
  value : String
  keyText : List Char
  valueText : List Char
  keyEncodes : Encodes (Bytes.ofString key) keyText
  valueEncodes : Encodes (Bytes.ofString value) valueText

def FormField.text (f : FormField) : List Char :=
  f.keyText ++ '=' :: f.valueText

def formText : List FormField → List Char
  | [] => []
  | [f] => f.text
  | f :: g :: fs => f.text ++ '&' :: formText (g :: fs)

def formBody (fields : List FormField) : String :=
  String.ofList (formText fields)

section Encoding

/-- A character that an encoder writes. -/
def FormChar (c : Char) : Prop :=
  c.toNat < 128 ∧ c ≠ '&' ∧ c ≠ '=' ∧ c ≠ ' '

theorem hexDigit_range {c : Char} {d : Nat} (h : hexDigit c = some d) :
    48 ≤ c.toNat ∧ c.toNat ≤ 57 ∧ d = c.toNat - 48 ∨ 97 ≤ c.toNat ∧ c.toNat ≤ 102 ∧ d = c.toNat - 87 ∨
      65 ≤ c.toNat ∧ c.toNat ≤ 70 ∧ d = c.toNat - 55 := by
  have hle : ∀ a b : Char, a ≤ b ↔ a.toNat ≤ b.toNat := fun _ _ => Iff.rfl
  unfold hexDigit at h
  simp only [hle, Char.reduceToNat] at h
  split_ifs at h with h1 h2 h3
  · exact .inl ⟨h1.1, h1.2, (Option.some.inj h).symm⟩
  · exact .inr (.inl ⟨h2.1, h2.2, (Option.some.inj h).symm⟩)
  · exact .inr (.inr ⟨h3.1, h3.2, (Option.some.inj h).symm⟩)

theorem formChar_of_range {c : Char} (h : c.toNat < 128) (hne : c.toNat ≠ 38 ∧ c.toNat ≠ 61 ∧ c.toNat ≠ 32) :
    FormChar c := by
  refine ⟨h, ?_, ?_, ?_⟩ <;> rintro rfl
  · exact hne.1 rfl
  · exact hne.2.1 rfl
  · exact hne.2.2 rfl

theorem unreserved_range {b : Byte} (h : unreserved b = true) :
    b.toNat < 128 ∧ b.toNat ≠ 38 ∧ b.toNat ≠ 61 ∧ b.toNat ≠ 32 ∧ b.toNat ≠ 37 ∧ b.toNat ≠ 43 := by
  simp only [unreserved, Bool.or_eq_true, decide_eq_true_eq, beq_iff_eq] at h
  omega

theorem toNat_ofNat_small {n : Nat} (h : n < 128) : (Char.ofNat n).toNat = n := by
  have hv : n.isValidChar := .inl (by omega)
  rw [Char.ofNat, dif_pos hv]
  rfl

theorem Encodes.chars {bs : List Byte} {cs : List Char} (h : Encodes bs cs) : ∀ c ∈ cs, FormChar c := by
  have hhex : ∀ {c : Char} {d : Nat}, hexDigit c = some d → FormChar c := by
    intro c d hd
    have hr := hexDigit_range hd
    exact formChar_of_range (by omega) (by omega)
  induction h with
  | nil => nofun
  | @keep b bs cs hb _ ih =>
    have hr := unreserved_range hb
    have hn := toNat_ofNat_small hr.1
    intro c hc
    rcases List.mem_cons.mp hc with rfl | hc
    · exact formChar_of_range (by omega) (by omega)
    · exact ih c hc
  | escape hh hl _ ih =>
    intro c hc
    rcases List.mem_cons.mp hc with rfl | hc
    · exact formChar_of_range (by decide) (by decide)
    rcases List.mem_cons.mp hc with rfl | hc
    · exact hhex hh
    rcases List.mem_cons.mp hc with rfl | hc
    · exact hhex hl
    · exact ih c hc
  | space _ ih =>
    intro c hc
    rcases List.mem_cons.mp hc with rfl | hc
    · exact formChar_of_range (by decide) (by decide)
    · exact ih c hc

/-- The byte of an ASCII character. -/
def asciiByte (c : Char) : Byte :=
  UInt8.ofNat c.toNat

theorem ofString_ascii {cs : List Char} (h : ∀ c ∈ cs, c.toNat < 128) :
    Bytes.ofString (String.ofList cs) = cs.map asciiByte := by
  rw [Bytes.ofString_eq, String.toList_ofList]
  induction cs with
  | nil => rfl
  | cons c cs ih =>
    have hc : c.val.toNat ≤ 127 := Nat.lt_succ_iff.mp (h c List.mem_cons_self)
    have hone : String.utf8EncodeChar c = [asciiByte c] := by
      unfold String.utf8EncodeChar
      dsimp only
      rw [if_pos hc]
      rfl
    rw [List.flatMap_cons, hone, ih fun d hd => h d (List.mem_cons_of_mem c hd)]
    rfl

theorem hexByte_ascii {c : Char} {d : Nat} (h : hexDigit c = some d) : hexByte (asciiByte c) = some d := by
  have hr := hexDigit_range h
  have hn : (asciiByte c).toNat = c.toNat := Bytes.toNat_small (by omega)
  unfold hexByte
  dsimp only
  rw [hn]
  split_ifs
  · exact congrArg some (by omega)
  · exact congrArg some (by omega)
  · exact congrArg some (by omega)
  · omega

/-- An encoded text is read back, byte by byte. -/
theorem Encodes.decode {bs : List Byte} {cs : List Char} (h : Encodes bs cs) :
    percentDecodeBytes (cs.map asciiByte) = bs := by
  induction h with
  | nil => rfl
  | @keep b bs cs hb _ ih =>
    have hr := unreserved_range hb
    have hbyte : asciiByte (Char.ofNat b.toNat) = b := by
      rw [asciiByte, toNat_ofNat_small hr.1, UInt8.ofNat_toNat]
    rw [List.map_cons, hbyte, percentDecodeBytes_plain (by omega), if_neg (by omega), ih]
  | @escape b bs cs h l hh hl _ ih =>
    have hr := hexDigit_range hh
    have hsign : ¬(asciiByte h).toNat = 43 := by
      rw [asciiByte, Bytes.toNat_small (by omega)]
      omega
    have hpair : hexPair (asciiByte h) (asciiByte l) = some b := by
      unfold hexPair
      rw [if_neg hsign, hexByte_ascii hh, hexByte_ascii hl]
      dsimp only
      rw [Nat.div_add_mod, UInt8.ofNat_toNat]
    rw [List.map_cons, List.map_cons, List.map_cons, percentDecodeBytes_percent (by decide)]
    dsimp only
    rw [hpair]
    exact congrArg (b :: ·) ih
  | space _ ih =>
    rw [List.map_cons, percentDecodeBytes_plain (by decide), if_pos (by decide), ih]

theorem Encodes.percentDecode {s : String} {cs : List Char} (h : Encodes (Bytes.ofString s) cs) :
    percentDecode (String.ofList cs) = s := by
  rw [Allgres.percentDecode, ofString_ascii fun c hc => (h.chars c hc).1, h.decode, Bytes.toStringLossy_ofString]

end Encoding

section Splitting

theorem splitChar_alone {c : Char} {u : List Char} (h : c ∉ u) : splitChar c u = [u] := by
  induction u with
  | nil => rfl
  | cons d u ih =>
    simp only [List.mem_cons, not_or] at h
    rw [splitChar, if_neg (Ne.symm h.1), ih h.2]

theorem splitChar_append {c : Char} {u : List Char} (h : c ∉ u) (v : List Char) :
    splitChar c (u ++ c :: v) = u :: splitChar c v := by
  induction u with
  | nil => rw [List.nil_append, splitChar, if_pos rfl]
  | cons d u ih =>
    simp only [List.mem_cons, not_or] at h
    rw [List.cons_append, splitChar, if_neg (Ne.symm h.1), ih h.2]

theorem splitOnce_append {c : Char} {u : List Char} (h : c ∉ u) (v : List Char) :
    splitOnce (String.ofList (u ++ c :: v)) c = some (String.ofList u, String.ofList v) := by
  have hu : ∀ d ∈ u, (d != c) = true := by
    intro d hd
    simp only [bne_iff_ne, ne_eq]
    rintro rfl
    exact h hd
  unfold splitOnce
  rw [String.toList_ofList, if_pos (by simp), List.takeWhile_append_of_pos hu, List.dropWhile_append_of_pos hu]
  simp

theorem FormField.not_mem_text (f : FormField) : '&' ∉ f.text := by
  simp only [FormField.text, List.mem_append, List.mem_cons, not_or]
  exact ⟨fun h => (f.keyEncodes.chars _ h).2.1 rfl, by decide, fun h => (f.valueEncodes.chars _ h).2.1 rfl⟩

theorem splitOnce_text (f : FormField) :
    splitOnce (String.ofList f.text) '=' = some (String.ofList f.keyText, String.ofList f.valueText) :=
  splitOnce_append (fun h => (f.keyEncodes.chars _ h).2.2.1 rfl) _

/-- Neither separator can come from a name or a value, so the text falls apart into its pairs. -/
theorem formPairs_formBody (fields : List FormField) : formPairs (formBody fields) =
    fields.map fun f => (String.ofList f.keyText, String.ofList f.valueText) := by
  unfold formPairs formBody
  rw [String.toList_ofList]
  induction fields with
  | nil => rfl
  | cons f fs ih =>
    cases fs with
    | nil =>
      rw [formText, splitChar_alone f.not_mem_text]
      simp [splitOnce_text]
    | cons g fs =>
      rw [formText, splitChar_append f.not_mem_text, List.filterMap_cons, splitOnce_text, ih]
      rfl

end Splitting

/-- What the claim of a round trip says of the two readers. -/
structure RoundTrips (fields : List FormField) : Prop where
  body : ∀ key value : String,
    (parseFormBody (formBody fields))[key]? = some value ↔ ∃ f ∈ fields, f.key = key ∧ f.value = value
  query : ∀ f ∈ fields, queryParam (formBody fields) f.key = some f.value
  decoders : ∀ s, percentDecode s = formDecode s

section RoundTrip

variable {fields : List FormField}

theorem formDecode_text {s : String} {cs : List Char} (h : Encodes (Bytes.ofString s) cs) :
    formDecode (String.ofList cs) = s := by
  rw [← percentDecode_eq_formDecode, h.percentDecode]

/-- The reader of bodies gives back the pairs, however they were encoded. -/
theorem parseFormBody_formBody (hd : (fields.map (·.key)).Nodup) (key value : String) :
    (parseFormBody (formBody fields))[key]? = some value ↔ ∃ f ∈ fields, f.key = key ∧ f.value = value := by
  have hpairs : (formPairs (formBody fields)).map (fun kv => (formDecode kv.1, formDecode kv.2)) =
      fields.map fun f => (f.key, f.value) := by
    rw [formPairs_formBody, List.map_map]
    refine List.map_congr_left fun f _ => ?_
    exact Prod.ext (formDecode_text f.keyEncodes) (formDecode_text f.valueEncodes)
  have hdistinct : (fields.map fun f => (f.key, f.value)).Pairwise fun a b => (a.1 == b.1) = false := by
    rw [List.pairwise_map]
    exact (List.pairwise_map.mp hd).imp fun h => by simpa using h
  have hmem : ∀ f ∈ fields, (parseFormBody (formBody fields))[f.key]? = some f.value := by
    intro f hf
    unfold parseFormBody
    rw [hpairs]
    exact Std.HashMap.getElem?_ofList_of_mem (k := f.key) (by simp) hdistinct (List.mem_map.mpr ⟨f, hf, rfl⟩)
  constructor
  · intro h
    by_cases hkey : ∃ f ∈ fields, f.key = key
    · obtain ⟨f, hf, rfl⟩ := hkey
      rw [hmem f hf] at h
      exact ⟨f, hf, rfl, Option.some.inj h⟩
    · have hnone : (parseFormBody (formBody fields))[key]? = none := by
        unfold parseFormBody
        rw [hpairs]
        refine Std.HashMap.getElem?_ofList_of_contains_eq_false ?_
        rw [List.contains_eq_mem, decide_eq_false_iff_not, List.map_map, List.mem_map]
        exact fun ⟨f, hf, heq⟩ => hkey ⟨f, hf, heq⟩
      rw [hnone] at h
      cases h
  · rintro ⟨f, hf, rfl, rfl⟩
    exact hmem f hf

theorem Encodes.length_le {bs : List Byte} {cs : List Char} (h : Encodes bs cs) : bs.length ≤ cs.length := by
  induction h with
  | nil => exact Nat.le_refl 0
  | keep _ _ ih | escape _ _ _ ih | space _ ih =>
    simp only [List.length_cons]
    omega

/-- Without an escape and without a space the encoder has kept everything. -/
theorem Encodes.kept {bs : List Byte} {cs : List Char} (h : Encodes bs cs) (hlength : cs.length ≤ bs.length)
    (hspace : 32 ∉ bs) : cs.map asciiByte = bs := by
  induction h with
  | nil => rfl
  | @keep b bs cs hb _ ih =>
    have hr := unreserved_range hb
    simp only [List.length_cons, List.mem_cons, not_or] at hlength hspace
    rw [List.map_cons, ih (by omega) hspace.2, asciiByte, toNat_ofNat_small hr.1, UInt8.ofNat_toNat]
  | escape _ _ h _ =>
    have hle := h.length_le
    simp only [List.length_cons] at hlength
    omega
  | space _ _ => exact absurd List.mem_cons_self hspace

/-- The first pair whose key stands in the text as it is asked for. -/
theorem queryParam_formBody (key : String) : queryParam (formBody fields) key =
    (fields.find? fun f => String.ofList f.keyText = key).map (·.value) := by
  rw [queryParam_eq, formPairs_formBody, List.find?_map, Option.map_map]
  refine Option.map_congr fun f _ => ?_
  exact f.valueEncodes.percentDecode

theorem text_bytes (f : FormField) : Bytes.ofString (String.ofList f.keyText) = f.keyText.map asciiByte :=
  ofString_ascii fun c hc => (f.keyEncodes.chars c hc).1

/-- A space does not come through an encoder. -/
theorem no_space (f : FormField) : 32 ∉ f.keyText.map asciiByte := by
  intro hm
  obtain ⟨c, hc, hspace⟩ := List.mem_map.mp hm
  have hchar := f.keyEncodes.chars c hc
  have hcode : c.toNat = 32 := by
    have hn := congrArg UInt8.toNat hspace
    rwa [asciiByte, Bytes.toNat_small (Nat.lt_trans hchar.1 (by decide))] at hn
  exact hchar.2.2.2 (Char.toNat_inj.mp hcode)

/-- When every key is found, every key is written as it is. By induction on the length of the key:
what is found for a key that is not could only be a shorter key of the same kind. -/
theorem kept_of_query (hd : (fields.map (·.key)).Nodup)
    (hquery : ∀ f ∈ fields, queryParam (formBody fields) f.key = some f.value) :
    ∀ f ∈ fields, String.ofList f.keyText = f.key := by
  have hfound : ∀ f ∈ fields, ∃ g ∈ fields, String.ofList g.keyText = f.key := by
    intro f hf
    have hq := hquery f hf
    rw [queryParam_formBody] at hq
    obtain ⟨g, hg, -⟩ := Option.map_eq_some_iff.mp hq
    exact ⟨g, List.mem_of_find?_eq_some hg, by simpa using List.find?_some hg⟩
  intro f hf
  induction hn : (Bytes.ofString f.key).length using Nat.strongRecOn generalizing f with
  | _ n ih =>
    obtain ⟨g, hg, hkey⟩ := hfound f hf
    obtain ⟨h, hh, hgkey⟩ := hfound g hg
    have hlength : (Bytes.ofString f.key).length = g.keyText.length := by
      rw [← hkey, text_bytes, List.length_map]
    have hle := g.keyEncodes.length_le
    have hkept : String.ofList g.keyText = g.key := by
      rcases Nat.lt_or_ge (Bytes.ofString g.key).length n with hlt | hge
      · exact ih _ hlt g hg rfl
      · have hspace : 32 ∉ Bytes.ofString g.key := by
          rw [← hgkey, text_bytes]
          exact no_space h
        have hsame := g.keyEncodes.kept (by omega) hspace
        rw [← text_bytes] at hsame
        exact Bytes.ofString_inj hsame
    have hfg : f = g := List.inj_on_of_nodup_map hd hf hg (hkey.symm.trans hkept)
    rw [hfg]
    exact hkept

end RoundTrip

/-- Both readers give an encoded list of pairs back just if the encoder left the keys as they are. -/
theorem roundTrips_iff (fields : List FormField) (hd : (fields.map (·.key)).Nodup) :
    RoundTrips fields ↔ ∀ f ∈ fields, String.ofList f.keyText = f.key := by
  constructor
  · exact fun h => kept_of_query hd h.query
  · intro hkept
    refine ⟨parseFormBody_formBody hd, fun f hf => ?_, percentDecode_eq_formDecode⟩
    rw [queryParam_formBody]
    have hfind : ∃ g, fields.find? (fun g => String.ofList g.keyText = f.key) = some g := by
      rw [← Option.isSome_iff_exists, List.find?_isSome]
      exact ⟨f, hf, by simpa using hkept f hf⟩
    obtain ⟨g, hg⟩ := hfind
    have hmem := List.mem_of_find?_eq_some hg
    have hkey : g.key = f.key := by
      rw [← hkept g hmem]
      simpa using List.find?_some hg
    rw [hg, List.inj_on_of_nodup_map hd hmem hf hkey]
    rfl

def usernameField : FormField where
  key := "username"
  value := "a b"
  keyText := "username".toList
  valueText := "a+b".toList
  keyEncodes := .keep rfl (.keep rfl (.keep rfl (.keep rfl (.keep rfl (.keep rfl (.keep rfl (.keep rfl .nil)))))))
  valueEncodes := .keep rfl (.space (.keep rfl .nil))

def passwordField : FormField where
  key := "password"
  value := "p&=ä"
  keyText := "password".toList
  valueText := "p%26%3d%C3%A4".toList
  keyEncodes := .keep rfl (.keep rfl (.keep rfl (.keep rfl (.keep rfl (.keep rfl (.keep rfl (.keep rfl .nil)))))))
  valueEncodes := .keep rfl (.escape rfl rfl (.escape rfl rfl (.escape rfl rfl (.escape rfl rfl .nil))))

theorem login_roundTrips : RoundTrips [usernameField, passwordField] :=
  (roundTrips_iff [usernameField, passwordField] (by decide)).mpr (by decide)

/-- A key of which the encoder has escaped a letter. -/
def escapedTicket : FormField where
  key := "ticket"
  value := "1"
  keyText := "%74icket".toList
  valueText := "1".toList
  keyEncodes := .escape rfl rfl (.keep rfl (.keep rfl (.keep rfl (.keep rfl (.keep rfl .nil)))))
  valueEncodes := .keep rfl .nil

theorem escaped_key_not_found : ¬ ∀ fields : List FormField, (fields.map (·.key)).Nodup → RoundTrips fields := by
  intro h
  have hquery := (h [escapedTicket] (by decide)).query escapedTicket List.mem_cons_self
  exact absurd hquery (by decide)

end Allgres
