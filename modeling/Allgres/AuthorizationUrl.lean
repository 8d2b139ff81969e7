import Allgres.FormDecoding
import Allgres.Logins

/-! The authorization URL a login starts with, and the parameters a client reads from it. -/

namespace Allgres

open Bytes Urlencoded Raise

/-- `replace(s, ' ', '%20')`. -/
def escapeBlanks (s : List Char) : List Char :=
  s.flatMap fun c => if c = ' ' then ['%', '2', '0'] else [c]

def replaceBlanks (s : String) : String :=
  String.ofList (escapeBlanks s.toList)

/-- `v_url`, null where a part is. -/
def redirectUrl (p : Provider) (state : String) (redirect : Option String) : Option String := do
  let authUrl ← p.oauthAuthUrl
  let clientId ← p.oauthClientId
  let redirect ← redirect
  return authUrl
    ++ (if authUrl.toList.getLast? = some '?' then "&" else "?")
    ++ "response_type=code"
    ++ "&client_id=" ++ replaceBlanks clientId
    ++ "&state=" ++ state
    ++ "&redirect_uri=" ++ replaceBlanks redirect
    ++ (match p.oauthScope with
      | some scope => "&scope=" ++ replaceBlanks scope
      | none => "")

/-- `fn_oauth_start` with its answer. -/
def fnOauthStartReply (c : Config) (id : Uuid) (state : String) (redirect : Option String) :
    Except String (Config × Json) := do
  let c' ← fnOauthStart c id state
  match c.provider? id with
  | none => .error "provider is not oauth"
  | some p => return (c', .object [("ok", .bool true), ("redirect_url", .ofText (redirectUrl p state redirect)),
      ("state", .str state)])

section Blanks

theorem escapeBlanks_cons (c : Char) (s : List Char) :
    escapeBlanks (c :: s) = (if c = ' ' then ['%', '2', '0'] else [c]) ++ escapeBlanks s :=
  List.flatMap_cons

theorem escapeBlanks_front {s u : List Char} {a b : Char} {v : Byte} (h : escapeBlanks s = a :: b :: u)
    (hv : escapedByte a b = some v) : ∃ t, s = a :: b :: t := by
  have hpercent : ∀ d, escapedByte '%' d = none := fun d => escapedByte_of_not_hex (.inl rfl)
  have hpercent' : ∀ d, escapedByte d '%' = none := fun d => escapedByte_of_not_hex (.inr rfl)
  cases s with
  | nil => simp [escapeBlanks] at h
  | cons x s =>
    rw [escapeBlanks_cons] at h
    by_cases hx : x = ' '
    · rw [if_pos hx] at h
      obtain ⟨rfl, _⟩ := List.cons.inj h
      simp [hpercent] at hv
    · rw [if_neg hx, List.singleton_append] at h
      obtain ⟨rfl, htail⟩ := List.cons.inj h
      cases s with
      | nil => simp [escapeBlanks] at htail
      | cons y s =>
        rw [escapeBlanks_cons] at htail
        by_cases hy : y = ' '
        · rw [if_pos hy] at htail
          obtain ⟨rfl, _⟩ := List.cons.inj htail
          simp [hpercent'] at hv
        · rw [if_neg hy] at htail
          obtain ⟨rfl, _⟩ := List.cons.inj htail
          exact ⟨s, rfl⟩

theorem hex_ne_blank {a b : Char} {v : Byte} (h : escapedByte a b = some v) : a ≠ ' ' ∧ b ≠ ' ' := by
  constructor
  · rintro rfl
    rw [escapedByte_of_not_hex (.inl rfl)] at h
    exact absurd h nofun
  · rintro rfl
    rw [escapedByte_of_not_hex (.inr rfl)] at h
    exact absurd h nofun

/-- A client reads an escaped blank and a bare one alike. -/
theorem decodeBytes_escapeBlanks (s : List Char) : decodeBytes (escapeBlanks s) = decodeBytes s := by
  induction hn : s.length using Nat.strongRecOn generalizing s with
  | _ n ih =>
    cases s with
    | nil => rfl
    | cons c s =>
      simp only [List.length_cons] at hn
      have hs := ih s.length (by omega) s rfl
      rw [escapeBlanks_cons]
      by_cases hc : c = ' '
      · subst hc
        have hblank : escapedByte '2' '0' = some 32 := by decide
        simp only [if_true, List.cons_append, List.nil_append]
        rw [decodeBytes_escape hblank, decodeBytes_cons (by decide) (by decide), hs]
        rfl
      · rw [if_neg hc, List.singleton_append]
        rcases decodeBytes_step c s with ⟨a, b, t, v, rfl, rfl, hv, hd⟩ | ⟨hnone, _, hd⟩
        · have hne := hex_ne_blank hv
          simp only [List.length_cons] at hn
          have ht := ih t.length (by omega) t rfl
          rw [escapeBlanks_cons, escapeBlanks_cons, if_neg hne.1, if_neg hne.2, List.singleton_append,
            List.singleton_append, decodeBytes_escape hv, hd, ht]
        · rcases decodeBytes_step c (escapeBlanks s) with ⟨a, b, u, v, hp, hsplit, hv, _⟩ | ⟨_, _, hd'⟩
          · obtain ⟨t, rfl⟩ := escapeBlanks_front hsplit hv
            rw [hnone hp a b t rfl] at hv
            exact absurd hv nofun
          · rw [hd', hd, hs]

theorem decode_escapeBlanks (s : List Char) : decode (escapeBlanks s) = decode s := by
  rw [decode, decode, decodeBytes_escapeBlanks]

end Blanks

section Values

/-- What ends a value in a query. -/
def inValue (c : Char) : Bool :=
  c != '&' && c != '#'

/-- A value is cut at the first separator. -/
def readPart (s : List Char) : List Char :=
  s.takeWhile inValue

/-- A text that comes through a query as it is. -/
def Unaltered (s : List Char) : Prop :=
  '&' ∉ s ∧ '#' ∉ s ∧ '+' ∉ s ∧ hasEscape s = false

instance (s : List Char) : Decidable (Unaltered s) :=
  inferInstanceAs (Decidable (_ ∧ _ ∧ _ ∧ _))

theorem readPart_escapeBlanks (s : List Char) : readPart (escapeBlanks s) = escapeBlanks (readPart s) := by
  induction s with
  | nil => rfl
  | cons c s ih =>
    have hesc : readPart ('%' :: '2' :: '0' :: escapeBlanks s) = '%' :: '2' :: '0' :: readPart (escapeBlanks s) := by
      simp [readPart, inValue]
    by_cases hc : c = ' '
    · subst hc
      have hblank : readPart (' ' :: s) = ' ' :: readPart s := by simp [readPart, inValue]
      rw [escapeBlanks_cons, hblank, escapeBlanks_cons]
      simp only [if_true, List.cons_append, List.nil_append, hesc, ih]
    · rw [escapeBlanks_cons, if_neg hc, List.singleton_append]
      cases hin : inValue c with
      | false => simp [readPart, hin, escapeBlanks]
      | true =>
        have hhead : ∀ t, readPart (c :: t) = c :: readPart t := fun t => by simp [readPart, hin]
        rw [hhead, hhead, escapeBlanks_cons, if_neg hc, ih]
        rfl

theorem readPart_eq_self_iff {s : List Char} : readPart s = s ↔ '&' ∉ s ∧ '#' ∉ s := by
  rw [readPart, List.takeWhile_eq_self_iff]
  simp only [inValue, Bool.and_eq_true, bne_iff_ne, ne_eq]
  constructor
  · exact fun h => ⟨fun hm => (h _ hm).1 rfl, fun hm => (h _ hm).2 rfl⟩
  · exact fun ⟨ha, hf⟩ c hc => ⟨fun he => ha (he ▸ hc), fun he => hf (he ▸ hc)⟩

theorem length_readPart_le (s : List Char) : (readPart s).length ≤ s.length :=
  (List.takeWhile_prefix inValue).length_le

theorem readPart_eq_of_length {s : List Char} (h : s.length ≤ (readPart s).length) : readPart s = s :=
  (List.takeWhile_prefix inValue).eq_of_length (Nat.le_antisymm (length_readPart_le s) h)

/-- What a client reads is never longer, so it is the value only if nothing of it was special. -/
theorem decode_readPart_iff {s : List Char} : decode (readPart s) = s ↔ Unaltered s := by
  constructor
  · intro h
    have hlen := length_decode_le (readPart s)
    rw [h] at hlen
    have hall := readPart_eq_of_length hlen
    rw [hall] at h
    obtain ⟨ha, hf⟩ := readPart_eq_self_iff.mp hall
    exact ⟨ha, hf, decode_eq_self_iff.mp h⟩
  · rintro ⟨ha, hf, hd⟩
    rw [readPart_eq_self_iff.mpr ⟨ha, hf⟩]
    exact decode_eq_self_iff.mpr hd

def responseType : List Char :=
  "response_type".toList

def responseCode : List Char :=
  "code".toList

def codeText : List Char :=
  responseType ++ '=' :: responseCode

/-- What follows the last value of a URL that has a query of its own. -/
def codeSuffix : List Char :=
  '?' :: codeText

theorem unaltered_code : Unaltered codeSuffix := by
  decide

theorem decode_codeSuffix (s : List Char) : decode (s ++ codeSuffix) = decode s ++ codeSuffix := by
  have hcode : decode codeSuffix = codeSuffix := decode_eq_self_iff.mpr unaltered_code.2.2
  have happ : decode (s ++ codeSuffix) = decode s ++ decode codeSuffix :=
    decode_append rfl (by decide) (by decide) (by decide) s codeText
  rw [happ, hcode]

theorem length_codeSuffix : codeSuffix.length = 19 := by
  decide

/-- No text is read back with this suffix and without it. By descent on its length. -/
theorem decode_append_ne (s : List Char) : decode s ++ codeSuffix ≠ s := by
  induction hn : s.length using Nat.strongRecOn generalizing s with
  | _ n ih =>
    intro h
    have hlt : (decode s).length < n := by
      have hlen := congrArg List.length h
      rw [List.length_append, length_codeSuffix] at hlen
      omega
    refine ih _ hlt (decode s) rfl ?_
    have hdec := congrArg decode h
    rwa [decode_codeSuffix] at hdec

theorem decode_readPart_append_ne (s : List Char) : decode (readPart (s ++ codeSuffix)) ≠ s := by
  intro h
  have hlen := length_decode_le (readPart (s ++ codeSuffix))
  rw [h] at hlen
  -- the separator would stand in the suffix
  have hfront : readPart (s ++ codeSuffix) = s ++ codeSuffix := by
    have hs : ∀ c ∈ s, inValue c = true := by
      have hpre : readPart (s ++ codeSuffix) <+: s ++ codeSuffix := List.takeWhile_prefix inValue
      have hsub : s <+: readPart (s ++ codeSuffix) :=
        List.prefix_of_prefix_length_le (List.prefix_append s codeSuffix) hpre hlen
      intro c hc
      exact List.mem_takeWhile_imp (hsub.subset hc)
    have hcode : readPart codeSuffix = codeSuffix := readPart_eq_self_iff.mpr ⟨unaltered_code.1, unaltered_code.2.1⟩
    rw [readPart, List.takeWhile_append_of_pos hs]
    exact congrArg (s ++ ·) hcode
  rw [hfront, decode_codeSuffix] at h
  exact decode_append_ne s h

end Values

/-- A parameter and the text it is written as. -/
structure Param where
  name : List Char
  value : List Char
  text : List Char
  named : name.all (fun c => c.isAlpha || c == '_') = true
  written : text = value ∨ text = escapeBlanks value

namespace Param

theorem name_ne (p : Param) {d : Char} (hd : (d.isAlpha || d == '_') = false) : d ∉ p.name := by
  intro hm
  have := List.all_eq_true.mp p.named d hm
  rw [hd] at this
  exact absurd this nofun

theorem decode_name (p : Param) : decode p.name = p.name := by
  exact decode_eq_self_iff.mpr ⟨p.name_ne (by decide), hasEscape_of_not_mem (p.name_ne (by decide))⟩

theorem not_mem_text (p : Param) {d : Char} (hd : d = '&' ∨ d = '#') (h : d ∉ p.value) : d ∉ p.text := by
  intro hm
  rcases p.written with ht | ht
  · exact h (ht ▸ hm)
  · rw [ht] at hm
    obtain ⟨c, hc, hdc⟩ := List.mem_flatMap.mp hm
    by_cases hblank : c = ' '
    · rw [if_pos hblank] at hdc
      rcases hd with rfl | rfl <;> simp at hdc
    · rw [if_neg hblank] at hdc
      exact h (List.mem_singleton.mp hdc ▸ hc)

theorem decode_text (p : Param) : decode (readPart p.text) = decode (readPart p.value) := by
  rcases p.written with h | h
  · rw [h]
  · rw [h, readPart_escapeBlanks, decode_escapeBlanks]

def segment (p : Param) : List Char :=
  p.name ++ '=' :: p.text

theorem readPair_segment (p : Param) (text : List Char) :
    readPair (p.name ++ '=' :: text) = (p.name, decode text) := by
  rw [readPair_named (p.name_ne (by decide)), p.decode_name]

end Param

/-- The parameters as they are written behind another one. -/
def paramText (ps : List Param) : List Char :=
  ps.flatMap fun p => '&' :: p.segment

/-- What a client reads of them. -/
def readParams : List Param → List (List Char × List Char)
  | [] => []
  | p :: ps => parse (unfragmented (p.segment ++ paramText ps))

section Reading

theorem parse_behind {u : List Char} (ha : '&' ∉ u) (hf : '#' ∉ u) (hne : u ≠ []) (ps : List Param) :
    parse (unfragmented (u ++ paramText ps)) = readPair u :: readParams ps := by
  cases ps with
  | nil => simp [paramText, unfragmented_of_not_mem hf, parse_segment ha hne, readParams]
  | cons p ps =>
    have hamp : '#' ∉ u ++ ['&'] := by simp [hf]
    have hsplit : u ++ paramText (p :: ps) = u ++ ['&'] ++ (p.segment ++ paramText ps) := by
      simp [paramText]
    rw [hsplit, unfragmented_append hamp, List.append_assoc, List.singleton_append, parse_join,
      parse_segment ha hne]
    rfl

/-- The first parameter is read up to a separator in its value, -/
theorem readParams_head (p : Param) (ps : List Param) :
    (p.name, decode (readPart p.value)) ∈ readParams (p :: ps) := by
  have hname : ∀ d, (d.isAlpha || d == '_') = false → d ≠ '=' → d ∉ readPart p.text →
      d ∉ p.name ++ '=' :: readPart p.text := by
    intro d hd hne hm
    simp [p.name_ne hd, hne, hm]
  have hpart : ∀ d, inValue d = false → d ∉ readPart p.text := by
    intro d hd hm
    have := List.mem_takeWhile_imp hm
    rw [hd] at this
    exact absurd this nofun
  have ha := hname '&' (by decide) (by decide) (hpart _ rfl)
  have hf := hname '#' (by decide) (by decide) (hpart _ rfl)
  have hne : p.name ++ '=' :: readPart p.text ≠ [] := by simp
  have hsplit : p.segment ++ paramText ps =
      (p.name ++ '=' :: readPart p.text) ++ (p.text.dropWhile inValue ++ paramText ps) := by
    have htext : p.text = readPart p.text ++ p.text.dropWhile inValue :=
      List.takeWhile_append_dropWhile.symm
    simp only [Param.segment, List.append_assoc, List.cons_append]
    rw [← List.append_assoc (readPart p.text), ← htext]
  have hhead : ∀ d rest, p.text.dropWhile inValue ++ paramText ps = d :: rest → d = '&' ∨ d = '#' := by
    intro d rest hd
    have hstop := head_dropWhile inValue p.text
    cases hdrop : p.text.dropWhile inValue with
    | nil =>
      rw [hdrop] at hd
      cases ps with
      | nil => simp [paramText] at hd
      | cons q qs =>
        simp only [paramText, List.nil_append, List.flatMap_cons, List.cons_append] at hd
        exact .inl (List.cons.inj hd).1.symm
    | cons e es =>
      rw [hdrop] at hd hstop
      obtain rfl : e = d := (List.cons.inj hd).1
      have hin : inValue e = false := by simpa using hstop
      simp only [inValue, Bool.and_eq_false_iff, bne_eq_false_iff_eq] at hin
      exact hin
  have hread : readPair (p.name ++ '=' :: readPart p.text) = (p.name, decode (readPart p.value)) := by
    rw [p.readPair_segment, p.decode_text]
  rw [readParams, hsplit, unfragmented_append hf]
  cases hrest : p.text.dropWhile inValue ++ paramText ps with
  | nil =>
    rw [unfragmented, List.takeWhile_nil, List.append_nil, parse_segment ha hne, hread]
    exact List.mem_singleton_self _
  | cons d rest =>
    rcases hhead d rest hrest with rfl | rfl
    · have hamp : unfragmented ('&' :: rest) = '&' :: unfragmented rest := by simp [unfragmented]
      rw [hamp, parse_join, parse_segment ha hne, hread]
      exact List.mem_append_left _ (List.mem_singleton_self _)
    · have hhash : unfragmented ('#' :: rest) = [] := by simp [unfragmented]
      rw [hhash, List.append_nil, parse_segment ha hne, hread]
      exact List.mem_singleton_self _

/-- and the others are read behind it if there is none. -/
theorem readParams_cons {p : Param} (h : Unaltered p.value) (ps : List Param) :
    readParams (p :: ps) = (p.name, p.value) :: readParams ps := by
  have hamp := p.not_mem_text (.inl rfl) h.1
  have hhash := p.not_mem_text (.inr rfl) h.2.1
  have ha : '&' ∉ p.segment := by simp [Param.segment, hamp, p.name_ne (d := '&') (by decide)]
  have hf : '#' ∉ p.segment := by simp [Param.segment, hhash, p.name_ne (d := '#') (by decide)]
  have hne : p.segment ≠ [] := by simp [Param.segment]
  have hvalue : decode p.text = p.value := by
    have htext := p.decode_text
    rwa [readPart_eq_self_iff.mpr ⟨hamp, hhash⟩, decode_readPart_iff.mpr h] at htext
  rw [readParams, parse_behind ha hf hne, Param.segment, p.readPair_segment, hvalue]

end Reading

section Sent

/-- The name and the value a client is to read. -/
def Param.pair (p : Param) : List Char × List Char :=
  (p.name, p.value)

def codePair : List Char × List Char :=
  (responseType, responseCode)

def sent (ps : List Param) : List (List Char × List Char) :=
  codePair :: ps.map Param.pair

/-- The names of the parameters differ. -/
structure Distinct (ps : List Param) : Prop where
  nodup : (ps.map Param.name).Nodup
  fresh : ∀ p ∈ ps, p.name ≠ codePair.1

variable {ps : List Param}

theorem Distinct.eq_of_name (h : Distinct ps) {p q : Param} (hp : p ∈ ps) (hq : q ∈ ps) (hn : p.name = q.name) :
    p = q :=
  List.inj_on_of_nodup_map h.nodup hp hq hn

/-- Each parameter is read under its name as long as those in front of it are read as they are. -/
theorem read_values {g : Param → List Char}
    (hread : ∀ t ∈ readParams ps, ∀ q ∈ ps, t.1 = q.name → t.2 = g q)
    (hplain : ∀ q ∈ ps, decode (readPart q.value) = g q → Unaltered q.value) :
    ∀ q ∈ ps, decode (readPart q.value) = g q := by
  induction ps with
  | nil => nofun
  | cons p ps ih =>
    have hp := hread _ (readParams_head p ps) p List.mem_cons_self rfl
    have hall := readParams_cons (hplain p List.mem_cons_self hp) ps
    intro q hq
    rcases List.mem_cons.mp hq with rfl | hq
    · exact hp
    · refine ih (fun t ht r hr => ?_) (fun r hr => hplain r (List.mem_cons_of_mem _ hr)) q hq
      exact hread t (hall ▸ List.mem_cons_of_mem _ ht) r (List.mem_cons_of_mem _ hr)

theorem readParams_of_unaltered (h : ∀ p ∈ ps, Unaltered p.value) : readParams ps = ps.map Param.pair := by
  induction ps with
  | nil => rfl
  | cons p ps ih =>
    rw [readParams_cons (h p List.mem_cons_self), ih fun q hq => h q (List.mem_cons_of_mem _ hq)]
    rfl

theorem readParams_perm_iff (hd : Distinct ps) :
    (readParams ps).Perm (ps.map Param.pair) ↔ ∀ p ∈ ps, Unaltered p.value := by
  constructor
  · intro hperm
    have hread : ∀ t ∈ readParams ps, ∀ q ∈ ps, t.1 = q.name → t.2 = q.value := by
      intro t ht q hq hn
      obtain ⟨r, hr, rfl⟩ := List.mem_map.mp (hperm.mem_iff.mp ht)
      rw [hd.eq_of_name hr hq hn]
      rfl
    have hvalues := read_values hread fun q _ => decode_readPart_iff.mp
    exact fun p hp => decode_readPart_iff.mp (hvalues p hp)
  · exact fun h => .of_eq (readParams_of_unaltered h)

theorem Distinct.nodup_sent (h : Distinct ps) : (sent ps).Nodup := by
  refine List.nodup_cons.mpr ⟨fun hm => ?_, ?_⟩
  · obtain ⟨p, hp, he⟩ := List.mem_map.mp hm
    exact h.fresh p hp (congrArg Prod.fst he)
  · have hnames : ((ps.map Param.pair).map Prod.fst).Nodup := by
      rw [List.map_map]
      exact h.nodup
    exact hnames.of_map

theorem append_codeSuffix_ne (u : List Char) : u ++ codeSuffix ≠ u := by
  intro h
  have hlen := congrArg List.length h
  rw [List.length_append, length_codeSuffix] at hlen
  omega

/-- A parameter with a value whose end stands in another one's place: nobody reads it. -/
theorem shortened_not_perm (hd : Distinct ps) {p : Param} (hp : p ∈ ps) {v : List Char}
    (hv : p.value = v ++ codeSuffix) : ¬ (p.pair :: readParams ps).Perm ((p.name, v) :: sent ps) := by
  intro hperm
  have hsent : p.pair ∈ sent ps := List.mem_cons_of_mem _ (List.mem_map_of_mem hp)
  have hrest : (readParams ps).Perm ((p.name, v) :: (sent ps).erase p.pair) := by
    have hback := (List.perm_cons_erase hsent).cons (p.name, v)
    exact ((hperm.trans hback).trans (.swap _ _ _)).cons_inv
  let g : Param → List Char := fun q => if q.name = p.name then v else q.value
  have hread : ∀ t ∈ readParams ps, ∀ q ∈ ps, t.1 = q.name → t.2 = g q := by
    intro t ht q hq hn
    rcases List.mem_cons.mp (hrest.mem_iff.mp ht) with rfl | ht
    · exact (if_pos hn.symm).symm
    · obtain ⟨hne, ht⟩ := hd.nodup_sent.mem_erase_iff.mp ht
      rcases List.mem_cons.mp ht with rfl | ht
      · exact absurd hn.symm (hd.fresh q hq)
      · obtain ⟨r, hr, rfl⟩ := List.mem_map.mp ht
        obtain rfl : r = q := hd.eq_of_name hr hq hn
        have hother : r.name ≠ p.name := fun he => hne (by rw [hd.eq_of_name hr hp he])
        exact (if_neg hother).symm
  have hshort : decode (readPart p.value) ≠ v := by
    rw [hv]
    exact decode_readPart_append_ne v
  have hplain : ∀ q ∈ ps, decode (readPart q.value) = g q → Unaltered q.value := by
    intro q hq hg
    by_cases hn : q.name = p.name
    · obtain rfl : q = p := hd.eq_of_name hq hp hn
      exact absurd (hg.trans (if_pos rfl)) hshort
    · exact decode_readPart_iff.mp (hg.trans (if_neg hn))
  exact hshort ((read_values hread hplain p hp).trans (if_pos rfl))

/-- When the last parameter of the URL swallows the response type, what is read is not what was
sent, whatever the values are. -/
theorem swallowed_not_perm (hd : Distinct ps) {segment : List Char} (hs : '&' ∉ segment) :
    ¬ (readPair (segment ++ codeSuffix) :: readParams ps).Perm (parse segment ++ sent ps) := by
  intro hperm
  have hmem : readPair (segment ++ codeSuffix) ∈ parse segment ++ sent ps :=
    hperm.mem_iff.mp List.mem_cons_self
  by_cases hname : '=' ∈ segment
  · obtain ⟨name, value, rfl, hn⟩ := List.eq_append_cons_of_mem hname
    have hread : readPair (name ++ '=' :: value ++ codeSuffix) = (decode name, decode value ++ codeSuffix) := by
      rw [List.append_assoc, List.cons_append, readPair_named hn, decode_codeSuffix]
    have hown : parse (name ++ '=' :: value) = [(decode name, decode value)] := by
      rw [parse_segment hs (by simp), readPair_named hn]
    rw [hread, hown, List.singleton_append] at hmem hperm
    rcases List.mem_cons.mp hmem with he | hmem
    · exact append_codeSuffix_ne _ (congrArg Prod.snd he)
    rcases List.mem_cons.mp hmem with he | hmem
    · have hlen := congrArg (List.length ∘ Prod.snd) he
      simp only [Function.comp_apply, List.length_append, length_codeSuffix, codePair] at hlen
      have hcode : responseCode.length = 4 := by decide
      omega
    · obtain ⟨p, hp, he⟩ := List.mem_map.mp hmem
      have hvalue : p.value = decode value ++ codeSuffix := congrArg Prod.snd he
      have hpname : p.name = decode name := congrArg Prod.fst he
      rw [← he, ← hpname] at hperm
      exact shortened_not_perm hd hp hvalue hperm
  · -- the name read has a question mark in it
    have hsplit : segment ++ codeSuffix = (segment ++ '?' :: responseType) ++ '=' :: responseCode := by
      simp [codeSuffix, codeText]
    have hn : '=' ∉ segment ++ '?' :: responseType := by
      rw [List.mem_append, not_or]
      exact ⟨hname, by decide⟩
    have hdec : decode (segment ++ '?' :: responseType) = decode segment ++ '?' :: responseType := by
      have happ : decode (segment ++ '?' :: responseType) = decode segment ++ decode ('?' :: responseType) :=
        decode_append rfl (by decide) (by decide) (by decide) segment responseType
      have hmark : decode ('?' :: responseType) = '?' :: responseType := decode_eq_self_iff.mpr (by decide)
      rw [happ, hmark]
    rw [hsplit, readPair_named hn, hdec] at hmem
    have hin : '?' ∈ decode segment ++ '?' :: responseType := by simp
    rcases List.mem_append.mp hmem with hmem | hmem
    · by_cases hnil : segment = []
      · rw [hnil, parse_nil] at hmem
        exact absurd hmem List.not_mem_nil
      · rw [parse_segment hs hnil, readPair_unnamed hname, List.mem_singleton] at hmem
        have hlen := congrArg (List.length ∘ Prod.fst) hmem
        simp only [Function.comp_apply, List.length_append, List.length_cons] at hlen
        omega
    rcases List.mem_cons.mp hmem with he | hmem
    · have hfst : decode segment ++ '?' :: responseType = responseType := congrArg Prod.fst he
      rw [hfst] at hin
      exact absurd hin (by decide)
    · obtain ⟨p, _, he⟩ := List.mem_map.mp hmem
      have hfst : p.name = decode segment ++ '?' :: responseType := congrArg Prod.fst he
      rw [← hfst] at hin
      exact p.name_ne (by decide) hin

end Sent

/-- A URL that parameters are appended to in the right place. -/
def Extensible (authUrl : List Char) : Prop :=
  '#' ∉ authUrl ∧ ('?' ∈ authUrl → authUrl.getLast? = some '?')

instance (authUrl : List Char) : Decidable (Extensible authUrl) :=
  inferInstanceAs (Decidable (_ ∧ _))

/-- The separator behind the URL. -/
def joint (authUrl : List Char) : Char :=
  if authUrl.getLast? = some '?' then '&' else '?'

section Extension

variable {ps : List Param}

theorem parse_code (ps : List Param) : parse (unfragmented (codeText ++ paramText ps)) = codePair :: readParams ps := by
  have hread : readPair codeText = codePair := by
    have htype : decode responseType = responseType := decode_eq_self_iff.mpr (by decide)
    have hcode : decode responseCode = responseCode := decode_eq_self_iff.mpr (by decide)
    rw [codeText, readPair_named (by decide), htype, hcode]
    rfl
  rw [parse_behind (by decide) (by decide) (by decide), hread]

theorem perm_sent_iff (hd : Distinct ps) (own : List (List Char × List Char)) :
    (own ++ codePair :: readParams ps).Perm (own ++ sent ps) ↔ ∀ p ∈ ps, Unaltered p.value := by
  rw [List.perm_append_left_iff, sent, List.perm_cons, readParams_perm_iff hd]

theorem appended_iff (hd : Distinct ps) (authUrl : List Char) :
    (parse (query (authUrl ++ joint authUrl :: (codeText ++ paramText ps)))).Perm
        (parse (query authUrl) ++ sent ps) ↔ Extensible authUrl ∧ ∀ p ∈ ps, Unaltered p.value := by
  by_cases hhash : '#' ∈ authUrl
  · -- everything appended is part of the fragment
    obtain ⟨u, v, rfl, hu⟩ := List.eq_append_cons_of_mem hhash
    have hsame : query (u ++ '#' :: v ++ joint (u ++ '#' :: v) :: (codeText ++ paramText ps)) = query (u ++ '#' :: v) := by
      rw [query, query, List.append_assoc, List.cons_append, unfragmented_cut hu, unfragmented_cut hu]
    rw [hsame]
    refine iff_of_false (fun hperm => ?_) (fun h => h.1.1 hhash)
    have hlen := hperm.length_eq
    simp [sent] at hlen
  by_cases hmark : '?' ∈ authUrl
  · obtain ⟨u, v, rfl, hu⟩ := List.eq_append_cons_of_mem hmark
    have huf : '#' ∉ u := fun h => hhash (List.mem_append_left _ h)
    have hvf : '#' ∉ v := fun h => hhash (List.mem_append_right _ (List.mem_cons_of_mem _ h))
    have hquery : ∀ t, query (u ++ '?' :: v ++ t) = v ++ unfragmented t := by
      intro t
      rw [List.append_assoc, List.cons_append, query_of_mark hu huf, unfragmented_append hvf]
    have hown : query (u ++ '?' :: v) = v := by
      rw [query_of_mark hu huf, unfragmented_of_not_mem hvf]
    by_cases hlast : (u ++ '?' :: v).getLast? = some '?'
    · have hjoint : joint (u ++ '?' :: v) = '&' := if_pos hlast
      have hamp : ∀ t, unfragmented ('&' :: t) = '&' :: unfragmented t := fun t => by simp [unfragmented]
      have hext : Extensible (u ++ '?' :: v) := ⟨hhash, fun _ => hlast⟩
      rw [hjoint, hquery, hown, hamp, parse_join, parse_code, perm_sent_iff hd]
      exact (and_iff_right hext).symm
    · have hjoint : joint (u ++ '?' :: v) = '?' := if_neg hlast
      have hnot : ¬ Extensible (u ++ '?' :: v) := fun h => hlast (h.2 hmark)
      obtain ⟨front, segment, hs, hsub, happ⟩ := exists_last_segment v
      have hfront : parse v = front ++ parse segment := by simpa using happ []
      have hsf : '#' ∉ segment ++ codeSuffix := by
        rw [List.mem_append, not_or]
        exact ⟨fun h => hvf (hsub _ h), by decide⟩
      have hsa : '&' ∉ segment ++ codeSuffix := by
        rw [List.mem_append, not_or]
        exact ⟨hs, by decide⟩
      have hread : parse (v ++ unfragmented ('?' :: (codeText ++ paramText ps))) =
          front ++ readPair (segment ++ codeSuffix) :: readParams ps := by
        have hsegment : segment ++ unfragmented ('?' :: (codeText ++ paramText ps)) =
            unfragmented (segment ++ codeSuffix ++ paramText ps) := by
          rw [List.append_assoc, unfragmented_append fun h => hvf (hsub _ h)]
          rfl
        rw [happ, hsegment, parse_behind hsa hsf (by simp [codeSuffix])]
      rw [hjoint, hquery, hown, hread, hfront, List.append_assoc, List.perm_append_left_iff]
      exact iff_of_false (swallowed_not_perm hd hs) fun h => hnot h.1
  · have hlast : ¬ authUrl.getLast? = some '?' := fun h => hmark (List.mem_of_getLast? h)
    have hjoint : joint authUrl = '?' := if_neg hlast
    have hext : Extensible authUrl := ⟨hhash, fun h => absurd h hmark⟩
    rw [hjoint, query_of_mark hmark hhash, query_of_no_mark hmark hhash, parse_code, parse_nil,
      ← List.nil_append (codePair :: _), perm_sent_iff hd]
    exact (and_iff_right hext).symm

end Extension

/-- The parameters of the request. -/
def loginParams (clientId state redirect : String) (scope : Option String) : List Param :=
  [⟨"client_id".toList, clientId.toList, escapeBlanks clientId.toList, by decide, .inr rfl⟩,
    ⟨"state".toList, state.toList, state.toList, by decide, .inl rfl⟩,
    ⟨"redirect_uri".toList, redirect.toList, escapeBlanks redirect.toList, by decide, .inr rfl⟩] ++
  scope.toList.map fun scope =>
    ⟨"scope".toList, scope.toList, escapeBlanks scope.toList, by decide, .inr rfl⟩

section Login

theorem loginParams_distinct (clientId state redirect : String) (scope : Option String) :
    Distinct (loginParams clientId state redirect scope) := by
  have hall : (["client_id".toList, "state".toList, "redirect_uri".toList, "scope".toList]).Nodup ∧
      responseType ∉ ["client_id".toList, "state".toList, "redirect_uri".toList, "scope".toList] := by
    decide
  have hsub : ((loginParams clientId state redirect scope).map Param.name).Sublist
      ["client_id".toList, "state".toList, "redirect_uri".toList, "scope".toList] := by
    cases scope with
    | none => exact List.sublist_append_left ["client_id".toList, "state".toList, "redirect_uri".toList] _
    | some scope => exact List.Sublist.refl _
  refine ⟨hsub.nodup hall.1, fun p hp he => hall.2 (hsub.subset ?_)⟩
  exact List.mem_map.mpr ⟨p, hp, he⟩

theorem redirectUrl_eq {p : Provider} {authUrl clientId : String} (ha : p.oauthAuthUrl = some authUrl)
    (hc : p.oauthClientId = some clientId) (state redirect : String) :
    (redirectUrl p state (some redirect)).map String.toList = some (authUrl.toList ++
      joint authUrl.toList :: (codeText ++ paramText (loginParams clientId state redirect p.oauthScope))) := by
  have hjoint : (if authUrl.toList.getLast? = some '?' then "&" else "?").toList = [joint authUrl.toList] := by
    rw [joint]
    split <;> decide
  have hcode : "response_type=code".toList = codeText := by decide
  have hclient : "&client_id=".toList = '&' :: ("client_id".toList ++ ['=']) := by decide
  have hstate : "&state=".toList = '&' :: ("state".toList ++ ['=']) := by decide
  have hredirect : "&redirect_uri=".toList = '&' :: ("redirect_uri".toList ++ ['=']) := by decide
  have hscope : "&scope=".toList = '&' :: ("scope".toList ++ ['=']) := by decide
  have hempty : "".toList = [] := rfl
  rw [redirectUrl, ha, hc]
  simp only [Option.bind_eq_bind, Option.bind_some, Option.pure_def, Option.map_some, String.toList_append]
  rw [hjoint, hcode, hclient, hstate, hredirect]
  cases p.oauthScope with
  | none =>
    simp only [hempty, replaceBlanks, String.toList_ofList, paramText, loginParams, Param.segment]
    simp
  | some scope =>
    simp only [String.toList_append, hscope, replaceBlanks, String.toList_ofList, paramText, loginParams, Param.segment]
    simp

/-- What the login asks for. -/
def askedFor (clientId state redirect : String) (scope : Option String) : List (List Char × List Char) :=
  [("response_type".toList, "code".toList), ("client_id".toList, clientId.toList), ("state".toList, state.toList),
    ("redirect_uri".toList, redirect.toList)] ++ scope.toList.map fun scope => ("scope".toList, scope.toList)

theorem sent_loginParams (clientId state redirect : String) (scope : Option String) :
    sent (loginParams clientId state redirect scope) = askedFor clientId state redirect scope := by
  cases scope <;> rfl

theorem unaltered_loginParams_iff (clientId state redirect : String) (scope : Option String) :
    (∀ p ∈ loginParams clientId state redirect scope, Unaltered p.value) ↔
      Unaltered clientId.toList ∧ Unaltered state.toList ∧ Unaltered redirect.toList ∧
        ∀ s, scope = some s → Unaltered s.toList := by
  cases scope <;> simp [loginParams]

variable {c c' : Config} {id : Uuid} {p : Provider} {authUrl clientId state redirect : String} {reply : Json}

theorem reply_redirectUrl (hp : c.provider? id = some p)
    (hreply : fnOauthStartReply c id state (some redirect) = .ok (c', reply)) :
    reply.text "redirect_url" = redirectUrl p state (some redirect) := by
  rw [fnOauthStartReply, bind_eq_ok] at hreply
  obtain ⟨d, _, hreply⟩ := hreply
  rw [hp] at hreply
  obtain ⟨rfl, rfl⟩ := Prod.mk.inj (Except.ok.inj hreply)
  rw [Json.text, Json.get_object (by simp)]
  cases redirectUrl p state (some redirect) <;> rfl

theorem redirectUrl_roundTrips_iff (ha : p.oauthAuthUrl = some authUrl) (hc : p.oauthClientId = some clientId) :
    (∃ url, redirectUrl p state (some redirect) = some url ∧ (parse (query url.toList)).Perm
        (parse (query authUrl.toList) ++ askedFor clientId state redirect p.oauthScope)) ↔
      Extensible authUrl.toList ∧ Unaltered clientId.toList ∧ Unaltered state.toList ∧
        Unaltered redirect.toList ∧ ∀ scope, p.oauthScope = some scope → Unaltered scope.toList := by
  have hdistinct := loginParams_distinct clientId state redirect p.oauthScope
  obtain ⟨url, hurl, htext⟩ := Option.map_eq_some_iff.mp (redirectUrl_eq ha hc state redirect)
  have happended := appended_iff hdistinct authUrl.toList
  rw [← htext, sent_loginParams, unaltered_loginParams_iff] at happended
  rw [hurl]
  simpa using happended

/-- The URL comes back as it was meant exactly when the appended text lands in the query and no
value has a character in it that a query gives a meaning. -/
theorem oauthStart_roundTrips_iff (hp : c.provider? id = some p) (ha : p.oauthAuthUrl = some authUrl)
    (hc : p.oauthClientId = some clientId)
    (hreply : fnOauthStartReply c id state (some redirect) = .ok (c', reply)) :
    (∃ url, reply.text "redirect_url" = some url ∧ (parse (query url.toList)).Perm
        (parse (query authUrl.toList) ++ askedFor clientId state redirect p.oauthScope)) ↔
      Extensible authUrl.toList ∧ Unaltered clientId.toList ∧ Unaltered state.toList ∧
        Unaltered redirect.toList ∧ ∀ scope, p.oauthScope = some scope → Unaltered scope.toList := by
  rw [reply_redirectUrl hp hreply]
  exact redirectUrl_roundTrips_iff ha hc

end Login

section Example

/-- A provider whose URL carries a parameter of its own. -/
def promptingProvider : Provider :=
  { providerId := 7
    name := "login"
    kind := .oauth
    baseUrl := "https://api.example.com"
    oauthAuthUrl := some "https://login.example.com/authorize?prompt=consent"
    oauthClientId := some "client"
    oauthScope := some "openid email" }

/-- The same without a query. -/
def plainProvider : Provider :=
  { promptingProvider with oauthAuthUrl := some "https://login.example.com/authorize" }

def providedBy (p : Provider) : Config :=
  { providers := [p] }

theorem plainProvider_roundTrips : ∃ c' reply,
    fnOauthStartReply (providedBy plainProvider) 7 "ab12" (some "https://app.example.com/back") = .ok (c', reply) ∧
      ∃ url, reply.text "redirect_url" = some url ∧ (parse (query url.toList)).Perm
        (parse (query "https://login.example.com/authorize".toList) ++
          askedFor "client" "ab12" "https://app.example.com/back" (some "openid email")) := by
  have hreply : fnOauthStartReply (providedBy plainProvider) 7 "ab12" (some "https://app.example.com/back") =
      .ok (_, _) := rfl
  have hscope : ∀ scope, plainProvider.oauthScope = some scope → Unaltered scope.toList := by
    intro scope h
    obtain rfl : "openid email" = scope := Option.some.inj h
    decide
  refine ⟨_, _, hreply, (oauthStart_roundTrips_iff (p := plainProvider) rfl rfl rfl hreply).mpr ?_⟩
  exact ⟨by decide, by decide, by decide, by decide, hscope⟩

/-- The response type is lost in the provider's own parameter. -/
theorem prompt_swallows_response_type : ∃ c' reply,
    fnOauthStartReply (providedBy promptingProvider) 7 "ab12" (some "https://app.example.com/back") = .ok (c', reply) ∧
      ¬ ∃ url, reply.text "redirect_url" = some url ∧ (parse (query url.toList)).Perm
        (parse (query "https://login.example.com/authorize?prompt=consent".toList) ++
          askedFor "client" "ab12" "https://app.example.com/back" (some "openid email")) := by
  have hreply : fnOauthStartReply (providedBy promptingProvider) 7 "ab12" (some "https://app.example.com/back") =
      .ok (_, _) := rfl
  refine ⟨_, _, hreply, fun hread => ?_⟩
  rw [reply_redirectUrl (p := promptingProvider) rfl hreply] at hread
  have hcond := (redirectUrl_roundTrips_iff (p := promptingProvider) rfl rfl).mp hread
  exact absurd hcond.1 (by decide)

end Example

end Allgres
