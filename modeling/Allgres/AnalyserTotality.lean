import Allgres.AlignedText
import Allgres.ValidateSql

/-! The analyser on bytes answers on every aligned text, without a panic, what
the analyser on characters does. -/

namespace Allgres.Bytewise

open Scan Bytes

theorem beq_ofAscii {c d : Char} (hc : Ascii c) (hd : Ascii d) : (ofAscii c == ofAscii d) = (c == d) := by
  by_cases h : c = d
  · simp [h]
  · have hne : ofAscii c ≠ ofAscii d := fun he => h ((ofAscii_inj hc hd).mp he)
    simp [h, hne]

theorem beq_wide {b : Byte} (hb : 128 ≤ b.toNat) {d : Char} (hd : Ascii d) : (b == ofAscii d) = false := by
  simp only [beq_eq_false_iff_ne]
  intro he
  have hlow := toNat_ofAscii hd
  rw [he] at hb
  omega

theorem tokenEnd_ascii {c : Char} (hc : Ascii c) : tokenEnd (ofAscii c) = Allgres.tokenEnd c := by
  simp only [tokenEnd, asciiWhitespace, Allgres.tokenEnd, Allgres.asciiWhitespace]
  repeat rw [beq_ofAscii hc (by decide)]

theorem tokenEnd_wide {b : Byte} (hb : 128 ≤ b.toNat) : tokenEnd b = false := by
  simp only [tokenEnd, asciiWhitespace]
  repeat rw [beq_wide hb (by decide)]
  rfl

theorem ofAscii_ne {c d : Char} (hc : Ascii c) (hd : Ascii d) (h : c ≠ d) : ofAscii c ≠ ofAscii d :=
  fun he => h ((ofAscii_inj hc hd).mp he)

theorem wide_ne {b : Byte} (hb : 128 ≤ b.toNat) {d : Char} (hd : Ascii d) : b ≠ ofAscii d :=
  beq_eq_false_iff_ne.mp (beq_wide hb hd)

theorem not_tokenEnd_wide {c : Char} (hc : ¬ Ascii c) : Allgres.tokenEnd c = false := by
  simp only [Allgres.tokenEnd, Allgres.asciiWhitespace, Bool.or_eq_false_iff, beq_eq_false_iff_ne]
  refine ⟨⟨⟨⟨⟨⟨⟨⟨?_, ?_⟩, ?_⟩, ?_⟩, ?_⟩, ?_⟩, ?_⟩, ?_⟩, ?_⟩ <;> exact fun h => hc (h ▸ by decide)

section Scanners

variable {s : List Byte} {i : Nat} {front rest : Chars}

theorem readTokenLoop_eq (ha : Aligned rest) : ∀ {i front} (out : Chars), Split s i front rest →
    ∃ j, readTokenLoop s i out = .ok (out ++ readTokenAux false rest, j) := by
  induction ha with
  | nil =>
    intro i front out h
    refine ⟨i, ?_⟩
    rw [readTokenLoop, dif_neg h.not_lt_length]
    simp [readTokenAux]
  | @plain c t hc _ ih =>
    intro i front out h
    rw [readTokenLoop, dif_pos h.lt_length]
    by_cases hasc : Ascii c
    · rw [h.getElem_ascii hasc h.lt_length, if_neg (ofAscii_ne hasc (by decide) hc), tokenEnd_ascii hasc,
        toNat_ofAscii hasc, asChar_ofAscii hasc, if_pos hasc]
      cases he : Allgres.tokenEnd c with
      | true => exact ⟨i, by simp [readTokenAux, hc, he]⟩
      | false =>
        obtain ⟨j, hj⟩ := ih (out ++ [c]) (h.next_ascii hasc)
        exact ⟨j, by simp [readTokenAux, hc, he, hj]⟩
    · have hi := h.lt_length
      have hwide := h.getElem_wide hasc hi
      have hsmall : ¬ (s[i]).toNat < 128 := by omega
      obtain ⟨j, hj⟩ := ih (out ++ [c]) h.next
      have he := not_tokenEnd_wide hasc
      rw [if_neg (wide_ne hwide (by decide)), tokenEnd_wide hwide, if_neg hsmall, h.charAt]
      exact ⟨j, by simp [readTokenAux, hc, he, hj, bind, Except.bind]⟩
  | @pair c t hc _ ih =>
    intro i front out h
    have hbs : Ascii '\\' := by decide
    have hnext := h.next_ascii hbs
    obtain ⟨j, hj⟩ := ih (out ++ [c]) (hnext.next_ascii hc)
    refine ⟨j, ?_⟩
    rw [readTokenLoop, dif_pos h.lt_length, h.getElem_ascii hbs h.lt_length, if_pos rfl,
      dif_pos hnext.lt_length, hnext.getElem_ascii hc hnext.lt_length, asChar_ofAscii hc]
    simp [readTokenAux, hj]

theorem isPrefixOf_utf8 {w : Chars} (hw : AsciiWord w) (t : Chars) :
    (utf8 w).isPrefixOf (utf8 t) = w.isPrefixOf t := by
  rw [isPrefixOf_eq_after, isPrefixOf_eq_after, utf8_ascii hw, after_utf8 hw, Option.isSome_map]

theorem readToken_eq (ha : Aligned rest) : ∃ j, readToken (utf8 rest) = .ok (Allgres.readToken rest, j) := by
  obtain ⟨j, hj⟩ := readTokenLoop_eq ha [] (Split.start rest)
  rw [readToken, isPrefixOf_utf8 (asciiWord_of_all (by decide)), isPrefixOf_utf8 (asciiWord_of_all (by decide)),
    Allgres.readToken, hj]
  split_ifs
  · exact ⟨2, rfl⟩
  · exact ⟨2, rfl⟩
  · exact ⟨j, rfl⟩

theorem bodyLoop_skip {op cl : Char} (hop : Ascii op) (hcl : Ascii cl) (d n : Nat) :
    ∀ {i}, WideBytes s i n →
      bodyLoop (ofAscii op) (ofAscii cl) s i d = bodyLoop (ofAscii op) (ofAscii cl) s (i + n) d := by
  induction n with
  | zero => exact fun _ => rfl
  | succ n ih =>
    intro i h
    obtain ⟨hi, hb⟩ := h.head
    rw [bodyLoop, dif_pos hi, if_neg (wide_ne hb (by decide)), if_neg (wide_ne hb hop), if_neg (wide_ne hb hcl),
      ih h.tail, Nat.add_right_comm, Nat.add_assoc]

theorem bodyLoop_eq {op cl : Char} (hop : Ascii op) (hcl : Ascii cl) (ha : Aligned rest) :
    ∀ {i front} (d : Nat), Split s i front rest →
      bodyLoop (ofAscii op) (ofAscii cl) s i d = .ok (utf8 (front ++ insideAux '\\' op cl false d rest)) := by
  induction ha with
  | nil =>
    intro i front d h
    rw [bodyLoop, dif_neg h.not_lt_length, h.bytes]
    simp [insideAux]
  | @plain c t hc _ ih =>
    intro i front d h
    by_cases hasc : Ascii c
    · have hnext := h.next_ascii hasc
      rw [bodyLoop, dif_pos h.lt_length, insideAux, if_neg hc, h.getElem_ascii hasc h.lt_length, if_neg (ofAscii_ne hasc (by decide) hc)]
      simp only [ofAscii_inj hasc hop, ofAscii_inj hasc hcl]
      split_ifs with ho hx hd
      · simp [ih (d + 1) hnext]
      · simp [h.sliceTo]
      · simp [ih (d - 1) hnext]
      · simp [ih d hnext]
    · have hno : c ≠ op := fun he => hasc (he ▸ hop)
      have hnc : c ≠ cl := fun he => hasc (he ▸ hcl)
      rw [bodyLoop_skip hop hcl d c.utf8Size (h.wideBytes hasc), ih d h.next, insideAux, if_neg hc,
        if_neg hno, if_neg hnc]
      simp
  | @pair c t hc _ ih =>
    intro i front d h
    have hbs : Ascii '\\' := by decide
    have hnext := (h.next_ascii hbs).next_ascii hc
    rw [bodyLoop, dif_pos h.lt_length, h.getElem_ascii hbs h.lt_length, if_pos rfl, ih d hnext]
    simp [insideAux]

theorem nodeBody_eq (ha : Aligned rest) : nodeBody (utf8 rest) = .ok (utf8 (Allgres.nodeBody rest)) :=
  bodyLoop_eq (by decide) (by decide) ha 0 (Split.start rest)

theorem parenBody_eq (ha : Aligned rest) : parenBody (utf8 rest) = .ok (utf8 (Allgres.parenBody rest)) :=
  bodyLoop_eq (by decide) (by decide) ha 0 (Split.start rest)

theorem quotedStringsLoop_skip (out : List Chars) (n : Nat) :
    ∀ {i}, WideBytes s i n →
      quotedStringsLoop s i none out = quotedStringsLoop s (i + n) none out := by
  induction n with
  | zero => exact fun _ => rfl
  | succ n ih =>
    intro i h
    obtain ⟨hi, hb⟩ := h.head
    rw [quotedStringsLoop, dif_pos hi]
    dsimp only
    rw [if_pos (wide_ne hb (by decide)), ih h.tail, Nat.add_right_comm, Nat.add_assoc]

/-- The state of the loop as that of the reader on characters. -/
def quoteState : Option Chars → QuoteState
  | none => .outside
  | some acc => .inside acc

theorem quotedStringsLoop_eq (ha : Aligned rest) : ∀ {i front} (current : Option Chars) (out : List Chars),
    Split s i front rest →
      quotedStringsLoop s i current out = .ok (out ++ quotedStringsAux (quoteState current) rest) := by
  induction ha with
  | nil =>
    intro i front current out h
    rw [quotedStringsLoop, dif_neg h.not_lt_length]
    cases current <;> rfl
  | @plain c t hc _ ih =>
    intro i front current out h
    by_cases hasc : Ascii c
    · have hnext := h.next_ascii hasc
      have hi := h.lt_length
      have hget := h.getElem_ascii hasc hi
      have hquote : s[i] = ofAscii '"' ↔ c = '"' := by rw [hget, ofAscii_inj hasc (by decide)]
      have hpair : ¬ (s[i] = ofAscii '\\' ∧ i + 1 < s.length) :=
        fun hp => ofAscii_ne hasc (by decide) hc (hget.symm.trans hp.1)
      rw [quotedStringsLoop, dif_pos h.lt_length]
      cases current with
      | none => by_cases hq : c = '"' <;> simp [quoteState, quotedStringsAux, hquote, hq, ih _ _ hnext]
      | some acc =>
        dsimp only
        rw [dif_neg hpair]
        by_cases hq : c = '"'
        · simp [quoteState, quotedStringsAux, hquote, hq, ih _ _ hnext]
        · have hne : ofAscii c ≠ ofAscii '"' := ofAscii_ne hasc (by decide) hq
          simp [quoteState, quotedStringsAux, hq, hc, hget, hne, toNat_ofAscii hasc, asChar_ofAscii hasc, hasc,
            ih _ _ hnext]
    · have hq : c ≠ '"' := fun he => hasc (he ▸ by decide)
      cases current with
      | none =>
        rw [quotedStringsLoop_skip out c.utf8Size (h.wideBytes hasc), ih none out h.next]
        simp [quoteState, quotedStringsAux, hq]
      | some acc =>
        have hi := h.lt_length
        have hwide := h.getElem_wide hasc hi
        have hpair : ¬ (s[i] = ofAscii '\\' ∧ i + 1 < s.length) := fun hp => wide_ne hwide (by decide) hp.1
        have hsmall : ¬ (s[i]).toNat < 128 := by omega
        rw [quotedStringsLoop, dif_pos h.lt_length]
        dsimp only
        rw [if_neg (wide_ne hwide (by decide)), dif_neg hpair, if_neg hsmall, h.charAt]
        simp [quoteState, quotedStringsAux, hq, hc, ih _ _ h.next, bind, Except.bind]
  | @pair c t hc _ ih =>
    intro i front current out h
    have hbs : Ascii '\\' := by decide
    have hfirst := h.next_ascii hbs
    have hnext := hfirst.next_ascii hc
    have hi := h.lt_length
    have hi' := hfirst.lt_length
    have hget := h.getElem_ascii hbs hi
    have hget' := hfirst.getElem_ascii hc hi'
    have hopen : s[i] ≠ ofAscii '"' := by
      rw [hget]
      decide
    cases current with
    | none =>
      -- outside a string the two bytes are taken one by one
      have hquote : s[i + 1] = ofAscii '"' ↔ c = '"' := by rw [hget', ofAscii_inj hc (by decide)]
      rw [quotedStringsLoop, dif_pos h.lt_length]
      dsimp only
      rw [if_pos hopen, quotedStringsLoop, dif_pos hfirst.lt_length]
      by_cases hq : c = '"' <;> simp [quoteState, quotedStringsAux, hquote, hq, ih _ _ hnext]
    | some acc =>
      rw [quotedStringsLoop, dif_pos h.lt_length]
      dsimp only
      rw [if_neg hopen, dif_pos ⟨hget, hfirst.lt_length⟩, hget', asChar_ofAscii hc, ih _ _ hnext]
      simp [quoteState, quotedStringsAux]

theorem quotedStrings_eq (ha : Aligned rest) : quotedStrings (utf8 rest) = .ok (Allgres.quotedStrings rest) :=
  quotedStringsLoop_eq ha none [] (Split.start rest)

theorem field_eq (ha : Aligned rest) {name : Chars} (hname : AsciiWord name) (hplain : '\\' ∉ name) :
    field (utf8 rest) name = .ok (Allgres.field rest name) := by
  have hne : ':' :: name ++ [' '] ≠ [] := nofun
  have hascii : AsciiWord (':' :: name ++ [' ']) := by
    intro c hc
    simp only [List.cons_append, List.mem_cons, List.mem_append, List.not_mem_nil, or_false] at hc
    rcases hc with rfl | hc | rfl
    · decide
    · exact hname c hc
    · decide
  have hword : '\\' ∉ ':' :: name ++ [' '] := by simpa using hplain
  rw [field, Allgres.field]
  cases hf : find (utf8 (':' :: name ++ [' '])) (utf8 rest) with
  | none =>
    rw [find_utf8_none hne hascii hf]
    rfl
  | some p =>
    obtain ⟨before, r, hr, hsplit⟩ := (Split.start rest).find hne hascii hf
    obtain ⟨j, hj⟩ := readToken_eq (ha.findAfter hne hword hr)
    rw [Nat.zero_add] at hsplit
    simp only [hsplit.sliceFrom, bind, Except.bind, hj, hr, Option.bind_some]
    rfl

theorem readIdent_eq (t : Chars) : readIdent (utf8 t) = Allgres.readIdent t := by
  rw [readIdent, chars_utf8]
  rfl

/-- The loop over the matches of a word visits them in order. -/
theorem findLoop_eq {β : Type} (needle : SearchWord) (hword : '\\' ∉ needle.chars)
    {read : List Byte → Checked (Option β)} {answer : Chars → Option β}
    (hread : ∀ r, Aligned r → read (utf8 r) = .ok (answer r)) (n : Nat) :
    ∀ {i front rest} (out : List β), Aligned rest → Split s i front rest → rest.length < n →
      findLoop needle read s i out =
        .ok (out ++ (findAllAux needle.chars n rest).filterMap answer) := by
  induction n with
  | zero => exact fun _ _ _ h => absurd h (Nat.not_lt_zero _)
  | succ n ih =>
    intro i front rest out ha h hn
    rw [findLoop]
    split
    · next e he =>
      rw [h.sliceFrom] at he
      cases he
    · next u hu =>
      obtain rfl : utf8 rest = u := Except.ok.inj (h.sliceFrom.symm.trans hu)
      cases hf : find (utf8 needle.chars) (utf8 rest) with
      | none => simp [findAllAux, find_utf8_none needle.nonempty needle.ascii hf]
      | some p =>
        obtain ⟨before, r, hr, hsplit⟩ := h.find needle.nonempty needle.ascii hf
        have har := ha.findAfter needle.nonempty hword hr
        have hshort : r.length < n := by
          obtain ⟨q, hq⟩ := findAfter_eq_some hr
          have hlen := congrArg List.length hq
          have hpos := List.length_pos_iff.mpr needle.nonempty
          simp only [List.length_append] at hlen
          omega
        simp only [hsplit.sliceFrom, hread r har, bind, Except.bind, ih _ har hsplit hshort, findAllAux, hr]
        cases ha : answer r <;> simp [ha]

theorem findLoop_start {β : Type} (needle : SearchWord) (hword : '\\' ∉ needle.chars)
    {read : List Byte → Checked (Option β)} {answer : Chars → Option β}
    (hread : ∀ r, Aligned r → read (utf8 r) = .ok (answer r)) (ha : Aligned rest) :
    findLoop needle read (utf8 rest) 0 [] = .ok ((findAll needle.chars rest).filterMap answer) :=
  findLoop_eq needle hword hread (rest.length + 1) [] ha (Split.start rest) (Nat.lt_succ_self _)

theorem contains_eq {w : Chars} (hne : w ≠ []) (hw : AsciiWord w) (t : Chars) :
    contains (utf8 t) w = occurs w t := by
  rw [contains, occurs]
  cases hf : find (utf8 w) (utf8 t) with
  | none => simp [find_utf8_none hne hw hf]
  | some p =>
    obtain ⟨before, r, hr, _⟩ := (Split.start t).find hne hw hf
    simp [hr]

end Scanners

section Readers

variable {r : Chars}

theorem rawKind_eq (ha : Aligned r) : rawKind (utf8 r) = .ok (Allgres.rawKind r) := by
  have hne : ":stmt ".toList ++ ['{'] ≠ [] := by simp
  have hw : AsciiWord (":stmt ".toList ++ ['{']) := asciiWord_of_all (by decide)
  rw [rawKind, nodeBody_eq ha, Allgres.rawKind]
  simp only [bind, Except.bind]
  cases hf : find (utf8 (":stmt ".toList ++ ['{'])) (utf8 (Allgres.nodeBody r)) with
  | none =>
    rw [find_utf8_none hne hw hf]
    rfl
  | some p =>
    obtain ⟨before, v, hv, hsplit⟩ := (Split.start _).find hne hw hf
    rw [Nat.zero_add] at hsplit
    simp only [hsplit.sliceFrom, hv, readIdent_eq]
    rfl

theorem readRelation_eq (ha : Aligned r) : readRelation (utf8 r) = .ok (Allgres.readRelation r) := by
  have hbody : Aligned (Allgres.nodeBody r) := ha.insideAux 0
  have hfield : ∀ name, AsciiWord name → '\\' ∉ name →
      field (utf8 (Allgres.nodeBody r)) name = .ok (Allgres.field (Allgres.nodeBody r) name) :=
    fun _ hname hplain => field_eq hbody hname hplain
  have hname := hfield "relname".toList (asciiWord_of_all (by decide)) (by decide)
  have hschema := hfield "schemaname".toList (asciiWord_of_all (by decide)) (by decide)
  rw [readRelation, nodeBody_eq ha, Allgres.readRelation]
  simp only [bind, Except.bind, hname, hschema]
  cases Allgres.field (Allgres.nodeBody r) "relname".toList <;> rfl

theorem readCte_eq (ha : Aligned r) : readCte (utf8 r) = .ok (Allgres.readToken r) := by
  obtain ⟨j, hj⟩ := readToken_eq ha
  simp only [readCte, hj, bind, Except.bind]
  rfl

theorem readFunction_eq (ha : Aligned r) : readFunction (utf8 r) = .ok (Allgres.readFunction r) := by
  have hbody : Aligned (Allgres.parenBody r) := ha.insideAux 0
  simp only [readFunction, parenBody_eq ha, bind, Except.bind, quotedStrings_eq hbody]
  rfl

end Readers

theorem utf8_eq_nil {t : Chars} : utf8 t = [] ↔ t = [] := by
  constructor
  · intro h
    have := congrArg chars h
    rwa [chars_utf8] at this
  · intro h
    rw [h]
    rfl

/-- On an aligned text the two analysers agree. -/
theorem analyzeDump_eq {t : Chars} (ha : Aligned t) : analyzeDump (utf8 t) = .ok (Allgres.analyzeDump t) := by
  rw [analyzeDump, Allgres.analyzeDump]
  by_cases ht : t = []
  · rw [if_pos (utf8_eq_nil.mpr ht), if_pos ht]
    rfl
  · rw [if_neg (fun h => ht (utf8_eq_nil.mp h)), if_neg ht]
    have hkinds : findLoop rawStmtWord rawKind (utf8 t) 0 [] = .ok (statementKinds t) :=
      findLoop_start rawStmtWord (by decide) (fun r hr => rawKind_eq hr) ha
    have hrelations := findLoop_start rangeVarWord (by decide) (fun r hr => readRelation_eq hr) ha
    have hctes := findLoop_start ctenameWord (by decide) (fun r hr => readCte_eq hr) ha
    have hfunctions := findLoop_start funcnameWord (by decide) (fun r hr => readFunction_eq hr) ha
    have hinto : contains (utf8 t) (":intoClause ".toList ++ ['{']) = occurs (":intoClause ".toList ++ ['{']) t :=
      contains_eq (by simp) (asciiWord_of_all (by decide)) t
    have hdml : (writeTags.any fun tag => contains (utf8 t) ('{' :: tag)) =
        writeTags.any fun tag => occurs ('{' :: tag) t := by
      have hall : ∀ tag ∈ writeTags, ('{' :: tag).all (fun c => decide (Ascii c)) = true := by decide
      have hascii : ∀ tag ∈ writeTags, AsciiWord ('{' :: tag) := fun tag hm => asciiWord_of_all (hall tag hm)
      have htags : ∀ tag ∈ writeTags, contains (utf8 t) ('{' :: tag) = occurs ('{' :: tag) t :=
        fun tag hm => contains_eq (by simp) (hascii tag hm) t
      rw [Bool.eq_iff_iff, List.any_eq_true, List.any_eq_true]
      exact exists_congr fun tag => and_congr_right fun hm => by rw [htags tag hm]
    simp only [bind, Except.bind, hkinds, hrelations, hctes, hfunctions, hinto, hdml]
    rfl

/-- The analyser answers on every dump: no slice it takes begins or ends inside a character or
behind the text. -/
theorem analyzeDump_total (statements : Nodes) :
    analyzeDump (utf8 (rawParseDump statements)) = .ok (Allgres.analyzeDump (rawParseDump statements)) := by
  have ha : Aligned (rawParseDump statements) := by
    unfold rawParseDump
    split
    · exact Aligned.nil
    · exact Node.dump_aligned _
  exact analyzeDump_eq ha

end Allgres.Bytewise
