import Allgres.ItemReading
import Mathlib.Algebra.GroupWithZero.Nat

/-! The analyser on a list of items: its answer about a printed tree, read off
the items of the tree. -/

namespace Allgres

open Scan

section Tags

/-- The tag of the node behind a label. -/
def Item.tagBehind (l : Chars) : Item → List Item → List Chars
  | .label m, .blank :: .tag t :: _ => if m = l then [t] else []
  | _, _ => []

def tagsBehind (l : Chars) : List Item → List Chars
  | [] => []
  | i :: is => i.tagBehind l is ++ tagsBehind l is

theorem outToken_opens (s t : Chars) : after ['{'] (outToken s ++ t) = none := by
  cases s with
  | nil => rfl
  | cons c s =>
    obtain ⟨front, he, hf⟩ := outToken_cons c s
    rw [he]
    rcases hf with rfl | ⟨rfl, hc, _⟩
    · rfl
    · have hne : '{' ≠ c := Ne.symm (tokenSpecial_eq_false hc).2.2.1.1
      simp [after, hne]

/-- A field starts with no bracket that opens. -/
theorem after_field {c : Char} (hc : c = '{' ∨ c = '(') {i : Item} {is : List Item}
    (hp : Printed (i :: is)) (hi : i.opensField = true) : after [c] (render (i :: is)) = none := by
  cases i with
  | label l => rcases hc with rfl | rfl <;> rfl
  | word w =>
    obtain ⟨hw, hb⟩ := hp.1
    cases w with
    | nil =>
      rcases hc with rfl | rfl <;> rcases hb with rfl | ⟨ks, rfl⟩ | ⟨ks, rfl⟩ | ⟨ks, rfl⟩ <;> rfl
    | cons d w =>
      have hd : cleanChar c = false := by rcases hc with rfl | rfl <;> decide
      have hne := cleanText_not_mem hw hd
      simp only [List.mem_cons, not_or] at hne
      simp [render_cons, Item.text, after, hne.1]
  | tag | close | lparen | rparen | blank | null | token | str | names => simp [Item.opensField] at hi

/-- Only a node starts with a brace. -/
theorem after_open {is : List Item} (hp : Printed is) : after ['{'] (render is) =
    match is with
    | .tag t :: js => some (t ++ render js)
    | _ => none := by
  cases is with
  | nil => rfl
  | cons i js =>
    cases i with
    | word w => exact after_field (Or.inl rfl) hp rfl
    | token c s => exact outToken_opens s (render js)
    | tag | close | lparen | rparen | blank | null | label | str | names => rfl

theorem takeWhile_append_stop {p : Char → Bool} {ys : Chars} (hys : ys.head?.all (fun c => !p c) = true)
    (xs : Chars) : (xs ++ ys).takeWhile p = xs.takeWhile p := by
  induction xs with
  | nil =>
    have hnone : ∀ x ∈ ([] : Chars), p x = true := nofun
    exact takeWhile_stop hnone hys
  | cons x xs ih => simp [List.takeWhile, ih]

theorem readIdent_delimited {is : List Item} (hb : Delimited is) (t : Chars) :
    readIdent (t ++ render is) = readIdent t := by
  refine takeWhile_append_stop ?_ t
  rcases hb with rfl | ⟨js, rfl⟩ | ⟨js, rfl⟩ | ⟨js, rfl⟩ <;> rfl

variable {l : Chars}

theorem Item.behind_tagBehind {i : Item} {is : List Item} (hi : i.fits is) (hp : Printed is) :
    (((i.behind (':' :: l) is).map render).filterMap (after ['{'])).map readIdent =
      (i.tagBehind l is).map readIdent := by
  cases is with
  | nil => cases i <;> rfl
  | cons b js =>
    cases b with
    | blank =>
      have hopen := after_open hp.2
      cases i with
      | label m =>
        by_cases hm : m = l
        · cases js with
          | nil => simp [Item.behind, Item.endsIn, Item.tagBehind, hm, hopen]
          | cons j ks =>
            cases j with
            | tag t =>
              have hb : Delimited ks := hp.2.1.2.1
              simp [Item.behind, Item.endsIn, Item.tagBehind, hm, hopen, readIdent_delimited hb]
            | close | lparen | rparen | blank | null | label | word | token | str | names =>
              simp [Item.behind, Item.endsIn, Item.tagBehind, hm, hopen]
        · have hend : (Item.label m).endsIn (':' :: l) = false := by
            simpa [Item.endsIn] using Ne.symm hm
          cases js with
          | nil => simp [Item.behind, hend, Item.tagBehind]
          | cons j ks => cases j <;> simp [Item.behind, hend, Item.tagBehind, hm]
      | token c s =>
        obtain ⟨j, ks, rfl, hj⟩ := hi.2 js rfl
        have hnone := after_field (Or.inl rfl) hp.2 hj
        by_cases hs : (Item.token c s).endsIn (':' :: l) = true
        · simp [Item.behind, hs, hnone, Item.tagBehind]
        · simp [Item.behind, hs, Item.tagBehind]
      | tag | close | lparen | rparen | blank | null | word | str | names =>
        simp [Item.behind, Item.endsIn, Item.tagBehind]
    | tag | close | lparen | rparen | null | label | word | token | str | names =>
      cases i <;> simp [Item.behind, Item.tagBehind]

/-- What is found of a label and the brace behind it. -/
theorem hits_tagsBehind (h : Needle ':' l) {is : List Item} (hp : Printed is) :
    (hits (':' :: l ++ [' '] ++ ['{']) (render is) []).map readIdent =
      (tagsBehind l is).map readIdent := by
  rw [hits_append_word, h.hits_render hp]
  induction is with
  | nil => rfl
  | cons i is ih =>
    rw [behind, tagsBehind, List.map_append, List.map_append, List.filterMap_append, List.map_append,
      Item.behind_tagBehind hp.1 hp.2, ih hp.2]

end Tags

section Kinds

/-- The kind read behind an opener in front of the items. -/
def kindAt (is : List Item) : Option Chars :=
  (tagsBehind "stmt".toList (bodyItems 0 is)).head?.map readIdent

/-- How often an item shows an opener. -/
def Item.openers (w : Chars) : Item → Nat
  | .tag t => if w.isPrefixOf t then 1 else 0
  | .token _ s | .str _ s => (hits ('{' :: w) s []).length
  | .names ss => (ss.map fun s => (hits ('{' :: w) s []).length).sum
  | _ => 0

def kinds : List Item → List Chars
  | [] => []
  | i :: is => (List.replicate (i.openers "RAWSTMT".toList) (kindAt is)).filterMap id ++ kinds is

theorem needle_rawStmt : Needle '{' "RAWSTMT".toList := by
  rw [String.toList_ofList]
  exact ⟨by decide, Or.inr rfl, nofun⟩

theorem needle_stmt : Needle ':' "stmt".toList := by
  rw [String.toList_ofList]
  exact ⟨by decide, Or.inl rfl, nofun⟩

theorem stmt_brace : ":stmt ".toList ++ ['{'] = ':' :: "stmt".toList ++ [' '] ++ ['{'] := by
  rw [String.toList_ofList, String.toList_ofList]
  rfl

/-- The text between an opener and the items behind it does not count. -/
theorem rawKind_append {r : Chars} {is : List Item} (hp : Printed is) (hn : Neutral '\\' '{' '}' r)
    (hr : ∀ v ∈ hits (':' :: "stmt".toList ++ [' ']) r (render (bodyItems 0 is)), after ['{'] v = none) :
    rawKind (r ++ render is) = kindAt is := by
  have hbody : nodeBody (r ++ render is) = r ++ render (bodyItems 0 is) := by
    rw [nodeBody, inside, hn]
    exact congrArg (r ++ ·) (insideAux_render hp 0)
  have hnone : hits (':' :: "stmt".toList ++ [' '] ++ ['{']) r (render (bodyItems 0 is)) = [] := by
    rw [hits_append_word, List.filterMap_eq_nil_iff]
    exact hr
  have hne : ':' :: "stmt".toList ++ [' '] ++ ['{'] ≠ [] := by simp
  rw [rawKind, hbody, stmt_brace, findAfter_eq_head_hits hne, hits_append, List.append_nil, hnone,
    List.nil_append, kindAt, ← List.head?_map, ← List.head?_map, hits_tagsBehind needle_stmt (hp.bodyItems 0)]

theorem neutral_flatMap (s : Chars) : Neutral '\\' '{' '}' (s.flatMap tokenEscape) :=
  Neutral.flatMap fun c _ => protected_braces.neutral_escape c

theorem filterMap_of_const {α β : Type} {f : α → Option β} {l : List α} {k : Option β}
    (h : ∀ r ∈ l, f r = k) : l.filterMap f = (List.replicate l.length k).filterMap id := by
  induction l with
  | nil => rfl
  | cons r l ih =>
    have hhead := h r List.mem_cons_self
    have htail := ih fun s hs => h s (List.mem_cons_of_mem r hs)
    simp [List.replicate_succ, List.filterMap_cons, hhead, htail]

theorem Delimited.foreign {is : List Item} (hb : Delimited is) {w : Chars} (h : Needle '{' w) :
    (render is).head?.all (fun c => decide (c ∉ '{' :: w)) = true := by
  rcases hb with rfl | ⟨js, rfl⟩ | ⟨js, rfl⟩ | ⟨js, rfl⟩
  · rfl
  · simpa [render_cons, Item.text] using h.blank_not_mem
  · simpa [render_cons, Item.text] using h.not_mem_cons (c := '}') (by decide) (by decide)
  · simpa [render_cons, Item.text] using h.not_mem_cons (c := ')') (by decide) (by decide)

variable {w : Chars}

theorem Needle.hits_tag (h : Needle '{' w) {t : Chars} (ht : cleanText t = true) {is : List Item}
    (hb : Delimited is) : hits ('{' :: w) (Item.tag t).text (render is) =
      ((after w t).map (· ++ render is)).toList := by
  have hrest : hits ('{' :: w) t [] = [] := hits_of_not_mem (cleanText_not_mem ht (by decide)) _
  have hstart : after ('{' :: w) ('{' :: (t ++ [])) = after w t := by
    rw [List.append_nil]
    rfl
  rw [hits_foreign (hb.foreign h), Item.text, hits, hrest, hstart, List.append_nil]
  cases after w t <;> rfl

theorem Needle.hits_names (h : Needle '{' w) (v : Chars) (ss : List Chars) :
    ∀ sep, separator sep → ∀ r ∈ hits ('{' :: w) (dumpStrings sep ss) v, ∃ (u : Chars) (us : List Chars),
      r = u.flatMap tokenEscape ++ '"' :: (dumpStrings [' '] us ++ v) := by
  induction ss with
  | nil => simp [dumpStrings, hits]
  | cons s ss ih =>
    intro sep hsep r hr
    have hblank : ('{' : Char) ≠ ' ' := by decide
    rw [dumpStrings, hits_append, hits_append, List.mem_append, List.mem_append] at hr
    rcases hr with (hr | hr) | hr
    · rcases hsep with rfl | rfl
      · simp [hits] at hr
      · rw [hits_cons_of_ne hblank] at hr
        simp [hits] at hr
    · rw [h.hits_quoted] at hr
      obtain ⟨u, _, rfl⟩ := List.mem_map.mp hr
      exact ⟨u, ss, rfl⟩
    · exact ih [' '] (Or.inr rfl) r hr

theorem Needle.hits_names_length (h : Needle '{' w) (v : Chars) (ss : List Chars) :
    ∀ sep, separator sep → (hits ('{' :: w) (dumpStrings sep ss) v).length =
      (ss.map fun s => (hits ('{' :: w) s []).length).sum := by
  induction ss with
  | nil => exact fun _ _ => rfl
  | cons s ss ih =>
    intro sep hsep
    have hblank : ('{' : Char) ≠ ' ' := by decide
    have hnone : ∀ t, hits ('{' :: w) sep t = [] := by
      intro t
      rcases hsep with rfl | rfl
      · rfl
      · exact hits_cons_of_ne hblank w [] t
    rw [dumpStrings, hits_append, hits_append, hnone, h.hits_quoted, List.nil_append,
      List.length_append, ih [' '] (Or.inr rfl)]
    simp

theorem hits_names_text (w : Chars) (ss : List Chars) (v : Chars) :
    hits ('{' :: w) (Item.names ss).text v = hits ('{' :: w) (dumpStrings [] ss) (')' :: v) := by
  have hopen : ('{' : Char) ≠ '(' := by decide
  have hclose : ('{' : Char) ≠ ')' := by decide
  have hend : hits ('{' :: w) [')'] v = [] := hits_cons_of_ne hclose w [] v
  rw [Item.text, hits_cons_of_ne hopen, hits_append, hend, List.append_nil]
  rfl

/-- The openers of an item that has them as a name or as a tag. -/
theorem Needle.hits_length (h : Needle '{' w) {i : Item} {is : List Item} (hi : i.fits is) :
    (hits ('{' :: w) i.text (render is)).length = i.openers w := by
  have hnot : ∀ u : Chars, '{' ∉ u → (hits ('{' :: w) u (render is)).length = 0 := by
    intro u hu
    rw [hits_of_not_mem hu, List.length_nil]
  cases i with
  | tag t =>
    obtain ⟨ht, hb, _⟩ := hi
    rw [h.hits_tag ht hb, Item.openers, isPrefixOf_eq_after]
    cases after w t <;> rfl
  | token c s =>
    rw [hits_foreign (hi.1.foreign h), Item.text, h.hits_outToken]
    simp [Item.openers]
  | str c s =>
    rw [Item.text, h.hits_quoted]
    simp [Item.openers]
  | names ss =>
    rw [hits_names_text, h.hits_names_length _ _ _ (Or.inl rfl), Item.openers]
  | label m => exact hnot (':' :: m) (by simpa using cleanText_not_mem hi.1 (c := '{') (by decide))
  | word u => exact hnot _ (cleanText_not_mem hi.1 (by decide))
  | close | lparen | rparen | blank | null => exact hnot _ (by decide)

/-- Behind each of them the same kind is read. -/
theorem Needle.rawKind_hits (h : Needle '{' w) {i : Item} {is : List Item} (hp : Printed (i :: is)) :
    ∀ r ∈ hits ('{' :: w) i.text (render is), rawKind r = kindAt is := by
  have hstmt := needle_stmt
  obtain ⟨hi, his⟩ := hp
  have hnot : ∀ u : Chars, '{' ∉ u → ∀ r ∈ hits ('{' :: w) u (render is), rawKind r = kindAt is := by
    intro u hu r hr
    rw [hits_of_not_mem hu] at hr
    exact absurd hr List.not_mem_nil
  have hquote : Neutral '\\' '{' '}' ['"'] := neutral_braces_lit (by decide)
  have hclosed : ∀ u t : Chars, hits (':' :: "stmt".toList ++ [' ']) (u.flatMap tokenEscape ++ ['"']) t = [] :=
    fun u t => hstmt.hits_closed (escaped_flatMap u) t
  intro r hr
  cases i with
  | tag t =>
    obtain ⟨ht, hb, _⟩ := hi
    rw [h.hits_tag ht hb] at hr
    cases ha : after w t with
    | none => simp [ha] at hr
    | some u =>
      obtain rfl : r = u ++ render is := by simpa [ha] using hr
      have hu : cleanText u = true := by
        rw [after_eq_some ha, cleanText, List.all_append, Bool.and_eq_true] at ht
        exact ht.2
      refine rawKind_append his (cleanText_neutral hu) fun v hv => ?_
      rw [List.cons_append, hits_of_not_mem (cleanText_not_mem hu (by decide))] at hv
      exact absurd hv List.not_mem_nil
  | token c s =>
    have hall : Printed (Item.token c s :: is) := ⟨hi, his⟩
    have hbody : Printed (Item.token c s :: bodyItems 0 is) := hall.bodyItems 0
    rw [hits_foreign (hi.1.foreign h), Item.text, h.hits_outToken, List.map_map] at hr
    obtain ⟨u, _, rfl⟩ := List.mem_map.mp hr
    refine rawKind_append his (neutral_flatMap u) fun v hv => ?_
    obtain ⟨js, hjs, rfl⟩ := hstmt.mem_hits_delimited (escaped_flatMap u) hbody.1.1 hv
    obtain ⟨j, ks, rfl, hj⟩ := hbody.1.2 js hjs
    rw [hjs] at hbody
    exact after_field (Or.inl rfl) hbody.2.2 hj
  | str c s =>
    rw [Item.text, h.hits_quoted] at hr
    obtain ⟨u, _, rfl⟩ := List.mem_map.mp hr
    have hsplit : u.flatMap tokenEscape ++ '"' :: render is =
        (u.flatMap tokenEscape ++ ['"']) ++ render is := by simp
    rw [hsplit]
    refine rawKind_append his ((neutral_flatMap u).append hquote) fun v hv => ?_
    rw [hclosed] at hv
    exact absurd hv List.not_mem_nil
  | names ss =>
    rw [hits_names_text] at hr
    obtain ⟨u, us, rfl⟩ := h.hits_names _ ss [] (Or.inl rfl) r hr
    have hsplit : u.flatMap tokenEscape ++ '"' :: (dumpStrings [' '] us ++ ')' :: render is) =
        ((u.flatMap tokenEscape ++ ['"']) ++ (dumpStrings [' '] us ++ [')'])) ++ render is := by simp
    have hparen : Neutral '\\' '{' '}' [')'] := neutral_braces_lit (by decide)
    have hnames := protected_braces.neutral_dumpStrings (by decide) (by decide) us [' '] (Or.inr rfl)
    rw [hsplit]
    refine rawKind_append his (((neutral_flatMap u).append hquote).append (hnames.append hparen))
      fun v hv => ?_
    have hend : hits (':' :: "stmt".toList ++ [' ']) [')'] (render (bodyItems 0 is)) = [] :=
      hits_of_not_mem (by decide) _
    rw [hits_append, hclosed, hits_append, hstmt.hits_dumpStrings us _ _ (Or.inr rfl), hend] at hv
    exact absurd hv List.not_mem_nil
  | label m =>
    exact hnot (':' :: m) (by simpa using cleanText_not_mem hi.1 (c := '{') (by decide)) r hr
  | word u => exact hnot _ (cleanText_not_mem hi.1 (by decide)) r hr
  | close | lparen | rparen | blank | null => exact hnot _ (by decide) r hr

theorem statementKinds_render {is : List Item} (hp : Printed is) : statementKinds (render is) = kinds is := by
  have hfind : statementKinds (render is) =
      (hits ('{' :: "RAWSTMT".toList) (render is) []).filterMap rawKind := by
    rw [← findAll_eq_hits needle_rawStmt.not_mem]
    rfl
  rw [hfind]
  clear hfind
  induction is with
  | nil => rfl
  | cons i is ih =>
    rw [render_cons, hits_append, List.append_nil, List.filterMap_append, ih hp.2, kinds,
      filterMap_of_const (needle_rawStmt.rawKind_hits hp), needle_rawStmt.hits_length hp.1]

end Kinds

section Names

/-- The relation read behind an opener. -/
def relationAt (is : List Item) : Option ReadName :=
  ((behind (':' :: "relname".toList) (bodyItems 0 is)).head?.bind readItem).map fun name =>
    ⟨(behind (':' :: "schemaname".toList) (bodyItems 0 is)).head?.bind readItem, name⟩

/-- The function read behind its label. -/
def functionAt : List Item → Option ReadName
  | .names ss :: _ => lastNames (quotedStrings (dumpStrings [] ss))
  | _ => none

/-- What stands where a name is looked for: none, a name, or the next field. -/
theorem named_behind {l : Chars} (hl : l = "relname".toList ∨ l = "ctename".toList ∨ l = "schemaname".toList)
    {is js : List Item} (hp : Printed is) (hm : js ∈ behind (':' :: l) is) :
    (∃ i ks, js = i :: ks ∧
      (l = "schemaname".toList ∧ i = .null ∨ (∃ s, i = .token false s) ∨ i.opensField = true)) ∧ Printed js := by
  obtain ⟨p, i, rfl, hi⟩ := mem_behind hm
  have htail := hp.append_right
  refine ⟨?_, htail.2.2⟩
  cases i with
  | label m =>
    obtain rfl : l = m := by simpa [Item.endsIn] using hi
    obtain ⟨_, ks, hks, hname, hschema, _⟩ := htail.1
    obtain rfl : js = ks := (List.cons.inj hks).2
    rcases hl with hl | hl | hl
    · obtain ⟨s, ks, rfl⟩ := hname (Or.inl hl)
      exact ⟨_, ks, rfl, Or.inr (Or.inl ⟨s, rfl⟩)⟩
    · obtain ⟨s, ks, rfl⟩ := hname (Or.inr hl)
      exact ⟨_, ks, rfl, Or.inr (Or.inl ⟨s, rfl⟩)⟩
    · obtain ⟨s, ks, rfl⟩ := hschema hl
      cases s with
      | none => exact ⟨_, ks, rfl, Or.inl ⟨hl, rfl⟩⟩
      | some s => exact ⟨_, ks, rfl, Or.inr (Or.inl ⟨s, rfl⟩)⟩
  | token c s =>
    obtain ⟨j, ks, rfl, hj⟩ := htail.1.2 js rfl
    exact ⟨j, ks, rfl, Or.inr (Or.inr hj)⟩
  | tag | close | lparen | rparen | blank | null | word | str | names => simp [Item.endsIn] at hi

theorem readable_behind {l : Chars} (hl : l = "relname".toList ∨ l = "ctename".toList ∨ l = "schemaname".toList)
    {is js : List Item} (hp : Printed is) (hm : js ∈ behind (':' :: l) is) : Readable js ∧ Printed js := by
  obtain ⟨⟨i, ks, he, hi⟩, hjs⟩ := named_behind hl hp hm
  refine ⟨⟨i, ks, he, ?_⟩, hjs⟩
  rcases hi with ⟨_, hi⟩ | ⟨s, hi⟩ | hi
  · exact Or.inl hi
  · exact Or.inr (Or.inl ⟨false, s, hi⟩)
  · exact Or.inr (Or.inr hi)

/-- Behind the label of a name some text is read. -/
theorem readItem_isSome {l : Chars} (hl : l = "relname".toList ∨ l = "ctename".toList) {is js : List Item}
    (hp : Printed is) (hm : js ∈ behind (':' :: l) is) : (readItem js).isSome = true := by
  have hschema : l ≠ "schemaname".toList := by
    rcases hl with rfl | rfl <;> decide
  have hname := hl.imp_right fun h => Or.inl (b := l = "schemaname".toList) h
  obtain ⟨⟨i, ks, rfl, hi⟩, _⟩ := named_behind hname hp hm
  rcases hi with ⟨h, _⟩ | ⟨s, rfl⟩ | hi
  · exact absurd h hschema
  · rfl
  · cases i with
    | label | word => rfl
    | tag | close | lparen | rparen | blank | null | token | str | names => simp [Item.opensField] at hi

theorem field_render {l : Chars} (h : Needle ':' l)
    (hl : l = "relname".toList ∨ l = "ctename".toList ∨ l = "schemaname".toList) {is : List Item}
    (hp : Printed is) : field (render is) l = (behind (':' :: l) is).head?.bind readItem := by
  have hne : ':' :: l ++ [' '] ≠ [] := nofun
  rw [field, findAfter_eq_head_hits hne, h.hits_render hp, List.head?_map]
  cases hb : behind (':' :: l) is with
  | nil => rfl
  | cons js rest =>
    obtain ⟨hread, hjs⟩ := readable_behind hl hp (hb ▸ List.mem_cons_self)
    exact readToken_render hjs hread

theorem needle_relname : Needle ':' "relname".toList := by
  rw [String.toList_ofList]
  exact ⟨by decide, Or.inl rfl, nofun⟩

theorem needle_schemaname : Needle ':' "schemaname".toList := by
  rw [String.toList_ofList]
  exact ⟨by decide, Or.inl rfl, nofun⟩

theorem needle_ctename : Needle ':' "ctename".toList := by
  rw [String.toList_ofList]
  exact ⟨by decide, Or.inl rfl, nofun⟩

theorem needle_funcname : Needle ':' "funcname".toList := by
  rw [String.toList_ofList]
  exact ⟨by decide, Or.inl rfl, nofun⟩

theorem needle_rangeVar : Needle '{' "RANGEVAR".toList := by
  rw [String.toList_ofList]
  exact ⟨by decide, Or.inr rfl, nofun⟩

theorem readRelation_render {is : List Item} (hp : Printed is) : readRelation (render is) = relationAt is := by
  rw [readRelation, nodeBody_render hp, field_render needle_relname (Or.inl rfl) (hp.bodyItems 0),
    field_render needle_schemaname (Or.inr (Or.inr rfl)) (hp.bodyItems 0)]
  rfl

/-- The loops of the analyser visit the places behind their needle. -/
theorem Needle.findAll_render {a : Char} {w v : Chars} (h : Needle a w) (hv : v = w ++ [' ']) {is : List Item}
    (hp : Printed is) : findAll (a :: v) (render is) = (behind (a :: w) is).map render := by
  have ha : a ∉ v := by
    rw [hv]
    intro hm
    rcases List.mem_append.mp hm with hm | hm
    · exact h.not_mem hm
    · obtain rfl : a = ' ' := by simpa using hm
      exact h.blank_not_mem List.mem_cons_self
  rw [findAll_eq_hits ha, hv, ← h.hits_render hp]
  rfl

theorem relations_render {is : List Item} (hp : Printed is) :
    (findAll ('{' :: "RANGEVAR ".toList) (render is)).filterMap readRelation =
      (behind ('{' :: "RANGEVAR".toList) is).filterMap relationAt := by
  have hlit : "RANGEVAR ".toList = "RANGEVAR".toList ++ [' '] := by
    rw [String.toList_ofList, String.toList_ofList]
    rfl
  rw [needle_rangeVar.findAll_render hlit hp, List.filterMap_map]
  refine List.filterMap_congr fun js hm => ?_
  obtain ⟨p, i, rfl, _⟩ := mem_behind hm
  exact readRelation_render hp.append_right.2.2

theorem ctes_render {is : List Item} (hp : Printed is) :
    (findAll (':' :: "ctename ".toList) (render is)).filterMap readToken =
      (behind (':' :: "ctename".toList) is).filterMap readItem := by
  have hlit : "ctename ".toList = "ctename".toList ++ [' '] := by
    rw [String.toList_ofList, String.toList_ofList]
    rfl
  rw [needle_ctename.findAll_render hlit hp, List.filterMap_map]
  refine List.filterMap_congr fun js hm => ?_
  obtain ⟨hread, hjs⟩ := readable_behind (Or.inr (Or.inl rfl)) hp hm
  exact readToken_render hjs hread

theorem readFunction_names (ss : List Chars) (t : Chars) :
    readFunction (dumpStrings [] ss ++ ')' :: t) = lastNames (quotedStrings (dumpStrings [] ss)) := by
  have hn := protected_parens.neutral_dumpStrings (by decide) (by decide) ss [] (Or.inl rfl)
  have hbody : parenBody (dumpStrings [] ss ++ ')' :: t) = dumpStrings [] ss :=
    inside_of_neutral (by decide) (by decide) hn t
  rw [readFunction, hbody]

theorem functionAt_render {is js : List Item} (hp : Printed is)
    (hm : js ∈ behind (':' :: "funcname".toList) is) :
    (after ['('] (render js)).bind readFunction = functionAt js := by
  obtain ⟨p, i, rfl, hi⟩ := mem_behind hm
  have htail := hp.append_right
  cases i with
  | label m =>
    obtain rfl : "funcname".toList = m := by simpa [Item.endsIn] using hi
    obtain ⟨_, ks, hks, _, _, hfunc⟩ := htail.1
    obtain rfl : js = ks := (List.cons.inj hks).2
    rcases hfunc rfl with ⟨ss, ls, rfl⟩ | ⟨ls, rfl⟩
    · have hopen : after ['('] (render (.names ss :: ls)) = some (dumpStrings [] ss ++ ')' :: render ls) := by
        simp [render_cons, Item.text, after]
      rw [hopen]
      exact readFunction_names ss (render ls)
    · rfl
  | token c s =>
    obtain ⟨j, ks, rfl, hj⟩ := htail.1.2 js rfl
    rw [after_field (Or.inr rfl) htail.2.2 hj]
    cases j with
    | label | word => rfl
    | tag | close | lparen | rparen | blank | null | token | str | names => simp [Item.opensField] at hj
  | tag | close | lparen | rparen | blank | null | word | str | names => simp [Item.endsIn] at hi

theorem functions_render {is : List Item} (hp : Printed is) :
    (findAll (':' :: "funcname (".toList) (render is)).filterMap readFunction =
      (behind (':' :: "funcname".toList) is).filterMap functionAt := by
  have hlit : ':' :: "funcname (".toList = ':' :: "funcname".toList ++ [' '] ++ ['('] := by
    rw [String.toList_ofList, String.toList_ofList]
    rfl
  have hcolon : ':' ∉ "funcname (".toList := by
    rw [String.toList_ofList]
    decide
  rw [findAll_eq_hits hcolon, hlit, hits_append_word, needle_funcname.hits_render hp, List.filterMap_map,
    List.filterMap_filterMap]
  exact List.filterMap_congr fun js hm => functionAt_render hp hm

end Names

section Writes

theorem Needle.hits_openers {w : Chars} (h : Needle '{' w) {is : List Item} (hp : Printed is) :
    (hits ('{' :: w) (render is) []).length = (is.map (Item.openers w)).sum := by
  induction is with
  | nil => rfl
  | cons i is ih =>
    rw [render_cons, hits_append, List.append_nil, List.length_append, h.hits_length hp.1, ih hp.2,
      List.map_cons, List.sum_cons]

theorem Needle.occurs_render {w : Chars} (h : Needle '{' w) {is : List Item} (hp : Printed is) :
    occurs ('{' :: w) (render is) = is.any fun i => i.openers w != 0 := by
  have hne : '{' :: w ≠ [] := nofun
  rw [Bool.eq_iff_iff, occurs_iff hne, ← List.length_pos_iff, h.hits_openers hp,
    List.sum_pos_iff_exists_pos_nat]
  simp [Nat.pos_iff_ne_zero]

theorem occurs_intoClause {is : List Item} (hp : Printed is) :
    occurs (":intoClause ".toList ++ ['{']) (render is) = !(tagsBehind "intoClause".toList is).isEmpty := by
  have hneedle : Needle ':' "intoClause".toList := by
    rw [String.toList_ofList]
    exact ⟨by decide, Or.inl rfl, nofun⟩
  have hlit : ":intoClause ".toList ++ ['{'] = ':' :: "intoClause".toList ++ [' '] ++ ['{'] := by
    rw [String.toList_ofList, String.toList_ofList]
    rfl
  have hlen := congrArg List.length (hits_tagsBehind hneedle hp)
  simp only [List.length_map] at hlen
  have hne : ':' :: "intoClause".toList ++ [' '] ++ ['{'] ≠ [] := nofun
  rw [hlit, Bool.eq_iff_iff, occurs_iff hne, ← List.length_pos_iff, hlen, List.length_pos_iff]
  simp

theorem needle_writeTag {tag : Chars} (h : tag ∈ writeTags) : Needle '{' tag := by
  simp only [writeTags, List.mem_cons, List.not_mem_nil, or_false] at h
  rcases h with rfl | rfl | rfl | rfl
  · rw [String.toList_ofList]
    exact ⟨by decide, Or.inr rfl, nofun⟩
  · rw [String.toList_ofList]
    exact ⟨by decide, Or.inr rfl, nofun⟩
  · rw [String.toList_ofList]
    exact ⟨by decide, Or.inr rfl, nofun⟩
  · rw [String.toList_ofList]
    exact ⟨by decide, Or.inr rfl, nofun⟩

/-- A statement that writes, or a text that spells the opener of one. -/
def Item.opensWrite (i : Item) : Bool :=
  writeTags.any fun tag => i.openers tag != 0

def itemAnalysis (is : List Item) : Analysis where
  statements := (kinds is).length
  kind := if kinds is = ["SELECTSTMT".toList] then .select else .other
  writes := !(tagsBehind "intoClause".toList is).isEmpty || is.any Item.opensWrite
  relations := (behind ('{' :: "RANGEVAR".toList) is).filterMap relationAt
  functions := (behind (':' :: "funcname".toList) is).filterMap functionAt
  ctes := (behind (':' :: "ctename".toList) is).filterMap readItem

theorem writes_render {is : List Item} (hp : Printed is) :
    (writeTags.any fun tag => occurs ('{' :: tag) (render is)) = is.any Item.opensWrite := by
  rw [Bool.eq_iff_iff, List.any_eq_true, List.any_eq_true]
  constructor
  · rintro ⟨tag, ht, h⟩
    rw [(needle_writeTag ht).occurs_render hp, List.any_eq_true] at h
    obtain ⟨i, hi, h⟩ := h
    exact ⟨i, hi, List.any_eq_true.mpr ⟨tag, ht, h⟩⟩
  · rintro ⟨i, hi, h⟩
    obtain ⟨tag, ht, h⟩ := List.any_eq_true.mp h
    refine ⟨tag, ht, ?_⟩
    rw [(needle_writeTag ht).occurs_render hp]
    exact List.any_eq_true.mpr ⟨i, hi, h⟩

/-- The answer of the analyser about a printed tree. -/
theorem analyzeDump_render {is : List Item} (hp : Printed is) (hne : render is ≠ []) :
    analyzeDump (render is) = some (itemAnalysis is) := by
  rw [analyzeDump, if_neg hne, itemAnalysis]
  simp only [statementKinds_render hp, occurs_intoClause hp, writes_render hp, relations_render hp,
    functions_render hp, ctes_render hp]

end Writes

end Allgres
