import Allgres.DumpScanning

/-! What the readers of the analyser make of a list of items: the body of a node,
a token, and the openers that a name or a constant shows. -/

namespace Allgres

open Scan

section Bodies

/-- The items in front of the bracket that closes the node they stand in. -/
def bodyItems (d : Nat) : List Item → List Item
  | [] => []
  | .tag t :: is => .tag t :: bodyItems (d + 1) is
  | .close :: is => if d = 0 then [] else .close :: bodyItems (d - 1) is
  | .lparen :: is => .lparen :: bodyItems d is
  | .rparen :: is => .rparen :: bodyItems d is
  | .blank :: is => .blank :: bodyItems d is
  | .null :: is => .null :: bodyItems d is
  | .label l :: is => .label l :: bodyItems d is
  | .word w :: is => .word w :: bodyItems d is
  | .token c s :: is => .token c s :: bodyItems d is
  | .str c s :: is => .str c s :: bodyItems d is
  | .names ss :: is => .names ss :: bodyItems d is

theorem cleanText_neutral {t : Chars} (h : cleanText t = true) : Neutral '\\' '{' '}' t :=
  protected_braces.neutral_plain (cleanText_plain h)

theorem insideAux_render {is : List Item} (hp : Printed is) :
    ∀ d, insideAux '\\' '{' '}' false d (render is) = render (bodyItems d is) := by
  induction is with
  | nil => exact fun _ => rfl
  | cons i is ih =>
    intro d
    have hrest := ih hp.2
    have hskip : Neutral '\\' '{' '}' i.text → insideAux '\\' '{' '}' false d (render (i :: is)) =
        i.text ++ render (bodyItems d is) := by
      intro hn
      rw [render_cons, hn, hrest]
    cases i with
    | tag t =>
      have hopen : insideAux '\\' '{' '}' false d (render (.tag t :: is)) =
          '{' :: insideAux '\\' '{' '}' false (d + 1) (t ++ render is) := by
        simp [render_cons, Item.text, insideAux]
      rw [hopen, cleanText_neutral hp.1.1, hrest]
      simp [bodyItems, render_cons, Item.text]
    | close =>
      by_cases hd : d = 0
      · simp [render_cons, Item.text, insideAux, bodyItems, hd, render_nil]
      · simp [render_cons, Item.text, insideAux, bodyItems, hd, hrest]
    | label l =>
      have hcolon : Neutral '\\' '{' '}' [':'] := neutral_braces_lit (by decide)
      exact hskip (hcolon.append (cleanText_neutral hp.1.1))
    | word w => exact hskip (cleanText_neutral hp.1.1)
    | token c s => exact hskip (protected_braces.neutral_outToken s)
    | str c s => exact hskip (protected_braces.neutral_outString s)
    | names ss =>
      have hopen : Neutral '\\' '{' '}' ['('] := neutral_braces_lit (by decide)
      have hclose : Neutral '\\' '{' '}' [')'] := neutral_braces_lit (by decide)
      have hss := protected_braces.neutral_dumpStrings (by decide) (by decide) ss [] (Or.inl rfl)
      exact hskip (hopen.append (hss.append hclose))
    | lparen => exact hskip (neutral_braces_lit (by decide))
    | rparen => exact hskip (neutral_braces_lit (by decide))
    | blank => exact hskip (neutral_braces_lit (by decide))
    | null => exact hskip (neutral_braces_lit (by decide))

theorem nodeBody_render {is : List Item} (hp : Printed is) :
    nodeBody (render is) = render (bodyItems 0 is) :=
  insideAux_render hp 0

theorem Delimited.bodyItems {is : List Item} (h : Delimited is) (d : Nat) : Delimited (bodyItems d is) := by
  rcases h with rfl | ⟨js, rfl⟩ | ⟨js, rfl⟩ | ⟨js, rfl⟩
  · exact Or.inl rfl
  · exact Or.inr (Or.inl ⟨_, rfl⟩)
  · by_cases hd : d = 0
    · exact Or.inl (by simp [Allgres.bodyItems, hd])
    · exact Or.inr (Or.inr (Or.inl ⟨_, by simp only [Allgres.bodyItems, hd, if_false]; rfl⟩))
  · exact Or.inr (Or.inr (Or.inr ⟨_, rfl⟩))

theorem bodyItems_schemaItem (d : Nat) (s : Option Chars) (is : List Item) :
    bodyItems d (schemaItem s :: is) = schemaItem s :: bodyItems d is := by
  cases s <;> rfl

theorem bodyItems_relationHead (d : Nat) (s : Option Chars) (r : Chars) (is : List Item) :
    bodyItems d (relationHead s r is) = relationHead s r (bodyItems d is) := by
  simp [relationHead, bodyItems, bodyItems_schemaItem]

theorem valueFits.bodyItems {l : Chars} {is : List Item} (h : valueFits l is) (d : Nat) :
    valueFits l (bodyItems d is) := by
  obtain ⟨hname, hschema, hfunc⟩ := h
  refine ⟨fun hl => ?_, fun hl => ?_, fun hl => ?_⟩
  · obtain ⟨s, js, rfl⟩ := hname hl
    exact ⟨s, _, rfl⟩
  · obtain ⟨s, js, rfl⟩ := hschema hl
    exact ⟨s, _, bodyItems_schemaItem d s js⟩
  · rcases hfunc hl with ⟨ss, js, rfl⟩ | ⟨js, rfl⟩
    · exact Or.inl ⟨ss, _, rfl⟩
    · exact Or.inr ⟨_, rfl⟩

theorem opensField_bodyItems {i : Item} (h : i.opensField = true) (d : Nat) (is : List Item) :
    bodyItems d (i :: is) = i :: bodyItems d is := by
  cases i with
  | label | word => rfl
  | tag | close | lparen | rparen | blank | null | token | str | names => simp [Item.opensField] at h

theorem Printed.bodyItems {is : List Item} (hp : Printed is) : ∀ d, Printed (bodyItems d is) := by
  induction is with
  | nil => exact fun _ => trivial
  | cons i is ih =>
    intro d
    have hrest := ih hp.2
    cases i with
    | tag t =>
      obtain ⟨ht, hb, hr⟩ := hp.1
      refine ⟨⟨ht, hb.bodyItems _, fun he => ?_⟩, hrest _⟩
      obtain ⟨s, r, js, rfl⟩ := hr he
      exact ⟨s, r, _, bodyItems_relationHead _ s r js⟩
    | close =>
      by_cases hd : d = 0
      · simp [Allgres.bodyItems, hd, Printed]
      · simp only [Allgres.bodyItems, hd, if_false]
        exact ⟨trivial, hrest _⟩
    | label l =>
      obtain ⟨hl, js, rfl, hv⟩ := hp.1
      exact ⟨⟨hl, _, rfl, hv.bodyItems d⟩, hrest d⟩
    | word w => exact ⟨⟨hp.1.1, hp.1.2.bodyItems d⟩, hrest d⟩
    | token c s =>
      refine ⟨⟨hp.1.1.bodyItems d, fun js he => ?_⟩, hrest d⟩
      rcases hp.1.1 with rfl | ⟨ks, rfl⟩ | ⟨ks, rfl⟩ | ⟨ks, rfl⟩
      · exact absurd he nofun
      · obtain ⟨i, ls, rfl, hi⟩ := hp.1.2 ks rfl
        obtain rfl : Allgres.bodyItems d (i :: ls) = js := (List.cons.inj he).2
        exact ⟨i, _, opensField_bodyItems hi d ls, hi⟩
      · by_cases hd : d = 0
        · simp [Allgres.bodyItems, hd] at he
        · simp [Allgres.bodyItems, hd] at he
      · exact absurd he nofun
    | lparen | rparen | blank | null | str | names => exact ⟨trivial, hrest d⟩

end Bodies

section Tokens

/-- What `read_token` makes of the items in front of it. -/
def readItem : List Item → Option Chars
  | .token _ s :: _ => some (s.takeWhile fun c => !breaksToken c)
  | .label l :: _ => some (':' :: l)
  | .word w :: _ => some w
  | _ => none

/-- Where `readItem` follows `read_token`. -/
def Readable (is : List Item) : Prop :=
  ∃ i js, is = i :: js ∧ (i = .null ∨ (∃ c s, i = .token c s) ∨ i.opensField = true)

theorem readTokenAux_delimited {is : List Item} (h : Delimited is) : readTokenAux false (render is) = [] := by
  rcases h with rfl | ⟨js, rfl⟩ | ⟨js, rfl⟩ | ⟨js, rfl⟩ <;> rfl

theorem cleanChar_reads {c : Char} (h : cleanChar c = true) : c ≠ '\\' ∧ tokenEnd c = false := by
  refine ⟨(tokenSpecial_eq_false (cleanChar_special h)).2.1, tokenEnd_eq_false (cleanChar_special h) ?_⟩
  by_contra hb
  simp only [Bool.not_eq_false, breaksToken, Bool.or_eq_true, beq_iff_eq] at hb
  rcases hb with rfl | rfl <;> exact absurd h (by decide)

theorem readTokenAux_clean {w t : Chars} (hw : cleanText w = true) (ht : readTokenAux false t = []) :
    readTokenAux false (w ++ t) = w := by
  induction w with
  | nil => exact ht
  | cons c w ih =>
    obtain ⟨hc, hrest⟩ : cleanChar c = true ∧ cleanText w = true := by simpa [cleanText] using hw
    obtain ⟨hback, hend⟩ := cleanChar_reads hc
    simp [readTokenAux, hback, hend, ih hrest]

/-- A token is read up to the first white space it does not protect. -/
theorem readToken_outToken_cut {t : Chars} (ht : readTokenAux false t = []) (s : Chars) :
    readToken (outToken s ++ t) = some (s.takeWhile fun c => !breaksToken c) := by
  have hflat : ∀ s : Chars, readTokenAux false (s.flatMap tokenEscape ++ t) =
      s.takeWhile fun c => !breaksToken c := by
    intro s
    induction s with
    | nil => exact ht
    | cons c s ih =>
      cases hb : breaksToken c with
      | false =>
        rw [List.flatMap_cons, List.append_assoc, readTokenAux_escape hb, ih]
        simp [List.takeWhile, hb]
      | true =>
        simp only [breaksToken, Bool.or_eq_true, beq_iff_eq] at hb
        rcases hb with rfl | rfl <;> rfl
  cases s with
  | nil => rfl
  | cons c s =>
    cases hb : breaksToken c with
    | true =>
      simp only [breaksToken, Bool.or_eq_true, beq_iff_eq] at hb
      rcases hb with rfl | rfl <;> rfl
    | false =>
      have hcut : (c :: s).takeWhile (fun c => !breaksToken c) =
          c :: s.takeWhile fun c => !breaksToken c := by simp [List.takeWhile, hb]
      obtain ⟨front, he, hf⟩ := outToken_cons c s
      have hread : readTokenAux false (front ++ (s.flatMap tokenEscape ++ t)) =
          c :: s.takeWhile fun c => !breaksToken c := by
        rcases hf with rfl | ⟨rfl, hc, _⟩
        · simp [readTokenAux, hflat]
        · simp [readTokenAux, (tokenSpecial_eq_false hc).2.1, tokenEnd_eq_false hc hb, hflat]
      rw [he, List.append_assoc, hcut, ← hread]
      rcases hf with rfl | ⟨rfl, _, hl⟩
      · rfl
      · have hne : c ≠ '<' ∧ c ≠ '"' := by
          simp only [leadingSpecial, Bool.or_eq_false_iff, beq_eq_false_iff_ne] at hl
          exact hl.1.1
        have hlt : ('<' == c) = false := beq_eq_false_iff_ne.mpr (Ne.symm hne.1)
        have hqt : ('"' == c) = false := beq_eq_false_iff_ne.mpr (Ne.symm hne.2)
        simp [readToken, List.isPrefixOf, hlt, hqt]

theorem readToken_of_head {s : Chars} (h : s.head?.all (fun c => c != '<' && c != '"') = true) :
    readToken s = some (readTokenAux false s) := by
  cases s with
  | nil => rfl
  | cons c s =>
    simp only [List.head?_cons, Option.all_some, Bool.and_eq_true, bne_iff_ne] at h
    have hlt : ('<' == c) = false := beq_eq_false_iff_ne.mpr (Ne.symm h.1)
    have hqt : ('"' == c) = false := beq_eq_false_iff_ne.mpr (Ne.symm h.2)
    simp [readToken, List.isPrefixOf, hlt, hqt]

theorem readToken_render {is : List Item} (hp : Printed is) (hr : Readable is) :
    readToken (render is) = readItem is := by
  obtain ⟨i, js, rfl, hi⟩ := hr
  rcases hi with rfl | ⟨c, s, rfl⟩ | hi
  · rfl
  · exact readToken_outToken_cut (readTokenAux_delimited hp.1.1) s
  · cases i with
    | label l =>
      obtain ⟨hl, ks, rfl, _⟩ := hp.1
      have hread : readTokenAux false (render (.label l :: .blank :: ks)) = ':' :: l := by
        have hrest := readTokenAux_clean hl (readTokenAux_delimited (Or.inr (Or.inl ⟨ks, rfl⟩)))
        have hcolon : ∀ u, readTokenAux false (':' :: u) = ':' :: readTokenAux false u := fun _ => rfl
        rw [render_cons, Item.text, List.cons_append, hcolon, hrest]
      rw [readToken_of_head rfl, hread]
      rfl
    | word w =>
      obtain ⟨hw, hb⟩ := hp.1
      have hread := readTokenAux_clean hw (readTokenAux_delimited hb)
      rw [render_cons, Item.text, readToken_of_head, hread]
      · rfl
      · cases w with
        | nil =>
          rcases hb with rfl | ⟨ks, rfl⟩ | ⟨ks, rfl⟩ | ⟨ks, rfl⟩ <;> rfl
        | cons c w =>
          have hlt := cleanText_not_mem hw (c := '<') (by decide)
          have hqt := cleanText_not_mem hw (c := '"') (by decide)
          simp only [List.mem_cons, not_or] at hlt hqt
          simp [Ne.symm hlt.1, Ne.symm hqt.1]
    | tag | close | lparen | rparen | blank | null | token | str | names =>
      simp [Item.opensField] at hi

end Tokens

section Openers

/-- A text whose first letter is not in a word does not take part in its matches. -/
theorem after_append_foreign {α : Type} [DecidableEq α] {x v : List α}
    (hv : v.head?.all (fun c => decide (c ∉ x)) = true) (q : List α) :
    after x (q ++ v) = (after x q).map (· ++ v) := by
  induction x generalizing q with
  | nil => rfl
  | cons a x ih =>
    cases q with
    | nil =>
      cases v with
      | nil => rfl
      | cons c v =>
        have hc : a ≠ c := by
          intro he
          simp [he] at hv
        simp [after, hc]
    | cons b q =>
      have hx : v.head?.all (fun c => decide (c ∉ x)) = true := by
        cases v with
        | nil => rfl
        | cons c v =>
          simp only [List.head?_cons, Option.all_some, decide_eq_true_eq, List.mem_cons, not_or] at hv ⊢
          exact hv.2
      by_cases hab : a = b
      · simp [after, hab, ih hx]
      · simp [after, hab]

theorem hits_foreign {α : Type} [DecidableEq α] {x v : List α}
    (hv : v.head?.all (fun c => decide (c ∉ x)) = true) (u : List α) :
    hits x u v = (hits x u []).map (· ++ v) := by
  induction u with
  | nil => rfl
  | cons c u ih =>
    rw [hits, hits, ← List.cons_append, after_append_foreign hv, List.append_nil, ih, List.map_append]
    cases after x (c :: u) <;> rfl

variable {w : Chars}

theorem after_flatMap (hw : ∀ c ∈ w, tokenSpecial c = false) (s : Chars) :
    after w (s.flatMap tokenEscape) = (after w s).map (List.flatMap tokenEscape) := by
  induction w generalizing s with
  | nil => rfl
  | cons a w ih =>
    have ha := hw a List.mem_cons_self
    have hrest := ih fun c hc => hw c (List.mem_cons_of_mem a hc)
    cases s with
    | nil => rfl
    | cons c s =>
      cases hc : tokenSpecial c with
      | true =>
        have hback : a ≠ '\\' := (tokenSpecial_eq_false ha).2.1
        have hne : a ≠ c := by
          intro he
          rw [he, hc] at ha
          exact absurd ha (by decide)
        simp [tokenEscape, hc, after, hback, hne]
      | false =>
        by_cases hac : a = c
        · simp [tokenEscape, hc, after, hac, hrest]
        · simp [tokenEscape, hc, after, hac]

/-- The openers a token shows are those of the name itself. -/
theorem Needle.hits_flatMap (h : Needle '{' w) (s : Chars) :
    hits ('{' :: w) (s.flatMap tokenEscape) [] =
      (hits ('{' :: w) s []).map (List.flatMap tokenEscape) := by
  induction s with
  | nil => rfl
  | cons c s ih =>
    have hhere : after ('{' :: w) (c :: s.flatMap tokenEscape) =
        (after ('{' :: w) (c :: s)).map (List.flatMap tokenEscape) := by
      by_cases hc : '{' = c
      · rw [← hc]
        simp [after, after_flatMap h.plain]
      · simp [after, hc]
    have hstep : hits ('{' :: w) (c :: s.flatMap tokenEscape) [] =
        (hits ('{' :: w) (c :: s) []).map (List.flatMap tokenEscape) := by
      rw [hits, hits, List.append_nil, List.append_nil, hhere, ih, List.map_append]
      cases after ('{' :: w) (c :: s) <;> rfl
    rw [← hstep, List.flatMap_cons]
    cases hc : tokenSpecial c with
    | true =>
      have hback : ('{' : Char) ≠ '\\' := by decide
      simp only [tokenEscape, hc, if_true, List.cons_append, List.nil_append]
      exact hits_cons_of_ne hback _ _ _
    | false => simp [tokenEscape, hc]

theorem Needle.hits_outToken (h : Needle '{' w) (s : Chars) :
    hits ('{' :: w) (outToken s) [] = (hits ('{' :: w) s []).map (List.flatMap tokenEscape) := by
  cases s with
  | nil => exact hits_of_not_mem (by decide) _
  | cons c s =>
    have hback : ('{' : Char) ≠ '\\' := by decide
    rw [← h.hits_flatMap, outToken, if_neg (List.cons_ne_nil c s)]
    split
    · exact hits_cons_of_ne hback _ _ _
    · rfl

theorem Needle.hits_quoted (h : Needle '{' w) (s v : Chars) :
    hits ('{' :: w) (outString s) v =
      (hits ('{' :: w) s []).map fun r => r.flatMap tokenEscape ++ '"' :: v := by
  have hq : ('{' : Char) ≠ '"' := by decide
  have hv : ('"' :: v).head?.all (fun c => decide (c ∉ '{' :: w)) = true := by
    simpa using h.quote_not_mem
  have hend : hits ('{' :: w) ['"'] v = [] := hits_cons_of_ne hq w [] v
  have hbody : hits ('{' :: w) (if s = [] then [] else outToken s) [] =
      (hits ('{' :: w) s []).map (List.flatMap tokenEscape) := by
    split
    · next hs => rw [hs]; rfl
    · exact h.hits_outToken s
  rw [outString, hits_cons_of_ne hq, hits_append, hend, List.append_nil]
  rw [show ['"'] ++ v = '"' :: v from rfl, hits_foreign hv, hbody, List.map_map]
  rfl

end Openers

end Allgres
