import Allgres.DumpItems

/-! What the analyser's searches find in a list of items: a word of a tag or of a
label is found where it stands, and where a name ends like it in front of a blank. -/

namespace Allgres

open Scan

section Needles

theorem after_append_bind {α : Type} [DecidableEq α] (w v s : List α) :
    after (w ++ v) s = (after w s).bind (after v) := by
  induction w generalizing s with
  | nil => rfl
  | cons a w ih =>
    cases s with
    | nil => rfl
    | cons b s =>
      by_cases hab : a = b
      · simp [after, hab, ih]
      · simp [after, hab]

/-- A longer word matches where its front part does and the rest follows. -/
theorem hits_append_word {α : Type} [DecidableEq α] (w v s t : List α) :
    hits (w ++ v) s t = (hits w s t).filterMap (after v) := by
  induction s with
  | nil => rfl
  | cons c s ih =>
    rw [hits, hits, ih, after_append_bind, List.filterMap_append]
    cases after w (c :: (s ++ t)) with
    | none => rfl
    | some r => cases hr : after v r <;> simp [hr]

theorem hits_cons_of_ne {α : Type} [DecidableEq α] {a c : α} (h : a ≠ c) (w s t : List α) :
    hits (a :: w) (c :: s) t = hits (a :: w) s t := by
  simp [hits, after, h]

/-- The letters of tags, labels and numbers. -/
def cleanChar (c : Char) : Bool :=
  c.isAlphanum || c == '_' || c == '.' || c == '+' || c == '-'

def cleanText (t : Chars) : Bool :=
  t.all cleanChar

theorem cleanText_not_mem {t : Chars} (h : cleanText t = true) {c : Char} (hc : cleanChar c = false) :
    c ∉ t := by
  intro hm
  rw [List.all_eq_true.mp h c hm] at hc
  exact absurd hc (by decide)

theorem cleanChar_special {c : Char} (hc : cleanChar c = true) : tokenSpecial c = false := by
  by_contra hs
  simp only [Bool.not_eq_false, tokenSpecial, Bool.or_eq_true, beq_iff_eq] at hs
  have hnot : cleanChar c = false := by
    rcases hs with ((((((rfl | rfl) | rfl) | rfl) | rfl) | rfl) | rfl) | rfl <;> decide
  rw [hc] at hnot
  exact absurd hnot (by decide)

theorem cleanText_plain {t : Chars} (h : cleanText t = true) : ∀ c ∈ t, tokenSpecial c = false :=
  fun c hc => cleanChar_special (List.all_eq_true.mp h c hc)

/-- What the searched words have in common: one special letter in front of clean ones. -/
structure Needle (a : Char) (w : Chars) : Prop where
  clean : cleanText w = true
  start : a = ':' ∨ a = '{'
  some : w ≠ []

namespace Needle

variable {a : Char} {w : Chars}

theorem not_mem (h : Needle a w) : a ∉ w := by
  rcases h.start with rfl | rfl
  · exact cleanText_not_mem h.clean (by decide)
  · exact cleanText_not_mem h.clean (by decide)

theorem not_mem_cons (h : Needle a w) {c : Char} (hc : c ≠ ':' ∧ c ≠ '{') (hw : cleanChar c = false) :
    c ∉ a :: w := by
  intro hm
  rcases List.mem_cons.mp hm with rfl | hm
  · rcases h.start with rfl | rfl
    · exact hc.1 rfl
    · exact hc.2 rfl
  · exact cleanText_not_mem h.clean hw hm

theorem blank_not_mem (h : Needle a w) : ' ' ∉ a :: w :=
  h.not_mem_cons (by decide) (by decide)

theorem backslash_not_mem (h : Needle a w) : '\\' ∉ a :: w :=
  h.not_mem_cons (by decide) (by decide)

theorem quote_not_mem (h : Needle a w) : '"' ∉ a :: w :=
  h.not_mem_cons (by decide) (by decide)

theorem plain (h : Needle a w) : ∀ c ∈ w, tokenSpecial c = false :=
  cleanText_plain h.clean

end Needle

theorem suffix_flatMap_iff {a : Char} {w s : Chars} (ha : a ≠ '\\')
    (hw : ∀ c ∈ w, tokenSpecial c = false) : a :: w <:+ s.flatMap tokenEscape ↔ a :: w <:+ s := by
  constructor
  · intro h
    induction s with
    | nil => simp at h
    | cons c s ih =>
      have hback : ∀ u : Chars, a :: w ≠ '\\' :: u := fun u he => ha (List.cons.inj he).1
      have hhere : a :: w = c :: s.flatMap tokenEscape → a :: w <:+ c :: s := by
        intro he
        obtain ⟨rfl, hs⟩ := List.cons.inj he
        rw [hs, flatMap_tokenEscape_plain (hs ▸ hw)]
      have hsplit : a :: w <:+ c :: s.flatMap tokenEscape := by
        rw [List.flatMap_cons] at h
        cases hc : tokenSpecial c with
        | true =>
          simp only [tokenEscape, hc, if_true, List.cons_append, List.nil_append] at h
          exact (List.suffix_cons_iff.mp h).resolve_left (hback _)
        | false => simpa [tokenEscape, hc] using h
      rcases List.suffix_cons_iff.mp hsplit with he | he
      · exact hhere he
      · exact (ih he).trans (List.suffix_cons c s)
  · rintro ⟨p, rfl⟩
    have hplain : w.flatMap tokenEscape = w := by
      clear ha
      induction w with
      | nil => rfl
      | cons c w ih =>
        have hc := hw c List.mem_cons_self
        rw [List.flatMap_cons, ih fun d hd => hw d (List.mem_cons_of_mem c hd)]
        simp [tokenEscape, hc]
    rw [List.flatMap_append, List.flatMap_cons, hplain]
    refine List.IsSuffix.trans ?_ (List.suffix_append _ _)
    cases hc : tokenSpecial a with
    | true => exact ⟨['\\'], by simp [tokenEscape, hc]⟩
    | false => exact ⟨[], by simp [tokenEscape, hc]⟩

/-- A needle ends a token exactly when it ends the name. -/
theorem Needle.suffix_outToken {a : Char} {w : Chars} (h : Needle a w) (s : Chars) :
    a :: w <:+ outToken s ↔ a :: w <:+ s := by
  have ha : a ≠ '\\' := fun he => h.backslash_not_mem (he ▸ List.mem_cons_self)
  have hq : a ≠ '"' := fun he => h.quote_not_mem (he ▸ List.mem_cons_self)
  cases s with
  | nil =>
    have hne := h.some
    have hlen : ¬ a :: w <:+ outToken [] := by
      intro hs
      rcases List.suffix_cons_iff.mp (show a :: w <:+ ['"', '"'] from hs) with he | he
      · exact hq (List.cons.inj he).1
      · rcases List.suffix_cons_iff.mp he with he | he
        · exact hq (List.cons.inj he).1
        · simp at he
    simp [hlen]
  | cons c s =>
    obtain ⟨front, he, hf⟩ := outToken_cons c s
    have hmain := suffix_flatMap_iff (s := c :: s) ha h.plain
    rw [List.flatMap_cons] at hmain
    have hback : ∀ u : Chars, a :: w <:+ '\\' :: u ↔ a :: w <:+ u := fun u =>
      suffix_cons_iff_of_ne fun hu => ha (List.cons.inj hu).1
    rw [← hmain, he]
    rcases hf with rfl | ⟨rfl, hc, _⟩
    · cases hs : tokenSpecial c with
      | true => simp [tokenEscape, hs]
      | false => simp [tokenEscape, hs, hback]
    · simp [tokenEscape, hc]

/-- A quotation mark behind an escaped text ends every match that starts in it. -/
theorem Needle.hits_closed {a : Char} {w : Chars} (h : Needle a w) {u : Chars}
    (hu : Escaped '\\' ' ' u) (t : Chars) : hits (a :: w ++ [' ']) (u ++ ['"']) t = [] := by
  have hq : a ≠ '"' := fun he => h.quote_not_mem (he ▸ List.mem_cons_self)
  have hend : hits (a :: w ++ [' ']) ['"'] t = [] := hits_cons_of_ne hq (w ++ [' ']) [] t
  have hv : '"' ∉ a :: w ++ [' '] := by
    intro hm
    rcases List.mem_append.mp hm with hm | hm
    · exact h.quote_not_mem hm
    · exact absurd hm (by decide)
  have hbody : hits (a :: w ++ [' ']) u (['"'] ++ t) = [] :=
    hits_escaped_none '\\' (List.cons_ne_nil a w) h.backslash_not_mem hu (by simpa using hv)
  rw [hits_append, hbody, hend, List.append_nil]

/-- In a String node no needle with a blank behind it is found. -/
theorem Needle.hits_outString {a : Char} {w : Chars} (h : Needle a w) (s t : Chars) :
    hits (a :: w ++ [' ']) (outString s) t = [] := by
  have hq : a ≠ '"' := fun he => h.quote_not_mem (he ▸ List.mem_cons_self)
  have hu : Escaped '\\' ' ' (if s = [] then [] else outToken s) := by
    split
    · exact Escaped.of_not_mem List.not_mem_nil
    · exact escaped_outToken s
  rw [outString, List.cons_append, hits_cons_of_ne hq]
  exact h.hits_closed hu t

theorem Needle.hits_dumpStrings {a : Char} {w : Chars} (h : Needle a w) (ss : List Chars) :
    ∀ sep t, separator sep → hits (a :: w ++ [' ']) (dumpStrings sep ss) t = [] := by
  induction ss with
  | nil => exact fun _ _ _ => rfl
  | cons s ss ih =>
    intro sep t hsep
    have hblank : a ≠ ' ' := fun he => h.blank_not_mem (he ▸ List.mem_cons_self)
    have hhead : hits (a :: w ++ [' ']) sep (outString s ++ dumpStrings [' '] ss ++ t) = [] := by
      rcases hsep with rfl | rfl
      · rfl
      · exact hits_cons_of_ne hblank _ _ _
    rw [dumpStrings, hits_append, hits_append, h.hits_outString, ih [' '] t (Or.inr rfl), List.append_nil,
      List.append_nil, ← hhead, List.append_assoc]

end Needles

section Items

/-- What may follow a text that a blank or a closing bracket ends. -/
def Delimited (is : List Item) : Prop :=
  is = [] ∨ (∃ js, is = .blank :: js) ∨ (∃ js, is = .close :: js) ∨ ∃ js, is = .rparen :: js

/-- A field goes on with its label, a flag is a word. -/
def Item.opensField : Item → Bool
  | .label _ | .word _ => true
  | _ => false

/-- The values of the labels that are read. -/
def valueFits (l : Chars) (is : List Item) : Prop :=
  (l = "relname".toList ∨ l = "ctename".toList → ∃ s js, is = .token false s :: js) ∧
    (l = "schemaname".toList → ∃ s js, is = schemaItem s :: js) ∧
    (l = "funcname".toList → (∃ ss js, is = .names ss :: js) ∨ ∃ js, is = .null :: js)

/-- How the head of every relation goes on behind its tag. -/
def relationHead (schemaname : Option Chars) (relname : Chars) (is : List Item) : List Item :=
  .blank :: .label "schemaname".toList :: .blank :: schemaItem schemaname :: .blank ::
    .label "relname".toList :: .blank :: .token false relname :: is

/-- What stands behind an item in a printed tree. -/
def Item.fits : Item → List Item → Prop
  | .tag t, is => cleanText t = true ∧ Delimited is ∧
      (t = "RANGEVAR".toList → ∃ s r js, is = relationHead s r js)
  | .label l, is => cleanText l = true ∧ ∃ js, is = .blank :: js ∧ valueFits l js
  | .word w, is => cleanText w = true ∧ Delimited is
  | .token _ _, is => Delimited is ∧ ∀ js, is = .blank :: js → ∃ i ks, js = i :: ks ∧ i.opensField = true
  | .close, _ | .lparen, _ | .rparen, _ | .blank, _ | .null, _ | .str _ _, _ | .names _, _ => True

def Printed : List Item → Prop
  | [] => True
  | i :: is => i.fits is ∧ Printed is

/-- Whether a needle stands at the end of an item. -/
def Item.endsIn (x : Chars) : Item → Bool
  | .tag t => x == '{' :: t
  | .label l => x == ':' :: l
  | .token _ s => x.isSuffixOf s
  | _ => false

/-- The rest behind an item that ends in a needle, with a blank between. -/
def Item.behind (x : Chars) (i : Item) : List Item → List (List Item)
  | .blank :: js => if i.endsIn x then [js] else []
  | _ => []

def behind (x : Chars) : List Item → List (List Item)
  | [] => []
  | i :: is => i.behind x is ++ behind x is

theorem Printed.append_right {is js : List Item} (h : Printed (is ++ js)) : Printed js := by
  induction is with
  | nil => exact h
  | cons i is ih => exact ih h.2

theorem mem_behind {x : Chars} {is js : List Item} (h : js ∈ behind x is) :
    ∃ p i, is = p ++ i :: .blank :: js ∧ i.endsIn x = true := by
  induction is with
  | nil => simp [behind] at h
  | cons i is ih =>
    rcases List.mem_append.mp h with h | h
    · cases is with
      | nil => simp [Item.behind] at h
      | cons b ks =>
        cases b with
        | blank =>
          by_cases hx : i.endsIn x = true
          · obtain rfl : js = ks := by simpa [Item.behind, hx] using h
            exact ⟨[], i, rfl, hx⟩
          · simp [Item.behind, hx] at h
        | tag | close | lparen | rparen | null | label | word | token | str | names =>
          simp [Item.behind] at h
    · obtain ⟨p, j, rfl, hx⟩ := ih h
      exact ⟨i :: p, j, rfl, hx⟩

variable {a : Char} {w : Chars}

/-- The search in an escaped text that a blank or a closing bracket ends. -/
theorem Needle.hits_delimited (h : Needle a w) {u : Chars} (hu : Escaped '\\' ' ' u) {is : List Item}
    (hb : Delimited is) : hits (a :: w ++ [' ']) u (render is) =
      match is with
      | .blank :: js => if a :: w <:+ u then [render js] else []
      | _ => [] := by
  have hnone : ∀ v : Chars, v.head?.all (fun c => decide (c ∉ a :: w ++ [' '])) = true →
      hits (a :: w ++ [' ']) u v = [] :=
    fun v hv => hits_escaped_none '\\' (List.cons_ne_nil a w) h.backslash_not_mem hu hv
  have hnot : ∀ c : Char, c ≠ ':' ∧ c ≠ '{' → cleanChar c = false → c ≠ ' ' → c ∉ a :: w ++ [' '] := by
    intro c hc hclean hblank hm
    rcases List.mem_append.mp hm with hm | hm
    · exact h.not_mem_cons hc hclean hm
    · exact hblank (by simpa using hm)
  rcases hb with rfl | ⟨js, rfl⟩ | ⟨js, rfl⟩ | ⟨js, rfl⟩
  · exact hnone [] rfl
  · exact hits_escaped '\\' (List.cons_ne_nil a w) h.blank_not_mem h.backslash_not_mem hu (render js)
  · exact hnone _ (by simpa [render_cons, Item.text] using hnot '}' (by decide) (by decide) (by decide))
  · exact hnone _ (by simpa [render_cons, Item.text] using hnot ')' (by decide) (by decide) (by decide))

theorem Needle.mem_hits_delimited (h : Needle a w) {u v : Chars} (hu : Escaped '\\' ' ' u)
    {is : List Item} (hb : Delimited is) (hv : v ∈ hits (a :: w ++ [' ']) u (render is)) :
    ∃ js, is = .blank :: js ∧ v = render js := by
  rw [h.hits_delimited hu hb] at hv
  rcases hb with rfl | ⟨js, rfl⟩ | ⟨js, rfl⟩ | ⟨js, rfl⟩
  · exact absurd hv List.not_mem_nil
  · refine ⟨js, rfl, ?_⟩
    by_cases hs : a :: w <:+ u
    · simpa [hs] using hv
    · simp [hs] at hv
  · exact absurd hv List.not_mem_nil
  · exact absurd hv List.not_mem_nil

theorem suffix_special_cons {b : Char} {t : Chars} (hb : a ∉ t) :
    a :: w <:+ b :: t ↔ a :: w = b :: t := by
  rw [List.suffix_cons_iff]
  constructor
  · rintro (h | h)
    · exact h
    · exact absurd (h.subset List.mem_cons_self) hb
  · exact Or.inl

/-- One item at a time, a search finds what ends in its needle. -/
theorem Needle.hits_item (h : Needle a w) {i : Item} {is : List Item} (hi : i.fits is) :
    hits (a :: w ++ [' ']) i.text (render is) = (i.behind (a :: w) is).map render := by
  have hclean : ∀ {t : Chars}, cleanText t = true → a ∉ t := by
    intro t ht
    rcases h.start with rfl | rfl
    · exact cleanText_not_mem ht (by decide)
    · exact cleanText_not_mem ht (by decide)
  have hmatch : ∀ u : Chars, Escaped '\\' ' ' u → Delimited is → i.text = u →
      (i.endsIn (a :: w) = true ↔ a :: w <:+ u) →
      hits (a :: w ++ [' ']) i.text (render is) = (i.behind (a :: w) is).map render := by
    intro u hu hb ht he
    rw [ht, h.hits_delimited hu hb]
    cases is with
    | nil => rfl
    | cons b js =>
      cases b with
      | blank =>
        by_cases hs : a :: w <:+ u
        · simp [Item.behind, he.mpr hs, hs]
        · have hend : i.endsIn (a :: w) = false := by
            by_contra hc
            exact hs (he.mp (by simpa using hc))
          simp [Item.behind, hend, hs]
      | tag | close | lparen | rparen | null | label | word | token | str | names => rfl
  have hno : ∀ c : Char, c ≠ ':' ∧ c ≠ '{' → hits (a :: w ++ [' ']) [c] (render is) = [] := by
    intro c hc
    refine hits_cons_of_ne ?_ _ _ _
    rcases h.start with rfl | rfl
    · exact Ne.symm hc.1
    · exact Ne.symm hc.2
  have hbehind : (∀ x, i.endsIn x = false) → (i.behind (a :: w) is).map render = [] := by
    intro hx
    cases is with
    | nil => rfl
    | cons b js => cases b <;> simp [Item.behind, hx]
  cases i with
  | tag t =>
    obtain ⟨ht, hb, _⟩ := hi
    refine hmatch ('{' :: t) ?_ hb rfl ?_
    · exact Escaped.of_not_mem (by simpa using cleanText_not_mem ht (c := ' ') (by decide))
    · rw [suffix_special_cons (hclean ht)]
      simp [Item.endsIn]
  | label l =>
    obtain ⟨hl, js, rfl, _⟩ := hi
    refine hmatch (':' :: l) ?_ (Or.inr (Or.inl ⟨js, rfl⟩)) rfl ?_
    · exact Escaped.of_not_mem (by simpa using cleanText_not_mem hl (c := ' ') (by decide))
    · rw [suffix_special_cons (hclean hl)]
      simp [Item.endsIn]
  | token c s =>
    refine hmatch (outToken s) (escaped_outToken s) hi.1 rfl ?_
    rw [h.suffix_outToken]
    simp [Item.endsIn]
  | word u =>
    rw [hbehind fun _ => rfl]
    exact hits_of_not_mem (hclean hi.1) _
  | str c s =>
    rw [hbehind fun _ => rfl]
    exact h.hits_outString s _
  | names ss =>
    rw [hbehind fun _ => rfl, Item.text]
    have hparen : a ≠ '(' := by
      rcases h.start with rfl | rfl <;> decide
    rw [List.cons_append, hits_cons_of_ne hparen, ← List.cons_append, hits_append,
      h.hits_dumpStrings ss _ _ (Or.inl rfl), List.nil_append]
    exact hno ')' (by decide)
  | null =>
    rw [hbehind fun _ => rfl]
    exact hits_of_not_mem (by rcases h.start with rfl | rfl <;> decide) _
  | close => exact (hno '}' (by decide)).trans (hbehind fun _ => rfl).symm
  | lparen => exact (hno '(' (by decide)).trans (hbehind fun _ => rfl).symm
  | rparen => exact (hno ')' (by decide)).trans (hbehind fun _ => rfl).symm
  | blank => exact (hno ' ' (by decide)).trans (hbehind fun _ => rfl).symm

/-- The search in a whole text. -/
theorem Needle.hits_render (h : Needle a w) {is : List Item} (hp : Printed is) :
    hits (a :: w ++ [' ']) (render is) [] = (behind (a :: w) is).map render := by
  induction is with
  | nil => rfl
  | cons i is ih =>
    rw [render_cons, hits_append, List.append_nil, h.hits_item hp.1, ih hp.2, behind, List.map_append]

end Items

end Allgres
