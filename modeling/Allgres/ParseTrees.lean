import Allgres.ItemAnalysis
import Allgres.ValidateSql

/-! What the grammar says about the trees it builds, and the items of such a tree. -/

namespace Allgres

open Scan

section Regular

/-- Labels of the nodes that have a constructor of their own, and of a raw statement. -/
def ownLabels : List Chars :=
  ["relname".toList, "ctename".toList, "stmt".toList]

def Node.isToken : Node → Bool
  | .token _ => true
  | _ => false

def Node.isName : Node → Bool
  | .null | .token _ => true
  | _ => false

def Node.isNames : Node → Bool
  | .null => true
  | n => n.strings.isSome

/-- The label of a field and what its value has to be for it. -/
def fieldRegular (l : Chars) (value : Node) : Bool :=
  cleanText l && !ownLabels.contains l && (l != "schemaname".toList || value.isName) &&
    (l != "funcname".toList || value.isNames)

mutual

/-- A tag, a label and a number are plain, and a text without quotation marks is
the value of a field. -/
def Node.regular : Node → Bool
  | .null | .token _ | .str _ => true
  | .atom w => cleanText w.chars
  | .list xs => xs.regular
  | .rangeVar _ _ rest => rest.regular
  | .funcCall _ rest => rest.regular
  | .sqlValueFunction _ rest => rest.regular
  | .withStmt tag before ctes _ location after =>
    cleanText tag.chars && before.regular && ctes.regular && cleanText location.chars && after.regular
  | .node tag fields => cleanText tag.chars && fields.regular

def Nodes.regular : Nodes → Bool
  | .nil => true
  | .cons x xs => !x.isToken && x.regular && xs.regular

def Fields.regular : Fields → Bool
  | .nil => true
  | .flag w tail => cleanText w.chars && tail.regular
  | .cons label value tail => fieldRegular label.chars value && value.regular && tail.regular

def Ctes.regular : Ctes → Bool
  | .nil => true
  | .cons _ rest tail => rest.regular && tail.regular

end

/-- The statements of a text, each in its `RawStmt`. -/
def Nodes.raw : Nodes → Bool
  | .nil => true
  | .cons (.node tag (.cons label stmt rest)) xs =>
    tag.chars == "RAWSTMT".toList && label.chars == "stmt".toList && stmt.regular && rest.regular && xs.raw
  | .cons _ _ => false

/-- What the parser answers a text with that has a statement. -/
structure ParseTree where
  statements : Nodes
  parsed : statements ≠ .nil
  raw : statements.raw = true

end Regular

section Layout

/-- What may stand behind the fields of a node. -/
def Ends (is : List Item) : Prop :=
  Delimited is ∧ ∀ js, is = .blank :: js → ∃ i ks, js = i :: ks ∧ i.opensField = true

theorem ends_close (is : List Item) : Ends (.close :: is) :=
  ⟨Or.inr (Or.inr (Or.inl ⟨is, rfl⟩)), nofun⟩

theorem ends_field {i : Item} (h : i.opensField = true) (is : List Item) : Ends (.blank :: i :: is) := by
  refine ⟨Or.inr (Or.inl ⟨_, rfl⟩), fun js he => ?_⟩
  obtain rfl : i :: is = js := (List.cons.inj he).2
  exact ⟨i, is, rfl, h⟩

theorem delimited_rparen (is : List Item) : Delimited (.rparen :: is) :=
  Or.inr (Or.inr (Or.inr ⟨is, rfl⟩))

def Item.constant : Item → Bool
  | .token c _ | .str c _ => c
  | _ => false

/-- Behind a constant no kind of a statement is left to read in its node. -/
def QuietItems : List Item → Prop
  | [] => True
  | i :: is => (i.constant = true → kindAt is = none) ∧ QuietItems is

/-- Items that leave the brackets behind them as they are and that have no label
of a statement. -/
def Item.inert : Item → Bool
  | .tag _ | .close => false
  | .label l => l != "stmt".toList
  | _ => true

/-- What the items of a tree do to the items behind them. -/
structure Lays (js is : List Item) : Prop where
  proper : Printed (js ++ is)
  tags : ∀ d, tagsBehind "stmt".toList (bodyItems d (js ++ is)) = tagsBehind "stmt".toList (bodyItems d is)
  quiet : kindAt is = none → QuietItems is → QuietItems (js ++ is)

theorem Item.inert_bodyItems {i : Item} (h : i.inert = true) (d : Nat) (is : List Item) :
    bodyItems d (i :: is) = i :: bodyItems d is := by
  cases i with
  | tag | close => simp [inert] at h
  | lparen | rparen | blank | null | label | word | token | str | names => rfl

theorem Item.inert_tagBehind {i : Item} (h : i.inert = true) (is : List Item) :
    i.tagBehind "stmt".toList is = [] := by
  cases i with
  | label l =>
    have hl : l ≠ "stmt".toList := bne_iff_ne.mp h
    unfold tagBehind
    split
    · next he =>
      obtain rfl := (Item.label.inj he)
      exact if_neg hl
    · rfl
  | tag | close | lparen | rparen | blank | null | word | token | str | names =>
    unfold tagBehind
    split <;> simp_all

namespace Lays

theorem nil {is : List Item} (h : Printed is) : Lays [] is :=
  ⟨h, fun _ => rfl, fun _ hq => hq⟩

theorem kindAt {js is : List Item} (h : Lays js is) : kindAt (js ++ is) = Allgres.kindAt is := by
  rw [Allgres.kindAt, h.tags 0]
  rfl

theorem cons {i : Item} {js is : List Item} (hi : i.inert = true) (hf : i.fits (js ++ is))
    (h : Lays js is) : Lays (i :: js) is := by
  refine ⟨⟨hf, h.proper⟩, fun d => ?_, fun hk hq => ?_⟩
  · rw [List.cons_append, Item.inert_bodyItems hi, tagsBehind, Item.inert_tagBehind hi, List.nil_append,
      h.tags d]
  · exact ⟨fun _ => h.kindAt.trans hk, h.quiet hk hq⟩

theorem append {hs js is : List Item} (hh : Lays hs (js ++ is)) (hj : Lays js is) : Lays (hs ++ js) is := by
  refine ⟨?_, fun d => ?_, fun hk hq => ?_⟩
  · rw [List.append_assoc]
    exact hh.proper
  · rw [List.append_assoc, hh.tags d, hj.tags d]
  · rw [List.append_assoc]
    exact hh.quiet (hj.kindAt.trans hk) (hj.quiet hk hq)

/-- A whole node. -/
theorem node {t : Chars} {js is : List Item} (hf : (Item.tag t).fits (js ++ .close :: is))
    (h : Lays js (.close :: is)) : Lays (.tag t :: (js ++ [.close])) is := by
  have happ : .tag t :: (js ++ [.close]) ++ is = .tag t :: (js ++ .close :: is) := by simp
  refine ⟨?_, fun d => ?_, fun _ hq => ?_⟩
  · rw [happ]
    exact ⟨hf, h.proper⟩
  · have htag : ∀ ks, (Item.tag t).tagBehind "stmt".toList ks = [] := fun _ => rfl
    have hclose : ∀ ks, Item.close.tagBehind "stmt".toList ks = [] := fun _ => rfl
    have hbody : bodyItems (d + 1) (.close :: is) = .close :: bodyItems d is := by simp [bodyItems]
    rw [happ, bodyItems, tagsBehind, htag, List.nil_append, h.tags (d + 1), hbody, tagsBehind, hclose,
      List.nil_append]
  · rw [happ]
    refine ⟨fun hc => absurd hc Bool.false_ne_true, h.quiet ?_
      ⟨fun hc => absurd hc Bool.false_ne_true, hq⟩⟩
    simp [Allgres.kindAt, bodyItems, tagsBehind]

end Lays

end Layout

section Trees

/-- The labels whose value is read. -/
def readLabels : List Chars :=
  ["relname".toList, "ctename".toList, "schemaname".toList, "funcname".toList]

theorem valueFits_other {l : Chars} (h : readLabels.contains l = false) (is : List Item) : valueFits l is := by
  have hl : l ∉ readLabels := by
    intro hm
    rw [List.contains_iff_mem.mpr hm] at h
    exact absurd h (by decide)
  simp only [readLabels, List.mem_cons, List.not_mem_nil, or_false, not_or] at hl
  obtain ⟨h1, h2, h3, h4⟩ := hl
  exact ⟨fun h => absurd h (not_or.mpr ⟨h1, h2⟩), fun h => absurd h h3, fun h => absurd h h4⟩

/-- A label with its value. -/
theorem Lays.field {l : Chars} {js is : List Item} (hl : cleanText l = true) (hs : l ≠ "stmt".toList)
    (hv : valueFits l (js ++ is)) (h : Lays js is) : Lays (.blank :: .label l :: .blank :: js) is := by
  have hblank : Lays (.blank :: js) is := Lays.cons rfl trivial h
  have hlabel : Lays (.label l :: .blank :: js) is :=
    Lays.cons (bne_iff_ne.mpr hs) ⟨hl, js ++ is, rfl, hv⟩ hblank
  exact Lays.cons rfl trivial hlabel

theorem Lays.word {w : Chars} {is : List Item} (hw : cleanText w = true) (hb : Delimited is)
    (hp : Printed is) : Lays [.word w] is :=
  Lays.cons rfl ⟨hw, hb⟩ (Lays.nil hp)

theorem Lays.token {is : List Item} (c : Bool) (s : Chars) (he : Ends is) (hp : Printed is) :
    Lays [.token c s] is :=
  Lays.cons rfl he (Lays.nil hp)

theorem Lays.schemaItem {is : List Item} (s : Option Chars) (he : Ends is) (hp : Printed is) :
    Lays [schemaItem s] is := by
  cases s with
  | none => exact Lays.cons rfl trivial (Lays.nil hp)
  | some s => exact Lays.token false s he hp

variable (k : ConstantFields)

theorem Fields.items_ends (fs : Fields) (tag : Chars) {is : List Item} (h : Ends is) :
    Ends (fs.items k tag ++ is) := by
  cases fs with
  | nil => exact h
  | flag w tail => exact ends_field rfl _
  | cons label value tail => exact ends_field rfl _

theorem Nodes.items_delimited (xs : Nodes) (c : Bool) {is : List Item} (h : Delimited is) :
    Delimited (xs.items k c true ++ is) := by
  cases xs with
  | nil => exact h
  | cons x xs => exact Or.inr (Or.inl ⟨_, rfl⟩)

theorem Ctes.items_delimited (cs : Ctes) {is : List Item} (h : Delimited is) :
    Delimited (cs.items k true ++ is) := by
  cases cs with
  | nil => exact h
  | cons ctename rest tail => exact Or.inr (Or.inl ⟨_, rfl⟩)

theorem Lays.separated {js is : List Item} (sep : Bool) (h : Lays js is) : Lays (separated sep ++ js) is := by
  cases sep with
  | false => exact h
  | true => exact Lays.cons rfl trivial h

theorem SqlValueFunctionOp.code_clean (op : SqlValueFunctionOp) : cleanText op.code = true := by
  cases op <;> decide

theorem fieldRegular_iff {l : Chars} {value : Node} : fieldRegular l value = true ↔
    cleanText l = true ∧ l ∉ ownLabels ∧ (l = "schemaname".toList → value.isName = true) ∧
      (l = "funcname".toList → value.isNames = true) := by
  simp only [fieldRegular, Bool.and_eq_true, Bool.not_eq_true', Bool.or_eq_true, bne_iff_ne, and_assoc,
    ← Bool.not_eq_true, List.contains_iff_mem]
  tauto

mutual

theorem Node.lays : ∀ (n : Node) (c : Bool) {is : List Item}, n.regular = true → Printed is → Delimited is →
    (n.isToken = true → Ends is) → Lays (n.items k c) is
  | .null, _, _, _, hp, _, _ => Lays.cons rfl trivial (Lays.nil hp)
  | .atom _, _, _, hr, hp, hb, _ => Lays.word hr hb hp
  | .token s, c, _, _, hp, _, he => Lays.token c s (he rfl) hp
  | .str _, _, _, _, hp, _, _ => Lays.cons rfl trivial (Lays.nil hp)
  | .list xs, c, is, hr, hp, _, _ => by
    have hclose : Lays [.rparen] is := Lays.cons rfl trivial (Lays.nil hp)
    have hxs := xs.lays c false hr hclose.proper (delimited_rparen is)
    exact Lays.cons rfl trivial (Lays.append hxs hclose)
  | .rangeVar schemaname relname rest, _, is, hr, hp, _, _ => by
    have hrest := rest.lays "RANGEVAR".toList hr (show Printed (.close :: is) from ⟨trivial, hp⟩) (ends_close is)
    have hname := Lays.append (Lays.token false relname
      (rest.items_ends k "RANGEVAR".toList (ends_close is)) hrest.proper) hrest
    have hrel := Lays.field (l := "relname".toList) (by decide) (by decide)
      ⟨fun _ => ⟨relname, _, rfl⟩, fun h => absurd h (by decide), fun h => absurd h (by decide)⟩ hname
    have hschema := Lays.append (Lays.schemaItem schemaname (ends_field rfl _) hrel.proper) hrel
    have hhead := Lays.field (l := "schemaname".toList) (by decide) (by decide)
      ⟨fun h => absurd h (by decide), fun _ => ⟨schemaname, _, rfl⟩, fun h => absurd h (by decide)⟩ hschema
    exact Lays.node ⟨by decide, Or.inr (Or.inl ⟨_, rfl⟩), fun _ => ⟨schemaname, relname, _, rfl⟩⟩ hhead
  | .funcCall funcname rest, _, is, hr, hp, _, _ => by
    have hrest := rest.lays "FUNCCALL".toList hr (show Printed (.close :: is) from ⟨trivial, hp⟩) (ends_close is)
    have hnames : Lays (.names funcname :: rest.items k "FUNCCALL".toList) (.close :: is) :=
      Lays.cons rfl trivial hrest
    have hfunc := Lays.field (l := "funcname".toList) (by decide) (by decide)
      ⟨fun h => absurd h (by decide), fun h => absurd h (by decide), fun _ => Or.inl ⟨funcname, _, rfl⟩⟩ hnames
    exact Lays.node ⟨by decide, Or.inr (Or.inl ⟨_, rfl⟩), fun h => absurd h (by decide)⟩ hfunc
  | .sqlValueFunction op rest, _, is, hr, hp, _, _ => by
    have hrest := rest.lays "SQLVALUEFUNCTION".toList hr (show Printed (.close :: is) from ⟨trivial, hp⟩)
      (ends_close is)
    have hcode := Lays.append (Lays.word op.code_clean
      (rest.items_ends k "SQLVALUEFUNCTION".toList (ends_close is)).1 hrest.proper) hrest
    have hop := Lays.field (l := "op".toList) (by decide) (by decide) (valueFits_other (by decide) _) hcode
    exact Lays.node ⟨by decide, Or.inr (Or.inl ⟨_, rfl⟩), fun h => absurd h (by decide)⟩ hop
  | .withStmt tag before ctes recursive location after, _, is, hr, hp, _, _ => by
    simp only [Node.regular, Bool.and_eq_true, and_assoc] at hr
    obtain ⟨ht, hb, hc, hloc, ha⟩ := hr
    have hafter := after.lays tag.chars ha (show Printed (.close :: is) from ⟨trivial, hp⟩) (ends_close is)
    have hends := after.items_ends k tag.chars (ends_close is)
    have hloc := Lays.field (l := "location".toList) (by decide) (by decide) (valueFits_other (by decide) _)
      (Lays.word hloc (ends_close _).1 (show Printed (.close :: (after.items k tag.chars ++ .close :: is)) from
        ⟨trivial, hafter.proper⟩))
    have hrec := Lays.field (l := "recursive".toList) (by decide) (by decide) (valueFits_other (by decide) _)
      (Lays.append (Lays.word (w := if recursive then "true".toList else "false".toList)
        (by cases recursive <;> decide) (ends_field rfl _).1 hloc.proper) hloc)
    have hparen := Lays.cons (i := .rparen) rfl trivial hrec
    have hlist := Lays.append (ctes.lays false hc hparen.proper (delimited_rparen _)) hparen
    have hctes := Lays.field (l := "ctes".toList) (by decide) (by decide) (valueFits_other (by decide) _)
      (Lays.cons (i := .lparen) rfl trivial hlist)
    have hwith := Lays.node (t := "WITHCLAUSE".toList)
      ⟨by decide, Or.inr (Or.inl ⟨_, rfl⟩), fun h => absurd h (by decide)⟩ hctes
    have hclause := Lays.field (l := "withClause".toList) (by decide) (by decide)
      (valueFits_other (by decide) _) (Lays.append hwith hafter)
    have hall := Lays.append (before.lays tag.chars hb hclause.proper (ends_field rfl _)) hclause
    have hdelimited : ∀ js, Delimited (before.items k tag.chars ++ .blank :: .label "withClause".toList :: js) :=
      fun js => (before.items_ends k tag.chars (ends_field rfl js)).1
    have hnode := Lays.node (t := tag.chars) ⟨ht, by simpa using hdelimited _,
      fun h => absurd (h ▸ tag.other) (by decide)⟩ hall
    simpa [Node.items] using hnode
  | .node tag fields, _, is, hr, hp, _, _ => by
    simp only [Node.regular, Bool.and_eq_true] at hr
    have hfields := fields.lays tag.chars hr.2 (show Printed (.close :: is) from ⟨trivial, hp⟩) (ends_close is)
    exact Lays.node ⟨hr.1, (fields.items_ends k tag.chars (ends_close is)).1,
      fun h => absurd (h ▸ tag.other) (by decide)⟩ hfields

theorem Nodes.lays : ∀ (xs : Nodes) (c sep : Bool) {is : List Item}, xs.regular = true → Printed is →
    Delimited is → Lays (xs.items k c sep) is
  | .nil, _, _, _, _, hp, _ => Lays.nil hp
  | .cons x xs, c, sep, is, hr, hp, hb => by
    simp only [Nodes.regular, Bool.and_eq_true, Bool.not_eq_true', and_assoc] at hr
    obtain ⟨ht, hx, hxs⟩ := hr
    have hrest := xs.lays c true hxs hp hb
    have hhead := x.lays c hx hrest.proper (xs.items_delimited k c hb) fun h => by simp [ht] at h
    exact Lays.separated sep (Lays.append hhead hrest)

theorem Fields.lays : ∀ (fs : Fields) (tag : Chars) {is : List Item}, fs.regular = true → Printed is →
    Ends is → Lays (fs.items k tag) is
  | .nil, _, _, _, hp, _ => Lays.nil hp
  | .flag w tail, tag, is, hr, hp, he => by
    simp only [Fields.regular, Bool.and_eq_true] at hr
    have hrest := tail.lays tag hr.2 hp he
    have hword := Lays.append (Lays.word hr.1 (tail.items_ends k tag he).1 hrest.proper) hrest
    exact Lays.cons rfl trivial hword
  | .cons label value tail, tag, is, hr, hp, he => by
    simp only [Fields.regular, Bool.and_eq_true, and_assoc] at hr
    obtain ⟨hf, hv, ht⟩ := hr
    obtain ⟨hclean, hown, hschema, hfunc⟩ := fieldRegular_iff.mp hf
    simp only [ownLabels, List.mem_cons, List.not_mem_nil, or_false, not_or] at hown
    obtain ⟨hrel, hcte, hstmt⟩ := hown
    have hrest := tail.lays tag ht hp he
    have hends := tail.items_ends k tag he
    rw [Fields.items]
    by_cases hfn : label.chars = "funcname".toList
    · rw [if_pos hfn]
      cases hs : value.strings with
      | some ss =>
        have hnames : Lays (.names ss :: tail.items k tag) is := Lays.cons rfl trivial hrest
        exact Lays.field hclean hstmt ⟨fun h => absurd h (not_or.mpr ⟨hrel, hcte⟩),
          fun h => absurd (hfn.symm.trans h) (by decide), fun _ => Or.inl ⟨ss, _, rfl⟩⟩ hnames
      | none =>
        obtain rfl : value = .null := by
          have hnames := hfunc hfn
          unfold Node.isNames at hnames
          split at hnames
          · rfl
          · simp [hs] at hnames
        have hnull : Lays (.null :: tail.items k tag) is := Lays.cons rfl trivial hrest
        exact Lays.field hclean hstmt ⟨fun h => absurd h (not_or.mpr ⟨hrel, hcte⟩),
          fun h => absurd (hfn.symm.trans h) (by decide), fun _ => Or.inr ⟨_, rfl⟩⟩ hnull
    · rw [if_neg hfn]
      have hplain := Lays.append (value.lays (k.holds tag label.chars) hv hrest.proper hends.1 fun _ => hends) hrest
      refine Lays.field hclean hstmt ⟨fun h => absurd h (not_or.mpr ⟨hrel, hcte⟩), fun h => ?_,
        fun h => absurd h hfn⟩ hplain
      have hname := hschema h
      cases value with
      | null => exact ⟨none, _, rfl⟩
      | token s => exact ⟨some s, _, by rw [h, Node.items, k.schemaname]; rfl⟩
      | atom | str | list | rangeVar | funcCall | sqlValueFunction | withStmt | node =>
        simp [Node.isName] at hname

theorem Ctes.lays : ∀ (cs : Ctes) (sep : Bool) {is : List Item}, cs.regular = true → Printed is →
    Delimited is → Lays (cs.items k sep) is
  | .nil, _, _, _, hp, _ => Lays.nil hp
  | .cons ctename rest tail, sep, is, hr, hp, hb => by
    simp only [Ctes.regular, Bool.and_eq_true] at hr
    have htail := tail.lays true hr.2 hp hb
    have hrest := rest.lays "COMMONTABLEEXPR".toList hr.1
      (show Printed (.close :: (tail.items k true ++ is)) from ⟨trivial, htail.proper⟩) (ends_close _)
    have hname := Lays.append (Lays.token false ctename
      (rest.items_ends k "COMMONTABLEEXPR".toList (ends_close _)) hrest.proper) hrest
    have hcte := Lays.field (l := "ctename".toList) (by decide) (by decide)
      ⟨fun _ => ⟨ctename, _, rfl⟩, fun h => absurd h (by decide), fun h => absurd h (by decide)⟩ hname
    have hnode := Lays.node (t := "COMMONTABLEEXPR".toList)
      ⟨by decide, Or.inr (Or.inl ⟨_, rfl⟩), fun h => absurd h (by decide)⟩ hcte
    have hboth := Lays.separated sep (Lays.append hnode htail)
    simpa [Ctes.items] using hboth

end

/-- In a raw statement, and behind it, only its own label is the one of a statement. -/
theorem rawStmt_lays {tag : Tag} {label : Word} {stmt : Node} {rest : Fields} {is : List Item}
    (ht : tag.chars = "RAWSTMT".toList) (hl : label.chars = "stmt".toList) (hs : stmt.regular = true)
    (hr : rest.regular = true) (hp : Printed is) (hq : QuietItems is) :
    Printed ((Node.node tag (.cons label stmt rest)).items k false ++ is) ∧
      QuietItems ((Node.node tag (.cons label stmt rest)).items k false ++ is) := by
  have hrest := rest.lays k tag.chars hr (show Printed (.close :: is) from ⟨trivial, hp⟩) (ends_close is)
  have hends := rest.items_ends k tag.chars (ends_close is)
  have hstmt := Lays.append (stmt.lays k (k.holds tag.chars label.chars) hs hrest.proper hends.1
    fun _ => hends) hrest
  have hclosed : kindAt (.close :: is) = none := by simp [kindAt, bodyItems, tagsBehind]
  have hquiet := hstmt.quiet hclosed ⟨fun hc => absurd hc Bool.false_ne_true, hq⟩
  have hfn : label.chars ≠ "funcname".toList := fun h => absurd (hl.symm.trans h) (by decide)
  have hitems : (Node.node tag (.cons label stmt rest)).items k false ++ is =
      .tag tag.chars :: .blank :: .label label.chars :: .blank ::
        ((stmt.items k (k.holds tag.chars label.chars) ++ rest.items k tag.chars) ++ .close :: is) := by
    rw [Node.items, Fields.items, if_neg hfn]
    simp only [List.append_assoc, List.cons_append, List.nil_append]
  have hvalue := valueFits_other (l := label.chars) (by rw [hl]; decide)
    ((stmt.items k (k.holds tag.chars label.chars) ++ rest.items k tag.chars) ++ .close :: is)
  rw [hitems]
  refine ⟨⟨⟨by rw [ht]; decide, Or.inr (Or.inl ⟨_, rfl⟩), fun h => absurd (h ▸ tag.other) (by decide)⟩,
    trivial, ⟨by rw [hl]; decide, _, rfl, hvalue⟩, trivial, hstmt.proper⟩, ?_, ?_, ?_, ?_, hquiet⟩
  all_goals exact fun hc => absurd hc Bool.false_ne_true

theorem Nodes.raw_lays : ∀ (xs : Nodes) (sep : Bool) {is : List Item}, xs.raw = true → Printed is → QuietItems is →
    Printed (xs.items k false sep ++ is) ∧ QuietItems (xs.items k false sep ++ is)
  | .nil, _, _, _, hp, hq => ⟨hp, hq⟩
  | .cons x xs, sep, is, hr, hp, hq => by
    unfold Nodes.raw at hr
    split at hr
    · next => contradiction
    · next tag label stmt rest ys hxs =>
      obtain ⟨rfl, rfl⟩ := Nodes.cons.inj hxs
      simp only [Bool.and_eq_true, beq_iff_eq, and_assoc] at hr
      obtain ⟨ht, hl, hs, hrest, hys⟩ := hr
      obtain ⟨hp', hq'⟩ := xs.raw_lays true hys hp hq
      obtain ⟨hpx, hqx⟩ := rawStmt_lays k ht hl hs hrest hp' hq'
      rw [Nodes.items, List.append_assoc, List.append_assoc]
      cases sep with
      | false => exact ⟨hpx, hqx⟩
      | true => exact ⟨⟨trivial, hpx⟩, nofun, hqx⟩
    · exact absurd hr (by decide)

namespace ParseTree

/-- The items of the whole dump. -/
def items (t : ParseTree) : List Item :=
  (Node.list t.statements).items k false

theorem items_lays (t : ParseTree) : Printed (t.items k) ∧ QuietItems (t.items k) := by
  have hend : Printed [Item.rparen] := ⟨trivial, trivial⟩
  have hquiet : QuietItems [Item.rparen] := ⟨nofun, trivial⟩
  obtain ⟨hp, hq⟩ := t.statements.raw_lays k false t.raw hend hquiet
  exact ⟨⟨trivial, hp⟩, nofun, hq⟩

theorem dump_eq (t : ParseTree) : rawParseDump t.statements = render (t.items k) := by
  have hdump : rawParseDump t.statements = (Node.list t.statements).dump := by
    have hne := t.parsed
    unfold rawParseDump
    split
    · contradiction
    · rfl
  rw [hdump, (Node.list t.statements).dump_eq_render k false]
  rfl

/-- The answer of the analyser about a tree is the one about its items. -/
theorem analyzeDump_eq (t : ParseTree) :
    analyzeDump (rawParseDump t.statements) = some (itemAnalysis (t.items k)) := by
  rw [t.dump_eq k]
  exact analyzeDump_render (t.items_lays k).1 (List.cons_ne_nil _ _)

end ParseTree

end Trees

end Allgres
