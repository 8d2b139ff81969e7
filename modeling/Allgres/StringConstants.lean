import Allgres.ParseTrees
import Allgres.SmallServer

/-! What the string constants of a statement have to do with the analysis: two
dumps of one tree that differ in nothing but the text of its constants. -/

namespace Allgres

open Scan

section Filling

variable (k : ConstantFields) (v : Chars)

mutual

/-- The tree with every string constant replaced by one text. -/
def Node.fill (constant : Bool) : Node → Node
  | .null => .null
  | .atom w => .atom w
  | .token s => .token (if constant then v else s)
  | .str s => .str (if constant then v else s)
  | .list xs => .list (xs.fill constant)
  | .rangeVar schemaname relname rest => .rangeVar schemaname relname (rest.fill "RANGEVAR".toList)
  | .funcCall funcname rest => .funcCall funcname (rest.fill "FUNCCALL".toList)
  | .sqlValueFunction op rest => .sqlValueFunction op (rest.fill "SQLVALUEFUNCTION".toList)
  | .withStmt tag before ctes recursive location after =>
    .withStmt tag (before.fill tag.chars) ctes.fill recursive location (after.fill tag.chars)
  | .node tag fields => .node tag (fields.fill tag.chars)

def Nodes.fill (constant : Bool) : Nodes → Nodes
  | .nil => .nil
  | .cons x xs => .cons (x.fill constant) (xs.fill constant)

def Fields.fill (tag : Chars) : Fields → Fields
  | .nil => .nil
  | .flag w tail => .flag w (tail.fill tag)
  | .cons label value tail => .cons label (value.fill (k.holds tag label.chars)) (tail.fill tag)

def Ctes.fill : Ctes → Ctes
  | .nil => .nil
  | .cons ctename rest tail => .cons ctename (rest.fill "COMMONTABLEEXPR".toList) tail.fill

end

def Item.fill : Item → Item
  | .token c s => .token c (if c then v else s)
  | .str c s => .str c (if c then v else s)
  | i => i

theorem Nodes.strings_fill (xs : Nodes) : (xs.fill k v false).strings = xs.strings := by
  match xs with
  | .nil => rfl
  | .cons x xs =>
    have ih := Nodes.strings_fill xs
    cases x <;> simp [Nodes.fill, Node.fill, Nodes.strings, ih]

theorem Node.strings_fill (n : Node) : (n.fill k v false).strings = n.strings := by
  cases n with
  | list xs => exact xs.strings_fill k v
  | null | atom | token | str | rangeVar | funcCall | sqlValueFunction | withStmt | node => rfl

theorem separated_fill (sep : Bool) : (separated sep).map (Item.fill v) = separated sep := by
  cases sep <;> rfl

theorem schemaItem_fill (s : Option Chars) : (schemaItem s).fill v = schemaItem s := by
  cases s <;> rfl

mutual

theorem Node.items_fill : ∀ (n : Node) (c : Bool), (n.fill k v c).items k c = (n.items k c).map (Item.fill v)
  | .null, _ | .atom _, _ | .token _, _ | .str _, _ => rfl
  | .list xs, c => by simp [Node.fill, Node.items, Item.fill, xs.items_fill c false]
  | .rangeVar schemaname relname rest, _ => by
    simp only [Node.fill, Node.items, List.map_cons, List.map_append, schemaItem_fill, rest.items_fill]
    rfl
  | .funcCall funcname rest, _ => by simp [Node.fill, Node.items, Item.fill, rest.items_fill]
  | .sqlValueFunction op rest, _ => by simp [Node.fill, Node.items, Item.fill, rest.items_fill]
  | .withStmt tag before ctes recursive location after, _ => by
    simp [Node.fill, Node.items, Item.fill, before.items_fill, ctes.items_fill, after.items_fill]
  | .node tag fields, _ => by simp [Node.fill, Node.items, Item.fill, fields.items_fill]

theorem Nodes.items_fill : ∀ (xs : Nodes) (c sep : Bool),
    (xs.fill k v c).items k c sep = (xs.items k c sep).map (Item.fill v)
  | .nil, _, _ => rfl
  | .cons x xs, c, sep => by simp [Nodes.fill, Nodes.items, separated_fill, x.items_fill, xs.items_fill]

theorem Fields.items_fill : ∀ (fs : Fields) (tag : Chars),
    (fs.fill k v tag).items k tag = (fs.items k tag).map (Item.fill v)
  | .nil, _ => rfl
  | .flag w tail, tag => by simp [Fields.fill, Fields.items, Item.fill, tail.items_fill]
  | .cons label value tail, tag => by
    have hvalue := value.items_fill (k.holds tag label.chars)
    have htail := tail.items_fill tag
    rw [Fields.fill, Fields.items, Fields.items]
    by_cases hl : label.chars = "funcname".toList
    · have hflag : k.holds tag label.chars = false := hl ▸ k.funcname tag
      rw [hflag] at hvalue ⊢
      rw [if_pos hl, if_pos hl, value.strings_fill, htail]
      cases value.strings with
      | none =>
        simp only [Option.elim_none, hvalue, List.map_cons, List.map_append]
        rfl
      | some ss =>
        simp only [Option.elim_some, List.map_cons, List.map_append]
        rfl
    · rw [if_neg hl, if_neg hl, hvalue, htail]
      simp only [List.map_cons, List.map_append]
      rfl

theorem Ctes.items_fill : ∀ (cs : Ctes) (sep : Bool),
    (cs.fill k v).items k sep = (cs.items k sep).map (Item.fill v)
  | .nil, _ => rfl
  | .cons ctename rest tail, sep => by
    simp [Ctes.fill, Ctes.items, separated_fill, Item.fill, rest.items_fill, tail.items_fill]

end

theorem Node.isToken_fill (n : Node) (c : Bool) : (n.fill k v c).isToken = n.isToken := by
  cases n <;> rfl

theorem Node.isName_fill (n : Node) (c : Bool) : (n.fill k v c).isName = n.isName := by
  cases n <;> rfl

theorem Node.isNames_fill (n : Node) : (n.fill k v false).isNames = n.isNames := by
  have hs := n.strings_fill k v
  cases n with
  | null => rfl
  | atom | token | str | list | rangeVar | funcCall | sqlValueFunction | withStmt | node =>
    exact congrArg Option.isSome hs

theorem fieldRegular_fill (tag l : Chars) (n : Node) :
    fieldRegular l (n.fill k v (k.holds tag l)) = fieldRegular l n := by
  rw [fieldRegular, fieldRegular, Node.isName_fill]
  by_cases hl : l = "funcname".toList
  · have hflag : k.holds tag l = false := hl ▸ k.funcname tag
    rw [hflag, Node.isNames_fill]
  · have hne : (l != "funcname".toList) = true := bne_iff_ne.mpr hl
    rw [hne, Bool.true_or, Bool.true_or]

mutual

theorem Node.regular_fill : ∀ (n : Node) (c : Bool), (n.fill k v c).regular = n.regular
  | .null, _ | .atom _, _ | .token _, _ | .str _, _ => rfl
  | .list xs, c => xs.regular_fill c
  | .rangeVar _ _ rest, _ => rest.regular_fill _
  | .funcCall _ rest, _ => rest.regular_fill _
  | .sqlValueFunction _ rest, _ => rest.regular_fill _
  | .withStmt tag before ctes _ _ after, _ => by
    simp [Node.fill, Node.regular, before.regular_fill, ctes.regular_fill, after.regular_fill]
  | .node tag fields, _ => by simp [Node.fill, Node.regular, fields.regular_fill]

theorem Nodes.regular_fill : ∀ (xs : Nodes) (c : Bool), (xs.fill k v c).regular = xs.regular
  | .nil, _ => rfl
  | .cons x xs, c => by simp [Nodes.fill, Nodes.regular, x.isToken_fill, x.regular_fill, xs.regular_fill]

theorem Fields.regular_fill : ∀ (fs : Fields) (tag : Chars), (fs.fill k v tag).regular = fs.regular
  | .nil, _ => rfl
  | .flag _ tail, tag => by simp [Fields.fill, Fields.regular, tail.regular_fill]
  | .cons label value tail, tag => by
    simp [Fields.fill, Fields.regular, fieldRegular_fill, value.regular_fill, tail.regular_fill]

theorem Ctes.regular_fill : ∀ cs : Ctes, (cs.fill k v).regular = cs.regular
  | .nil => rfl
  | .cons _ rest tail => by simp [Ctes.fill, Ctes.regular, rest.regular_fill, tail.regular_fill]

end

theorem Nodes.raw_fill : ∀ (xs : Nodes) (c : Bool), (xs.fill k v c).raw = xs.raw
  | .nil, _ => rfl
  | .cons (.node tag (.cons label stmt rest)) xs, c => by
    simp [Nodes.fill, Node.fill, Fields.fill, Nodes.raw, stmt.regular_fill, rest.regular_fill, xs.raw_fill]
  | .cons (.node tag .nil) xs, c | .cons (.node tag (.flag w tail)) xs, c => rfl
  | .cons .null xs, c | .cons (.atom w) xs, c | .cons (.token s) xs, c | .cons (.str s) xs, c => rfl
  | .cons (.list ys) xs, c | .cons (.rangeVar _ _ _) xs, c | .cons (.funcCall _ _) xs, c => rfl
  | .cons (.sqlValueFunction _ _) xs, c | .cons (.withStmt _ _ _ _ _ _) xs, c => rfl

def ParseTree.fill (t : ParseTree) : ParseTree where
  statements := t.statements.fill k v false
  parsed := by
    have hne := t.parsed
    cases hs : t.statements with
    | nil => exact absurd hs hne
    | cons x xs => simp [Nodes.fill]
  raw := (t.statements.raw_fill k v false).trans t.raw

mutual

theorem Node.fill_fill (w : Chars) : ∀ (n : Node) (c : Bool), (n.fill k v c).fill k w c = n.fill k w c
  | .null, _ | .atom _, _ => rfl
  | .token _, c | .str _, c => by cases c <;> rfl
  | .list xs, c => by simp [Node.fill, xs.fill_fill w c]
  | .rangeVar _ _ rest, _ => by simp [Node.fill, rest.fill_fill w]
  | .funcCall _ rest, _ => by simp [Node.fill, rest.fill_fill w]
  | .sqlValueFunction _ rest, _ => by simp [Node.fill, rest.fill_fill w]
  | .withStmt _ before ctes _ _ after, _ => by
    simp [Node.fill, before.fill_fill w, ctes.fill_fill w, after.fill_fill w]
  | .node _ fields, _ => by simp [Node.fill, fields.fill_fill w]

theorem Nodes.fill_fill (w : Chars) : ∀ (xs : Nodes) (c : Bool), (xs.fill k v c).fill k w c = xs.fill k w c
  | .nil, _ => rfl
  | .cons x xs, c => by simp [Nodes.fill, x.fill_fill w c, xs.fill_fill w c]

theorem Fields.fill_fill (w : Chars) : ∀ (fs : Fields) (tag : Chars),
    (fs.fill k v tag).fill k w tag = fs.fill k w tag
  | .nil, _ => rfl
  | .flag _ tail, tag => by simp [Fields.fill, tail.fill_fill w tag]
  | .cons _ value tail, tag => by simp [Fields.fill, value.fill_fill w, tail.fill_fill w tag]

theorem Ctes.fill_fill (w : Chars) : ∀ cs : Ctes, (cs.fill k v).fill k w = cs.fill k w
  | .nil => rfl
  | .cons _ rest tail => by simp [Ctes.fill, rest.fill_fill w, tail.fill_fill w]

end

theorem ParseTree.items_fill (t : ParseTree) : (t.fill k v).items k = (t.items k).map (Item.fill v) :=
  (Node.list t.statements).items_fill k v false

end Filling

section Items

variable {v : Chars}

theorem Item.fill_of_not_constant {i : Item} (h : i.constant = false) (v : Chars) : i.fill v = i := by
  cases i with
  | token c s | str c s =>
    obtain rfl : c = false := h
    rfl
  | tag | close | lparen | rparen | blank | null | label | word | names => rfl

theorem map_fill_of_not_constant {is : List Item} (h : ∀ i ∈ is, i.constant = false) (v : Chars) :
    is.map (Item.fill v) = is := by
  rw [List.map_congr_left fun i hi => Item.fill_of_not_constant (h i hi) v, List.map_id']

theorem Item.constant_fill (i : Item) (v : Chars) : (i.fill v).constant = i.constant := by
  cases i <;> rfl

theorem bodyItems_fill (v : Chars) (is : List Item) :
    ∀ d, bodyItems d (is.map (Item.fill v)) = (bodyItems d is).map (Item.fill v) := by
  induction is with
  | nil => exact fun _ => rfl
  | cons i is ih =>
    intro d
    cases i with
    | close => by_cases hd : d = 0 <;> simp [Item.fill, bodyItems, hd, ih]
    | tag | lparen | rparen | blank | null | label | word | token | str | names =>
      simp [Item.fill, bodyItems, ih]

theorem Item.tagBehind_fill (v l : Chars) (i : Item) (is : List Item) :
    (i.fill v).tagBehind l (is.map (Item.fill v)) = i.tagBehind l is := by
  cases i with
  | label m =>
    cases is with
    | nil => rfl
    | cons b js =>
      cases b with
      | blank =>
        cases js with
        | nil => rfl
        | cons j ks => cases j <;> rfl
      | tag | close | lparen | rparen | null | label | word | token | str | names => rfl
  | tag | close | lparen | rparen | blank | null | word | token | str | names => rfl

theorem tagsBehind_fill (v l : Chars) (is : List Item) :
    tagsBehind l (is.map (Item.fill v)) = tagsBehind l is := by
  induction is with
  | nil => rfl
  | cons i is ih => rw [List.map_cons, tagsBehind, tagsBehind, Item.tagBehind_fill, ih]

theorem kindAt_fill (v : Chars) (is : List Item) : kindAt (is.map (Item.fill v)) = kindAt is := by
  rw [kindAt, kindAt, bodyItems_fill, tagsBehind_fill]

/-- An opener in a constant counts no statement: no kind stands behind it. -/
theorem kinds_fill (v : Chars) {is : List Item} (hq : QuietItems is) : kinds (is.map (Item.fill v)) = kinds is := by
  induction is with
  | nil => rfl
  | cons i is ih =>
    rw [List.map_cons, kinds, kinds, kindAt_fill, ih hq.2]
    by_cases hc : i.constant = true
    · simp [hq.1 hc, List.filterMap_replicate_of_none]
    · rw [Item.fill_of_not_constant (by simpa using hc)]

/-- A constant that stands without quotation marks in front of a blank. -/
def Item.runsOn : Item → List Item → Bool
  | .token c _, .blank :: _ => c
  | _, _ => false

def followedConstant : List Item → Bool
  | [] => false
  | i :: is => i.runsOn is || followedConstant is

theorem followedConstant_append {is js : List Item} (h : followedConstant (is ++ js) = false) :
    followedConstant js = false := by
  induction is with
  | nil => exact h
  | cons i is ih => exact ih (Bool.or_eq_false_iff.mp h).2

theorem Item.runsOn_fill (v : Chars) (i : Item) (is : List Item) :
    (i.fill v).runsOn (is.map (Item.fill v)) = i.runsOn is := by
  cases i with
  | token c s =>
    cases is with
    | nil => rfl
    | cons b js => cases b <;> rfl
  | tag | close | lparen | rparen | blank | null | label | word | str | names => rfl

theorem followedConstant_fill (v : Chars) (is : List Item) :
    followedConstant (is.map (Item.fill v)) = followedConstant is := by
  induction is with
  | nil => rfl
  | cons i is ih => rw [List.map_cons, followedConstant, followedConstant, Item.runsOn_fill, ih]

theorem Item.runsOn_bodyItems {i : Item} {is : List Item} (h : i.runsOn is = false) (d : Nat) :
    i.runsOn (bodyItems d is) = false := by
  cases i with
  | token c s =>
    cases is with
    | nil => rfl
    | cons b js =>
      cases b with
      | blank => exact h
      | close => by_cases hd : d = 0 <;> simp [bodyItems, hd, runsOn]
      | tag | lparen | rparen | null | label | word | token | str | names => rfl
  | tag | close | lparen | rparen | blank | null | label | word | str | names => rfl

theorem followedConstant_bodyItems {is : List Item} (h : followedConstant is = false) :
    ∀ d, followedConstant (bodyItems d is) = false := by
  induction is with
  | nil => exact fun _ => rfl
  | cons i is ih =>
    intro d
    obtain ⟨hi, his⟩ := Bool.or_eq_false_iff.mp h
    cases i with
    | close =>
      by_cases hd : d = 0
      · simp [bodyItems, hd, followedConstant]
      · simp [bodyItems, hd, followedConstant, Item.runsOn, ih his]
    | tag | lparen | rparen | blank | null | label | word | token | str | names =>
      simp only [bodyItems, followedConstant, Item.runsOn_bodyItems hi, ih his, Bool.or_false]

theorem Item.behind_fill {i : Item} {is : List Item} (h : i.runsOn is = false) (v x : Chars) :
    (i.fill v).behind x (is.map (Item.fill v)) = (i.behind x is).map (List.map (Item.fill v)) := by
  cases is with
  | nil => rfl
  | cons b js =>
    cases b with
    | blank =>
      have hsame : (i.fill v).endsIn x = i.endsIn x := by
        cases i with
        | token c s =>
          obtain rfl : c = false := h
          rfl
        | tag | close | lparen | rparen | blank | null | label | word | str | names => rfl
      show (if (i.fill v).endsIn x then [js.map (Item.fill v)] else []) = _
      rw [hsame, Item.behind]
      by_cases hx : i.endsIn x = true
      · simp [hx]
      · simp [hx]
    | tag | close | lparen | rparen | null | label | word | token | str | names => rfl

theorem behind_fill {is : List Item} (h : followedConstant is = false) (v x : Chars) :
    behind x (is.map (Item.fill v)) = (behind x is).map (List.map (Item.fill v)) := by
  induction is with
  | nil => rfl
  | cons i is ih =>
    obtain ⟨hi, his⟩ := Bool.or_eq_false_iff.mp h
    rw [List.map_cons, behind, behind, Item.behind_fill hi, ih his, List.map_append]

end Items

section Answers

variable {is js : List Item} (v : Chars)

theorem readItem_fill {l : Chars} (hl : l = "relname".toList ∨ l = "ctename".toList ∨ l = "schemaname".toList)
    (hp : Printed is) (hm : js ∈ behind (':' :: l) is) : readItem (js.map (Item.fill v)) = readItem js := by
  obtain ⟨⟨i, ks, rfl, hi⟩, _⟩ := named_behind hl hp hm
  rcases hi with ⟨_, rfl⟩ | ⟨s, rfl⟩ | hi
  · rfl
  · rfl
  · cases i with
    | label | word => rfl
    | tag | close | lparen | rparen | blank | null | token | str | names => simp [Item.opensField] at hi

/-- The first of these names in a list of items. -/
theorem firstName_fill {l : Chars} (hl : l = "relname".toList ∨ l = "ctename".toList ∨ l = "schemaname".toList)
    (hp : Printed is) (hc : followedConstant is = false) :
    (behind (':' :: l) (is.map (Item.fill v))).head?.bind readItem =
      (behind (':' :: l) is).head?.bind readItem := by
  have hread : ∀ js ∈ behind (':' :: l) is, readItem (js.map (Item.fill v)) = readItem js :=
    fun _ hm => readItem_fill v hl hp hm
  rw [behind_fill hc]
  cases hb : behind (':' :: l) is with
  | nil => rfl
  | cons js rest => exact hread js (hb ▸ List.mem_cons_self)

theorem relationAt_fill (hp : Printed is) (hc : followedConstant is = false) :
    relationAt (is.map (Item.fill v)) = relationAt is := by
  have hbody := hp.bodyItems 0
  have hcbody := followedConstant_bodyItems hc 0
  rw [relationAt, relationAt, bodyItems_fill, firstName_fill v (Or.inl rfl) hbody hcbody,
    firstName_fill v (Or.inr (Or.inr rfl)) hbody hcbody]

theorem functionAt_fill (is : List Item) : functionAt (is.map (Item.fill v)) = functionAt is := by
  cases is with
  | nil => rfl
  | cons i is => cases i <;> rfl

theorem relations_fill (hp : Printed is) (hc : followedConstant is = false) :
    (behind ('{' :: "RANGEVAR".toList) (is.map (Item.fill v))).filterMap relationAt =
      (behind ('{' :: "RANGEVAR".toList) is).filterMap relationAt := by
  rw [behind_fill hc, List.filterMap_map]
  refine List.filterMap_congr fun js hm => ?_
  obtain ⟨p, i, rfl, _⟩ := mem_behind hm
  exact relationAt_fill v hp.append_right.2.2 (Bool.or_eq_false_iff.mp
    (Bool.or_eq_false_iff.mp (followedConstant_append hc)).2).2

theorem functions_fill (hc : followedConstant is = false) :
    (behind (':' :: "funcname".toList) (is.map (Item.fill v))).filterMap functionAt =
      (behind (':' :: "funcname".toList) is).filterMap functionAt := by
  rw [behind_fill hc, List.filterMap_map]
  exact List.filterMap_congr fun js _ => functionAt_fill v js

theorem ctes_fill (hp : Printed is) (hc : followedConstant is = false) :
    (behind (':' :: "ctename".toList) (is.map (Item.fill v))).filterMap readItem =
      (behind (':' :: "ctename".toList) is).filterMap readItem := by
  rw [behind_fill hc, List.filterMap_map]
  exact List.filterMap_congr fun js hm => readItem_fill v (Or.inr (Or.inl rfl)) hp hm

/-- A statement that is reported to write whatever its constants are. -/
def writesAnyway (is : List Item) : Bool :=
  !(tagsBehind "intoClause".toList is).isEmpty || is.any fun i => !i.constant && i.opensWrite

/-- A text that spells the opener of a statement that writes. -/
def spellsWrite (v : Chars) : Bool :=
  writeTags.any fun tag => (Scan.hits ('{' :: tag) v []).length != 0

theorem Item.opensWrite_fill (i : Item) :
    (i.fill v).opensWrite = (!i.constant && i.opensWrite || i.constant && spellsWrite v) := by
  by_cases hc : i.constant = true
  · cases i with
    | token c s | str c s =>
      obtain rfl : c = true := hc
      rfl
    | tag | close | lparen | rparen | blank | null | label | word | names => exact absurd hc Bool.false_ne_true
  · rw [Item.fill_of_not_constant (by simpa using hc)]
    simp [hc]

theorem writes_fill (is : List Item) : (itemAnalysis (is.map (Item.fill v))).writes =
    (writesAnyway is || is.any Item.constant && spellsWrite v) := by
  have hany : (is.map (Item.fill v)).any Item.opensWrite =
      (is.any (fun i => !i.constant && i.opensWrite) || is.any Item.constant && spellsWrite v) := by
    induction is with
    | nil => rfl
    | cons i is ih =>
      rw [List.map_cons, List.any_cons, ih, Item.opensWrite_fill, List.any_cons, List.any_cons]
      cases i.constant <;> cases i.opensWrite <;> cases spellsWrite v <;> simp
  rw [itemAnalysis, tagsBehind_fill, hany, writesAnyway, Bool.or_assoc]

theorem itemAnalysis_fill (hp : Printed is) (hq : QuietItems is) (hc : followedConstant is = false)
    (hw : writesAnyway is = true ∨ is.any Item.constant = false) :
    itemAnalysis (is.map (Item.fill v)) = itemAnalysis is := by
  rcases hw with hw | hnone
  · have hfilled : (itemAnalysis (is.map (Item.fill v))).writes = true := by
      rw [writes_fill, hw, Bool.true_or]
    have hhere : (itemAnalysis is).writes = true := by
      simp only [writesAnyway, itemAnalysis, Bool.or_eq_true, List.any_eq_true, Bool.and_eq_true] at hw ⊢
      exact hw.imp_right (Exists.imp fun _ h => ⟨h.1, h.2.2⟩)
    have hwrites := hfilled.trans hhere.symm
    simp only [itemAnalysis] at hwrites ⊢
    rw [hwrites, kinds_fill v hq, relations_fill v hp hc, functions_fill v hc, ctes_fill v hp hc]
  · have hplain : ∀ i ∈ is, i.constant = false := by simpa using hnone
    rw [map_fill_of_not_constant hplain]

theorem ctes_length (hp : Printed is) :
    (itemAnalysis is).ctes.length = (behind (':' :: "ctename".toList) is).length :=
  List.filterMap_length_eq_length.mpr fun _ hm => readItem_isSome (Or.inr rfl) hp hm

/-- A constant that runs on is found by a needle it spells. -/
theorem behind_fill_length {x : Chars} (hx : x ≠ []) (is : List Item) :
    (behind x (is.map (Item.fill []))).length + (followedConstant is).toNat ≤
      (behind x (is.map (Item.fill x))).length := by
  induction is with
  | nil => exact Nat.le_refl _
  | cons i is ih =>
    have hitem : ((i.fill []).behind x (is.map (Item.fill []))).length + (i.runsOn is).toNat ≤
        ((i.fill x).behind x (is.map (Item.fill x))).length := by
      by_cases hr : i.runsOn is = true
      · unfold Item.runsOn at hr
        split at hr
        · next c s js =>
          obtain rfl : c = true := hr
          have hempty : x.isSuffixOf [] = false := by
            simpa [List.isSuffixOf_iff_suffix, ← Bool.not_eq_true] using hx
          have hself : x.isSuffixOf x = true := List.isSuffixOf_iff_suffix.mpr (List.suffix_refl x)
          simp [Item.fill, Item.behind, Item.endsIn, Item.runsOn, hempty, hself]
        · exact absurd hr Bool.false_ne_true
      · have hr' : i.runsOn is = false := by simpa using hr
        rw [Item.behind_fill hr', Item.behind_fill hr', hr', List.length_map, List.length_map]
        exact Nat.le_refl _
    rw [List.map_cons, List.map_cons, behind, behind, List.length_append, List.length_append, followedConstant]
    cases hi : i.runsOn is <;> simp only [hi, Bool.toNat_true, Bool.toNat_false, Bool.true_or, Bool.false_or] at hitem ⊢
    · omega
    · omega

end Answers

section Runs

/-- Two statements that differ in the text of their constants at most. -/
def SameButConstants (k : ConstantFields) (t u : ParseTree) : Prop :=
  t.statements.fill k [] false = u.statements.fill k [] false

variable {k : ConstantFields} {t u : ParseTree}

theorem SameButConstants.fill (k : ConstantFields) (t : ParseTree) (v : Chars) :
    SameButConstants k t (t.fill k v) :=
  (t.statements.fill_fill k v [] false).symm

theorem SameButConstants.items (h : SameButConstants k t u) :
    (t.items k).map (Item.fill []) = (u.items k).map (Item.fill []) := by
  have hstatements : (t.fill k []).statements = (u.fill k []).statements := h
  rw [← t.items_fill, ← u.items_fill, ParseTree.items, ParseTree.items, hstatements]

theorem constants_fill (v : Chars) (is : List Item) :
    (is.map (Item.fill v)).any Item.constant = is.any Item.constant := by
  induction is with
  | nil => rfl
  | cons i is ih => rw [List.map_cons, List.any_cons, List.any_cons, Item.constant_fill, ih]

theorem writesAnyway_fill (v : Chars) (is : List Item) :
    writesAnyway (is.map (Item.fill v)) = writesAnyway is := by
  have hany : (is.map (Item.fill v)).any (fun i => !i.constant && i.opensWrite) =
      is.any fun i => !i.constant && i.opensWrite := by
    induction is with
    | nil => rfl
    | cons i is ih =>
      rw [List.map_cons, List.any_cons, List.any_cons, ih, Item.opensWrite_fill, Item.constant_fill]
      cases i.constant <;> simp
  rw [writesAnyway, writesAnyway, tagsBehind_fill, hany]

/-- Whether the constants of a statement are without influence on its analysis. -/
def ConstantsImmune (k : ConstantFields) (t : ParseTree) : Prop :=
  ∀ u, SameButConstants k t u → analyzeDump (rawParseDump u.statements) = analyzeDump (rawParseDump t.statements)

theorem constantsImmune_of_unread (hc : followedConstant (t.items k) = false)
    (hw : writesAnyway (t.items k) = true ∨ (t.items k).any Item.constant = false) : ConstantsImmune k t := by
  intro u h
  have hsame := h.items
  obtain ⟨hpt, hqt⟩ := t.items_lays k
  obtain ⟨hpu, hqu⟩ := u.items_lays k
  have hcu : followedConstant (u.items k) = false := by
    rw [← followedConstant_fill [], ← hsame, followedConstant_fill, hc]
  have hwu : writesAnyway (u.items k) = true ∨ (u.items k).any Item.constant = false := by
    rw [← writesAnyway_fill [] (u.items k), ← constants_fill [] (u.items k), ← hsame, writesAnyway_fill,
      constants_fill]
    exact hw
  rw [u.analyzeDump_eq k, t.analyzeDump_eq k, ← itemAnalysis_fill [] hpu hqu hcu hwu, ← hsame,
    itemAnalysis_fill [] hpt hqt hc hw]

/-- Two texts for all constants, under the same analysis. -/
theorem ConstantsImmune.itemAnalysis_fill (h : ConstantsImmune k t) (v w : Chars) :
    itemAnalysis ((t.items k).map (Item.fill v)) = itemAnalysis ((t.items k).map (Item.fill w)) := by
  have hany : ∀ v, itemAnalysis ((t.items k).map (Item.fill v)) = itemAnalysis (t.items k) := by
    intro v
    have hv := h (t.fill k v) (SameButConstants.fill k t v)
    rw [(t.fill k v).analyzeDump_eq k, t.analyzeDump_eq k, t.items_fill] at hv
    exact Option.some.inj hv
  rw [hany v, hany w]

theorem ConstantsImmune.not_followed (h : ConstantsImmune k t) : followedConstant (t.items k) = false := by
  by_contra hc
  have hc' : followedConstant (t.items k) = true := by simpa using hc
  have hprinted : ∀ v, Printed ((t.items k).map (Item.fill v)) := by
    intro v
    rw [← t.items_fill]
    exact ((t.fill k v).items_lays k).1
  have hne : ':' :: "ctename".toList ≠ [] := nofun
  have hlonger := behind_fill_length hne (t.items k)
  have hctes := congrArg (·.ctes.length) (h.itemAnalysis_fill [] (':' :: "ctename".toList))
  simp only [ctes_length (hprinted _)] at hctes
  rw [hc', hctes, Bool.toNat_true] at hlonger
  exact Nat.not_succ_le_self _ hlonger

theorem spellsWrite_insert : spellsWrite ('{' :: "INSERTSTMT".toList) = true := by
  decide

theorem ConstantsImmune.writes (h : ConstantsImmune k t) :
    writesAnyway (t.items k) = true ∨ (t.items k).any Item.constant = false := by
  have hwrites := congrArg (·.writes) (h.itemAnalysis_fill [] ('{' :: "INSERTSTMT".toList))
  have hnone : spellsWrite [] = false := rfl
  simp only [writes_fill, spellsWrite_insert, hnone, Bool.and_false, Bool.or_false, Bool.and_true] at hwrites
  cases hw : writesAnyway (t.items k) with
  | true => exact Or.inl rfl
  | false =>
    rw [hw, Bool.false_or] at hwrites
    exact Or.inr hwrites.symm

/-- The constants of a statement have no influence on its analysis exactly when it has
none, or is reported to write anyway, and none of them runs on. -/
theorem constantsImmune_iff (k : ConstantFields) (t : ParseTree) :
    ConstantsImmune k t ↔ followedConstant (t.items k) = false ∧
      (writesAnyway (t.items k) = true ∨ (t.items k).any Item.constant = false) :=
  ⟨fun h => ⟨h.not_followed, h.writes⟩, fun h => constantsImmune_of_unread h.1 h.2⟩

/-- The value of an `A_CONST`. -/
def constFields : ConstantFields where
  holds tag label := tag == "A_CONST".toList && label == "val".toList
  schemaname _ := Bool.and_false _
  funcname _ := Bool.and_false _

/-- `SELECT` of one string. -/
def selectString (s : String) : ParseTree where
  statements := rawStmt (selectStmt [resTarget (constStr s)] [] none)
  parsed := nofun
  raw := rfl

/-- Whether a statement writes hangs on what its constant spells. -/
theorem spelled_opener_reported :
    ¬ ∀ (k : ConstantFields) (t u : ParseTree), SameButConstants k t u →
      analyzeDump (rawParseDump u.statements) = analyzeDump (rawParseDump t.statements) := by
  intro h
  have hsame := h constFields (selectString "a") (selectString "\x7bINSERTSTMT") rfl
  have hwrites := congrArg (Option.map Analysis.writes) hsame
  exact absurd hwrites (by decide +kernel)

end Runs

end Allgres
