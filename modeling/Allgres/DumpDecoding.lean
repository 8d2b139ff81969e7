import Allgres.Confinement
import Allgres.ParseTrees
import Allgres.QuotedNames
import Mathlib.Algebra.BigOperators.Group.List.Basic
import Mathlib.Algebra.GroupWithZero.Nat
import Mathlib.Algebra.Order.BigOperators.Group.List
import Mathlib.Algebra.Order.Group.Nat
import Mathlib.Data.List.TakeWhile

/-! The names of a raw parse tree and the names the analyser reads in its dump: which
of them come back as they are, and where a name is read that the tree does not have. -/

namespace Allgres

open Scan

section Names

inductive Named where
  | relation (schemaname : Option Chars) (relname : Chars)
  | cte (ctename : Chars)
  | function (funcname : List Chars)

mutual

/-- The names of a tree, in the order they are printed. -/
def Node.named : Node → List Named
  | .null | .atom _ | .token _ | .str _ => []
  | .list xs => xs.named
  | .rangeVar schemaname relname rest => .relation schemaname relname :: rest.named
  | .funcCall funcname rest => .function funcname :: rest.named
  | .sqlValueFunction _ rest => rest.named
  | .withStmt _ before ctes _ _ after => before.named ++ (ctes.named ++ after.named)
  | .node _ fields => fields.named

def Nodes.named : Nodes → List Named
  | .nil => []
  | .cons x xs => x.named ++ xs.named

/-- A `funcname` is one of other statements too, as in `CREATE TRIGGER`. -/
def Fields.named : Fields → List Named
  | .nil => []
  | .flag _ tail => tail.named
  | .cons label value tail =>
    (if label.chars = "funcname".toList then value.strings.elim value.named fun ss => [.function ss]
      else value.named) ++ tail.named

def Ctes.named : Ctes → List Named
  | .nil => []
  | .cons ctename rest tail => .cte ctename :: (rest.named ++ tail.named)

end

def Named.relation? : Named → Option ReadName
  | .relation schemaname relname => some ⟨schemaname, relname⟩
  | _ => none

def Named.cte? : Named → Option Chars
  | .cte ctename => some ctename
  | _ => none

/-- The last two names of a function. -/
def Named.function? : Named → Option ReadName
  | .function funcname => lastNames funcname
  | _ => none

/-- The analyser's answer about a dump has the names of the tree, each as often as the tree. -/
def Decodes (t : ParseTree) : Prop :=
  ∃ a, analyzeDump (rawParseDump t.statements) = some a ∧
    a.relations.Perm (t.statements.named.filterMap Named.relation?) ∧
    a.ctes.Perm (t.statements.named.filterMap Named.cte?) ∧
    a.functions.Perm (t.statements.named.filterMap Named.function?)

end Names

section Items

/-- The relation whose head the items are. -/
def relationIn : List Item → List Named
  | .blank :: .label _ :: .blank :: .null :: .blank :: .label _ :: .blank :: .token _ r :: _ => [.relation none r]
  | .blank :: .label _ :: .blank :: .token _ s :: .blank :: .label _ :: .blank :: .token _ r :: _ =>
    [.relation (some s) r]
  | _ => []

def cteIn : List Item → List Named
  | .blank :: .token _ s :: _ => [.cte s]
  | _ => []

def functionIn : List Item → List Named
  | .blank :: .names ss :: _ => [.function ss]
  | _ => []

/-- The name behind a tag or a label. -/
def Item.named : Item → List Item → List Named
  | .tag t, is => if t = "RANGEVAR".toList then relationIn is else []
  | .label l, is => if l = "ctename".toList then cteIn is else if l = "funcname".toList then functionIn is else []
  | _, _ => []

def namedItems : List Item → List Named
  | [] => []
  | i :: is => i.named is ++ namedItems is

theorem relationIn_head (s : Option Chars) (r : Chars) (is : List Item) :
    relationIn (relationHead s r is) = [.relation s r] := by
  cases s <;> rfl

variable (k : ConstantFields)

theorem namedItems_separated (sep : Bool) (is : List Item) : namedItems (separated sep ++ is) = namedItems is := by
  cases sep <;> rfl

theorem namedItems_schemaItem (s : Option Chars) (is : List Item) :
    namedItems (schemaItem s :: is) = namedItems is := by
  cases s <;> rfl

theorem namedItems_tag {t : Chars} (h : t ≠ "RANGEVAR".toList) (is : List Item) :
    namedItems (.tag t :: is) = namedItems is := by
  rw [namedItems, Item.named, if_neg h, List.nil_append]

theorem namedItems_label {l : Chars} (hc : l ≠ "ctename".toList) (hf : l ≠ "funcname".toList) (is : List Item) :
    namedItems (.label l :: is) = namedItems is := by
  rw [namedItems, Item.named, if_neg hc, if_neg hf, List.nil_append]

/-- Of the other items none is a name. -/
theorem namedItems_skip {i : Item} (h : ∀ is, i.named is = []) (is : List Item) :
    namedItems (i :: is) = namedItems is := by
  rw [namedItems, h, List.nil_append]

theorem Tag.ne_rangeVar (t : Tag) : t.chars ≠ "RANGEVAR".toList :=
  fun h => absurd (h ▸ t.other) (by decide)

theorem namedItems_field {l : Chars} (hc : l ≠ "ctename".toList) (hf : l ≠ "funcname".toList) (is : List Item) :
    namedItems (.blank :: .label l :: .blank :: is) = namedItems is := by
  rw [namedItems_skip fun _ => rfl, namedItems_label hc hf, namedItems_skip fun _ => rfl]

theorem namedItems_relationHead (s : Option Chars) (r : Chars) (is : List Item) :
    namedItems (relationHead s r is) = namedItems is := by
  rw [relationHead, namedItems_field (by decide) (by decide), namedItems_schemaItem,
    namedItems_field (by decide) (by decide), namedItems_skip fun _ => rfl]

theorem namedItems_ctename (c : Bool) (s : Chars) (is : List Item) :
    namedItems (.blank :: .label "ctename".toList :: .blank :: .token c s :: is) = .cte s :: namedItems is := by
  rw [namedItems_skip fun _ => rfl, namedItems, Item.named, if_pos rfl, namedItems_skip fun _ => rfl,
    namedItems_skip fun _ => rfl]
  rfl

theorem namedItems_funcname (ss : List Chars) (is : List Item) :
    namedItems (.blank :: .label "funcname".toList :: .blank :: .names ss :: is) = .function ss :: namedItems is := by
  rw [namedItems_skip fun _ => rfl, namedItems, Item.named, if_neg (by decide), if_pos rfl,
    namedItems_skip fun _ => rfl, namedItems_skip fun _ => rfl]
  rfl

theorem namedItems_funcname_null (is : List Item) :
    namedItems (.blank :: .label "funcname".toList :: .blank :: .null :: is) = namedItems is := by
  rw [namedItems_skip fun _ => rfl, namedItems, Item.named, if_neg (by decide), if_pos rfl,
    namedItems_skip fun _ => rfl, namedItems_skip fun _ => rfl]
  rfl

mutual

theorem Node.namedItems_items : ∀ (n : Node) (c : Bool) (is : List Item), n.regular = true →
    namedItems (n.items k c ++ is) = n.named ++ namedItems is
  | .null, _, _, _ | .atom _, _, _, _ | .token _, _, _, _ | .str _, _, _, _ => rfl
  | .list xs, c, is, hr => by
    have hxs := xs.namedItems_items c false (.rparen :: is) hr
    rw [Node.items, List.cons_append, namedItems_skip fun _ => rfl, List.append_assoc, List.singleton_append, hxs]
    rfl
  | .rangeVar s r rest, c, is, hr => by
    have hrest := rest.namedItems_items "RANGEVAR".toList (.close :: is) hr
    have hitems : (Node.rangeVar s r rest).items k c ++ is =
        .tag "RANGEVAR".toList :: relationHead s r (rest.items k "RANGEVAR".toList ++ .close :: is) := by
      simp only [Node.items, relationHead, List.cons_append, List.append_assoc, List.nil_append]
    rw [hitems, namedItems, Item.named, if_pos rfl, relationIn_head, namedItems_relationHead, hrest]
    rfl
  | .funcCall funcname rest, c, is, hr => by
    have hrest := rest.namedItems_items "FUNCCALL".toList (.close :: is) hr
    have hitems : (Node.funcCall funcname rest).items k c ++ is =
        .tag "FUNCCALL".toList :: .blank :: .label "funcname".toList :: .blank :: .names funcname ::
          (rest.items k "FUNCCALL".toList ++ .close :: is) := by
      simp only [Node.items, List.cons_append, List.append_assoc, List.nil_append]
    rw [hitems, namedItems_tag (by decide), namedItems_funcname, hrest]
    rfl
  | .sqlValueFunction op rest, c, is, hr => by
    have hrest := rest.namedItems_items "SQLVALUEFUNCTION".toList (.close :: is) hr
    have hitems : (Node.sqlValueFunction op rest).items k c ++ is =
        .tag "SQLVALUEFUNCTION".toList :: .blank :: .label "op".toList :: .blank :: .word op.code ::
          (rest.items k "SQLVALUEFUNCTION".toList ++ .close :: is) := by
      simp only [Node.items, List.cons_append, List.append_assoc, List.nil_append]
    rw [hitems, namedItems_tag (by decide), namedItems_field (by decide) (by decide),
      namedItems_skip fun _ => rfl, hrest]
    rfl
  | .withStmt tag before ctes recursive location after, c, is, hr => by
    simp only [Node.regular, Bool.and_eq_true, and_assoc] at hr
    obtain ⟨_, hb, hc, _, ha⟩ := hr
    have hafter := after.namedItems_items tag.chars (.close :: is) ha
    let flag := if recursive then "true".toList else "false".toList
    let tail := .rparen :: .blank :: .label "recursive".toList :: .blank :: .word flag :: .blank ::
      .label "location".toList :: .blank :: .word location.chars :: .close ::
        (after.items k tag.chars ++ .close :: is)
    have hctes := ctes.namedItems_items false tail hc
    let head := .blank :: .label "withClause".toList :: .blank :: .tag "WITHCLAUSE".toList :: .blank ::
      .label "ctes".toList :: .blank :: .lparen :: (ctes.items k false ++ tail)
    have hbefore := before.namedItems_items tag.chars head hb
    have hitems : (Node.withStmt tag before ctes recursive location after).items k c ++ is =
        .tag tag.chars :: (before.items k tag.chars ++ head) := by
      simp only [Node.items, head, tail, flag, List.cons_append, List.append_assoc, List.nil_append]
    have hhead : namedItems head = namedItems (ctes.items k false ++ tail) := by
      rw [namedItems_field (by decide) (by decide), namedItems_tag (by decide),
        namedItems_field (by decide) (by decide), namedItems_skip fun _ => rfl]
    have htail : namedItems tail = namedItems (after.items k tag.chars ++ .close :: is) := by
      rw [namedItems_skip fun _ => rfl, namedItems_field (by decide) (by decide), namedItems_skip fun _ => rfl,
        namedItems_field (by decide) (by decide), namedItems_skip fun _ => rfl, namedItems_skip fun _ => rfl]
    have hclose : namedItems (.close :: is) = namedItems is := rfl
    rw [hitems, namedItems_tag tag.ne_rangeVar, hbefore, hhead, hctes, htail, hafter, hclose, Node.named,
      List.append_assoc, List.append_assoc]
  | .node tag fields, _, is, hr => by
    simp only [Node.regular, Bool.and_eq_true] at hr
    have hfields := fields.namedItems_items tag.chars (.close :: is) hr.2
    rw [Node.items, List.cons_append, namedItems_tag tag.ne_rangeVar, List.append_assoc, List.singleton_append,
      hfields]
    rfl

theorem Nodes.namedItems_items : ∀ (xs : Nodes) (c sep : Bool) (is : List Item), xs.regular = true →
    namedItems (xs.items k c sep ++ is) = xs.named ++ namedItems is
  | .nil, _, _, _, _ => rfl
  | .cons x xs, c, sep, is, hr => by
    simp only [Nodes.regular, Bool.and_eq_true, and_assoc] at hr
    obtain ⟨_, hx, hxs⟩ := hr
    have hrest := xs.namedItems_items c true is hxs
    have hhead := x.namedItems_items c (xs.items k c true ++ is) hx
    rw [Nodes.items, List.append_assoc, namedItems_separated, List.append_assoc, hhead, hrest, Nodes.named,
      List.append_assoc]

theorem Fields.namedItems_items : ∀ (fs : Fields) (tag : Chars) (is : List Item), fs.regular = true →
    namedItems (fs.items k tag ++ is) = fs.named ++ namedItems is
  | .nil, _, _, _ => rfl
  | .flag w tail, tag, is, hr => by
    simp only [Fields.regular, Bool.and_eq_true] at hr
    have hrest := tail.namedItems_items tag is hr.2
    rw [Fields.items, List.cons_append, List.cons_append, namedItems_skip fun _ => rfl,
      namedItems_skip fun _ => rfl, hrest, Fields.named]
  | .cons label value tail, tag, is, hr => by
    simp only [Fields.regular, Bool.and_eq_true, and_assoc] at hr
    obtain ⟨hf, hv, ht⟩ := hr
    obtain ⟨_, hown, _, hfunc⟩ := fieldRegular_iff.mp hf
    simp only [ownLabels, List.mem_cons, List.not_mem_nil, or_false, not_or] at hown
    have htail := tail.namedItems_items tag is ht
    rw [Fields.items, Fields.named]
    by_cases hfn : label.chars = "funcname".toList
    · rw [if_pos hfn, if_pos hfn, hfn]
      cases hs : value.strings with
      | some ss =>
        simp only [Option.elim_some, List.cons_append, List.nil_append]
        rw [namedItems_funcname, htail]
      | none =>
        obtain rfl : value = .null := by
          have hnames := hfunc hfn
          unfold Node.isNames at hnames
          split at hnames
          · rfl
          · simp [hs] at hnames
        simp only [Option.elim_none, Node.items, Node.named, List.cons_append, List.nil_append]
        rw [namedItems_funcname_null, htail]
    · have hvalue := value.namedItems_items (k.holds tag label.chars) (tail.items k tag ++ is) hv
      rw [if_neg hfn, if_neg hfn]
      simp only [List.cons_append, List.append_assoc]
      rw [namedItems_field hown.2.1 hfn, hvalue, htail]

theorem Ctes.namedItems_items : ∀ (cs : Ctes) (sep : Bool) (is : List Item), cs.regular = true →
    namedItems (cs.items k sep ++ is) = cs.named ++ namedItems is
  | .nil, _, _, _ => rfl
  | .cons ctename rest tail, sep, is, hr => by
    simp only [Ctes.regular, Bool.and_eq_true] at hr
    have htail := tail.namedItems_items true is hr.2
    have hrest := rest.namedItems_items "COMMONTABLEEXPR".toList (.close :: (tail.items k true ++ is)) hr.1
    have hitems : (Ctes.cons ctename rest tail).items k sep ++ is =
        separated sep ++ (.tag "COMMONTABLEEXPR".toList :: .blank :: .label "ctename".toList :: .blank ::
          .token false ctename :: (rest.items k "COMMONTABLEEXPR".toList ++ .close :: (tail.items k true ++ is))) := by
      simp only [Ctes.items, List.cons_append, List.append_assoc]
    have hclose : ∀ js, namedItems (.close :: js) = namedItems js := fun _ => rfl
    rw [hitems, namedItems_separated, namedItems_tag (by decide), namedItems_ctename, hrest, hclose, htail,
      Ctes.named, List.cons_append, List.append_assoc]

end

theorem Nodes.namedItems_raw : ∀ (xs : Nodes) (sep : Bool) (is : List Item), xs.raw = true →
    namedItems (xs.items k false sep ++ is) = xs.named ++ namedItems is
  | .nil, _, _, _ => rfl
  | .cons x xs, sep, is, hr => by
    unfold Nodes.raw at hr
    split at hr
    · next => contradiction
    · next tag label stmt rest ys hxs =>
      obtain ⟨rfl, rfl⟩ := Nodes.cons.inj hxs
      simp only [Bool.and_eq_true, beq_iff_eq, and_assoc] at hr
      obtain ⟨_, hl, hs, hrest, hys⟩ := hr
      have htail := xs.namedItems_raw true is hys
      have hclose : ∀ js, namedItems (.close :: js) = namedItems js := fun _ => rfl
      have hfields := rest.namedItems_items k tag.chars (.close :: (xs.items k false true ++ is)) hrest
      have hstmt := stmt.namedItems_items k (k.holds tag.chars label.chars)
        (rest.items k tag.chars ++ .close :: (xs.items k false true ++ is)) hs
      have hcte : label.chars ≠ "ctename".toList := fun h => absurd (hl.symm.trans h) (by decide)
      have hfn : label.chars ≠ "funcname".toList := fun h => absurd (hl.symm.trans h) (by decide)
      have hitems : (Nodes.cons (.node tag (.cons label stmt rest)) xs).items k false sep ++ is =
          separated sep ++ (.tag tag.chars :: .blank :: .label label.chars :: .blank ::
            (stmt.items k (k.holds tag.chars label.chars) ++
              (rest.items k tag.chars ++ .close :: (xs.items k false true ++ is)))) := by
        rw [Nodes.items, Node.items, Fields.items, if_neg hfn]
        simp only [List.cons_append, List.append_assoc, List.nil_append]
      rw [hitems, namedItems_separated, namedItems_tag tag.ne_rangeVar, namedItems_field hcte hfn, hstmt, hfields,
        hclose, htail, Nodes.named, Node.named, Fields.named, if_neg hfn]
      simp only [List.append_assoc]
    · exact absurd hr (by decide)

theorem ParseTree.namedItems_eq (t : ParseTree) : namedItems (t.items k) = t.statements.named := by
  have hraw := t.statements.namedItems_raw k false [.rparen] t.raw
  have hend : namedItems [.rparen] = [] := rfl
  rw [hend, List.append_nil] at hraw
  exact hraw

end Items

section Strays

variable {α : Type} {x : Chars} {f : List Item → Option α} {g : Named → Option α}

/-- The rest behind a text without quotation marks that ends in a needle, with a blank between. -/
def Item.strays (x : Chars) : Item → List Item → List (List Item)
  | .token _ s, .blank :: js => if x.isSuffixOf s then [js] else []
  | _, _ => []

def strays (x : Chars) : List Item → List (List Item)
  | [] => []
  | i :: is => i.strays x is ++ strays x is

theorem mem_strays {is js : List Item} (h : js ∈ strays x is) :
    ∃ p c s, is = p ++ .token c s :: .blank :: js ∧ x.isSuffixOf s = true := by
  induction is with
  | nil => simp [strays] at h
  | cons i is ih =>
    rcases List.mem_append.mp h with h | h
    · unfold Item.strays at h
      split at h
      · next c s ks _ =>
        by_cases hx : x.isSuffixOf s = true
        · obtain rfl : js = ks := by simpa [hx] using h
          exact ⟨[], c, s, rfl, hx⟩
        · simp [hx] at h
      · exact absurd h List.not_mem_nil
    · obtain ⟨p, c, s, rfl, hx⟩ := ih h
      exact ⟨i :: p, c, s, rfl, hx⟩

/-- A search finds the names it looks for and the strays. -/
theorem behind_perm (hitem : ∀ i js, Printed (i :: js) →
      (i.behind x js).filterMap f = (i.named js).filterMap g ++ (i.strays x js).filterMap f)
    {is : List Item} (hp : Printed is) :
    ((behind x is).filterMap f).Perm ((namedItems is).filterMap g ++ (strays x is).filterMap f) := by
  induction is with
  | nil => exact .refl _
  | cons i is ih =>
    rw [behind, namedItems, strays, List.filterMap_append, List.filterMap_append, List.filterMap_append,
      hitem i is hp, List.append_assoc, List.append_assoc]
    refine List.Perm.append_left _ (((ih hp.2).append_left _).trans ?_)
    rw [← List.append_assoc, ← List.append_assoc]
    exact List.perm_append_comm.append_right _

end Strays

section Readings

/-- A token is read up to the first white space `outToken` does not protect. -/
def cut (s : Chars) : Chars :=
  s.takeWhile fun c => !breaksToken c

/-- The name of a relation is looked for from the front, so a schema that ends like its label hides it. -/
def hidesRelname (schemaname : Option Chars) : Bool :=
  schemaname.any fun s => (':' :: "relname".toList).isSuffixOf s

def Named.readRelation? : Named → Option ReadName
  | .relation schemaname relname =>
    some ⟨schemaname.map cut, if hidesRelname schemaname then ':' :: "relname".toList else cut relname⟩
  | _ => none

def Named.readCte? : Named → Option Chars
  | .cte ctename => some (cut ctename)
  | _ => none

def Named.readFunction? : Named → Option ReadName
  | .function funcname => lastNames (quotedStrings (dumpStrings [] funcname))
  | _ => none

theorem Item.behind_of_not_ends {x : Chars} {i : Item} (h : i.endsIn x = false) (js : List Item) :
    i.behind x js = [] := by
  cases js with
  | nil => rfl
  | cons b js => cases b <;> simp [behind, h]

theorem behind_blank (x : Chars) (is : List Item) : behind x (.blank :: is) = behind x is := by
  rw [behind, Item.behind_of_not_ends rfl]
  rfl

theorem behind_label (l : Chars) (is : List Item) :
    behind (':' :: l) (.label l :: .blank :: is) = is :: behind (':' :: l) is := by
  rw [behind, behind_blank]
  simp [Item.behind, Item.endsIn]

theorem behind_label_of_ne {l m : Chars} (h : l ≠ m) (is : List Item) :
    behind (':' :: l) (.label m :: .blank :: is) = behind (':' :: l) is := by
  rw [behind, behind_blank, Item.behind_of_not_ends]
  · rfl
  · simpa [Item.endsIn] using h

theorem behind_schemaItem (s : Option Chars) (is : List Item) :
    behind (':' :: "relname".toList) (schemaItem s :: .blank :: is) =
      (if hidesRelname s then [is] else []) ++ behind (':' :: "relname".toList) is := by
  rw [behind, behind_blank]
  cases s <;> rfl

theorem relationAt_relationHead (s : Option Chars) (r : Chars) (is : List Item) :
    relationAt (relationHead s r is).tail = Named.readRelation? (.relation s r) := by
  have hbody : bodyItems 0 (relationHead s r is).tail = (relationHead s r (bodyItems 0 is)).tail := by
    cases s <;> rfl
  have hschema : ((behind (':' :: "schemaname".toList) (relationHead s r (bodyItems 0 is)).tail).head?.bind
      readItem) = s.map cut := by
    rw [relationHead, List.tail_cons, behind_label]
    cases s <;> rfl
  have hname : ((behind (':' :: "relname".toList) (relationHead s r (bodyItems 0 is)).tail).head?.bind
      readItem) = some (if hidesRelname s then ':' :: "relname".toList else cut r) := by
    rw [relationHead, List.tail_cons, behind_label_of_ne (by decide), behind_schemaItem, behind_label]
    cases hidesRelname s <;> rfl
  rw [relationAt, hbody, hschema, hname]
  rfl

variable {i : Item} {js : List Item}

theorem Item.behind_token (x : Chars) (c : Bool) (s : Chars) (js : List Item) :
    (Item.token c s).behind x js = (Item.token c s).strays x js := by
  cases js with
  | nil => rfl
  | cons b js => cases b <;> rfl

/-- Behind an item that is no tag and no label only strays are found. -/
theorem Item.behind_unnamed {α : Type} {i : Item} (ht : ∀ t, i ≠ .tag t) (hl : ∀ l, i ≠ .label l) (x : Chars)
    (f : List Item → Option α) (g : Named → Option α) (js : List Item) :
    (i.behind x js).filterMap f = (i.named js).filterMap g ++ (i.strays x js).filterMap f := by
  cases i with
  | tag t => exact absurd rfl (ht t)
  | label l => exact absurd rfl (hl l)
  | token c s =>
    rw [Item.behind_token]
    rfl
  | close | lparen | rparen | blank | null | word | str | names =>
    rw [Item.behind_of_not_ends rfl]
    rfl

/-- A name is of one kind. -/
theorem relationIn_kind (js : List Item) :
    (relationIn js).filterMap Named.readCte? = [] ∧ (relationIn js).filterMap Named.readFunction? = [] := by
  unfold relationIn
  split <;> exact ⟨rfl, rfl⟩

theorem cteIn_kind (js : List Item) :
    (cteIn js).filterMap Named.readRelation? = [] ∧ (cteIn js).filterMap Named.readFunction? = [] := by
  unfold cteIn
  split <;> exact ⟨rfl, rfl⟩

theorem functionIn_kind (js : List Item) :
    (functionIn js).filterMap Named.readRelation? = [] ∧ (functionIn js).filterMap Named.readCte? = [] := by
  unfold functionIn
  split <;> exact ⟨rfl, rfl⟩

theorem relations_item (i : Item) (js : List Item) (hp : Printed (i :: js)) :
    (i.behind ('{' :: "RANGEVAR".toList) js).filterMap relationAt =
      (i.named js).filterMap Named.readRelation? ++
        (i.strays ('{' :: "RANGEVAR".toList) js).filterMap relationAt := by
  cases i with
  | tag t =>
    by_cases ht : t = "RANGEVAR".toList
    · obtain ⟨s, r, ks, rfl⟩ := hp.1.2.2 ht
      have hread := relationAt_relationHead s r ks
      have hbehind : (Item.tag t).behind ('{' :: "RANGEVAR".toList) (relationHead s r ks) =
          [(relationHead s r ks).tail] := by
        rw [ht]
        rfl
      rw [hbehind, Item.named, if_pos ht, relationIn_head, List.filterMap_cons, hread]
      rfl
    · have hend : (Item.tag t).endsIn ('{' :: "RANGEVAR".toList) = false := by
        rw [Item.endsIn, beq_eq_false_iff_ne]
        exact fun h => ht (List.cons.inj h).2.symm
      rw [Item.behind_of_not_ends hend, Item.named, if_neg ht]
      rfl
  | label l =>
    have hend : (Item.label l).endsIn ('{' :: "RANGEVAR".toList) = false := rfl
    rw [Item.behind_of_not_ends hend, Item.named]
    split_ifs
    · rw [(cteIn_kind js).1]
      rfl
    · rw [(functionIn_kind js).1]
      rfl
    · rfl
  | token | close | lparen | rparen | blank | null | word | str | names =>
    exact Item.behind_unnamed (by simp) (by simp) _ _ _ js

theorem ctes_item (i : Item) (js : List Item) (hp : Printed (i :: js)) :
    (i.behind (':' :: "ctename".toList) js).filterMap readItem =
      (i.named js).filterMap Named.readCte? ++ (i.strays (':' :: "ctename".toList) js).filterMap readItem := by
  cases i with
  | tag t =>
    have hend : (Item.tag t).endsIn (':' :: "ctename".toList) = false := rfl
    rw [Item.behind_of_not_ends hend, Item.named]
    split_ifs
    · rw [(relationIn_kind js).1]
      rfl
    · rfl
  | label l =>
    by_cases hl : l = "ctename".toList
    · obtain ⟨_, ks, rfl, hname, _⟩ := hp.1
      obtain ⟨s, ls, rfl⟩ := hname (Or.inr hl)
      have hbehind : (Item.label l).behind (':' :: "ctename".toList) (.blank :: .token false s :: ls) =
          [.token false s :: ls] := by
        rw [hl]
        rfl
      rw [hbehind, Item.named, if_pos hl]
      rfl
    · have hend : (Item.label l).endsIn (':' :: "ctename".toList) = false := by
        rw [Item.endsIn, beq_eq_false_iff_ne]
        exact fun h => hl (List.cons.inj h).2.symm
      rw [Item.behind_of_not_ends hend, Item.named, if_neg hl]
      split_ifs
      · rw [(functionIn_kind js).2]
        rfl
      · rfl
  | token | close | lparen | rparen | blank | null | word | str | names =>
    exact Item.behind_unnamed (by simp) (by simp) _ _ _ js

theorem functions_item (i : Item) (js : List Item) (hp : Printed (i :: js)) :
    (i.behind (':' :: "funcname".toList) js).filterMap functionAt =
      (i.named js).filterMap Named.readFunction? ++
        (i.strays (':' :: "funcname".toList) js).filterMap functionAt := by
  cases i with
  | tag t =>
    have hend : (Item.tag t).endsIn (':' :: "funcname".toList) = false := rfl
    rw [Item.behind_of_not_ends hend, Item.named]
    split_ifs
    · rw [(relationIn_kind js).2]
      rfl
    · rfl
  | label l =>
    by_cases hl : l = "funcname".toList
    · have hcte : l ≠ "ctename".toList := fun h => absurd (hl.symm.trans h) (by decide)
      obtain ⟨_, ks, rfl, _, _, hfunc⟩ := hp.1
      have hbehind : (Item.label l).behind (':' :: "funcname".toList) (.blank :: ks) = [ks] := by
        rw [hl]
        rfl
      rw [hbehind, Item.named, if_neg hcte, if_pos hl]
      rcases hfunc hl with ⟨ss, ls, rfl⟩ | ⟨ls, rfl⟩
      · exact (List.append_nil _).symm
      · rfl
    · have hend : (Item.label l).endsIn (':' :: "funcname".toList) = false := by
        rw [Item.endsIn, beq_eq_false_iff_ne]
        exact fun h => hl (List.cons.inj h).2.symm
      rw [Item.behind_of_not_ends hend, Item.named, if_neg hl]
      split_ifs
      · rw [(cteIn_kind js).2]
        rfl
      · rfl
  | token | close | lparen | rparen | blank | null | word | str | names =>
    exact Item.behind_unnamed (by simp) (by simp) _ _ _ js

/-- Where a text without quotation marks ends like the label of a function no name is read. -/
theorem strays_functions {is : List Item} (hp : Printed is) :
    (strays (':' :: "funcname".toList) is).filterMap functionAt = [] := by
  refine List.filterMap_eq_nil_iff.mpr fun js hm => ?_
  obtain ⟨p, c, s, rfl, _⟩ := mem_strays hm
  obtain ⟨j, ks, rfl, hj⟩ := hp.append_right.1.2 js rfl
  cases j with
  | label | word => rfl
  | tag | close | lparen | rparen | blank | null | token | str | names => simp [Item.opensField] at hj

theorem relationAt_eq_none_iff {js : List Item} (hp : Printed js) :
    relationAt js = none ↔ behind (':' :: "relname".toList) (bodyItems 0 js) = [] := by
  have hsome : ∀ ks ∈ behind (':' :: "relname".toList) (bodyItems 0 js), (readItem ks).isSome = true :=
    fun _ hm => readItem_isSome (Or.inl rfl) (hp.bodyItems 0) hm
  rw [relationAt, Option.map_eq_none_iff]
  cases hb : behind (':' :: "relname".toList) (bodyItems 0 js) with
  | nil => exact iff_of_true rfl rfl
  | cons ks rest =>
    have hread := hsome ks (hb ▸ List.mem_cons_self)
    refine iff_of_false (fun h => ?_) (List.cons_ne_nil ks rest)
    have hnone : readItem ks = none := h
    rw [hnone] at hread
    exact absurd hread Bool.false_ne_true

end Readings

section Weights

variable {α β : Type}

theorem sum_filterMap (w : β → Nat) (f : α → Option β) (l : List α) :
    ((l.filterMap f).map w).sum = (l.map fun x => (f x).elim 0 w).sum := by
  induction l with
  | nil => rfl
  | cons x l ih => cases hx : f x <;> simp [hx, ih]

/-- Two answers alike up to their order cannot differ by a weight that one of them never has more of. -/
theorem not_lt_of_perm (w : β → Nat) {f g : α → Option β} {l : List α}
    (h : (l.filterMap f).Perm (l.filterMap g)) (hle : ∀ x ∈ l, (f x).elim 0 w ≤ (g x).elim 0 w) :
    ∀ x ∈ l, ¬ (f x).elim 0 w < (g x).elim 0 w := by
  intro x hx hlt
  have hsum := (h.map w).sum_eq
  rw [sum_filterMap, sum_filterMap] at hsum
  exact absurd hsum (List.sum_lt_sum _ _ hle ⟨x, hx, hlt⟩).ne

theorem length_filterMap_congr {f g : α → Option β} {l : List α} (h : ∀ x ∈ l, (f x).isSome = (g x).isSome) :
    (l.filterMap f).length = (l.filterMap g).length := by
  induction l with
  | nil => rfl
  | cons x l ih =>
    have hx := h x List.mem_cons_self
    have hrest := ih fun y hy => h y (List.mem_cons_of_mem x hy)
    cases hf : f x <;> cases hg : g x <;> simp [hf, hg, hrest] at hx ⊢

theorem eq_nil_of_perm_append {f g : α → Option β} {l : List α} {rest : List β}
    (hs : ∀ x ∈ l, (f x).isSome = (g x).isSome) (h : (l.filterMap f ++ rest).Perm (l.filterMap g)) : rest = [] := by
  have hlen := h.length_eq
  rw [List.length_append, length_filterMap_congr hs] at hlen
  exact List.eq_nil_of_length_eq_zero (by omega)

end Weights

section Decoding

/-- No character of a name ends a token that `outToken` goes on with. -/
def Unbroken (s : Chars) : Prop :=
  ∀ c ∈ s, breaksToken c = false

theorem cut_eq_iff {s : Chars} : cut s = s ↔ Unbroken s := by
  simp [cut, Unbroken, List.takeWhile_eq_self_iff]

theorem length_cut_le (s : Chars) : (cut s).length ≤ s.length :=
  (List.takeWhile_sublist _).length_le

theorem unbroken_of_length {s : Chars} (h : ¬ (cut s).length < s.length) : Unbroken s :=
  cut_eq_iff.mp ((List.takeWhile_prefix _).eq_of_length (Nat.le_antisymm (length_cut_le s) (Nat.not_lt.mp h)))

/-- The names that are read as they are. -/
def Named.Kept : Named → Prop
  | .relation schemaname relname => (∀ s, schemaname = some s → Unbroken s) ∧ Unbroken relname ∧
      (hidesRelname schemaname = true → relname = ':' :: "relname".toList)
  | .cte ctename => Unbroken ctename
  | .function funcname => NamesKept false funcname

variable {l : List Named}

theorem schemas_kept (h : (l.filterMap Named.readRelation?).Perm (l.filterMap Named.relation?))
    {s : Option Chars} {r : Chars} (hm : .relation s r ∈ l) : s.map cut = s := by
  have hle : ∀ n ∈ l, n.readRelation?.elim 0 (fun q => q.schema.elim 0 List.length) ≤
      n.relation?.elim 0 fun q => q.schema.elim 0 List.length := by
    intro n _
    cases n with
    | relation s r =>
      cases s with
      | none => exact Nat.le_refl _
      | some s => exact length_cut_le s
    | cte | function => exact Nat.le_refl _
  have hnot := not_lt_of_perm _ h hle _ hm
  cases s with
  | none => rfl
  | some s => exact congrArg some (cut_eq_iff.mpr (unbroken_of_length hnot))

/-- Whether a relation has a name that its schema hides. -/
def hidden (q : ReadName) : Nat :=
  if hidesRelname q.schema = true ∧ q.name ≠ ':' :: "relname".toList then 1 else 0

theorem hidden_kept (h : (l.filterMap Named.readRelation?).Perm (l.filterMap Named.relation?))
    {s : Option Chars} {r : Chars} (hm : .relation s r ∈ l) (hs : hidesRelname s = true) :
    r = ':' :: "relname".toList := by
  have hread : ∀ s r, .relation s r ∈ l → ((Named.relation s r).readRelation?.elim 0 hidden) = 0 := by
    intro s r hm
    have hschema := schemas_kept h hm
    by_cases hs : hidesRelname s = true
    · simp [Named.readRelation?, hidden, hschema, hs]
    · simp [Named.readRelation?, hidden, hschema, hs]
  have hle : ∀ n ∈ l, n.readRelation?.elim 0 hidden ≤ n.relation?.elim 0 hidden := by
    intro n hn
    cases n with
    | relation s r =>
      rw [hread s r hn]
      exact Nat.zero_le _
    | cte | function => exact Nat.le_refl _
  have hnot := not_lt_of_perm _ h hle _ hm
  rw [hread s r hm] at hnot
  by_contra hr
  refine hnot ?_
  have hone : hidden ⟨s, r⟩ = 1 := if_pos ⟨hs, hr⟩
  show 0 < hidden ⟨s, r⟩
  omega

theorem relations_kept (h : (l.filterMap Named.readRelation?).Perm (l.filterMap Named.relation?))
    {s : Option Chars} {r : Chars} (hm : .relation s r ∈ l) : (Named.relation s r).Kept := by
  have hle : ∀ n ∈ l, n.readRelation?.elim 0 (fun q => q.name.length) ≤ n.relation?.elim 0 fun q => q.name.length := by
    intro n hn
    cases n with
    | relation s r =>
      by_cases hs : hidesRelname s = true
      · have hr := hidden_kept h hn hs
        simp [Named.readRelation?, Named.relation?, hs, hr]
      · simp [Named.readRelation?, Named.relation?, hs, length_cut_le]
    | cte | function => exact Nat.le_refl _
  have hnot := not_lt_of_perm _ h hle _ hm
  have hschema := schemas_kept h hm
  refine ⟨?_, ?_, hidden_kept h hm⟩
  · intro u hu
    rw [hu] at hschema
    exact cut_eq_iff.mp (Option.some.inj hschema)
  · by_cases hs : hidesRelname s = true
    · rw [hidden_kept h hm hs]
      exact cut_eq_iff.mp (by decide)
    · refine unbroken_of_length ?_
      simpa [Named.readRelation?, Named.relation?, hs] using hnot

theorem ctes_kept (h : (l.filterMap Named.readCte?).Perm (l.filterMap Named.cte?)) {s : Chars} (hm : .cte s ∈ l) :
    Unbroken s := by
  have hle : ∀ n ∈ l, n.readCte?.elim 0 List.length ≤ n.cte?.elim 0 List.length := by
    intro n _
    cases n with
    | cte s => exact length_cut_le s
    | relation | function => exact Nat.le_refl _
  exact unbroken_of_length (not_lt_of_perm _ h hle _ hm)

theorem readFunction_kept {ss : List Chars} (h : NamesKept false ss) :
    (Named.function ss).readFunction? = (Named.function ss).function? := by
  rw [Named.readFunction?, quotedStrings_eq_readNames, readNames_kept ss false (fun _ => rfl) h]
  rfl

theorem readFunction_not_kept {ss : List Chars} (h : ¬ NamesKept false ss) :
    ∃ r q, (Named.function ss).readFunction? = some r ∧ (Named.function ss).function? = some q ∧ Fewer r q := by
  obtain ⟨r, q, hr, hq, hf⟩ := readNames_not_kept ss false (fun _ => rfl) h
  refine ⟨r, q, ?_, hq, hf⟩
  rw [Named.readFunction?, quotedStrings_eq_readNames, hr]

theorem functions_kept (h : (l.filterMap Named.readFunction?).Perm (l.filterMap Named.function?)) {ss : List Chars}
    (hm : .function ss ∈ l) : NamesKept false ss := by
  have hmarks : ∀ n ∈ l, n.readFunction?.elim 0 marks ≤ n.function?.elim 0 marks := by
    intro n _
    cases n with
    | function ss =>
      by_cases hk : NamesKept false ss
      · rw [readFunction_kept hk]
      · obtain ⟨r, q, hr, hq, hf⟩ := readFunction_not_kept hk
        rw [hr, hq]
        rcases hf with hlt | ⟨heq, _⟩
        · exact Nat.le_of_lt hlt
        · exact Nat.le_of_eq heq
    | relation | cte => exact Nat.le_refl _
  have hno := not_lt_of_perm _ h hmarks
  have hunlike : ∀ n ∈ l, n.readFunction?.elim 0 unlike ≤ n.function?.elim 0 unlike := by
    intro n hn
    cases n with
    | function ss =>
      by_cases hk : NamesKept false ss
      · rw [readFunction_kept hk]
      · obtain ⟨r, q, hr, hq, hf⟩ := readFunction_not_kept hk
        have hnot := hno _ hn
        rw [hr, hq] at hnot ⊢
        rcases hf with hlt | ⟨_, hlt⟩
        · exact absurd hlt hnot
        · exact Nat.le_of_lt hlt
    | relation | cte => exact Nat.le_refl _
  by_contra hk
  obtain ⟨r, q, hr, hq, hf⟩ := readFunction_not_kept hk
  have hnot := hno _ hm
  have hnot' := not_lt_of_perm _ h hunlike _ hm
  rw [hr, hq] at hnot hnot'
  rcases hf with hlt | ⟨_, hlt⟩
  · exact hnot hlt
  · exact hnot' hlt

theorem readRelation_isSome (n : Named) : n.readRelation?.isSome = n.relation?.isSome := by
  cases n <;> rfl

theorem readCte_isSome (n : Named) : n.readCte?.isSome = n.cte?.isSome := by
  cases n <;> rfl

theorem Named.Kept.readRelation {n : Named} (h : n.Kept) : n.readRelation? = n.relation? := by
  cases n with
  | relation s r =>
    obtain ⟨hs, hr, hh⟩ := h
    have hschema : s.map cut = s := by
      cases s with
      | none => rfl
      | some s => exact congrArg some (cut_eq_iff.mpr (hs s rfl))
    rw [readRelation?, hschema, cut_eq_iff.mpr hr]
    by_cases hhides : hidesRelname s = true
    · rw [if_pos hhides, ← hh hhides]
      rfl
    · rw [if_neg hhides]
      rfl
  | cte | function => rfl

theorem Named.Kept.readCte {n : Named} (h : n.Kept) : n.readCte? = n.cte? := by
  cases n with
  | cte s => exact congrArg some (cut_eq_iff.mpr h)
  | relation | function => rfl

theorem Named.Kept.readFunction {n : Named} (h : n.Kept) : n.readFunction? = n.function? := by
  cases n with
  | function ss => exact readFunction_kept h
  | relation | cte => rfl

/-- Nowhere in the items is a name read that the tree does not have. -/
def WithoutStrays (is : List Item) : Prop :=
  strays (':' :: "ctename".toList) is = [] ∧
    ∀ js ∈ strays ('{' :: "RANGEVAR".toList) is, behind (':' :: "relname".toList) (bodyItems 0 js) = []

theorem printed_of_mem_strays {x : Chars} {is js : List Item} (hp : Printed is) (hm : js ∈ strays x is) :
    Printed js := by
  obtain ⟨p, c, s, rfl, _⟩ := mem_strays hm
  exact hp.append_right.2.2

theorem strays_relations_iff {is : List Item} (hp : Printed is) :
    (strays ('{' :: "RANGEVAR".toList) is).filterMap relationAt = [] ↔
      ∀ js ∈ strays ('{' :: "RANGEVAR".toList) is, behind (':' :: "relname".toList) (bodyItems 0 js) = [] := by
  rw [List.filterMap_eq_nil_iff]
  exact forall₂_congr fun js hm => relationAt_eq_none_iff (printed_of_mem_strays hp hm)

theorem strays_ctes_iff {is : List Item} (hp : Printed is) :
    (strays (':' :: "ctename".toList) is).filterMap readItem = [] ↔ strays (':' :: "ctename".toList) is = [] := by
  constructor
  · intro h
    by_contra hne
    obtain ⟨js, hm⟩ := List.exists_mem_of_ne_nil _ hne
    obtain ⟨p, c, s, rfl, hs⟩ := mem_strays hm
    obtain ⟨j, ks, rfl, hj⟩ := hp.append_right.1.2 js rfl
    have hnone := List.filterMap_eq_nil_iff.mp h _ hm
    cases j with
    | label | word => exact absurd hnone (Option.some_ne_none _)
    | tag | close | lparen | rparen | blank | null | token | str | names => simp [Item.opensField] at hj
  · intro h
    rw [h]
    rfl

/-- The items of the dump; what is a constant does not matter here. -/
def ParseTree.printed (t : ParseTree) : List Item :=
  t.items ⟨fun _ _ => false, fun _ => rfl, fun _ => rfl⟩

/-- The analyser reads back exactly the names of a tree if and only if each of them is
read as it is and none is read beside them. -/
theorem decodes_iff (t : ParseTree) :
    Decodes t ↔ WithoutStrays t.printed ∧ ∀ n ∈ t.statements.named, n.Kept := by
  have hp : Printed t.printed := (t.items_lays _).1
  have hnamed : namedItems t.printed = t.statements.named := t.namedItems_eq _
  have ha : analyzeDump (rawParseDump t.statements) = some (itemAnalysis t.printed) := t.analyzeDump_eq _
  have hrelations := behind_perm relations_item hp
  have hctes := behind_perm ctes_item hp
  have hfunctions := behind_perm functions_item hp
  rw [hnamed] at hrelations hctes hfunctions
  rw [strays_functions hp, List.append_nil] at hfunctions
  constructor
  · rintro ⟨a, ha', hr, hc, hf⟩
    obtain rfl := Option.some.inj (ha.symm.trans ha')
    have hr' := hrelations.symm.trans hr
    have hc' := hctes.symm.trans hc
    have hf' := hfunctions.symm.trans hf
    have hnor := eq_nil_of_perm_append (fun n _ => readRelation_isSome n) hr'
    have hnoc := eq_nil_of_perm_append (fun n _ => readCte_isSome n) hc'
    rw [hnor, List.append_nil] at hr'
    rw [hnoc, List.append_nil] at hc'
    refine ⟨⟨(strays_ctes_iff hp).mp hnoc, (strays_relations_iff hp).mp hnor⟩, fun n hm => ?_⟩
    cases n with
    | relation s r => exact relations_kept hr' hm
    | cte s => exact ctes_kept hc' hm
    | function ss => exact functions_kept hf' hm
  · rintro ⟨⟨hnoc, hnor⟩, hkept⟩
    rw [(strays_relations_iff hp).mpr hnor, List.append_nil,
      List.filterMap_congr fun n hm => (hkept n hm).readRelation] at hrelations
    rw [(strays_ctes_iff hp).mpr hnoc, List.append_nil,
      List.filterMap_congr fun n hm => (hkept n hm).readCte] at hctes
    rw [List.filterMap_congr fun n hm => (hkept n hm).readFunction] at hfunctions
    exact ⟨_, ha, hrelations, hctes, hfunctions⟩

/-- `SELECT` from a relation with a carriage return in its name. -/
def returnTree : ParseTree where
  statements := rawStmt (selectStmt [starTarget] [relationRef none "a\rb"] none)
  parsed := nofun
  raw := by decide

/-- `outToken` leaves a carriage return as it is, `read_token` stops at it. -/
theorem returnTree_not_decoded : ¬ ∀ t, Decodes t := by
  intro h
  obtain ⟨a, ha, hr, _⟩ := h returnTree
  have hread : (analyzeDump (rawParseDump returnTree.statements)).map Analysis.relations =
      some [⟨none, ['a']⟩] := by decide +kernel
  rw [ha] at hread
  have hnamed : returnTree.statements.named.filterMap Named.relation? = [⟨none, ['a', '\r', 'b']⟩] := by decide
  rw [Option.some.inj hread, hnamed] at hr
  exact absurd (List.perm_singleton.mp hr) (by decide)

end Decoding

end Allgres
