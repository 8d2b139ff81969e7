import Allgres.DumpText
import Allgres.Hits

/-! The dump of a tree as a list of items. A search in the text is followed item
by item, whatever the shape of the tree. -/

namespace Allgres

open Scan

/-- The fields that hold the text of a string constant, by the tag of the node
and the label. No name stands in one of them. -/
structure ConstantFields where
  holds : Chars → Chars → Bool
  schemaname : ∀ tag, holds tag "schemaname".toList = false
  funcname : ∀ tag, holds tag "funcname".toList = false

/-- The flag of a text says whether it is a string constant. -/
inductive Item where
  | tag (t : Chars)
  | close | lparen | rparen | blank | null
  | label (l : Chars)
  | word (w : Chars)
  | token (constant : Bool) (s : Chars)
  | str (constant : Bool) (s : Chars)
  | names (ss : List Chars)
  deriving DecidableEq

def Item.text : Item → Chars
  | .tag t => '{' :: t
  | .close => ['}']
  | .lparen => ['(']
  | .rparen => [')']
  | .blank => [' ']
  | .null => ['<', '>']
  | .label l => ':' :: l
  | .word w => w
  | .token _ s => outToken s
  | .str _ s => outString s
  | .names ss => '(' :: (dumpStrings [] ss ++ [')'])

def render (is : List Item) : Chars :=
  is.flatMap Item.text

theorem render_nil : render [] = [] :=
  rfl

theorem render_cons (i : Item) (is : List Item) : render (i :: is) = i.text ++ render is :=
  List.flatMap_cons

theorem render_append (is js : List Item) : render (is ++ js) = render is ++ render js :=
  List.flatMap_append

/-- The strings of a list of String nodes. -/
def Nodes.strings : Nodes → Option (List Chars)
  | .nil => some []
  | .cons (.str s) xs => xs.strings.map (s :: ·)
  | .cons _ _ => none

def Node.strings : Node → Option (List Chars)
  | .list xs => xs.strings
  | _ => none

def separated (sep : Bool) : List Item :=
  if sep then [.blank] else []

def schemaItem (schemaname : Option Chars) : Item :=
  schemaname.elim .null (.token false)

section Trees

variable (k : ConstantFields)

mutual

def Node.items (constant : Bool) : Node → List Item
  | .null => [.null]
  | .atom w => [.word w.chars]
  | .token s => [.token constant s]
  | .str s => [.str constant s]
  | .list xs => .lparen :: (xs.items constant false ++ [.rparen])
  | .rangeVar schemaname relname rest =>
    .tag "RANGEVAR".toList :: .blank :: .label "schemaname".toList :: .blank ::
      schemaItem schemaname :: .blank :: .label "relname".toList :: .blank :: .token false relname ::
      (rest.items "RANGEVAR".toList ++ [.close])
  | .funcCall funcname rest =>
    .tag "FUNCCALL".toList :: .blank :: .label "funcname".toList :: .blank :: .names funcname ::
      (rest.items "FUNCCALL".toList ++ [.close])
  | .sqlValueFunction op rest =>
    .tag "SQLVALUEFUNCTION".toList :: .blank :: .label "op".toList :: .blank :: .word op.code ::
      (rest.items "SQLVALUEFUNCTION".toList ++ [.close])
  | .withStmt tag before ctes recursive location after =>
    .tag tag.chars :: (before.items tag.chars ++ (.blank :: .label "withClause".toList :: .blank ::
      .tag "WITHCLAUSE".toList :: .blank :: .label "ctes".toList :: .blank :: .lparen ::
      (ctes.items false ++ (.rparen :: .blank :: .label "recursive".toList :: .blank ::
        .word (if recursive then "true".toList else "false".toList) :: .blank ::
        .label "location".toList :: .blank :: .word location.chars :: .close ::
        (after.items tag.chars ++ [.close])))))
  | .node tag fields => .tag tag.chars :: (fields.items tag.chars ++ [.close])

def Nodes.items (constant sep : Bool) : Nodes → List Item
  | .nil => []
  | .cons x xs => separated sep ++ (x.items constant ++ xs.items constant true)

/-- The names of a function are one item. -/
def Fields.items (tag : Chars) : Fields → List Item
  | .nil => []
  | .flag w tail => .blank :: .word w.chars :: tail.items tag
  | .cons label value tail =>
    .blank :: .label label.chars :: .blank ::
      ((if label.chars = "funcname".toList then
          value.strings.elim (value.items (k.holds tag label.chars)) fun ss => [.names ss]
        else value.items (k.holds tag label.chars)) ++ tail.items tag)

def Ctes.items (sep : Bool) : Ctes → List Item
  | .nil => []
  | .cons ctename rest tail =>
    separated sep ++ (.tag "COMMONTABLEEXPR".toList :: .blank :: .label "ctename".toList :: .blank ::
      .token false ctename :: (rest.items "COMMONTABLEEXPR".toList ++ (.close :: tail.items true)))

end

end Trees

theorem Nodes.dump_strings {xs : Nodes} {ss : List Chars} (h : xs.strings = some ss) :
    ∀ sep, xs.dump sep = dumpStrings sep ss := by
  induction ss generalizing xs with
  | nil =>
    intro sep
    cases xs with
    | nil => rfl
    | cons x xs =>
      cases x with
      | str s => cases hx : xs.strings <;> simp [strings, hx] at h
      | null | atom | token | list | rangeVar | funcCall | sqlValueFunction | withStmt | node =>
        simp [strings] at h
  | cons s ss ih =>
    intro sep
    cases xs with
    | nil => simp [strings] at h
    | cons x xs =>
      cases x with
      | str u =>
        cases hx : xs.strings with
        | none => simp [strings, hx] at h
        | some us =>
          obtain ⟨rfl, rfl⟩ : u = s ∧ us = ss := by simpa [strings, hx] using h
          rw [Nodes.dump, Node.dump, dumpStrings, ih hx]
      | null | atom | token | list | rangeVar | funcCall | sqlValueFunction | withStmt | node =>
        simp [strings] at h

theorem render_separated {sep : Chars} {b : Bool} (h : sep = if b then [' '] else []) :
    render (separated b) = sep := by
  cases b <;> simp [separated, render, Item.text, h]

theorem schemaItem_text (s : Option Chars) : (schemaItem s).text = outOptToken s := by
  cases s <;> rfl

variable (k : ConstantFields)

mutual

theorem Node.dump_eq_render : ∀ (n : Node) (c : Bool), n.dump = render (n.items k c)
  | .null, _ => rfl
  | .atom w, _ => by simp [Node.dump, Node.items, render, Item.text]
  | .token s, _ => by simp [Node.dump, Node.items, render, Item.text]
  | .str s, _ => by simp [Node.dump, Node.items, render, Item.text]
  | .list xs, c => by
    have h := xs.dump_eq_render c false [] rfl
    simp only [Node.dump, Node.items, render_cons, render_append, h, Item.text, render_nil,
      List.append_nil, List.cons_append, List.nil_append]
  | .rangeVar schemaname relname rest, _ => by
    have h := rest.dump_eq_render "RANGEVAR".toList
    simp only [Node.dump, Node.items, render_cons, render_append, schemaItem_text, h, render_nil]
    simp only [Item.text]
    repeat rw [String.toList_ofList]
    simp only [List.append_assoc, List.cons_append, List.nil_append, List.append_nil]
  | .funcCall funcname rest, _ => by
    have h := rest.dump_eq_render "FUNCCALL".toList
    simp only [Node.dump, Node.items, render_cons, render_append, h, Item.text, render_nil]
    repeat rw [String.toList_ofList]
    simp only [List.append_assoc, List.cons_append, List.nil_append, List.append_nil]
  | .sqlValueFunction op rest, _ => by
    have h := rest.dump_eq_render "SQLVALUEFUNCTION".toList
    simp only [Node.dump, Node.items, render_cons, render_append, h, Item.text, render_nil]
    repeat rw [String.toList_ofList]
    simp only [List.append_assoc, List.cons_append, List.nil_append, List.append_nil]
  | .withStmt tag before ctes recursive location after, _ => by
    have hb := before.dump_eq_render tag.chars
    have hc := ctes.dump_eq_render false [] rfl
    have ha := after.dump_eq_render tag.chars
    have hr : (if recursive then " :recursive true".toList else " :recursive false".toList) =
        ' ' :: ':' :: ("recursive".toList ++ ' ' :: (if recursive then "true".toList else "false".toList)) := by
      cases recursive
      · simp only [Bool.false_eq_true, if_false]
        repeat rw [String.toList_ofList]
        rfl
      · simp only [if_true]
        repeat rw [String.toList_ofList]
        rfl
    simp only [Node.dump, Node.items, render_cons, render_append, hb, hc, ha, hr, Item.text, render_nil]
    repeat rw [String.toList_ofList]
    simp only [List.append_assoc, List.cons_append, List.nil_append, List.append_nil]
  | .node tag fields, _ => by
    have h := fields.dump_eq_render tag.chars
    simp only [Node.dump, Node.items, render_cons, render_append, h, Item.text, render_nil,
      List.append_assoc, List.cons_append, List.append_nil]

theorem Nodes.dump_eq_render : ∀ (xs : Nodes) (c b : Bool) (sep : Chars),
    sep = (if b then [' '] else []) → xs.dump sep = render (xs.items k c b)
  | .nil, _, _, _, _ => rfl
  | .cons x xs, c, b, sep, h => by
    have hx := x.dump_eq_render c
    have hxs := xs.dump_eq_render c true [' '] rfl
    simp only [Nodes.dump, Nodes.items, render_append, render_separated h, hx, hxs, List.append_assoc]

theorem Fields.dump_eq_render : ∀ (fs : Fields) (tag : Chars), fs.dump = render (fs.items k tag)
  | .nil, _ => rfl
  | .flag w tail, tag => by
    have ht := tail.dump_eq_render tag
    simp only [Fields.dump, Fields.items, render_cons, ht, Item.text, List.cons_append, List.nil_append]
  | .cons label value tail, tag => by
    have hv := value.dump_eq_render (k.holds tag label.chars)
    have ht := tail.dump_eq_render tag
    have hlabel : " :".toList = [' ', ':'] := by rw [String.toList_ofList]
    have hvalue : render (if label.chars = "funcname".toList then
        value.strings.elim (value.items k (k.holds tag label.chars)) fun ss => [.names ss]
        else value.items k (k.holds tag label.chars)) = value.dump := by
      split
      · cases hs : value.strings with
        | none => exact hv.symm
        | some ss =>
          cases value with
          | list xs =>
            rw [Node.dump, Nodes.dump_strings hs]
            simp [render, Item.text]
          | null | atom | token | str | rangeVar | funcCall | sqlValueFunction | withStmt | node =>
            simp [Node.strings] at hs
      · exact hv.symm
    simp only [Fields.dump, Fields.items, render_cons, render_append, hvalue, ht, hlabel, Item.text,
      List.append_assoc, List.cons_append, List.nil_append]

theorem Ctes.dump_eq_render : ∀ (cs : Ctes) (b : Bool) (sep : Chars),
    sep = (if b then [' '] else []) → cs.dump sep = render (cs.items k b)
  | .nil, _, _, _ => rfl
  | .cons ctename rest tail, b, sep, h => by
    have hr := rest.dump_eq_render "COMMONTABLEEXPR".toList
    have ht := tail.dump_eq_render true [' '] rfl
    simp only [Ctes.dump, Ctes.items, render_cons, render_append, render_separated h, hr, ht, Item.text]
    repeat rw [String.toList_ofList]
    simp only [List.append_assoc, List.cons_append, List.nil_append]

end

end Allgres
