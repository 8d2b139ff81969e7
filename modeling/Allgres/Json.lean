import Allgres.Text

/-! `jsonb` values. A number carries the text PostgreSQL prints for it, so the
casts of an extracted field read the text the server would read. -/

namespace Allgres

inductive Json where
  | null
  | bool (b : Bool)
  | num (text : String)
  | str (s : String)
  | arr (xs : List Json)
  | obj (fields : List (String × Json))
  deriving Inhabited

namespace Json

mutual

def beq : Json → Json → Bool
  | null, null => true
  | bool a, bool b => a == b
  | num a, num b => a == b
  | str a, str b => a == b
  | arr a, arr b => beqAll a b
  | obj a, obj b => beqFields a b
  | _, _ => false

def beqAll : List Json → List Json → Bool
  | [], [] => true
  | a :: as, b :: bs => beq a b && beqAll as bs
  | _, _ => false

def beqFields : List (String × Json) → List (String × Json) → Bool
  | [], [] => true
  | (k, a) :: as, (l, b) :: bs => k == l && beq a b && beqFields as bs
  | _, _ => false

end

mutual

theorem beq_iff : ∀ a b : Json, beq a b = true ↔ a = b
  | null, b => by cases b <;> simp [beq]
  | bool _, b => by cases b <;> simp [beq]
  | num _, b => by cases b <;> simp [beq]
  | str _, b => by cases b <;> simp [beq]
  | arr xs, b => by cases b <;> simp [beq, beqAll_iff xs]
  | obj fs, b => by cases b <;> simp [beq, beqFields_iff fs]

theorem beqAll_iff : ∀ as bs : List Json, beqAll as bs = true ↔ as = bs
  | [], bs => by cases bs <;> simp [beqAll]
  | a :: as, bs => by cases bs <;> simp [beqAll, beq_iff a, beqAll_iff as]

theorem beqFields_iff : ∀ as bs : List (String × Json), beqFields as bs = true ↔ as = bs
  | [], bs => by cases bs <;> simp [beqFields]
  | (k, a) :: as, bs => by
    cases bs with
    | nil => simp [beqFields]
    | cons b bs =>
      obtain ⟨l, b⟩ := b
      simp [beqFields, beq_iff a, beqFields_iff as]

end

instance : DecidableEq Json := fun a b => decidable_of_iff _ (beq_iff a b)

/-- The text of one character inside a printed string. -/
def escapeChar (c : Char) : List Char :=
  if c = '"' then ['\\', '"']
  else if c = '\\' then ['\\', '\\']
  else if c = '\n' then ['\\', 'n']
  else if c = '\r' then ['\\', 'r']
  else if c = '\t' then ['\\', 't']
  else if c = '\x08' then ['\\', 'b']
  else if c = '\x0c' then ['\\', 'f']
  else if c.toNat < 32 then
    ['\\', 'u', '0', '0', Nat.digitChar (c.toNat / 16), Nat.digitChar (c.toNat % 16)]
  else [c]

def quote (s : String) : String :=
  "\"" ++ String.ofList (s.toList.flatMap escapeChar) ++ "\""

mutual

/-- `v::text`. -/
def render : Json → String
  | null => "null"
  | bool b => if b then "true" else "false"
  | num t => t
  | str s => quote s
  | arr xs => "[" ++ renderAll xs ++ "]"
  | obj fs => "\x7b" ++ renderFields fs ++ "\x7d"

def renderAll : List Json → String
  | [] => ""
  | [x] => render x
  | x :: y :: xs => render x ++ ", " ++ renderAll (y :: xs)

def renderFields : List (String × Json) → String
  | [] => ""
  | [(k, v)] => quote k ++ ": " ++ render v
  | (k, v) :: f :: fs => quote k ++ ": " ++ render v ++ ", " ++ renderFields (f :: fs)

end

/-- `v -> key`. -/
def get (v : Json) (key : String) : Option Json :=
  match v with
  | obj fs => fs.lookup key
  | _ => none

/-- `v -> i` for an array position. -/
def item (v : Json) (i : Nat) : Option Json :=
  match v with
  | arr xs => xs[i]?
  | _ => none

/-- The text `->>` makes of a value; a JSON null is no text. -/
def asText : Json → Option String
  | null => none
  | str s => some s
  | v => some (render v)

/-- `v ->> key`. -/
def text (v : Json) (key : String) : Option String :=
  (v.get key).bind asText

/-- `v ? key`. -/
def has (v : Json) (key : String) : Bool :=
  match v with
  | obj fs => fs.any (·.1 == key)
  | arr xs => xs.contains (str key)
  | str s => s == key
  | _ => false

def isObject : Json → Bool
  | obj _ => true
  | _ => false

def keys : Json → List String
  | obj fs => fs.map (·.1)
  | _ => []

/-- The order of the keys of an object: shorter keys first, then by their text. -/
def keyLt (a b : String) : Bool :=
  a.utf8ByteSize < b.utf8ByteSize || (a.utf8ByteSize == b.utf8ByteSize && decide (a < b))

/-- Set one field of an object. -/
def setField (key : String) (v : Json) : List (String × Json) → List (String × Json)
  | [] => [(key, v)]
  | (k, w) :: fs =>
    if k = key then (key, v) :: fs
    else if keyLt key k then (key, v) :: (k, w) :: fs
    else (k, w) :: setField key v fs

/-- `jsonb_build_object`, and an object as it is read: of equal keys the last one stays. -/
def object (fs : List (String × Json)) : Json :=
  obj (fs.foldl (fun acc f => setField f.1 f.2 acc) [])

/-- A value as the operand of a concatenation of arrays. -/
def elements : Json → List Json
  | arr xs => xs
  | v => [v]

/-- `a || b`: of two objects the right side wins, all else is joined as arrays. -/
def merge (a b : Json) : Json :=
  match a, b with
  | obj fs, obj gs => obj (gs.foldl (fun acc f => setField f.1 f.2 acc) fs)
  | _, _ => arr (a.elements ++ b.elements)

/-- `v - key`. -/
def without (v : Json) (key : String) : Json :=
  match v with
  | obj fs => obj (fs.filter (·.1 != key))
  | _ => v

/-- `to_jsonb` of a possibly absent text. -/
def ofText : Option String → Json
  | some s => str s
  | none => null

def ofInt (n : Int) : Json :=
  num (toString n)

mutual

/-- `jsonb_strip_nulls`: the fields that are null are left out of every object; in an array a null
stays. -/
def strip : Json → Json
  | arr xs => arr (stripAll xs)
  | obj fs => obj (stripFields fs)
  | v => v

def stripAll : List Json → List Json
  | [] => []
  | x :: xs => strip x :: stripAll xs

def stripFields : List (String × Json) → List (String × Json)
  | [] => []
  | (k, v) :: fs => if v = null then stripFields fs else (k, strip v) :: stripFields fs

end

/-- `jsonb_strip_nulls(jsonb_build_object(..))`. -/
def stripNulls (fs : List (String × Option Json)) : Json :=
  object (fs.filterMap fun f => match f.2 with
    | some null => none
    | some v => some (f.1, strip v)
    | none => none)

theorem strip_eq_null {v : Json} : strip v = null ↔ v = null := by
  cases v <;> simp [strip]

mutual

theorem strip_strip : ∀ v : Json, strip (strip v) = strip v
  | null => rfl
  | bool _ => rfl
  | num _ => rfl
  | str _ => rfl
  | arr xs => by rw [strip, strip, stripAll_stripAll xs]
  | obj fs => by rw [strip, strip, stripFields_stripFields fs]

theorem stripAll_stripAll : ∀ xs : List Json, stripAll (stripAll xs) = stripAll xs
  | [] => rfl
  | x :: xs => by rw [stripAll, stripAll, strip_strip x, stripAll_stripAll xs]

theorem stripFields_stripFields : ∀ fs : List (String × Json), stripFields (stripFields fs) = stripFields fs
  | [] => rfl
  | (k, v) :: fs => by
    by_cases hv : v = null
    · rw [stripFields, if_pos hv, stripFields_stripFields fs]
    · have hv' : strip v ≠ null := fun h => hv (strip_eq_null.mp h)
      rw [stripFields, if_neg hv, stripFields, if_neg hv', strip_strip v, stripFields_stripFields fs]

end

/-- A number without the zeros at its end that show its scale only. -/
def unscaled (text : String) : String :=
  if '.' ∈ text.toList then
    String.ofList ((text.toList.reverse.dropWhile (· = '0')).dropWhile (· = '.')).reverse
  else text

mutual

/-- What `=` compares: two values are equal to PostgreSQL when they have the same numbers, of
whatever scale, in the same places. -/
def byValue : Json → Json
  | num t => num (unscaled t)
  | arr xs => arr (byValueAll xs)
  | obj fs => obj (byValueFields fs)
  | v => v

def byValueAll : List Json → List Json
  | [] => []
  | x :: xs => byValue x :: byValueAll xs

def byValueFields : List (String × Json) → List (String × Json)
  | [] => []
  | (k, v) :: fs => (k, byValue v) :: byValueFields fs

end

theorem lookup_cons_ite (k l : String) (w : Json) (fs : List (String × Json)) :
    ((l, w) :: fs).lookup k = if k = l then some w else fs.lookup k := by
  by_cases hk : k = l
  · simp [hk]
  · have hb : (k == l) = false := by simpa using hk
    simp [List.lookup_cons, hb, hk]

theorem lookup_setField (key k : String) (v : Json) (fs : List (String × Json)) :
    (setField key v fs).lookup k = if k = key then some v else fs.lookup k := by
  induction fs with
  | nil => rw [setField, lookup_cons_ite]
  | cons f fs ih =>
    obtain ⟨l, w⟩ := f
    rw [setField]
    by_cases hl : l = key
    · subst hl
      by_cases hk : k = l <;> simp [lookup_cons_ite, hk]
    · by_cases hlt : keyLt key l = true
      · simp [hl, hlt, lookup_cons_ite]
      · by_cases hk : k = key
        · subst hk
          simp [hl, hlt, lookup_cons_ite, ih, Ne.symm hl]
        · simp [hl, hlt, lookup_cons_ite, ih, hk]

theorem get_merge_one (fs : List (String × Json)) (key : String) (v : Json) :
    (merge (obj fs) (object [(key, v)])).get key = some v := by
  simp [merge, object, get, lookup_setField, setField]

theorem get_merge_ne (fs : List (String × Json)) {key k : String} (v : Json) (h : k ≠ key) :
    (merge (obj fs) (object [(key, v)])).get k = (obj fs).get k := by
  simp [merge, object, get, lookup_setField, setField, h]

theorem filter_setField (key : String) (v : Json) (fs : List (String × Json)) :
    (setField key v fs).filter (·.1 != key) = fs.filter (·.1 != key) := by
  induction fs with
  | nil => simp [setField]
  | cons f fs ih =>
    obtain ⟨l, w⟩ := f
    rw [setField]
    by_cases hl : l = key
    · simp [hl]
    · by_cases hlt : keyLt key l = true
      · simp [hl, hlt]
      · simp [hl, hlt, ih]

theorem without_merge_one (fs : List (String × Json)) (key : String) (v : Json) :
    (merge (obj fs) (object [(key, v)])).without key = (obj fs).without key := by
  simp [merge, object, without, setField, filter_setField]

theorem lookup_setFields {gs : List (String × Json)} {k : String} (h : k ∉ gs.map (·.1))
    (fs : List (String × Json)) :
    (gs.foldl (fun acc f => setField f.1 f.2 acc) fs).lookup k = fs.lookup k := by
  induction gs generalizing fs with
  | nil => rfl
  | cons g gs ih =>
    rw [List.map_cons, List.mem_cons, not_or] at h
    rw [List.foldl_cons, ih h.2, lookup_setField, if_neg h.1]

theorem get_merge_of_not_mem {a b : Json} {k : String} (ha : a.isObject = true) (hb : b.isObject = true)
    (h : k ∉ b.keys) : (a.merge b).get k = a.get k := by
  cases a with
  | obj fs =>
    cases b with
    | obj gs => exact lookup_setFields h fs
    | _ => cases hb
  | _ => cases ha

theorem lookup_setFields_once {gs : List (String × Json)} {k : String}
    (h : (gs.map (·.1)).count k ≤ 1) (fs : List (String × Json)) :
    (gs.foldl (fun acc f => setField f.1 f.2 acc) fs).lookup k = (gs.lookup k).or (fs.lookup k) := by
  induction gs generalizing fs with
  | nil => rfl
  | cons g gs ih =>
    obtain ⟨l, w⟩ := g
    rw [List.map_cons, List.count_cons] at h
    by_cases hk : k = l
    · have hnot : k ∉ gs.map (·.1) := by
        rw [if_pos (beq_iff_eq.mpr hk.symm)] at h
        exact List.count_eq_zero.mp (by omega)
      rw [List.foldl_cons, lookup_setFields hnot, lookup_setField, lookup_cons_ite, if_pos hk, if_pos hk]
      rfl
    · rw [List.foldl_cons, ih (Nat.le_trans (Nat.le_add_right _ _) h), lookup_setField, lookup_cons_ite,
        if_neg hk, if_neg hk]

theorem get_object_once {gs : List (String × Json)} {k : String}
    (h : (gs.map (·.1)).count k ≤ 1) : (object gs).get k = gs.lookup k := by
  have hget := lookup_setFields_once h []
  rw [List.lookup_nil, Option.or_none] at hget
  exact hget

/-- Of distinct keys every one is set. -/
theorem lookup_setFields_nodup {gs : List (String × Json)} (h : (gs.map (·.1)).Nodup) (k : String)
    (fs : List (String × Json)) :
    (gs.foldl (fun acc f => setField f.1 f.2 acc) fs).lookup k = (gs.lookup k).or (fs.lookup k) :=
  lookup_setFields_once (List.nodup_iff_count.mp h k) fs

theorem get_object {gs : List (String × Json)} (h : (gs.map (·.1)).Nodup) (k : String) :
    (object gs).get k = gs.lookup k :=
  get_object_once (List.nodup_iff_count.mp h k)

theorem get_merge {fs gs : List (String × Json)} (h : (gs.map (·.1)).Nodup) (k : String) :
    (merge (obj fs) (obj gs)).get k = ((obj gs).get k).or ((obj fs).get k) :=
  lookup_setFields_nodup h k fs

theorem mem_of_lookup {fs : List (String × Json)} {k : String} {v : Json}
    (h : fs.lookup k = some v) : (k, v) ∈ fs := by
  induction fs with
  | nil => cases h
  | cons f fs ih =>
    obtain ⟨l, w⟩ := f
    rw [lookup_cons_ite] at h
    split_ifs at h with hk
    · cases h
      exact hk ▸ List.mem_cons_self
    · exact List.mem_cons_of_mem _ (ih h)

/-- A field is smaller than its object. -/
theorem get_ne_self (v : Json) (k : String) : v.get k ≠ some v := by
  intro h
  cases v with
  | obj fs =>
    have hmem := List.sizeOf_lt_of_mem (mem_of_lookup h)
    simp only [Prod.mk.sizeOf_spec, obj.sizeOf_spec] at hmem
    omega
  | _ => cases h

theorem mem_keys {v : Json} {k : String} : k ∈ v.keys ↔ (v.get k).isSome = true := by
  cases v with
  | obj fs =>
    induction fs with
    | nil => simp [keys, get]
    | cons f fs ih =>
      obtain ⟨l, w⟩ := f
      simp only [keys, get, List.map_cons, List.mem_cons, lookup_cons_ite] at ih ⊢
      by_cases hk : k = l
      · simp [hk]
      · simp [hk, ih]
  | _ => simp [keys, get]

/-- What is kept of a value where nulls are stripped. -/
def nonNull : Option Json → Option Json
  | some null => none
  | o => o.map strip

theorem nonNull_nonNull (o : Option Json) : nonNull (nonNull o) = nonNull o := by
  match o with
  | none => rfl
  | some null => rfl
  | some (bool _) => rfl
  | some (num _) => rfl
  | some (str _) => rfl
  | some (arr xs) => exact congrArg some (strip_strip (arr xs))
  | some (obj fs) => exact congrArg some (strip_strip (obj fs))

theorem stripNulls_eq (fs : List (String × Option Json)) :
    stripNulls fs = object (fs.filterMap fun f => (nonNull f.2).map (f.1, ·)) := by
  unfold stripNulls
  congr 2
  funext f
  obtain ⟨k, o⟩ := f
  cases o with
  | none => rfl
  | some v => cases v <;> rfl

theorem get_stripNulls {fs : List (String × Option Json)} (h : (fs.map (·.1)).Nodup) (k : String) :
    (stripNulls fs).get k = (fs.lookup k).bind nonNull := by
  have hkeys : ∀ fs : List (String × Option Json),
      ((fs.filterMap fun f => (nonNull f.2).map (f.1, ·)).map (·.1)).Sublist (fs.map (·.1)) := by
    intro fs
    induction fs with
    | nil => exact List.Sublist.refl _
    | cons f fs ih =>
      obtain ⟨l, o⟩ := f
      cases ho : nonNull o with
      | none => simpa [ho] using ih.trans (List.sublist_cons_self _ _)
      | some v => simpa [ho] using ih
  rw [stripNulls_eq, get_object ((hkeys fs).nodup h)]
  induction fs with
  | nil => rfl
  | cons f fs ih =>
    obtain ⟨l, o⟩ := f
    rw [List.map_cons, List.nodup_cons] at h
    have hrest := ih h.2
    by_cases hk : k = l
    · subst hk
      have hnone : (fs.filterMap fun f => (nonNull f.2).map (f.1, ·)).lookup k = none := by
        rw [List.lookup_eq_none_iff]
        intro g hg
        have hmem : g.1 ∈ fs.map (·.1) := (hkeys fs).subset (List.mem_map_of_mem hg)
        have hne : k ≠ g.1 := fun he => h.1 (he ▸ hmem)
        simpa using hne
      cases ho : nonNull o with
      | none => simp [ho, hnone]
      | some v => simp [ho]
    · have hb : (k == l) = false := by simpa using hk
      cases ho : nonNull o with
      | none => simpa [ho, List.lookup_cons, hb] using hrest
      | some v => simpa [ho, List.lookup_cons, hb] using hrest

end Json

end Allgres
