import Allgres.JsonText

/-! The grammar that `serde_json` and the `::jsonb` cast share, and what the cast refuses of it: the
escape of the character zero, and numbers beyond the limits of `numeric`. -/

namespace Allgres

namespace Json

/-- What a text says that not every reader takes: a number, and the escape `\u0000`. -/
inductive Leaf where
  | number (int frac : List Char) (exp : Int)
  | nul
  deriving DecidableEq

/-- What the `::jsonb` cast takes of it. -/
def Leaf.fits : Leaf → Bool
  | number int frac exp => numericFits (digitsToNat (int ++ frac)) (frac.length - exp) exp
  | nul => false

def unsignedLeaf (cs : List Char) : Option (Leaf × List Char) :=
  let int := cs.takeWhile Char.isDigit
  if int = [] ∨ (int.head? = some '0' ∧ int.length > 1) then none
  else (readFraction (cs.dropWhile Char.isDigit)).bind fun f =>
    (readExponent f.2).map fun e => (.number int f.1 e.1, e.2)

def numberLeaf (cs : List Char) : Option (Leaf × List Char) :=
  match cs with
  | '-' :: r => unsignedLeaf r
  | r => unsignedLeaf r

def unicodeLeaves (cs : List Char) : Option (List Leaf × List Char) := do
  let (u, cs) ← hex4 cs
  if u = 0 then some ([.nul], cs)
  else if 0xD800 ≤ u ∧ u < 0xDC00 then
    match cs with
    | '\\' :: 'u' :: rest => do
      let (v, rest) ← hex4 rest
      if 0xDC00 ≤ v ∧ v < 0xE000 then pure ([], rest) else none
    | _ => none
  else if 0xDC00 ≤ u ∧ u < 0xE000 then none
  else pure ([], cs)

def escapeLeaves (cs : List Char) : Option (List Leaf × List Char) :=
  match cs with
  | '"' :: rest => some ([], rest)
  | '\\' :: rest => some ([], rest)
  | '/' :: rest => some ([], rest)
  | 'b' :: rest => some ([], rest)
  | 'f' :: rest => some ([], rest)
  | 'n' :: rest => some ([], rest)
  | 'r' :: rest => some ([], rest)
  | 't' :: rest => some ([], rest)
  | 'u' :: rest => unicodeLeaves rest
  | _ => none

def stringLeaves : Nat → List Char → Option (List Leaf × List Char)
  | 0, _ => none
  | _ + 1, [] => none
  | n + 1, c :: cs =>
    if c = '"' then some ([], cs)
    else if c = '\\' then
      (escapeLeaves cs).bind fun r => (stringLeaves n r.2).map fun s => (r.1 ++ s.1, s.2)
    else if c.toNat < 32 then none
    else stringLeaves n cs

def wordLeaves (cs : List Char) : Option (List Leaf × List Char) :=
  (readWord cs).map fun r => ([], r.2)

mutual

/-- One value of the grammar, with its leaves. The first argument bounds the number of calls. -/
def valueLeaves : Nat → List Char → Option (List Leaf × List Char)
  | 0, _ => none
  | n + 1, cs => match skipBlanks cs with
    | [] => none
    | '"' :: rest => stringLeaves (n + 1) rest
    | '[' :: rest => match skipBlanks rest with
      | ']' :: rest => some ([], rest)
      | rest => itemLeaves n rest
    | '{' :: rest => match skipBlanks rest with
      | '}' :: rest => some ([], rest)
      | rest => fieldLeaves n rest
    | c :: rest =>
      if c.isDigit ∨ c = '-' then (numberLeaf (c :: rest)).map fun r => ([r.1], r.2)
      else wordLeaves (c :: rest)

def itemLeaves : Nat → List Char → Option (List Leaf × List Char)
  | 0, _ => none
  | n + 1, cs => (valueLeaves n cs).bind fun r =>
    (match skipBlanks r.2 with
      | ',' :: rest => itemLeaves n rest
      | ']' :: rest => some ([], rest)
      | _ => none).map fun s : List Leaf × List Char => (r.1 ++ s.1, s.2)

def fieldLeaves : Nat → List Char → Option (List Leaf × List Char)
  | 0, _ => none
  | n + 1, cs => match skipBlanks cs with
    | '"' :: rest => (stringLeaves (n + 1) rest).bind fun k =>
      (match skipBlanks k.2 with
        | ':' :: rest => (valueLeaves n rest).bind fun r =>
          (match skipBlanks r.2 with
            | ',' :: rest => fieldLeaves n rest
            | '}' :: rest => some ([], rest)
            | _ => none).map fun s : List Leaf × List Char => (r.1 ++ s.1, s.2)
        | _ => none).map fun s : List Leaf × List Char => (k.1 ++ s.1, s.2)
    | _ => none

end

/-- The leaves of a JSON text, if it is one. -/
def leaves (s : String) : Option (List Leaf) :=
  let cs := s.toList
  match valueLeaves (cs.length + 1) cs with
  | some (ls, rest) => if skipBlanks rest = [] then some ls else none
  | none => none

/-- A reader that goes as far as the grammar does, unless a leaf does not fit. -/
def Follows {α : Type} (read : Option (α × List Char)) (ls : Option (List Leaf × List Char)) : Prop :=
  read.map (·.2) = ls.bind fun r => if r.1.all Leaf.fits then some r.2 else none

section Follows

variable {α β : Type}

theorem Follows.map {read : Option (α × List Char)} {ls : Option (List Leaf × List Char)} (h : Follows read ls)
    (f : α → β) : Follows (read.map fun r => (f r.1, r.2)) ls := by
  unfold Follows at h ⊢
  rw [← h, Option.map_map]
  rfl

/-- What follows a part that the reader has taken. -/
theorem Follows.bind {read : Option (α × List Char)} {ls : Option (List Leaf × List Char)} (h : Follows read ls)
    {next : α × List Char → Option (β × List Char)} (lnext : List Char → Option (List Leaf × List Char))
    (hnext : ∀ a cs, Follows (next (a, cs)) (lnext cs)) :
    Follows (read.bind next) (ls.bind fun r => (lnext r.2).map fun s => (r.1 ++ s.1, s.2)) := by
  unfold Follows at h
  cases ls with
  | none =>
    have hnone : read = none := by simpa using h
    rw [hnone]
    rfl
  | some r =>
    rw [Option.bind_some] at h
    by_cases hfits : r.1.all Leaf.fits = true
    · rw [if_pos hfits] at h
      obtain ⟨⟨a, cs⟩, rfl, hcs⟩ := Option.map_eq_some_iff.mp h
      have htail := hnext a cs
      unfold Follows at htail ⊢
      dsimp only at hcs
      rw [Option.bind_some, Option.bind_some, htail, ← hcs]
      cases lnext cs with
      | none => rfl
      | some s => simp only [Option.bind_some, Option.map_some, List.all_append, hfits, Bool.true_and]
    · rw [if_neg hfits, Option.map_eq_none_iff] at h
      rw [h]
      unfold Follows
      rw [Option.bind_some]
      cases lnext r.2 with
      | none => rfl
      | some s =>
        rw [Option.map_some, Option.bind_some, if_neg]
        · rfl
        · rw [List.all_append, Bool.and_eq_true]
          exact fun hall => hfits hall.1

end Follows

theorem digits_follow (negative : Bool) (int : List Char) (f : Option (List Char × List Char)) :
    Follows
      (f.bind fun f => (readExponent f.2).bind fun e =>
        (numericText negative int f.1 e.1).bind fun text => some (num text, e.2))
      ((f.bind fun f => (readExponent f.2).map fun e => (Leaf.number int f.1 e.1, e.2)).map
        fun r => ([r.1], r.2)) := by
  cases f with
  | none => rfl
  | some f =>
    rw [Option.bind_some, Option.bind_some]
    cases readExponent f.2 with
    | none => rfl
    | some e =>
      rw [Option.bind_some, Option.map_some, Option.map_some]
      unfold Follows numericText
      by_cases hfits : numericFits (digitsToNat (int ++ f.1)) (f.1.length - e.1) e.1 = true
      · simp [hfits, Leaf.fits]
      · simp [hfits, Leaf.fits]

theorem readNumber_follows (cs : List Char) :
    Follows (readNumber cs) ((numberLeaf cs).map fun r => ([r.1], r.2)) := by
  unfold readNumber
  split
  next negative rest heq =>
    have hleaf : numberLeaf cs = unsignedLeaf rest := by
      split at heq
      · cases heq
        rfl
      · next hother =>
        cases heq
        unfold numberLeaf
        split
        · exact absurd rfl (hother _)
        · rfl
    rw [hleaf]
    unfold unsignedLeaf
    dsimp only
    split
    · rfl
    · exact digits_follow negative _ _

theorem readUnicode_follows (cs : List Char) : Follows (readUnicode cs) (unicodeLeaves cs) := by
  unfold readUnicode unicodeLeaves
  cases hu : hex4 cs with
  | none => rfl
  | some u =>
    obtain ⟨u, cs⟩ := u
    simp only [Option.bind_eq_bind, Option.bind_some]
    by_cases hzero : u = 0
    · rw [if_pos hzero, if_pos hzero]
      rfl
    · rw [if_neg hzero, if_neg hzero]
      by_cases hhigh : 0xD800 ≤ u ∧ u < 0xDC00
      · rw [if_pos hhigh, if_pos hhigh]
        split
        · next rest =>
          show Follows ((hex4 rest).bind _) ((hex4 rest).bind _)
          cases hex4 rest with
          | none => rfl
          | some v =>
            simp only [Option.bind_some]
            split <;> rfl
        · next hother => grind [Follows]
      · rw [if_neg hhigh, if_neg hhigh]
        split <;> rfl

theorem readEscape_follows (cs : List Char) : Follows (readEscape cs) (escapeLeaves cs) := by
  unfold readEscape escapeLeaves
  split <;> first | exact readUnicode_follows _ | grind [Follows]

theorem readString_follows (n : Nat) (acc cs : List Char) :
    Follows (readString n acc cs) (stringLeaves n cs) := by
  induction n generalizing acc cs with
  | zero => rfl
  | succ n ih =>
    cases cs with
    | nil => rfl
    | cons c cs =>
      rw [readString, stringLeaves]
      by_cases hquote : c = '"'
      · rw [if_pos hquote, if_pos hquote]
        rfl
      · rw [if_neg hquote, if_neg hquote]
        by_cases hescape : c = '\\'
        · rw [if_pos hescape, if_pos hescape]
          exact (readEscape_follows cs).bind (stringLeaves n) fun a rest => ih (a :: acc) rest
        · rw [if_neg hescape, if_neg hescape]
          by_cases hcontrol : c.toNat < 32
          · rw [if_pos hcontrol, if_pos hcontrol]
            rfl
          · rw [if_neg hcontrol, if_neg hcontrol]
            exact ih (c :: acc) cs

theorem readWord_follows (cs : List Char) : Follows (readWord cs) (wordLeaves cs) := by
  unfold wordLeaves
  cases readWord cs <;> rfl

theorem valueLeaves_other {n : Nat} {cs rest : List Char} {c : Char} (h : skipBlanks cs = c :: rest)
    (hquote : c ≠ '"') (hbracket : c ≠ '[') (hbrace : c ≠ '\x7b') :
    valueLeaves (n + 1) cs =
      if c.isDigit ∨ c = '-' then (numberLeaf (c :: rest)).map fun r => ([r.1], r.2)
      else wordLeaves (c :: rest) := by
  rw [valueLeaves, h]
  split
  · next heq => cases heq
  · next heq => exact absurd (List.cons.inj heq).1 hquote
  · next heq => exact absurd (List.cons.inj heq).1 hbracket
  · next heq => exact absurd (List.cons.inj heq).1 hbrace
  · next heq =>
    cases heq
    rfl

theorem read_follows (n : Nat) :
    (∀ cs, Follows (readValue n cs) (valueLeaves n cs)) ∧ (∀ cs, Follows (readItems n cs) (itemLeaves n cs)) ∧
      ∀ cs, Follows (readFields n cs) (fieldLeaves n cs) := by
  induction n with
  | zero => exact ⟨fun _ => rfl, fun _ => rfl, fun _ => rfl⟩
  | succ n ih =>
    obtain ⟨hvalue, hitems, hfields⟩ := ih
    refine ⟨fun cs => ?_, fun cs => ?_, fun cs => ?_⟩
    · rw [readValue]
      split
      · next heq =>
        rw [valueLeaves, heq]
        rfl
      · next rest heq =>
        rw [valueLeaves, heq]
        exact (readString_follows (n + 1) [] rest).map str
      · next rest heq =>
        rw [valueLeaves, heq]
        show Follows _ (match skipBlanks rest with
          | ']' :: rest => some ([], rest)
          | rest => itemLeaves n rest)
        generalize skipBlanks rest = us
        split
        · rfl
        · next hother =>
          have hread := (hitems us).map arr
          grind
      · next rest heq =>
        rw [valueLeaves, heq]
        show Follows _ (match skipBlanks rest with
          | '\x7d' :: rest => some ([], rest)
          | rest => fieldLeaves n rest)
        generalize skipBlanks rest = us
        split
        · rfl
        · next hother =>
          have hread := (hfields us).map object
          grind
      · next c rest hquote hbracket hbrace heq =>
        rw [valueLeaves_other heq hquote hbracket hbrace]
        split
        · exact readNumber_follows _
        · exact readWord_follows _
    · rw [readItems, itemLeaves]
      refine (hvalue cs).bind (fun cs => match skipBlanks cs with
        | ',' :: rest => itemLeaves n rest
        | ']' :: rest => some ([], rest)
        | _ => none) fun a rest => ?_
      dsimp only
      generalize skipBlanks rest = us
      split
      · exact (hitems _).map (a :: ·)
      · rfl
      · next hcomma hclose => grind [Follows]
    · rw [readFields, fieldLeaves]
      generalize skipBlanks cs = ts
      split
      · next rest =>
        refine (readString_follows (n + 1) [] rest).bind (fun cs => match skipBlanks cs with
          | ':' :: rest => (valueLeaves n rest).bind fun r =>
            (match skipBlanks r.2 with
              | ',' :: rest => fieldLeaves n rest
              | '}' :: rest => some ([], rest)
              | _ => none).map fun s : List Leaf × List Char => (r.1 ++ s.1, s.2)
          | _ => none) fun k ts => ?_
        dsimp only
        generalize skipBlanks ts = us
        split
        · next us =>
          refine (hvalue us).bind (fun cs => match skipBlanks cs with
            | ',' :: rest => fieldLeaves n rest
            | '}' :: rest => some ([], rest)
            | _ => none) fun v vs => ?_
          dsimp only
          generalize skipBlanks vs = ws
          split
          · exact (hfields _).map ((k, v) :: ·)
          · rfl
          · next hcomma hclose => grind [Follows]
        · next hcolon => grind [Follows]
      · next hquote => grind [Follows]

/-- The cast takes a JSON text exactly if all of its leaves fit. -/
theorem parse_isSome_iff (s : String) :
    (parse s).isSome = true ↔ ∃ ls, leaves s = some ls ∧ ls.all Leaf.fits = true := by
  have hread := (read_follows (s.toList.length + 1)).1 s.toList
  unfold Follows at hread
  unfold parse leaves
  dsimp only
  cases hl : valueLeaves (s.toList.length + 1) s.toList with
  | none =>
    rw [hl] at hread
    have hnone : readValue (s.toList.length + 1) s.toList = none := by simpa using hread
    simp [hnone]
  | some r =>
    obtain ⟨ls, rest⟩ := r
    rw [hl, Option.bind_some] at hread
    by_cases hfits : ls.all Leaf.fits = true
    · rw [if_pos hfits] at hread
      obtain ⟨⟨v, rest'⟩, hv, hrest⟩ := Option.map_eq_some_iff.mp hread
      dsimp only at hrest
      rw [hv, hrest]
      by_cases hend : skipBlanks rest = []
      · simp only [if_pos hend]
        exact ⟨fun _ => ⟨ls, rfl, hfits⟩, fun _ => rfl⟩
      · simp [hend]
    · rw [if_neg hfits, Option.map_eq_none_iff] at hread
      rw [hread]
      constructor
      · intro h
        cases h
      · rintro ⟨ls', hls, hall⟩
        dsimp only at hls
        split at hls
        · cases hls
          exact absurd hall hfits
        · cases hls

end Json

end Allgres
