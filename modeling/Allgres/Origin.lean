import Allgres.Url
import Mathlib.Data.List.DropRight

/-! The origin of a URL: its scheme and its authority, which is host and port. A URL
that begins with an accepted base and a slash has the origin of the base. -/

namespace Allgres

/-- Some use of the URL passed the check. -/
def Accepted (url : String) : Prop :=
  ∃ allowPrivate, checkOutboundUrl (some url) allowPrivate = none

/-- Scheme, host and port agree. -/
def SameOrigin (a b : String) : Prop :=
  urlScheme a = urlScheme b ∧ urlAuthority a = urlAuthority b ∧
    (urlAuthority a).map authorityHost = (urlAuthority b).map authorityHost ∧
    (urlAuthority a).map authorityPort = (urlAuthority b).map authorityPort

theorem sameOrigin_of_authority {a b : String} (hs : urlScheme a = urlScheme b)
    (ha : urlAuthority a = urlAuthority b) : SameOrigin a b :=
  ⟨hs, ha, by rw [ha], by rw [ha]⟩

section Split

variable {p : Char → Bool}

theorem splitScheme_eq_some {url s r : List Char} :
    splitScheme url = some (s, r) ↔ url = s ++ ':' :: '/' :: '/' :: r ∧
      (∀ c ∈ s, isSchemeChar c = true) ∧ s.head?.any Char.isAlpha = true := by
  constructor
  · intro h
    unfold splitScheme at h
    dsimp only at h
    split at h
    · rename_i hhead
      split at h
      · rename_i rest hrest
        obtain ⟨rfl, rfl⟩ := by simpa using h
        refine ⟨?_, fun c hc => List.mem_takeWhile_imp hc, hhead⟩
        rw [← hrest]
        exact (List.takeWhile_append_dropWhile).symm
      · cases h
    · cases h
  · rintro ⟨rfl, hs, hhead⟩
    have hstop : (':' :: '/' :: '/' :: r).head?.all (fun c => !isSchemeChar c) = true := rfl
    unfold splitScheme
    dsimp only
    rw [takeWhile_stop hs hstop, dropWhile_stop hs hstop, if_pos hhead]
    rfl

/-- What is trimmed from the right behind a text that does not end in it. -/
theorem rtrimChars_append {a t : List Char} (ha : ∀ h : a ≠ [], p (a.getLast h) = false) :
    ∃ t', rtrimChars p (a ++ t) = a ++ t' ∧ t' <+: t := by
  induction t using List.reverseRecOn with
  | nil =>
    refine ⟨[], ?_, List.prefix_rfl⟩
    rw [List.append_nil]
    exact List.rdropWhile_eq_self_iff.mpr fun h => by simp [ha h]
  | append_singleton t x ih =>
    rw [← List.append_assoc]
    by_cases hx : p x = true
    · obtain ⟨t', ht', hpre⟩ := ih
      refine ⟨t', ?_, hpre.trans (List.prefix_append t [x])⟩
      rw [← ht']
      exact List.rdropWhile_concat_pos p (a ++ t) x hx
    · refine ⟨t ++ [x], ?_, List.prefix_rfl⟩
      rw [← List.append_assoc]
      exact List.rdropWhile_concat_neg p (a ++ t) x hx

end Split

section Base

variable {base url : String}

/-- An accepted URL has a scheme and an authority that is not empty. -/
theorem authority_of_accepted (h : Accepted base) :
    ∃ s r, splitScheme base.toList = some (s, r) ∧ r.takeWhile isAuthorityChar ≠ [] := by
  obtain ⟨allow, h⟩ := h
  unfold checkOutboundUrl at h
  dsimp only at h
  split_ifs at h with h1 h2
  split at h
  · cases h
  · split_ifs at h
    split at h
    · cases h
    · rename_i host hhost
      unfold urlHost urlAuthority at hhost
      simp only [Option.bind_eq_bind, Option.bind_some, h2, Bool.false_eq_true, if_false] at hhost
      cases hsplit : splitScheme base.toList with
      | none => simp [hsplit] at hhost
      | some sr =>
        obtain ⟨s, r⟩ := sr
        refine ⟨s, r, rfl, fun hnil => ?_⟩
        simp [hsplit, hnil] at hhost

/-- The base itself, or anything behind its slash. -/
theorem sameOrigin_of_startsWith (hb : Accepted base)
    (hu : startsWith url (rtrim base '/' ++ "/") = true) : SameOrigin url base := by
  obtain ⟨s, r, hsplit, hne⟩ := authority_of_accepted hb
  obtain ⟨hbase, hs, hhead⟩ := splitScheme_eq_some.mp hsplit
  let auth := r.takeWhile isAuthorityChar
  let tail := r.dropWhile isAuthorityChar
  have hr : r = auth ++ tail := (List.takeWhile_append_dropWhile).symm
  have hauth : ∀ c ∈ auth, isAuthorityChar c = true := fun c hc => List.mem_takeWhile_imp hc
  have hfront : base.toList = (s ++ ':' :: '/' :: '/' :: auth) ++ tail := by
    rw [hbase, hr]
    simp [auth, tail]
  have hlast : ∀ h : s ++ ':' :: '/' :: '/' :: auth ≠ [],
      ((s ++ ':' :: '/' :: '/' :: auth).getLast h == '/') = false := by
    intro h
    have hmem : (s ++ ':' :: '/' :: '/' :: auth).getLast h = auth.getLast hne := by
      rw [List.getLast_append_of_ne_nil _ (by simp), List.getLast_cons (by simp),
        List.getLast_cons (by simp), List.getLast_cons hne]
    rw [hmem]
    have hc := hauth _ (List.getLast_mem hne)
    simp only [isAuthorityChar, Bool.and_eq_true, bne_iff_ne] at hc
    simpa using hc.1.1
  obtain ⟨t, ht, hpre⟩ := rtrimChars_append (p := (· == '/')) (t := tail) hlast
  have hrtrim : (rtrim base '/').toList = (s ++ ':' :: '/' :: '/' :: auth) ++ t := by
    rw [rtrim, String.toList_ofList, hfront, ht]
  have hprefix : (rtrim base '/' ++ "/").toList <+: url.toList := by
    simpa [startsWith] using hu
  obtain ⟨rest, hrest⟩ := hprefix
  have hurl : url.toList = s ++ ':' :: '/' :: '/' :: (auth ++ (t ++ '/' :: rest)) := by
    rw [← hrest, String.toList_append, hrtrim]
    simp
  have hstop : (t ++ '/' :: rest).head?.all (fun c => !isAuthorityChar c) = true := by
    cases t with
    | nil => rfl
    | cons x t =>
      obtain ⟨more, hmore⟩ := hpre
      have hh := head_dropWhile isAuthorityChar r
      rw [show r.dropWhile isAuthorityChar = tail from rfl, ← hmore] at hh
      simpa using hh
  have hsplit' : splitScheme url.toList = some (s, auth ++ (t ++ '/' :: rest)) :=
    splitScheme_eq_some.mpr ⟨hurl, hs, hhead⟩
  apply sameOrigin_of_authority
  · unfold urlScheme
    rw [hsplit, hsplit']
    rfl
  · unfold urlAuthority
    rw [hsplit, hsplit', Option.map_some, Option.map_some]
    exact congrArg some (takeWhile_stop hauth hstop)

end Base

end Allgres
