import Allgres.Accounts

/-! The last active admin. Removals of admins wait for one advisory lock and promotions do
not, so a removal may have passed its check before its user becomes the first admin. In
every other order of steps an active admin is left. -/

namespace Allgres

open ReadCommitted Rows Runs

abbrev AccountServer := Server Accounts AccountLoc AccountLock

def Accounts.HasAdmin (d : Accounts) : Prop :=
  ∃ u ∈ d.users, u.isActiveAdmin = true

instance (d : Accounts) : Decidable d.HasAdmin :=
  inferInstanceAs (Decidable (∃ u ∈ d.users, u.isActiveAdmin = true))

/-- The user that the next statement takes from the admins, its check being passed. -/
def AccountLoc.removes : AccountLoc → Option (Option Uuid)
  | updateActive id (some false) => some id
  | updateRole id (some .user) => some id
  | _ => none

/-- A transaction that makes the first active admin does not make it of the user that the
other is about to remove. -/
def SparesFirst (d : Accounts) (t u : Txn Accounts AccountLoc) : Prop :=
  ¬ d.HasAdmin → ∀ id, u.loc.removes = some id →
    ∀ a ∈ (t.write d).users, a.isActiveAdmin = true → some a.userId ≠ id

/-- Every user is kept, and keeps an admin role and an active account. -/
def Below (d d' : Accounts) : Prop :=
  ∀ u ∈ d.users, ∃ u' ∈ d'.users, u'.userId = u.userId ∧
    (u.role = .admin → u'.role = .admin) ∧ (u.isActive = true → u'.isActive = true)

section Below

variable {a b c : Accounts}

theorem Below.refl (a : Accounts) : Below a a :=
  fun u hu => ⟨u, hu, rfl, id, id⟩

theorem Below.trans (hab : Below a b) (hbc : Below b c) : Below a c := by
  intro u hu
  obtain ⟨v, hv, hvu, hr, ha⟩ := hab u hu
  obtain ⟨w, hw, hwv, hr', ha'⟩ := hbc v hv
  exact ⟨w, hw, hwv.trans hvu, fun h => hr' (hr h), fun h => ha' (ha h)⟩

theorem isActiveAdmin_iff {u : User} :
    u.isActiveAdmin = true ↔ u.role = .admin ∧ u.isActive = true := by
  simp [User.isActiveAdmin]

/-- An active admin is one above, too. -/
theorem Below.admin (h : Below a b) {u : User} (hu : u ∈ a.users) (ha : u.isActiveAdmin = true) :
    ∃ u' ∈ b.users, u'.userId = u.userId ∧ u'.isActiveAdmin = true := by
  obtain ⟨u', hu', hid, hr, hact⟩ := h u hu
  rw [isActiveAdmin_iff] at ha
  exact ⟨u', hu', hid, isActiveAdmin_iff.mpr ⟨hr ha.1, hact ha.2⟩⟩

theorem Below.hasAdmin (h : Below a b) (ha : a.HasAdmin) : b.HasAdmin := by
  obtain ⟨u, hu, hadm⟩ := ha
  obtain ⟨u', hu', -, hadm'⟩ := h.admin hu hadm
  exact ⟨u', hu', hadm'⟩

end Below

/-- What the writes of a transaction do to `users`, by the locks it has: other rows are left
alone, new ids are locked, and more admins before are more admins after. -/
structure Edit (H : AccountLock → Prop) (w : Accounts → Accounts) : Prop where
  keeps : ∀ d, ∀ u ∈ d.users, ¬ H (.user (some u.userId)) → u ∈ (w d).users
  only : ∀ d, ∀ u ∈ (w d).users, ¬ H (.user (some u.userId)) → u ∈ d.users
  inserts : ∃ new : List Uuid, (∀ d, (w d).ids = d.ids ++ new) ∧ ∀ x ∈ new, H (.user (some x))
  mono : ∀ a b, Below a b → Below (w a) (w b)

section Edits

variable {H H' : AccountLock → Prop} {v w : Accounts → Accounts} {id : Option Uuid}
  {f : User → User}

theorem edit_of_users (h : ∀ d, (w d).users = d.users) : Edit H w where
  keeps d u hu _ := by rwa [h]
  only d u hu _ := by rwa [h] at hu
  inserts := ⟨[], fun d => by simp [Accounts.ids, h], by simp⟩
  mono a b hab u hu := by
    rw [h] at hu ⊢
    exact hab u hu

theorem Edit.weaken (hH : ∀ k, H k → H' k) (hw : Edit H w) : Edit H' w := by
  obtain ⟨new, hnew, hlocked⟩ := hw.inserts
  exact ⟨fun d u hu hn => hw.keeps d u hu fun h => hn (hH _ h),
    fun d u hu hn => hw.only d u hu fun h => hn (hH _ h),
    ⟨new, hnew, fun x hx => hH _ (hlocked x hx)⟩, hw.mono⟩

theorem Edit.comp (hw : Edit H w) (hv : Edit H v) : Edit H fun d => w (v d) := by
  obtain ⟨new, hnew, hlocked⟩ := hv.inserts
  obtain ⟨more, hmore, hlocked'⟩ := hw.inserts
  refine ⟨fun d u hu hn => hw.keeps _ u (hv.keeps d u hu hn) hn,
    fun d u hu hn => hv.only d u (hw.only _ u hu hn) hn, ⟨new ++ more, fun d => ?_, fun x hx => ?_⟩,
    fun a b hab => hw.mono _ _ (hv.mono a b hab)⟩
  · rw [hmore, hnew, List.append_assoc]
  · rcases List.mem_append.mp hx with hx | hx
    · exact hlocked x hx
    · exact hlocked' x hx

theorem mem_updateUser {d : Accounts} {u : User} : u ∈ (d.updateUser id f).users ↔
    ∃ v ∈ d.users, (if some v.userId = id then f v else v) = u := by
  simp [Accounts.updateUser, mem_update]

theorem below_updateUser {a b : Accounts} (hab : Below a b) (hid : ∀ u, (f u).userId = u.userId)
    (hrole : ∀ u u', (u.role = .admin → u'.role = .admin) → (f u).role = .admin →
      (f u').role = .admin)
    (hact : ∀ u u', (u.isActive = true → u'.isActive = true) → (f u).isActive = true →
      (f u').isActive = true) : Below (a.updateUser id f) (b.updateUser id f) := by
  intro x hx
  obtain ⟨u, hu, rfl⟩ := mem_updateUser.mp hx
  obtain ⟨u', hu', hid', hr, ha⟩ := hab u hu
  refine ⟨_, mem_updateUser.mpr ⟨u', hu', rfl⟩, ?_⟩
  rw [hid']
  by_cases hk : some u.userId = id
  · rw [if_pos hk, if_pos hk, hid, hid]
    exact ⟨hid', hrole u u' hr, hact u u' ha⟩
  · rw [if_neg hk, if_neg hk]
    exact ⟨hid', hr, ha⟩

theorem edit_updateUser (hk : H (.user id)) (hid : ∀ u, (f u).userId = u.userId)
    (hm : ∀ a b, Below a b → Below (a.updateUser id f) (b.updateUser id f)) :
    Edit H (Accounts.updateUser id f) where
  keeps d u hu hn := by
    have hne : some u.userId ≠ id := fun h => hn (h ▸ hk)
    exact mem_updateUser.mpr ⟨u, hu, if_neg hne⟩
  only d x hx hn := by
    obtain ⟨u, hu, rfl⟩ := mem_updateUser.mp hx
    by_cases hne : some u.userId = id
    · rw [if_pos hne, hid, hne] at hn
      exact absurd hk hn
    · rwa [if_neg hne]
  inserts := by
    refine ⟨[], fun d => ?_, by simp⟩
    rw [List.append_nil]
    exact map_update hid _
  mono := hm

theorem edit_insertUser {row : User} (hk : H (.user (some row.userId))) :
    Edit H (Accounts.insertUser row) where
  keeps d u hu _ := List.mem_append_left _ hu
  only d u hu hn := by
    rcases List.mem_append.mp hu with hu | hu
    · exact hu
    · rw [List.mem_singleton.mp hu] at hn
      exact absurd hk hn
  inserts := ⟨[row.userId], fun d => by simp [Accounts.ids, Accounts.insertUser], by simpa using hk⟩
  mono a b hab u hu := by
    rcases List.mem_append.mp hu with hu | hu
    · obtain ⟨u', hu', h⟩ := hab u hu
      exact ⟨u', List.mem_append_left _ hu', h⟩
    · exact ⟨u, List.mem_append_right _ hu, rfl, id, id⟩

end Edits

/-- Where the advisory lock is held although nothing is checked yet. -/
def AccountLoc.checks : AccountLoc → Bool
  | checkActive _ => true
  | checkRole _ => true
  | _ => false

/-- What holds of a transaction between its statements. -/
structure Guarded (d : Accounts) (H : AccountLock → Prop) (t : Txn Accounts AccountLoc) : Prop where
  edit : Edit H t.write
  raises : ¬ H .lastActiveAdmin → ∀ a, Below a (t.write a)
  nodup : (t.write d).ids.Nodup
  safe : d.HasAdmin → (t.write d).HasAdmin
  checking : t.loc.checks = true → H .lastActiveAdmin
  removal : ∀ id, t.loc.removes = some id → H .lastActiveAdmin ∧
    (d.HasAdmin → ∃ a ∈ (t.write d).users, a.isActiveAdmin = true ∧ some a.userId ≠ id)

section Statements

variable {d : Accounts} {H : AccountLock → Prop} {t : Txn Accounts AccountLoc} {loc : AccountLoc}
  {w : Accounts → Accounts}

/-- The locks of a transaction once its statement has run. -/
def Locked (d : Accounts) (t : Txn Accounts AccountLoc) (H : AccountLock → Prop)
    (k : AccountLock) : Prop :=
  k ∈ t.loc.locks (t.write d) ∨ H k

/-- A statement that leads to no check and no removal. -/
theorem Guarded.next (h : Guarded d H t) (hw : Edit (Locked d t H) w)
    (hr : ¬ Locked d t H .lastActiveAdmin → ∀ a, Below a (w a))
    (hn : (w (t.write d)).ids.Nodup) (hs : d.HasAdmin → (w (t.write d)).HasAdmin)
    (hc : loc.checks = true → Locked d t H .lastActiveAdmin) (hrem : loc.removes = none) :
    Guarded d (Locked d t H) ⟨loc, fun d => w (t.write d)⟩ where
  edit := hw.comp (h.edit.weaken fun _ => .inr)
  raises hl a := (h.raises (fun hk => hl (.inr hk)) a).trans (hr hl _)
  nodup := hn
  safe := hs
  checking := hc
  removal id hid := by
    rw [hrem] at hid
    cases hid

/-- A statement that raises users only. -/
theorem Guarded.up (h : Guarded d H t) (hw : Edit (Locked d t H) w) (hr : ∀ a, Below a (w a))
    (hn : (w (t.write d)).ids.Nodup) (hc : loc.checks = false) (hrem : loc.removes = none) :
    Guarded d (Locked d t H) ⟨loc, fun d => w (t.write d)⟩ :=
  h.next hw (fun _ => hr) hn (fun ha => (hr _).hasAdmin (h.safe ha)) (fun hk => by simp [hc] at hk)
    hrem

theorem nodup_updateUser {id : Option Uuid} {f : User → User} (hid : ∀ u, (f u).userId = u.userId)
    (h : d.ids.Nodup) : (d.updateUser id f).ids.Nodup := by
  have hids : (d.updateUser id f).ids = d.ids := map_update hid _
  rwa [hids]

theorem below_of_raise {a : Accounts} {id : Option Uuid} {f : User → User}
    (hid : ∀ u, (f u).userId = u.userId)
    (hr : ∀ u, (u.role = .admin → (f u).role = .admin) ∧ (u.isActive = true → (f u).isActive = true)) :
    Below a (a.updateUser id f) := by
  intro u hu
  refine ⟨_, mem_updateUser.mpr ⟨u, hu, rfl⟩, ?_⟩
  by_cases hk : some u.userId = id
  · rw [if_pos hk]
    exact ⟨hid u, hr u⟩
  · rw [if_neg hk]
    exact ⟨rfl, fun h => h, fun h => h⟩

/-- The row of a user is raised. -/
theorem Guarded.raise (h : Guarded d H t) {id : Option Uuid} {f : User → User}
    (hk : Locked d t H (.user id)) (hid : ∀ u, (f u).userId = u.userId)
    (hm : ∀ a b, Below a b → Below (a.updateUser id f) (b.updateUser id f))
    (hr : ∀ u, (u.role = .admin → (f u).role = .admin) ∧ (u.isActive = true → (f u).isActive = true))
    (hc : loc.checks = false) (hrem : loc.removes = none) :
    Guarded d (Locked d t H) ⟨loc, fun d => (t.write d).updateUser id f⟩ :=
  h.up (edit_updateUser hk hid hm) (fun _ => below_of_raise hid hr) (nodup_updateUser hid h.nodup)
    hc hrem

/-- The row of a user whose removal is checked is lowered. -/
theorem Guarded.lower (h : Guarded d H t) {id : Option Uuid} {f : User → User}
    (hloc : t.loc.removes = some id) (hk : Locked d t H (.user id))
    (hid : ∀ u, (f u).userId = u.userId)
    (hm : ∀ a b, Below a b → Below (a.updateUser id f) (b.updateUser id f))
    (hc : loc.checks = false) (hrem : loc.removes = none) :
    Guarded d (Locked d t H) ⟨loc, fun d => (t.write d).updateUser id f⟩ := by
  obtain ⟨hlock, hother⟩ := h.removal id hloc
  refine h.next (edit_updateUser hk hid hm) (fun hl => absurd (.inr hlock) hl)
    (nodup_updateUser hid h.nodup) (fun ha => ?_) (fun hk => by simp [hc] at hk) hrem
  obtain ⟨a, ha, hadm, hne⟩ := hother ha
  exact ⟨a, mem_updateUser.mpr ⟨a, ha, if_neg hne⟩, hadm⟩

/-- A statement that writes nothing and removes nobody. -/
theorem Guarded.pass (h : Guarded d H t)
    (hc : loc.checks = true → Locked d t H .lastActiveAdmin) (hrem : loc.removes = none) :
    Guarded d (Locked d t H) ⟨loc, fun d => t.write d⟩ :=
  h.next (w := fun d => d) (edit_of_users fun _ => rfl) (fun _ => Below.refl) h.nodup h.safe hc hrem

/-- A removal that passes the count leaves another active admin. -/
theorem other_of_not_last {id : Option Uuid} (hn : d.ids.Nodup) (ha : d.HasAdmin)
    (h : AccountLoc.isLastAdmin d id = false) :
    ∃ a ∈ d.users, a.isActiveAdmin = true ∧ some a.userId ≠ id := by
  obtain ⟨a, hau, hadm⟩ := ha
  by_cases hid : some a.userId = id
  · have hany : d.users.any (fun u => some u.userId = id && u.isActiveAdmin) = true :=
      List.any_eq_true.mpr ⟨a, hau, by simp [hid, hadm]⟩
    rw [AccountLoc.isLastAdmin, hany, Bool.true_and, decide_eq_false_iff_not] at h
    have hnd : d.activeAdmins.Nodup :=
      (List.Nodup.of_map _ hn).sublist List.filter_sublist
    obtain ⟨b, hb, hne⟩ : ∃ b ∈ d.activeAdmins, b ≠ a := by
      by_contra hall
      have hsub : d.activeAdmins ⊆ [a] := fun b hb => by
        by_contra hba
        exact hall ⟨b, hb, fun h => hba (by simp [h])⟩
      have hlen := (List.subperm_of_subset hnd hsub).length_le
      rw [List.length_singleton] at hlen
      exact h hlen
    obtain ⟨hbu, hbadm⟩ := List.mem_filter.mp hb
    refine ⟨b, hbu, hbadm, fun hbid => hne ?_⟩
    rw [← hid] at hbid
    exact eq_of_key User.userId hn hbu hau (Option.some.inj hbid)
  · exact ⟨a, hau, hadm, hid⟩

/-- The check is passed. -/
theorem Guarded.checked (h : Guarded d H t) {id : Option Uuid} (hc : t.loc.checks = true)
    (hlast : AccountLoc.isLastAdmin (t.write d) id = false) (hrem : loc.removes = some id)
    (hloc : loc.checks = false) :
    Guarded d (Locked d t H) ⟨loc, fun d => t.write d⟩ where
  edit := h.edit.weaken fun _ => .inr
  raises hl := h.raises fun hk => hl (.inr hk)
  nodup := h.nodup
  safe := h.safe
  checking hk := by
    rw [hloc] at hk
    cases hk
  removal id' hid' := by
    have hid : id' = id := Option.some.inj (hid'.symm.trans hrem)
    subst hid
    exact ⟨.inr (h.checking hc), fun ha => other_of_not_last h.nodup (h.safe ha) hlast⟩

end Statements

section Outline

variable {d : Accounts} {H : AccountLock → Prop} {t : Txn Accounts AccountLoc}

theorem below_setActive {a b : Accounts} {id : Option Uuid} (v : Bool) (hab : Below a b) :
    Below (a.updateUser id fun u => { u with isActive := v })
      (b.updateUser id fun u => { u with isActive := v }) :=
  below_updateUser hab (fun _ => rfl) (fun _ _ h => h) fun _ _ _ h => h

theorem below_setRole {a b : Accounts} {id : Option Uuid} (r : Role) (hab : Below a b) :
    Below (a.updateUser id fun u => { u with role := r })
      (b.updateUser id fun u => { u with role := r }) :=
  below_updateUser hab (fun _ => rfl) (fun _ _ _ h => h) fun _ _ h => h

theorem newUser_eq {id : Uuid} {hash : String} {username password role : Option String} {row : User}
    (h : AccountLoc.newUser d id hash username password role = some row) :
    row.userId = id ∧ id ∉ d.ids := by
  unfold AccountLoc.newUser at h
  dsimp only at h
  split at h
  · cases h
  · split at h
    · cases h
    · split at h
      · cases h
      · rename_i hany
        cases h
        refine ⟨rfl, fun hid => hany ?_⟩
        obtain ⟨u, hu, huid⟩ := List.mem_map.mp hid
        exact List.any_eq_true.mpr ⟨u, hu, by simp [huid]⟩

theorem Guarded.exec (h : Guarded d H t) {loc : AccountLoc} {w : Accounts → Accounts}
    (he : t.loc.exec (t.write d) = some (loc, w)) :
    Guarded d (Locked d t H) ⟨loc, fun d => w (t.write d)⟩ := by
  obtain ⟨tloc, twrite⟩ := t
  cases tloc with
  | createUser id hash username password role =>
    obtain ⟨row, hrow, hpair⟩ := Option.map_eq_some_iff.mp he
    cases hpair
    obtain ⟨rfl, hnew⟩ := newUser_eq hrow
    refine h.up (edit_insertUser (.inl (by simp [AccountLoc.locks]))) (fun a u hu => ?_) ?_ rfl rfl
    · exact ⟨u, List.mem_append_left _ hu, rfl, fun h => h, fun h => h⟩
    · have hids : ((twrite d).insertUser row).ids = (twrite d).ids ++ [row.userId] := by
        simp [Accounts.ids, Accounts.insertUser]
      rw [hids]
      exact List.nodup_append.mpr ⟨h.nodup, by simp, fun x hx y hy => by
        rw [List.mem_singleton.mp hy]
        exact fun hxy => hnew (hxy ▸ hx)⟩
  | provisionUserRole id role =>
    dsimp only [AccountLoc.exec] at he
    split_ifs at he with hrow
    cases he
    refine h.raise (.inl (by simp [AccountLoc.locks, AccountLoc.rowLock, hrow])) (fun _ => rfl) (fun a b hab => ?_)
      (fun u => ⟨fun h => h, fun h => h⟩) rfl rfl
    exact below_updateUser hab (fun _ => rfl) (fun _ _ h => h) fun _ _ h => h
  | assignGeneral id role =>
    cases he
    have husers : ∀ d : Accounts, ((if role = .user then Accounts.assignGeneral id
        else fun d => d) d).users = d.users := fun d => by split <;> rfl
    refine h.up (edit_of_users husers) (fun a u hu => ?_) ?_ rfl rfl
    · exact ⟨u, by rwa [husers], rfl, fun h => h, fun h => h⟩
    · unfold Accounts.ids
      rw [husers]
      exact h.nodup
  | setUserActive id active =>
    cases he
    by_cases hf : active = some false
    · subst hf
      exact h.pass (fun _ => .inl (by simp [AccountLoc.locks])) rfl
    · rw [if_neg hf]
      refine h.pass (fun hk => by simp [AccountLoc.checks] at hk) ?_
      rcases active with - | (- | -)
      · rfl
      · exact absurd rfl hf
      · rfl
  | checkActive id =>
    dsimp only [AccountLoc.exec] at he
    split_ifs at he with hlast
    cases he
    exact h.checked rfl (by simpa using hlast) rfl rfl
  | updateActive id active =>
    dsimp only [AccountLoc.exec, AccountLoc.setColumn] at he
    split_ifs at he with hrow
    · obtain ⟨v, hv, hpair⟩ := Option.map_eq_some_iff.mp he
      subst hv
      cases hpair
      have hk : Locked d ⟨.updateActive id (some v), twrite⟩ H (.user id) :=
        .inl (by simp [AccountLoc.locks, AccountLoc.rowLock, hrow])
      cases v with
      | false => exact h.lower rfl hk (fun _ => rfl) (fun _ _ => below_setActive false) rfl rfl
      | true =>
        exact h.raise hk (fun _ => rfl) (fun _ _ => below_setActive true)
          (fun u => ⟨fun h => h, fun _ => rfl⟩) rfl rfl
    · cases he
      exact h.pass (fun hk => by simp [AccountLoc.checks] at hk) rfl
  | setUserRole id role =>
    dsimp only [AccountLoc.exec] at he
    cases role with
    | none =>
      cases he
      exact h.pass (fun hk => by simp [AccountLoc.checks] at hk) rfl
    | some text =>
      dsimp only at he
      split at he
      · cases he
      · rename_i htext
        cases he
        exact h.pass (fun _ => .inl (by simp [AccountLoc.locks, htext])) rfl
      · cases he
        exact h.pass (fun hk => by simp [AccountLoc.checks] at hk) rfl
  | checkRole id =>
    dsimp only [AccountLoc.exec] at he
    split_ifs at he with hlast
    cases he
    exact h.checked rfl (by simpa using hlast) rfl rfl
  | updateRole id role =>
    dsimp only [AccountLoc.exec, AccountLoc.setColumn] at he
    split_ifs at he with hrow
    · obtain ⟨r, hv, hpair⟩ := Option.map_eq_some_iff.mp he
      subst hv
      cases hpair
      have hk : Locked d ⟨.updateRole id (some r), twrite⟩ H (.user id) :=
        .inl (by simp [AccountLoc.locks, AccountLoc.rowLock, hrow])
      cases r with
      | user => exact h.lower rfl hk (fun _ => rfl) (fun _ _ => below_setRole .user) rfl rfl
      | admin =>
        exact h.raise hk (fun _ => rfl) (fun _ _ => below_setRole .admin)
          (fun u => ⟨fun _ => rfl, fun h => h⟩) rfl rfl
    · cases he
      exact h.pass (fun hk => by simp [AccountLoc.checks] at hk) rfl
  | done => cases he

section Apart

variable {I : AccountLock → Prop} {u : Txn Accounts AccountLoc}

theorem Guarded.nodup_apart (ht : Guarded d H t) (hu : Guarded d I u) (hd : ∀ k, H k → ¬ I k) :
    (u.write (t.write d)).ids.Nodup := by
  obtain ⟨new, hnew, hlocked⟩ := ht.edit.inserts
  obtain ⟨more, hmore, hlocked'⟩ := hu.edit.inserts
  have hn := ht.nodup
  have hm := hu.nodup
  rw [hnew, List.nodup_append] at hn
  rw [hmore, List.nodup_append] at hm
  rw [hmore, hnew, List.nodup_append, List.nodup_append]
  refine ⟨hn, hm.2.1, fun x hx y hy => ?_⟩
  rcases List.mem_append.mp hx with hx | hx
  · exact hm.2.2 x hx y hy
  · rintro rfl
    exact hd _ (hlocked x hx) (hlocked' x hy)

/-- Among active admins, a commit of another transaction leaves those that a transaction
has not removed. -/
theorem Guarded.below_apart (ht : Guarded d H t) (hu : Guarded d I u) (hd : ∀ k, H k → ¬ I k)
    (hl : I .lastActiveAdmin) : Below (u.write d) (u.write (t.write d)) :=
  hu.edit.mono _ _ (ht.raises (fun h => hd _ h hl) d)

/-- An admin that a commit makes is not touched by the others. -/
theorem Guarded.fresh_apart (ht : Guarded d H t) (hu : Guarded d I u) (hd : ∀ k, H k → ¬ I k)
    (hno : ¬ d.HasAdmin) {a : User} (ha : a ∈ (t.write d).users) (hadm : a.isActiveAdmin = true) :
    a ∈ (u.write (t.write d)).users := by
  have hlock : H (.user (some a.userId)) := by
    by_contra hk
    exact hno ⟨a, ht.edit.only d a ha hk, hadm⟩
  exact hu.edit.keeps _ a ha (hd _ hlock)

theorem Guarded.apart (ht : Guarded d H t) (hu : Guarded d I u) (hd : ∀ k, H k → ¬ I k)
    (hfirst : SparesFirst d t u) : Guarded (t.write d) I u := by
  refine ⟨hu.edit, hu.raises, ht.nodup_apart hu hd, fun ha => ?_, hu.checking, fun id hid => ?_⟩
  · by_cases hold : d.HasAdmin
    · by_cases hl : I .lastActiveAdmin
      · exact (ht.below_apart hu hd hl).hasAdmin (hu.safe hold)
      · exact (hu.raises hl _).hasAdmin ha
    · obtain ⟨a, ha, hadm⟩ := ha
      exact ⟨a, ht.fresh_apart hu hd hold ha hadm, hadm⟩
  · obtain ⟨hl, hother⟩ := hu.removal id hid
    refine ⟨hl, fun ha => ?_⟩
    by_cases hold : d.HasAdmin
    · obtain ⟨a, ha, hadm, hne⟩ := hother hold
      obtain ⟨a', ha', haid, hadm'⟩ := (ht.below_apart hu hd hl).admin ha hadm
      exact ⟨a', ha', hadm', by rwa [haid]⟩
    · obtain ⟨a, ha, hadm⟩ := ha
      exact ⟨a, ht.fresh_apart hu hd hold ha hadm, hadm, hfirst hold id hid a ha hadm⟩

end Apart

theorem entry_quiet {loc : AccountLoc} (h : loc.entry = true) :
    loc.checks = false ∧ loc.removes = none := by
  cases loc <;> first | exact ⟨rfl, rfl⟩ | cases h

theorem accounts_outline :
    Outline accountCode SparesFirst (fun d => d.ids.Nodup) Guarded where
  fresh hd _ hloc := by
    obtain ⟨hc, hrem⟩ := entry_quiet hloc
    exact ⟨edit_of_users fun _ => rfl, fun _ => Below.refl, hd, fun h => h,
      fun hk => by simp [hc] at hk, fun id hid => by simp [hrem] at hid⟩
  again _ ht _ hloc := by
    obtain ⟨hc, hrem⟩ := entry_quiet hloc
    exact ⟨ht.edit, ht.raises, ht.nodup, ht.safe, fun hk => by simp [hc] at hk,
      fun id hid => by simp [hrem] at hid⟩
  exec _ ht _ he := ht.exec he
  commit _ ht _ := ht.nodup
  apart hq _ ht hu _ hd := ht.apart hu hd hq

end Outline

/-- A commit leaves an active admin. -/
theorem hasAdmin_step {s : AccountServer} {e : Event AccountLoc}
    (h : Ok (fun d : Accounts => d.ids.Nodup) Guarded s) (ha : s.db.HasAdmin) :
    (step accountCode s e).db.HasAdmin := by
  cases e with
  | call i loc =>
    dsimp only [step]
    split <;> exact ha
  | exec i =>
    dsimp only [step]
    split
    · exact ha
    · split
      · split <;> exact ha
      · exact ha
  | commit i =>
    dsimp only [step]
    split
    · exact ha
    · rename_i t ht
      split
      · exact (h.txns i t ht).safe ha
      · exact ha
  | abort i => exact ha

/-- In every interleaving in which no user becomes the first active admin while its own
removal is past the check, an active admin is left once there is one. -/
theorem active_admin_survives (d : Accounts) (es fs : List (Event AccountLoc))
    (hd : d.ids.Nodup) (hc : Along (step accountCode) (Spares accountCode SparesFirst) { db := d } (es ++ fs))
    (ha : (run (step accountCode) { db := d } es).db.HasAdmin) :
    (run (step accountCode) { db := d } (es ++ fs)).db.HasAdmin := by
  obtain ⟨hes, hfs⟩ := along_append.mp hc
  rw [run_append]
  have hok : Ok (fun d : Accounts => d.ids.Nodup) Guarded (run (step accountCode) { db := d } es) :=
    accounts_outline.run hd hes
  have hboth : ∀ s e, Ok (fun d : Accounts => d.ids.Nodup) Guarded s ∧ s.db.HasAdmin →
      Spares accountCode SparesFirst s e → Ok (fun d : Accounts => d.ids.Nodup) Guarded (step accountCode s e) ∧
        (step accountCode s e).db.HasAdmin :=
    fun s e h he => ⟨accounts_outline.step h.1 he, hasAdmin_step h.1 h.2⟩
  exact (invariant hboth ⟨hok, ha⟩ hfs).2

/-- Two admins, each removed by a transaction of its own. -/
def twoAdmins : Accounts where
  users := [{ userId := 1, username := "a", role := .admin },
    { userId := 2, username := "b", role := .admin }]

def bothRemoved : List (Event AccountLoc) :=
  [.call 0 (.setUserActive (some 1) (some false)), .exec 0,
    .call 1 (.setUserRole (some 2) (some "user")), .exec 1, .exec 0, .exec 0, .commit 0,
    .exec 1, .exec 1, .exec 1, .commit 1]

theorem second_removal_refused :
    (run (step accountCode) { db := twoAdmins } bothRemoved).db.HasAdmin ∧
      (run (step accountCode) { db := twoAdmins } bothRemoved).db.activeAdmins.map (·.userId) = [2] := by
  have hadmin : Along (step accountCode) (fun s _ => s.db.HasAdmin) { db := twoAdmins } bothRemoved := by
    decide +kernel
  have hspares : Along (step accountCode) (Spares accountCode SparesFirst) { db := twoAdmins }
      ([] ++ bothRemoved) := by
    refine hadmin.mono fun s e ha => ?_
    cases e with
    | commit i => exact fun _ _ _ _ _ _ _ hno => absurd ha hno
    | _ => trivial
  exact ⟨active_admin_survives twoAdmins [] bothRemoved (by decide) hspares (by decide), by
    decide +kernel⟩

/-- An account without an admin, whose user is promoted while it is deactivated. -/
def oneUser : Accounts where
  users := [{ userId := 1, username := "a", role := .user }]

def promoted : List (Event AccountLoc) :=
  [.call 0 (.setUserActive (some 1) (some false)), .exec 0, .exec 0,
    .call 1 (.setUserRole (some 1) (some "admin")), .exec 1, .exec 1, .commit 1]

/-- The check was passed before the user became the last active admin. -/
theorem promoted_admin_removed :
    ¬ ∀ (d : Accounts) (es fs : List (Event AccountLoc)), d.ids.Nodup →
      (run (step accountCode) { db := d } es).db.HasAdmin →
        (run (step accountCode) { db := d } (es ++ fs)).db.HasAdmin := by
  intro h
  have hrun := h oneUser promoted [.exec 0, .commit 0] (by decide) (by decide +kernel)
  exact absurd hrun (by decide +kernel)

end Allgres
