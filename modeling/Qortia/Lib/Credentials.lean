-- Credentials that are stored as hashes. Each is issued once, under an id and to an owner, and it
-- is revoked by its id. The store has no secret, and it still says whose credential is presented.
import Mathlib.Data.List.Nodup
import Mathlib.Logic.Function.Basic

namespace credentials

variable {Id Owner Secret Hash : Type}

/-! ## What happened -/

structure Credential (Id Owner Secret : Type) where
  id : Id
  owner : Owner
  secret : Secret

structure Ledger (Id Owner Secret : Type) where
  issued : List (Credential Id Owner Secret) := []
  revoked : List Id := []

def Ledger.issue (l : Ledger Id Owner Secret) (c : Credential Id Owner Secret) :
    Ledger Id Owner Secret :=
  { l with issued := l.issued ++ [c] }

/-- An id that was not issued is not revoked. -/
def Ledger.revoke [DecidableEq Id] (l : Ledger Id Owner Secret) (id : Id) :
    Ledger Id Owner Secret :=
  if id ∈ l.issued.map (·.id) then { l with revoked := l.revoked ++ [id] } else l

/-- The secret was issued to the owner and is not revoked. -/
def Ledger.Live (l : Ledger Id Owner Secret) (secret : Secret) (owner : Owner) : Prop :=
  ∃ c ∈ l.issued, c.secret = secret ∧ c.owner = owner ∧ c.id ∉ l.revoked

/-- The secret was issued, and it is revoked. -/
def Ledger.Revoked (l : Ledger Id Owner Secret) (secret : Secret) : Prop :=
  ∃ c ∈ l.issued, c.secret = secret ∧ c.id ∈ l.revoked

/-- A ledger only grows. -/
structure Ledger.Grows (l l' : Ledger Id Owner Secret) : Prop where
  issued : l.issued ⊆ l'.issued
  revoked : l.revoked ⊆ l'.revoked

namespace Ledger.Grows

variable {l l' l'' : Ledger Id Owner Secret}

theorem refl (l : Ledger Id Owner Secret) : l.Grows l :=
  ⟨List.Subset.refl _, List.Subset.refl _⟩

theorem trans (h : l.Grows l') (h' : l'.Grows l'') : l.Grows l'' :=
  ⟨List.Subset.trans h.issued h'.issued, List.Subset.trans h.revoked h'.revoked⟩

theorem issue (l : Ledger Id Owner Secret) (c : Credential Id Owner Secret) :
    l.Grows (l.issue c) :=
  ⟨List.subset_append_left _ _, List.Subset.refl _⟩

theorem revoke [DecidableEq Id] (l : Ledger Id Owner Secret) (id : Id) : l.Grows (l.revoke id) := by
  unfold Ledger.revoke
  split
  · exact ⟨List.Subset.refl _, List.subset_append_left _ _⟩
  · exact refl l

/-- What is revoked stays revoked. -/
theorem still_revoked (h : l.Grows l') {secret : Secret} (hrevoked : l.Revoked secret) :
    l'.Revoked secret := by
  obtain ⟨c, hc, hsecret, hid⟩ := hrevoked
  exact ⟨c, h.issued hc, hsecret, h.revoked hid⟩

end Ledger.Grows

/-- A revocation revokes what was issued under the id. -/
theorem Ledger.revoke_revokes [DecidableEq Id] (l : Ledger Id Owner Secret)
    {c : Credential Id Owner Secret} (hc : c ∈ l.issued) : (l.revoke c.id).Revoked c.secret := by
  unfold Ledger.revoke
  rw [if_pos (List.mem_map_of_mem hc)]
  exact ⟨c, hc, rfl, List.mem_append_right _ (List.mem_singleton_self _)⟩

/-! ## What is stored -/

structure Stored (Id Owner Hash : Type) where
  id : Id
  owner : Owner
  hash : Hash
  revoked : Bool

variable [DecidableEq Id] [DecidableEq Hash]

/-- The row of a credential. -/
def store (hash : Secret → Hash) (revoked : List Id) (c : Credential Id Owner Secret) :
    Stored Id Owner Hash :=
  ⟨c.id, c.owner, hash c.secret, decide (c.id ∈ revoked)⟩

/-- The table keeps the ledger. Its ids and its hashes are keys. -/
structure Keeps (hash : Secret → Hash) (l : Ledger Id Owner Secret)
    (t : List (Stored Id Owner Hash)) : Prop where
  stored : t = l.issued.map (store hash l.revoked)
  ids_nodup : (t.map (·.id)).Nodup
  hashes_nodup : (t.map (·.hash)).Nodup
  revoked_issued : ∀ i ∈ l.revoked, i ∈ l.issued.map (·.id)

/-- The row whose hash is presented. -/
def present (h : Hash) (t : List (Stored Id Owner Hash)) : Option (Stored Id Owner Hash) :=
  t.find? fun r => r.hash = h && !r.revoked

section
variable {hash : Secret → Hash} {l : Ledger Id Owner Secret} {t : List (Stored Id Owner Hash)}

omit [DecidableEq Hash] in
theorem Keeps.nil (hash : Secret → Hash) :
    Keeps hash (Ledger.mk [] [] : Ledger Id Owner Secret) [] :=
  ⟨rfl, List.nodup_nil, List.nodup_nil, fun _ hi => by cases hi⟩

omit [DecidableEq Hash] in
theorem Keeps.ids_eq (h : Keeps hash l t) : t.map (·.id) = l.issued.map (·.id) := by
  rw [h.stored, List.map_map]
  rfl

omit [DecidableEq Hash] in
/-- A credential is issued under an id and a hash that no row has. -/
theorem Keeps.issue (h : Keeps hash l t) {c : Credential Id Owner Secret}
    (hid : c.id ∉ t.map (·.id)) (hhash : hash c.secret ∉ t.map (·.hash)) :
    Keeps hash (l.issue c) (t ++ [⟨c.id, c.owner, hash c.secret, false⟩]) := by
  have hnot : c.id ∉ l.revoked := by
    intro hmem
    rw [h.ids_eq] at hid
    exact hid (h.revoked_issued c.id hmem)
  refine ⟨?_, ?_, ?_, fun i hi => ?_⟩
  · have hnew : store hash l.revoked c = ⟨c.id, c.owner, hash c.secret, false⟩ := by
      unfold store
      rw [decide_eq_false hnot]
    unfold Ledger.issue
    rw [List.map_append, ← h.stored, List.map_singleton, hnew]
  · rw [List.map_append, List.map_singleton, ← List.concat_eq_append, List.nodup_concat]
    exact ⟨hid, h.ids_nodup⟩
  · rw [List.map_append, List.map_singleton, ← List.concat_eq_append, List.nodup_concat]
    exact ⟨hhash, h.hashes_nodup⟩
  · unfold Ledger.issue
    rw [List.map_append]
    exact List.mem_append_left _ (h.revoked_issued i hi)

/-- The row is marked. -/
def mark (id : Id) (r : Stored Id Owner Hash) : Stored Id Owner Hash :=
  if r.id = id then { r with revoked := true } else r

omit [DecidableEq Hash] in
@[simp] theorem mark_id (id : Id) (r : Stored Id Owner Hash) : (mark id r).id = r.id := by
  unfold mark
  split
  · rfl
  · rfl

omit [DecidableEq Hash] in
@[simp] theorem mark_hash (id : Id) (r : Stored Id Owner Hash) : (mark id r).hash = r.hash := by
  unfold mark
  split
  · rfl
  · rfl

omit [DecidableEq Hash] in
theorem Keeps.revoke (h : Keeps hash l t) (id : Id) :
    Keeps hash (l.revoke id) (t.map (mark id)) := by
  have hids : (t.map (mark id)).map (·.id) = t.map (·.id) := by
    rw [List.map_map]
    exact List.map_congr_left fun r _ => mark_id id r
  have hhashes : (t.map (mark id)).map (·.hash) = t.map (·.hash) := by
    rw [List.map_map]
    exact List.map_congr_left fun r _ => mark_hash id r
  unfold Ledger.revoke
  split
  · rename_i hissued
    refine ⟨?_, hids ▸ h.ids_nodup, hhashes ▸ h.hashes_nodup, fun i hi => ?_⟩
    · rw [h.stored, List.map_map]
      refine List.map_congr_left fun c _ => ?_
      by_cases hc : c.id = id
      · simp [mark, store, hc]
      · simp [mark, store, hc]
    · rcases List.mem_append.mp hi with hold | hnew
      · exact h.revoked_issued i hold
      · rw [List.mem_singleton.mp hnew]
        exact hissued
  · rename_i hissued
    have hsame : t.map (mark id) = t := by
      conv_rhs => rw [← List.map_id t]
      refine List.map_congr_left fun r hr => if_neg fun heq => hissued ?_
      rw [← h.ids_eq, ← heq]
      exact List.mem_map_of_mem hr
    rw [hsame]
    exact h

/-! ## What is presented -/

/-- Presenting a secret finds a row of the owner exactly when the secret is live for the owner,
as long as no other secret that was issued has its hash. -/
theorem Keeps.present_iff (h : Keeps hash l t) {secret : Secret} {owner : Owner}
    (hsecret : ∀ c ∈ l.issued, hash c.secret = hash secret → c.secret = secret) :
    (∃ r, present (hash secret) t = some r ∧ r.owner = owner) ↔ l.Live secret owner := by
  constructor
  · rintro ⟨r, hr, rfl⟩
    have hmem := List.mem_of_find?_eq_some hr
    have hkey := List.find?_some hr
    rw [h.stored] at hmem
    obtain ⟨c, hc, rfl⟩ := List.mem_map.mp hmem
    simp only [store, Bool.and_eq_true, Bool.not_eq_true', decide_eq_false_iff_not] at hkey
    exact ⟨c, hc, hsecret c hc (of_decide_eq_true hkey.1), rfl, hkey.2⟩
  · rintro ⟨c, hc, rfl, rfl, hlive⟩
    have hrow : store hash l.revoked c ∈ t := by
      rw [h.stored]
      exact List.mem_map_of_mem hc
    cases hpresent : present (hash c.secret) t with
    | none =>
      have hno := List.find?_eq_none.mp hpresent _ hrow
      simp [store, hlive] at hno
    | some r =>
      have hkey := List.find?_some hpresent
      simp only [Bool.and_eq_true, decide_eq_true_eq] at hkey
      have hsame := List.inj_on_of_nodup_map h.hashes_nodup (List.mem_of_find?_eq_some hpresent)
        hrow hkey.1
      exact ⟨r, rfl, by rw [hsame]; rfl⟩

/-- A revoked secret finds no row: no other row has its hash. -/
theorem Keeps.present_revoked (h : Keeps hash l t) {secret : Secret}
    (hrevoked : l.Revoked secret) : present (hash secret) t = none := by
  obtain ⟨c, hc, rfl, hid⟩ := hrevoked
  have hrow : store hash l.revoked c ∈ t := by
    rw [h.stored]
    exact List.mem_map_of_mem hc
  apply List.find?_eq_none.mpr
  intro r hr hkey
  simp only [Bool.and_eq_true, decide_eq_true_eq, Bool.not_eq_true'] at hkey
  have hsame : r = store hash l.revoked c := List.inj_on_of_nodup_map h.hashes_nodup hr hrow hkey.1
  rw [hsame] at hkey
  exact absurd hid (of_decide_eq_false hkey.2)

end

end credentials
