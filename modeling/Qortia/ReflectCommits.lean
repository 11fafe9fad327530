-- When `_write_reflections` commits. The validator of the answer lets more through than the
-- columns do, and one entry that a column refuses takes the whole answer with it.
import Qortia.Cosine
import Qortia.Lib.FirstSeen
import Qortia.Lib.Raising
import Qortia.ReflectWrites
import Qortia.Remember

namespace qortia

open first_seen (AtFirst)
open json (Json)
open raising (Returns)
open vectors (dot)

variable {K : Type}

/-! ## What the columns and the parsers let through -/

/-- The CHECK `BETWEEN 0 AND 1` on a number of the answer. -/
def in_unit_interval : json.Number → Prop
  | .int i => 0 ≤ i ∧ i ≤ 1
  | .float q => 0 ≤ q ∧ q ≤ 1
  | .nan | .infinity _ => False

def is_uuid_text (id : Json) : Prop := ∃ s uuid, id = .string s ∧ text.toUuid s = some uuid

def is_text (v : Json) : Prop := ∃ s, v = .string s

/-- The embeddings of an UPDATE, where both are there, are numbers, and they are at no obtuse
angle. -/
def not_opposed [Field K] [LE K] (new_emb : Option (List K)) (old_emb : Option (StoredVector K)) :
    Prop :=
  ∀ new old, new_emb = some new → old_emb = some old → new ≠ [] → old.truthy = true →
    ∃ v, old = .floats v ∧ 0 ≤ dot new v

/-- The importance is in the unit interval, and the content is a text that can be stored. -/
def ReflectionBody.storable (body : ReflectionBody) : Prop :=
  in_unit_interval body.importance ∧ ∀ s, body.content.1 = .string s → json.no_nul s = true

/-- What an entry has to be for its statements, when it is not skipped. -/
def EntryStorable [Field K] [LE K] (existing_embeddings : String → Option (StoredVector K))
    (new_emb : Option (List K)) : Reflection → Prop
  | .CREATE id body =>
    body.storable ∧ ∀ parent_id, id = some parent_id → parent_id.truthy = true →
      parent_id.is_jsonb = true
  | .UPDATE id body =>
    body.storable ∧ ∀ s, id.1 = .string s → not_opposed new_emb (existing_embeddings s)
  | .RETAIN _ => True

def Reflection.body : Reflection → Option ReflectionBody
  | .CREATE _ body | .UPDATE _ body => some body
  | .RETAIN _ => none

/-- What the entries have to be: every id that is named is a UUID, every content is a text, and
the first entry of each content can be stored. -/
structure Storable [Field K] [LE K] (o : Outside K) (new_embeddings : Nat → Option (List K))
    (existing_embeddings : String → Option (StoredVector K)) (reflections : List Reflection) :
    Prop where
  ids : ∀ r ∈ reflections, ∀ id, r.named_id = some id → is_uuid_text id
  texts : ∀ r ∈ reflections, ∀ body, r.body = some body → is_text body.content.1
  first_entries : AtFirst (Reflection.hash o)
    (fun i r => EntryStorable existing_embeddings (new_embeddings i) r) [] reflections

/-! ## The parsers -/

theorem two_le_pow_sub_pow {m n : ℕ} (hm : 1 ≤ m) (hn : m < n) : 2 ≤ 2 ^ n - 2 ^ m := by
  have hdouble : 2 ^ m + 2 ^ m ≤ 2 ^ n := by
    rw [← two_mul, ← pow_succ']
    exact Nat.pow_le_pow_right (by decide) hn
  have htwo : 2 ^ 1 ≤ 2 ^ m := Nat.pow_le_pow_right (by decide) hm
  omega

theorem column_importance_returns (n : json.Number) :
    Returns (column_importance n) ↔ in_unit_interval n := by
  cases n with
  | int i =>
    simp only [column_importance, in_unit_interval]
    by_cases hbig : i.natAbs ≥ 2 ^ 1024 - 2 ^ 970
    · have hlarge : 2 ≤ i.natAbs := le_trans (two_le_pow_sub_pow (by decide) (by decide)) hbig
      rw [if_pos hbig]
      clear hbig
      refine iff_of_false (raising.not_returns_error _) ?_
      omega
    · rw [if_neg hbig]
      by_cases hunit : 0 ≤ i ∧ i ≤ 1
      · simp [hunit]
      · simp [hunit]
  | float q =>
    unfold column_importance in_unit_interval
    by_cases hunit : 0 ≤ q ∧ q ≤ 1
    · simp [hunit]
    · simp [hunit]
  | nan => simp [column_importance, in_unit_interval]
  | infinity negative => simp [column_importance, in_unit_interval]

theorem uuid_of_returns (id : Json) : Returns (uuid_of id) ↔ is_uuid_text id := by
  unfold uuid_of is_uuid_text
  cases id with
  | string s =>
    cases h : text.toUuid s with
    | none => simp [h]
    | some uuid => simp [h]
  | null | bool | number | array | object => simp

theorem content_text_returns (v : Truthy) : Returns (content_text v) ↔ is_text v.1 := by
  unfold content_text is_text
  obtain ⟨v, hv⟩ := v
  cases v with
  | string s => simp
  | null | bool | number | array | object => simp

theorem content_text_ok {v : Truthy} {s : String} (h : content_text v = .ok s) :
    v.1 = .string s := by
  unfold content_text at h
  split at h
  · cases h
    assumption
  · cases h

/-- The text of a UUID can be stored. -/
theorem is_uuid_text.is_jsonb {id : Json} (h : is_uuid_text id) : id.is_jsonb = true := by
  obtain ⟨s, uuid, rfl, hs⟩ := h
  unfold json.Json.is_jsonb json.no_nul
  rw [decide_eq_true_eq]
  exact text.not_mem_of_toUuid hs (by decide) (by decide)

theorem parent_metadata_returns (id : Option Json) :
    Returns (parent_metadata id) ↔
      ∀ parent_id, id = some parent_id → parent_id.truthy = true → parent_id.is_jsonb = true := by
  cases id with
  | none => simp [parent_metadata]
  | some parent_id =>
    unfold parent_metadata
    cases htruthy : parent_id.truthy with
    | false => simp [htruthy]
    | true =>
      cases hjsonb : parent_id.is_jsonb with
      | false => simp [htruthy, hjsonb]
      | true => simp [htruthy, hjsonb]

/-! ## The stability -/

/-- The CHECK on the stability. -/
def stability_fits [Field K] [LinearOrder K] (stability : Option K) : Prop :=
  ∀ s, stability = some s → 0 ≤ s ∧ s ≤ 1

section
variable [Field K] [LinearOrder K] [HasSqrt K] {o : Outside K}
  {existing_embeddings : String → Option (StoredVector K)}

theorem stability_score_of_text (s : String) (new_emb : Option (List K)) :
    stability_score existing_embeddings (.string s) new_emb =
      match new_emb, existing_embeddings s with
      | some new, some old =>
        if new ≠ [] ∧ old.truthy then (cosine_stored new old).map some else .ok none
      | _, _ => .ok none := rfl

/-- The stability is computed and lets through if and only if the vectors are not opposed. -/
theorem stability_score_fits_iff [IsStrictOrderedRing K] [LawfulSqrt K] (s : String)
    (new_emb : Option (List K)) :
    (∃ stability, stability_score existing_embeddings (.string s) new_emb = .ok stability ∧
        stability_fits stability) ↔
      not_opposed new_emb (existing_embeddings s) := by
  rw [stability_score_of_text]
  unfold not_opposed
  cases new_emb with
  | none => simp [stability_fits]
  | some new =>
    cases existing_embeddings s with
    | none => simp [stability_fits]
    | some old =>
      by_cases hboth : new ≠ [] ∧ old.truthy = true
      · simp only [if_pos hboth]
        cases old with
        | floats v =>
          have hfits : stability_fits (some (cosine new v)) ↔ 0 ≤ dot new v := by
            rw [← cosine_nonneg_iff]
            unfold stability_fits
            constructor
            · intro h
              exact (h _ rfl).1
            · rintro h t ⟨⟩
              exact ⟨h, cosine_le_one new v⟩
          simp [cosine_stored, Except.map, hfits, hboth.1, hboth.2]
        | characters v =>
          have hv : v ≠ [] := by simpa [StoredVector.truthy] using hboth.2
          simp [cosine_stored, Except.map, hboth.1, hboth.2, hv]
      · simp only [if_neg hboth]
        refine iff_of_true ⟨none, rfl, fun t ht => nomatch ht⟩ ?_
        rintro new' old' ⟨⟩ ⟨⟩ hnew hold
        exact absurd ⟨hnew, hold⟩ hboth

/-! ## The loop -/

omit [HasSqrt K] in
theorem insert_row_returns (body : ReflectionBody) (content : String) (new_emb : Option (List K))
    (stability : Option K) :
    Returns (write_loop.insert_row o body content new_emb stability) ↔
      in_unit_interval body.importance ∧ json.no_nul content = true ∧ stability_fits stability := by
  have hstability : (stability.all fun s => decide (0 ≤ s ∧ s ≤ 1)) = true ↔
      stability_fits stability := by
    cases stability with
    | none => simp [stability_fits]
    | some s => simp [stability_fits]
  unfold write_loop.insert_row
  rw [raising.returns_bind, ← column_importance_returns, ← hstability, ← Bool.and_eq_true]
  constructor
  · rintro ⟨importance, himportance, h⟩
    refine ⟨⟨importance, himportance⟩, ?_⟩
    by_contra hnot
    rw [if_neg hnot] at h
    exact raising.not_returns_error _ h
  · rintro ⟨⟨importance, himportance⟩, hcheck⟩
    refine ⟨importance, himportance, ?_⟩
    rw [if_pos hcheck]
    exact ⟨_, rfl⟩

omit [Field K] [LinearOrder K] [HasSqrt K] in
theorem storable_iff {body : ReflectionBody} {content : String}
    (hc : content_text body.content = .ok content) :
    body.storable ↔ in_unit_interval body.importance ∧ json.no_nul content = true := by
  unfold ReflectionBody.storable
  rw [content_text_ok hc]
  simp

variable {new_embeddings : Nat → Option (List K)} {i : Nat} {seen : List String}
  {body : ReflectionBody} {rest : List Reflection} {content : String}

omit [Field K] [LinearOrder K] [HasSqrt K] in
theorem hash_some_text {r : Reflection} {h : String} (hbody : r.body = some body)
    (hr : r.hash o = some h) :
    ∃ content, content_text body.content = .ok content ∧ reflection_hash o content = h := by
  cases r with
  | RETAIN id => cases hr
  | CREATE id body' | UPDATE id body' =>
    cases hbody
    cases hc : content_text body.content with
    | error e =>
      simp only [Reflection.hash, hc] at hr
      cases hr
    | ok content =>
      simp only [Reflection.hash, hc] at hr
      exact ⟨content, rfl, Option.some.inj hr⟩

omit [Field K] [LinearOrder K] [HasSqrt K] in
theorem hash_none_not_text {r : Reflection} (hbody : r.body = some body) (hr : r.hash o = none) :
    ¬ is_text body.content.1 := by
  rw [← content_text_returns]
  rintro ⟨content, hc⟩
  cases r with
  | RETAIN id => cases hbody
  | CREATE id body' =>
    cases hbody
    rw [hash_create hc] at hr
    cases hr
  | UPDATE id body' =>
    cases hbody
    rw [hash_update hc] at hr
    cases hr

/-- An entry whose content is no text. -/
theorem write_loop_not_text {r : Reflection} (hbody : r.body = some body)
    (hnot : ¬ is_text body.content.1) :
    ¬ Returns (write_loop o existing_embeddings new_embeddings i seen (r :: rest)) := by
  rw [← content_text_returns] at hnot
  cases r with
  | RETAIN id => cases hbody
  | CREATE id body' | UPDATE id body' =>
    cases hbody
    unfold write_loop
    rw [raising.returns_bind]
    rintro ⟨content, hc, -⟩
    exact hnot ⟨content, hc⟩

/-- An entry whose content was seen. -/
theorem write_loop_seen {r : Reflection} {h : String} (hr : r.hash o = some h) (hseen : h ∈ seen) :
    write_loop o existing_embeddings new_embeddings i seen (r :: rest) =
      write_loop o existing_embeddings new_embeddings (i + 1) seen rest := by
  cases r with
  | RETAIN id => cases hr
  | CREATE id body | UPDATE id body =>
    obtain ⟨content, hc, rfl⟩ := hash_some_text rfl hr
    simp only [write_loop, hc, bind, Except.bind, if_pos hseen]

/-- A CREATE entry that is not skipped, and the rest. -/
theorem write_loop_create_returns (id : Option Json)
    (hc : content_text body.content = .ok content) (hseen : reflection_hash o content ∉ seen) :
    Returns (write_loop o existing_embeddings new_embeddings i seen (.CREATE id body :: rest)) ↔
      EntryStorable existing_embeddings (new_embeddings i) (.CREATE id body) ∧
        Returns (write_loop o existing_embeddings new_embeddings (i + 1)
          (reflection_hash o content :: seen) rest) := by
  have hrow : Returns (write_loop.insert_row o body content (new_embeddings i) none) ↔
      body.storable := by
    rw [insert_row_returns, storable_iff hc]
    simp [stability_fits]
  have hstorable : EntryStorable existing_embeddings (new_embeddings i) (.CREATE id body) ↔
      Returns (write_loop.insert_row o body content (new_embeddings i) none) ∧
        Returns (parent_metadata id) := by
    rw [hrow, parent_metadata_returns]
    rfl
  have hloop : write_loop o existing_embeddings new_embeddings i seen (.CREATE id body :: rest) =
      write_loop.insert_row o body content (new_embeddings i) none >>= fun row =>
        write_loop o existing_embeddings new_embeddings (i + 1) (reflection_hash o content :: seen)
          rest >>= fun rows => parent_metadata id >>= fun _ => .ok (row :: rows) := by
    conv_lhs => unfold write_loop
    rw [hc]
    simp only [bind, Except.bind, if_neg hseen]
    rfl
  rw [hloop, hstorable, and_assoc, and_comm (a := Returns (parent_metadata id))]
  refine raising.returns_bind_iff fun row _ => raising.returns_bind_iff fun rows _ => ?_
  rw [raising.returns_bind_iff fun u _ => iff_true_intro (raising.returns_ok _), and_true]

omit [HasSqrt K] in
/-- The rest of an UPDATE entry, once its stability is there. -/
theorem update_rest_returns {id : Truthy} (hid : is_uuid_text id.1) (stability : Option K)
    (loop : Except Failure (List (WriteStatement K))) :
    Returns (uuid_of id.1 >>= fun uuid =>
        write_loop.insert_row o body content (new_embeddings i) stability >>= fun row =>
        loop >>= fun rows => parent_metadata (some id.1) >>= fun _ =>
          .ok (.supersede uuid :: row :: rows)) ↔
      ((in_unit_interval body.importance ∧ json.no_nul content = true) ∧
        stability_fits stability) ∧ Returns loop := by
  have hmetadata : Returns (parent_metadata (some id.1)) := by
    rw [parent_metadata_returns]
    rintro parent_id ⟨⟩ -
    exact hid.is_jsonb
  rw [and_assoc (b := json.no_nul content = true), ← insert_row_returns (o := o) body content
    (new_embeddings i), raising.returns_bind_iff fun uuid _ => raising.returns_bind_iff fun row _ =>
    raising.returns_bind_iff fun rows _ => raising.returns_bind_iff fun u _ =>
    iff_true_intro (raising.returns_ok _)]
  simp [uuid_of_returns, hid, hmetadata]

/-- An UPDATE entry that is not skipped and names a UUID, and the rest. -/
theorem write_loop_update_returns [IsStrictOrderedRing K] [LawfulSqrt K] {id : Truthy}
    (hid : is_uuid_text id.1) (hc : content_text body.content = .ok content)
    (hseen : reflection_hash o content ∉ seen) :
    Returns (write_loop o existing_embeddings new_embeddings i seen (.UPDATE id body :: rest)) ↔
      EntryStorable existing_embeddings (new_embeddings i) (.UPDATE id body) ∧
        Returns (write_loop o existing_embeddings new_embeddings (i + 1)
          (reflection_hash o content :: seen) rest) := by
  have hloop : write_loop o existing_embeddings new_embeddings i seen (.UPDATE id body :: rest) =
      stability_score existing_embeddings id.1 (new_embeddings i) >>= fun stability =>
        uuid_of id.1 >>= fun uuid =>
        write_loop.insert_row o body content (new_embeddings i) stability >>= fun row =>
        write_loop o existing_embeddings new_embeddings (i + 1) (reflection_hash o content :: seen)
          rest >>= fun rows => parent_metadata (some id.1) >>= fun _ =>
          .ok (.supersede uuid :: row :: rows) := by
    conv_lhs => unfold write_loop
    rw [hc]
    simp only [bind, Except.bind, if_neg hseen]
    rfl
  rw [hloop, raising.returns_bind]
  simp only [update_rest_returns hid]
  have hid' := hid
  obtain ⟨s, uuid, hs, -⟩ := hid'
  unfold EntryStorable
  simp only [hs, json.Json.string.injEq, forall_eq', storable_iff hc, ← stability_score_fits_iff]
  constructor
  · rintro ⟨stability, hstability, ⟨hbody, hfits⟩, hrest⟩
    exact ⟨⟨hbody, stability, hstability, hfits⟩, hrest⟩
  · rintro ⟨⟨hbody, stability, hstability, hfits⟩, hrest⟩
    exact ⟨stability, hstability, ⟨hbody, hfits⟩, hrest⟩

/-- An entry that is not skipped, and the rest. -/
theorem write_loop_new_returns [IsStrictOrderedRing K] [LawfulSqrt K] {r : Reflection} {h : String}
    (hid : ∀ id, r.named_id = some id → is_uuid_text id) (hr : r.hash o = some h)
    (hseen : h ∉ seen) :
    Returns (write_loop o existing_embeddings new_embeddings i seen (r :: rest)) ↔
      EntryStorable existing_embeddings (new_embeddings i) r ∧
        Returns (write_loop o existing_embeddings new_embeddings (i + 1) (h :: seen) rest) := by
  cases r with
  | RETAIN id => cases hr
  | CREATE id body =>
    obtain ⟨content, hc, rfl⟩ := hash_some_text rfl hr
    exact write_loop_create_returns id hc hseen
  | UPDATE id body =>
    obtain ⟨content, hc, rfl⟩ := hash_some_text rfl hr
    exact write_loop_update_returns (hid id.1 rfl) hc hseen

/-- The loop returns if and only if the contents are texts and the entries that it does not skip
can be stored. -/
theorem write_loop_returns_iff [IsStrictOrderedRing K] [LawfulSqrt K]
    {reflections : List Reflection}
    (hids : ∀ r ∈ reflections, ∀ id, r.named_id = some id → is_uuid_text id) :
    Returns (write_loop o existing_embeddings new_embeddings i seen reflections) ↔
      (∀ r ∈ reflections, ∀ body, r.body = some body → is_text body.content.1) ∧
        AtFirst (Reflection.hash o)
          (fun k r => EntryStorable existing_embeddings (new_embeddings (i + k)) r) seen
          reflections := by
  induction reflections generalizing i seen with
  | nil => simp [write_loop]
  | cons r rest ih =>
    rw [List.forall_mem_cons] at hids ⊢
    have hshift : (fun k r => EntryStorable existing_embeddings (new_embeddings (i + (k + 1))) r) =
        fun k r => EntryStorable existing_embeddings (new_embeddings (i + 1 + k)) r := by
      funext k r
      rw [Nat.add_right_comm, Nat.add_assoc]
    cases hr : r.hash o with
    | none =>
      rw [first_seen.at_first_cons_none hr, hshift]
      by_cases hbody : ∃ body, r.body = some body
      · obtain ⟨body, hbody⟩ := hbody
        have hnot := hash_none_not_text hbody hr
        refine iff_of_false (write_loop_not_text hbody hnot) ?_
        rintro ⟨⟨htext, -⟩, -⟩
        exact hnot (htext body hbody)
      · cases r with
        | CREATE id body | UPDATE id body => exact absurd ⟨body, rfl⟩ hbody
        | RETAIN id =>
          have htrue : ∀ body, (Reflection.RETAIN id).body = some body → is_text body.content.1 :=
            fun body h => nomatch h
          rw [and_iff_right htrue]
          exact ih hids.2
    | some h =>
      have htext : ∀ body, r.body = some body → is_text body.content.1 := by
        intro body hbody
        obtain ⟨content, hc, -⟩ := hash_some_text hbody hr
        exact ⟨content, content_text_ok hc⟩
      rw [and_iff_right htext]
      by_cases hseen : h ∈ seen
      · rw [write_loop_seen hr hseen, first_seen.at_first_cons_seen hr hseen, hshift]
        exact ih hids.2
      · rw [write_loop_new_returns hids.1 hr hseen, first_seen.at_first_cons_new hr hseen, hshift,
          ih hids.2]
        exact and_left_comm

/-! ## The transaction -/

omit [Field K] [LinearOrder K] [HasSqrt K] in
theorem active_ids_returns (reflections : List Reflection) :
    Returns (active_ids reflections) ↔
      ∀ r ∈ reflections, ∀ id, r.named_id = some id → is_uuid_text id := by
  unfold active_ids
  rw [raising.returns_mapM]
  simp only [List.mem_filterMap, uuid_of_returns]
  constructor
  · intro h r hr id hid
    exact h id ⟨r, hr, hid⟩
  · rintro h id ⟨r, hr, hid⟩
    exact h r hr id hid

/-- The transaction commits if and only if every named id is a UUID, every content is a text, and
the first entry of each content has an importance in the unit interval, nothing that PostgreSQL
cannot store, and for an UPDATE no vector at an obtuse angle to the one it replaces. -/
theorem write_reflections_commits_iff [IsStrictOrderedRing K] [LawfulSqrt K] (o : Outside K)
    (cfg : Settings) (w : Writer) (reflections : List Reflection)
    (new_embeddings : Nat → Option (List K))
    (existing_embeddings : String → Option (StoredVector K)) (existing : List (HindsightMemory K))
    (db : Db K) :
    Returns (write_reflections o cfg w reflections new_embeddings existing_embeddings existing db) ↔
      Storable o new_embeddings existing_embeddings reflections := by
  have hcommits : Returns (write_reflections o cfg w reflections new_embeddings
      existing_embeddings existing db) ↔
      Returns (write_statements o reflections new_embeddings existing_embeddings (existing ≠ [])
        (existing_consolidated_count w.agent_id db)) := by
    unfold write_reflections
    exact (raising.returns_bind_iff fun _ _ => iff_true_intro ⟨_, rfl⟩).trans (and_true _).to_iff
  have hstatements : Returns (write_statements o reflections new_embeddings existing_embeddings
      (existing ≠ []) (existing_consolidated_count w.agent_id db)) ↔
      Returns (active_ids reflections) ∧
        Returns (write_loop o existing_embeddings new_embeddings 0 [] reflections) := by
    unfold write_statements
    refine raising.returns_bind_iff fun ids _ => ?_
    exact (raising.returns_bind_iff fun _ _ => iff_true_intro ⟨_, rfl⟩).trans (and_true _).to_iff
  rw [hcommits, hstatements, active_ids_returns]
  constructor
  · rintro ⟨hids, hloop⟩
    obtain ⟨htexts, hfirst⟩ := (write_loop_returns_iff hids).mp hloop
    simp only [Nat.zero_add] at hfirst
    exact ⟨hids, htexts, hfirst⟩
  · intro h
    refine ⟨h.ids, (write_loop_returns_iff h.ids).mpr ⟨h.texts, ?_⟩⟩
    simp only [Nat.zero_add]
    exact h.first_entries

end

/-! ## Answers that pass the validator -/

/-- An entry of an answer that creates a lesson. -/
def lesson_entry (content : String) (importance : json.Number) : Json :=
  .object [("action", .string "CREATE"), ("type", .string "lesson"),
    ("content", .string content), ("importance", .number importance)]

def lesson_of (content : String) (importance : json.Number)
    (h : (Json.string content).truthy = true) : Reflection :=
  .CREATE none { type := .lesson, content := ⟨.string content, h⟩, importance }

def retain_entry (id : String) : Json := .object [("action", .string "RETAIN"), ("id", .string id)]

def answer_of (entries : List Json) : Json := .object [("reflections", .array entries)]

def a_good_lesson : Reflection := lesson_of "pin the image" (.float (9 / 10)) (by decide)

/-- An entry of an answer that updates the lesson 1, with an importance of 1. -/
def update_entry (content : String) : Json :=
  .object [("action", .string "UPDATE"), ("id", .string (text.ofUuid 1)),
    ("type", .string "lesson"), ("content", .string content), ("importance", .number (.int 1))]

def update_of (content : String) (h : (Json.string content).truthy = true)
    (hid : (Json.string (text.ofUuid 1)).truthy = true) : Reflection :=
  .UPDATE ⟨.string (text.ofUuid 1), hid⟩
    { type := .lesson, content := ⟨.string content, h⟩, importance := .int 1 }

/-- The validator accepts an importance of 85, the id `1`, and an UPDATE whose vector is opposed
to the one it replaces. Each one takes the lesson before it with it. -/
theorem an_accepted_answer_is_rolled_back :
    validate_reflections (answer_of [lesson_entry "pin the image" (.float (9 / 10)),
        lesson_entry "retry on 502" (.int 85)]) =
        .ok [a_good_lesson, lesson_of "retry on 502" (.int 85) (by decide)] ∧
      write_reflections no_models {} ⟨20, 1, 5⟩
        [a_good_lesson, lesson_of "retry on 502" (.int 85) (by decide)]
        (fun _ => none) (fun _ => none) [] chief_db = .error .PostgresError ∧
      validate_reflections (answer_of [lesson_entry "pin the image" (.float (9 / 10)),
        retain_entry "1"]) = .ok [a_good_lesson, .RETAIN ⟨.string "1", by decide⟩] ∧
      write_reflections no_models {} ⟨20, 1, 5⟩ [a_good_lesson, .RETAIN ⟨.string "1", by decide⟩]
        (fun _ => none) (fun _ => none) [] chief_db = .error .ValueError ∧
      validate_reflections (answer_of [lesson_entry "pin the image" (.float (9 / 10)),
        update_entry "retry on 502"]) =
        .ok [a_good_lesson, update_of "retry on 502" (by decide) (by decide)] ∧
      write_reflections no_models {} ⟨20, 1, 5⟩
        [a_good_lesson, update_of "retry on 502" (by decide) (by decide)]
        (fun _ => some [-1]) (fun _ => some (.floats [1])) [] chief_db = .error .PostgresError ∧
      Returns (write_reflections no_models {} ⟨20, 1, 5⟩ [a_good_lesson]
        (fun _ => none) (fun _ => none) [] chief_db) :=
  ⟨rfl, by decide +kernel, rfl, by decide +kernel, by rfl, by decide +kernel, by decide +kernel⟩

theorem write_reflections_commits_iff_opposed :
    Returns (write_reflections real_models {} ⟨20, 1, 5⟩
        [update_of "retry on 502" (by decide) (by decide)]
        (fun _ => some [-1]) (fun _ => some (.floats [1])) [] {}) ↔
      Storable real_models (fun _ => some [-1]) (fun _ => some (.floats [1]))
        [update_of "retry on 502" (by decide) (by decide)] :=
  write_reflections_commits_iff real_models {} ⟨20, 1, 5⟩ _ _ _ [] {}

end qortia
