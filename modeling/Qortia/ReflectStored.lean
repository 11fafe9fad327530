-- What a reflection reads back of the embeddings that are stored. The driver knows no codec for
-- the type of pgvector and gives a vector as its text, and `list(..)` of a text is its characters.
import Qortia.Reflect

namespace qortia

variable {K : Type}

/-! ## The text form of a vector -/

/-- The text `[x1,x2,..]` of a vector, where `render` writes one number. -/
def vector_text (render : K → String) (v : List K) : String :=
  "[" ++ ",".intercalate (v.map render) ++ "]"

/-- `list(r["embedding"])` of a driver that gives a vector as its text. -/
def FetchesText (o : Outside K) (render : K → String) : Prop :=
  ∀ v, o.fetch_vector v = .characters (vector_text render v).toList

theorem vector_text_ne_nil (render : K → String) (v : List K) :
    (vector_text render v).toList ≠ [] := by
  simp [vector_text]

/-! ## The lookup -/

/-- Every id has 128 bits. -/
def Db.UuidsFit (db : Db K) : Prop := ∀ r ∈ db.hindsight_memories, r.id < 16 ^ 32

theorem ofUuid_inj {a b : UUID} (ha : a < 16 ^ 32) (hb : b < 16 ^ 32)
    (h : text.ofUuid a = text.ofUuid b) : a = b := by
  have hread := text.toUuid_ofUuid ha
  rw [h, text.toUuid_ofUuid hb] at hread
  exact (Option.some.inj hread).symm

theorem mem_select_existing {db : Db K} {agent_id : UUID} {r : HindsightMemory K}
    (h : r ∈ select_existing agent_id db) : r ∈ db.hindsight_memories := by
  unfold select_existing at h
  rw [rows.mem_order_desc] at h
  exact List.mem_of_mem_filter h

/-- The row is found under the text of its id. -/
theorem find_existing {db : Db K} (hkeyed : db.Keyed) (hfit : db.UuidsFit) {agent_id : UUID}
    {r : HindsightMemory K} (hr : r ∈ select_existing agent_id db) :
    (select_existing agent_id db).find? (fun q => text.ofUuid q.id = text.ofUuid r.id) =
      some r := by
  cases hfind : (select_existing agent_id db).find?
      (fun q => text.ofUuid q.id = text.ofUuid r.id) with
  | none =>
    have hnot := List.find?_eq_none.mp hfind r hr
    simp at hnot
  | some q =>
    have hq := mem_select_existing (List.mem_of_find?_eq_some hfind)
    have hkey := List.find?_some hfind
    rw [decide_eq_true_eq] at hkey
    have hr' := mem_select_existing hr
    rw [List.inj_on_of_nodup_map hkeyed.hindsight_nodup hq hr'
      (ofUuid_inj (hfit q hq) (hfit r hr') hkey)]

/-- A row with an embedding is looked up as the characters of its text. -/
theorem existing_embeddings_of_row {o : Outside K} {render : K → String}
    (hfetch : FetchesText o render) {db : Db K} (hkeyed : db.Keyed) (hfit : db.UuidsFit)
    {agent_id : UUID} {r : HindsightMemory K} (hr : r ∈ select_existing agent_id db) {v : List K}
    (hv : r.embedding = some v) :
    existing_embeddings o (select_existing agent_id db) (text.ofUuid r.id) =
      some (.characters (vector_text render v).toList) := by
  unfold existing_embeddings
  rw [find_existing hkeyed hfit hr, Option.bind_some, hv, Option.map_some, hfetch]

/-! ## The stability -/

variable [Field K] [LinearOrder K] [HasSqrt K]

/-- The cosine of numbers with the characters of a text raises. -/
theorem stability_score_of_characters {existing : String → Option (StoredVector K)} {key : String}
    {cs : List Char} (hlookup : existing key = some (.characters cs)) (hcs : cs ≠ [])
    {new_emb : List K} (hnew : new_emb ≠ []) :
    stability_score existing (.string key) (some new_emb) = .error .TypeError := by
  unfold stability_score
  simp only [hlookup]
  rw [if_pos ⟨hnew, by simpa [StoredVector.truthy] using hcs⟩]
  simp [cosine_stored, hnew, hcs, Except.map]

/-- For no row that has an embedding is it looked up as the numbers that were stored, and the
stability of an UPDATE of the row raises for every new vector. -/
theorem a_stored_embedding_is_not_read_back (o : Outside K) (render : K → String)
    (hfetch : FetchesText o render) (db : Db K) (hkeyed : db.Keyed) (hfit : db.UuidsFit)
    (agent_id : UUID) (r : HindsightMemory K) (hr : r ∈ select_existing agent_id db) (v : List K)
    (hv : r.embedding = some v) :
    existing_embeddings o (select_existing agent_id db) (text.ofUuid r.id) ≠ some (.floats v) ∧
      ∀ new_emb, new_emb ≠ [] →
        stability_score (existing_embeddings o (select_existing agent_id db))
          (.string (text.ofUuid r.id)) (some new_emb) = .error .TypeError := by
  have hlookup := existing_embeddings_of_row hfetch hkeyed hfit hr hv
  constructor
  · rw [hlookup]
    intro h
    cases h
  · intro new_emb hnew
    exact stability_score_of_characters hlookup (vector_text_ne_nil render v) hnew

/-- A driver that gives a vector of whole numbers as its text. -/
def text_driver : Outside ℚ :=
  { no_models with
    fetch_vector := fun v => .characters (vector_text (fun q => toString q.num) v).toList }

/-- A vector of the model, of 1024 numbers. -/
def unit_vector : List ℚ := 1 :: List.replicate 1023 0

def embedded_lesson : HindsightMemory ℚ :=
  { id := 1, tenant_id := 1, agent_id := 20, type := .lesson
    content := "retry the deployment on 502", embedding := some unit_vector
    is_consolidated := true, valid_from := 0, created_at := 0 }

def embedded_lesson_db : Db ℚ := { hindsight_memories := [embedded_lesson], next_id := 2 }

theorem embedded_lesson_keyed : embedded_lesson_db.Keyed :=
  ⟨by decide, by decide, by decide, by decide, by decide⟩

theorem embedded_lesson_fits : embedded_lesson_db.UuidsFit := by
  intro r hr
  rw [List.mem_singleton.mp hr]
  decide

theorem embedded_lesson_selected : embedded_lesson ∈ select_existing 20 embedded_lesson_db :=
  List.mem_singleton.mpr rfl

theorem a_stored_embedding_is_not_read_back_lesson :
    existing_embeddings text_driver (select_existing 20 embedded_lesson_db) (text.ofUuid 1) ≠
        some (.floats unit_vector) ∧
      ∀ new_emb, new_emb ≠ [] →
        stability_score (existing_embeddings text_driver (select_existing 20 embedded_lesson_db))
          (.string (text.ofUuid 1)) (some new_emb) = .error .TypeError :=
  a_stored_embedding_is_not_read_back text_driver (fun q => toString q.num) (fun _ => rfl)
    embedded_lesson_db embedded_lesson_keyed embedded_lesson_fits 20 embedded_lesson
    embedded_lesson_selected unit_vector rfl

/-- The vector comes back as characters, the first of them a bracket, and the cosine with itself
raises. -/
theorem a_vector_is_read_back_as_characters :
    (∃ rest, existing_embeddings text_driver (select_existing 20 embedded_lesson_db)
        (text.ofUuid 1) = some (.characters ('[' :: rest))) ∧
      stability_score (existing_embeddings text_driver (select_existing 20 embedded_lesson_db))
        (.string (text.ofUuid 1)) (some unit_vector) = .error .TypeError ∧
      cosine unit_vector unit_vector = 1 := by
  have hlookup : existing_embeddings text_driver (select_existing 20 embedded_lesson_db)
      (text.ofUuid 1) =
        some (.characters (vector_text (fun q => toString q.num) unit_vector).toList) :=
    existing_embeddings_of_row (fun _ => rfl) embedded_lesson_keyed embedded_lesson_fits
      embedded_lesson_selected rfl
  refine ⟨?_, ?_, by decide +kernel⟩
  · rw [hlookup]
    simp [vector_text]
  · exact stability_score_of_characters hlookup (vector_text_ne_nil _ _) (List.cons_ne_nil 1 _)

end qortia
