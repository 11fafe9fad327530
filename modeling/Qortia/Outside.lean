-- What the service calls and does not hold: the language models, the NLP pipelines, the search
-- functions of the database, and the parts of Python that depend on tables of their own.
-- Everything here is a parameter of the model.
import Mathlib.Algebra.Order.Field.Basic
import Mathlib.Algebra.Order.Field.Rat
import Mathlib.Data.Rat.Sqrt
import Qortia.Schema

namespace qortia

/-- A spaCy document: the entities with their labels, the sentences and the noun chunks. -/
structure Doc where
  ents : List (String × String) := []
  sents : List String := []
  noun_chunks : List String := []

/-- A loaded pipeline. A call that raises gives `none`. -/
abbrev Pipeline := String → Option Doc

/-- What `list(r["embedding"])` holds: numbers, or single characters where the driver gives the
vector in its text form. -/
inductive StoredVector (K : Type) where
  | floats (v : List K)
  | characters (v : List Char)

structure Outside (K : Type) where
  /-- `hashlib.sha256(text.encode()).hexdigest()` -/
  sha256 : String → String
  /-- `str.lower` -/
  lower : String → String
  /-- `langdetect.detect`, `none` when it is not installed or raises -/
  detect : String → Option String
  /-- `datetime.fromisoformat(str(raw).replace("Z", "+00:00"))`, `none` when it raises -/
  fromisoformat : json.Json → Option Timestamp
  /-- The spaCy pipelines, `none` when the model is not loaded. -/
  en_core_web_sm : Option Pipeline
  xx_ent_wiki_sm : Option Pipeline
  /-- The vector that the embedding model gives a text. -/
  embedding : String → List K
  /-- `chat_completion` of a prompt, `none` when it raises -/
  chat_completion : String → Option String
  /-- `tsv @@ plainto_tsquery('simple', query)` and `ts_rank_cd(tsv, .., norm)` on the text that
  the `tsvector` column is generated from -/
  ts_match : (query text : String) → Bool
  ts_rank_cd : (query text : String) → (norm : Nat) → K
  /-- `1 - (a <=> b)` of pgvector -/
  similarity : List K → List K → K
  /-- `list(r["embedding"])` of a row that the driver fetched -/
  fetch_vector : List K → StoredVector K
  /-- `json.dumps` of a list of texts -/
  json_dumps : List String → String
  /-- `math.log1p` of a count -/
  log1p : Nat → K

/-- `config.Settings`, the fields that the memory pipeline reads. -/
structure Settings where
  rerank_model : String := ""
  reflection_threshold : Int := 10
  idle_reflection_window_h : ℚ := 1
  qortia_dedup_similarity_threshold : ℚ := 95 / 100
  recall_rrf_k : Nat := 60
  recall_search_fetch_multiplier : Nat := 2
  recall_private_result_limit : Nat := 20
  recall_org_result_limit : Nat := 10
  recall_knowledge_result_limit : Nat := 16
  recall_default_max_chars : Int := 8000

/-! ## Vectors

The float code is read in exact arithmetic, over any ordered field with a function for
`x ** 0.5`. -/

class HasSqrt (K : Type) where
  sqrt : K → K

instance : HasSqrt ℚ := ⟨Rat.sqrt⟩

section
variable {K : Type} [Field K] [DecidableEq K] [HasSqrt K]

/-- `recall_helpers._cosine`. -/
def cosine (a b : List K) : K :=
  let dot := (List.zipWith (· * ·) a b).sum
  let mag_a := HasSqrt.sqrt (a.map fun x => x * x).sum
  let mag_b := HasSqrt.sqrt (b.map fun x => x * x).sum
  if mag_a = 0 ∨ mag_b = 0 then 0 else dot / (mag_a * mag_b)

/-- `if old_emb:`. -/
def StoredVector.truthy : StoredVector K → Bool
  | .floats v => v ≠ []
  | .characters v => v ≠ []

/-- `_cosine(new_emb, old_emb)`. A float times a character is a `TypeError`. -/
def cosine_stored (new_emb : List K) : StoredVector K → Except Failure K
  | .floats v => .ok (cosine new_emb v)
  | .characters v => if new_emb = [] ∨ v = [] then .ok 0 else .error .TypeError

end

/-- Models that recognise nothing. -/
def no_models : Outside ℚ where
  sha256 := id
  lower := id
  detect _ := none
  fromisoformat _ := none
  en_core_web_sm := none
  xx_ent_wiki_sm := none
  embedding _ := [1]
  chat_completion _ := none
  ts_match _ _ := false
  ts_rank_cd _ _ _ := 0
  similarity _ _ := 0
  fetch_vector v := .floats v
  json_dumps _ := ""
  log1p _ := 0

end qortia
