-- `qortia.recall_helpers`: the pure functions of the recall pipeline, and the results that they
-- rank.
import Mathlib.Data.List.Infix
import Qortia.Lib.Text
import Qortia.Outside

namespace qortia

variable {K : Type}

/-! ## The request -/

inductive RecallScope where
  | private_
  | org
  | knowledge
  | all
  | archive
  deriving DecidableEq, Repr

/-- `models.RecallRequest`. -/
structure RecallRequest where
  query : String
  scope : RecallScope := .all
  type : Option MemoryType := none
  rerank : Bool := false
  entities : Option (List String) := none
  as_of : Option Timestamp := none
  lang : Option String := none
  max_chars : Option Int := none
  deriving DecidableEq

/-- `_bm25_normalization`. -/
def bm25_normalization (query : String) : Nat :=
  if (text.words query.toList).length ≤ 3 then 32 else 0

/-- `_entity_filter_clause`. -/
def entity_filter (body : RecallRequest) (entities : List (String × String)) : Bool :=
  match body.entities with
  | none => true
  | some wanted => wanted = [] || entities.any fun e => e.1 ∈ wanted

/-- `_type_filter_clause`. -/
def type_filter (body : RecallRequest) (type : MemoryType) : Bool :=
  body.type.all fun t => type = t

/-- `_temporal_filter_clause`. -/
def temporal_filter (body : RecallRequest) (valid_from : Timestamp)
    (valid_until : Option Timestamp) : Bool :=
  match body.as_of with
  | none => valid_until.isNone
  | some as_of => valid_from ≤ as_of && valid_until.all (as_of < ·)

/-- `_lang_filter_clause`. -/
def lang_filter (body : RecallRequest) (lang : String) : Bool :=
  match body.lang with
  | none => true
  | some l => l = "" || lang = l

/-! ## The results -/

inductive ResultType where
  | memory (type : MemoryType)
  | org (type : OrgType)
  | knowledge
  deriving DecidableEq, Repr

inductive ResultScope where
  | private_
  | org
  | knowledge
  deriving DecidableEq, Repr

/-- `models.RecallResult`, with its private attributes. A text that `isoformat` gives is kept as
the time. -/
structure RecallResult (K : Type) where
  id : UUID
  type : ResultType
  scope : ResultScope
  content : String
  importance : Option ℚ := none
  created_at : Timestamp
  entity_summary : Option String := none
  linked_via : Option UUID := none
  valid_from : Option Timestamp := none
  valid_until : Option Timestamp := none
  recall_count : Nat := 0
  last_recalled_at : Option Timestamp := none
  confidence_multiplier : ℚ := 1
  score : K
  embedding : List K := []
  deriving DecidableEq

/-- The row that a query fetches. A column that the query does not select is `none`. -/
structure FetchedRow (K : Type) where
  id : UUID
  type : Option ResultType := none
  content : String
  importance : Option ℚ := none
  created_at : Timestamp
  recall_count : Nat
  last_recalled_at : Option Timestamp
  confidence_multiplier : Option ℚ := none
  valid_from : Option Timestamp := none
  valid_until : Option Timestamp := none
  score : Option K := none
  rank : Option K := none

variable [Field K] [LinearOrder K]

/-- `_to_result`. A zero counts as missing in `row.get(..) or ..`. -/
def to_result (row : FetchedRow K) (scope : ResultScope) : RecallResult K where
  id := row.id
  type := row.type.getD .knowledge
  scope := scope
  content := row.content
  importance := row.importance
  created_at := row.created_at
  valid_from := row.valid_from
  valid_until := row.valid_until
  recall_count := row.recall_count
  last_recalled_at := row.last_recalled_at
  confidence_multiplier := (row.confidence_multiplier.filter (· ≠ 0)).getD 1
  score := ((row.score.filter (· ≠ 0)).orElse fun _ => row.rank.filter (· ≠ 0)).getD 0

/-! ## Ranking -/

/-- `dynamic_importance`. -/
def dynamic_importance (o : Outside K) (now : Timestamp) (base_importance : K) (recall_count : Nat)
    (last_recalled_at : Option Timestamp) (confidence_multiplier : K) : K :=
  let frequency_boost := o.log1p recall_count / 10
  let recency_boost :=
    match last_recalled_at with
    | none => 0
    | some t => max 0 (1 - (((now - t) / DAY : Int) : K) / 30) * (2 / 10)
  let raw := min 1 (base_importance + frequency_boost + recency_boost)
  max 0 (min 1 (raw * confidence_multiplier))

/-- `recency_boost`. -/
def recency_boost (now : Timestamp) (last_recalled_at : Option Timestamp) : K :=
  match last_recalled_at with
  | none => 0
  | some t => max 0 (1 - (((now - t) / DAY : Int) : K) / 30) * (2 / 10)

/-- `raw`. -/
def raw_importance (o : Outside K) (now : Timestamp) (base_importance : K) (recall_count : Nat)
    (last_recalled_at : Option Timestamp) : K :=
  min 1 (base_importance + o.log1p recall_count / 10 + recency_boost now last_recalled_at)

theorem dynamic_importance_eq (o : Outside K) (now : Timestamp) (b : K) (n : Nat)
    (last : Option Timestamp) (c : K) :
    dynamic_importance o now b n last c = max 0 (min 1 (raw_importance o now b n last * c)) := by
  unfold dynamic_importance raw_importance recency_boost
  rfl

/-- The importance of a result, where a missing one counts as 0.5. -/
def RecallResult.dynamic_importance (o : Outside K) (now : Timestamp) (r : RecallResult K) : K :=
  qortia.dynamic_importance o now ((r.importance.getD (1 / 2) : ℚ) : K) r.recall_count
    r.last_recalled_at (r.confidence_multiplier : K)

/-- What the dicts `scores`, `by_id` and `seen_positions` hold under a key, which is the id of the
result. -/
structure Fused (K : Type) where
  result : RecallResult K
  score : K
  position : Nat

/-- One turn of the loop of `_rrf_fuse`. -/
def rrf_add (rrf_k : Nat) (fused : List (Fused K)) (result : RecallResult K) : List (Fused K) :=
  rows.upsert (fun f => f.result.id = result.id)
    (fun f =>
      { result, score := f.score + 1 / ((rrf_k + (f.position + 1) : Nat) : K)
        position := f.position + 1 })
    { result, score := 1 / ((rrf_k + 1 : Nat) : K), position := 1 } fused

/-- `final_score` of `_rrf_fuse`. -/
def Fused.final_score (o : Outside K) (now : Timestamp) (entity_links : List UUID) (f : Fused K) :
    K :=
  let boost : K := if f.result.id ∈ entity_links then 3 / 2 else 1
  f.score * f.result.dynamic_importance o now * boost

/-- `_rrf_fuse`. -/
def rrf_fuse (o : Outside K) (cfg : Settings) (now : Timestamp) (results : List (RecallResult K))
    (entity_links : List UUID) : List (RecallResult K) :=
  (rows.order_desc (Fused.final_score o now entity_links)
    (results.foldl (rrf_add cfg.recall_rrf_k) [])).map (·.result)

/-- `_keyword_boost`. -/
def keyword_boost (o : Outside K) (query content : String) : K :=
  let query_tokens :=
    (((text.words query.toList).filter fun t => t.length > 2).map
      fun t => (o.lower (String.ofList t)).toList).dedup
  if query_tokens = [] then 0
  else
    let content_lower := (o.lower content).toList
    let matched := (query_tokens.filter fun t => t <:+: content_lower).length
    (matched : K) / (query_tokens.length : K)

/-! ## Diversification -/

variable [HasSqrt K]

/-- The largest similarity to a selected candidate that has an embedding. -/
def redundancy (selected : List (RecallResult K)) (candidate : RecallResult K) : K :=
  match (selected.filter fun s => s.embedding ≠ []).map fun s =>
      cosine candidate.embedding s.embedding with
  | [] => 0
  | similarity :: similarities => similarities.foldl max similarity

/-- One turn of the inner loop of `_mmr`, which keeps the best score and the place of its
candidate. -/
def mmr_consider (query_embedding : List K) (lambda_ dedup_threshold : K)
    (selected : List (RecallResult K)) (best : K × Option Nat)
    (candidate : RecallResult K × Nat) : K × Option Nat :=
  let (candidate, i) := candidate
  if candidate.embedding = [] then best
  else
    let relevance := cosine query_embedding candidate.embedding
    let redundancy := redundancy selected candidate
    if dedup_threshold ≤ redundancy then best
    else
      let score := lambda_ * relevance - (1 - lambda_) * redundancy
      if best.1 < score then (score, some i) else best

/-- The loop of `_mmr`, with the number of results that are still wanted. -/
def mmr_loop (query_embedding : List K) (lambda_ dedup_threshold : K) :
    (wanted : Nat) → (selected remaining : List (RecallResult K)) → List (RecallResult K)
  | 0, selected, _ => selected
  | _ + 1, selected, [] => selected
  | wanted + 1, [], first :: remaining =>
    mmr_loop query_embedding lambda_ dedup_threshold wanted [first] remaining
  | wanted + 1, s :: selected, remaining =>
    match (remaining.zipIdx.foldl
        (mmr_consider query_embedding lambda_ dedup_threshold (s :: selected)) (-1, none)).2 with
    | none => s :: selected
    | some i =>
      match remaining[i]? with
      | none => s :: selected
      | some candidate =>
        mmr_loop query_embedding lambda_ dedup_threshold wanted (s :: selected ++ [candidate])
          (remaining.eraseIdx i)

/-- `_mmr`. -/
def mmr (query_embedding : List K) (candidates : List (RecallResult K)) (lambda_ : K := 1 / 2)
    (dedup_threshold : K := 85 / 100) (min_score : K := 35 / 100) (k : Nat := 4) :
    List (RecallResult K) :=
  mmr_loop query_embedding lambda_ dedup_threshold k []
    (candidates.filter fun c => min_score ≤ c.score)

end qortia
