-- A response lists a memory once, unless the model names a number twice, or a chunk of knowledge
-- is selected both as a match of the text and as a neighbour of the vector.
import Mathlib.Algebra.Order.Field.Basic
import Mathlib.Data.Rat.Cast.Order
import Mathlib.Tactic.Linarith
import Mathlib.Tactic.NormNum
import Mathlib.Tactic.Ring
import Qortia.Lib.Vectors
import Qortia.RecallRows

namespace qortia

variable {K : Type} [Field K] [LinearOrder K] [HasSqrt K]

/-! ## The diversification of chunks that have one vector -/

/-- The result has a vector. -/
def RecallResult.has_vector (r : RecallResult K) : Bool := r.embedding ≠ []

section
variable {qe : List K} {lambda_ threshold : K} {selected : List (RecallResult K)}

omit [Field K] [HasSqrt K] in
theorem foldl_max_const {c : K} {l : List K} (h : ∀ x ∈ l, x = c) : l.foldl max c = c := by
  induction l with
  | nil => rfl
  | cons x l ih =>
    rw [List.foldl_cons, h x List.mem_cons_self, max_self]
    exact ih fun y hy => h y (List.mem_cons_of_mem x hy)

theorem redundancy_one_vector (hselected : ∀ s ∈ selected, s.has_vector = true → s.embedding = qe)
    {x : RecallResult K} (hx : x.embedding = qe) :
    redundancy selected x = if selected.any (·.has_vector) then cosine qe qe else 0 := by
  unfold redundancy
  have hall : ∀ c ∈ (selected.filter fun s => s.embedding ≠ []).map fun s =>
      cosine x.embedding s.embedding, c = cosine qe qe := by
    intro c hc
    obtain ⟨s, hs, rfl⟩ := List.mem_map.mp hc
    obtain ⟨hs, hvector⟩ := List.mem_filter.mp hs
    rw [hx, hselected s hs hvector]
  cases hlist : (selected.filter fun s => s.embedding ≠ []).map fun s =>
      cosine x.embedding s.embedding with
  | nil =>
    have hnone : selected.any (·.has_vector) = false := by
      have hnil := List.map_eq_nil_iff.mp hlist
      rw [List.any_eq_false]
      intro s hs hvector
      exact List.filter_eq_nil_iff.mp hnil s hs hvector
    simp [hnone]
  | cons c cs =>
    have hsome : selected.any (·.has_vector) = true := by
      obtain ⟨s, hs, -⟩ := List.mem_map.mp (hlist ▸ List.mem_cons_self : c ∈ _)
      exact List.any_eq_true.mpr ⟨s, List.mem_filter.mp hs⟩
    rw [hlist] at hall
    simp only [hsome, if_true]
    rw [hall c List.mem_cons_self]
    exact foldl_max_const fun y hy => hall y (List.mem_cons_of_mem c hy)

/-- A candidate that has no vector, or whose score is not better, is passed over. -/
theorem mmr_consider_skips {best : K × Option Nat} {l : List (RecallResult K)} (k : Nat)
    (h : ∀ x ∈ l, x.has_vector = true → threshold ≤ redundancy selected x ∨
      lambda_ * cosine qe x.embedding - (1 - lambda_) * redundancy selected x ≤ best.1) :
    (l.zipIdx k).foldl (mmr_consider qe lambda_ threshold selected) best = best := by
  induction l generalizing k with
  | nil => rfl
  | cons x l ih =>
    have hstep : mmr_consider qe lambda_ threshold selected best (x, k) = best := by
      unfold mmr_consider
      by_cases hvector : x.embedding = []
      · simp [hvector]
      · have hx := h x List.mem_cons_self (by simpa [RecallResult.has_vector] using hvector)
        simp only [hvector, if_false]
        split
        · rfl
        · rename_i hfar
          exact if_neg (not_lt.mpr (hx.resolve_left hfar))
    rw [List.zipIdx_cons, List.foldl_cons, hstep]
    exact ih (k + 1) fun y hy => h y (List.mem_cons_of_mem x hy)

/-- A vector that is redundant already ends the loop. -/
theorem mmr_loop_redundant {wanted : Nat} {remaining : List (RecallResult K)} {s : RecallResult K}
    (hredundant : ∀ x ∈ remaining, x.has_vector = true →
      threshold ≤ redundancy (s :: selected) x) :
    mmr_loop qe lambda_ threshold wanted (s :: selected) remaining = s :: selected := by
  cases wanted with
  | zero => simp [mmr_loop]
  | succ wanted =>
    cases remaining with
    | nil => simp [mmr_loop]
    | cons x remaining =>
      unfold mmr_loop
      rw [mmr_consider_skips 0 fun y hy hvector => Or.inl (hredundant y hy hvector)]

/-- The first candidate with a vector is the best one, where all have the same vector. -/
theorem mmr_loop_next {wanted : Nat} {before after : List (RecallResult K)} {s v : RecallResult K}
    (hselected : ∀ x ∈ s :: selected, x.has_vector = true → x.embedding = qe)
    (hbefore : ∀ x ∈ before, x.has_vector = false) (hv : v.embedding = qe) (hqe : qe ≠ [])
    (hafter : ∀ x ∈ after, x.has_vector = true → x.embedding = qe)
    (hfar : redundancy (s :: selected) v < threshold)
    (hscore : -1 < lambda_ * cosine qe qe - (1 - lambda_) * redundancy (s :: selected) v) :
    mmr_loop qe lambda_ threshold (wanted + 1) (s :: selected) (before ++ v :: after) =
      mmr_loop qe lambda_ threshold wanted (s :: selected ++ [v]) (before ++ after) := by
  have hbest : ((before ++ v :: after).zipIdx.foldl
      (mmr_consider qe lambda_ threshold (s :: selected)) (-1, none)).2 = some before.length := by
    have hskip : before.zipIdx.foldl (mmr_consider qe lambda_ threshold (s :: selected))
        (-1, none) = (-1, none) := by
      apply mmr_consider_skips
      intro x hx hvector
      rw [hbefore x hx] at hvector
      cases hvector
    have hstep : mmr_consider qe lambda_ threshold (s :: selected) (-1, none)
        (v, 0 + before.length) =
        (lambda_ * cosine qe qe - (1 - lambda_) * redundancy (s :: selected) v,
          some before.length) := by
      unfold mmr_consider
      simp only [hv, hqe, not_le.mpr hfar, hscore, if_false, if_true, Nat.zero_add]
    rw [List.zipIdx_append, List.foldl_append, hskip, List.zipIdx_cons, List.foldl_cons, hstep,
      mmr_consider_skips]
    intro x hx hvector
    have hxq := hafter x hx hvector
    right
    rw [hxq, redundancy_one_vector hselected hxq, redundancy_one_vector hselected hv]
  have hget : (before ++ v :: after)[before.length]? = some v := by simp
  have herase : (before ++ v :: after).eraseIdx before.length = before ++ after := by
    rw [List.eraseIdx_append_of_length_le (le_refl _), Nat.sub_self]
    rfl
  cases hlist : before ++ v :: after with
  | nil => simp at hlist
  | cons x remaining =>
    rw [hlist] at hbest hget herase
    rw [mmr_loop.eq_def]
    simp only [hbest, hget, herase]

/-- Of candidates with one vector as many are selected as are wanted, or one where it is
redundant to itself. -/
theorem mmr_loop_one_vector {wanted : Nat} {remaining : List (RecallResult K)}
    {s : RecallResult K} (hqe : qe ≠ [])
    (hselected : ∀ x ∈ s :: selected, x.has_vector = true → x.embedding = qe)
    (hremaining : ∀ x ∈ remaining, x.has_vector = true → x.embedding = qe)
    (hthreshold : 0 < threshold)
    (hscore : -1 < lambda_ * cosine qe qe ∧
      -1 < lambda_ * cosine qe qe - (1 - lambda_) * cosine qe qe) :
    mmr_loop qe lambda_ threshold wanted (s :: selected) remaining =
      s :: selected ++ (remaining.filter (·.has_vector)).take
        (if threshold ≤ cosine qe qe then
          if (s :: selected).any (·.has_vector) then 0 else min 1 wanted
        else wanted) := by
  induction wanted generalizing s selected remaining with
  | zero => simp [mmr_loop]
  | succ wanted ih =>
    cases hvectors : remaining.filter (·.has_vector) with
    | nil =>
      rw [List.take_nil, List.append_nil]
      apply mmr_loop_redundant
      intro x hx hvector
      exact absurd hvector (List.filter_eq_nil_iff.mp hvectors x hx)
    | cons v vectors =>
      obtain ⟨before, after, rfl, hbefore, hv, hrest⟩ := List.filter_eq_cons_iff.mp hvectors
      have hvq := hremaining v (by simp) hv
      have hred := redundancy_one_vector hselected hvq
      by_cases hfar : redundancy (s :: selected) v < threshold
      · have hbest : -1 <
            lambda_ * cosine qe qe - (1 - lambda_) * redundancy (s :: selected) v := by
          rw [hred]
          split
          · exact hscore.2
          · simpa using hscore.1
        rw [mmr_loop_next hselected (fun x hx => by simpa using hbefore x hx) hvq hqe
          (fun x hx => hremaining x (by simp [hx])) hfar hbest]
        have hnext : ∀ x ∈ s :: (selected ++ [v]), x.has_vector = true → x.embedding = qe := by
          intro x hx hvector
          rw [← List.cons_append, List.mem_append, List.mem_singleton] at hx
          rcases hx with hx | rfl
          · exact hselected x hx hvector
          · exact hvq
        have hkept : ∀ x ∈ before ++ after, x.has_vector = true → x.embedding = qe := by
          intro x hx
          apply hremaining x
          rw [List.mem_append] at hx
          simp [hx.imp_right Or.inr]
        have hany : (s :: (selected ++ [v])).any (·.has_vector) = true :=
          List.any_eq_true.mpr ⟨v, by simp, hv⟩
        have hfilter : (before ++ after).filter (·.has_vector) = vectors := by
          rw [List.filter_append, List.filter_eq_nil_iff.mpr hbefore, List.nil_append, hrest]
        rw [List.cons_append, ih hnext hkept, hany, hfilter]
        by_cases hself : threshold ≤ cosine qe qe
        · have hfirst : (s :: selected).any (·.has_vector) = false := by
            by_contra hany
            rw [hred, if_pos (Bool.eq_true_of_not_eq_false hany)] at hfar
            exact absurd hself (not_le.mpr hfar)
          simp [hself, hfirst]
        · simp [hself]
      · rw [mmr_loop_redundant]
        · rw [not_lt, hred] at hfar
          have hany : (s :: selected).any (·.has_vector) = true := by
            by_contra hnone
            rw [if_neg hnone] at hfar
            exact absurd hthreshold (not_lt.mpr hfar)
          rw [if_pos hany] at hfar
          simp [hfar, hany]
        · intro x hx hvector
          rw [redundancy_one_vector hselected (hremaining x hx hvector), ← hred]
          exact not_lt.mp hfar

end

/-! ## The selected chunks -/

theorem cosine_self_nonneg [IsStrictOrderedRing K] (a : List K) : 0 ≤ cosine a a := by
  unfold cosine
  simp only
  split
  · exact le_refl 0
  · exact div_nonneg (vectors.dot_self_nonneg a) (mul_self_nonneg _)

/-- `kc._score = kc._score * (1.0 + boost)`. -/
def boosted (o : Outside K) (body : RecallRequest) (kc : RecallResult K) : RecallResult K :=
  { kc with score := kc.score * (1 + keyword_boost o body.query kc.content) }

/-- The candidates that the diversification considers. -/
def eligible (o : Outside K) (body : RecallRequest) (candidates : List (RecallResult K)) :
    List (RecallResult K) :=
  (candidates.map (boosted o body)).filter fun c => ((30 / 100 : ℚ) : K) ≤ c.score

/-- How many chunks are selected by the vector, which is the same in all of them: one where it is
redundant to itself, else as many as there is room for. -/
def vector_room (qe : List K) (room : Nat) : Nat :=
  if ((85 / 100 : ℚ) : K) ≤ cosine qe qe then 1 else room

omit [HasSqrt K] in
/-- What the diversification considers has the vectors of the candidates. -/
theorem embedding_of_eligible {o : Outside K} {body : RecallRequest} {v : List K}
    {candidates : List (RecallResult K)} (h : ∀ x ∈ candidates, x.embedding = v) :
    ∀ x ∈ eligible o body candidates, x.embedding = v := by
  intro x hx
  obtain ⟨y, hy, rfl⟩ := List.mem_map.mp (List.mem_of_mem_filter hx)
  exact h y hy

/-- With a vector of the query the candidates that reach 0.30 go through the loop. -/
theorem select_knowledge_eq_mmr_loop {o : Outside K} {env : RecallEnv K} {body : RecallRequest}
    {qe : List K} (henv : env.query_embedding = some qe) (hqe : qe ≠ [])
    (candidates : List (RecallResult K)) :
    select_knowledge o env body candidates =
      mmr_loop qe ((1 / 2 : ℚ) : K) ((85 / 100 : ℚ) : K) 4 [] (eligible o body candidates) := by
  unfold select_knowledge
  rw [henv]
  simp only [hqe, false_or]
  split
  · rename_i hnone
    subst hnone
    simp [eligible, mmr_loop]
  · rfl

/-- A neighbour beats the score that the inner loop starts with, also where another one is
selected. -/
theorem one_vector_scores [IsStrictOrderedRing K] (qe : List K) :
    (-1 : K) < ((1 / 2 : ℚ) : K) * cosine qe qe ∧
      (-1 : K) < ((1 / 2 : ℚ) : K) * cosine qe qe - (1 - ((1 / 2 : ℚ) : K)) * cosine qe qe := by
  have hself := cosine_self_nonneg qe
  constructor
  · have hhalf : (0 : K) ≤ ((1 / 2 : ℚ) : K) * cosine qe qe := mul_nonneg (by norm_num) hself
    linarith
  · have hhalf :
        ((1 / 2 : ℚ) : K) * cosine qe qe - (1 - ((1 / 2 : ℚ) : K)) * cosine qe qe = 0 := by
      push_cast
      ring
    rw [hhalf]
    norm_num

/-- The first match of the text and the first neighbours of the vector are selected. -/
theorem select_knowledge_eq [IsStrictOrderedRing K] {o : Outside K} {env : RecallEnv K}
    {body : RecallRequest} {qe : List K} {lexical semantic : List (RecallResult K)}
    (henv : env.query_embedding = some qe) (hqe : qe ≠ [])
    (hlexical : ∀ x ∈ lexical, x.embedding = []) (hsemantic : ∀ x ∈ semantic, x.embedding = qe) :
    select_knowledge o env body (lexical ++ semantic) =
      match eligible o body lexical with
      | b :: _ => b :: (eligible o body semantic).take (vector_room qe 3)
      | [] => (eligible o body semantic).take (vector_room qe 4) := by
  have hthreshold : (0 : K) < ((85 / 100 : ℚ) : K) := by norm_num
  have hscore := one_vector_scores qe
  have hL : ∀ x ∈ eligible o body lexical, x.has_vector = false := by
    intro x hx
    simp [RecallResult.has_vector, embedding_of_eligible hlexical x hx]
  have hS : ∀ x ∈ eligible o body semantic, x.embedding = qe := embedding_of_eligible hsemantic
  have hS' : ∀ x ∈ eligible o body semantic, x.has_vector = true := by
    intro x hx
    simpa [RecallResult.has_vector, hS x hx] using hqe
  have happend : eligible o body (lexical ++ semantic) =
      eligible o body lexical ++ eligible o body semantic := by
    unfold eligible
    rw [List.map_append, List.filter_append]
  rw [select_knowledge_eq_mmr_loop henv hqe, happend]
  cases hfirst : eligible o body lexical with
  | cons b L =>
    rw [hfirst] at hL
    have hb : b.has_vector = false := hL b List.mem_cons_self
    rw [List.cons_append]
    unfold mmr_loop
    rw [mmr_loop_one_vector hqe _ _ hthreshold hscore]
    · have hfilter : (L ++ eligible o body semantic).filter (·.has_vector) =
          eligible o body semantic := by
        rw [List.filter_append, List.filter_eq_nil_iff.mpr, List.filter_eq_self.mpr hS',
          List.nil_append]
        intro x hx
        simp [hL x (List.mem_cons_of_mem b hx)]
      simp [hfilter, hb, vector_room]
    · intro x hx hvector
      rw [List.mem_singleton.mp hx, hb] at hvector
      cases hvector
    · intro x hx hvector
      rcases List.mem_append.mp hx with hx | hx
      · rw [hL x (List.mem_cons_of_mem b hx)] at hvector
        cases hvector
      · exact hS x hx
  | nil =>
    cases hsecond : eligible o body semantic with
    | nil => simp [mmr_loop]
    | cons v S =>
      rw [hsecond] at hS hS'
      have hv := hS' v List.mem_cons_self
      rw [List.nil_append]
      unfold mmr_loop
      rw [mmr_loop_one_vector hqe _ _ hthreshold hscore]
      · rw [List.filter_eq_self.mpr fun x hx => hS' x (List.mem_cons_of_mem v hx)]
        unfold vector_room
        split
        · simp [hv]
        · rfl
      · intro x hx _
        exact hS x (List.mem_singleton.mp hx ▸ List.mem_cons_self)
      · intro x hx _
        exact hS x (List.mem_cons_of_mem v hx)

/-! ## The chunk that comes twice -/

section
variable {o : Outside K} {cfg : Settings} {env : RecallEnv K} {answer : Option json.Json}
  {body : RecallRequest} {agent : AgentIdentity} {db : Db K} {results : List (RecallResult K)}

omit [HasSqrt K] in
/-- The candidates are the matches of the text, and then the neighbours of the vector. -/
theorem knowledge_candidates_eq :
    (search o cfg env body agent db).filter (fun r => r.scope = .knowledge) =
      leg_results o cfg env body agent db .bm25_knowledge ++
        leg_results o cfg env body agent db .vector_knowledge := by
  have hnone : ∀ l, (∀ x ∈ run_leg o cfg env body agent db l, x.scope ≠ .knowledge) →
      (leg_results o cfg env body agent db l).filter (fun r => r.scope = .knowledge) = [] := by
    intro l hl
    apply List.filter_eq_nil_iff.mpr
    intro x hx
    simpa using hl x (mem_leg_results hx)
  have hall : ∀ l, (∀ x ∈ run_leg o cfg env body agent db l, x.scope = .knowledge) →
      (leg_results o cfg env body agent db l).filter (fun r => r.scope = .knowledge) =
        leg_results o cfg env body agent db l := by
    intro l hl
    apply List.filter_eq_self.mpr
    intro x hx
    simpa using hl x (mem_leg_results hx)
  rw [search_eq]
  simp only [List.flatMap_cons, List.flatMap_nil, List.filter_append]
  rw [hnone .bm25_private, hnone .vector_private, hnone .bm25_org, hnone .vector_org,
    hall .bm25_knowledge, hall .vector_knowledge]
  · simp
  · exact fun x hx => (mem_vector_knowledge hx).1
  · exact fun x hx => (mem_bm25_knowledge hx).1
  · intro x hx
    rw [(mem_vector_org hx).1]
    simp
  · intro x hx
    rw [(mem_bm25_org hx).1]
    simp
  · intro x hx
    obtain ⟨r, -, -, score, rank, rfl⟩ := mem_vector_private hx
    simp [to_result]
  · intro x hx
    obtain ⟨r, -, -, score, rank, rfl⟩ := mem_bm25_private hx
    simp [to_result]

/-- The matches of the text that the diversification considers. -/
def strong_matches (o : Outside K) (cfg : Settings) (env : RecallEnv K) (body : RecallRequest)
    (agent : AgentIdentity) (db : Db K) : List (OrgKnowledge K) :=
  (lexical_chunks o cfg env body agent db).filter (strong_chunk o body (knowledge_rank o body))

/-- The neighbours of the vector that the diversification considers. -/
def strong_neighbours (o : Outside K) (cfg : Settings) (env : RecallEnv K) (body : RecallRequest)
    (agent : AgentIdentity) (db : Db K) (qe : List K) : List (OrgKnowledge K) :=
  (semantic_chunks o cfg env body agent db qe).filter
    (strong_chunk o body fun r => vector_similarity o qe r.embedding)

/-- The first strong match of the text is also the one at place `p` of the strong neighbours that
there is room for. -/
def twin_at (o : Outside K) (cfg : Settings) (env : RecallEnv K) (body : RecallRequest)
    (agent : AgentIdentity) (db : Db K) (p : Nat) : Bool :=
  match env.query_embedding, strong_matches o cfg env body agent db with
  | some qe, c :: _ =>
    ((strong_neighbours o cfg env body agent db qe).take (vector_room qe 3))[p]?.any fun d =>
      d.id = c.id
  | some _, [] => false
  | none, _ => false

omit [HasSqrt K] in
/-- The candidates of a search that pass `min_score` are its strong chunks. -/
theorem eligible_map {t : List (OrgKnowledge K)} {g : OrgKnowledge K → RecallResult K}
    {raw : OrgKnowledge K → K} (hscore : ∀ r, (g r).score = raw r)
    (hcontent : ∀ r, (g r).content = r.content) :
    eligible o body (t.map g) =
      (t.filter (strong_chunk o body raw)).map fun r => boosted o body (g r) := by
  unfold eligible
  rw [List.map_map, List.filter_map]
  congr 1
  apply List.filter_congr
  intro r _
  simp [boosted, strong_chunk, hscore, hcontent]

omit [HasSqrt K] in
theorem eligible_lexical :
    eligible o body (leg_results o cfg env body agent db .bm25_knowledge) =
      (strong_matches o cfg env body agent db).map fun r => boosted o body
        (to_result (knowledge_columns r none (some (knowledge_rank o body r))) .knowledge) := by
  rw [lexical_results]
  exact eligible_map (fun r => score_of_rank r _) (fun _ => rfl)

omit [HasSqrt K] in
theorem eligible_semantic {qe : List K} (henv : env.query_embedding = some qe) :
    eligible o body (leg_results o cfg env body agent db .vector_knowledge) =
      (strong_neighbours o cfg env body agent db qe).map fun r => boosted o body
        { to_result (knowledge_columns r (some (vector_similarity o qe r.embedding)) none)
            .knowledge with embedding := qe } := by
  rw [semantic_results o cfg env body agent db henv]
  exact eligible_map (fun r => score_of_similarity r _) (fun _ => rfl)

omit [HasSqrt K] in
theorem eligible_ids {candidates : List (RecallResult K)}
    (hnodup : (candidates.map (·.id)).Nodup) : ((eligible o body candidates).map (·.id)).Nodup := by
  unfold eligible
  apply (List.filter_sublist.map _).nodup
  rw [List.map_map]
  exact hnodup

omit [HasSqrt K] in
theorem knowledge_leg_ids (hnodup : (db.org_knowledge.map (·.id)).Nodup) {l : Leg}
    (hl : l = .bm25_knowledge ∨ l = .vector_knowledge) :
    ((leg_results o cfg env body agent db l).map (·.id)).Nodup := by
  unfold leg_results
  split
  · rcases hl with rfl | rfl
    · exact bm25_knowledge_ids hnodup
    · exact vector_knowledge_ids hnodup
  · exact List.nodup_nil

omit [HasSqrt K] in
/-- Without a vector of the query there are no neighbours. -/
theorem no_neighbours (h : env.query_embedding.any (· ≠ []) = false) :
    leg_results o cfg env body agent db .vector_knowledge = [] := by
  unfold leg_results
  apply if_neg
  rw [h]
  unfold legs
  simp only [Bool.false_eq_true, if_false]
  rintro ⟨hmem, -⟩
  cases body.scope <;> simp at hmem

/-- The selected chunks are distinct, or only the first one can come again. -/
theorem knowledge_part_cases [IsStrictOrderedRing K]
    (hnodup : (db.org_knowledge.map (·.id)).Nodup) :
    (((knowledge_part o cfg env body agent db).map (·.id)).Nodup ∧
        ∀ p, twin_at o cfg env body agent db p = false) ∨
      ∃ b T, knowledge_part o cfg env body agent db = b :: T ∧ (T.map (·.id)).Nodup ∧
        ∀ p, twin_at o cfg env body agent db p = T[p]?.any fun x => x.id = b.id := by
  have hlexical : ((leg_results o cfg env body agent db .bm25_knowledge).map (·.id)).Nodup :=
    knowledge_leg_ids hnodup (Or.inl rfl)
  have hsemantic : ((leg_results o cfg env body agent db .vector_knowledge).map (·.id)).Nodup :=
    knowledge_leg_ids hnodup (Or.inr rfl)
  have htake : ∀ n, (((leg_results o cfg env body agent db .bm25_knowledge).take n).map
      (·.id)).Nodup :=
    fun n => ((List.take_sublist _ _).map _).nodup hlexical
  unfold knowledge_part twin_at
  rw [knowledge_candidates_eq]
  cases henv : env.query_embedding with
  | none =>
    rw [no_neighbours (by rw [henv]; rfl), List.append_nil]
    left
    unfold select_knowledge
    rw [henv]
    exact ⟨htake 4, fun p => rfl⟩
  | some qe =>
    by_cases hqe : qe = []
    · rw [no_neighbours (by rw [henv]; simp [hqe]), List.append_nil]
      left
      unfold select_knowledge
      rw [henv]
      simp only [hqe, true_or, if_true]
      refine ⟨htake 4, ?_⟩
      have hnone : strong_neighbours o cfg env body agent db qe = [] := by
        have hsemantic := semantic_results o cfg env body agent db henv
        rw [no_neighbours (by rw [henv]; simp [hqe]), eq_comm, List.map_eq_nil_iff] at hsemantic
        unfold strong_neighbours
        rw [hsemantic, List.filter_nil]
      intro p
      cases strong_matches o cfg env body agent db with
      | nil => rfl
      | cons c L => simp [← hqe, hnone]
    · have hvectors : ∀ x ∈ leg_results o cfg env body agent db .vector_knowledge,
          x.embedding = qe := by
        intro x hx
        have hx := (mem_vector_knowledge (mem_leg_results hx)).2.1
        rw [hx, henv]
        rfl
      rw [select_knowledge_eq henv hqe
        (fun x hx => (mem_bm25_knowledge (mem_leg_results hx)).2.1) hvectors]
      have hselected : ∀ n, (((eligible o body
          (leg_results o cfg env body agent db .vector_knowledge)).take n).map (·.id)).Nodup :=
        fun n => ((List.take_sublist _ _).map _).nodup (eligible_ids hsemantic)
      rw [eligible_lexical]
      cases strong_matches o cfg env body agent db with
      | nil => exact Or.inl ⟨hselected _, fun p => rfl⟩
      | cons c L =>
        refine Or.inr ⟨_, _, rfl, hselected _, ?_⟩
        intro p
        rw [eligible_semantic henv, ← List.map_take, List.getElem?_map, Option.any_map]
        rfl

/-- Two selected chunks have one id only if they are the twins. -/
theorem knowledge_part_twin [IsStrictOrderedRing K]
    (hnodup : (db.org_knowledge.map (·.id)).Nodup) {i j : Nat} (hij : i < j)
    (hj : j < (knowledge_part o cfg env body agent db).length) :
    ((knowledge_part o cfg env body agent db).map (·.id))[i]? =
        ((knowledge_part o cfg env body agent db).map (·.id))[j]? ↔
      i = 0 ∧ twin_at o cfg env body agent db (j - 1) = true := by
  rcases @knowledge_part_cases K _ _ _ o cfg env body agent db _ hnodup with
    ⟨hids, htwin⟩ | ⟨b, T, hpart, hids, htwin⟩
  · rw [htwin, List.getElem?_inj (by rw [List.length_map]; omega) hids]
    simp
    omega
  · rw [hpart] at hj ⊢
    rw [List.map_cons, ranking.same_in_cons_iff hids hij, htwin, List.getElem?_map]
    · cases T[j - 1]? with
      | none => simp
      | some x => simp
    · simpa using Nat.le_of_lt_succ hj

/-! ## The ids of the pipeline -/

/-- No two rows of the three memory tables have one id, as `gen_random_uuid` draws them. -/
def Db.IdsUnique (db : Db K) : Prop :=
  ((db.hindsight_memories.map (·.id) ++ db.org_memory.map (·.id)) ++
    db.org_knowledge.map (·.id)).Nodup

/-- The ids of the memories, which come before the chunks. -/
def memory_ids (o : Outside K) (cfg : Settings) (env : RecallEnv K) (body : RecallRequest)
    (agent : AgentIdentity) (db : Db K) : List UUID :=
  (fused_part o cfg env body agent db ++ linked_part o cfg env body agent db).map (·.id)

omit [HasSqrt K] in
theorem memory_ids_nodup (hnodup : (db.hindsight_memories.map (·.id)).Nodup) :
    (memory_ids o cfg env body agent db).Nodup := by
  unfold memory_ids
  rw [List.map_append]
  apply List.Nodup.append (fused_part_ids o cfg env body agent db) (linked_part_ids hnodup)
  intro k hk hlinked
  obtain ⟨x, hx, rfl⟩ := List.mem_map.mp hlinked
  exact (mem_linked_part hx).1 hk

omit [HasSqrt K] in
theorem memory_ids_subset {k : UUID} (h : k ∈ memory_ids o cfg env body agent db) :
    k ∈ db.hindsight_memories.map (·.id) ++ db.org_memory.map (·.id) := by
  obtain ⟨x, hx, rfl⟩ := List.mem_map.mp h
  rw [List.mem_append]
  rcases List.mem_append.mp hx with hx | hx
  · obtain ⟨hsearch, hscope⟩ := mem_fused_part hx
    rcases mem_search hsearch with ⟨r, hr, -, score, rank, rfl⟩ | ⟨-, r, hr, hid⟩ | ⟨hknowledge, -⟩
    · exact Or.inl (List.mem_map_of_mem hr)
    · exact Or.inr (List.mem_map.mpr ⟨r, hr, hid⟩)
    · exact absurd hknowledge hscope
  · obtain ⟨-, r, hr, -, per_source, rfl⟩ := mem_linked_part hx
    exact Or.inl (List.mem_map_of_mem hr)

theorem knowledge_part_subset {k : UUID}
    (h : k ∈ (knowledge_part o cfg env body agent db).map (·.id)) :
    k ∈ db.org_knowledge.map (·.id) := by
  obtain ⟨x, hx, rfl⟩ := List.mem_map.mp h
  obtain ⟨y, hy, hid, -⟩ := mem_select_knowledge hx
  obtain ⟨hy, hscope⟩ := List.mem_filter.mp hy
  have hscope := of_decide_eq_true hscope
  rcases mem_search hy with ⟨r, -, -, score, rank, rfl⟩ | ⟨horg, -⟩ | ⟨-, r, hr, hrid⟩
  · cases hscope
  · rw [hscope] at horg
    cases horg
  · rw [hid]
    exact List.mem_map.mpr ⟨r, hr, hrid⟩

theorem hybrid_ids :
    (hybrid_recall_pipeline o cfg env body agent db).map (·.id) =
      memory_ids o cfg env body agent db ++
        (knowledge_part o cfg env body agent db).map (·.id) := by
  unfold memory_ids
  rw [hybrid_eq, map_attach_summary fun _ => rfl, List.map_append]

/-- Two places of the pipeline have one id only if they are those of the twins. -/
theorem hybrid_twin [IsStrictOrderedRing K] (hids : db.IdsUnique) {i j : Nat} (hij : i < j)
    (hj : j < (hybrid_recall_pipeline o cfg env body agent db).length) :
    ((hybrid_recall_pipeline o cfg env body agent db).map (·.id))[i]? =
        ((hybrid_recall_pipeline o cfg env body agent db).map (·.id))[j]? ↔
      i = (memory_ids o cfg env body agent db).length ∧
        twin_at o cfg env body agent db (j - i - 1) = true := by
  have hids := List.nodup_append'.mp hids
  obtain ⟨hmemories, hknowledge, hdisjoint⟩ := hids
  have hnodup : (memory_ids o cfg env body agent db).Nodup :=
    memory_ids_nodup (List.nodup_append'.mp hmemories).1
  have hlength := congrArg List.length (@hybrid_ids K _ _ _ o cfg env body agent db)
  rw [List.length_map, List.length_append, List.length_map] at hlength
  rw [hybrid_ids]
  by_cases hi : i < (memory_ids o cfg env body agent db).length
  · constructor
    · intro heq
      by_cases hjm : j < (memory_ids o cfg env body agent db).length
      · rw [List.getElem?_append_left hi, List.getElem?_append_left hjm,
          List.getElem?_inj hi hnodup] at heq
        omega
      · have hk := List.getElem?_eq_getElem hi
        rw [List.getElem?_append_left hi, List.getElem?_append_right (Nat.le_of_not_lt hjm),
          hk] at heq
        have hmemory := memory_ids_subset (List.mem_of_getElem? hk)
        have hchunk := knowledge_part_subset (List.mem_of_getElem? heq.symm)
        exact absurd hchunk (hdisjoint hmemory)
    · intro htwin
      omega
  · rw [List.getElem?_append_right (by omega), List.getElem?_append_right (by omega),
      knowledge_part_twin hknowledge (by omega) (by omega)]
    constructor
    · rintro ⟨hzero, htwin⟩
      have hfirst : i = (memory_ids o cfg env body agent db).length := by omega
      refine ⟨hfirst, ?_⟩
      rw [← htwin, hfirst]
    · rintro ⟨hfirst, htwin⟩
      refine ⟨by omega, ?_⟩
      rw [← htwin, hfirst]

/-! ## Distinct results -/

/-- The answer of the model names a number twice before the budget is used up. -/
def named_twice (cfg : Settings) (answer : Option json.Json) (body : RecallRequest)
    (found : List (RecallResult K)) : Bool :=
  (body.rerank && 2 ≤ found.length && cfg.rerank_model ≠ "") &&
    match answer.map (picked_places found.length) with
    | some (.ok places) => !decide (places.take (shown_count cfg answer body found)).Nodup
    | some (.error _) => false
    | none => false

/-- Both copies of a chunk that is selected twice are shown. -/
def twin_shown (o : Outside K) (cfg : Settings) (env : RecallEnv K) (answer : Option json.Json)
    (body : RecallRequest) (agent : AgentIdentity) (db : Db K) : Bool :=
  let first := (memory_ids o cfg env body agent db).length
  let places := shown_places cfg answer body (hybrid_recall_pipeline o cfg env body agent db)
  !routed body && (first ∈ places &&
    places.any fun i => first < i && twin_at o cfg env body agent db (i - first - 1))

omit [Field K] [LinearOrder K] [HasSqrt K] in
theorem shown_places_nodup_iff {found : List (RecallResult K)} :
    (shown_places cfg answer body found).Nodup ↔ named_twice cfg answer body found = false := by
  unfold named_twice shown_places ordered_places reranked_places
  by_cases hrerank : body.rerank = true ∧ 2 ≤ found.length
  · by_cases hmodel : cfg.rerank_model = ""
    · simp [hrerank, hmodel, List.nodup_range]
    · simp only [hrerank, hmodel, and_self, if_true, if_false]
      cases hplaces : answer.map (picked_places found.length) with
      | none => simp [List.nodup_range]
      | some picks =>
        cases picks with
        | error e => simp [List.nodup_range]
        | ok places =>
          obtain ⟨a, -, ha⟩ := Option.map_eq_some_iff.mp hplaces
          simp only [ranking.nodup_take_picked_first (picked_places_lt ha)]
          simp [hmodel]
  · have hout : (body.rerank && decide (2 ≤ found.length)) = false := by
      simpa using hrerank
    simp [hrerank, hout, List.nodup_range]

theorem no_twin_shown_iff (hrouted : routed body = false) :
    twin_shown o cfg env answer body agent db = false ↔
      ∀ i ∈ shown_places cfg answer body (hybrid_recall_pipeline o cfg env body agent db),
        (memory_ids o cfg env body agent db).length ∈
            shown_places cfg answer body (hybrid_recall_pipeline o cfg env body agent db) →
          (memory_ids o cfg env body agent db).length < i →
            twin_at o cfg env body agent db
              (i - (memory_ids o cfg env body agent db).length - 1) = false := by
  unfold twin_shown
  simp only [hrouted, Bool.not_false, Bool.true_and, Bool.and_eq_false_iff, decide_eq_false_iff_not,
    List.any_eq_false, Bool.and_eq_true, decide_eq_true_eq, not_and, Bool.not_eq_true]
  constructor
  · intro h i hi hfirst hlt
    exact h.resolve_left (not_not.mpr hfirst) i hi hlt
  · intro h
    by_cases hfirst : (memory_ids o cfg env body agent db).length ∈
        shown_places cfg answer body (hybrid_recall_pipeline o cfg env body agent db)
    · exact Or.inr fun i hi hlt => h i hi hfirst hlt
    · exact Or.inl hfirst

/-- No two places that are shown have one id, where no twins are shown. -/
theorem shown_ids_distinct_iff [IsStrictOrderedRing K] (hids : db.IdsUnique)
    (hrouted : routed body = false) :
    (∀ i ∈ shown_places cfg answer body (hybrid_recall_pipeline o cfg env body agent db),
      ∀ j ∈ shown_places cfg answer body (hybrid_recall_pipeline o cfg env body agent db),
        ((hybrid_recall_pipeline o cfg env body agent db).map (·.id))[i]? =
          ((hybrid_recall_pipeline o cfg env body agent db).map (·.id))[j]? → i = j) ↔
      twin_shown o cfg env answer body agent db = false := by
  rw [no_twin_shown_iff hrouted]
  constructor
  · intro hinj i hi hfirst hij
    by_contra htrue
    have heq := (hybrid_twin hids hij (shown_places_lt hi)).mpr
      ⟨rfl, Bool.eq_true_of_not_eq_false htrue⟩
    have hsame := hinj _ hfirst i hi heq
    omega
  · intro hno i hi j hj heq
    rcases Nat.lt_trichotomy i j with hij | hij | hij
    · obtain ⟨rfl, htrue⟩ := (hybrid_twin hids hij (shown_places_lt hj)).mp heq
      rw [hno j hj hi hij] at htrue
      cases htrue
    · exact hij
    · obtain ⟨rfl, htrue⟩ := (hybrid_twin hids hij (shown_places_lt hi)).mp heq.symm
      rw [hno i hi hj hij] at htrue
      cases htrue

/-- The results are distinct exactly when no number is named twice and no twins are shown. -/
theorem recall_ids_are_distinct_iff [IsStrictOrderedRing K] (hids : db.IdsUnique)
    {found : List (RecallResult K)} (hfound : route o cfg env body agent db = .ok found)
    (h : «recall» o cfg env answer body agent db = .ok results) :
    (results.map (·.id)).Nodup ↔
      named_twice cfg answer body found = false ∧
        twin_shown o cfg env answer body agent db = false := by
  obtain ⟨found', hfound', rfl⟩ := recall_shows h
  obtain rfl : found' = found := by
    rw [hfound] at hfound'
    exact (Except.ok.inj hfound').symm
  rw [ranking.distinct_keys_iff fun i hi => shown_places_lt hi, shown_places_nodup_iff]
  apply and_congr_right
  intro _
  simp only [← List.getElem?_map]
  by_cases hrouted : routed body = true
  · have hmemories := (List.nodup_append'.mp hids).1
    have hnodup := route_routed_ids hrouted (List.nodup_append'.mp hmemories).1 hfound
    unfold twin_shown
    simp only [hrouted, Bool.not_true, Bool.false_and, iff_true]
    intro i hi j hj heq
    have hlt := shown_places_lt hi
    exact (List.getElem?_inj (by simpa using hlt) hnodup).mp heq
  · have hrouted := Bool.eq_false_of_not_eq_true hrouted
    obtain rfl := route_hybrid hrouted hfound
    exact shown_ids_distinct_iff hids hrouted

theorem recall_ids_are_distinct_for_the_lexer :
    ((lexer_answer { query := "lexer" }).map (·.id)).Nodup :=
  (recall_ids_are_distinct_iff (by unfold Db.IdsUnique; decide) rfl
    (show «recall» lucid_models {} lucid_env none { query := "lexer" } analyst lexer_db =
      .ok (lexer_answer { query := "lexer" }) from by decide +kernel)).mpr
    ⟨by decide +kernel, by decide +kernel⟩

/-- One chunk of knowledge. -/
def lexer_chunk_db : Db ℚ :=
  { lexer_db with
    org_knowledge := [{ id := 7, tenant_id := 1, source_type := .note, source_path := "runbook"
                        chunk_index := 0, content := "restart the lexer", content_hash := ""
                        index_summary := "", index_questions := [], index_entities := []
                        embedding := some [1], created_at := 0 }] }

/-- The chunk matches the text and is near the query, and it comes twice. -/
theorem a_chunk_comes_twice :
    ∃ results, «recall» { lucid_models with ts_rank_cd := fun _ _ _ => 1 } {} lucid_env none
        { query := "lexer", scope := .knowledge } analyst lexer_chunk_db = .ok results ∧
      ¬ (results.map (·.id)).Nodup := by
  refine ⟨_, rfl, ?_⟩
  decide +kernel

end

end qortia
