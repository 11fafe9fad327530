-- The chunks that the hybrid pipeline shows. The diversification takes the first eligible
-- candidate as it was delivered, and then compares vectors that are all the vector of the query.
import Qortia.Cosine
import Qortia.RecallDistinct

namespace qortia

variable {K : Type} [Field K] [LinearOrder K] [HasSqrt K]

/-! ## The knowledge results -/

/-- The candidates of the diversification, in the order in which the searches deliver them. -/
def knowledge_candidates (o : Outside K) (cfg : Settings) (env : RecallEnv K)
    (body : RecallRequest) (agent : AgentIdentity) (db : Db K) : List (RecallResult K) :=
  (search o cfg env body agent db).filter fun r => r.scope = .knowledge

/-- The chunks that the pipeline gives, without the summary that its first result gets. -/
def knowledge_results (o : Outside K) (cfg : Settings) (env : RecallEnv K) (body : RecallRequest)
    (agent : AgentIdentity) (db : Db K) : List (RecallResult K) :=
  ((hybrid_recall_pipeline o cfg env body agent db).filter fun r => r.scope = .knowledge).map
    RecallResult.untold

section
variable {o : Outside K} {cfg : Settings} {env : RecallEnv K} {body : RecallRequest}
  {agent : AgentIdentity} {db : Db K}

theorem knowledge_results_eq :
    knowledge_results o cfg env body agent db =
      (knowledge_part o cfg env body agent db).map RecallResult.untold := by
  have hcomm : ∀ l : List (RecallResult K),
      (l.filter fun r => r.scope = .knowledge).map RecallResult.untold =
        (l.map RecallResult.untold).filter fun r => r.scope = .knowledge := by
    intro l
    rw [List.filter_map]
    rfl
  have hfused : (fused_part o cfg env body agent db).filter (fun r => r.scope = .knowledge) =
      [] := by
    rw [List.filter_eq_nil_iff]
    intro x hx
    simp [(mem_fused_part hx).2]
  have hlinked : (linked_part o cfg env body agent db).filter (fun r => r.scope = .knowledge) =
      [] := by
    rw [List.filter_eq_nil_iff]
    intro x hx
    obtain ⟨-, r, -, -, per_source, rfl⟩ := mem_linked_part hx
    simp [linked_result]
  have hchunks : (knowledge_part o cfg env body agent db).filter (fun r => r.scope = .knowledge) =
      knowledge_part o cfg env body agent db := by
    rw [List.filter_eq_self]
    intro x hx
    obtain ⟨y, hy, -, hscope⟩ := mem_select_knowledge hx
    rw [hscope]
    exact (List.mem_filter.mp hy).2
  unfold knowledge_results
  rw [hcomm, hybrid_eq, map_attach_summary fun _ => rfl, ← hcomm, List.filter_append,
    List.filter_append, hfused, hlinked, hchunks, List.nil_append, List.nil_append]

end

/-! ## The first one -/

theorem mmr_loop_prefix (qe : List K) (lambda_ threshold : K) (wanted : Nat)
    (selected remaining : List (RecallResult K)) (hselected : selected ≠ []) :
    selected <+: mmr_loop qe lambda_ threshold wanted selected remaining := by
  fun_induction mmr_loop qe lambda_ threshold wanted selected remaining with
  | case1 => exact List.prefix_rfl
  | case2 => exact List.prefix_rfl
  | case3 => exact absurd rfl hselected
  | case4 => exact List.prefix_rfl
  | case5 => exact List.prefix_rfl
  | case6 wanted s selected remaining hnonempty i hbest candidate hcandidate ih =>
    exact (List.prefix_append _ _).trans (ih (by simp))

/-- The first eligible candidate is selected first, whatever its score. -/
theorem head?_mmr (qe : List K) (candidates : List (RecallResult K))
    (lambda_ threshold min_score : K) :
    (mmr qe candidates lambda_ threshold min_score).head? =
      candidates.find? fun c => min_score ≤ c.score := by
  unfold mmr
  rw [← List.head?_filter]
  cases hfirst : candidates.filter fun c => min_score ≤ c.score with
  | nil => simp [mmr_loop]
  | cons c rest =>
    rw [mmr_loop]
    have hprefix := mmr_loop_prefix qe lambda_ threshold 3 [c] rest (by simp)
    obtain ⟨more, hmore⟩ := hprefix
    rw [← hmore]
    rfl

/-- The candidate that leads: the first eligible one, or the first one where there is no vector to
diversify with. -/
def lead (o : Outside K) (env : RecallEnv K) (body : RecallRequest)
    (candidates : List (RecallResult K)) : Option (RecallResult K) :=
  if env.query_embedding.any (· ≠ []) then
    candidates.find? fun c => ((30 / 100 : ℚ) : K) ≤ (boosted o body c).score
  else candidates.head?

/-- What the pipeline shows of a candidate. -/
def shown_chunk (o : Outside K) (env : RecallEnv K) (body : RecallRequest) (c : RecallResult K) :
    RecallResult K :=
  if env.query_embedding.any (· ≠ []) then (boosted o body c).untold else c.untold

section
variable {o : Outside K} {cfg : Settings} {env : RecallEnv K} {body : RecallRequest}
  {agent : AgentIdentity} {db : Db K}

theorem head?_select_knowledge (candidates : List (RecallResult K)) :
    (select_knowledge o env body candidates).head?.map RecallResult.untold =
      (lead o env body candidates).map (shown_chunk o env body) := by
  unfold select_knowledge lead shown_chunk
  cases henv : env.query_embedding with
  | none => simp [List.head?_take]
  | some qe =>
    by_cases hqe : qe = []
    · simp [hqe, List.head?_take]
    · by_cases hnil : candidates = []
      · simp [hnil]
      · simp only [hqe, hnil, or_self, if_false, head?_mmr, List.find?_map, Option.map_map]
        simp only [Option.any_some, ne_eq, hqe, not_false_eq_true, decide_true, if_true]
        rfl

theorem head?_knowledge_results :
    (knowledge_results o cfg env body agent db).head? =
      (lead o env body (knowledge_candidates o cfg env body agent db)).map
        (shown_chunk o env body) := by
  rw [knowledge_results_eq, List.head?_map]
  exact head?_select_knowledge _

omit [LinearOrder K] [HasSqrt K] in
/-- What is shown of a candidate tells its boosted score. -/
theorem boosted_score_of_shown {c d : RecallResult K}
    (h : shown_chunk o env body c = shown_chunk o env body d) :
    (boosted o body c).score = (boosted o body d).score := by
  unfold shown_chunk at h
  split at h
  · have hscore := congrArg RecallResult.score h
    exact hscore
  · have hscore := congrArg RecallResult.score h
    have hcontent := congrArg RecallResult.content h
    simp only [RecallResult.untold] at hscore hcontent
    simp only [boosted, hscore, hcontent]

/-- The first chunk has the highest boosted score among the eligible candidates if and only if
none of them outscores the one that leads as they were delivered. -/
theorem boosting_decides_the_first_chunk_iff
    (hsome : ∃ c ∈ knowledge_candidates o cfg env body agent db,
      ((30 / 100 : ℚ) : K) ≤ (boosted o body c).score) :
    (∃ r c, (knowledge_results o cfg env body agent db).head? = some r ∧
      c ∈ knowledge_candidates o cfg env body agent db ∧ r = shown_chunk o env body c ∧
      ∀ d ∈ knowledge_candidates o cfg env body agent db,
        ((30 / 100 : ℚ) : K) ≤ (boosted o body d).score →
          (boosted o body d).score ≤ (boosted o body c).score) ↔
    ∀ c, lead o env body (knowledge_candidates o cfg env body agent db) = some c →
      ∀ d ∈ knowledge_candidates o cfg env body agent db,
        ((30 / 100 : ℚ) : K) ≤ (boosted o body d).score →
          (boosted o body d).score ≤ (boosted o body c).score := by
  have hlead : ∃ c, lead o env body (knowledge_candidates o cfg env body agent db) = some c ∧
      c ∈ knowledge_candidates o cfg env body agent db := by
    obtain ⟨c, hc, hscore⟩ := hsome
    unfold lead
    split
    · have hfound : ((knowledge_candidates o cfg env body agent db).find? fun c =>
          ((30 / 100 : ℚ) : K) ≤ (boosted o body c).score).isSome := by
        rw [List.find?_isSome]
        exact ⟨c, hc, decide_eq_true hscore⟩
      obtain ⟨b, hb⟩ := Option.isSome_iff_exists.mp hfound
      exact ⟨b, hb, List.mem_of_find?_eq_some hb⟩
    · obtain ⟨b, rest, hcons⟩ := List.exists_cons_of_ne_nil (List.ne_nil_of_mem hc)
      rw [hcons]
      exact ⟨b, rfl, List.mem_cons_self⟩
  obtain ⟨b, hb, hmem⟩ := hlead
  rw [head?_knowledge_results, hb]
  constructor
  · rintro ⟨r, c, hr, -, hshown, hmax⟩ b' hb' d hd hscore
    cases hb'
    rw [Option.map_some, Option.some.injEq] at hr
    rw [boosted_score_of_shown (hr.trans hshown)]
    exact hmax d hd hscore
  · intro hmax
    exact ⟨_, b, rfl, hmem, rfl, hmax b rfl⟩

end

/-! ## The vectors -/

section
variable {o : Outside K} {cfg : Settings} {env : RecallEnv K} {body : RecallRequest}
  {agent : AgentIdentity} {db : Db K}

omit [HasSqrt K] in
theorem keyword_boost_nonneg [IsStrictOrderedRing K] (o : Outside K) (query content : String) :
    0 ≤ (keyword_boost o query content : K) := by
  unfold keyword_boost
  simp only
  split
  · exact le_refl 0
  · exact div_nonneg (Nat.cast_nonneg _) (Nat.cast_nonneg _)

omit [HasSqrt K] in
/-- A score that suffices suffices with the boost too. -/
theorem boosted_eligible [IsStrictOrderedRing K] {c : RecallResult K}
    (h : ((30 / 100 : ℚ) : K) ≤ c.score) : ((30 / 100 : ℚ) : K) ≤ (boosted o body c).score := by
  have hmin : (0 : K) ≤ ((30 / 100 : ℚ) : K) := by norm_num
  have hboost : (1 : K) ≤ 1 + keyword_boost o body.query c.content :=
    le_add_of_nonneg_right (keyword_boost_nonneg o body.query c.content)
  exact h.trans (le_mul_of_one_le_right (hmin.trans h) hboost)

theorem vector_room_eq [IsStrictOrderedRing K] [LawfulSqrt K] (qe : List K) (room : Nat) :
    vector_room qe room = if ∀ x ∈ qe, x = 0 then room else 1 := by
  unfold vector_room
  rw [cosine_self]
  simp only [magnitude_eq_zero]
  split
  · norm_num
  · norm_num

/-- Where the text has no match, the first neighbours of the vector are shown. -/
theorem knowledge_ids_of_neighbours [IsStrictOrderedRing K] [LawfulSqrt K] {qe : List K}
    (henv : env.query_embedding = some qe) (hqe : qe ≠ [])
    (hlexical : leg_results o cfg env body agent db .bm25_knowledge = [])
    (hscores : ∀ x ∈ leg_results o cfg env body agent db .vector_knowledge,
      ((30 / 100 : ℚ) : K) ≤ x.score) :
    (knowledge_results o cfg env body agent db).map (·.id) =
      ((leg_results o cfg env body agent db .vector_knowledge).map (·.id)).take
        (if ∀ x ∈ qe, x = 0 then 4 else 1) := by
  have hsemantic : ∀ x ∈ leg_results o cfg env body agent db .vector_knowledge,
      x.embedding = qe := by
    intro x hx
    have hrun := mem_leg_results hx
    unfold run_leg at hrun
    rw [(mem_vector_knowledge hrun).2.1, henv, Option.getD_some]
  have hall : eligible o body (leg_results o cfg env body agent db .vector_knowledge) =
      (leg_results o cfg env body agent db .vector_knowledge).map (boosted o body) := by
    unfold eligible
    rw [List.filter_eq_self]
    intro x hx
    obtain ⟨y, hy, rfl⟩ := List.mem_map.mp hx
    exact decide_eq_true (boosted_eligible (hscores y hy))
  have hpart : knowledge_part o cfg env body agent db =
      ((leg_results o cfg env body agent db .vector_knowledge).map (boosted o body)).take
        (vector_room qe 4) := by
    unfold knowledge_part
    rw [knowledge_candidates_eq, hlexical,
      select_knowledge_eq henv hqe (fun x hx => absurd hx List.not_mem_nil) hsemantic, hall]
    rfl
  rw [knowledge_results_eq, hpart, List.map_map, vector_room_eq, List.map_take, List.map_map]
  rfl

/-- The neighbours of the vector are all shown, four at most, if and only if there is at most one
or the vector of the query is zero. Their own vectors play no part. -/
theorem chunks_are_judged_by_their_vectors_iff [IsStrictOrderedRing K] [LawfulSqrt K]
    (hlexical : leg_results o cfg env body agent db .bm25_knowledge = [])
    (hscores : ∀ x ∈ leg_results o cfg env body agent db .vector_knowledge,
      ((30 / 100 : ℚ) : K) ≤ x.score) :
    (((knowledge_results o cfg env body agent db).map (·.id)).Sublist
        ((leg_results o cfg env body agent db .vector_knowledge).map (·.id)) ∧
      (knowledge_results o cfg env body agent db).length =
        min 4 (leg_results o cfg env body agent db .vector_knowledge).length) ↔
    (leg_results o cfg env body agent db .vector_knowledge).length ≤ 1 ∨
      ∀ qe, env.query_embedding = some qe → ∀ x ∈ qe, x = 0 := by
  by_cases hvector : env.query_embedding.any (· ≠ []) = true
  · obtain ⟨qe, henv, hqe⟩ := (Option.any_eq_true _ _).mp hvector
    have hids := knowledge_ids_of_neighbours henv (of_decide_eq_true hqe) hlexical hscores
    have hlength : (knowledge_results o cfg env body agent db).length =
        min (if ∀ x ∈ qe, x = 0 then 4 else 1)
          (leg_results o cfg env body agent db .vector_knowledge).length := by
      rw [← List.length_map, hids, List.length_take, List.length_map]
    rw [hids, hlength, henv]
    simp only [List.take_sublist, true_and, Option.some.injEq, forall_eq']
    by_cases hzero : ∀ x ∈ qe, x = 0
    · rw [if_pos hzero]
      exact iff_of_true rfl (Or.inr hzero)
    · rw [if_neg hzero, or_iff_left hzero]
      omega
  · rw [Bool.not_eq_true] at hvector
    have hnone := @no_neighbours K _ _ o cfg env body agent db hvector
    have hempty : knowledge_results o cfg env body agent db = [] := by
      rw [knowledge_results_eq]
      unfold knowledge_part
      rw [knowledge_candidates_eq, hlexical, hnone]
      unfold select_knowledge
      split
      · rfl
      · simp
    simp [hnone, hempty]

end

/-! ## Two chunks at a right angle -/

def notes_chunk (id : UUID) (content : String) (embedding : List ℚ) : OrgKnowledge ℚ :=
  { id, tenant_id := 1, source_type := .note, source_path := "runbook", chunk_index := id, content
    content_hash := "", index_summary := "", index_questions := [], index_entities := []
    embedding := some embedding, created_at := 0 }

def right_angle_db : Db ℚ :=
  { qortia_agents := [{ id := 21, tenant_id := 1, updated_at := 0 }]
    org_knowledge := [notes_chunk 7 "restart the lexer" [1, 0],
      notes_chunk 8 "order more tea" [0, 1]] }

/-- No text matches, and vectors are compared by their cosine. -/
def neighbour_models : Outside ℚ := { no_models with similarity := cosine }

/-- A query vector that is closer to the second chunk. -/
def slanted_env : RecallEnv ℚ := { lucid_env with query_embedding := some [3, 4] }

def ask_notes (query : String) : RecallRequest := { query, scope := .knowledge }

/-- A query about tea finds the chunk that is boosted first. -/
theorem boosting_decides_the_first_chunk_for_tea :
    ∃ r c, (knowledge_results neighbour_models {} slanted_env (ask_notes "tea") analyst
        right_angle_db).head? = some r ∧
      c ∈ knowledge_candidates neighbour_models {} slanted_env (ask_notes "tea") analyst
        right_angle_db ∧
      r = shown_chunk neighbour_models slanted_env (ask_notes "tea") c ∧
      ∀ d ∈ knowledge_candidates neighbour_models {} slanted_env (ask_notes "tea") analyst
        right_angle_db,
          ((30 / 100 : ℚ) : ℚ) ≤ (boosted neighbour_models (ask_notes "tea") d).score →
          (boosted neighbour_models (ask_notes "tea") d).score ≤
            (boosted neighbour_models (ask_notes "tea") c).score :=
  (boosting_decides_the_first_chunk_iff (by decide +kernel)).mpr fun c hc => by
    have hlead : lead neighbour_models slanted_env (ask_notes "tea")
        (knowledge_candidates neighbour_models {} slanted_env (ask_notes "tea") analyst
          right_angle_db) = some { id := 8, type := .knowledge, scope := .knowledge
                                   content := "order more tea", created_at := 0, score := 4 / 5
                                   embedding := [3, 4] } := by decide +kernel
    cases hc.symm.trans hlead
    decide +kernel

/-- A query for the lexer doubles the score of the first chunk to 6/5, and the second one with its
4/5 comes first. -/
theorem the_boosted_chunk_does_not_lead :
    (knowledge_results neighbour_models {} slanted_env (ask_notes "lexer") analyst
        right_angle_db).head?.map (·.score) = some (4 / 5) ∧
      ∃ d ∈ knowledge_candidates neighbour_models {} slanted_env (ask_notes "lexer") analyst
        right_angle_db, (boosted neighbour_models (ask_notes "lexer") d).score = 6 / 5 := by
  decide +kernel

/-- Of the two neighbours of the vector, whose own vectors have a cosine of zero, one is shown. -/
theorem a_dissimilar_chunk_is_dropped :
    leg_results neighbour_models {} slanted_env (ask_notes "lexer") analyst right_angle_db
        .bm25_knowledge = [] ∧
      (∀ x ∈ leg_results neighbour_models {} slanted_env (ask_notes "lexer") analyst
        right_angle_db .vector_knowledge, ((30 / 100 : ℚ) : ℚ) ≤ x.score) ∧
      cosine ([1, 0] : List ℚ) [0, 1] = 0 ∧
      (leg_results neighbour_models {} slanted_env (ask_notes "lexer") analyst right_angle_db
        .vector_knowledge).length = 2 ∧
      (knowledge_results neighbour_models {} slanted_env (ask_notes "lexer") analyst
        right_angle_db).length = 1 := by
  decide +kernel

/-! ## One chunk over the reals -/

noncomputable def real_env : RecallEnv ℝ where
  now := 10
  query_embedding := some [1]
  failed _ := false
  expand_failed := false
  unordered l := l
  unordered_perm := List.Perm.refl

noncomputable def real_note : OrgKnowledge ℝ :=
  { id := 7, tenant_id := 1, source_type := .note, source_path := "runbook", chunk_index := 0
    content := "restart the lexer", content_hash := "", index_summary := ""
    index_questions := [], index_entities := [], embedding := some [1], created_at := 0 }

noncomputable def real_note_db : Db ℝ := { org_knowledge := [real_note] }

theorem real_neighbours :
    leg_results real_models {} real_env (ask_notes "lexer") analyst real_note_db
      .vector_knowledge =
      [{ id := 7, type := .knowledge, scope := .knowledge, content := "restart the lexer"
         created_at := 0, score := 1, embedding := [1] }] := by
  have hrow : real_note_db.org_knowledge = [real_note] := rfl
  have hvisible : knowledge_visible real_note_db analyst real_note = true := by decide
  have hembedding : real_note.embedding = some [1] := rfl
  have hleg : Leg.vector_knowledge ∈
      legs (ask_notes "lexer") (real_env.query_embedding.any (· ≠ [])) := by
    simp [legs, ask_notes, real_env]
  unfold leg_results
  rw [if_pos ⟨hleg, rfl⟩]
  unfold run_leg vector_knowledge top_rows rows.order_desc
  simp [hrow, hvisible, hembedding, to_result, knowledge_columns, real_models]
  simp [real_note, real_env, Option.filter]

theorem chunks_are_judged_by_their_vectors_one_chunk :
    ((knowledge_results real_models {} real_env (ask_notes "lexer") analyst real_note_db).map
        (·.id)).Sublist ((leg_results real_models {} real_env (ask_notes "lexer") analyst
          real_note_db .vector_knowledge).map (·.id)) ∧
      (knowledge_results real_models {} real_env (ask_notes "lexer") analyst real_note_db).length =
        min 4 (leg_results real_models {} real_env (ask_notes "lexer") analyst real_note_db
          .vector_knowledge).length :=
  (chunks_are_judged_by_their_vectors_iff
    (by simp [leg_results, run_leg, bm25_knowledge, top_rows, rows.order_desc, real_models])
    (by rw [real_neighbours]; norm_num)).mpr
    (Or.inl (by rw [real_neighbours]; exact le_refl 1))

end qortia
