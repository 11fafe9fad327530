-- The laws of the embeddings: which steps of a run keep every vector next to the text it was
-- computed from. The requests either leave a text and its vector alone or insert a row with no
-- vector, apart from an upsert, which changes the text only, and an ingest, which copies a vector.
import Qortia.EmbeddingWorker

namespace qortia

open derived (Entry Task Grows)

variable {K : Type}

/-! ## Steps that only drop rows and insert fresh ones -/

/-- Each table loses rows and gets rows whose vectors, if any, are right. -/
def EmbeddingsGrow (o : Outside K) (db db' : Db K) : Prop :=
  ∀ tbl, Grows o.embedding (db.next tbl) (db'.next tbl) (db.entries tbl) (db'.entries tbl)

theorem EmbeddingsGrow.refl (o : Outside K) (db : Db K) : EmbeddingsGrow o db db :=
  fun _ => Grows.of_sublist (le_refl _) (List.Sublist.refl _)

theorem EmbeddingsGrow.trans {o : Outside K} {db db' db'' : Db K} (h : EmbeddingsGrow o db db')
    (h' : EmbeddingsGrow o db' db'') : EmbeddingsGrow o db db'' :=
  fun tbl => (h tbl).trans (h' tbl)

theorem EmbeddingsGrow.of_sublist {o : Outside K} {db db' : Db K}
    (hid : db.next_id ≤ db'.next_id) (hent : db.next_entity_id ≤ db'.next_entity_id)
    (h : ∀ tbl, (db'.entries tbl).Sublist (db.entries tbl)) : EmbeddingsGrow o db db' := by
  intro tbl
  refine Grows.of_sublist ?_ (h tbl)
  cases tbl with
  | qortia_entities => exact hent
  | hindsight_memories => exact hid
  | org_memory => exact hid
  | org_knowledge => exact hid

theorem EmbeddingsGrow.of_same {o : Outside K} {db db' : Db K} (hid : db'.next_id = db.next_id)
    (hent : db'.next_entity_id = db.next_entity_id)
    (h : ∀ tbl, db'.entries tbl = db.entries tbl) : EmbeddingsGrow o db db' := by
  refine .of_sublist (le_of_eq hid.symm) (le_of_eq hent.symm) fun tbl => ?_
  rw [h tbl]

/-- One table gets a row with the next id, and the others stay. -/
theorem EmbeddingsGrow.of_insert {o : Outside K} {db db' : Db K} (tbl : EmbeddedTable)
    (e : Entry String (List K)) (hkey : e.key = db.next tbl)
    (hright : ∀ v, e.value = some v → v = o.embedding e.src)
    (hnext : db'.next tbl = db.next tbl + 1) (hid : db.next_id ≤ db'.next_id)
    (hent : db.next_entity_id ≤ db'.next_entity_id)
    (htbl : db'.entries tbl = db.entries tbl ++ [e])
    (hothers : ∀ other, other ≠ tbl → db'.entries other = db.entries other) :
    EmbeddingsGrow o db db' := by
  intro other
  by_cases h : other = tbl
  · rw [h, hnext, htbl]
    exact Grows.append_one hkey hright
  · rw [hothers other h]
    refine Grows.of_sublist ?_ (List.Sublist.refl _)
    cases other with
    | qortia_entities => exact hent
    | hindsight_memories => exact hid
    | org_memory => exact hid
    | org_knowledge => exact hid

/-- A memory with the next id and without a vector. -/
theorem grow_insert_memory (o : Outside K) (db : Db K) (r : HindsightMemory K)
    (history : List MemoryHistory) (hid : r.id = db.next_id)
    (hright : ∀ v, r.embedding = some v → v = o.embedding r.content) :
    EmbeddingsGrow o db (insert_memory r history db) := by
  refine .of_insert .hindsight_memories r.entry hid hright rfl (Nat.le_succ _)
    (le_refl _) ?_ fun other hne => ?_
  · simp [Db.entries, insert_memory]
  · cases other with
    | hindsight_memories => exact absurd rfl hne
    | org_memory => rfl
    | org_knowledge => rfl
    | qortia_entities => rfl

/-! ## The requests -/

theorem remember_grows {o : Outside K} {agent : AgentIdentity} {now : Timestamp} {choice : Nat}
    {memories : List MemoryItem} {db db' : Db K} {ids : List UUID}
    (h : remember o agent now choice memories db = .ok (db', ids)) : EmbeddingsGrow o db db' := by
  refine remember_preserves h (fun db₁ mem expires_at hdb₁ => ?_)
    (fun db₁ n hdb₁ => hdb₁) (.refl o db)
  exact hdb₁.trans (grow_insert_memory o db₁ _ _ rfl fun v hv => nomatch hv)

theorem delete_memory_grows (o : Outside K) (table : TargetTable) (id : UUID) (db : Db K) :
    EmbeddingsGrow o db (delete_memory table id db) := by
  cases table with
  | hindsight_memories =>
    refine .of_sublist (le_refl _) (le_refl _) fun tbl => ?_
    cases tbl with
    | hindsight_memories => exact List.filter_sublist.map _
    | org_memory => exact List.Sublist.refl _
    | org_knowledge => exact List.Sublist.refl _
    | qortia_entities => exact List.Sublist.refl _
  | org_memory =>
    refine .of_sublist (le_refl _) (le_refl _) fun tbl => ?_
    cases tbl with
    | hindsight_memories => exact List.Sublist.refl _
    | org_memory => exact List.filter_sublist.map _
    | org_knowledge => exact List.Sublist.refl _
    | qortia_entities => exact List.Sublist.refl _
  | org_knowledge => exact .refl o db

theorem unlink_memory_grows (o : Outside K) (tenant_id id : UUID) (now : Timestamp) (db : Db K) :
    EmbeddingsGrow o db (unlink_memory tenant_id id now db) := by
  refine .of_same rfl rfl fun tbl => ?_
  cases tbl with
  | qortia_entities => exact rows.map_update (g := Entity.entry) (by intro e; rfl) _ _
  | hindsight_memories => rfl
  | org_memory => rfl
  | org_knowledge => rfl

theorem forget_grows {o : Outside K} {agent : AgentIdentity} {now : Timestamp} {id : UUID}
    {db db' : Db K} (h : forget o agent now id db = .ok db') : EmbeddingsGrow o db db' := by
  obtain ⟨-, table, content, -, rfl⟩ := forget_eq h
  exact (delete_memory_grows o table id db).trans
    (unlink_memory_grows o agent.tenant_id id now (delete_memory table id db))

theorem delete_document_grows (o : Outside K) (tenant_id : UUID) (source_path : String)
    (db : Db K) : EmbeddingsGrow o db (delete_document tenant_id source_path db) := by
  refine .of_sublist (le_refl _) (le_refl _) fun tbl => ?_
  cases tbl with
  | org_knowledge => exact List.filter_sublist.map _
  | hindsight_memories => exact List.Sublist.refl _
  | org_memory => exact List.Sublist.refl _
  | qortia_entities => exact List.Sublist.refl _

theorem delete_knowledge_grows {o : Outside K} {agent : AgentIdentity} {source_path : String}
    {db db' : Db K} {n : Nat} (h : delete_knowledge agent source_path db = .ok (db', n)) :
    EmbeddingsGrow o db db' := by
  obtain ⟨-, rfl⟩ := delete_knowledge_ok h
  exact delete_document_grows o agent.tenant_id source_path db

/-! ## An ingest, which copies vectors -/

/-- A row with a vector and with the hash of one of the sections has its index summary. -/
def CopiesFit (o : Outside K) (tenant_id : UUID) (lang : String) (sections : List Section)
    (db : Db K) : Prop :=
  ∀ r ∈ db.org_knowledge, r.tenant_id = tenant_id → r.embedding ≠ none → ∀ s ∈ sections,
    r.content_hash = section_hash o s →
      r.index_summary = (extract_index_fields o s.heading s.text lang).index_summary

theorem existing_embedding_some {choice : Nat} {tenant_id : UUID} {content_hash : String}
    {db : Db K} {v : List K} (h : existing_embedding choice tenant_id content_hash db = some v) :
    ∃ r ∈ db.org_knowledge, r.tenant_id = tenant_id ∧ r.content_hash = content_hash ∧
      r.embedding = some v := by
  unfold existing_embedding at h
  simp only at h
  obtain ⟨r, hr, hv⟩ := Option.bind_eq_some_iff.mp h
  have hmem := List.mem_of_getElem? hr
  simp only [List.mem_filter, Bool.and_eq_true, decide_eq_true_eq] at hmem
  exact ⟨r, hmem.1, hmem.2.1, hmem.2.2, hv⟩

/-- The sections are inserted with right vectors as long as the vectors there are to copy fit.
They go on to fit after each section. -/
theorem insert_sections_grows (o : Outside K) (agent : AgentIdentity) (now : Timestamp)
    (choice : Nat → Nat) (body : KnowledgeIngestRequest) (all : List Section)
    {sections : List Section} (hall : sections ⊆ all) (idx : Nat) (acc : Db K × Nat × Nat)
    (hright : ∀ r ∈ acc.1.org_knowledge, ∀ v,
      r.embedding = some v → v = o.embedding r.index_summary)
    (hfit : CopiesFit o agent.tenant_id body.lang all acc.1) :
    EmbeddingsGrow o acc.1 (insert_sections o agent now choice body idx sections acc).1 := by
  induction sections generalizing idx acc with
  | nil => exact .refl o acc.1
  | cons s rest ih =>
    obtain ⟨db, created, deduped⟩ := acc
    simp only at hright hfit
    have hs : s ∈ all := hall List.mem_cons_self
    let row := knowledge_row o agent now body db.next_id idx s
      (existing_embedding (choice idx) agent.tenant_id (section_hash o s) db)
    let db' : Db K :=
      { db with org_knowledge := db.org_knowledge ++ [row], next_id := db.next_id + 1 }
    have hrow : ∀ v, row.embedding = some v → v = o.embedding row.index_summary := by
      intro v hv
      obtain ⟨r, hr, htenant, hhash, hemb⟩ := existing_embedding_some hv
      have hsum := hfit r hr htenant (by rw [hemb]; exact Option.some_ne_none v) s hs hhash
      rw [hright r hr v hemb, hsum]
      rfl
    have hgrow : EmbeddingsGrow o db db' := by
      refine .of_insert .org_knowledge row.entry
        rfl hrow rfl (Nat.le_succ _) (le_refl _) ?_ fun other hne => ?_
      · simp [Db.entries, db']
      · cases other with
        | org_knowledge => exact absurd rfl hne
        | hindsight_memories => rfl
        | org_memory => rfl
        | qortia_entities => rfl
    have hright' : ∀ r ∈ db'.org_knowledge, ∀ v, r.embedding = some v →
        v = o.embedding r.index_summary := by
      intro r hr v hv
      rcases List.mem_append.mp hr with hr | hr
      · exact hright r hr v hv
      · rw [List.mem_singleton] at hr
        rw [hr] at hv ⊢
        exact hrow v hv
    have hfit' : CopiesFit o agent.tenant_id body.lang all db' := by
      intro r hr htenant hemb s' hs' hhash
      rcases List.mem_append.mp hr with hr | hr
      · exact hfit r hr htenant hemb s' hs' hhash
      · rw [List.mem_singleton] at hr
        subst hr
        -- The new row has the vector of an older one, with the hash of both sections.
        obtain ⟨v, hv⟩ := Option.ne_none_iff_exists'.mp hemb
        obtain ⟨q, hq, hqt, hqh, hqe⟩ := existing_embedding_some hv
        have hne : q.embedding ≠ none := by
          rw [hqe]
          exact Option.some_ne_none v
        rw [← hfit q hq hqt hne s' hs' (hqh.trans hhash)]
        exact (hfit q hq hqt hne s hs hqh).symm
    have hrest : rest ⊆ all := fun x hx => hall (List.mem_cons_of_mem _ hx)
    unfold insert_sections
    simp only
    split
    · exact hgrow.trans (ih hrest (idx + 1) (db', created, deduped + 1) hright' hfit')
    · exact hgrow.trans (ih hrest (idx + 1) (db', created + 1, deduped) hright' hfit')

/-- The document goes, and its sections come. -/
theorem ingest_grows {o : Outside K} {agent : AgentIdentity} {now : Timestamp}
    {choice : Nat → Nat} {body : KnowledgeIngestRequest} {db db' : Db K} {resp : IngestResponse}
    (hright : ∀ r ∈ db.org_knowledge, ∀ v, r.embedding = some v → v = o.embedding r.index_summary)
    (hfit : ∀ r ∈ db.org_knowledge, r.tenant_id = agent.tenant_id →
      r.source_path ≠ body.source_path → r.embedding ≠ none →
        ∀ s ∈ split_into_sections body.content, r.content_hash = section_hash o s →
          r.index_summary = (extract_index_fields o s.heading s.text body.lang).index_summary)
    (h : ingest_knowledge o agent now choice body db = .ok (db', resp)) :
    EmbeddingsGrow o db db' := by
  obtain ⟨-, ⟨-, rfl⟩ | ⟨-, -, db₂, hdb₂, rfl⟩⟩ := ingest_cases h
  · exact .refl o db'
  · have hgrow := insert_sections_grows o agent now choice body (split_into_sections body.content)
      (List.Subset.refl _) 0 (delete_document agent.tenant_id body.source_path db, 0, 0)
      (fun r hr => hright r (rows.mem_delete.mp hr).1) ?_
    · rw [← hdb₂] at hgrow
      exact (delete_document_grows o agent.tenant_id body.source_path db).trans hgrow
    · intro r hr htenant hemb s hs hhash
      obtain ⟨hmem, hof⟩ := rows.mem_delete.mp hr
      unfold of_document at hof
      refine hfit r hmem htenant ?_ hemb s hs hhash
      intro hpath
      simp [htenant, hpath] at hof

/-! ## A reflection, which inserts rows with vectors -/

/-- A statement whose new row, if any, has the vector of its content or none. -/
def WriteStatement.Right (o : Outside K) : WriteStatement K → Prop
  | .insert _ content _ _ embedding _ => ∀ v, embedding = some v → v = o.embedding content
  | _ => True

theorem exec_grows {o : Outside K} (w : Writer) (st : WriteStatement K) (hst : st.Right o)
    (db : Db K) (ids : List UUID) : EmbeddingsGrow o db (st.exec w (db, ids)).1 := by
  cases st with
  | insert type content importance entities embedding stability =>
    exact grow_insert_memory o db _ _ rfl hst
  | prune ids' =>
    refine .of_same rfl rfl fun tbl => ?_
    cases tbl with
    | hindsight_memories => exact rows.map_update (g := HindsightMemory.entry) (by intro r; rfl) _ _
    | org_memory => rfl
    | org_knowledge => rfl
    | qortia_entities => rfl
  | supersede id =>
    refine .of_same rfl rfl fun tbl => ?_
    cases tbl with
    | hindsight_memories => exact rows.map_update (g := HindsightMemory.entry) (by intro r; rfl) _ _
    | org_memory => rfl
    | org_knowledge => rfl
    | qortia_entities => rfl

theorem run_grows {o : Outside K} (w : Writer) {sts : List (WriteStatement K)}
    (hsts : ∀ st ∈ sts, st.Right o) (s : Db K × List UUID) :
    EmbeddingsGrow o s.1 (sts.foldl (fun s st => st.exec w s) s).1 := by
  induction sts generalizing s with
  | nil => exact .refl o s.1
  | cons st sts ih =>
    have hst := exec_grows w st (hsts st List.mem_cons_self) s.1 s.2
    exact hst.trans (ih (fun st' h => hsts st' (List.mem_cons_of_mem _ h)) (st.exec w s))

section
variable [Field K] [LinearOrder K] [HasSqrt K]

omit [HasSqrt K] in
/-- The INSERT of an entry has the vector that was computed for it. -/
theorem insert_row_right {o : Outside K} {body : ReflectionBody} {content : String}
    {new_emb : Option (List K)} {stability : Option K} {row : WriteStatement K}
    (hemb : ∀ v, new_emb = some v → v = o.embedding content)
    (h : write_loop.insert_row o body content new_emb stability = .ok row) : row.Right o := by
  unfold write_loop.insert_row at h
  obtain ⟨importance, -, h⟩ := bind_ok h
  split at h
  · cases h
    intro v hv
    exact hemb v (Option.filter_eq_some_iff.mp hv).1
  · cases h

omit [Field K] [LinearOrder K] [HasSqrt K] in
theorem new_embeddings_right {o : Outside K} {reflections : List Reflection} {failed : List Nat}
    {i : Nat} {body : ReflectionBody} {content : String}
    (hi : (∃ id, reflections[i]? = some (.CREATE id body)) ∨
      ∃ id, reflections[i]? = some (.UPDATE id body))
    (hc : content_text body.content = .ok content) (v : List K)
    (hv : new_embeddings o reflections failed i = some v) : v = o.embedding content := by
  have hstring : body.content.1 = .string content := by
    unfold content_text at hc
    split at hc
    · rename_i s hs
      cases hc
      exact hs
    · cases hc
  unfold new_embeddings at hv
  rcases hi with ⟨id, hi⟩ | ⟨id, hi⟩
  all_goals
    rw [hi] at hv
    simp only [hstring] at hv
    split at hv
    · cases hv
    · cases hv
      rfl

theorem write_loop_right {o : Outside K} {existing_embeddings : String → Option (StoredVector K)}
    {reflections : List Reflection} {failed : List Nat} {rest : List Reflection} {i : Nat}
    {seen : List String} {sts : List (WriteStatement K)}
    (hrest : ∀ k : Nat, rest[k]? = reflections[i + k]?)
    (h : write_loop o existing_embeddings (new_embeddings o reflections failed) i seen rest =
      .ok sts) : ∀ st ∈ sts, st.Right o := by
  induction rest generalizing i seen sts with
  | nil =>
    cases h
    exact fun st hst => (nomatch hst)
  | cons r rest ih =>
    obtain ⟨seen', head, tail, hr, htail, rfl⟩ := write_loop_cons h
    have hi : reflections[i]? = some r := by
      rw [← Nat.add_zero i, ← hrest 0]
      rfl
    have htail' : ∀ k : Nat, rest[k]? = reflections[i + 1 + k]? := by
      intro k
      rw [Nat.add_assoc, Nat.add_comm 1 k, ← hrest (k + 1)]
      rfl
    intro st hst
    rcases List.mem_append.mp hst with hst | hst
    · cases hr with
      | retain id => cases hst
      | repeated r c hc hseen => cases hst
      | create id body content row hc hseen hrow =>
        rw [List.mem_singleton] at hst
        rw [hst]
        exact insert_row_right (new_embeddings_right (Or.inl ⟨id, hi⟩) hc) hrow
      | update id body content uuid stability row hc hseen huuid hrow =>
        rcases List.mem_cons.mp hst with rfl | hst
        · trivial
        · rw [List.mem_singleton] at hst
          rw [hst]
          exact insert_row_right (new_embeddings_right (Or.inr ⟨id, hi⟩) hc) hrow
    · exact ih htail' htail st hst

theorem write_reflections_grows {o : Outside K} {cfg : Settings} {w : Writer}
    {reflections : List Reflection} {failed : List Nat}
    {existing_embeddings : String → Option (StoredVector K)}
    {existing : List (HindsightMemory K)} {db db' : Db K} {n : Nat} {counter : Option Int}
    (h : write_reflections o cfg w reflections (new_embeddings o reflections failed)
      existing_embeddings existing db = .ok (db', n, counter)) : EmbeddingsGrow o db db' := by
  unfold write_reflections at h
  obtain ⟨sts, hsts, h⟩ := bind_ok h
  obtain ⟨ids, writes, -, hwrites, rfl⟩ := write_statements_ok hsts
  have hright := write_loop_right (fun k => by rw [Nat.zero_add]) hwrites
  cases h
  refine run_grows w (fun st hst => ?_) (db, [])
  rcases List.mem_append.mp hst with hst | hst
  · split at hst
    · rw [List.mem_singleton] at hst
      rw [hst]
      trivial
    · cases hst
  · exact hright st hst

end

/-! ## The graph batch -/

theorem upsert_entity_grows (o : Outside K) (row : GraphRow) (ent : String × String)
    (now : Timestamp) (db : Db K) : EmbeddingsGrow o db (upsert_entity row ent now db) := by
  intro tbl
  cases tbl with
  | qortia_entities =>
    unfold upsert_entity rows.upsert
    simp only [Db.entries, Db.next]
    split
    · have hsame : ∀ e : Entity K, (link_entity row ent.2 now e).entry = e.entry := by
        intro e
        unfold link_entity
        split <;> rfl
      rw [rows.map_update hsame]
      exact Grows.of_sublist (Nat.le_succ _) (List.Sublist.refl _)
    · rw [List.map_append]
      exact Grows.append_one rfl fun v hv => nomatch hv
  | hindsight_memories => exact Grows.of_sublist (le_refl _) (List.Sublist.refl _)
  | org_memory => exact Grows.of_sublist (le_refl _) (List.Sublist.refl _)
  | org_knowledge => exact Grows.of_sublist (le_refl _) (List.Sublist.refl _)

theorem maybe_update_entity_summary_grows (o : Outside K) (cfg : Settings) (row : GraphRow)
    (ent_text : String) (now : Timestamp) (db : Db K) :
    EmbeddingsGrow o db (maybe_update_entity_summary o cfg row ent_text now db) := by
  unfold maybe_update_entity_summary
  split
  · exact .refl o db
  · refine .of_same rfl rfl fun tbl => ?_
    cases tbl with
    | qortia_entities => exact rows.map_update (g := Entity.entry) (by intro e; rfl) _ _
    | hindsight_memories => rfl
    | org_memory => rfl
    | org_knowledge => rfl

theorem graph_entities_grow (o : Outside K) (cfg : Settings) (now : Timestamp) (row : GraphRow)
    (ents : List (String × String)) (db : Db K) :
    EmbeddingsGrow o db (ents.foldl (graph_entity o cfg now row) db) := by
  induction ents generalizing db with
  | nil => exact .refl o db
  | cons ent ents ih =>
    rw [List.foldl_cons]
    exact ((upsert_entity_grows o row ent now db).trans
      (maybe_update_entity_summary_grows o cfg row ent.1 now _)).trans (ih _)

theorem set_graphed_grows (o : Outside K) (row : GraphRow) (db : Db K) :
    EmbeddingsGrow o db (set_graphed row db) := by
  unfold set_graphed
  split
  · refine .of_same rfl rfl fun tbl => ?_
    cases tbl with
    | hindsight_memories => exact rows.map_update (g := HindsightMemory.entry) (by intro r; rfl) _ _
    | org_memory => rfl
    | org_knowledge => rfl
    | qortia_entities => rfl
  · refine .of_same rfl rfl fun tbl => ?_
    cases tbl with
    | org_memory => exact rows.map_update (g := OrgMemory.entry) (by intro r; rfl) _ _
    | hindsight_memories => rfl
    | org_knowledge => rfl
    | qortia_entities => rfl

theorem graph_transactions_grow (o : Outside K) (cfg : Settings) (now : Timestamp)
    (picked : List GraphRow) (db : Db K) :
    EmbeddingsGrow o db (picked.foldl (graph_transaction o cfg now) db) := by
  induction picked generalizing db with
  | nil => exact .refl o db
  | cons row picked ih =>
    rw [List.foldl_cons]
    exact ((graph_entities_grow o cfg now row row.entities db).trans
      (set_graphed_grows o row _)).trans (ih _)

theorem populate_graph_batch_grows (o : Outside K) (cfg : Settings) (now : Timestamp)
    (private_ids org_ids : List UUID) (db : Db K) :
    EmbeddingsGrow o db (populate_graph_batch o cfg now private_ids org_ids db) :=
  (graph_transactions_grow o cfg now _ db).trans (graph_transactions_grow o cfg now _ _)

/-! ## The invariant of the worker -/

/-- In each table the vectors are right, and the worker carries the texts that are there. -/
def GoodEmbedding (o : Outside K) (s : Embedding K) : Prop :=
  ∀ tbl, derived.Good o.embedding (s.db.next tbl) (s.db.entries tbl) (s.tasks tbl)

theorem GoodEmbedding.grow {o : Outside K} {s : Embedding K} (h : GoodEmbedding o s) {db' : Db K}
    (hg : EmbeddingsGrow o s.db db') : GoodEmbedding o { s with db := db' } :=
  fun tbl => (h tbl).grow (hg tbl)

theorem GoodEmbedding.committed {o : Outside K} {s : Embedding K} (h : GoodEmbedding o s)
    {α : Type} {db : α → Db K} {r : Except Failure α}
    (hg : ∀ a, r = .ok a → EmbeddingsGrow o s.db (db a)) : GoodEmbedding o (committed s db r) := by
  cases r with
  | error e => exact h
  | ok a => exact h.grow (hg a rfl)

theorem mem_tasks {s : Embedding K} {tbl : EmbeddedTable} {c : Task String (List K)} :
    c ∈ s.tasks tbl ↔ ∃ d ∈ s.claimed, d.claim.tbl = tbl ∧
      c = ⟨d.claim.id, d.claim.text_to_embed, d.embedding⟩ := by
  unfold Embedding.tasks
  simp only [List.mem_map, List.mem_filter, decide_eq_true_eq]
  constructor
  · rintro ⟨d, ⟨hd, htbl⟩, rfl⟩
    exact ⟨d, hd, htbl, rfl⟩
  · rintro ⟨d, hd, htbl, rfl⟩
    exact ⟨d, ⟨hd, htbl⟩, rfl⟩

/-- An upsert changes the content of a row that has no vector and that nobody carries, or it
gives the row the content that it has. -/
theorem good_remember_org {o : Outside K} {s : Embedding K} (h : GoodEmbedding o s)
    {agent : AgentIdentity} {now : Timestamp} {body : RememberOrgRequest}
    (hok : KeepsTexts o s (.remember_org agent now body)) {db' : Db K} {row_id : UUID}
    (hreq : remember_org o agent now body s.db = .ok (db', row_id)) :
    GoodEmbedding o { s with db := db' } := by
  obtain ⟨-, history, rfl⟩ := remember_org_ok hreq
  by_cases hany : s.db.org_memory.any (org_conflict agent body) = true
  · rw [rows.upsert_of_any hany]
    intro tbl
    cases tbl with
    | org_memory =>
      have hnext : derived.Good o.embedding (s.db.next_id + 1) (s.db.entries .org_memory)
          (s.tasks .org_memory) :=
        (h .org_memory).grow (Grows.of_sublist (Nat.le_succ _) (List.Sublist.refl _))
      refine hnext.change ?_ fun e' he' => ?_
      · simp only [Db.entries, List.map_map]
        exact rows.map_update (by intro r; rfl) _ _
      · obtain ⟨q, hq, rfl⟩ := List.mem_map.mp he'
        obtain ⟨r, hr, ⟨hconf, rfl⟩ | ⟨-, rfl⟩⟩ := rows.mem_update.mp hq
        · refine ⟨r.entry, List.mem_map_of_mem hr, rfl, rfl, ?_⟩
          by_cases hheld : r.embedding ≠ none ∨
              ∃ c ∈ s.claimed, c.claim.tbl = .org_memory ∧ c.claim.id = r.id
          · exact Or.inl (hok r hr hconf hheld)
          · rw [not_or, not_not] at hheld
            refine Or.inr ⟨hheld.1, fun c hc hkey => hheld.2 ?_⟩
            obtain ⟨d, hd, htbl, rfl⟩ := mem_tasks.mp hc
            exact ⟨d, hd, htbl, hkey⟩
        · exact ⟨q.entry, List.mem_map_of_mem hr, rfl, rfl, Or.inl rfl⟩
    | hindsight_memories =>
      exact (h .hindsight_memories).grow (Grows.of_sublist (Nat.le_succ _) (List.Sublist.refl _))
    | org_knowledge =>
      exact (h .org_knowledge).grow (Grows.of_sublist (Nat.le_succ _) (List.Sublist.refl _))
    | qortia_entities => exact h .qortia_entities
  · have hgrow : EmbeddingsGrow o s.db { s.db with
        org_memory := rows.upsert (org_conflict agent body) (org_excluded o agent now body)
          (org_row o agent now body s.db.next_id) s.db.org_memory
        memory_history := history
        next_id := s.db.next_id + 1 } := by
      refine .of_insert .org_memory (org_row o agent now body s.db.next_id).entry rfl
        (fun v hv => nomatch hv) rfl (Nat.le_succ _) (le_refl _) ?_ fun other hne => ?_
      · simp [Db.entries, rows.upsert, hany]
      · cases other with
        | org_memory => exact absurd rfl hne
        | hindsight_memories => rfl
        | org_knowledge => rfl
        | qortia_entities => rfl
    exact h.grow hgrow

theorem claimable_entry {db : Db K} {c : Claim} (h : c ∈ claimable db) :
    ∃ e ∈ db.entries c.tbl, e.key = c.id ∧ e.src = c.text_to_embed := by
  unfold claimable at h
  rcases List.mem_append.mp h with h | h
  · rcases List.mem_append.mp h with h | h
    · rcases List.mem_append.mp h with h | h
      · obtain ⟨r, hr, rfl⟩ := List.mem_map.mp h
        exact ⟨r.entry, List.mem_map_of_mem (List.mem_filter.mp hr).1, rfl, rfl⟩
      · obtain ⟨r, hr, rfl⟩ := List.mem_map.mp h
        exact ⟨r.entry, List.mem_map_of_mem (List.mem_filter.mp hr).1, rfl, rfl⟩
    · obtain ⟨r, hr, rfl⟩ := List.mem_map.mp h
      exact ⟨r.entry, List.mem_map_of_mem (List.mem_filter.mp hr).1, rfl, rfl⟩
  · obtain ⟨e, he, rfl⟩ := List.mem_map.mp h
    exact ⟨e.entry, List.mem_map_of_mem (List.mem_filter.mp he).1, rfl, rfl⟩

/-- What the worker carries was read before or is read now, and its vectors are computed. -/
theorem GoodEmbedding.work {o : Outside K} {s : Embedding K} (h : GoodEmbedding o s)
    {claimed' : List (Claimed K)}
    (hread : ∀ d ∈ claimed', (∃ c ∈ s.claimed, c.claim = d.claim) ∨ d.claim ∈ claimable s.db)
    (hvalue : ∀ d ∈ claimed', ∀ v, d.embedding = some v →
      v = o.embedding d.claim.text_to_embed) :
    GoodEmbedding o { s with claimed := claimed' } := by
  intro tbl
  refine (h tbl).work (fun c hc => ?_) fun c hc v hv => ?_
  · obtain ⟨d, hd, rfl, rfl⟩ := mem_tasks.mp hc
    rcases hread d hd with ⟨c, hc, heq⟩ | hclaim
    · refine Or.inl ⟨_, mem_tasks.mpr ⟨c, hc, by rw [heq], rfl⟩, ?_, ?_⟩
      · rw [heq]
      · rw [heq]
    · exact Or.inr (claimable_entry hclaim)
  · obtain ⟨d, hd, -, rfl⟩ := mem_tasks.mp hc
    exact hvalue d hd v hv

theorem GoodEmbedding.computed {o : Outside K} {s : Embedding K} (h : GoodEmbedding o s)
    {d : Claimed K} (hd : d ∈ s.claimed) (v : List K) (hv : d.embedding = some v) :
    v = o.embedding d.claim.text_to_embed :=
  (h d.claim.tbl).computed _ (mem_tasks.mpr ⟨d, hd, rfl, rfl⟩) v hv

/-- The worker drops rows. -/
theorem GoodEmbedding.drop {o : Outside K} {s : Embedding K} (h : GoodEmbedding o s)
    {claimed' : List (Claimed K)} (hsub : claimed' ⊆ s.claimed) :
    GoodEmbedding o { s with claimed := claimed' } :=
  h.work (fun d hd => Or.inl ⟨d, hsub hd, rfl⟩) fun _ hd v hv => h.computed (hsub hd) v hv

/-- Setting a column of the rows with an id sets the value of the entries with that key. -/
theorem map_update_fill {Row : Type} {t : List Row} {entry : Row → Entry String (List K)}
    {set : Row → Row} {key : Row → UUID} {id : UUID} {v : List K}
    (hkey : ∀ r, (entry r).key = key r)
    (hset : ∀ r, entry (set r) = { entry r with value := some v }) :
    (rows.update (fun r => key r = id) set t).map entry =
      (t.map entry).map (derived.fill id v) := by
  unfold rows.update derived.fill
  rw [List.map_map, List.map_map]
  refine List.map_congr_left fun r _ => ?_
  by_cases hid : key r = id
  · simp [hid, hkey, hset]
  · simp [hid, hkey]

theorem write_embedding_entries (tbl : EmbeddedTable) (id : UUID) (v : List K) (db : Db K) :
    (write_embedding tbl id v db).entries tbl = (db.entries tbl).map (derived.fill id v) := by
  cases tbl with
  | hindsight_memories => exact map_update_fill (fun r => rfl) fun r => rfl
  | org_memory => exact map_update_fill (fun r => rfl) fun r => rfl
  | org_knowledge => exact map_update_fill (fun r => rfl) fun r => rfl
  | qortia_entities => exact map_update_fill (fun e => rfl) fun e => rfl

theorem write_embedding_frame {tbl other : EmbeddedTable} (h : other ≠ tbl) (id : UUID)
    (v : List K) (db : Db K) : (write_embedding tbl id v db).entries other = db.entries other := by
  cases tbl with
  | hindsight_memories => cases other <;> first | rfl | exact absurd rfl h
  | org_memory => cases other <;> first | rfl | exact absurd rfl h
  | org_knowledge => cases other <;> first | rfl | exact absurd rfl h
  | qortia_entities => cases other <;> first | rfl | exact absurd rfl h

theorem write_embedding_next (tbl other : EmbeddedTable) (id : UUID) (v : List K) (db : Db K) :
    (write_embedding tbl id v db).next other = db.next other := by
  cases tbl <;> rfl

/-- The vector that the worker writes goes to the row that it read, and belongs to its text. -/
theorem GoodEmbedding.write {o : Outside K} {s : Embedding K} (h : GoodEmbedding o s)
    {d : Claimed K} (hd : d ∈ s.claimed) {v : List K} (hv : d.embedding = some v) :
    GoodEmbedding o { s with db := write_embedding d.claim.tbl d.claim.id v s.db } := by
  intro tbl
  show derived.Good o.embedding ((write_embedding d.claim.tbl d.claim.id v s.db).next tbl)
    ((write_embedding d.claim.tbl d.claim.id v s.db).entries tbl) (s.tasks tbl)
  rw [write_embedding_next]
  by_cases htbl : tbl = d.claim.tbl
  · subst htbl
    rw [write_embedding_entries]
    exact (h d.claim.tbl).fill (mem_tasks.mpr ⟨d, hd, rfl, rfl⟩) hv
  · rw [write_embedding_frame htbl]
    exact h tbl

theorem count_attempt_grows (o : Outside K) (tbl : EmbeddedTable) (id : UUID) (db : Db K) :
    EmbeddingsGrow o db (count_attempt tbl id db) := by
  refine .of_same ?_ ?_ fun other => ?_
  · cases tbl <;> rfl
  · cases tbl <;> rfl
  · cases tbl with
    | hindsight_memories =>
      cases other with
      | hindsight_memories =>
        exact rows.map_update (g := HindsightMemory.entry) (by intro r; rfl) _ _
      | _ => rfl
    | org_memory =>
      cases other with
      | org_memory => exact rows.map_update (g := OrgMemory.entry) (by intro r; rfl) _ _
      | _ => rfl
    | org_knowledge =>
      cases other with
      | org_knowledge => exact rows.map_update (g := OrgKnowledge.entry) (by intro r; rfl) _ _
      | _ => rfl
    | qortia_entities =>
      cases other with
      | qortia_entities => exact rows.map_update (g := Entity.entry) (by intro e; rfl) _ _
      | _ => rfl

/-! ## One step -/

theorem embedding_step_good [Field K] [LinearOrder K] [HasSqrt K] {o : Outside K} {cfg : Settings}
    {s s' : Embedding K} {a : EmbeddingAction K} (hs : GoodEmbedding o s) (hok : KeepsTexts o s a)
    (h : embedding_step o cfg s a = some s') : GoodEmbedding o s' := by
  cases a with
  | remember agent now choice memories =>
    cases h
    exact hs.committed fun a ha => remember_grows ha
  | remember_org agent now body =>
    cases h
    cases hreq : remember_org o agent now body s.db with
    | error e => exact hs
    | ok a => exact good_remember_org hs hok hreq
  | reflect w existing reflections failed =>
    cases h
    exact hs.committed fun a ha => write_reflections_grows ha
  | ingest_knowledge agent now choice body =>
    cases h
    refine hs.committed fun a ha => ingest_grows (fun r hr v hv => ?_) hok ha
    exact (hs .org_knowledge).right r.entry (List.mem_map_of_mem hr) v hv
  | delete_knowledge agent source_path =>
    cases h
    exact hs.committed fun a ha => delete_knowledge_grows ha
  | forget agent now id =>
    cases h
    exact hs.committed fun a ha => forget_grows ha
  | populate_graph now private_ids org_ids =>
    cases h
    exact hs.grow (populate_graph_batch_grows o cfg now private_ids org_ids s.db)
  | claim picked =>
    unfold embedding_step at h
    simp only at h
    split at h
    · rename_i hpicked
      cases h
      refine hs.work (fun d hd => ?_) fun d hd v hv => ?_
      · rcases List.mem_append.mp hd with hd | hd
        · exact Or.inl ⟨d, hd, rfl⟩
        · obtain ⟨c, hc, rfl⟩ := List.mem_map.mp hd
          exact Or.inr (hpicked hc)
      · rcases List.mem_append.mp hd with hd | hd
        · exact hs.computed hd v hv
        · obtain ⟨c, hc, rfl⟩ := List.mem_map.mp hd
          cases hv
    · cases h
  | embed i =>
    unfold embedding_step at h
    simp only at h
    split at h
    · rename_i claim hi
      have hmem := List.mem_of_getElem? hi
      split at h
      · cases h
        exact hs.drop List.eraseIdx_subset
      · cases h
        refine hs.work (fun d hd => ?_) fun d hd v hv => ?_
        · rcases List.mem_or_eq_of_mem_set hd with hd | rfl
          · exact Or.inl ⟨d, hd, rfl⟩
          · exact Or.inl ⟨_, hmem, rfl⟩
        · rcases List.mem_or_eq_of_mem_set hd with hd | rfl
          · exact hs.computed hd v hv
          · cases hv
            rfl
    · cases h
  | write i =>
    unfold embedding_step at h
    simp only at h
    split at h
    · rename_i claim v hi
      cases h
      exact (hs.write (List.mem_of_getElem? hi) rfl).drop List.eraseIdx_subset
    · cases h
  | fail i =>
    unfold embedding_step at h
    simp only at h
    split at h
    · cases h
      exact (hs.grow (count_attempt_grows o _ _ s.db)).drop List.eraseIdx_subset
    · cases h

/-! ## Whole runs -/

/-- In a run from a blank database, whatever the order of requests and worker steps, no vector is
ever stale as long as no upsert changes the content of a row with a vector or in the hands of the
worker, and no ingest copies a vector from a row with another index summary. -/
theorem no_embedding_is_ever_stale [Field K] [LinearOrder K] [HasSqrt K] (o : Outside K)
    (cfg : Settings) (db : Db K) (hdb : db.Blank) (actions : List (EmbeddingAction K))
    (hok : runs.Guarded (embedding_step o cfg) (KeepsTexts o) { db } actions) :
    runs.Always (embedding_step o cfg) (NoStaleEmbedding o) { db } actions := by
  have hstart : GoodEmbedding o { db } := by
    intro tbl
    have hnil : db.entries tbl = [] := by
      cases tbl with
      | hindsight_memories => simp [Db.entries, hdb.hindsight_memories]
      | org_memory => simp [Db.entries, hdb.org_memory]
      | org_knowledge => simp [Db.entries, hdb.org_knowledge]
      | qortia_entities => simp [Db.entries, hdb.qortia_entities]
    show derived.Good _ _ (db.entries tbl) []
    rw [hnil]
    exact ⟨fun _ h => (nomatch h), List.nodup_nil, fun _ h => (nomatch h), fun _ h => (nomatch h),
      fun _ h => (nomatch h), fun _ h => (nomatch h)⟩
  have hright : ∀ s : Embedding K, GoodEmbedding o s → NoStaleEmbedding o s :=
    fun s hs tbl => (hs tbl).right
  have hstep : ∀ (s : Embedding K) a s', GoodEmbedding o s → KeepsTexts o s a →
      embedding_step o cfg s a = some s' → GoodEmbedding o s' :=
    fun s a s' hs ha h => embedding_step_good hs ha h
  exact runs.always_of_invariant hright hstep hstart hok

/-- An embedding model that tells texts of different lengths apart. -/
def length_model : Outside ℚ := { no_models with embedding := fun s => [(s.length : ℚ)] }

/-- The process is written, embedded, and written anew. -/
def process_written_twice (first second : RememberOrgRequest) : List (EmbeddingAction ℚ) :=
  [.remember_org chief 1 first, .claim [⟨.org_memory, 0, 1, none, first.content⟩], .embed 0,
   .write 0, .remember_org chief 2 second]

theorem no_embedding_is_ever_stale_process :
    runs.Always (embedding_step length_model {}) (NoStaleEmbedding length_model)
      { db := chief_db } (process_written_twice deploy_once deploy_once) :=
  no_embedding_is_ever_stale length_model {} chief_db chief_db_blank _ (by decide +kernel)

/-- The row of the process that changed, with the vector of its first text. -/
def stale_process : OrgMemory ℚ :=
  { id := 0, tenant_id := 1, type := .process, title := "deploy", content := wait_twice,
    embedding := some [53], author_id := some 20, valid_from := 1, created_at := 1,
    updated_at := 2 }

theorem an_upsert_leaves_a_stale_embedding :
    ((runs.run (embedding_step length_model {}) { db := chief_db }
        (process_written_twice deploy_once deploy_twice)).map (·.db.org_memory) =
          some [stale_process]) ∧
      length_model.embedding stale_process.content = [59] ∧
      ¬ runs.Always (embedding_step length_model {}) (NoStaleEmbedding length_model)
        { db := chief_db } (process_written_twice deploy_once deploy_twice) := by
  have hrun : (runs.run (embedding_step length_model {}) { db := chief_db }
      (process_written_twice deploy_once deploy_twice)).map (·.db.org_memory) =
        some [stale_process] := by
    decide +kernel
  refine ⟨hrun, by decide +kernel, fun h => ?_⟩
  obtain ⟨s, hs, hrows⟩ := Option.map_eq_some_iff.mp hrun
  have hmem : stale_process.entry ∈ s.db.entries .org_memory := by
    unfold Db.entries
    rw [hrows]
    exact List.mem_cons_self
  have hfresh := h.last hs .org_memory stale_process.entry hmem [53] rfl
  exact absurd hfresh (by decide +kernel)

end qortia
