-- The cache of query embeddings (`qortia.embedding_cache`) and the lookup through it,
-- `qortia.embeddings.embed_query`. The key is made of the lower-cased and trimmed query, the
-- vector is made of the query as it was asked.
import Mathlib.Logic.Function.Basic
import Qortia.Lib.Caching
import Qortia.Lib.Text
import Qortia.RecallHelpers

namespace qortia

open caching

/-! ## The model -/

/-- The fields of `config.Settings` that the cache reads. -/
structure EmbeddingSettings where
  embedding_model : String := "bge-m3"
  embedding_cache_max_size : Int := 10000
  embedding_cache_ttl_seconds : Int := 3600

/-- The answer of `/embeddings` to a model and a text, and the dimension in the settings. -/
structure Embedder (K : Type) where
  answer : (model text : String) → List K
  embedding_dimension : Nat

variable {K : Type}

/-- `embed_text` under a model. A vector of another length raises. -/
def embed_text (e : Embedder K) (model text : String) : Option (List K) :=
  if (e.answer model text).length = e.embedding_dimension then some (e.answer model text) else none

/-- `lang or "en"`. -/
def lang_or_en : Option String → String
  | none => "en"
  | some lang => if lang = "" then "en" else lang

/-- `query.lower().strip()`. -/
def normalised (o : Outside K) (query : String) : String :=
  String.ofList (text.strip (o.lower query).toList)

/-- The text `raw` of `_make_cache_key`. -/
def raw_key (o : Outside K) (model query tenant_id lang : String) : String :=
  tenant_id ++ ":" ++ model ++ ":" ++ lang ++ ":" ++ normalised o query

/-- `_make_cache_key`. -/
def make_cache_key (o : Outside K) (cfg : EmbeddingSettings) (query tenant_id lang : String) :
    String :=
  o.sha256 (raw_key o cfg.embedding_model query tenant_id lang)

variable (store : Store String (List K))

/-- `_tenant_caches`. -/
abbrev TenantCaches := String → Option store.Cache

/-- `_get_tenant_cache`. The callers put the cache back in its place. -/
def get_tenant_cache (cfg : EmbeddingSettings) (tenant_id : String)
    (caches : TenantCaches store) : store.Cache :=
  (caches tenant_id).getD
    (store.new cfg.embedding_cache_max_size cfg.embedding_cache_ttl_seconds)

def get_cached_embedding (o : Outside K) (cfg : EmbeddingSettings) (now : Int)
    (query tenant_id lang : String) (caches : TenantCaches store) :
    Option (List K) × TenantCaches store :=
  let found := store.get now (make_cache_key o cfg query tenant_id lang)
    (get_tenant_cache store cfg tenant_id caches)
  (found.1, Function.update caches tenant_id (some found.2))

/-- `put_cached_embedding`, `none` when the cache raises. -/
def put_cached_embedding (o : Outside K) (cfg : EmbeddingSettings) (now : Int)
    (query tenant_id lang : String) (embedding : List K) (caches : TenantCaches store) :
    Option (TenantCaches store) :=
  (store.set now (make_cache_key o cfg query tenant_id lang) embedding
    (get_tenant_cache store cfg tenant_id caches)).map fun cache =>
      Function.update caches tenant_id (some cache)

/-- A call of `embed_query` for a recall request, with the settings and the clock it meets. The
gateway may fail to answer. -/
structure QueryCall where
  body : RecallRequest
  tenant_id : UUID
  is_uuid : tenant_id < 16 ^ 32 := by decide
  cfg : EmbeddingSettings := {}
  asked_at : Int := 0
  stored_at : Int := 0
  answers : Bool := true

def QueryCall.tid (c : QueryCall) : String := text.ofUuid c.tenant_id

/-- `effective_lang`, of the language that the recall hands over. -/
def QueryCall.effective_lang (c : QueryCall) : String :=
  lang_or_en (some (lang_or_en c.body.lang))

def embed_query (o : Outside K) (e : Embedder K) (c : QueryCall)
    (caches : TenantCaches store) : Option (List K) × TenantCaches store :=
  let (cached, caches) :=
    get_cached_embedding store o c.cfg c.asked_at c.body.query c.tid c.effective_lang caches
  match cached with
  | some embedding => (some embedding, caches)
  | none =>
    if c.answers then
      match embed_text e c.cfg.embedding_model c.body.query with
      | none => (none, caches)
      | some embedding =>
        match put_cached_embedding store o c.cfg c.stored_at c.body.query c.tid c.effective_lang
            embedding caches with
        | none => (none, caches)
        | some caches => (some embedding, caches)
    else (none, caches)

inductive CacheEvent where
  | embed_query (c : QueryCall)
  | clear_all_caches

def cache_step (o : Outside K) (e : Embedder K) (caches : TenantCaches store) :
    CacheEvent → TenantCaches store
  | .embed_query c => (embed_query store o e c caches).2
  | .clear_all_caches => fun _ => none

/-- The caches of a process that has met the events, in their order. -/
def caches_after (o : Outside K) (e : Embedder K) (events : List CacheEvent) :
    TenantCaches store :=
  events.foldl (cache_step store o e) fun _ => none

/-- The calls among the events. -/
def calls (events : List CacheEvent) : List QueryCall :=
  events.filterMap fun
    | .embed_query c => some c
    | .clear_all_caches => none

/-! ## What the caches hold -/

namespace QueryCall

def raw_key (o : Outside K) (c : QueryCall) : String :=
  qortia.raw_key o c.cfg.embedding_model c.body.query c.tid c.effective_lang

def cache_key (o : Outside K) (c : QueryCall) : String :=
  make_cache_key o c.cfg c.body.query c.tid c.effective_lang

/-- The calls agree on all parts of the key. -/
structure Alike (o : Outside K) (d c : QueryCall) : Prop where
  tenant_id : d.tenant_id = c.tenant_id
  model : d.cfg.embedding_model = c.cfg.embedding_model
  lang : d.effective_lang = c.effective_lang
  query : normalised o d.body.query = normalised o c.body.query

/-- The text of the key tells the calls apart, where the parts do. -/
def KeysApart (o : Outside K) (d c : QueryCall) : Prop :=
  d.raw_key o = c.raw_key o → d.Alike o c

end QueryCall

/-- The vector is that of a call of the tenant with the key. -/
def Asked (o : Outside K) (e : Embedder K) (cs : List QueryCall) (tid key : String)
    (v : List K) : Prop :=
  ∃ d ∈ cs, d.tid = tid ∧ d.cache_key o = key ∧
    embed_text e d.cfg.embedding_model d.body.query = some v

/-- Every cache holds only what the calls have asked for. -/
def Cached (o : Outside K) (e : Embedder K) (cs : List QueryCall)
    (caches : TenantCaches store) : Prop :=
  ∀ tid cache, caches tid = some cache → Sound store (Asked o e cs tid) cache

section
variable {store} {o : Outside K} {e : Embedder K} {cs : List QueryCall}
  {caches : TenantCaches store}

theorem Asked.cons {tid key : String} {v : List K} (h : Asked o e cs tid key v) (c : QueryCall) :
    Asked o e (c :: cs) tid key v := by
  obtain ⟨d, hd, hasked⟩ := h
  exact ⟨d, List.mem_cons_of_mem c hd, hasked⟩

theorem Cached.cons (h : Cached store o e cs caches) (c : QueryCall) :
    Cached store o e (c :: cs) caches :=
  fun tid cache hcache => (h tid cache hcache).mono fun _ _ hasked => hasked.cons c

theorem Cached.get_tenant_cache (h : Cached store o e cs caches) (cfg : EmbeddingSettings)
    (tid : String) :
    Sound store (Asked o e cs tid) (get_tenant_cache store cfg tid caches) := by
  unfold qortia.get_tenant_cache
  cases hcache : caches tid with
  | none => exact sound_new _ _
  | some cache => exact h tid cache hcache

theorem Cached.update (h : Cached store o e cs caches) {tid : String} {cache : store.Cache}
    (hsound : Sound store (Asked o e cs tid) cache) :
    Cached store o e cs (Function.update caches tid (some cache)) := by
  intro other cache' hcache'
  by_cases hother : other = tid
  · subst hother
    rw [Function.update_self] at hcache'
    cases hcache'
    exact hsound
  · rw [Function.update_of_ne hother] at hcache'
    exact h other cache' hcache'

theorem Cached.get_cached_embedding (h : Cached store o e cs caches) (cfg : EmbeddingSettings)
    (now : Int) (query tid lang : String) :
    Cached store o e cs (get_cached_embedding store o cfg now query tid lang caches).2 :=
  h.update ((h.get_tenant_cache cfg tid).get now _)

theorem Cached.of_get_cached_embedding (h : Cached store o e cs caches) {cfg : EmbeddingSettings}
    {now : Int} {query tid lang : String} {v : List K}
    (hget : (qortia.get_cached_embedding store o cfg now query tid lang caches).1 = some v) :
    Asked o e cs tid (make_cache_key o cfg query tid lang) v :=
  (h.get_tenant_cache cfg tid).of_get hget

theorem Cached.put_cached_embedding (h : Cached store o e cs caches) {cfg : EmbeddingSettings}
    {now : Int} {query tid lang : String} {v : List K} {caches' : TenantCaches store}
    (hput : put_cached_embedding store o cfg now query tid lang v caches = some caches')
    (hasked : Asked o e cs tid (make_cache_key o cfg query tid lang) v) :
    Cached store o e cs caches' := by
  obtain ⟨cache, hset, rfl⟩ := Option.map_eq_some_iff.mp hput
  exact h.update ((h.get_tenant_cache cfg tid).set hset hasked)

theorem asked_of_call {c : QueryCall} {v : List K}
    (h : embed_text e c.cfg.embedding_model c.body.query = some v) :
    Asked o e (c :: cs) c.tid (c.cache_key o) v :=
  ⟨c, List.mem_cons_self, rfl, rfl, h⟩

/-- A call answers with what a call has asked for. -/
theorem Cached.asked_of_answer (h : Cached store o e cs caches) {c : QueryCall} {v : List K}
    (hanswer : (embed_query store o e c caches).1 = some v) :
    Asked o e (c :: cs) c.tid (c.cache_key o) v := by
  unfold embed_query at hanswer
  simp only at hanswer
  split at hanswer
  · rename_i v' hfound
    cases hanswer
    exact (h.of_get_cached_embedding hfound).cons c
  · split at hanswer
    · split at hanswer
      · cases hanswer
      · rename_i v' hembed
        split at hanswer
        · cases hanswer
        · cases hanswer
          exact asked_of_call hembed
    · cases hanswer

/-- A call leaves nothing in the caches that no call has asked for. -/
theorem Cached.embed_query (h : Cached store o e cs caches) (c : QueryCall) :
    Cached store o e (c :: cs) (embed_query store o e c caches).2 := by
  have hlooked := (h.cons c).get_cached_embedding c.cfg c.asked_at c.body.query c.tid
    c.effective_lang
  unfold qortia.embed_query
  revert hlooked
  rcases qortia.get_cached_embedding store o c.cfg c.asked_at c.body.query c.tid
    c.effective_lang caches with ⟨cached, looked⟩
  intro hlooked
  cases cached with
  | some v => exact hlooked
  | none =>
    cases hanswers : c.answers with
    | false => exact hlooked
    | true =>
      cases hembed : embed_text e c.cfg.embedding_model c.body.query with
      | none => exact hlooked
      | some v =>
        have hasked : Asked o e (c :: cs) c.tid (c.cache_key o) v := asked_of_call hembed
        simp only [if_true]
        split
        · exact hlooked
        · rename_i caches' hput
          exact hlooked.put_cached_embedding hput hasked

end

/-! ## Runs -/

variable (o : Outside K) (e : Embedder K)

theorem cached_after (events : List CacheEvent) :
    Cached store o e (calls events).reverse (caches_after store o e events) := by
  induction events using List.reverseRecOn with
  | nil => exact fun tid cache hcache => by cases hcache
  | append_singleton events x ih =>
    unfold caches_after calls
    rw [List.foldl_append, List.filterMap_append, List.reverse_append]
    cases x with
    | embed_query c => exact ih.embed_query c
    | clear_all_caches => exact fun tid cache hcache => by cases hcache

theorem tid_inj {d c : QueryCall} (h : d.tid = c.tid) : d.tenant_id = c.tenant_id := by
  have hread : text.toUuid d.tid = text.toUuid c.tid := congrArg text.toUuid h
  unfold QueryCall.tid at hread
  rw [text.toUuid_ofUuid d.is_uuid, text.toUuid_ofUuid c.is_uuid] at hread
  exact Option.some.inj hread

variable {o e}

/-- An answer is the vector of a query that was asked with the same text of the key. -/
theorem exists_asked (hsha : Function.Injective o.sha256) {events : List CacheEvent}
    {c : QueryCall} {v : List K}
    (hanswer : (embed_query store o e c (caches_after store o e events)).1 = some v) :
    ∃ d ∈ c :: calls events, d.tenant_id = c.tenant_id ∧ d.raw_key o = c.raw_key o ∧
      embed_text e d.cfg.embedding_model d.body.query = some v := by
  obtain ⟨d, hd, htid, hkey, hembed⟩ := (cached_after store o e events).asked_of_answer hanswer
  refine ⟨d, ?_, tid_inj htid, hsha hkey, hembed⟩
  rcases List.mem_cons.mp hd with rfl | hearlier
  · exact List.mem_cons_self
  · exact List.mem_cons_of_mem c (List.mem_reverse.mp hearlier)

theorem QueryCall.Alike.refl (o : Outside K) (c : QueryCall) : c.Alike o c :=
  ⟨rfl, rfl, rfl, rfl⟩

/-- Where the keys tell the calls apart, the query that was asked differs in spelling only. -/
theorem exists_alike (hsha : Function.Injective o.sha256) {events : List CacheEvent}
    {c : QueryCall} {v : List K}
    (hapart : ∀ d ∈ calls events, d.tenant_id = c.tenant_id → d.KeysApart o c)
    (hanswer : (embed_query store o e c (caches_after store o e events)).1 = some v) :
    ∃ d ∈ c :: calls events, d.Alike o c ∧
      embed_text e c.cfg.embedding_model d.body.query = some v := by
  obtain ⟨d, hd, htenant, hraw, hembed⟩ := exists_asked store hsha hanswer
  have halike : d.Alike o c := by
    rcases List.mem_cons.mp hd with rfl | hearlier
    · exact QueryCall.Alike.refl o d
    · exact hapart d hearlier htenant hraw
  rw [halike.model] at hembed
  exact ⟨d, hd, halike, hembed⟩

/-- Every successful call is answered with the vector of its own query, or of a query that the
tenant has asked before under the model and the language and that differs in case and in the space
around it only. -/
theorem the_cache_answers_up_to_spelling (hsha : Function.Injective o.sha256)
    (events : List CacheEvent) (c : QueryCall)
    (hapart : ∀ d ∈ calls events, d.tenant_id = c.tenant_id → d.KeysApart o c) (v : List K)
    (hanswer : (embed_query store o e c (caches_after store o e events)).1 = some v) :
    embed_text e c.cfg.embedding_model c.body.query = some v ∨
      ∃ d ∈ calls events, d.Alike o c ∧ d.body.query ≠ c.body.query ∧
        embed_text e c.cfg.embedding_model d.body.query = some v := by
  obtain ⟨d, hd, halike, hembed⟩ := exists_alike store hsha hapart hanswer
  by_cases hsame : d.body.query = c.body.query
  · rw [hsame] at hembed
    exact Or.inl hembed
  · rcases List.mem_cons.mp hd with rfl | hearlier
    · exact absurd rfl hsame
    · exact Or.inr ⟨d, hearlier, halike, hsame, hembed⟩

section

/-- Lower case for ASCII, and keys that are their own digest. -/
def ascii_models : Outside ℚ :=
  { no_models with lower := fun s => String.ofList (s.toList.map Char.toLower) }

/-- An embedder for which a capital letter makes a difference. -/
def cased_embedder : Embedder ℚ := ⟨fun _ text => if text = "Apple" then [1] else [2], 1⟩

def asks (query : String) : QueryCall := { body := { query }, tenant_id := 7 }

theorem the_first_spelling_answers :
    Function.Injective ascii_models.sha256 ∧
    (embed_query (expiring String (List ℚ)) ascii_models cased_embedder (asks "apple")
      (caches_after _ ascii_models cased_embedder [.embed_query (asks "Apple")])).1 = some [1] ∧
    embed_text cased_embedder (asks "apple").cfg.embedding_model "apple" = some [2] := by
  refine ⟨fun _ _ h => h, ?_, ?_⟩ <;> decide +kernel

theorem the_cache_answers_up_to_spelling_apples :
    embed_text cased_embedder "bge-m3" "apple" = some [1] ∨
      ∃ d ∈ calls [.embed_query (asks "Apple")], d.Alike ascii_models (asks "apple") ∧
        d.body.query ≠ "apple" ∧ embed_text cased_embedder "bge-m3" d.body.query = some [1] :=
  the_cache_answers_up_to_spelling (expiring String (List ℚ)) (fun _ _ h => h)
    [.embed_query (asks "Apple")] (asks "apple")
    (fun d hd _ _ => by
      rw [List.mem_singleton.mp hd]
      exact ⟨rfl, rfl, rfl, by decide +kernel⟩) [1] (by decide +kernel)

end

/-- An embedder that gives all spellings of a query one vector is served as with no cache. -/
theorem the_cache_is_transparent_to_one_vector_for_all_spellings
    (hsha : Function.Injective o.sha256) (events : List CacheEvent) (c : QueryCall)
    (hapart : ∀ d ∈ calls events, d.tenant_id = c.tenant_id → d.KeysApart o c)
    (hspelling : ∀ model q q', normalised o q = normalised o q' →
      e.answer model q = e.answer model q') (v : List K)
    (hanswer : (embed_query store o e c (caches_after store o e events)).1 = some v) :
    embed_text e c.cfg.embedding_model c.body.query = some v := by
  obtain ⟨d, -, halike, hembed⟩ := exists_alike store hsha hapart hanswer
  unfold embed_text at hembed ⊢
  rw [hspelling _ _ _ halike.query] at hembed
  exact hembed

/-! ## Keys that tell the calls apart -/

/-- Where no model and no language has a colon, the text of the key is read back. -/
theorem keysApart_of_no_colon {d c : QueryCall} (htenant : d.tenant_id = c.tenant_id)
    (hmodel : ∀ x ∈ [d, c], ':' ∉ x.cfg.embedding_model.toList)
    (hlang : ∀ x ∈ [d, c], ':' ∉ x.effective_lang.toList) : d.KeysApart o c := by
  intro hraw
  have hchars := congrArg String.toList hraw
  simp only [QueryCall.raw_key, raw_key, QueryCall.tid, htenant, String.toList_append,
    List.append_assoc, List.append_cancel_left_eq] at hchars
  simp only [List.mem_cons, List.not_mem_nil, or_false, forall_eq_or_imp, forall_eq] at hmodel hlang
  obtain ⟨hmodels, hrest⟩ := text.append_cons_inj hmodel.1 hmodel.2 hchars
  obtain ⟨hlangs, hqueries⟩ := text.append_cons_inj hlang.1 hlang.2 hrest
  exact ⟨htenant, String.toList_injective hmodels, String.toList_injective hlangs,
    String.toList_injective hqueries⟩

end qortia
