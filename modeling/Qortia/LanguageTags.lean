-- The language tags of the requests (`_normalise_lang`): every spelling with a primary subtag has
-- one form, under which its rows are written and searched. A tag whose primary subtag is blank
-- becomes the empty text, and a search under it is not filtered. A memory that is sent as English
-- is written under the language that is detected in it.
import Mathlib.Data.List.TakeWhile
import Qortia.IngestRows
import Qortia.Lib.Words
import Qortia.RecallHelpers
import Qortia.Remember

namespace qortia

open text

variable {K : Type}

/-! ## The validators -/

/-- `v.split("-")[0].split("_")[0]`. -/
def subtag (v : List Char) : List Char := (v.takeWhile (· ≠ '-')).takeWhile (· ≠ '_')

/-- `_normalise_lang`. -/
def normalise_lang (o : Outside K) : Option String → String
  | none => "en"
  | some v =>
    if v = "" ∨ strip v.toList = [] then "en"
    else String.ofList (strip (o.lower (String.ofList (subtag v.toList))).toList)

/-- `RecallRequest.normalise_lang`. -/
def recall_lang (o : Outside K) (v : Option String) : Option String :=
  v.map fun s => normalise_lang o (some s)

/-- What Python documents of `str.lower`: the cased characters are converted to lower case, and
the other ones stay. -/
structure LowerCases (lower : String → String) : Prop where
  ascii : ∀ c : Char, c.toNat < 128 → lower (String.ofList [c]) = String.ofList [c.toLower]
  /-- A text of characters without another lower-case form is not changed. -/
  fixed : ∀ s : List Char, (∀ c ∈ s, lower (String.ofList [c]) = String.ofList [c]) →
    lower (String.ofList s) = String.ofList s
  settled : ∀ s : String, ∀ c ∈ (lower s).toList, lower (String.ofList [c]) = String.ofList [c]
  separator : ∀ s : String, ∀ c ∈ (lower s).toList, c = '-' ∨ c = '_' → c ∈ s.toList
  ne_empty : ∀ s : List Char, s ≠ [] → (lower (String.ofList s)).toList ≠ []
  /-- The case of a text does not depend on the white space around it. -/
  strip_comm : ∀ s : List Char,
    strip (lower (String.ofList s)).toList = (lower (String.ofList (strip s))).toList

/-- The primary subtag in lower case. A tag that is missing or blank stands for English. -/
def primary_subtag (o : Outside K) : Option String → List Char
  | none => ['e', 'n']
  | some v =>
    if strip v.toList = [] then ['e', 'n']
    else (o.lower (String.ofList (strip (subtag v.toList)))).toList

/-- A character that is no white space stands before the first `-` or `_`, unless the whole tag is
missing or blank. -/
def HasSubtag (v : Option String) : Prop :=
  ∀ s, v = some s → strip s.toList ≠ [] → strip (subtag s.toList) ≠ []

/-- A request that writes rows under its tag. -/
inductive TaggedRequest where
  | memory (mem : MemoryItem)
  | org (body : RememberOrgRequest)
  | knowledge (body : KnowledgeIngestRequest)

/-- The tag, as the validator of the request leaves it. -/
def TaggedRequest.lang : TaggedRequest → String
  | .memory mem => mem.lang
  | .org body => body.lang
  | .knowledge body => body.lang

/-- The column `lang` of a row that the request writes. -/
inductive Written (o : Outside K) : TaggedRequest → String → Prop
  | memory (agent : AgentIdentity) (now : Timestamp) (mem : MemoryItem)
      (expires_at : Option Timestamp) (id : UUID) :
      Written o (.memory mem) (memory_row o agent now mem expires_at id).lang
  | org (agent : AgentIdentity) (now : Timestamp) (body : RememberOrgRequest) (id : UUID) :
      Written o (.org body) (org_row o agent now body id).lang
  | org_again (agent : AgentIdentity) (now : Timestamp) (body : RememberOrgRequest)
      (r : OrgMemory K) : Written o (.org body) (org_excluded o agent now body r).lang
  | knowledge (agent : AgentIdentity) (now : Timestamp) (body : KnowledgeIngestRequest) (id : UUID)
      (idx : Nat) (s : Section) (embedding : Option (List K)) :
      Written o (.knowledge body) (knowledge_row o agent now body id idx s embedding).lang

/-- No other language is detected in a memory that is sent as English. -/
def TaggedRequest.Keeps (o : Outside K) : TaggedRequest → Prop
  | .memory mem =>
    mem.lang = "en" → 20 ≤ mem.content.toList.length → detect_lang o mem.content = "en"
  | .org _ | .knowledge _ => True

/-- One form for all spellings of the subtag of `v`, on the rows that the request `b` writes under
this tag, and in the searches. -/
structure Canonical (o : Outside K) (v : Option String) (b : TaggedRequest) : Prop where
  ne_empty : normalise_lang o v ≠ ""
  stripped : Stripped (normalise_lang o v).toList
  plain : ∀ c ∈ (normalise_lang o v).toList, c.isUpper = false ∧ c ≠ '-' ∧ c ≠ '_'
  idempotent : normalise_lang o (some (normalise_lang o v)) = normalise_lang o v
  selected : ∀ w, primary_subtag o w = primary_subtag o v → ∀ lang, Written o b lang →
    ∀ body : RecallRequest, body.lang = recall_lang o w → lang_filter body lang = true
  filtered : v ≠ none → ∀ body : RecallRequest, body.lang = recall_lang o v →
    ∃ lang, lang_filter body lang = false

/-! ## One form for each primary subtag -/

section

variable {o : Outside K}

theorem normalise_lang_eq (ho : LowerCases o.lower) (v : Option String) :
    normalise_lang o v = String.ofList (primary_subtag o v) := by
  cases v with
  | none => rfl
  | some v =>
    have hempty : v = "" ∨ strip v.toList = [] ↔ strip v.toList = [] := by
      refine or_iff_right_of_imp ?_
      rintro rfl
      rfl
    unfold normalise_lang primary_subtag
    simp only [hempty, ho.strip_comm]
    split
    · rfl
    · rfl

theorem mem_subtag {s : List Char} {c : Char} (h : c ∈ subtag s) : c ≠ '-' ∧ c ≠ '_' := by
  unfold subtag at h
  have hunderscore := List.all_eq_true.mp List.all_takeWhile c h
  have hhyphen := List.all_eq_true.mp List.all_takeWhile c (List.takeWhile_subset _ h)
  exact ⟨of_decide_eq_true hhyphen, of_decide_eq_true hunderscore⟩

theorem subtag_eq_self {s : List Char} (h : ∀ c ∈ s, c ≠ '-' ∧ c ≠ '_') : subtag s = s := by
  have hhyphen : s.takeWhile (· ≠ '-') = s :=
    List.takeWhile_eq_self_iff.mpr fun c hc => decide_eq_true (h c hc).1
  unfold subtag
  rw [hhyphen]
  exact List.takeWhile_eq_self_iff.mpr fun c hc => decide_eq_true (h c hc).2

/-- What every form has: the characters are lower case, and none of them ends the subtag. -/
theorem mem_primary_subtag (ho : LowerCases o.lower) {v : Option String} {c : Char}
    (hc : c ∈ primary_subtag o v) :
    o.lower (String.ofList [c]) = String.ofList [c] ∧ c ≠ '-' ∧ c ≠ '_' := by
  have hen : ∀ c ∈ ['e', 'n'],
      o.lower (String.ofList [c]) = String.ofList [c] ∧ c ≠ '-' ∧ c ≠ '_' := by
    intro c hc
    rcases List.mem_cons.mp hc with rfl | hn
    · exact ⟨ho.ascii 'e' (by decide), by decide, by decide⟩
    · rw [List.mem_singleton.mp hn]
      exact ⟨ho.ascii 'n' (by decide), by decide, by decide⟩
  cases v with
  | none => exact hen c hc
  | some v =>
    simp only [primary_subtag] at hc
    split at hc
    · exact hen c hc
    · have hplain : ∀ d, d = '-' ∨ d = '_' → c ≠ d := by
        rintro d hd rfl
        have hmem := ho.separator _ c hc hd
        rw [String.toList_ofList] at hmem
        have hsub := mem_subtag (mem_of_mem_strip hmem)
        rcases hd with rfl | rfl
        · exact hsub.1 rfl
        · exact hsub.2 rfl
      exact ⟨ho.settled _ c hc, hplain '-' (Or.inl rfl), hplain '_' (Or.inr rfl)⟩

theorem primary_subtag_stripped (ho : LowerCases o.lower) (v : Option String) :
    Stripped (primary_subtag o v) := by
  have hen : Stripped ['e', 'n'] := stripped_strip ['e', 'n']
  cases v with
  | none => exact hen
  | some v =>
    simp only [primary_subtag]
    split
    · exact hen
    · rw [← ho.strip_comm]
      exact stripped_strip _

/-- The form is empty just for the tags without a primary subtag. -/
theorem primary_subtag_ne_nil_iff (ho : LowerCases o.lower) (v : Option String) :
    primary_subtag o v ≠ [] ↔ HasSubtag v := by
  cases v with
  | none => simp [primary_subtag, HasSubtag]
  | some v =>
    simp only [primary_subtag, HasSubtag]
    split
    · rename_i hblank
      simp [hblank]
    · rename_i hsome
      constructor
      · rintro hne s hs - hnil
        cases hs
        rw [hnil, ho.fixed [] (by simp)] at hne
        exact hne rfl
      · intro h
        exact ho.ne_empty _ (h v rfl hsome)

/-- The form of a form is the form. -/
theorem normalise_lang_idempotent (ho : LowerCases o.lower) {v : Option String}
    (h : HasSubtag v) :
    normalise_lang o (some (normalise_lang o v)) = normalise_lang o v := by
  have hne := (primary_subtag_ne_nil_iff ho v).mpr h
  have hstrip := (primary_subtag_stripped ho v).strip_eq
  have hplain : subtag (primary_subtag o v) = primary_subtag o v :=
    subtag_eq_self fun c hc => (mem_primary_subtag ho hc).2
  have hlower := ho.fixed (primary_subtag o v) fun c hc => (mem_primary_subtag ho hc).1
  rw [normalise_lang_eq ho v, normalise_lang_eq ho]
  generalize primary_subtag o v = tag at *
  simp only [primary_subtag, String.toList_ofList, hstrip, hplain, hlower, if_neg hne]

theorem effective_lang_eq_iff (content lang : String) :
    effective_lang o content lang = lang ↔
      (lang = "en" → 20 ≤ content.toList.length → detect_lang o content = "en") := by
  unfold effective_lang
  split
  · rename_i hdetects
    obtain ⟨rfl, hlong⟩ := hdetects
    exact ⟨fun h _ _ => h, fun h => h rfl hlong⟩
  · rename_i hkeeps
    exact ⟨fun _ hen hlong => absurd ⟨hen, hlong⟩ hkeeps, fun _ => rfl⟩

/-- A row is written under the tag of its request, if no other language is detected. -/
theorem Written.lang_eq {b : TaggedRequest} {lang : String} (h : Written o b lang)
    (hkeeps : b.Keeps o) : lang = b.lang := by
  cases h with
  | memory agent now mem expires_at id => exact (effective_lang_eq_iff _ _).mpr hkeeps
  | org agent now body id => rfl
  | org_again agent now body r => rfl
  | knowledge agent now body id idx s embedding => rfl

theorem toLower_cases (c : Char) :
    (c.isUpper = true ∧ c.toLower.toNat = c.toNat + 32) ∨
      (c.isUpper = false ∧ c.toLower = c) := by
  unfold Char.toLower
  by_cases h : c.val ≥ 'A'.val ∧ c.val ≤ 'Z'.val
  · refine Or.inl ⟨decide_eq_true h, ?_⟩
    have hle : c.val.toNat ≤ 90 := h.2
    rw [dif_pos h]
    show (c.val + 32).toNat = c.val.toNat + 32
    rw [UInt32.toNat_add]
    exact Nat.mod_eq_of_lt (Nat.lt_of_le_of_lt (Nat.add_le_add_right hle 32) (by decide))
  · refine Or.inr ⟨decide_eq_false h, ?_⟩
    rw [dif_neg h]

theorem toNat_of_isUpper {c : Char} (h : c.isUpper = true) : 65 ≤ c.toNat ∧ c.toNat ≤ 90 := by
  have hrange : c.val ≥ 'A'.val ∧ c.val ≤ 'Z'.val := of_decide_eq_true h
  exact hrange

/-- A character that lower case does not change is no capital. -/
theorem not_isUpper (ho : LowerCases o.lower) {c : Char}
    (h : o.lower (String.ofList [c]) = String.ofList [c]) : c.isUpper = false := by
  rcases toLower_cases c with ⟨hupper, hlower⟩ | ⟨hother, -⟩
  · have hascii : c.toNat < 128 := by
      have hbounds := toNat_of_isUpper hupper
      omega
    rw [ho.ascii c hascii] at h
    have hsame : c.toLower = c := by simpa using congrArg String.toList h
    rw [hsame] at hlower
    omega
  · exact hother

end

/-! ## A lower case -/

/-- `str.lower` on the texts of ASCII characters. -/
def ascii_lower (s : String) : String := String.ofList (s.toList.map Char.toLower)

theorem toLower_toLower (c : Char) : c.toLower.toLower = c.toLower := by
  rcases toLower_cases c.toLower with ⟨hupper, -⟩ | ⟨-, hsame⟩
  · have hsmall := toNat_of_isUpper hupper
    rcases toLower_cases c with ⟨hcapital, hlower⟩ | ⟨hother, hsame⟩
    · have hbounds := toNat_of_isUpper hcapital
      omega
    · rw [hsame, hsame]
  · exact hsame

theorem isspace_toLower (c : Char) : isspace c.toLower = isspace c := by
  rcases toLower_cases c with ⟨hupper, hlower⟩ | ⟨-, hsame⟩
  · have hbounds := toNat_of_isUpper hupper
    have hcapital : isspace c = false := by
      simp [isspace]
      omega
    have hsmall : isspace c.toLower = false := by
      simp [isspace]
      omega
    rw [hcapital, hsmall]
  · rw [hsame]

theorem strip_map_toLower (s : List Char) :
    strip (s.map Char.toLower) = (strip s).map Char.toLower := by
  have hspace : isspace ∘ Char.toLower = isspace := funext isspace_toLower
  unfold strip rstrip lstrip
  rw [List.dropWhile_map, hspace, ← List.map_reverse, List.dropWhile_map, hspace, List.map_reverse]

theorem ascii_lower_cases : LowerCases ascii_lower where
  ascii c _ := by simp [ascii_lower]
  fixed s h := by
    unfold ascii_lower
    rw [String.toList_ofList]
    refine congrArg String.ofList ?_
    conv_rhs => rw [← List.map_id s]
    refine List.map_congr_left fun c hc => ?_
    simpa [ascii_lower] using congrArg String.toList (h c hc)
  settled s c hc := by
    simp only [ascii_lower, String.toList_ofList] at hc
    obtain ⟨d, -, rfl⟩ := List.mem_map.mp hc
    simp only [ascii_lower, String.toList_ofList, List.map_cons, List.map_nil, toLower_toLower]
  separator s c hc hsep := by
    simp only [ascii_lower, String.toList_ofList] at hc
    obtain ⟨d, hd, rfl⟩ := List.mem_map.mp hc
    rcases toLower_cases d with ⟨hupper, hlower⟩ | ⟨-, hsame⟩
    · have hbounds := toNat_of_isUpper hupper
      rcases hsep with hhyphen | hunderscore
      · have hcode : d.toLower.toNat = 45 := congrArg Char.toNat hhyphen
        omega
      · have hcode : d.toLower.toNat = 95 := congrArg Char.toNat hunderscore
        omega
    · rwa [hsame]
  ne_empty s h := by simpa [ascii_lower] using h
  strip_comm s := by simp [ascii_lower, strip_map_toLower]

/-! ## The canonical tags -/

section
variable {o : Outside K}

/-- Every spelling of English has one form. -/
theorem normalise_lang_english (ho : LowerCases o.lower) :
    normalise_lang o (some "en") = "en" := by
  have hsubtag : HasSubtag none := fun s hs => by cases hs
  exact normalise_lang_idempotent ho hsubtag

/-- A search for the tag of a memory finds it only under this tag. -/
theorem keeps_of_selected {mem : MemoryItem} {v : Option String} (ho : LowerCases o.lower)
    (hlang : mem.lang = normalise_lang o v)
    (hselected : ∀ w, primary_subtag o w = primary_subtag o v → ∀ lang,
      Written o (.memory mem) lang → ∀ body : RecallRequest, body.lang = recall_lang o w →
        lang_filter body lang = true) : (TaggedRequest.memory mem).Keeps o := by
  intro hen hlong
  have hsame : primary_subtag o (some "en") = primary_subtag o v := by
    have hform := (normalise_lang_english ho).trans (hen.symm.trans hlang)
    rw [normalise_lang_eq ho, normalise_lang_eq ho] at hform
    simpa using congrArg String.toList hform
  have hfilter := hselected (some "en") hsame _ (.memory { agent_id := 0, tenant_id := 0 } 0 mem
    none 0) { query := "", lang := recall_lang o (some "en") } rfl
  simp only [lang_filter, recall_lang, Option.map_some, normalise_lang_english ho,
    Bool.or_eq_true, decide_eq_true_eq] at hfilter
  have hrow : effective_lang o mem.content mem.lang = "en" :=
    hfilter.resolve_left (by decide)
  exact (effective_lang_eq_iff _ _).mp (hrow.trans hen.symm) hen hlong

/-- The tags are canonical except for those whose primary subtag is blank, and for those of
English on a memory in which another language is detected. -/
theorem tags_are_canonical_iff (ho : LowerCases o.lower) (v : Option String) (b : TaggedRequest)
    (hb : b.lang = normalise_lang o v) : Canonical o v b ↔ HasSubtag v ∧ b.Keeps o := by
  have heq := normalise_lang_eq ho v
  constructor
  · intro h
    constructor
    · rw [← primary_subtag_ne_nil_iff ho]
      intro hnil
      exact h.ne_empty (heq.trans (congrArg String.ofList hnil))
    · cases b with
      | memory mem => exact keeps_of_selected ho hb h.selected
      | org body => trivial
      | knowledge body => trivial
  · rintro ⟨h, hkeeps⟩
    have hne := (primary_subtag_ne_nil_iff ho v).mpr h
    have hne_empty : normalise_lang o v ≠ "" := by
      rw [heq]
      intro hempty
      exact hne (by simpa using congrArg String.toList hempty)
    refine ⟨hne_empty, ?_, ?_, normalise_lang_idempotent ho h, ?_, ?_⟩
    · rw [heq, String.toList_ofList]
      exact primary_subtag_stripped ho v
    · intro c hc
      rw [heq, String.toList_ofList] at hc
      obtain ⟨hlower, hplain⟩ := mem_primary_subtag ho hc
      exact ⟨not_isUpper ho hlower, hplain⟩
    · intro w hw lang hlang body hbody
      have hsame : normalise_lang o w = normalise_lang o v := by
        rw [normalise_lang_eq ho, normalise_lang_eq ho, hw]
      unfold lang_filter
      rw [hbody]
      cases w with
      | none => rfl
      | some w => simp [recall_lang, hsame, hlang.lang_eq hkeeps, hb]
    · intro hsome body hbody
      obtain ⟨s, rfl⟩ := Option.ne_none_iff_exists'.mp hsome
      refine ⟨"", ?_⟩
      unfold lang_filter
      rw [hbody]
      simp [recall_lang, hne_empty, Ne.symm hne_empty]

end

/-! ## British English -/

def latin_models : Outside ℚ := { no_models with lower := ascii_lower }

theorem panne_words : 5 ≤ (text.words "le serveur est en panne".toList).length := by decide

/-- A note that is sent under the form of `en-GB`, and is in French. -/
def french_note : TaggedRequest :=
  .memory
    { type := .episodic, content := "le serveur est en panne", content_floor := panne_words
      ttl_only_short_term := no_ttl .episodic, short_term_ttl := episodic_needs_no_ttl }

/-- The models detect French. -/
def french_models : Outside ℚ := { latin_models with detect := fun _ => some "fr" }

/-- Where nothing is detected, the note keeps its tag. -/
theorem british_english_is_canonical :
    Canonical latin_models (some " EN_gb") french_note ∧
      normalise_lang latin_models (some " EN_gb") = "en" := by
  have hsubtag : HasSubtag (some " EN_gb") := by
    intro s hs _
    cases hs
    decide
  have hkeeps : french_note.Keeps latin_models := fun _ _ => rfl
  exact ⟨(tags_are_canonical_iff ascii_lower_cases _ french_note (by decide)).mpr
    ⟨hsubtag, hkeeps⟩, by decide⟩

/-- A tag that begins with `-` is normalised to the empty text, which is normalised to another one,
and a search with this tag shows the rows of every language. A memory with the tag `en-GB` is
written as a French one. -/
theorem a_tag_without_subtag :
    normalise_lang latin_models (some "-EN") = "" ∧
      normalise_lang latin_models (some "") = "en" ∧
      (∀ lang,
        lang_filter { query := "q", lang := recall_lang latin_models (some "-EN") } lang = true) ∧
      (∀ b, ¬ Canonical latin_models (some "-EN") b) ∧
      french_note.lang = normalise_lang french_models (some "en-GB") ∧
      ¬ Canonical french_models (some "en-GB") french_note := by
  have hnone : normalise_lang latin_models (some "-EN") = "" := by decide
  refine ⟨hnone, by decide, fun lang => ?_, fun b h => h.ne_empty hnone, by decide, fun h => ?_⟩
  · simp [lang_filter, recall_lang, hnone]
  · have hselected := h.selected (some "en-GB") rfl "fr"
      (.memory { agent_id := 0, tenant_id := 0 } 0 _ none 0)
      { query := "q", lang := recall_lang french_models (some "en-GB") } rfl
    revert hselected
    decide

end qortia
