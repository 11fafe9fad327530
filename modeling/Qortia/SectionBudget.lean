-- The token budget of the sections (`split_into_sections`). A long section is packed paragraph by
-- paragraph, the introduction is not, and a short section joins the one before it, however long
-- that one is by then.
import Qortia.HeadingLines
import Qortia.Lib.Packing

namespace qortia

open packing text

/-! ## The chunks of a text -/

def word_count (s : List Char) : Nat := (words s).length

/-- `int(n * 1.3)`, of the number of words. -/
def tokens (n : Nat) : Nat := n * 13 / 10

theorem estimate_tokens_eq (s : List Char) : estimate_tokens s = tokens (word_count s) := rfl

theorem tokens_mono {m n : Nat} (h : m ≤ n) : tokens m ≤ tokens n :=
  Nat.div_le_div_right (Nat.mul_le_mul_right 13 h)

/-- More tokens than a chunk of several paragraphs may have. -/
def over_budget (n : Nat) : Bool := decide (tokens n > 2000)

/-- Paragraphs with blank lines between them. -/
def joined (paras : List (List Char)) : List Char := ['\n', '\n'].intercalate paras

theorem joined_singleton (para : List Char) : joined [para] = para :=
  List.intercalate_singleton

theorem joined_append {paras : List (List Char)} (h : paras ≠ []) (para : List Char) :
    joined (paras ++ [para]) = joined paras ++ '\n' :: '\n' :: para := by
  induction paras with
  | nil => exact absurd rfl h
  | cons p paras ih =>
    cases paras with
    | nil => simp [joined]
    | cons q paras =>
      have hrest := ih (List.cons_ne_nil q paras)
      simp only [joined, List.cons_append, List.intercalate_cons_cons, List.append_assoc] at hrest ⊢
      rw [hrest]

theorem words_joined (paras : List (List Char)) : words (joined paras) = paras.flatMap words := by
  induction paras using List.reverseRecOn with
  | nil => rfl
  | append_singleton paras para ih =>
    rw [List.flatMap_append, List.flatMap_singleton]
    by_cases hnil : paras = []
    · subst hnil
      simp [joined]
    · rw [joined_append hnil, words_append_blank_line, ih]

theorem word_count_joined (paras : List (List Char)) :
    word_count (joined paras) = total word_count paras := by
  unfold word_count total
  rw [words_joined, List.length_flatMap]

/-- Joined paragraphs are a stripped text that is not empty. -/
theorem joined_stripped {paras : List (List Char)} (hne : paras ≠ [])
    (h : ∀ para ∈ paras, IsParagraph para) : joined paras ≠ [] ∧ Stripped (joined paras) := by
  induction paras using List.reverseRecOn with
  | nil => exact absurd rfl hne
  | append_singleton paras para ih =>
    have hpara := h para (List.mem_append_right _ List.mem_cons_self)
    by_cases hnil : paras = []
    · subst hnil
      simpa [joined] using ⟨hpara.ne_nil, hpara.stripped⟩
    · obtain ⟨hbefore, hstripped⟩ :=
        ih hnil fun p hp => h p (List.mem_append_left _ hp)
      rw [joined_append hnil]
      refine ⟨by simp, ?_⟩
      have hjoin := hstripped.join hpara.stripped hbefore hpara.ne_nil ['\n', '\n']
      simpa using hjoin

/-- The paragraphs of the chunks of a text. -/
def chunk_groups (s : List Char) : List (List (List Char)) :=
  pack word_count over_budget [] (paragraphs s)

theorem add_paragraph_eq (title : String) (chunks : List Section) {current : List (List Char)}
    {para : List Char} (hcurrent : ∀ p ∈ current, IsParagraph p) (hpara : IsParagraph para) :
    add_paragraph title (chunks, joined current) para =
      if !current.isEmpty && over_budget (total word_count current + word_count para) then
        (chunks ++ [⟨title, String.ofList (joined current)⟩], para)
      else (chunks, joined (current ++ [para])) := by
  by_cases hnil : current = []
  · subst hnil
    simp [add_paragraph, joined]
  · obtain ⟨hne, hstripped⟩ := joined_stripped hnil hcurrent
    have hall : ∀ p ∈ current ++ [para], IsParagraph p := by
      intro p hp
      rcases List.mem_append.mp hp with hold | hnew
      · exact hcurrent p hold
      · rw [List.mem_singleton.mp hnew]
        exact hpara
    have hcandidate : strip (joined current ++ '\n' :: '\n' :: para) =
        joined (current ++ [para]) := by
      rw [← joined_append hnil]
      exact (joined_stripped (by simp) hall).2.strip_eq
    have htokens : estimate_tokens (joined (current ++ [para])) =
        tokens (total word_count current + word_count para) := by
      rw [estimate_tokens_eq, word_count_joined, total_append, total_singleton]
    have hempty : current.isEmpty = false := by simpa using hnil
    unfold add_paragraph
    simp only [hne, ne_eq, not_false_eq_true, if_true, and_true, hcandidate, htokens, hempty,
      Bool.not_false, Bool.true_and, over_budget, decide_eq_true_eq]

def chunk (title : String) (g : List (List Char)) : Section := ⟨title, String.ofList (joined g)⟩

/-- What the loop of `_paragraph_split` leaves, with its last chunk. -/
def finished (title : String) (acc : List Section × List Char) : List Section :=
  if acc.2 ≠ [] then acc.1 ++ [⟨title, String.ofList acc.2⟩] else acc.1

theorem fold_paragraphs (title : String) {paras current : List (List Char)}
    (chunks : List Section) (hcurrent : ∀ p ∈ current, IsParagraph p)
    (hparas : ∀ p ∈ paras, IsParagraph p) :
    finished title (paras.foldl (add_paragraph title) (chunks, joined current)) =
      chunks ++ (pack word_count over_budget current paras).map (chunk title) := by
  induction paras generalizing current chunks with
  | nil =>
    by_cases hnil : current = []
    · subst hnil
      simp [finished, joined, pack]
    · have hempty : current.isEmpty = false := by simpa using hnil
      simp [finished, chunk, pack, hempty, (joined_stripped hnil hcurrent).1]
  | cons para paras ih =>
    have hpara := hparas para List.mem_cons_self
    have hrest := fun p hp => hparas p (List.mem_cons_of_mem para hp)
    rw [List.foldl_cons, add_paragraph_eq title chunks hcurrent hpara]
    unfold pack
    split
    · have hone : ∀ p ∈ [para], IsParagraph p := by simpa using hpara
      have hstep := ih (chunks ++ [chunk title current]) hone hrest
      rw [joined_singleton, List.append_assoc] at hstep
      exact hstep
    · refine ih chunks ?_ hrest
      intro p hp
      rcases List.mem_append.mp hp with hold | hnew
      · exact hcurrent p hold
      · rw [List.mem_singleton.mp hnew]
        exact hpara

/-- `_paragraph_split` packs the paragraphs greedily. -/
theorem paragraph_split_eq (s : List Char) (title : String) :
    paragraph_split s title = (chunk_groups s).map (chunk title) :=
  fold_paragraphs title [] (fun _ hp => absurd hp List.not_mem_nil)
    fun _ hp => isParagraph_of_mem hp

/-! ## The budget -/

/-- Within the budget, or a single paragraph. -/
def Fits (s : List Char) : Prop := estimate_tokens s ≤ 2000 ∨ ¬ BlankLine s

/-- The numbers of words of the chunks of a text, packed from those of its paragraphs. -/
def chunk_counts (s : List Char) : List Nat :=
  (pack id over_budget [] ((paragraphs s).map word_count)).map List.sum

/-- The words of the last section that the text under a heading gives. -/
def last_count (s : List Char) : Nat :=
  if estimate_tokens s > 2000 then (chunk_counts s).getLastD 0 else word_count s

/-- A text under a heading that is merged into the section before it. -/
def short (s : List Char) : Bool := decide (estimate_tokens s < 50)

def merged_count (rest : List (List Char)) : Nat := ((rest.takeWhile short).map word_count).sum

/-- The short texts that follow are within the budget together with the `n` words before. -/
def FollowFits (n : Nat) (rest : List (List Char)) : Prop :=
  rest.takeWhile short ≠ [] → tokens (n + merged_count rest) ≤ 2000

/-- Whatever is merged into the section of a text that is not short, fits. -/
def MergesFit : List (List Char) → Prop
  | [] => True
  | s :: rest => (short s = false → FollowFits (last_count s) rest) ∧ MergesFit rest

theorem chunk_counts_eq (s : List Char) :
    chunk_counts s = (chunk_groups s).map fun g => word_count (joined g) := by
  have hmap : (chunk_groups s).map (List.map word_count) =
      pack id over_budget [] ((paragraphs s).map word_count) := map_pack [] (paragraphs s)
  unfold chunk_counts
  rw [← hmap, List.map_map]
  exact List.map_congr_left fun g _ => (word_count_joined g).symm

theorem isParagraph_of_mem_chunk {s para : List Char} {g : List (List Char)}
    (hg : g ∈ chunk_groups s) (hpara : para ∈ g) : IsParagraph para := by
  have hmem : para ∈ (chunk_groups s).flatten := List.mem_flatten.mpr ⟨g, hg, hpara⟩
  unfold chunk_groups at hmem
  rw [flatten_pack, List.nil_append] at hmem
  exact isParagraph_of_mem hmem

theorem fits_of_mem_chunk_groups {s : List Char} {g : List (List Char)}
    (h : g ∈ chunk_groups s) : Fits (joined g) := by
  have hfew : ([] : List (List Char)).length ≤ 1 := Nat.zero_le 1
  rcases pack_fits (Or.inl hfew) h with hone | hfits
  · have hlength : g.length = 1 :=
      Nat.le_antisymm hone (List.length_pos_of_ne_nil (ne_nil_of_mem_pack h))
    obtain ⟨para, rfl⟩ := List.length_eq_one_iff.mp hlength
    rw [joined_singleton]
    exact Or.inr (isParagraph_of_mem_chunk h List.mem_cons_self).no_blankLine
  · refine Or.inl ?_
    rw [estimate_tokens_eq, word_count_joined]
    exact Nat.le_of_not_lt (of_decide_eq_false hfits)

/-- Every chunk is within the budget or a single paragraph. -/
theorem fits_of_mem_paragraph_split {s : List Char} {title : String} {x : Section}
    (h : x ∈ paragraph_split s title) : Fits x.text.toList := by
  rw [paragraph_split_eq] at h
  obtain ⟨g, hg, rfl⟩ := List.mem_map.mp h
  unfold chunk
  rw [String.toList_ofList]
  exact fits_of_mem_chunk_groups hg

theorem chunk_groups_ne_nil {s : List Char} (h : words s ≠ []) : chunk_groups s ≠ [] := by
  refine pack_ne_nil ?_
  rw [List.nil_append]
  intro hnil
  apply h
  rw [← words_paragraphs, hnil]
  rfl

/-- A text that is not short gives sections that fit, and the last one of them is as long as
stated. -/
theorem add_section_of_not_short {m : List Char × List Char} (h : short (strip m.2) = false) :
    ∃ first last, (∀ x ∈ first, Fits x.text.toList) ∧ Fits last.text.toList ∧
      word_count last.text.toList = last_count (strip m.2) ∧
      ∀ sections, add_section sections m = sections ++ first ++ [last] := by
  have hlong : ¬ estimate_tokens (strip m.2) < 50 := of_decide_eq_false h
  by_cases hbig : estimate_tokens (strip m.2) > 2000
  · have hwords : words (strip m.2) ≠ [] := by
      intro hnil
      rw [estimate_tokens_eq, word_count, hnil] at hlong
      exact hlong (by decide)
    obtain ⟨groups, g, hgroups⟩ : ∃ groups g, chunk_groups (strip m.2) = groups ++ [g] :=
      ⟨_, _, (List.dropLast_concat_getLast (chunk_groups_ne_nil hwords)).symm⟩
    have hsplit := paragraph_split_eq (strip m.2) (String.ofList (strip m.1))
    rw [hgroups, List.map_append, List.map_singleton] at hsplit
    have hfits : ∀ x ∈ paragraph_split (strip m.2) (String.ofList (strip m.1)),
        Fits x.text.toList := fun x hx => fits_of_mem_paragraph_split hx
    rw [hsplit] at hfits
    refine ⟨groups.map (chunk (String.ofList (strip m.1))), chunk (String.ofList (strip m.1)) g,
      fun x hx => hfits x (List.mem_append_left _ hx),
      hfits _ (List.mem_append_right _ List.mem_cons_self), ?_, fun sections => ?_⟩
    · rw [last_count, if_pos hbig, chunk_counts_eq, hgroups, List.map_append]
      simp [chunk]
    · unfold add_section
      simp only
      rw [if_pos hbig, hsplit, ← List.append_assoc]
  · refine ⟨[], ⟨String.ofList (strip m.1), String.ofList (strip m.2)⟩,
      fun x hx => absurd hx List.not_mem_nil, ?_, ?_, ?_⟩
    · rw [String.toList_ofList]
      exact Or.inl (Nat.le_of_not_lt hbig)
    · simp [last_count, if_neg hbig]
    · intro sections
      simp [add_section, if_neg hbig, Nat.le_of_not_lt hlong]

/-- The section fits after the short texts that follow are merged into it. -/
def LastFits (s : List Char) (rest : List (List Char)) : Prop :=
  (rest.takeWhile short = [] → Fits s) ∧ FollowFits (word_count s) rest

theorem lastFits_of_not_short {s next : List Char} {rest : List (List Char)}
    (h : short next = false) : LastFits s (next :: rest) ↔ Fits s := by
  have hnone : (next :: rest).takeWhile short = [] := by simp [h]
  exact ⟨fun hlast => hlast.1 hnone, fun hfits => ⟨fun _ => hfits, fun hsome => absurd hnone hsome⟩⟩

theorem lastFits_of_fits {s : List Char} {rest : List (List Char)} (h : Fits s) :
    LastFits s rest ↔ FollowFits (word_count s) rest :=
  ⟨And.right, fun hfollow => ⟨fun _ => h, hfollow⟩⟩

/-- What fits with more merged into it, fits. -/
theorem lastFits_iff (s : List Char) (rest : List (List Char)) :
    LastFits s rest ↔ Fits s ∧ FollowFits (word_count s) rest := by
  refine ⟨fun hlast => ⟨?_, hlast.2⟩, fun h => ⟨fun _ => h.1, h.2⟩⟩
  by_cases hnone : rest.takeWhile short = []
  · exact hlast.1 hnone
  · have hwhole := hlast.2 hnone
    have hpart := tokens_mono (Nat.le_add_right (word_count s) (merged_count rest))
    exact Or.inl (Nat.le_trans hpart hwhole)

theorem word_count_merge (s next : List Char) :
    word_count (s ++ '\n' :: '\n' :: next) = word_count s + word_count next := by
  unfold word_count
  rw [words_append_blank_line, List.length_append]

/-- A merge has a blank line, so that it has to keep the budget. -/
theorem lastFits_merge {s next : List Char} {rest : List (List Char)} (h : short next = true) :
    LastFits (s ++ '\n' :: '\n' :: next) rest ↔ LastFits s (next :: rest) := by
  have hcons : (next :: rest).takeWhile short = next :: rest.takeWhile short := by simp [h]
  have hmerged : merged_count (next :: rest) = word_count next + merged_count rest := by
    unfold merged_count
    rw [hcons, List.map_cons, List.sum_cons]
  have hright : LastFits s (next :: rest) ↔
      tokens (word_count s + word_count next + merged_count rest) ≤ 2000 := by
    unfold LastFits FollowFits
    rw [hcons, hmerged, Nat.add_assoc]
    simp
  rw [hright]
  unfold LastFits FollowFits Fits
  rw [word_count_merge, estimate_tokens_eq, word_count_merge]
  have hblank := blankLine_join s next
  by_cases hrest : rest.takeWhile short = []
  · have hzero : merged_count rest = 0 := by
      unfold merged_count
      rw [hrest]
      rfl
    simp [hrest, hzero, hblank]
  · simp [hrest]

theorem mergesFit_of_short {s : List Char} {rest : List (List Char)} (h : short s = true) :
    MergesFit (s :: rest) ↔ MergesFit rest := by
  rw [MergesFit]
  simp [h]

theorem mergesFit_of_not_short {s : List Char} {rest : List (List Char)} (h : short s = false) :
    MergesFit (s :: rest) ↔ FollowFits (last_count s) rest ∧ MergesFit rest := by
  rw [MergesFit]
  simp [h]

/-- The text of a short section is appended to the last section. -/
theorem add_section_of_short {m : List Char × List Char} (h : short (strip m.2) = true)
    (sections : List Section) : add_section sections m = append_to_last sections (strip m.2) := by
  have hshort : estimate_tokens (strip m.2) < 50 := of_decide_eq_true h
  have hbig : ¬ estimate_tokens (strip m.2) > 2000 := by omega
  have hmedium : ¬ estimate_tokens (strip m.2) ≥ 50 := by omega
  unfold add_section
  simp only
  rw [if_neg hbig, if_neg hmedium]

/-- The texts under the headings, stripped. -/
def bodies (headings : List (List Char × List Char)) : List (List Char) :=
  headings.map fun m => strip m.2

theorem fold_fits_iff (headings : List (List Char × List Char)) (sections : List Section)
    (last : Section) :
    (∀ x ∈ headings.foldl add_section (sections ++ [last]), Fits x.text.toList) ↔
      (∀ x ∈ sections, Fits x.text.toList) ∧ LastFits last.text.toList (bodies headings) ∧
        MergesFit (bodies headings) := by
  induction headings generalizing sections last with
  | nil => simp [bodies, MergesFit, LastFits, FollowFits, or_imp, forall_and]
  | cons m headings ih =>
    have hbodies : bodies (m :: headings) = strip m.2 :: bodies headings := rfl
    rw [List.foldl_cons, hbodies]
    cases hshort : short (strip m.2) with
    | true =>
      rw [add_section_of_short hshort]
      unfold append_to_last
      rw [List.getLast?_concat]
      simp only [List.dropLast_concat]
      rw [ih, mergesFit_of_short hshort, ← lastFits_merge hshort]
      simp
    | false =>
      obtain ⟨first, new, hfirst, hnew, hcount, hadd⟩ := add_section_of_not_short hshort
      rw [hadd, ih, lastFits_of_not_short hshort, lastFits_of_fits hnew, hcount,
        mergesFit_of_not_short hshort]
      constructor
      · rintro ⟨hall, hfollow, hmerges⟩
        refine ⟨fun x hx => hall x ?_, hall last ?_, hfollow, hmerges⟩
        · exact List.mem_append_left _ (List.mem_append_left _ hx)
        · exact List.mem_append_left _ (List.mem_append_right _ List.mem_cons_self)
      · rintro ⟨hsections, hlast, hfollow, hmerges⟩
        refine ⟨fun x hx => ?_, hfollow, hmerges⟩
        rcases List.mem_append.mp hx with hbefore | hin
        · rcases List.mem_append.mp hbefore with hold | hlasts
          · exact hsections x hold
          · rw [List.mem_singleton.mp hlasts]
            exact hlast
        · exact hfirst x hin

/-- Until a section is kept, short texts are dropped. -/
theorem fold_fits_from_none_iff (headings : List (List Char × List Char)) :
    (∀ x ∈ headings.foldl add_section [], Fits x.text.toList) ↔ MergesFit (bodies headings) := by
  induction headings with
  | nil => simp [bodies, MergesFit]
  | cons m headings ih =>
    have hbodies : bodies (m :: headings) = strip m.2 :: bodies headings := rfl
    rw [List.foldl_cons, hbodies]
    cases hshort : short (strip m.2) with
    | true =>
      rw [add_section_of_short hshort, mergesFit_of_short hshort]
      exact ih
    | false =>
      obtain ⟨first, new, hfirst, hnew, hcount, hadd⟩ := add_section_of_not_short hshort
      rw [hadd, List.nil_append, fold_fits_iff, lastFits_of_fits hnew, hcount,
        mergesFit_of_not_short hshort]
      exact and_iff_right hfirst

/-- The text before the first heading, stripped. -/
def introduction (content : String) : List Char := strip (cut_headings 0 true content.toList).1

/-- The introduction fits as it stands, and whatever is merged into a section keeps the budget. -/
def BudgetKept (content : String) : Prop :=
  let headings := (cut_headings 0 true content.toList).2
  headings ≠ [] →
    Fits (introduction content) ∧
    (short (introduction content) = false →
      FollowFits (word_count (introduction content)) (bodies headings)) ∧
    MergesFit (bodies headings)

theorem kept_of_not_short {s : List Char} (h : short s = false) :
    s ≠ [] ∧ estimate_tokens s ≥ 50 := by
  have hlong := Nat.le_of_not_lt (of_decide_eq_false h)
  refine ⟨fun hnil => ?_, hlong⟩
  rw [hnil] at hlong
  exact absurd hlong (by decide)

theorem fits_of_short {s : List Char} (h : short s = true) : Fits s := by
  have hshort : estimate_tokens s < 50 := of_decide_eq_true h
  exact Or.inl (by omega)

/-- The sections keep the budget exactly when the introduction is within it or has one paragraph,
and no section grows over it by the short texts that are merged into it. -/
theorem sections_keep_the_budget_iff (content : String) :
    (∀ x ∈ split_into_sections content,
      estimate_tokens x.text.toList ≤ 2000 ∨ ¬ BlankLine x.text.toList) ↔ BudgetKept content := by
  unfold split_into_sections BudgetKept introduction
  rcases cut_headings 0 true content.toList with ⟨before, headings⟩
  simp only
  by_cases hnone : headings = []
  · rw [if_pos hnone]
    refine iff_of_true (fun x hx => ?_) fun hsome => absurd hnone hsome
    exact fits_of_mem_paragraph_split (List.mem_of_mem_filter hx)
  · rw [if_neg hnone]
    cases hshort : short (strip before) with
    | true =>
      have hsmall : ¬ estimate_tokens (strip before) ≥ 50 :=
        Nat.not_le_of_lt (of_decide_eq_true hshort)
      rw [if_neg fun hkept => hsmall hkept.2]
      have hfits := fits_of_short hshort
      have hfold := fold_fits_from_none_iff headings
      unfold Fits at hfold hfits ⊢
      rw [hfold]
      simp [hnone, hfits]
    | false =>
      rw [if_pos (kept_of_not_short hshort)]
      have hfold := fold_fits_iff headings [] ⟨"Introduction", String.ofList (strip before)⟩
      rw [List.nil_append, String.toList_ofList, lastFits_iff] at hfold
      unfold Fits at hfold ⊢
      rw [hfold]
      simp [hnone, and_assoc]

section

/-- Two paragraphs of 800 words. -/
def two_long_paragraphs : List Char :=
  (List.replicate 800 ['a', ' ']).flatten ++ '\n' :: '\n' :: (List.replicate 800 [' ', 'a']).flatten

def forty_words : List Char := (List.replicate 40 [' ', 'b']).flatten

/-- An introduction in two paragraphs before the first heading. -/
def long_introduction : String :=
  String.ofList (two_long_paragraphs ++ '\n' :: "## H\n".toList ++ forty_words)

theorem cut_long_introduction : cut_headings 0 true long_introduction.toList =
    (two_long_paragraphs ++ ['\n'], [(['H'], '\n' :: forty_words)]) := by
  have ne_hash_of_ab : ∀ c ∈ ['a', ' '], c ≠ '#' := by simp
  have hplain : ∀ c ∈ two_long_paragraphs, c ≠ '#' := by
    intro c hc
    simp only [two_long_paragraphs, List.mem_append, List.mem_cons, List.mem_flatten,
      List.mem_replicate] at hc
    rcases hc with ⟨_, ⟨-, rfl⟩, hc⟩ | rfl | rfl | ⟨_, ⟨-, rfl⟩, hc⟩
    · exact ne_hash_of_ab c hc
    · decide
    · decide
    · exact ne_hash_of_ab c (List.mem_reverse.mpr hc)
  have hheading : cut_headings 0 true ("## H\n".toList ++ forty_words) =
      ([], [(['H'], '\n' :: forty_words)]) := by decide +kernel
  rw [long_introduction, String.toList_ofList, List.append_assoc]
  obtain ⟨bol, hcut⟩ := cut_headings_plain hplain true
    ('\n' :: "## H\n".toList ++ forty_words)
  rw [hcut, List.cons_append, cut_headings_newline, hheading]

/-- An introduction that is long enough stays as it is before a text that is long enough. -/
theorem introduction_mem {content : String} {before : List Char} {m : List Char × List Char}
    (hcut : cut_headings 0 true content.toList = (before, [m]))
    (hkept : short (strip before) = false)
    (hnext : short (strip m.2) = false) :
    ⟨"Introduction", String.ofList (strip before)⟩ ∈ split_into_sections content := by
  obtain ⟨first, last, -, -, -, hadd⟩ := add_section_of_not_short hnext
  unfold split_into_sections
  rw [hcut]
  simp only
  rw [if_neg (List.cons_ne_nil _ _), if_pos (kept_of_not_short hkept), List.foldl_cons,
    List.foldl_nil, hadd]
  exact List.mem_append_left _ (List.mem_append_left _ List.mem_cons_self)

/-- The introduction is a section of 2080 tokens in two paragraphs. -/
theorem the_introduction_is_not_split :
    ∃ x ∈ split_into_sections long_introduction,
      2000 < estimate_tokens x.text.toList ∧ BlankLine x.text.toList := by
  have hlong : 2000 < estimate_tokens (strip (two_long_paragraphs ++ ['\n'])) ∧
      BlankLine (strip (two_long_paragraphs ++ ['\n'])) := by decide +kernel
  have hkept : short (strip (two_long_paragraphs ++ ['\n'])) = false := by
    refine decide_eq_false fun hfew => ?_
    omega
  have hnext : short (strip ('\n' :: forty_words)) = false := by decide +kernel
  refine ⟨_, introduction_mem cut_long_introduction hkept hnext, ?_⟩
  rw [String.toList_ofList]
  exact hlong

end

end qortia
