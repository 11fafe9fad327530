-- The words of the sections of a document (`split_into_sections`). With headings, what the
-- pattern takes is all that is lost. With none, the chunks of the paragraphs under the floor are
-- dropped, and not merged.
import Qortia.HeadingLines
import Qortia.SectionBudget

namespace qortia

open packing text

/-! ## The words of the sections -/

def words_of (sections : List Section) : List (List Char) :=
  sections.flatMap fun x => words x.text.toList

theorem words_of_append (xs ys : List Section) : words_of (xs ++ ys) = words_of xs ++ words_of ys :=
  List.flatMap_append

theorem words_of_singleton (x : Section) : words_of [x] = words x.text.toList :=
  List.flatMap_singleton _ x

theorem words_of_chunks (title : String) (groups : List (List (List Char))) :
    words_of (groups.map (chunk title)) = groups.flatten.flatMap words := by
  induction groups with
  | nil => rfl
  | cons g groups ih =>
    have hcons : words_of ((g :: groups).map (chunk title)) =
        words (chunk title g).text.toList ++ words_of (groups.map (chunk title)) := rfl
    rw [hcons, ih, List.flatten_cons, List.flatMap_append, chunk, String.toList_ofList,
      words_joined]

theorem words_of_paragraph_split (s : List Char) (title : String) :
    words_of (paragraph_split s title) = words s := by
  rw [paragraph_split_eq, words_of_chunks, chunk_groups, flatten_pack, List.nil_append,
    words_paragraphs]

theorem words_of_append_to_last {sections : List Section} (h : sections ≠ []) (s : List Char) :
    words_of (append_to_last sections s) = words_of sections ++ words s ∧
      append_to_last sections s ≠ [] := by
  obtain ⟨first, last, rfl⟩ : ∃ first last, sections = first ++ [last] :=
    ⟨_, _, (List.dropLast_concat_getLast h).symm⟩
  unfold append_to_last
  rw [List.getLast?_concat]
  simp only [List.dropLast_concat]
  refine ⟨?_, by simp⟩
  have htext : (last.text ++ "\n\n" ++ String.ofList s).toList =
      last.text.toList ++ '\n' :: '\n' :: s := by simp
  rw [words_of_append, words_of_append, words_of_singleton, words_of_singleton, htext,
    words_append_blank_line, List.append_assoc]

/-- With a section to merge into, or a text that is long enough, nothing is dropped. -/
theorem words_of_add_section {sections : List Section} {m : List Char × List Char}
    (h : sections ≠ [] ∨ short (strip m.2) = false) :
    words_of (add_section sections m) = words_of sections ++ words m.2 ∧
      add_section sections m ≠ [] := by
  cases hshort : short (strip m.2) with
  | true =>
    have hsome : sections ≠ [] := h.resolve_right (by rw [hshort]; exact Bool.noConfusion)
    rw [add_section_of_short hshort, ← words_strip m.2]
    exact words_of_append_to_last hsome _
  | false =>
    have hlong : estimate_tokens (strip m.2) ≥ 50 := Nat.le_of_not_lt (of_decide_eq_false hshort)
    constructor
    · unfold add_section
      simp only [if_pos hlong]
      split
      · rw [words_of_append, words_of_paragraph_split, words_strip]
      · rw [words_of_append, words_of_singleton, String.toList_ofList, words_strip]
    · obtain ⟨first, last, -, -, -, hadd⟩ := add_section_of_not_short hshort
      rw [hadd]
      simp

/-- Once a section is there, every text under a heading keeps its words. -/
theorem words_of_fold {sections : List Section} (headings : List (List Char × List Char))
    (h : sections ≠ []) :
    words_of (headings.foldl add_section sections) =
      words_of sections ++ headings.flatMap fun m => words m.2 := by
  induction headings generalizing sections with
  | nil => simp
  | cons m headings ih =>
    obtain ⟨hwords, hne⟩ := words_of_add_section (Or.inl h)
    rw [List.foldl_cons, ih hne, hwords, List.flatMap_cons, List.append_assoc]

/-! ## Documents with no heading -/

theorem flatMap_filter_eq_iff {α β : Type} (p : α → Bool) (f : α → List β) {xs : List α}
    (h : ∀ x ∈ xs, f x ≠ []) :
    ((xs.filter p).flatMap f).length ≤ (xs.flatMap f).length ∧
      ((xs.filter p).flatMap f = xs.flatMap f ↔ ∀ x ∈ xs, p x = true) := by
  induction xs with
  | nil => simp
  | cons x xs ih =>
    obtain ⟨hle, hiff⟩ := ih fun y hy => h y (List.mem_cons_of_mem x hy)
    have hpos := List.length_pos_of_ne_nil (h x List.mem_cons_self)
    rw [List.filter_cons, List.flatMap_cons, List.forall_mem_cons, List.length_append]
    cases hp : p x with
    | true =>
      rw [if_pos rfl, List.flatMap_cons, List.length_append, List.append_right_inj, hiff]
      exact ⟨Nat.add_le_add_left hle _, by simp⟩
    | false =>
      rw [if_neg Bool.false_ne_true]
      refine ⟨by omega, iff_of_false (fun heq => ?_) fun hand => Bool.false_ne_true hand.1⟩
      have hlength := congrArg List.length heq
      rw [List.length_append] at hlength
      omega

theorem words_chunk_ne_nil {s : List Char} {g : List (List Char)} (h : g ∈ chunk_groups s) :
    words (joined g) ≠ [] := by
  rw [words_joined]
  cases g with
  | nil => exact absurd rfl (ne_nil_of_mem_pack h)
  | cons para g =>
    have hpara := isParagraph_of_mem_chunk h List.mem_cons_self
    rw [List.flatMap_cons]
    exact List.append_ne_nil_of_left_ne_nil hpara.words_ne_nil _

/-- Without headings the words stay exactly when every chunk reaches the floor. -/
theorem words_of_filter_iff (s : List Char) :
    words_of ((paragraph_split s "").filter fun x => estimate_tokens x.text.toList ≥ 50) =
      words s ↔ ∀ n ∈ chunk_counts s, 50 ≤ tokens n := by
  have hne : ∀ x ∈ paragraph_split s "", words x.text.toList ≠ [] := by
    intro x hx
    rw [paragraph_split_eq] at hx
    obtain ⟨g, hg, rfl⟩ := List.mem_map.mp hx
    unfold chunk
    rw [String.toList_ofList]
    exact words_chunk_ne_nil hg
  have hfilter := (flatMap_filter_eq_iff
    (fun x : Section => decide (estimate_tokens x.text.toList ≥ 50))
    (fun x => words x.text.toList) hne).2
  rw [← words_of, ← words_of, words_of_paragraph_split] at hfilter
  rw [hfilter, paragraph_split_eq, chunk_counts_eq]
  simp [chunk, estimate_tokens_eq]

/-! ## Documents with headings -/

/-- With headings, and a first fragment that is kept, only what the cut takes is lost. -/
theorem words_of_headings {before : List Char} {headings : List (List Char × List Char)}
    (hsome : headings ≠ [])
    (hfirst : if strip before ≠ [] then 50 ≤ estimate_tokens (strip before)
      else (bodies headings).head?.all (fun s => 50 ≤ estimate_tokens s) = true) :
    words_of (headings.foldl add_section
      (if strip before ≠ [] ∧ estimate_tokens (strip before) ≥ 50 then
        [⟨"Introduction", String.ofList (strip before)⟩] else [])) =
      kept_words (before, headings) := by
  unfold kept_words
  by_cases hintro : strip before ≠ []
  · rw [if_pos hintro] at hfirst
    rw [if_pos ⟨hintro, hfirst⟩, words_of_fold _ (List.cons_ne_nil _ _), words_of_singleton,
      String.toList_ofList, words_strip]
  · have hbefore : words before = [] := by
      rw [← words_strip, not_not.mp hintro]
      rfl
    rw [if_neg hintro] at hfirst
    rw [if_neg fun hand => hintro hand.1, hbefore, List.nil_append]
    cases headings with
    | nil => exact absurd rfl hsome
    | cons m headings =>
      have hlong : short (strip m.2) = false :=
        decide_eq_false (Nat.not_lt_of_le (of_decide_eq_true hfirst))
      obtain ⟨hwords, hne⟩ : words_of (add_section [] m) = words_of [] ++ words m.2 ∧
          add_section [] m ≠ [] := words_of_add_section (Or.inr hlong)
      rw [List.foldl_cons, words_of_fold _ hne, hwords, List.flatMap_cons]
      rfl

/-! ## All documents -/

/-- The first fragment of the document, if any, reaches the floor of 50 tokens: the introduction,
or the text under the first heading, or without headings the first chunk of paragraphs. -/
def FirstKept (content : String) : Prop :=
  if (cut_headings 0 true content.toList).2 = [] then
    (chunk_counts content.toList).head?.all (fun n => 50 ≤ tokens n) = true
  else if introduction content ≠ [] then 50 ≤ estimate_tokens (introduction content)
  else
    (bodies (cut_headings 0 true content.toList).2).head?.all (fun s => 50 ≤ estimate_tokens s) =
      true

instance : DecidablePred FirstKept := fun _ => inferInstanceAs (Decidable (ite _ _ _))

/-- With headings, the lines are intact. Without, no later chunk of paragraphs is under the
floor. -/
def WordsKept (content : String) : Prop :=
  if (cut_headings 0 true content.toList).2 = [] then
    ∀ n ∈ (chunk_counts content.toList).tail, 50 ≤ tokens n
  else intact false (lines content.toList) = true

instance : DecidablePred WordsKept := fun _ => inferInstanceAs (Decidable (ite _ _ _))

theorem split_of_no_heading {content : String} (h : (cut_headings 0 true content.toList).2 = []) :
    split_into_sections content =
      (paragraph_split content.toList "").filter fun x => estimate_tokens x.text.toList ≥ 50 := by
  unfold split_into_sections
  rcases hcut : cut_headings 0 true content.toList with ⟨before, headings⟩
  rw [hcut] at h
  exact if_pos h

theorem split_of_headings {content : String} (h : (cut_headings 0 true content.toList).2 ≠ []) :
    split_into_sections content =
      (cut_headings 0 true content.toList).2.foldl add_section
        (if introduction content ≠ [] ∧ estimate_tokens (introduction content) ≥ 50 then
          [⟨"Introduction", String.ofList (introduction content)⟩] else []) := by
  unfold split_into_sections introduction
  rcases hcut : cut_headings 0 true content.toList with ⟨before, headings⟩
  rw [hcut] at h
  exact if_neg h

theorem kept_words_of_document (content : String) :
    kept_words (cut_headings 0 true content.toList) =
      (kept_lines false (lines content.toList)).flatMap words := by
  obtain ⟨l, ls, hlines, hs, hbreaks⟩ := lines_spec content.toList
  rw [hlines, hs, ← kept_words_newlines false]
  exact (kept_words_eq hbreaks).1 false

/-- Where the pattern matches nothing, all lines are body lines. -/
theorem words_of_plain_document {content : String}
    (h : (cut_headings 0 true content.toList).2 = []) :
    (body_lines (lines content.toList)).flatMap words = words content.toList := by
  obtain ⟨l, ls, hlines, hs, hbreaks⟩ := lines_spec content.toList
  rw [hs] at h
  have hnone := no_heading_line (hbreaks l List.mem_cons_self)
    (fun x hx => hbreaks x (List.mem_cons_of_mem l hx)) h
  have hall : body_lines (l :: ls) = l :: ls :=
    List.filter_eq_self.mpr fun x hx => by rw [hnone x hx]; rfl
  rw [hlines, hall, hs, words_append_newlines]

/-- The sections hold the words of the body lines, in their order, exactly when no line is taken
that is no heading, and without headings when no later chunk is under the floor. -/
theorem sections_keep_the_words_iff (content : String) (hfirst : FirstKept content) :
    words_of (split_into_sections content) =
      (body_lines (lines content.toList)).flatMap words ↔ WordsKept content := by
  unfold FirstKept at hfirst
  unfold WordsKept
  by_cases hnone : (cut_headings 0 true content.toList).2 = []
  · simp only [if_pos hnone] at hfirst ⊢
    rw [words_of_plain_document hnone, split_of_no_heading hnone, words_of_filter_iff]
    cases hcounts : chunk_counts content.toList with
    | nil => simp
    | cons n counts =>
      rw [hcounts] at hfirst
      rw [List.forall_mem_cons, List.tail_cons]
      exact and_iff_right (of_decide_eq_true hfirst)
  · simp only [if_neg hnone] at hfirst ⊢
    rw [← (kept_iff_intact false _).2, ← kept_words_of_document, split_of_headings hnone]
    unfold introduction at hfirst ⊢
    rw [words_of_headings hnone hfirst]

section

/-- A bare line of number signs before a line of text. -/
def bare_heading : String := String.ofList (forty_words ++ "\n##\nlost".toList)

theorem sections_keep_the_words_iff_bare_heading :
    words_of (split_into_sections bare_heading) =
      (body_lines (lines bare_heading.toList)).flatMap words ↔ WordsKept bare_heading :=
  sections_keep_the_words_iff bare_heading (by decide +kernel)

/-- The line of text is taken for the heading. -/
theorem a_body_line_is_taken_for_a_heading :
    FirstKept bare_heading ∧ words_of (split_into_sections bare_heading) ≠
      (body_lines (lines bare_heading.toList)).flatMap words := by
  decide +kernel

end

end qortia
