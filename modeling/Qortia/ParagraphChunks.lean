-- The chunks of `_paragraph_split` against the paragraphs of the text: read one after the other
-- they are the paragraphs, and a chunk ends only where its next paragraph would break the budget.
import Mathlib.Data.List.Chain
import Qortia.SectionBudget

namespace qortia

open packing text

/-! ## Chunks with blank lines between them -/

theorem joined_cons {paras : List (List Char)} (h : paras ≠ []) (para : List Char) :
    joined (para :: paras) = para ++ '\n' :: '\n' :: joined paras := by
  cases paras with
  | nil => exact absurd rfl h
  | cons p paras => simp [joined]

theorem joined_append_joined {first last : List (List Char)} (hfirst : first ≠ [])
    (hlast : last ≠ []) :
    joined (first ++ last) = joined first ++ '\n' :: '\n' :: joined last := by
  induction first with
  | nil => exact absurd rfl hfirst
  | cons para first ih =>
    rw [List.cons_append, joined_cons (List.append_ne_nil_of_right_ne_nil first hlast)]
    by_cases hnil : first = []
    · subst hnil
      rw [List.nil_append, joined_singleton]
    · rw [ih hnil, joined_cons hnil, List.append_assoc]
      rfl

/-- Joined groups are the joined paragraphs. -/
theorem joined_map_joined {groups : List (List (List Char))} (h : ∀ g ∈ groups, g ≠ []) :
    joined (groups.map joined) = joined groups.flatten := by
  induction groups with
  | nil => rfl
  | cons g groups ih =>
    have hg := h g List.mem_cons_self
    have hrest := fun g' hg' => h g' (List.mem_cons_of_mem g hg')
    rw [List.map_cons, List.flatten_cons]
    cases groups with
    | nil => simp [joined_singleton]
    | cons g' groups =>
      have hflat : (g' :: groups).flatten ≠ [] := by
        rw [List.flatten_cons]
        exact List.append_ne_nil_of_left_ne_nil (hrest g' List.mem_cons_self) _
      rw [joined_append_joined hg hflat, ← ih hrest, joined_cons (by simp)]

/-- Joined paragraphs are read back as the paragraphs. -/
theorem paragraphs_joined {paras : List (List Char)} (h : ∀ para ∈ paras, IsParagraph para) :
    paragraphs (joined paras) = paras := by
  induction paras with
  | nil => rfl
  | cons para paras ih =>
    have hpara := h para List.mem_cons_self
    have hrest := fun p hp => h p (List.mem_cons_of_mem para hp)
    by_cases hnil : paras = []
    · subst hnil
      rw [joined_singleton, paragraphs_of_isParagraph hpara]
    · rw [joined_cons hnil, paragraphs_append hpara, ih hrest]

/-! ## The chunks of a text -/

theorem text_chunk (title : String) (g : List (List Char)) :
    (chunk title g).text.toList = joined g := String.toList_ofList

theorem texts_paragraph_split (s : List Char) (title : String) :
    (paragraph_split s title).map (·.text.toList) = (chunk_groups s).map joined := by
  rw [paragraph_split_eq, List.map_map]
  exact List.map_congr_left fun g _ => text_chunk title g

theorem flatten_chunk_groups (s : List Char) : (chunk_groups s).flatten = paragraphs s := by
  unfold chunk_groups
  rw [flatten_pack, List.nil_append]

theorem paragraphs_chunk {s : List Char} {g : List (List Char)} (h : g ∈ chunk_groups s)
    (title : String) : paragraphs (chunk title g).text.toList = g := by
  rw [text_chunk]
  exact paragraphs_joined fun _ hpara => isParagraph_of_mem_chunk h hpara

theorem joined_paragraph_split (s : List Char) (title : String) :
    joined ((paragraph_split s title).map (·.text.toList)) = joined (paragraphs s) := by
  have hgroups : ∀ g ∈ chunk_groups s, g ≠ [] := fun _ hg => ne_nil_of_mem_pack hg
  rw [texts_paragraph_split, joined_map_joined hgroups, flatten_chunk_groups]

/-- A chunk over the budget is a paragraph of the text. -/
theorem fits_or_paragraph {s : List Char} {title : String} {x : Section}
    (h : x ∈ paragraph_split s title) :
    estimate_tokens x.text.toList ≤ 2000 ∨ x.text.toList ∈ paragraphs s := by
  rw [paragraph_split_eq] at h
  obtain ⟨g, hg, rfl⟩ := List.mem_map.mp h
  rw [text_chunk]
  have hfew : ([] : List (List Char)).length ≤ 1 := Nat.zero_le 1
  rcases pack_fits (Or.inl hfew) hg with hone | hfits
  · have hlength : g.length = 1 :=
      Nat.le_antisymm hone (List.length_pos_of_ne_nil (ne_nil_of_mem_pack hg))
    obtain ⟨para, rfl⟩ := List.length_eq_one_iff.mp hlength
    right
    rw [joined_singleton, ← flatten_chunk_groups]
    exact List.mem_flatten.mpr ⟨[para], hg, List.mem_cons_self⟩
  · left
    rw [estimate_tokens_eq, word_count_joined]
    exact Nat.le_of_not_lt (of_decide_eq_false hfits)

theorem estimate_tokens_with_next (g : List (List Char)) (para : List Char) :
    estimate_tokens (joined [joined g, para]) = tokens (total word_count g + word_count para) := by
  have htotal : total word_count [joined g, para] = word_count (joined g) + word_count para :=
    (total_append [joined g] [para]).trans (by rw [total_singleton, total_singleton])
  rw [estimate_tokens_eq, word_count_joined, htotal, word_count_joined]

/-- A chunk ends only before a paragraph that does not fit in it any more. -/
theorem paragraph_split_greedy (s : List Char) (title : String) :
    (paragraph_split s title).IsChain fun x next =>
      ∃ para, (paragraphs next.text.toList).head? = some para ∧
        2000 < estimate_tokens (joined [x.text.toList, para]) := by
  rw [paragraph_split_eq, List.isChain_map]
  have hgreedy : (chunk_groups s).IsChain fun g next =>
      ∀ x, next.head? = some x → over_budget (total word_count g + word_count x) = true :=
    pack_greedy [] (paragraphs s)
  refine hgreedy.imp_of_mem_imp ?_
  intro g next hg hnext hover
  obtain ⟨para, more, rfl⟩ := List.exists_cons_of_ne_nil (ne_nil_of_mem_pack hnext)
  refine ⟨para, by rw [paragraphs_chunk hnext]; rfl, ?_⟩
  rw [text_chunk, estimate_tokens_with_next]
  exact of_decide_eq_true (hover para rfl)

/-- `_paragraph_split` loses no paragraph, keeps the budget except for single paragraphs, and cuts
only where it has to. -/
theorem paragraph_split_is_lossless_and_greedy (s : List Char) (title : String) :
    joined ((paragraph_split s title).map (·.text.toList)) = joined (paragraphs s) ∧
      (∀ x ∈ paragraph_split s title,
        estimate_tokens x.text.toList ≤ 2000 ∨ x.text.toList ∈ paragraphs s) ∧
      (paragraph_split s title).IsChain (fun x next =>
        ∃ para, (paragraphs next.text.toList).head? = some para ∧
          2000 < estimate_tokens (joined [x.text.toList, para])) ∧
      ∀ x ∈ paragraph_split s title, x.heading = title := by
  refine ⟨joined_paragraph_split s title, fun x hx => fits_or_paragraph hx,
    paragraph_split_greedy s title, fun x hx => ?_⟩
  rw [paragraph_split_eq] at hx
  obtain ⟨g, -, rfl⟩ := List.mem_map.mp hx
  rfl

end qortia
