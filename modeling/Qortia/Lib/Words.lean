-- The words of a text, its paragraphs and its lines: what stripping, cutting at blank lines and
-- joining leave of them.
import Mathlib.Data.List.Infix
import Qortia.Lib.Text

namespace text

variable {a b s : List Char} {c : Char}

/-! ## Words -/

theorem words_nil : words [] = [] := rfl

theorem words_append_cons (hc : isspace c = true) (a b : List Char) :
    words (a ++ c :: b) = words a ++ words b := by
  unfold words
  rw [List.splitOnP_append_cons _ _ hc, List.filter_append]

theorem words_cons (hc : isspace c = true) (s : List Char) : words (c :: s) = words s :=
  words_append_cons hc [] s

theorem isspace_newline : isspace '\n' = true := rfl

/-- A blank line parts the words. -/
theorem words_append_blank_line (a b : List Char) :
    words (a ++ '\n' :: '\n' :: b) = words a ++ words b := by
  rw [words_append_cons isspace_newline, words_cons isspace_newline]

theorem words_append_space (a : List Char) (hb : ∀ c ∈ b, isspace c = true) :
    words (a ++ b) = words a := by
  induction b generalizing a with
  | nil => rw [List.append_nil]
  | cons c b ih =>
    rw [words_append_cons (hb c List.mem_cons_self)]
    have hrest := ih [] fun x hx => hb x (List.mem_cons_of_mem c hx)
    rw [List.nil_append] at hrest
    rw [hrest, words_nil, List.append_nil]

theorem words_space_append (ha : ∀ c ∈ a, isspace c = true) (b : List Char) :
    words (a ++ b) = words b := by
  induction a with
  | nil => rfl
  | cons c a ih =>
    rw [List.cons_append, words_cons (ha c List.mem_cons_self)]
    exact ih fun x hx => ha x (List.mem_cons_of_mem c hx)

theorem words_eq_nil (hs : ∀ c ∈ s, isspace c = true) : words s = [] :=
  words_append_space [] hs

theorem isspace_of_mem_takeWhile (h : c ∈ s.takeWhile isspace) : isspace c = true :=
  List.all_eq_true.mp List.all_takeWhile c h

theorem words_lstrip (s : List Char) : words (lstrip s) = words s := by
  have hsplit := List.takeWhile_append_dropWhile (p := isspace) (l := s)
  calc words (lstrip s) = words (s.takeWhile isspace ++ s.dropWhile isspace) :=
        (words_space_append (fun c => isspace_of_mem_takeWhile) _).symm
    _ = words s := by rw [hsplit]

/-- A text is what `rstrip` leaves, and white space. -/
theorem rstrip_append (s : List Char) :
    rstrip s ++ (s.reverse.takeWhile isspace).reverse = s := by
  unfold rstrip
  rw [← List.reverse_append, List.takeWhile_append_dropWhile, List.reverse_reverse]

theorem words_rstrip (s : List Char) : words (rstrip s) = words s := by
  have hspace : ∀ c ∈ (s.reverse.takeWhile isspace).reverse, isspace c = true :=
    fun c hc => isspace_of_mem_takeWhile (List.mem_reverse.mp hc)
  calc words (rstrip s) = words (rstrip s ++ (s.reverse.takeWhile isspace).reverse) :=
        (words_append_space _ hspace).symm
    _ = words s := by rw [rstrip_append]

@[simp] theorem words_strip (s : List Char) : words (strip s) = words s := by
  unfold strip
  rw [words_rstrip, words_lstrip]

theorem flatten_splitOnP (p : Char → Bool) (s : List Char) :
    (s.splitOnP p).flatten = s.filter fun c => !p c := by
  induction s with
  | nil => rfl
  | cons c s ih =>
    rw [List.splitOnP_cons_eq_if_modifyHead, List.filter_cons]
    cases hp : p c with
    | true => simpa using ih
    | false =>
      rcases hparts : s.splitOnP p with _ | ⟨part, parts⟩
      · exact absurd hparts (List.splitOnP_ne_nil p s)
      · rw [hparts] at ih
        simp [← ih]

/-- The words are all that is no white space. -/
theorem flatten_words (s : List Char) : (words s).flatten = s.filter fun c => !isspace c := by
  unfold words
  rw [← flatten_splitOnP]
  exact List.flatten_filter_ne_nil

theorem words_eq_nil_iff : words s = [] ↔ ∀ c ∈ s, isspace c = true := by
  constructor
  · intro h
    have hflat := flatten_words s
    rw [h] at hflat
    simpa using (List.filter_eq_nil_iff.mp hflat.symm)
  · exact words_eq_nil

/-! ## Stripped texts -/

/-- The text neither begins nor ends with white space. -/
def Stripped (s : List Char) : Prop :=
  (∀ c, s.head? = some c → isspace c = false) ∧ ∀ c, s.getLast? = some c → isspace c = false

theorem lstrip_head (h : (lstrip s).head? = some c) : isspace c = false := by
  unfold lstrip at h
  have hne : s.dropWhile isspace ≠ [] := by
    intro hnil
    rw [hnil] at h
    cases h
  rw [List.head?_eq_some_head hne] at h
  have hhead := List.head_dropWhile_not isspace hne
  rw [Option.some.inj h] at hhead
  exact hhead

theorem lstrip_of_head (h : ∀ c, s.head? = some c → isspace c = false) : lstrip s = s := by
  cases s with
  | nil => rfl
  | cons c s =>
    unfold lstrip
    rw [List.dropWhile_cons_of_neg]
    rw [h c rfl]
    exact Bool.false_ne_true

theorem rstrip_eq (s : List Char) : rstrip s = (lstrip s.reverse).reverse := rfl

theorem Stripped.strip_eq (h : Stripped s) : strip s = s := by
  unfold strip
  rw [lstrip_of_head h.1, rstrip_eq, lstrip_of_head, List.reverse_reverse]
  intro c hc
  rw [List.head?_reverse] at hc
  exact h.2 c hc

theorem rstrip_getLast (h : (rstrip s).getLast? = some c) : isspace c = false := by
  rw [rstrip_eq, List.getLast?_reverse] at h
  exact lstrip_head h

theorem rstrip_head (h : ∀ c, s.head? = some c → isspace c = false)
    (hc : (rstrip s).head? = some c) : isspace c = false := by
  cases hr : rstrip s with
  | nil =>
    rw [hr] at hc
    cases hc
  | cons x r =>
    have happend := rstrip_append s
    rw [hr] at hc happend
    apply h c
    rw [← happend]
    exact hc

theorem stripped_strip (s : List Char) : Stripped (strip s) :=
  ⟨fun _ hc => rstrip_head (fun _ => lstrip_head) hc, fun _ => rstrip_getLast⟩

theorem mem_of_mem_strip (h : c ∈ strip s) : c ∈ s := by
  have hleft : lstrip s ⊆ s := (List.dropWhile_suffix isspace).subset
  have hright : rstrip (lstrip s) ⊆ lstrip s := fun x hx => by
    rw [← rstrip_append (lstrip s)]
    exact List.mem_append_left _ hx
  exact hleft (hright h)

theorem Stripped.join (ha : Stripped a) (hb : Stripped b) (hane : a ≠ []) (hbne : b ≠ [])
    (m : List Char) : Stripped (a ++ m ++ b) := by
  constructor
  · intro c hc
    rw [List.append_assoc, List.head?_append_of_ne_nil _ hane] at hc
    exact ha.1 c hc
  · intro c hc
    rw [List.getLast?_append_of_ne_nil _ hbne] at hc
    exact hb.2 c hc

/-! ## Paragraphs -/

/-- `"\n\n" in s`. -/
def BlankLine (s : List Char) : Prop := ['\n', '\n'] <:+: s

instance : DecidablePred BlankLine := fun s => inferInstanceAs (Decidable (_ <:+: s))

theorem blankLine_join (a b : List Char) : BlankLine (a ++ '\n' :: '\n' :: b) :=
  ⟨a, b, by simp⟩

theorem not_blankLine_strip (h : ¬ BlankLine s) : ¬ BlankLine (strip s) := by
  intro hblank
  have hright : rstrip (lstrip s) <:+: lstrip s :=
    ⟨[], _, by rw [List.nil_append, rstrip_append]⟩
  exact h (hblank.trans (hright.trans (List.dropWhile_suffix isspace).isInfix))

theorem blankLine_append_singleton (h : BlankLine (s ++ [c])) :
    BlankLine s ∨ (s.getLast? = some '\n' ∧ c = '\n') := by
  rcases List.infix_concat_iff.mp h with hend | hbefore
  · rcases List.suffix_concat_iff.mp hend with hnil | ⟨t, ht, hsuffix⟩
    · cases hnil
    · obtain ⟨rfl, hc⟩ : t = ['\n'] ∧ c = '\n' := by
        cases t with
        | nil => cases ht
        | cons x t =>
          obtain ⟨hx, hrest⟩ := List.cons.inj ht
          cases t with
          | nil => exact ⟨by rw [← hx], (List.cons.inj hrest).1.symm⟩
          | cons y t =>
            have hlength := congrArg List.length hrest
            simp at hlength
      obtain ⟨before, hbefore⟩ := hsuffix
      rw [← hbefore, List.getLast?_append]
      exact Or.inr ⟨rfl, hc⟩
  · exact Or.inl hbefore

/-- No piece has a blank line. -/
theorem not_blankLine_of_mem_split (cur s : List Char) (hcur : ¬ BlankLine cur)
    (hnext : cur.getLast? = some '\n' → s.head? ≠ some '\n') {piece : List Char}
    (h : piece ∈ splitBlankLines cur s) : ¬ BlankLine piece := by
  fun_induction splitBlankLines cur s with
  | case1 cur =>
    rw [List.mem_singleton.mp h]
    exact hcur
  | case2 cur rest ih =>
    rcases List.mem_cons.mp h with rfl | hlater
    · exact hcur
    · exact ih (by decide) (fun hnone => by cases hnone) hlater
  | case3 cur c rest hpair ih =>
    refine ih ?_ ?_ h
    · intro hblank
      rcases blankLine_append_singleton hblank with hbefore | ⟨hlast, rfl⟩
      · exact hcur hbefore
      · exact hnext hlast rfl
    · intro hlast hhead
      rw [List.getLast?_concat] at hlast
      obtain ⟨rest', hrest⟩ : ∃ rest', rest = '\n' :: rest' := by
        cases rest with
        | nil => cases hhead
        | cons x rest' => exact ⟨rest', by rw [Option.some.inj hhead]⟩
      exact hpair rest' (Option.some.inj hlast) hrest

/-- Up to its end, a text without a blank line is one piece. -/
theorem splitBlankLines_of_not_blankLine (h : ¬ BlankLine s) (cur : List Char) :
    splitBlankLines cur s = [cur ++ s] := by
  fun_induction splitBlankLines cur s with
  | case1 cur => rw [List.append_nil]
  | case2 cur rest ih => exact absurd (blankLine_join [] rest) h
  | case3 cur c rest hpair ih =>
    have hrest : ¬ BlankLine rest :=
      fun hblank => h (hblank.trans (List.suffix_cons c rest).isInfix)
    rw [ih hrest, List.append_assoc, List.singleton_append]

/-- A piece that neither has a blank line nor ends in the middle of one. -/
theorem splitBlankLines_append (h : ¬ BlankLine a) (hlast : a.getLast? ≠ some '\n')
    (cur b : List Char) :
    splitBlankLines cur (a ++ '\n' :: '\n' :: b) = (cur ++ a) :: splitBlankLines [] b := by
  induction a generalizing cur with
  | nil =>
    rw [List.append_nil]
    rfl
  | cons c a ih =>
    have hrest : ¬ BlankLine a := fun hblank => h (hblank.trans (List.suffix_cons c a).isInfix)
    have hend : a.getLast? ≠ some '\n' := by
      cases a with
      | nil => simp
      | cons x a => rwa [List.getLast?_cons_cons] at hlast
    have hpair : ∀ rest, c = '\n' → a ++ '\n' :: '\n' :: b = '\n' :: rest → False := by
      rintro rest rfl heq
      cases a with
      | nil => exact hlast rfl
      | cons x a =>
        rw [(List.cons.inj heq).1] at h
        exact h (blankLine_join [] a)
    rw [List.cons_append, splitBlankLines.eq_3 cur c _ hpair, ih hrest hend, List.append_assoc,
      List.singleton_append]

theorem words_splitBlankLines (cur s : List Char) :
    (splitBlankLines cur s).flatMap words = words (cur ++ s) := by
  fun_induction splitBlankLines cur s with
  | case1 cur => simp
  | case2 cur rest ih => rw [List.flatMap_cons, ih, List.nil_append, words_append_blank_line]
  | case3 cur c rest hpair ih => rw [ih, List.append_assoc, List.singleton_append]

/-- The paragraphs of a text, stripped, without the empty ones. -/
def paragraphs (s : List Char) : List (List Char) :=
  ((splitBlankLines [] s).map strip).filter (· ≠ [])

theorem flatMap_words_filter (pieces : List (List Char)) :
    (pieces.filter (· ≠ [])).flatMap words = pieces.flatMap words := by
  induction pieces with
  | nil => rfl
  | cons piece pieces ih =>
    rw [List.filter_cons, List.flatMap_cons]
    split
    · rw [List.flatMap_cons, ih]
    · rename_i hempty
      have hnil : piece = [] := by simpa using hempty
      rw [ih, hnil, words_nil, List.nil_append]

theorem words_paragraphs (s : List Char) : (paragraphs s).flatMap words = words s := by
  unfold paragraphs
  rw [flatMap_words_filter, List.flatMap_map]
  simp only [words_strip]
  exact words_splitBlankLines [] s

/-- A paragraph is not empty, is stripped and has no blank line. -/
structure IsParagraph (s : List Char) : Prop where
  ne_nil : s ≠ []
  stripped : Stripped s
  no_blankLine : ¬ BlankLine s

theorem isParagraph_of_mem {para : List Char} (h : para ∈ paragraphs s) : IsParagraph para := by
  obtain ⟨hmem, hne⟩ := List.mem_filter.mp h
  obtain ⟨piece, hpiece, rfl⟩ := List.mem_map.mp hmem
  refine ⟨of_decide_eq_true hne, stripped_strip piece, not_blankLine_strip ?_⟩
  exact not_blankLine_of_mem_split [] s (by decide) (fun hnone => by cases hnone) hpiece

theorem IsParagraph.words_ne_nil (h : IsParagraph s) : words s ≠ [] := by
  intro hwords
  cases s with
  | nil => exact h.ne_nil rfl
  | cons c s =>
    have hspace := words_eq_nil_iff.mp hwords c List.mem_cons_self
    rw [h.stripped.1 c rfl] at hspace
    cases hspace

/-- A paragraph before a blank line is the first one. -/
theorem paragraphs_append (h : IsParagraph a) (b : List Char) :
    paragraphs (a ++ '\n' :: '\n' :: b) = a :: paragraphs b := by
  have hlast : a.getLast? ≠ some '\n' := fun hc => Bool.noConfusion (h.stripped.2 '\n' hc)
  unfold paragraphs
  rw [splitBlankLines_append h.no_blankLine hlast, List.nil_append, List.map_cons,
    h.stripped.strip_eq, List.filter_cons, if_pos (decide_eq_true h.ne_nil)]

theorem paragraphs_of_isParagraph (h : IsParagraph s) : paragraphs s = [s] := by
  unfold paragraphs
  rw [splitBlankLines_of_not_blankLine h.no_blankLine, List.nil_append, List.map_singleton,
    h.stripped.strip_eq, List.filter_cons, if_pos (decide_eq_true h.ne_nil), List.filter_nil]

/-! ## Lines -/

def lines (s : List Char) : List (List Char) := s.splitOn '\n'

/-- The lines, each with a line break before it. -/
def newlines (ls : List (List Char)) : List Char := ls.flatMap fun l => '\n' :: l

theorem newlines_cons (l : List Char) (ls : List (List Char)) :
    newlines (l :: ls) = '\n' :: (l ++ newlines ls) := rfl

/-- A text is its first line and the other ones behind line breaks. -/
theorem lines_spec (s : List Char) :
    ∃ l ls, lines s = l :: ls ∧ s = l ++ newlines ls ∧ ∀ x ∈ l :: ls, '\n' ∉ x := by
  unfold lines
  induction s with
  | nil => exact ⟨[], [], rfl, rfl, by simp⟩
  | cons c s ih =>
    obtain ⟨l, ls, hlines, hs, hbreaks⟩ := ih
    rw [List.splitOn_cons_eq_if_modifyHead, hlines]
    by_cases hc : c = '\n'
    · subst hc
      refine ⟨[], l :: ls, by simp, ?_, ?_⟩
      · rw [List.nil_append, newlines_cons, ← hs]
      · intro x hx
        rcases List.mem_cons.mp hx with rfl | hrest
        · exact List.not_mem_nil
        · exact hbreaks x hrest
    · refine ⟨c :: l, ls, by simp [hc], ?_, ?_⟩
      · rw [List.cons_append, ← hs]
      · intro x hx
        rcases List.mem_cons.mp hx with rfl | hrest
        · intro hmem
          rcases List.mem_cons.mp hmem with hhead | htail
          · exact hc hhead.symm
          · exact hbreaks l List.mem_cons_self htail
        · exact hbreaks x (List.mem_cons_of_mem l hrest)

theorem words_append_newlines (l : List Char) (ls : List (List Char)) :
    words (l ++ newlines ls) = (l :: ls).flatMap words := by
  induction ls generalizing l with
  | nil => simp [newlines]
  | cons next ls ih =>
    rw [newlines_cons, words_append_cons isspace_newline, ih]
    rfl

/-! ## Runs of characters -/

/-- A run of characters ends where the next character is another one. -/
theorem takeWhile_run {p : Char → Bool} {run rest : List Char} (hrun : ∀ c ∈ run, p c = true)
    (hrest : ∀ c, rest.head? = some c → p c = false) : (run ++ rest).takeWhile p = run := by
  rw [List.takeWhile_append_of_pos hrun]
  cases rest with
  | nil => exact List.append_nil run
  | cons c rest => simp [hrest c rfl]

theorem dropWhile_run {p : Char → Bool} {run rest : List Char} (hrun : ∀ c ∈ run, p c = true)
    (hrest : ∀ c, rest.head? = some c → p c = false) : (run ++ rest).dropWhile p = rest := by
  rw [List.dropWhile_append_of_pos hrun]
  cases rest with
  | nil => rfl
  | cons c rest => simp [hrest c rfl]

theorem drop_takeWhile (p : Char → Bool) (s : List Char) :
    s.drop (s.takeWhile p).length = s.dropWhile p := by
  have hdrop : (s.takeWhile p ++ s.dropWhile p).drop (s.takeWhile p).length = s.dropWhile p :=
    List.drop_left
  rwa [List.takeWhile_append_dropWhile] at hdrop

end text
