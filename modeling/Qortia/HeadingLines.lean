-- What `HEADING_PATTERN` takes from a document, line by line. The white space after the number
-- signs may span line breaks, so that a line of number signs alone takes the next text with it.
import Mathlib.Data.List.TakeWhile
import Qortia.Lib.Words
import Qortia.Sections

namespace qortia

open text

/-! ## The pattern -/

def hash_count (s : List Char) : Nat := (s.takeWhile (· = '#')).length

def unhashed (s : List Char) : List Char := s.dropWhile (· = '#')

/-- Two or three number signs at the beginning, and white space after them. -/
def marked (s : List Char) : Prop :=
  (2 ≤ hash_count s ∧ hash_count s ≤ 3) ∧ (unhashed s).takeWhile isspace ≠ []

instance : DecidablePred marked := fun _ => inferInstanceAs (Decidable (_ ∧ _))

/-- What is left of a text after its white space and the rest of the line. -/
def swallow (s : List Char) : List Char := (s.dropWhile isspace).dropWhile (· ≠ '\n')

theorem drop_hash_count (s : List Char) : s.drop (hash_count s) = unhashed s := drop_takeWhile _ s

theorem match_heading_eq (s : List Char) :
    match_heading s =
      if ¬ marked s then none
      else if (unhashed s).dropWhile isspace ≠ [] then
        some (((unhashed s).dropWhile isspace).takeWhile (· ≠ '\n'),
          hash_count s + ((unhashed s).takeWhile isspace).length +
            (((unhashed s).dropWhile isspace).takeWhile (· ≠ '\n')).length)
      else
        match (((unhashed s).takeWhile isspace).drop 1).reverse.dropWhile (· = '\n') with
        | [] => none
        | c :: before => some ([c], hash_count s + before.length + 2) := by
  have hrest : s.drop (hash_count s + ((unhashed s).takeWhile isspace).length) =
      (unhashed s).dropWhile isspace := by
    rw [← List.drop_drop, drop_hash_count, drop_takeWhile]
  have hmarked : (hash_count s < 2 ∨ 3 < hash_count s ∨ (unhashed s).takeWhile isspace = []) ↔
      ¬ marked s := by
    unfold marked
    constructor
    · rintro (hfew | hmany | hnone) ⟨hcount, hspace⟩
      · omega
      · omega
      · exact hspace hnone
    · intro hnot
      by_contra hcon
      rw [not_or, not_or] at hcon
      exact hnot ⟨⟨by omega, by omega⟩, hcon.2.2⟩
  unfold match_heading
  simp only [← hash_count.eq_1, drop_hash_count, hrest]
  exact if_congr hmarked rfl rfl

theorem match_heading_of_not_marked {s : List Char} (h : ¬ marked s) : match_heading s = none := by
  rw [match_heading_eq, if_pos h]

theorem match_heading_of_head {c : Char} (h : c ≠ '#') (s : List Char) :
    match_heading (c :: s) = none := by
  have hcount : hash_count (c :: s) = 0 := by simp [hash_count, h]
  refine match_heading_of_not_marked fun hmarked => ?_
  have htwo := hmarked.1.1
  omega

theorem ne_hash_of_isspace {c : Char} (h : isspace c = true) : c ≠ '#' := by
  intro heq
  rw [heq] at h
  cases h

/-- With text after the white space, the match ends with the line in which the text begins. -/
theorem match_heading_of_rest {s : List Char} (hmarked : marked s)
    (hrest : (unhashed s).dropWhile isspace ≠ []) :
    ∃ t n, match_heading s = some (t, n + 1) ∧ s.drop (n + 1) = swallow (unhashed s) := by
  have hcount := hmarked.1.1
  refine ⟨((unhashed s).dropWhile isspace).takeWhile (· ≠ '\n'),
    hash_count s - 1 + ((unhashed s).takeWhile isspace).length +
      (((unhashed s).dropWhile isspace).takeWhile (· ≠ '\n')).length, ?_, ?_⟩
  · rw [match_heading_eq, if_neg (not_not_intro hmarked), if_pos hrest]
    congr 2
    omega
  · have hlength : hash_count s - 1 + ((unhashed s).takeWhile isspace).length +
        (((unhashed s).dropWhile isspace).takeWhile (· ≠ '\n')).length + 1 =
        hash_count s + ((unhashed s).takeWhile isspace).length +
          (((unhashed s).dropWhile isspace).takeWhile (· ≠ '\n')).length := by omega
    rw [hlength, ← List.drop_drop, ← List.drop_drop, drop_hash_count, drop_takeWhile,
      drop_takeWhile]
    rfl

/-- A character other than a line break comes after the first character of white space. -/
def spare (s : List Char) : Bool := (s.drop 1).any (· ≠ '\n')

theorem dropWhile_reverse_eq_nil_iff (s : List Char) :
    s.reverse.dropWhile (· = '\n') = [] ↔ s.any (· ≠ '\n') = false := by
  rw [List.dropWhile_eq_nil_iff]
  simp

/-- With nothing but white space to the end, the match needs a character for its second group. -/
theorem match_heading_of_space {s : List Char} (hmarked : marked s)
    (hspace : ∀ c ∈ unhashed s, isspace c = true) :
    (spare (unhashed s) = false → match_heading s = none) ∧
    (spare (unhashed s) = true → ∃ t n, match_heading s = some (t, n + 1) ∧
      ∀ c ∈ s.drop (n + 1), isspace c = true) := by
  have htake : (unhashed s).takeWhile isspace = unhashed s := List.takeWhile_eq_self_iff.mpr hspace
  have hdrop : (unhashed s).dropWhile isspace = [] := List.dropWhile_eq_nil_iff.mpr hspace
  have hnothing : ¬ (unhashed s).dropWhile isspace ≠ [] := not_not_intro hdrop
  rw [match_heading_eq, if_neg (not_not_intro hmarked), if_neg hnothing, htake]
  rcases hend : ((unhashed s).drop 1).reverse.dropWhile (· = '\n') with _ | ⟨c, before⟩
  · have hspare : spare (unhashed s) = false := (dropWhile_reverse_eq_nil_iff _).mp hend
    rw [hspare]
    exact ⟨fun _ => rfl, fun hfalse => by cases hfalse⟩
  · have hspare : spare (unhashed s) = true := by
      by_contra hnone
      have hnil := (dropWhile_reverse_eq_nil_iff _).mpr (Bool.eq_false_iff.mpr hnone)
      rw [hend] at hnil
      cases hnil
    rw [hspare]
    refine ⟨fun hfalse => absurd hfalse (by decide), fun _ =>
      ⟨[c], hash_count s + before.length + 1, rfl, ?_⟩⟩
    intro x hx
    rw [Nat.add_assoc, Nat.add_assoc, ← List.drop_drop, drop_hash_count] at hx
    exact hspace x (List.mem_of_mem_drop hx)

/-! ## Cutting -/

/-- The characters of a heading are skipped. -/
theorem cut_headings_skip (k : Nat) (bol : Bool) (s : List Char) :
    ∃ bol', cut_headings k bol s = cut_headings 0 bol' (s.drop k) := by
  induction s generalizing k bol with
  | nil => exact ⟨bol, by cases k <;> rfl⟩
  | cons c s ih =>
    cases k with
    | zero => exact ⟨bol, rfl⟩
    | succ k =>
      obtain ⟨bol', hskip⟩ := ih k (c = '\n')
      exact ⟨bol', hskip⟩

theorem cut_headings_of_match {s t : List Char} {n : Nat}
    (h : match_heading s = some (t, n + 1)) :
    ∃ bol, cut_headings 0 true s =
      ([], (t, (cut_headings 0 bol (s.drop (n + 1))).1) ::
        (cut_headings 0 bol (s.drop (n + 1))).2) := by
  cases s with
  | nil => cases h
  | cons c s =>
    obtain ⟨bol, hskip⟩ := cut_headings_skip n (c = '\n') s
    refine ⟨bol, ?_⟩
    rw [cut_headings]
    simp only [if_true, h, Nat.add_sub_cancel]
    rw [hskip]
    rfl

theorem cut_headings_cons {bol : Bool} {c : Char} {s : List Char}
    (h : bol = true → match_heading (c :: s) = none) :
    cut_headings 0 bol (c :: s) =
      (c :: (cut_headings 0 (c = '\n') s).1, (cut_headings 0 (c = '\n') s).2) := by
  rw [cut_headings]
  cases bol with
  | false => rfl
  | true =>
    simp only [if_true, h rfl]

theorem cut_headings_newline (bol : Bool) (s : List Char) :
    cut_headings 0 bol ('\n' :: s) =
      ('\n' :: (cut_headings 0 true s).1, (cut_headings 0 true s).2) := by
  rw [cut_headings_cons fun _ => match_heading_of_head (by decide) s]
  rfl

/-- Between two line breaks the characters are copied. -/
theorem cut_headings_copy {l : List Char} (hl : '\n' ∉ l) (s : List Char) :
    cut_headings 0 false (l ++ s) =
      (l ++ (cut_headings 0 false s).1, (cut_headings 0 false s).2) := by
  induction l with
  | nil => rfl
  | cons c l ih =>
    have hc : decide (c = '\n') = false :=
      decide_eq_false fun heq => hl (heq ▸ List.mem_cons_self)
    rw [List.cons_append, cut_headings_cons (fun hfalse => by cases hfalse), hc,
      ih fun hmem => hl (List.mem_cons_of_mem c hmem)]
    rfl

/-- A text with no number sign is copied. -/
theorem cut_headings_plain {a : List Char} (h : ∀ c ∈ a, c ≠ '#') (bol : Bool) (s : List Char) :
    ∃ bol', cut_headings 0 bol (a ++ s) =
      (a ++ (cut_headings 0 bol' s).1, (cut_headings 0 bol' s).2) := by
  induction a generalizing bol with
  | nil => exact ⟨bol, rfl⟩
  | cons c a ih =>
    obtain ⟨bol', hcut⟩ := ih (fun x hx => h x (List.mem_cons_of_mem c hx)) (c = '\n')
    refine ⟨bol', ?_⟩
    rw [List.cons_append, cut_headings_cons fun _ =>
      match_heading_of_head (h c List.mem_cons_self) (a ++ s), hcut]
    rfl

/-! ## Lines -/

def blank (l : List Char) : Bool := l.all isspace

/-- Two or three number signs, white space and a text. -/
def titled (l : List Char) : Bool :=
  decide (2 ≤ hash_count l ∧ hash_count l ≤ 3) && (unhashed l).head?.any isspace &&
    !blank (unhashed l)

/-- Two or three number signs with at most white space after them. -/
def bare (l : List Char) : Bool :=
  decide (2 ≤ hash_count l ∧ hash_count l ≤ 3) && blank (unhashed l)

/-- Two characters of white space after the number signs, so that a bare line is a heading. -/
def wide (l : List Char) : Bool := decide (2 ≤ (unhashed l).length)

/-- A line that the pattern matches by itself. -/
def heading_line (l : List Char) : Bool := (match_heading l).isSome

/-- A bare line that the pattern matches with what follows. -/
def opens (l : List Char) (ls : List (List Char)) : Bool :=
  bare l && (wide l || ls.any (· ≠ []))

section
variable {l : List Char} {ls : List (List Char)}

theorem newlines_head {c : Char} (h : (newlines ls).head? = some c) : c = '\n' := by
  cases ls with
  | nil => cases h
  | cons l ls => exact (Option.some.inj h).symm

theorem hashes_append_unhashed (l : List Char) : l.takeWhile (· = '#') ++ unhashed l = l :=
  List.takeWhile_append_dropWhile

theorem unhashed_head {c : Char} (h : (unhashed l).head? = some c) : c ≠ '#' := by
  have hne : unhashed l ≠ [] := by
    intro hnil
    rw [hnil] at h
    cases h
  rw [List.head?_eq_some_head hne] at h
  have hhead := List.head_dropWhile_not (fun c => decide (c = '#')) hne
  rw [← Option.some.inj h]
  exact of_decide_eq_false hhead

/-- The number signs of a line end with the line. -/
theorem hash_run (l : List Char) (ls : List (List Char)) :
    hash_count (l ++ newlines ls) = hash_count l ∧
      unhashed (l ++ newlines ls) = unhashed l ++ newlines ls := by
  have hrun : ∀ c ∈ l.takeWhile (· = '#'), decide (c = '#') = true :=
    fun c hc => List.all_eq_true.mp List.all_takeWhile c hc
  have hrest : ∀ c, (unhashed l ++ newlines ls).head? = some c → decide (c = '#') = false := by
    intro c hc
    refine decide_eq_false ?_
    rcases hu : unhashed l with _ | ⟨x, u⟩
    · rw [hu, List.nil_append] at hc
      rw [newlines_head hc]
      decide
    · have hhead : (unhashed l).head? = some c := by
        rw [hu] at hc ⊢
        exact hc
      exact unhashed_head hhead
  have hsplit : l ++ newlines ls = l.takeWhile (· = '#') ++ (unhashed l ++ newlines ls) := by
    rw [← List.append_assoc, hashes_append_unhashed]
  constructor
  · unfold hash_count
    rw [hsplit, takeWhile_run hrun hrest]
  · unfold unhashed at hsplit hrest ⊢
    rw [hsplit, dropWhile_run hrun hrest]

theorem marked_iff (l : List Char) (ls : List (List Char)) :
    marked (l ++ newlines ls) ↔ (2 ≤ hash_count l ∧ hash_count l ≤ 3) ∧
      (unhashed l ++ newlines ls).head?.any isspace = true := by
  unfold marked
  rw [(hash_run l ls).1, (hash_run l ls).2]
  refine and_congr_right fun _ => ?_
  cases unhashed l ++ newlines ls with
  | nil => simp
  | cons c s => cases hc : isspace c <;> simp [hc]

theorem mem_unhashed {c : Char} (h : c ∈ unhashed l) : c ∈ l :=
  (List.dropWhile_sublist _).subset h

theorem blank_append (a b : List Char) : blank (a ++ b) = (blank a && blank b) :=
  List.all_append

theorem dropWhile_ne_nil_of_text {s : List Char} (h : blank s = false) :
    s.dropWhile isspace ≠ [] := by
  intro hnil
  rw [blank, List.all_eq_true.mpr (List.dropWhile_eq_nil_iff.mp hnil)] at h
  cases h

/-- The rest of a line with text on it is swallowed, and no more. -/
theorem swallow_text {u : List Char} (hu : '\n' ∉ u) (hblank : blank u = false)
    (ls : List (List Char)) : swallow (u ++ newlines ls) = newlines ls := by
  have hne := dropWhile_ne_nil_of_text hblank
  unfold swallow
  rw [List.dropWhile_append, if_neg (by simpa using hne)]
  refine dropWhile_run (fun c hc => decide_eq_true ?_) fun c hc => ?_
  · intro hbreak
    exact hu (hbreak ▸ (List.dropWhile_sublist _).subset hc)
  · rw [newlines_head hc]
    rfl

theorem swallow_blank {u : List Char} (hblank : blank u = true) (s : List Char) :
    swallow (u ++ s) = swallow s := by
  unfold swallow
  rw [List.dropWhile_append_of_pos (List.all_eq_true.mp hblank)]

theorem any_newlines (hls : ∀ x ∈ ls, '\n' ∉ x) :
    (newlines ls).any (· ≠ '\n') = ls.any (· ≠ []) := by
  induction ls with
  | nil => rfl
  | cons x ls ih =>
    have hx := hls x List.mem_cons_self
    rw [newlines_cons, List.any_cons, List.any_append, List.any_cons,
      ih fun y hy => hls y (List.mem_cons_of_mem x hy)]
    cases x with
    | nil => simp
    | cons c x =>
      have hc : c ≠ '\n' := fun heq => hx (heq ▸ List.mem_cons_self)
      simp [hc]

theorem spare_append_newlines (hl : '\n' ∉ unhashed l) (hls : ∀ x ∈ ls, '\n' ∉ x) :
    spare (unhashed l ++ newlines ls) = (wide l || ls.any (· ≠ [])) := by
  rw [← any_newlines hls]
  unfold spare wide
  rcases hu : unhashed l with _ | ⟨c, u⟩
  · cases ls with
    | nil => rfl
    | cons x ls => simp [newlines_cons]
  · rcases u with _ | ⟨c', u⟩
    · simp
    · have hc' : c' ≠ '\n' := by
        intro heq
        rw [hu, heq] at hl
        exact hl (List.mem_cons_of_mem c List.mem_cons_self)
      simp [hc']

theorem not_mem_unhashed (hl : '\n' ∉ l) : '\n' ∉ unhashed l := fun hmem => hl (mem_unhashed hmem)

/-- A line with a title is matched, and no more. -/
theorem match_titled (hl : '\n' ∉ l) (h : titled l = true) (ls : List (List Char)) :
    ∃ t n, match_heading (l ++ newlines ls) = some (t, n + 1) ∧
      (l ++ newlines ls).drop (n + 1) = newlines ls := by
  simp only [titled, Bool.and_eq_true, decide_eq_true_eq, Bool.not_eq_true'] at h
  obtain ⟨⟨hcount, hspace⟩, htext⟩ := h
  have hmarked : marked (l ++ newlines ls) := by
    refine (marked_iff l ls).mpr ⟨hcount, ?_⟩
    cases hu : unhashed l with
    | nil => rw [hu] at hspace; cases hspace
    | cons c u => rw [hu] at hspace; exact hspace
  have hrest : (unhashed (l ++ newlines ls)).dropWhile isspace ≠ [] := by
    refine dropWhile_ne_nil_of_text ?_
    rw [(hash_run l ls).2, blank_append, htext, Bool.false_and]
  obtain ⟨t, n, hmatch, hdrop⟩ := match_heading_of_rest hmarked hrest
  rw [(hash_run l ls).2, swallow_text (not_mem_unhashed hl) htext] at hdrop
  exact ⟨t, n, hmatch, hdrop⟩

/-- A bare line takes the white space after it and the line in which the next text begins. -/
theorem match_bare_text (h : bare l = true) (htext : blank (newlines ls) = false) :
    ∃ t n, match_heading (l ++ newlines ls) = some (t, n + 1) ∧
      (l ++ newlines ls).drop (n + 1) = swallow (newlines ls) := by
  simp only [bare, Bool.and_eq_true, decide_eq_true_eq] at h
  obtain ⟨hcount, hblank⟩ := h
  have hmarked : marked (l ++ newlines ls) := by
    refine (marked_iff l ls).mpr ⟨hcount, ?_⟩
    cases hu : unhashed l with
    | nil =>
      cases ls with
      | nil => cases htext
      | cons x ls => rfl
    | cons c u =>
      rw [hu] at hblank
      exact (Bool.and_eq_true_iff.mp hblank).1
  have hrest : (unhashed (l ++ newlines ls)).dropWhile isspace ≠ [] := by
    refine dropWhile_ne_nil_of_text ?_
    rw [(hash_run l ls).2, blank_append, htext, Bool.and_false]
  obtain ⟨t, n, hmatch, hdrop⟩ := match_heading_of_rest hmarked hrest
  rw [(hash_run l ls).2, swallow_blank hblank] at hdrop
  exact ⟨t, n, hmatch, hdrop⟩

/-- A bare line before nothing but white space. -/
theorem match_bare_space (hl : '\n' ∉ l) (hls : ∀ x ∈ ls, '\n' ∉ x) (h : bare l = true)
    (hspace : blank (newlines ls) = true) :
    (opens l ls = false → match_heading (l ++ newlines ls) = none) ∧
    (opens l ls = true → ∃ t n, match_heading (l ++ newlines ls) = some (t, n + 1) ∧
      ∀ c ∈ (l ++ newlines ls).drop (n + 1), isspace c = true) := by
  have hopens : opens l ls = spare (unhashed (l ++ newlines ls)) := by
    rw [(hash_run l ls).2, spare_append_newlines (not_mem_unhashed hl) hls, opens, h, Bool.true_and]
  simp only [bare, Bool.and_eq_true, decide_eq_true_eq] at h
  have hall : ∀ c ∈ unhashed (l ++ newlines ls), isspace c = true := by
    refine List.all_eq_true.mp ?_
    rw [(hash_run l ls).2, ← blank, blank_append, h.2, hspace]
    rfl
  rw [hopens]
  by_cases hmarked : marked (l ++ newlines ls)
  · exact match_heading_of_space hmarked hall
  · have hnil : unhashed (l ++ newlines ls) = [] := by
      by_contra hne
      refine hmarked ⟨?_, ?_⟩
      · rw [(hash_run l ls).1]
        exact h.1
      · rw [List.takeWhile_eq_self_iff.mpr hall]
        exact hne
    rw [hnil]
    exact ⟨fun _ => match_heading_of_not_marked hmarked, fun hspare => by cases hspare⟩

theorem match_other (htitled : titled l = false) (hbare : bare l = false)
    (ls : List (List Char)) :
    match_heading (l ++ newlines ls) = none := by
  refine match_heading_of_not_marked fun hmarked => ?_
  obtain ⟨hcount, hspace⟩ := (marked_iff l ls).mp hmarked
  have hblank : blank (unhashed l) = false := by simpa [bare, hcount] using hbare
  simp only [titled, hcount, and_self, decide_true, Bool.true_and, hblank, Bool.not_false,
    Bool.and_true] at htitled
  cases hu : unhashed l with
  | nil =>
    rw [hu] at hblank
    cases hblank
  | cons c u =>
    rw [hu] at hspace htitled
    simp only [List.cons_append, List.head?_cons, Option.any_some] at hspace htitled
    rw [hspace] at htitled
    cases htitled

theorem append_newlines_nil (l : List Char) : l ++ newlines [] = l := List.append_nil l

/-- A heading line has a title, or is bare and wide. -/
theorem heading_line_of_titled (hl : '\n' ∉ l) (h : titled l = true) : heading_line l = true := by
  obtain ⟨t, n, hmatch, -⟩ := match_titled hl h []
  rw [append_newlines_nil] at hmatch
  rw [heading_line, hmatch]
  rfl

theorem heading_line_of_bare (hl : '\n' ∉ l) (h : bare l = true) : heading_line l = wide l := by
  have hnone : ∀ x ∈ ([] : List (List Char)), '\n' ∉ x := fun x hx => absurd hx List.not_mem_nil
  obtain ⟨hclosed, hopen⟩ := match_bare_space hl hnone h rfl
  have hopens : opens l [] = wide l := by simp [opens, h]
  rw [hopens, append_newlines_nil] at hclosed hopen
  unfold heading_line
  cases hwide : wide l with
  | false => rw [hclosed hwide]; rfl
  | true =>
    obtain ⟨t, n, hmatch, -⟩ := hopen hwide
    rw [hmatch]
    rfl

theorem heading_line_of_other (htitled : titled l = false) (hbare : bare l = false) :
    heading_line l = false := by
  have hmatch := match_other htitled hbare []
  rw [append_newlines_nil] at hmatch
  rw [heading_line, hmatch]
  rfl

/-! ## What is kept -/

/-- The words that the cut leaves in the text before the headings and under them. -/
def kept_words (cut : List Char × List (List Char × List Char)) : List (List Char) :=
  words cut.1 ++ cut.2.flatMap fun m => words m.2

/-- The lines that the cut keeps. `true` says that a bare line has opened a match that takes the
next line with text on it. -/
def kept_lines : Bool → List (List Char) → List (List Char)
  | _, [] => []
  | true, l :: ls => if blank l then kept_lines true ls else kept_lines false ls
  | false, l :: ls =>
    if opens l ls then kept_lines true ls
    else if heading_line l then kept_lines false ls
    else l :: kept_lines false ls

theorem kept_words_newlines (bol : Bool) (l : List Char) (ls : List (List Char)) :
    kept_words (cut_headings 0 bol (newlines (l :: ls))) =
      kept_words (cut_headings 0 true (l ++ newlines ls)) := by
  rw [newlines_cons, cut_headings_newline]
  unfold kept_words
  rw [words_cons isspace_newline]

theorem kept_words_of_match {s t : List Char} {n : Nat} (h : match_heading s = some (t, n + 1)) :
    ∃ bol, kept_words (cut_headings 0 true s) =
      kept_words (cut_headings 0 bol (s.drop (n + 1))) := by
  obtain ⟨bol, hcut⟩ := cut_headings_of_match h
  refine ⟨bol, ?_⟩
  rw [hcut]
  rfl

/-- No line of white space is a heading. -/
theorem cut_headings_space (bol : Bool) {s : List Char} (h : ∀ c ∈ s, isspace c = true) :
    cut_headings 0 bol s = (s, []) := by
  induction s generalizing bol with
  | nil => cases bol <;> rfl
  | cons c s ih =>
    have hc := ne_hash_of_isspace (h c List.mem_cons_self)
    rw [cut_headings_cons fun _ => match_heading_of_head hc s,
      ih _ fun x hx => h x (List.mem_cons_of_mem c hx)]

theorem kept_words_space (bol : Bool) {s : List Char} (h : ∀ c ∈ s, isspace c = true) :
    kept_words (cut_headings 0 bol s) = [] := by
  rw [cut_headings_space bol h]
  unfold kept_words
  rw [words_eq_nil h]
  rfl

theorem cut_newlines_bol (ls : List (List Char)) (bol bol' : Bool) :
    cut_headings 0 bol (newlines ls) = cut_headings 0 bol' (newlines ls) := by
  cases ls with
  | nil => rfl
  | cons l ls => rw [newlines_cons, cut_headings_newline, cut_headings_newline]

theorem words_append_cut (l : List Char) (ls : List (List Char)) (bol : Bool) :
    words (l ++ (cut_headings 0 bol (newlines ls)).1) =
      words l ++ words (cut_headings 0 bol (newlines ls)).1 := by
  cases ls with
  | nil =>
    have hnil : cut_headings 0 bol (newlines []) = ([], []) := by cases bol <;> rfl
    rw [hnil, List.append_nil, words_nil, List.append_nil]
  | cons x ls =>
    rw [newlines_cons, cut_headings_newline, words_append_cons isspace_newline,
      words_cons isspace_newline]

theorem cut_headings_of_none (hl : '\n' ∉ l) (h : match_heading (l ++ newlines ls) = none) :
    cut_headings 0 true (l ++ newlines ls) =
      (l ++ (cut_headings 0 false (newlines ls)).1, (cut_headings 0 false (newlines ls)).2) := by
  cases l with
  | nil => exact cut_newlines_bol ls true false
  | cons c l =>
    have hc : decide (c = '\n') = false :=
      decide_eq_false fun heq => hl (heq ▸ List.mem_cons_self)
    rw [List.cons_append] at h ⊢
    rw [cut_headings_cons fun _ => h, hc,
      cut_headings_copy fun hmem => hl (List.mem_cons_of_mem c hmem)]
    rfl

/-- A line that is not matched keeps its words. -/
theorem kept_words_of_none (hl : '\n' ∉ l) (h : match_heading (l ++ newlines ls) = none) :
    kept_words (cut_headings 0 true (l ++ newlines ls)) =
      words l ++ kept_words (cut_headings 0 false (newlines ls)) := by
  rw [cut_headings_of_none hl h]
  unfold kept_words
  rw [words_append_cut, List.append_assoc]

theorem opens_of_text (hls : ∀ x ∈ ls, '\n' ∉ x) (h : bare l = true)
    (htext : blank (newlines ls) = false) : opens l ls = true := by
  unfold opens
  rw [h, Bool.true_and, Bool.or_eq_true, ← any_newlines hls]
  refine Or.inr ?_
  by_contra hnone
  have hblank : blank (newlines ls) = true := by
    refine List.all_eq_true.mpr fun c hc => ?_
    have hbreak : c = '\n' := by simpa using List.any_eq_false.mp (Bool.eq_false_iff.mpr hnone) c hc
    rw [hbreak]
    rfl
  rw [hblank] at htext
  cases htext

/-- A line that opens nothing and is no heading is not matched. -/
theorem match_none (hl : '\n' ∉ l) (hls : ∀ x ∈ ls, '\n' ∉ x) (hopens : opens l ls = false)
    (hheading : heading_line l = false) : match_heading (l ++ newlines ls) = none := by
  cases htitled : titled l with
  | true =>
    rw [heading_line_of_titled hl htitled] at hheading
    cases hheading
  | false =>
    cases hbare : bare l with
    | false => exact match_other htitled hbare ls
    | true =>
      cases hblank : blank (newlines ls) with
      | true => exact (match_bare_space hl hls hbare hblank).1 hopens
      | false =>
        rw [opens_of_text hls hbare hblank] at hopens
        cases hopens

theorem titled_of_heading_line (hl : '\n' ∉ l) (hopens : opens l ls = false)
    (hheading : heading_line l = true) : titled l = true := by
  cases htitled : titled l with
  | true => rfl
  | false =>
    cases hbare : bare l with
    | false =>
      rw [heading_line_of_other htitled hbare] at hheading
      cases hheading
    | true =>
      rw [heading_line_of_bare hl hbare] at hheading
      simp [opens, hbare, hheading] at hopens

/-- The cut keeps the words of the lines that it keeps, also where a match has been opened. -/
theorem kept_words_eq (hls : ∀ x ∈ ls, '\n' ∉ x) :
    (∀ bol, kept_words (cut_headings 0 bol (newlines ls)) = (kept_lines false ls).flatMap words) ∧
    ∀ bol, kept_words (cut_headings 0 bol (swallow (newlines ls))) =
      (kept_lines true ls).flatMap words := by
  induction ls with
  | nil =>
    have hnil : ∀ bol, kept_words (cut_headings 0 bol []) = [] := fun bol =>
      kept_words_space bol fun c hc => absurd hc List.not_mem_nil
    exact ⟨hnil, hnil⟩
  | cons l ls ih =>
    have hl := hls l List.mem_cons_self
    have hrest : ∀ x ∈ ls, '\n' ∉ x := fun x hx => hls x (List.mem_cons_of_mem l hx)
    obtain ⟨ihclosed, ihopen⟩ := ih hrest
    constructor
    · intro bol
      rw [kept_words_newlines, kept_lines]
      cases hopens : opens l ls with
      | true =>
        have hbare := (Bool.and_eq_true_iff.mp hopens).1
        rw [if_pos rfl]
        cases hblank : blank (newlines ls) with
        | true =>
          obtain ⟨t, n, hmatch, hspace⟩ := (match_bare_space hl hrest hbare hblank).2 hopens
          obtain ⟨bol', hkept⟩ := kept_words_of_match hmatch
          have hswallow : swallow (newlines ls) = [] := by
            have happend := swallow_blank hblank []
            rw [List.append_nil] at happend
            exact happend
          rw [hkept, kept_words_space bol' hspace, ← ihopen true, hswallow]
          rfl
        | false =>
          obtain ⟨t, n, hmatch, hdrop⟩ := match_bare_text hbare hblank
          obtain ⟨bol', hkept⟩ := kept_words_of_match hmatch
          rw [hkept, hdrop, ihopen]
      | false =>
        rw [if_neg Bool.false_ne_true]
        cases hheading : heading_line l with
        | true =>
          have htitled := titled_of_heading_line hl hopens hheading
          obtain ⟨t, n, hmatch, hdrop⟩ := match_titled hl htitled ls
          obtain ⟨bol', hkept⟩ := kept_words_of_match hmatch
          rw [hkept, hdrop, ihclosed, if_pos rfl]
        | false =>
          rw [kept_words_of_none hl (match_none hl hrest hopens hheading), ihclosed,
            if_neg Bool.false_ne_true, List.flatMap_cons]
    · intro bol
      have hbreak : blank ['\n'] = true := rfl
      have hline : swallow (newlines (l :: ls)) = swallow (l ++ newlines ls) :=
        swallow_blank hbreak (l ++ newlines ls)
      rw [hline, kept_lines]
      cases hblank : blank l with
      | true => rw [swallow_blank hblank, ihopen, if_pos rfl]
      | false => rw [swallow_text hl hblank, ihclosed, if_neg Bool.false_ne_true]

/-! ## Headings and bodies -/

/-- The lines that are no headings. -/
def body_lines (ls : List (List Char)) : List (List Char) := ls.filter fun l => !heading_line l

/-- Every line that the pattern takes is a heading by itself: a bare line that opens a match is
one, and so is the first line with text after it, if any. -/
def intact : Bool → List (List Char) → Bool
  | _, [] => true
  | true, l :: ls => if blank l then intact true ls else heading_line l && intact false ls
  | false, l :: ls => if opens l ls then heading_line l && intact true ls else intact false ls

theorem body_lines_cons (l : List Char) (ls : List (List Char)) :
    (body_lines (l :: ls)).flatMap words =
      if heading_line l then (body_lines ls).flatMap words
      else words l ++ (body_lines ls).flatMap words := by
  unfold body_lines
  rw [List.filter_cons]
  cases heading_line l with
  | true => rfl
  | false => rfl

theorem words_ne_nil_of_text (h : blank l = false) : words l ≠ [] := by
  intro hnil
  rw [blank, List.all_eq_true.mpr (words_eq_nil_iff.mp hnil)] at h
  cases h

theorem words_ne_nil_of_bare (h : bare l = true) : words l ≠ [] := by
  simp only [bare, Bool.and_eq_true, decide_eq_true_eq] at h
  intro hnil
  have hspace := words_eq_nil_iff.mp hnil
  have hcount := h.1.1
  cases l with
  | nil => exact absurd hcount (by decide)
  | cons c l =>
    have hc : c = '#' := by
      by_contra hne
      simp [hash_count, hne] at hcount
    exact ne_hash_of_isspace (hspace c List.mem_cons_self) hc

theorem heading_line_of_blank (h : blank l = true) : heading_line l = false := by
  unfold heading_line
  cases l with
  | nil => rfl
  | cons c l =>
    have hc := List.all_eq_true.mp h c List.mem_cons_self
    rw [match_heading_of_head (ne_hash_of_isspace hc)]
    rfl

/-- A line with words may be taken only if it is a heading. -/
theorem taken_iff {kept : List (List Char)} (hwords : words l ≠ [])
    (hle : kept.length ≤ ((body_lines ls).flatMap words).length) :
    kept.length ≤ ((body_lines (l :: ls)).flatMap words).length ∧
      (kept = (body_lines (l :: ls)).flatMap words ↔
        heading_line l = true ∧ kept = (body_lines ls).flatMap words) := by
  rw [body_lines_cons]
  cases heading_line l with
  | true => simpa using hle
  | false =>
    have hpos := List.length_pos_of_ne_nil hwords
    rw [if_neg Bool.false_ne_true, List.length_append]
    refine ⟨by omega, iff_of_false (fun heq => ?_) fun hand => Bool.false_ne_true hand.1⟩
    have hlength := congrArg List.length heq
    rw [List.length_append] at hlength
    omega

/-- The words that are kept are at most those of the body lines, and exactly those when the lines
are intact. -/
theorem kept_iff_intact (pending : Bool) (ls : List (List Char)) :
    ((kept_lines pending ls).flatMap words).length ≤ ((body_lines ls).flatMap words).length ∧
      ((kept_lines pending ls).flatMap words = (body_lines ls).flatMap words ↔
        intact pending ls = true) := by
  induction ls generalizing pending with
  | nil => cases pending <;> simp [kept_lines, body_lines, intact]
  | cons l ls ih =>
    cases pending with
    | true =>
      rw [kept_lines, intact]
      cases hblank : blank l with
      | true =>
        rw [if_pos rfl, if_pos rfl, body_lines_cons, heading_line_of_blank hblank,
          words_eq_nil (List.all_eq_true.mp hblank)]
        exact ih true
      | false =>
        obtain ⟨hle, hiff⟩ := ih false
        rw [if_neg Bool.false_ne_true, if_neg Bool.false_ne_true, Bool.and_eq_true, ← hiff]
        exact taken_iff (words_ne_nil_of_text hblank) hle
    | false =>
      rw [kept_lines, intact]
      cases hopens : opens l ls with
      | true =>
        obtain ⟨hle, hiff⟩ := ih true
        rw [if_pos rfl, if_pos rfl, Bool.and_eq_true, ← hiff]
        exact taken_iff (words_ne_nil_of_bare (Bool.and_eq_true_iff.mp hopens).1) hle
      | false =>
        obtain ⟨hle, hiff⟩ := ih false
        rw [if_neg Bool.false_ne_true, if_neg Bool.false_ne_true, body_lines_cons, ← hiff]
        cases heading_line l with
        | true => exact ⟨hle, Iff.rfl⟩
        | false =>
          rw [if_neg Bool.false_ne_true, if_neg Bool.false_ne_true, List.flatMap_cons,
            List.length_append, List.length_append]
          exact ⟨Nat.add_le_add_left hle _, List.append_right_inj _⟩

/-! ## Documents with no heading -/

theorem match_of_taken (hl : '\n' ∉ l) (hls : ∀ x ∈ ls, '\n' ∉ x)
    (h : opens l ls = true ∨ heading_line l = true) :
    ∃ t n, match_heading (l ++ newlines ls) = some (t, n + 1) := by
  cases hopens : opens l ls with
  | false =>
    have hheading : heading_line l = true := by
      rw [hopens] at h
      exact h.resolve_left Bool.false_ne_true
    obtain ⟨t, n, hmatch, -⟩ := match_titled hl (titled_of_heading_line hl hopens hheading) ls
    exact ⟨t, n, hmatch⟩
  | true =>
    have hbare := (Bool.and_eq_true_iff.mp hopens).1
    cases hblank : blank (newlines ls) with
    | true =>
      obtain ⟨t, n, hmatch, -⟩ := (match_bare_space hl hls hbare hblank).2 hopens
      exact ⟨t, n, hmatch⟩
    | false =>
      obtain ⟨t, n, hmatch, -⟩ := match_bare_text hbare hblank
      exact ⟨t, n, hmatch⟩

/-- Where the pattern matches nothing, the first line is no heading and the cut goes on. -/
theorem cut_headings_of_nothing (hl : '\n' ∉ l) (hls : ∀ x ∈ ls, '\n' ∉ x)
    (h : (cut_headings 0 true (l ++ newlines ls)).2 = []) :
    heading_line l = false ∧ (cut_headings 0 false (newlines ls)).2 = [] := by
  have hnot : ¬ (opens l ls = true ∨ heading_line l = true) := by
    intro htaken
    obtain ⟨t, n, hmatch⟩ := match_of_taken hl hls htaken
    obtain ⟨bol, hcut⟩ := cut_headings_of_match hmatch
    rw [hcut] at h
    cases h
  obtain ⟨hopens, hheading⟩ := not_or.mp hnot
  have hopens := Bool.eq_false_iff.mpr hopens
  have hheading := Bool.eq_false_iff.mpr hheading
  rw [cut_headings_of_none hl (match_none hl hls hopens hheading)] at h
  exact ⟨hheading, h⟩

/-- Where the pattern matches nothing, no line is a heading. -/
theorem no_heading_line (hl : '\n' ∉ l) (hls : ∀ x ∈ ls, '\n' ∉ x)
    (h : (cut_headings 0 true (l ++ newlines ls)).2 = []) :
    ∀ x ∈ l :: ls, heading_line x = false := by
  induction ls generalizing l with
  | nil =>
    intro x hx
    rw [List.mem_singleton.mp hx]
    exact (cut_headings_of_nothing hl hls h).1
  | cons next ls ih =>
    obtain ⟨hheading, hlater⟩ := cut_headings_of_nothing hl hls h
    rw [newlines_cons, cut_headings_newline] at hlater
    have hrest := ih (hls next List.mem_cons_self)
      (fun x hx => hls x (List.mem_cons_of_mem next hx)) hlater
    intro x hx
    rcases List.mem_cons.mp hx with rfl | hnext
    · exact hheading
    · exact hrest x hnext

end

end qortia
