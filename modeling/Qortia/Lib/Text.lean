-- The methods of Python's `str` that the service uses, on lists of characters, and the text
-- form of a UUID.
import Mathlib.Algebra.Group.Nat.Defs
import Mathlib.Data.List.Basic

namespace text

/-- `str.isspace` of one character, which is also `\s` of a pattern. -/
def isspace (c : Char) : Bool :=
  let n := c.toNat
  (9 ≤ n && n ≤ 13) || (28 ≤ n && n ≤ 32) || n = 0x85 || n = 0xA0 || n = 0x1680 ||
    (0x2000 ≤ n && n ≤ 0x200A) || n = 0x2028 || n = 0x2029 || n = 0x202F || n = 0x205F ||
    n = 0x3000

def lstrip (s : List Char) : List Char := s.dropWhile isspace

def rstrip (s : List Char) : List Char := (s.reverse.dropWhile isspace).reverse

/-- `s.strip()`. -/
def strip (s : List Char) : List Char := rstrip (lstrip s)

/-- `s.split()`: the runs of characters that are no space. -/
def words (s : List Char) : List (List Char) := (s.splitOnP isspace).filter (· ≠ [])

/-- `s.split("\n\n")`, where `cur` is the part read so far. -/
def splitBlankLines (cur : List Char := []) : List Char → List (List Char)
  | [] => [cur]
  | '\n' :: '\n' :: rest => cur :: splitBlankLines [] rest
  | c :: rest => splitBlankLines (cur ++ [c]) rest

/-- What stands before the first separator, and what stands after it. -/
theorem append_cons_inj {sep : Char} {a a' b b' : List Char} (ha : sep ∉ a) (ha' : sep ∉ a')
    (h : a ++ sep :: b = a' ++ sep :: b') : a = a' ∧ b = b' := by
  induction a generalizing a' with
  | nil =>
    cases a' with
    | nil => exact ⟨rfl, (List.cons.inj h).2⟩
    | cons c a' => exact absurd ((List.cons.inj h).1 ▸ List.mem_cons_self) ha'
  | cons c a ih =>
    cases a' with
    | nil => exact absurd ((List.cons.inj h).1 ▸ List.mem_cons_self) ha
    | cons c' a' =>
      obtain ⟨hhead, htail⟩ := List.cons.inj h
      obtain ⟨hbefore, hafter⟩ :=
        ih (fun hmem => ha (List.mem_cons_of_mem c hmem))
          (fun hmem => ha' (List.mem_cons_of_mem c' hmem)) htail
      exact ⟨by rw [hhead, hbefore], hafter⟩

/-! ## UUIDs -/

def hexDigit (n : Nat) : Char := "0123456789abcdef".toList.getD n '0'

/-- The value of a hexadecimal digit. -/
def hexValue (c : Char) : Option Nat :=
  if '0' ≤ c ∧ c ≤ '9' then some (c.toNat - '0'.toNat)
  else if 'a' ≤ c ∧ c ≤ 'f' then some (c.toNat - 'a'.toNat + 10)
  else if 'A' ≤ c ∧ c ≤ 'F' then some (c.toNat - 'A'.toNat + 10)
  else none

/-- The lowest `k` hexadecimal digits of `n`, the highest first. -/
def hexDigits : (k : Nat) → (n : Nat) → List Char
  | 0, _ => []
  | k + 1, n => hexDigits k (n / 16) ++ [hexDigit (n % 16)]

/-- `str(uuid)`: 32 digits in groups of 8, 4, 4, 4 and 12. -/
def ofUuid (u : Nat) : String :=
  let d := hexDigits 32 u
  String.ofList (d.take 8 ++ '-' :: (d.drop 8).take 4 ++ '-' :: (d.drop 12).take 4 ++
    '-' :: (d.drop 16).take 4 ++ '-' :: d.drop 20)

/-- Drops `pre` where the text starts with it. -/
def dropPrefix (pre s : List Char) : List Char := if pre.isPrefixOf s then s.drop pre.length else s

/-- `s.strip("{}")`. -/
def stripBraces (s : List Char) : List Char :=
  let brace (c : Char) : Bool := c = '{' || c = '}'
  ((s.dropWhile brace).reverse.dropWhile brace).reverse

/-- `uuid.UUID(s)`: 32 hexadecimal digits, where a URN prefix, braces and hyphens do not
count. -/
def toUuid (s : String) : Option Nat :=
  let body := dropPrefix "uuid:".toList (dropPrefix "urn:".toList s.toList)
  let hex := (stripBraces body).filter (· ≠ '-')
  if hex.length = 32 then
    (hex.mapM hexValue).map fun ds => ds.foldl (fun n d => 16 * n + d) 0
  else none

example : toUuid (ofUuid 300) = some 300 := by decide

/-! ## The characters of a UUID -/

theorem mem_dropPrefix {pre s : List Char} {c : Char} (hc : c ∈ s) (hpre : c ∉ pre) :
    c ∈ dropPrefix pre s := by
  unfold dropPrefix
  split
  · rename_i h
    obtain ⟨t, rfl⟩ := List.isPrefixOf_iff_prefix.mp h
    rw [List.drop_left]
    exact (List.mem_append.mp hc).resolve_left hpre
  · exact hc

theorem mem_dropWhile {p : Char → Bool} {s : List Char} {c : Char} (hc : c ∈ s)
    (hp : p c = false) : c ∈ s.dropWhile p := by
  rw [← List.takeWhile_append_dropWhile (p := p) (l := s)] at hc
  rcases List.mem_append.mp hc with h | h
  · have htake := List.all_eq_true.mp List.all_takeWhile c h
    rw [hp] at htake
    cases htake
  · exact h

theorem mem_stripBraces {s : List Char} {c : Char} (hc : c ∈ s) (hopen : c ≠ '{')
    (hclose : c ≠ '}') : c ∈ stripBraces s := by
  have hbrace : (decide (c = '{') || decide (c = '}')) = false := by simp [hopen, hclose]
  unfold stripBraces
  rw [List.mem_reverse]
  exact mem_dropWhile (List.mem_reverse.mpr (mem_dropWhile hc hbrace)) hbrace

theorem mapM_eq_none {α β : Type} {f : α → Option β} {xs : List α} {x : α} (hx : x ∈ xs)
    (hf : f x = none) : xs.mapM f = none := by
  induction xs with
  | nil => cases hx
  | cons a xs ih =>
    rw [List.mapM_cons]
    rcases List.mem_cons.mp hx with rfl | hx
    · simp [hf]
    · simp [ih hx]

/-- A character that is no hexadecimal digit, no hyphen, no brace and in no prefix is in no text
of a UUID. -/
theorem not_mem_of_toUuid {s : String} {n : Nat} {c : Char} (h : toUuid s = some n)
    (hdigit : hexValue c = none) (hother : c ∉ ['u', 'r', 'n', ':', 'i', 'd', '-', '{', '}']) :
    c ∉ s.toList := by
  intro hc
  simp only [List.mem_cons, List.not_mem_nil, or_false, not_or] at hother
  obtain ⟨hu, hr, hn, hcolon, hi, hd, hhyphen, hopen, hclose⟩ := hother
  have hurn : c ∈ dropPrefix "urn:".toList s.toList := mem_dropPrefix hc (by simp [*])
  have huuid : c ∈ dropPrefix "uuid:".toList (dropPrefix "urn:".toList s.toList) :=
    mem_dropPrefix hurn (by simp [*])
  have hhex : c ∈ (stripBraces (dropPrefix "uuid:".toList (dropPrefix "urn:".toList
      s.toList))).filter (· ≠ '-') :=
    List.mem_filter.mpr ⟨mem_stripBraces huuid hopen hclose, decide_eq_true hhyphen⟩
  unfold toUuid at h
  simp only [mapM_eq_none hhex hdigit] at h
  split at h <;> cases h

/-! ## The text of a UUID reads back -/

theorem hexValue_hexDigit : ∀ d < 16, hexValue (hexDigit d) = some d := by decide

theorem length_hexDigits (k n : Nat) : (hexDigits k n).length = k := by
  induction k generalizing n with
  | zero => rfl
  | succ k ih => simp [hexDigits, ih]

/-- The digits of a number are read back as the number, up to the digits that are left out. -/
theorem mapM_hexDigits (k n : Nat) :
    ∃ ds, (hexDigits k n).mapM hexValue = some ds ∧
      ds.foldl (fun n d => 16 * n + d) 0 = n % 16 ^ k := by
  induction k generalizing n with
  | zero => exact ⟨[], rfl, by simp [Nat.mod_one]⟩
  | succ k ih =>
    obtain ⟨ds, hds, hvalue⟩ := ih (n / 16)
    refine ⟨ds ++ [n % 16], ?_, ?_⟩
    · rw [hexDigits, List.mapM_append, hds]
      simp [hexValue_hexDigit _ (Nat.mod_lt n (by decide))]
    · rw [List.foldl_append, hvalue, Nat.pow_succ', Nat.mod_mul]
      simp only [List.foldl_cons, List.foldl_nil]
      omega

theorem mem_hexDigits {k n : Nat} {c : Char} (h : c ∈ hexDigits k n) :
    ∃ d < 16, c = hexDigit d := by
  induction k generalizing n with
  | zero => cases h
  | succ k ih =>
    unfold hexDigits at h
    rcases List.mem_append.mp h with h | h
    · exact ih h
    · exact ⟨n % 16, Nat.mod_lt n (by decide), List.mem_singleton.mp h⟩

/-- A digit is none of the characters that do not count. -/
theorem hexDigit_counts : ∀ d < 16, hexDigit d ∉ ['u', '-', '{', '}'] := by decide

theorem dropPrefix_of_head {p c : Char} {pre s : List Char} (h : c ≠ p) :
    dropPrefix (p :: pre) (c :: s) = c :: s := by
  unfold dropPrefix
  simp [List.isPrefixOf, Ne.symm h]

theorem dropWhile_of_head {p : Char → Bool} {c : Char} {s : List Char} (hc : s.head? = some c)
    (hp : p c = false) : s.dropWhile p = s := by
  cases s with
  | nil => rfl
  | cons a s =>
    cases hc
    rw [List.dropWhile_cons_of_neg (by simp [hp])]

theorem stripBraces_of_ends {s : List Char} {a b : Char} (ha : s.head? = some a)
    (hb : s.getLast? = some b) (ha' : a ∉ ['{', '}']) (hb' : b ∉ ['{', '}']) :
    stripBraces s = s := by
  have hopen : (decide (a = '{') || decide (a = '}')) = false := by simpa using ha'
  have hclose : (decide (b = '{') || decide (b = '}')) = false := by simpa using hb'
  unfold stripBraces
  simp only
  rw [dropWhile_of_head ha hopen, dropWhile_of_head (by rw [List.head?_reverse, hb]) hclose,
    List.reverse_reverse]

/-- The groups of the text are the digits. -/
theorem groups_eq (d : List Char) :
    d.take 8 ++ ((d.drop 8).take 4 ++ ((d.drop 12).take 4 ++ ((d.drop 16).take 4 ++ d.drop 20))) =
      d := by
  have h16 : (d.drop 16).take 4 ++ d.drop 20 = d.drop 16 := by
    rw [← List.drop_drop (i := 4) (j := 16), List.take_append_drop]
  have h12 : (d.drop 12).take 4 ++ d.drop 16 = d.drop 12 := by
    rw [← List.drop_drop (i := 4) (j := 12), List.take_append_drop]
  have h8 : (d.drop 8).take 4 ++ d.drop 12 = d.drop 8 := by
    rw [← List.drop_drop (i := 4) (j := 8), List.take_append_drop]
  rw [h16, h12, h8, List.take_append_drop]

/-- The digits `d` in groups, as the text of a UUID has them. -/
def grouped (d : List Char) : List Char :=
  d.take 8 ++ '-' :: (d.drop 8).take 4 ++ '-' :: (d.drop 12).take 4 ++
    '-' :: (d.drop 16).take 4 ++ '-' :: d.drop 20

theorem filter_grouped {d : List Char} (h : ∀ c ∈ d, c ≠ '-') :
    (grouped d).filter (· ≠ '-') = d := by
  have hgroup : ∀ l, l ⊆ d → l.filter (fun c => decide (c ≠ '-')) = l := by
    intro l hl
    rw [List.filter_eq_self]
    intro c hc
    exact decide_eq_true (h c (hl hc))
  have htake : ∀ n, (d.drop n).take 4 ⊆ d := fun n =>
    List.Subset.trans (List.take_subset 4 _) (List.drop_subset n d)
  unfold grouped
  simp only [List.filter_append, List.filter_cons, ne_eq, not_true_eq_false, decide_false,
    Bool.false_eq_true, if_false]
  rw [hgroup _ (List.take_subset 8 d), hgroup _ (htake 8), hgroup _ (htake 12), hgroup _ (htake 16),
    hgroup _ (List.drop_subset 20 d), List.append_assoc, List.append_assoc, List.append_assoc,
    groups_eq]

theorem grouped_head {d : List Char} (h : d ≠ []) : (grouped d).head? = d.head? := by
  cases d with
  | nil => exact absurd rfl h
  | cons c d => rfl

theorem grouped_getLast {d : List Char} (h : 20 < d.length) :
    (grouped d).getLast? = d.getLast? := by
  have hne : d.drop 20 ≠ [] := by
    rw [Ne, List.drop_eq_nil_iff]
    omega
  have hlast : d.getLast? = (d.drop 20).getLast? := by
    rw [List.getLast?_drop, if_neg (by omega)]
  unfold grouped
  rw [hlast, List.getLast?_append, List.getLast?_cons]
  cases hdrop : (d.drop 20).getLast? with
  | none => exact absurd (List.getLast?_eq_none_iff.mp hdrop) hne
  | some b => simp

/-- A UUID is read back from its text. -/
theorem toUuid_ofUuid {u : Nat} (h : u < 16 ^ 32) : toUuid (ofUuid u) = some u := by
  obtain ⟨ds, hds, hvalue⟩ := mapM_hexDigits 32 u
  have hlength := length_hexDigits 32 u
  have hcounts : ∀ c ∈ hexDigits 32 u, c ∉ ['u', '-', '{', '}'] := by
    intro c hc
    obtain ⟨d, hd, rfl⟩ := mem_hexDigits hc
    exact hexDigit_counts d hd
  have htext : (ofUuid u).toList = grouped (hexDigits 32 u) := String.toList_ofList
  unfold toUuid
  rw [htext]
  generalize hexDigits 32 u = d at *
  have hne : d ≠ [] := by
    rintro rfl
    cases hlength
  have hhead : (grouped d).head? = some (d.head hne) := by
    rw [grouped_head hne, List.head?_eq_some_head]
  have hlast : (grouped d).getLast? = some (d.getLast hne) := by
    rw [grouped_getLast (by omega), List.getLast?_eq_some_getLast]
  have hfirst := hcounts _ (List.head_mem hne)
  have hend := hcounts _ (List.getLast_mem hne)
  simp only [List.mem_cons, List.not_mem_nil, or_false, not_or] at hfirst hend
  have hpre : ∀ pre, dropPrefix ('u' :: pre) (grouped d) = grouped d := by
    intro pre
    cases hg : grouped d with
    | nil => rw [hg] at hhead; cases hhead
    | cons c s =>
      rw [hg] at hhead
      cases hhead
      exact dropPrefix_of_head hfirst.1
  have hstrip : stripBraces (grouped d) = grouped d :=
    stripBraces_of_ends hhead hlast (by simp [hfirst]) (by simp [hend])
  have hhex : (grouped d).filter (· ≠ '-') = d := by
    apply filter_grouped
    rintro c hc rfl
    simpa using hcounts _ hc
  have hbody : dropPrefix "uuid:".toList (dropPrefix "urn:".toList (grouped d)) = grouped d :=
    (congrArg _ (hpre _)).trans (hpre _)
  simp only [hbody, hstrip, hhex, hlength, if_true, hds, Option.map_some, hvalue,
    Nat.mod_eq_of_lt h]

end text
