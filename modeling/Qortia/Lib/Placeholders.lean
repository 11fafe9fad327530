-- SQL statements with numbered parameters, put together from filters of which some may be absent. A
-- filter brings a condition and arguments of its own, and its numbers go on where those of the
-- filters before it end. So every number stands for the argument of its own filter.
import Mathlib.Data.List.Forall2
import Mathlib.Data.List.GetD

namespace placeholders

variable {Row Value : Type}

/-! ## Texts and conditions -/

/-- A piece of the text of a statement. A number is written `$n`. -/
inductive Piece where
  | text (s : String)
  | number (n : Nat)
  deriving DecidableEq, Repr

def Piece.render : Piece → String
  | .text s => s
  | .number n => "$" ++ toString n

def Piece.number? : Piece → Option Nat
  | .text _ => none
  | .number n => some n

def render (pieces : List Piece) : String := String.join (pieces.map Piece.render)

/-- The numbers that the text names. -/
def numbers (pieces : List Piece) : List Nat := pieces.filterMap Piece.number?

@[simp] theorem numbers_nil : numbers [] = [] := rfl

@[simp] theorem numbers_text (s : String) (pieces : List Piece) :
    numbers (.text s :: pieces) = numbers pieces := rfl

@[simp] theorem numbers_number (n : Nat) (pieces : List Piece) :
    numbers (.number n :: pieces) = n :: numbers pieces := rfl

@[simp] theorem numbers_append (pieces more : List Piece) :
    numbers (pieces ++ more) = numbers pieces ++ numbers more :=
  List.filterMap_append

/-- The values of the parameters of a call. The first argument has the number 1. -/
def bound (args : List Value) : Nat → Option Value
  | 0 => none
  | n + 1 => args[n]?

/-- A condition of a WHERE clause. What it says of a row depends on the parameters that its text
names, and on no other. -/
structure Condition (Row Value : Type) where
  pieces : List Piece
  holds : (Nat → Option Value) → Row → Bool
  named : ∀ v v', (∀ n ∈ numbers pieces, v n = v' n) → ∀ r, holds v r = holds v' r

/-- A condition without parameters. -/
def Condition.fixed (s : String) (test : Row → Bool) : Condition Row Value where
  pieces := [.text s]
  holds _ r := test r
  named _ _ _ _ := rfl

/-- A condition on the value of one parameter. -/
def Condition.on (pieces : List Piece) (n : Nat) (test : Option Value → Row → Bool)
    (h : n ∈ numbers pieces := by simp) : Condition Row Value where
  pieces
  holds v r := test (v n) r
  named v v' hsame r := by rw [hsame n h]

/-- No condition, and no text. -/
def Condition.absent : Condition Row Value where
  pieces := []
  holds _ _ := true
  named _ _ _ _ := rfl

/-! ## Filters -/

/-- A filter: its condition and arguments, given the number of its first parameter. -/
abbrev Filter (Row Value : Type) := Nat → Condition Row Value × List Value

/-- From the number `b` on, the parameters have these values. -/
def Gives (v : Nat → Option Value) (b : Nat) (args : List Value) : Prop :=
  ∀ i x, args[i]? = some x → v (b + i) = some x

/-- The filter names its own arguments, all of them and no others, and with them it asks for the
rows with the property. -/
structure Filter.Means (f : Filter Row Value) (P : Row → Bool) : Prop where
  numbers : ∀ b n, n ∈ numbers (f b).1.pieces ↔ b ≤ n ∧ n < b + (f b).2.length
  holds : ∀ b v, Gives v b (f b).2 → ∀ r, (f b).1.holds v r = P r

/-- The filters one after the other, from a number on. -/
def assemble : Nat → List (Filter Row Value) → List (Condition Row Value) × List Value
  | _, [] => ([], [])
  | b, f :: fs =>
    let (condition, args) := f b
    let (conditions, more) := assemble (b + args.length) fs
    (condition :: conditions, args ++ more)

theorem gives_append {v : Nat → Option Value} {b : Nat} {args more : List Value} :
    Gives v b (args ++ more) ↔ Gives v b args ∧ Gives v (b + args.length) more := by
  constructor
  · intro h
    refine ⟨fun i x hx => ?_, fun i x hx => ?_⟩
    · have hlt : i < args.length := (List.getElem?_eq_some_iff.mp hx).1
      exact h i x (by rw [List.getElem?_append_left hlt]; exact hx)
    · have hmore : (args ++ more)[args.length + i]? = some x := by
        rw [List.getElem?_append_right (Nat.le_add_right _ _), Nat.add_sub_cancel_left]
        exact hx
      rw [Nat.add_assoc]
      exact h (args.length + i) x hmore
  · rintro ⟨hargs, hmore⟩ i x hx
    rcases Nat.lt_or_ge i args.length with hlt | hge
    · rw [List.getElem?_append_left hlt] at hx
      exact hargs i x hx
    · rw [List.getElem?_append_right hge] at hx
      have hat := hmore (i - args.length) x hx
      rwa [Nat.add_assoc, Nat.add_sub_cancel' hge] at hat

/-- The numbers of assembled filters are those of their arguments. -/
theorem numbers_assemble {fs : List (Filter Row Value)} {Ps : List (Row → Bool)}
    (h : List.Forall₂ Filter.Means fs Ps) (b n : Nat) :
    n ∈ numbers ((assemble b fs).1.flatMap Condition.pieces) ↔
      b ≤ n ∧ n < b + (assemble b fs).2.length := by
  induction h generalizing b with
  | nil =>
    simp only [assemble, List.flatMap_nil, numbers_nil, List.not_mem_nil, List.length_nil,
      false_iff]
    omega
  | cons hf _ ih =>
    simp only [assemble, List.flatMap_cons, numbers_append, List.mem_append, List.length_append,
      ih, hf.numbers]
    omega

/-- Assembled filters ask for the rows with all the properties. -/
theorem assemble_holds {fs : List (Filter Row Value)} {Ps : List (Row → Bool)}
    (h : List.Forall₂ Filter.Means fs Ps) {b : Nat} {v : Nat → Option Value}
    (hv : Gives v b (assemble b fs).2) (r : Row) :
    ((assemble b fs).1.all fun c => c.holds v r) = Ps.all fun P => P r := by
  induction h generalizing b with
  | nil => rfl
  | cons hf _ ih =>
    obtain ⟨hfirst, hrest⟩ := gives_append.mp hv
    simp only [assemble, List.all_cons, hf.holds b v hfirst, ih hrest]

/-! ## Statements -/

/-- A statement: what stands before and after the conditions, and the arguments of the call. -/
structure Statement (Row Value : Type) where
  head : List Piece
  conditions : List (Condition Row Value)
  tail : List Piece
  args : List Value

def Statement.pieces (s : Statement Row Value) : List Piece :=
  s.head ++ s.conditions.flatMap Condition.pieces ++ s.tail

/-- The text that is sent. -/
def Statement.sql (s : Statement Row Value) : String :=
  " ".intercalate ((s.head :: s.conditions.map Condition.pieces ++ [s.tail]).map render)

/-- The conditions hold of the row under the arguments. -/
def Statement.selects (s : Statement Row Value) (r : Row) : Bool :=
  s.conditions.all fun c => c.holds (bound s.args) r

/-- Every argument is named, and every number has an argument. -/
def Statement.Complete (s : Statement Row Value) : Prop :=
  ∀ n, n ∈ numbers s.pieces ↔ 1 ≤ n ∧ n ≤ s.args.length

/-- The statement has conditions and arguments of its own, and those of the filters after them. -/
structure Statement.Extends (s : Statement Row Value) (own : List (Condition Row Value))
    (args : List Value) (fs : List (Filter Row Value)) : Prop where
  conditions : s.conditions = own ++ (assemble (args.length + 1) fs).1
  args : s.args = args ++ (assemble (args.length + 1) fs).2

theorem bound_append {args : List Value} (more : List Value) {n : Nat} (h : n ≤ args.length) :
    bound (args ++ more) n = bound args n := by
  cases n with
  | zero => rfl
  | succ n => exact List.getElem?_append_left h

theorem gives_bound (args more : List Value) :
    Gives (bound (args ++ more)) (args.length + 1) more := by
  intro i x hx
  have hat : bound (args ++ more) (args.length + i + 1) = (args ++ more)[args.length + i]? := rfl
  rw [Nat.add_right_comm, hat, List.getElem?_append_right (Nat.le_add_right _ _),
    Nat.add_sub_cancel_left]
  exact hx

section
variable {s : Statement Row Value} {own : List (Condition Row Value)} {args : List Value}
  {fs : List (Filter Row Value)} {Ps : List (Row → Bool)}

/-- Where the statement itself names its own arguments, all of them and no others, it is complete
with any filters. -/
theorem Statement.Extends.complete (h : s.Extends own args fs)
    (hfs : List.Forall₂ Filter.Means fs Ps)
    (hown : ∀ n, n ∈ numbers (s.head ++ own.flatMap Condition.pieces ++ s.tail) ↔
      1 ≤ n ∧ n ≤ args.length) : s.Complete := by
  intro n
  have hnumbers := numbers_assemble hfs (args.length + 1) n
  have hown := hown n
  unfold Statement.pieces
  rw [h.conditions, h.args, List.flatMap_append, List.length_append]
  simp only [numbers_append, List.mem_append] at hown hnumbers ⊢
  constructor
  · rintro ((hhead | hfixed | hfilter) | htail)
    · have := hown.mp (Or.inl (Or.inl hhead))
      omega
    · have := hown.mp (Or.inl (Or.inr hfixed))
      omega
    · have := hnumbers.mp hfilter
      omega
    · have := hown.mp (Or.inr htail)
      omega
  · intro hle
    rcases Nat.lt_or_ge args.length n with hlt | hge
    · exact Or.inl (Or.inr (Or.inr (hnumbers.mpr (by omega))))
    · rcases hown.mpr ⟨hle.1, hge⟩ with (hhead | hfixed) | htail
      · exact Or.inl (Or.inl hhead)
      · exact Or.inl (Or.inr (Or.inl hfixed))
      · exact Or.inr htail

/-- It selects the rows of its own conditions that the filters ask for. The filters move no
argument of the statement. -/
theorem Statement.Extends.selects (h : s.Extends own args fs)
    (hfs : List.Forall₂ Filter.Means fs Ps)
    (hown : ∀ n, n ∈ numbers (s.head ++ own.flatMap Condition.pieces ++ s.tail) ↔
      1 ≤ n ∧ n ≤ args.length) (r : Row) :
    s.selects r = ((own.all fun c => c.holds (bound args) r) && Ps.all fun P => P r) := by
  unfold Statement.selects
  rw [h.conditions, h.args, List.all_append,
    assemble_holds hfs (gives_bound args (assemble (args.length + 1) fs).2) r]
  have hsame : ∀ c ∈ own, c.holds (bound (args ++ (assemble (args.length + 1) fs).2)) r =
      c.holds (bound args) r := by
    intro c hc
    apply c.named
    intro n hn
    have hmem : n ∈ numbers (own.flatMap Condition.pieces) := by
      obtain ⟨piece, hpiece, hnumber⟩ := List.mem_filterMap.mp hn
      exact List.mem_filterMap.mpr ⟨piece, List.mem_flatMap.mpr ⟨c, hc, hpiece⟩, hnumber⟩
    apply bound_append
    refine ((hown n).mp ?_).2
    simp only [numbers_append, List.mem_append]
    exact Or.inl (Or.inr hmem)
  congr 1
  rw [Bool.eq_iff_iff, List.all_eq_true, List.all_eq_true]
  exact forall₂_congr fun c hc => by rw [hsame c hc]

end

/-! ## Texts that do not tell the arguments -/

/-- The filters have the same text, and bring equally many arguments. -/
def Filter.SameText (f f' : Filter Row Value) : Prop :=
  ∀ b, (f b).1.pieces = (f' b).1.pieces ∧ (f b).2.length = (f' b).2.length

theorem assemble_same_text {fs fs' : List (Filter Row Value)}
    (h : List.Forall₂ Filter.SameText fs fs') (b : Nat) :
    (assemble b fs).1.map Condition.pieces = (assemble b fs').1.map Condition.pieces := by
  induction h generalizing b with
  | nil => rfl
  | cons hf _ ih =>
    obtain ⟨hpieces, hlength⟩ := hf b
    simp only [assemble, List.map_cons, hpieces, hlength, ih]

/-- Two statements with the same texts of their own, extended by filters with the same texts. -/
theorem Statement.Extends.sql_eq {s s' : Statement Row Value}
    {own own' : List (Condition Row Value)} {args args' : List Value}
    {fs fs' : List (Filter Row Value)} (h : s.Extends own args fs) (h' : s'.Extends own' args' fs')
    (hhead : s.head = s'.head) (hown : own.map Condition.pieces = own'.map Condition.pieces)
    (htail : s.tail = s'.tail) (hargs : args.length = args'.length)
    (hfs : List.Forall₂ Filter.SameText fs fs') : s.sql = s'.sql := by
  have hconditions : s.conditions.map Condition.pieces = s'.conditions.map Condition.pieces := by
    rw [h.conditions, h'.conditions, List.map_append, List.map_append, hown, hargs,
      assemble_same_text hfs]
  unfold Statement.sql
  rw [hhead, hconditions, htail]

end placeholders
