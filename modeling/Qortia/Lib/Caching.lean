-- Caches that may forget. A lookup gives nothing, or a value that was stored at the key. What
-- every stored value has, every value that is looked up has. A cache of bounded size whose
-- entries expire is one of them.
import Mathlib.Data.Int.Order.Basic
import Mathlib.Data.List.Basic

namespace caching

/-- The operations of a cache. `set` gives `none` when the cache does not take the value. -/
structure Store (Key Value : Type) where
  Cache : Type
  new : (maxsize ttl : Int) → Cache
  get : (now : Int) → Key → Cache → Option Value × Cache
  set : (now : Int) → Key → Value → Cache → Option Cache
  /-- The value is stored at the key, and a lookup may still give it. -/
  Holds : Cache → Key → Value → Prop
  not_holds_new : ∀ maxsize ttl k v, ¬ Holds (new maxsize ttl) k v
  holds_of_get : ∀ now k c v, (get now k c).1 = some v → Holds c k v
  holds_get : ∀ now k c k' v, Holds (get now k c).2 k' v → Holds c k' v
  holds_set : ∀ now k v c c' k' v', set now k v c = some c' → Holds c' k' v' →
    (k' = k ∧ v' = v) ∨ Holds c k' v'

/-! ## What all values have in common -/

section
variable {Key Value : Type} {store : Store Key Value} {good : Key → Value → Prop}

/-- Whatever the cache holds is good. -/
def Sound (store : Store Key Value) (good : Key → Value → Prop) (c : store.Cache) : Prop :=
  ∀ k v, store.Holds c k v → good k v

theorem sound_new (maxsize ttl : Int) : Sound store good (store.new maxsize ttl) :=
  fun k v hholds => absurd hholds (store.not_holds_new maxsize ttl k v)

theorem Sound.mono {good' : Key → Value → Prop} {c : store.Cache} (h : Sound store good c)
    (himp : ∀ k v, good k v → good' k v) : Sound store good' c :=
  fun k v hholds => himp k v (h k v hholds)

theorem Sound.of_get {c : store.Cache} (h : Sound store good c) {now : Int} {k : Key} {v : Value}
    (hget : (store.get now k c).1 = some v) : good k v :=
  h k v (store.holds_of_get now k c v hget)

theorem Sound.get {c : store.Cache} (h : Sound store good c) (now : Int) (k : Key) :
    Sound store good (store.get now k c).2 :=
  fun k' v hholds => h k' v (store.holds_get now k c k' v hholds)

theorem Sound.set {c c' : store.Cache} (h : Sound store good c) {now : Int} {k : Key} {v : Value}
    (hset : store.set now k v c = some c') (hgood : good k v) : Sound store good c' := by
  intro k' v' hholds
  rcases store.holds_set now k v c c' k' v' hset hholds with ⟨rfl, rfl⟩ | hold
  · exact hgood
  · exact h k' v' hold

end

/-! ## A bounded cache whose entries expire -/

structure Item (Key Value : Type) where
  key : Key
  value : Value
  expires : Int

/-- The items stand in the order of their last use. -/
structure Expiring (Key Value : Type) where
  maxsize : Int
  ttl : Int
  items : List (Item Key Value)

namespace Expiring
variable {Key Value : Type} [DecidableEq Key]

def get (now : Int) (k : Key) (c : Expiring Key Value) : Option Value × Expiring Key Value :=
  match c.items.find? fun i => i.key = k with
  | none => (none, c)
  | some i =>
    if now < i.expires then
      (some i.value, { c with items := c.items.filter (·.key ≠ k) ++ [i] })
    else (none, c)

def set (now : Int) (k : Key) (v : Value) (c : Expiring Key Value) :
    Option (Expiring Key Value) :=
  let fresh := c.items.filter fun i => now < i.expires
  let others := fresh.filter (·.key ≠ k)
  -- a new key makes room, the least recently used first
  let surplus := if fresh.any (·.key = k) then 0 else ((others.length : Int) + 1 - c.maxsize).toNat
  if c.maxsize < 1 then none
  else some { c with items := others.drop surplus ++ [⟨k, v, now + c.ttl⟩] }

def Holds (c : Expiring Key Value) (k : Key) (v : Value) : Prop :=
  ∃ i ∈ c.items, i.key = k ∧ i.value = v

theorem holds_of_get {now : Int} {k : Key} {c : Expiring Key Value} {v : Value}
    (h : (get now k c).1 = some v) : c.Holds k v := by
  unfold get at h
  split at h
  · cases h
  · rename_i i hfind
    split at h
    · cases h
      have hkey : i.key = k := by simpa using List.find?_some hfind
      exact ⟨i, List.mem_of_find?_eq_some hfind, hkey, rfl⟩
    · cases h

theorem holds_get {now : Int} {k : Key} {c : Expiring Key Value} {k' : Key} {v : Value}
    (h : (get now k c).2.Holds k' v) : c.Holds k' v := by
  unfold get at h
  split at h
  · exact h
  · rename_i i hfind
    split at h
    · obtain ⟨j, hj, hkey, hvalue⟩ := h
      rcases List.mem_append.mp hj with hold | hmoved
      · exact ⟨j, List.mem_of_mem_filter hold, hkey, hvalue⟩
      · rw [List.mem_singleton.mp hmoved] at hkey hvalue
        exact ⟨i, List.mem_of_find?_eq_some hfind, hkey, hvalue⟩
    · exact h

theorem holds_set {now : Int} {k : Key} {v : Value} {c c' : Expiring Key Value} {k' : Key}
    {v' : Value} (hset : set now k v c = some c') (h : c'.Holds k' v') :
    (k' = k ∧ v' = v) ∨ c.Holds k' v' := by
  unfold set at hset
  simp only at hset
  split at hset
  · cases hset
  · cases hset
    obtain ⟨j, hj, hkey, hvalue⟩ := h
    rcases List.mem_append.mp hj with hold | hnew
    · have hfresh := List.mem_of_mem_filter (List.mem_of_mem_drop hold)
      exact Or.inr ⟨j, List.mem_of_mem_filter hfresh, hkey, hvalue⟩
    · rw [List.mem_singleton.mp hnew] at hkey hvalue
      exact Or.inl ⟨hkey.symm, hvalue.symm⟩

end Expiring

def expiring (Key Value : Type) [DecidableEq Key] : Store Key Value where
  Cache := Expiring Key Value
  new maxsize ttl := ⟨maxsize, ttl, []⟩
  get := Expiring.get
  set := Expiring.set
  Holds := Expiring.Holds
  not_holds_new _ _ _ _ := fun ⟨_, hi, _⟩ => List.not_mem_nil hi
  holds_of_get _ _ _ _ := Expiring.holds_of_get
  holds_get _ _ _ _ _ := Expiring.holds_get
  holds_set _ _ _ _ _ _ _ := Expiring.holds_set

end caching
