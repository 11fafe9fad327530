-- The expiry of short-term memories. `ttl_seconds` has no upper bound, the dates of Python have
-- one: a single memory whose expiry would lie beyond the year 9999 takes its whole batch with it.
import Qortia.Lib.Raising
import Qortia.Remember

namespace qortia

open raising

variable {K : Type}

/-! ## The arithmetic of dates -/

/-- The first microsecond of the year 1. -/
def MIN_TIMESTAMP : Timestamp := -62135596800000000

/-- A time that a `datetime` can hold. -/
def InDatetime (t : Timestamp) : Prop := MIN_TIMESTAMP ≤ t ∧ t ≤ MAX_TIMESTAMP

instance (t : Timestamp) : Decidable (InDatetime t) := inferInstanceAs (Decidable (_ ∧ _))

/-- `timedelta(seconds=n)`, in microseconds. It holds at most 999999999 days. -/
def timedelta (n : Int) : Except Failure Int :=
  if (n / 86400).natAbs ≤ 999999999 then .ok (n * 1000000) else .error .OverflowError

/-- `datetime.__add__`. -/
def add_timedelta (t : Timestamp) (d : Int) : Except Failure Timestamp :=
  if InDatetime (t + d) then .ok (t + d) else .error .OverflowError

/-- `datetime.now(UTC) + timedelta(seconds=mem.ttl_seconds)` for a short-term memory with a
`ttl_seconds`, one operation after the other. -/
def checked_expiry (now : Timestamp) (mem : MemoryItem) : Except Failure (Option Timestamp) :=
  match mem.ttl_seconds with
  | some ttl =>
    if mem.type = .short_term ∧ ttl ≠ 0 then do
      let duration ← timedelta ttl
      let t ← add_timedelta now duration
      return some t
    else .ok none
  | none => .ok none

/-- The memory expires no later than the last date. -/
def Expires (now : Timestamp) (mem : MemoryItem) : Prop :=
  ∀ ttl, mem.ttl_seconds = some ttl → now + ttl * 1000000 ≤ MAX_TIMESTAMP

/-! ## Where the expiry is defined -/

theorem ttl_of_some {mem : MemoryItem} {ttl : Int} (h : mem.ttl_seconds = some ttl) :
    mem.type = .short_term ∧ 0 < ttl := by
  have htype : mem.type = .short_term := mem.ttl_only_short_term (by simp [h])
  obtain ⟨n, hn, hpos⟩ := mem.short_term_ttl htype
  rw [h] at hn
  cases hn
  exact ⟨htype, hpos⟩

/-- A duration that a `timedelta` cannot hold leads beyond the last date, from every date. -/
theorem timedelta_ok {now : Timestamp} {ttl : Int} (hnow : InDatetime now) (hpos : 0 < ttl)
    (hlast : now + ttl * 1000000 ≤ MAX_TIMESTAMP) : timedelta ttl = .ok (ttl * 1000000) := by
  have hfirst : (-62135596800000000 : Int) ≤ now := hnow.1
  have hend : (253402300799999999 : Int) ≥ now + ttl * 1000000 := hlast
  unfold timedelta
  rw [if_pos (by omega)]

theorem add_timedelta_eq {now : Timestamp} {d : Int} (hnow : InDatetime now) (hd : 0 ≤ d) :
    add_timedelta now d =
      if now + d > MAX_TIMESTAMP then .error .OverflowError else .ok (now + d) := by
  have hfirst : MIN_TIMESTAMP ≤ now + d := hnow.1.trans (le_add_of_nonneg_right hd)
  unfold add_timedelta InDatetime
  simp only [hfirst, true_and]
  split
  · rename_i hlast
    rw [if_neg (not_lt.mpr hlast)]
  · rename_i hlate
    rw [if_pos (not_le.mp hlate)]

/-- From any date, the two operations are the one that the batch is modelled with. -/
theorem checked_expiry_eq {now : Timestamp} (hnow : InDatetime now) (mem : MemoryItem) :
    checked_expiry now mem = expires_at now mem := by
  unfold checked_expiry expires_at
  cases httl : mem.ttl_seconds with
  | none => rfl
  | some ttl =>
    obtain ⟨htype, hpos⟩ := ttl_of_some httl
    have hduration : 0 ≤ ttl * 1000000 := mul_nonneg hpos.le (by decide)
    simp only [htype, hpos.ne', ne_eq, not_false_eq_true, and_self, if_true]
    by_cases hlast : now + ttl * 1000000 ≤ MAX_TIMESTAMP
    · rw [timedelta_ok hnow hpos hlast, if_neg (not_lt.mpr hlast)]
      simp only [bind, Except.bind]
      rw [add_timedelta_eq hnow hduration, if_neg (not_lt.mpr hlast)]
      rfl
    · rw [if_pos (not_le.mp hlast)]
      unfold timedelta
      split
      · simp only [bind, Except.bind]
        rw [add_timedelta_eq hnow hduration, if_pos (not_le.mp hlast)]
      · rfl

theorem returns_expires_at_iff (now : Timestamp) (mem : MemoryItem) :
    Returns (expires_at now mem) ↔ Expires now mem := by
  unfold expires_at Expires
  cases httl : mem.ttl_seconds with
  | none => simp
  | some ttl =>
    obtain ⟨htype, hpos⟩ := ttl_of_some httl
    simp only [htype, hpos.ne', ne_eq, not_false_eq_true, and_self, if_true, Option.some.injEq,
      forall_eq']
    split
    · rename_i hlate
      exact iff_of_false (not_returns_error _) (not_le.mpr hlate)
    · rename_i hlast
      exact iff_of_true (returns_ok _) (not_lt.mp hlast)

/-! ## What a batch comes to -/

/-- A turn that returns has its expiry. -/
theorem expires_of_returns {o : Outside K} {agent : AgentIdentity} {now : Timestamp}
    {choice : Nat} {s : Remembering K} {mem : MemoryItem}
    (h : Returns (remember_one o agent now choice s mem)) : Expires now mem := by
  unfold remember_one at h
  rw [returns_bind] at h
  obtain ⟨expires, hexpires, -⟩ := h
  exact (returns_expires_at_iff now mem).mp ⟨expires, hexpires⟩

/-- Only the expiry overflows in a turn: what PostgreSQL refuses is another exception. -/
theorem not_expires_of_overflow {o : Outside K} {agent : AgentIdentity} {now : Timestamp}
    {choice : Nat} {s : Remembering K} {mem : MemoryItem}
    (h : remember_one o agent now choice s mem = .error .OverflowError) : ¬ Expires now mem := by
  intro hexpires
  obtain ⟨expires, hok⟩ := (returns_expires_at_iff now mem).mpr hexpires
  unfold remember_one at h
  rw [hok] at h
  simp only [bind, Except.bind] at h
  split at h
  · cases h
  · unfold check_storable at h
    cases hstorable : mem.storable with
    | true =>
      rw [hstorable] at h
      cases h
    | false =>
      rw [hstorable] at h
      cases h

/-- Every expiry of a batch is defined, and none of them rolls the batch back, exactly when no
memory would expire beyond the last date. One that would takes the whole batch with it. -/
theorem every_batch_expires_iff (o : Outside K) {agent : AgentIdentity} {now : Timestamp}
    (choice : Nat) (memories : List MemoryItem) {db : Db K} (hnow : InDatetime now)
    (hactive : assert_agent_active agent.agent_id agent.tenant_id db = .ok ()) :
    (((∀ mem ∈ memories, Returns (checked_expiry now mem)) ∧
        remember o agent now choice memories db ≠ .error .OverflowError) ↔
      ∀ mem ∈ memories, Expires now mem) ∧
    (Returns (remember o agent now choice memories db) → ∀ mem ∈ memories, Expires now mem) := by
  have hdefined (mem : MemoryItem) : Returns (checked_expiry now mem) ↔ Expires now mem := by
    rw [checked_expiry_eq hnow, returns_expires_at_iff]
  refine ⟨⟨fun h mem hmem => (hdefined mem).mp (h.1 mem hmem), fun h => ?_⟩, fun h mem hmem => ?_⟩
  · refine ⟨fun mem hmem => (hdefined mem).mpr (h mem hmem), fun hoverflow => ?_⟩
    unfold remember at hoverflow
    rw [hactive] at hoverflow
    simp only [bind, Except.bind] at hoverflow
    split at hoverflow
    · rename_i e hloop
      cases hoverflow
      obtain ⟨mem, hmem, s, hturn⟩ := turn_of_foldlM_error hloop
      exact not_expires_of_overflow hturn (h mem hmem)
    · cases hoverflow
  · unfold remember at h
    rw [hactive] at h
    obtain ⟨u, -, h⟩ := (returns_bind _ _).mp h
    obtain ⟨s, hloop, -⟩ := (returns_bind _ _).mp h
    obtain ⟨s', hturn⟩ := returns_of_foldlM ⟨s, hloop⟩ hmem
    exact expires_of_returns hturn

section

def active_db : Db ℚ := { qortia_agents := [{ id := 20, tenant_id := 1, updated_at := 0 }] }

def lexer_failed : String := "the build of the lexer failed"

def red_until_noon : String := "the build is red until noon"

theorem lexer_failed_words : 5 ≤ (text.words lexer_failed.toList).length := by decide

theorem red_until_noon_words : 5 ≤ (text.words red_until_noon.toList).length := by decide

def noted : MemoryItem :=
  { type := .experiential, content := lexer_failed, content_floor := lexer_failed_words }

/-- A note that lasts `ttl` seconds. -/
def lasting (ttl : Int) (h : 0 < ttl) : MemoryItem :=
  { type := .short_term, content := red_until_noon, ttl_seconds := some ttl
    content_floor := red_until_noon_words
    short_term_ttl := fun _ => ⟨ttl, rfl, h⟩ }

theorem a_batch_of_an_hour :
    (∀ mem ∈ [noted, lasting 3600 (by decide)], Returns (checked_expiry 0 mem)) ∧
      remember no_models { agent_id := 20, tenant_id := 1 } 0 0
        [noted, lasting 3600 (by decide)] active_db ≠ .error .OverflowError := by
  have hall : ∀ mem ∈ [noted, lasting 3600 (by decide)], Expires 0 mem := by
    intro mem hmem ttl httl
    simp only [List.mem_cons, List.not_mem_nil, or_false] at hmem
    rcases hmem with rfl | rfl
    · cases httl
    · cases httl
      decide
  exact (every_batch_expires_iff no_models 0 [noted, lasting 3600 (by decide)] (by decide)
    rfl).1.mpr hall

/-- A note for a trillion seconds is valid, and the memory next to it is not written. -/
theorem a_batch_beyond_the_last_date :
    checked_expiry 0 (lasting 1000000000000 (by decide)) = .error .OverflowError ∧
      checked_expiry 0 (lasting 100000000000000 (by decide)) = .error .OverflowError ∧
      remember no_models { agent_id := 20, tenant_id := 1 } 0 0
        [noted, lasting 1000000000000 (by decide)] active_db = .error .OverflowError :=
  ⟨by decide, by decide, by decide⟩

end

end qortia
