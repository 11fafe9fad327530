-- `qortia.chat.chat_completion`, and what `reflect._call_litellm_reflect` makes of its message:
-- which answers of the endpoint they take or refuse, and which ones escape their clauses.
import Qortia.Lib.Raising
import Qortia.Reflect

namespace qortia

open json (Json)
open raising (Ends Returns Reached handle)

/-! ## The answer of the endpoint -/

structure Response where
  status_code : Nat
  body : List UInt8

inductive PostError where
  /-- `(TimeoutError, httpx.TimeoutException)` -/
  | TimeoutError
  /-- The other errors of httpx, such as a refused connection. -/
  | HTTPError

/-- What `json.loads` raises: a text that is no JSON, or one that is nested too deeply. -/
inductive LoadsError where
  | ValueError (text : String)
  | RecursionError

/-- `json.loads` of a text, and of the bytes of a body, whose encoding it finds out. -/
structure Loads where
  text : String → Except LoadsError Json
  bytes : List UInt8 → Except LoadsError Json

/-- The exceptions, with `str(exc)` where it is read. -/
inductive Raised where
  | ChatCompletionError (text : String)
  | HTTPException (status : Nat) (detail : String)
  | ValueError (text : String)
  | KeyError (text : String)
  | IndexError (text : String)
  | TypeError
  | AttributeError
  | RecursionError
  | HTTPError
  /-- No call below gives one of these. -/
  | other (e : Failure)

def LoadsError.raised : LoadsError → Raised
  | .ValueError text => .ValueError text
  | .RecursionError => .RecursionError

/-- The texts of these exceptions are only logged. -/
def Failure.raised : Failure → Raised
  | .HTTPException status detail => .HTTPException status detail
  | .ValueError => .ValueError ""
  | .KeyError => .KeyError ""
  | .TypeError => .TypeError
  | .AttributeError => .AttributeError
  | e => .other e

/-- `value[key]` for a text `key`: only a dict has it. -/
def item (v : Json) (key : String) : Except Raised Json :=
  match v with
  | .object kvs => ((json.get kvs key).map Except.ok).getD (.error (.KeyError ("'" ++ key ++ "'")))
  | _ => .error .TypeError

/-- `value[0]`. The first character of a text is a text, and a dict has no key `0`. -/
def item_zero (v : Json) : Except Raised Json :=
  match v with
  | .array [] => .error (.IndexError "list index out of range")
  | .array (x :: _) => .ok x
  | .string s =>
    match s.toList with
    | [] => .error (.IndexError "string index out of range")
    | c :: _ => .ok (.string (String.singleton c))
  | .object _ => .error (.KeyError "0")
  | _ => .error .TypeError

/-- `raw_resp["choices"][0]["message"]["content"]`, which any value may be. -/
def read_content (raw_resp : Json) : Except Raised Json := do
  let choices ← item raw_resp "choices"
  let choice ← item_zero choices
  let message ← item choice "message"
  item message "content"

/-- The clause `except (KeyError, IndexError, ValueError) as exc`. -/
def malformed_response : Raised → Raised
  | .KeyError text | .IndexError text | .ValueError text =>
    .ChatCompletionError ("malformed LiteLLM response: " ++ text)
  | e => e

/-- The counts of tokens for the log line. `usage` is taken for a dict. -/
def read_usage (raw_resp : Json) : Except Failure (Option Json × Option Json) := do
  let usage := (← get raw_resp "usage").getD (.object [])
  return (← get usage "prompt_tokens", ← get usage "completion_tokens")

/-- `chat_completion`. The callers give `timeout` in whole seconds, as a float. -/
def chat_completion (loads : Loads) (timeout : Nat) (log_event : Option String)
    (post : Except PostError Response) : Except Raised Json := do
  let resp ← handle post fun
    | .TimeoutError =>
      .error (.ChatCompletionError ("timed out after " ++ toString timeout ++ ".0s"))
    | .HTTPError => .error .HTTPError
  if resp.status_code ≠ 200 then
    throw (.ChatCompletionError ("LiteLLM error: " ++ toString resp.status_code))
  let (raw_resp, content) ← handle
    (do
      let raw_resp ← handle (loads.bytes resp.body) fun e => .error e.raised
      return (raw_resp, ← read_content raw_resp))
    fun e => .error (malformed_response e)
  if log_event.any (· ≠ "") then
    let _ ← handle (read_usage raw_resp) fun e => .error e.raised
  return content

/-! ## The parser of the reflections -/

/-- `json.loads(raw)`, which takes a text only. -/
def loads_content (loads : Loads) (raw : Json) : Except Raised Json :=
  match raw with
  | .string s => handle (loads.text s) fun e => .error e.raised
  | _ => .error .TypeError

/-- The clause `except (ValueError, json.JSONDecodeError)`. The second is a `ValueError`. -/
def malformed_reflections : Raised → Raised
  | .ValueError _ => .HTTPException 500 "Reflection failed: malformed LLM response"
  | e => e

/-- The second `try` of `_call_litellm_reflect`: the list that it returns. -/
def parse_reflections (loads : Loads) (raw : Json) : Except Raised Json := do
  let parsed ← loads_content loads raw
  let reflections ← handle (get parsed "reflections") fun e => .error e.raised
  let _ ← handle (validate_reflections parsed) fun e => .error e.raised
  return reflections.getD (.array [])

/-- `_call_litellm_reflect`, from the answer of the endpoint on. -/
def call_litellm_reflect (loads : Loads) (post : Except PostError Response) :
    Except Raised Json := do
  let raw ← handle (chat_completion loads 120 (some "qortia_llm_reflect") post) fun
    | .ChatCompletionError text => .error (.HTTPException 500 text)
    | e => .error e
  handle (parse_reflections loads raw) fun e => .error (malformed_reflections e)

/-! ## Shapes of JSON values -/

def IsText (v : Json) : Prop := ∃ s, v = .string s

def NonEmptyText (v : Json) : Prop := ∃ s, v = .string s ∧ s ≠ ""

def IsObject (v : Json) : Prop := ∃ kvs, v = .object kvs

/-- What `isinstance(v, int | float)` takes. A bool is an int. -/
def Numeric : Json → Prop
  | .number _ | .bool _ => True
  | _ => False

def ReflectionTypeText (v : Json) : Prop :=
  v = .string "mental_model" ∨ v = .string "lesson"

/-- The object has the key, with a value of the shape. -/
def Has (kvs : json.Object) (key : String) (shape : Json → Prop) : Prop :=
  ∃ v, json.get kvs key = some v ∧ shape v

/-- The value is an object, and what it has under the key, if it has it, is of the shape. -/
def ObjectWith (key : String) (shape : Json → Prop) (v : Json) : Prop :=
  ∃ kvs, v = .object kvs ∧ ∀ x, json.get kvs key = some x → shape x

@[simp] theorem objectWith_object (key : String) (shape : Json → Prop) (kvs : json.Object) :
    ObjectWith key shape (.object kvs) ↔ ∀ x, json.get kvs key = some x → shape x := by
  simp [ObjectWith]

/-- The value has a first element of the shape, or none, which `value[0]` reports. -/
def FirstIs (shape : Json → Prop) : Json → Prop
  | .array [] | .object _ => True
  | .array (x :: _) => shape x
  | .string s => s = ""
  | _ => False

/-! ## What the answer has to be -/

/-- An entry with one of the three actions. `present` says what an id and a content are. -/
def ReflectionEntry (present : Json → Prop) (r : Json) : Prop :=
  ∃ kvs, r = .object kvs ∧
    ((json.get kvs "action" = some (.string "CREATE") ∧ Body kvs) ∨
      (json.get kvs "action" = some (.string "UPDATE") ∧ Has kvs "id" present ∧ Body kvs) ∨
      (json.get kvs "action" = some (.string "RETAIN") ∧ Has kvs "id" present))
where
  Body (kvs : json.Object) : Prop :=
    Has kvs "type" ReflectionTypeText ∧
      Has kvs "importance" Numeric ∧ Has kvs "content" present

/-- A list of reflections as `_call_litellm_reflect` promises it. -/
def Reflections (v : Json) : Prop :=
  ∃ rs, v = .array rs ∧ rs ≠ [] ∧ ∀ r ∈ rs, ReflectionEntry NonEmptyText r

/-! ## The shapes that the clauses are made for -/

/-- An entry that is an object, with the key `type` where the checks come to it: the text of
their error reads `r['type']`. -/
def ReadableEntry (r : Json) : Prop :=
  ∃ kvs, r = .object kvs ∧
    ((json.get kvs "action" = some (.string "CREATE") ∨
      (json.get kvs "action" = some (.string "UPDATE") ∧ Has kvs "id" (·.truthy = true))) →
        Has kvs "type" fun _ => True)

/-- Of the fields that are only tested for truth, those of the entry are texts. -/
def TextFields (r : Json) : Prop :=
  ∀ kvs, r = .object kvs →
    (json.get kvs "action" ≠ some (.string "CREATE") →
      ∀ v, json.get kvs "id" = some v → IsText v) ∧
    (json.get kvs "action" ≠ some (.string "RETAIN") →
      ∀ v, json.get kvs "content" = some v → IsText v)

/-- `reflections` is false, or a list: the entries up to the first one that is refused can be
read, and where none is refused their ids and contents are texts. -/
def reflections_shape (v : Json) : Prop :=
  v.truthy = false ∨ ∃ rs, v = .array rs ∧
    (∀ r, Reached (ReflectionEntry (·.truthy = true)) rs r → ReadableEntry r) ∧
    ((∀ r ∈ rs, ReflectionEntry (·.truthy = true) r) → ∀ r ∈ rs, TextFields r)

/-- The message is no JSON, or an object whose `reflections` are of that shape. -/
def message_shape (loads : Loads) (s : String) : Prop :=
  match loads.text s with
  | .ok parsed => ObjectWith "reflections" reflections_shape parsed
  | .error (.ValueError _) => True
  | .error .RecursionError => False

/-- The body is an object, its `choices` are a list whose first element is an object, its
`message` is an object, and its `content` is a text. A key or an element may be missing, and
with the content there has to be no `usage` that is not an object when it is logged. -/
def body_shape (logged : Prop) (text : String → Prop) (raw_resp : Json) : Prop :=
  ∃ top, raw_resp = .object top ∧ ∀ choices, json.get top "choices" = some choices →
    FirstIs (ObjectWith "message" (ObjectWith "content" fun content =>
      (logged → ∀ usage, json.get top "usage" = some usage → IsObject usage) ∧
        ∃ s, content = .string s ∧ text s)) choices

@[simp] theorem body_shape_object (logged : Prop) (text : String → Prop) (top : json.Object) :
    body_shape logged text (.object top) ↔ ∀ choices, json.get top "choices" = some choices →
      FirstIs (ObjectWith "message" (ObjectWith "content" fun content =>
        (logged → ∀ usage, json.get top "usage" = some usage → IsObject usage) ∧
          ∃ s, content = .string s ∧ text s)) choices := by
  simp [body_shape]

/-- The status is not 200, or the body is no JSON or of that shape. -/
def response_shape (loads : Loads) (logged : Prop) (text : String → Prop) (resp : Response) :
    Prop :=
  resp.status_code ≠ 200 ∨
    match loads.bytes resp.body with
    | .ok raw_resp => body_shape logged text raw_resp
    | .error (.ValueError _) => True
    | .error .RecursionError => False

/-! ## `chat_completion` -/

section
variable {E : Raised → Prop}

theorem ends_item (hkey : ∀ text, E (.KeyError text)) (htype : ¬ E .TypeError)
    (ret : Json → Prop) (v : Json) (key : String) :
    Ends (item v key) ret E ↔ ObjectWith key ret v := by
  cases v with
  | object kvs =>
    cases hget : json.get kvs key <;> simp [item, ObjectWith, hget, hkey]
  | _ => simp [item, ObjectWith, htype]

/-- A single character is no object, so `value[0]` of a text leads nowhere. -/
theorem ends_item_zero (hkey : ∀ text, E (.KeyError text))
    (hindex : ∀ text, E (.IndexError text)) (htype : ¬ E .TypeError) (ret : Json → Prop)
    (hret : ∀ s, ¬ ret (.string s)) (v : Json) : Ends (item_zero v) ret E ↔ FirstIs ret v := by
  cases v with
  | array xs => cases xs <;> simp [item_zero, FirstIs, hindex]
  | string s =>
    by_cases hs : s = ""
    · subst hs
      simp [item_zero, FirstIs, hindex]
    · have hne : s.toList ≠ [] := fun h => hs (String.toList_eq_nil_iff.mp h)
      obtain ⟨c, cs, hcs⟩ := List.exists_cons_of_ne_nil hne
      simp [item_zero, FirstIs, hcs, hs, hret]
  | object kvs => simp [item_zero, FirstIs, hkey]
  | _ => simp [item_zero, FirstIs, htype]

theorem ends_read_content (hkey : ∀ text, E (.KeyError text))
    (hindex : ∀ text, E (.IndexError text)) (htype : ¬ E .TypeError) (ret : Json → Prop)
    (raw_resp : Json) :
    Ends (read_content raw_resp) ret E ↔
      ObjectWith "choices" (FirstIs (ObjectWith "message" (ObjectWith "content" ret)))
        raw_resp := by
  have htext : ∀ s, ¬ ObjectWith "message" (ObjectWith "content" ret) (.string s) := by
    intro s h
    obtain ⟨kvs, hkvs, -⟩ := h
    cases hkvs
  simp only [read_content, raising.ends_bind, ends_item hkey htype,
    ends_item_zero hkey hindex htype _ htext]

/-- The usage is read as a dict when the body has it. -/
theorem ends_read_usage (hattr : ¬ E .AttributeError) (ret : Prop) (top : json.Object) :
    Ends (read_usage (.object top)) (fun _ => ret) (fun e => E e.raised) ↔
      (∀ usage, json.get top "usage" = some usage → IsObject usage) ∧ ret := by
  cases hget : json.get top "usage" with
  | none => simp [read_usage, get, hget]
  | some usage =>
    cases usage <;> simp [read_usage, get, hget, IsObject, Failure.raised, hattr]

theorem ends_chat_completion (hchat : ∀ text, E (.ChatCompletionError text))
    (htype : ¬ E .TypeError) (hattr : ¬ E .AttributeError) (hrec : ¬ E .RecursionError)
    {ret : Json → Prop} {text : String → Prop}
    (hret : ∀ v, ret v ↔ ∃ s, v = .string s ∧ text s)
    (loads : Loads) (timeout : Nat) (log_event : Option String) (resp : Response) :
    Ends (chat_completion loads timeout log_event (.ok resp)) ret E ↔
      response_shape loads (log_event.any (· ≠ "") = true) text resp := by
  by_cases hstatus : resp.status_code ≠ 200
  · simp [chat_completion, response_shape, hstatus, hchat]
  simp only [chat_completion, response_shape, hstatus, raising.ends_bind, raising.ends_handle,
    raising.ends_ok, false_or, raising.ends_pure, raising.ends_error, raising.ends_ite,
    false_implies, not_false_eq_true, true_implies, true_and]
  cases hbody : loads.bytes resp.body with
  | error e =>
    cases e <;> simp [hchat, LoadsError.raised, malformed_response, hrec]
  | ok raw_resp =>
    have hread := ends_read_content (E := fun e => E (malformed_response e))
      (fun text => hchat _) (fun text => hchat _) htype
    simp only [raising.ends_ok, hread]
    cases raw_resp with
    | object top =>
      have hcontent : ∀ content, ((log_event.any (· ≠ "") = true →
            Ends (read_usage (.object top)) (fun _ => ret content) fun e => E e.raised) ∧
          (¬ log_event.any (· ≠ "") = true → ret content)) ↔
          ((log_event.any (· ≠ "") = true →
            ∀ usage, json.get top "usage" = some usage → IsObject usage) ∧
              ∃ s, content = .string s ∧ text s) := by
        intro content
        rw [ends_read_usage hattr, ← hret]
        tauto
      rw [objectWith_object, body_shape_object]
      simp only [hcontent]
    | _ => simp [ObjectWith, body_shape]

end

/-! ## The checks of `_call_litellm_reflect` -/

section
variable {E : Failure → Prop} {P : Prop}

theorem ends_require_truthy (kvs : json.Object) (key : String) :
    Ends (require_truthy (json.get kvs key)) (fun _ => P) E ↔
      (Has kvs key (·.truthy = true) → P) ∧
        (¬ Has kvs key (·.truthy = true) → E .ValueError) := by
  cases hget : json.get kvs key with
  | none => simp [require_truthy, Has, hget]
  | some v => by_cases hv : v.truthy = true <;> simp [require_truthy, Has, hget, hv]

theorem ends_require_numeric (kvs : json.Object) (key : String) :
    Ends (require_numeric (json.get kvs key)) (fun _ => P) E ↔
      (Has kvs key Numeric → P) ∧ (¬ Has kvs key Numeric → E .ValueError) := by
  cases hget : json.get kvs key with
  | none => simp [require_numeric, Has, hget]
  | some v => cases v <;> simp [require_numeric, Has, hget, Numeric]

theorem ends_require_type (kvs : json.Object) :
    Ends (require_type (json.get kvs "type")) (fun _ => P) E ↔
      (Has kvs "type" ReflectionTypeText → P) ∧
        (¬ Has kvs "type" ReflectionTypeText → Has kvs "type" (fun _ => True) →
          E .ValueError) ∧
        (¬ Has kvs "type" (fun _ => True) → E .KeyError) := by
  cases hget : json.get kvs "type" with
  | none => simp [require_type, Has, hget]
  | some v =>
    unfold require_type
    split
    all_goals simp_all [Has, ReflectionTypeText]

theorem get_object (kvs : json.Object) (key : String) :
    get (.object kvs) key = .ok (json.get kvs key) := rfl

theorem Has.any {kvs : json.Object} {key : String} {shape : Json → Prop} (h : Has kvs key shape) :
    Has kvs key fun _ => True := by
  obtain ⟨v, hv, -⟩ := h
  exact ⟨v, hv, trivial⟩

/-- A body is refused with a `ValueError`, unless the key `type` is missing. -/
theorem ends_validate_body (hkey : ¬ E .KeyError) (kvs : json.Object) :
    Ends (validate_body (.object kvs)) (fun _ => P) E ↔
      Has kvs "type" (fun _ => True) ∧ (ReflectionEntry.Body (·.truthy = true) kvs → P) ∧
        (¬ ReflectionEntry.Body (·.truthy = true) kvs → E .ValueError) := by
  have htype : Has kvs "type" ReflectionTypeText → Has kvs "type" fun _ => True := Has.any
  simp only [validate_body, get_object, raising.ends_bind, raising.ends_ok, raising.ends_pure,
    ends_require_type, ends_require_numeric, ends_require_truthy, ReflectionEntry.Body]
  tauto

theorem entry_object (present : Json → Prop) (kvs : json.Object) :
    ReflectionEntry present (.object kvs) ↔
      (json.get kvs "action" = some (.string "CREATE") ∧ ReflectionEntry.Body present kvs) ∨
        (json.get kvs "action" = some (.string "UPDATE") ∧ Has kvs "id" present ∧
          ReflectionEntry.Body present kvs) ∨
        (json.get kvs "action" = some (.string "RETAIN") ∧ Has kvs "id" present) := by
  simp [ReflectionEntry]

theorem readableEntry_object (kvs : json.Object) :
    ReadableEntry (.object kvs) ↔
      (json.get kvs "action" = some (.string "CREATE") ∨
        (json.get kvs "action" = some (.string "UPDATE") ∧ Has kvs "id" (·.truthy = true))) →
          Has kvs "type" fun _ => True := by
  simp [ReadableEntry]

/-- An entry that can be read passes the checks, or is refused with a `ValueError`. -/
theorem ends_validate_reflection (hkey : ¬ E .KeyError) (hattr : ¬ E .AttributeError)
    (r : Json) :
    Ends (validate_reflection r) (fun _ => P) E ↔
      ReadableEntry r ∧ (ReflectionEntry (·.truthy = true) r → P) ∧
        (¬ ReflectionEntry (·.truthy = true) r → E .ValueError) := by
  cases r with
  | object kvs =>
    simp only [validate_reflection, get_object, raising.ends_bind, raising.ends_ok,
      raising.ends_pure, raising.ends_error, raising.ends_ite, ends_validate_body hkey,
      ends_require_truthy, entry_object, readableEntry_object]
    by_cases hcreate : json.get kvs "action" = some (.string "CREATE")
    · simp [hcreate]
    by_cases hupdate : json.get kvs "action" = some (.string "UPDATE")
    · simp [hupdate]
      tauto
    by_cases hretain : json.get kvs "action" = some (.string "RETAIN")
    · simp [hretain]
    · simp [hcreate, hupdate, hretain]
  | _ => simp [validate_reflection, get, ReadableEntry, hattr]

theorem entry_readable {present : Json → Prop} {r : Json} (h : ReflectionEntry present r) :
    ReadableEntry r := by
  obtain ⟨kvs, rfl, h⟩ := h
  rw [readableEntry_object]
  intro haction
  rcases h with ⟨-, hbody⟩ | ⟨-, -, hbody⟩ | ⟨hretain, -⟩
  · exact hbody.1.any
  · exact hbody.1.any
  · simp [hretain] at haction

theorem returns_validate_reflection (r : Json) :
    Returns (validate_reflection r) ↔ ReflectionEntry (·.truthy = true) r := by
  rw [raising.returns_iff_ends, ends_validate_reflection not_false not_false]
  constructor
  · intro h
    exact not_not.mp h.2.2
  · intro h
    exact ⟨entry_readable h, fun _ => trivial, fun hn => hn h⟩

/-- A false value is refused, and the entries of a list are checked in their order. -/
theorem ends_validate_reflections (hvalue : E .ValueError) (hkey : ¬ E .KeyError)
    (hattr : ¬ E .AttributeError) (htype : ¬ E .TypeError) (kvs : json.Object) :
    Ends (validate_reflections (.object kvs)) (fun _ => P) E ↔
      ((json.get kvs "reflections").getD (.array [])).truthy = false ∨
        ∃ rs, (json.get kvs "reflections").getD (.array []) = .array rs ∧
          (∀ r, Reached (ReflectionEntry (·.truthy = true)) rs r → ReadableEntry r) ∧
          ((∀ r ∈ rs, ReflectionEntry (·.truthy = true) r) → P) := by
  simp only [validate_reflections, get_object, raising.ends_bind, raising.ends_ok]
  generalize (json.get kvs "reflections").getD (.array []) = v
  cases v with
  | array rs =>
    by_cases hrs : rs = []
    · simp [hrs, Json.truthy, hvalue]
    simp only [hrs, ↓reduceIte, raising.ends_mapM, returns_validate_reflection,
      ends_validate_reflection hkey hattr, hvalue, implies_true, and_true]
    simp [Json.truthy, hrs]
  | object kvs => by_cases h : kvs = [] <;> simp [h, Json.truthy, hvalue, hattr]
  | string s => by_cases h : s = "" <;> simp [h, Json.truthy, hvalue, hattr]
  | null => simp [Json.truthy, hvalue]
  | bool b => cases b <;> simp [Json.truthy, hvalue, htype]
  | number n =>
    rw [raising.ends_ite]
    cases h : (Json.number n).truthy <;> simp [hvalue, htype]

end

theorem Has.nonEmptyText_iff {kvs : json.Object} {key : String}
    (h : Has kvs key (·.truthy = true)) :
    Has kvs key NonEmptyText ↔ ∀ v, json.get kvs key = some v → IsText v := by
  obtain ⟨v, hv, htruthy⟩ := h
  simp only [Has, hv, Option.some.injEq, forall_eq', exists_eq_left']
  constructor
  · intro h
    obtain ⟨s, hs, -⟩ := h
    exact ⟨s, hs⟩
  · intro h
    obtain ⟨s, rfl⟩ := h
    exact ⟨s, rfl, by simpa [Json.truthy] using htruthy⟩

theorem textFields_object (kvs : json.Object) :
    TextFields (.object kvs) ↔
      (json.get kvs "action" ≠ some (.string "CREATE") →
        ∀ v, json.get kvs "id" = some v → IsText v) ∧
      (json.get kvs "action" ≠ some (.string "RETAIN") →
        ∀ v, json.get kvs "content" = some v → IsText v) := by
  simp [TextFields]

/-- What passes the checks is as promised when the fields that they test for truth are texts. -/
theorem entry_nonEmptyText_iff {r : Json} (h : ReflectionEntry (·.truthy = true) r) :
    ReflectionEntry NonEmptyText r ↔ TextFields r := by
  obtain ⟨kvs, rfl, h⟩ := h
  rw [entry_object, textFields_object]
  rcases h with ⟨haction, hbody⟩ | ⟨haction, hid, hbody⟩ | ⟨haction, hid⟩
  · simp [haction, ReflectionEntry.Body, hbody.1, hbody.2.1, hbody.2.2.nonEmptyText_iff]
  · simp [haction, ReflectionEntry.Body, hbody.1, hbody.2.1, hbody.2.2.nonEmptyText_iff,
      hid.nonEmptyText_iff]
  · simp [haction, hid.nonEmptyText_iff]

/-- The exceptions that `_call_litellm_reflect` promises. -/
def ServerError (e : Raised) : Prop := ∃ detail, e = .HTTPException 500 detail

theorem reflections_array {rs : List Json} (hne : rs ≠ []) :
    Reflections (.array rs) ↔ ∀ r ∈ rs, ReflectionEntry NonEmptyText r := by
  simp [Reflections, hne]

theorem not_serverError {e : Raised} (h : ∀ detail, e ≠ .HTTPException 500 detail) :
    ¬ ServerError e := by
  intro hs
  obtain ⟨detail, he⟩ := hs
  exact h detail he

theorem ends_parse_reflections (loads : Loads) (raw : Json) :
    Ends (handle (parse_reflections loads raw) fun e => .error (malformed_reflections e))
      Reflections ServerError ↔ ∃ s, raw = .string s ∧ message_shape loads s := by
  cases raw with
  | string s =>
    simp only [parse_reflections, loads_content, raising.ends_handle, raising.ends_bind,
      raising.ends_error, raising.ends_pure, Json.string.injEq, exists_eq_left']
    cases hloads : loads.text s with
    | error e =>
      cases e <;>
        simp [message_shape, hloads, LoadsError.raised, malformed_reflections, ServerError]
    | ok parsed =>
      simp only [message_shape, hloads, raising.ends_ok]
      cases parsed with
      | object kvs => 
        have hchecks := ends_validate_reflections
          (E := fun e => ServerError (malformed_reflections e.raised))
          (P := Reflections ((json.get kvs "reflections").getD (.array []))) ⟨_, rfl⟩
          (not_serverError (by simp [Failure.raised, malformed_reflections]))
          (not_serverError (by simp [Failure.raised, malformed_reflections]))
          (not_serverError (by simp [Failure.raised, malformed_reflections])) kvs
        simp only [get_object, raising.ends_ok, objectWith_object, hchecks]
        cases hget : json.get kvs "reflections" with
        | none => simp [Json.truthy]
        | some v =>
          simp only [Option.getD_some, Option.some.injEq, forall_eq', reflections_shape]
          by_cases htruthy : v.truthy = false
          · simp [htruthy]
          simp only [htruthy, Bool.true_eq_false, false_or]
          refine exists_congr fun rs => and_congr_right ?_
          rintro rfl
          refine and_congr_right fun _ => forall_congr' fun hpass => ?_
          have hne : rs ≠ [] := by simpa [Json.truthy] using htruthy
          rw [reflections_array hne]
          exact forall₂_congr fun r hr => entry_nonEmptyText_iff (hpass r hr)
      | _ => simp [get, ObjectWith, Failure.raised, malformed_reflections, ServerError]
  | _ => simp [parse_reflections, loads_content, malformed_reflections, ServerError]

/-! ## The two functions -/

def CompletionError (e : Raised) : Prop := ∃ text, e = .ChatCompletionError text

/-- For every answer of the endpoint, `chat_completion` returns a text or raises its error
exactly when the answer has the shape that its clauses are made for, and so does
`_call_litellm_reflect` return reflections or raise the 500. -/
theorem answers_handled_iff (loads : Loads) (timeout : Nat) (log_event : Option String)
    (resp : Response) :
    (Ends (chat_completion loads timeout log_event (.ok resp)) IsText CompletionError ↔
      response_shape loads (log_event.any (· ≠ "") = true) (fun _ => True) resp) ∧
    (Ends (call_litellm_reflect loads (.ok resp)) Reflections ServerError ↔
      response_shape loads True (message_shape loads) resp) := by
  constructor
  · apply ends_chat_completion
    · intro text
      exact ⟨text, rfl⟩
    · simp [CompletionError]
    · simp [CompletionError]
    · simp [CompletionError]
    · simp [IsText]
  · simp only [call_litellm_reflect, raising.ends_bind, raising.ends_handle, raising.ends_error]
    have hlogged : ((some "qortia_llm_reflect").any (· ≠ "") = true) = True := by simp
    rw [← hlogged]
    apply ends_chat_completion
    · intro text
      exact ⟨text, rfl⟩
    · simp [ServerError]
    · simp [ServerError]
    · simp [ServerError]
    · intro raw
      rw [← ends_parse_reflections, raising.ends_handle]
      simp only [raising.ends_error]

/-- What `_call_litellm_reflect` returns are entries that `reflect` goes on with. -/
theorem returned_entries {loads : Loads} {post : Except PostError Response} {v : Json}
    (h : call_litellm_reflect loads post = .ok v) :
    ∃ rs out, v = .array rs ∧ rs.mapM validate_reflection = .ok out := by
  have hends : Ends (call_litellm_reflect loads post)
      (fun v => ∃ rs out, v = .array rs ∧ rs.mapM validate_reflection = .ok out)
      (fun _ => True) := by
    simp only [call_litellm_reflect, parse_reflections, raising.ends_bind, raising.ends_handle,
      raising.ends_error, raising.ends_pure]
    refine raising.ends_of_forall (fun raw => ?_) (fun e => by cases e <;> exact trivial) _
    refine raising.ends_of_forall (fun parsed => ?_) (fun _ => trivial) _
    cases parsed with
    | object kvs =>
      simp only [validate_reflections, get_object, raising.ends_ok, raising.ends_bind]
      generalize (json.get kvs "reflections").getD (.array []) = reflections
      cases reflections with
      | array rs =>
        by_cases hrs : rs = []
        · simp [hrs]
        simp only [hrs, ↓reduceIte]
        cases hout : rs.mapM validate_reflection with
        | ok out => exact ⟨rs, out, rfl, hout⟩
        | error e => exact trivial
      | object kvs => by_cases h : kvs = [] <;> simp [h]
      | string s => by_cases h : s = "" <;> simp [h]
      | _ => simp [raising.ends_ite]
    | _ => exact trivial
  rw [h] at hends
  exact hends

/-- The body `{"choices": [{"message": {"content": null}}]}`, as of a model that calls a tool. -/
def null_content : Json :=
  .object [("choices", .array [.object [("message", .object [("content", .null)])]])]

/-- The text of an object with these members. -/
def braced (members : String) : String := "\x7b" ++ members ++ "\x7d"

/-- The text of `null_content`. -/
def null_text : String :=
  braced ("\"choices\": [" ++ braced ("\"message\": " ++ braced "\"content\": null") ++ "]")

/-- `chat_completion` returns `None`, on which `json.loads` raises a `TypeError`. -/
theorem null_content_escapes :
    let loads : Loads :=
      ⟨fun _ => .error (.ValueError "Expecting value"), fun _ => .ok null_content⟩
    let resp : Response := ⟨200, null_text.toUTF8.toList⟩
    ¬ Ends (chat_completion loads 120 (some "qortia_llm_reflect") (.ok resp)) IsText
      CompletionError ∧
    ¬ Ends (call_litellm_reflect loads (.ok resp)) Reflections ServerError := by
  intro loads resp
  have hchat : chat_completion loads 120 (some "qortia_llm_reflect") (.ok resp) = .ok .null := rfl
  have hreflect : call_litellm_reflect loads (.ok resp) = .error .TypeError := rfl
  rw [hchat, hreflect]
  simp [IsText, ServerError]

end qortia
