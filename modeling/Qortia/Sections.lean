-- How `qortia.knowledge` cuts a document into sections (`split_into_sections`) and what it
-- indexes a section by (`extract_index_fields`).
import Qortia.Lib.Text
import Qortia.Ner

namespace qortia

/-! ## Sections -/

structure Section where
  heading : String
  text : String
  deriving DecidableEq

/-- `int(len(text.split()) * 1.3)`. -/
def estimate_tokens (s : List Char) : Nat := (text.words s).length * 13 / 10

/-- A match of `HEADING_PATTERN`, `^(#{2,3})\s+(.+)$`, at the beginning of a line: the second
group and the length of the whole match. -/
def match_heading (s : List Char) : Option (List Char × Nat) :=
  let hashes := s.takeWhile (· = '#')
  let space := (s.drop hashes.length).takeWhile text.isspace
  let rest := s.drop (hashes.length + space.length)
  if hashes.length < 2 ∨ 3 < hashes.length ∨ space = [] then none
  else if rest ≠ [] then
    let line := rest.takeWhile (· ≠ '\n')
    some (line, hashes.length + space.length + line.length)
  else
    -- The text ends in the white space. The group is then the last character of it that is no
    -- line break, and `\s+` keeps at least one character before.
    match (space.drop 1).reverse.dropWhile (· = '\n') with
    | [] => none
    | c :: before => some ([c], hashes.length + before.length + 2)

/-- The text before the first heading, and each heading with the text up to the next one.
`skip` characters still belong to a heading, and `bol` says that a line begins. -/
def cut_headings : (skip : Nat) → (bol : Bool) → List Char →
    List Char × List (List Char × List Char)
  | _, _, [] => ([], [])
  | skip + 1, _, c :: s => cut_headings skip (c = '\n') s
  | 0, bol, c :: s =>
    match if bol then match_heading (c :: s) else none with
    | some (heading, n) =>
      let (body, sections) := cut_headings (n - 1) (c = '\n') s
      ([], (heading, body) :: sections)
    | none =>
      let (body, sections) := cut_headings 0 (c = '\n') s
      (c :: body, sections)

/-- One turn of the loop of `_paragraph_split`: the chunks so far and the current one. -/
def add_paragraph (title : String) (acc : List Section × List Char) (para : List Char) :
    List Section × List Char :=
  let (chunks, current) := acc
  let candidate := if current ≠ [] then text.strip (current ++ '\n' :: '\n' :: para) else para
  if estimate_tokens candidate > 2000 ∧ current ≠ [] then
    (chunks ++ [⟨title, String.ofList current⟩], para)
  else (chunks, candidate)

/-- `_paragraph_split`. -/
def paragraph_split (s : List Char) (title : String) : List Section :=
  let paragraphs := ((text.splitBlankLines [] s).map text.strip).filter (· ≠ [])
  let (chunks, current) := paragraphs.foldl (add_paragraph title) ([], [])
  if current ≠ [] then chunks ++ [⟨title, String.ofList current⟩] else chunks

/-- `sections[-1]["text"] += "\n\n" + section_text`. -/
def append_to_last (sections : List Section) (s : List Char) : List Section :=
  match sections.getLast? with
  | none => []
  | some last => sections.dropLast ++ [{ last with text := last.text ++ "\n\n" ++ String.ofList s }]

/-- One turn of the loop over the headings. -/
def add_section (sections : List Section) (m : List Char × List Char) : List Section :=
  let heading := String.ofList (text.strip m.1)
  let s := text.strip m.2
  if estimate_tokens s > 2000 then sections ++ paragraph_split s heading
  else if estimate_tokens s ≥ 50 then sections ++ [⟨heading, String.ofList s⟩]
  else append_to_last sections s

/-- `split_into_sections`. -/
def split_into_sections (content : String) : List Section :=
  let (before, headings) := cut_headings 0 true content.toList
  if headings = [] then
    (paragraph_split content.toList "").filter fun s => estimate_tokens s.text.toList ≥ 50
  else
    let pre := text.strip before
    let intro : List Section :=
      if pre ≠ [] ∧ estimate_tokens pre ≥ 50 then [⟨"Introduction", String.ofList pre⟩] else []
    headings.foldl add_section intro

/-! ## The index of a section -/

variable {K : Type}

structure IndexFields where
  index_summary : String
  index_entities : List String
  index_questions : List String
  deriving DecidableEq

/-- `" ".join(s.text.strip() for s in sentences[:2])`. -/
def first_sentences (doc : Doc) : String :=
  " ".intercalate ((doc.sents.take 2).map fun s => String.ofList (text.strip s.toList))

/-- The summary without a pipeline: the first two parts between full stops. -/
def degraded_summary (s : List Char) : String :=
  let parts := ((s.splitOnP fun c => c = '.' || c = '!' || c = '?').map text.strip).filter (· ≠ [])
  let summary := ". ".intercalate ((parts.take 2).map String.ofList)
  if summary ≠ "" ∧ summary.toList.getLast? ≠ some '.' then summary ++ "." else summary

/-- The entities of the document whose labels count, ten at most. -/
def index_entities (lang : String) (doc : Doc) : List String :=
  ((doc.ents.filter fun e => (kept_label lang e.2).isSome).map (·.1)).eraseDups.take 10

/-- The entities, the noun chunks and the summary, `none` when the pipeline is missing or
raises. -/
def read_index (o : Outside K) (lang s : String) : Option (List String × List String × String) :=
  if lang ∈ INDIC_NER_LANGS then
    (o.xx_ent_wiki_sm.bind (· s)).map fun doc => (index_entities lang doc, [], first_sentences doc)
  else
    (o.en_core_web_sm.bind (· s)).map fun doc =>
      (index_entities lang doc,
        (((doc.noun_chunks.filter fun c => (text.words c.toList).length ≤ 4).map o.lower).eraseDups
          |>.take 10),
        first_sentences doc)

/-- `extract_index_fields`. -/
def extract_index_fields (o : Outside K) (heading s : String) (lang : String) : IndexFields :=
  let (entities, noun_chunks, summary) :=
    (read_index o lang s).getD ([], [], degraded_summary s.toList)
  { index_summary :=
      if summary = "" then String.ofList (text.strip (s.toList.take 500)) else summary
    index_entities := entities
    index_questions := if heading ≠ "" then heading :: noun_chunks else noun_chunks }

end qortia
