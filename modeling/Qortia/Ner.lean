-- Entity extraction (`qortia.knowledge`): which pipeline reads a text, and which of its labels
-- count. `none` stands for an exception, which every caller turns into an empty list.
import Qortia.Outside

namespace qortia

variable {K : Type}

def EN_ENTITY_LABELS : List String :=
  ["ORG", "PERSON", "PRODUCT", "GPE", "NORP", "FAC", "WORK_OF_ART"]

def INDIC_NER_LANGS : List String := ["hi", "bn", "ta", "te", "mr"]

/-- `_INDIC_LABEL_MAP.get(label)`. -/
def INDIC_LABEL_MAP (label : String) : Option String :=
  if label = "PER" then some "PERSON"
  else if label = "ORG" then some "ORG"
  else if label = "LOC" then some "GPE"
  else none

/-- The label that an entity is stored with, `none` when it does not count. -/
def kept_label (lang label : String) : Option String :=
  if lang ∈ INDIC_NER_LANGS then INDIC_LABEL_MAP label
  else if label ∈ EN_ENTITY_LABELS then some label else none

/-- The document of a text, in the pipeline of the language. A missing English model gives an
empty document, a missing Indic model raises. -/
def doc_of (o : Outside K) (lang text : String) : Option Doc :=
  if lang ∈ INDIC_NER_LANGS then
    match o.xx_ent_wiki_sm with
    | none => none
    | some nlp => nlp text
  else
    match o.en_core_web_sm with
    | none => some {}
    | some nlp => nlp text

/-- One turn of the loop over `doc.ents`: the first label of a text stays. -/
def see_entity (lang : String) (seen : List (String × String)) (ent : String × String) :
    List (String × String) :=
  match kept_label lang ent.2 with
  | none => seen
  | some label => if seen.any (·.1 = ent.1) then seen else seen ++ [(ent.1, label)]

/-- `extract_entities_with_types`. -/
def extract_entities_with_types (o : Outside K) (text : String) (lang : String := "en") :
    Option (List (String × String)) :=
  (doc_of o lang text).map fun doc => (doc.ents.foldl (see_entity lang) []).take 20

/-- `extract_entities`. -/
def extract_entities (o : Outside K) (text : String) (lang : String := "en") :
    Option (List String) :=
  (doc_of o lang text).map fun doc =>
    ((doc.ents.filter fun e => (kept_label lang e.2).isSome).map (·.1)).eraseDups.take 20

end qortia
