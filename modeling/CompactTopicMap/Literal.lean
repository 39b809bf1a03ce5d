import CompactTopicMap.Identity
import CompactTopicMap.Text.Quoted

namespace CompactTopicMap

/-- A dollar sign and at least one more character, none of them blank. -/
def isVariable (value : String) : Bool :=
  match value.toList with
  | '$' :: c :: rest => !(c :: rest).any Text.isBlank
  | _ => false

def encodeSpaces (text : String) : String :=
  .ofList (Text.percentWhere (· == ' ') text.toList)

def encodeLiteral (table : PrefixTable) (site : Text.QuoteSite) (datatype value : String) :
    String :=
  if isVariable value then value
  else if datatype = Iri.string then Text.quote site value
  else if datatype = Iri.anyUri then "<" ++ encodeSpaces value ++ ">"
  else if datatype = Iri.integer then value
  else Text.quote site value ++ "^^" ++ (table.compress datatype).1

end CompactTopicMap
