import CompactTopicMap.Decimal.Shortest
import CompactTopicMap.Graph.Basic

namespace CompactTopicMap

inductive Subject where
  | topic (id : TopicId)
  | association (id : AssociationId)
  deriving DecidableEq, Repr

inductive Mismatch where
  | noMatch
  | noIdentity (token : String)
  | unbound (token : String)
  deriving DecidableEq, Repr

inductive TemplateFault where
  | badName
  | noStatements
  | emptyGroup
  /-- An entry of the given kind stands outside of the statement it belongs to. -/
  | misplaced (kind : String)
  | invokesAssociation
  | notOneAssociation
  | anonymousTopic (id : TopicId)
  deriving DecidableEq, Repr

inductive SettingFault where
  | outsideUnit (value : Float)
  | zero
  | notBoolean (value : String)
  | notNatural
  | notNumber
  | unknownKey
  | badLabel
  deriving DecidableEq, Repr

inductive Error where
  /-- An association of a reserved type has not exactly one player in a reserved role. -/
  | structuralConstraint (association : AssociationId) (type role : String) (count : Nat)
  | adaptivityViolation (template : String) (subject : Subject) (mismatch : Mismatch)
  | invalidTemplate (template : String) (fault : TemplateFault)
  | invalidSetting (key : String) (fault : SettingFault)
  | invalidDocument
  | prefixConflict (label bound requested : String)
  | output (message : String)
  deriving DecidableEq, Repr

def TopicId.describe (id : TopicId) : String := s!"TopicId({id.index})"

def AssociationId.describe (id : AssociationId) : String := s!"AssociationId({id.index})"

def Subject.describe : Subject → String
  | topic id => s!"topic {id.describe}"
  | association id => s!"association {id.describe}"

def Mismatch.message : Mismatch → String
  | noMatch => "no match"
  | noIdentity token => s!"{token} has no identity"
  | unbound token => s!"{token} is unbound"

def TemplateFault.message : TemplateFault → String
  | badName => "name is not a CTM identifier"
  | noStatements => "topic template has no statements"
  | emptyGroup => "empty topic group"
  | misplaced kind => s!"{kind} entry outside of the statement it belongs to"
  | invokesAssociation => "a topic template can only invoke topic templates"
  | notOneAssociation => "an association template holds exactly one association entry"
  | anonymousTopic id => s!"topic {id.describe} has no identity"

def SettingFault.message : SettingFault → String
  | outsideUnit value => s!"{Decimal.floatText value} is not within [0, 1]"
  | zero => "must be at least 1"
  | notBoolean value => s!"'{value}' is not a boolean"
  | notNatural => "expected a non-negative integer"
  | notNumber => "expected a number"
  | unknownKey => "unknown configuration key"
  | badLabel => "label is not a CTM identifier"

def Error.message : Error → String
  | structuralConstraint association type role count =>
    s!"association {association.describe} of type <{type}> has {count} players for role " ++
      s!"<{role}>, expected exactly 1"
  | adaptivityViolation template subject mismatch =>
    s!"template '{template}' is not adaptive for {subject.describe}: {mismatch.message}"
  | invalidTemplate template fault => s!"template '{template}' is malformed: {fault.message}"
  | invalidSetting key fault => s!"invalid configuration for '{key}': {fault.message}"
  | invalidDocument => "invalid configuration for '<document>'"
  | prefixConflict label bound requested =>
    s!"prefix '{label}' is already bound to <{bound}>, cannot rebind it to <{requested}>"
  | output message => s!"failed to write CTM output: {message}"

end CompactTopicMap
