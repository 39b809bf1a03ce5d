namespace CompactTopicMap.Iri

def model : String := "http://psi.topicmaps.org/iso13250/model/"

def topicName : String := "http://psi.topicmaps.org/iso13250/model/topic-name"
def typeInstance : String := "http://psi.topicmaps.org/iso13250/model/type-instance"
def typeRole : String := "http://psi.topicmaps.org/iso13250/model/type"
def instanceRole : String := "http://psi.topicmaps.org/iso13250/model/instance"
def supertypeSubtype : String := "http://psi.topicmaps.org/iso13250/model/supertype-subtype"
def supertypeRole : String := "http://psi.topicmaps.org/iso13250/model/supertype"
def subtypeRole : String := "http://psi.topicmaps.org/iso13250/model/subtype"

def datatypes : String := "http://www.w3.org/2001/XMLSchema#"
def string : String := "http://www.w3.org/2001/XMLSchema#string"
def anyUri : String := "http://www.w3.org/2001/XMLSchema#anyURI"
def integer : String := "http://www.w3.org/2001/XMLSchema#integer"
def decimal : String := "http://www.w3.org/2001/XMLSchema#decimal"
def boolean : String := "http://www.w3.org/2001/XMLSchema#boolean"
def date : String := "http://www.w3.org/2001/XMLSchema#date"
def dateTime : String := "http://www.w3.org/2001/XMLSchema#dateTime"

def startsWith (iri start : String) : Bool :=
  start.toList.isPrefixOf iri.toList

def isReserved (iri : String) : Bool :=
  startsWith iri model

end CompactTopicMap.Iri
