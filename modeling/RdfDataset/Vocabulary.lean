/-!
# Vocabularies

The namespaces and names that the library itself relies on: collections, classes and properties, datatypes, and
implications between formulas.
-/

namespace RdfDataset.Vocabulary

namespace Rdf

def base : String := "http://www.w3.org/1999/02/22-rdf-syntax-ns#"
def type : String := "http://www.w3.org/1999/02/22-rdf-syntax-ns#type"
def first : String := "http://www.w3.org/1999/02/22-rdf-syntax-ns#first"
def rest : String := "http://www.w3.org/1999/02/22-rdf-syntax-ns#rest"
def nil : String := "http://www.w3.org/1999/02/22-rdf-syntax-ns#nil"
def langString : String := "http://www.w3.org/1999/02/22-rdf-syntax-ns#langString"

end Rdf

namespace Rdfs

def base : String := "http://www.w3.org/2000/01/rdf-schema#"
def subClassOf : String := "http://www.w3.org/2000/01/rdf-schema#subClassOf"
def subPropertyOf : String := "http://www.w3.org/2000/01/rdf-schema#subPropertyOf"
def domain : String := "http://www.w3.org/2000/01/rdf-schema#domain"
def range : String := "http://www.w3.org/2000/01/rdf-schema#range"

end Rdfs

namespace Xsd

def base : String := "http://www.w3.org/2001/XMLSchema#"
def string : String := "http://www.w3.org/2001/XMLSchema#string"
def boolean : String := "http://www.w3.org/2001/XMLSchema#boolean"
def integer : String := "http://www.w3.org/2001/XMLSchema#integer"
def decimal : String := "http://www.w3.org/2001/XMLSchema#decimal"
def double : String := "http://www.w3.org/2001/XMLSchema#double"

end Xsd

namespace Log

def base : String := "http://www.w3.org/2000/10/swap/log#"
def implies : String := "http://www.w3.org/2000/10/swap/log#implies"

end Log

namespace Owl

def base : String := "http://www.w3.org/2002/07/owl#"

end Owl

end RdfDataset.Vocabulary
