import DomainModel.Vocabulary.Database
/-!
# Generator option names

Unary options are flags. Binary options carry a value, from a closed list or free.
-/
namespace DomainModel
namespace OptionName

def skipClient : String := "skipClient"
def skipServer : String := "skipServer"
def skipUserManagement : String := "skipUserManagement"
def noFluentMethod : String := "noFluentMethod"
def filter : String := "filter"
def dto : String := "dto"
def service : String := "service"
def pagination : String := "pagination"
def searchEngine : String := "searchEngine"
def microservice : String := "microservice"
def angularSuffix : String := "angularSuffix"
def clientRootFolder : String := "clientRootFolder"

def unaries : List String := [skipClient, skipServer, skipUserManagement, noFluentMethod, filter]

/-- Each binary option with its legal values; none allows any value but the empty one. -/
def binaries : List (String × Option (List String)) :=
  [(dto, some ["mapstruct"]),
    (service, some ["serviceClass", "serviceImpl"]),
    (pagination, some ["pager", "pagination", "infinite-scroll"]),
    (searchEngine, some ["elasticsearch"]),
    (microservice, none),
    (angularSuffix, none),
    (clientRootFolder, none)]

/-- Keywords that differ from the name of their option. -/
def keywords : List (String × String) := [("paginate", pagination), ("search", searchEngine)]

def isUnary (name : String) : Bool := unaries.contains name

def isBinary (name : String) : Bool := binaries.any fun b => b.1 == name

def isLegalValue (name value : String) : Bool :=
  match binaries.find? fun b => b.1 == name with
  | some (_, some values) => values.contains value
  | some (_, none) => value != ""
  | none => false

/-- The option that a keyword means; other words mean themselves. -/
def ofKeyword (keyword : String) : String :=
  match keywords.find? fun k => k.1 == keyword with
  | some (_, name) => name
  | none => keyword

/-- The keyword under which an option is written. -/
def toKeyword (name : String) : String :=
  match keywords.find? fun k => k.2 == name with
  | some (keyword, _) => keyword
  | none => name

/-- Options that a database cannot honour, each with the reason. -/
def refusals : List (String × DatabaseType × String) :=
  [(pagination, .cassandra, "Pagination isn't allowed when the app uses Cassandra.")]

def refusal? (name : String) (database : DatabaseType) : Option String :=
  (refusals.find? fun r => r.1 == name && r.2.1 == database).map fun r => r.2.2

end OptionName
end DomainModel
