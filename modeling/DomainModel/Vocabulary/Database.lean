import DomainModel.Failure
/-!
# Databases and field types

The database types, the built-in field types each of them knows, and the contents of blobs.
-/
namespace DomainModel

inductive DatabaseType where
  | sql
  | mysql
  | mariadb
  | postgresql
  | oracle
  | mssql
  | mongodb
  | cassandra
  | couchbase
  | no
  deriving DecidableEq, Repr

namespace DatabaseType

def word : DatabaseType → String
  | sql => "sql"
  | mysql => "mysql"
  | mariadb => "mariadb"
  | postgresql => "postgresql"
  | oracle => "oracle"
  | mssql => "mssql"
  | mongodb => "mongodb"
  | cassandra => "cassandra"
  | couchbase => "couchbase"
  | no => "no"

def all : List DatabaseType :=
  [sql, mysql, mariadb, postgresql, oracle, mssql, mongodb, cassandra, couchbase, no]

def ofWord? (s : String) : Option DatabaseType := all.find? fun t => t.word == s

def parse (s : String) : Outcome DatabaseType :=
  match ofWord? s with
  | some t => .ok t
  | none => .error (.unknownDatabaseType s)

end DatabaseType

namespace FieldType

def blob : String := "Blob"
def anyBlob : String := "AnyBlob"
def imageBlob : String := "ImageBlob"
def textBlob : String := "TextBlob"

/-- The type under which descriptors file every blob. -/
def byteArray : String := "byte[]"

def common : List String :=
  ["String", "Integer", "Long", "BigDecimal", "Float", "Double", "Boolean", "LocalDate",
    "ZonedDateTime", "Instant", blob, anyBlob, imageBlob, textBlob]

def ofCassandra : List String :=
  ["String", "Integer", "Long", "BigDecimal", "Float", "Double", "Boolean", "Date", "UUID",
    "Instant"]

/-- Whether `type` is built in for the database. The names of enumerations are not. -/
def isLegal (database : DatabaseType) (type : String) : Bool :=
  match database with
  | .cassandra => ofCassandra.contains type
  | _ => common.contains type

/-- What descriptors say a blob contains; none for other types. -/
def blobContent? (type : String) : Option String :=
  if type = blob ∨ type = anyBlob then some "any"
  else if type = imageBlob then some "image"
  else if type = textBlob then some "text"
  else none

/-- The blob type with the given content. -/
def ofBlobContent? (content : String) : Option String :=
  if content = "any" then some blob
  else if content = "image" then some imageBlob
  else if content = "text" then some textBlob
  else none

end FieldType
end DomainModel
