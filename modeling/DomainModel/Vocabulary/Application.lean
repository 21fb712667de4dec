import DomainModel.Failure
import DomainModel.Json.Value
/-!
# Applications and reserved names

Application and authentication types, the default settings of an application, and the names with a
fixed meaning.
-/
namespace DomainModel

inductive ApplicationType where
  | monolith
  | microservice
  | gateway
  | uaa
  deriving DecidableEq, Repr

namespace ApplicationType

def word : ApplicationType → String
  | monolith => "monolith"
  | microservice => "microservice"
  | gateway => "gateway"
  | uaa => "uaa"

def ofWord? (s : String) : Option ApplicationType :=
  [monolith, microservice, gateway, uaa].find? fun t => t.word == s

def parse (s : String) : Outcome ApplicationType :=
  match ofWord? s with
  | some t => .ok t
  | none => .error (.unknownApplicationType s)

end ApplicationType

inductive AuthenticationType where
  | jwt
  | session
  | oauth2
  | uaa
  deriving DecidableEq, Repr

namespace AuthenticationType

def word : AuthenticationType → String
  | jwt => "jwt"
  | session => "session"
  | oauth2 => "oauth2"
  | uaa => "uaa"

def ofWord? (s : String) : Option AuthenticationType :=
  [jwt, session, oauth2, uaa].find? fun t => t.word == s

def parse (s : String) : Outcome AuthenticationType :=
  match ofWord? s with
  | some t => .ok t
  | none => .error (.unknownAuthenticationType s)

end AuthenticationType

def buildTools : List String := ["maven", "gradle"]

/-- Settings that stand first, in this order, under those of the user. -/
def baseDefaults : List (String × Json) :=
  [("applicationType", .text "monolith"),
    ("clientPackageManager", .text "yarn"),
    ("databaseType", .text "sql"),
    ("devDatabaseType", .text "h2Disk"),
    ("enableHibernateCache", .bool true),
    ("enableSwaggerCodegen", .bool false),
    ("enableTranslation", .bool true),
    ("simPrefix", .text "sim"),
    ("languages", .texts ["en", "fr"]),
    ("messageBroker", .bool false),
    ("nativeLanguage", .text "en"),
    ("packageName", .text "com.mycompany.myapp"),
    ("packageFolder", .text "com/mycompany/myapp"),
    ("prodDatabaseType", .text "mysql"),
    ("searchEngine", .bool false),
    ("serviceDiscoveryType", .bool false),
    ("skipClient", .bool false),
    ("skipServer", .bool false),
    ("testFrameworks", .list []),
    ("useSass", .bool false),
    ("websocket", .bool false)]

/-- Settings filled in at the end where they are still missing. -/
def lateDefaults : List (String × Json) :=
  [("authenticationType", .text "jwt"),
    ("baseName", .text "simlife"),
    ("buildTool", .text "maven"),
    ("cacheProvider", .text "ehcache"),
    ("clientFramework", .text "angularX"),
    ("serverPort", .int 8080),
    ("skipUserManagement", .bool false)]

/-- The entity that every application has without declaring it. -/
def userEntityName : String := "User"

def userTableName : String := "sim_user"

/-- The directory of the entity descriptors below an application. -/
def entityDirectory : String := ".simlife"

/-- The file with the settings of an application's generator. -/
def generatorFile : String := ".yo-rc.json"

/-- The key of the section of `generatorFile` that is read. -/
def generatorSection : String := "generator-simlife"

/-- The name that stands for every entity. -/
def allEntities : String := "*"

end DomainModel
