import DomainModel.Json.Writer
import DomainModel.Model.Problem
import DomainModel.Vocabulary.Application
import DomainModel.Vocabulary.Database
/-!
# Applications and their settings

Settings keep the order of their keys. A new application takes the settings of the user over the
defaults, follows two of them from others, and receives the secret that its authentication needs.
-/
namespace DomainModel

abbrev Settings := Table String Json

/-- The secrets that one new application receives, if it needs them. -/
structure Secrets where
  jwtSecret : String
  rememberMeKey : String
  deriving DecidableEq, Repr

namespace Settings

def jwtSecretKey : String := "jwtSecretKey"
def rememberMeKey : String := "rememberMeKey"

/-- A text setting that is not empty. -/
def text? (s : Settings) (key : String) : Option String :=
  match s.find? key with
  | some (.text t) => if t = "" then none else some t
  | _ => none

def bool? (s : Settings) (key : String) : Option Bool := (s.find? key).bind Json.bool?

/-- Whether the key stands with a value other than null. -/
def holds (s : Settings) (key : String) : Bool :=
  match s.find? key with
  | none => false
  | some v => !v.isNull

def baseName? (s : Settings) : Option String := s.text? "baseName"

def applicationType? (s : Settings) : Option ApplicationType :=
  (s.text? "applicationType").bind ApplicationType.ofWord?

def authenticationType? (s : Settings) : Option AuthenticationType :=
  (s.text? "authenticationType").bind AuthenticationType.ofWord?

def databaseType? (s : Settings) : Option DatabaseType :=
  (s.text? "databaseType").bind DatabaseType.ofWord?

/-- The base defaults with the values of the user. -/
def withBase (user : Settings) : Settings :=
  Table.ofList (baseDefaults.map fun d => (d.1, (user.find? d.1).getD d.2))

/-- Adds each entry whose key is still missing. -/
def fillIn (s : Settings) (entries : List (String × Json)) : Settings :=
  entries.foldl (fun s e => s.insertNew e.1 e.2) s

def folderOf (packageName : String) : String :=
  String.ofList (packageName.toList.map fun c => if c = '.' then '/' else c)

/-- The package folder follows the package name where the user gives no folder. -/
def withPackageFolder (user s : Settings) : Settings :=
  if user.contains "packageFolder" then s
  else
    match s.text? "packageName" with
    | some name => s.insert "packageFolder" (.text (folderOf name))
    | none => s

/-- Whether applications of this type have no client. -/
def isHeadless (s : Settings) : Bool :=
  s.applicationType? == some .microservice || s.applicationType? == some .uaa

def withClientChoice (user s : Settings) : Settings :=
  if !user.contains "skipClient" && s.isHeadless then s.insert "skipClient" (.bool true) else s

/-- The key of the secret that the authentication needs. -/
def secretKey? (s : Settings) : Option String :=
  match s.authenticationType? with
  | some .jwt => some jwtSecretKey
  | some .session => some rememberMeKey
  | _ => none

def secretFor (secrets : Secrets) (key : String) : String :=
  if key = jwtSecretKey then secrets.jwtSecret else secrets.rememberMeKey

def withSecret (secrets : Secrets) (s : Settings) : Settings :=
  match s.secretKey? with
  | some key => if s.holds key then s else s.insert key (.text (secretFor secrets key))
  | none => s

/-- The settings of a new application: base defaults, further keys of the user, late defaults, the
settings that follow from others, and the secret. -/
def withDefaults (secrets : Secrets) (user : Settings) : Settings :=
  withSecret secrets (withClientChoice user (withPackageFolder user
    (((withBase user).fillIn user.entries).fillIn lateDefaults)))

mutual

/-- A setting as text: strings without quotes, lists with commas, null as nothing. -/
def valueText : Json → String
  | .null => ""
  | .text s => s
  | .list items => joinWith "," (itemTexts items)
  | v => v.compact

def itemTexts : List Json → List String
  | [] => []
  | v :: rest => valueText v :: itemTexts rest

end

def lineText (key : String) (value : Json) : String :=
  if valueText value = "" then "    " ++ key ++ "\n"
  else "    " ++ key ++ " " ++ valueText value ++ "\n"

end Settings

/-- A generated application: its settings and the names of the entities it owns. -/
structure Application where
  settings : Settings
  entityNames : NameSet
  deriving DecidableEq

namespace Application

def new (secrets : Secrets) (user : Settings) : Application := ⟨user.withDefaults secrets, ∅⟩

def addEntityNames (a : Application) (names : List String) : Application :=
  { a with entityNames := a.entityNames.insertAll names }

def baseName? (a : Application) : Option String := a.settings.baseName?

def buildToolProblems (s : Settings) : List Problem :=
  match s.text? "buildTool" with
  | none => [.buildToolMissing]
  | some tool => Problem.onlyIf (!buildTools.contains tool) (.buildToolUnknown tool)

def secretProblems (s : Settings) : List Problem :=
  match s.authenticationType? with
  | some .jwt => Problem.onlyIf (!s.holds Settings.jwtSecretKey) .jwtSecretMissing
  | some .session => Problem.onlyIf (!s.holds Settings.rememberMeKey) .rememberMeKeyMissing
  | _ => []

def problems (a : Application) : List Problem :=
  let s := a.settings
  Problem.onlyIf s.baseName?.isNone .baseNameMissing ++
    Problem.onlyIf (s.text? "authenticationType").isNone .authenticationMissing ++
    buildToolProblems s ++
    Problem.onlyIf (s.bool? "enableTranslation" == some true && (s.text? "nativeLanguage").isNone)
      .nativeLanguageMissing ++
    secretProblems s ++
    Problem.onlyIf (s.isHeadless && s.bool? "skipClient" != some true) .clientNotSkipped

def text (a : Application) : String :=
  "application \x7b\n  config \x7b\n" ++
    concat (a.settings.entries.map fun e => Settings.lineText e.1 e.2) ++ "  \x7d" ++
    (if a.entityNames.isEmpty then "" else "\n  entities " ++ joinWith ", " a.entityNames.names) ++
    "\n\x7d"

end Application
end DomainModel
