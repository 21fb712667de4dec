import DomainModel.Document.Codec
import DomainModel.Failure
import DomainModel.Yaml.Schema
/-!
# Documents in JSON and YAML texts
-/
namespace DomainModel
namespace Document

def ofJsonText (s : String) : Outcome Document :=
  Outcome.ofReading (JsonSource.parse s >>= Document.ofTree?)

def ofYamlText (s : String) : Outcome Document :=
  Outcome.ofReading (Yaml.Node.parse s >>= Document.ofTree?)

end Document
end DomainModel
