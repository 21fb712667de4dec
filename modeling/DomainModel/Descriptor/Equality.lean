import DomainModel.Descriptor.Codec
/-!
# Equality of descriptors

Two descriptors state the same entity if their fields and relationships agree one by one as JSON
records and their main options are identical. The changelog date does not count.
-/
namespace DomainModel

/-- Equal JSON records, whatever the order of their keys. -/
def sameRecord (a b : Json) : Bool := a.canonical.same b.canonical

def sameRecords : List Json → List Json → Bool
  | [], [] => true
  | a :: as, b :: bs => sameRecord a b && sameRecords as bs
  | _, _ => false

namespace EntityDescriptor

/-- Filtering is off where nothing is said about it. -/
def sameOptions (a b : EntityDescriptor) : Bool :=
  a.dto == b.dto && a.service == b.service && a.pagination == b.pagination &&
    a.searchEngine == b.searchEngine && a.tableName == b.tableName && a.comment == b.comment &&
    a.filtering.getD false == b.filtering.getD false

def sameEntity (a b : EntityDescriptor) : Bool :=
  sameRecords (a.fields.map FieldDescriptor.toJson) (b.fields.map FieldDescriptor.toJson) &&
    sameRecords (a.relationships.map RelationshipDescriptor.toJson)
      (b.relationships.map RelationshipDescriptor.toJson) &&
    sameOptions a b

end EntityDescriptor
end DomainModel
