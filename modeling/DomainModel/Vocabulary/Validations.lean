import DomainModel.Text.Casing
/-!
# Validation names

The constraints that a field may carry, and whether each needs a value.
-/
namespace DomainModel
namespace ValidationName

def required : String := "required"
def unique : String := "unique"
def pattern : String := "pattern"

def withoutValue : List String := [required, unique]

def withValue : List String :=
  ["min", "max", "minlength", "maxlength", pattern, "minbytes", "maxbytes"]

def isKnown (name : String) : Bool := withoutValue.contains name || withValue.contains name

/-- Unknown names need no value either. -/
def needsValue (name : String) : Bool := withValue.contains name

/-- The key of a descriptor that holds the value: `min` has `fieldValidateRulesMin`. -/
def descriptorKey (name : String) : String := "fieldValidateRules" ++ upperFirst name

end ValidationName
end DomainModel
