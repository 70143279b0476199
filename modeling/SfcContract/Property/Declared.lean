import SfcContract.Property.TypeLiteral
import SfcContract.Region

/-!
# The properties of a component
-/

namespace SfcContract.Property

def declared (regions : Regions) : List Property :=
  merge (inTypeLiteral regions.setup ++ inObjectLiteral regions.setup ++ inOptions regions.plain)

end SfcContract.Property
