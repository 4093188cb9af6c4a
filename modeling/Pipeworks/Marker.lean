import Pipeworks.Text.Quoted
/-!
# Type markers

A marker names a type of values and tells its values from others.
-/

namespace Pipeworks

structure Marker (C : Type) where
  typeName : String
  test : C → Bool

namespace Marker
variable {C : Type}

def describe (m : Marker C) : String := s!"TypeMarker({Text.quoted m.typeName})"

end Marker
end Pipeworks
