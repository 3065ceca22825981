/-!
Text as bytes. Heaps and attribute values store text in UTF-8.
-/

namespace TypeAtlas.Text.Utf8

def encode (s : String) : List UInt8 := s.toList.flatMap String.utf8EncodeChar

/-- The text these bytes encode; `none` when they are not UTF-8. -/
def decode? (bytes : List UInt8) : Option String :=
  bytes.toByteArray.utf8Decode?.map fun cs => String.ofList cs.toList

theorem decode?_encode (s : String) : decode? (encode s) = some s := by
  have h : (encode s).toByteArray = s.toList.utf8Encode := rfl
  rw [decode?, h, List.utf8Decode?_utf8Encode]
  simp

end TypeAtlas.Text.Utf8
