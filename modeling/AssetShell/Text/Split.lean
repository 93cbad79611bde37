/-!
# Cutting texts at a mark

A text is cut at every mark; the pieces are what stands between the marks. A text without a mark is
its own one piece.
-/

namespace AssetShell

def splitText (mark : Char) (s : String) : List String :=
  (s.toList.splitOn mark).map String.ofList

/-- Texts are compared by their letters of ASCII without regard to case. -/
def sameLetters (s t : String) : Bool := s.toList.map Char.toLower = t.toList.map Char.toLower

end AssetShell
