/-!
# Reading position

A reader holds the rest of its text and the number of bytes before it.
-/
namespace AssetAudit

/-- The rest of the text and the number of bytes read before it. -/
structure Cursor where
  rest : List Char
  offset : Nat

namespace Cursor

def ofText (text : List Char) : Cursor := ⟨text, 0⟩

/-- Step over `n` characters. -/
def skip : Nat → Cursor → Cursor
  | 0, c => c
  | n + 1, ⟨ch :: rest, offset⟩ => skip n ⟨rest, offset + ch.utf8Size⟩
  | _ + 1, ⟨[], offset⟩ => ⟨[], offset⟩

end Cursor
end AssetAudit
