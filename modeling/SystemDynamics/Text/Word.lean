import SystemDynamics.Text.Word.Ranges

namespace SystemDynamics.Text

def inRanges (ranges : List (Nat × Nat)) (c : Char) : Bool :=
  ranges.any fun r ↦ r.1 ≤ c.toNat && c.toNat ≤ r.2

def isWord (c : Char) : Bool :=
  if c.toNat < 0x80 then c.isAlphanum || c == '_' else inRanges Word.ranges c

/-- The words of a text, after the characters of a word that has begun. A word is a run of word
characters as long as can be; it is empty between two other characters. -/
def wordsAfter (begun : List Char) : List Char → List (List Char)
  | [] => [begun]
  | c :: rest =>
    if isWord c then wordsAfter (begun ++ [c]) rest else begun :: wordsAfter [] rest

def words (text : String) : List (List Char) :=
  wordsAfter [] text.toList

end SystemDynamics.Text
