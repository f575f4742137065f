/-!
# Blank characters and trimming

A character is blank when it has the Unicode property `White_Space`. Trimming removes the blank
characters at both ends of a text and keeps the rest, blanks inside included.
-/

namespace Crosswalk.Text

def isBlank (c : Char) : Bool :=
  let n := c.toNat
  (9 ≤ n && n ≤ 13) || n == 0x20 || n == 0x85 || n == 0xA0 || n == 0x1680 ||
    (0x2000 ≤ n && n ≤ 0x200A) || n == 0x2028 || n == 0x2029 || n == 0x202F ||
    n == 0x205F || n == 0x3000

def trimEnd (cs : List Char) : List Char :=
  (cs.reverse.dropWhile isBlank).reverse

def trimChars (cs : List Char) : List Char :=
  trimEnd (cs.dropWhile isBlank)

def trim (s : String) : String :=
  String.ofList (trimChars s.toList)

@[simp]
theorem toList_trim (s : String) : (trim s).toList = trimChars s.toList := by
  simp [trim]

@[simp]
theorem trimChars_nil : trimChars [] = [] := rfl

/-- Trimming the end leaves a text alone whose last character is not blank. -/
theorem trimEnd_concat {cs : List Char} {c : Char} (h : isBlank c = false) :
    trimEnd (cs ++ [c]) = cs ++ [c] := by
  simp [trimEnd, h]

end Crosswalk.Text
