-- SUMMARY: White space, and text brought onto one line.
import ClientForge.Text.Digit

/-!
# Blanks

White space in Unicode's sense together with the four information separators
U+001C to U+001F. `Text.oneLine` writes every run of blanks as one space and
none at the ends, so its result holds no line break.
-/

namespace ClientForge

namespace Text

def blanks : List (Nat × Nat) :=
  [
    (0x9, 0xD), (0x1C, 0x20), (0x85, 0x85), (0xA0, 0xA0), (0x1680, 0x1680), (0x2000, 0x200A),
    (0x2028, 0x2029), (0x202F, 0x202F), (0x205F, 0x205F), (0x3000, 0x3000)]

def isBlank (c : Char) : Bool := inRanges blanks c

/-- The runs of characters between blanks. -/
def fields : List Char → List (List Char)
  | [] => []
  | c :: cs =>
    if isBlank c then fields cs
    else
      match cs with
      | [] => [[c]]
      | d :: _ =>
        if isBlank d then [c] :: fields cs
        else
          match fields cs with
          | [] => [[c]]
          | w :: ws => (c :: w) :: ws

/-- The fields of a text, one space between each two. -/
def oneLine (cs : List Char) : List Char := [' '].intercalate (fields cs)

end Text

end ClientForge
