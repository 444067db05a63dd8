/-!
# Matching of patterns

In a pattern `%` stands for any text, `_` for any one character, and every other character for itself. An escape
character, which is looked for first, takes its meaning from the character after it.
-/

namespace QueryShaping

/-- Whether some suffix of a list satisfies a test. -/
def anySuffix (test : List α → Bool) : List α → Bool
  | [] => test []
  | a :: rest => test (a :: rest) || anySuffix test rest

/-- Whether a pattern matches the whole of a text. -/
def likeChars (escape : Option Char) : (pattern text : List Char) → Bool
  | [], text => text.isEmpty
  | p :: rest, text =>
    if some p = escape then
      match rest, text with
      | literal :: rest, c :: text => literal = c && likeChars escape rest text
      | _, _ => false
    else if p = '%' then rest.isEmpty || anySuffix (likeChars escape rest) text
    else
      match text with
      | [] => false
      | c :: text => (p = '_' || p = c) && likeChars escape rest text

def likeMatches (text pattern : String) (escape : Option Char) : Bool :=
  likeChars escape pattern.toList text.toList

end QueryShaping
