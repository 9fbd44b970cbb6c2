/-
This file canonicalizes the generated labels of a printed AST before it is hashed, and digests the
gaps of a check without the markers of its session.
-/

import FramaCMcp.Foundation.Text
import Mathlib.Data.String.Basic
import FramaCMcp.Foundation.JsonValue
import FramaCMcp.Foundation.OrderedMap
import FramaCMcp.Foundation.StableSort

namespace FramaCMcp.AstDigest

/-- White space is in no word. -/
class RegexTables extends UnicodeTables where
  spaceApart : ∀ letter : Char, Text.isWhitespace letter = true → wordChar letter = false

/-- These are the prefixes that `generate_hash_label` emits. -/
def labelPrefixes : List (List Char) :=
  [['r', 'e'], ['e', 'n'], ['a', 's'], ['l', 'i'], ['l', 'a'], ['l', 'v'], ['a', 't'], ['a', 'n']]

def isHexLetter (letter : Char) : Bool :=
  letter.isDigit || decide (97 ≤ letter.toNat) && decide (letter.toNat ≤ 102)

/-- This is the part `(?:re|en|as|li|la|lv|at|an)_[0-9a-f]{8}` of the pattern. -/
def generatedHead (text : List Char) : Bool :=
  (text.take 11).length == 11 && decide (text.take 2 ∈ labelPrefixes) &&
    (text.drop 2).head? == some '_' && ((text.drop 3).take 8).all isHexLetter

section

variable [RegexTables]

/-- This is the group `(\s*:)` of a match at the start of the text. -/
def labelGap (text : List Char) : Option (List Char) :=
  let after := (text.drop 11).dropWhile UnicodeTables.wordChar
  if generatedHead text ∧ (after.dropWhile Text.isWhitespace).head? = some ':' then
    some (after.takeWhile Text.isWhitespace ++ [':'])
  else none

def matchLength (text gap : List Char) : Nat :=
  11 + ((text.drop 11).takeWhile UnicodeTables.wordChar).length + gap.length

def canonicalLabel : List Char := ['a', 'n', '_', '0', '0', '0', '0', '0', '0', '0', '0']

/-- The first letters belong to the last match. A new match starts at a word boundary. -/
def replaceAll : Nat → Bool → List Char → List Char
  | _, _, [] => []
  | skip + 1, _, letter :: rest => replaceAll skip (!UnicodeTables.wordChar letter) rest
  | 0, boundary, letter :: rest =>
      match if boundary then labelGap (letter :: rest) else none with
      | some gap =>
          canonicalLabel ++ gap ++ replaceAll (matchLength (letter :: rest) gap - 1)
            (!UnicodeTables.wordChar letter) rest
      | none => letter :: replaceAll 0 (!UnicodeTables.wordChar letter) rest

def canonicalAstForDigest (source : String) : String :=
  String.ofList (replaceAll 0 true source.toList)

end

end FramaCMcp.AstDigest

namespace FramaCMcp.IncompleteDigest

/-- These fields name a property within one session. -/
def sessionScoped : List String := ["property", "property_marker", "kinstr_marker"]

/-- The fields are removed one after the other from a map that keeps its order. -/
def removeMarkers (fields : List (String × Json)) : List (String × Json) :=
  sessionScoped.foldl (fun rest marker => Json.swapRemove marker rest) fields

mutual

/-- The removal looks at the keys alone, so the values can be stripped before it. -/
def stripSessionScoped : Json → Json
  | .obj fields => .obj (removeMarkers (stripFields fields))
  | .arr items => .arr (stripItems items)
  | other => other

def stripItems : List Json → List Json
  | [] => []
  | item :: rest => stripSessionScoped item :: stripItems rest

def stripFields : List (String × Json) → List (String × Json)
  | [] => []
  | (key, value) :: rest => (key, stripSessionScoped value) :: stripFields rest

end

def codeOf (entry : Json) : String := ((entry.get "code").bind Json.asStr).getD "UNKNOWN"

def countCodes (entries : List Json) : OrderedMap String Nat :=
  (entries.map codeOf).foldl (fun codes code => codes.modify code 0 (· + 1)) OrderedMap.empty

/-- The texts are hashed in their own order. -/
def identities (entries : List Json) : List String :=
  StableSort.sortByKey id (entries.map fun entry => (stripSessionScoped entry).render)

/-- This is the text that is hashed. -/
def hashedInput (entries : List Json) : String :=
  (Json.arr ((identities entries).map Json.str)).render

/-- A value that is no array has no entries. -/
def incompleteDigest (sha256Hex : String → String) (incomplete : Json) : Json :=
  let entries := incomplete.asArray.getD []
  .obj [("count", .num entries.length),
    ("codes", .obj ((countCodes entries).entries.map fun entry => (entry.1, .num entry.2))),
    ("sha256", .str (sha256Hex (hashedInput entries)))]

end FramaCMcp.IncompleteDigest
