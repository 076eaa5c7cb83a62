import LuaSandbox.Util.StringMatcher

/-!
# Lua patterns

The well formed patterns without frontiers and captures, their text, and the
strings that they match.
-/

namespace LuaSandbox
namespace Util

open Foundation

/-!
## Classes
-/

inductive CharClass where
  | letters | control | digits | lowerCase | punctuation | spaces | upperCase
  | alphanumeric | hexadecimal | zero
  deriving DecidableEq

def CharClass.letter : CharClass -> UInt8
  | letters => 0x61
  | control => 0x63
  | digits => 0x64
  | lowerCase => 0x6c
  | punctuation => 0x70
  | spaces => 0x73
  | upperCase => 0x75
  | alphanumeric => 0x77
  | hexadecimal => 0x78
  | zero => 0x7a

def CharClass.Contains : CharClass -> UInt8 -> Prop
  | letters, c => isAlpha c = true
  | control, c => isCntrl c = true
  | digits, c => isDigit c = true
  | lowerCase, c => isLower c = true
  | punctuation, c => isPunct c = true
  | spaces, c => isSpace c = true
  | upperCase, c => isUpper c = true
  | alphanumeric, c => isAlnum c = true
  | hexadecimal, c => isXDigit c = true
  | zero, c => c = 0

/-- What stands behind a percent sign: a class, its complement under the upper
case letter, or a character that stands for itself. -/
inductive Escape where
  | cls (k : CharClass)
  | complement (k : CharClass)
  | char (c : UInt8)
  deriving DecidableEq

namespace Escape

def letter : Escape -> UInt8
  | cls k => k.letter
  | complement k => k.letter - 0x20
  | char c => c

def Contains : Escape -> UInt8 -> Prop
  | cls k, c => k.Contains c
  | complement k, c => ¬ k.Contains c
  | char x, c => c = x

def WellFormed : Escape -> Prop
  | cls _ => True
  | complement _ => True
  | char c => c ≠ 0 ∧ forall k : CharClass, toLower c ≠ k.letter

end Escape

/-- A member of a bracket set. -/
inductive SetMember where
  | char (c : UInt8)
  | range (low high : UInt8)
  | escape (e : Escape)
  deriving DecidableEq

namespace SetMember

def text : SetMember -> List UInt8
  | char c => [c]
  | range low high => [low, 0x2d, high]
  | escape e => [0x25, e.letter]

def Contains : SetMember -> UInt8 -> Prop
  | char x, c => c = x
  | range low high, c => low <= c ∧ c <= high
  | escape e, c => e.Contains c

/-- A closing bracket ends the set unless it comes first, and a percent sign
always escapes. -/
def WellFormed : SetMember -> Prop
  | char c => c ≠ 0 ∧ c ≠ 0x25
  | range low high =>
      (low ≠ 0 ∧ low ≠ 0x25) ∧ high ≠ 0 ∧ high ≠ 0x25 ∧ high ≠ 0x5d
  | escape e => e.WellFormed

end SetMember

def membersText (members : List SetMember) : List UInt8 :=
  members.flatMap SetMember.text

/-- Behind a member, a character is not followed by a hyphen that would make it
a range, and no closing bracket comes first. -/
def MembersWellFormed : List SetMember -> Prop
  | [] => True
  | m :: rest =>
      m.WellFormed ∧
        (forall c y more, m = SetMember.char c ->
          membersText rest ≠ 0x2d :: y :: more) ∧
        (membersText rest).head? ≠ some 0x5d ∧
        MembersWellFormed rest

/-- A class of characters. -/
inductive Single where
  | char (c : UInt8)
  | any
  | escape (e : Escape)
  | set (members : List SetMember)
  | complement (members : List SetMember)
  deriving DecidableEq

namespace Single

def text : Single -> List UInt8
  | char c => [c]
  | any => [0x2e]
  | escape e => [0x25, e.letter]
  | set members => 0x5b :: (membersText members ++ [0x5d])
  | complement members => 0x5b :: 0x5e :: (membersText members ++ [0x5d])

def Contains : Single -> UInt8 -> Prop
  | char x, c => c = x
  | any, _ => True
  | escape e, c => e.Contains c
  | set members, c => exists m, m ∈ members ∧ m.Contains c
  | complement members, c => ¬ exists m, m ∈ members ∧ m.Contains c

/-- The letters `b` and `f` behind a percent sign start other items. -/
def WellFormed : Single -> Prop
  | char c => c ≠ 0 ∧ c ≠ 0x25 ∧ c ≠ 0x5b ∧ c ≠ 0x2e
  | any => True
  | escape e => e.WellFormed ∧ e.letter ≠ 0x62 ∧ e.letter ≠ 0x66
  | set members =>
      members ≠ [] ∧ MembersWellFormed members ∧
        (membersText members).head? ≠ some 0x5e
  | complement members => members ≠ [] ∧ MembersWellFormed members

end Single

/-!
## Items
-/

inductive Quantifier where
  | once | optional | star | plus | lazy
  deriving DecidableEq

namespace Quantifier

def text : Quantifier -> List UInt8
  | once => []
  | optional => [0x3f]
  | star => [0x2a]
  | plus => [0x2b]
  | lazy => [0x2d]

def Repetitions : Quantifier -> Nat -> Prop
  | once, i => i = 1
  | optional, i => i <= 1
  | star, _ => True
  | plus, i => 1 <= i
  | lazy, _ => True

end Quantifier

/-- The level after a string, where `b` opens and `e` closes one. -/
def level (b e : UInt8) : List UInt8 -> Int
  | [] => 0
  | c :: rest =>
      (if c = e then -1 else if c = b then 1 else 0) + level b e rest

/-- The string starts with `b`, and ends with the first `e` at which the level
is back at zero. -/
def Balanced (b e : UInt8) (w : List UInt8) : Prop :=
  exists body, w = b :: (body ++ [e]) ∧ level b e body = 0 ∧
    forall u, u <+: body -> 0 <= level b e u

inductive PatternItem where
  | single (x : Single) (q : Quantifier)
  | balance (b e : UInt8)
  deriving DecidableEq

namespace PatternItem

def text : PatternItem -> List UInt8
  | single x q => x.text ++ q.text
  | balance b e => [0x25, 0x62, b, e]

def Matches : PatternItem -> List UInt8 -> Prop
  | single x q, w => q.Repetitions w.length ∧ forall c, c ∈ w -> x.Contains c
  | balance b e, w => Balanced b e w

end PatternItem

def itemsText (items : List PatternItem) : List UInt8 :=
  items.flatMap PatternItem.text

def isQuantifier (c : UInt8) : Bool :=
  c == 0x3f || c == 0x2a || c == 0x2b || c == 0x2d

/-- An item without a quantifier is not followed by the character of one, and a
dollar sign that ends the pattern is no item. -/
def ItemsWellFormed (tail : List UInt8) : List PatternItem -> Prop
  | [] => True
  | PatternItem.single x q :: rest =>
      x.WellFormed ∧
        (q = Quantifier.once ->
          (forall c, (itemsText rest ++ tail).head? = some c ->
            isQuantifier c = false) ∧
          (x = Single.char 0x24 -> itemsText rest ++ tail ≠ [])) ∧
        ItemsWellFormed tail rest
  | PatternItem.balance b e :: rest =>
      b ≠ 0 ∧ e ≠ 0 ∧ ItemsWellFormed tail rest

/-!
## Patterns
-/

structure Pattern where
  anchored : Bool
  items : List PatternItem
  atEnd : Bool

namespace Pattern

def tail (P : Pattern) : List UInt8 := if P.atEnd then [0x24] else []

def text (P : Pattern) : List UInt8 :=
  (if P.anchored then [0x5e] else []) ++ (itemsText P.items ++ P.tail)

/-- A caret that starts the pattern is its anchor. -/
def WellFormed (P : Pattern) : Prop :=
  ItemsWellFormed P.tail P.items ∧
    (P.anchored = false -> (itemsText P.items ++ P.tail).head? ≠ some 0x5e)

/-- Consecutive pieces of the string match the items, from the start of the
string if the pattern is anchored, and up to its end if it says so. -/
def Matches (P : Pattern) (xs : List UInt8) : Prop :=
  exists before pieces after,
    xs = before ++ pieces.flatten ++ after ∧
      List.Forall₂ PatternItem.Matches P.items pieces ∧
      (P.anchored = true -> before = []) ∧
      (P.atEnd = true -> after = [])

end Pattern

end Util
end LuaSandbox
