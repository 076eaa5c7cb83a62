import LuaSandbox.Util.HekaMessage

/-!
# String matcher

The Lua pattern matcher of the message matcher, without captures.  The subject
is a slice of memory; pattern pointers are suffixes of a pattern that a NUL
ends.
-/

namespace LuaSandbox
namespace Util

open Foundation

/-!
## Character classes
-/

def isLower (c : UInt8) : Bool := 0x61 <= c && c <= 0x7a

def isUpper (c : UInt8) : Bool := 0x41 <= c && c <= 0x5a

def isAlpha (c : UInt8) : Bool := isLower c || isUpper c

def isAlnum (c : UInt8) : Bool := isAlpha c || isDigit c

def isCntrl (c : UInt8) : Bool := c < 0x20 || c == 0x7f

def isPunct (c : UInt8) : Bool := 0x20 < c && c < 0x7f && !isAlnum c

def isSpace (c : UInt8) : Bool := c == 0x20 || (0x09 <= c && c <= 0x0d)

def isXDigit (c : UInt8) : Bool :=
  isDigit c || (0x41 <= c && c <= 0x46) || (0x61 <= c && c <= 0x66)

def toLower (c : UInt8) : UInt8 := if isUpper c then c + 0x20 else c

/-- The class that a lower case letter names. -/
def namedClass (cl c : UInt8) : Option Bool :=
  match cl with
  | 0x61 => some (isAlpha c)
  | 0x63 => some (isCntrl c)
  | 0x64 => some (isDigit c)
  | 0x6c => some (isLower c)
  | 0x70 => some (isPunct c)
  | 0x73 => some (isSpace c)
  | 0x75 => some (isUpper c)
  | 0x77 => some (isAlnum c)
  | 0x78 => some (isXDigit c)
  | 0x7a => some (c == 0)
  | _ => none

def matchClass (c cl : UInt8) : Bool :=
  match namedClass (toLower cl) c with
  | some res => if isLower cl then res else !res
  | none => cl == c

/-!
## Pattern items
-/

/-- The turns of the loop that looks for the closing bracket. -/
def classendBracket : List UInt8 -> Option (List UInt8)
  | [] => none
  | 0x25 :: _ :: 0x5d :: rest => some rest
  | 0x25 :: _ :: rest => classendBracket rest
  | _ :: 0x5d :: rest => some rest
  | _ :: rest => classendBracket rest

/-- What stands behind the single character class at the front. -/
def classend : List UInt8 -> Option (List UInt8)
  | [] => none
  | [0x25] => none
  | 0x25 :: _ :: rest => some rest
  | 0x5b :: 0x5e :: rest => classendBracket rest
  | 0x5b :: rest => classendBracket rest
  | _ :: rest => some rest

/-- The members of a bracket class; `sig` is false in a complement. -/
def bracketMember (c : UInt8) (sig : Bool) : List UInt8 -> Bool
  | [] => !sig
  -- the escape takes the closing bracket when nothing else is left
  | [0x25] => if matchClass c 0x5d then sig else !sig
  | 0x25 :: x :: rest =>
      if matchClass c x then sig else bracketMember c sig rest
  | x :: 0x2d :: y :: rest =>
      if x <= c && c <= y then sig else bracketMember c sig rest
  | x :: rest => if x == c then sig else bracketMember c sig rest

/-- The class at the front of `p`, which `ep` follows. -/
def matchbracketclass (c : UInt8) (p ep : List UInt8) : Bool :=
  match (p.take (p.length - ep.length - 1)).drop 1 with
  | 0x5e :: members => bracketMember c false members
  | members => bracketMember c true members

def singlematch (c : UInt8) (p ep : List UInt8) : Bool :=
  match p with
  | [] => c == 0
  | 0x2e :: _ => true
  | [0x25] => matchClass c 0
  | 0x25 :: cl :: _ => matchClass c cl
  | 0x5b :: _ => matchbracketclass c p ep
  | x :: _ => x == c

/-!
## Matching
-/

/-- The loop of `matchbalance`, behind `cont` open delimiters. -/
def matchbalanceLoop (mem : Memory) (b e : UInt8) :
    Nat -> Nat -> Nat -> Option Nat
  | 0, _, _ => none
  | n + 1, s, cont =>
      if mem s = e then
        if cont = 1 then some (s + 1)
        else matchbalanceLoop mem b e n (s + 1) (cont - 1)
      else if mem s = b then
        matchbalanceLoop mem b e n (s + 1) (cont + 1)
      else
        matchbalanceLoop mem b e n (s + 1) cont

def matchbalance (mem : Memory) (srcEnd s : Nat) :
    List UInt8 -> Option Nat
  | b :: e :: _ =>
      if mem s ≠ b then none
      else matchbalanceLoop mem b e (srcEnd - (s + 1)) (s + 1) 1
  | _ => none

/-- How many of the next `n` characters match the item. -/
def expandCount (mem : Memory) (p ep : List UInt8) : Nat -> Nat -> Nat
  | 0, _ => 0
  | n + 1, s =>
      if singlematch (mem s) p ep then expandCount mem p ep n (s + 1) + 1
      else 0

/-- Try the rest of the pattern with `i` repetitions and with ever fewer. -/
def tryFewer (rest : Nat -> Option Nat) (s : Nat) : Nat -> Option Nat
  | 0 => rest s
  | i + 1 => (rest (s + (i + 1))).orElse (fun _ => tryFewer rest s i)

def maxExpand (mem : Memory) (srcEnd : Nat) (rest : Nat -> Option Nat)
    (s : Nat) (p ep : List UInt8) : Option Nat :=
  tryFewer rest s (expandCount mem p ep (srcEnd - s) s)

def minExpand (mem : Memory) (rest : Nat -> Option Nat)
    (p ep : List UInt8) : Nat -> Nat -> Option Nat
  | 0, s => rest s
  | n + 1, s =>
      (rest s).orElse (fun _ =>
        if singlematch (mem s) p ep then minExpand mem rest p ep n (s + 1)
        else none)

/--
Match a pattern of fewer than `n` bytes at `s`; every call of the source sees a
shorter pattern than its caller.
-/
def matchPattern (mem : Memory) (srcInit srcEnd : Nat) :
    Nat -> Nat -> List UInt8 -> Option Nat
  | 0, _, _ => none
  | n + 1, s, p =>
      let item (p : List UInt8) : Option Nat :=
        match classend p with
        | none => none
        | some ep =>
            let m := s < srcEnd && singlematch (mem s) p ep
            match ep with
            | 0x3f :: rest =>
                if m then
                  (matchPattern mem srcInit srcEnd n (s + 1) rest).orElse
                    (fun _ => matchPattern mem srcInit srcEnd n s rest)
                else
                  matchPattern mem srcInit srcEnd n s rest
            | 0x2a :: rest =>
                maxExpand mem srcEnd
                  (fun s => matchPattern mem srcInit srcEnd n s rest) s p ep
            | 0x2b :: rest =>
                if m then
                  maxExpand mem srcEnd
                    (fun s => matchPattern mem srcInit srcEnd n s rest)
                    (s + 1) p ep
                else
                  none
            | 0x2d :: rest =>
                minExpand mem
                  (fun s => matchPattern mem srcInit srcEnd n s rest) p ep
                  (srcEnd - s) s
            | _ =>
                if m then matchPattern mem srcInit srcEnd n (s + 1) ep
                else none
      match p with
      | [] => some s
      | 0x25 :: 0x62 :: args =>
          match matchbalance mem srcEnd s args with
          | none => none
          | some s => matchPattern mem srcInit srcEnd n s (args.drop 2)
      | 0x25 :: 0x66 :: set =>
          match set with
          | 0x5b :: _ =>
              match classend set with
              | none => none
              | some ep =>
                  let previous := if s = srcInit then 0 else mem (s - 1)
                  if matchbracketclass previous set ep ||
                      !matchbracketclass (mem s) set ep then
                    none
                  else
                    matchPattern mem srcInit srcEnd n s ep
          | _ => none
      | [0x24] => if s = srcEnd then some s else none
      | _ => item p

/-- Start the match at every position, or at the first one if anchored. -/
def matchFrom (mem : Memory) (srcInit srcEnd : Nat) (anchor : Bool)
    (p : List UInt8) : Nat -> Nat -> Bool
  | 0, _ => false
  | n + 1, s1 =>
      if (matchPattern mem srcInit srcEnd (p.length + 1) s1 p).isSome then true
      else if s1 < srcEnd && !anchor then
        matchFrom mem srcInit srcEnd anchor p n (s1 + 1)
      else
        false

def lsbStringMatch (mem : Memory) (subject : ConstString)
    (p : List UInt8) : Bool :=
  match subject.s with
  | none => false
  | some s =>
      match p with
      | 0x5e :: p => matchFrom mem s (s + subject.len) true p (subject.len + 1) s
      | _ => matchFrom mem s (s + subject.len) false p (subject.len + 1) s

/-!
## Plain search
-/

/-- The first of `n` bytes that equals `c`. -/
def memchr (mem : Memory) (c : UInt8) : Nat -> Nat -> Option Nat
  | 0, _ => none
  | n + 1, p => if mem p = c then some p else memchr mem c n (p + 1)

/-- The search for `c :: rest` among the `l1` positions from `s1` on. -/
def lmemfindLoop (mem : Memory) (c : UInt8) (rest : List UInt8) :
    Nat -> Nat -> Nat -> Option Nat
  | 0, _, _ => none
  | n + 1, s1, l1 =>
      match memchr mem c l1 s1 with
      | none => none
      | some init =>
          if mem.bytes (init + 1) rest.length = rest then some init
          else lmemfindLoop mem c rest n (init + 1) (l1 - (init + 1 - s1))

def lmemfind (mem : Memory) (s1 l1 : Nat) (s2 : List UInt8) : Option Nat :=
  match s2 with
  | [] => some s1
  | c :: rest =>
      if l1 < s2.length then none
      else lmemfindLoop mem c rest l1 s1 (l1 - rest.length)

def lsbStringFind (mem : Memory) (subject : ConstString)
    (p : List UInt8) : Bool :=
  match subject.s with
  | none => false
  | some s => (lmemfind mem s subject.len p).isSome

end Util
end LuaSandbox
