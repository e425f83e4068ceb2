import OktaScim.Doubles
import OktaScim.Patterns

/-!
The filter and paging parameters of a list request, from `scim-filter.util.ts`.
-/
namespace OktaScim.ScimFilter

open Patterns

structure ParsedFilter : Type where
  attributeName : String
  value : String
deriving DecidableEq

structure Pagination : Type where
  startIndex : ℚ
  count : ℚ

/-- `Math.max(pagination.startIndex - 1, 0)` -/
def Pagination.skip (pagination : Pagination) : ℚ := max (Doubles.sub pagination.startIndex 1) 0

/-- `\w` -/
def isWord (c : Char) : Bool := c.isAlphanum || c == '_'

/-- `\s` -/
def isSpace (c : Char) : Bool :=
  [0x9, 0xa, 0xb, 0xc, 0xd, 0x20, 0xa0, 0x1680, 0x2028, 0x2029, 0x202f, 0x205f, 0x3000,
    0xfeff].contains c.toNat || (0x2000 ≤ c.toNat && c.toNat ≤ 0x200a)

/-- `.` stands for everything but a line terminator. -/
def isDot (c : Char) : Bool := !([0xa, 0xd, 0x2028, 0x2029].contains c.toNat)

def isQuote (c : Char) : Bool := c == '"'

/-- `(\w+(?:\.\w+)?)\s+eq\s+"(.*)"$`, which is only tried at the start of the text. -/
def eqFilter : Pattern :=
  .seq (.group (.seq (.plus isWord) (.opt (.seq (.char (· == '.')) (.plus isWord)))))
    (.seq (.plus isSpace) (.seq (.word ['e', 'q']) (.seq (.plus isSpace)
      (.seq (.char isQuote) (.seq (.group (.star isDot)) (.seq (.char isQuote) .eol))))))

def parseEqFilter (filter : Option String) : Option ParsedFilter :=
  match filter with
  | none => none
  | some f =>
    if f = "" then none
    else
      match eqFilter.matchFront f.toList with
      | some [name, value] => some ⟨String.ofList name, String.ofList value⟩
      | _ => none

example : parseEqFilter (some "userName eq \"a\" or userName eq \"b\"") =
    some ⟨"userName", "a\" or userName eq \"b"⟩ := by decide

end OktaScim.ScimFilter
