import Mathlib.Algebra.Order.Field.Rat
import Mathlib.Algebra.Field.Rat
import Mathlib.Data.List.Infix

/-!
The filter language of RFC 7644: its syntax trees, the texts that are read as
them, and their meaning for a resource, which is given by the values of its
attributes. Names of attributes and operators are in any letter case; a tree
holds them in lower case. The grammar does not settle how `and` and `or` nest,
so a text may be read as more than one tree.
-/
namespace OktaScim.FilterGrammar

inductive CompareOp : Type
  | eq
  | ne
  | co
  | sw
  | ew
  | gt
  | lt
  | ge
  | le

inductive Literal : Type
  | str (s : String)
  | num (q : ℚ)
  | bool (b : Bool)
  | null
deriving DecidableEq

structure AttrPath : Type where
  urn : Option String
  name : String
  sub : Option String
deriving DecidableEq

inductive Filter : Type
  | present (path : AttrPath)
  | compare (path : AttrPath) (op : CompareOp) (value : Literal)
  | and (left right : Filter)
  | or (left right : Filter)
  | not (filter : Filter)
  | element (path : AttrPath) (filter : Filter)

section Meaning

/-- The values of a resource's attributes, and the elements of its complex
ones with the values of their own attributes. -/
structure Resource : Type where
  values : AttrPath → List Literal
  elements : AttrPath → List (AttrPath → List Literal)

/-- The values are compared as the operator says, texts by their exact letters
(`caseExact`). -/
def CompareOp.holds : CompareOp → Literal → Literal → Bool
  | .eq, a, b => a == b
  | .ne, a, b => a != b
  | .co, .str a, .str b => decide (b.toList.IsInfix a.toList)
  | .sw, .str a, .str b => b.toList.isPrefixOf a.toList
  | .ew, .str a, .str b => b.toList.isSuffixOf a.toList
  | .gt, .str a, .str b => decide (b < a)
  | .lt, .str a, .str b => decide (a < b)
  | .ge, .str a, .str b => decide (b ≤ a)
  | .le, .str a, .str b => decide (a ≤ b)
  | .gt, .num a, .num b => decide (b < a)
  | .lt, .num a, .num b => decide (a < b)
  | .ge, .num a, .num b => decide (b ≤ a)
  | .le, .num a, .num b => decide (a ≤ b)
  | _, _, _ => false

def satisfies : Filter → Resource → Bool
  | .present path, r => (r.values path).any (· != .null)
  | .compare path op value, r => (r.values path).any fun v => op.holds v value
  | .and f g, r => satisfies f r && satisfies g r
  | .or f g, r => satisfies f r || satisfies g r
  | .not f, r => !satisfies f r
  | .element path f, r => (r.elements path).any fun e => satisfies f ⟨e, fun _ => []⟩

end Meaning

section Texts

def lower (cs : List Char) : String := String.ofList (cs.map Char.toLower)

/-- A keyword in any letter case. -/
def Keyword (w : String) (cs : List Char) : Prop := lower cs = w

def nameChar (c : Char) : Bool := c.isAlphanum || c == '-' || c == '_'

def IsName (cs : List Char) : Prop :=
  ∃ c rest, cs = c :: rest ∧ c.isAlpha = true ∧ ∀ d ∈ rest, nameChar d = true

def urnChar (c : Char) : Bool := 32 < c.toNat && !(['"', '(', ')', '[', ']', '\\'].contains c)

inductive PathText : List Char → AttrPath → Prop
  | name {n : List Char} : IsName n → PathText n ⟨none, lower n, none⟩
  | sub {n m : List Char} : IsName n → IsName m →
      PathText (n ++ '.' :: m) ⟨none, lower n, some (lower m)⟩
  | urn {u cs : List Char} {name : String} {sub : Option String} :
      u ≠ [] → (∀ c ∈ u, urnChar c = true) → PathText cs ⟨none, name, sub⟩ →
      PathText (u ++ ':' :: cs) ⟨some (lower u), name, sub⟩

def IsDigits (cs : List Char) : Prop := cs ≠ [] ∧ ∀ c ∈ cs, c.isDigit = true

def digitsValue (cs : List Char) : ℕ := cs.foldl (fun n c => 10 * n + (c.toNat - 48)) 0

/-- A fraction or nothing. -/
inductive FractionText : List Char → List Char → Prop
  | none : FractionText [] []
  | some {ds : List Char} : IsDigits ds → FractionText ('.' :: ds) ds

/-- An exponent or nothing. -/
inductive ExponentText : List Char → ℤ → Prop
  | none : ExponentText [] 0
  | plain {e : Char} {ds : List Char} : e.toLower = 'e' → IsDigits ds →
      ExponentText (e :: ds) (digitsValue ds)
  | plus {e : Char} {ds : List Char} : e.toLower = 'e' → IsDigits ds →
      ExponentText (e :: '+' :: ds) (digitsValue ds)
  | minus {e : Char} {ds : List Char} : e.toLower = 'e' → IsDigits ds →
      ExponentText (e :: '-' :: ds) (-digitsValue ds)

inductive NumberText : List Char → ℚ → Prop
  | positive {int frac ds exp : List Char} {k : ℤ} : IsDigits int →
      (int = ['0'] ∨ int.head? ≠ some '0') → FractionText frac ds → ExponentText exp k →
      NumberText (int ++ (frac ++ exp)) (digitsValue (int ++ ds) * 10 ^ (k - ds.length))
  | negative {cs : List Char} {q : ℚ} : NumberText cs q → cs.head? ≠ some '-' →
      NumberText ('-' :: cs) (-q)

def escapes : List (Char × Char) :=
  [('"', '"'), ('\\', '\\'), ('/', '/'), ('b', '\x08'), ('f', '\x0c'), ('n', '\n'), ('r', '\r'),
    ('t', '\t')]

def hexValue (cs : List Char) : ℕ :=
  cs.foldl (fun n c => 16 * n +
    (if c.isDigit then c.toNat - 48 else c.toLower.toNat - 87)) 0

def IsHex (cs : List Char) : Prop :=
  cs.length = 4 ∧ ∀ c ∈ cs, c.isDigit = true ∨ ('a' ≤ c.toLower ∧ c.toLower ≤ 'f')

/-- What stands between the quotes of a string, and the string. -/
inductive StringText : List Char → List Char → Prop
  | nil : StringText [] []
  | plain {c : Char} {cs s : List Char} : c ≠ '"' → c ≠ '\\' → 32 ≤ c.toNat →
      StringText cs s → StringText (c :: cs) (c :: s)
  | escape {c d : Char} {cs s : List Char} : (c, d) ∈ escapes →
      StringText cs s → StringText ('\\' :: c :: cs) (d :: s)
  | code {h cs s : List Char} : IsHex h → (hexValue h).isValidChar →
      StringText cs s → StringText ('\\' :: 'u' :: (h ++ cs)) (Char.ofNat (hexValue h) :: s)
  | pair {h l cs s : List Char} : IsHex h → IsHex l →
      0xd800 ≤ hexValue h → hexValue h < 0xdc00 → 0xdc00 ≤ hexValue l → hexValue l < 0xe000 →
      StringText cs s →
      StringText ('\\' :: 'u' :: (h ++ '\\' :: 'u' :: (l ++ cs)))
        (Char.ofNat (0x10000 + (hexValue h - 0xd800) * 0x400 + (hexValue l - 0xdc00)) :: s)

inductive LiteralText : List Char → Literal → Prop
  | str {cs s : List Char} : StringText cs s →
      LiteralText ('"' :: (cs ++ ['"'])) (.str (String.ofList s))
  | num {cs : List Char} {q : ℚ} : NumberText cs q → LiteralText cs (.num q)
  | true : LiteralText "true".toList (.bool true)
  | false : LiteralText "false".toList (.bool false)
  | null : LiteralText "null".toList .null

inductive OpText : List Char → CompareOp → Prop
  | eq {cs : List Char} : Keyword "eq" cs → OpText cs .eq
  | ne {cs : List Char} : Keyword "ne" cs → OpText cs .ne
  | co {cs : List Char} : Keyword "co" cs → OpText cs .co
  | sw {cs : List Char} : Keyword "sw" cs → OpText cs .sw
  | ew {cs : List Char} : Keyword "ew" cs → OpText cs .ew
  | gt {cs : List Char} : Keyword "gt" cs → OpText cs .gt
  | lt {cs : List Char} : Keyword "lt" cs → OpText cs .lt
  | ge {cs : List Char} : Keyword "ge" cs → OpText cs .ge
  | le {cs : List Char} : Keyword "le" cs → OpText cs .le

/-- The text is a well-formed filter that is read as the tree. -/
inductive Derives : List Char → Filter → Prop
  | present {p kw : List Char} {path : AttrPath} : PathText p path → Keyword "pr" kw →
      Derives (p ++ ' ' :: kw) (.present path)
  | compare {p o v : List Char} {path : AttrPath} {op : CompareOp} {value : Literal} :
      PathText p path → OpText o op → LiteralText v value →
      Derives (p ++ ' ' :: (o ++ ' ' :: v)) (.compare path op value)
  | and {l kw r : List Char} {f g : Filter} : Derives l f → Keyword "and" kw → Derives r g →
      Derives (l ++ ' ' :: (kw ++ ' ' :: r)) (.and f g)
  | or {l kw r : List Char} {f g : Filter} : Derives l f → Keyword "or" kw → Derives r g →
      Derives (l ++ ' ' :: (kw ++ ' ' :: r)) (.or f g)
  | not {kw gap cs : List Char} {f : Filter} : Keyword "not" kw → gap = [] ∨ gap = [' '] →
      Derives cs f → Derives (kw ++ (gap ++ '(' :: (cs ++ [')']))) (.not f)
  | group {cs : List Char} {f : Filter} : Derives cs f → Derives ('(' :: (cs ++ [')'])) f
  | element {p cs : List Char} {path : AttrPath} {f : Filter} : PathText p path → Derives cs f →
      Derives (p ++ '[' :: (cs ++ [']'])) (.element path f)

end Texts

/-- Every filter has a blank in it. -/
theorem space_mem_of_derives {cs : List Char} {f : Filter} (h : Derives cs f) : ' ' ∈ cs := by
  induction h with
  | present _ _ => simp
  | compare _ _ _ => simp
  | and _ _ _ _ _ => simp
  | or _ _ _ _ _ => simp
  | not _ _ _ ih => simp [ih]
  | group _ ih => simp [ih]
  | element _ _ ih => simp [ih]

/-- A text without quotes, backslashes and control characters stands for itself. -/
theorem stringText_self {v : List Char}
    (h : ∀ c ∈ v, c ≠ '"' ∧ c ≠ '\\' ∧ 32 ≤ c.toNat) : StringText v v := by
  induction v with
  | nil => exact .nil
  | cons c v ih =>
    obtain ⟨hquote, hback, hcontrol⟩ := h c (List.mem_cons_self ..)
    exact .plain hquote hback hcontrol (ih fun d hd => h d (List.mem_cons_of_mem c hd))

end OktaScim.FilterGrammar
