import Mathlib.Data.List.Basic
import Mathlib.Data.Nat.Notation

/-!
Markup and the elements that it is read as: the tokenizer of HTML for text, the
four references of escaped text, tags in small letters and attributes in double
quotes, and the tree of elements, where a line feed right behind the tag of a
`pre` is dropped. Anything else is no markup here. What becomes of carriage
returns and of NUL within a text is not looked into.
-/
namespace OktaScim.Markup

section Elements

structure Tag : Type where
  name : List Char
  attributes : List (List Char × List Char)
deriving DecidableEq

inductive Node : Type
  | char (c : Char)
  | element (tag : Tag) (children : List Node)

/-- The nodes of a text. -/
def textNodes (cs : List Char) : List Node := cs.map .char

/-- Elements that have no end tag. -/
def isVoid (name : List Char) : Bool := name == "br".toList

def dropLineFeed : List Char → List Char
  | '\n' :: cs => cs
  | cs => cs

/-- A line feed right behind `<pre>` is ignored. -/
def content (name : List Char) : List Node → List Node
  | .char '\n' :: nodes => if name == "pre".toList then nodes else .char '\n' :: nodes
  | nodes => nodes

theorem content_of_ne {name : List Char} (h : (name == "pre".toList) = false)
    (nodes : List Node) : content name nodes = nodes := by
  unfold content
  split
  · rw [h, if_neg Bool.false_ne_true]
  · rfl

theorem content_pre (cs : List Char) :
    content "pre".toList (textNodes cs) = textNodes (dropLineFeed cs) := by
  unfold dropLineFeed
  split
  · rfl
  · rename_i hfirst
    cases cs with
    | nil => rfl
    | cons c cs =>
      unfold content textNodes
      split
      · rename_i heq
        simp only [List.map_cons, List.cons.injEq, Node.char.injEq] at heq
        exact absurd (by rw [heq.1]) (hfirst cs)
      · rfl

end Elements

section Tokens

inductive Token : Type
  | char (c : Char)
  | start (tag : Tag)
  | close (name : List Char)
deriving DecidableEq

/-- The states of the tokenizer. -/
inductive State : Type
  | data
  | reference (name : List Char)
  | tagOpen
  | startName (name : List Char)
  | closeName (name : List Char)
  | beforeAttribute (tag : Tag)
  | attributeName (tag : Tag) (name : List Char)
  | beforeValue (tag : Tag) (name : List Char)
  | value (tag : Tag) (name value : List Char)
  | valueReference (tag : Tag) (name value reference : List Char)
  | afterValue (tag : Tag)
deriving DecidableEq

def named (reference : List Char) : Option Char :=
  if reference = "amp".toList then some '&'
  else if reference = "lt".toList then some '<'
  else if reference = "gt".toList then some '>'
  else if reference = "quot".toList then some '"'
  else none

def isName (c : Char) : Bool := c.isLower || c.isDigit || c == '-'

/-- One character, with the token that it completes. -/
def step : State → Char → Option (State × List Token)
  | .data, c =>
    if c = '<' then some (.tagOpen, [])
    else if c = '&' then some (.reference [], [])
    else some (.data, [.char c])
  | .reference name, c =>
    if c = ';' then (named name).map fun d => (.data, [.char d])
    else if c.isLower then some (.reference (name ++ [c]), [])
    else none
  | .tagOpen, c =>
    if c = '/' then some (.closeName [], [])
    else if c.isLower then some (.startName [c], [])
    else none
  | .startName name, c =>
    if c = '>' then some (.data, [.start ⟨name, []⟩])
    else if c = ' ' then some (.beforeAttribute ⟨name, []⟩, [])
    else if isName c then some (.startName (name ++ [c]), [])
    else none
  | .closeName name, c =>
    if c = '>' ∧ name ≠ [] then some (.data, [.close name])
    else if isName c then some (.closeName (name ++ [c]), [])
    else none
  | .beforeAttribute tag, c =>
    if c.isLower then some (.attributeName tag [c], []) else none
  | .attributeName tag name, c =>
    if c = '=' then some (.beforeValue tag name, [])
    else if isName c then some (.attributeName tag (name ++ [c]), [])
    else none
  | .beforeValue tag name, c =>
    if c = '"' then some (.value tag name [], []) else none
  | .value tag name value, c =>
    if c = '"' then some (.afterValue ⟨tag.name, tag.attributes ++ [(name, value)]⟩, [])
    else if c = '&' then some (.valueReference tag name value [], [])
    else some (.value tag name (value ++ [c]), [])
  | .valueReference tag name value reference, c =>
    if c = ';' then (named reference).map fun d => (.value tag name (value ++ [d]), [])
    else if c.isLower then some (.valueReference tag name value (reference ++ [c]), [])
    else none
  | .afterValue tag, c =>
    if c = '>' then some (.data, [.start tag])
    else if c = ' ' then some (.beforeAttribute tag, [])
    else none

def steps (s : State) : List Char → Option (State × List Token)
  | [] => some (s, [])
  | c :: cs =>
    match step s c with
    | none => none
    | some (s', tokens) => (steps s' cs).map fun r => (r.1, tokens ++ r.2)

theorem steps_append {s s' : State} {cs ds : List Char} {tokens : List Token}
    (h : steps s cs = some (s', tokens)) :
    steps s (cs ++ ds) = (steps s' ds).map fun r => (r.1, tokens ++ r.2) := by
  induction cs generalizing s tokens with
  | nil =>
    cases h
    simp
  | cons c cs ih =>
    simp only [steps] at h
    cases hstep : step s c with
    | none => simp [hstep] at h
    | some r =>
      obtain ⟨mid, first⟩ := r
      simp only [hstep, Option.map_eq_some_iff, Prod.mk.injEq] at h
      obtain ⟨⟨_, rest⟩, hrest, rfl, rfl⟩ := h
      simp only [List.cons_append, steps, hstep, ih hrest, Option.map_map]
      congr 1
      funext r
      simp

theorem steps_trans {s s' s'' : State} {cs ds : List Char} {tokens tokens' : List Token}
    (h : steps s cs = some (s', tokens)) (h' : steps s' ds = some (s'', tokens')) :
    steps s (cs ++ ds) = some (s'', tokens ++ tokens') := by
  rw [steps_append h, h']
  rfl

end Tokens

section Escapes

def escapeChar (c : Char) : List Char :=
  if c = '&' then "&amp;".toList
  else if c = '<' then "&lt;".toList
  else if c = '>' then "&gt;".toList
  else if c = '"' then "&quot;".toList
  else [c]

def escape (cs : List Char) : List Char := cs.flatMap escapeChar

/-- Text that no markup starts in. -/
def Plain (cs : List Char) : Prop := ∀ c ∈ cs, c ≠ '<' ∧ c ≠ '&'

instance (cs : List Char) : Decidable (Plain cs) :=
  decidable_of_iff (cs.all fun c => c != '<' && c != '&') (by simp [Plain])

theorem steps_escapeChar (c : Char) :
    steps .data (escapeChar c) = some (.data, [.char c]) := by
  unfold escapeChar
  split_ifs with hand hlt hgt hquot
  · subst hand; rfl
  · subst hlt; rfl
  · subst hgt; rfl
  · subst hquot; rfl
  · simp [steps, step, hand, hlt]

/-- Escaped text is read as the text. -/
theorem steps_escape (cs : List Char) :
    steps .data (escape cs) = some (.data, cs.map .char) := by
  induction cs with
  | nil => rfl
  | cons c cs ih => exact steps_trans (steps_escapeChar c) ih

theorem steps_plain {cs : List Char} (h : Plain cs) :
    steps .data cs = some (.data, cs.map .char) := by
  induction cs with
  | nil => rfl
  | cons c cs ih =>
    obtain ⟨hlt, hand⟩ := h c (List.mem_cons_self ..)
    have hrest := ih fun d hd => h d (List.mem_cons_of_mem c hd)
    simp [steps, step, hlt, hand, hrest]

theorem steps_value_escapeChar (tag : Tag) (name value : List Char) (c : Char) :
    steps (.value tag name value) (escapeChar c) = some (.value tag name (value ++ [c]), []) := by
  unfold escapeChar
  split_ifs with hand hlt hgt hquot
  · subst hand; rfl
  · subst hlt; rfl
  · subst hgt; rfl
  · subst hquot; rfl
  · simp [steps, step, hand, hquot]

/-- Escaped text within a value is the value, and does not end it. -/
theorem steps_value_escape (tag : Tag) (name value cs : List Char) :
    steps (.value tag name value) (escape cs) = some (.value tag name (value ++ cs), []) := by
  induction cs generalizing value with
  | nil => simp [escape, steps]
  | cons c cs ih =>
    have hrest := ih (value ++ [c])
    rw [List.append_assoc, List.singleton_append] at hrest
    exact steps_trans (steps_value_escapeChar tag name value c) hrest

end Escapes

section Trees

/-- The elements that are open, each with the nodes before it. -/
def build : List Token → List Node → List (Tag × List Node) → Option (List Node)
  | [], nodes, [] => some nodes
  | [], _, _ :: _ => none
  | .char c :: tokens, nodes, frames => build tokens (nodes ++ [.char c]) frames
  | .start tag :: tokens, nodes, frames =>
    if isVoid tag.name then build tokens (nodes ++ [.element tag []]) frames
    else build tokens [] ((tag, nodes) :: frames)
  | .close name :: tokens, nodes, (tag, before) :: frames =>
    if name = tag.name then
      build tokens (before ++ [.element tag (content tag.name nodes)]) frames
    else none
  | .close _ :: _, _, [] => none

/-- The nodes that the markup is read as. -/
def read (cs : List Char) : Option (List Node) :=
  match steps .data cs with
  | some (.data, tokens) => build tokens [] []
  | _ => none

/-- Wherever it stands, the markup is read as these nodes and nothing else. -/
structure Reads (cs : List Char) (nodes : List Node) : Prop where
  tokens : ∃ tokens, steps .data cs = some (.data, tokens) ∧
    ∀ rest before frames, build (tokens ++ rest) before frames = build rest (before ++ nodes) frames

theorem Reads.read {cs : List Char} {nodes : List Node} (h : Reads cs nodes) :
    read cs = some nodes := by
  obtain ⟨tokens, hsteps, hbuild⟩ := h.tokens
  have hall := hbuild [] [] []
  rw [List.append_nil, List.nil_append] at hall
  simp only [Markup.read, hsteps, hall, build]

theorem Reads.nil : Reads [] [] := ⟨⟨[], rfl, fun _ _ _ => by simp⟩⟩

theorem Reads.append {cs ds : List Char} {nodes nodes' : List Node} (h : Reads cs nodes)
    (h' : Reads ds nodes') : Reads (cs ++ ds) (nodes ++ nodes') := by
  obtain ⟨tokens, hsteps, hbuild⟩ := h.tokens
  obtain ⟨tokens', hsteps', hbuild'⟩ := h'.tokens
  refine ⟨⟨tokens ++ tokens', steps_trans hsteps hsteps', fun rest before frames => ?_⟩⟩
  rw [List.append_assoc, hbuild, hbuild', List.append_assoc]

theorem build_text (cs : List Char) (rest : List Token) (before : List Node)
    (frames : List (Tag × List Node)) :
    build (cs.map .char ++ rest) before frames = build rest (before ++ textNodes cs) frames := by
  induction cs generalizing before with
  | nil => simp [textNodes]
  | cons c cs ih => simp [build, ih, textNodes]

example : (read "a&lt;<b>c</b>".toList).isSome = true := by decide

theorem reads_escape (cs : List Char) : Reads (escape cs) (textNodes cs) :=
  ⟨⟨cs.map .char, steps_escape cs, build_text cs⟩⟩

theorem reads_plain {cs : List Char} (h : Plain cs) : Reads cs (textNodes cs) :=
  ⟨⟨cs.map .char, steps_plain h, build_text cs⟩⟩

/-- An element between its tags. -/
theorem reads_element (tag : Tag) {first body last : List Char} {nodes : List Node}
    (hfirst : steps .data first = some (.data, [.start tag])) (hbody : Reads body nodes)
    (hlast : steps .data last = some (.data, [.close tag.name]))
    (hvoid : isVoid tag.name = false) :
    Reads (first ++ body ++ last) [.element tag (content tag.name nodes)] := by
  obtain ⟨tokens, hsteps, hbuild⟩ := hbody.tokens
  refine ⟨⟨[.start tag] ++ tokens ++ [.close tag.name],
    steps_trans (steps_trans hfirst hsteps) hlast, fun rest before frames => ?_⟩⟩
  simp [build, hvoid, hbuild]

/-- Every element but `<pre>` keeps all that it holds. -/
theorem reads_kept (tag : Tag) {first body last : List Char} {nodes : List Node}
    (hfirst : steps .data first = some (.data, [.start tag])) (hbody : Reads body nodes)
    (hlast : steps .data last = some (.data, [.close tag.name]))
    (hkept : (isVoid tag.name || tag.name == "pre".toList) = false) :
    Reads (first ++ body ++ last) [.element tag nodes] := by
  obtain ⟨hvoid, hpre⟩ := Bool.or_eq_false_iff.mp hkept
  have hread := reads_element tag hfirst hbody hlast hvoid
  rwa [content_of_ne hpre] at hread

theorem reads_void (tag : Tag) {cs : List Char}
    (h : steps .data cs = some (.data, [.start tag])) (hvoid : isVoid tag.name = true) :
    Reads cs [.element tag []] :=
  ⟨⟨[.start tag], h, fun rest before frames => by simp [build, hvoid]⟩⟩

/-- Pieces of markup one after the other. -/
theorem reads_flatMap {α : Type} {cs : α → List Char} {nodes : α → List Node} (l : List α)
    (h : ∀ a ∈ l, Reads (cs a) (nodes a)) : Reads (l.flatMap cs) (l.flatMap nodes) := by
  induction l with
  | nil => exact .nil
  | cons a l ih =>
    rw [List.flatMap_cons, List.flatMap_cons]
    exact (h a (List.mem_cons_self ..)).append (ih fun b hb => h b (List.mem_cons_of_mem a hb))

/-- A start tag whose last value is an escaped text behind a fixed one. -/
theorem steps_escaped_value (tag : Tag) (name before : List Char) {first last value : List Char}
    (hfirst : steps .data first = some (.value tag name before, []))
    (hlast : ∀ value, steps (.value tag name value) last =
      some (.data, [.start ⟨tag.name, tag.attributes ++ [(name, value)]⟩])) :
    steps .data (first ++ escape value ++ last) =
      some (.data, [.start ⟨tag.name, tag.attributes ++ [(name, before ++ value)]⟩]) := by
  have hvalue := steps_trans hfirst (steps_value_escape tag name before value)
  exact steps_trans hvalue (hlast _)

end Trees

end OktaScim.Markup
