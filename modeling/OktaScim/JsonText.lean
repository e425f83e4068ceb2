import OktaScim.JsValues

/-!
`JSON.stringify` of a parsed value, without indentation, and what its text tells
of the value. Everything shows but the sign of zero and the difference between
null and a number that is not finite, since no text of a value is the beginning
of the text of another one.
-/
namespace OktaScim.JsonText

open JsValues

section Texts

def hexDigit (n : ℕ) : Char := "0123456789abcdef".toList.getD n '0'

def escapeChar (c : Char) : List Char :=
  if c = '"' then ['\\', '"']
  else if c = '\\' then ['\\', '\\']
  else if c = '\x08' then ['\\', 'b']
  else if c = '\t' then ['\\', 't']
  else if c = '\n' then ['\\', 'n']
  else if c = '\x0c' then ['\\', 'f']
  else if c = '\r' then ['\\', 'r']
  else if c.toNat < 32 then ['\\', 'u', '0', '0', hexDigit (c.toNat / 16), hexDigit (c.toNat % 16)]
  else [c]

def quote (s : String) : List Char := '"' :: s.toList.flatMap escapeChar ++ ['"']

def numberText : JsNumber → String
  | .infinite _ => "null"
  | n => n.toStr

def boolText (b : Bool) : String := if b then "true" else "false"

mutual

def text : Json → List Char
  | .null => "null".toList
  | .bool b => (boolText b).toList
  | .num n => (numberText n).toList
  | .str s => quote s
  | .arr items => '[' :: itemsText [] items ++ [']']
  | .obj fields => '\x7b' :: fieldsText [] fields ++ ['\x7d']

/-- The items, the first one after the given separator and the others after a comma. -/
def itemsText (separator : List Char) : List Json → List Char
  | [] => []
  | v :: items => separator ++ text v ++ itemsText [','] items

def fieldsText (separator : List Char) : List (String × Json) → List Char
  | [] => []
  | (k, v) :: fields => separator ++ quote k ++ ':' :: text v ++ fieldsText [','] fields

end

def stringify (v : Json) : String := String.ofList (text v)

example : stringify (.obj [("a", .arr [.str "x\"\n", .null]), ("b", .num (.finite true 0 0))]) =
    "\x7b\"a\":[\"x\\\"\\n\",null],\"b\":0\x7d" := by decide

end Texts

section Strings

/-- The first character of a quoted text, and what follows it. -/
def unescape : List Char → Option (Char × List Char)
  | '\\' :: 'u' :: '0' :: '0' :: a :: b :: cs =>
    some (Char.ofNat
      (16 * "0123456789abcdef".toList.idxOf a + "0123456789abcdef".toList.idxOf b), cs)
  | '\\' :: c :: cs =>
    some ((if c = 'b' then '\x08' else if c = 't' then '\t' else if c = 'n' then '\n'
      else if c = 'f' then '\x0c' else if c = 'r' then '\r' else c), cs)
  | c :: cs => some (c, cs)
  | [] => none

theorem unescape_escapeChar (c : Char) (cs : List Char) :
    unescape (escapeChar c ++ cs) = some (c, cs) := by
  unfold escapeChar
  split_ifs with hquote hback hb ht hn hf hr hcontrol
  · subst hquote; rfl
  · subst hback; rfl
  · subst hb; rfl
  · subst ht; rfl
  · subst hn; rfl
  · subst hf; rfl
  · subst hr; rfl
  · have hall : ∀ n < 32, 16 * "0123456789abcdef".toList.idxOf (hexDigit (n / 16)) +
        "0123456789abcdef".toList.idxOf (hexDigit (n % 16)) = n := by decide
    simp only [List.cons_append, List.nil_append, unescape]
    rw [hall _ hcontrol, Char.ofNat_toNat]
  · rw [List.singleton_append, unescape]
    · simp [hback]
    · simp [hback]

/-- An escaped text ends at its first quote. -/
theorem escaped_append_inj {s t r r' : List Char}
    (h : s.flatMap escapeChar ++ '"' :: r = t.flatMap escapeChar ++ '"' :: r') :
    s = t ∧ r = r' := by
  have hhead : ∀ (c : Char) (x y : List Char), '"' :: x ≠ escapeChar c ++ y := by
    intro c x y heq
    have hread : unescape ('"' :: x) = some (c, y) := by rw [heq, unescape_escapeChar]
    obtain ⟨rfl, rfl⟩ := Prod.mk.inj (Option.some_inj.mp hread)
    exact absurd heq (by simp [escapeChar])
  induction s generalizing t with
  | nil =>
    cases t with
    | nil => exact ⟨rfl, (List.cons.inj h).2⟩
    | cons d t =>
      rw [List.flatMap_cons, List.append_assoc] at h
      exact absurd h (hhead d _ _)
  | cons c s ih =>
    cases t with
    | nil =>
      rw [List.flatMap_cons, List.append_assoc] at h
      exact absurd h.symm (hhead c _ _)
    | cons d t =>
      rw [List.flatMap_cons, List.flatMap_cons, List.append_assoc, List.append_assoc] at h
      have hread := congrArg unescape h
      rw [unescape_escapeChar, unescape_escapeChar] at hread
      obtain ⟨rfl, hrest⟩ := Prod.mk.inj (Option.some_inj.mp hread)
      obtain ⟨rfl, hr⟩ := ih hrest
      exact ⟨rfl, hr⟩

theorem quote_append_inj {s t : String} {r r' : List Char} (h : quote s ++ r = quote t ++ r') :
    s = t ∧ r = r' := by
  simp only [quote, List.cons_append, List.append_assoc, List.nil_append, List.cons.injEq,
    true_and] at h
  obtain ⟨hs, hr⟩ := escaped_append_inj h
  exact ⟨String.toList_inj.mp hs, hr⟩

end Strings

section Numbers

/-- The characters of a text without quotes or brackets. -/
def isPlain (c : Char) : Bool := c.isAlphanum || c = '-' || c = '+' || c = '.'

def AllPlain (s : String) : Prop := ∀ c ∈ s.toList, isPlain c = true

theorem AllPlain.append {s t : String} (hs : AllPlain s) (ht : AllPlain t) : AllPlain (s ++ t) := by
  intro c hc
  rw [String.toList_append] at hc
  exact (List.mem_append.mp hc).elim (hs c) (ht c)

theorem allPlain_of_all {s : String} (h : s.toList.all isPlain = true) : AllPlain s :=
  List.all_eq_true.mp h

theorem allPlain_digits (n : ℕ) (cs : List Char)
    (h : cs ⊆ (Nat.digits 10 n).reverse.map Nat.digitChar) : AllPlain (String.ofList cs) := by
  intro c hc
  rw [String.toList_ofList] at hc
  obtain ⟨d, hd, rfl⟩ := List.mem_map.mp (h hc)
  have hall : ∀ d < 10, isPlain (Nat.digitChar d) = true := by decide
  exact hall d (Nat.digits_lt_base (by decide) (List.mem_reverse.mp hd))

theorem allPlain_zeros (n : ℕ) : AllPlain (JsNumber.zeros n) := by
  intro c hc
  rw [JsNumber.zeros, String.toList_ofList] at hc
  rw [List.eq_of_mem_replicate hc]
  decide

theorem allPlain_toString (n : ℕ) : AllPlain (toString n) := by
  intro c hc
  rw [Nat.toString_eq_ofList_toDigits, String.toList_ofList] at hc
  have hdigit := Nat.isDigit_of_mem_toDigits (by decide) (by decide) hc
  simp [isPlain, Char.isAlphanum, hdigit]

theorem allPlain_numberText (n : JsNumber) : AllPlain (numberText n) := by
  cases n with
  | infinite negative => exact allPlain_of_all (s := "null") (by decide)
  | finite negative digits point =>
    have hd := allPlain_digits digits
    have hsign : AllPlain (if negative = true ∧ digits ≠ 0 then "-" else "") := by
      split
      · exact allPlain_of_all (by decide)
      · exact allPlain_of_all (by decide)
    have hexponent : AllPlain ((if point - 1 < 0 then "e-" else "e+") ++
        toString (point - 1).natAbs) := by
      refine AllPlain.append ?_ (allPlain_toString _)
      split
      · exact allPlain_of_all (by decide)
      · exact allPlain_of_all (by decide)
    have hdot : AllPlain "." := allPlain_of_all (by decide)
    refine hsign.append ?_
    split_ifs
    · exact allPlain_of_all (by decide)
    · exact (hd _ (List.Subset.refl _)).append (allPlain_zeros _)
    · exact ((hd _ (List.take_subset ..)).append hdot).append (hd _ (List.drop_subset ..))
    · exact ((allPlain_of_all (by decide)).append (allPlain_zeros _)).append
        (hd _ (List.Subset.refl _))
    · exact (hd _ (List.Subset.refl _)).append hexponent
    · exact (((hd _ (List.take_subset ..)).append hdot).append (hd _ (List.drop_subset ..))).append
        hexponent

theorem numberText_ne_empty (n : JsNumber) : numberText n ≠ "" := by
  cases n with
  | infinite negative => exact fun h => absurd (congrArg String.toList h) (by simp [numberText])
  | finite negative digits point =>
    intro h
    have hbody := (List.append_eq_nil_iff.mp
      ((String.toList_append ..).symm.trans (congrArg String.toList h))).2
    revert hbody
    dsimp only
    by_cases hzero : digits = 0
    · simp [hzero]
    · rw [if_neg hzero]
      -- every other text has the digits or a point in it
      split
      · simp [Nat.digits_eq_nil_iff_eq_zero, hzero]
      split
      · simp
      split
      · simp
      split
      · simp [Nat.digits_eq_nil_iff_eq_zero, hzero]
      · simp

end Numbers


section Decoding

/-- The text of a value that has no quotes or brackets. -/
def plain : Json → Option String
  | .null => some "null"
  | .bool b => some (boolText b)
  | .num n => some (numberText n)
  | _ => none

mutual

/-- Equal but for what a text does not show. -/
def SameText : Json → Json → Prop
  | .null, w => plain w = some "null"
  | .bool b, w => plain w = some (boolText b)
  | .num n, w => plain w = some (numberText n)
  | .str s, w => w = .str s
  | .arr items, w => ∃ items', w = .arr items' ∧ SameItems items items'
  | .obj fields, w => ∃ fields', w = .obj fields' ∧ SameFields fields fields'

def SameItems : List Json → List Json → Prop
  | [], items' => items' = []
  | v :: items, items' => ∃ w rest, items' = w :: rest ∧ SameText v w ∧ SameItems items rest

def SameFields : List (String × Json) → List (String × Json) → Prop
  | [], fields' => fields' = []
  | (k, v) :: fields, fields' =>
    ∃ w rest, fields' = (k, w) :: rest ∧ SameText v w ∧ SameFields fields rest

end

/-- What can follow the text of a value. -/
def isDelimiter (c : Char) : Bool := c = ',' || c = ']' || c = '\x7d'

def Ends (r : List Char) : Prop := ∀ c ∈ r.head?, isDelimiter c = true

theorem delimiter_cases {c : Char} (h : isDelimiter c = true) :
    c = ',' ∨ c = ']' ∨ c = '\x7d' := by
  simpa [isDelimiter, or_assoc] using h

theorem plain_text {v : Json} {t : String} (h : plain v = some t) :
    text v = t.toList ∧ t ≠ "" ∧ AllPlain t := by
  cases v with
  | null =>
    obtain rfl := Option.some_inj.mp h
    exact ⟨rfl, by decide, allPlain_of_all (by decide)⟩
  | bool b =>
    obtain rfl := Option.some_inj.mp h
    cases b with
    | true => exact ⟨rfl, by decide, allPlain_of_all (by decide)⟩
    | false => exact ⟨rfl, by decide, allPlain_of_all (by decide)⟩
  | num n =>
    obtain rfl := Option.some_inj.mp h
    exact ⟨rfl, numberText_ne_empty n, allPlain_numberText n⟩
  | str s => contradiction
  | arr items => contradiction
  | obj fields => contradiction

theorem takeWhile_plain {cs r : List Char} (hcs : ∀ c ∈ cs, isPlain c = true) (hr : Ends r) :
    (cs ++ r).takeWhile isPlain = cs := by
  have hnone : r.takeWhile isPlain = [] := by
    cases r with
    | nil => rfl
    | cons c r =>
      refine List.takeWhile_cons_of_neg ?_
      obtain rfl | rfl | rfl := delimiter_cases (hr c rfl)
      · decide
      · decide
      · decide
  rw [List.takeWhile_append_of_pos hcs, hnone, List.append_nil]

/-- The first character of a text tells the kind of the value. -/
theorem text_first (v : Json) : ∃ c cs, text v = c :: cs ∧
    ((isPlain c = true ∧ ∃ t, plain v = some t) ∨ (c = '"' ∧ ∃ s, v = .str s) ∨
      (c = '[' ∧ ∃ items, v = .arr items) ∨ (c = '\x7b' ∧ ∃ fields, v = .obj fields)) := by
  have hplain : ∀ t, plain v = some t → ∃ c cs, text v = c :: cs ∧
      (isPlain c = true ∧ ∃ t, plain v = some t) := by
    intro t ht
    obtain ⟨htext, hne, hall⟩ := plain_text ht
    cases hcs : t.toList with
    | nil => exact absurd (String.toList_eq_nil_iff.mp hcs) hne
    | cons c cs => exact ⟨c, cs, by rw [htext, hcs], hall c (by simp [hcs]), t, ht⟩
  cases v with
  | null =>
    obtain ⟨c, cs, htext, hkind⟩ := hplain _ rfl
    exact ⟨c, cs, htext, .inl hkind⟩
  | bool b =>
    obtain ⟨c, cs, htext, hkind⟩ := hplain _ rfl
    exact ⟨c, cs, htext, .inl hkind⟩
  | num n =>
    obtain ⟨c, cs, htext, hkind⟩ := hplain _ rfl
    exact ⟨c, cs, htext, .inl hkind⟩
  | str s => exact ⟨_, _, rfl, .inr (.inl ⟨rfl, s, rfl⟩)⟩
  | arr items => exact ⟨_, _, rfl, .inr (.inr (.inl ⟨rfl, items, rfl⟩))⟩
  | obj fields => exact ⟨_, _, rfl, .inr (.inr (.inr ⟨rfl, fields, rfl⟩))⟩

theorem text_ne_delimiter (v : Json) {c : Char} {x r : List Char} (hc : isDelimiter c = true) :
    c :: x ≠ text v ++ r := by
  obtain ⟨d, cs, htext, hkind⟩ := text_first v
  rw [htext, List.cons_append]
  intro heq
  obtain ⟨rfl, -⟩ := List.cons.inj heq
  obtain rfl | rfl | rfl := delimiter_cases hc
  · simp [isPlain] at hkind
  · simp [isPlain] at hkind
  · simp [isPlain] at hkind

theorem plain_append_inj {v w : Json} {t : String} {r r' : List Char} (hv : plain v = some t)
    (hr : Ends r) (hr' : Ends r') (h : text v ++ r = text w ++ r') :
    plain w = some t ∧ r = r' := by
  obtain ⟨htext, hne, hall⟩ := plain_text hv
  obtain ⟨c, cs, hfirst, hkind⟩ := text_first v
  obtain ⟨d, ds, hw, hkind'⟩ := text_first w
  have hc : isPlain c = true := hall c (by rw [← htext, hfirst]; exact List.mem_cons_self)
  have hcd : c = d := by
    rw [hfirst, hw] at h
    exact (List.cons.inj h).1
  have hplain : ∃ u, plain w = some u := by
    obtain ⟨-, hu⟩ | ⟨hd, -⟩ | ⟨hd, -⟩ | ⟨hd, -⟩ := hkind'
    · exact hu
    · rw [hcd, hd] at hc
      contradiction
    · rw [hcd, hd] at hc
      contradiction
    · rw [hcd, hd] at hc
      contradiction
  obtain ⟨u, hu⟩ := hplain
  obtain ⟨hutext, -, huall⟩ := plain_text hu
  rw [htext, hutext] at h
  have htake := congrArg (List.takeWhile isPlain) h
  rw [takeWhile_plain hall hr, takeWhile_plain huall hr', String.toList_inj] at htake
  subst htake
  exact ⟨hu, List.append_cancel_left h⟩

/-- What follows the text of a value inside a list ends it. -/
theorem ends_of_cons {c : Char} {r : List Char} (hc : isDelimiter c = true) : Ends (c :: r) := by
  intro d hd
  rwa [← Option.some_inj.mp hd]

theorem ends_items (items : List Json) (r : List Char) :
    Ends (itemsText [','] items ++ ']' :: r) := by
  cases items with
  | nil => exact ends_of_cons (by decide)
  | cons v items => exact ends_of_cons (by decide)

theorem ends_fields (fields : List (String × Json)) (r : List Char) :
    Ends (fieldsText [','] fields ++ '\x7d' :: r) := by
  cases fields with
  | nil => exact ends_of_cons (by decide)
  | cons f fields => exact ends_of_cons (by decide)

theorem itemsText_ne_end {separator : List Char} (hsep : separator = [] ∨ separator = [','])
    (v : Json) (items : List Json) (r r' : List Char) :
    ']' :: r ≠ itemsText separator (v :: items) ++ r' := by
  rw [itemsText, List.append_assoc, List.append_assoc]
  obtain rfl | rfl := hsep
  · rw [List.nil_append]
    exact text_ne_delimiter v (by decide)
  · exact fun heq => absurd (List.cons.inj heq).1 (by decide)

theorem fieldsText_ne_end {separator : List Char} (hsep : separator = [] ∨ separator = [','])
    (f : String × Json) (fields : List (String × Json)) (r r' : List Char) :
    '\x7d' :: r ≠ fieldsText separator (f :: fields) ++ r' := by
  rw [fieldsText]
  obtain rfl | rfl := hsep
  · exact fun heq => absurd (List.cons.inj heq).1 (by decide)
  · exact fun heq => absurd (List.cons.inj heq).1 (by decide)

/-- A text that opens as one of a string, an array or an object is of this kind. -/
theorem kind_of_opening {w : Json} {c : Char} {x r : List Char} (h : c :: x = text w ++ r)
    (hc : isPlain c = false) :
    (c = '"' ∧ ∃ s, w = .str s) ∨ (c = '[' ∧ ∃ items, w = .arr items) ∨
      (c = '\x7b' ∧ ∃ fields, w = .obj fields) := by
  obtain ⟨d, cs, hw, hkind⟩ := text_first w
  rw [hw, List.cons_append] at h
  obtain rfl := (List.cons.inj h).1
  refine hkind.resolve_left ?_
  rintro ⟨hplain, -⟩
  rw [hc] at hplain
  contradiction

mutual

/-- A text is read back in one way, up to the end of the value. -/
theorem text_append_inj : ∀ (v w : Json) (r r' : List Char), Ends r → Ends r' →
    text v ++ r = text w ++ r' → SameText v w ∧ r = r'
  | .null, _, _, _, hr, hr', h => plain_append_inj rfl hr hr' h
  | .bool _, _, _, _, hr, hr', h => plain_append_inj rfl hr hr' h
  | .num _, _, _, _, hr, hr', h => plain_append_inj rfl hr hr' h
  | .str s, w, r, r', hr, hr', h => by
    obtain ⟨-, t, rfl⟩ | ⟨hd, -⟩ | ⟨hd, -⟩ := kind_of_opening h (by decide)
    · obtain ⟨rfl, hrest⟩ := quote_append_inj h
      exact ⟨rfl, hrest⟩
    · exact absurd hd (by decide)
    · exact absurd hd (by decide)
  | .arr items, w, r, r', hr, hr', h => by
    obtain ⟨hd, -⟩ | ⟨-, items', rfl⟩ | ⟨hd, -⟩ := kind_of_opening h (by decide)
    · exact absurd hd (by decide)
    · simp only [text, List.cons_append, List.append_assoc, List.nil_append, List.cons.injEq,
        true_and] at h
      obtain ⟨hitems, hrest⟩ := itemsText_append_inj items items' [] r r' (.inl rfl) h
      exact ⟨⟨items', rfl, hitems⟩, hrest⟩
    · exact absurd hd (by decide)
  | .obj fields, w, r, r', hr, hr', h => by
    obtain ⟨hd, -⟩ | ⟨hd, -⟩ | ⟨-, fields', rfl⟩ := kind_of_opening h (by decide)
    · exact absurd hd (by decide)
    · exact absurd hd (by decide)
    · simp only [text, List.cons_append, List.append_assoc, List.nil_append, List.cons.injEq,
        true_and] at h
      obtain ⟨hfields, hrest⟩ := fieldsText_append_inj fields fields' [] r r' (.inl rfl) h
      exact ⟨⟨fields', rfl, hfields⟩, hrest⟩

theorem itemsText_append_inj : ∀ (items items' : List Json) (separator r r' : List Char),
    separator = [] ∨ separator = [','] →
    itemsText separator items ++ ']' :: r = itemsText separator items' ++ ']' :: r' →
    SameItems items items' ∧ r = r'
  | [], [], _, _, _, _, h => ⟨rfl, (List.cons.inj h).2⟩
  | [], w :: items', _, _, _, hsep, h => absurd h (itemsText_ne_end hsep w items' _ _)
  | v :: items, [], _, _, _, hsep, h => absurd h.symm (itemsText_ne_end hsep v items _ _)
  | v :: items, w :: items', separator, r, r', _, h => by
    rw [itemsText, itemsText] at h
    simp only [List.append_assoc, List.append_cancel_left_eq] at h
    obtain ⟨hv, hrest⟩ := text_append_inj v w _ _ (ends_items items r) (ends_items items' r') h
    obtain ⟨hitems, hr⟩ := itemsText_append_inj items items' [','] r r' (.inr rfl) hrest
    exact ⟨⟨w, items', rfl, hv, hitems⟩, hr⟩

theorem fieldsText_append_inj : ∀ (fields fields' : List (String × Json))
    (separator r r' : List Char), separator = [] ∨ separator = [','] →
    fieldsText separator fields ++ '\x7d' :: r = fieldsText separator fields' ++ '\x7d' :: r' →
    SameFields fields fields' ∧ r = r'
  | [], [], _, _, _, _, h => ⟨rfl, (List.cons.inj h).2⟩
  | [], f :: fields', _, _, _, hsep, h => absurd h (fieldsText_ne_end hsep f fields' _ _)
  | f :: fields, [], _, _, _, hsep, h => absurd h.symm (fieldsText_ne_end hsep f fields _ _)
  | (k, v) :: fields, (l, w) :: fields', separator, r, r', _, h => by
    rw [fieldsText, fieldsText] at h
    simp only [List.append_assoc, List.append_cancel_left_eq, List.cons_append] at h
    obtain ⟨rfl, hvalues⟩ := quote_append_inj h
    obtain ⟨hv, hrest⟩ := text_append_inj v w _ _ (ends_fields fields r) (ends_fields fields' r')
      (List.cons.inj hvalues).2
    obtain ⟨hfields, hr⟩ := fieldsText_append_inj fields fields' [','] r r' (.inr rfl) hrest
    exact ⟨⟨w, fields', rfl, hv, hfields⟩, hr⟩

end

mutual

theorem text_congr : ∀ (v w : Json), SameText v w → text v = text w
  | .null, w, h => (plain_text h).1.symm
  | .bool _, w, h => (plain_text h).1.symm
  | .num _, w, h => (plain_text h).1.symm
  | .str _, _, h => by rw [h]
  | .arr items, _, ⟨items', hw, hitems⟩ => by
    rw [hw, text, text, itemsText_congr items items' [] hitems]
  | .obj fields, _, ⟨fields', hw, hfields⟩ => by
    rw [hw, text, text, fieldsText_congr fields fields' [] hfields]

theorem itemsText_congr : ∀ (items items' : List Json) (separator : List Char),
    SameItems items items' → itemsText separator items = itemsText separator items'
  | [], _, _, h => by rw [h]
  | v :: items, _, separator, ⟨w, rest, hitems, hv, hrest⟩ => by
    rw [hitems, itemsText, itemsText, text_congr v w hv, itemsText_congr items rest [','] hrest]

theorem fieldsText_congr : ∀ (fields fields' : List (String × Json)) (separator : List Char),
    SameFields fields fields' → fieldsText separator fields = fieldsText separator fields'
  | [], _, _, h => by rw [h]
  | (k, v) :: fields, _, separator, ⟨w, rest, hfields, hv, hrest⟩ => by
    rw [hfields, fieldsText, fieldsText, text_congr v w hv,
      fieldsText_congr fields rest [','] hrest]

end

theorem stringify_eq_iff (v w : Json) : stringify v = stringify w ↔ SameText v w := by
  rw [stringify, stringify, String.ofList_inj]
  constructor
  · intro h
    have hnil : Ends [] := fun c hc => absurd hc (by simp)
    exact (text_append_inj v w [] [] hnil hnil (by rw [h])).1
  · exact text_congr v w

end Decoding

end OktaScim.JsonText
