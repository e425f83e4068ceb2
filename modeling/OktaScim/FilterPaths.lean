import OktaScim.GroupPatch

/-!
The paths of removals that select one member, and the id that is extracted
from them. The text is searched for the filter, and a filter that fills the
whole text is the only one a search can find there.
-/
namespace OktaScim.FilterPaths

open Patterns Pattern JsValues GroupPatch

/-- `members[value eq "` -/
def opening : List Char := "members[value eq \"".toList

/-- `"]` -/
def closing : List Char := ['"', ']']

/-- The filter is found in a text that spells the opening up to letter case, an
id without quotes and the closing. -/
theorem memberFilter_matches_iff (cs rest : List Char) (r : List (List Char)) :
    Matches memberFilter cs rest r ↔
      ∃ w id v, w.map Char.toLower = opening.map Char.toLower ∧ id ≠ [] ∧ '"' ∉ id ∧
        v.map Char.toLower = closing.map Char.toLower ∧ cs = w ++ (id ++ (v ++ rest)) ∧
        r = [id] := by
  unfold memberFilter
  simp only [matches_seq_iff, matches_word_iff]
  constructor
  · intro hparts
    obtain ⟨mid, _, _, ⟨rfl, w, hw, rfl⟩,
      ⟨mid', c₁, _, hgroup, ⟨rfl, v, hv, rfl⟩, rfl⟩, rfl⟩ := hparts
    cases hgroup with
    | group hplus =>
      obtain ⟨rfl, id, hne, hid, rfl⟩ := (matches_plus_iff _ _ _ _).mp hplus
      refine ⟨w, id, v, hw, hne, ?_, hv, rfl, by simp⟩
      intro hquote
      simpa using hid '"' hquote
  · intro hparts
    obtain ⟨w, id, v, hw, hne, hid, hv, rfl, rfl⟩ := hparts
    refine ⟨_, [], [id], ⟨rfl, w, hw, rfl⟩, ⟨v ++ rest, [id], [], ?_, ⟨rfl, v, hv, rfl⟩, rfl⟩, rfl⟩
    refine (matches_group_iff _ id (v ++ rest) [id]).mpr ⟨[], ?_, rfl⟩
    refine (matches_plus_iff _ _ _ _).mpr ⟨rfl, id, hne, ?_, rfl⟩
    intro c hc
    have hcq : c ≠ '"' := fun heq => hid (heq ▸ hc)
    simpa using hcq

section Forms

/-- The text `members[value eq "id"]`, with its words in any letter case. -/
def IsMemberForm (cs id : List Char) : Prop :=
  ∃ m v e, m.map Char.toLower = "members".toList ∧ v.map Char.toLower = "value".toList ∧
    e.map Char.toLower = "eq".toList ∧ id ≠ [] ∧ '"' ∉ id ∧
    cs = m ++ '[' :: (v ++ ' ' :: (e ++ ' ' :: '"' :: (id ++ ['"', ']'])))

/-- A text that spells the opening consists of its words and marks. -/
theorem opening_words {w : List Char} (h : w.map Char.toLower = opening.map Char.toLower) :
    ∃ m v e, m.map Char.toLower = "members".toList ∧ v.map Char.toLower = "value".toList ∧
      e.map Char.toLower = "eq".toList ∧ w = m ++ '[' :: (v ++ ' ' :: (e ++ [' ', '"'])) := by
  have hopening : opening.map Char.toLower =
      "members".toList ++ '[' :: ("value".toList ++ ' ' :: ("eq".toList ++ [' ', '"'])) := by decide
  rw [hopening, List.map_eq_append_iff] at h
  obtain ⟨m, w₁, rfl, hm, h⟩ := h
  obtain ⟨c₁, w₂, rfl, hc₁, h⟩ := List.map_eq_cons_iff.mp h
  obtain ⟨v, w₃, rfl, hv, h⟩ := List.map_eq_append_iff.mp h
  obtain ⟨c₂, w₄, rfl, hc₂, h⟩ := List.map_eq_cons_iff.mp h
  obtain ⟨e, w₅, rfl, he, h⟩ := List.map_eq_append_iff.mp h
  obtain ⟨c₃, w₆, rfl, hc₃, h⟩ := List.map_eq_cons_iff.mp h
  obtain ⟨c₄, w₇, rfl, hc₄, h⟩ := List.map_eq_cons_iff.mp h
  cases List.map_eq_nil_iff.mp h
  rw [eq_of_toLower_eq hc₁ (by decide), eq_of_toLower_eq hc₂ (by decide),
    eq_of_toLower_eq hc₃ (by decide), eq_of_toLower_eq hc₄ (by decide)]
  exact ⟨m, v, e, hm, hv, he, rfl⟩

theorem closing_mark {v : List Char} (h : v.map Char.toLower = closing.map Char.toLower) :
    v = ['"', ']'] := by
  have hclosing : closing.map Char.toLower = ['"', ']'] := by decide
  rw [hclosing] at h
  obtain ⟨q, v₁, rfl, hq, h⟩ := List.map_eq_cons_iff.mp h
  obtain ⟨c, v₂, rfl, hc, h⟩ := List.map_eq_cons_iff.mp h
  cases List.map_eq_nil_iff.mp h
  rw [eq_of_toLower_eq hq (by decide), eq_of_toLower_eq hc (by decide)]

/-- The filter matches exactly the form. -/
theorem memberFilter_form_iff (cs rest : List Char) (r : List (List Char)) :
    Matches memberFilter cs rest r ↔
      ∃ form id, IsMemberForm form id ∧ cs = form ++ rest ∧ r = [id] := by
  rw [memberFilter_matches_iff]
  constructor
  · rintro ⟨w, id, v, hw, hne, hquote, hv, rfl, rfl⟩
    obtain ⟨m, v', e, hm, hv', he, rfl⟩ := opening_words hw
    rw [closing_mark hv]
    exact ⟨_, id, ⟨m, v', e, hm, hv', he, hne, hquote, rfl⟩, by simp, rfl⟩
  · rintro ⟨form, id, ⟨m, v, e, hm, hv, he, hne, hquote, rfl⟩, rfl, rfl⟩
    refine ⟨m ++ '[' :: (v ++ ' ' :: (e ++ [' ', '"'])), id, ['"', ']'], ?_, hne, hquote, rfl,
      by simp, rfl⟩
    simp only [List.map_append, List.map_cons, List.map_nil, hm, hv, he]
    decide

/-- The text before a quote is determined by the text around it. -/
theorem quote_unique {a b x y : List Char} (ha : '"' ∉ a) (hb : '"' ∉ b)
    (h : a ++ '"' :: x = b ++ '"' :: y) : a = b ∧ x = y := by
  have hclass : ∀ {l : List Char}, '"' ∉ l → ∀ c ∈ l, (c != '"') = true := by
    intro l hl c hc
    have hne : c ≠ '"' := fun heq => hl (heq ▸ hc)
    simpa using hne
  obtain ⟨hfront, hback⟩ := block_unique (hclass ha) (hclass hb) (by decide) (by decide) h
  exact ⟨hfront, (List.cons.inj hback).2⟩

/-- The quotes of a form stand right before and right behind the id. -/
theorem form_quotes {form id : List Char} (h : IsMemberForm form id) :
    ∃ w, w.length = 17 ∧ '"' ∉ w ∧ '"' ∉ id ∧ form = w ++ '"' :: (id ++ ['"', ']']) := by
  obtain ⟨m, v, e, hm, hv, he, _, hquote, rfl⟩ := h
  have hword : ∀ {cs word : List Char}, cs.map Char.toLower = word → '"' ∉ word → '"' ∉ cs := by
    intro cs word hcs hnot hmem
    have hlower : Char.toLower '"' ∈ word := hcs ▸ List.mem_map_of_mem hmem
    exact hnot hlower
  have hlen : m.length = 7 ∧ v.length = 5 ∧ e.length = 2 := by
    have hm' := congrArg List.length hm
    have hv' := congrArg List.length hv
    have he' := congrArg List.length he
    rw [List.length_map] at hm' hv' he'
    exact ⟨hm', hv', he'⟩
  refine ⟨m ++ '[' :: (v ++ ' ' :: (e ++ [' '])), ?_, ?_, hquote, by simp⟩
  · simp only [List.length_append, List.length_cons, List.length_nil, hlen]
  · have hnot := And.intro (hword hm (by decide)) (And.intro (hword hv (by decide))
      (hword he (by decide)))
    simp [hnot]

/-- A form that holds a form is that form. -/
theorem form_in_form {form id form' id' before behind : List Char} (h : IsMemberForm form id)
    (h' : IsMemberForm form' id') (htext : form = before ++ (form' ++ behind)) :
    before = [] ∧ id = id' ∧ behind = [] := by
  obtain ⟨w, hlen, hw, hid, rfl⟩ := form_quotes h
  obtain ⟨w', hlen', hw', hid', rfl⟩ := form_quotes h'
  have hcount := congrArg (List.count '"') htext
  simp only [List.count_append, List.count_cons, List.count_nil,
    List.count_eq_zero_of_not_mem hw, List.count_eq_zero_of_not_mem hw',
    List.count_eq_zero_of_not_mem hid, List.count_eq_zero_of_not_mem hid'] at hcount
  have hbefore : '"' ∉ before := by
    apply List.count_eq_zero.mp
    simp at hcount
    omega
  have htext' : w ++ '"' :: (id ++ ['"', ']']) =
      (before ++ w') ++ '"' :: (id' ++ '"' :: ']' :: behind) := by simpa using htext
  have hnot : '"' ∉ before ++ w' := by
    rw [List.mem_append]
    exact fun hmem => hmem.elim hbefore hw'
  have hfront := quote_unique hw hnot htext'
  have hback := quote_unique hid hid' hfront.2
  have hlength := congrArg List.length hfront.1
  rw [List.length_append] at hlength
  refine ⟨List.length_eq_zero_iff.mp (by omega), hback.1, ?_⟩
  exact (List.cons.inj hback.2).2.symm

end Forms

section Extraction

/-- An id is extracted where the path holds a form with it. -/
theorem extract_form {path id : String} (h : extractMemberIdFromFilterPath path = some id) :
    ∃ before form behind, path.toList = before ++ (form ++ behind) ∧
      IsMemberForm form id.toList := by
  unfold extractMemberIdFromFilterPath at h
  split at h
  · rename_i cs hsearch
    obtain ⟨before, suf, behind, hpath, hmatch⟩ := search_sound hsearch
    obtain ⟨form, id', hform, rfl, hcs⟩ := (memberFilter_form_iff _ _ _).mp hmatch
    cases hcs
    cases h
    refine ⟨before, form, behind, hpath, ?_⟩
    rwa [String.toList_ofList]
  · contradiction

/-- Wherever a path holds a form, some id is extracted. -/
theorem extract_of_form {path : String} {before form id behind : List Char}
    (hpath : path.toList = before ++ (form ++ behind)) (hform : IsMemberForm form id) :
    ∃ id', extractMemberIdFromFilterPath path = some id' := by
  have hmatch : Matches memberFilter (form ++ behind) behind [id] :=
    (memberFilter_form_iff _ _ _).mpr ⟨form, id, hform, rfl, rfl⟩
  obtain ⟨r, hr⟩ := search_complete hmatch before
  obtain ⟨_, suf, rest, _, hfound⟩ := search_sound hr
  obtain ⟨_, id', _, _, rfl⟩ := (memberFilter_form_iff _ _ _).mp hfound
  rw [← hpath] at hr
  exact ⟨String.ofList id', by rw [extractMemberIdFromFilterPath, hr]⟩

/-- From a path that is a form as a whole, the id of the form is extracted. -/
theorem extract_whole {path id : String} (h : IsMemberForm path.toList id.toList) :
    extractMemberIdFromFilterPath path = some id := by
  have hwhole : path.toList = [] ++ (path.toList ++ []) := by simp
  obtain ⟨id', hid'⟩ := extract_of_form hwhole h
  obtain ⟨before, form, behind, hpath, hform⟩ := extract_form hid'
  obtain ⟨_, hsame, _⟩ := form_in_form h hform hpath
  rw [hid', String.toList_injective hsame]

/-- The path of the filter that selects the member `id`. -/
def memberPath (id : String) : String := "members[value eq \"" ++ id ++ "\"]"

theorem toList_between (a id b : String) :
    (a ++ id ++ b).toList = a.toList ++ (id.toList ++ b.toList) := by
  rw [String.toList_append, String.toList_append, List.append_assoc]

theorem memberPath_toList (id : String) :
    (memberPath id).toList = opening ++ (id.toList ++ (closing ++ [])) :=
  toList_between "members[value eq \"" id "\"]"

theorem memberPath_form {id : String} (hne : id ≠ "") (hquote : '"' ∉ id.toList) :
    IsMemberForm (memberPath id).toList id.toList := by
  refine ⟨"members".toList, "value".toList, "eq".toList, by decide, by decide, by decide,
    by simpa using hne, hquote, ?_⟩
  rw [memberPath_toList, List.append_nil]
  rfl

/-- The id is extracted from the path that selects it. -/
theorem extract_memberPath {id : String} (hne : id ≠ "") (hquote : '"' ∉ id.toList) :
    extractMemberIdFromFilterPath (memberPath id) = some id :=
  extract_whole (memberPath_form hne hquote)

/-- An extracted id is a part of its path, between an opening and a closing. -/
theorem extract_sound {path id : String} (h : extractMemberIdFromFilterPath path = some id) :
    id ≠ "" ∧ '"' ∉ id.toList ∧ id.toList <:+: path.toList := by
  obtain ⟨before, form, behind, hpath, m, v, e, _, _, _, hne, hquote, rfl⟩ := extract_form h
  refine ⟨by simpa using hne, hquote, ?_⟩
  rw [hpath]
  exact ⟨before ++ (m ++ '[' :: (v ++ ' ' :: (e ++ [' ', '"']))), ['"', ']'] ++ behind, by simp⟩

theorem extract_memberPath_iff (id : String) :
    extractMemberIdFromFilterPath (memberPath id) = some id ↔ id ≠ "" ∧ '"' ∉ id.toList := by
  constructor
  · intro h
    obtain ⟨hne, hquote, _⟩ := extract_sound h
    exact ⟨hne, hquote⟩
  · rintro ⟨hne, hquote⟩
    exact extract_memberPath hne hquote

/-- The path has the word `members` somewhere, in any letter case. -/
def SpellsMembers (path : String) : Prop :=
  ∃ pre word post, path.toList = pre ++ (word ++ post) ∧
    word.map Char.toLower = "members".toList

/-- No id is extracted from a path without the word `members`. -/
theorem extract_eq_none {path : String} (h : ¬SpellsMembers path) :
    extractMemberIdFromFilterPath path = none := by
  rw [Option.eq_none_iff_forall_ne_some]
  intro id hid
  obtain ⟨before, form, behind, hpath, m, v, e, hm, _, _, _, _, rfl⟩ := extract_form hid
  refine h ⟨before, m, '[' :: (v ++ ' ' :: (e ++ ' ' :: '"' ::
    (id.toList ++ ['"', ']'] ++ behind))), ?_, hm⟩
  rw [hpath]
  simp

end Extraction

end OktaScim.FilterPaths
