import OktaScim.ScimFilter

/-!
The texts that `parseEqFilter` accepts and what it makes of them. A text can be
split in one way only: the attribute ends at the first blank, the operator
stands between two runs of blanks, and the value runs up to the last quote.
-/
namespace OktaScim.EqFilterGrammar

open Patterns Pattern ScimFilter

/-- A word, or two words joined by a dot. -/
def IsAttribute (a : List Char) : Prop :=
  (a ≠ [] ∧ ∀ c ∈ a, isWord c = true) ∨
    ∃ x y, x ≠ [] ∧ (∀ c ∈ x, isWord c = true) ∧ y ≠ [] ∧ (∀ c ∈ y, isWord c = true) ∧
      a = x ++ '.' :: y

def IsBlank (w : List Char) : Prop := w ≠ [] ∧ ∀ c ∈ w, isSpace c = true

/-- `eq` in any letter case. -/
def IsEq (e : List Char) : Prop := e.map Char.toLower = ['e', 'q']

/-- A text without line terminators. -/
def IsLine (v : List Char) : Prop := ∀ c ∈ v, isDot c = true

/-- The parts of a filter text. -/
structure Splits (cs a w₁ e w₂ v : List Char) : Prop where
  name : IsAttribute a
  before : IsBlank w₁
  op : IsEq e
  behind : IsBlank w₂
  value : IsLine v
  text : cs = a ++ (w₁ ++ (e ++ (w₂ ++ '"' :: (v ++ ['"']))))

section Characters

theorem word_lt {c : Char} (h : isWord c = true) : c.toNat < 128 := by
  have hword : (((c.isUpper || c.isLower) || c.isDigit) || c == '_') = true := h
  have hle : ∀ last : UInt32, c.val ≤ last → c.toNat ≤ last.toNat :=
    fun last hlast => UInt32.le_iff_toNat_le.mp hlast
  simp only [Bool.or_eq_true, beq_iff_eq] at hword
  rcases hword with ((hupper | hlower) | hdigit) | rfl
  · have hrange : 'A'.val ≤ c.val ∧ c.val ≤ 'Z'.val := of_decide_eq_true hupper
    exact Nat.lt_of_le_of_lt (hle _ hrange.2) (by decide)
  · have hrange : (decide (97 ≤ c.val) && decide (c.val ≤ 122)) = true := hlower
    exact Nat.lt_of_le_of_lt (hle _ (of_decide_eq_true (Bool.and_eq_true_iff.mp hrange).2))
      (by decide)
  · have hrange : (decide (48 ≤ c.val) && decide (c.val ≤ 57)) = true := hdigit
    exact Nat.lt_of_le_of_lt (hle _ (of_decide_eq_true (Bool.and_eq_true_iff.mp hrange).2))
      (by decide)
  · decide

/-- No blank is a word character, the dot, a quote or the letter of the operator. -/
theorem space_cases {c : Char} (h : isSpace c = true) :
    isWord c = false ∧ c ≠ '.' ∧ c ≠ '"' ∧ c.toLower ≠ 'e' := by
  by_cases hlt : c.toNat < 128
  · have hall : ∀ k < 128, isSpace (Char.ofNat k) = true → isWord (Char.ofNat k) = false ∧
        Char.ofNat k ≠ '.' ∧ Char.ofNat k ≠ '"' ∧ (Char.ofNat k).toLower ≠ 'e' := by decide
    exact forall_char_lt (P := fun c => isSpace c = true →
      isWord c = false ∧ c ≠ '.' ∧ c ≠ '"' ∧ c.toLower ≠ 'e') 128 hall c hlt h
  · refine ⟨?_, ?_, ?_, ?_⟩
    · by_contra hword
      exact hlt (word_lt (by simpa using hword))
    · intro heq
      exact hlt (by rw [heq]; decide)
    · intro heq
      exact hlt (by rw [heq]; decide)
    · intro heq
      exact hlt (lt_of_toLower_lt (by rw [heq]; decide))

end Characters

section Splitting

theorem attribute_matches_iff (cs rest : List Char) (ca : List (List Char)) :
    Matches (.seq (.plus isWord) (.opt (.seq (.char (· == '.')) (.plus isWord)))) cs rest ca ↔
      ca = [] ∧ ∃ a, IsAttribute a ∧ cs = a ++ rest := by
  simp only [matches_seq_iff, matches_opt_iff, matches_plus_iff, matches_char_iff, beq_iff_eq]
  constructor
  · intro hparts
    obtain ⟨mid, c₁, c₂, ⟨rfl, x, hx, hword, rfl⟩, hrest, rfl⟩ := hparts
    rcases hrest with
      ⟨rfl, rfl⟩ | ⟨mid', d₁, d₂, ⟨rfl, c, rfl, rfl⟩, ⟨rfl, y, hy, hword', rfl⟩, rfl⟩
    · exact ⟨rfl, x, Or.inl ⟨hx, hword⟩, rfl⟩
    · exact ⟨rfl, x ++ '.' :: y, Or.inr ⟨x, y, hx, hword, hy, hword', rfl⟩, by simp⟩
  · intro hparts
    rcases hparts with ⟨rfl, a, ⟨hx, hword⟩ | ⟨x, y, hx, hword, hy, hword', rfl⟩, rfl⟩
    · exact ⟨rest, [], [], ⟨rfl, a, hx, hword, rfl⟩, Or.inl ⟨rfl, rfl⟩, rfl⟩
    · refine ⟨'.' :: (y ++ rest), [], [], ⟨rfl, x, hx, hword, by simp⟩, Or.inr ?_, rfl⟩
      exact ⟨y ++ rest, [], [], ⟨rfl, '.', rfl, rfl⟩, ⟨rfl, y, hy, hword', rfl⟩, rfl⟩

theorem eqFilter_matches_iff (cs rest : List Char) (r : List (List Char)) :
    Matches eqFilter cs rest r ↔
      ∃ a w₁ e w₂ v, Splits cs a w₁ e w₂ v ∧ rest = [] ∧ r = [a, v] := by
  constructor
  · intro h
    unfold eqFilter at h
    simp only [matches_seq_iff, matches_plus_iff, matches_char_iff, matches_word_iff,
      matches_eol_iff] at h
    obtain ⟨m₁, _, _, hname, ⟨m₂, _, _, ⟨rfl, w₁, hw₁, hs₁, rfl⟩, ⟨m₃, _, _, ⟨rfl, e, he, rfl⟩,
      ⟨m₄, _, _, ⟨rfl, w₂, hw₂, hs₂, rfl⟩, ⟨m₅, _, _, ⟨rfl, q, hq, rfl⟩, ⟨m₆, _, _, hvalue,
        ⟨_, _, _, ⟨rfl, q', hq', rfl⟩, ⟨rfl, rfl, rfl⟩, rfl⟩, rfl⟩, rfl⟩, rfl⟩, rfl⟩, rfl⟩,
      rfl⟩ := h
    have hquote : q = '"' := by simpa [isQuote] using hq
    have hquote' : q' = '"' := by simpa [isQuote] using hq'
    subst hquote hquote'
    cases hname with
    | group hname =>
      obtain ⟨rfl, a, ha, rfl⟩ := (attribute_matches_iff _ _ _).mp hname
      cases hvalue with
      | group hvalue =>
        obtain ⟨rfl, v, hv, rfl⟩ := (matches_star_iff _ _ _ _).mp hvalue
        exact ⟨a, w₁, e, w₂, v, ⟨ha, ⟨hw₁, hs₁⟩, by simpa [IsEq] using he, ⟨hw₂, hs₂⟩, hv, rfl⟩,
          rfl, by simp⟩
  · intro hparts
    obtain ⟨a, w₁, e, w₂, v, hsplit, rfl, rfl⟩ := hparts
    rw [hsplit.text]
    have hname := (matches_group_iff _ a (w₁ ++ (e ++ (w₂ ++ '"' :: (v ++ ['"'])))) [a]).mpr
      ⟨[], (attribute_matches_iff _ _ _).mpr ⟨rfl, a, hsplit.name, rfl⟩, rfl⟩
    have hvalue := (matches_group_iff (.star isDot) v ['"'] [v]).mpr
      ⟨[], (matches_star_iff _ _ _ _).mpr ⟨rfl, v, hsplit.value, rfl⟩, rfl⟩
    have hclose : Matches (.seq (.char isQuote) .eol) ['"'] [] [] :=
      .seq (.char [] rfl) .eol
    have hopen : Matches (.char isQuote) ('"' :: (v ++ ['"'])) (v ++ ['"']) [] := .char _ rfl
    have hblank₂ := (matches_plus_iff isSpace (w₂ ++ '"' :: (v ++ ['"'])) _ []).mpr
      ⟨rfl, w₂, hsplit.behind.1, hsplit.behind.2, rfl⟩
    have hop := (matches_word_iff ['e', 'q'] (e ++ (w₂ ++ '"' :: (v ++ ['"']))) _ []).mpr
      ⟨rfl, e, by simpa [IsEq] using hsplit.op, rfl⟩
    have hblank₁ := (matches_plus_iff isSpace (w₁ ++ (e ++ (w₂ ++ '"' :: (v ++ ['"'])))) _ []).mpr
      ⟨rfl, w₁, hsplit.before.1, hsplit.before.2, rfl⟩
    exact .seq hname (.seq hblank₁ (.seq hop (.seq hblank₂ (.seq hopen (.seq hvalue hclose)))))

theorem isEq_cases {e : List Char} (h : IsEq e) : ∃ x y, e = [x, y] ∧ isSpace x = false := by
  cases e with
  | nil => simp [IsEq] at h
  | cons x e =>
    cases e with
    | nil => simp [IsEq] at h
    | cons y e =>
      simp only [IsEq, List.map_cons, List.cons.injEq] at h
      obtain ⟨hx, _, he⟩ := h
      rw [List.map_eq_nil_iff.mp he]
      refine ⟨x, y, rfl, ?_⟩
      by_contra hspace
      exact (space_cases (by simpa using hspace)).2.2.2 hx

theorem attribute_class {a : List Char} (h : IsAttribute a) :
    ∀ c ∈ a, (isWord c || c == '.') = true := by
  rcases h with ⟨_, hword⟩ | ⟨x, y, _, hx, _, hy, rfl⟩
  · intro c hc
    rw [hword c hc, Bool.true_or]
  · intro c hc
    simp only [List.mem_append, List.mem_cons] at hc
    rcases hc with hc | rfl | hc
    · rw [hx c hc, Bool.true_or]
    · rfl
    · rw [hy c hc, Bool.true_or]

/-- A text splits in at most one way. -/
theorem splits_unique {cs a w₁ e w₂ v a' w₁' e' w₂' v' : List Char}
    (h : Splits cs a w₁ e w₂ v) (h' : Splits cs a' w₁' e' w₂' v') :
    a = a' ∧ w₁ = w₁' ∧ e = e' ∧ w₂ = w₂' ∧ v = v' := by
  have htext := h.text.symm.trans h'.text
  have hnotclass : ∀ {c : Char}, isSpace c = true → (isWord c || c == '.') = false := by
    intro c hc
    obtain ⟨hword, hdot, _⟩ := space_cases hc
    simp [hword, hdot]
  have hquote : isSpace '"' = false := by decide
  obtain ⟨c, x, hw₁⟩ := List.exists_cons_of_ne_nil h.before.1
  obtain ⟨c', x', hw₁'⟩ := List.exists_cons_of_ne_nil h'.before.1
  have hc : isSpace c = true := h.before.2 c (by simp [hw₁])
  have hc' : isSpace c' = true := h'.before.2 c' (by simp [hw₁'])
  obtain ⟨p, q, he, hp⟩ := isEq_cases h.op
  obtain ⟨p', q', he', hp'⟩ := isEq_cases h'.op
  have hname : a = a' ∧ w₁ ++ (e ++ (w₂ ++ '"' :: (v ++ ['"']))) =
      w₁' ++ (e' ++ (w₂' ++ '"' :: (v' ++ ['"']))) := by
    rw [hw₁, hw₁'] at htext ⊢
    exact block_unique (attribute_class h.name) (attribute_class h'.name) (hnotclass hc)
      (hnotclass hc') htext
  have hbefore : w₁ = w₁' ∧ e ++ (w₂ ++ '"' :: (v ++ ['"'])) =
      e' ++ (w₂' ++ '"' :: (v' ++ ['"'])) := by
    have hrest := hname.2
    rw [he, he'] at hrest ⊢
    exact block_unique h.before.2 h'.before.2 hp hp' hrest
  have hop := List.append_inj hbefore.2 (by rw [he, he']; rfl)
  have hbehind := block_unique h.behind.2 h'.behind.2 hquote hquote hop.2
  have hvalue : v ++ ['"'] = v' ++ ['"'] := (List.cons.inj hbehind.2).2
  exact ⟨hname.1, hbefore.1, hop.1, hbehind.1, List.append_cancel_right hvalue⟩

end Splitting

section Parsing

/-- A filter is parsed into the parts of its text. -/
theorem parseEqFilter_eq_some_iff {f n v : String} :
    parseEqFilter (some f) = some ⟨n, v⟩ ↔
      ∃ w₁ e w₂, Splits f.toList n.toList w₁ e w₂ v.toList := by
  have hne : ∀ {a w₁ e w₂ x : List Char}, Splits f.toList a w₁ e w₂ x → f ≠ "" := by
    intro a w₁ e w₂ x hsplit hempty
    have htext := hsplit.text
    rw [hempty] at htext
    simp at htext
  constructor
  · intro h
    simp only [parseEqFilter] at h
    split at h
    · contradiction
    · split at h
      · rename_i name value hfront
        obtain ⟨rest, hmatch⟩ := matchFront_sound hfront
        obtain ⟨a, w₁, e, w₂, x, hsplit, _, hr⟩ := (eqFilter_matches_iff _ _ _).mp hmatch
        simp only [List.cons.injEq, and_true] at hr
        simp only [Option.some.injEq, ParsedFilter.mk.injEq] at h
        refine ⟨w₁, e, w₂, ?_⟩
        rw [← h.1, ← h.2, String.toList_ofList, String.toList_ofList, hr.1, hr.2]
        exact hsplit
      · contradiction
  · intro hparts
    obtain ⟨w₁, e, w₂, hsplit⟩ := hparts
    have hmatch := (eqFilter_matches_iff f.toList [] [n.toList, v.toList]).mpr
      ⟨_, _, _, _, _, hsplit, rfl, rfl⟩
    obtain ⟨r, hr⟩ := matchFront_complete hmatch
    obtain ⟨rest, hother⟩ := matchFront_sound hr
    obtain ⟨a, w₁', e', w₂', x, hsplit', _, hreq⟩ := (eqFilter_matches_iff _ _ _).mp hother
    obtain ⟨ha, _, _, _, hx⟩ := splits_unique hsplit hsplit'
    rw [hreq, ← ha, ← hx] at hr
    simp only [parseEqFilter, if_neg (hne hsplit), hr]
    rw [String.ofList_toList, String.ofList_toList]

end Parsing

section Renderings

def rendering (a w₁ e w₂ v : String) : String := a ++ w₁ ++ e ++ w₂ ++ "\"" ++ v ++ "\""

/-- The text asks for the attribute `a` with the value `v`. -/
def Renders (s a v : String) : Prop :=
  ∃ w₁ e w₂, IsAttribute a.toList ∧ IsBlank w₁.toList ∧ IsEq e.toList ∧ IsBlank w₂.toList ∧
    IsLine v.toList ∧ s = rendering a w₁ e w₂ v

theorem rendering_toList (a w₁ e w₂ v : String) :
    (rendering a w₁ e w₂ v).toList =
      a.toList ++ (w₁.toList ++ (e.toList ++ (w₂.toList ++ '"' :: (v.toList ++ ['"'])))) := by
  have hquote : "\"".toList = ['"'] := rfl
  simp only [rendering, String.toList_append, hquote, List.append_assoc, List.cons_append,
    List.nil_append]

/-- A rendering is a text that splits into the attribute and the value. -/
theorem renders_iff_splits (s a v : String) :
    Renders s a v ↔ ∃ w₁ e w₂, Splits s.toList a.toList w₁ e w₂ v.toList := by
  constructor
  · intro h
    obtain ⟨w₁, e, w₂, hname, hbefore, hop, hbehind, hvalue, rfl⟩ := h
    exact ⟨w₁.toList, e.toList, w₂.toList, hname, hbefore, hop, hbehind, hvalue,
      rendering_toList a w₁ e w₂ v⟩
  · intro h
    obtain ⟨w₁, e, w₂, hsplit⟩ := h
    refine ⟨String.ofList w₁, String.ofList e, String.ofList w₂, hsplit.name, ?_, ?_, ?_,
      hsplit.value, ?_⟩
    · rw [String.toList_ofList]
      exact hsplit.before
    · rw [String.toList_ofList]
      exact hsplit.op
    · rw [String.toList_ofList]
      exact hsplit.behind
    · apply String.toList_injective
      rw [rendering_toList, String.toList_ofList, String.toList_ofList, String.toList_ofList]
      exact hsplit.text

/-- Every rendering is decoded, nothing else is, and no text renders two pairs. -/
theorem parseEqFilter_exact :
    (∀ a w₁ e w₂ v : String, IsAttribute a.toList → IsBlank w₁.toList → IsEq e.toList →
      IsBlank w₂.toList → IsLine v.toList →
      parseEqFilter (some (rendering a w₁ e w₂ v)) = some ⟨a, v⟩) ∧
    (∀ s a v : String, parseEqFilter (some s) = some ⟨a, v⟩ → Renders s a v) ∧
    ∀ s a v a' v' : String, Renders s a v → Renders s a' v' → a = a' ∧ v = v' := by
  refine ⟨?_, ?_, ?_⟩
  · intro a w₁ e w₂ v hname hbefore hop hbehind hvalue
    have hrenders : Renders (rendering a w₁ e w₂ v) a v :=
      ⟨w₁, e, w₂, hname, hbefore, hop, hbehind, hvalue, rfl⟩
    exact parseEqFilter_eq_some_iff.mpr ((renders_iff_splits _ a v).mp hrenders)
  · intro s a v h
    exact (renders_iff_splits s a v).mpr (parseEqFilter_eq_some_iff.mp h)
  · intro s a v a' v' h h'
    obtain ⟨w₁, e, w₂, hsplit⟩ := (renders_iff_splits s a v).mp h
    obtain ⟨w₁', e', w₂', hsplit'⟩ := (renders_iff_splits s a' v').mp h'
    obtain ⟨hname, _, _, _, hvalue⟩ := splits_unique hsplit hsplit'
    exact ⟨String.toList_injective hname, String.toList_injective hvalue⟩

/-- A value with quotation marks in it, behind blanks of two kinds. -/
theorem parseEqFilter_exact_sample :
    parseEqFilter (some "userName \t EQ \"a \"b\" c\"") = some ⟨"userName", "a \"b\" c"⟩ := by
  have hname : IsAttribute "userName".toList :=
    Or.inl ⟨List.cons_ne_nil _ _, List.all_eq_true.mp (by decide)⟩
  have hbefore : IsBlank " \t ".toList :=
    ⟨List.cons_ne_nil _ _, List.all_eq_true.mp (by decide)⟩
  have hop : IsEq "EQ".toList := rfl
  have hbehind : IsBlank " ".toList := ⟨List.cons_ne_nil _ _, List.all_eq_true.mp (by decide)⟩
  have hvalue : IsLine "a \"b\" c".toList := List.all_eq_true.mp (by decide)
  exact parseEqFilter_exact.1 _ _ _ _ _ hname hbefore hop hbehind hvalue

end Renderings

end OktaScim.EqFilterGrammar
