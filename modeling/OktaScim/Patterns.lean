import Mathlib.Data.List.Basic
import Mathlib.Data.Option.Basic
import Mathlib.Data.Nat.Notation

/-!
Regular expressions with captures under backtracking, for patterns whose
repetitions are over one-character classes. `run` is the executable matcher:
repetitions and optional parts are greedy, and the first alternative that lets
the rest succeed wins. `Matches` is the declarative reading without priorities.
A run that succeeds follows a match, and where there is a match a run succeeds.
-/
namespace OktaScim.Patterns

inductive Pattern : Type
  | empty
  | char (p : Char → Bool)
  | seq (a b : Pattern)
  | star (p : Char → Bool)
  | opt (a : Pattern)
  | group (a : Pattern)
  | eol

namespace Pattern

/-- One or more characters of a class. -/
def plus (p : Char → Bool) : Pattern := .seq (.char p) (.star p)

/-- The same character up to the case of a basic Latin letter. -/
def sameLetter (c d : Char) : Bool := c.toLower == d.toLower

/-- A literal text whose letters may be in either case. -/
def word : List Char → Pattern
  | [] => .empty
  | c :: cs => .seq (.char (sameLetter c)) (word cs)

def runStar (p : Char → Bool) : List Char → (List Char → Option (List (List Char))) →
    Option (List (List Char))
  | [], k => k []
  | c :: cs, k => if p c then (runStar p cs k).or (k (c :: cs)) else k (c :: cs)

/-- What a pattern captures from the front of the text, given what the rest of
the pattern makes of the text behind it. -/
def run : Pattern → List Char → (List Char → Option (List (List Char))) →
    Option (List (List Char))
  | .empty, cs, k => k cs
  | .char _, [], _ => none
  | .char p, c :: cs, k => if p c then k cs else none
  | .seq a b, cs, k => a.run cs (fun mid => b.run mid k)
  | .star p, cs, k => runStar p cs k
  | .opt a, cs, k => (a.run cs k).or (k cs)
  | .group a, cs, k =>
    a.run cs (fun rest => (k rest).map (cs.take (cs.length - rest.length) :: ·))
  | .eol, [], k => k []
  | .eol, _ :: _, _ => none

/-- The match at the very front of the text. -/
def matchFront (p : Pattern) (cs : List Char) : Option (List (List Char)) :=
  p.run cs (fun _ => some [])

/-- The match that starts first in the text. -/
def search (p : Pattern) : List Char → Option (List (List Char))
  | [] => p.matchFront []
  | c :: cs => (p.matchFront (c :: cs)).or (search p cs)

/-- The pattern can lead from the text `cs` to its suffix `rest`, with these captures. -/
inductive Matches : Pattern → List Char → List Char → List (List Char) → Prop
  | empty (rest : List Char) : Matches .empty rest rest []
  | char {p : Char → Bool} {c : Char} (rest : List Char) (h : p c = true) :
      Matches (.char p) (c :: rest) rest []
  | seq {a b : Pattern} {cs mid rest : List Char} {ca cb : List (List Char)} :
      Matches a cs mid ca → Matches b mid rest cb → Matches (.seq a b) cs rest (ca ++ cb)
  | starNil {p : Char → Bool} (rest : List Char) : Matches (.star p) rest rest []
  | starCons {p : Char → Bool} {c : Char} {cs rest : List Char} (h : p c = true) :
      Matches (.star p) cs rest [] → Matches (.star p) (c :: cs) rest []
  | optNone {a : Pattern} (rest : List Char) : Matches (.opt a) rest rest []
  | optSome {a : Pattern} {cs rest : List Char} {ca : List (List Char)} :
      Matches a cs rest ca → Matches (.opt a) cs rest ca
  | group {a : Pattern} {cs rest : List Char} {ca : List (List Char)} :
      Matches a cs rest ca →
      Matches (.group a) cs rest (ca ++ [cs.take (cs.length - rest.length)])
  | eol : Matches .eol [] [] []

theorem runStar_sound (p : Char → Bool) (cs : List Char)
    (k : List Char → Option (List (List Char))) (r : List (List Char))
    (h : runStar p cs k = some r) : ∃ rest, Matches (.star p) cs rest [] ∧ k rest = some r := by
  induction cs with
  | nil => exact ⟨[], .starNil [], h⟩
  | cons c cs ih =>
    simp only [runStar] at h
    split at h
    · rename_i hc
      rcases Option.or_eq_some_iff.mp h with hstar | ⟨_, hk⟩
      · obtain ⟨rest, hmatch, hrest⟩ := ih hstar
        exact ⟨rest, .starCons hc hmatch, hrest⟩
      · exact ⟨c :: cs, .starNil _, hk⟩
    · exact ⟨c :: cs, .starNil _, h⟩

/-- A run that succeeds follows a match of the pattern. -/
theorem run_sound (a : Pattern) : ∀ (cs : List Char) (k : List Char → Option (List (List Char)))
    (r : List (List Char)), a.run cs k = some r →
    ∃ rest ca r', Matches a cs rest ca ∧ k rest = some r' ∧ r = ca ++ r' := by
  induction a with
  | empty => exact fun cs k r h => ⟨cs, [], r, .empty cs, h, rfl⟩
  | char p =>
    intro cs k r h
    cases cs with
    | nil => simp [run] at h
    | cons c cs =>
      simp only [run] at h
      split at h
      · rename_i hc
        exact ⟨cs, [], r, .char cs hc, h, rfl⟩
      · contradiction
  | seq a b iha ihb =>
    intro cs k r h
    obtain ⟨mid, ca, r₁, hma, hmid, rfl⟩ := iha cs _ r h
    obtain ⟨rest, cb, r₂, hmb, hrest, rfl⟩ := ihb mid k r₁ hmid
    exact ⟨rest, ca ++ cb, r₂, .seq hma hmb, hrest, (List.append_assoc ..).symm⟩
  | star p =>
    intro cs k r h
    obtain ⟨rest, hmatch, hrest⟩ := runStar_sound p cs k r h
    exact ⟨rest, [], r, hmatch, hrest, rfl⟩
  | opt a ih =>
    intro cs k r h
    rcases Option.or_eq_some_iff.mp h with hsome | ⟨_, hk⟩
    · obtain ⟨rest, ca, r', hmatch, hrest⟩ := ih cs k r hsome
      exact ⟨rest, ca, r', .optSome hmatch, hrest⟩
    · exact ⟨cs, [], r, .optNone cs, hk, rfl⟩
  | group a ih =>
    intro cs k r h
    obtain ⟨rest, ca, r', hmatch, hrest, rfl⟩ := ih cs _ r h
    obtain ⟨r'', hk, rfl⟩ := Option.map_eq_some_iff.mp hrest
    exact ⟨rest, _, r'', .group hmatch, hk, by simp⟩
  | eol =>
    intro cs k r h
    cases cs with
    | nil => exact ⟨[], [], r, .eol, h, rfl⟩
    | cons c cs => simp [run] at h

theorem runStar_complete (p : Char → Bool) {cs rest : List Char}
    (k : List Char → Option (List (List Char))) (hk : (k rest).isSome = true)
    (pre : List Char) (hpre : ∀ c ∈ pre, p c = true) (hcs : cs = pre ++ rest) :
    (runStar p cs k).isSome = true := by
  induction pre generalizing cs with
  | nil =>
    rw [hcs, List.nil_append]
    cases rest with
    | nil => exact hk
    | cons c rest =>
      simp only [runStar]
      split
      · simp [Option.isSome_or, hk]
      · exact hk
  | cons c pre ih =>
    subst hcs
    have hrest := ih (fun d hd => hpre d (List.mem_cons_of_mem c hd)) rfl
    have hc : p c = true := hpre c (List.mem_cons_self ..)
    simp [runStar, hc, Option.isSome_or, hrest]

/-- A repetition leads exactly over a block of characters of its class. -/
theorem matches_star_iff (p : Char → Bool) (cs rest : List Char) (ca : List (List Char)) :
    Matches (.star p) cs rest ca ↔ ca = [] ∧ ∃ pre, (∀ c ∈ pre, p c = true) ∧ cs = pre ++ rest := by
  constructor
  · intro h
    generalize hq : Pattern.star p = q at h
    induction h with
    | starNil rest => exact ⟨rfl, [], by simp, rfl⟩
    | @starCons p' c cs rest hc _ ih =>
      cases hq
      obtain ⟨_, pre, hpre, rfl⟩ := ih rfl
      exact ⟨rfl, c :: pre, by simpa using ⟨hc, hpre⟩, rfl⟩
    | _ => contradiction
  · intro hmatches
    obtain ⟨rfl, pre, hpre, rfl⟩ := hmatches
    induction pre with
    | nil => exact .starNil rest
    | cons c pre ih =>
      exact .starCons (hpre c (List.mem_cons_self ..))
        (ih (fun d hd => hpre d (List.mem_cons_of_mem c hd)))

/-- Where the pattern matches and the rest succeeds behind it, the run succeeds. -/
theorem run_complete (a : Pattern) : ∀ (cs rest : List Char) (ca : List (List Char))
    (k : List Char → Option (List (List Char))), Matches a cs rest ca →
    (k rest).isSome = true → (a.run cs k).isSome = true := by
  induction a with
  | empty =>
    intro cs rest ca k h hk
    cases h
    exact hk
  | char p =>
    intro cs rest ca k h hk
    cases h with
    | char _ hc => simpa [run, hc] using hk
  | seq a b iha ihb =>
    intro cs rest ca k h hk
    cases h with
    | seq ha hb => exact iha _ _ _ _ ha (ihb _ _ _ k hb hk)
  | star p =>
    intro cs rest ca k h hk
    obtain ⟨_, pre, hpre, hcs⟩ := (matches_star_iff p cs rest ca).mp h
    exact runStar_complete p k hk pre hpre hcs
  | opt a ih =>
    intro cs rest ca k h hk
    cases h with
    | optNone => simp [run, Option.isSome_or, hk]
    | optSome ha => simp [run, Option.isSome_or, ih _ _ _ k ha hk]
  | group a ih =>
    intro cs rest ca k h hk
    cases h with
    | group ha => exact ih _ _ _ _ ha (by simpa using hk)
  | eol =>
    intro cs rest ca k h hk
    cases h
    exact hk

theorem matchFront_sound {a : Pattern} {cs : List Char} {r : List (List Char)}
    (h : a.matchFront cs = some r) : ∃ rest, Matches a cs rest r := by
  obtain ⟨rest, ca, r', hmatch, hk, rfl⟩ := run_sound a cs _ r h
  cases Option.some.inj hk
  exact ⟨rest, by simpa using hmatch⟩

theorem matchFront_complete {a : Pattern} {cs rest : List Char} {ca : List (List Char)}
    (h : Matches a cs rest ca) : ∃ r, a.matchFront cs = some r :=
  Option.isSome_iff_exists.mp (run_complete a cs rest ca _ h rfl)

/-- A match at the front of the text is the one a search finds. -/
theorem search_eq_of_matchFront {a : Pattern} {cs : List Char} {r : List (List Char)}
    (h : a.matchFront cs = some r) : a.search cs = some r := by
  cases cs with
  | nil => exact h
  | cons c cs => simp only [search, h, Option.some_or]

/-- A search finds a match that starts somewhere in the text. -/
theorem search_sound {a : Pattern} {cs : List Char} {r : List (List Char)}
    (h : a.search cs = some r) : ∃ pre suf rest, cs = pre ++ suf ∧ Matches a suf rest r := by
  induction cs with
  | nil =>
    obtain ⟨rest, hmatch⟩ := matchFront_sound h
    exact ⟨[], [], rest, rfl, hmatch⟩
  | cons c cs ih =>
    rcases Option.or_eq_some_iff.mp h with hfront | ⟨_, hlater⟩
    · obtain ⟨rest, hmatch⟩ := matchFront_sound hfront
      exact ⟨[], c :: cs, rest, rfl, hmatch⟩
    · obtain ⟨pre, suf, rest, rfl, hmatch⟩ := ih hlater
      exact ⟨c :: pre, suf, rest, rfl, hmatch⟩

/-- Where there is a match, a search finds one. -/
theorem search_complete {a : Pattern} {suf rest : List Char} {ca : List (List Char)}
    (h : Matches a suf rest ca) (pre : List Char) : ∃ r, a.search (pre ++ suf) = some r := by
  induction pre with
  | nil =>
    obtain ⟨r, hr⟩ := matchFront_complete h
    exact ⟨r, search_eq_of_matchFront hr⟩
  | cons c pre ih =>
    obtain ⟨r, hr⟩ := ih
    simp only [List.cons_append, search, hr]
    cases a.matchFront (c :: (pre ++ suf)) with
    | none => exact ⟨r, rfl⟩
    | some r' => exact ⟨r', rfl⟩

theorem matches_seq_iff (a b : Pattern) (cs rest : List Char) (ca : List (List Char)) :
    Matches (.seq a b) cs rest ca ↔
      ∃ mid c₁ c₂, Matches a cs mid c₁ ∧ Matches b mid rest c₂ ∧ ca = c₁ ++ c₂ := by
  constructor
  · intro h
    cases h with
    | seq ha hb => exact ⟨_, _, _, ha, hb, rfl⟩
  · intro hmatches
    obtain ⟨mid, c₁, c₂, ha, hb, rfl⟩ := hmatches
    exact .seq ha hb

theorem matches_char_iff (p : Char → Bool) (cs rest : List Char) (ca : List (List Char)) :
    Matches (.char p) cs rest ca ↔ ca = [] ∧ ∃ c, p c = true ∧ cs = c :: rest := by
  constructor
  · intro h
    cases h with
    | char _ hc => exact ⟨rfl, _, hc, rfl⟩
  · intro hmatches
    obtain ⟨rfl, c, hc, rfl⟩ := hmatches
    exact .char rest hc

theorem matches_eol_iff (cs rest : List Char) (ca : List (List Char)) :
    Matches .eol cs rest ca ↔ ca = [] ∧ cs = [] ∧ rest = [] := by
  constructor
  · intro h
    cases h
    exact ⟨rfl, rfl, rfl⟩
  · intro hmatches
    obtain ⟨rfl, rfl, rfl⟩ := hmatches
    exact .eol

theorem matches_opt_iff (a : Pattern) (cs rest : List Char) (ca : List (List Char)) :
    Matches (.opt a) cs rest ca ↔ (ca = [] ∧ cs = rest) ∨ Matches a cs rest ca := by
  constructor
  · intro h
    cases h with
    | optNone => exact Or.inl ⟨rfl, rfl⟩
    | optSome ha => exact Or.inr ha
  · intro hmatches
    rcases hmatches with ⟨rfl, rfl⟩ | ha
    · exact .optNone cs
    · exact .optSome ha

/-- A group captures exactly the text its pattern leads over. -/
theorem matches_group_iff (a : Pattern) (pre rest : List Char) (ca : List (List Char)) :
    Matches (.group a) (pre ++ rest) rest ca ↔
      ∃ c₁, Matches a (pre ++ rest) rest c₁ ∧ ca = c₁ ++ [pre] := by
  have htake : (pre ++ rest).take ((pre ++ rest).length - rest.length) = pre := by simp
  constructor
  · intro h
    cases h with
    | group ha => exact ⟨_, ha, by rw [htake]⟩
  · intro hmatches
    obtain ⟨c₁, ha, rfl⟩ := hmatches
    have h := Matches.group ha
    rwa [htake] at h

theorem matches_plus_iff (p : Char → Bool) (cs rest : List Char) (ca : List (List Char)) :
    Matches (plus p) cs rest ca ↔
      ca = [] ∧ ∃ pre, pre ≠ [] ∧ (∀ c ∈ pre, p c = true) ∧ cs = pre ++ rest := by
  simp only [plus, matches_seq_iff, matches_char_iff, matches_star_iff]
  constructor
  · intro hmatches
    obtain ⟨mid, c₁, c₂, ⟨rfl, c, hc, rfl⟩, ⟨rfl, pre, hpre, rfl⟩, rfl⟩ := hmatches
    exact ⟨rfl, c :: pre, by simp, by simpa using ⟨hc, hpre⟩, rfl⟩
  · intro hmatches
    obtain ⟨rfl, pre, hne, hpre, rfl⟩ := hmatches
    cases pre with
    | nil => contradiction
    | cons c pre =>
      exact ⟨pre ++ rest, [], [], ⟨rfl, c, hpre c (List.mem_cons_self ..), rfl⟩,
        ⟨rfl, pre, fun d hd => hpre d (List.mem_cons_of_mem c hd), rfl⟩, rfl⟩

/-- A literal leads over a text that spells it up to letter case. -/
theorem matches_word_iff (w : List Char) (cs rest : List Char) (ca : List (List Char)) :
    Matches (word w) cs rest ca ↔
      ca = [] ∧ ∃ pre, pre.map Char.toLower = w.map Char.toLower ∧ cs = pre ++ rest := by
  induction w generalizing cs ca with
  | nil =>
    constructor
    · intro h
      cases h
      exact ⟨rfl, [], rfl, rfl⟩
    · intro hmatches
      obtain ⟨rfl, pre, hpre, rfl⟩ := hmatches
      cases List.map_eq_nil_iff.mp hpre
      exact .empty rest
  | cons c w ih =>
    simp only [word, matches_seq_iff, matches_char_iff, ih, sameLetter, beq_iff_eq]
    constructor
    · intro hmatches
      obtain ⟨mid, c₁, c₂, ⟨rfl, d, hd, rfl⟩, ⟨rfl, pre, hpre, rfl⟩, rfl⟩ := hmatches
      exact ⟨rfl, d :: pre, by simp [hpre, hd], rfl⟩
    · intro hmatches
      obtain ⟨rfl, pre, hpre, rfl⟩ := hmatches
      cases pre with
      | nil => simp at hpre
      | cons d pre =>
        simp only [List.map_cons, List.cons.injEq] at hpre
        exact ⟨pre ++ rest, [], [], ⟨rfl, d, hpre.1.symm, rfl⟩, ⟨rfl, pre, hpre.2, rfl⟩, rfl⟩

end Pattern

section Characters

/-- A fact about the characters below `n` can be checked one by one. -/
theorem forall_char_lt {P : Char → Prop} (n : ℕ) (h : ∀ k < n, P (Char.ofNat k)) (c : Char)
    (hc : c.toNat < n) : P c := by
  have hp := h c.toNat hc
  rwa [Char.ofNat_toNat] at hp

/-- Only basic Latin characters have a lower case that is one. -/
theorem lt_of_toLower_lt {c : Char} (h : c.toLower.toNat < 128) : c.toNat < 128 := by
  unfold Char.toLower at h
  split at h
  · rename_i hupper
    have hle : c.toNat ≤ 90 := UInt32.le_iff_toNat_le.mp hupper.2
    omega
  · exact h

/-- Only a letter has a lower case that is a letter. -/
theorem eq_of_toLower_eq {c d : Char} (h : c.toLower = d) (hd : d.isLower = false) : c = d := by
  subst h
  by_cases hlt : c.toNat < 128
  · have hall : ∀ k < 128, (Char.ofNat k).toLower.isLower = false →
        Char.ofNat k = (Char.ofNat k).toLower := by decide
    exact forall_char_lt (P := fun c => c.toLower.isLower = false → c = c.toLower) 128 hall c hlt hd
  · unfold Char.toLower
    split
    · rename_i hupper
      have hle : c.toNat ≤ 90 := UInt32.le_iff_toNat_le.mp hupper.2
      omega
    · rfl

end Characters

/-- Where a block of one class ends at a character outside of it, the block is
determined by the text. -/
theorem block_unique {p : Char → Bool} {a b x y : List Char} {c d : Char}
    (ha : ∀ e ∈ a, p e = true) (hb : ∀ e ∈ b, p e = true) (hc : p c = false) (hd : p d = false)
    (h : a ++ c :: x = b ++ d :: y) : a = b ∧ c :: x = d :: y := by
  have htake : ∀ (l : List Char) (e : Char) (t : List Char), (∀ f ∈ l, p f = true) →
      p e = false → (l ++ e :: t).takeWhile p = l := by
    intro l e t hl he
    rw [List.takeWhile_append_of_pos hl, List.takeWhile_cons_of_neg (by simp [he]),
      List.append_nil]
  have hab : a = b := by
    have hleft := htake a c x ha hc
    rw [h, htake b d y hb hd] at hleft
    exact hleft.symm
  subst hab
  exact ⟨rfl, List.append_cancel_left h⟩

end OktaScim.Patterns
