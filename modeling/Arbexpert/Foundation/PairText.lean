import Mathlib.Data.List.Basic

/-!
# Texts of pairs

A text lists pairs with a separator between them, each of them as its key, a sign and its value.
It is split at the separators, and each piece at its first sign. This recovers the pairs exactly
if no separator is in a key or a value and no sign in a key. Pairs of a key can be dropped from
the text, whatever the other pairs contain.
-/

namespace PairText

variable {α : Type*} {separator sign : α}

/-- The text of a pair. -/
def renderPair (sign : α) (pair : List α × List α) : List α := pair.1 ++ sign :: pair.2

/-- The text of a list of pairs. -/
def render (separator sign : α) (pairs : List (List α × List α)) : List α :=
  [separator].intercalate (pairs.map (renderPair sign))

/-- A pair that a text can tell apart from its surroundings. -/
structure Clean (separator sign : α) (pair : List α × List α) : Prop where
  key : separator ∉ pair.1
  sign : sign ∉ pair.1
  value : separator ∉ pair.2

/-- The text of a clean pair has no separator. -/
theorem Clean.not_mem_renderPair {pair : List α × List α} (h : Clean separator sign pair)
    (hne : separator ≠ sign) : separator ∉ renderPair sign pair := by
  rw [renderPair, List.mem_append, List.mem_cons]
  rintro (hkey | hsign | hvalue)
  · exact h.key hkey
  · exact hne hsign
  · exact h.value hvalue

variable [DecidableEq α] {front text piece key : List α}

/-- Whether a pair is clean is computed. -/
instance (pair : List α × List α) : Decidable (Clean separator sign pair) :=
  decidable_of_iff (separator ∉ pair.1 ∧ sign ∉ pair.1 ∧ separator ∉ pair.2)
    ⟨fun h => ⟨h.1, h.2.1, h.2.2⟩, fun h => ⟨h.key, h.sign, h.value⟩⟩

/-- What stands before the first occurrence of a sign, and what stands after it. -/
def splitFirst (sign : α) (text : List α) : List α × List α :=
  (text.takeWhile (· ≠ sign), (text.dropWhile (· ≠ sign)).drop 1)

/-- The pairs of a text. -/
def parse (separator sign : α) (text : List α) : List (List α × List α) :=
  (text.splitOn separator).map (splitFirst sign)

/-- A text without the pieces of a key. -/
def dropKey (separator sign : α) (key text : List α) : List α :=
  [separator].intercalate <|
    (text.splitOn separator).filter fun piece => (splitFirst sign piece).1 ≠ key

/-- A sign at the front. -/
@[simp] theorem splitFirst_cons_self (sign : α) (rest : List α) :
    splitFirst sign (sign :: rest) = ([], rest) := by
  simp [splitFirst]

/-- Something else at the front. -/
@[simp] theorem splitFirst_cons_of_ne {first : α} (h : first ≠ sign) (rest : List α) :
    splitFirst sign (first :: rest) =
      (first :: (splitFirst sign rest).1, (splitFirst sign rest).2) := by
  simp [splitFirst, h]

/-- The first part of a split text has no sign. -/
theorem not_mem_splitFirst_fst (sign : α) (text : List α) : sign ∉ (splitFirst sign text).1 := by
  intro h
  have hall := List.all_eq_true.mp (List.all_takeWhile (p := (· ≠ sign)) (l := text)) sign h
  simp at hall

/-- A text with a sign is what stands before the first one, the sign, and what stands after it. -/
theorem append_cons_splitFirst (h : sign ∈ text) :
    (splitFirst sign text).1 ++ sign :: (splitFirst sign text).2 = text := by
  induction text with
  | nil => cases h
  | cons first rest ih =>
    by_cases hfirst : first = sign
    · rw [hfirst, splitFirst_cons_self, List.nil_append]
    · rw [splitFirst_cons_of_ne hfirst, List.cons_append,
        ih ((List.mem_cons.mp h).resolve_left (Ne.symm hfirst))]

/-- A text is split behind a front without a sign. -/
theorem splitFirst_append_cons (h : sign ∉ front) (back : List α) :
    splitFirst sign (front ++ sign :: back) = (front, back) := by
  induction front with
  | nil => exact splitFirst_cons_self sign back
  | cons first rest ih =>
    obtain ⟨hfirst, hrest⟩ := not_or.mp (mt List.mem_cons.mpr h)
    rw [List.cons_append, splitFirst_cons_of_ne (Ne.symm hfirst), ih hrest]

/-- What is in one of the parts of a split text is in the text. -/
theorem mem_of_mem_splitFirst {a : α}
    (h : a ∈ (splitFirst sign text).1 ∨ a ∈ (splitFirst sign text).2) : a ∈ text := by
  rcases h with hfront | hback
  · exact (List.takeWhile_sublist _).mem hfront
  · exact (List.dropWhile_sublist _).mem (List.mem_of_mem_drop hback)

/-- No piece of a text has a separator. -/
theorem not_mem_of_mem_splitOn (h : piece ∈ text.splitOn separator) : separator ∉ piece := by
  induction text generalizing piece with
  | nil => simp_all
  | cons first rest ih =>
    rw [List.splitOn_cons_eq_if_modifyHead] at h
    by_cases hfirst : first = separator
    · rw [if_pos (beq_iff_eq.mpr hfirst)] at h
      rcases List.mem_cons.mp h with rfl | hrest
      · exact List.not_mem_nil
      · exact ih hrest
    · rw [if_neg (mt beq_iff_eq.mp hfirst)] at h
      -- the first character joins the first piece of the rest
      obtain ⟨head, tail, hpieces⟩ := List.exists_cons_of_ne_nil (rest.splitOn_ne_nil separator)
      rw [hpieces, List.modifyHead_cons] at h
      rcases List.mem_cons.mp h with rfl | htail
      · rw [List.mem_cons, not_or]
        exact ⟨Ne.symm hfirst, ih (hpieces ▸ List.mem_cons_self)⟩
      · exact ih (hpieces ▸ List.mem_cons_of_mem _ htail)

/-- The pieces of joined texts are the pieces of each of them. -/
theorem splitOn_intercalate {texts : List (List α)} (hne : texts ≠ []) :
    ([separator].intercalate texts).splitOn separator =
      texts.flatMap fun text => text.splitOn separator := by
  induction texts with
  | nil => exact absurd rfl hne
  | cons first rest ih =>
    cases rest with
    | nil => simp
    | cons second rest =>
      rw [List.intercalate_cons_cons, List.append_assoc, List.singleton_append,
        List.splitOn_append_cons_self, ih (List.cons_ne_nil _ _), ← List.flatMap_cons]

/-- What is recovered from a text is clean. -/
theorem clean_of_mem_parse {pair : List α × List α} (h : pair ∈ parse separator sign text) :
    Clean separator sign pair := by
  obtain ⟨piece, hpiece, rfl⟩ := List.mem_map.mp h
  have hseparator := not_mem_of_mem_splitOn hpiece
  exact ⟨fun hkey => hseparator (mem_of_mem_splitFirst (Or.inl hkey)),
    not_mem_splitFirst_fst sign piece,
    fun hvalue => hseparator (mem_of_mem_splitFirst (Or.inr hvalue))⟩

/-- The pairs of a text are recovered exactly if they are clean. -/
theorem parse_render_iff {pairs : List (List α × List α)} (hne : separator ≠ sign)
    (hpairs : pairs ≠ []) : parse separator sign (render separator sign pairs) = pairs ↔
      ∀ pair ∈ pairs, Clean separator sign pair := by
  constructor
  · intro h pair hpair
    rw [← h] at hpair
    exact clean_of_mem_parse hpair
  · intro hclean
    have htexts : ∀ text ∈ pairs.map (renderPair sign), separator ∉ text := by
      intro text htext
      obtain ⟨pair, hpair, rfl⟩ := List.mem_map.mp htext
      exact (hclean pair hpair).not_mem_renderPair hne
    have hsplit : ∀ pair ∈ pairs, splitFirst sign (renderPair sign pair) = pair :=
      fun pair hpair => splitFirst_append_cons (hclean pair hpair).sign pair.2
    rw [parse, render, List.splitOn_intercalate separator htexts (mt List.map_eq_nil_iff.mp hpairs),
      List.map_map]
    exact (List.map_congr_left hsplit).trans (List.map_id' pairs)

/-- Dropping a key leaves the same of a text with a clean pair of this key as of the text without
this pair. -/
theorem dropKey_render {value : List α} (hne : separator ≠ sign)
    (hclean : Clean separator sign (key, value)) {earlier later : List (List α × List α)}
    (hothers : earlier ++ later ≠ []) :
    dropKey separator sign key (render separator sign (earlier ++ (key, value) :: later)) =
      dropKey separator sign key (render separator sign (earlier ++ later)) := by
  have hpiece : (renderPair sign (key, value)).splitOn separator = [renderPair sign (key, value)] :=
    List.splitOn_eq_singleton (hclean.not_mem_renderPair hne)
  have hdropped : (splitFirst sign (renderPair sign (key, value))).1 = key :=
    congrArg Prod.fst (splitFirst_append_cons hclean.sign value)
  unfold dropKey render
  rw [splitOn_intercalate (by simp), splitOn_intercalate (by simpa using hothers)]
  simp [hpiece, hdropped]

/-- Dropping a key leaves a text as it is exactly if no piece has this key. -/
theorem dropKey_eq_self_iff (hkey : key ≠ []) : dropKey separator sign key text = text ↔
    ∀ pair ∈ parse separator sign text, pair.1 ≠ key := by
  have hpairs : (∀ pair ∈ parse separator sign text, pair.1 ≠ key) ↔
      ∀ piece ∈ text.splitOn separator, (splitFirst sign piece).1 ≠ key := by
    simp [parse]
  rw [hpairs]
  constructor
  · intro h piece hpiece
    by_cases hnil : ((text.splitOn separator).filter fun piece =>
        (splitFirst sign piece).1 ≠ key) = []
    · -- an empty text has one piece, and this is kept
      rw [dropKey, hnil, List.intercalate_nil] at h
      subst h
      simp [splitFirst, hkey.symm] at hnil
    · have hpieces := congrArg (List.splitOn separator) h
      rw [dropKey, List.splitOn_intercalate separator
        (fun piece hkept => not_mem_of_mem_splitOn (List.mem_of_mem_filter hkept)) hnil] at hpieces
      rw [← hpieces] at hpiece
      exact of_decide_eq_true (List.mem_filter.mp hpiece).2
  · intro h
    rw [dropKey, List.filter_eq_self.mpr fun piece hpiece => decide_eq_true (h piece hpiece),
      List.intercalate_splitOn]

end PairText
