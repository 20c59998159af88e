import StackScript.Proofs.Text

/-!
# Letter case

Characters that are equal in small letters are the same or both letters. Two texts agree but
for letter case if at every place they have the same character, or the place is one where
case is free and the characters are equal in small letters.
-/

namespace StackScript

/-! ## Characters -/

/-- The code of a character in small letters. -/
theorem toNat_toLower (c : Char) :
    c.toLower.toNat =
      if 'A'.toNat ≤ c.toNat ∧ c.toNat ≤ 'Z'.toNat then c.toNat + 32 else c.toNat := by
  by_cases upper : 'A'.toNat ≤ c.toNat ∧ c.toNat ≤ 'Z'.toNat
  · have inRange : c.val ≥ 'A'.val ∧ c.val ≤ 'Z'.val := upper
    have atMost : c.val.toNat ≤ 90 := upper.2
    have lowered : c.toLower.toNat = (c.val.toNat + 32) % 4294967296 :=
      congrArg Char.toNat (dif_pos inRange)
    rw [lowered, if_pos upper]
    exact Nat.mod_eq_of_lt (by omega)
  · have outside : ¬ (c.val ≥ 'A'.val ∧ c.val ≤ 'Z'.val) := upper
    have unchanged : c.toLower = c := dif_neg outside
    rw [unchanged, if_neg upper]

/-- Only letters have a case. -/
theorem eq_or_isAlpha_of_toLower_eq {c d : Char} (same : c.toLower = d.toLower) :
    c = d ∨ (c.isAlpha = true ∧ d.isAlpha = true) := by
  have sameCode := congrArg Char.toNat same
  rw [toNat_toLower, toNat_toLower] at sameCode
  have codes : 'A'.toNat = 65 ∧ 'Z'.toNat = 90 ∧ 'a'.toNat = 97 ∧ 'z'.toNat = 122 :=
    ⟨rfl, rfl, rfl, rfl⟩
  rw [isAlpha_iff_toNat, isAlpha_iff_toNat]
  by_cases equal : c.toNat = d.toNat
  · exact .inl (Char.toNat_inj.mp equal)
  · right
    split at sameCode <;> split at sameCode <;> omega

/-- What is no letter is itself in small letters, and nothing else is. -/
theorem toLower_eq_iff {c other : Char} (notLetter : other.isAlpha = false) :
    c.toLower = other ↔ c = other := by
  have fixed : other.toLower = other := by
    apply dif_neg
    intro upper
    have letter : other.isAlpha = true := Bool.or_eq_true_iff.mpr (.inl (decide_eq_true upper))
    rw [notLetter] at letter
    cases letter
  constructor
  · intro same
    rcases eq_or_isAlpha_of_toLower_eq (same.trans fixed.symm) with isOther | ⟨-, letter⟩
    · exact isOther
    · rw [notLetter] at letter
      cases letter
  · rintro rfl
    exact fixed

/-- A test that all letters pass does not see their case. -/
theorem test_eq_of_toLower_eq {test : Char → Bool}
    (pass : ∀ c, c.isAlpha = true → test c = true) {c d : Char}
    (same : c.toLower = d.toLower) : test c = test d := by
  rcases eq_or_isAlpha_of_toLower_eq same with rfl | ⟨letter, letterToo⟩
  · rfl
  · rw [pass c letter, pass d letterToo]

/-! ## Texts -/

/-- The texts are equally long, and at every place they have the same character, or the case
of the first text's letter is free there. -/
structure AgreesBut (free : List Char → Char → List Char → Prop) (first second : List Char) :
    Prop where
  length_eq : first.length = second.length
  agree : ∀ before c after earlier d later, first = before ++ c :: after →
    second = earlier ++ d :: later → before.length = earlier.length →
    c = d ∨ (free before c after ∧ c.toLower = d.toLower)

variable {free : List Char → Char → List Char → Prop} {first second : List Char}

theorem agreesBut_nil_iff : AgreesBut free [] second ↔ second = [] := by
  constructor
  · intro agrees
    exact List.eq_nil_of_length_eq_zero agrees.length_eq.symm
  · rintro rfl
    exact ⟨rfl, by simp⟩

/-- Texts agree if their first characters do and what is left. -/
theorem agreesBut_cons_iff {c : Char} {rest : List Char} :
    AgreesBut free (c :: rest) second ↔
      ∃ d others, second = d :: others ∧ (c = d ∨ (free [] c rest ∧ c.toLower = d.toLower)) ∧
        AgreesBut (fun before => free (c :: before)) rest others := by
  constructor
  · rintro ⟨length_eq, agree⟩
    cases second with
    | nil => cases length_eq
    | cons d others =>
      refine ⟨d, others, rfl, agree [] c rest [] d others rfl rfl rfl, Nat.succ.inj length_eq, ?_⟩
      rintro before e after earlier f later rfl rfl sameLength
      exact agree (c :: before) e after (d :: earlier) f later rfl rfl
        (congrArg Nat.succ sameLength)
  · rintro ⟨d, others, rfl, atFirst, length_eq, agree⟩
    refine ⟨congrArg Nat.succ length_eq, ?_⟩
    intro before e after earlier f later isFirst isSecond sameLength
    cases before with
    | nil =>
      obtain rfl := List.eq_nil_of_length_eq_zero sameLength.symm
      cases isFirst
      cases isSecond
      exact atFirst
    | cons b before =>
      cases earlier with
      | nil => cases sameLength
      | cons a earlier =>
        obtain ⟨rfl, isRest⟩ := List.cons.inj isFirst
        exact agree before e after earlier f later isRest (List.cons.inj isSecond).2
          (Nat.succ.inj sameLength)

namespace AgreesBut

/-- Case may be free at more places. -/
theorem imp {other : List Char → Char → List Char → Prop} (agrees : AgreesBut free first second)
    (freer : ∀ before c after, first = before ++ c :: after → free before c after →
      other before c after) : AgreesBut other first second := by
  refine ⟨agrees.length_eq, ?_⟩
  intro before c after earlier d later isFirst isSecond sameLength
  exact (agrees.agree before c after earlier d later isFirst isSecond sameLength).imp_right
    fun ⟨isFree, same⟩ => ⟨freer before c after isFirst isFree, same⟩

/-- Texts agree part by part. -/
theorem exists_append {front rest : List Char} (agrees : AgreesBut free (front ++ rest) second) :
    ∃ begun others, second = begun ++ others ∧
      AgreesBut (fun before c after => free before c (after ++ rest)) front begun ∧
      AgreesBut (fun before => free (front ++ before)) rest others := by
  induction front generalizing free second with
  | nil => exact ⟨[], second, rfl, agreesBut_nil_iff.mpr rfl, agrees⟩
  | cons c front ih =>
    obtain ⟨d, behind, rfl, atFirst, agreesBehind⟩ := agreesBut_cons_iff.mp agrees
    obtain ⟨begun, others, rfl, agreesFront, agreesRest⟩ := ih agreesBehind
    exact ⟨d :: begun, others, rfl,
      agreesBut_cons_iff.mpr ⟨d, begun, rfl, atFirst, agreesFront⟩, agreesRest⟩

/-- In small letters the texts are the same. -/
theorem map_toLower_eq (agrees : AgreesBut free first second) :
    first.map Char.toLower = second.map Char.toLower := by
  induction first generalizing free second with
  | nil => rw [agreesBut_nil_iff.mp agrees]
  | cons c rest ih =>
    obtain ⟨d, others, rfl, atFirst, agreesRest⟩ := agreesBut_cons_iff.mp agrees
    have same : c.toLower = d.toLower := atFirst.elim (congrArg _) And.right
    rw [List.map_cons, List.map_cons, same, ih agreesRest]

/-- Where case is nowhere free the texts are the same. -/
theorem eq_of_never (agrees : AgreesBut free first second)
    (never : ∀ before c after, first = before ++ c :: after → ¬ free before c after) :
    first = second := by
  induction first generalizing free second with
  | nil => exact (agreesBut_nil_iff.mp agrees).symm
  | cons c rest ih =>
    obtain ⟨d, others, rfl, atFirst, agreesRest⟩ := agreesBut_cons_iff.mp agrees
    have same : c = d := atFirst.resolve_right fun isFree => never [] c rest rfl isFree.1
    have neverBehind (before : List Char) (e : Char) (after : List Char)
        (isRest : rest = before ++ e :: after) : ¬ free (c :: before) e after :=
      never (c :: before) e after (congrArg (c :: ·) isRest)
    rw [same, ih agreesRest neverBehind]

end AgreesBut

end StackScript
