import SpendingTracker.Model.Login

/-!
# The addresses that are accepted

The regular expression of `isValidEmail` lets the host contain dots and letters, so that a
matcher has many ways to split a text.  At most one of them succeeds: the first part cannot
contain `@` and the last part cannot contain a dot.
-/

namespace SpendingTracker

open Lib RegularExpression

/-! ### The grammar -/

/-- A character of the part before `@`. -/
def LocalChar (c : Char) : Prop := c.isAlphanum ∨ c ∈ "._%+-".toList

/-- A character of the part after `@`. -/
def DomainChar (c : Char) : Prop := c.isAlphanum ∨ c = '.' ∨ c = '-'

instance : DecidablePred LocalChar := fun _ => inferInstanceAs (Decidable (_ ∨ _))

instance : DecidablePred DomainChar := fun _ => inferInstanceAs (Decidable (_ ∨ _))

/-- The grammar of the accepted addresses. -/
structure WellFormedEmail (s : List Char) : Prop where
  oneAt : s.count '@' = 1
  localPart_ne_nil : beforeFirst '@' s ≠ []
  localPart : ∀ c ∈ beforeFirst '@' s, LocalChar c
  domain : ∀ c ∈ afterFirst '@' s, DomainChar c
  dot : '.' ∈ afterFirst '@' s
  topLevelDomain : ∀ c ∈ afterLast '.' (afterFirst '@' s), c.isAlpha
  two_le_length : 2 ≤ (afterLast '.' (afterFirst '@' s)).length
  length_le : (afterLast '.' (afterFirst '@' s)).length ≤ 64
  host_ne_nil : beforeLast '.' (afterFirst '@' s) ≠ []

/-- The three variable parts of a text that matches `emailRegEx`. -/
structure EmailParts where
  localPart : List Char
  host : List Char
  topLevelDomain : List Char

/-- The parts match the three variable parts of `emailRegEx`, and with the two literals between
them they are the text. -/
structure EmailParts.Decompose (p : EmailParts) (s : List Char) : Prop where
  eq : s = p.localPart ++ '@' :: (p.host ++ '.' :: p.topLevelDomain)
  localPart : emailLocalPart.rmatch p.localPart
  host : emailHost.rmatch p.host
  topLevelDomain : emailTopLevelDomain.rmatch p.topLevelDomain

/-! ### The character classes -/

lemma isUpper_iff {c : Char} : c.isUpper ↔ c ∈ charRange 'A' 'Z' := by
  rw [mem_charRange (by decide)]
  show decide ('A'.val ≤ c.val ∧ c.val ≤ 'Z'.val) = true ↔ _
  simp [UInt32.le_iff_toNat_le]

lemma isLower_iff {c : Char} : c.isLower ↔ c ∈ charRange 'a' 'z' := by
  rw [mem_charRange (by decide)]
  show (decide ('a'.val ≤ c.val) && decide (c.val ≤ 'z'.val)) = true ↔ _
  simp [UInt32.le_iff_toNat_le]

lemma isDigit_iff {c : Char} : c.isDigit ↔ c ∈ charRange '0' '9' := by
  rw [mem_charRange (by decide), Char.isDigit_iff_toNat]

lemma isAlpha_iff {c : Char} : c.isAlpha ↔ c.isUpper ∨ c.isLower := by
  show (c.isUpper || c.isLower) = true ↔ _
  rw [Bool.or_eq_true]

lemma isAlphanum_iff {c : Char} : c.isAlphanum ↔ c.isAlpha ∨ c.isDigit := by
  show (c.isAlpha || c.isDigit) = true ↔ _
  rw [Bool.or_eq_true]

lemma localPart_rmatch_iff {x : List Char} :
    emailLocalPart.rmatch x ↔ x ≠ [] ∧ ∀ c ∈ x, LocalChar c := by
  rw [emailLocalPart, oneOrMore_charClass_rmatch_iff]
  refine and_congr_right fun _ => forall₂_congr fun c _ => ?_
  simp only [List.mem_append, ← isUpper_iff, ← isLower_iff, ← isDigit_iff, LocalChar,
    isAlphanum_iff, isAlpha_iff]
  tauto

lemma host_rmatch_iff {x : List Char} :
    emailHost.rmatch x ↔ x ≠ [] ∧ ∀ c ∈ x, DomainChar c := by
  rw [emailHost, oneOrMore_charClass_rmatch_iff]
  refine and_congr_right fun _ => forall₂_congr fun c _ => ?_
  have hlast : c ∈ ".-".toList ↔ c = '.' ∨ c = '-' := by simp
  simp only [List.mem_append, ← isUpper_iff, ← isLower_iff, ← isDigit_iff, hlast, DomainChar,
    isAlphanum_iff, isAlpha_iff]

lemma topLevelDomain_rmatch_iff {x : List Char} :
    emailTopLevelDomain.rmatch x ↔ 2 ≤ x.length ∧ x.length ≤ 64 ∧ ∀ c ∈ x, c.isAlpha := by
  rw [emailTopLevelDomain, repetition_charClass_rmatch_iff]
  simp only [List.mem_append, ← isUpper_iff, ← isLower_iff, isAlpha_iff]

lemma not_localChar_at : ¬ LocalChar '@' := by decide

lemma not_domainChar_at : ¬ DomainChar '@' := by decide

lemma domainChar_of_isAlpha {c : Char} (h : c.isAlpha) : DomainChar c :=
  Or.inl (isAlphanum_iff.mpr (Or.inl h))

/-! ### Matching -/

/-- A text matches exactly if it can be decomposed. -/
lemma emailRegEx_rmatch_iff {s : List Char} :
    emailRegEx.rmatch s ↔ ∃ p : EmailParts, p.Decompose s := by
  simp only [emailRegEx, mul_rmatch_iff, char_rmatch_iff]
  constructor
  · rintro ⟨_, t, rfl, ⟨_, _, rfl, ⟨_, h, rfl, ⟨l, _, rfl, hl, rfl⟩, hh⟩, rfl⟩, ht⟩
    exact ⟨⟨l, h, t⟩, by simp, hl, hh, ht⟩
  · rintro ⟨⟨l, h, t⟩, rfl, hl, hh, ht⟩
    exact ⟨l ++ ['@'] ++ h ++ ['.'], t, by simp, ⟨_, _, rfl, ⟨_, h, rfl, ⟨l, _, rfl, hl, rfl⟩,
      hh⟩, rfl⟩, ht⟩

/-- A decomposition splits the text at the first `@`, and what follows at the last dot. -/
lemma EmailParts.Decompose.split {p : EmailParts} {s : List Char} (h : p.Decompose s) :
    ('@' ∈ s ∧ beforeFirst '@' s = p.localPart ∧
      afterFirst '@' s = p.host ++ '.' :: p.topLevelDomain) ∧
    '.' ∈ afterFirst '@' s ∧ beforeLast '.' (afterFirst '@' s) = p.host ∧
      afterLast '.' (afterFirst '@' s) = p.topLevelDomain := by
  have hat : '@' ∉ p.localPart := fun hmem =>
    not_localChar_at ((localPart_rmatch_iff.mp h.localPart).2 _ hmem)
  have hdot : '.' ∉ p.topLevelDomain := fun hmem =>
    absurd ((topLevelDomain_rmatch_iff.mp h.topLevelDomain).2.2 _ hmem) (by decide)
  have hfirst := (eq_append_cons_iff_first hat).mp h.eq
  exact ⟨hfirst, (eq_append_cons_iff_last hdot).mp hfirst.2.2⟩

/-- There is at most one decomposition. -/
lemma EmailParts.Decompose.unique {p q : EmailParts} {s : List Char} (hp : p.Decompose s)
    (hq : q.Decompose s) : p = q := by
  obtain ⟨⟨-, hl, -⟩, -, hh, ht⟩ := hp.split
  obtain ⟨⟨-, hl', -⟩, -, hh', ht'⟩ := hq.split
  obtain ⟨l, h, t⟩ := p
  obtain ⟨l', h', t'⟩ := q
  obtain rfl : l = l' := hl.symm.trans hl'
  obtain rfl : h = h' := hh.symm.trans hh'
  obtain rfl : t = t' := ht.symm.trans ht'
  rfl

/-- What can be decomposed is in the grammar. -/
lemma EmailParts.Decompose.wellFormed {p : EmailParts} {s : List Char} (h : p.Decompose s) :
    WellFormedEmail s := by
  obtain ⟨⟨-, hl, hd⟩, hdot, hh, ht⟩ := h.split
  obtain ⟨hne, hlocal⟩ := localPart_rmatch_iff.mp h.localPart
  obtain ⟨hhost, hdomain⟩ := host_rmatch_iff.mp h.host
  obtain ⟨htwo, hle, halpha⟩ := topLevelDomain_rmatch_iff.mp h.topLevelDomain
  have hrest : ∀ c ∈ p.host ++ '.' :: p.topLevelDomain, DomainChar c := by
    intro c hc
    rw [List.mem_append, List.mem_cons] at hc
    rcases hc with hc | rfl | hc
    · exact hdomain c hc
    · exact Or.inr (Or.inl rfl)
    · exact domainChar_of_isAlpha (halpha c hc)
  refine ⟨?_, hl ▸ hne, hl ▸ hlocal, hd ▸ hrest, hdot, ht ▸ halpha, ht ▸ htwo, ht ▸ hle,
    hh ▸ hhost⟩
  -- neither side of the first `@` contains another one
  have hfront : p.localPart.count '@' = 0 :=
    List.count_eq_zero.mpr fun hmem => not_localChar_at (hlocal _ hmem)
  have hback : (p.host ++ '.' :: p.topLevelDomain).count '@' = 0 :=
    List.count_eq_zero.mpr fun hmem => not_domainChar_at (hrest _ hmem)
  rw [h.eq, List.count_append, List.count_cons_self, hfront, hback]

/-- What is in the grammar can be decomposed. -/
lemma WellFormedEmail.exists_decompose {s : List Char} (h : WellFormedEmail s) :
    ∃ p : EmailParts, p.Decompose s := by
  have hat : '@' ∈ s := List.count_pos_iff.mp (by rw [h.oneAt]; decide)
  have hfront : '@' ∉ beforeFirst '@' s := fun hmem => not_localChar_at (h.localPart _ hmem)
  have hback : '.' ∉ afterLast '.' (afterFirst '@' s) := fun hmem =>
    absurd (h.topLevelDomain _ hmem) (by decide)
  have hdomain := (eq_append_cons_iff_last hback).mpr ⟨h.dot, rfl, rfl⟩
  refine ⟨⟨beforeFirst '@' s, beforeLast '.' (afterFirst '@' s),
    afterLast '.' (afterFirst '@' s)⟩, ?_, ?_, ?_, ?_⟩
  · rw [← hdomain]
    exact (eq_append_cons_iff_first hfront).mpr ⟨hat, rfl, rfl⟩
  · exact localPart_rmatch_iff.mpr ⟨h.localPart_ne_nil, h.localPart⟩
  · refine host_rmatch_iff.mpr ⟨h.host_ne_nil, fun c hc => h.domain c ?_⟩
    rw [hdomain]
    exact List.mem_append_left _ hc
  · exact topLevelDomain_rmatch_iff.mpr ⟨h.two_le_length, h.length_le, h.topLevelDomain⟩

/-- **The accepted addresses.**  `isValidEmail` accepts exactly the texts of the grammar, and
exactly the texts with one decomposition into the three variable parts of its regular
expression. -/
theorem isValidEmail_iff (testStr : String) :
    (isValidEmail testStr = true ↔ WellFormedEmail testStr.toList) ∧
      (isValidEmail testStr = true ↔ ∃! p : EmailParts, p.Decompose testStr.toList) := by
  rw [isValidEmail, emailRegEx_rmatch_iff]
  refine ⟨⟨?_, WellFormedEmail.exists_decompose⟩, ⟨?_, ExistsUnique.exists⟩⟩
  · rintro ⟨p, hp⟩
    exact hp.wellFormed
  · rintro ⟨p, hp⟩
    exact ⟨p, hp, fun q hq => hq.unique hp⟩

/-! ### The gates -/

/-- Neither screen asks Firebase with an address that is not accepted or with a short password. -/
theorem isValidEmail_of_firebase {ch : Characters} {eq : ch.Equality}
    {email email' password passwordConfirm password' : String}
    (h : loginButtonClicked ch email password = .firebase email' password' ∨
      signUpButtonClicked eq email password passwordConfirm = .firebase email' password') :
    isValidEmail email' = true ∧ 6 ≤ ch.count password'.toList := by
  unfold loginButtonClicked signUpButtonClicked at h
  rcases h with h | h
  · split_ifs at h with hemail hcount
    cases h
    exact ⟨by simpa using hemail, by omega⟩
  · split_ifs at h with hemail hcount hconfirm
    cases h
    have hsame : eq.same passwordConfirm.toList password.toList = true := by simpa using hconfirm
    exact ⟨by simpa using hemail, by rw [eq.count_eq hsame]; omega⟩

end SpendingTracker
