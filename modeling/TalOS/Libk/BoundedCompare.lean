-- SUMMARY: `strncmp` as a comparison of the first `n` characters: when its result and its reads are those.
import Mathlib.Data.Nat.Find
import TalOS.Libk.String

/-!
# Bounded comparison

The loop of `strncmp` looks at its bound last, and the result is computed from
the characters that the two cursors stand at. If the bound ends the loop, that is
one character too many.
-/

namespace TalOS

/-- `strncmp` from position `i` on; no result where it would read a character that cannot be read. -/
def strncmpChecked (s1 s2 : Nat → Option UInt8) : Nat → Nat → Option Int
  | 0, i => do
    let c1 ← s1 i
    let c2 ← s2 i
    some (charInt c1 - charInt c2)
  | n + 1, i => do
    let c1 ← s1 i
    let c2 ← s2 i
    if c1 ≠ 0 ∧ c1 = c2 then strncmpChecked s1 s2 n (i + 1) else some (charInt c1 - charInt c2)

/-- Only the characters before position `n`. -/
def firstChars (n : Nat) (s : Nat → UInt8) : Nat → Option UInt8 := fun i => if i < n then some (s i) else none

/-- Two strings agree on their first `n` characters, or up to and including a common NUL before that. -/
def AgreeOn (s1 s2 : Nat → UInt8) (n : Nat) : Prop :=
  (∀ j < n, s1 j = s2 j) ∨ ∃ k < n, s1 k = 0 ∧ ∀ j ≤ k, s1 j = s2 j

/-- What a comparison of the first `n` characters gives: 0 if they agree, else the sign of the first difference. -/
structure ComparesFirst (s1 s2 : Nat → UInt8) (n : Nat) (r : Int) : Prop where
  zero_iff : r = 0 ↔ AgreeOn s1 s2 n
  sign_eq : ∀ d < n, (∀ j < d, s1 j ≠ 0 ∧ s1 j = s2 j) → s1 d ≠ s2 d →
    r.sign = (charInt (s1 d) - charInt (s2 d)).sign

variable {s1 s2 : Nat → UInt8} {n i k : Nat}

/-- Where every character can be read, this is `strncmp`. -/
theorem strncmpChecked_some (s1 s2 : Nat → UInt8) (n i : Nat) :
    strncmpChecked (fun i => some (s1 i)) (fun i => some (s2 i)) n i = some (strncmp s1 s2 n i) := by
  induction n generalizing i with
  | zero => rfl
  | succ n ih =>
    simp only [strncmpChecked, strncmp, Option.bind_eq_bind, Option.bind_some, ih]
    split <;> rfl

/-- The loop goes on over a character. -/
def GoesOn (s1 s2 : Nat → UInt8) (i : Nat) : Prop := s1 i ≠ 0 ∧ s1 i = s2 i

section

variable {limit : Nat}

/-- One turn of the loop. -/
theorem strncmpChecked_turn (n : Nat) (hread : i < limit) :
    strncmpChecked (firstChars limit s1) (firstChars limit s2) (n + 1) i =
      if s1 i ≠ 0 ∧ s1 i = s2 i then strncmpChecked (firstChars limit s1) (firstChars limit s2) n (i + 1)
      else some (charInt (s1 i) - charInt (s2 i)) := by
  simp only [strncmpChecked, firstChars, hread, if_true, Option.bind_eq_bind, Option.bind_some]

/-- The comparison behind the last turn. -/
theorem strncmpChecked_last (hread : i < limit) :
    strncmpChecked (firstChars limit s1) (firstChars limit s2) 0 i =
      some (charInt (s1 i) - charInt (s2 i)) := by
  simp only [strncmpChecked, firstChars, hread, if_true, Option.bind_eq_bind, Option.bind_some]

theorem strncmpChecked_unread (n : Nat) (hread : ¬ i < limit) :
    strncmpChecked (firstChars limit s1) (firstChars limit s2) n i = none := by
  cases n <;> simp [strncmpChecked, firstChars, hread]

/-- The loop passes over the characters at which it goes on. -/
theorem strncmpChecked_skip {d : Nat} (n : Nat) (hgo : ∀ j < d, GoesOn s1 s2 (i + j)) (hread : i + d ≤ limit) :
    strncmpChecked (firstChars limit s1) (firstChars limit s2) (n + d) i =
      strncmpChecked (firstChars limit s1) (firstChars limit s2) n (i + d) := by
  induction d generalizing i with
  | zero => rfl
  | succ d ih =>
    have hshift (j : Nat) : i + 1 + j = i + (j + 1) := by omega
    have hfirst : s1 i ≠ 0 ∧ s1 i = s2 i := hgo 0 (Nat.succ_pos d)
    rw [← Nat.add_assoc, strncmpChecked_turn _ (by omega), if_pos hfirst,
      ih (fun j hj => hshift j ▸ hgo (j + 1) (Nat.succ_lt_succ hj)) (hshift d ▸ hread), hshift]

/-- The loop ends at the first character at which it does not go on. -/
theorem strncmpChecked_stop {d : Nat} (hgo : ∀ j < d, GoesOn s1 s2 (i + j)) (hstop : ¬ GoesOn s1 s2 (i + d))
    (hlimit : i + d < limit) (hd : d ≤ n) :
    strncmpChecked (firstChars limit s1) (firstChars limit s2) n i =
      some (charInt (s1 (i + d)) - charInt (s2 (i + d))) := by
  obtain ⟨n, rfl⟩ := Nat.exists_eq_add_of_le' hd
  rw [strncmpChecked_skip n hgo (Nat.le_of_lt hlimit)]
  cases n with
  | zero => exact strncmpChecked_last hlimit
  | succ n =>
    rw [strncmpChecked_turn n hlimit]
    exact if_neg hstop

/-- If it goes on over all `n` characters, it reads the next one. -/
theorem strncmpChecked_beyond (hgo : ∀ j < n, GoesOn s1 s2 (i + j)) (hlimit : limit = i + n) :
    strncmpChecked (firstChars limit s1) (firstChars limit s2) n i = none := by
  have hskip := strncmpChecked_skip 0 hgo (Nat.le_of_eq hlimit.symm)
  rw [Nat.zero_add] at hskip
  rw [hskip]
  exact strncmpChecked_unread 0 (Nat.not_lt.mpr (Nat.le_of_eq hlimit))

end

/-- The first character at which the loop does not go on decides. -/
theorem comparesFirst_of_stop (hgo : ∀ j < k, GoesOn s1 s2 j) (hstop : ¬ GoesOn s1 s2 k) (hk : k < n) :
    ComparesFirst s1 s2 n (charInt (s1 k) - charInt (s2 k)) := by
  refine ⟨?_, fun d _ hbefore hne => ?_⟩
  · rw [charInt_sub_eq_zero]
    constructor
    · intro heq
      have hnul : s1 k = 0 := by
        by_contra hne
        exact hstop ⟨hne, heq⟩
      refine .inr ⟨k, hk, hnul, fun j hj => ?_⟩
      rcases Nat.lt_or_eq_of_le hj with hlt | rfl
      · exact (hgo j hlt).2
      · exact heq
    · rintro (hall | ⟨l, -, hnul, hall⟩)
      · exact hall k hk
      · -- The common NUL is not before `k`.
        exact hall k (Nat.le_of_not_lt fun hlt => (hgo l hlt).1 hnul)
  · have hd : d = k := by
      rcases Nat.lt_trichotomy d k with hlt | heq | hgt
      · exact absurd (hgo d hlt).2 hne
      · exact heq
      · exact absurd (hbefore k hgt) hstop
    rw [hd]

theorem exists_comparesFirst (hstop : ∃ k < n, ¬ GoesOn s1 s2 k) :
    ∃ r, strncmpChecked (firstChars n s1) (firstChars n s2) n 0 = some r ∧ ComparesFirst s1 s2 n r := by
  classical
  obtain ⟨hlt, hfirst⟩ := Nat.find_spec hstop
  have hbefore : ∀ j < Nat.find hstop, GoesOn s1 s2 j := fun j hj => by
    by_contra hends
    exact Nat.find_min hstop hj ⟨Nat.lt_trans hj hlt, hends⟩
  have hresult := strncmpChecked_stop (i := 0) (n := n) (d := Nat.find hstop)
    (by simpa only [Nat.zero_add] using hbefore) (by rwa [Nat.zero_add]) (by rwa [Nat.zero_add]) hlt.le
  rw [Nat.zero_add] at hresult
  exact ⟨_, hresult, comparesFirst_of_stop hbefore hfirst hlt⟩

theorem not_goesOn_iff : ¬ GoesOn s1 s2 k ↔ s1 k = 0 ∨ s1 k ≠ s2 k := by
  rw [GoesOn, not_and_or, not_not]

/-- For all strings and every `n`: `strncmp` compares the first `n` characters, without reading any other, iff one
string ends among them or they differ there. -/
theorem strncmpChecked_compares_iff (a b : List UInt8) (n : Nat) :
    (∃ r, strncmpChecked (firstChars n (stringBytes a)) (firstChars n (stringBytes b)) n 0 = some r ∧
        ComparesFirst (stringBytes a) (stringBytes b) n r) ↔
      ∃ k < n, stringBytes a k = 0 ∨ stringBytes a k ≠ stringBytes b k := by
  simp only [← not_goesOn_iff]
  constructor
  · rintro ⟨r, hr, -⟩
    by_contra hnone
    have hgo : ∀ j < n, GoesOn (stringBytes a) (stringBytes b) (0 + j) := fun j hj => by
      by_contra hstop
      rw [Nat.zero_add] at hstop
      exact hnone ⟨j, hj, hstop⟩
    rw [strncmpChecked_beyond hgo (Nat.zero_add n).symm] at hr
    cases hr
  · exact exists_comparesFirst

/-- `ab` and `ac` agree on their first character; the second one is compared all the same. -/
theorem not_strncmpChecked_compares :
    strncmp (stringBytes [0x61, 0x62]) (stringBytes [0x61, 0x63]) 1 0 = -1 ∧
      ¬ ∃ r, strncmpChecked (firstChars 1 (stringBytes [0x61, 0x62])) (firstChars 1 (stringBytes [0x61, 0x63])) 1 0 =
          some r ∧ ComparesFirst (stringBytes [0x61, 0x62]) (stringBytes [0x61, 0x63]) 1 r := by
  refine ⟨by decide, ?_⟩
  rintro ⟨r, hr, -⟩
  cases hr

/-- What is read of the first characters only is what `strncmp` returns. -/
theorem strncmp_of_checked {limit : Nat} {r : Int}
    (h : strncmpChecked (firstChars limit s1) (firstChars limit s2) n i = some r) : strncmp s1 s2 n i = r := by
  induction n generalizing i with
  | zero =>
    by_cases hread : i < limit
    · rw [strncmpChecked_last hread] at h
      exact Option.some.inj h
    · rw [strncmpChecked_unread 0 hread] at h
      cases h
  | succ n ih =>
    by_cases hread : i < limit
    · rw [strncmpChecked_turn n hread] at h
      rw [strncmp]
      split at h
      · next hgo =>
        rw [if_pos hgo]
        exact ih h
      · next hstop =>
        rw [if_neg hstop]
        exact Option.some.inj h
    · rw [strncmpChecked_unread _ hread] at h
      cases h

/-- A string that is shorter than the bound is compared as it should be. -/
theorem strncmp_of_length_lt {a : List UInt8} {n : Nat} (b : List UInt8) (h : a.length < n) :
    ComparesFirst (stringBytes a) (stringBytes b) n (strncmp (stringBytes a) (stringBytes b) n 0) := by
  have hend : stringBytes a a.length = 0 := by simp [stringBytes]
  have hstop : ∃ k < n, ¬ GoesOn (stringBytes a) (stringBytes b) k :=
    ⟨a.length, h, not_goesOn_iff.mpr (.inl hend)⟩
  obtain ⟨r, hr, hfirst⟩ := exists_comparesFirst hstop
  rw [strncmp_of_checked hr]
  exact hfirst

end TalOS
