-- SUMMARY: The string functions: `strncmp`, `memcmp`, `strncpy`, and `strtok_r` with the delimiter of paths.
import Mathlib.Data.List.TakeWhile
import Mathlib.Tactic.Common

/-!
# Strings

A string argument is the list of its bytes before the NUL. A character array may
lack a NUL: `CharBuf` is the bytes up to the first one, or all bytes of the array.
Reading on behind an array without a NUL has no result.
-/

namespace TalOS

def SLASH : UInt8 := 0x2f

/-! ## `strncmp` -/

/-- The memory a string points to. -/
def stringBytes (s : List UInt8) : Nat → UInt8 := fun i => s.getD i 0

/-- `char` is signed. -/
def charInt (c : UInt8) : Int := if c < 128 then c.toNat else c.toNat - 256

/-- `strncmp` from position `i` on. When the first `n` characters agree it
compares one more. -/
def strncmp (s1 s2 : Nat → UInt8) : Nat → Nat → Int
  | 0, i => charInt (s1 i) - charInt (s2 i)
  | n + 1, i =>
    if s1 i ≠ 0 ∧ s1 i = s2 i then strncmp s1 s2 n (i + 1) else charInt (s1 i) - charInt (s2 i)

theorem charInt_sub_eq_zero {c d : UInt8} : charInt c - charInt d = 0 ↔ c = d := by
  constructor
  · intro h
    unfold charInt at h
    have hc := c.toNat_lt
    have hd := d.toNat_lt
    apply UInt8.toNat_inj.mp
    simp only [UInt8.lt_iff_toNat_lt, UInt8.reduceToNat] at h
    split at h <;> split at h <;> omega
  · rintro rfl
    exact Int.sub_self _

/-- Two strings compare equal iff they agree up to a common NUL, or on the first
`n` characters and the one behind them. -/
theorem strncmp_eq_zero_iff {s1 s2 : Nat → UInt8} {n i : Nat} :
    strncmp s1 s2 n i = 0 ↔
      ∃ k ≤ n, (∀ j < k, s1 (i + j) ≠ 0 ∧ s1 (i + j) = s2 (i + j)) ∧ s1 (i + k) = s2 (i + k) ∧
        (k < n → s1 (i + k) = 0) := by
  induction n generalizing i with
  | zero =>
    rw [strncmp, charInt_sub_eq_zero]
    constructor
    · exact fun h => ⟨0, Nat.le_refl _, nofun, h, nofun⟩
    · rintro ⟨k, hk, -, heq, -⟩
      obtain rfl := Nat.le_zero.mp hk
      exact heq
  | succ n ih =>
    rw [strncmp]
    split
    case isTrue hgo =>
      -- One more byte that agrees: the place where the comparison ends moves by one.
      rw [ih]
      constructor
      · rintro ⟨k, hk, hpre, heq, hnul⟩
        refine ⟨k + 1, Nat.succ_le_succ hk, fun j hj => ?_, ?_, fun hlt => ?_⟩
        · cases j with
          | zero => exact hgo
          | succ j =>
            have hj' := hpre j (Nat.lt_of_succ_lt_succ hj)
            rwa [Nat.add_right_comm, Nat.add_assoc] at hj'
        · rwa [Nat.add_right_comm, Nat.add_assoc] at heq
        · have hzero := hnul (Nat.lt_of_succ_lt_succ hlt)
          rwa [Nat.add_right_comm, Nat.add_assoc] at hzero
      · rintro ⟨k, hk, hpre, heq, hnul⟩
        cases k with
        | zero => exact absurd (hnul (Nat.succ_pos n)) hgo.1
        | succ k =>
          have hshift : ∀ j, i + 1 + j = i + (j + 1) := fun j => by
            rw [Nat.add_right_comm, Nat.add_assoc]
          refine ⟨k, Nat.le_of_succ_le_succ hk, fun j hj => ?_, ?_, fun hlt => ?_⟩
          · rw [hshift]
            exact hpre (j + 1) (Nat.succ_lt_succ hj)
          · rw [hshift]
            exact heq
          · rw [hshift]
            exact hnul (Nat.succ_lt_succ hlt)
    case isFalse hstop =>
      -- The comparison ends here, at the end of a string or at a difference.
      rw [charInt_sub_eq_zero]
      constructor
      · intro h
        refine ⟨0, Nat.zero_le _, nofun, h, fun _ => ?_⟩
        by_contra hne
        exact hstop ⟨hne, h⟩
      · rintro ⟨k, -, hpre, heq, -⟩
        cases k with
        | zero => exact heq
        | succ k => exact absurd (hpre 0 (Nat.succ_pos k)) hstop

/-! ## `memcmp` -/

/-- `memcmp` from position `i` on, over bytes as unsigned numbers; no result where it would read a byte
that cannot be read. -/
def memcmp (a b : Nat → Option Nat) (i : Nat) : Nat → Option Int
  | 0 => some 0
  | size + 1 => do
    let x ← a i
    let y ← b i
    if x < y then some (-1) else if y < x then some 1 else memcmp a b (i + 1) size

theorem memcmp_eq_zero_iff {a b : Nat → Option Nat} {i size : Nat} :
    memcmp a b i size = some 0 ↔ ∀ j < size, ∃ x, a (i + j) = some x ∧ b (i + j) = some x := by
  induction size generalizing i with
  | zero => simp [memcmp]
  | succ size ih =>
    have hhead : memcmp a b i (size + 1) = some 0 ↔
        (∃ x, a i = some x ∧ b i = some x) ∧ memcmp a b (i + 1) size = some 0 := by
      rw [memcmp]
      cases ha : a i with
      | none => simp
      | some x =>
        cases hb : b i with
        | none => simp
        | some y =>
          rcases Nat.lt_trichotomy x y with hlt | rfl | hlt
          · simp [hlt, hlt.ne']
          · simp
          · simp [hlt, hlt.ne, hlt.not_gt]
    rw [hhead, ih]
    constructor
    · rintro ⟨hfirst, hrest⟩ j hj
      cases j with
      | zero => exact hfirst
      | succ j =>
        rw [← Nat.add_assoc, Nat.add_right_comm]
        exact hrest j (Nat.lt_of_succ_lt_succ hj)
    · intro h
      refine ⟨h 0 (Nat.succ_pos size), fun j hj => ?_⟩
      rw [Nat.add_right_comm, Nat.add_assoc]
      exact h (j + 1) (Nat.succ_lt_succ hj)

/-! ## Character arrays -/

/-- A character array: its bytes up to the first NUL, or all of them. -/
structure CharBuf where
  bytes : List UInt8
  terminated : Bool
deriving Repr, DecidableEq

/-- `strncpy` into an array of `n` characters. -/
def strncpy (src : List UInt8) (n : Nat) : CharBuf := ⟨src.take n, src.length < n⟩

/-- `strtok_r` with the delimiter `"/"`: the token, and what `saveptr` is left
pointing to. -/
def strtokR (str : CharBuf) : Option (Option (List UInt8) × Option CharBuf) :=
  let token := str.bytes.dropWhile (· == SLASH)
  match token.dropWhile (· != SLASH) with
  | _ :: rest => some (some (token.takeWhile (· != SLASH)), some ⟨rest, str.terminated⟩)
  | [] => if str.terminated then some (if token = [] then none else some token, none) else none

/-- `strtok_r(NULL, ..)`: without a saved position there is no further token. -/
def strtokNext : Option CharBuf → Option (Option (List UInt8) × Option CharBuf)
  | none => some (none, none)
  | some str => strtokR str

/-! ## Components of a path -/

/-- The first component (empty if the path starts with a slash) and the others. -/
def splitPath : List UInt8 → List UInt8 × List (List UInt8)
  | [] => ([], [])
  | c :: cs =>
    let r := splitPath cs
    if c = SLASH then ([], if r.1 = [] then r.2 else r.1 :: r.2) else (c :: r.1, r.2)

/-- The components of a path: what is between its slashes, empty parts left out. -/
def comps (path : List UInt8) : List (List UInt8) :=
  if (splitPath path).1 = [] then (splitPath path).2 else (splitPath path).1 :: (splitPath path).2

@[simp] theorem comps_nil : comps [] = [] := rfl

theorem comps_slash (path : List UInt8) : comps (SLASH :: path) = comps path := by
  rw [comps, splitPath, if_pos rfl, if_pos rfl]
  rfl

theorem splitPath_append_slash (path rest : List UInt8) :
    splitPath (path ++ SLASH :: rest) =
      ((splitPath path).1, (splitPath path).2 ++ comps rest) := by
  induction path with
  | nil =>
    show splitPath (SLASH :: rest) = ([], comps rest)
    rw [splitPath, if_pos rfl]
    rfl
  | cons c cs ih =>
    rw [List.cons_append, splitPath, splitPath, ih]
    dsimp only
    split
    · split <;> rfl
    · rfl

/-- Components on both sides of a slash. -/
theorem comps_append_slash (path rest : List UInt8) :
    comps (path ++ SLASH :: rest) = comps path ++ comps rest := by
  rw [comps, splitPath_append_slash]
  conv => rhs; rw [comps]
  dsimp only
  split <;> rfl

theorem splitPath_of_no_slash {word : List UInt8} (h : SLASH ∉ word) :
    splitPath word = (word, []) := by
  induction word with
  | nil => rfl
  | cons c cs ih =>
    rw [List.mem_cons, not_or] at h
    rw [splitPath, ih h.2, if_neg (Ne.symm h.1)]

theorem comps_of_no_slash {word : List UInt8} (h : SLASH ∉ word) :
    comps word = if word = [] then [] else [word] := by
  rw [comps, splitPath_of_no_slash h]

theorem splitPath_parts (path : List UInt8) :
    (splitPath path).1 <+: path ∧ ∀ word ∈ (splitPath path).2, word <:+: path := by
  induction path with
  | nil => exact ⟨List.nil_prefix, nofun⟩
  | cons c cs ih =>
    obtain ⟨hfirst, hothers⟩ := ih
    have hlater {word : List UInt8} (h : word <:+: cs) : word <:+: c :: cs :=
      h.trans (List.suffix_cons c cs).isInfix
    rw [splitPath]
    split
    · refine ⟨List.nil_prefix, ?_⟩
      split
      · exact fun word hword => hlater (hothers word hword)
      · intro word hword
        rcases List.mem_cons.mp hword with rfl | hmem
        · exact hlater hfirst.isInfix
        · exact hlater (hothers word hmem)
    · exact ⟨List.cons_prefix_cons.mpr ⟨rfl, hfirst⟩, fun word hword => hlater (hothers word hword)⟩

/-- A component is a part of the path. -/
theorem comps_part {path word : List UInt8} (h : word ∈ comps path) : word <:+: path := by
  obtain ⟨hfirst, hothers⟩ := splitPath_parts path
  rw [comps] at h
  split at h
  · exact hothers word h
  · rcases List.mem_cons.mp h with rfl | hmem
    · exact hfirst.isInfix
    · exact hothers word hmem

/-- A path without slash, or what stands before the first slash and what behind it. -/
theorem split_firstSlash (path : List UInt8) :
    SLASH ∉ path ∨ ∃ word tail, path = word ++ SLASH :: tail ∧ SLASH ∉ word := by
  induction path with
  | nil => exact .inl List.not_mem_nil
  | cons c cs ih =>
    by_cases hc : c = SLASH
    · exact .inr ⟨[], cs, congrArg (· :: cs) hc, List.not_mem_nil⟩
    · rcases ih with hnone | ⟨word, tail, rfl, hword⟩
      · refine .inl ?_
        rw [List.mem_cons, not_or]
        exact ⟨Ne.symm hc, hnone⟩
      · refine .inr ⟨c :: word, tail, rfl, ?_⟩
        rw [List.mem_cons, not_or]
        exact ⟨Ne.symm hc, hword⟩

/-- `strtok_r` takes the components off one by one. -/
theorem strtokR_terminated (bytes : List UInt8) :
    ∃ token save, strtokR ⟨bytes, true⟩ = some (token, save) ∧
      match token with
      | none => comps bytes = []
      | some word =>
        match save with
        | none => comps bytes = [word]
        | some rest => comps bytes = word :: comps rest.bytes ∧ rest.terminated = true ∧
            rest.bytes.length < bytes.length := by
  induction bytes with
  | nil => exact ⟨none, none, rfl, rfl⟩
  | cons c cs ih =>
    by_cases hc : c = SLASH
    · -- A leading slash is skipped.
      obtain ⟨token, save, hrun, hspec⟩ := ih
      have hskip : strtokR ⟨c :: cs, true⟩ = strtokR ⟨cs, true⟩ := by
        rw [strtokR, strtokR, List.dropWhile_cons_of_pos (by simpa using hc)]
      refine ⟨token, save, hskip.trans hrun, ?_⟩
      rw [hc, comps_slash]
      cases token with
      | none => exact hspec
      | some word =>
        cases save with
        | none => exact hspec
        | some rest => exact ⟨hspec.1, hspec.2.1, Nat.lt_succ_of_lt hspec.2.2⟩
    · -- The word goes up to the next slash or the end.
      have hdrop : (c :: cs).dropWhile (· == SLASH) = c :: cs :=
        List.dropWhile_cons_of_neg (by simpa using hc)
      have hsplit := List.takeWhile_append_dropWhile (p := (· != SLASH)) (l := c :: cs)
      have hword : SLASH ∉ (c :: cs).takeWhile (· != SLASH) := by
        intro hmem
        have hne := List.mem_takeWhile_imp hmem
        simp at hne
      have hne : (c :: cs).takeWhile (· != SLASH) ≠ [] := by
        rw [List.takeWhile_cons_of_pos (by simpa using hc)]
        exact List.cons_ne_nil _ _
      rw [strtokR]
      dsimp only
      rw [hdrop]
      cases hrest : (c :: cs).dropWhile (· != SLASH) with
      | nil =>
        rw [hrest, List.append_nil] at hsplit
        refine ⟨some (c :: cs), none, ?_, ?_⟩
        · dsimp only
          rw [if_pos rfl, if_neg (List.cons_ne_nil _ _)]
        · dsimp only
          rw [← hsplit, comps_of_no_slash hword, if_neg hne]
      | cons d rest =>
        have hd : d = SLASH := by
          have hhead := List.head_dropWhile_not (· != SLASH) (l := c :: cs)
            (by rw [hrest]; exact List.cons_ne_nil _ _)
          simp only [hrest, List.head_cons] at hhead
          simpa using hhead
        refine ⟨some ((c :: cs).takeWhile (· != SLASH)), some ⟨rest, true⟩, rfl, ?_, rfl, ?_⟩
        · conv => lhs; rw [← hsplit, hrest, hd]
          rw [comps_append_slash, comps_of_no_slash hword, if_neg hne]
          rfl
        · have hlen := congrArg List.length hsplit
          rw [hrest, List.length_append, List.length_cons] at hlen
          show rest.length < (c :: cs).length
          omega

/-- The components that are left at a saved position. -/
def compsLeft : Option CharBuf → List (List UInt8)
  | none => []
  | some str => comps str.bytes

/-- Each call that returns a token leaves less. -/
def bytesLeft : Option CharBuf → Nat
  | none => 0
  | some str => str.bytes.length + 1

/-- The calls return the components one after the other, and then `NULL`. -/
theorem strtokNext_compsLeft {saved : Option CharBuf} (hsaved : ∀ str ∈ saved, str.terminated = true) :
    ∃ token save, strtokNext saved = some (token, save) ∧
      match token with
      | none => compsLeft saved = []
      | some word => compsLeft saved = word :: compsLeft save ∧ bytesLeft save < bytesLeft saved ∧
          ∀ str ∈ save, str.terminated = true := by
  cases saved with
  | none => exact ⟨none, none, rfl, rfl⟩
  | some str =>
    obtain ⟨bytes, terminated⟩ := str
    obtain rfl : terminated = true := hsaved _ rfl
    obtain ⟨token, save, hrun, hspec⟩ := strtokR_terminated bytes
    refine ⟨token, save, hrun, ?_⟩
    cases token with
    | none => exact hspec
    | some word =>
      cases save with
      | none => exact ⟨hspec, Nat.succ_pos _, by simp⟩
      | some rest =>
        obtain ⟨hcomps, hterm, hlen⟩ := hspec
        exact ⟨hcomps, Nat.succ_lt_succ hlen, fun str hstr => Option.mem_some.mp hstr ▸ hterm⟩

/-- Induction over the tokens that are left, for a loop with a turn for each of them. -/
theorem tokens_induction {motive : Nat → Option CharBuf → Prop}
    (done : ∀ fuel saved save, strtokNext saved = some (none, save) → compsLeft saved = [] →
      motive (fuel + 1) saved)
    (token : ∀ fuel saved word save, strtokNext saved = some (some word, save) →
      compsLeft saved = word :: compsLeft save → motive fuel save → motive (fuel + 1) saved)
    {fuel : Nat} {saved : Option CharBuf} (hsaved : ∀ str ∈ saved, str.terminated = true)
    (hfuel : bytesLeft saved < fuel) : motive fuel saved := by
  induction fuel generalizing saved with
  | zero => cases hfuel
  | succ fuel ih =>
    obtain ⟨next, save, hrun, hspec⟩ := strtokNext_compsLeft hsaved
    cases next with
    | none => exact done fuel saved save hrun hspec
    | some word =>
      obtain ⟨hcomps, hless, hsave⟩ := hspec
      exact token fuel saved word save hrun hcomps (ih hsave (Nat.lt_of_lt_of_le hless (Nat.le_of_lt_succ hfuel)))

end TalOS
