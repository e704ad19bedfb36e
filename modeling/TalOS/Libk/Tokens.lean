-- SUMMARY: `strtok_r` on the bytes in memory: its tokens are the maximal runs between delimiters, ended in place.
import TalOS.Lib.Segments
import TalOS.Libk.String

/-!
# `strtok_r` in memory

A buffer is the bytes of a string with its NUL, a pointer into it a position. There is no
result where a byte outside of the buffer would be read, or a loop would go on for ever.
The tokenizer of paths, which returns the tokens themselves, is what the calls with the
delimiter `"/"` do.
-/

namespace TalOS

open Segments

def SIZE_MAX : Nat := 0xFFFFFFFF

/-- The loop of `strnlen`, with `left` characters left to count. -/
def strnlen (str : List UInt8) (len : Nat) : Nat → Option Nat
  | 0 => (str[len]?).map fun _ => len
  | left + 1 => do
    let c ← str[len]?
    if c ≠ 0 then strnlen str (len + 1) left else some len

/-- `strlen` -/
def strlen (str : List UInt8) : Option Nat := strnlen str 0 SIZE_MAX

namespace Tokens

/-- The bytes from a pointer on, as `memcmp` reads them. -/
def bytesFrom (buf : List UInt8) (ptr : Nat) : Nat → Option Nat := fun i => (buf[ptr + i]?).map UInt8.toNat

/-- `while(memcmp(token, delim, delimLen) == 0)`: with `n` turns left it gives the new `token`. -/
def skipLoop (buf delim : List UInt8) (delimLen : Nat) : Nat → Nat → Option Nat
  | 0, _ => none
  | n + 1, token => do
    let cmp ← memcmp (bytesFrom buf token) (bytesFrom delim 0) 0 delimLen
    if cmp = 0 then skipLoop buf delim delimLen n (token + delimLen) else some token

/-- `while((memcmp(&token[count], delim, delimLen) != 0) && token[count] != '\0')`, in the same way for `count`. -/
def countLoop (buf delim : List UInt8) (delimLen token : Nat) : Nat → Nat → Option Nat
  | 0, _ => none
  | n + 1, count => do
    let cmp ← memcmp (bytesFrom buf (token + count)) (bytesFrom delim 0) 0 delimLen
    if cmp ≠ 0 then
      let c ← buf[token + count]?
      if c ≠ 0 then countLoop buf delim delimLen token n (count + 1) else some count
    else some count

/-- The string in memory, and `*saveptr`. -/
structure TokenState where
  buf : List UInt8
  saveptr : Option Nat
  deriving Repr, DecidableEq

/-- `strtok_r(str, delim, &saveptr)`, where `none` is `NULL`. Each of its loops takes at most one turn for each byte
of the buffer. -/
def strtokR (delim : List UInt8) (str : Option Nat) (st : TokenState) : Option (Option Nat × TokenState) :=
  match str.or st.saveptr with
  | none => some (none, st)
  | some start => do
    let delimLen ← strlen delim
    let token ← skipLoop st.buf delim delimLen st.buf.length start
    let count ← countLoop st.buf delim delimLen token st.buf.length 0
    let c ← st.buf[token + count]?
    if c ≠ 0 then
      some (some token, ⟨st.buf.set (token + count) 0, some (token + count + delimLen)⟩)
    else
      let first ← st.buf[token]?
      some (if first = 0 then none else some token, ⟨st.buf, none⟩)

/-- `n` calls of `strtok_r(NULL, delim, &saveptr)`: what they return. -/
def nextCalls (delim : List UInt8) : Nat → TokenState → Option (List (Option Nat) × TokenState)
  | 0, st => some ([], st)
  | n + 1, st => do
    let (ptr, st) ← strtokR delim none st
    let (ptrs, st) ← nextCalls delim n st
    some (ptr :: ptrs, st)

/-- The first `n` calls, of which only the very first passes the string. -/
def firstCalls (delim : List UInt8) (n : Nat) (st : TokenState) : Option (List (Option Nat) × TokenState) :=
  match n with
  | 0 => some ([], st)
  | n + 1 => do
    let (ptr, st) ← strtokR delim (some 0) st
    let (ptrs, st) ← nextCalls delim n st
    some (ptr :: ptrs, st)

/-! ## The loops -/

section
variable {α : Type} {l rest : List α} {t : Nat} {c : α}

theorem getElem?_of_drop (h : l.drop t = c :: rest) : l[t]? = some c := by
  have hhead := congrArg List.head? h
  rwa [List.head?_drop] at hhead

theorem drop_of_append {word : List α} (h : l.drop t = word ++ rest) : l.drop (t + word.length) = rest := by
  rw [← List.drop_drop, h, List.drop_left]

theorem drop_succ (h : l.drop t = c :: rest) : l.drop (t + 1) = rest := by
  rw [← List.drop_drop, h]
  rfl

end

section
variable {d : UInt8} {buf : List UInt8}

/-- `strnlen` counts up to the NUL. -/
theorem strnlen_eq {word rest : List UInt8} {len left : Nat} (h : buf.drop len = word ++ 0 :: rest)
    (hword : 0 ∉ word) (hleft : word.length ≤ left) : strnlen buf len left = some (len + word.length) := by
  induction word generalizing len left with
  | nil =>
    have hbyte := getElem?_of_drop h
    cases left with
    | zero => simp [strnlen, hbyte]
    | succ left => simp [strnlen, hbyte]
  | cons c word ih =>
    rw [List.mem_cons, not_or] at hword
    cases left with
    | zero => exact absurd hleft (Nat.not_succ_le_zero _)
    | succ left =>
      have hnext := ih (drop_succ h) hword.2 (Nat.le_of_succ_le_succ hleft)
      rw [strnlen, getElem?_of_drop h]
      simp only [Option.bind_eq_bind, Option.bind_some, ne_eq, Ne.symm hword.1, not_false_iff, if_true]
      rw [hnext, List.length_cons, Nat.add_assoc, Nat.add_comm 1]

theorem strlen_one (hd : d ≠ 0) : strlen [d, 0] = some 1 := by
  have hdelim : List.drop 0 [d, 0] = [d] ++ 0 :: [] := rfl
  exact strnlen_eq hdelim (by simpa using hd.symm) (Nat.le_of_ble_eq_true rfl)

/-- Comparing one byte. -/
theorem memcmp_one (d : UInt8) {t : Nat} {c : UInt8} (h : buf[t]? = some c) :
    ∃ r, memcmp (bytesFrom buf t) (bytesFrom [d, 0] 0) 0 1 = some r ∧ (r = 0 ↔ c = d) := by
  have hc : bytesFrom buf t 0 = some c.toNat := congrArg (Option.map UInt8.toNat) h
  have hd : bytesFrom [d, 0] 0 0 = some d.toNat := rfl
  rw [← UInt8.toNat_inj]
  simp only [memcmp, hc, hd, Option.bind_eq_bind, Option.bind_some]
  rcases Nat.lt_trichotomy c.toNat d.toNat with hlt | heq | hlt
  · exact ⟨-1, if_pos hlt, by simp [hlt.ne]⟩
  · exact ⟨0, by simp [heq], by simp [heq]⟩
  · exact ⟨1, by rw [if_neg hlt.not_gt, if_pos hlt], by simp [hlt.ne']⟩

/-- Leading delimiters are skipped. -/
theorem skipLoop_eq {delims rest : List UInt8} {e : UInt8} {n t : Nat} (h : buf.drop t = delims ++ e :: rest)
    (hdelims : ∀ c ∈ delims, c = d) (he : e ≠ d) (hn : delims.length < n) :
    skipLoop buf [d, 0] 1 n t = some (t + delims.length) := by
  induction delims generalizing t n with
  | nil =>
    obtain ⟨n, rfl⟩ := Nat.exists_eq_add_of_lt hn
    obtain ⟨r, hr, hzero⟩ := memcmp_one d (getElem?_of_drop h)
    simp [skipLoop, hr, hzero, he]
  | cons c delims ih =>
    obtain ⟨n, rfl⟩ := Nat.exists_eq_add_of_lt hn
    obtain ⟨hc, hrest⟩ := List.forall_mem_cons.mp hdelims
    obtain ⟨r, hr, hzero⟩ := memcmp_one d (getElem?_of_drop h)
    have hnext := ih (n := (c :: delims).length + n) (drop_succ h) hrest (by rw [List.length_cons]; omega)
    rw [skipLoop, hr]
    simp only [Option.bind_eq_bind, Option.bind_some, hzero.mpr hc, if_true]
    rw [hnext, List.length_cons, Nat.add_assoc, Nat.add_comm 1]

/-- A token goes up to the next delimiter or to the NUL. -/
theorem countLoop_eq {word rest : List UInt8} {e : UInt8} {n token count : Nat}
    (h : buf.drop (token + count) = word ++ e :: rest) (hword : ∀ c ∈ word, c ≠ d ∧ c ≠ 0) (he : e = d ∨ e = 0)
    (hn : word.length < n) : countLoop buf [d, 0] 1 token n count = some (count + word.length) := by
  induction word generalizing count n with
  | nil =>
    obtain ⟨n, rfl⟩ := Nat.exists_eq_add_of_lt hn
    have hbyte := getElem?_of_drop h
    obtain ⟨r, hr, hzero⟩ := memcmp_one d hbyte
    rcases he with rfl | rfl
    · simp [countLoop, hr, hzero]
    · simp [countLoop, hr, hbyte]
  | cons c word ih =>
    obtain ⟨n, rfl⟩ := Nat.exists_eq_add_of_lt hn
    obtain ⟨⟨hne, hnul⟩, hrest⟩ := List.forall_mem_cons.mp hword
    have hbyte := getElem?_of_drop h
    obtain ⟨r, hr, hzero⟩ := memcmp_one d hbyte
    have hbehind : buf.drop (token + (count + 1)) = word ++ e :: rest := drop_succ h
    have hnext := ih (n := (c :: word).length + n) hbehind hrest (by rw [List.length_cons]; omega)
    rw [countLoop, hr]
    simp only [Option.bind_eq_bind, Option.bind_some, ne_eq, hzero, hne, not_false_iff, if_true, hbyte, hnul]
    rw [hnext, List.length_cons, Nat.add_assoc, Nat.add_comm 1]

/-- One call from a position on: `delims` is skipped, `word` is the token, `tail` starts with the delimiter behind
it or is empty. -/
theorem strtokR_from {pos : Nat} {delims word tail : List UInt8} (hd : d ≠ 0)
    (hbuf : buf.drop pos = delims ++ (word ++ (tail ++ [0]))) (hdelims : ∀ c ∈ delims, c = d)
    (hword : ∀ c ∈ word, c ≠ d ∧ c ≠ 0) (htail : ∀ c ∈ tail.head?, c = d) (hempty : word = [] → tail = []) :
    strtokR [d, 0] none ⟨buf, some pos⟩ =
      if tail = [] then some (if word = [] then none else some (pos + delims.length), ⟨buf, none⟩)
      else some (some (pos + delims.length), ⟨buf.set (pos + delims.length + word.length) 0,
        some (pos + delims.length + word.length + 1)⟩) := by
  have hlength : delims.length + (word.length + (tail.length + 1)) ≤ buf.length := by
    have hdrop := congrArg List.length hbuf
    simp only [List.length_drop, List.length_append, List.length_singleton] at hdrop
    omega
  have htoken : buf.drop (pos + delims.length) = word ++ (tail ++ [0]) := drop_of_append hbuf
  have hend : buf.drop (pos + delims.length + word.length) = tail ++ [0] := drop_of_append htoken
  -- What is behind the delimiters is the token, or the NUL.
  obtain ⟨first, rest, hfirst, hne, hnul⟩ : ∃ first rest, word ++ (tail ++ [0]) = first :: rest ∧ first ≠ d ∧
      (first = 0 ↔ word = []) := by
    cases word with
    | nil => exact ⟨0, [], by rw [hempty rfl]; rfl, hd.symm, by simp⟩
    | cons c word =>
      obtain ⟨hne, hnul⟩ := hword c List.mem_cons_self
      exact ⟨c, _, rfl, hne, by simp [hnul]⟩
  -- What is behind the token is a delimiter, or the NUL.
  obtain ⟨last, rest', hlast, hlast'⟩ : ∃ last rest', tail ++ [0] = last :: rest' ∧
      if tail = [] then last = 0 else last = d := by
    cases tail with
    | nil => exact ⟨0, [], rfl, rfl⟩
    | cons c tail => exact ⟨c, _, rfl, htail c rfl⟩
  have hskip : skipLoop buf [d, 0] 1 buf.length pos = some (pos + delims.length) :=
    skipLoop_eq (hfirst ▸ hbuf) hdelims hne (by omega)
  have hcount : countLoop buf [d, 0] 1 (pos + delims.length) buf.length 0 = some (0 + word.length) := by
    have htoken' : buf.drop (pos + delims.length + 0) = word ++ last :: rest' := hlast ▸ htoken
    refine countLoop_eq htoken' hword ?_ (by omega)
    split_ifs at hlast' with htail'
    · exact .inr hlast'
    · exact .inl hlast'
  have hbyte : buf[pos + delims.length + word.length]? = some last := getElem?_of_drop (hend.trans hlast)
  have hhead : buf[pos + delims.length]? = some first := getElem?_of_drop (htoken.trans hfirst)
  simp only [strtokR, Option.none_or, strlen_one hd, hskip, hcount, hbyte, hhead, Nat.zero_add, Option.bind_eq_bind,
    Option.bind_some]
  by_cases htail' : tail = []
  · rw [if_pos htail'] at hlast' ⊢
    rw [if_neg (not_not.mpr hlast')]
    simp only [hnul]
  · rw [if_neg htail'] at hlast' ⊢
    rw [if_pos (hlast' ▸ hd)]

end

/-! ## Runs of calls -/

/-- The positions at which the tokens start. -/
def tokenStarts (s : List UInt8) (d : UInt8) : List Nat := starts (· != d) false 0 s

/-- What the first `m` calls have left: the bytes are those of `s`, delimiters apart that have become NULs; the
tokens that were returned are ended; and the next call starts behind them. -/
structure TokenInv (s : List UInt8) (d : UInt8) (m : Nat) (st : TokenState) : Prop where
  length : st.buf.length = s.length + 1
  bytes : ∀ i : Nat, st.buf[i]? = (s ++ [0])[i]? ∨ s[i]? = some d ∧ st.buf[i]? = some 0
  ended : ∀ i ∈ (tokenStarts s d).take m, st.buf[i + runLength (· != d) s i]? = some 0
  rest : match st.saveptr with
    | none => (tokenStarts s d).length ≤ m
    | some pos => st.buf.drop pos = s.drop pos ++ [0] ∧
        (tokenStarts s d).drop m = starts (· != d) false pos (s.drop pos)

theorem TokenInv.start (s : List UInt8) (d : UInt8) : TokenInv s d 0 ⟨s ++ [0], some 0⟩ where
  length := by simp
  bytes := fun _ => .inl rfl
  ended := by simp
  rest := by simp [tokenStarts]

/-- The rest of a string, cut where the next token starts and ends. -/
theorem split_token (l : List UInt8) (d : UInt8) :
    ∃ delims word tail, l = delims ++ (word ++ tail) ∧ (∀ c ∈ delims, c = d) ∧ (∀ c ∈ word, c ≠ d) ∧
      (∀ c ∈ tail.head?, c = d) ∧ (word = [] → tail = []) := by
  refine ⟨l.takeWhile (· == d), (l.dropWhile (· == d)).takeWhile (· != d),
    (l.dropWhile (· == d)).dropWhile (· != d), ?_, fun c hc => ?_, fun c hc => ?_, fun c hc => ?_, fun hempty => ?_⟩
  · rw [List.takeWhile_append_dropWhile, List.takeWhile_append_dropWhile]
  · simpa using List.mem_takeWhile_imp hc
  · simpa using List.mem_takeWhile_imp hc
  · have hhead := List.head?_dropWhile_not (· != d) (l.dropWhile (· == d))
    rw [Option.mem_def.mp hc] at hhead
    simpa using hhead
  · have hhead := List.head?_dropWhile_not (· == d) l
    cases hrest : l.dropWhile (· == d) with
    | nil => rfl
    | cons c rest =>
      rw [hrest] at hhead hempty
      have hc : c ≠ d := by simpa using hhead
      rw [List.takeWhile_cons_of_pos (by simpa using hc)] at hempty
      exact absurd hempty (List.cons_ne_nil _ _)

section
variable {s buf : List UInt8} {d : UInt8} {m : Nat} {saveptr : Option Nat}

/-- There is no token behind the last one. -/
theorem TokenInv.none_left (h : TokenInv s d m ⟨buf, saveptr⟩) (hused : (tokenStarts s d).length ≤ m) :
    TokenInv s d (m + 1) ⟨buf, none⟩ := by
  refine ⟨h.length, h.bytes, ?_, Nat.le_succ_of_le hused⟩
  have hended := h.ended
  rwa [List.take_of_length_le hused, ← List.take_of_length_le (Nat.le_succ_of_le hused)] at hended

/-- One token more is ended. -/
theorem TokenInv.ended_succ {buf' : List UInt8} {start : Nat} (h : TokenInv s d m ⟨buf, saveptr⟩)
    (hget : (tokenStarts s d)[m]? = some start) (hold : ∀ i : Nat, buf[i]? = some 0 → buf'[i]? = some 0)
    (hnew : buf'[start + runLength (· != d) s start]? = some 0) :
    ∀ i ∈ (tokenStarts s d).take (m + 1), buf'[i + runLength (· != d) s i]? = some 0 := by
  rw [List.take_add_one, hget, List.forall_mem_append]
  refine ⟨fun i hi => hold _ (h.ended i hi), ?_⟩
  simpa using hnew

/-- The delimiter at position `e`, behind a token, becomes its NUL. -/
theorem TokenInv.cut {start e : Nat} (h : TokenInv s d m ⟨buf, saveptr⟩)
    (hget : (tokenStarts s d)[m]? = some start) (he : start + runLength (· != d) s start = e)
    (hdelim : s[e]? = some d) (hrest : buf.drop (e + 1) = s.drop (e + 1) ++ [0])
    (hstarts : (tokenStarts s d).drop (m + 1) = starts (· != d) false (e + 1) (s.drop (e + 1))) :
    TokenInv s d (m + 1) ⟨buf.set e 0, some (e + 1)⟩ := by
  have hlt : e < buf.length := by
    have hlt' : e < s.length := (List.getElem?_eq_some_iff.mp hdelim).1
    have hlength : buf.length = s.length + 1 := h.length
    omega
  have hset (i : Nat) : (buf.set e 0)[i]? = if e = i then some 0 else buf[i]? := by
    rw [List.getElem?_set, if_pos hlt]
  refine ⟨?_, fun i => ?_, h.ended_succ hget (fun i hi => ?_) ?_, ?_, hstarts⟩
  · dsimp only
    rw [List.length_set, h.length]
  · dsimp only
    rw [hset]
    split_ifs with hi
    · exact .inr ⟨hi ▸ hdelim, rfl⟩
    · exact h.bytes i
  · rw [hset, hi, ite_self]
  · rw [hset, if_pos he.symm]
  · dsimp only
    rw [List.drop_set_of_lt (Nat.lt_succ_self _), hrest]

theorem TokenInv.step (hs : 0 ∉ s) (hd : d ≠ 0) {st : TokenState} (h : TokenInv s d m st) :
    ∃ st', strtokR [d, 0] none st = some ((tokenStarts s d)[m]?, st') ∧ TokenInv s d (m + 1) st' := by
  obtain ⟨buf, saveptr⟩ := st
  cases saveptr with
  | none =>
    -- Once a string is used up, every further call returns `NULL`.
    have hused : (tokenStarts s d).length ≤ m := h.rest
    rw [List.getElem?_eq_none hused]
    exact ⟨_, rfl, h.none_left hused⟩
  | some pos =>
    obtain ⟨hbuf, hstarts⟩ : buf.drop pos = s.drop pos ++ [0] ∧
        (tokenStarts s d).drop m = starts (· != d) false pos (s.drop pos) := h.rest
    obtain ⟨delims, word, tail, hl, hdelims, hword, htail, hempty⟩ := split_token (s.drop pos) d
    have hnul (c : UInt8) (hc : c ∈ word) : c ≠ d ∧ c ≠ 0 := by
      have hmem : c ∈ s.drop pos := by
        rw [hl]
        simp [hc]
      exact ⟨hword c hc, fun hzero => hs (hzero ▸ List.mem_of_mem_drop hmem)⟩
    have hrest : buf.drop pos = delims ++ (word ++ (tail ++ [0])) := by
      rw [hbuf, hl, List.append_assoc, List.append_assoc]
    have hcall := strtokR_from hd hrest hdelims hnul htail hempty
    have hskip : (tokenStarts s d).drop m = starts (· != d) false (pos + delims.length) (word ++ tail) := by
      rw [hstarts, hl]
      exact starts_skip _ pos fun c hc => by simp [hdelims c hc]
    by_cases hword' : word = []
    · -- Only delimiters are left, or nothing at all.
      have htail' := hempty hword'
      rw [hword', htail', List.append_nil, starts] at hskip
      have hused : (tokenStarts s d).length ≤ m := List.drop_eq_nil_iff.mp hskip
      rw [if_pos htail', if_pos hword'] at hcall
      rw [List.getElem?_eq_none hused]
      exact ⟨_, hcall, h.none_left hused⟩
    · have hin : ∀ c ∈ word, (c != d) = true := by simpa using hword
      have hout : ∀ c ∈ tail.head?, (c != d) = false := by simpa using htail
      rw [starts_segment (pos + delims.length) hword' hin hout] at hskip
      have hget := getElem?_of_drop hskip
      have hnext := drop_succ hskip
      have htoken : s.drop (pos + delims.length) = word ++ tail := drop_of_append hl
      have hend : s.drop (pos + delims.length + word.length) = tail := drop_of_append htoken
      have hbufend : buf.drop (pos + delims.length + word.length) = tail ++ [0] :=
        drop_of_append (drop_of_append hrest)
      have hlen := runLength_eq htoken hin hout
      rw [hget]
      cases tail with
      | nil =>
        -- The token goes up to the NUL, which ends it.
        rw [if_pos rfl, if_neg hword'] at hcall
        refine ⟨_, hcall, h.length, h.bytes, h.ended_succ hget (fun _ hi => hi) ?_, List.drop_eq_nil_iff.mp hnext⟩
        rw [hlen]
        exact getElem?_of_drop hbufend
      | cons c tail =>
        obtain rfl : c = d := htail c rfl
        rw [if_neg (List.cons_ne_nil _ _)] at hcall
        refine ⟨_, hcall, h.cut hget (congrArg _ hlen) (getElem?_of_drop hend) ?_ ?_⟩
        · rw [drop_succ hbufend, drop_succ hend]
          rfl
        · rw [hnext, drop_succ hend]
          rfl

theorem TokenInv.nextCalls (hs : 0 ∉ s) (hd : d ≠ 0) (n : Nat) {st : TokenState} (h : TokenInv s d m st) :
    ∃ st', nextCalls [d, 0] n st =
      some ((List.range n).map fun i => (tokenStarts s d)[m + i]?, st') ∧ TokenInv s d (m + n) st' := by
  induction n generalizing m st with
  | zero => exact ⟨st, rfl, h⟩
  | succ n ih =>
    obtain ⟨st₁, hone, h₁⟩ := h.step hs hd
    obtain ⟨st', hrest, h'⟩ := ih h₁
    refine ⟨st', ?_, by rwa [Nat.add_right_comm] at h'⟩
    have hshift (i : Nat) : m + 1 + i = m + (i + 1) := Nat.add_right_comm m 1 i
    simp [Tokens.nextCalls, hone, hrest, List.range_succ_eq_map, Function.comp_def, hshift]

end

/-- For every string and every delimiter: the calls return the maximal runs of other characters, in order, and
`NULL` from then on. Only delimiters are overwritten, each token is ended by a NUL behind its last character, and
every access is to the string and its NUL. -/
theorem strtokR_splits (s : List UInt8) (d : UInt8) (hs : 0 ∉ s) (hd : d ≠ 0) (saveptr : Option Nat) :
    ∃ tokens : List (Nat × Nat),
      (∀ start len, (start, len) ∈ tokens ↔ IsSegment (· != d) s start len) ∧
      tokens.Pairwise (fun r r' => r.1 < r'.1) ∧
      ∀ n, ∃ st, firstCalls [d, 0] n ⟨s ++ [0], saveptr⟩ =
          some ((List.range n).map fun i => tokens[i]?.map Prod.fst, st) ∧
        st.buf.length = s.length + 1 ∧ (∀ i : Nat, st.buf[i]? ≠ (s ++ [0])[i]? → s[i]? = some d) ∧
        ∀ r ∈ tokens.take n, (∀ k < r.2, st.buf[r.1 + k]? = s[r.1 + k]?) ∧ st.buf[r.1 + r.2]? = some 0 := by
  refine ⟨segments (· != d) s, fun start len => mem_segments, segments_pairwise s, fun n => ?_⟩
  cases n with
  | zero => exact ⟨_, rfl, by simp, fun i hne => absurd rfl hne, by simp⟩
  | succ n =>
    obtain ⟨st, hcalls, hinv⟩ := (TokenInv.start s d).nextCalls hs hd (n + 1)
    rw [Nat.zero_add] at hinv
    -- Passing the string is the same as having saved a pointer to its first byte.
    have hfirst : firstCalls [d, 0] (n + 1) ⟨s ++ [0], saveptr⟩ = nextCalls [d, 0] (n + 1) ⟨s ++ [0], some 0⟩ := rfl
    have hstarts (i : Nat) : (segments (· != d) s)[i]?.map Prod.fst = (tokenStarts s d)[i]? := by
      simp [segments, tokenStarts, Function.comp_def]
    refine ⟨st, ?_, hinv.length, fun i hne => ((hinv.bytes i).resolve_left hne).1, fun r hr => ⟨fun k hk => ?_, ?_⟩⟩
    · simpa only [hstarts, hfirst, Nat.zero_add] using hcalls
    · obtain ⟨c, hc, hne⟩ := (mem_segments.mp (List.mem_of_mem_take hr)).inside k hk
      have hd' : s[r.1 + k]? ≠ some d := by
        rw [hc]
        simpa using hne
      have hlt : r.1 + k < s.length := (List.getElem?_eq_some_iff.mp hc).1
      rw [(hinv.bytes (r.1 + k)).resolve_right fun h => hd' h.1, List.getElem?_append_left hlt]
    · rw [segments, ← List.map_take, List.mem_map] at hr
      obtain ⟨i, hi, rfl⟩ := hr
      exact hinv.ended i hi

/-- Four calls on `"/a//bc/"`. -/
theorem strtokR_splits_path :
    ∃ tokens : List (Nat × Nat),
      (∀ start len, (start, len) ∈ tokens ↔
        IsSegment (fun c : UInt8 => c != 0x2f) [0x2f, 0x61, 0x2f, 0x2f, 0x62, 0x63, 0x2f] start len) ∧
      ∃ st, firstCalls [0x2f, 0] 4 ⟨[0x2f, 0x61, 0x2f, 0x2f, 0x62, 0x63, 0x2f] ++ [0], none⟩ =
        some ((List.range 4).map fun i => tokens[i]?.map Prod.fst, st) := by
  obtain ⟨tokens, hmem, -, hcalls⟩ :=
    strtokR_splits [0x2f, 0x61, 0x2f, 0x2f, 0x62, 0x63, 0x2f] 0x2f (by decide) (by decide) none
  obtain ⟨st, hrun, -⟩ := hcalls 4
  exact ⟨tokens, hmem, st, hrun⟩

-- The two tokens begin at 1 and at 4, and the string is left as `"/a\0/bc\0"`.
example : firstCalls [0x2f, 0] 4 ⟨[0x2f, 0x61, 0x2f, 0x2f, 0x62, 0x63, 0x2f, 0], none⟩ =
    some ([some 1, some 4, none, none], ⟨[0x2f, 0x61, 0, 0x2f, 0x62, 0x63, 0, 0], none⟩) := by
  decide

/-! ## The tokenizer of paths -/

/-- `saveptr` points to what is left of a path, or is `NULL` if nothing is. -/
def Saved (st : TokenState) : Option CharBuf → Prop
  | none => st.saveptr = none
  | some rest => 0 ∉ rest.bytes ∧ rest.terminated = true ∧
      ∃ pos, st.saveptr = some pos ∧ st.buf.drop pos = rest.bytes ++ [0]

/-- A token is returned as a pointer to its first byte, and there is a NUL behind its last one. -/
def Returned (buf : List UInt8) (ptr : Option Nat) : Option (List UInt8) → Prop
  | none => ptr = none
  | some word => ∃ pos, ptr = some pos ∧ word ++ [0] <+: buf.drop pos

theorem strtokR_cut {delims word tail : List UInt8} (hdelims : ∀ c ∈ delims, c = SLASH)
    (hword : ∀ c ∈ word, c ≠ SLASH) (htail : ∀ c ∈ tail.head?, c = SLASH) (hempty : word = [] → tail = []) :
    TalOS.strtokR ⟨delims ++ (word ++ tail), true⟩ =
      if tail = [] then some (if word = [] then none else some word, none)
      else some (some word, some ⟨tail.tail, true⟩) := by
  have hskip : (delims ++ (word ++ tail)).dropWhile (· == SLASH) = word ++ tail := by
    rw [List.dropWhile_append_of_pos fun c hc => by simp [hdelims c hc]]
    cases word with
    | nil =>
      rw [hempty rfl]
      rfl
    | cons c word => exact List.dropWhile_cons_of_neg (by simpa using hword c List.mem_cons_self)
  have hwhole (c : UInt8) (hc : c ∈ word) : (c != SLASH) = true := by simpa using hword c hc
  cases tail with
  | nil =>
    have hnone : (word ++ []).dropWhile (· != SLASH) = [] := List.dropWhile_append_of_pos hwhole
    rw [TalOS.strtokR]
    dsimp only
    rw [hskip, hnone, List.append_nil]
    rfl
  | cons c tail =>
    obtain rfl : c = SLASH := htail c rfl
    have hrest : (word ++ SLASH :: tail).dropWhile (· != SLASH) = SLASH :: tail := by
      rw [List.dropWhile_append_of_pos hwhole]
      rfl
    have htoken : (word ++ SLASH :: tail).takeWhile (· != SLASH) = word := by
      rw [List.takeWhile_append_of_pos hwhole]
      exact List.append_nil word
    rw [TalOS.strtokR]
    dsimp only
    rw [hskip, hrest, htoken]
    rfl

/-- A call in memory does what the tokenizer of paths does with the text that is left. -/
theorem Saved.strtokNext {st : TokenState} {saved : Option CharBuf} (h : Saved st saved) :
    ∃ token save ptr st', TalOS.strtokNext saved = some (token, save) ∧
      strtokR [SLASH, 0] none st = some (ptr, st') ∧ Returned st'.buf ptr token ∧ Saved st' save := by
  obtain ⟨buf, saveptr⟩ := st
  cases saved with
  | none =>
    obtain rfl : saveptr = none := h
    exact ⟨none, none, none, ⟨buf, none⟩, rfl, rfl, rfl, rfl⟩
  | some rest =>
    obtain ⟨text, terminated⟩ := rest
    obtain ⟨hnul, rfl, pos, rfl, hbuf⟩ := h
    dsimp only at hnul hbuf
    obtain ⟨delims, word, tail, rfl, hdelims, hword, htail, hempty⟩ := split_token text SLASH
    have hplain (c : UInt8) (hc : c ∈ word) : c ≠ SLASH ∧ c ≠ 0 := by
      refine ⟨hword c hc, ?_⟩
      rintro rfl
      exact hnul (by simp [hc])
    rw [List.append_assoc, List.append_assoc] at hbuf
    have hcall := strtokR_from (by decide) hbuf hdelims hplain htail hempty
    have hnext : TalOS.strtokNext (some ⟨delims ++ (word ++ tail), true⟩) = _ :=
      strtokR_cut hdelims hword htail hempty
    have htoken : buf.drop (pos + delims.length) = word ++ (tail ++ [0]) := drop_of_append hbuf
    have hend : buf.drop (pos + delims.length + word.length) = tail ++ [0] := drop_of_append htoken
    cases tail with
    | nil =>
      refine ⟨_, _, _, _, hnext, hcall, ?_, rfl⟩
      by_cases hword' : word = []
      · rw [if_pos hword', if_pos hword']
        rfl
      · rw [if_neg hword', if_neg hword']
        exact ⟨_, rfl, htoken ▸ List.prefix_rfl⟩
    | cons c tail =>
      refine ⟨_, _, _, _, hnext, hcall, ⟨_, rfl, ?_⟩, ?_, rfl, _, rfl, ?_⟩
      · -- The slash behind the token has become its NUL.
        have hset : (buf.set (pos + delims.length + word.length) 0).drop (pos + delims.length) =
            word ++ [0] ++ (tail ++ [0]) := by
          rw [List.drop_set, if_neg (Nat.not_lt.mpr (Nat.le_add_right _ _)), Nat.add_sub_cancel_left, htoken,
            List.set_append_right _ _ (Nat.le_refl _), Nat.sub_self, List.append_assoc]
          rfl
        exact hset ▸ List.prefix_append _ _
      · intro hmem
        have htailmem : (0 : UInt8) ∈ tail := hmem
        exact hnul (by simp [htailmem])
      · rw [List.drop_set_of_lt (Nat.lt_succ_self _)]
        exact drop_succ hend

end Tokens

end TalOS
