-- SUMMARY: With arguments that match the format, the formatter in memory is the one over the list.
import TalOS.Libk.FormatReads

/-!
# Matching arguments

The text of a format is defined over the list of what is still to be read and the list of
the arguments that are left. When the words on the stack hold these arguments, each turn over
the list is the turn at the position where the list stands, so that a call that has a text
prints it in memory as well.
-/

open MachineInt Bounded

namespace TalOS

variable {σ : Type}

/-- The words from `next` on hold these arguments. -/
def Stack.Holds (st : Stack) : Nat → List Arg → Prop
  | _, [] => True
  | next, .word w :: rest => st.words next = w ∧ st.Holds (next + 1) rest
  | next, .dword w :: rest => st.dword next = w ∧ st.Holds (next + 2) rest
  | next, .str s :: rest => st.string (st.words next) = s ∧ st.Holds (next + 1) rest

section
variable {cpyFun : CopyFun σ} {n beyond : Nat} {format : List UInt8} {st : Stack} {s : Scan σ}

/-- The turn at a position does what the turn over the rest of the format does. -/
def Follows (format : List UInt8) (st : Stack) (turn : Option (Scan σ × Exit)) (r : Cursor × Output σ × Exit) :
    Prop :=
  ∃ s', turn = some (s', r.2.2) ∧ s'.out = r.2.1 ∧ s'.pos ≤ format.length ∧
    (r.2.2 = .go → StandsAt format s'.pos r.1.format ∧ st.Holds s'.next r.1.parameters)

theorem copyFormat_follows {maxrem : Nat} {run rest : List UInt8} {ap : List Arg} {q : Output σ × Exit}
    (h : StandsAt format s.pos (run ++ rest)) (hargs : st.Holds s.next ap)
    (hq : emitRun cpyFun n maxrem run s.out = some q) :
    Follows format st (copyFormat cpyFun n maxrem format run.length s) (⟨rest, ap⟩, q) := by
  unfold emitRun at hq
  unfold copyFormat
  dsimp only at hq ⊢
  split at hq
  · next hrem =>
    cases hq
    exact ⟨s, if_pos hrem, rfl, h.pos_le, nofun⟩
  · next hrem =>
    rw [if_neg hrem]
    split at hq
    · next hcut =>
      rw [if_pos hcut]
      generalize sub32 (sub32 n s.out.written) 1 = amount at hq ⊢
      split at hq
      · next hle =>
        have h' : StandsAt format s.pos (run.take amount ++ (run.drop amount ++ rest)) := by
          rw [← List.append_assoc, List.take_append_drop]
          exact h
        have hread := h'.readChars_eq
        rw [List.length_take_of_le hle] at hread
        cases hq
        have hpos := h.append.pos_le
        refine ⟨_, congrArg (Option.map _) hread, rfl, by dsimp only; omega, fun hgo => ?_⟩
        rcases copyOut_snd cpyFun (run.take amount) s.out .stop with hexit | hexit <;>
          exact nomatch hgo.symm.trans hexit
      · cases hq
    · next hcut =>
      rw [if_neg hcut]
      cases hq
      exact ⟨_, congrArg (Option.map _) h.readChars_eq, rfl, h.append.pos_le, fun _ => ⟨h.append, hargs⟩⟩

theorem takeWhile_text {text : List UInt8} (hnul : NUL ∉ text) :
    (text.takeWhile fun c => c != NUL && c != PERCENT) = text.takeWhile (· != PERCENT) := by
  induction text with
  | nil => rfl
  | cons c text ih =>
    have hc : (c != NUL) = true := bne_iff_ne.mpr fun heq => hnul (heq ▸ List.mem_cons_self)
    rw [List.takeWhile_cons, List.takeWhile_cons, hc, Bool.true_and, ih fun h => hnul (List.mem_cons_of_mem _ h)]

theorem literalAt_follows {maxrem : Nat} {c : UInt8} {rest : List UInt8} {ap : List Arg} {q : Output σ × Exit}
    (h : StandsAt format s.pos (c :: rest)) (hnul : NUL ∉ rest) (hargs : st.Holds s.next ap)
    (hq : emitRun cpyFun n maxrem (c :: rest.takeWhile (· != PERCENT)) s.out = some q) :
    Follows format st (literalAt cpyFun n maxrem format s) (⟨rest.dropWhile (· != PERCENT), ap⟩, q) := by
  have hsplit : c :: rest = (c :: rest.takeWhile (· != PERCENT)) ++ rest.dropWhile (· != PERCENT) := by
    rw [List.cons_append, List.takeWhile_append_dropWhile]
  have hrun := h
  rw [hsplit] at hrun
  have hamount : s.pos + 1 + (rest.takeWhile (· != PERCENT)).length - s.pos =
      (c :: rest.takeWhile (· != PERCENT)).length := by
    rw [List.length_cons]
    omega
  unfold literalAt
  rw [skipWhile_eq rfl h.tail, Option.bind_some, takeWhile_text hnul, hamount]
  exact copyFormat_follows hrun hargs hq

/-- What a turn prints for a conversion. -/
def printConv (cpyFun : CopyFun σ) (n maxrem : Nat) (format : List UInt8) (spec : Spec) (o : Output σ) :
    Conv → Option (Output σ × Exit)
  | .char ch => some (printChar cpyFun n maxrem ch o)
  | .str s => printStr cpyFun n maxrem spec.width s o
  | .number strNum => printNumber cpyFun strNum spec.precision spec.width spec.zeroPad n maxrem o
  | .unknown => emitRun cpyFun n maxrem format o

theorem fetchWord_holds {conv : IntConv} {ap : List Arg} {next : Nat} {r : List UInt8 × List Arg}
    (hargs : st.Holds next ap) (h : fetchWord conv ap = some r) :
    r.1 = wordText conv (st.words next) ∧ st.Holds (next + 1) r.2 := by
  unfold fetchWord at h
  split at h
  · obtain rfl := Option.some.inj h
    exact ⟨by rw [hargs.1], hargs.2⟩
  · cases h

theorem fetchDword_holds {conv : IntConv} {ap : List Arg} {next : Nat} {r : List UInt8 × List Arg}
    (hargs : st.Holds next ap) (h : fetchDword conv ap = some r) :
    r.1 = dwordText conv (st.dword next) ∧ st.Holds (next + 2) r.2 := by
  unfold fetchDword at h
  split at h
  · obtain rfl := Option.some.inj h
    exact ⟨by rw [hargs.1], hargs.2⟩
  · cases h

/-- A number conversion, for either size of its argument. -/
theorem scanNumber_holds {fetch : IntConv → List Arg → Option (List UInt8 × List Arg)}
    {number : UInt8 → List UInt8 × Nat} {text : IntConv → List UInt8} {letters : List UInt8} {ap : List Arg}
    {next slots : Nat} {r : List UInt8 × Cursor}
    (hsome : ∀ c conv, intConv c = some conv → number c = (text conv, next + slots))
    (hnone : ∀ c, intConv c = none → number c = ([], next))
    (hfetch : ∀ conv r, fetch conv ap = some r → r.1 = text conv ∧ st.Holds (next + slots) r.2)
    (hargs : st.Holds next ap) (h : scanNumber fetch letters ap = some r) :
    ∃ c, letters = c :: r.2.format ∧ (number c).1 = r.1 ∧ st.Holds (number c).2 r.2.parameters := by
  cases letters with
  | nil => cases h
  | cons c letters =>
    unfold scanNumber at h
    dsimp only at h
    refine ⟨c, ?_⟩
    split at h
    · next conv hletter =>
      obtain ⟨q, hq, rfl⟩ := Option.map_eq_some_iff.mp h
      obtain ⟨htext, hholds⟩ := hfetch conv q hq
      rw [hsome c conv hletter]
      exact ⟨rfl, htext.symm, hholds⟩
    · next hletter =>
      obtain rfl := Option.some.inj h
      rw [hnone c hletter]
      exact ⟨rfl, rfl, hargs⟩

theorem scanNumber_word {letters : List UInt8} {ap : List Arg} {next : Nat} {r : List UInt8 × Cursor}
    (hargs : st.Holds next ap) (h : scanNumber fetchWord letters ap = some r) :
    ∃ c, letters = c :: r.2.format ∧ (st.wordNumber c next).1 = r.1 ∧
      st.Holds (st.wordNumber c next).2 r.2.parameters :=
  scanNumber_holds (fun _ _ hletter => by rw [Stack.wordNumber, hletter])
    (fun _ hletter => by rw [Stack.wordNumber, hletter]) (fun _ _ => fetchWord_holds hargs) hargs h

theorem scanNumber_dword {letters : List UInt8} {ap : List Arg} {next : Nat} {r : List UInt8 × Cursor}
    (hargs : st.Holds next ap) (h : scanNumber fetchDword letters ap = some r) :
    ∃ c, letters = c :: r.2.format ∧ (st.dwordNumber c next).1 = r.1 ∧
      st.Holds (st.dwordNumber c next).2 r.2.parameters :=
  scanNumber_holds (fun _ _ hletter => by rw [Stack.dwordNumber, hletter])
    (fun _ hletter => by rw [Stack.dwordNumber, hletter]) (fun _ _ => fetchDword_holds hargs) hargs h

/-- The conversion of the letters at `q` prints what the conversion read from the list prints. -/
theorem convAt_follows {maxrem q : Nat} {letters begun : List UInt8} {spec : Spec} {ap : List Arg} {conv : Conv}
    {cursor : Cursor} {p : Output σ × Exit} (hletters : StandsAt format q letters)
    (hbegun : StandsAt format s.pos begun) (hnul : NUL ∉ begun) (hargs : st.Holds s.next ap)
    (hconv : scanConv letters ap = some (conv, cursor))
    (hp : printConv cpyFun n maxrem begun spec s.out conv = some p) :
    Follows format st (convAt cpyFun n maxrem format st spec q s) (cursor, p) := by
  have hnumber : ∀ {num : List UInt8 × Nat} {strNum : List UInt8} {behind : Nat} {c : Cursor},
      num.1 = strNum → printNumber cpyFun strNum spec.precision spec.width spec.zeroPad n maxrem s.out = some p →
      StandsAt format behind c.format → st.Holds num.2 c.parameters →
      Follows format st ((printNumber cpyFun num.1 spec.precision spec.width spec.zeroPad n maxrem s.out).map
        fun r => ((⟨behind, num.2, r.1⟩ : Scan σ), r.2)) (c, p) := by
    rintro num strNum behind c rfl hprint hstands hholds
    exact ⟨_, by rw [hprint]; rfl, rfl, hstands.pos_le, fun _ => ⟨hstands, hholds⟩⟩
  unfold convAt
  dsimp only
  rw [hletters.charAt_eq, Option.bind_some]
  cases scanConv_scans hconv with
  | char hfetch =>
    rw [hfetch] at hargs
    cases hp
    rw [List.headD_cons, if_pos rfl, hargs.1]
    exact ⟨_, rfl, rfl, hletters.tail.pos_le, fun _ => ⟨hletters.tail, hargs.2⟩⟩
  | str hfetch =>
    rw [hfetch] at hargs
    rw [List.headD_cons, if_neg (by decide), if_pos rfl, hargs.1]
    exact ⟨_, congrArg (Option.map _) hp, rfl, hletters.tail.pos_le, fun _ => ⟨hletters.tail, hargs.2⟩⟩
  | longLong hnum =>
    obtain ⟨c', rfl, htext, hholds⟩ := scanNumber_dword hargs hnum
    rw [List.headD_cons, if_neg (by decide), if_neg (by decide), if_pos rfl, hletters.tail.charAt_eq, Option.bind_some,
      List.headD_cons, if_pos rfl, hletters.tail.tail.charAt_eq, Option.bind_some, List.headD_cons]
    exact hnumber htext hp hletters.tail.tail.tail hholds
  | long hformat hnum =>
    obtain ⟨c', rfl, htext, hholds⟩ := scanNumber_word hargs hnum
    have hne : c' ≠ LETTER_l := fun heq => hformat (congrArg some heq)
    rw [List.headD_cons, if_neg (by decide), if_neg (by decide), if_pos rfl, hletters.tail.charAt_eq, Option.bind_some,
      List.headD_cons, if_neg hne]
    exact hnumber htext hp hletters.tail.tail hholds
  | plain hletter hconv' hnum =>
    obtain ⟨htext, hholds⟩ := fetchWord_holds hargs hnum
    rw [List.headD_cons]
    simp only [List.mem_cons, List.not_mem_nil, or_false, not_or] at hletter
    rw [if_neg hletter.1, if_neg hletter.2.1, if_neg hletter.2.2, hconv']
    exact @hnumber (_, s.next + 1) _ (q + 1) ⟨_, _⟩ htext.symm hp hletters.tail hholds
  | unknown hletter hconv' =>
    -- The format is copied from the `%` on to its end.
    simp only [List.mem_cons, List.not_mem_nil, or_false, not_or] at hletter
    rw [if_neg hletter.1, if_neg hletter.2.1, if_neg hletter.2.2, hconv']
    have hall : begun.takeWhile (· != NUL) = begun := by
      refine List.takeWhile_eq_self_iff.mpr fun c hc => bne_iff_ne.mpr ?_
      rintro rfl
      exact hnul hc
    rw [skipWhile_eq rfl hbegun, Option.bind_some, hall, Nat.add_sub_cancel_left]
    exact copyFormat_follows (by rw [List.append_nil]; exact hbegun) hargs hp

/-- One turn, at a position and over the rest of the format. -/
theorem turnAt_follows {c : Cursor} {r : Cursor × Output σ × Exit} (h : StandsAt format s.pos c.format)
    (hne : c.format ≠ []) (hnul : NUL ∉ c.format) (hargs : st.Holds s.next c.parameters)
    (hstep : genStep cpyFun beyond n c s.out = some r) :
    Follows format st (turnAt cpyFun beyond n format st s) r := by
  obtain ⟨text, ap⟩ := c
  obtain ⟨c, rest, rfl⟩ := List.exists_cons_of_ne_nil hne
  have hnul' : NUL ∉ rest := fun hmem => hnul (List.mem_cons_of_mem c hmem)
  unfold genStep at hstep
  unfold turnAt
  dsimp only at hstep h ⊢
  rw [h.charAt_eq, Option.bind_some, List.headD_cons]
  by_cases hc : c = PERCENT
  · subst hc
    rw [if_neg (not_not_intro rfl), h.tail.charAt_eq, Option.bind_some]
    cases rest with
    | nil =>
      -- A lone `%` at the end is copied like an unknown conversion.
      have hspec : scanSpec beyond [] = (⟨0, 0, 0⟩, []) := rfl
      obtain ⟨q, hq, -, hletters⟩ := scanSpecAt_eq beyond h.tail
      rw [hspec] at hq hletters
      rw [if_neg (show ¬ startsLiteral [PERCENT] = true by decide)] at hstep
      obtain ⟨p, hp, rfl⟩ := Option.map_eq_some_iff.mp hstep
      rw [if_neg (by decide), hq, Option.bind_some]
      exact convAt_follows hletters h hnul hargs rfl hp
    | cons c rest =>
      rw [List.headD_cons]
      by_cases hc : c = PERCENT
      · subst hc
        rw [if_pos (show startsLiteral (PERCENT :: PERCENT :: rest) = true from rfl)] at hstep
        obtain ⟨q, hq, rfl⟩ := Option.map_eq_some_iff.mp hstep
        rw [if_pos rfl]
        exact literalAt_follows (s := { s with pos := s.pos + 1 }) h.tail
          (fun hmem => hnul' (List.mem_cons_of_mem _ hmem)) hargs hq
      · have hliteral : ¬ startsLiteral (PERCENT :: c :: rest) = true := by
          simpa [startsLiteral] using hc
        rw [if_neg hliteral] at hstep
        obtain ⟨⟨conv, cursor⟩, hconv, hprint⟩ := Option.bind_eq_some_iff.mp hstep
        obtain ⟨p, hp, rfl⟩ := Option.map_eq_some_iff.mp hprint
        obtain ⟨q, hq, -, hletters⟩ := scanSpecAt_eq beyond h.tail
        rw [if_neg hc, hq, Option.bind_some]
        exact convAt_follows hletters h hnul hargs hconv (by cases conv <;> exact hp)
  · have hliteral : startsLiteral (c :: rest) = true := by
      simp [startsLiteral, hc]
    have hrun : literalRun (c :: rest) =
        (c :: rest.takeWhile (· != PERCENT), rest.dropWhile (· != PERCENT)) := by
      have hfirst : ¬ (c :: rest).head? = some PERCENT := fun heq => hc (Option.some.inj heq)
      unfold literalRun
      rw [if_neg hfirst]
      rfl
    rw [if_pos hliteral, hrun] at hstep
    obtain ⟨q, hq, rfl⟩ := Option.map_eq_some_iff.mp hstep
    rw [if_pos hc]
    exact literalAt_follows h hnul' hargs hq

/-- The loop over the list is followed to its end. -/
theorem loopAt_follows (hnul : NUL ∉ format) {fuel : Nat} : ∀ {c : Cursor} {s : Scan σ} {r : Output σ × Exit},
    StandsAt format s.pos c.format → st.Holds s.next c.parameters →
    genLoop cpyFun beyond n fuel c s.out = some r →
    ∃ fuel, loopAt cpyFun beyond n format st fuel s .go = some r := by
  induction fuel with
  | zero =>
    intro c s r _ _ hloop
    simp [genLoop] at hloop
  | succ fuel ih =>
    intro c s r h hargs hloop
    unfold genLoop at hloop
    split at hloop
    · next hend =>
      rw [hend] at h
      cases hloop
      exact ⟨1, by rw [loopAt, h.charAt_eq, Option.bind_some, if_pos (.inl rfl)]⟩
    · next hne =>
      obtain ⟨step, hstep, hrest⟩ := Option.bind_eq_some_iff.mp hloop
      have hnul' : NUL ∉ c.format := by
        rw [← h.drop_eq]
        exact fun hmem => hnul (List.mem_of_mem_drop hmem)
      obtain ⟨s', hturn, hout, hpos, hgo⟩ := turnAt_follows h hne hnul' hargs hstep
      have hlt : s.pos < format.length := by
        rw [← h.length_eq]
        exact Nat.lt_add_of_pos_right (List.length_pos_of_ne_nil hne)
      obtain ⟨a, ha, hne'⟩ := charAt_ne_nul hnul hlt
      have hone : ∀ fuel, loopAt cpyFun beyond n format st (fuel + 1) s .go =
          if step.2.2 = .error then some (s'.out, .error)
          else loopAt cpyFun beyond n format st fuel s' step.2.2 := by
        intro fuel
        rw [loopAt, ha, Option.bind_some, if_neg (not_or_intro hne' (not_not_intro rfl)), hturn, Option.bind_some]
      obtain ⟨c', o, exit⟩ := step
      dsimp only at hone hrest hout hgo
      subst hout
      cases exit with
      | error =>
        cases hrest
        exact ⟨1, (hone 0).trans (if_pos rfl)⟩
      | stop =>
        cases hrest
        -- The loop sees the exit at the head of the turn after.
        refine ⟨2, (hone 1).trans ?_⟩
        rw [if_neg (by simp), loopAt, (standsAt_drop hpos).charAt_eq, Option.bind_some, if_pos (.inr (by simp))]
      | go =>
        obtain ⟨hstands, hholds⟩ := hgo rfl
        obtain ⟨fuel', hloop'⟩ := ih hstands hholds hrest
        exact ⟨fuel' + 1, (hone fuel').trans ((if_neg (by simp)).trans hloop')⟩

/-- With matching arguments the formatter over the list is the formatter in memory. -/
theorem genPrintfAt_genPrintf {terminate : Option (σ → Nat → σ)} {ap : List Arg} {sink : σ} {r : σ × Int}
    (hnul : NUL ∉ format) (hargs : st.Holds 0 ap)
    (h : genPrintf cpyFun terminate beyond n format ap sink = some r) :
    ∃ fuel, genPrintfAt cpyFun terminate beyond n format st fuel sink = some r := by
  obtain ⟨q, hloop, rfl⟩ := Option.map_eq_some_iff.mp h
  obtain ⟨fuel, hloop'⟩ := loopAt_follows (s := ⟨0, 0, ⟨sink, 0⟩⟩) hnul (standsAt_drop (Nat.zero_le _)) hargs hloop
  exact ⟨fuel, congrArg (Option.map _) hloop'⟩

end

end TalOS
